-- Double-precision numbers. The finite magnitudes are numbered in increasing
-- order: rank 0 is zero, and the next rank is the next larger magnitude. There
-- is one not-a-number; nothing below tells two of them apart.
namespace Blockwork

-- Ranks of finite magnitudes lie below this one, which stands for two to the 1024.
def rankLimit : Nat := 0x7ff0000000000000

def twoTo (exponent : Nat) : Nat := Nat.pow 2 exponent

def stride : Nat := twoTo 52

-- Magnitude of a rank, counted in units of two to the -1074.
def magnitude (rank : Nat) : Nat :=
  if rank < stride then rank else (rank % stride + stride) * twoTo (rank / stride - 1)

inductive Double where
  | nan
  | infinite (negative : Bool)
  | finite (negative : Bool) (rank : Fin rankLimit)
  deriving DecidableEq

namespace Double

def zero : Double := .finite false ⟨0, by decide⟩

instance : Inhabited Double := ⟨zero⟩

def isFinite : Double → Bool
  | .finite .. => true
  | _ => false

-- Comparison as numbers: both zeros are equal, and nothing equals not-a-number.
def equals : Double → Double → Bool
  | .infinite a, .infinite b => a == b
  | .finite a m, .finite b n => m == n && (a == b || m.val == 0)
  | _, _ => false

def wholePart : Double → Option Int
  | .finite negative rank =>
    let whole : Int := (magnitude rank.val / twoTo 1074 : Nat)
    some (if negative then -whole else whole)
  | _ => none

def ofRank (negative : Bool) (rank : Nat) : Double :=
  if inside : rank < rankLimit then .finite negative ⟨rank, inside⟩ else .infinite negative

end Double

-- Rounding an exact quotient, and with it a decimal, to the nearest double. A
-- quotient halfway between two ranks goes to the even one.

-- Searches the greatest number below `found + twoTo bits` that passes a test. Once the
-- test fails it has to fail for all larger numbers.
def greatest (test : Nat → Bool) : Nat → Nat → Nat
  | 0, found => found
  | bits + 1, found =>
    greatest test bits (if test (found + twoTo bits) then found + twoTo bits else found)

def nearestRank (num den : Nat) : Nat :=
  let scaled := num * twoTo 1074
  let below := greatest (fun rank => magnitude rank * den ≤ scaled) 63 0
  let middle := (magnitude below + magnitude (below + 1)) * den
  if 2 * scaled < middle then below
  else if middle < 2 * scaled then below + 1
  else if below % 2 = 0 then below else below + 1

-- Products and quotients of magnitudes, by rank. Magnitudes are counted in units of two to the -1074.
def timesRank (a b : Nat) : Nat := nearestRank (magnitude a * magnitude b) (twoTo 2148)

def overRank (a b : Nat) : Nat := nearestRank (magnitude a) (magnitude b)

def tensRank (exponent : Nat) : Nat := nearestRank (Nat.pow 10 exponent) 1

namespace Double

def ofFraction (negative : Bool) (num den : Nat) : Double := ofRank negative (nearestRank num den)

-- Nearest double to `digits` times ten to the `exponent`. Exponents far out of range
-- are settled at once: without them the powers of ten below would have no bound.
def ofDecimal (negative : Bool) (digits : Nat) (exponent : Int) : Double :=
  if digits = 0 then ofRank negative 0
  else if 310 ≤ exponent then .infinite negative
  else if exponent ≤ -(digits.log2 + 400 : Int) then ofRank negative 0
  else if 0 ≤ exponent then ofFraction negative (digits * Nat.pow 10 exponent.toNat) 1
  else ofFraction negative digits (Nat.pow 10 (-exponent).toNat)

def ofInt (value : Int) : Double := ofFraction (value < 0) value.natAbs 1

end Double
end Blockwork

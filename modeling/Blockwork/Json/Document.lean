import Blockwork.Number.Decimal

-- A JSON text as it is spelled, before anything is made of it: numbers are not
-- yet rounded, repeated keys are all there, and a string literal may spell no
-- text at all.
namespace Blockwork.Json

-- A number literal: the digits before and behind its point, and its exponent of ten if
-- it has one.
structure Literal where
  negative : Bool
  whole : List Char
  places : List Char
  exponent : Option Int
  deriving DecidableEq

-- String literals spell `none` if an escape names half of a surrogate pair.
inductive Document where
  | null
  | bool (value : Bool)
  | number (literal : Literal)
  | text (spelled : Option String)
  | array (items : List Document)
  | object (members : List (Option String × Document))

-- A number as data: integers that fit 64 bits stay what they are, all else is a double.
inductive Number where
  | integer (value : Int)
  | real (value : Double)
  deriving DecidableEq

namespace Literal

-- Digits are taken as long as their value fits 64 bits; the others are handed back.
def takeDigits (value : Nat) : List Char → Nat × List Char
  | [] => (value, [])
  | c :: rest =>
    if value * 10 + digitValue c < UInt64.size then takeDigits (value * 10 + digitValue c) rest
    else (value, c :: rest)

-- Dividing by ten to the `exponent`, by at most ten to the 308 at a time. Each division rounds.
def lowerRank : Nat → Nat → Nat → Nat
  | 0, rank, exponent => overRank rank (tensRank exponent)
  | steps + 1, rank, exponent =>
    if rank = 0 then rank else lowerRank steps (overRank rank (tensRank 308)) (exponent - 308)

-- The significand is rounded before it is scaled, and scaling rounds again. So the result is
-- not always the double nearest to the literal.
def scaleRank (significand : Nat) (exponent : Int) : Nat :=
  let rank := nearestRank significand 1
  if exponent < 0 then
    let places := (-exponent).toNat
    lowerRank ((places - 1) / 308) rank places
  else if exponent ≤ 308 then timesRank rank (tensRank exponent.toNat)
  else if rank = 0 then rank else rankLimit

def real? (negative : Bool) (significand : Nat) (exponent : Int) : Option Number :=
  let rank := scaleRank significand exponent
  if inside : rank < rankLimit then some (.real (.finite negative ⟨rank, inside⟩)) else none

-- The number of a literal; none if it is too large for a double. Digits that are not taken
-- count as zeros before the point, and not at all behind it.
def number? (literal : Literal) : Option Number :=
  let (first, beyond) := takeDigits 0 literal.whole
  let isWhole := literal.places.isEmpty && literal.exponent.isNone && beyond.isEmpty
  if isWhole ∧ !literal.negative then some (.integer first)
  else if isWhole ∧ 0 < first ∧ first ≤ twoTo 63 then some (.integer (-first))
  else
    let (significand, dropped) := takeDigits first literal.places
    let taken := literal.places.length - dropped.length
    real? literal.negative significand (literal.exponent.getD 0 + beyond.length - taken)

end Literal

def Number.toDouble : Number → Double
  | .integer value => .ofInt value
  | .real value => value

end Blockwork.Json

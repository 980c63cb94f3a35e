import Blockwork.Number.Double

-- Reading a number from text: a sign, then a word for infinity or not-a-number
-- in any case, or decimal digits with an optional point and an optional exponent.
namespace Blockwork

def isDigit (c : Char) : Bool := decide ('0' ≤ c) && decide (c ≤ '9')

def digitValue (c : Char) : Nat := c.toNat - 48

def digitsValue (start : Nat) (cs : List Char) : Nat :=
  cs.foldl (fun value c => value * 10 + digitValue c) start

def splitSign : List Char → Bool × List Char
  | '-' :: rest => (true, rest)
  | '+' :: rest => (false, rest)
  | cs => (false, cs)

def readExponent? : List Char → Option Int
  | [] => some 0
  | mark :: rest =>
    let (negative, digits) := splitSign rest
    if (mark = 'e' ∨ mark = 'E') ∧ digits ≠ [] ∧ digits.all isDigit then
      let size : Int := digitsValue 0 digits
      some (if negative then -size else size)
    else none

def readMagnitude? (negative : Bool) (cs : List Char) : Option Double :=
  let whole := cs.takeWhile isDigit
  let (places, rest) := match cs.dropWhile isDigit with
    | '.' :: rest => (rest.takeWhile isDigit, rest.dropWhile isDigit)
    | rest => ([], rest)
  if whole.isEmpty && places.isEmpty then none
  else (readExponent? rest).map fun exponent =>
    .ofDecimal negative (digitsValue 0 (whole ++ places)) (exponent - places.length)

def Double.read? (s : String) : Option Double :=
  let (negative, rest) := splitSign s.toList
  let word := rest.map Char.toLower
  if word = "inf".toList ∨ word = "infinity".toList then some (.infinite negative)
  else if word = "nan".toList then some .nan
  else readMagnitude? negative rest

-- The fewest decimal digits that still read back as the same double, and of
-- those the nearest. All arithmetic is exact; the search goes from coarse to
-- fine powers of ten.
structure Decimal where
  digits : Nat
  exponent : Int
  deriving DecidableEq

inductive Tie where
  | up
  | even

def tenTo (exponent : Int) : Nat × Nat :=
  if 0 ≤ exponent then (Nat.pow 10 exponent.toNat, 1) else (1, Nat.pow 10 (-exponent).toNat)

-- The decimal `digits * num / den` lies among the reals that round to the rank. The
-- ends of that interval belong to it if the rank is even.
def roundsTo (rank num den digits : Nat) : Bool :=
  let value := digits * num * twoTo 1075
  let low := (magnitude (rank - 1) + magnitude rank) * den
  let high := (magnitude rank + magnitude (rank + 1)) * den
  if rank % 2 = 0 then decide (low ≤ value) && decide (value ≤ high)
  else decide (low < value) && decide (value < high)

def onGrid (tie : Tie) (rank : Nat) (exponent : Int) : Option Decimal :=
  let (num, den) := tenTo exponent
  let value := 2 * magnitude rank * den
  let unit := num * twoTo 1075
  let below := value / unit
  let above := below + 1
  match roundsTo rank num den below, roundsTo rank num den above with
  | false, false => none
  | true, false => some ⟨below, exponent⟩
  | false, true => some ⟨above, exponent⟩
  | true, true =>
    let rest := 2 * (value % unit)
    if rest < unit then some ⟨below, exponent⟩
    else if unit < rest then some ⟨above, exponent⟩
    else match tie with
      | .up => some ⟨above, exponent⟩
      | .even => some ⟨if below % 2 = 0 then below else above, exponent⟩

def coarsest (rank : Nat) : Int := (((magnitude rank).log2 : Int) - 1073) * 30103 / 100000 + 2

-- Shortest decimal of a rank above zero. The last resort is the exact value.
def shortest (tie : Tie) (rank : Nat) : Decimal :=
  ((List.range 25).findSome? fun (step : Nat) => onGrid tie rank (coarsest rank - step)).getD
    ⟨magnitude rank * Nat.pow 5 1074, -1074⟩

-- Writing a double as text: the shortest digits laid out by the rules of a format.
-- `positional` gets the exponent of the leading digit.
structure Layout where
  tie : Tie
  positional : Int → Bool
  wholePoint : Bool
  -- Exponents that are not negative have a plus.
  plus : Bool

namespace Layout

def zeros (count : Nat) : List Char := List.replicate count '0'

def positionalText (layout : Layout) (digits : List Char) (exponent : Int) : List Char :=
  let point : Int := digits.length + exponent
  if 0 ≤ exponent then
    digits ++ zeros exponent.toNat ++ (if layout.wholePoint then ['.', '0'] else [])
  else if 0 < point then digits.take point.toNat ++ '.' :: digits.drop point.toNat
  else '0' :: '.' :: zeros (-point).toNat ++ digits

def scientificText (layout : Layout) (digits : List Char) (leading : Int) : List Char :=
  let mantissa := match digits with
    | first :: second :: rest => first :: '.' :: second :: rest
    | short => short
  let sign := if leading < 0 then ['-'] else if layout.plus then ['+'] else []
  mantissa ++ 'e' :: sign ++ Nat.toDigits 10 leading.natAbs

def decimalText (layout : Layout) (decimal : Decimal) : List Char :=
  let digits := Nat.toDigits 10 decimal.digits
  let leading : Int := digits.length - 1 + decimal.exponent
  if layout.positional leading then layout.positionalText digits decimal.exponent
  else layout.scientificText digits leading

def magnitudeText (layout : Layout) (rank : Nat) : String :=
  if rank = 0 then if layout.wholePoint then "0.0" else "0"
  else String.ofList (layout.decimalText (shortest layout.tie rank))

def text (layout : Layout) : Double → String
  | .nan => "NaN"
  | .infinite false => "inf"
  | .infinite true => "-inf"
  | .finite negative rank => (if negative then "-" else "") ++ layout.magnitudeText rank.val

def shown : Layout where
  tie := .up
  positional := fun leading => decide (-4 ≤ leading) && decide (leading < 16)
  wholePoint := true
  plus := false

def plain : Layout where
  tie := .up
  positional := fun _ => true
  wholePoint := false
  plus := false

def saved : Layout where
  tie := .even
  positional := fun leading => decide (-5 ≤ leading) && decide (leading < 16)
  wholePoint := true
  plus := true

end Layout
end Blockwork

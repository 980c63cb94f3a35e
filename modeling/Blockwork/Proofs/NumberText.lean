import Mathlib
import Blockwork.Json.Writer
import Blockwork.Proofs.Identifiers
import Blockwork.Proofs.NearestDouble

-- Numbers that were written, as literals and as the numbers they are read as. The
-- literal has the value of the shortest decimal of the number, though not always
-- its digits: zeros that fill up a whole number count as digits. Integers are
-- always read as they were, and a double is if its literal is short; the reader
-- rounds more than once, so longer ones may come back as a neighbour.
namespace Blockwork

theorem digitsValue_eq (start : Nat) (cs : List Char) : digitsValue start cs = Nat.ofDigitChars 10 cs start := by
  simp only [digitsValue, Nat.ofDigitChars, digitValue, Nat.mul_comm]
  rfl

theorem digitsValue_toDigits (n : Nat) : digitsValue 0 (Nat.toDigits 10 n) = n := by
  rw [digitsValue_eq, Nat.ofDigitChars_toDigits (by decide) (by decide)]

theorem digitsValue_append (start : Nat) (first second : List Char) :
    digitsValue start (first ++ second) = digitsValue (digitsValue start first) second :=
  List.foldl_append

theorem digitsValue_zeros (start count : Nat) :
    digitsValue start (Layout.zeros count) = start * 10 ^ count := by
  induction count generalizing start with
  | zero => simp [Layout.zeros, digitsValue]
  | succ count ih =>
    show digitsValue (start * 10 + 0) (Layout.zeros count) = _
    rw [ih, Nat.pow_succ', Nat.add_zero, Nat.mul_assoc]

theorem le_digitsValue (start : Nat) (ds : List Char) : start ≤ digitsValue start ds := by
  induction ds generalizing start with
  | nil => exact le_rfl
  | cons c rest ih =>
    have first : start ≤ start * 10 + digitValue c := by omega
    exact first.trans (ih _)

theorem isDigit_iff {c : Char} : isDigit c = true ↔ c.isDigit = true := by
  simp [isDigit, Char.isDigit, Char.le_def]

theorem toDigits_isDigit (n : Nat) : ∀ c ∈ Nat.toDigits 10 n, isDigit c = true := fun _ member =>
  isDigit_iff.mpr (Nat.isDigit_of_mem_toDigits (by decide) (by decide) member)

theorem zeros_isDigit (count : Nat) : ∀ c ∈ Layout.zeros count, isDigit c = true := by
  intro c member
  rw [List.eq_of_mem_replicate member]
  decide

theorem value_of_same {d d' : Nat} {e e' : Int} (shift : Nat) (digits : d = d' * 10 ^ shift)
    (exponent : e = e' - shift) : (d * 10 ^ e : ℚ) = d' * 10 ^ e' := by
  rw [digits, exponent, zpow_sub₀ (by norm_num), zpow_natCast]
  push_cast
  field_simp

-- A number written with digits only, and a point before the places if there are any.
structure Plain (text whole places : List Char) (value : ℚ) : Prop where
  spelled : text = whole ++ if places = [] then [] else '.' :: places
  filled : whole ≠ []
  digits : ∀ c ∈ whole ++ places, isDigit c = true
  leading : whole = ['0'] ∨ whole.head? ≠ some '0'
  value : digitsValue 0 (whole ++ places) * 10 ^ (-places.length : ℤ) = value

-- Digits of a positive number, of which the first is no zero.
structure Digits (ds : List Char) (n : Nat) : Prop where
  filled : ds ≠ []
  digits : ∀ c ∈ ds, isDigit c = true
  leading : ds.head? ≠ some '0'
  value : digitsValue 0 ds = n

namespace Digits

variable {ds : List Char} {n : Nat}

-- Zeros up to the point, and as many behind it as asked for.
theorem padded (spelled : Digits ds n) (zeros behind : Nat) :
    Plain (ds ++ Layout.zeros zeros ++ if Layout.zeros behind = [] then [] else '.' :: Layout.zeros behind)
      (ds ++ Layout.zeros zeros) (Layout.zeros behind) (n * 10 ^ (zeros : ℤ)) where
  spelled := rfl
  filled := by simp [spelled.filled]
  digits := by
    rw [List.forall_mem_append, List.forall_mem_append]
    exact ⟨⟨spelled.digits, zeros_isDigit zeros⟩, zeros_isDigit behind⟩
  leading := by
    rw [List.head?_append_of_ne_nil _ spelled.filled]
    exact .inr spelled.leading
  value := by
    refine value_of_same (zeros + behind) ?_ ?_
    · rw [digitsValue_append, digitsValue_append, spelled.value, digitsValue_zeros, digitsValue_zeros,
        Nat.mul_assoc, ← Nat.pow_add]
    · rw [Layout.zeros, List.length_replicate]
      omega

-- The point stands among the digits.
theorem parted (spelled : Digits ds n) {places : Nat} (behind : 0 < places) (few : places < ds.length) :
    Plain (ds.take (ds.length - places) ++ '.' :: ds.drop (ds.length - places)) (ds.take (ds.length - places))
      (ds.drop (ds.length - places)) (n * 10 ^ (-places : ℤ)) where
  spelled := by
    rw [if_neg]
    rw [List.drop_eq_nil_iff]
    omega
  filled := by
    rw [ne_eq, List.take_eq_nil_iff, not_or]
    exact ⟨by omega, spelled.filled⟩
  digits := by
    rw [List.take_append_drop]
    exact spelled.digits
  leading := by
    rw [List.head?_take, if_neg (by omega)]
    exact .inr spelled.leading
  value := by
    refine value_of_same 0 ?_ ?_
    · rw [List.take_append_drop, spelled.value, Nat.pow_zero, Nat.mul_one]
    · rw [List.length_drop]
      omega

-- Zeros between the point and the digits.
theorem shifted (spelled : Digits ds n) (zeros : Nat) :
    Plain ('0' :: '.' :: (Layout.zeros zeros ++ ds)) ['0'] (Layout.zeros zeros ++ ds)
      (n * 10 ^ (-(ds.length + zeros : Nat) : ℤ)) where
  spelled := by
    rw [if_neg (by simp [spelled.filled])]
    rfl
  filled := List.cons_ne_nil _ _
  digits := by
    rw [List.forall_mem_append, List.forall_mem_append]
    exact ⟨zeros_isDigit 1, zeros_isDigit zeros, spelled.digits⟩
  leading := .inl rfl
  value := by
    refine value_of_same 0 ?_ ?_
    · rw [digitsValue_append, digitsValue_append]
      show digitsValue (digitsValue 0 (Layout.zeros _)) ds = _
      rw [digitsValue_zeros, Nat.zero_mul, spelled.value, Nat.pow_zero, Nat.mul_one]
    · rw [List.length_append, Layout.zeros, List.length_replicate]
      omega

end Digits

theorem toDigits_spelled {n : Nat} (positive : 0 < n) : Digits (Nat.toDigits 10 n) n :=
  ⟨Nat.toDigits_ne_nil, toDigits_isDigit n, Python.toDigits_head positive, digitsValue_toDigits n⟩

theorem positional_plain (layout : Layout) {n : Nat} (positive : 0 < n) (exponent : Int) :
    ∃ whole places, Plain (layout.positionalText (Nat.toDigits 10 n) exponent) whole places (n * 10 ^ exponent) ∧
      (layout.wholePoint = true → places ≠ []) := by
  have spelled := toDigits_spelled positive
  generalize Nat.toDigits 10 n = ds at spelled ⊢
  unfold Layout.positionalText
  dsimp only
  split
  · next nonneg =>
    obtain ⟨k, rfl⟩ := Int.eq_ofNat_of_zero_le nonneg
    cases layout.wholePoint with
    | false => exact ⟨_, _, spelled.padded k 0, fun none => by cases none⟩
    | true => exact ⟨_, _, spelled.padded k 1, fun _ => List.cons_ne_nil _ _⟩
  split
  · next below inside =>
    obtain ⟨k, rfl⟩ : ∃ k : Nat, exponent = -k := ⟨exponent.natAbs, by omega⟩
    have place : ((ds.length : Int) + -k).toNat = ds.length - k := by omega
    rw [place]
    refine ⟨_, _, spelled.parted (by omega) (by omega), fun _ => ?_⟩
    rw [ne_eq, List.drop_eq_nil_iff]
    omega
  · next below outside =>
    obtain ⟨k, rfl⟩ : ∃ k : Nat, exponent = -(ds.length + k : Nat) := ⟨(-(ds.length + exponent)).toNat, by omega⟩
    have zeros : (-((ds.length : Int) + -(ds.length + k : Nat))).toNat = k := by omega
    rw [zeros]
    exact ⟨_, _, spelled.shifted k, fun _ => by simp [spelled.filled]⟩

theorem digit_toLower {c : Char} (digit : isDigit c = true) : c.toLower = c := by
  have low : c.val ≤ '9'.val := by simp [isDigit, Char.le_def] at digit; exact digit.2
  rw [Char.toLower, dif_neg]
  rintro ⟨above, _⟩
  have above : 'A'.val ≤ c.val := above
  exact absurd (UInt32.le_trans above low) (by decide)

-- Such a number is read as the decimal that it spells.
theorem read_plain {text whole places : List Char} {value : ℚ} (plain : Plain text whole places value) :
    Double.read? (String.ofList text)
      = some (.ofDecimal false (digitsValue 0 (whole ++ places)) (-places.length : ℤ)) := by
  obtain ⟨c, cs, rfl⟩ := List.exists_cons_of_ne_nil plain.filled
  have wholes : ∀ d ∈ c :: cs, isDigit d = true := fun d member => plain.digits d (List.mem_append_left _ member)
  have behind : ∀ d ∈ places, isDigit d = true := fun d member => plain.digits d (List.mem_append_right _ member)
  have digit : isDigit c = true := wholes c List.mem_cons_self
  obtain ⟨rest, spelled⟩ : ∃ rest, text = c :: rest := ⟨_, plain.spelled⟩
  have unsigned : splitSign text = (false, text) := by
    rw [spelled, splitSign]
    · rintro _ ⟨⟩
      cases digit
    · rintro _ ⟨⟩
      cases digit
  have word {first : Char} {others : List Char} (letter : isDigit first = false) :
      text.map Char.toLower ≠ first :: others := by
    intro same
    rw [spelled, List.map_cons, digit_toLower digit, List.cons.injEq] at same
    rw [← same.1, digit] at letter
    cases letter
  have stops : (if places = [] then [] else '.' :: places).takeWhile isDigit = [] := by
    split <;> rfl
  have stay : (if places = [] then [] else '.' :: places).dropWhile isDigit
      = if places = [] then [] else '.' :: places := by
    split <;> rfl
  have taken : text.takeWhile isDigit = c :: cs := by
    rw [plain.spelled, List.takeWhile_append_of_pos wholes, stops, List.append_nil]
  have left : text.dropWhile isDigit = if places = [] then [] else '.' :: places := by
    rw [plain.spelled, List.dropWhile_append_of_pos wholes, stay]
  rw [Double.read?, String.toList_ofList, unsigned]
  dsimp only
  have infinite : ¬(text.map Char.toLower = "inf".toList ∨ text.map Char.toLower = "infinity".toList) :=
    not_or.mpr ⟨word (by decide : isDigit 'i' = false), word (by decide : isDigit 'i' = false)⟩
  have nan : ¬text.map Char.toLower = "nan".toList := word (by decide : isDigit 'n' = false)
  rw [if_neg infinite, if_neg nan, readMagnitude?, taken, left]
  by_cases bare : places = []
  · subst bare
    simp [readExponent?]
  · have all : places.takeWhile isDigit = places := List.takeWhile_eq_self_iff.mpr behind
    have past : places.dropWhile isDigit = [] := List.dropWhile_eq_nil_iff.mpr behind
    simp [bare, all, past, readExponent?]

-- The text without an exponent is read as the number it was.
theorem read_magnitude (rank : Fin rankLimit) :
    Double.read? (Layout.plain.magnitudeText rank.val) = some (.finite false rank) := by
  by_cases zero : rank.val = 0
  · rw [Layout.magnitudeText, if_pos zero]
    obtain ⟨_, inside⟩ := rank
    subst zero
    exact (by decide : Double.read? "0" = some .zero)
  · have positive := Nat.pos_of_ne_zero zero
    have rounds := shortest_rounds Layout.plain.tie rank.val
    obtain ⟨whole, places, plain, _⟩ := positional_plain Layout.plain (rounds.digits_pos positive)
      (shortest Layout.plain.tie rank.val).exponent
    rw [← plain.value] at rounds
    rw [Layout.magnitudeText, if_neg zero]
    exact (read_plain plain).trans (congrArg some (ofDecimal_of_rounds positive rank.isLt rounds false))

namespace Json

-- A literal on its own, with nothing after it.
def Literal.read? : List Char → Option Literal
  | [] => none
  | c :: cs => (NumberScan.start? c).bind fun scan => (cs.foldlM NumberScan.step scan).bind NumberScan.finish?

namespace NumberScan

-- Where a scan is after the sign and the first character of the digits.
def opened? (negative : Bool) (c : Char) : Option NumberScan :=
  if negative then step ⟨.minus, true, [], [], false, 0⟩ c else start? c

theorem opened_zero (negative : Bool) : opened? negative '0' = some ⟨.zero, negative, ['0'], [], false, 0⟩ := by
  cases negative <;> rfl

theorem opened_digit (negative : Bool) {c : Char} (digit : isDigit c = true) (nonzero : c ≠ '0') :
    opened? negative c = some ⟨.integer, negative, [c], [], false, 0⟩ := by
  cases negative with
  | true => simp [opened?, step, addDigit, digit, nonzero]
  | false =>
    have sign : c ≠ '-' := by
      rintro rfl
      cases digit
    simp [opened?, start?, digit, nonzero, sign]

variable {scan : NumberScan} {ds : List Char}

theorem integer_digits (phase : scan.phase = .integer) (digits : ∀ c ∈ ds, isDigit c = true) :
    ds.foldlM step scan = some { scan with whole := ds.reverse ++ scan.whole } := by
  induction ds generalizing scan with
  | nil => rfl
  | cons c rest ih =>
    rw [List.forall_mem_cons] at digits
    have first : scan.step c = some (scan.addDigit c .integer) := by simp [step, phase, digits.1]
    rw [List.foldlM_cons, first]
    show rest.foldlM step _ = _
    rw [ih rfl digits.2]
    simp [addDigit, phase]

theorem fraction_digits (phase : scan.phase = .fraction) (digits : ∀ c ∈ ds, isDigit c = true) :
    ds.foldlM step scan = some { scan with places := ds.reverse ++ scan.places } := by
  induction ds generalizing scan with
  | nil => rfl
  | cons c rest ih =>
    rw [List.forall_mem_cons] at digits
    have first : scan.step c = some (scan.addPlace c) := by simp [step, phase, digits.1]
    rw [List.foldlM_cons, first]
    show rest.foldlM step _ = _
    rw [ih rfl digits.2]
    simp [addPlace, phase]

theorem exponent_digits (phase : scan.phase = .exponent) (digits : ∀ c ∈ ds, isDigit c = true) :
    ds.foldlM step scan = some { scan with exponent := digitsValue scan.exponent ds } := by
  induction ds generalizing scan with
  | nil => rfl
  | cons c rest ih =>
    rw [List.forall_mem_cons] at digits
    have first : scan.step c = some (scan.addExponent c) := by simp [step, phase, digits.1]
    rw [List.foldlM_cons, first]
    show rest.foldlM step _ = _
    rw [ih rfl digits.2]
    simp [addExponent, digitsValue, phase]

theorem point_places (phase : scan.phase = .zero ∨ scan.phase = .integer) (filled : ds ≠ [])
    (digits : ∀ c ∈ ds, isDigit c = true) :
    ('.' :: ds).foldlM step scan
      = some { scan with phase := .fraction, places := ds.reverse ++ scan.places } := by
  obtain ⟨c, rest, rfl⟩ := List.exists_cons_of_ne_nil filled
  rw [List.forall_mem_cons] at digits
  have point : scan.step '.' = some { scan with phase := .point } := by
    rcases phase with zero | integer
    · simp [step, zero, leaveInteger]
    · simp [step, integer, leaveInteger, isDigit]
  have first : step { scan with phase := .point } c = some (scan.addPlace c) := by
    simp [step, digits.1, addPlace]
  rw [List.foldlM_cons, point]
  show (c :: rest).foldlM step _ = _
  rw [List.foldlM_cons, first]
  show rest.foldlM step _ = _
  rw [fraction_digits rfl digits.2]
  simp [addPlace]

-- The exponent of ten, with or without a sign.
theorem mark_exponent (phase : scan.phase = .integer ∨ scan.phase = .fraction) {sign : List Char}
    (signed : sign = [] ∨ sign = ['+'] ∨ sign = ['-']) (filled : ds ≠ [])
    (digits : ∀ c ∈ ds, isDigit c = true) (positive : scan.exponentNegative = false) :
    ('e' :: sign ++ ds).foldlM step scan = some { scan with
      phase := .exponent, exponentNegative := decide (sign = ['-']),
      exponent := digitsValue scan.exponent ds } := by
  obtain ⟨c, rest, rfl⟩ := List.exists_cons_of_ne_nil filled
  rw [List.forall_mem_cons] at digits
  have mark : scan.step 'e' = some { scan with phase := .mark } := by
    rcases phase with integer | fraction
    · simp [step, integer, leaveInteger, isDigit]
    · simp [step, fraction, isDigit]
  have plain : c ≠ '+' ∧ c ≠ '-' := by
    constructor <;> (rintro rfl; cases digits.1)
  have first : (sign ++ [c]).foldlM step { scan with phase := .mark }
      = some { scan.addExponent c with exponentNegative := decide (sign = ['-']) } := by
    rcases signed with rfl | rfl | rfl
    · simp [step, digits.1, plain, addExponent, positive]
    · simp [step, digits.1, addExponent, positive]
    · simp [step, digits.1, addExponent]
  rw [List.cons_append, List.foldlM_cons, mark]
  show (sign ++ ([c] ++ rest)).foldlM step _ = _
  rw [← List.append_assoc, List.foldlM_append, first]
  show rest.foldlM step _ = _
  rw [exponent_digits rfl digits.2]
  simp [addExponent, digitsValue]

end NumberScan

namespace Literal

open NumberScan

def sign (negative : Bool) : List Char := if negative then ['-'] else []

theorem read_opened (negative : Bool) (c : Char) (cs : List Char) :
    read? (sign negative ++ c :: cs)
      = (opened? negative c).bind fun scan => (cs.foldlM step scan).bind finish? := by
  cases negative with
  | false => rfl
  | true =>
    show (some _ >>= fun scan => ((c :: cs).foldlM step scan).bind finish?) = _
    simp only [List.foldlM_cons, opened?, if_true]
    exact Option.bind_assoc ..

theorem read_zero (negative : Bool) (rest : List Char) :
    read? (sign negative ++ '0' :: rest)
      = (rest.foldlM step ⟨.zero, negative, ['0'], [], false, 0⟩).bind finish? := by
  rw [read_opened, opened_zero]
  rfl

theorem read_whole (negative : Bool) {ds : List Char} (filled : ds ≠ [])
    (digits : ∀ c ∈ ds, isDigit c = true) (leading : ds.head? ≠ some '0') (rest : List Char) :
    read? (sign negative ++ (ds ++ rest))
      = (rest.foldlM step ⟨.integer, negative, ds.reverse, [], false, 0⟩).bind finish? := by
  obtain ⟨c, cs, rfl⟩ := List.exists_cons_of_ne_nil filled
  rw [List.forall_mem_cons] at digits
  have nonzero : c ≠ '0' := by simpa using leading
  rw [List.cons_append, read_opened, opened_digit negative digits.1 nonzero]
  show ((cs ++ rest).foldlM step _).bind finish? = _
  rw [List.foldlM_append, integer_digits rfl digits.2, List.reverse_cons]
  rfl

-- The value of all digits, and the exponent of ten that goes with it.
def digits (literal : Literal) : Nat := digitsValue 0 (literal.whole ++ literal.places)

def scale (literal : Literal) : Int := literal.exponent.getD 0 - literal.places.length

-- A literal that is not read as an integer, with its sign and its exact value.
structure Spells (literal : Literal) (negative : Bool) (value : ℚ) : Prop where
  sign : literal.negative = negative
  pointed : (literal.places.isEmpty && literal.exponent.isNone) = false
  value : literal.digits * 10 ^ literal.scale = value

theorem read_positional {layout : Layout} (point : layout.wholePoint = true) (negative : Bool) {n : Nat}
    (positive : 0 < n) (exponent : Int) :
    ∃ literal, read? (sign negative ++ layout.positionalText (Nat.toDigits 10 n) exponent) = some literal ∧
      literal.Spells negative (n * 10 ^ exponent) := by
  obtain ⟨whole, places, plain, pointed⟩ := positional_plain layout positive exponent
  have behind := pointed point
  have first : ∀ c ∈ whole, isDigit c = true := fun c member => plain.digits c (List.mem_append_left _ member)
  have second : ∀ c ∈ places, isDigit c = true := fun c member => plain.digits c (List.mem_append_right _ member)
  refine ⟨⟨negative, whole, places, none⟩, ?_, rfl, by simpa using behind, ?_⟩
  · rw [plain.spelled, if_neg behind]
    rcases plain.leading with rfl | start
    · rw [List.singleton_append, read_zero, point_places (.inl rfl) behind second]
      simp [finish?]
    · rw [read_whole negative plain.filled first start, point_places (.inr rfl) behind second]
      simp [finish?]
  · simpa [Literal.digits, scale] using plain.value

theorem read_scientific (layout : Layout) (negative : Bool) {n : Nat} (positive : 0 < n)
    (exponent : Int) :
    ∃ literal, read? (sign negative ++ layout.scientificText (Nat.toDigits 10 n)
        ((Nat.toDigits 10 n).length - 1 + exponent)) = some literal ∧
      literal.Spells negative (n * 10 ^ exponent) := by
  have digits := toDigits_isDigit n
  have leading := Python.toDigits_head positive
  have filled : Nat.toDigits 10 n ≠ [] := Nat.toDigits_ne_nil
  have value := digitsValue_toDigits n
  generalize Nat.toDigits 10 n = ds at digits leading filled value ⊢
  obtain ⟨c, places, rfl⟩ := List.exists_cons_of_ne_nil filled
  generalize power : ((c :: places).length - 1 + exponent : Int) = p
  obtain ⟨mark, marked, signed, same⟩ : ∃ mark,
      (if p < 0 then ['-'] else if layout.plus then ['+'] else []) = mark ∧
      (mark = [] ∨ mark = ['+'] ∨ mark = ['-']) ∧
      (if decide (mark = ['-']) = true then -(p.natAbs : Int) else p.natAbs) = p := by
    refine ⟨_, rfl, ?_⟩
    split
    · exact ⟨.inr (.inr rfl), by rw [if_pos (by decide)]; omega⟩
    · split
      · exact ⟨.inr (.inl rfl), by rw [if_neg (by decide)]; omega⟩
      · exact ⟨.inl rfl, by rw [if_neg (by decide)]; omega⟩
  have first : ∀ d ∈ [c], isDigit d = true := by
    simpa using digits c List.mem_cons_self
  have whole (rest : List Char) := read_whole negative (List.cons_ne_nil c []) first leading rest
  have last {scan : NumberScan} (phase : scan.phase = .integer ∨ scan.phase = .fraction)
      (unmarked : scan.exponentNegative = false) :=
    mark_exponent phase signed Nat.toDigits_ne_nil (toDigits_isDigit p.natAbs) unmarked
  simp only [Layout.scientificText, marked, List.append_assoc]
  cases places with
  | nil =>
    show ∃ literal, read? (sign negative ++ ([c] ++ ('e' :: mark ++ Nat.toDigits 10 p.natAbs))) = _ ∧ _
    rw [whole, last (.inl rfl) rfl]
    refine ⟨_, rfl, rfl, Bool.and_false _, value_of_same 0 ?_ ?_⟩
    · rw [Nat.pow_zero, Nat.mul_one]
      exact value
    · simp only [scale, digitsValue_toDigits, same, Option.getD_some]
      simp at power ⊢
      omega
  | cons d rest =>
    have behind : ∀ e ∈ d :: rest, isDigit e = true := fun e member =>
      digits e (List.mem_cons_of_mem c member)
    show ∃ literal, read? (sign negative ++ ([c] ++ (('.' :: d :: rest) ++
      ('e' :: mark ++ Nat.toDigits 10 p.natAbs)))) = _ ∧ _
    rw [whole, List.foldlM_append, point_places (.inr rfl) (List.cons_ne_nil d rest) behind]
    simp only [Option.bind_eq_bind, Option.bind_some]
    rw [last (.inr rfl) rfl]
    refine ⟨_, rfl, rfl, Bool.and_false _, value_of_same 0 ?_ ?_⟩
    · simp only [Literal.digits, List.reverse_reverse, List.append_nil, Nat.pow_zero, Nat.mul_one]
      exact value
    · simp only [scale, digitsValue_toDigits, same, Option.getD_some]
      simp at power ⊢
      omega

theorem read_decimalText {layout : Layout} (point : layout.wholePoint = true) (negative : Bool)
    {decimal : Decimal} (positive : 0 < decimal.digits) :
    ∃ literal, read? (sign negative ++ layout.decimalText decimal) = some literal ∧
      literal.Spells negative (decimal.digits * 10 ^ decimal.exponent) := by
  unfold Layout.decimalText
  simp only
  split
  · exact read_positional point negative positive decimal.exponent
  · exact read_scientific layout negative positive decimal.exponent

end Literal

-- The numbers that are written as numbers.
def Number.Writable : Number → Prop
  | .integer value => Int64.minValue.toInt ≤ value ∧ value < UInt64.size
  | .real value => value.isFinite = true

theorem Literal.takeDigits_all {start : Nat} {ds : List Char} (fits : digitsValue start ds < UInt64.size) :
    takeDigits start ds = (digitsValue start ds, []) := by
  induction ds generalizing start with
  | nil => rfl
  | cons c rest ih =>
    have first : start * 10 + digitValue c < UInt64.size := (le_digitsValue _ rest).trans_lt fits
    rw [takeDigits, if_pos first]
    exact ih fits

theorem Literal.number_integer {ds : List Char} (fits : digitsValue 0 ds < UInt64.size) :
    number? ⟨false, ds, [], none⟩ = some (.integer (digitsValue 0 ds)) := by
  simp [number?, takeDigits_all fits]

theorem Literal.number_negative {ds : List Char} (positive : 0 < digitsValue 0 ds)
    (fits : digitsValue 0 ds ≤ twoTo 63) : number? ⟨true, ds, [], none⟩ = some (.integer (-digitsValue 0 ds)) := by
  simp [number?, takeDigits_all (fits.trans_lt (by decide)), positive, fits]

theorem Literal.number_ne_integer {literal : Literal} {negative : Bool} {value : ℚ}
    (spells : literal.Spells negative value) (n : Int) : literal.number? ≠ some (.integer n) := by
  have pointed := spells.pointed
  simp only [number?, pointed, Bool.false_and, Bool.false_eq_true, false_and, if_false, real?]
  split <;> simp

-- All digits of such a literal are taken, and none is dropped.
theorem Literal.number_pointed {literal : Literal} {negative : Bool} {value : ℚ}
    (spells : literal.Spells negative value) (fits : literal.digits < UInt64.size) :
    literal.number? = real? negative literal.digits literal.scale := by
  have joined : literal.digits = digitsValue (digitsValue 0 literal.whole) literal.places := digitsValue_append ..
  have first := takeDigits_all ((le_digitsValue _ literal.places).trans_lt (joined ▸ fits))
  have second := takeDigits_all (joined ▸ fits)
  have pointed := spells.pointed
  rw [number?, first]
  simp [pointed, second, joined, spells.sign, scale]

-- Digits and a scale that doubles hold without rounding, so that the reader rounds only once.
def Literal.Short (literal : Literal) : Prop := literal.digits ≤ twoTo 53 ∧ literal.scale.natAbs ≤ 22

instance (literal : Literal) : Decidable literal.Short := inferInstanceAs (Decidable (_ ∧ _))

theorem Literal.scaleRank_short {literal : Literal} (short : literal.Short) {rank : Nat} (inside : rank < rankLimit)
    (rounds : Rounds rank (literal.digits * 10 ^ literal.scale)) :
    scaleRank literal.digits literal.scale = rank := by
  obtain ⟨bits, near⟩ := short
  rw [scaleRank]
  split
  · next below =>
    obtain ⟨k, same⟩ : ∃ k : Nat, literal.scale = -k := ⟨literal.scale.natAbs, by omega⟩
    rw [same, zpow_neg, zpow_natCast, ← div_eq_mul_inv] at rounds
    have once : ((-literal.scale).toNat - 1) / 308 = 0 := Nat.div_eq_of_lt (by omega)
    have places : (-literal.scale).toNat = k := by omega
    show lowerRank (((-literal.scale).toNat - 1) / 308) _ (-literal.scale).toNat = rank
    rw [once, lowerRank, places]
    exact overRank_of_rounds bits (by omega) inside rounds
  · next above =>
    obtain ⟨k, same⟩ := Int.eq_ofNat_of_zero_le (Int.not_lt.mp above)
    rw [same, zpow_natCast] at rounds
    rw [if_pos (by omega), same, Int.toNat_natCast]
    exact timesRank_of_rounds bits (by omega) inside rounds

theorem Literal.number_short {literal : Literal} {negative : Bool} {value : ℚ}
    (spells : literal.Spells negative value) (short : literal.Short) {rank : Fin rankLimit}
    (rounds : Rounds rank value) : literal.number? = some (.real (.finite negative rank)) := by
  have same := scaleRank_short short rank.isLt (spells.value.symm ▸ rounds)
  rw [number_pointed spells (short.1.trans_lt (by decide)), real?]
  simp only [same, rank.isLt, dif_pos]

theorem Literal.read_natural (negative : Bool) {n : Nat} (positive : 0 < n) :
    Literal.read? (Literal.sign negative ++ Nat.toDigits 10 n) = some ⟨negative, Nat.toDigits 10 n, [], none⟩ := by
  have whole := read_whole negative Nat.toDigits_ne_nil (toDigits_isDigit n) (Python.toDigits_head positive) []
  rw [List.append_nil] at whole
  rw [whole]
  simp [NumberScan.finish?]

theorem Number.integer_read {value : Int} (low : Int64.minValue.toInt ≤ value) (high : value < UInt64.size) :
    ∃ literal, Literal.read? (Number.integer value).written.toList = some literal ∧
      literal.number? = some (.integer value) := by
  have digits (n : Nat) : (toString n).toList = Nat.toDigits 10 n := String.toList_ofList
  cases value with
  | ofNat n =>
    have small : n < UInt64.size := Int.ofNat_lt.mp high
    rcases Nat.eq_zero_or_pos n with rfl | positive
    · exact ⟨⟨false, ['0'], [], none⟩, rfl, rfl⟩
    · refine ⟨_, (congrArg Literal.read? (digits n)).trans (Literal.read_natural false positive), ?_⟩
      rw [Literal.number_integer] <;> rw [digitsValue_toDigits]
      · rfl
      · exact small
  | negSucc n =>
    have text : (toString (Int.negSucc n)).toList = Literal.sign true ++ Nat.toDigits 10 (n + 1) := by
      rw [← digits]
      exact String.toList_append
    refine ⟨_, (congrArg Literal.read? text).trans (Literal.read_natural true (Nat.succ_pos n)), ?_⟩
    have limit : Int64.minValue.toInt = -(twoTo 63 : Nat) := by decide
    have fits : n + 1 ≤ twoTo 63 := by omega
    rw [Literal.number_negative] <;> rw [digitsValue_toDigits]
    · rfl
    · exact Nat.succ_pos n
    · exact fits

theorem Number.real_read (negative : Bool) (rank : Fin rankLimit) :
    ∃ literal value, Literal.read? (Number.real (.finite negative rank)).written.toList = some literal ∧
      literal.Spells negative value ∧ Rounds rank value := by
  have signed (body : String) : ((if negative then "-" else "") ++ body).toList
      = Literal.sign negative ++ body.toList := by
    cases negative <;> simp [Literal.sign]
  have written : (Number.real (.finite negative rank)).written.toList
      = Literal.sign negative ++ (Layout.saved.magnitudeText rank.val).toList := signed _
  rw [written]
  by_cases zero : rank.val = 0
  · refine ⟨⟨negative, ['0'], ['0'], none⟩, 0, ?_, ⟨rfl, rfl, ?_⟩, ?_⟩
    · rw [Layout.magnitudeText, if_pos zero]
      cases negative <;> rfl
    · have none : Literal.digits ⟨negative, ['0'], ['0'], none⟩ = 0 := rfl
      rw [none, Nat.cast_zero, zero_mul]
    · have self := surrounds_self rank.val
      rwa [zero, magnitude_small stride_pos, Nat.cast_zero, mul_zero, ← zero_mul (twoTo 1075 : ℚ), ← zero] at self
  · have positive := Nat.pos_of_ne_zero zero
    have rounds := shortest_rounds Layout.saved.tie rank.val
    have point : Layout.saved.wholePoint = true := rfl
    obtain ⟨literal, read, spells⟩ := Literal.read_decimalText point negative (rounds.digits_pos positive)
    rw [Layout.magnitudeText, if_neg zero, String.toList_ofList]
    exact ⟨literal, _, read, spells, rounds⟩

-- The literal that the text of a number is.
def Number.literal (number : Number) : Literal :=
  (Literal.read? number.written.toList).getD ⟨false, [], [], none⟩

theorem Number.literal_eq {number : Number} {literal : Literal}
    (read : Literal.read? number.written.toList = some literal) : number.literal = literal := by
  rw [Number.literal, read, Option.getD_some]

theorem Number.literal_read {number : Number} (writable : number.Writable) :
    Literal.read? number.written.toList = some number.literal := by
  cases number with
  | integer value =>
    obtain ⟨literal, read, _⟩ := integer_read writable.1 writable.2
    rw [literal_eq read]
    exact read
  | real value =>
    cases value with
    | finite negative rank =>
      obtain ⟨literal, _, read, _⟩ := real_read negative rank
      rw [literal_eq read]
      exact read
    | nan | infinite => cases writable

-- The number is read again from its text, and not as another one.
def Number.Survives (number : Number) : Prop := number.literal.number? = some number

instance (number : Number) : Decidable number.Survives := inferInstanceAs (Decidable (_ = _))

theorem Number.integer_survives {value : Int} (writable : (Number.integer value).Writable) :
    (Number.integer value).Survives := by
  obtain ⟨literal, read, same⟩ := integer_read writable.1 writable.2
  rw [Survives, literal_eq read, same]

-- A double is never read as an integer that would only have the same value.
theorem Number.real_survives_iff {value : Double} (writable : (Number.real value).Writable) :
    (Number.real value).literal.number?.map Number.toDouble = some value ↔ (Number.real value).Survives := by
  cases value with
  | finite negative rank =>
    obtain ⟨literal, value, read, spells, _⟩ := real_read negative rank
    rw [Survives, literal_eq read]
    have whole := Literal.number_ne_integer spells
    cases found : literal.number? with
    | none => simp
    | some number =>
      cases number with
      | integer n => exact absurd found (whole n)
      | real value => simp [Number.toDouble]
  | nan | infinite => cases writable

theorem Number.short_survives {value : Double} (writable : (Number.real value).Writable)
    (short : (Number.real value).literal.Short) : (Number.real value).Survives := by
  cases value with
  | finite negative rank =>
    obtain ⟨literal, value, read, spells, rounds⟩ := real_read negative rank
    rw [literal_eq read] at short
    rw [Survives, literal_eq read]
    exact Literal.number_short spells short rounds
  | nan | infinite => cases writable

end Json
end Blockwork

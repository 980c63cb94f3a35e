import Mathlib
import Blockwork.Proofs.Lexing
import Blockwork.Python.NameTable

-- Names that are handed out are identifiers, whatever they were asked for, and
-- numbers are written as numerals.
namespace Blockwork.Python

theorem isIdentifier_iff {id : String} :
    isIdentifier id = true ↔ Word id.toList ∧ id ∉ keywords := by
  constructor
  · intro proper
    refine ⟨.of_identifier proper, fun keyword => ?_⟩
    unfold isIdentifier at proper
    split at proper
    · cases proper
    · simp [keyword] at proper
  · rintro ⟨⟨filled, letter, chars⟩, free⟩
    unfold isIdentifier
    split
    · next none => exact absurd none filled
    · next c rest split =>
      rw [split] at letter chars
      simp only [List.head?_cons, Option.any_some] at letter
      simp only [List.all_cons, Bool.and_eq_true] at chars
      simp [letter, chars.1, chars.2, free]

theorem isNameChar_of_isDigit {c : Char} (digit : c.isDigit = true) : isNameChar c = true := by
  simp [isNameChar, Char.isAlphanum, digit]

theorem legalize_word (name : String) : Word (legalize name).toList := by
  unfold legalize
  have legal : ∀ cs : List Char,
      (cs.map fun c => if isNameChar c then c else '_').all isNameChar = true := by
    intro cs
    rw [List.all_map, List.all_eq_true]
    intro c _
    simp only [Function.comp_apply]
    split
    · assumption
    · decide
  have all := legal (Text.trim name).toList
  generalize (Text.trim name).toList.map (fun c => if isNameChar c then c else '_') = cs at all
  dsimp only
  split
  · exact ⟨by decide, by decide, by decide⟩
  · next first rest =>
    split
    · refine ⟨by simp, by simp, ?_⟩
      simp only [String.toList_append, String.toList_ofList, List.all_append, all]
      decide
    · next letter =>
      rw [String.toList_ofList]
      exact ⟨by simp, by simpa using letter, all⟩

theorem digits_chars (n : Nat) : (toString n).toList.all Char.isDigit = true ∧ (toString n).toList ≠ [] := by
  rw [Nat.toString_eq_repr, Nat.toList_repr]
  refine ⟨List.all_eq_true.mpr fun c member => ?_, Nat.toDigits_ne_nil⟩
  exact Nat.isDigit_of_mem_toDigits (by decide) (by decide) member

theorem numbered_eq (taken : List String) (base : String) (tries n : Nat) :
    ∃ m : Nat, numbered taken base tries n = base ++ toString m := by
  induction tries generalizing n with
  | zero => exact ⟨n, rfl⟩
  | succ tries ih =>
    rw [numbered]
    split
    · exact ih (n + 1)
    · exact ⟨n, rfl⟩

-- No keyword ends with a digit.
theorem numbered_free (base : String) (n : Nat) : base ++ toString n ∉ keywords := by
  intro keyword
  have ends : ∀ word ∈ keywords, word.toList.getLast?.any Char.isDigit = false := by decide
  have last := ends _ keyword
  obtain ⟨digits, filled⟩ := digits_chars n
  obtain ⟨front, c, split⟩ := (List.eq_nil_or_concat _).resolve_left filled
  rw [String.toList_append, split] at last
  have digit : c.isDigit = true := List.all_eq_true.mp digits c (by rw [split]; simp)
  simp [digit] at last

theorem numbered_chars {base : String} (chars : base.toList.all isNameChar = true) (n : Nat) :
    (base ++ toString n).toList.all isNameChar = true := by
  rw [String.toList_append, List.all_append, chars, Bool.true_and, List.all_eq_true]
  intro c member
  exact isNameChar_of_isDigit (List.all_eq_true.mp (digits_chars n).1 c member)

theorem distinct_chars (taken : List String) {base : String} (chars : base.toList.all isNameChar = true) :
    (distinct taken base).toList.all isNameChar = true := by
  unfold distinct
  split
  · obtain ⟨m, same⟩ := numbered_eq taken base taken.length 2
    rw [same]
    exact numbered_chars chars m
  · exact chars

theorem distinct_identifier {taken : List String} {base : String} (word : Word base.toList)
    (reserved : ∀ keyword ∈ keywords, keyword ∈ taken) : isIdentifier (distinct taken base) = true := by
  rw [isIdentifier_iff]
  unfold distinct
  split
  · obtain ⟨m, same⟩ := numbered_eq taken base taken.length 2
    rw [same]
    refine ⟨⟨?_, ?_, numbered_chars word.chars m⟩, numbered_free base m⟩
    · simp [word.filled]
    · have filled := word.filled
      have letter := word.letter
      rw [String.toList_append]
      cases split : base.toList with
      | nil => exact absurd split filled
      | cons c rest => simpa [split] using letter
  · next free => exact ⟨word, fun keyword => free (by simpa using reserved _ keyword)⟩

namespace NameTable

structure Legible (table : NameTable) : Prop where
  reserved : ∀ keyword ∈ keywords, keyword ∈ table.taken
  vars : ∀ e ∈ table.vars, isIdentifier e.2 = true
  procedures : ∀ e ∈ table.procedures, isIdentifier e.2 = true
  helpers : ∀ e ∈ table.helpers, isIdentifier e.2 = true

variable {table : NameTable}

theorem Legible.claim_identifier (legible : table.Legible) (base : String) :
    isIdentifier (table.claim base).1 = true :=
  distinct_identifier (legalize_word base) legible.reserved

theorem Legible.claim (legible : table.Legible) (base : String) : (table.claim base).2.Legible :=
  ⟨fun keyword listed => List.mem_cons_of_mem _ (legible.reserved keyword listed), legible.vars,
    legible.procedures, legible.helpers⟩

theorem Legible.addVariable (legible : table.Legible) (v : Variable) : (table.addVariable v).Legible := by
  have claimed := legible.claim v.name
  refine ⟨claimed.reserved, ?_, claimed.procedures, claimed.helpers⟩
  exact List.forall_mem_cons.mpr ⟨legible.claim_identifier v.name, claimed.vars⟩

theorem Legible.addProcedure (legible : table.Legible) (p : Procedure) :
    (table.addProcedure p).Legible := by
  have claimed := legible.claim p.name
  refine ⟨claimed.reserved, claimed.vars, ?_, claimed.helpers⟩
  exact List.forall_mem_cons.mpr ⟨legible.claim_identifier p.name, claimed.procedures⟩

theorem Legible.remember (legible : table.Legible) (key : String) {name : String}
    (proper : isIdentifier name = true) : (table.remember key name).Legible :=
  ⟨legible.reserved, legible.vars, legible.procedures, List.forall_mem_cons.mpr ⟨proper, legible.helpers⟩⟩

theorem build_legible (g : Graph) (reserved : List String) : (build g reserved).Legible := by
  have start : Legible ⟨keywords ++ reserved, [], [], []⟩ :=
    ⟨fun keyword listed => List.mem_append_left _ listed, by simp, by simp, by simp⟩
  have vars := List.foldlRecOn g.vars addVariable start fun table legible v _ => legible.addVariable v
  exact List.foldlRecOn g.procedures addProcedure vars fun table legible p _ => legible.addProcedure p

theorem lookup_identifier {α : Type} [BEq α] [LawfulBEq α] {entries : List (α × String)}
    (proper : ∀ e ∈ entries, isIdentifier e.2 = true) {key : α} {name : String}
    (found : entries.lookup key = some name) : isIdentifier name = true := by
  obtain ⟨before, after, rfl, _⟩ := List.lookup_eq_some_iff.mp found
  exact proper (key, name) (by simp)

theorem lookup_getD_identifier {α : Type} [BEq α] [LawfulBEq α] {entries : List (α × String)}
    (proper : ∀ e ∈ entries, isIdentifier e.2 = true) (key : α) {standIn : String}
    (other : isIdentifier standIn = true) : isIdentifier ((entries.lookup key).getD standIn) = true := by
  cases found : entries.lookup key with
  | none => exact other
  | some name => exact lookup_identifier proper found

end NameTable

-- Whole numbers have no leading zeros.
theorem toDigits_head {n : Nat} (positive : 0 < n) : (Nat.toDigits 10 n).head? ≠ some '0' := by
  induction n using Nat.strong_induction_on with
  | _ n ih =>
    by_cases small : n < 10
    · rw [Nat.toDigits_of_lt_base small, List.head?_cons, ne_eq, Option.some.injEq, Nat.digitChar_eq_zero]
      omega
    · rw [Nat.toDigits_of_base_le (by decide) (by omega), List.head?_append_of_ne_nil _ Nat.toDigits_ne_nil]
      exact ih (n / 10) (by omega) (by omega)

theorem isNumeral_whole {digits : List Char} (filled : digits ≠ [])
    (all : ∀ c ∈ digits, c.isDigit = true)
    (leading : digits.head? ≠ some '0' ∨ ∀ c ∈ digits, c = '0') : isNumeral digits = true := by
  have take := List.takeWhile_eq_self_iff.mpr all
  have drop := List.dropWhile_eq_nil_iff.mpr all
  simp only [isNumeral, take, drop]
  rcases leading with other | zeros
  · simp [filled, other]
  · have zeros : digits.all (· == '0') = true := List.all_eq_true.mpr fun c member => by
      simpa using zeros c member
    simp [filled, zeros]

theorem isNumeral_point {whole places : List Char} (filled : whole ≠ [])
    (all : ∀ c ∈ whole, c.isDigit = true) (digits : ∀ c ∈ places, c.isDigit = true) :
    isNumeral (whole ++ '.' :: places) = true := by
  have stop : ∀ c ∈ ('.' :: places).head?, c.isDigit = false := by simp
  have ⟨take, drop⟩ := span_all all stop
  simp only [isNumeral, take, drop]
  simp [filled]
  exact digits

theorem isNumeral_natural (n : Nat) : isNumeral (Nat.toDigits 10 n) = true := by
  have digits : ∀ c ∈ Nat.toDigits 10 n, c.isDigit = true := fun c =>
    Nat.isDigit_of_mem_toDigits (by decide) (by decide)
  refine isNumeral_whole Nat.toDigits_ne_nil digits ?_
  rcases Nat.eq_zero_or_pos n with rfl | positive
  · simp [Nat.toDigits_of_lt_base]
  · exact .inl (toDigits_head positive)

theorem isNumeral_positional (n : Nat) (exponent : Int) :
    isNumeral (Layout.plain.positionalText (Nat.toDigits 10 n) exponent) = true := by
  have digits : ∀ c ∈ Nat.toDigits 10 n, c.isDigit = true := fun c =>
    Nat.isDigit_of_mem_toDigits (by decide) (by decide)
  have zeros : ∀ count, ∀ c ∈ Layout.zeros count, c = '0' := fun count c member =>
    List.eq_of_mem_replicate member
  have zero : ∀ count, ∀ c ∈ Layout.zeros count, c.isDigit = true := by
    intro count c member
    rw [zeros count c member]
    decide
  unfold Layout.positionalText
  dsimp only
  split
  · simp only [Layout.plain, Bool.false_eq_true, if_false, List.append_nil]
    refine isNumeral_whole (by simp [Nat.toDigits_ne_nil]) ?_ ?_
    · intro c member
      exact (List.mem_append.mp member).elim (digits c) (zero _ c)
    · rcases Nat.eq_zero_or_pos n with rfl | positive
      · refine .inr fun c member => (List.mem_append.mp member).elim (fun first => ?_) (zeros _ c)
        rw [Nat.toDigits_of_lt_base (by decide)] at first
        exact List.mem_singleton.mp first
      · left
        rw [List.head?_append_of_ne_nil _ Nat.toDigits_ne_nil]
        exact toDigits_head positive
  split
  · next point =>
    refine isNumeral_point ?_ (fun c member => digits c (List.mem_of_mem_take member))
      (fun c member => digits c (List.mem_of_mem_drop member))
    simp only [ne_eq, List.take_eq_nil_iff, Nat.toDigits_ne_nil, or_false]
    omega
  · have leading : ∀ c ∈ ['0'], c.isDigit = true := by simp
    refine isNumeral_point (List.cons_ne_nil '0' []) leading fun c member => ?_
    exact (List.mem_append.mp member).elim (zero _ c) (digits c)

theorem isNumeral_magnitude (rank : Nat) : isNumeral (Layout.plain.magnitudeText rank).toList = true := by
  unfold Layout.magnitudeText
  split
  · decide
  · rw [String.toList_ofList]
    exact isNumeral_positional _ _

end Blockwork.Python

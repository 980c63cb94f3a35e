import Mathlib
import Blockwork.Proofs.BlockStructure
import Blockwork.Proofs.Identifiers

-- Texts that lines are made of. A phrase starts and ends with a character of an
-- expression and has no line feed, so it is no header and no comment.
namespace Blockwork.Python

def closesText (c : Char) : Bool := isNameChar c || isQuote c || c == ')' || c == ']' || c == '.'

def Opening (s : String) : Prop := s.toList.head?.any opensText = true

def Closing (s : String) : Prop := s.toList.getLast?.any closesText = true

def Single (s : String) : Prop := s.toList.contains '\n' = false

instance (s : String) : Decidable (Opening s) := inferInstanceAs (Decidable (_ = _))
instance (s : String) : Decidable (Closing s) := inferInstanceAs (Decidable (_ = _))
instance (s : String) : Decidable (Single s) := inferInstanceAs (Decidable (_ = _))

theorem Opening.append {a : String} (opens : Opening a) (b : String) : Opening (a ++ b) := by
  unfold Opening at *
  rw [String.toList_append]
  cases split : a.toList with
  | nil =>
    rw [split] at opens
    cases opens
  | cons c cs =>
    rw [split] at opens
    exact opens

theorem Closing.append (a : String) {b : String} (closes : Closing b) : Closing (a ++ b) := by
  unfold Closing at *
  have filled : b.toList ≠ [] := by
    intro none
    rw [none] at closes
    cases closes
  rw [String.toList_append, List.getLast?_append_of_ne_nil _ filled]
  exact closes

theorem Single.append {a b : String} (first : Single a) (second : Single b) : Single (a ++ b) := by
  unfold Single at *
  simp [String.toList_append] at *
  exact ⟨first, second⟩

theorem Single.intercalate {separator : String} (apart : Single separator) {parts : List String}
    (each : ∀ part ∈ parts, Single part) : Single (String.intercalate separator parts) := by
  induction parts with
  | nil => simp [Single]
  | cons part parts ih =>
    rw [List.forall_mem_cons] at each
    cases parts with
    | nil =>
      rw [String.intercalate_singleton]
      exact each.1
    | cons next parts =>
      rw [String.intercalate_cons_cons]
      exact (each.1.append apart).append (ih each.2)

structure Phrase (s : String) : Prop where
  opens : Opening s
  closes : Closing s
  single : Single s

theorem Phrase.join {a b middle : String} (first : Phrase a) (single : Single middle) (second : Phrase b) :
    Phrase (a ++ middle ++ b) :=
  ⟨(first.opens.append _).append _, second.closes.append _,
    (first.single.append single).append second.single⟩

theorem Phrase.after {word s : String} (opens : Opening word) (single : Single word) (phrase : Phrase s) :
    Phrase (word ++ s) :=
  ⟨opens.append _, phrase.closes.append _, single.append phrase.single⟩

-- Expressions are phrases.
theorem Phrase.of_word {id : String} (word : Word id.toList) : Phrase id := by
  obtain ⟨filled, _, chars⟩ := word
  rw [List.all_eq_true] at chars
  refine ⟨?_, ?_, ?_⟩
  · unfold Opening
    cases split : id.toList with
    | nil => exact absurd split filled
    | cons c cs =>
      rw [split] at chars
      simp [opensText, chars c (by simp)]
  · unfold Closing
    rw [List.getLast?_eq_some_getLast filled]
    simp [closesText, chars _ (List.getLast_mem filled)]
  · unfold Single
    rw [List.contains_eq_mem, decide_eq_false_iff_not]
    intro feed
    exact absurd (chars _ feed) (by decide)

theorem Phrase.of_identifier {id : String} (proper : isIdentifier id = true) : Phrase id :=
  .of_word (.of_identifier proper)

theorem Phrase.of_numeral {digits : String} (proper : isNumeral digits.toList = true) : Phrase digits := by
  obtain ⟨chars, c, cs, split, digit⟩ := numeral_chars proper
  have filled : digits.toList ≠ [] := by simp [split]
  refine ⟨?_, ?_, ?_⟩
  · unfold Opening
    rw [split]
    simp [opensText, isNameChar_of_isDigit digit]
  · unfold Closing
    rw [List.getLast?_eq_some_getLast filled, Option.any_some]
    have last := chars _ (List.getLast_mem filled)
    rw [Bool.or_eq_true] at last
    rcases last with named | point
    · simp [closesText, named]
    · simp [closesText, point]
  · unfold Single
    rw [List.contains_eq_mem, decide_eq_false_iff_not]
    intro feed
    exact absurd (chars _ feed) (by decide)

theorem literalChar_single (single : Bool) (c : Char) : Single (literalChar single c) := by
  unfold literalChar
  split
  · decide
  split
  · decide
  split
  · decide
  split
  · decide
  · next _ feed _ _ => simpa [Single] using fun same => feed same.symm

theorem join_single {parts : List String} (each : ∀ part ∈ parts, Single part) :
    Single (String.join parts) := by
  induction parts with
  | nil => decide
  | cons part parts ih =>
    rw [List.forall_mem_cons] at each
    rw [String.join_cons]
    exact each.1.append (ih each.2)

theorem quote_phrase (value : String) : Phrase (quote value) := by
  have body : ∀ single, Single (String.join (value.toList.map (literalChar single))) := by
    intro single
    refine join_single fun part member => ?_
    obtain ⟨c, _, rfl⟩ := List.mem_map.mp member
    exact literalChar_single single c
  have marked : ∀ (mark : String) (single : Bool), Opening mark → Closing mark → Single mark →
      Phrase (mark ++ String.join (value.toList.map (literalChar single)) ++ mark) :=
    fun mark single opens closes alone =>
      ⟨(opens.append _).append _, closes.append _, (alone.append (body single)).append alone⟩
  unfold quote
  dsimp only
  split
  · split
    · exact marked _ _ (by decide) (by decide) (by decide)
    · exact marked _ _ (by decide) (by decide) (by decide)
  · exact marked _ _ (by decide) (by decide) (by decide)

namespace Expr

theorem enclose_phrase {text : String} (phrase : Phrase text) (child context : Order)
    (binding : Binding) : Phrase (enclose text child context binding) := by
  unfold enclose
  split
  · have opens : Opening "(" := by decide
    have closes : Closing ")" := by decide
    have left : Single "(" := by decide
    have right : Single ")" := by decide
    exact ⟨(opens.append _).append _, closes.append _, (left.append phrase.single).append right⟩
  · exact phrase

theorem renderAll_eq (items : List Expr) : renderAll items = items.map render := by
  induction items with
  | nil => rfl
  | cons e rest ih => rw [renderAll, ih, List.map_cons]

theorem items_single {items : List Expr} (each : ∀ e ∈ items, Phrase e.render) :
    Single (String.intercalate ", " (renderAll items)) := by
  refine .intercalate (by decide) fun part member => ?_
  rw [renderAll_eq] at member
  obtain ⟨e, listed, rfl⟩ := List.mem_map.mp member
  exact (each e listed).single

-- An expression, then something in brackets.
theorem trailed_phrase {owner inner left right : String} (first : Phrase owner) (single : Single inner)
    (opening : Single left) (closing : Closing right ∧ Single right) :
    Phrase (owner ++ left ++ inner ++ right) :=
  ⟨((first.opens.append _).append _).append _, closing.1.append _,
    ((first.single.append opening).append single).append closing.2⟩

theorem Legible.phrase {e : Expr} (legible : e.Legible) : Phrase e.render := by
  induction legible with
  | name proper =>
    rw [render]
    exact .of_word (proper.elim .of_identifier .of_constant)
  | numeral proper =>
    rw [render]
    exact .of_numeral proper
  | text value =>
    rw [render]
    exact quote_phrase value
  | list each ih =>
    rw [render]
    have opens : Opening "[" := by decide
    have left : Single "[" := by decide
    have closes : Closing "]" := by decide
    have right : Single "]" := by decide
    exact ⟨(opens.append _).append _, closes.append _, (left.append (items_single ih)).append right⟩
  | call _ _ ihF ihA =>
    rw [render]
    exact trailed_phrase (enclose_phrase ihF _ _ _) (items_single ihA) (by decide) (by decide)
  | item _ _ ihO ihP =>
    rw [render]
    exact trailed_phrase (enclose_phrase ihO _ _ _) ihP.single (by decide) (by decide)
  | member _ _ proper ih =>
    rw [render]
    exact (enclose_phrase ih _ _ _).join (by decide) (.of_identifier proper)
  | opposite _ ih =>
    rw [render, minus]
    split
    · exact (enclose_phrase ih _ _ _).after (by decide) (by decide)
    · exact (enclose_phrase ih _ _ _).after (by decide) (by decide)
  | negation _ ih =>
    rw [render]
    exact (enclose_phrase ih _ _ _).after (by decide) (by decide)
  | @binary op left right _ _ ihL ihR =>
    have symbol : Single (" " ++ (op.symbol ++ " ")) := by
      cases op <;> decide
    have whole := (enclose_phrase ihL left.order op.order op.left).join symbol
      (enclose_phrase ihR right.order op.order op.right)
    rw [render]
    simpa only [String.append_assoc] using whole
  | conditional _ _ _ ihV ihC ihO =>
    rw [render]
    exact ((enclose_phrase ihV _ _ _).join (by decide) (enclose_phrase ihC _ _ _)).join (by decide)
      (enclose_phrase ihO _ _ _)

theorem Legible.within_phrase {e : Expr} (legible : e.Legible) (context : Order) (binding : Binding) :
    Phrase (e.within context binding) := enclose_phrase legible.phrase _ _ _

end Expr

-- Lines that are phrases.
theorem blank_of_opensText {c : Char} (opens : opensText c = true) :
    Text.isBlank c = false ∧ c ≠ '#' := by
  have code : 34 ≤ c.toNat ∧ c.toNat ≤ 122 ∧ c.toNat ≠ 35 := by
    simp only [opensText, isNameChar, isQuote, Char.isAlphanum, Char.isAlpha, Char.isUpper, Char.isLower,
      Char.isDigit, Bool.or_eq_true, Bool.and_eq_true, decide_eq_true_eq, beq_iff_eq, ge_iff_le,
      UInt32.le_iff_toNat_le] at opens
    have same : c.val.toNat = c.toNat := rfl
    rw [same] at opens
    rcases opens with (((((((⟨low, high⟩ | ⟨low, high⟩) | ⟨low, high⟩) | rfl) | rfl | rfl) | rfl) | rfl) | rfl)
    all_goals first | decide | skip
    all_goals simp at low high
    all_goals omega
  refine ⟨?_, fun same => ?_⟩
  · simp only [Text.isBlank, Text.CharSet.contains, Text.whiteSpace, List.any_cons, List.any_nil,
      Bool.or_eq_false_iff, Bool.and_eq_false_iff, decide_eq_false_iff_not, Nat.not_le, and_true]
    omega
  · exact code.2.2 (by rw [same]; rfl)

theorem Phrase.tidy {s : String} (phrase : Phrase s) : Tidy s := by
  obtain ⟨opens, closes, single⟩ := phrase
  refine ⟨?_, by simpa [Single] using single, fun last => ?_⟩
  · unfold Opening at opens
    cases first : s.toList.head? with
    | none => simp [first] at opens
    | some c =>
      rw [first, Option.any_some] at opens
      simp [(blank_of_opensText opens).1]
  · unfold Closing at closes
    rw [last] at closes
    exact absurd closes (by decide)

theorem Phrase.plain {s : String} (phrase : Phrase s) : isHeader s = false ∧ isComment s = false := by
  obtain ⟨opens, closes, _⟩ := phrase
  constructor
  · unfold isHeader
    rw [Bool.and_eq_false_iff]
    refine .inr (beq_eq_false_iff_ne.mpr fun last => ?_)
    unfold Closing at closes
    rw [last] at closes
    exact absurd closes (by decide)
  · unfold isComment
    refine beq_eq_false_iff_ne.mpr fun first => ?_
    unfold Opening at opens
    rw [first] at opens
    exact absurd opens (by decide)

structure Suite (lines : List Line) : Prop where
  blocked : Blocked false lines
  acts : Acting lines

theorem Phrase.suite {s : String} (phrase : Phrase s) : Suite [.flat s] :=
  ⟨.line phrase.tidy phrase.plain.1 (.done _), _, List.mem_singleton.mpr rfl, rfl, phrase.plain.2⟩

theorem Suite.append {lines more : List Line} (suite : Suite lines) (after : Blocked false more) :
    Suite (lines ++ more) := by
  obtain ⟨blocked, line, listed, flat, plain⟩ := suite
  exact ⟨blocked.append after, line, List.mem_append_left _ listed, flat, plain⟩

theorem Suite.after {lines more : List Line} (suite : Suite more) (before : Blocked false lines) :
    Suite (lines ++ more) := by
  obtain ⟨blocked, line, listed, flat, plain⟩ := suite
  exact ⟨before.append blocked, line, List.mem_append_right _ listed, flat, plain⟩

-- Lines that open a suite.
def headWords : List String := ["if ", "elif ", "for ", "while ", "def "]

section
variable {word : String} (body : String)

theorem getLast?_colon (s : String) : (s ++ ":").toList.getLast? = some ':' := by
  simp [String.toList_append]

theorem head_tidy (listed : word ∈ headWords) {body : String} (single : Single body) :
    Tidy (word ++ body ++ ":") := by
  have start : Single word ∧ word.toList.head?.any (!Text.isBlank ·) = true := by
    simp only [headWords, List.mem_cons, List.not_mem_nil, or_false] at listed
    rcases listed with rfl | rfl | rfl | rfl | rfl <;> decide
  refine ⟨?_, ?_, by simp⟩
  · rw [String.toList_append, String.toList_append]
    cases split : word.toList with
    | nil => simp [split] at start
    | cons c cs =>
      rw [split] at start
      exact start.2
  · have whole : Single (word ++ body ++ ":") := (start.1.append single).append (by decide)
    simpa [Single] using whole

theorem startsWith_append {words : List String} (listed : word ∈ words) (s : String) :
    startsWith words (word ++ s) = true := by
  refine List.any_eq_true.mpr ⟨word, listed, ?_⟩
  rw [String.toList_append, List.isPrefixOf_iff_prefix]
  exact List.prefix_append _ _

theorem head_isHeader (listed : word ∈ headWords) : isHeader (word ++ body ++ ":") = true := by
  have among : word ∈ ["if ", "elif ", "else:", "for ", "while ", "def "] := by
    simp only [headWords, List.mem_cons, List.not_mem_nil, or_false] at listed
    rcases listed with rfl | rfl | rfl | rfl | rfl <;> decide
  rw [isHeader, getLast?_colon, String.append_assoc, startsWith_append among]
  rfl

theorem head_first (listed : word ∈ ["if ", "for ", "while ", "def "]) :
    isBranch (word ++ body ++ ":") = false := by
  rw [isBranch, Bool.and_eq_false_iff]
  simp only [List.mem_cons, List.not_mem_nil, or_false] at listed
  rcases listed with rfl | rfl | rfl | rfl <;> simp [startsWith, List.isPrefixOf]

theorem head_conditional (listed : word ∈ ["if ", "elif "]) :
    isConditional (word ++ body ++ ":") = true := by
  have known : word ∈ headWords := by
    simp only [List.mem_cons, List.not_mem_nil, or_false] at listed
    rcases listed with rfl | rfl <;> decide
  rw [isConditional, head_isHeader body known, String.append_assoc, startsWith_append listed]
  rfl

theorem head_plain (listed : word ∈ headWords) : isComment (word ++ body ++ ":") = false := by
  simp only [headWords, List.mem_cons, List.not_mem_nil, or_false] at listed
  rcases listed with rfl | rfl | rfl | rfl | rfl <;> simp [isComment]

theorem Suite.compound (listed : word ∈ ["if ", "for ", "while ", "def "]) {body : String}
    (single : Single body) {lines : List Line} (inner : Suite lines) :
    Suite (.flat (word ++ body ++ ":") :: deeper lines) := by
  have known : word ∈ headWords := by
    simp only [List.mem_cons, List.not_mem_nil, or_false] at listed
    rcases listed with rfl | rfl | rfl | rfl <;> decide
  refine ⟨?_, _, List.mem_cons_self, rfl, head_plain body known⟩
  rw [← List.append_nil (deeper lines)]
  exact .opener (head_tidy known single) (head_isHeader body known) (head_first body listed)
    inner.blocked inner.acts (.done _)

end
end Blockwork.Python

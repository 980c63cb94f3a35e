import Mathlib
import Blockwork.Proofs.Lexing

-- A text between quotes stays one string literal in one line, whatever is in it.
namespace Blockwork.Python

-- Backslashes right before a character. An odd number of them makes it part of an escape.
def slashesBefore (before : List Char) : Nat := (before.rtakeWhile (· == '\\')).length

theorem slashesBefore_concat (before : List Char) (c : Char) :
    slashesBefore (before ++ [c]) = if c = '\\' then slashesBefore before + 1 else 0 := by
  unfold slashesBefore
  rw [List.rtakeWhile_concat]
  by_cases slash : c = '\\' <;> simp [slash]

-- Behind complete escapes, only the backslashes that come later count.
theorem slashesBefore_append {first : List Char} (complete : Even (slashesBefore first)) (second : List Char) :
    Even (slashesBefore (first ++ second)) ↔ Even (slashesBefore second) := by
  induction second using List.reverseRecOn with
  | nil => simpa [slashesBefore] using complete
  | append_singleton second c ih =>
    rw [← List.append_assoc, slashesBefore_concat, slashesBefore_concat]
    split
    · rw [Nat.even_add_one, Nat.even_add_one, ih]
    · rfl

theorem literalChar_complete (single : Bool) (c : Char) : Even (slashesBefore (literalChar single c).toList) := by
  unfold literalChar
  split
  · decide
  split
  · decide
  split
  · decide
  split
  · decide
  · next slash _ _ _ =>
    have single : c.toString.toList = [] ++ [c] := by simp
    rw [single, slashesBefore_concat, if_neg slash]
    decide

-- The quote of a literal is written for a character of its text only behind a backslash.
theorem literalChar_mark {mark c : Char} {single : Bool} (quoted : isQuote mark = true)
    (escaped : c = mark → c = '\x27' ∧ single = true) {before after : List Char}
    (split : (literalChar single c).toList = before ++ mark :: after) : before = ['\\'] := by
  have ⟨slash, _, _, named⟩ := solid_of_quote quoted
  have escape {second : Char} (pair : ['\\', second] = before ++ mark :: after) : before = ['\\'] := by
    cases before with
    | nil => exact absurd (List.cons.inj pair).1.symm slash
    | cons first rest =>
      obtain ⟨rfl, pair⟩ := List.cons.inj pair
      cases rest with
      | nil => rfl
      | cons _ _ => simp at pair
  unfold literalChar at split
  split at split
  · exact escape split
  split at split
  · exact escape split
  split at split
  · exact escape split
  split at split
  · exact escape split
  · next plain =>
    have single : [c] = before ++ mark :: after := by simpa using split
    cases before with
    | nil => exact absurd (escaped (List.cons.inj single).1) plain
    | cons _ _ => simp at single

theorem escaped_mark {mark : Char} {single : Bool} (quoted : isQuote mark = true) {cs : List Char}
    (escaped : ∀ c ∈ cs, c = mark → c = '\x27' ∧ single = true) {before after : List Char}
    (split : (String.join (cs.map (literalChar single))).toList = before ++ mark :: after) :
    ¬ Even (slashesBefore before) := by
  induction cs generalizing before with
  | nil => simp at split
  | cons c cs ih =>
    rw [List.forall_mem_cons] at escaped
    rw [List.map_cons, String.join_cons, String.toList_append] at split
    rcases List.append_eq_append_iff.mp split with ⟨more, rfl, later⟩ | ⟨more, here, later⟩
    · rw [slashesBefore_append (literalChar_complete single c)]
      exact ih escaped.2 later
    · cases more with
      | nil =>
        rw [List.append_nil] at here
        subst here
        have rest : ¬ Even (slashesBefore []) := ih escaped.2 later.symm
        exact absurd (by decide) rest
      | cons first more =>
        obtain ⟨rfl, _⟩ := List.cons.inj later
        rw [literalChar_mark quoted escaped.1 here]
        decide

theorem literalChar_unbroken (single : Bool) (c : Char) :
    '\n' ∉ (literalChar single c).toList ∧ '\r' ∉ (literalChar single c).toList := by
  unfold literalChar
  split
  · decide
  split
  · decide
  split
  · decide
  split
  · decide
  · next _ feed back _ => simp [Ne.symm feed, Ne.symm back]

-- A string literal in one line: it has no line ends, and between its two quotes there is a quote of
-- the same kind only where an escape takes it.
structure OneLiteral (cs : List Char) : Prop where
  unbroken : '\n' ∉ cs ∧ '\r' ∉ cs
  enclosed : ∃ mark body, isQuote mark = true ∧ cs = mark :: (body ++ [mark]) ∧
    ∀ before after, body = before ++ mark :: after → Odd (slashesBefore before)

theorem quote_oneLiteral (value : String) : OneLiteral (quote value).toList := by
  obtain ⟨mark, single, quoted, shape, escaped⟩ := quote_shape value
  have feed : '\n' ≠ mark := by
    intro same
    subst same
    cases quoted
  have back : '\r' ≠ mark := by
    intro same
    subst same
    cases quoted
  refine ⟨?_, mark, _, quoted, shape, fun before after split => ?_⟩
  · rw [shape]
    simp [feed, back, literalChar_unbroken single]
  · exact Nat.not_even_iff_odd.mp (escaped_mark quoted escaped split)

theorem quote_read_back (text : String) (rest : List Char) (apart : ∀ c ∈ rest.head?, isQuote c = false) :
    readToken ((quote text).toList ++ rest) = some (.text text, rest) ∧ OneLiteral (quote text).toList :=
  ⟨readToken_quote text apart, quote_oneLiteral text⟩

-- A backslash before each kind of quote, both kinds at once, and words that look like escapes.
theorem tricky_quote_read_back :
    quote "\\' \\\" \\n\n\r\\" = "'\\\\\\' \\\\\" \\\\n\\n\\r\\\\'" ∧
      (readToken ((quote "\\' \\\" \\n\n\r\\").toList ++ " + 'more'".toList)
        = some (.text "\\' \\\" \\n\n\r\\", " + 'more'".toList) ∧
      OneLiteral (quote "\\' \\\" \\n\n\r\\").toList) :=
  ⟨by decide +kernel, quote_read_back _ _ (by simp [isQuote])⟩

end Blockwork.Python

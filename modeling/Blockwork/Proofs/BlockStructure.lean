import Mathlib
import Blockwork.Python.Layout

-- Lines of a program that form blocks. They are built up statement by statement;
-- what one can say about each line among the others follows from that.
namespace Blockwork.Python

def startsWith (words : List String) (content : String) : Bool :=
  words.any fun word => word.toList.isPrefixOf content.toList

def isHeader (content : String) : Bool :=
  startsWith ["if ", "elif ", "else:", "for ", "while ", "def "] content
    && content.toList.getLast? == some ':'

def isBranch (content : String) : Bool := isHeader content && startsWith ["elif ", "else:"] content

-- A header after whose suite a conditional may go on.
def isConditional (content : String) : Bool := isHeader content && startsWith ["if ", "elif "] content

def isComment (content : String) : Bool := content.toList.head? == some '#'

-- A content that stays one line, and the same line, wherever it is put.
structure Tidy (content : String) : Prop where
  solid : content.toList.head?.any (!Text.isBlank ·) = true
  single : '\n' ∉ content.toList
  ended : content.toList.getLast? ≠ some '\r'

def Acting (lines : List Line) : Prop := ∃ line ∈ lines, line.depth = 0 ∧ isComment line.content = false

-- Statements one after another. The flag tells whether a conditional before them may go
-- on.
inductive Blocked : Bool → List Line → Prop where
  | done (goesOn) : Blocked goesOn []
  | line {goesOn content rest} (tidy : Tidy content) (plain : isHeader content = false)
    (more : Blocked false rest) : Blocked goesOn (.flat content :: rest)
  | opener {goesOn content body rest} (tidy : Tidy content) (header : isHeader content = true)
    (first : isBranch content = false) (inner : Blocked false body) (acts : Acting body)
    (more : Blocked (isConditional content) rest) : Blocked goesOn (.flat content :: (deeper body ++ rest))
  | branch {content body rest} (tidy : Tidy content) (header : isHeader content = true)
    (inner : Blocked false body) (acts : Acting body)
    (more : Blocked (isConditional content) rest) : Blocked true (.flat content :: (deeper body ++ rest))

namespace Blocked

variable {goesOn : Bool} {lines more : List Line}

theorem mono (blocked : Blocked false lines) : Blocked goesOn lines := by
  cases blocked with
  | done => exact .done _
  | line tidy plain more => exact .line tidy plain more
  | opener tidy header first inner acts more => exact .opener tidy header first inner acts more

theorem append (blocked : Blocked goesOn lines) (after : Blocked false more) :
    Blocked goesOn (lines ++ more) := by
  induction blocked with
  | done => exact after.mono
  | line tidy plain _ ih => exact .line tidy plain ih
  | opener tidy header first inner acts _ _ ih =>
    rw [List.cons_append, List.append_assoc]
    exact .opener tidy header first inner acts ih
  | branch tidy header inner acts _ _ ih =>
    rw [List.cons_append, List.append_assoc]
    exact .branch tidy header inner acts ih

theorem flat_head (blocked : Blocked goesOn lines) : ∀ line ∈ lines.head?, line.depth = 0 := by
  cases blocked with
  | done => simp
  | _ =>
    rintro _ ⟨⟩
    rfl

theorem tidy (blocked : Blocked goesOn lines) : ∀ line ∈ lines, Tidy line.content := by
  have below : ∀ {body : List Line}, (∀ line ∈ body, Tidy line.content) →
      ∀ line ∈ deeper body, Tidy line.content := by
    intro body all line member
    obtain ⟨inner, listed, rfl⟩ := List.mem_map.mp member
    exact all inner listed
  induction blocked with
  | done => simp
  | line tidy _ _ ih => exact List.forall_mem_cons.mpr ⟨tidy, ih⟩
  | opener tidy _ _ _ _ _ ihB ihR | branch tidy _ _ _ _ ihB ihR =>
    refine List.forall_mem_cons.mpr ⟨tidy, fun line member => ?_⟩
    exact (List.mem_append.mp member).elim (below ihB line) (ihR line)

end Blocked

structure Fits (before : List Line) (line : Line) (after : List Line) : Prop where
  grows : ∀ next ∈ after.head?, next.depth ≤ line.depth ∨
    isHeader line.content = true ∧ next.depth = line.depth + 1
  suite : isHeader line.content = true → ∃ body rest, after = body ++ rest ∧
    (∀ inner ∈ body, line.depth < inner.depth) ∧ (∀ next ∈ rest.head?, next.depth ≤ line.depth) ∧
    (∃ inner ∈ body, inner.depth = line.depth + 1 ∧ isComment inner.content = false)
  branch : isBranch line.content = true → ∃ front opener body, before = front ++ opener :: body ∧
    isConditional opener.content = true ∧ opener.depth = line.depth ∧
    ∀ inner ∈ body, line.depth < inner.depth

theorem split_append {α : Type} {xs ys before after : List α} {a : α}
    (same : xs ++ ys = before ++ a :: after) :
    (∃ middle, xs = before ++ a :: middle ∧ after = middle ++ ys) ∨
      ∃ middle, before = xs ++ middle ∧ ys = middle ++ a :: after := by
  rcases List.append_eq_append_iff.mp same with ⟨middle, first, second⟩ | ⟨middle, first, second⟩
  · exact .inr ⟨middle, first, second⟩
  · cases middle with
    | nil =>
      rw [List.nil_append] at second
      exact .inr ⟨[], by simpa using first.symm, second.symm⟩
    | cons b middle =>
      cases second
      exact .inl ⟨middle, first, rfl⟩

namespace Fits

variable {before after : List Line} {line : Line}

-- More lines around change nothing, as long as those behind do not belong to a suite of the line.
theorem extend (fits : Fits before line after) (front : List Line) {back : List Line}
    (flat : ∀ next ∈ back.head?, next.depth = 0) : Fits (front ++ before) line (after ++ back) := by
  refine ⟨?_, fun header => ?_, fun branch => ?_⟩
  · cases after with
    | nil =>
      intro next first
      rw [List.nil_append] at first
      exact .inl (by rw [flat next first]; exact Nat.zero_le _)
    | cons b after => exact fits.grows
  · obtain ⟨body, rest, split, inner, stop, acts⟩ := fits.suite header
    refine ⟨body, rest ++ back, by rw [split, List.append_assoc], inner, ?_, acts⟩
    cases rest with
    | nil =>
      intro next first
      rw [List.nil_append] at first
      rw [flat next first]
      exact Nat.zero_le _
    | cons b rest => exact stop
  · obtain ⟨start, opener, body, split, rest⟩ := fits.branch branch
    exact ⟨front ++ start, opener, body, by rw [split, List.append_assoc], rest⟩

theorem deepen (fits : Fits before line after) :
    Fits (deeper before) { line with depth := line.depth + 1 } (deeper after) := by
  have lifted : ∀ {lines : List Line} {inner : Line}, inner ∈ deeper lines →
      ∃ l ∈ lines, inner.depth = l.depth + 1 := by
    intro lines inner member
    obtain ⟨l, listed, rfl⟩ := List.mem_map.mp member
    exact ⟨l, listed, rfl⟩
  have head : ∀ {lines : List Line} {next : Line}, next ∈ (deeper lines).head? →
      ∃ l ∈ lines.head?, next.depth = l.depth + 1 := by
    intro lines next first
    cases lines with
    | nil => cases first
    | cons l lines =>
      cases first
      exact ⟨l, rfl, rfl⟩
  refine ⟨fun next first => ?_, fun header => ?_, fun branch => ?_⟩
  · obtain ⟨l, first, depth⟩ := head first
    have grows := fits.grows l first
    rw [depth]
    rcases grows with le | ⟨header, eq⟩
    · exact .inl (Nat.succ_le_succ le)
    · exact .inr ⟨header, congrArg (· + 1) eq⟩
  · obtain ⟨body, rest, split, deep, stop, inner, listed, depth, acts⟩ := fits.suite header
    refine ⟨deeper body, deeper rest, by rw [split, deeper, List.map_append]; rfl, ?_, ?_, ?_⟩
    · intro inner member
      obtain ⟨l, listed, depth⟩ := lifted member
      have lt := deep l listed
      show line.depth + 1 < inner.depth
      omega
    · intro next first
      obtain ⟨l, first, depth⟩ := head first
      have le := stop l first
      show next.depth ≤ line.depth + 1
      omega
    · exact ⟨_, List.mem_map.mpr ⟨inner, listed, rfl⟩, congrArg (· + 1) depth, acts⟩
  · obtain ⟨front, opener, body, split, conditional, depth, deep⟩ := fits.branch branch
    refine ⟨deeper front, { opener with depth := opener.depth + 1 }, deeper body, ?_, conditional,
      congrArg (· + 1) depth, ?_⟩
    · rw [split, deeper, List.map_append]
      rfl
    · intro inner member
      obtain ⟨l, listed, depth⟩ := lifted member
      have lt := deep l listed
      show line.depth + 1 < inner.depth
      omega

end Fits

-- The lines so far end with the suite of a conditional that may go on.
def Pending (front : List Line) : Prop := ∃ start opener body, front = start ++ opener :: body ∧
  isConditional opener.content = true ∧ opener.depth = 0 ∧ ∀ inner ∈ body, 0 < inner.depth

theorem deeper_pos {body : List Line} : ∀ inner ∈ deeper body, 0 < inner.depth := by
  intro inner member
  obtain ⟨l, _, rfl⟩ := List.mem_map.mp member
  exact Nat.succ_pos _

-- A header with its suite, and what comes after it.
theorem fits_suite {front : List Line} {content : String} {body rest : List Line}
    (header : isHeader content = true) (inner : Blocked false body) (acts : Acting body)
    (flat : ∀ next ∈ rest.head?, next.depth = 0) (pending : isBranch content = true → Pending front) :
    Fits front (.flat content) (deeper body ++ rest) := by
  obtain ⟨line, listed, depth, does⟩ := acts
  refine ⟨fun next first => ?_, fun _ => ?_, fun branch => ?_⟩
  · cases body with
    | nil => cases listed
    | cons l body =>
      cases first
      exact .inr ⟨header, congrArg (· + 1) (inner.flat_head l rfl)⟩
  · refine ⟨deeper body, rest, rfl, deeper_pos, fun next first => ?_, _,
      List.mem_map.mpr ⟨line, listed, rfl⟩, congrArg (· + 1) depth, does⟩
    exact (flat next first).le
  · exact pending branch

theorem fits_compound {front : List Line} {content : String} {body rest : List Line}
    (header : isHeader content = true) (inner : Blocked false body) (acts : Acting body)
    (more : Blocked (isConditional content) rest) (pending : isBranch content = true → Pending front)
    (within : ∀ {before after line}, body = before ++ line :: after → Fits before line after)
    (behind : ∀ {before after line}, rest = before ++ line :: after →
      Fits ((front ++ .flat content :: deeper body) ++ before) line after)
    {before after : List Line} {line : Line}
    (split : .flat content :: (deeper body ++ rest) = before ++ line :: after) :
    Fits (front ++ before) line after := by
  cases before with
  | nil =>
    cases split
    rw [List.append_nil]
    exact fits_suite header inner acts more.flat_head pending
  | cons first before =>
    obtain ⟨rfl, same⟩ := List.cons.inj split
    rcases split_append same with ⟨middle, inside, rfl⟩ | ⟨middle, rfl, outside⟩
    · -- The line is in the suite: it fits there, one level less deep.
      obtain ⟨low, high, halves, rfl, tail⟩ := List.map_eq_append_iff.mp inside
      obtain ⟨l, low', rfl, rfl, rfl⟩ := List.map_eq_cons_iff.mp tail
      have fits := (within halves).deepen.extend (front ++ [.flat content]) more.flat_head
      rw [List.append_assoc] at fits
      exact fits
    · have fits := behind outside
      rw [List.append_assoc, List.cons_append] at fits
      exact fits

theorem pending_suite (front : List Line) {content : String} (body : List Line)
    (conditional : isConditional content = true) : Pending (front ++ .flat content :: deeper body) :=
  ⟨front, .flat content, deeper body, rfl, conditional, rfl, deeper_pos⟩

theorem Blocked.fits {goesOn : Bool} {lines : List Line} (blocked : Blocked goesOn lines)
    {front : List Line} (pending : goesOn = true → Pending front) {before after : List Line} {line : Line}
    (split : lines = before ++ line :: after) : Fits (front ++ before) line after := by
  have none : false = true → Pending [] := by simp
  induction blocked generalizing front before after line with
  | done => simp at split
  | @line goesOn content rest tidy plain more ih =>
    cases before with
    | nil =>
      cases split
      rw [List.append_nil]
      refine ⟨fun next first => .inl (more.flat_head next first).le, fun header => ?_, fun branch => ?_⟩
      · exact absurd (plain.symm.trans header) (by simp)
      · simp [isBranch, Line.flat, plain] at branch
    | cons first before =>
      obtain ⟨rfl, same⟩ := List.cons.inj split
      have fits : Fits ((front ++ [.flat content]) ++ before) line after := ih (by simp) same
      rw [List.append_assoc] at fits
      exact fits
  | @opener goesOn content body rest tidy header first inner acts more ihB ihR =>
    refine fits_compound header inner acts more (fun branch => ?_) (fun same => ?_) (fun same => ?_) split
    · exact absurd (first.symm.trans branch) (by simp)
    · exact ihB none same
    · exact ihR (pending_suite front body) same
  | @branch content body rest tidy header inner acts more ihB ihR =>
    refine fits_compound header inner acts more (fun _ => pending rfl) (fun same => ?_)
      (fun same => ?_) split
    · exact ihB none same
    · exact ihR (pending_suite front body) same

structure Structured (lines : List Line) : Prop where
  tidy : ∀ line ∈ lines, Tidy line.content
  start : ∀ line ∈ lines.head?, line.depth = 0
  fits : ∀ before line after, lines = before ++ line :: after → Fits before line after

theorem Blocked.structured {lines : List Line} (blocked : Blocked false lines) : Structured lines where
  tidy := blocked.tidy
  start := blocked.flat_head
  fits := fun before line after split => by
    have none : false = true → Pending [] := by simp
    exact blocked.fits none split

end Blockwork.Python

import Mathlib
import Blockwork.Proofs.BlockStructure
import Blockwork.Python.Layout

-- Lines as text. A line comes out as one row, indented as deep as it is, and a
-- text that is put together from rows falls back into them at its line feeds.
namespace Blockwork.Python

def Indents (unit : String) : Prop := ∀ c ∈ unit.toList, c = ' ' ∨ c = '\t'

theorem Indents.single {unit : String} (indents : Indents unit) : '\n' ∉ unit.toList :=
  fun inside => absurd (indents _ inside) (by decide)

def Line.row (unit : String) (line : Line) : String :=
  String.join (List.replicate line.depth unit) ++ line.content

structure Row (row : String) : Prop where
  visible : Text.allBlank row = false
  single : '\n' ∉ row.toList
  ended : row.toList.getLast? ≠ some '\r'

theorem Tidy.row {content : String} (tidy : Tidy content) : Row content := by
  refine ⟨?_, tidy.single, tidy.ended⟩
  have solid := tidy.solid
  rw [Text.allBlank]
  cases split : content.toList with
  | nil => simp [split] at solid
  | cons c cs =>
    rw [split] at solid
    have first : Text.isBlank c = false := by simpa using solid
    simp [first]

theorem Row.filled {row : String} (proper : Row row) : row.toList ≠ [] := by
  intro none
  have visible := proper.visible
  simp [Text.allBlank, none] at visible

theorem Row.indent {unit row : String} (single : '\n' ∉ unit.toList) (proper : Row row) : Row (unit ++ row) := by
  refine ⟨?_, ?_, ?_⟩
  · rw [Text.allBlank, String.toList_append, List.all_append]
    exact Bool.and_eq_false_iff.mpr (.inr proper.visible)
  · rw [String.toList_append, List.mem_append]
    exact not_or.mpr ⟨single, proper.single⟩
  · rw [String.toList_append, List.getLast?_append_of_ne_nil _ proper.filled]
    exact proper.ended

-- Cutting one row into lines gives it back.
theorem linesFrom_row {line cs : List Char} (single : '\n' ∉ cs) :
    Text.linesFrom line (cs ++ ['\n']) = [(Text.dropReturn (cs.reverse ++ line)).reverse] := by
  induction cs generalizing line with
  | nil => simp [Text.linesFrom]
  | cons c cs ih =>
    rw [List.mem_cons, not_or] at single
    have other : ¬c = '\n' := Ne.symm single.1
    rw [List.cons_append, Text.linesFrom, if_neg other, ih single.2]
    simp

theorem dropReturn_eq {cs : List Char} (ended : cs.head? ≠ some '\r') : Text.dropReturn cs = cs := by
  unfold Text.dropReturn
  split
  · simp at ended
  · rfl

theorem Row.lines {row : String} (proper : Row row) : Text.lines (row ++ "\n") = [row] := by
  have kept : Text.dropReturn row.toList.reverse = row.toList.reverse :=
    dropReturn_eq (by rw [List.head?_reverse]; exact proper.ended)
  have feed : "\n".toList = ['\n'] := by simp
  rw [Text.lines, String.toList_append, feed, linesFrom_row proper.single, List.append_nil, kept]
  simp

theorem Row.indent_eq {unit row : String} (proper : Row row) :
    Python.indent unit (row ++ "\n") = unit ++ row ++ "\n" := by
  rw [Python.indent, proper.lines]
  simp [proper.visible]

theorem indentTo_eq {unit content : String} (single : '\n' ∉ unit.toList) (tidy : Tidy content) (depth : Nat) :
    Row (String.join (List.replicate depth unit) ++ content) ∧
      indentTo unit depth (content ++ "\n")
        = String.join (List.replicate depth unit) ++ content ++ "\n" := by
  induction depth with
  | zero =>
    have empty : String.join (List.replicate 0 unit) ++ content = content := by simp
    rw [empty]
    exact ⟨tidy.row, rfl⟩
  | succ depth ih =>
    have deeper : String.join (List.replicate (depth + 1) unit) ++ content
        = unit ++ (String.join (List.replicate depth unit) ++ content) := by
      rw [List.replicate_succ, String.join_cons, String.append_assoc]
    rw [deeper, indentTo, ih.2, ih.1.indent_eq]
    exact ⟨ih.1.indent single, rfl⟩

theorem linesText_eq {unit : String} (single : '\n' ∉ unit.toList) {lines : List Line}
    (tidy : ∀ line ∈ lines, Tidy line.content) :
    linesText unit lines = String.join ((lines.map (·.row unit)).map (· ++ "\n")) := by
  unfold linesText
  rw [List.map_map]
  refine congrArg String.join (List.map_congr_left fun line listed => ?_)
  exact (indentTo_eq single (tidy line listed) line.depth).2

-- A text of these rows in order, with empty lines only between them.
def Lays (s : String) (rows : List String) : Prop :=
  ∃ all last, s = String.join ((all ++ [last]).map (· ++ "\n")) ∧ (all ++ [last]).filter (· ≠ "") = rows ∧
    last ≠ "" ∧ ∀ row ∈ rows, Row row

theorem filter_rows {rows : List String} (each : ∀ row ∈ rows, Row row) : rows.filter (· ≠ "") = rows := by
  refine List.filter_eq_self.mpr fun row listed => ?_
  have filled := (each row listed).filled
  simp only [ne_eq, decide_not, Bool.not_eq_true', decide_eq_false_iff_not]
  rintro rfl
  simp at filled

namespace Lays

variable {s other : String} {rows more : List String}

theorem of_rows (filled : rows ≠ []) (each : ∀ row ∈ rows, Row row) :
    Lays (String.join (rows.map (· ++ "\n"))) rows := by
  obtain ⟨all, last, rfl⟩ := (List.eq_nil_or_concat rows).resolve_left filled
  rw [List.concat_eq_append] at each ⊢
  refine ⟨all, last, rfl, filter_rows each, fun none => ?_, each⟩
  have visible := (each last (by simp)).filled
  simp [none] at visible

theorem apart (first : Lays s rows) (second : Lays other more) : Lays (s ++ "\n" ++ other) (rows ++ more) := by
  obtain ⟨all, last, rfl, rfl, _, before⟩ := first
  obtain ⟨rest, final, rfl, rfl, filled, after⟩ := second
  refine ⟨all ++ [last] ++ [""] ++ rest, final, ?_, ?_, filled, ?_⟩
  · simp only [List.map_append, List.map_cons, List.map_nil, String.join_append, String.join_cons,
      String.join_nil, String.empty_append, String.append_empty, String.append_assoc]
  · have none : [""].filter (fun row => decide (row ≠ "")) = [] := by decide
    simp only [List.filter_append, none, List.nil_append, List.append_assoc]
  · intro row listed
    exact (List.mem_append.mp listed).elim (before row) (after row)

theorem intercalate {parts : List (String × List String)} (filled : parts ≠ [])
    (each : ∀ part ∈ parts, Lays part.1 part.2) :
    Lays (String.intercalate "\n" (parts.map (·.1))) (parts.flatMap (·.2)) := by
  induction parts with
  | nil => exact absurd rfl filled
  | cons part rest ih =>
    rw [List.forall_mem_cons] at each
    cases rest with
    | nil => simpa using each.1
    | cons next rest =>
      have behind := ih (by simp) each.2
      rw [List.map_cons, List.map_cons, String.intercalate_cons_cons, List.flatMap_cons]
      exact each.1.apart behind

theorem nonempty (lays : Lays s rows) : rows ≠ [] := by
  obtain ⟨all, last, _, rfl, filled, _⟩ := lays
  simp [List.filter_append, filled]

-- The text ends with exactly one line feed.
theorem ends (lays : Lays s rows) : ∃ front c, s.toList = front ++ [c, '\n'] ∧ c ≠ '\n' := by
  obtain ⟨all, last, rfl, rfl, filled, each⟩ := lays
  have row : Row last := each last (by simp [filled])
  obtain ⟨front, c, split⟩ := (List.eq_nil_or_concat last.toList).resolve_left row.filled
  rw [List.concat_eq_append] at split
  refine ⟨(String.join (all.map (· ++ "\n"))).toList ++ front, c, ?_, fun same => ?_⟩
  · simp [split]
  · exact row.single (by simp [split, same])

theorem endLine (lays : Lays s rows) : Python.endLine s = s := by
  obtain ⟨front, c, split, other⟩ := lays.ends
  rw [Python.endLine, split, ← String.toList_inj, String.toList_ofList, split]
  simp [other]

theorem visible (lays : Lays s rows) : Text.allBlank s = false := by
  obtain ⟨all, last, rfl, rfl, filled, each⟩ := lays
  have row := (each last (by simp [filled])).visible
  rw [Text.allBlank] at row ⊢
  simp [row]

-- Cut at its line feeds, the text falls into its rows.
theorem split (lays : Lays s rows) :
    ((s.toList.splitOn '\n').map String.ofList).filter (· ≠ "") = rows := by
  obtain ⟨all, last, rfl, rfl, _, each⟩ := lays
  have single : ∀ row ∈ all ++ [last], '\n' ∉ row.toList := by
    intro row listed
    by_cases empty : row = ""
    · simp [empty]
    · exact (each row (List.mem_filter.mpr ⟨listed, by simpa using empty⟩)).single
  generalize all ++ [last] = every at single
  induction every with
  | nil => simp
  | cons row rest ih =>
    rw [List.forall_mem_cons] at single
    have head : (String.join ((row :: rest).map (· ++ "\n"))).toList
        = row.toList ++ '\n' :: (String.join (rest.map (· ++ "\n"))).toList := by
      simp
    rw [head, List.splitOn_append_cons_self_of_not_mem single.1, List.map_cons, String.ofList_toList]
    rw [List.filter_cons, List.filter_cons, ih single.2]

-- Between line feeds there is nothing but the rows.
theorem mem (lays : Lays s rows) {c : Char} (inside : c ∈ s.toList) :
    c = '\n' ∨ ∃ row ∈ rows, c ∈ row.toList := by
  obtain ⟨all, last, rfl, rfl, _, _⟩ := lays
  generalize all ++ [last] = every at inside
  induction every with
  | nil => simp at inside
  | cons row rest ih =>
    rw [List.map_cons, String.join_cons, String.toList_append, String.toList_append, List.mem_append,
      List.mem_append] at inside
    rcases inside with (here | feed) | later
    · have filled : row ≠ "" := by
        rintro rfl
        simp at here
      exact .inr ⟨row, by simp [filled], here⟩
    · exact .inl (by simpa using feed)
    · rcases ih later with feed | ⟨other, listed, there⟩
      · exact .inl feed
      · refine .inr ⟨other, ?_, there⟩
        rw [List.filter_cons]
        split
        · exact List.mem_cons_of_mem _ listed
        · exact listed

end Lays

-- A part of a text, or no part where there is nothing to tell.
theorem optional_part {α : Type} (items : List α) (s : String) (rows : List String)
    (none : items = [] → rows = []) (some : items ≠ [] → Lays s rows) :
    ∃ parts : List (String × List String), parts.map (·.1) = (if items.isEmpty then [] else [s]) ∧
      parts.flatMap (·.2) = rows ∧ ∀ part ∈ parts, Lays part.1 part.2 := by
  cases items with
  | nil => exact ⟨[], rfl, (none rfl).symm, by simp⟩
  | cons a rest => exact ⟨[(s, rows)], rfl, by simp, by simpa using some (by simp)⟩

def Written (lines : List Line) : Prop := lines ≠ [] ∧ ∀ line ∈ lines, Tidy line.content

section
variable {unit : String}

theorem Written.lays (indents : Indents unit) {lines : List Line} (written : Written lines) :
    Lays (linesText unit lines) (lines.map (·.row unit)) := by
  rw [linesText_eq indents.single written.2]
  refine .of_rows (by simpa using written.1) fun row listed => ?_
  obtain ⟨line, member, rfl⟩ := List.mem_map.mp listed
  exact (indentTo_eq indents.single (written.2 line member) line.depth).1

theorem groups_lay (indents : Indents unit) {groups : List (List Line)}
    (written : ∀ lines ∈ groups, Written lines) (filled : groups ≠ []) :
    Lays (String.intercalate "\n" (groups.map (linesText unit))) (groups.flatten.map (·.row unit)) := by
  have each : ∀ part ∈ groups.map fun lines => (linesText unit lines, lines.map (·.row unit)),
      Lays part.1 part.2 := by
    intro part listed
    obtain ⟨lines, member, rfl⟩ := List.mem_map.mp listed
    exact (written lines member).lays indents
  have whole := Lays.intercalate (by simpa using filled) each
  simpa [List.map_map, Function.comp_def, List.flatMap_map, List.map_flatten, List.flatMap_def] using whole

-- All lines in order. Where there are none, one line says so.
def gather (imports : List String) (functions chains : List (List Line)) : List Line :=
  let lines := imports.map Line.flat ++ functions.flatten ++ chains.flatten
  if lines.isEmpty then [.flat "pass"] else lines

theorem row_flat (content : String) : (Line.flat content).row unit = content := by
  simp [Line.row, Line.flat]

theorem assemble_lays (indents : Indents unit) {imports : List String} {functions chains : List (List Line)}
    (known : ∀ line ∈ imports, Tidy line) (defined : ∀ lines ∈ functions, Written lines)
    (written : ∀ lines ∈ chains, Written lines) :
    Lays (assemble imports (functions.map (linesText unit))
      (String.intercalate "\n" (chains.map (linesText unit)))) ((gather imports functions chains).map (·.row unit)) := by
  have listed : ∀ line ∈ imports, Row line := fun line member => (known line member).row
  have ended : (functions.map (linesText unit)).map endLine = functions.map (linesText unit) := by
    rw [List.map_map]
    exact List.map_congr_left fun lines member => ((defined lines member).lays indents).endLine
  have chained : (if Text.allBlank (String.intercalate "\n" (chains.map (linesText unit))) then []
        else [endLine (String.intercalate "\n" (chains.map (linesText unit)))])
      = if chains.isEmpty then [] else [String.intercalate "\n" (chains.map (linesText unit))] := by
    cases chains with
    | nil => rfl
    | cons lines rest =>
      have lays := groups_lay indents written (List.cons_ne_nil lines rest)
      rw [lays.visible, lays.endLine]
      rfl
  obtain ⟨top, topTexts, topRows, topLays⟩ := optional_part imports
    (String.join (imports.map (· ++ "\n"))) imports id fun filled => .of_rows filled listed
  obtain ⟨middle, middleTexts, middleRows, middleLays⟩ := optional_part functions _
    (functions.flatten.map (·.row unit)) (by rintro rfl; rfl) (groups_lay indents defined)
  obtain ⟨main, mainTexts, mainRows, mainLays⟩ := optional_part chains _
    (chains.flatten.map (·.row unit)) (by rintro rfl; rfl) (groups_lay indents written)
  have each : ∀ part ∈ top ++ middle ++ main, Lays part.1 part.2 := by
    intro part member
    rcases List.mem_append.mp member with member | member
    · exact (List.mem_append.mp member).elim (topLays part) (middleLays part)
    · exact mainLays part member
  have rows : (top ++ middle ++ main).flatMap (·.2)
      = (imports.map Line.flat ++ functions.flatten ++ chains.flatten).map (·.row unit) := by
    simp [topRows, middleRows, mainRows, row_flat, Function.comp_def]
  rw [assemble, ended, chained, List.isEmpty_map, ← topTexts, ← middleTexts, ← mainTexts]
  simp only [← List.map_append, List.isEmpty_map]
  unfold gather
  dsimp only
  generalize top ++ middle ++ main = parts at rows each
  generalize imports.map Line.flat ++ functions.flatten ++ chains.flatten = lines at rows
  cases parts with
  | nil =>
    obtain rfl : lines = [] := List.map_eq_nil_iff.mp rows.symm
    have pass : Tidy "pass" := ⟨by decide, by decide, by decide⟩
    have lays : Lays (String.join (["pass"].map (· ++ "\n"))) ["pass"] :=
      .of_rows (by simp) (by simpa using pass.row)
    exact lays
  | cons part rest =>
    have filled : lines ≠ [] := by
      rintro rfl
      have first := (each part (by simp)).nonempty
      simp [first] at rows
    have whole := Lays.intercalate (List.cons_ne_nil part rest) each
    rw [rows] at whole
    simpa [filled] using whole

end
end Blockwork.Python

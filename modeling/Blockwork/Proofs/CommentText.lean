import Mathlib
import Blockwork.Proofs.SourceWords

-- Comments as they are read. Every row of a comment starts with its mark. A carriage return inside a
-- row ends the line for the reader, and what follows it has no mark.
namespace Blockwork

open Python

namespace Generation

-- What stands between the line ends of a source. Behind the last of them there is no line.
def segments (cs : List Char) : List (List Char) := (universal cs).splitOn '\n'

def physicalLines (cs : List Char) : List (List Char) :=
  if (segments cs).getLast? = some [] then (segments cs).dropLast else segments cs

theorem universal_append {cs : List Char} (ended : cs.getLast? ≠ some '\r') (rest : List Char) :
    universal (cs ++ '\n' :: rest) = universal cs ++ '\n' :: universal rest := by
  fun_induction universal cs with
  | case1 => simp [universal]
  | case2 cs ih =>
    have ended : cs.getLast? ≠ some '\r' := by
      cases cs with
      | nil => simp
      | cons c cs => simpa using ended
    simp [universal, ih ended]
  | case3 cs single ih =>
    cases cs with
    | nil => simp at ended
    | cons c cs =>
      have other : c ≠ '\n' := fun same => single cs (by rw [same])
      have ih := ih (by simpa using ended)
      rw [List.cons_append] at ih ⊢
      rw [List.cons_append, universal, ih]
      · simp
      · intro more same
        exact other (List.cons.inj same).1
  | case4 c cs pair back ih =>
    have other : c ≠ '\r' := fun same => back same
    have ended : cs.getLast? ≠ some '\r' := by
      cases cs with
      | nil => simp
      | cons c cs => simpa using ended
    rw [List.cons_append, universal, ih ended]
    · simp
    · intro _ same
      exact absurd same other
    · exact other

theorem universal_front {front : List Char} (back : '\r' ∉ front) (cs : List Char) :
    universal (front ++ cs) = front ++ universal cs := by
  induction front with
  | nil => rfl
  | cons c front ih =>
    rw [List.mem_cons, not_or] at back
    rw [List.cons_append, universal, ih back.2]
    · rfl
    · intro _ same
      exact absurd same.symm back.1
    · exact fun same => back.1 same.symm

theorem segments_row {cs : List Char} (ended : cs.getLast? ≠ some '\r') (rest : List Char) :
    segments (cs ++ '\n' :: rest) = segments cs ++ segments rest := by
  unfold segments
  rw [universal_append ended, List.splitOn_append_cons_self]

-- Text without line ends only goes before the first segment.
theorem segments_front {front : List Char} (feed : '\n' ∉ front) (back : '\r' ∉ front) (cs : List Char) :
    segments (front ++ cs) = (segments cs).modifyHead (front ++ ·) := by
  unfold segments
  rw [universal_front back]
  induction front with
  | nil =>
    rw [List.nil_append]
    cases List.splitOn '\n' (universal cs) <;> rfl
  | cons c front ih =>
    rw [List.mem_cons, not_or] at feed back
    have other : (c == '\n') = false := by simpa using Ne.symm feed.1
    have step : ((c :: front) ++ universal cs).splitOn '\n'
        = ((front ++ universal cs).splitOn '\n').modifyHead (c :: ·) := by
      unfold List.splitOn
      rw [List.cons_append, List.splitOnP_cons_eq_if_modifyHead, other]
      rfl
    rw [step, ih feed.2 back.2, List.modifyHead_modifyHead]
    rfl

theorem segments_tail {front : List Char} (feed : '\n' ∉ front) (back : '\r' ∉ front) (cs : List Char) :
    (segments (front ++ cs)).tail = (segments cs).tail := by
  rw [segments_front feed back]
  cases segments cs <;> rfl

theorem trimRight_blank {c : Char} (blank : Text.isBlank c = true) (cs : List Char) :
    Text.trimRight (c :: cs) = if Text.trimRight cs = [] then [] else c :: Text.trimRight cs := by
  unfold Text.trimRight
  rw [List.reverse_cons, List.dropWhile_append]
  split
  · next none => simp [blank, List.isEmpty_iff.mp none]
  · next some => simp_all

theorem marked_segments {front : List Char} (feed : '\n' ∉ front) (back : '\r' ∉ front) (row : List Char) :
    (∀ line ∈ segments (front ++ '#' :: Text.trimRight (' ' :: row)), front ++ ['#'] <+: line) ↔
      ∀ line ∈ (segments (Text.trimRight row)).tail, front ++ ['#'] <+: line := by
  have feed' : '\n' ∉ front ++ ['#'] := by simpa using feed
  have back' : '\r' ∉ front ++ ['#'] := by simpa using back
  have behind : (segments (Text.trimRight (' ' :: row))).tail = (segments (Text.trimRight row)).tail := by
    rw [trimRight_blank (by decide)]
    split
    · next none => rw [none]
    · exact segments_tail (show '\n' ∉ [' '] by decide) (by decide) _
  rw [← behind]
  have whole := segments_front feed' back' (Text.trimRight (' ' :: row))
  rw [List.append_assoc, List.singleton_append] at whole
  rw [whole]
  cases segments (Text.trimRight (' ' :: row)) with
  | nil => simp
  | cons first rest => simp

theorem physicalLines_rows {rows : List String} (ended : ∀ row ∈ rows, row.toList.getLast? ≠ some '\r') :
    physicalLines (String.join (rows.map (· ++ "\n"))).toList = rows.flatMap fun row => segments row.toList := by
  have cut : segments (String.join (rows.map (· ++ "\n"))).toList
      = (rows.flatMap fun row => segments row.toList) ++ [[]] := by
    induction rows with
    | nil => simp [segments, universal]
    | cons row rest ih =>
      rw [List.forall_mem_cons] at ended
      have head : (String.join ((row :: rest).map (· ++ "\n"))).toList
          = row.toList ++ '\n' :: (String.join (rest.map (· ++ "\n"))).toList := by
        simp
      rw [head, segments_row ended.1, ih ended.2, List.flatMap_cons, List.append_assoc]
  rw [physicalLines, cut, List.getLast?_concat, if_pos rfl, List.dropLast_concat]

theorem segments_single {cs : List Char} (feed : '\n' ∉ cs) (back : '\r' ∉ cs) : segments cs = [cs] := by
  rw [segments, universal_eq back, List.splitOn_eq_singleton feed]

-- Bodies around some lines add to their depth.
theorem deeper_iterate (lines : List Line) (depth : Nat) :
    deeper^[depth] lines = lines.map fun line => { line with depth := line.depth + depth } := by
  induction depth with
  | zero => simp
  | succ depth ih =>
    rw [Function.iterate_succ_apply', ih, deeper, List.map_map]
    rfl

theorem commentLines_ne_nil (text : String) : commentLines text ≠ [] := by
  unfold commentLines
  split
  · simp
  · next visible =>
    rw [Ne, List.map_eq_nil_iff, Text.lines, List.map_eq_nil_iff]
    refine linesFrom_ne_nil (.inr fun empty => visible ?_)
    rw [Text.allBlank, empty]
    rfl

-- Rows of a comment at some depth.
theorem commentLines_rows (text : String) {unit : String} (feed : '\n' ∉ unit.toList) (depth : Nat) :
    linesText unit (deeper^[depth] (commentLines text)) = String.join (((commentLines text).map fun line =>
      String.join (List.replicate depth unit) ++ line.content).map (· ++ "\n")) := by
  have flat : ∀ line ∈ commentLines text, line.depth = 0 := by
    unfold commentLines
    split <;> simp [Line.flat]
  have rows : (deeper^[depth] (commentLines text)).map (·.row unit)
      = (commentLines text).map fun line => String.join (List.replicate depth unit) ++ line.content := by
    rw [deeper_iterate, List.map_map]
    refine List.map_congr_left fun line listed => ?_
    simp [Line.row, flat line listed]
  rw [linesText_eq feed, rows]
  intro line listed
  rw [deeper_iterate] at listed
  obtain ⟨inner, member, rfl⟩ := List.mem_map.mp listed
  exact (commentLines_blocked text).tidy inner member

theorem mem_linesFrom {line cs row : List Char} (listed : row ∈ Text.linesFrom line cs) :
    ∀ c ∈ row, c ∈ line ∨ c ∈ cs := by
  induction cs generalizing line with
  | nil =>
    rw [Text.linesFrom] at listed
    split at listed
    · cases listed
    · cases List.mem_singleton.mp listed
      exact fun c inside => .inl (List.mem_reverse.mp inside)
  | cons first cs ih =>
    rw [Text.linesFrom] at listed
    intro c inside
    split at listed
    · rcases List.mem_cons.mp listed with rfl | later
      · left
        rw [List.mem_reverse] at inside
        unfold Text.dropReturn at inside
        split at inside
        · exact List.mem_cons_of_mem _ inside
        · exact inside
      · rcases ih later c inside with none | there
        · cases none
        · exact .inr (List.mem_cons_of_mem _ there)
    · rcases ih listed c inside with here | there
      · rcases List.mem_cons.mp here with rfl | here
        · exact .inr List.mem_cons_self
        · exact .inl here
      · exact .inr (List.mem_cons_of_mem _ there)

theorem trimRight_blanks {cs : List Char} (blank : ∀ c ∈ cs, Text.isBlank c = true) : Text.trimRight cs = [] := by
  rw [Text.trimRight, List.reverse_eq_nil_iff, List.dropWhile_eq_nil_iff]
  exact fun c inside => blank c (List.mem_reverse.mp inside)

-- The marks of a comment at the front of each of its rows.
theorem commentLines_marked_segments {front : List Char} (feed : '\n' ∉ front) (back : '\r' ∉ front)
    (text : String) :
    (∀ line ∈ commentLines text, ∀ piece ∈ segments (front ++ line.content.toList), front ++ ['#'] <+: piece) ↔
      ∀ row ∈ Text.lines text, ∀ piece ∈ (segments (Text.trimEnd row).toList).tail, front ++ ['#'] <+: piece := by
  unfold commentLines
  split
  · next blank =>
    have marked : segments (front ++ "#".toList) = [front ++ ['#']] := by
      have single : segments (front ++ ['#']) = [front ++ ['#']] :=
        segments_single (by simpa using feed) (by simpa using back)
      simpa using single
    have nothing : ∀ row ∈ Text.lines text, (Text.trimEnd row).toList = [] := by
      intro row listed
      obtain ⟨cs, member, rfl⟩ := List.mem_map.mp listed
      rw [Text.trimEnd, String.toList_ofList, String.toList_ofList]
      refine trimRight_blanks fun c inside => ?_
      rcases mem_linesFrom member c inside with none | there
      · cases none
      · exact List.all_eq_true.mp blank c there
    constructor
    · intro _ row listed piece inside
      rw [nothing row listed, segments_single (by simp) (by simp)] at inside
      cases inside
    · intro _ line listed piece inside
      cases List.mem_singleton.mp listed
      rw [Line.flat, marked, List.mem_singleton] at inside
      rw [inside]
  · rw [List.forall_mem_map]
    refine forall₂_congr fun row _ => ?_
    rw [Line.flat, comment_marked, marked_segments feed back, Text.trimEnd, String.toList_ofList]

theorem replicate_unbroken {unit : String} {c : Char} (none : c ∉ unit.toList) (depth : Nat) :
    c ∉ (String.join (List.replicate depth unit)).toList := by
  induction depth with
  | zero => simp
  | succ depth ih =>
    rw [List.replicate_succ, String.join_cons, String.toList_append, List.mem_append]
    exact not_or.mpr ⟨none, ih⟩

theorem join_ended {rows : List String} (filled : rows ≠ []) :
    (String.join (rows.map (· ++ "\n"))).toList.getLast? = some '\n' := by
  rcases List.eq_nil_or_concat' rows with none | ⟨before, last, rfl⟩
  · exact absurd none filled
  · simp

theorem trimEnd_single {text row : String} (listed : row ∈ Text.lines text) : '\n' ∉ (Text.trimEnd row).toList := by
  obtain ⟨cs, member, rfl⟩ := List.mem_map.mp listed
  rw [Text.trimEnd, String.toList_ofList, String.toList_ofList]
  exact fun inside => linesFrom_single (by simp) cs member (mem_trimRight inside)

-- A comment block in some bodies. Its text ends with a line feed. All its lines are comments if and
-- only if this holds of what follows a carriage return inside a row, so in particular if there is none.
theorem comment_lines_marked {block : Block} (kind : block.kind = .comment) {unit : String}
    (feed : '\n' ∉ unit.toList) (back : '\r' ∉ unit.toList) (below : Below) (inLoop : Bool) (s : PassState)
    (depth : Nat) :
    let front := (String.join (List.replicate depth unit)).toList
    let text := (linesText unit (deeper^[depth] (commentLines (fieldText block)))).toList
    (rule block below inLoop).run s = (.statement (commentLines (fieldText block)), s) ∧
      text.getLast? = some '\n' ∧
      ((∀ line ∈ physicalLines text, front ++ ['#'] <+: line) ↔ ∀ row ∈ Text.lines (fieldText block),
        ∀ line ∈ (segments (Text.trimEnd row).toList).tail, front ++ ['#'] <+: line) ∧
      ((∀ row ∈ Text.lines (fieldText block), '\r' ∉ (Text.trimEnd row).toList) →
        ∀ line ∈ physicalLines text, front ++ ['#'] <+: line) := by
  intro front text
  have tidy := (commentLines_blocked (fieldText block)).tidy
  have rows : text = _ := congrArg String.toList (commentLines_rows (fieldText block) feed depth)
  have marked : (∀ line ∈ physicalLines text, front ++ ['#'] <+: line) ↔ ∀ row ∈ Text.lines (fieldText block),
      ∀ line ∈ (segments (Text.trimEnd row).toList).tail, front ++ ['#'] <+: line := by
    rw [← commentLines_marked_segments (replicate_unbroken feed depth) (replicate_unbroken back depth), rows,
      physicalLines_rows]
    · simp only [List.mem_flatMap, List.mem_map, forall_exists_index, and_imp, forall_apply_eq_imp_iff₂,
        String.toList_append]
      exact ⟨fun all line member piece inside => all piece line member inside,
        fun all piece line member inside => all line member piece inside⟩
    · intro row listed
      obtain ⟨line, member, rfl⟩ := List.mem_map.mp listed
      rw [String.toList_append, List.getLast?_append_of_ne_nil _ (tidy line member).row.filled]
      exact (tidy line member).ended
  refine ⟨?_, ?_, marked, fun clean => marked.mpr fun row listed line inside => ?_⟩
  · unfold rule
    rw [kind]
    rfl
  · rw [rows]
    exact join_ended (by simpa using commentLines_ne_nil (fieldText block))
  · rw [segments_single (trimEnd_single listed) (clean row listed)] at inside
    cases inside

-- Line ends of both kinds, a row that is empty, and a carriage return among the blanks at the end.
theorem nested_comment_lines_marked :
    let block : Block := { Block.fresh ⟨"b1"⟩ .comment {} with
      fields := .ofList [("TEXT", .text "sum of\r\n\n a # b\nlast \r ")] }
    let text := (linesText "\t" (deeper^[2] (commentLines (fieldText block)))).toList
    block.kind = .comment ∧ '\n' ∉ "\t".toList ∧ '\r' ∉ "\t".toList ∧
      (∀ row ∈ Text.lines (fieldText block), '\r' ∉ (Text.trimEnd row).toList) ∧
      text = "\t\t# sum of\n\t\t#\n\t\t#  a # b\n\t\t# last\n".toList ∧
      text.getLast? = some '\n' ∧ ∀ line ∈ physicalLines text, "\t\t#".toList <+: line := by
  intro block text
  have kind : block.kind = .comment := rfl
  have clean : ∀ row ∈ Text.lines (fieldText block), '\r' ∉ (Text.trimEnd row).toList := by decide +kernel
  obtain ⟨_, ended, _, marked⟩ :=
    comment_lines_marked kind (show '\n' ∉ "\t".toList by decide) (by decide) [] false ⟨.build .empty [], .empty⟩ 2
  refine ⟨kind, by decide, by decide, clean, by decide +kernel, ended, fun line listed => ?_⟩
  simpa using marked clean line listed

-- A carriage return inside a row: the reader finds a statement behind it.
theorem comment_adds_statement :
    let w := (Editing.Session.runAll {} false
      [.edit (.addBlock .comment), .edit (.setField ⟨"b1"⟩ "TEXT" (.text "a\rprint(1)"))]).1.workspace
    compile w.graph {} = "# a\rprint(1)\n" ∧
      physicalLines (compile w.graph {}).toList = ["# a".toList, "print(1)".toList] ∧
      ¬∀ line ∈ physicalLines (compile w.graph {}).toList, ['#'] <+: line := by
  intro w
  have lines : physicalLines (compile w.graph {}).toList = ["# a".toList, "print(1)".toList] := by decide +kernel
  refine ⟨by decide +kernel, lines, fun marked => ?_⟩
  rw [lines] at marked
  exact absurd (marked "print(1)".toList (by simp)) (by decide)

end Generation

end Blockwork

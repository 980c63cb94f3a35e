import Mathlib
import Blockwork.Proofs.ExactRendering

-- Leaving a loop or going on with it is said only where there is a loop, and the loop is around it
-- in the text of the same function.
namespace Blockwork

open Python

namespace Generation

-- Each line that leaves a loop stands in the suite of a loop: above it is a header that is less deep,
-- and nothing between them is less deep than the suite.
def Enclosed (lines : List Line) : Prop :=
  ∀ before line after, lines = before ++ line :: after → line.content ∈ leaving →
    ∃ front header body, before = front ++ header :: body ∧ isHeader header.content = true ∧
      startsWith ["for ", "while "] header.content = true ∧ header.depth < line.depth ∧
      ∀ inner ∈ body, header.depth < inner.depth

theorem header_not_leaving {header : String} (opens : isHeader header = true) : header ∉ leaving := by
  have none : ∀ word ∈ leaving, isHeader word = false := by decide
  intro listed
  rw [none header listed] at opens
  cases opens

namespace Enclosed

theorem nil : Enclosed [] := by
  intro before line after same
  simp at same

theorem append {first second : List Line} (one : Enclosed first) (two : Enclosed second) :
    Enclosed (first ++ second) := by
  intro before line after same word
  rcases split_append same with ⟨middle, inside, _⟩ | ⟨middle, rfl, outside⟩
  · exact one before line middle inside word
  · obtain ⟨front, header, body, rfl, found⟩ := two middle line after outside word
    exact ⟨first ++ front, header, body, (List.append_assoc _ _ _).symm, found⟩

theorem flatten {parts : List (List Line)} (each : ∀ part ∈ parts, Enclosed part) : Enclosed parts.flatten := by
  induction parts with
  | nil => exact .nil
  | cons part rest ih =>
    rw [List.forall_mem_cons] at each
    exact each.1.append (ih each.2)

theorem plain {lines : List Line} (other : ∀ line ∈ lines, line.content ∉ leaving) : Enclosed lines := by
  intro before line after same word
  exact absurd word (other line (by simp [same]))

theorem deeper {lines : List Line} (enclosed : Enclosed lines) : Enclosed (deeper lines) := by
  intro before line after same word
  obtain ⟨low, high, rfl, rfl, tail⟩ := List.map_eq_append_iff.mp same
  obtain ⟨l, rest, rfl, rfl, rfl⟩ := List.map_eq_cons_iff.mp tail
  obtain ⟨front, header, body, rfl, opens, loop, shallow, deep⟩ := enclosed low l rest rfl word
  refine ⟨_, _, _, List.map_append.trans (congrArg _ List.map_cons), opens, loop, Nat.succ_lt_succ shallow, ?_⟩
  intro inner member
  obtain ⟨l, listed, rfl⟩ := List.mem_map.mp member
  exact Nat.succ_lt_succ (deep l listed)

-- Whatever stands below the header of a loop.
theorem suite {header : String} (opens : isHeader header = true)
    (loop : startsWith ["for ", "while "] header = true) (lines : List Line) :
    Enclosed (.flat header :: Python.deeper lines) := by
  intro before line after same word
  cases before with
  | nil =>
    cases same
    exact absurd word (header_not_leaving opens)
  | cons first before =>
    obtain ⟨rfl, inside⟩ := List.cons.inj same
    have inside : Python.deeper lines = before ++ line :: after := inside
    have below : ∀ inner ∈ before ++ line :: after, 0 < inner.depth := by
      rw [← inside]
      exact deeper_pos
    exact ⟨[], _, before, rfl, opens, loop, below line (by simp), fun inner member => below inner (by simp [member])⟩

end Enclosed

theorem suited_enclosed {block : Block} {inner : Place → Bool → List Line → Prop}
    (within : ∀ place lines, inner place false lines → Enclosed lines) {request : Place × Bool}
    (listed : request ∈ chainRequests block false) {part : List Line} (suited : Suited block inner request part) :
    Enclosed part := by
  obtain ⟨header, lines, filler, rfl, told, filled, opens, starts⟩ := suited
  cases loop : block.kind.isLoop with
  | true =>
    rw [headers, if_pos loop] at starts
    exact .suite opens starts _
  | false =>
    have outside : request.2 = false := by
      rw [chainRequests, loop] at listed
      split at listed
      · cases listed
      · obtain ⟨place, _, rfl⟩ := List.mem_map.mp listed
        rfl
    rw [outside] at told
    have last : Enclosed filler := by
      rcases filled with rfl | rfl
      · exact .nil
      · exact .plain (by simp [Line.flat, leaving])
    have head : Enclosed [.flat header] := .plain (by simpa [Line.flat] using header_not_leaving opens)
    exact head.append ((within _ _ told).append last).deeper

theorem forall₂_right {α β : Type} {R : α → β → Prop} {xs : List α} {ys : List β} (related : List.Forall₂ R xs ys) :
    ∀ y ∈ ys, ∃ x ∈ xs, R x y := by
  induction related with
  | nil => simp
  | cons here _ ih =>
    intro y listed
    rcases List.mem_cons.mp listed with rfl | later
    · exact ⟨_, List.mem_cons_self, here⟩
    · obtain ⟨x, member, other⟩ := ih y later
      exact ⟨x, List.mem_cons_of_mem _ member, other⟩

theorem framed_enclosed {block : Block} {inner : Place → Bool → List Line → Prop} {own : List Line}
    (within : ∀ place lines, inner place false lines → Enclosed lines) (framed : Framed block false inner own) :
    Enclosed own := by
  cases framed with
  | flow kind => exact .nil
  | plain simple other silent words =>
    refine .plain fun line listed => ?_
    obtain ⟨content, member, rfl⟩ := List.mem_map.mp listed
    exact words content member
  | suites compound each =>
    refine .flatten fun part listed => ?_
    obtain ⟨request, member, suited⟩ := forall₂_right each part listed
    exact suited_enclosed within member suited

mutual

-- Outside of loops, all that leaves a loop is inside of one below.
theorem tree_enclosed : (tree : Tree) → {lines : List Line} → TreeText tree false lines → Enclosed lines
  | .node block branches, lines, written => by
    rw [TreeText] at written
    obtain ⟨own, rest, rfl, framed, told⟩ := written
    exact (framed_enclosed (fun place _ => branches_enclosed branches place) framed).append
      (branches_enclosed branches .next told)

theorem branches_enclosed : (branches : List (Place × Tree)) → (place : Place) → {lines : List Line} →
    textAt (branchTexts branches) place false lines → Enclosed lines
  | [], _, lines, told => by
    cases told
    exact .nil
  | (other, tree) :: rest, place, lines, told => by
    rw [branchTexts, textAt, List.lookup_cons] at told
    cases same : place == other with
    | true =>
      rw [same] at told
      exact tree_enclosed tree told
    | false =>
      rw [same] at told
      exact branches_enclosed rest place told

end

-- Functions, and the whole program.
theorem meanLines_enclosed (name : String) : Enclosed (meanLines name) := by
  refine .plain ?_
  simp only [meanLines, List.forall_mem_cons]
  exact ⟨not_leaving_of_mem (c := '(') (by simp [Line.flat]) (by decide), by decide, by decide, by decide, by simp⟩

theorem procedure_enclosed {g : Graph} {p : Procedure} {lines : List Line} (text : ProcedureText g p lines) :
    Enclosed lines := by
  obtain ⟨⟨block, branches⟩, _, body, last, rfl, told, ends⟩ := text
  have head : Enclosed [.flat (headerOf g p)] := by
    have blank : ' ' ∈ (headerOf g p).toList := by simp [headerOf]
    exact .plain (List.forall_mem_singleton.mpr (not_leaving_of_mem blank (by decide)))
  have tail : Enclosed last := by
    rcases ends with rfl | ⟨content, rfl, word⟩
    · exact .nil
    · exact .plain (List.forall_mem_singleton.mpr word)
  exact head.append ((branches_enclosed branches _ told).append tail).deeper

theorem hoisted_enclosed {g : Graph} {procedures : List Procedure} {functions : List (List Line)}
    (hoisted : Hoisted g procedures functions) : ∀ lines ∈ functions, Enclosed lines := by
  induction hoisted with
  | none => simp
  | helper _ name ih => exact List.forall_mem_append.mpr ⟨ih, by simpa using meanLines_enclosed name⟩
  | procedure _ text ih => exact List.forall_mem_append.mpr ⟨ih, by simpa using procedure_enclosed text⟩

theorem parts_enclosed {g : Graph} (wf : g.WellFormed) :
    ∀ part ∈ (program g).functions ++ (program g).chains, Enclosed part := by
  have nested := program_nested wf
  obtain ⟨texts, each, chains⟩ := nested.chains
  intro part listed
  rcases List.mem_append.mp listed with function | chain
  · exact hoisted_enclosed nested.functions part function
  · rw [chains] at chain
    obtain ⟨tree, _, written⟩ := forall₂_right each part (List.mem_filter.mp chain).1
    exact tree_enclosed tree written

theorem lines_enclosed {g : Graph} (wf : g.WellFormed) : Enclosed (program g).lines := by
  have parts := parts_enclosed wf
  have imports : Enclosed ((program g).imports.map Line.flat) := by
    have other : ∀ line ∈ importLines, line ∉ leaving := by decide
    refine .plain fun line listed => ?_
    obtain ⟨content, member, rfl⟩ := List.mem_map.mp listed
    exact other content ((program_fine wf).imports content member)
  unfold Program.lines gather
  dsimp only
  split
  · exact .plain (by decide)
  · exact (imports.append (.flatten fun part listed => parts part (List.mem_append_left _ listed))).append
      (.flatten fun part listed => parts part (List.mem_append_right _ listed))

-- Whether a way leads through the body of a loop.
def ThroughLoop (g : Graph) (steps : List ParentLink) : Prop :=
  ∃ link ∈ steps, ∃ block, g.block? link.parent = some block ∧ block.kind.isLoop = true ∧ link.place = .body "DO"

theorem opens_pos {g : Graph} {link : ParentLink} : 0 < opens g link ↔
    ∃ block, g.block? link.parent = some block ∧ block.kind.isLoop = true ∧ link.place = .body "DO" := by
  unfold opens
  cases g.block? link.parent with
  | none => simp
  | some block =>
    rw [Option.map_some, Option.getD_some, deepens]
    split
    · next loop => exact ⟨fun _ => ⟨block, rfl, loop⟩, fun _ => Nat.one_pos⟩
    · next loop =>
      refine ⟨fun pos => absurd pos (Nat.lt_irrefl 0), ?_⟩
      rintro ⟨_, ⟨⟩, inside⟩
      exact absurd inside loop

theorem loops_pos {g : Graph} {steps : List ParentLink} : 0 < loops g steps ↔ ThroughLoop g steps := by
  unfold ThroughLoop
  simp only [← opens_pos]
  induction steps with
  | nil => simp [loops]
  | cons link rest ih =>
    rw [List.exists_mem_cons_iff, ← ih, loops, List.map_cons, List.sum_cons]
    exact Nat.add_pos_iff_pos_or_pos

-- What a block that leaves a loop says.
def leavingWord (block : Block) : String :=
  if block.choiceIn? "FLOW" = some "CONTINUE" then "continue" else "break"

theorem flow_logged {g : Graph} (wf : g.WellFormed) {id root : BlockId} {block : Block} {steps : List ParentLink}
    (found : g.block? id = some block) (kind : block.kind = .flow) (listed : root ∈ g.roots)
    (path : g.Path root steps id) : ∃ r ∈ (watch g).2.log, r.id = id ∧ r.trail = steps ∧
      (ThroughLoop g steps → r.code = .statement [.flat (leavingWord block)]) ∧
      (¬ThroughLoop g steps → r.code = .statement []) ∧
      ∀ other ∈ (watch g).2.log, other.id = id → other = r := by
  have stated : block.kind.connection ≠ .expression := by rw [kind]; decide
  obtain ⟨r, member, rfl⟩ := List.mem_map.mp (mem_log wf found (.inl stated))
  obtain ⟨top, planted, proper⟩ := (watch_logged wf).each r member
  obtain ⟨_, same⟩ := wf.linked.path_unique planted listed proper.path path
  have code := proper.flow block found kind
  rw [same] at code
  refine ⟨r, member, rfl, same, fun through => ?_, fun outside => ?_, fun other listed alike => ?_⟩
  · rw [code, decide_eq_true (loops_pos.mpr through)]
    rfl
  · rw [code, decide_eq_false (fun pos => outside (loops_pos.mp pos))]
    rfl
  · exact List.inj_on_of_nodup_map (log_nodup wf) listed member alike

end Generation

open Generation

-- Loops and what leaves them. A block that leaves a loop says so once if its way leads through the
-- body of a loop, and else nothing. The text is nested as the graph is, the lines that say so stand
-- below the header of a loop of their own function or chain, and every block is left with as many
-- open loops as it was met with.
structure Graph.LoopsKept (g : Graph) : Prop where
  program : program g = ⟨(watch g).2.pass.preamble.imports, (watch g).2.pass.preamble.functions, (watch g).1⟩
  flow : ∀ id block root steps, g.block? id = some block → block.kind = .flow → root ∈ g.roots →
    g.Path root steps id → ∃ r ∈ (watch g).2.log, r.id = id ∧ r.trail = steps ∧
      (ThroughLoop g steps → r.code = .statement [.flat (leavingWord block)]) ∧
      (¬ThroughLoop g steps → r.code = .statement []) ∧
      ∀ other ∈ (watch g).2.log, other.id = id → other = r
  nested : (Generation.program g).Nested g
  parts : ∀ part ∈ (Generation.program g).functions ++ (Generation.program g).chains, Enclosed part
  lines : Enclosed (Generation.program g).lines
  rows : ∀ options : Options, Indents options.indent →
    (((compile g options).toList.splitOn '\n').map String.ofList).filter (· ≠ "")
      = (Generation.program g).lines.map (·.row options.indent)
  counted : ∀ r ∈ (watch g).2.log, r.before = loops g r.trail
  balanced : ∀ r ∈ (watch g).2.log, r.after = r.before

theorem reachable_graph_loops_kept {w : Workspace} (reached : w.Reachable) : w.graph.LoopsKept where
  program := (watch_program reached.wellFormed).1
  flow _ _ _ _ found kind listed path := flow_logged reached.wellFormed found kind listed path
  nested := program_nested reached.wellFormed
  parts := parts_enclosed reached.wellFormed
  lines := lines_enclosed reached.wellFormed
  rows _ indents := ((program_fine reached.wellFormed).lays indents).split
  counted r member := by
    obtain ⟨_, _, proper⟩ := (watch_logged reached.wellFormed).each r member
    exact proper.before
  balanced r member := by
    obtain ⟨_, _, proper⟩ := (watch_logged reached.wellFormed).each r member
    exact proper.after

-- One block leaves a loop from inside a conditional, and one behind the loop has nothing to say.
theorem guarded_leaving_kept :
    let w := (Editing.Session.runAll {} false
      [.edit (.addBlock .whileUntil), .edit (.addBlock .ifElse), .edit (.addBlock .flow), .edit (.addBlock .flow),
        .edit (.attach ⟨"b1"⟩ (.body "DO") ⟨"b2"⟩), .edit (.attach ⟨"b2"⟩ (.body "DO0") ⟨"b3"⟩),
        .edit (.attach ⟨"b1"⟩ .next ⟨"b4"⟩)]).1.workspace
    (watch w.graph).2.log.map (fun r => (r.id.text, r.before, r.after))
        = [("b1", 0, 0), ("b2", 1, 1), ("b3", 1, 1), ("b4", 0, 0)] ∧
      (program w.graph).chains = [[.flat "while False:", ⟨1, "if False:"⟩, ⟨2, "break"⟩]] ∧ w.graph.LoopsKept :=
  ⟨by decide +kernel, by decide +kernel, reachable_graph_loops_kept (Editing.Session.runAll_reachable false _)⟩

end Blockwork

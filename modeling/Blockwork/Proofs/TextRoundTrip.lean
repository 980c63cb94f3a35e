import Mathlib
import Blockwork.Proofs.RoundTrip
import Blockwork.Proofs.SavedText

-- Saving a program as text and loading it again. The program comes back as it
-- was if and only if its text is nested no deeper than the reader allows and the
-- reader rounds every number in it to what it was. Each statement that follows
-- another takes two levels, so the first is a matter of length.
namespace Blockwork

def Block.Placed (block : Block) : Prop :=
  ∀ position ∈ block.position, position.x.isFinite = true ∧ position.y.isFinite = true

instance (block : Block) : Decidable block.Placed := inferInstanceAs (Decidable (∀ _ ∈ _, _))

-- All positions are finite.
def Graph.Placed (g : Graph) : Prop := ∀ block ∈ g.blocks.values, block.Placed

instance (g : Graph) : Decidable g.Placed := inferInstanceAs (Decidable (∀ block ∈ _, _))

namespace Snapshot

open Json

theorem fieldJson_tidy {value : FieldValue} {json : Json} (saved : fieldJson? value = some json) :
    json.Tidy := by
  have reference (id : String) : (reference id).Tidy :=
    .object (List.pairwise_singleton _ _) (List.forall_mem_cons.mpr ⟨.text id, nofun⟩)
  cases value with
  | empty => cases saved
  | number value =>
    cases saved
    cases value with
    | finite negative rank => exact .number rfl
    | nan => exact .text _
    | infinite negative => cases negative <;> exact .text _
  | text value | choice value => cases saved; exact .text _
  | variableRef id | procedureRef id => cases saved; exact reference id.text

theorem extraState_small {block : Block} (bounded : block.extent.items ≤ maxItems) {state : ExtraState}
    (saved : extraState? block = some state) : state.Small := by
  have small : block.extent.items < UInt64.size := bounded.trans_lt (by decide)
  unfold extraState? at saved
  split at saved
  · cases saved
    exact ⟨by rintro _ ⟨⟩; exact small, nofun⟩
  · split at saved
    · cases saved
      refine ⟨nofun, fun n stated => ?_⟩
      simp only at stated
      split at stated
      · cases stated
        exact small
      · cases stated
    · cases saved
  · cases saved

theorem captureRecord_tidy {block : Block} (placed : block.Placed) (bounded : block.extent.items ≤ maxItems) :
    (captureRecord block).Tidy where
  x d saved := by
    obtain ⟨position, lies, rfl⟩ := Option.map_eq_some_iff.mp saved
    exact (placed position lies).1
  y d saved := by
    obtain ⟨position, lies, rfl⟩ := Option.map_eq_some_iff.mp saved
    exact (placed position lies).2
  fields entry listed := by
    rw [captureRecord_fields] at listed
    obtain ⟨field, _, made⟩ := List.mem_filterMap.mp listed
    obtain ⟨json, saved, rfl⟩ := Option.map_eq_some_iff.mp made
    exact fieldJson_tidy saved
  extra state saved := extraState_small bounded saved

variable {g : Graph}

theorem captureTree_tidy (wf : g.WellFormed) (placed : g.Placed) {tree : Tree} (full : g.Full tree) :
    (captureTree tree).Tidy := by
  induction full with
  | @node block branches found whole below ih =>
    have held := placed block (Dict.mem_values.mpr ⟨_, found⟩)
    have own := captureRecord_tidy held (wf.built _ block found).2.allowed.bounded
    refine .mk own (Dict.ofList _).ordered ?_ ?_
    · intro entry listed saved holds
      have listed := Dict.mem_ofList listed
      rw [captureInputs_eq] at listed
      obtain ⟨branch, kept, rfl⟩ := List.mem_map.mp listed
      rcases holds with inner | shadow
      · cases inner
        exact ih branch (List.mem_of_mem_filter kept)
      · cases shadow
    · intro connected after saved holds
      rw [captureNext_eq] at after
      obtain ⟨branch, first, rfl⟩ := Option.map_eq_some_iff.mp after
      rcases holds with inner | shadow
      · cases inner
        exact ih branch (List.mem_of_mem_filter (List.mem_of_head? first))
      · cases shadow

theorem capture_tidy (wf : g.WellFormed) (placed : g.Placed) : (capture g).Tidy where
  version := by
    show 0 < UInt32.size
    decide
  blocks := by
    intro saved listed
    obtain ⟨tree, member, rfl⟩ := List.mem_map.mp listed
    exact captureTree_tidy wf placed (wf.linked.forest_full wf.built member)

end Snapshot

mutual

-- Statements in a row, from this one on.
def Tree.inRow : Tree → Nat
  | .node _ branches => inRowAfter branches + 1

def Tree.inRowAfter : List (Place × Tree) → Nat
  | [] => 0
  | (.next, tree) :: _ => tree.inRow
  | (.input _, _) :: rest | (.body _, _) :: rest => inRowAfter rest

end

namespace Snapshot

open Json

variable {g : Graph}

theorem next_lt_nesting (record : SavedRecord) (inputs : List (String × Connected SavedBlock))
    (next : Option (Connected SavedBlock)) :
    fieldNesting (next.map connectedJson) < (blockJson (.mk record inputs next)).nesting := by
  have listed : ("next", next.map connectedJson) ∈ blockSlots record inputs next := by simp [blockSlots]
  rw [block_written]
  exact field_lt_nesting listed

mutual

theorem captureTree_nesting : ∀ tree : Tree, 2 * tree.inRow ≤ (blockJson (captureTree tree)).nesting + 1
  | .node block branches => by
    have after := captureNext_nesting branches
    have inside := next_lt_nesting (captureRecord block) (Dict.ofList (captureInputs branches)).entries
      (captureNext branches)
    rw [captureTree, Tree.inRow]
    omega

theorem captureNext_nesting : ∀ branches : List (Place × Tree),
    2 * Tree.inRowAfter branches ≤ fieldNesting ((captureNext branches).map connectedJson)
  | [] => by
    rw [Tree.inRowAfter]
    exact Nat.zero_le _
  | (.next, tree) :: rest => by
    have statement := captureTree_nesting tree
    have inside : (blockJson (captureTree tree)).nesting < (connectedJson ⟨some (captureTree tree), none⟩).nesting :=
      member_lt_nesting List.mem_cons_self
    rw [captureNext, Tree.inRowAfter]
    exact statement.trans inside
  | (.input slot, tree) :: rest => by
    rw [captureNext, Tree.inRowAfter]
    exact captureNext_nesting rest
  | (.body slot, tree) :: rest => by
    rw [captureNext, Tree.inRowAfter]
    exact captureNext_nesting rest

end

-- The form, its inner record and the list of blocks stand around the first statement.
theorem inRow_nesting {tree : Tree} (member : tree ∈ g.forest) :
    2 * tree.inRow + 2 ≤ (capture g).toJson.nesting := by
  have statement := captureTree_nesting tree
  have listed : (blockJson (captureTree tree)).nesting < (Json.array ((capture g).blocks.map blockJson)).nesting := by
    rw [nesting, Nat.lt_succ_iff]
    exact nestingItems_le.mp le_rfl _ (List.mem_map_of_mem (List.mem_map_of_mem member))
  have blocks : (Json.array ((capture g).blocks.map blockJson)).nesting < (treeJson (capture g)).nesting :=
    member_lt_nesting (List.mem_cons_of_mem _ List.mem_cons_self)
  have whole : (treeJson (capture g)).nesting < (capture g).toJson.nesting := by
    rw [form_written]
    exact member_lt_nesting List.mem_cons_self
  omega

theorem read_saved (wf : g.WellFormed) (placed : g.Placed) {text : String}
    (saved : text = (capture g).compact ∨ text = (capture g).pretty) :
    Yields (Form.read? text) (capture g) ((capture g).toJson.nesting ≤ depthLimit) (capture g).toJson.Survives := by
  have tidy := capture_tidy wf placed
  rcases saved with rfl | rfl
  · exact read_text compactWriting tidy
  · exact read_text prettyWriting tidy

theorem load_read (wf : g.WellFormed) {text : String} (read : Form.read? text = some (capture g)) :
    ∃ w, load text = .ok w ∧ w.graph = g := by
  obtain ⟨w, restored, same⟩ := restore_capture wf
  refine ⟨w, ?_, same⟩
  rw [load, read]
  exact restored

theorem load_deep (wf : g.WellFormed) (placed : g.Placed) {text : String}
    (saved : text = (capture g).compact ∨ text = (capture g).pretty)
    (deep : depthLimit < (capture g).toJson.nesting) : Form.read? text = none ∧ load text = .error .notJson := by
  have unread := (read_saved wf placed saved).too_deep (Nat.not_le.mpr deep)
  exact ⟨unread, by rw [load, unread]⟩

end Snapshot

theorem saved_text_read_back_iff {w : Workspace} (reached : w.Reachable) (placed : w.graph.Placed)
    {text : String} (saved : text = (Snapshot.capture w.graph).compact ∨ text = (Snapshot.capture w.graph).pretty) :
    let form := Snapshot.capture w.graph
    let intact := ∀ number ∈ form.toJson.numbers, number.Survives
    (Snapshot.Form.read? text = some form ↔ form.toJson.nesting ≤ 127 ∧ intact) ∧
    (form.toJson.nesting ≤ 127 ∧ intact → ∃ w', Snapshot.load text = .ok w' ∧ w'.graph = w.graph ∧
      (w.graph.Numeric → w'.graph.equals w.graph = true)) ∧
    (127 < form.toJson.nesting → Snapshot.Form.read? text = none ∧ Snapshot.load text = .error .notJson) ∧
    (∀ tree ∈ w.graph.forest, 62 < tree.inRow → 127 < form.toJson.nesting) ∧
    ∀ number ∈ form.toJson.numbers, (∃ value, number = .integer value) ∨ number.literal.Short → number.Survives := by
  intro form intact
  have wf := reached.wellFormed
  have read := (Snapshot.read_saved wf placed saved).value_iff
  refine ⟨read, fun fits => ?_, fun deep => ?_, fun tree member long => ?_, fun number listed => ?_⟩
  · obtain ⟨w', loaded, same⟩ := Snapshot.load_read wf (read.mpr fits)
    exact ⟨w', loaded, same, fun numeric => same ▸ numeric.equals_self⟩
  · exact Snapshot.load_deep wf placed saved deep
  · have levels : 2 * tree.inRow + 2 ≤ form.toJson.nesting := Snapshot.inRow_nesting member
    omega
  · have writable := (Snapshot.writable_form (Snapshot.capture_tidy wf placed)).numbers number listed
    rintro (⟨value, rfl⟩ | short)
    · exact Json.Number.integer_survives writable
    · cases number with
      | integer value => exact Json.Number.integer_survives writable
      | real value => exact Json.Number.short_survives writable short

-- A tenth and a negative zero come back from the text, and so does an infinity that is no number there.
theorem placed_call_read_back :
    let w := (Editing.Session.runAll {} false
      [.edit (.createVariable "n\n\"é\""), .edit (.createProcedure "twice" [⟨"v1"⟩] true),
        .edit (.addBlock .print), .edit (.addBlock (.call true)), .edit (.addBlock .number),
        .edit (.setField ⟨"b5"⟩ "NAME" (.procedureRef ⟨"p2"⟩)),
        .edit (.setField ⟨"b6"⟩ "NUM" (.number (.infinite true))),
        .edit (.attach ⟨"b4"⟩ (.input "TEXT") ⟨"b5"⟩), .edit (.attach ⟨"b5"⟩ (.input "ARG0") ⟨"b6"⟩),
        .edit (.setPosition ⟨"b4"⟩
          ⟨.finite false ⟨0x3fb999999999999a, by decide⟩, .finite true ⟨0, by decide⟩⟩)]).1.workspace
    let form := Snapshot.capture w.graph
    w.graph.Placed ∧ w.graph.Numeric ∧ form.toJson.numbers.length = 3 ∧
    Snapshot.Form.read? form.pretty = some form ∧
    ∃ w', Snapshot.load form.pretty = .ok w' ∧ w'.graph = w.graph ∧ w'.graph.equals w.graph = true := by
  intro w form
  have facts : w.graph.Placed ∧ w.graph.Numeric ∧ form.toJson.numbers.length = 3 ∧
      form.toJson.nesting ≤ 127 ∧ ∀ number ∈ form.toJson.numbers, number.Survives := by decide +kernel
  obtain ⟨placed, numeric, count, fits⟩ := facts
  obtain ⟨read, loads, _⟩ :=
    saved_text_read_back_iff (Editing.Session.runAll_reachable false _) placed (.inr (rfl : form.pretty = _))
  obtain ⟨w', loaded, same, equal⟩ := loads fits
  exact ⟨placed, numeric, count, read.mpr fits, w', loaded, same, equal numeric⟩

-- Commands that build statements in a row, the last one first.
def commandsInRow (count : Nat) : List Editing.Command :=
  let name (n : Nat) : BlockId := ⟨String.singleton (Char.ofNat (126 - n))⟩
  .edit (.addBlockAs (name 0) .print) :: (List.range (count - 1)).flatMap fun n =>
    [.edit (.addBlockAs (name (n + 1)) .print), .edit (.attach (name (n + 1)) .next (name n))]

-- Sixty-three of them are saved, and cannot be loaded. An eleventh is saved, and what is loaded
-- is the number after it.
theorem saved_programs_not_loaded :
    (let w := (Editing.Session.runAll {} false (commandsInRow 63)).1.workspace
     w.Reachable ∧ w.graph.Numeric ∧ w.graph.Placed ∧
        Snapshot.load (Snapshot.capture w.graph).compact = .error .notJson ∧
        Snapshot.load (Snapshot.capture w.graph).pretty = .error .notJson) ∧
    (let w := (Editing.Session.runAll {} false [.edit (.addBlockAs ⟨"n"⟩ .number),
        .edit (.setField ⟨"n"⟩ "NUM" (.number (.finite false ⟨0x3fb745d1745d1746, by decide⟩)))]).1.workspace
     w.Reachable ∧ w.graph.Numeric ∧ w.graph.Placed ∧
        (Snapshot.load (Snapshot.capture w.graph).compact).toOption.map (·.graph.equals w.graph) = some false ∧
        (Snapshot.load (Snapshot.capture w.graph).pretty).toOption.map (·.graph.equals w.graph) = some false) := by
  have facts : (Editing.Session.runAll {} false (commandsInRow 63)).1.workspace.graph.Numeric ∧
      (Editing.Session.runAll {} false (commandsInRow 63)).1.workspace.graph.Placed ∧
      127 < (Snapshot.capture
        (Editing.Session.runAll {} false (commandsInRow 63)).1.workspace.graph).toJson.nesting := by
    decide +kernel
  have reached := Editing.Session.runAll_reachable false (commandsInRow 63)
  obtain ⟨numeric, placed, deep⟩ := facts
  refine ⟨⟨reached, numeric, placed, (Snapshot.load_deep reached.wellFormed placed (.inl rfl) deep).2,
    (Snapshot.load_deep reached.wellFormed placed (.inr rfl) deep).2⟩, ?_⟩
  exact ⟨Editing.Session.runAll_reachable false _, by decide +kernel⟩

end Blockwork

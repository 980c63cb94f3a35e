import Mathlib
import Blockwork.Snapshot.FormReader
import Blockwork.Snapshot.FormWriter
import Blockwork.Proofs.JsonContent

-- A saved form as text: reading gives the form back if and only if its data is
-- nested no deeper than the reader allows and all its numbers survive.
namespace Blockwork.Snapshot

open Json Reading

theorem optionalMember_eq {α : Type} (key : String) (encode : α → Json) (value : Option α) :
    optionalMember key encode value = ((value.map encode).map fun json => (key, json)).toList := by
  cases value <;> rfl

theorem gives_variable (v : SavedVariable) : Gives SavedVariable.reading v.toJson v := by
  obtain ⟨name, id⟩ := v
  refine record_gives [("name", some (.text name)), ("id", some (.text id))]
    (fun _ => rfl) (fun _ _ => rfl) rfl (by simp) fun depth => ?_
  have name := required_gives (gives_text name) depth
  have id := required_gives (gives_text id) depth
  refine Yields.congr (name.bind (id.also (Continues.last ?_))) (by simp) (by simp)
  rintro ⟨name, id⟩ same
  cases same
  rfl

theorem gives_procedure (p : SavedProcedure) : Gives SavedProcedure.reading p.toJson p := by
  obtain ⟨id, name, params, returns⟩ := p
  refine record_gives [("id", some (.text id)), ("name", some (.text name)),
    ("params", some (.array (params.map Json.text))), ("returns", some (.bool returns))]
    (fun _ => rfl) (fun _ _ => rfl) rfl (by simp) fun depth => ?_
  have id := required_gives (gives_text id) depth
  have name := required_gives (gives_text name) depth
  have params := there_gives [] (gives_list fun param (_ : param ∈ params) => gives_text param) depth
  have returns := there_gives false (gives_bool returns) depth
  refine Yields.congr (id.bind (name.also (params.also (returns.also (Continues.last ?_))))) (by simp) (by simp)
  rintro ⟨⟨⟨id, name⟩, params⟩, returns⟩ same
  cases same
  rfl

theorem gives_param (param : SavedParam) : Gives SavedParam.reading param.toJson param := by
  obtain ⟨name, id⟩ := param
  refine record_gives [("name", some (.text name)), ("id", some ((id.map Json.text).getD .null))]
    (fun _ => rfl) (fun _ _ => rfl) rfl (by simp) fun depth => ?_
  have name := required_gives (gives_text name) depth
  have id := there_gives none (gives_nullable fun text (_ : id = some text) => ⟨gives_text text, nofun⟩) depth
  refine Yields.congr (name.bind (id.also (Continues.last ?_))) (by simp) (by simp)
  rintro ⟨name, id⟩ same
  cases same
  rfl

theorem gives_count {n : Nat} (small : n < UInt64.size) : Gives count (natJson n) n :=
  gives_natBelow small le_rfl

-- Counts that fit what they are read into.
structure ExtraState.Small (state : ExtraState) : Prop where
  items : ∀ n, state.itemCount = some n → n < UInt64.size
  branches : ∀ n, state.elseIfCount = some n → n < UInt64.size

def extraSlots (state : ExtraState) : List (String × Option Json) :=
  [("itemCount", state.itemCount.map natJson), ("elseIfCount", state.elseIfCount.map natJson),
    ("hasElse", state.hasElse.map Json.bool), ("name", state.name.map Json.text),
    ("params", state.params.map fun params => .array (params.map SavedParam.toJson))]

theorem extra_written (state : ExtraState) : state.toJson = .object (present (extraSlots state)) := by
  simp [ExtraState.toJson, extraSlots, optionalMember_eq, present]

theorem gives_extra {state : ExtraState} (small : state.Small) :
    Gives ExtraState.reading state.toJson state := by
  rw [extra_written]
  refine record_gives _ (fun _ => rfl) (fun _ _ => rfl) rfl (by simp [extraSlots]) fun depth => ?_
  have items := optional_gives (fun n is => ⟨gives_count (small.items n is), nofun⟩) depth
  have branches := optional_gives (fun n is => ⟨gives_count (small.branches n is), nofun⟩) depth
  have hasElse := optional_gives (fun value (_ : state.hasElse = some value) => ⟨gives_bool value, nofun⟩) depth
  have name := optional_gives (fun value (_ : state.name = some value) => ⟨gives_text value, nofun⟩) depth
  have params := optional_gives (fun params (_ : state.params = some params) =>
    ⟨gives_list fun param (_ : param ∈ params) => gives_param param, nofun⟩) depth
  obtain ⟨_, _, _, _, _⟩ := state
  refine Yields.congr (items.bind (branches.also (hasElse.also (name.also (params.also (Continues.last ?_))))))
    (by simp [extraSlots]) (by simp [extraSlots])
  rintro ⟨⟨⟨⟨items, branches⟩, hasElse⟩, name⟩, params⟩ same
  cases same
  rfl

theorem fields_give {fields : Dict Json} (tidy : ∀ entry ∈ fields.entries, Json.Tidy entry.2) (depth : Nat) :
    FieldGives (withDefault (dict ofDocument?) .empty depth)
      (if fields.isEmpty then none else some (.object fields.entries)) fields depth := by
  apply withDefault_gives
  · intro absent
    have none : fields.entries = [] := by simpa [Dict.isEmpty] using absent
    obtain ⟨entries, _⟩ := fields
    subst none
    rfl
  · intro json written
    obtain ⟨_, rfl⟩ : fields.isEmpty = false ∧ Json.object fields.entries = json := by simpa using written
    simpa using gives_dict (fun json => json) fun entry listed => ofDocument_spelled (tidy entry listed)

-- A record whose numbers can be read again.
structure SavedRecord.Tidy (record : SavedRecord) : Prop where
  x : ∀ d, record.x = some d → d.isFinite = true
  y : ∀ d, record.y = some d → d.isFinite = true
  fields : ∀ entry ∈ record.fields.entries, Json.Tidy entry.2
  extra : ∀ state, record.extra = some state → state.Small

def Connected.holds (connected : Connected SavedBlock) (block : SavedBlock) : Prop :=
  connected.block = some block ∨ connected.shadow = some block

inductive SavedBlock.Tidy : SavedBlock → Prop where
  | mk {record : SavedRecord} {inputs : List (String × Connected SavedBlock)}
      {next : Option (Connected SavedBlock)} (own : record.Tidy)
      (ordered : inputs.Pairwise fun a b => a.1 < b.1)
      (inner : ∀ entry ∈ inputs, ∀ block, entry.2.holds block → Tidy block)
      (later : ∀ connected, next = some connected → ∀ block, connected.holds block → Tidy block) :
      Tidy (.mk record inputs next)

def Connected.Tidy (connected : Connected SavedBlock) : Prop :=
  ∀ block, connected.holds block → block.Tidy

def connectedJson (connected : Connected SavedBlock) : Json :=
  .object (present [("block", connected.block.map blockJson), ("shadow", connected.shadow.map blockJson)])

theorem connected_written (connected : Connected SavedBlock) :
    Json.object (childJson "block" connected.block ++ childJson "shadow" connected.shadow)
      = connectedJson connected := by
  obtain ⟨block, shadow⟩ := connected
  cases block <;> cases shadow <;> simp [childJson, connectedJson, present]

theorem inputsJson_eq (inputs : List (String × Connected SavedBlock)) :
    inputsJson inputs = inputs.map fun entry => (entry.1, connectedJson entry.2) := by
  induction inputs with
  | nil => rw [inputsJson, List.map_nil]
  | cons entry rest ih =>
    rw [inputsJson, ih, List.map_cons, ← connected_written]

def blockSlots (record : SavedRecord) (inputs : List (String × Connected SavedBlock))
    (next : Option (Connected SavedBlock)) : List (String × Option Json) :=
  [("type", some (.text record.kind)), ("id", some (.text record.id)), ("x", record.x.map doubleJson),
    ("y", record.y.map doubleJson),
    ("fields", if record.fields.isEmpty then none else some (.object record.fields.entries)),
    ("inputs", if inputs.isEmpty then none else some (.object (inputsJson inputs))),
    ("next", next.map connectedJson), ("extraState", record.extra.map ExtraState.toJson)]

theorem nextJson_eq (next : Option (Connected SavedBlock)) :
    nextJson next = ((next.map connectedJson).map fun json => ("next", json)).toList := by
  cases next with
  | none => rw [nextJson]; rfl
  | some connected => rw [nextJson, connected_written]; rfl

theorem block_written (record : SavedRecord) (inputs : List (String × Connected SavedBlock))
    (next : Option (Connected SavedBlock)) :
    blockJson (.mk record inputs next) = .object (present (blockSlots record inputs next)) := by
  rw [blockJson, nextJson_eq]
  simp only [SavedRecord.members, optionalMember_eq, present, blockSlots]
  cases record.fields.isEmpty <;> cases inputs.isEmpty <;> simp

theorem unlessNull_reads {α : Type} {read : Document → Option α} {encode : α → Json} {value : Option α}
    {depth : Nat} (each : ∀ a, value = some a → encode a ≠ .null ∧
      Yields (read (encode a).spelled) a ((encode a).nesting ≤ depth) (encode a).Survives) :
    FieldGives (unlessNull read) (value.map encode) value depth := by
  cases value with
  | none => exact .sure (Nat.zero_le depth) trivial
  | some a =>
    obtain ⟨other, reads⟩ := each a rfl
    have same : unlessNull read (some (encode a).spelled) = (read (encode a).spelled).map some := by
      unfold unlessNull
      split
      · next none => cases none
      · next null => exact absurd (Option.some.inj null) (spelled_ne_null other)
      · next found => cases found; rfl
    rw [FieldGives, Option.map_some, Option.map_some, same]
    exact reads.map fun _ _ wrapped => Option.some.inj wrapped

-- The readers of blocks, of what is connected to them and of their inputs, all with the same
-- number of levels left.
structure ReadsAt (depth : Nat) : Prop where
  block : ∀ block : SavedBlock, block.Tidy → Yields (readBlock depth (blockJson block).spelled) block
    ((blockJson block).nesting ≤ depth) (blockJson block).Survives
  connected : ∀ connected : Connected SavedBlock, connected.Tidy →
    Yields (readConnected depth (connectedJson connected).spelled) connected
      ((connectedJson connected).nesting ≤ depth) (connectedJson connected).Survives
  inputs : ∀ inputs : List (String × Connected SavedBlock), (inputs.Pairwise fun a b => a.1 < b.1) →
    (∀ entry ∈ inputs, entry.2.Tidy) → Yields (readInputs depth (spelled (.object (inputsJson inputs)))) inputs
      ((Json.object (inputsJson inputs)).nesting ≤ depth) (Json.object (inputsJson inputs)).Survives

theorem connected_reads {depth : Nat} (reads : ReadsAt depth) {connected : Connected SavedBlock}
    (tidy : connected.Tidy) : Yields (readConnected (depth + 1) (connectedJson connected).spelled) connected
      ((connectedJson connected).nesting ≤ depth + 1) (connectedJson connected).Survives := by
  refine record_reads _ (fun _ => by rw [readConnected]; rfl) rfl (by simp) ?_
  have child {field : Option SavedBlock} (among : ∀ block, field = some block → connected.holds block) :
      FieldGives (unlessNull (readBlock depth)) (field.map blockJson) field depth :=
    unlessNull_reads fun block is => ⟨by obtain ⟨⟩ := block; rw [block_written]; nofun,
      reads.block block (tidy block (among block is))⟩
  have block := child fun _ is => .inl is
  have shadow := child fun _ is => .inr is
  obtain ⟨_, _⟩ := connected
  refine Yields.congr (block.bind (shadow.also (Continues.last ?_))) (by simp) (by simp)
  rintro ⟨block, shadow⟩ same
  cases same
  rfl

theorem inputs_reads {depth : Nat} (reads : ReadsAt depth) {inputs : List (String × Connected SavedBlock)}
    (ordered : inputs.Pairwise fun a b => a.1 < b.1) (tidy : ∀ entry ∈ inputs, entry.2.Tidy) :
    Yields (readInputs (depth + 1) (spelled (.object (inputsJson inputs)))) inputs
      ((Json.object (inputsJson inputs)).nesting ≤ depth + 1) (Json.object (inputsJson inputs)).Survives := by
  rw [inputsJson_eq, spelled, readInputs]
  exact dict_yields connectedJson ordered fun entry listed => reads.connected entry.2 (tidy entry listed)

theorem block_reads {depth : Nat} (reads : ReadsAt depth) {block : SavedBlock} (tidy : block.Tidy) :
    Yields (readBlock (depth + 1) (blockJson block).spelled) block
      ((blockJson block).nesting ≤ depth + 1) (blockJson block).Survives := by
  obtain ⟨own, ordered, inner, later⟩ := tidy
  rename_i record inputs next
  rw [block_written]
  refine record_reads _ (fun _ => by rw [readBlock]; rfl) rfl (by simp [blockSlots]) ?_
  have kind := required_gives (gives_text record.kind) depth
  have id := required_gives (gives_text record.id) depth
  have x : FieldGives (Reading.optional double depth) (record.x.map doubleJson) record.x depth :=
    optional_gives (fun d is => ⟨gives_double (own.x d is), nofun⟩) depth
  have y : FieldGives (Reading.optional double depth) (record.y.map doubleJson) record.y depth :=
    optional_gives (fun d is => ⟨gives_double (own.y d is), nofun⟩) depth
  have fields := fields_give own.fields depth
  have extra : FieldGives (Reading.optional ExtraState.reading depth) (record.extra.map ExtraState.toJson)
      record.extra depth := optional_gives (fun state is => ⟨gives_extra (own.extra state is), nofun⟩) depth
  have next := unlessNull_reads fun connected is => ⟨(nofun : connectedJson connected ≠ .null),
    reads.connected connected (later connected is)⟩
  have inside : FieldGives (unlessAbsent (readInputs depth))
      (if inputs.isEmpty then none else some (.object (inputsJson inputs))) inputs depth := by
    cases inputs with
    | nil => exact .sure (Nat.zero_le depth) trivial
    | cons entry inputs => exact reads.inputs (entry :: inputs) ordered inner
  obtain ⟨_, _, _, _, _, _⟩ := record
  -- the extent is read before the connections, and written behind them
  refine Yields.congr (kind.bind (id.also (x.also (y.also (fields.also (extra.also (inside.also (next.also
    (Continues.last ?_))))))))) ?_ ?_
  · rintro ⟨⟨⟨⟨⟨⟨⟨kind, id⟩, x⟩, y⟩, fields⟩, extra⟩, inputs⟩, next⟩ same
    cases same
    rfl
  · simp only [blockSlots, List.forall_mem_cons]
    tauto
  · simp only [blockSlots, List.forall_mem_cons]
    tauto

theorem readsAt (depth : Nat) : ReadsAt depth := by
  induction depth with
  | zero =>
    refine ⟨fun block _ => ?_, fun connected _ => ?_, fun inputs _ _ => ?_⟩
    · obtain ⟨record, inputs, next⟩ := block
      rw [block_written, readBlock]
      exact .never (object_nesting_pos _)
    · rw [connectedJson, readConnected]
      exact .never (object_nesting_pos _)
    · rw [readInputs]
      · exact .never (object_nesting_pos _)
      · simp
  | succ depth ih =>
    exact ⟨fun _ => block_reads ih, fun _ => connected_reads ih, fun _ => inputs_reads ih⟩

structure Form.Tidy (form : Form) : Prop where
  version : form.languageVersion < UInt32.size
  blocks : ∀ block ∈ form.blocks, block.Tidy

def tableSlot {α : Type} (encode : α → Json) (values : List α) : Option Json :=
  if (values.map encode).isEmpty then none else some (.array (values.map encode))

theorem table_gives {α : Type} {item : Reading α} {encode : α → Json} {values : List α}
    (each : ∀ value ∈ values, Gives item (encode value) value) (depth : Nat) :
    FieldGives (withDefault (list item) [] depth) (tableSlot encode values) values depth := by
  apply withDefault_gives
  · intro absent
    simpa [tableSlot] using absent
  · intro json written
    obtain ⟨_, rfl⟩ : values ≠ [] ∧ Json.array (values.map encode) = json := by
      simpa [tableSlot] using written
    exact gives_list each

def treeJson (form : Form) : Json :=
  .object (present [("languageVersion", some (natJson form.languageVersion)),
    ("blocks", some (.array (form.blocks.map blockJson)))])

def formSlots (form : Form) : List (String × Option Json) :=
  [("blocks", some (treeJson form)), ("variables", tableSlot SavedVariable.toJson form.vars),
    ("procedures", tableSlot SavedProcedure.toJson form.procedures)]

theorem form_written (form : Form) : form.toJson = .object (present (formSlots form)) := by
  simp only [Form.toJson, formSlots, present, listMember, tableSlot]
  split <;> split <;> simp [treeJson, present]

theorem gives_tree {form : Form} (tidy : form.Tidy) :
    Gives treeReading (treeJson form) (form.languageVersion, form.blocks) := by
  refine record_gives _ (fun _ => rfl) (fun _ _ => rfl) rfl (by simp) fun depth => ?_
  have version := there_gives 0 (gives_natBelow tidy.version (by decide)) depth
  have blocks := there_gives [] (gives_list fun block listed depth =>
    (readsAt depth).block block (tidy.blocks block listed)) depth
  exact Yields.congr (version.bind (blocks.also (Continues.last fun _ same => same))) (by simp [natJson])
    (by simp [natJson])

theorem gives_form {form : Form} (tidy : form.Tidy) : Gives Form.reading form.toJson form := by
  rw [form_written]
  refine record_gives _ (fun _ => rfl) (fun _ _ => rfl) rfl (by simp [formSlots]) fun depth => ?_
  have tree := there_gives (0, []) (gives_tree tidy) depth
  have vars := table_gives (fun v (_ : v ∈ form.vars) => gives_variable v) depth
  have procedures := table_gives (fun p (_ : p ∈ form.procedures) => gives_procedure p) depth
  obtain ⟨_, _, _, _⟩ := form
  refine Yields.congr (tree.bind (vars.also (procedures.also (Continues.last ?_)))) (by simp [formSlots])
    (by simp [formSlots])
  rintro ⟨⟨⟨version, blocks⟩, vars⟩, procedures⟩ same
  cases same
  rfl

-- Nothing in a tidy form is a number that cannot be written.
theorem writable_there {json : Json} (writable : json.Writable) :
    ∀ other, some json = some other → other.Writable := by
  rintro _ ⟨⟩
  exact writable

theorem writable_of_map {α : Type} {encode : α → Json} {value : Option α}
    (each : ∀ a, value = some a → (encode a).Writable) : ∀ json, value.map encode = some json → json.Writable := by
  intro json written
  obtain ⟨a, is, rfl⟩ := Option.map_eq_some_iff.mp written
  exact each a is

theorem writable_unless {absent : Prop} [Decidable absent] {json : Json} (writable : json.Writable) :
    ∀ other, (if absent then none else some json) = some other → other.Writable := by
  intro other written
  split at written
  · cases written
  · exact writable_there writable other written

theorem writable_list {α : Type} {encode : α → Json} {values : List α}
    (each : ∀ value ∈ values, (encode value).Writable) : Writable (.array (values.map encode)) :=
  .array (List.forall_mem_map.mpr each)

theorem writable_param (param : SavedParam) : param.toJson.Writable := by
  refine .object (List.forall_mem_cons.mpr ⟨.text _, List.forall_mem_cons.mpr ⟨?_, nofun⟩⟩)
  cases param.id with
  | none => exact .null
  | some id => exact .text id

theorem writable_extra {state : ExtraState} (small : state.Small) : state.toJson.Writable := by
  rw [extra_written]
  apply writable_present
  simp only [extraSlots, List.forall_mem_cons]
  exact ⟨writable_of_map fun n is => .number (Number.writable_natural (small.items n is)),
    writable_of_map fun n is => .number (Number.writable_natural (small.branches n is)),
    writable_of_map fun value _ => .bool value, writable_of_map fun value _ => .text value,
    writable_of_map fun params _ => writable_list fun param _ => writable_param param, nofun⟩

theorem writable_connected {connected : Connected SavedBlock}
    (each : ∀ block, connected.holds block → (blockJson block).Writable) : (connectedJson connected).Writable := by
  apply writable_present
  simp only [List.forall_mem_cons]
  exact ⟨writable_of_map fun block is => each block (.inl is),
    writable_of_map fun block is => each block (.inr is), nofun⟩

theorem writable_block {block : SavedBlock} (tidy : block.Tidy) : (blockJson block).Writable := by
  induction tidy with
  | mk own ordered _ _ inner later =>
    rw [block_written]
    apply writable_present
    simp only [blockSlots, List.forall_mem_cons, inputsJson_eq]
    exact ⟨writable_there (.text _), writable_there (.text _),
      writable_of_map fun d is => .number (own.x d is), writable_of_map fun d is => .number (own.y d is),
      writable_unless (.object fun entry listed => (own.fields entry listed).writable),
      writable_unless (.object (List.forall_mem_map.mpr fun entry listed => writable_connected (inner entry listed))),
      writable_of_map fun connected is => writable_connected (later connected is),
      writable_of_map fun state is => writable_extra (own.extra state is), nofun⟩

theorem writable_form {form : Form} (tidy : form.Tidy) : form.toJson.Writable := by
  have version : form.languageVersion < UInt64.size := tidy.version.trans (by decide)
  have tree : (treeJson form).Writable := by
    apply writable_present
    simp only [List.forall_mem_cons]
    exact ⟨writable_there (.number (Number.writable_natural version)),
      writable_there (writable_list fun block listed => writable_block (tidy.blocks block listed)), nofun⟩
  rw [form_written]
  apply writable_present
  simp only [formSlots, List.forall_mem_cons]
  refine ⟨writable_there tree, writable_unless (writable_list fun v _ => ?_),
    writable_unless (writable_list fun p _ => ?_), nofun⟩
  · refine .object ?_
    simp only [List.forall_mem_cons]
    exact ⟨.text _, .text _, nofun⟩
  · refine .object ?_
    simp only [List.forall_mem_cons]
    exact ⟨.text _, .text _, writable_list fun param _ => .text param, .bool _, nofun⟩

-- A form is read back from either of its texts if and only if the reader may look deep enough
-- and no number changes on the way.
theorem read_text {write : Nat → Json → String} (writing : Writing write) {form : Form} (tidy : form.Tidy) :
    Yields (Form.read? (write 0 form.toJson)) form (form.toJson.nesting ≤ depthLimit) form.toJson.Survives := by
  have read : Document.read? (write 0 form.toJson) = some form.toJson.spelled := by
    have writable := writable_form tidy
    rw [form_written] at writable ⊢
    exact writing.read_object 0 writable
  rw [Form.read?, read, Option.bind_some]
  exact gives_form tidy depthLimit

end Blockwork.Snapshot

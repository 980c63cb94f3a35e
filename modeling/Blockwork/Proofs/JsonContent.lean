import Mathlib
import Blockwork.Json.Record
import Blockwork.Proofs.JsonText
import Blockwork.Proofs.Planning

-- Reading a document for the content it was written from. Content comes back if
-- and only if it is nested no deeper than the reader allows and all its numbers
-- survive. If it is too deep, nothing comes back; if only a number does not
-- survive, something else may.
namespace Blockwork.Json

mutual

-- Containers around the innermost part.
def nesting : Json → Nat
  | .array items => nestingItems items + 1
  | .object members => nestingMembers members + 1
  | .null | .bool _ | .number _ | .text _ => 0

def nestingItems : List Json → Nat
  | [] => 0
  | item :: rest => max item.nesting (nestingItems rest)

def nestingMembers : List (String × Json) → Nat
  | [] => 0
  | (_, value) :: rest => max value.nesting (nestingMembers rest)

end

theorem nestingItems_le {items : List Json} {depth : Nat} :
    nestingItems items ≤ depth ↔ ∀ item ∈ items, item.nesting ≤ depth := by
  induction items with
  | nil => simp [nestingItems]
  | cons item rest ih => rw [nestingItems, max_le_iff, ih, List.forall_mem_cons]

theorem nestingMembers_le {members : List (String × Json)} {depth : Nat} :
    nestingMembers members ≤ depth ↔ ∀ member ∈ members, member.2.nesting ≤ depth := by
  induction members with
  | nil => simp [nestingMembers]
  | cons member rest ih => rw [nestingMembers, max_le_iff, ih, List.forall_mem_cons]

theorem array_nesting_le {items : List Json} {depth : Nat} :
    (Json.array items).nesting ≤ depth + 1 ↔ ∀ item ∈ items, item.nesting ≤ depth := by
  rw [nesting, Nat.add_le_add_iff_right, nestingItems_le]

theorem object_nesting_le {members : List (String × Json)} {depth : Nat} :
    (Json.object members).nesting ≤ depth + 1 ↔ ∀ member ∈ members, member.2.nesting ≤ depth := by
  rw [nesting, Nat.add_le_add_iff_right, nestingMembers_le]

theorem array_nesting_pos (items : List Json) : ¬(Json.array items).nesting ≤ 0 := by
  rw [nesting]
  omega

theorem object_nesting_pos (members : List (String × Json)) : ¬(Json.object members).nesting ≤ 0 := by
  rw [nesting]
  omega

mutual

-- All numbers of some data, in their order.
def numbers : Json → List Number
  | .number value => [value]
  | .array items => numbersOfItems items
  | .object members => numbersOfMembers members
  | .null | .bool _ | .text _ => []

def numbersOfItems : List Json → List Number
  | [] => []
  | item :: rest => item.numbers ++ numbersOfItems rest

def numbersOfMembers : List (String × Json) → List Number
  | [] => []
  | (_, value) :: rest => value.numbers ++ numbersOfMembers rest

end

def Survives (json : Json) : Prop := ∀ number ∈ json.numbers, number.Survives

instance (json : Json) : Decidable json.Survives := inferInstanceAs (Decidable (∀ number ∈ _, _))

theorem survives_number {number : Number} : (Json.number number).Survives ↔ number.Survives :=
  List.forall_mem_singleton

theorem survives_null : Json.null.Survives := nofun

theorem survives_bool (value : Bool) : (Json.bool value).Survives := nofun

theorem survives_text (value : String) : (Json.text value).Survives := nofun

theorem forall_numbers_array {P : Number → Prop} {items : List Json} :
    (∀ number ∈ (Json.array items).numbers, P number) ↔ ∀ item ∈ items, ∀ number ∈ item.numbers, P number := by
  rw [numbers]
  induction items with
  | nil => simp [numbersOfItems]
  | cons item rest ih => rw [numbersOfItems, List.forall_mem_append, ih, List.forall_mem_cons]

theorem forall_numbers_object {P : Number → Prop} {members : List (String × Json)} :
    (∀ number ∈ (Json.object members).numbers, P number)
      ↔ ∀ member ∈ members, ∀ number ∈ member.2.numbers, P number := by
  rw [numbers]
  induction members with
  | nil => simp [numbersOfMembers]
  | cons member rest ih => rw [numbersOfMembers, List.forall_mem_append, ih, List.forall_mem_cons]

theorem survives_array {items : List Json} :
    (Json.array items).Survives ↔ ∀ item ∈ items, item.Survives := forall_numbers_array

theorem survives_object {members : List (String × Json)} :
    (Json.object members).Survives ↔ ∀ member ∈ members, member.2.Survives := forall_numbers_object

-- Data as a reader makes it: numbers are numbers, and objects are in the order of their keys.
inductive Tidy : Json → Prop where
  | null : Tidy .null
  | bool (value : Bool) : Tidy (.bool value)
  | number {value : Number} (writable : value.Writable) : Tidy (.number value)
  | text (value : String) : Tidy (.text value)
  | array {items : List Json} (each : ∀ item ∈ items, Tidy item) : Tidy (.array items)
  | object {members : List (String × Json)} (ordered : members.Pairwise fun a b => a.1 < b.1)
      (each : ∀ member ∈ members, Tidy member.2) : Tidy (.object members)

theorem Tidy.writable {json : Json} (tidy : json.Tidy) : json.Writable := by
  induction tidy with
  | null => exact .null
  | bool value => exact .bool value
  | number writable => exact .number writable
  | text value => exact .text value
  | array _ each => exact .array each
  | object _ _ each => exact .object each

theorem Writable.numbers {json : Json} (writable : json.Writable) : ∀ number ∈ json.numbers, number.Writable := by
  induction writable with
  | null | bool | text => exact nofun
  | number writable => exact List.forall_mem_singleton.mpr writable
  | array _ ih => exact forall_numbers_array.mpr ih
  | object _ ih => exact forall_numbers_object.mpr ih

-- What a reader makes of some data. It is the value that the data was written from if and only
-- if the data is shallow enough and intact; and it is nothing if the data is too deep.
structure Yields {α : Type} (result : Option α) (value : α) (shallow intact : Prop) : Prop where
  value_iff : result = some value ↔ shallow ∧ intact
  shallow_of : ∀ {other}, result = some other → shallow

namespace Yields

variable {α β : Type} {result : Option α} {value : α} {shallow intact : Prop}

theorem sure (level : shallow) (kept : intact) : Yields (some value) value shallow intact :=
  ⟨by simp [level, kept], fun _ => level⟩

theorem never (deep : ¬shallow) : Yields none value shallow intact :=
  ⟨by simp [deep], nofun⟩

theorem congr {shallow' intact' : Prop} (yields : Yields result value shallow intact)
    (level : shallow ↔ shallow') (kept : intact ↔ intact') : Yields result value shallow' intact' :=
  ⟨by rw [yields.value_iff, level, kept], fun found => level.mp (yields.shallow_of found)⟩

-- The value is wrapped up in a way that can be undone where it counts.
theorem map (yields : Yields result value shallow intact) {f : α → β}
    (same : ∀ other, result = some other → f other = f value → other = value) :
    Yields (result.map f) (f value) shallow intact := by
  refine ⟨?_, fun found => ?_⟩
  · rw [← yields.value_iff, Option.map_eq_some_iff]
    exact ⟨fun ⟨other, found, wrapped⟩ => same other found wrapped ▸ found, fun found => ⟨value, found, rfl⟩⟩
  · obtain ⟨other, found, _⟩ := Option.map_eq_some_iff.mp found
    exact yields.shallow_of found

theorem of_map {f : α → β} (yields : Yields (result.map f) (f value) shallow intact)
    (injective : Function.Injective f) : Yields result value shallow intact :=
  ⟨by rw [← yields.value_iff, Option.map_eq_some_iff]; simp [injective.eq_iff],
    fun found => yields.shallow_of (congrArg (Option.map f) found)⟩

theorem too_deep (yields : Yields result value shallow intact) (deep : ¬shallow) : result = none :=
  Option.eq_none_iff_forall_ne_some.mpr fun _ found => deep (yields.shallow_of found)

end Yields

-- How reading goes on once a part has been read: the whole comes out right only if that part did.
structure Continues {α β : Type} (next : α → Option β) (value : α) (whole : β) (shallow intact : Prop) : Prop where
  whole_iff : ∀ other, next other = some whole ↔ other = value ∧ shallow ∧ intact
  shallow_of : ∀ {other found}, next other = some found → shallow

theorem Continues.last {α β : Type} {f : α → β} {value : α} (same : ∀ other, f other = f value → other = value) :
    Continues (fun part => some (f part)) value (f value) True True :=
  ⟨fun other => by simpa using ⟨same other, congrArg f⟩, fun _ => trivial⟩

section

variable {α β γ : Type} {result : Option α} {value : α} {shallow intact later kept : Prop}

-- One more part, and the rest after both.
theorem Yields.also {next : β → α → Option γ} {before : β} {whole : γ} (yields : Yields result value shallow intact)
    (rest : Continues (fun parts : β × α => next parts.1 parts.2) (before, value) whole later kept) :
    Continues (fun part => result.bind (next part)) before whole (shallow ∧ later) (intact ∧ kept) := by
  refine ⟨fun other => ?_, fun found => ?_⟩
  · have both (a : α) : next other a = some whole ↔ (other = before ∧ a = value) ∧ later ∧ kept :=
      (rest.whole_iff (other, a)).trans (by rw [Prod.mk.injEq])
    rw [and_and_and_comm, ← yields.value_iff, Option.bind_eq_some_iff]
    simp only [both]
    constructor
    · rintro ⟨a, found, ⟨rfl, rfl⟩, fits⟩
      exact ⟨rfl, found, fits⟩
    · rintro ⟨rfl, found, fits⟩
      exact ⟨value, found, ⟨rfl, rfl⟩, fits⟩
  · obtain ⟨a, found, more⟩ := Option.bind_eq_some_iff.mp found
    have more : (fun parts : β × α => next parts.1 parts.2) (_, a) = _ := more
    exact ⟨yields.shallow_of found, rest.shallow_of more⟩

theorem Yields.bind {next : α → Option β} {whole : β} (yields : Yields result value shallow intact)
    (rest : Continues next value whole later kept) :
    Yields (result.bind next) whole (shallow ∧ later) (intact ∧ kept) := by
  refine ⟨?_, fun found => ?_⟩
  · rw [and_and_and_comm, ← yields.value_iff, Option.bind_eq_some_iff]
    simp only [rest.whole_iff]
    constructor
    · rintro ⟨a, found, rfl, fits⟩
      exact ⟨found, fits⟩
    · rintro ⟨found, fits⟩
      exact ⟨value, found, rfl, fits⟩
  · obtain ⟨a, found, more⟩ := Option.bind_eq_some_iff.mp found
    exact ⟨yields.shallow_of found, rest.shallow_of more⟩

end

-- A list is read by reading its entries.
theorem Yields.mapM {α β : Type} {read : β → Option α} {write : α → β} {shallow intact : α → Prop} {items : List α}
    (each : ∀ a ∈ items, Yields (read (write a)) a (shallow a) (intact a)) :
    Yields ((items.map write).mapM read) items (∀ a ∈ items, shallow a) (∀ a ∈ items, intact a) := by
  induction items with
  | nil => exact .sure nofun nofun
  | cons first rest ih =>
    rw [List.forall_mem_cons] at each
    rw [List.map_cons, List.mapM_cons]
    simp only [List.forall_mem_cons]
    refine Yields.congr (each.1.bind ((ih each.2).also (Continues.last ?_))) (by simp) (by simp)
    rintro ⟨a, as⟩ same
    cases same
    rfl

theorem keyed_some {α : Type} (read : Document → Option α) (key : String) (document : Document) :
    keyed? read (some key, document) = (read document).map fun value => (key, value) := by
  cases found : read document <;> simp [keyed?, found]

theorem members_yield {α : Type} (encode : α → Json) {read : Document → Option α} {depth : Nat}
    {members : List (String × α)}
    (each : ∀ member ∈ members, Yields (read (encode member.2).spelled) member.2
      ((encode member.2).nesting ≤ depth) (encode member.2).Survives) :
    Yields ((spelledMembers (members.map fun m => (m.1, encode m.2))).mapM (keyed? read)) members
      (∀ member ∈ members, (encode member.2).nesting ≤ depth)
      (∀ member ∈ members, (encode member.2).Survives) := by
  rw [spelledMembers_eq, List.map_map]
  refine Yields.mapM fun member listed => ?_
  rw [Function.comp_apply, keyed_some]
  exact (each member listed).map fun _ _ same => (Prod.mk.inj same).2

-- Whatever values are read, their keys are those that were written.
theorem keys_read {α : Type} {encode : α → Json} {read : Document → Option α} {members found : List (String × α)}
    (reads : (spelledMembers (members.map fun m => (m.1, encode m.2))).mapM (keyed? read) = some found) :
    found.map (·.1) = members.map (·.1) := by
  induction members generalizing found with
  | nil =>
    cases reads
    rfl
  | cons member rest ih =>
    rw [List.map_cons, spelledMembers, List.mapM_cons, keyed_some] at reads
    obtain ⟨first, head, reads⟩ := Option.bind_eq_some_iff.mp reads
    obtain ⟨behind, tail, made⟩ := Option.bind_eq_some_iff.mp reads
    obtain ⟨_, _, rfl⟩ := Option.map_eq_some_iff.mp head
    cases made
    rw [List.map_cons, List.map_cons, ih tail]

-- A dictionary is told by its entries, and they come in the order of the keys.
theorem dict_yields {α : Type} (encode : α → Json) {read : Document → Option α} {depth : Nat}
    {members : List (String × α)} (ordered : members.Pairwise fun a b => a.1 < b.1)
    (each : ∀ member ∈ members, Yields (read (encode member.2).spelled) member.2
      ((encode member.2).nesting ≤ depth) (encode member.2).Survives) :
    Yields (((spelledMembers (members.map fun m => (m.1, encode m.2))).mapM (keyed? read)).map fun entries =>
        (Dict.ofList entries).entries) members
      ((Json.object (members.map fun m => (m.1, encode m.2))).nesting ≤ depth + 1)
      (Json.object (members.map fun m => (m.1, encode m.2))).Survives := by
  have sorted {found : List (String × α)} (keys : found.map (·.1) = members.map (·.1)) :
      (Dict.ofList found).entries = found := by
    apply Dict.ofList_sorted
    rw [← List.pairwise_map (f := fun entry : String × α => entry.1) (R := (· < ·)), keys, List.pairwise_map]
    exact ordered
  have read := (members_yield encode each).map (f := fun entries => (Dict.ofList entries).entries)
    fun found reads same => by rwa [sorted (keys_read reads), sorted rfl] at same
  rw [sorted rfl] at read
  refine read.congr ?_ ?_
  · rw [object_nesting_le, List.forall_mem_map]
  · rw [survives_object, List.forall_mem_map]

theorem ofDocument_spelled {json : Json} (tidy : json.Tidy) (depth : Nat) :
    Yields (ofDocument? depth json.spelled) json (json.nesting ≤ depth) json.Survives := by
  induction tidy generalizing depth with
  | null =>
    rw [spelled, ofDocument?]
    exact .sure (by simp [nesting]) survives_null
  | bool value =>
    rw [spelled, ofDocument?]
    exact .sure (by simp [nesting]) (survives_bool value)
  | @number value _ =>
    refine ⟨?_, fun _ => Nat.zero_le depth⟩
    simp [spelled, ofDocument?, nesting, survives_number, Number.Survives]
  | text value =>
    rw [spelled, ofDocument?]
    exact .sure (by simp [nesting]) (survives_text value)
  | @array items _ ih =>
    rw [spelled]
    cases depth with
    | zero =>
      rw [ofDocument?]
      exact .never (array_nesting_pos items)
    | succ depth =>
      have read := Yields.mapM fun item listed => ih item listed depth
      rw [ofDocument?, spelledItems_eq]
      exact (read.map fun _ _ same => Json.array.inj same).congr array_nesting_le.symm survives_array.symm
  | @object members ordered _ ih =>
    rw [spelled]
    cases depth with
    | zero =>
      rw [ofDocument?]
      exact .never (object_nesting_pos members)
    | succ depth =>
      have read := dict_yields id ordered fun member listed => ih member listed depth
      simp only [id, Prod.mk.eta, List.map_id'] at read
      rw [ofDocument?]
      have wrapped := read.map (f := Json.object) fun _ _ same => Json.object.inj same
      rwa [Option.map_map] at wrapped

theorem Number.writable_natural {n : Nat} (small : n < UInt64.size) : (Number.integer n).Writable :=
  ⟨(by decide : Int64.minValue.toInt ≤ 0).trans (Int.natCast_nonneg n), Int.ofNat_lt.mpr small⟩

namespace Reading

variable {α : Type}

-- A reading makes of some data the value that the data stands for, with any depth.
def Gives (reading : Reading α) (json : Json) (value : α) : Prop :=
  ∀ depth, Yields (reading depth json.spelled) value (json.nesting ≤ depth) json.Survives

theorem gives_text (value : String) : Gives text (.text value) value := fun _ =>
  .sure (by simp [nesting]) (survives_text value)

theorem gives_bool (value : Bool) : Gives bool (.bool value) value := fun _ =>
  .sure (by simp [nesting]) (survives_bool value)

theorem gives_double {value : Double} (finite : value.isFinite = true) :
    Gives double (.number (.real value)) value := by
  refine fun depth => ⟨?_, fun _ => Nat.zero_le depth⟩
  have writable : (Number.real value).Writable := finite
  have same := Number.real_survives_iff writable
  simpa [spelled, double, number, nesting, survives_number] using same

theorem gives_natBelow {limit n : Nat} (small : n < limit) (bounded : limit ≤ UInt64.size) :
    Gives (natBelow limit) (.number (.integer n)) n := by
  intro depth
  have survives := Number.integer_survives (Number.writable_natural (small.trans_le bounded))
  have read : natBelow limit depth (spelled (.number (.integer n))) = some n := by
    have same : (Number.integer n).literal.number? = some (.integer n) := survives
    simp [spelled, natBelow, number, same, small]
  rw [read]
  exact .sure (by simp [nesting]) (survives_number.mpr survives)

theorem gives_list {item : Reading α} {encode : α → Json} {values : List α}
    (each : ∀ value ∈ values, Gives item (encode value) value) :
    Gives (list item) (.array (values.map encode)) values := by
  intro depth
  rw [spelled, spelledItems_eq]
  cases depth with
  | zero => exact .never (array_nesting_pos _)
  | succ depth =>
    have read := Yields.mapM fun value listed => each value listed depth
    rw [list, List.map_map]
    refine read.congr ?_ ?_
    · rw [array_nesting_le, List.forall_mem_map]
    · rw [survives_array, List.forall_mem_map]

theorem gives_dict {item : Reading α} (encode : α → Json) {values : Dict α}
    (each : ∀ entry ∈ values.entries, Gives item (encode entry.2) entry.2) :
    Gives (dict item) (.object (values.entries.map fun m => (m.1, encode m.2))) values := by
  intro depth
  rw [spelled]
  cases depth with
  | zero => exact .never (object_nesting_pos _)
  | succ depth =>
    have read := dict_yields encode values.ordered fun entry listed => each entry listed depth
    have entries : Function.Injective (Dict.entries (α := α)) := fun a b same => by
      cases a
      cases same
      rfl
    refine Yields.of_map (f := Dict.entries) ?_ entries
    rwa [dict, Option.map_map]

theorem spelled_ne_null {json : Json} (other : json ≠ .null) : json.spelled ≠ .null := by
  cases json with
  | null => exact absurd rfl other
  | _ => simp [spelled]

theorem Gives.nullable {item : Reading α} {json : Json} {value : α} (gives : Gives item json value)
    (other : json ≠ .null) : Gives (nullable item) json (some value) := by
  intro depth
  have same : Reading.nullable item depth json.spelled = (item depth json.spelled).map some := by
    unfold Reading.nullable
    split
    · next null => exact absurd null (spelled_ne_null other)
    · rfl
  rw [same]
  exact (gives depth).map fun _ _ wrapped => Option.some.inj wrapped

-- A null for no value.
theorem gives_nullable {item : Reading α} {encode : α → Json} {value : Option α}
    (each : ∀ a, value = some a → Gives item (encode a) a ∧ encode a ≠ .null) :
    Gives (nullable item) ((value.map encode).getD .null) value := by
  cases value with
  | none => exact fun depth => .sure (by simp [nesting]) survives_null
  | some a => exact (each a rfl).1.nullable (each a rfl).2

end Reading

-- The members of a record whose fields may be absent.
def present (slots : List (String × Option Json)) : List (String × Json) :=
  slots.flatMap fun slot => (slot.2.map fun json => (slot.1, json)).toList

def fieldNesting (field : Option Json) : Nat := field.elim 0 nesting

theorem present_nesting_le {slots : List (String × Option Json)} {depth : Nat} :
    (Json.object (present slots)).nesting ≤ depth + 1 ↔ ∀ slot ∈ slots, fieldNesting slot.2 ≤ depth := by
  rw [object_nesting_le, present, List.forall_mem_flatMap]
  refine forall₂_congr fun slot _ => ?_
  obtain ⟨name, field⟩ := slot
  cases field <;> simp [fieldNesting]

def FieldSurvives (field : Option Json) : Prop := field.elim True Survives

theorem present_survives {slots : List (String × Option Json)} :
    (Json.object (present slots)).Survives ↔ ∀ slot ∈ slots, FieldSurvives slot.2 := by
  rw [survives_object, present, List.forall_mem_flatMap]
  refine forall₂_congr fun slot _ => ?_
  obtain ⟨name, field⟩ := slot
  cases field <;> simp [FieldSurvives]

theorem field_lt_nesting {slots : List (String × Option Json)} {name : String} {field : Option Json}
    (listed : (name, field) ∈ slots) : fieldNesting field < (Json.object (present slots)).nesting := by
  have within : (Json.object (present slots)).nesting ≤ nestingMembers (present slots) + 1 := by rw [nesting]
  have least := present_nesting_le.mp within (name, field) listed
  rw [nesting]
  exact Nat.lt_succ_of_le least

theorem member_lt_nesting {slots : List (String × Option Json)} {name : String} {json : Json}
    (listed : (name, some json) ∈ slots) : json.nesting < (Json.object (present slots)).nesting :=
  field_lt_nesting listed

theorem writable_present {slots : List (String × Option Json)}
    (each : ∀ slot ∈ slots, ∀ json, slot.2 = some json → json.Writable) : Writable (.object (present slots)) := by
  refine .object fun member listed => ?_
  obtain ⟨slot, among, found⟩ := List.mem_flatMap.mp listed
  obtain ⟨json, is, rfl⟩ := Option.map_eq_some_iff.mp (Option.mem_toList.mp found)
  exact each slot among json is

namespace Document

-- The members with some name, out of the members of one slot and of the others.
theorem named_present (name : String) (slot : String × Option Json) (slots : List (String × Option Json)) :
    (spelledMembers (present (slot :: slots))).filter (fun m => m.1.any [name].contains)
      = (if slot.1 = name then (slot.2.map fun json => (some name, json.spelled)).toList else [])
        ++ (spelledMembers (present slots)).filter (fun m => m.1.any [name].contains) := by
  obtain ⟨key, field⟩ := slot
  rw [present, List.flatMap_cons, spelledMembers_eq, List.map_append, List.filter_append, spelledMembers_eq]
  cases field with
  | none => simp [present]
  | some json => by_cases same : key = name <;> simp [present, same]

theorem named_absent {name : String} {slots : List (String × Option Json)}
    (absent : name ∉ slots.map (·.1)) :
    (spelledMembers (present slots)).filter (fun m => m.1.any [name].contains) = [] := by
  induction slots with
  | nil => rfl
  | cons slot slots ih =>
    rw [List.map_cons, List.mem_cons, not_or] at absent
    rw [named_present, if_neg (Ne.symm absent.1), ih absent.2]
    rfl

-- Each name is there once, so no two members are taken for the same field.
theorem member_present {slots : List (String × Option Json)} (distinct : (slots.map (·.1)).Nodup)
    {slot : String × Option Json} (listed : slot ∈ slots) :
    member? [slot.1] (spelledMembers (present slots)) = some (slot.2.map spelled) := by
  have named : (spelledMembers (present slots)).filter (fun m => m.1.any [slot.1].contains)
      = (slot.2.map fun json => (some slot.1, json.spelled)).toList := by
    induction slots with
    | nil => cases listed
    | cons head slots ih =>
      rw [List.map_cons, List.nodup_cons] at distinct
      rw [named_present]
      rcases List.mem_cons.mp listed with rfl | later
      · rw [if_pos rfl, named_absent distinct.1, List.append_nil]
      · have other : head.1 ≠ slot.1 := fun same =>
          distinct.1 (List.mem_map.mpr ⟨slot, later, same.symm⟩)
        rw [if_neg other, ih distinct.2 later, List.nil_append]
  rw [member?, named]
  cases slot.2 <;> rfl

theorem record_present (slots : List (String × Option Json)) (distinct : (slots.map (·.1)).Nodup) :
    (spelled (.object (present slots))).record? (slots.map fun slot => [slot.1])
      = some (slots.map fun slot => slot.2.map spelled) := by
  have keys : (spelledMembers (present slots)).all (·.1.isSome) = true := by
    rw [spelledMembers_eq]
    simp
  have each (asked : List (String × Option Json)) (among : ∀ slot ∈ asked, slot ∈ slots) :
      (asked.map fun slot => [slot.1]).mapM (member? · (spelledMembers (present slots)))
        = some (asked.map fun slot => slot.2.map spelled) := by
    induction asked with
    | nil => rfl
    | cons slot asked ih =>
      rw [List.forall_mem_cons] at among
      rw [List.map_cons, List.mapM_cons, member_present distinct among.1, ih among.2]
      rfl
  rw [spelled, record?, if_pos keys]
  exact each slots fun _ listed => listed

end Document

namespace Reading

variable {α : Type} {item : Reading α}

-- One field of a record, which may be absent.
abbrev FieldGives (read : Option Document → Option α) (field : Option Json) (value : α) (depth : Nat) : Prop :=
  Yields (read (field.map spelled)) value (fieldNesting field ≤ depth) (FieldSurvives field)

-- A record is read by what its fields are read by, one level further in.
theorem record_reads {read : Document → Option α} {names : List (List String)}
    {fields : List (Option Document) → Option α} {depth : Nat} (slots : List (String × Option Json))
    (inside : ∀ document, read document = (document.record? names).bind fields)
    (named : (slots.map fun slot => [slot.1]) = names) (distinct : (slots.map (·.1)).Nodup) {value : α}
    (each : Yields (fields (slots.map fun slot => slot.2.map spelled)) value
      (∀ slot ∈ slots, fieldNesting slot.2 ≤ depth) (∀ slot ∈ slots, FieldSurvives slot.2)) :
    Yields (read (spelled (.object (present slots)))) value
      ((Json.object (present slots)).nesting ≤ depth + 1) (Json.object (present slots)).Survives := by
  rw [inside, ← named, Document.record_present slots distinct, Option.bind_some]
  exact each.congr present_nesting_le.symm present_survives.symm

theorem record_gives {reading : Reading α} {names : List (List String)}
    {fields : Nat → List (Option Document) → Option α} (slots : List (String × Option Json))
    (outside : ∀ document, reading 0 document = none)
    (inside : ∀ depth document, reading (depth + 1) document = (document.record? names).bind (fields depth))
    (named : (slots.map fun slot => [slot.1]) = names) (distinct : (slots.map (·.1)).Nodup) {value : α}
    (each : ∀ depth, Yields (fields depth (slots.map fun slot => slot.2.map spelled)) value
      (∀ slot ∈ slots, fieldNesting slot.2 ≤ depth) (∀ slot ∈ slots, FieldSurvives slot.2)) :
    Gives reading (.object (present slots)) value := by
  intro depth
  cases depth with
  | zero =>
    rw [outside]
    exact .never (object_nesting_pos _)
  | succ depth => exact record_reads slots (inside depth) named distinct (each depth)

theorem required_gives {json : Json} {value : α} (gives : Gives item json value) (depth : Nat) :
    FieldGives (required item depth) (some json) value depth :=
  gives depth

theorem withDefault_gives {field : Option Json} {value default : α} (absent : field = none → value = default)
    (there : ∀ json, field = some json → Gives item json value) (depth : Nat) :
    FieldGives (withDefault item default depth) field value depth := by
  cases field with
  | none =>
    rw [absent rfl]
    exact .sure (Nat.zero_le depth) trivial
  | some json => exact there json rfl depth

theorem there_gives {json : Json} {value : α} (default : α) (gives : Gives item json value) (depth : Nat) :
    FieldGives (withDefault item default depth) (some json) value depth :=
  gives depth

theorem optional_gives {encode : α → Json} {value : Option α}
    (each : ∀ a, value = some a → Gives item (encode a) a ∧ encode a ≠ .null) (depth : Nat) :
    FieldGives (optional item depth) (value.map encode) value depth := by
  apply withDefault_gives
  · simp
  · intro json written
    obtain ⟨a, rfl, rfl⟩ := Option.map_eq_some_iff.mp written
    obtain ⟨gives, other⟩ := each a rfl
    exact gives.nullable other

end Reading
end Blockwork.Json

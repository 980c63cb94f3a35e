import Mathlib
import Blockwork.Dict

-- Dictionaries through their look-ups. After these facts no proof has to look
-- at the list of entries, except where its order is what counts.
namespace Blockwork.Dict

variable {α β : Type}

theorem lookup_cons_eq (k' : String) (v : α) (rest : List (String × α)) (k : String) :
    ((k', v) :: rest).lookup k = if k = k' then some v else rest.lookup k := by
  by_cases same : k = k'
  · simp [same]
  · have test : (k == k') = false := beq_eq_false_iff_ne.mpr same
    rw [List.lookup_cons, test, if_neg same]

theorem lookup_place (key : String) (value : α) (entries : List (String × α)) (k : String) :
    (place key value entries).lookup k = if k = key then some value else entries.lookup k := by
  induction entries with
  | nil => rw [place, lookup_cons_eq]
  | cons head rest ih =>
    obtain ⟨k', v⟩ := head
    simp only [place]
    split
    · rw [lookup_cons_eq]
    · split
      · next old =>
        subst old
        simp only [lookup_cons_eq]
        split <;> rfl
      · next other =>
        simp only [lookup_cons_eq, ih]
        by_cases here : k = k'
        · subst here
          simp [Ne.symm other]
        · simp [here]

@[simp] theorem get?_empty (k : String) : (empty : Dict α).get? k = none := rfl

@[simp] theorem get?_insert (d : Dict α) (key : String) (value : α) (k : String) :
    (d.insert key value).get? k = if k = key then some value else d.get? k :=
  lookup_place key value d.entries k

theorem lookup_filter (keep : String → Bool) (entries : List (String × α)) (k : String) :
    (entries.filter fun e => keep e.1).lookup k = if keep k then entries.lookup k else none := by
  induction entries with
  | nil => simp
  | cons head rest ih =>
    obtain ⟨k', v⟩ := head
    by_cases kept : keep k' = true
    · simp only [List.filter_cons, kept, if_true, lookup_cons_eq, ih]
      by_cases here : k = k'
      · simp [here, kept]
      · simp [here]
    · simp only [List.filter_cons, kept, Bool.false_eq_true, if_false, lookup_cons_eq, ih]
      by_cases here : k = k'
      · simp [here, kept]
      · simp [here]

@[simp] theorem get?_restrict (d : Dict α) (keep : String → Bool) (k : String) :
    (d.restrict keep).get? k = if keep k then d.get? k else none :=
  lookup_filter keep d.entries k

theorem lookup_mapped (f : String → α → β) (entries : List (String × α)) (k : String) :
    (entries.map fun e => (e.1, f e.1 e.2)).lookup k = (entries.lookup k).map (f k) := by
  induction entries with
  | nil => simp
  | cons head rest ih =>
    obtain ⟨k', v⟩ := head
    rw [List.map_cons, lookup_cons_eq, lookup_cons_eq, ih]
    by_cases here : k = k' <;> simp [here]

@[simp] theorem get?_mapEntries (d : Dict α) (f : String → α → β) (k : String) :
    (d.mapEntries f).get? k = (d.get? k).map (f k) :=
  lookup_mapped f d.entries k

@[simp] theorem get?_modify (d : Dict α) (key : String) (f : α → α) (k : String) :
    (d.modify key f).get? k = if k = key then (d.get? k).map f else d.get? k := by
  unfold modify
  by_cases same : k = key <;> simp [same]

theorem contains_eq (d : Dict α) (k : String) : d.contains k = (d.get? k).isSome := rfl

-- The order makes the keys differ, so the entries are exactly the look-ups that succeed.
theorem keys_nodup (d : Dict α) : (d.entries.map (·.1)).Nodup := by
  refine List.pairwise_map.mpr (d.ordered.imp ?_)
  intro a b before same
  exact String.lt_irrefl _ (same ▸ before)

theorem entries_nodup (d : Dict α) : d.entries.Nodup := List.Nodup.of_map _ d.keys_nodup

theorem lookup_eq_some_of_mem {entries : List (String × α)} (distinct : (entries.map (·.1)).Nodup)
    {k : String} {v : α} : entries.lookup k = some v ↔ (k, v) ∈ entries := by
  induction entries with
  | nil => simp
  | cons head rest ih =>
    obtain ⟨k', w⟩ := head
    obtain ⟨new, tail⟩ := List.nodup_cons.mp distinct
    by_cases here : k = k'
    · subst here
      have absent : (k, v) ∉ rest := fun member => new (List.mem_map.mpr ⟨_, member, rfl⟩)
      simp [absent, eq_comm]
    · simp [lookup_cons_eq, here, ih tail]

theorem mem_entries {d : Dict α} {k : String} {v : α} : (k, v) ∈ d.entries ↔ d.get? k = some v :=
  (lookup_eq_some_of_mem d.keys_nodup).symm

theorem mem_values {d : Dict α} {v : α} : v ∈ d.values ↔ ∃ k, d.get? k = some v := by
  constructor
  · intro member
    obtain ⟨⟨k, w⟩, listed, rfl⟩ := List.mem_map.mp member
    exact ⟨k, mem_entries.mp listed⟩
  · rintro ⟨k, found⟩
    exact List.mem_map.mpr ⟨(k, v), mem_entries.mpr found, rfl⟩

theorem mem_keys {d : Dict α} {k : String} : k ∈ d.entries.map (·.1) ↔ (d.get? k).isSome := by
  constructor
  · intro member
    obtain ⟨⟨k', v⟩, listed, rfl⟩ := List.mem_map.mp member
    simp [mem_entries.mp listed]
  · intro found
    obtain ⟨v, found⟩ := Option.isSome_iff_exists.mp found
    exact List.mem_map.mpr ⟨(k, v), mem_entries.mpr found, rfl⟩

@[ext] theorem ext_get? {d e : Dict α} (same : ∀ k, d.get? k = e.get? k) : d = e := by
  have listed : d.entries.Perm e.entries :=
    (List.perm_ext_iff_of_nodup d.entries_nodup e.entries_nodup).mpr
      fun ⟨k, v⟩ => by rw [mem_entries, mem_entries, same k]
  have equal : d.entries = e.entries :=
    listed.eq_of_pairwise (fun a b _ _ before after => absurd after (String.lt_asymm before))
      d.ordered e.ordered
  cases d; cases e; simpa using equal

-- A list without repeated keys is taken over as it is, up to the order.
theorem get?_foldl_insert (entries : List (String × α)) (d : Dict α) (k : String)
    (distinct : (entries.map (·.1)).Nodup) :
    (entries.foldl (fun d e => d.insert e.1 e.2) d).get? k = (entries.lookup k).or (d.get? k) := by
  induction entries generalizing d with
  | nil => simp
  | cons head rest ih =>
    obtain ⟨k', v⟩ := head
    obtain ⟨new, tail⟩ := List.nodup_cons.mp distinct
    rw [List.foldl_cons, ih _ tail, get?_insert]
    by_cases here : k = k'
    · subst here
      have absent : rest.lookup k = none := by
        rw [List.lookup_eq_none_iff]
        intro e member
        have other : k ≠ e.1 := fun same => new (List.mem_map.mpr ⟨e, member, same.symm⟩)
        simp [other]
      simp [absent]
    · simp [lookup_cons_eq, here]

theorem get?_ofList {entries : List (String × α)} (distinct : (entries.map (·.1)).Nodup)
    (k : String) : (ofList entries).get? k = entries.lookup k := by
  rw [ofList, get?_foldl_insert _ _ _ distinct]
  simp

theorem ofList_perm {entries : List (String × α)} (distinct : (entries.map (·.1)).Nodup) :
    (ofList entries).entries.Perm entries :=
  (List.perm_ext_iff_of_nodup (entries_nodup _) (List.Nodup.of_map _ distinct)).mpr fun ⟨k, v⟩ => by
    rw [mem_entries, get?_ofList distinct, lookup_eq_some_of_mem distinct]

theorem ofList_entries (d : Dict α) : ofList d.entries = d := by
  ext1 k
  rw [get?_ofList d.keys_nodup]
  rfl

end Blockwork.Dict

import Mathlib
import Blockwork.Proofs.EditRules

-- Tables of named things. Ids differ, names differ without regard to case, and
-- a name is not empty and has no blanks at its ends.
namespace Blockwork

namespace Text

theorem trimRight_eq (cs : List Char) : trimRight cs = cs.rdropWhile isBlank := rfl

-- What trimming leaves begins with no blank, also where the end was cut.
theorem dropWhile_trimRight {c : Char} {rest : List Char} (solid : isBlank c = false) :
    (trimRight (c :: rest)).dropWhile isBlank = trimRight (c :: rest) := by
  have filled : trimRight (c :: rest) ≠ [] := by
    rw [trimRight_eq, ne_eq, List.rdropWhile_eq_nil_iff]
    intro all
    rw [all c List.mem_cons_self] at solid
    cases solid
  obtain ⟨after, whole⟩ := List.rdropWhile_prefix isBlank (l := c :: rest)
  rw [← trimRight_eq] at whole
  cases trimmed : trimRight (c :: rest) with
  | nil => exact absurd trimmed filled
  | cons d ds =>
    rw [trimmed, List.cons_append, List.cons.injEq] at whole
    rw [List.dropWhile_cons, whole.1, solid]
    rfl

theorem trim_trim (s : String) : trim (trim s) = trim s := by
  unfold trim
  rw [String.toList_ofList]
  congr 1
  unfold trimBoth
  cases leading : s.toList.dropWhile isBlank with
  | nil => rfl
  | cons c rest =>
    have solid : isBlank c = false := by
      have head := List.head_dropWhile_not isBlank (l := s.toList) (by simp [leading])
      simpa [leading] using head
    rw [dropWhile_trimRight solid, trimRight_eq, trimRight_eq, List.rdropWhile_idempotent]

end Text

theorem sameName_eq_false {a b : String} : sameName a b = false ↔ foldName a ≠ foldName b := by
  rw [sameName, beq_eq_false_iff_ne]

structure Named {α β : Type} (id : α → β) (name : α → String) (items : List α) : Prop where
  ids : (items.map id).Nodup
  names : (items.map fun a => foldName (name a)).Nodup
  filled : ∀ a ∈ items, Text.trim (name a) = name a ∧ (name a).isEmpty = false

namespace Named

variable {α β : Type} {id : α → β} {name : α → String} {items : List α}

theorem empty : Named id name ([] : List α) := ⟨by simp, by simp, by simp⟩

theorem sublist (named : Named id name items) {kept : List α} (part : kept.Sublist items) :
    Named id name kept :=
  ⟨named.ids.sublist (part.map _), named.names.sublist (part.map _),
    fun a member => named.filled a (part.subset member)⟩

theorem unique (named : Named id name items) {a b : α} (first : a ∈ items) (second : b ∈ items)
    (same : id a = id b) : a = b := List.inj_on_of_nodup_map named.ids first second same

theorem append (named : Named id name items) {a : α} {given : String} (new : id a ∉ items.map id)
    (checked : Graph.checkName given (items.map name) = .ok (name a)) :
    Named id name (items ++ [a]) := by
  obtain ⟨trimmed, filled, free⟩ := Graph.checkName_eq_ok.mp checked
  refine ⟨?_, ?_, ?_⟩
  · rw [List.map_append]
    exact named.ids.append (by simp) (by simpa [List.disjoint_left] using new)
  · rw [List.map_append]
    refine named.names.append (by simp) ?_
    rw [List.disjoint_left]
    intro folded listed last
    obtain ⟨b, member, rfl⟩ := List.mem_map.mp listed
    have other := sameName_eq_false.mp (free (name b) (List.mem_map_of_mem member))
    simp only [List.map_cons, List.map_nil, List.mem_singleton] at last
    exact other last
  · intro b member
    rcases List.mem_append.mp member with old | last
    · exact named.filled b old
    · rw [List.mem_singleton.mp last]
      exact ⟨by rw [trimmed, Text.trim_trim], filled⟩

theorem rename [DecidableEq β] (named : Named id name items) {target : β} {given name' : String}
    {f : α → α} (keeps : ∀ a, id (f a) = id a) (renames : ∀ a, name (f a) = name')
    (checked : Graph.checkName given ((items.filter fun a => id a ≠ target).map name) = .ok name') :
    Named id name (items.map fun a => if id a = target then f a else a) := by
  obtain ⟨trimmed, filled, free⟩ := Graph.checkName_eq_ok.mp checked
  have others : ∀ a ∈ items, id a ≠ target → foldName (name a) ≠ foldName name' := by
    intro a member different
    refine sameName_eq_false.mp (free (name a) (List.mem_map_of_mem ?_))
    exact List.mem_filter.mpr ⟨member, by simpa using different⟩
  refine ⟨?_, ?_, ?_⟩
  · have same : (items.map fun a => if id a = target then f a else a).map id = items.map id := by
      rw [List.map_map]
      refine List.map_congr_left fun a _ => ?_
      simp only [Function.comp_apply]
      split <;> simp [keeps]
    rw [same]
    exact named.ids
  · rw [List.map_map]
    refine List.Nodup.map_on (fun a first b second same => ?_) named.ids.of_map
    simp only [Function.comp_apply] at same
    by_cases atA : id a = target <;> by_cases atB : id b = target
    · exact named.unique first second (atA.trans atB.symm)
    · simp only [atA, atB, if_true, if_false, renames] at same
      exact absurd same.symm (others b second atB)
    · simp only [atA, atB, if_true, if_false, renames] at same
      exact absurd same (others a first atA)
    · simp only [atA, atB, if_false] at same
      exact List.inj_on_of_nodup_map named.names first second same
  · intro b member
    obtain ⟨a, listed, rfl⟩ := List.mem_map.mp member
    split
    · rw [renames]
      exact ⟨by rw [trimmed, Text.trim_trim], filled⟩
    · exact named.filled a listed

-- Changes that keep ids and names.
theorem map (named : Named id name items) {f : α → α} (sameId : ∀ a, id (f a) = id a)
    (called : ∀ a, name (f a) = name a) : Named id name (items.map f) := by
  refine ⟨?_, ?_, ?_⟩
  · simp only [List.map_map, Function.comp_def, sameId]
    exact named.ids
  · simp only [List.map_map, Function.comp_def, called]
    exact named.names
  · intro b member
    obtain ⟨a, listed, rfl⟩ := List.mem_map.mp member
    rw [called]
    exact named.filled a listed

theorem renumber (named : Named id name items) {γ : Type} {f : β → γ} (inj : Function.Injective f) :
    Named (fun a => f (id a)) name items := by
  refine ⟨?_, named.names, named.filled⟩
  have ids := named.ids.map inj
  rwa [List.map_map] at ids

end Named

-- The check of a table passes over what comes before.
theorem Graph.validateEntries_ok {ids names : List String} {entries : List (String × String)}
    (distinct : (entries.map (·.1)).Nodup) (apart : ∀ e ∈ entries, e.1 ∉ ids)
    (differ : (entries.map fun e => foldName e.2).Nodup)
    (free : ∀ e ∈ entries, foldName e.2 ∉ names)
    (filled : ∀ e ∈ entries, (Text.trim e.2).isEmpty = false) :
    validateEntries ids names entries = .ok () := by
  induction entries generalizing ids names with
  | nil => rfl
  | cons head rest ih =>
    obtain ⟨id, name⟩ := head
    rw [List.map_cons, List.nodup_cons] at distinct differ
    rw [List.forall_mem_cons] at apart free filled
    simp only [validateEntries, List.contains_iff_mem, apart.1, free.1, filled.1, if_false,
      Bool.false_eq_true]
    refine ih distinct.2 (fun e member => ?_) differ.2 (fun e member => ?_) filled.2
    · rw [List.mem_cons, not_or]
      exact ⟨fun same => distinct.1 (List.mem_map.mpr ⟨e, member, same⟩), apart.2 e member⟩
    · rw [List.mem_cons, not_or]
      exact ⟨fun same => differ.1 (List.mem_map.mpr ⟨e, member, same⟩), free.2 e member⟩

theorem Named.validateEntries_ok {α : Type} {id name : α → String} {items : List α}
    (named : Named id name items) :
    Graph.validateEntries [] [] (items.map fun a => (id a, name a)) = .ok () := by
  refine Graph.validateEntries_ok ?_ (by simp) ?_ (by simp) ?_
  · rw [List.map_map]
    exact named.ids
  · rw [List.map_map]
    exact named.names
  · intro e member
    obtain ⟨a, listed, rfl⟩ := List.mem_map.mp member
    obtain ⟨trimmed, filled⟩ := named.filled a listed
    rw [trimmed]
    exact filled

end Blockwork

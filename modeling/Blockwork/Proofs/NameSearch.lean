import Mathlib
import Blockwork.Proofs.DistinctNames

-- The search for a free name as the loop that it is. The loop has no bound of its own: it goes on
-- while its candidate is taken. It ends because all its candidates differ and the names that are
-- taken are finitely many.
namespace Blockwork.Python

-- Where the loop stands: the candidate to look at, and the number for the one after it.
structure Attempt where
  candidate : String
  suffix : Nat

-- Runs of the loop from an attempt, with the rounds they take and the name they leave with. A loop
-- that goes on for ever has no run.
inductive Loop (taken : List String) (base : String) : Attempt → Nat → String → Prop where
  | leave {attempt : Attempt} (free : attempt.candidate ∉ taken) :
    Loop taken base attempt 0 attempt.candidate
  | round {attempt : Attempt} {rounds : Nat} {name : String} (busy : attempt.candidate ∈ taken)
    (rest : Loop taken base ⟨base ++ toString attempt.suffix, attempt.suffix + 1⟩ rounds name) :
    Loop taken base attempt (rounds + 1) name

section

variable {taken : List String} {base : String}

theorem Loop.unique {attempt : Attempt} {m n : Nat} {first second : String}
    (one : Loop taken base attempt m first) (other : Loop taken base attempt n second) :
    m = n ∧ first = second := by
  induction one generalizing n with
  | leave free =>
    cases other with
    | leave => exact ⟨rfl, rfl⟩
    | round busy => exact absurd busy free
  | round busy _ ih =>
    cases other with
    | leave free => exact absurd busy free
    | round _ rest =>
      obtain ⟨same, named⟩ := ih rest
      exact ⟨congrArg (· + 1) same, named⟩

-- Behind the base, the loop counts up to the first number that is free.
theorem loop_counts {n rounds : Nat} (busy : ∀ j, n ≤ j → j < n + rounds → base ++ toString j ∈ taken)
    (free : base ++ toString (n + rounds) ∉ taken) :
    Loop taken base ⟨base ++ toString n, n + 1⟩ rounds (base ++ toString (n + rounds)) := by
  induction rounds generalizing n with
  | zero => exact .leave free
  | succ rounds ih =>
    have shift : n + (rounds + 1) = n + 1 + rounds := by omega
    rw [shift] at busy free ⊢
    apply Loop.round
    · exact busy n (Nat.le_refl n) (by omega)
    · exact ih (fun j above below => busy j (Nat.le_of_succ_le above) below) free

theorem firstFree_least {held : Nat → Bool} {tries n : Nat} (free : held (firstFree held tries n) = false) :
    IsLeast {k | n ≤ k ∧ held k = false} (firstFree held tries n) := by
  induction tries generalizing n with
  | zero => exact ⟨⟨Nat.le_refl n, free⟩, fun k inside => inside.1⟩
  | succ tries ih =>
    rw [firstFree] at free ⊢
    cases here : held n with
    | false => exact ⟨⟨Nat.le_refl n, here⟩, fun k inside => inside.1⟩
    | true =>
      rw [here, if_pos rfl] at free
      obtain ⟨⟨above, _⟩, least⟩ := ih free
      refine ⟨⟨Nat.le_of_succ_le above, free⟩, fun k inside => ?_⟩
      apply least
      refine ⟨Nat.lt_of_le_of_ne inside.1 ?_, inside.2⟩
      intro same
      cases here.symm.trans (same ▸ inside.2)

theorem distinct_of_free (free : base ∉ taken) : distinct taken base = base := by
  simp [distinct, free]

-- The bounded search finds a free number, and so the least one.
theorem distinct_of_taken (busy : base ∈ taken) :
    ∃ k, IsLeast {k | 2 ≤ k ∧ base ++ toString k ∉ taken} k ∧ distinct taken base = base ++ toString k := by
  set held : Nat → Bool := fun m => taken.contains (base ++ toString m)
  have found : distinct taken base = base ++ toString (firstFree held taken.length 2) := by
    rw [distinct, if_pos (by simpa using busy), numbered_firstFree]
  have free : held (firstFree held taken.length 2) = false := by
    have free := distinct_free taken base
    rw [found] at free
    simpa [held] using free
  exact ⟨_, by simpa [held] using firstFree_least free, found⟩

-- All candidates before the least free one differ, and all of them are taken.
theorem candidates_le {k : Nat} (busy : base ∈ taken)
    (least : IsLeast {k | 2 ≤ k ∧ base ++ toString k ∉ taken} k) : k - 1 ≤ taken.toFinset.card := by
  obtain ⟨⟨above, _⟩, below⟩ := least
  set numbers := (Finset.Ico 2 k).image fun j => base ++ toString j
  have longer : base ∉ numbers := by
    intro member
    obtain ⟨j, _, same⟩ := Finset.mem_image.mp member
    have lengths := congrArg (fun s : String => s.toList.length) same
    have digits := List.length_pos_iff.mpr (digits_chars j).2
    simp only [String.toList_append, List.length_append] at lengths
    omega
  have many : (insert base numbers).card = k - 1 := by
    rw [Finset.card_insert_of_notMem longer, Finset.card_image_of_injective _ fun _ _ same => Kind.prefixed_inj same,
      Nat.card_Ico]
    omega
  rw [← many]
  apply Finset.card_le_card
  apply Finset.insert_subset (List.mem_toFinset.mpr busy)
  intro name member
  obtain ⟨j, range, rfl⟩ := Finset.mem_image.mp member
  obtain ⟨low, high⟩ := Finset.mem_Ico.mp range
  by_contra free
  have bound := below ⟨low, fun listed => free (List.mem_toFinset.mpr listed)⟩
  omega

theorem loop_distinct (taken : List String) (base : String) :
    ∃ rounds ≤ taken.toFinset.card, Loop taken base ⟨base, 2⟩ rounds (distinct taken base) := by
  by_cases busy : base ∈ taken
  · obtain ⟨k, least, named⟩ := distinct_of_taken busy
    have above : 2 ≤ k := least.1.1
    have counts : Loop taken base ⟨base ++ toString 2, 3⟩ (k - 2) (base ++ toString (2 + (k - 2))) := by
      apply loop_counts
      · intro j low high
        by_contra free
        have := least.2 ⟨low, free⟩
        omega
      · rw [Nat.add_sub_cancel' above]
        exact least.1.2
    rw [Nat.add_sub_cancel' above, ← named] at counts
    have rounds : k - 1 = k - 2 + 1 := by omega
    refine ⟨k - 1, candidates_le busy least, ?_⟩
    rw [rounds]
    exact .round busy counts
  · rw [distinct_of_free busy]
    exact ⟨0, Nat.zero_le _, .leave busy⟩

end

theorem search_ends_at_first_free (table : NameTable) (base : String) :
    let taken := table.taken.toFinset
    let name := (table.take base).1
    let later := (table.take base).2
    (∃ rounds ≤ taken.card, Loop table.taken base ⟨base, 2⟩ rounds name) ∧
    (∀ rounds other, Loop table.taken base ⟨base, 2⟩ rounds other → other = name) ∧
    (base ∉ taken → name = base) ∧
    (base ∈ taken → ∃ k, IsLeast {k | 2 ≤ k ∧ base ++ toString k ∉ taken} k ∧ name = base ++ toString k) ∧
    name ∉ taken ∧ later.taken.toFinset = insert name taken ∧
    later.vars = table.vars ∧ later.procedures = table.procedures ∧ later.helpers = table.helpers := by
  intro taken name later
  simp only [taken, List.mem_toFinset]
  obtain ⟨rounds, few, loop⟩ := loop_distinct table.taken base
  refine ⟨⟨rounds, few, loop⟩, fun _ other run => (run.unique loop).2, distinct_of_free, distinct_of_taken,
    distinct_free table.taken base, ?_, rfl, rfl, rfl⟩
  exact List.toFinset_cons

-- Two numbers are skipped, and the gap behind them is filled.
theorem gap_in_numbers_filled :
    let table : NameTable := ⟨["count", "count2", "count5", "count3", "total"], [], [], []⟩
    (table.take "count").1 = "count4" ∧
      (table.take "count").2.taken.toFinset = insert "count4" table.taken.toFinset ∧
      ∃ rounds ≤ 5, Loop table.taken "count" ⟨"count", 2⟩ rounds "count4" := by
  intro table
  obtain ⟨⟨rounds, few, loop⟩, _, _, _, _, added, _⟩ := search_ends_at_first_free table "count"
  have named : (table.take "count").1 = "count4" := by decide +kernel
  rw [named] at loop added
  exact ⟨named, added, rounds, few, loop⟩

end Blockwork.Python

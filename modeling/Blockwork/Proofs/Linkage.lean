import Mathlib
import Blockwork.Proofs.BlockShape

-- Links between blocks, with everything else about the blocks left out. A
-- wiring says of every id what the block there looks like to its neighbours.
namespace Blockwork

-- A block as its neighbours see it.
structure Stance where
  kind : Kind
  extent : Extent
  parent : Option ParentLink
  held : Place → Option BlockId

def Block.stance (block : Block) : Stance := ⟨block.kind, block.extent, block.parent, block.held⟩

-- A place takes blocks that connect as it asks, and of its type where both sides have
-- one.
def Stance.Accepts (s : Stance) (place : Place) (child : Stance) : Prop :=
  match place with
  | .input slot => child.kind.connection = .expression ∧
    ∀ expected found, s.kind.slot? s.extent slot = some (.input (some expected)) →
      child.kind.output = some found → expected = found
  | .body _ => child.kind.connection = .statement
  | .next => child.kind.connection = .statement ∧ s.kind.connection = .statement

abbrev Wiring := BlockId → Option Stance

namespace Wiring

inductive Climb (w : Wiring) : Nat → BlockId → BlockId → Prop where
  | here (id : BlockId) : Climb w 0 id id
  | up {n : Nat} {id top : BlockId} {s : Stance} {link : ParentLink} (found : w id = some s)
      (attached : s.parent = some link) (rest : Climb w n link.parent top) : Climb w (n + 1) id top

def Above (w : Wiring) (top id : BlockId) : Prop := ∃ n, w.Climb n id top

-- The rules of links. `rank` grows on the way down, so no way up is endless.
structure Linked (w : Wiring) (roots : List BlockId) : Prop where
  nodup : roots.Nodup
  rooted : ∀ id, id ∈ roots ↔ ∃ s, w id = some s ∧ s.parent = none
  down : ∀ id s place child, w id = some s → s.held place = some child →
    ∃ t, w child = some t ∧ t.parent = some ⟨id, place⟩ ∧ s.Accepts place t
  up : ∀ id s link, w id = some s → s.parent = some link →
    ∃ t, w link.parent = some t ∧ t.held link.place = some id
  grounded : ∃ rank : BlockId → Nat, ∀ id s link, w id = some s → s.parent = some link →
    rank link.parent < rank id

variable {w : Wiring} {roots : List BlockId}

theorem Above.refl (id : BlockId) : w.Above id id := ⟨0, .here id⟩

theorem Above.step {id top : BlockId} {s : Stance} {link : ParentLink} (found : w id = some s)
    (attached : s.parent = some link) (rest : w.Above top link.parent) : w.Above top id := by
  obtain ⟨n, climb⟩ := rest
  exact ⟨n + 1, .up found attached climb⟩

theorem Climb.append {m n : Nat} {low mid top : BlockId} (first : w.Climb m low mid)
    (second : w.Climb n mid top) : w.Climb (m + n) low top := by
  induction first with
  | here => simpa using second
  | up found attached _ ih =>
    have whole := ih second
    rw [Nat.add_right_comm]
    exact .up found attached whole

-- The last step of a way up: the block below the top hangs directly there.
theorem Climb.last {n : Nat} {low top : BlockId} (climb : w.Climb (n + 1) low top) :
    ∃ mid s place, w.Climb n low mid ∧ w mid = some s ∧ s.parent = some ⟨top, place⟩ := by
  induction n generalizing low with
  | zero =>
    cases climb with
    | @up _ _ _ s link found attached rest =>
      cases rest
      exact ⟨low, s, link.place, .here low, found, attached⟩
  | succ n ih =>
    cases climb with
    | up found attached rest =>
      obtain ⟨mid, s, place, lower, known, above⟩ := ih rest
      exact ⟨mid, s, place, .up found attached lower, known, above⟩

-- Only a root itself is above it, and what is above another block is above its parent.
theorem above_root {id top : BlockId} {s : Stance} (found : w id = some s) (free : s.parent = none) :
    w.Above top id ↔ id = top := by
  constructor
  · rintro ⟨n, climb⟩
    cases climb with
    | here => rfl
    | up known attached _ =>
      cases found.symm.trans known
      rw [free] at attached
      cases attached
  · rintro rfl
    exact .refl _

theorem above_parent {id top : BlockId} {s : Stance} {link : ParentLink} (found : w id = some s)
    (attached : s.parent = some link) (other : id ≠ top) :
    w.Above top id ↔ w.Above top link.parent := by
  refine ⟨?_, .step found attached⟩
  rintro ⟨n, climb⟩
  cases climb with
  | here => exact absurd rfl other
  | up known attached' rest =>
    cases found.symm.trans known
    cases attached.symm.trans attached'
    exact ⟨_, rest⟩

-- Of two blocks above a third one lies above the other.
theorem above_chain {id a b : BlockId} (first : w.Above a id) (second : w.Above b id) :
    w.Above a b ∨ w.Above b a := by
  obtain ⟨n, climb⟩ := first
  induction climb with
  | here id => exact .inr second
  | @up n id top s link found attached rest ih =>
    by_cases here : id = b
    · exact .inl (here ▸ ⟨n + 1, .up found attached rest⟩)
    · exact ih ((above_parent found attached here).mp second)

theorem Climb.rank_le {rank : BlockId → Nat} {n : Nat} {low top : BlockId}
    (grows : ∀ id s link, w id = some s → s.parent = some link → rank link.parent < rank id)
    (climb : w.Climb n low top) : rank top + n ≤ rank low := by
  induction climb with
  | here => simp
  | up found attached _ ih =>
    have step := grows _ _ _ found attached
    omega

namespace Linked

-- A block with a parent is held there, and nowhere else.
theorem single (linked : w.Linked roots) {p q child : BlockId} {s t : Stance} {a b : Place}
    (foundP : w p = some s) (first : s.held a = some child) (foundQ : w q = some t)
    (second : t.held b = some child) : p = q ∧ a = b := by
  obtain ⟨c, known, back, _⟩ := linked.down p s a child foundP first
  obtain ⟨c', known', back', _⟩ := linked.down q t b child foundQ second
  cases known.symm.trans known'
  cases back.symm.trans back'
  exact ⟨rfl, rfl⟩

theorem not_root_of_attached (linked : w.Linked roots) {id : BlockId} {s : Stance} {link : ParentLink}
    (found : w id = some s) (attached : s.parent = some link) : id ∉ roots := by
  intro listed
  obtain ⟨t, known, free⟩ := (linked.rooted id).mp listed
  cases found.symm.trans known
  rw [attached] at free
  cases free

theorem not_above_parent (linked : w.Linked roots) {id : BlockId} {s : Stance} {link : ParentLink}
    (found : w id = some s) (attached : s.parent = some link) : ¬w.Above id link.parent := by
  rintro ⟨n, climb⟩
  obtain ⟨rank, grows⟩ := linked.grounded
  have step := grows id s link found attached
  have bound := climb.rank_le grows
  omega

-- The order of the roots is free.
theorem perm (linked : w.Linked roots) {others : List BlockId} (same : roots.Perm others) :
    w.Linked others where
  nodup := same.nodup_iff.mp linked.nodup
  rooted id := same.mem_iff.symm.trans (linked.rooted id)
  down := linked.down
  up := linked.up
  grounded := linked.grounded

end Linked

def add (w : Wiring) (id : BlockId) (s : Stance) : Wiring := fun x => if x = id then some s else w x

theorem Linked.add (linked : w.Linked roots) {id : BlockId} {s : Stance} (new : w id = none)
    (free : s.parent = none) (bare : ∀ place, s.held place = none) :
    (w.add id s).Linked (roots ++ [id]) := by
  have old : ∀ x t, w x = some t → x ≠ id := by
    rintro x t found rfl
    rw [new] at found
    cases found
  have kept : ∀ x t, w x = some t → w.add id s x = some t := by
    intro x t found
    rw [Wiring.add, if_neg (old x t found), found]
  refine ⟨?_, ?_, ?_, ?_, ?_⟩
  · refine linked.nodup.append (by simp) ?_
    rw [List.disjoint_left]
    intro x listed last
    obtain ⟨t, found, _⟩ := (linked.rooted x).mp listed
    exact old x t found (List.mem_singleton.mp last)
  · intro x
    rw [List.mem_append, List.mem_singleton, linked.rooted x, Wiring.add]
    by_cases here : x = id
    · simp [here, free]
    · simp [here]
  · intro x t place child found holds
    unfold Wiring.add at found
    split at found
    · cases found
      rw [bare] at holds
      cases holds
    · obtain ⟨c, known, back⟩ := linked.down x t place child found holds
      exact ⟨c, kept child c known, back⟩
  · intro x t link found attached
    unfold Wiring.add at found
    split at found
    · cases found
      rw [free] at attached
      cases attached
    · obtain ⟨p, known, holds⟩ := linked.up x t link found attached
      exact ⟨p, kept _ p known, holds⟩
  · obtain ⟨rank, grows⟩ := linked.grounded
    refine ⟨rank, fun x t link found attached => ?_⟩
    unfold Wiring.add at found
    split at found
    · cases found
      rw [free] at attached
      cases attached
    · exact grows x t link found attached

def cut (w : Wiring) (gone : List BlockId) : Wiring := fun x => (w x).map fun s =>
  { s with
    parent := if x ∈ gone then none else s.parent
    held := fun place => (s.held place).filter (· ∉ gone) }

theorem cut_of_some {gone : List BlockId} {x : BlockId} {s : Stance} (found : w x = some s) :
    w.cut gone x = some { s with
      parent := if x ∈ gone then none else s.parent
      held := fun place => (s.held place).filter (· ∉ gone) } := by
  rw [cut, found]
  rfl

theorem cut_eq_some {gone : List BlockId} {x : BlockId} {t : Stance} (found : w.cut gone x = some t) :
    ∃ s, w x = some s ∧ t = { s with
      parent := if x ∈ gone then none else s.parent
      held := fun place => (s.held place).filter (· ∉ gone) } := by
  unfold cut at found
  obtain ⟨s, known, rfl⟩ := Option.map_eq_some_iff.mp found
  exact ⟨s, known, rfl⟩

theorem Climb.of_cut {gone : List BlockId} {n : Nat} {low top : BlockId}
    (climb : (w.cut gone).Climb n low top) : w.Climb n low top := by
  induction climb with
  | here id => exact .here id
  | @up n id top t link found above _ ih =>
    obtain ⟨s, known, rfl⟩ := cut_eq_some found
    by_cases lost : id ∈ gone
    · simp [lost] at above
    · exact .up known (by simpa [lost] using above) ih

theorem Linked.cut (linked : w.Linked roots) {gone : List BlockId} (distinct : gone.Nodup)
    (attached : ∀ x ∈ gone, ∃ s link, w x = some s ∧ s.parent = some link) :
    (w.cut gone).Linked (roots ++ gone) := by
  refine ⟨?_, ?_, ?_, ?_, ?_⟩
  · refine linked.nodup.append distinct ?_
    rw [List.disjoint_left]
    intro x listed lost
    obtain ⟨s, link, found, above⟩ := attached x lost
    exact linked.not_root_of_attached found above listed
  · intro x
    rw [List.mem_append, linked.rooted x]
    constructor
    · rintro (⟨s, found, free⟩ | lost)
      · exact ⟨_, cut_of_some found, by simp [free]⟩
      · obtain ⟨s, link, found, _⟩ := attached x lost
        exact ⟨_, cut_of_some found, by simp [lost]⟩
    · rintro ⟨t, found, free⟩
      obtain ⟨s, known, rfl⟩ := cut_eq_some found
      by_cases lost : x ∈ gone
      · exact .inr lost
      · exact .inl ⟨s, known, by simpa [lost] using free⟩
  · intro x t place child found holds
    obtain ⟨s, known, rfl⟩ := cut_eq_some found
    obtain ⟨held, kept⟩ := Option.filter_eq_some_iff.mp holds
    obtain ⟨c, below, back, accepts⟩ := linked.down x s place child known held
    have stays : child ∉ gone := by simpa using kept
    exact ⟨_, cut_of_some below, by simp [stays, back], accepts⟩
  · intro x t link found above
    obtain ⟨s, known, rfl⟩ := cut_eq_some found
    by_cases lost : x ∈ gone
    · simp [lost] at above
    · have above : s.parent = some link := by simpa [lost] using above
      obtain ⟨p, parent, holds⟩ := linked.up x s link known above
      exact ⟨_, cut_of_some parent, by simp [holds, lost]⟩
  · obtain ⟨rank, grows⟩ := linked.grounded
    refine ⟨rank, fun x t link found above => ?_⟩
    obtain ⟨s, known, rfl⟩ := cut_eq_some found
    by_cases lost : x ∈ gone
    · simp [lost] at above
    · exact grows x s link known (by simpa [lost] using above)

def hook (w : Wiring) (top : BlockId) (place : Place) (child : BlockId) : Wiring :=
  fun x => (w x).map fun s =>
    { s with
      parent := if x = child then some ⟨top, place⟩ else s.parent
      held := fun other => if x = top ∧ other = place then some child else s.held other }

theorem hook_of_some {top child x : BlockId} {place : Place} {s : Stance} (found : w x = some s) :
    w.hook top place child x = some { s with
      parent := if x = child then some ⟨top, place⟩ else s.parent
      held := fun other => if x = top ∧ other = place then some child else s.held other } := by
  rw [hook, found]
  rfl

theorem hook_eq_some {top child x : BlockId} {place : Place} {t : Stance}
    (found : w.hook top place child x = some t) :
    ∃ s, w x = some s ∧ t = { s with
      parent := if x = child then some ⟨top, place⟩ else s.parent
      held := fun other => if x = top ∧ other = place then some child else s.held other } := by
  unfold hook at found
  obtain ⟨s, known, rfl⟩ := Option.map_eq_some_iff.mp found
  exact ⟨s, known, rfl⟩

-- All that hangs below the child has to rank below its new parent; ranks there grow by a constant.
theorem Linked.hook_grounded (linked : w.Linked roots) {top child : BlockId} {place : Place}
    (apart : ¬w.Above child top) : ∃ rank : BlockId → Nat, ∀ id s link,
      w.hook top place child id = some s → s.parent = some link → rank link.parent < rank id := by
  classical
  obtain ⟨rank, grows⟩ := linked.grounded
  refine ⟨fun x => if w.Above child x then rank x + rank top + 1 else rank x, ?_⟩
  intro x t link found above
  obtain ⟨s, known, rfl⟩ := hook_eq_some found
  by_cases here : x = child
  · subst here
    simp only [if_true, Option.some.injEq] at above
    subst above
    simp only [apart, Above.refl, if_true, if_false]
    omega
  · have above : s.parent = some link := by simpa [here] using above
    have step := grows x s link known above
    by_cases below : w.Above child link.parent
    · simp only [below, Above.step known above below, if_true]
      omega
    · simp only [below, if_false]
      split <;> omega

theorem hook_kept {top child x : BlockId} {place : Place} {s : Stance} (found : w x = some s) :
    ∃ t, w.hook top place child x = some t ∧ t.kind = s.kind ∧ t.extent = s.extent ∧
      (x ≠ child → t.parent = s.parent) ∧ (x = child → t.parent = some ⟨top, place⟩) ∧
      (∀ other, (x, other) ≠ (top, place) → t.held other = s.held other) ∧
      (x = top → t.held place = some child) := by
  refine ⟨_, hook_of_some found, rfl, rfl, ?_, ?_, ?_, ?_⟩
  · intro other; simp [other]
  · intro here; simp [here]
  · intro other different
    simp only [ne_eq, Prod.mk.injEq] at different
    simp [different]
  · intro here; simp [here]

theorem Linked.free_unheld (linked : w.Linked roots) {child : BlockId} {t : Stance}
    (found : w child = some t) (free : t.parent = none) {x : BlockId} {s : Stance} (known : w x = some s)
    (place : Place) : s.held place ≠ some child := by
  intro holds
  obtain ⟨c, below, back, _⟩ := linked.down x s place child known holds
  cases found.symm.trans below
  rw [free] at back
  cases back

theorem Linked.hook (linked : w.Linked roots) {top child : BlockId} {place : Place} {s t : Stance}
    (foundTop : w top = some s) (empty : s.held place = none) (foundChild : w child = some t)
    (free : t.parent = none) (accepts : s.Accepts place t) (apart : ¬w.Above child top) :
    (w.hook top place child).Linked (roots.filter (· != child)) := by
  refine ⟨linked.nodup.filter _, ?_, ?_, ?_, linked.hook_grounded apart⟩
  · intro x
    rw [List.mem_filter, linked.rooted x, bne_iff_ne]
    constructor
    · rintro ⟨⟨u, known, loose⟩, other⟩
      obtain ⟨v, found, _, _, same, _⟩ := hook_kept known
      exact ⟨v, found, (same other).trans loose⟩
    · rintro ⟨v, found, loose⟩
      obtain ⟨u, known, rfl⟩ := hook_eq_some found
      by_cases here : x = child
      · simp [here] at loose
      · exact ⟨⟨u, known, by simpa [here] using loose⟩, here⟩
  · intro x v other c found holds
    obtain ⟨u, known, rfl⟩ := hook_eq_some found
    by_cases here : x = top ∧ other = place
    · obtain ⟨rfl, rfl⟩ := here
      have : c = child := by simpa using holds.symm
      subst this
      cases foundTop.symm.trans known
      obtain ⟨v, placed, kind, extent, _, back, _⟩ := hook_kept foundChild
      refine ⟨v, placed, back rfl, ?_⟩
      cases other <;> simp only [Stance.Accepts, kind] at accepts ⊢ <;> exact accepts
    · have holds : u.held other = some c := by simpa [here] using holds
      have different : c ≠ child := fun same =>
        linked.free_unheld foundChild free known other (same ▸ holds)
      obtain ⟨b, below, back, ok⟩ := linked.down x u other c known holds
      obtain ⟨v, placed, kind, extent, same, _⟩ := hook_kept below
      refine ⟨v, placed, (same different).trans back, ?_⟩
      cases other <;> simp only [Stance.Accepts, kind] at ok ⊢ <;> exact ok
  · intro x v link found above
    obtain ⟨u, known, rfl⟩ := hook_eq_some found
    by_cases here : x = child
    · subst here
      have : link = ⟨top, place⟩ := by simpa using above.symm
      subst this
      obtain ⟨v, placed, _, _, _, _, _, holds⟩ := hook_kept foundTop
      exact ⟨v, placed, holds rfl⟩
    · have above : u.parent = some link := by simpa [here] using above
      obtain ⟨b, parent, holds⟩ := linked.up x u link known above
      obtain ⟨v, placed, _, _, _, _, same, _⟩ := hook_kept parent
      refine ⟨v, placed, (same link.place ?_).trans holds⟩
      rintro ⟨rfl, rfl⟩
      cases foundTop.symm.trans parent
      rw [empty] at holds
      cases holds

def regrow (w : Wiring) (id : BlockId) (extent : Extent) : Wiring :=
  fun x => (w x).map fun s => { s with extent := if x = id then extent else s.extent }

theorem regrow_of_some {id x : BlockId} {extent : Extent} {s : Stance} (found : w x = some s) :
    w.regrow id extent x = some { s with extent := if x = id then extent else s.extent } := by
  rw [regrow, found]
  rfl

theorem regrow_eq_some {id x : BlockId} {extent : Extent} {t : Stance}
    (found : w.regrow id extent x = some t) :
    ∃ s, w x = some s ∧ t = { s with extent := if x = id then extent else s.extent } := by
  unfold regrow at found
  obtain ⟨s, known, rfl⟩ := Option.map_eq_some_iff.mp found
  exact ⟨s, known, rfl⟩

-- Inputs that hold something must not ask for a type that they did not ask for before.
theorem Linked.regrow (linked : w.Linked roots) {id : BlockId} {extent : Extent}
    (typed : ∀ s slot child expected, w id = some s → s.held (.input slot) = some child →
      s.kind.slot? extent slot = some (.input (some expected)) →
      s.kind.slot? s.extent slot = some (.input (some expected))) :
    (w.regrow id extent).Linked roots := by
  refine ⟨linked.nodup, ?_, ?_, ?_, ?_⟩
  · intro x
    rw [linked.rooted x]
    constructor
    · rintro ⟨s, found, free⟩
      exact ⟨_, regrow_of_some found, free⟩
    · rintro ⟨t, found, free⟩
      obtain ⟨s, known, rfl⟩ := regrow_eq_some found
      exact ⟨s, known, free⟩
  · intro x t place child found holds
    obtain ⟨s, known, rfl⟩ := regrow_eq_some found
    obtain ⟨c, below, back, accepts⟩ := linked.down x s place child known holds
    refine ⟨_, regrow_of_some below, back, ?_⟩
    cases place with
    | input slot =>
      refine ⟨accepts.1, fun expected yields asked given => ?_⟩
      refine accepts.2 expected yields ?_ given
      by_cases here : x = id
      · subst here
        exact typed s slot child expected known holds (by simpa using asked)
      · simpa [here] using asked
    | body slot => exact accepts
    | next => exact accepts
  · intro x t link found above
    obtain ⟨s, known, rfl⟩ := regrow_eq_some found
    obtain ⟨p, parent, holds⟩ := linked.up x s link known above
    exact ⟨_, regrow_of_some parent, holds⟩
  · obtain ⟨rank, grows⟩ := linked.grounded
    refine ⟨rank, fun x t link found above => ?_⟩
    obtain ⟨s, known, rfl⟩ := regrow_eq_some found
    exact grows x s link known above

def drop (w : Wiring) (gone : List BlockId) : Wiring := fun x => if x ∈ gone then none else w x

theorem drop_eq_some {gone : List BlockId} {x : BlockId} {s : Stance} :
    w.drop gone x = some s ↔ x ∉ gone ∧ w x = some s := by
  unfold drop
  split <;> simp_all

-- What goes has to be whole trees.
theorem Linked.drop (linked : w.Linked roots) {gone : List BlockId}
    (whole : ∀ x s link, w x = some s → s.parent = some link → (x ∈ gone ↔ link.parent ∈ gone)) :
    (w.drop gone).Linked (roots.filter (· ∉ gone)) := by
  refine ⟨linked.nodup.filter _, ?_, ?_, ?_, ?_⟩
  · intro x
    rw [List.mem_filter, linked.rooted x]
    simp only [drop_eq_some, decide_eq_true_eq]
    constructor
    · rintro ⟨⟨s, found, free⟩, stays⟩
      exact ⟨s, ⟨stays, found⟩, free⟩
    · rintro ⟨s, ⟨stays, found⟩, free⟩
      exact ⟨⟨s, found, free⟩, stays⟩
  · intro x s place child found holds
    obtain ⟨stays, known⟩ := drop_eq_some.mp found
    obtain ⟨c, below, back, accepts⟩ := linked.down x s place child known holds
    have kept : child ∉ gone := fun lost => stays ((whole child c _ below back).mp lost)
    exact ⟨c, drop_eq_some.mpr ⟨kept, below⟩, back, accepts⟩
  · intro x s link found above
    obtain ⟨stays, known⟩ := drop_eq_some.mp found
    obtain ⟨p, parent, holds⟩ := linked.up x s link known above
    have kept : link.parent ∉ gone := fun lost => stays ((whole x s link known above).mpr lost)
    exact ⟨p, drop_eq_some.mpr ⟨kept, parent⟩, holds⟩
  · obtain ⟨rank, grows⟩ := linked.grounded
    exact ⟨rank, fun x s link found above => grows x s link (drop_eq_some.mp found).2 above⟩

end Wiring
end Blockwork

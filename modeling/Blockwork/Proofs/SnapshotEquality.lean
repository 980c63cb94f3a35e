import Mathlib
import Blockwork.Proofs.NumericEquality

-- Equality of saved forms, with numbers compared as numbers, and that equal
-- graphs have equal forms.
namespace Blockwork

namespace Json

def Number.equals : Number → Number → Bool
  | .integer a, .integer b => a == b
  | .real a, .real b => a.equals b
  | _, _ => false

mutual

def equals : Json → Json → Bool
  | .null, .null => true
  | .bool a, .bool b => a == b
  | .number a, .number b => a.equals b
  | .text a, .text b => a == b
  | .array as, .array bs => equalItems as bs
  | .object as, .object bs => equalMembers as bs
  | _, _ => false
termination_by structural x => x

def equalItems : List Json → List Json → Bool
  | [], [] => true
  | a :: as, b :: bs => equals a b && equalItems as bs
  | _, _ => false

def equalMembers : List (String × Json) → List (String × Json) → Bool
  | [], [] => true
  | (k, a) :: as, (l, b) :: bs => k == l && equals a b && equalMembers as bs
  | _, _ => false

end

end Json

namespace Snapshot

deriving instance DecidableEq for SavedParam, ExtraState, SavedVariable, SavedProcedure

def sameCoordinate : Option Double → Option Double → Bool
  | none, none => true
  | some a, some b => a.equals b
  | _, _ => false

def SavedRecord.equals (a b : SavedRecord) : Bool :=
  a.kind == b.kind && a.id == b.id && sameCoordinate a.x b.x && sameCoordinate a.y b.y
    && a.fields.agrees Json.equals b.fields && decide (a.extra = b.extra)

mutual

def SavedBlock.equals : SavedBlock → SavedBlock → Bool
  | .mk a inputs next, .mk b inputs' next' =>
    a.equals b && equalInputs inputs inputs' && equalNext next next'
termination_by structural x => x

def equalInputs : List (String × Connected SavedBlock) → List (String × Connected SavedBlock) → Bool
  | [], [] => true
  | (name, ⟨block, shadow⟩) :: rest, (name', ⟨block', shadow'⟩) :: rest' =>
    name == name' && equalChild block block' && equalChild shadow shadow' && equalInputs rest rest'
  | _, _ => false

def equalNext : Option (Connected SavedBlock) → Option (Connected SavedBlock) → Bool
  | none, none => true
  | some ⟨block, shadow⟩, some ⟨block', shadow'⟩ => equalChild block block' && equalChild shadow shadow'
  | _, _ => false

def equalChild : Option SavedBlock → Option SavedBlock → Bool
  | none, none => true
  | some a, some b => a.equals b
  | _, _ => false

end

def equalBlocks : List SavedBlock → List SavedBlock → Bool
  | [], [] => true
  | a :: as, b :: bs => a.equals b && equalBlocks as bs
  | _, _ => false

def Form.equals (a b : Form) : Bool :=
  a.languageVersion == b.languageVersion && equalBlocks a.blocks b.blocks
    && decide (a.vars = b.vars) && decide (a.procedures = b.procedures)

-- Equality of what hangs at a place.
def Connected.equals (a b : Connected SavedBlock) : Bool :=
  equalChild a.block b.block && equalChild a.shadow b.shadow

theorem equalInputs_iff {xs ys : List (String × Connected SavedBlock)} :
    equalInputs xs ys = true ↔ List.Forall₂ (Dict.Paired Connected.equals) xs ys := by
  induction xs generalizing ys with
  | nil => cases ys <;> simp [equalInputs]
  | cons x xs ih =>
    cases ys with
    | nil => simp [equalInputs]
    | cons y ys =>
      obtain ⟨name, block, shadow⟩ := x
      obtain ⟨name', block', shadow'⟩ := y
      simp [equalInputs, Dict.Paired, Connected.equals, ih, and_assoc]

theorem equalBlocks_iff {as bs : List SavedBlock} :
    equalBlocks as bs = true ↔ List.Forall₂ (fun a b => a.equals b = true) as bs := by
  induction as generalizing bs with
  | nil => cases bs <;> simp [equalBlocks]
  | cons a as ih => cases bs <;> simp [equalBlocks, ih]

theorem numberJson_equals {x y : Double} (same : x.equals y = true) :
    (numberJson x).equals (numberJson y) = true := by
  cases x with
  | nan => cases same
  | infinite negative =>
    cases y with
    | infinite negative' =>
      obtain rfl : negative = negative' := by simpa [Double.equals] using same
      cases negative <;> rfl
    | _ => cases same
  | finite negative rank =>
    cases y with
    | finite negative' rank' => exact same
    | _ => cases same

theorem fieldJson?_equals {v w : FieldValue} (same : v.equals w = true) :
    Option.Rel (fun a b => Json.equals a b = true) (fieldJson? v) (fieldJson? w) := by
  rcases FieldValue.equals_cases same with rfl | ⟨x, y, rfl, rfl, number⟩
  · cases v with
    | number x => exact .some (numberJson_equals same)
    | empty => exact .none
    | _ => exact .some (by simp [Json.equals, Json.equalMembers, reference])
  · exact .some (numberJson_equals number)

section

variable {a b : Block} (same : a.equals b = true)

include same

theorem extraState?_equals : extraState? a = extraState? b := by
  rw [extraState?, extraState?, Block.equals_kind same, Block.equals_extent same]

theorem captureRecord_equals : (captureRecord a).equals (captureRecord b) = true := by
  obtain ⟨place, fields, _⟩ := Block.equals_iff.mp same
  have coordinates : sameCoordinate (captureRecord a).x (captureRecord b).x = true ∧
      sameCoordinate (captureRecord a).y (captureRecord b).y = true := by
    unfold captureRecord
    generalize a.position = p, b.position = q at place
    cases place with
    | none => exact ⟨rfl, rfl⟩
    | some here => exact here
  have saved : (captureRecord a).fields.agrees Json.equals (captureRecord b).fields = true := by
    rw [Dict.agrees_iff]
    refine Dict.paired_ofList (List.rel_filterMap ?_ (Dict.agrees_iff.mp fields))
    rintro ⟨name, v⟩ ⟨_, w⟩ ⟨rfl, value⟩
    have related := fieldJson?_equals value
    dsimp only
    generalize fieldJson? v = json, fieldJson? w = json' at related
    cases related with
    | none => exact .none
    | some equal => exact .some ⟨rfl, equal⟩
  rw [SavedRecord.equals, coordinates.1, coordinates.2, saved]
  simp [captureRecord, Block.equals_kind same, Block.equals_id same, extraState?_equals same]

end

variable {g h : Graph}

theorem captureBranches_equals {ps qs : List (Place × Tree)}
    (paired : List.Forall₂ (fun p q => p.1 = q.1 ∧ (captureTree p.2).equals (captureTree q.2) = true) ps qs) :
    List.Forall₂ (Dict.Paired Connected.equals) (captureInputs ps) (captureInputs qs) ∧
      equalNext (captureNext ps) (captureNext qs) = true := by
  induction paired with
  | nil => exact ⟨.nil, rfl⟩
  | @cons p q _ _ head _ ih =>
    obtain ⟨place, s⟩ := p
    obtain ⟨_, t⟩ := q
    obtain ⟨rfl, equal⟩ := head
    have child : (⟨some (captureTree s), none⟩ : Connected SavedBlock).equals ⟨some (captureTree t), none⟩
        = true := by simpa [Connected.equals, equalChild] using equal
    cases place with
    | next => exact ⟨ih.1, child⟩
    | input slot => exact ⟨.cons ⟨rfl, child⟩ ih.1, ih.2⟩
    | body slot => exact ⟨.cons ⟨rfl, child⟩ ih.1, ih.2⟩

theorem captureTree_equals (same : g.equals h = true) {depth : Nat} {s t : Tree}
    (alike : Graph.GrewAlike g h depth s t) : (captureTree s).equals (captureTree t) = true := by
  obtain ⟨a, b, equal, rfl, rfl⟩ := alike
  induction depth generalizing a b with
  | zero => simp [Graph.treeTo, captureTree, SavedBlock.equals, captureRecord_equals equal,
      captureInputs, captureNext, Dict.ofList, Dict.empty, equalInputs, equalNext]
  | succ depth ih =>
    have below : List.Forall₂ (fun p q => p.1 = q.1 ∧ (captureTree p.2).equals (captureTree q.2) = true)
        (g.branchesTo depth a) (h.branchesTo depth b) := by
      refine (Graph.equals_branches same equal depth).imp ?_
      rintro ⟨place, s⟩ ⟨_, t⟩ ⟨rfl, a, b, equal, rfl, rfl⟩
      exact ⟨rfl, ih a b equal⟩
    obtain ⟨inputs, next⟩ := captureBranches_equals below
    show SavedBlock.equals (captureTree (.node a (g.branchesTo depth a)))
      (captureTree (.node b (h.branchesTo depth b))) = true
    simp only [captureTree, SavedBlock.equals, captureRecord_equals equal,
      equalInputs_iff.mpr (Dict.paired_ofList inputs), next, Bool.and_self]

theorem capture_equals (same : g.equals h = true) : (capture g).equals (capture h) = true := by
  obtain ⟨_, _, vars, procedures⟩ := Graph.equals_iff.mp same
  have blocks : equalBlocks (capture g).blocks (capture h).blocks = true :=
    equalBlocks_iff.mpr
      (List.rel_map (fun s t alike => captureTree_equals (s := s) (t := t) same alike)
        (Graph.equals_forest same))
  rw [Form.equals, blocks]
  simp [capture, vars, procedures]

end Snapshot
end Blockwork

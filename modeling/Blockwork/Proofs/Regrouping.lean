import Mathlib
import Blockwork.Proofs.Grammar

-- Sums and logical chains may come back from their text grouped in another way:
-- from the left. Nothing else changes.
namespace Blockwork.Python

def isIdentifier (id : String) : Bool :=
  match id.toList with
  | [] => false
  | c :: rest => isNameChar c && !c.isDigit && rest.all isNameChar && !keywords.contains id

-- Names are names and numerals are numerals, and a numeral has no members: its text
-- would run into theirs.
inductive Expr.Legible : Expr → Prop where
  | name {id} (proper : isIdentifier id = true ∨ id ∈ constants) : Legible (.name id)
  | numeral {digits} (proper : isNumeral digits.toList = true) : Legible (.numeral digits)
  | text (value) : Legible (.text value)
  | list {items} (each : ∀ e ∈ items, Legible e) : Legible (.list items)
  | call {function args} (caller : Legible function) (each : ∀ e ∈ args, Legible e) :
    Legible (.call function args)
  | member {object member} (owner : Legible object) (solid : ∀ digits, object ≠ .numeral digits)
    (proper : isIdentifier member = true) : Legible (.attribute object member)
  | item {object position} (owner : Legible object) (index : Legible position) :
    Legible (.item object position)
  | opposite {operand} (inner : Legible operand) : Legible (.opposite operand)
  | negation {operand} (inner : Legible operand) : Legible (.negation operand)
  | binary {operator left right} (first : Legible left) (second : Legible right) :
    Legible (.binary operator left right)
  | conditional {value condition otherwise} (first : Legible value) (second : Legible condition)
    (third : Legible otherwise) : Legible (.conditional value condition otherwise)

-- Operators that may take over the left operand of another one on their right.
def Operator.absorbs : Operator → Operator → Bool
  | .add, .add | .add, .subtract | .both, .both | .either, .either => true
  | _, _ => false

namespace Expr

def graft (op : Operator) (left : Expr) : Expr → Expr
  | .binary op' a b =>
    if op.absorbs op' then .binary op' (graft op left a) b else .binary op left (.binary op' a b)
  | e => .binary op left e

mutual

def regroup : Expr → Expr
  | .list items => .list (regroupAll items)
  | .call function args => .call function.regroup (regroupAll args)
  | .attribute object member => .attribute object.regroup member
  | .item object position => .item object.regroup position.regroup
  | .opposite operand => .opposite operand.regroup
  | .negation operand => .negation operand.regroup
  | .binary op left right => graft op left.regroup right.regroup
  | .conditional value condition otherwise =>
    .conditional value.regroup condition.regroup otherwise.regroup
  | e => e

def regroupAll : List Expr → List Expr
  | [] => []
  | e :: rest => e.regroup :: regroupAll rest

end

-- The same expression up to the grouping of sums and logical chains. These four ways to
-- regroup are all there are.
inductive Regroups : Expr → Expr → Prop where
  | refl (e) : Regroups e e
  | trans {a b c} (first : Regroups a b) (second : Regroups b c) : Regroups a c
  | plus (a b c) : Regroups (.binary .add a (.binary .add b c)) (.binary .add (.binary .add a b) c)
  | minus (a b c) :
    Regroups (.binary .add a (.binary .subtract b c)) (.binary .subtract (.binary .add a b) c)
  | both (a b c) : Regroups (.binary .both a (.binary .both b c)) (.binary .both (.binary .both a b) c)
  | either (a b c) :
    Regroups (.binary .either a (.binary .either b c)) (.binary .either (.binary .either a b) c)
  | list {as bs} (each : List.Forall₂ Regroups as bs) : Regroups (.list as) (.list bs)
  | call {f g as bs} (caller : Regroups f g) (each : List.Forall₂ Regroups as bs) :
    Regroups (.call f as) (.call g bs)
  | attribute {a b} (owner : Regroups a b) (member) : Regroups (.attribute a member) (.attribute b member)
  | item {a b p q} (owner : Regroups a b) (index : Regroups p q) : Regroups (.item a p) (.item b q)
  | opposite {a b} (inner : Regroups a b) : Regroups (.opposite a) (.opposite b)
  | negation {a b} (inner : Regroups a b) : Regroups (.negation a) (.negation b)
  | binary {a b c d} (op) (first : Regroups a c) (second : Regroups b d) :
    Regroups (.binary op a b) (.binary op c d)
  | conditional {a b c d e f} (first : Regroups a d) (second : Regroups b e) (third : Regroups c f) :
    Regroups (.conditional a b c) (.conditional d e f)

theorem Regroups.absorb {op op' : Operator} (absorbs : op.absorbs op' = true) (a b c : Expr) :
    Regroups (.binary op a (.binary op' b c)) (.binary op' (.binary op a b) c) := by
  cases op <;> cases op' <;> cases absorbs
  · exact .plus a b c
  · exact .minus a b c
  · exact .both a b c
  · exact .either a b c

theorem regroups_graft (op : Operator) (left : Expr) : (e : Expr) →
    Regroups (.binary op left e) (graft op left e)
  | .binary op' a b => by
    rw [graft]
    split
    · next absorbs =>
      exact .trans (.absorb absorbs left a b) (.binary op' (regroups_graft op left a) (.refl b))
    · exact .refl _
  | .name _ | .numeral _ | .text _ | .list _ | .call .. | .attribute .. | .item .. | .opposite _
  | .negation _ | .conditional .. => .refl _

mutual

theorem regroups_regroup : (e : Expr) → Regroups e e.regroup
  | .list items => by
    rw [regroup]
    exact .list (regroups_regroupAll items)
  | .call function args => by
    rw [regroup]
    exact .call (regroups_regroup function) (regroups_regroupAll args)
  | .attribute object member => by
    rw [regroup]
    exact .attribute (regroups_regroup object) member
  | .item object position => by
    rw [regroup]
    exact .item (regroups_regroup object) (regroups_regroup position)
  | .opposite operand => by
    rw [regroup]
    exact .opposite (regroups_regroup operand)
  | .negation operand => by
    rw [regroup]
    exact .negation (regroups_regroup operand)
  | .binary op left right => by
    rw [regroup]
    exact .trans (.binary op (regroups_regroup left) (regroups_regroup right)) (regroups_graft op _ _)
  | .conditional value condition otherwise => by
    rw [regroup]
    exact .conditional (regroups_regroup value) (regroups_regroup condition)
      (regroups_regroup otherwise)
  | .name id => by
    rw [regroup]
    · exact .refl _
    all_goals simp
  | .numeral digits => by
    rw [regroup]
    · exact .refl _
    all_goals simp
  | .text value => by
    rw [regroup]
    · exact .refl _
    all_goals simp

theorem regroups_regroupAll : (items : List Expr) → List.Forall₂ Regroups items (regroupAll items)
  | [] => by
    rw [regroupAll]
    exact .nil
  | e :: rest => by
    rw [regroupAll]
    exact .cons (regroups_regroup e) (regroups_regroupAll rest)

end

theorem order_graft (op : Operator) (left : Expr) : (e : Expr) → (graft op left e).order = op.order
  | .binary op' a b => by
    rw [graft]
    split
    · next absorbs =>
      show op'.order = op.order
      cases op <;> cases op' <;> first | rfl | cases absorbs
    · rfl
  | .name _ | .numeral _ | .text _ | .list _ | .call .. | .attribute .. | .item .. | .opposite _
  | .negation _ | .conditional .. => rfl

theorem order_regroup (e : Expr) : e.regroup.order = e.order := by
  cases e with
  | binary op left right =>
    rw [regroup]
    exact order_graft op _ _
  | _ => simp [regroup, order]

-- An operator leaves alone what does not bind as tightly as itself, and everything if it is strict.
theorem graft_apart {op : Operator} {e : Expr} (left : Expr)
    (apart : e.order.rank ≠ op.order.rank ∨ op.right = .strict) :
    graft op left e = .binary op left e := by
  cases e with
  | binary op' a b =>
    have apart : op'.order.rank ≠ op.order.rank ∨ op.right = .strict := apart
    have other : op.absorbs op' = false := by
      rcases apart with different | strict
      · cases op <;> cases op' <;> first | rfl | exact absurd rfl different
      · cases op <;> first | rfl | cases strict
    simp [graft, other]
  | _ => rfl

theorem graft_graft {outer op : Operator} (absorbs : outer.absorbs op = true) (left middle : Expr) :
    (e : Expr) → graft outer left (graft op middle e) = graft op (graft outer left middle) e
  | .binary op' a b => by
    by_cases inner : op.absorbs op' = true
    · have through : outer.absorbs op' = true := by
        cases outer <;> cases op <;> cases absorbs <;> cases op' <;> first | rfl | cases inner
      rw [graft, if_pos inner, graft, if_pos through, graft_graft absorbs left middle a, graft,
        if_pos inner]
    · rw [graft, if_neg inner, graft, if_pos absorbs, graft, if_neg inner]
  | .name _ | .numeral _ | .text _ | .list _ | .call .. | .attribute .. | .item .. | .opposite _
  | .negation _ | .conditional .. => by
    simp [graft, absorbs]

end Expr
end Blockwork.Python

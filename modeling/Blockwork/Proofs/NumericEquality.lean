import Mathlib
import Blockwork.Proofs.RoundTrip

-- Graphs that are equal as far as their numbers can tell. They may differ in the
-- sign of a zero and in nothing else, and no program shows that sign.
namespace Blockwork

theorem Double.equals_trans {a b c : Double} (first : a.equals b = true) (second : b.equals c = true) :
    a.equals c = true := by
  cases a <;> cases b <;> cases c <;> simp only [equals, Bool.false_eq_true] at first second ⊢
  · rw [beq_iff_eq] at first second ⊢
    exact first.trans second
  · simp only [Bool.and_eq_true, beq_iff_eq, Bool.or_eq_true] at first second ⊢
    obtain ⟨rfl, left⟩ := first
    obtain ⟨rfl, right⟩ := second
    refine ⟨rfl, ?_⟩
    rcases left with rfl | zero
    · exact right
    · exact .inr zero

theorem Double.equals_finite {a b : Double} (same : a.equals b = true) : a.isFinite = b.isFinite := by
  cases a <;> cases b <;> first | rfl | cases same

namespace Dict

variable {α : Type} {same : α → α → Bool}

-- Entries with one key, and values that are taken for the same.
def Paired (same : α → α → Bool) (x y : String × α) : Prop := x.1 = y.1 ∧ same x.2 y.2 = true

theorem agreeing_iff {xs ys : List (String × α)} :
    agreeing same xs ys = true ↔ List.Forall₂ (Paired same) xs ys := by
  induction xs generalizing ys with
  | nil => cases ys <;> simp [agreeing]
  | cons x xs ih => cases ys <;> simp [agreeing, Paired, ih]

theorem agrees_iff {d e : Dict α} :
    d.agrees same e = true ↔ List.Forall₂ (Paired same) d.entries e.entries := agreeing_iff

theorem agrees_trans {c d e : Dict α} (first : c.agrees same d = true)
    (second : d.agrees same e = true)
    (trans : ∀ {u v w}, same u v = true → same v w = true → same u w = true) :
    c.agrees same e = true := by
  rw [agrees_iff] at *
  generalize c.entries = xs, d.entries = ys, e.entries = zs at *
  induction first generalizing zs with
  | nil => exact second
  | cons head _ ih =>
    obtain ⟨z, zs, head', rest, rfl⟩ := List.forall₂_cons_left_iff.mp second
    exact .cons ⟨head.1.trans head'.1, trans head.2 head'.2⟩ (ih zs rest)

theorem agrees_get? {d e : Dict α} (agree : d.agrees same e = true) (key : String) :
    Option.Rel (fun a b => same a b = true) (d.get? key) (e.get? key) := by
  rw [agrees_iff] at agree
  unfold get?
  generalize d.entries = xs, e.entries = ys at *
  induction agree with
  | nil => exact .none
  | @cons x y _ _ head _ ih =>
    obtain ⟨k, v⟩ := x
    obtain ⟨k', v'⟩ := y
    obtain ⟨rfl, value⟩ := head
    rw [lookup_cons_eq, lookup_cons_eq]
    split
    · exact .some value
    · exact ih

-- Dictionaries that are built alike from entries that correspond.
theorem forall₂_place {β : Type} {R : α → β → Prop} {xs : List (String × α)} {ys : List (String × β)}
    (paired : List.Forall₂ (fun x y => x.1 = y.1 ∧ R x.2 y.2) xs ys) (key : String) {a : α} {b : β}
    (value : R a b) :
    List.Forall₂ (fun x y => x.1 = y.1 ∧ R x.2 y.2) (place key a xs) (place key b ys) := by
  have new : (key, a).1 = (key, b).1 ∧ R (key, a).2 (key, b).2 := ⟨rfl, value⟩
  induction paired with
  | nil => exact .cons new .nil
  | @cons x y _ _ head rest ih =>
    obtain ⟨k, v⟩ := x
    obtain ⟨k', v'⟩ := y
    obtain ⟨rfl, held⟩ := head
    simp only [place]
    split
    · exact .cons new (.cons ⟨rfl, held⟩ rest)
    · split
      · exact .cons new rest
      · exact .cons ⟨rfl, held⟩ ih

theorem forall₂_ofList {β : Type} {R : α → β → Prop} {xs : List (String × α)} {ys : List (String × β)}
    (paired : List.Forall₂ (fun x y => x.1 = y.1 ∧ R x.2 y.2) xs ys) :
    List.Forall₂ (fun x y => x.1 = y.1 ∧ R x.2 y.2) (ofList xs).entries (ofList ys).entries := by
  have start : List.Forall₂ (fun x y => x.1 = y.1 ∧ R x.2 y.2) (empty : Dict α).entries
      (empty : Dict β).entries := .nil
  refine List.rel_foldl (P := fun (d : Dict α) (e : Dict β) =>
    List.Forall₂ (fun x y => x.1 = y.1 ∧ R x.2 y.2) d.entries e.entries) ?_ start paired
  rintro d e start ⟨k, v⟩ ⟨k', v'⟩ ⟨rfl, value⟩
  exact forall₂_place start k value

theorem paired_ofList {xs ys : List (String × α)} (paired : List.Forall₂ (Paired same) xs ys) :
    List.Forall₂ (Paired same) (ofList xs).entries (ofList ys).entries :=
  forall₂_ofList (R := fun a b => same a b = true) paired

end Dict

theorem FieldValue.equals_cases {v w : FieldValue} (same : v.equals w = true) :
    v = w ∨ ∃ a b, v = .number a ∧ w = .number b ∧ a.equals b = true := by
  unfold equals at same
  split at same
  · exact .inr ⟨_, _, rfl, rfl, same⟩
  · exact .inl (of_decide_eq_true same)

theorem FieldValue.equals_trans {u v w : FieldValue} (first : u.equals v = true)
    (second : v.equals w = true) : u.equals w = true := by
  rcases equals_cases first with rfl | ⟨a, b, rfl, rfl, left⟩
  · exact second
  · rcases equals_cases second with rfl | ⟨b', c, same, rfl, right⟩
    · exact first
    · cases same
      exact Double.equals_trans left right

namespace Block

-- A block without its numbers.
def bare (block : Block) : Block := { block with position := none, fields := .empty }

theorem equals_iff {a b : Block} : a.equals b = true ↔
    Option.Rel (fun p q : Position => p.x.equals q.x = true ∧ p.y.equals q.y = true)
      a.position b.position ∧
    a.fields.agrees FieldValue.equals b.fields = true ∧ a.bare = b.bare := by
  unfold equals bare
  cases a.position <;> cases b.position <;> simp [and_assoc]

theorem equals_trans {a b c : Block} (first : a.equals b = true) (second : b.equals c = true) :
    a.equals c = true := by
  rw [equals_iff] at *
  obtain ⟨place, fields, rest⟩ := first
  obtain ⟨place', fields', rest'⟩ := second
  refine ⟨?_, Dict.agrees_trans fields fields' FieldValue.equals_trans, rest.trans rest'⟩
  generalize a.position = p, b.position = q, c.position = r at *
  cases place with
  | none => exact place'
  | some here =>
    cases place' with
    | some there =>
      exact .some ⟨Double.equals_trans here.1 there.1, Double.equals_trans here.2 there.2⟩

section

variable {a b : Block} (same : a.equals b = true)

include same

theorem equals_bare : a.bare = b.bare := (equals_iff.mp same).2.2

theorem equals_id : a.id = b.id := congrArg (·.id) (equals_bare same)

theorem equals_kind : a.kind = b.kind := congrArg (·.kind) (equals_bare same)

theorem equals_extent : a.extent = b.extent := congrArg (·.extent) (equals_bare same)

theorem equals_links : a.links = b.links := by
  have bare := equals_bare same
  have links : ∀ block : Block, block.links = block.bare.links := fun _ => rfl
  rw [links a, links b, bare]

-- A field holds the same on both sides, or a number on either.
theorem equals_field (name : String) : a.fields.get? name = b.fields.get? name ∨
    ∃ x y : Double, a.fields.get? name = some (.number x) ∧ b.fields.get? name = some (.number y) ∧
      x.equals y = true := by
  have related := Dict.agrees_get? (equals_iff.mp same).2.1 name
  generalize a.fields.get? name = v, b.fields.get? name = w at *
  cases related with
  | none => exact .inl rfl
  | some held =>
    rcases FieldValue.equals_cases held with rfl | ⟨x, y, rfl, rfl, number⟩
    · exact .inl rfl
    · exact .inr ⟨x, y, rfl, rfl, number⟩

theorem equals_variableIn? (name : String) : a.variableIn? name = b.variableIn? name := by
  unfold variableIn?
  obtain equal | ⟨x, y, left, right, _⟩ := equals_field same name
  · rw [equal]
  · rw [left, right]

theorem equals_procedureIn? (name : String) : a.procedureIn? name = b.procedureIn? name := by
  unfold procedureIn?
  obtain equal | ⟨x, y, left, right, _⟩ := equals_field same name
  · rw [equal]
  · rw [left, right]

theorem equals_choiceIn? (name : String) : a.choiceIn? name = b.choiceIn? name := by
  unfold choiceIn?
  obtain equal | ⟨x, y, left, right, _⟩ := equals_field same name
  · rw [equal]
  · rw [left, right]

end
end Block

namespace Graph

variable {f g h : Graph}

theorem equals_iff : g.equals h = true ↔ g.blocks.agrees Block.equals h.blocks = true ∧
    g.roots = h.roots ∧ g.vars = h.vars ∧ g.procedures = h.procedures := by
  simp [equals, and_assoc]

theorem equals_trans (first : f.equals g = true) (second : g.equals h = true) :
    f.equals h = true := by
  rw [equals_iff] at *
  exact ⟨Dict.agrees_trans first.1 second.1 Block.equals_trans,
    first.2.1.trans second.2.1, first.2.2.1.trans second.2.2.1, first.2.2.2.trans second.2.2.2⟩

theorem equals_block? (same : g.equals h = true) (id : BlockId) :
    Option.Rel (fun a b => a.equals b = true) (g.block? id) (h.block? id) :=
  Dict.agrees_get? (equals_iff.mp same).1 id.text

theorem equals_size (same : g.equals h = true) : g.size = h.size :=
  (Dict.agrees_iff.mp (equals_iff.mp same).1).length_eq

-- Trees that grew alike from equal blocks.
def GrewAlike (g h : Graph) (depth : Nat) (s t : Tree) : Prop :=
  ∃ a b : Block, a.equals b = true ∧ s = g.treeTo depth a ∧ t = h.treeTo depth b

theorem equals_branches (same : g.equals h = true) {a b : Block} (alike : a.equals b = true) (depth : Nat) :
    List.Forall₂ (fun p q => p.1 = q.1 ∧ GrewAlike g h depth p.2 q.2)
      (g.branchesTo depth a) (h.branchesTo depth b) := by
  unfold branchesTo
  rw [Block.equals_links alike]
  refine List.rel_filterMap (R := (· = ·)) ?_ (List.forall₂_refl _)
  rintro ⟨place, child⟩ _ rfl
  have related := equals_block? same child
  dsimp only
  generalize g.block? child = found, h.block? child = found' at *
  cases related with
  | none => exact .none
  | some below => exact .some ⟨rfl, _, _, below, rfl, rfl⟩

theorem equals_forest (same : g.equals h = true) :
    List.Forall₂ (GrewAlike g h g.size) g.forest h.forest := by
  unfold forest
  rw [(equals_iff.mp same).2.1]
  refine List.rel_filterMap (R := (· = ·)) ?_ (List.forall₂_refl _)
  rintro id _ rfl
  have related := equals_block? same id
  unfold tree?
  generalize g.block? id = found, h.block? id = found' at *
  cases related with
  | none => exact .none
  | some top => exact .some ⟨_, _, top, rfl, by rw [tree, ← equals_size same]⟩

end Graph

namespace Python

theorem ofDouble_equals {x y : Double} (same : x.equals y = true) : Expr.ofDouble x = Expr.ofDouble y := by
  cases x <;> cases y <;> simp only [Double.equals, Bool.false_eq_true] at same
  · rw [beq_iff_eq] at same
    rw [same]
  · simp only [Bool.and_eq_true, beq_iff_eq, Bool.or_eq_true] at same
    obtain ⟨rfl, rfl | zero⟩ := same
    · rfl
    · simp [Expr.ofDouble, zero]

end Python

namespace Generation

open Python

section

variable {a b : Block} (same : a.equals b = true)

include same

theorem numberValue_equals : numberValue a = numberValue b := by
  unfold numberValue
  obtain equal | ⟨x, y, left, right, number⟩ := Block.equals_field same "NUM"
  · rw [equal]
  · rw [left, right]
    exact ofDouble_equals number

theorem fieldText_equals : fieldText a = fieldText b := by
  unfold fieldText
  obtain equal | ⟨x, y, left, right, _⟩ := Block.equals_field same "TEXT"
  · rw [equal]
  · rw [left, right]

theorem reservedNames_equals : reservedNames a = reservedNames b := by
  unfold reservedNames
  rw [Block.equals_kind same, Block.equals_choiceIn? same]
  -- Only a number block reserves names by the number it holds.
  obtain equal | ⟨x, y, left, right, number⟩ := Block.equals_field same "NUM"
  · rw [equal]
  · simp only [left, right, Double.equals_finite number]

theorem rule_equals : rule a = rule b := by
  funext below inLoop
  unfold rule
  rw [Block.equals_kind same]
  split <;> simp only [ifLines, compareValue, logicalValue, whileLines, countLines, variableName?,
    forEachLines, flowLines, numberValue_equals same, arithmeticValue, changeLines, unaryValue,
    constantValue, roundValue, aggregateValue, fieldText_equals same, joinValue, listValue, listGetValue,
    listSetLines, assignLines, callLines, callValue?, procedureName?, Block.equals_extent same,
    Block.equals_choiceIn? same, Block.equals_variableIn? same, Block.equals_procedureIn? same]

end

variable {g h : Graph}

theorem renderBranches_eq (branches : List (Place × Tree)) :
    renderBranches branches = branches.map fun p => (p.1, renderTree p.2) := by
  induction branches with
  | nil => rfl
  | cons head rest ih => rw [renderBranches, ih, List.map_cons]

theorem renderBranches_equals (same : g.equals h = true) {depth : Nat} {a b : Block}
    (equal : a.equals b = true)
    (each : ∀ {s t : Tree}, Graph.GrewAlike g h depth s t → renderTree s = renderTree t) :
    renderBranches (g.branchesTo depth a) = renderBranches (h.branchesTo depth b) := by
  rw [renderBranches_eq, renderBranches_eq, ← List.forall₂_eq_eq_eq]
  refine List.rel_map ?_ (Graph.equals_branches same equal depth)
  rintro ⟨place, s⟩ ⟨_, t⟩ ⟨rfl, alike⟩
  exact congrArg (place, ·) (each alike)

theorem renderTree_equals (same : g.equals h = true) {depth : Nat} {s t : Tree}
    (alike : Graph.GrewAlike g h depth s t) : renderTree s = renderTree t := by
  obtain ⟨a, b, equal, rfl, rfl⟩ := alike
  induction depth generalizing a b with
  | zero => simp only [Graph.treeTo, renderTree, rule_equals equal, Block.equals_kind equal]
  | succ depth ih =>
    have each : ∀ {s t : Tree}, Graph.GrewAlike g h depth s t → renderTree s = renderTree t := by
      rintro _ _ ⟨a, b, equal, rfl, rfl⟩
      exact ih a b equal
    show renderTree (.node a (g.branchesTo depth a)) = renderTree (.node b (h.branchesTo depth b))
    simp only [renderTree, renderBranches_equals same equal each, rule_equals equal,
      Block.equals_kind equal]

theorem mainChains_equals (same : g.equals h = true) {depth : Nat} {ss ts : List Tree}
    (alike : List.Forall₂ (Graph.GrewAlike g h depth) ss ts) : mainChains ss = mainChains ts := by
  induction alike with
  | nil => rfl
  | @cons s t _ _ head _ ih =>
    have kind : s.block.kind = t.block.kind := by
      obtain ⟨a, b, equal, rfl, rfl⟩ := head
      rw [Graph.treeTo_block, Graph.treeTo_block, Block.equals_kind equal]
    simp only [mainChains, kind, renderTree_equals same head, ih]

theorem define_equals (same : g.equals h = true) {a b : Block} (equal : a.equals b = true) :
    define g a = define h b := by
  have procedures : g.procedureWith? = h.procedureWith? := by
    funext id
    rw [Graph.procedureWith?, (Graph.equals_iff.mp same).2.2.2]
    rfl
  have below : renderBranches (g.tree a).branches = renderBranches (h.tree b).branches := by
    rw [Graph.tree, Graph.tree, ← Graph.equals_size same]
    cases g.size with
    | zero => rfl
    | succ depth => exact renderBranches_equals same equal (renderTree_equals same)
  simp only [define, Block.equals_procedureIn? equal, procedures, below, Block.equals_kind equal]

theorem defineAll_equals (same : g.equals h = true) (listed : List Procedure) :
    defineAll g listed = defineAll h listed := by
  induction listed with
  | nil => rfl
  | cons procedure rest ih =>
    have related := Graph.equals_block? same procedure.definition
    simp only [defineAll, ih]
    generalize g.block? procedure.definition = found, h.block? procedure.definition = found' at *
    cases related with
    | none => rfl
    | some equal => simp only [define_equals same equal]

theorem compile_equals (same : g.equals h = true) (options : Options) :
    compile g options = compile h options := by
  obtain ⟨blocks, roots, vars, procedures⟩ := Graph.equals_iff.mp same
  have reserved : reservedIn g = reservedIn h := by
    have each : g.blocks.values.map reservedNames = h.blocks.values.map reservedNames := by
      rw [Dict.values, Dict.values, List.map_map, List.map_map, ← List.forall₂_eq_eq_eq]
      exact List.rel_map (fun _ _ paired => reservedNames_equals paired.2) (Dict.agrees_iff.mp blocks)
    rw [reservedIn, reservedIn, List.flatMap_def, List.flatMap_def, each]
  have start : PassState.start g (reservedIn g) = .start h (reservedIn h) := by
    have names : NameTable.build g (reservedIn g) = .build h (reservedIn h) := by
      rw [NameTable.build, NameTable.build, vars, procedures, reserved]
    have declared : declarations g (.build g (reservedIn g)) = declarations h (.build h (reservedIn h)) := by
      rw [declarations, declarations, names, vars]
    dsimp only [PassState.start]
    rw [declared, names]
  have pass : programPass g = programPass h := by
    simp only [programPass, mainChains_equals same (Graph.equals_forest same), defineAll_equals same,
      procedures]
  rw [compile, compile, program, program, pass, start]

end Generation
end Blockwork

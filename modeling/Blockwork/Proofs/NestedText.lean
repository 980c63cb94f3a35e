import Mathlib
import Blockwork.Proofs.GivenNames
import Blockwork.Proofs.Walks

-- Where the text of a block stands. The lines of a chain are those of its blocks one after another,
-- and the lines of a body stand one level deeper below a header of its block.
namespace Blockwork.Generation

open Python

-- Lines that leave a loop or go on with it.
def leaving : List String := ["break", "continue"]

def headers (block : Block) : List String :=
  if block.kind.isLoop then ["for ", "while "] else ["if ", "elif ", "else:"]

-- A header, and below it the lines of a body. A body that does nothing says so.
def Suited (block : Block) (inner : Place → Bool → List Line → Prop) (request : Place × Bool)
    (part : List Line) : Prop :=
  ∃ header lines filler, part = .flat header :: deeper (lines ++ filler) ∧ inner request.1 request.2 lines ∧
    (filler = [] ∨ filler = [.flat "pass"]) ∧ isHeader header = true ∧ startsWith (headers block) header = true

-- The lines of a block by itself, given what lines its bodies may have.
inductive Framed (block : Block) (inLoop : Bool) (inner : Place → Bool → List Line → Prop) : List Line → Prop where
  | flow (kind : block.kind = .flow) : Framed block inLoop inner (flowLines block inLoop)
  | plain {contents : List String} (simple : bodyPlaces block = []) (other : block.kind ≠ .flow)
      (silent : contents = [] → block.kind = .call false ∧ block.procedureIn? "NAME" = none)
      (words : ∀ content ∈ contents, content ∉ leaving) : Framed block inLoop inner (contents.map .flat)
  | suites {parts : List (List Line)} (compound : bodyPlaces block ≠ [])
      (each : List.Forall₂ (Suited block inner) (chainRequests block inLoop) parts) :
      Framed block inLoop inner parts.flatten

-- Lines that may hang at a place: what is told of the tree there, and none where there is none.
def textAt (below : List (Place × (Bool → List Line → Prop))) (place : Place) (inLoop : Bool)
    (lines : List Line) : Prop :=
  match below.lookup place with
  | some told => told inLoop lines
  | none => lines = []

mutual

-- The lines of a tree: those of its block, and behind them those of the chain that follows.
def TreeText : Tree → Bool → List Line → Prop
  | .node block branches, inLoop, lines => ∃ own rest, lines = own ++ rest ∧
    Framed block inLoop (textAt (branchTexts branches)) own ∧ textAt (branchTexts branches) .next inLoop rest

def branchTexts : List (Place × Tree) → List (Place × (Bool → List Line → Prop))
  | [] => []
  | (place, tree) :: rest => (place, TreeText tree) :: branchTexts rest

end

theorem not_leaving_of_mem {content : String} {c : Char} (inside : c ∈ content.toList)
    (other : c ∉ "breakcontinue".toList) : content ∉ leaving := by
  intro listed
  simp only [leaving, List.mem_cons, List.not_mem_nil, or_false] at listed
  rcases listed with rfl | rfl
  · exact other (by revert inside; simp; grind)
  · exact other (by revert inside; simp; grind)

-- What leaves a loop is no expression.
theorem legible_not_leaving {e : Expr} (legible : e.Legible) : e.render ∉ leaving := by
  have none : ∀ word ∈ leaving, (readExpr word).isSome = false := by decide +kernel
  intro listed
  have reads := none _ listed
  rw [legible.readExpr_render] at reads
  cases reads

theorem bodyPlaces_simple {block : Block} (loop : block.kind.isLoop = false) (branch : block.kind ≠ .ifElse)
    (plain : block.kind.isDefinition = false) : bodyPlaces block = [] := by
  cases kind : block.kind with
  | ifElse => exact absurd kind branch
  | repeatTimes | whileUntil | countWith | forEach =>
    rw [kind] at loop
    cases loop
  | definition returns =>
    rw [kind] at plain
    cases plain
  | textJoin => rw [bodyPlaces, itemPlaces (.inl kind), filter_inputs]
  | listOf => rw [bodyPlaces, itemPlaces (.inr kind), filter_inputs]
  | call returns => rw [bodyPlaces, argumentPlaces kind, filter_inputs]
  | _ =>
    rw [bodyPlaces, slotPlaces_fixed kind rfl]
    rfl

theorem Ensures.and {g : Graph} {α : Type} {action : Pass α} {property other : α → Prop}
    (first : Ensures g action property) (second : Ensures g action other) :
    Ensures g action fun a => property a ∧ other a :=
  fun s visits => ⟨(first s visits).1, (first s visits).2, (second s visits).2⟩

-- A rule whose blocks below write what they are told to.
section
variable {g : Graph} {block : Block} {below : Below} {inner : Place → Bool → List Line → Prop} {inLoop : Bool}

def Writes (g : Graph) (below : Below) (inner : Place → Bool → List Line → Prop) : Prop :=
  ∀ place inLoop, Ensures g (below.chainAt place inLoop) fun chain => inner place inLoop chain.lines

theorem Writes.suite (writes : Writes g below inner) (slot : String) (inLoop : Bool) :
    Ensures g (below.suite slot inLoop) fun suite => ∃ lines filler, suite = deeper (lines ++ filler) ∧
      inner (.body slot) inLoop lines ∧ (filler = [] ∨ filler = [.flat "pass"]) := by
  refine (writes (.body slot) inLoop).bind fun chain told => .pure ⟨chain.lines, _, rfl, told, ?_⟩
  split
  · exact .inl rfl
  · exact .inr rfl

theorem Framed.line {content : String} (simple : bodyPlaces block = []) (other : block.kind ≠ .flow)
    (word : content ∉ leaving) : Framed block inLoop inner [.flat content] := by
  have whole : Framed block inLoop inner ([content].map .flat) :=
    .plain simple other (by simp) (List.forall_mem_singleton.mpr word)
  exact whole

-- A header with the one body of a loop.
theorem Framed.loop {header : String} {lines filler : List Line} (loop : block.kind.isLoop = true)
    (told : inner (.body "DO") true lines) (filled : filler = [] ∨ filler = [.flat "pass"])
    (opens : isHeader header = true) (starts : startsWith ["for ", "while "] header = true) :
    Framed block inLoop inner (.flat header :: deeper (lines ++ filler)) := by
  have suited : Suited block inner (.body "DO", true) (.flat header :: deeper (lines ++ filler)) := by
    refine ⟨header, lines, filler, rfl, told, filled, opens, ?_⟩
    rwa [headers, if_pos loop]
  have whole : Framed block inLoop inner [.flat header :: deeper (lines ++ filler)].flatten := by
    refine .suites ?_ ?_
    · rw [loop_places loop]
      exact List.cons_ne_nil _ _
    · rw [loop_requests loop]
      exact .cons suited .nil
  rwa [List.flatten_singleton] at whole

theorem branchLines_suited (furnishes : Furnishes g block below) (writes : Writes g below inner)
    (loop : block.kind.isLoop = false) (inLoop : Bool) (count n : Nat) :
    Ensures g (branchLines below inLoop count n) fun lines => ∃ parts, lines = parts.flatten ∧
      List.Forall₂ (Suited block inner)
        ((List.range' n count).map fun k => (Place.body (Kind.branchName k), inLoop)) parts := by
  induction count generalizing n with
  | zero => exact .pure ⟨[], rfl, .nil⟩
  | succ count ih =>
    refine (furnishes.valueOr (Kind.conditionName n) falseExpr_legible).bind fun condition legible => ?_
    refine (writes.suite (Kind.branchName n) inLoop).bind fun suite written => ?_
    refine (ih (n + 1)).bind fun others suited => .pure ?_
    obtain ⟨lines, filler, rfl, told, filled⟩ := written
    obtain ⟨parts, rfl, each⟩ := suited
    refine ⟨_ :: parts, rfl, .cons ⟨_, lines, filler, rfl, told, filled, ?_, ?_⟩ each⟩
    · split <;> exact head_isHeader _ (by decide)
    · rw [headers, loop, if_neg Bool.false_ne_true, String.append_assoc]
      split <;> exact startsWith_append (by decide) _

theorem ifLines_framed (furnishes : Furnishes g block below) (writes : Writes g below inner)
    (kind : block.kind = .ifElse) (inLoop : Bool) :
    Ensures g (ifLines block below inLoop) (Framed block inLoop inner) := by
  have loop : block.kind.isLoop = false := by rw [kind]; rfl
  have requests := ifRequests kind inLoop
  have compound : bodyPlaces block ≠ [] := by
    intro none
    rw [chainRequests, none, List.map_nil, ite_self, List.range'_succ] at requests
    simp at requests
  refine (branchLines_suited furnishes writes loop inLoop _ 0).bind fun lines suited => ?_
  obtain ⟨parts, rfl, each⟩ := suited
  split
  · next last =>
    rw [if_pos last] at requests
    refine (writes.suite "ELSE" inLoop).bind fun suite written => .pure ?_
    obtain ⟨lines, filler, rfl, told, filled⟩ := written
    have final : Suited block inner (.body "ELSE", inLoop) (.flat "else:" :: deeper (lines ++ filler)) := by
      refine ⟨_, lines, filler, rfl, told, filled, by decide, ?_⟩
      rw [headers, loop]
      decide
    have all : List.Forall₂ (Suited block inner) (_ ++ [(.body "ELSE", inLoop)])
        (parts ++ [.flat "else:" :: deeper (lines ++ filler)]) := List.rel_append each (.cons final .nil)
    rw [requests] at all
    have whole := Framed.suites compound all
    rwa [List.flatten_append, List.flatten_singleton] at whole
  · next last =>
    rw [if_neg last, List.append_nil] at requests
    rw [requests] at each
    exact .pure (.suites compound each)

theorem loop_framed (loop : block.kind.isLoop = true) {word : String} (listed : word ∈ ["for ", "while "])
    (text : String) {suite : List Line} (written : ∃ lines filler, suite = deeper (lines ++ filler) ∧
      inner (.body "DO") true lines ∧ (filler = [] ∨ filler = [.flat "pass"])) :
    Framed block inLoop inner (.flat (word ++ text ++ ":") :: suite) := by
  obtain ⟨lines, filler, rfl, told, filled⟩ := written
  have known : word ∈ headWords := by
    simp only [List.mem_cons, List.not_mem_nil, or_false] at listed
    rcases listed with rfl | rfl <;> decide
  refine .loop loop told filled (head_isHeader _ known) ?_
  rw [String.append_assoc]
  exact startsWith_append listed _

theorem for_framed (loop : block.kind.isLoop = true) (target middle text : String) {suite : List Line}
    (written : ∃ lines filler, suite = deeper (lines ++ filler) ∧
      inner (.body "DO") true lines ∧ (filler = [] ∨ filler = [.flat "pass"])) :
    Framed block inLoop inner (.flat ("for " ++ target ++ middle ++ text ++ ":") :: suite) := by
  have parts : "for " ++ target ++ middle ++ text ++ ":" = "for " ++ (target ++ middle ++ text) ++ ":" := by
    simp only [String.append_assoc]
  rw [parts]
  exact loop_framed loop (by decide) _ written

theorem repeatLines_framed (furnishes : Furnishes g block below) (writes : Writes g below inner)
    (loop : block.kind.isLoop = true) : Ensures g (repeatLines below) (Framed block inLoop inner) := by
  refine (furnishes.value "TIMES").bind fun times _ => (claimName_ensures "count").bind fun counter _ => ?_
  refine (writes.suite "DO" true).bind fun suite written => .pure ?_
  exact for_framed loop counter " in " _ written

theorem whileLines_framed (furnishes : Furnishes g block below) (writes : Writes g below inner)
    (loop : block.kind.isLoop = true) : Ensures g (whileLines block below) (Framed block inLoop inner) := by
  refine (furnishes.valueOr "BOOL" falseExpr_legible).bind fun value _ => ?_
  exact (writes.suite "DO" true).bind fun suite written => .pure (loop_framed loop (by decide) _ written)

theorem countLines_framed (furnishes : Furnishes g block below) (writes : Writes g below inner)
    (loop : block.kind.isLoop = true) : Ensures g (countLines block below) (Framed block inLoop inner) := by
  have one : (Expr.numeral "1").Legible := .numeral (by decide)
  refine (target_ensures block "VAR").bind fun found _ => ?_
  refine (furnishes.valueOr "FROM" zeroExpr_legible).bind fun start _ => ?_
  refine (furnishes.valueOr "TO" zeroExpr_legible).bind fun stop _ => ?_
  refine (furnishes.valueOr "BY" one).bind fun step _ => ?_
  refine (writes.suite "DO" true).bind fun suite written => .pure ?_
  have closing : "):" = ")" ++ ":" := rfl
  have framed : Framed block inLoop inner _ := for_framed loop (found.getD noTarget) " in range("
    (String.intercalate ", " (rangeArguments start.render (stop.within .additive .loose) step.render) ++ ")") written
  simpa only [closing, String.append_assoc] using framed

theorem forEachLines_framed (furnishes : Furnishes g block below) (writes : Writes g below inner)
    (loop : block.kind.isLoop = true) : Ensures g (forEachLines block below) (Framed block inLoop inner) := by
  refine (target_ensures block "VAR").bind fun found _ => ?_
  refine (furnishes.valueOr "LIST" emptyListExpr_legible).bind fun list _ => ?_
  refine (writes.suite "DO" true).bind fun suite written => .pure ?_
  exact for_framed loop _ " in " _ written

-- Rules of single lines.
def Lined (lines : List Line) : Prop := ∃ content, lines = [.flat content] ∧ content ∉ leaving

theorem Lined.blank (first last : String) : Lined [.flat (first ++ " " ++ last)] :=
  ⟨_, rfl, not_leaving_of_mem (c := ' ') (by simp) (by decide)⟩

theorem changeLines_lined (furnishes : Furnishes g block below) : Ensures g (changeLines block below) Lined := by
  refine (target_ensures block "VAR").bind fun found _ => ?_
  refine (furnishes.valueOr "DELTA" zeroExpr_legible).bind fun delta _ => .pure ?_
  exact .blank _ _

theorem printLines_lined (furnishes : Furnishes g block below) : Ensures g (printLines below) Lined := by
  refine (furnishes.valueOr "TEXT" emptyTextExpr_legible).bind fun value legible => .pure ⟨_, rfl, ?_⟩
  exact legible_not_leaving (apply_legible (by decide) (one_legible legible))

theorem assigned_lined (target value : String) : Lined [.flat (target ++ " = " ++ value)] := by
  have parts : target ++ " = " ++ value = target ++ " " ++ ("= " ++ value) := by
    simp only [String.append_assoc]
    rfl
  rw [parts]
  exact .blank _ _

theorem assignLines_lined (furnishes : Furnishes g block below) : Ensures g (assignLines block below) Lined := by
  refine (target_ensures block "VAR").bind fun found _ => ?_
  exact (furnishes.valueOr "VALUE" noneExpr_legible).bind fun value _ => .pure (assigned_lined _ _)

theorem listSetLines_lined (furnishes : Furnishes g block below) (kind : block.kind = .listSet) :
    Ensures g (listSetLines block below) Lined := by
  refine (furnishes.listOr kind).bind fun list proper => ?_
  refine (furnishes.valueOr "TO" noneExpr_legible).bind fun value legible => ?_
  split
  · exact .pure (assigned_lined _ _)
  · refine (furnishes.valueOr "AT" zeroExpr_legible).bind fun position index => .pure ?_
    split
    · refine ⟨_, rfl, legible_not_leaving ?_⟩
      exact send_legible proper.1 proper.2 (by decide) (by simp [index, legible])
    · exact assigned_lined _ _

-- Only a call that is not bound says nothing.
theorem callName_found (wf : g.WellFormed) (found : g.block? block.id = some block) :
    Ensures g (procedureName? block "NAME") fun name => name = none → block.procedureIn? "NAME" = none := by
  intro s visits
  refine ⟨visits, fun nameless => ?_⟩
  have nameless : (block.procedureIn? "NAME").bind s.names.procedureName? = none := nameless
  cases bound : block.procedureIn? "NAME" with
  | none => rfl
  | some p =>
    have sound := wf.bound.blocks block.id block.content (by rw [Graph.contents, found]; rfl)
    obtain ⟨procedure, listed, rfl, _⟩ := sound.serves "NAME" p (Block.procedureIn?_eq_some.mp bound)
    have named := procedure_named visits.keeps listed
    rw [bound, Option.bind_some] at nameless
    rw [nameless] at named
    cases named

theorem callLines_framed (wf : g.WellFormed) (found : g.block? block.id = some block)
    (furnishes : Furnishes g block below) (kind : block.kind = .call false) :
    Ensures g (callLines block below) (Framed block inLoop inner) := by
  have simple : bodyPlaces block = [] :=
    bodyPlaces_simple (by rw [kind]; rfl) (by rw [kind]; decide) (by rw [kind]; rfl)
  have other : block.kind ≠ .flow := by rw [kind]; decide
  have unbound : Ensures g (callValue? block below) fun call => call = none → block.procedureIn? "NAME" = none := by
    refine (callName_found wf found).bind fun name nameless => ?_
    cases name with
    | none => exact .pure fun _ => nameless rfl
    | some name =>
      refine (furnishes.valuesOr _ noneExpr_legible).bind fun args _ => .pure fun none => ?_
      cases none
  refine (unbound.and furnishes.call).bind fun call proper => .pure ?_
  cases call with
  | none =>
    have nothing : Framed block inLoop inner (([] : List String).map .flat) :=
      .plain simple other (fun _ => ⟨kind, proper.1 rfl⟩) (by simp)
    exact nothing
  | some e => exact .line simple other (legible_not_leaving (proper.2 e rfl))

theorem commentLines_framed (text : String) (kind : block.kind = .comment) :
    Framed block inLoop inner (commentLines text) := by
  have simple : bodyPlaces block = [] :=
    bodyPlaces_simple (by rw [kind]; rfl) (by rw [kind]; decide) (by rw [kind]; rfl)
  have other : block.kind ≠ .flow := by rw [kind]; decide
  have mark : ∀ {content : String}, '#' ∈ content.toList → content ∉ leaving :=
    fun inside => not_leaving_of_mem inside (by decide)
  unfold commentLines
  split
  · exact .line simple other (by decide)
  · next visible =>
    have whole : Framed block inLoop inner
        (((Text.lines text).map fun line => Text.trimEnd ("# " ++ line)).map .flat) := by
      refine .plain simple other (fun none => ?_) fun content listed => ?_
      · rw [List.map_eq_nil_iff, Text.lines, List.map_eq_nil_iff] at none
        refine absurd none (linesFrom_ne_nil (.inr fun empty => visible ?_))
        rw [Text.allBlank, empty]
        rfl
      · obtain ⟨row, _, rfl⟩ := List.mem_map.mp listed
        apply mark
        rw [comment_marked]
        exact List.mem_cons_self
    rwa [List.map_map] at whole

-- Every rule frames what the blocks below write.
theorem rule_framed (wf : g.WellFormed) (found : g.block? block.id = some block) (furnishes : Furnishes g block below)
    (writes : Writes g below inner) (other : block.kind.connection = .statement) (inLoop : Bool) :
    Ensures g (rule block below inLoop) fun code => Framed block inLoop inner (code.toChain block.kind).lines := by
  have whole : ∀ {action : Pass (List Line)} {kind : Kind}, Ensures g action (Framed block inLoop inner) →
      Ensures g (do return Code.statement (← action)) fun code => Framed block inLoop inner (code.toChain kind).lines :=
    fun framed => framed.bind fun lines framed => .pure framed
  have single : ∀ {action : Pass (List Line)} {kind : Kind}, block.kind = kind → kind.isLoop = false →
      kind ≠ .ifElse → kind.isDefinition = false → kind ≠ .flow → Ensures g action Lined →
      Ensures g (do return Code.statement (← action)) fun code =>
        Framed block inLoop inner (code.toChain kind).lines := by
    rintro action _ rfl loop branch plain flow lined
    refine lined.bind fun lines lined => .pure ?_
    obtain ⟨content, rfl, word⟩ := lined
    exact .line (bodyPlaces_simple loop branch plain) flow word
  unfold rule
  cases kind : block.kind with
  | ifElse => exact whole (ifLines_framed furnishes writes kind inLoop)
  | repeatTimes => exact whole (repeatLines_framed furnishes writes (by rw [kind]; rfl))
  | whileUntil => exact whole (whileLines_framed furnishes writes (by rw [kind]; rfl))
  | countWith => exact whole (countLines_framed furnishes writes (by rw [kind]; rfl))
  | forEach => exact whole (forEachLines_framed furnishes writes (by rw [kind]; rfl))
  | flow => exact .pure (.flow kind)
  | changeBy => exact single kind rfl (by decide) rfl (by decide) (changeLines_lined furnishes)
  | comment => exact .pure (commentLines_framed _ kind)
  | print => exact single kind rfl (by decide) rfl (by decide) (printLines_lined furnishes)
  | listSet => exact single kind rfl (by decide) rfl (by decide) (listSetLines_lined furnishes kind)
  | variableSet => exact single kind rfl (by decide) rfl (by decide) (assignLines_lined furnishes)
  | call returns =>
    cases returns with
    | true =>
      rw [kind] at other
      cases other
    | false => exact whole (callLines_framed wf found furnishes kind)
  | _ =>
    rw [kind] at other
    cases other

end

-- Trees.
theorem branchTexts_eq (branches : List (Place × Tree)) :
    branchTexts branches = branches.map fun p => (p.1, TreeText p.2) := by
  induction branches with
  | nil => rfl
  | cons head rest ih => rw [branchTexts, ih, List.map_cons]

theorem textAt_eq (branches : List (Place × Tree)) (place : Place) (inLoop : Bool) (lines : List Line) :
    textAt (branchTexts branches) place inLoop lines ↔ match branches.lookup place with
      | some tree => TreeText tree inLoop lines
      | none => lines = [] := by
  rw [textAt, branchTexts_eq, lookup_hung fun _ => TreeText]
  cases branches.lookup place <;> rfl

variable {g : Graph}

theorem writes_of_full (wf : g.WellFormed) {block : Block} {branches : List (Place × Tree)}
    (full : g.Full (.node block branches))
    (each : ∀ p ∈ branches, p.2.block.kind.isDefinition = false → ∀ inLoop,
      Ensures g ((renderTree p.2).chain inLoop) fun chain => TreeText p.2 inLoop chain.lines) :
    Writes g (renderBranches branches) (textAt (branchTexts branches)) := by
  intro place inLoop
  simp only [textAt_eq]
  unfold Below.chainAt
  rw [lookup_renderBranches]
  cases hangs : branches.lookup place with
  | none => exact .pure rfl
  | some tree =>
    obtain ⟨branch, _, asks⟩ := full_child wf full hangs
    exact each _ branch (asked_plain asks) inLoop

theorem valued_simple {block : Block} (valued : block.kind.connection = .expression) :
    bodyPlaces block = [] ∧ block.kind ≠ .flow := by
  have plain : block.kind.isLoop = false ∧ block.kind ≠ .ifElse ∧ block.kind.isDefinition = false ∧
      block.kind ≠ .flow := by
    cases kind : block.kind with
    | ifElse | repeatTimes | whileUntil | countWith | forEach | flow | definition _ =>
      rw [kind] at valued
      cases valued
    | _ => exact ⟨rfl, by simp, rfl, by simp⟩
  exact ⟨bodyPlaces_simple plain.1 plain.2.1 plain.2.2.1, plain.2.2.2⟩

theorem defines_of_topLevel {kind : Kind} (top : kind.connection = .topLevel) : kind.isDefinition = true := by
  cases kind with
  | definition returns => rfl
  | call returns => cases returns <;> cases top
  | _ => cases top

theorem tree_written (wf : g.WellFormed) {tree : Tree} (full : g.Full tree)
    (plain : tree.block.kind.isDefinition = false) (inLoop : Bool) :
    Ensures g ((renderTree tree).chain inLoop) fun chain => TreeText tree inLoop chain.lines := by
  induction full generalizing inLoop with
  | @node block branches found whole below ih =>
    have plain : block.kind.isDefinition = false := plain
    have full := Graph.Full.node found whole below
    have writes := writes_of_full wf full ih
    have furnishes := furnishes_of_full wf full fun p branch => chain_ensures wf (below p branch)
    have code : Ensures g (rule block (renderBranches branches) inLoop)
        fun code => Framed block inLoop (textAt (branchTexts branches)) (code.toChain block.kind).lines := by
      cases connection : block.kind.connection with
      | expression =>
        obtain ⟨simple, flow⟩ := valued_simple connection
        refine (rule_yields (branches_supply wf full) connection inLoop).ensures fun names proper => ?_
        exact .line simple flow (legible_not_leaving (treeMeaning_legible wf full proper))
      | statement => exact rule_framed wf found furnishes writes connection inLoop
      | topLevel =>
        rw [defines_of_topLevel connection] at plain
        cases plain
    exact code.bind fun code framed => (writes .next inLoop).bind fun rest told => .pure ⟨_, _, rfl, framed, told⟩

-- The main text: chains in the order of the roots. Those without lines are left out.
theorem mainChains_written (wf : g.WellFormed) {trees : List Tree} (full : ∀ tree ∈ trees, g.Full tree) :
    Ensures g (mainChains trees) fun chains => ∃ texts,
      List.Forall₂ (fun tree lines => TreeText tree false lines) (trees.filter (!·.block.kind.isDefinition)) texts ∧
      chains = texts.filter (!·.isEmpty) := by
  induction trees with
  | nil => exact .pure ⟨[], .nil, rfl⟩
  | cons tree rest ih =>
    rw [List.forall_mem_cons] at full
    rw [mainChains, List.filter_cons]
    cases plain : tree.block.kind.isDefinition with
    | true => exact ih full.2
    | false =>
      refine (tree_written wf full.1 plain false).bind fun chain told => (ih full.2).bind fun others written => .pure ?_
      obtain ⟨texts, each, rfl⟩ := written
      refine ⟨chain.lines :: texts, .cons told each, ?_⟩
      rw [List.filter_cons]
      cases chain.lines.isEmpty <;> rfl

theorem program_chains (wf : g.WellFormed) : ∃ texts,
    List.Forall₂ (fun tree lines => TreeText tree false lines) (mainTrees g) texts ∧
    (program g).chains = texts.filter (!·.isEmpty) := by
  have full : ∀ tree ∈ g.forest, g.Full tree := fun tree member => wf.linked.forest_full wf.built member
  exact (mainChains_written wf full _ .start).2

end Blockwork.Generation

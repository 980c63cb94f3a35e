import Mathlib
import Blockwork.Proofs.LoadStages

-- Parameters of definitions that speak for themselves. Each one becomes a variable by its id, by its
-- name or as a new one, in the order of the form. Ids made up on the way are ids like all others, so
-- a later parameter that happens to write one gets that variable.
namespace Blockwork.Snapshot

open Blockwork.Graph

-- A definition that gives the name of its procedure as a text.
def isNative (definition : SavedBlock) : Bool :=
  match definition.record.fields.get? "NAME" with
  | some (.text _) => true
  | _ => false

def Form.nativeDefinitions (form : Form) : List SavedBlock := (form.blocks.flatMap definitions).filter isNative

def declaredParams (definition : SavedBlock) : List SavedParam := (definition.record.extra.bind (·.params)).getD []

-- A parameter together with the variable that it became.
abbrev Binding := SavedParam × VariableId

section
variable (history : List Binding) (x : String)

-- Some parameter wrote the id and became the variable of this id.
def DeclaredIn : Prop := ∃ entry ∈ history, entry.1.id = some x ∧ entry.2 = ⟨x⟩

-- Some parameter wrote no id and became a variable with an id that was made up for it.
def GeneratedIn : Prop := ∃ entry ∈ history, entry.1.id = none ∧ entry.2 = ⟨x⟩ ∧ ∃ n : Nat, x = "v" ++ toString n

end

-- What a parameter says comes true: the variable of an id that is listed or declared before it, or
-- else one with the declared name.
structure AsDeclared (listed : List String) (vars : List Variable) (before : List Binding) (entry : Binding) :
    Prop where
  written : ∀ x, entry.1.id = some x → x ∈ listed ∨ DeclaredIn before x → entry.2 = ⟨x⟩
  named : (∀ x, entry.1.id = some x → ¬(x ∈ listed ∨ DeclaredIn before x)) →
    ∃ v ∈ vars, v.id = entry.2 ∧ foldName v.name = foldName entry.1.name

-- The parameter writes an id that so far only a generated variable has.
def Clashes (listed : List String) (before : List Binding) (param : SavedParam) : Prop :=
  ∃ x, param.id = some x ∧ x ∉ listed ∧ ¬DeclaredIn before x ∧ GeneratedIn before x

-- The variables that parameters became so far, in a graph with their table.
structure Accounts (listed : List String) (g : Graph) (history : List Binding) : Prop where
  table : ∀ x, (g.variableWith? ⟨x⟩).isSome ↔ x ∈ listed ∨ ∃ entry ∈ history, entry.2 = ⟨x⟩
  origin : ∀ entry ∈ history, ∀ x, entry.2 = ⟨x⟩ → x ∈ listed ∨ DeclaredIn history x ∨ GeneratedIn history x
  taken : ∀ before entry after, history = before ++ entry :: after → Clashes listed before entry.1 →
    entry.1.id = some entry.2.text
  declared : ∀ before entry after, history = before ++ entry :: after → ¬Clashes listed before entry.1 →
    AsDeclared listed g.vars before entry

theorem variableWith?_addVariable (g : Graph) (id : VariableId) (name : String) (x : VariableId) :
    ((g.addVariable id name).variableWith? x).isSome ↔ (g.variableWith? x).isSome ∨ id = x := by
  rw [variableWith?_isSome, variableWith?_isSome, addVariable]
  simp [or_and_right, exists_or]

-- What resolving one parameter can come to.
theorem resolveParam_cases {w w' : Workspace} {param : SavedParam} {id : VariableId}
    (made : resolveParam w param = .ok (w', id)) :
    (param.id = some id.text ∧ (w.graph.variableWith? id).isSome ∧ w' = w) ∨
      (∀ x, param.id = some x → w.graph.variableWith? ⟨x⟩ = none) ∧
        ∃ name, foldName name = foldName param.name ∧
          ((⟨id, name⟩ ∈ w.graph.vars ∧ w' = w) ∨
            w'.graph = w.graph.addVariable id name ∧
              (param.id = some id.text ∨ param.id = none ∧ ∃ n : Nat, id.text = "v" ++ toString n)) := by
  have fold (name : String) : foldName (Text.trim name) = foldName name := by
    rw [foldName, foldName, Text.trim_trim]
  unfold resolveParam at made
  split at made
  · next x found =>
    cases made
    obtain ⟨given, there⟩ := Option.filter_eq_some_iff.mp found
    exact .inl ⟨given, there, rfl⟩
  · next missing =>
    have absent : ∀ x, param.id = some x → w.graph.variableWith? ⟨x⟩ = none := by
      intro x given
      rw [given] at missing
      simpa using missing
    refine .inr ⟨absent, ?_⟩
    split at made
    · next v found =>
      cases made
      have same : foldName v.name = foldName param.name := by simpa [sameName] using List.find?_some found
      exact ⟨v.name, same, .inl ⟨List.mem_of_find?_eq_some found, rfl⟩⟩
    · split at made
      · next x given =>
        obtain ⟨mid, created, later⟩ := bind_eq_ok.mp made
        cases later
        obtain ⟨reply, applied⟩ := edit_eq_ok.mp created
        obtain ⟨g, created, rfl⟩ := Workspace.keepSerial_eq_ok applied
        obtain ⟨_, name, checked, same⟩ := createVariable_eq_ok.mp created
        obtain ⟨rfl, _⟩ := checkName_eq_ok.mp checked
        exact ⟨_, fold param.name, .inr ⟨same, .inl given⟩⟩
      · next given =>
        obtain ⟨name, checked, same⟩ := Workspace.makeVariable_iff.mp (accepted_eq_ok.mp made)
        obtain ⟨rfl, _⟩ := checkName_eq_ok.mp checked
        cases same
        exact ⟨_, fold param.name, .inr ⟨rfl, .inr ⟨given, _, rfl⟩⟩⟩

section
variable {listed : List String} {history : List Binding} {x : String}

theorem DeclaredIn.append (declared : DeclaredIn history x) (more : List Binding) : DeclaredIn (history ++ more) x := by
  obtain ⟨entry, member, facts⟩ := declared
  exact ⟨entry, List.mem_append_left _ member, facts⟩

theorem GeneratedIn.append (generated : GeneratedIn history x) (more : List Binding) :
    GeneratedIn (history ++ more) x := by
  obtain ⟨entry, member, facts⟩ := generated
  exact ⟨entry, List.mem_append_left _ member, facts⟩

-- Entries before the last one, and the last one.
theorem split_concat {last entry : Binding} {before after : List Binding}
    (split : history ++ [last] = before ++ entry :: after) :
    (∃ rest, history = before ++ entry :: rest) ∨ (before = history ∧ entry = last) := by
  rcases List.eq_nil_or_concat' after with rfl | ⟨rest, final, rfl⟩
  · obtain ⟨same, ending⟩ := List.append_inj' split rfl
    exact .inr ⟨same.symm, (List.cons.inj ending).1.symm⟩
  · rw [← List.cons_append, ← List.append_assoc] at split
    exact .inl ⟨rest, (List.append_inj' split rfl).1⟩

theorem AsDeclared.mono {vars vars' : List Variable} {before : List Binding} {entry : Binding}
    (declared : AsDeclared listed vars before entry) (more : vars ⊆ vars') : AsDeclared listed vars' before entry := by
  refine ⟨declared.written, fun free => ?_⟩
  obtain ⟨v, member, facts⟩ := declared.named free
  exact ⟨v, more member, facts⟩

theorem Accounts.concat {g g' : Graph} (accounts : Accounts listed g history) {param : SavedParam} {id : VariableId}
    (table : ∀ x, (g'.variableWith? ⟨x⟩).isSome ↔ (g.variableWith? ⟨x⟩).isSome ∨ id = ⟨x⟩) (vars : g.vars ⊆ g'.vars)
    (origin : id.text ∈ listed ∨ DeclaredIn (history ++ [(param, id)]) id.text ∨
      GeneratedIn (history ++ [(param, id)]) id.text)
    (taken : Clashes listed history param → param.id = some id.text)
    (declared : ¬Clashes listed history param → AsDeclared listed g'.vars history (param, id)) :
    Accounts listed g' (history ++ [(param, id)]) := by
  refine ⟨fun x => ?_, fun entry member x same => ?_, fun before entry after split clash => ?_,
    fun before entry after split free => ?_⟩
  · rw [table, accounts.table]
    simp [or_assoc, or_and_right, exists_or]
  · rcases List.mem_append.mp member with old | new
    · rcases accounts.origin entry old x same with known | declared | generated
      · exact .inl known
      · exact .inr (.inl (declared.append _))
      · exact .inr (.inr (generated.append _))
    · cases List.mem_singleton.mp new
      have same : id = ⟨x⟩ := same
      subst same
      exact origin
  · rcases split_concat split with ⟨rest, whole⟩ | ⟨rfl, rfl⟩
    · exact accounts.taken before entry rest whole clash
    · exact taken clash
  · rcases split_concat split with ⟨rest, whole⟩ | ⟨rfl, rfl⟩
    · exact (accounts.declared before entry rest whole free).mono vars
    · exact declared free

section
variable {g g' : Graph} {param : SavedParam} {id : VariableId}

-- The variables of the table are those that were listed, declared or generated.
theorem Accounts.known_iff (accounts : Accounts listed g history) (x : String) :
    (g.variableWith? ⟨x⟩).isSome ↔ x ∈ listed ∨ DeclaredIn history x ∨ GeneratedIn history x := by
  rw [accounts.table]
  constructor
  · rintro (named | ⟨entry, member, same⟩)
    · exact .inl named
    · exact accounts.origin entry member x same
  · rintro (named | ⟨entry, member, _, same⟩ | ⟨entry, member, _, same, _⟩)
    · exact .inl named
    · exact .inr ⟨entry, member, same⟩
    · exact .inr ⟨entry, member, same⟩

theorem known_still (there : (g.variableWith? id).isSome) (x : String) :
    (g.variableWith? ⟨x⟩).isSome ↔ (g.variableWith? ⟨x⟩).isSome ∨ id = ⟨x⟩ := by
  refine ⟨.inl, fun either => either.elim (fun found => found) fun same => ?_⟩
  rwa [same] at there

theorem Accounts.by_id (accounts : Accounts listed g history) (given : param.id = some id.text)
    (there : (g.variableWith? id).isSome) : Accounts listed g (history ++ [(param, id)]) := by
  refine accounts.concat (known_still there) (List.Subset.refl _) ?_ (fun _ => given) fun free => ⟨?_, fun none => ?_⟩
  · exact .inr (.inl ⟨(param, id), by simp, given, rfl⟩)
  · intro x written _
    have same : id.text = x := Option.some.inj (given.symm.trans written)
    rw [← same]
  · rcases (accounts.known_iff id.text).mp there with named | declared | generated
    · exact absurd (.inl named) (none id.text given)
    · exact absurd (.inr declared) (none id.text given)
    · have fresh := not_or.mp (none id.text given)
      exact absurd ⟨id.text, given, fresh.1, fresh.2, generated⟩ free

-- An id that the table does not have clashes with none, and only the name counts.
theorem Accounts.not_clashes (accounts : Accounts listed g history)
    (absent : ∀ x, param.id = some x → g.variableWith? ⟨x⟩ = none) : ¬Clashes listed history param := by
  intro clash
  obtain ⟨x, given, _, _, generated⟩ := clash
  have there := (accounts.known_iff x).mpr (.inr (.inr generated))
  rw [absent x given] at there
  cases there

theorem Accounts.asDeclared (accounts : Accounts listed g history)
    (absent : ∀ x, param.id = some x → g.variableWith? ⟨x⟩ = none) {name : String}
    (same : foldName name = foldName param.name) {vars : List Variable} (member : ⟨id, name⟩ ∈ vars) :
    AsDeclared listed vars history (param, id) := by
  refine ⟨fun x given source => ?_, fun _ => ⟨⟨id, name⟩, member, rfl, same⟩⟩
  have there := (accounts.known_iff x).mpr (source.imp_right .inl)
  rw [absent x given] at there
  cases there

theorem Accounts.by_name (accounts : Accounts listed g history)
    (absent : ∀ x, param.id = some x → g.variableWith? ⟨x⟩ = none) {name : String}
    (same : foldName name = foldName param.name) (member : ⟨id, name⟩ ∈ g.vars) :
    Accounts listed g (history ++ [(param, id)]) := by
  have there : (g.variableWith? id).isSome := variableWith?_isSome.mpr ⟨_, member, rfl⟩
  refine accounts.concat (known_still there) (List.Subset.refl _) ?_
    (fun clash => absurd clash (accounts.not_clashes absent)) fun _ => accounts.asDeclared absent same member
  rcases (accounts.known_iff id.text).mp there with listed | declared | generated
  · exact .inl listed
  · exact .inr (.inl (declared.append _))
  · exact .inr (.inr (generated.append _))

theorem Accounts.created (accounts : Accounts listed g history)
    (absent : ∀ x, param.id = some x → g.variableWith? ⟨x⟩ = none) {name : String}
    (same : foldName name = foldName param.name) (added : g' = g.addVariable id name)
    (source : param.id = some id.text ∨ param.id = none ∧ ∃ n : Nat, id.text = "v" ++ toString n) :
    Accounts listed g' (history ++ [(param, id)]) := by
  have grown : g'.vars = g.vars ++ [⟨id, name⟩] := by rw [added, addVariable]
  refine accounts.concat (fun x => ?_) ?_ ?_ (fun clash => absurd clash (accounts.not_clashes absent))
    fun _ => accounts.asDeclared absent same (by simp [grown])
  · rw [added, variableWith?_addVariable]
  · rw [grown]
    exact List.subset_append_left _ _
  · rcases source with given | ⟨none, serial⟩
    · exact .inr (.inl ⟨(param, id), by simp, given, rfl⟩)
    · exact .inr (.inr ⟨(param, id), by simp, none, rfl, serial⟩)

end

-- One more parameter, by what resolving it came to.
theorem Accounts.step {w w' : Workspace} (accounts : Accounts listed w.graph history) {param : SavedParam}
    {id : VariableId} (made : resolveParam w param = .ok (w', id)) :
    Accounts listed w'.graph (history ++ [(param, id)]) := by
  rcases resolveParam_cases made with ⟨given, there, rfl⟩ | ⟨absent, name, same, ⟨member, rfl⟩ | ⟨added, source⟩⟩
  · exact accounts.by_id given there
  · exact accounts.by_name absent same member
  · exact accounts.created absent same added source

theorem Accounts.of_vars {g g' : Graph} (accounts : Accounts listed g history) (same : g'.vars = g.vars) :
    Accounts listed g' history := by
  refine ⟨fun x => ?_, accounts.origin, accounts.taken, ?_⟩
  · rw [variableWith?, same]
    exact accounts.table x
  · rw [same]
    exact accounts.declared

theorem resolveParam_procedures {w w' : Workspace} {param : SavedParam} {id : VariableId}
    (made : resolveParam w param = .ok (w', id)) : w'.graph.procedures = w.graph.procedures := by
  rcases resolveParam_cases made with ⟨_, _, rfl⟩ | ⟨_, _, _, ⟨_, rfl⟩ | ⟨added, _⟩⟩
  · rfl
  · rfl
  · rw [added, addVariable]

theorem resolveParams_accounts {params : List SavedParam} {w w' : Workspace} {ids : List VariableId}
    (accounts : Accounts listed w.graph history) (made : resolveParams w params = .ok (w', ids)) :
    ids.length = params.length ∧ w'.graph.procedures = w.graph.procedures ∧
      Accounts listed w'.graph (history ++ params.zip ids) := by
  induction params generalizing w ids history with
  | nil =>
    cases made
    exact ⟨rfl, rfl, by simpa using accounts⟩
  | cons param rest ih =>
    obtain ⟨⟨mid, first⟩, resolved, later⟩ := bind_eq_ok.mp made
    obtain ⟨⟨last, others⟩, remaining, same⟩ := bind_eq_ok.mp later
    cases same
    obtain ⟨lengths, procedures, all⟩ := ih (accounts.step resolved) remaining
    rw [List.append_assoc, List.singleton_append] at all
    exact ⟨by rw [List.length_cons, List.length_cons, lengths],
      procedures.trans (resolveParam_procedures resolved), all⟩

-- The procedure of a definition that speaks for itself, with a variable for each parameter.
def Becomes (g : Graph) (definition : SavedBlock) (params : List VariableId) : Prop :=
  ∃ p, g.procedureWith? ⟨definition.record.id ++ "_procedure"⟩ = some p ∧ p.definition = ⟨definition.record.id⟩ ∧
    p.params = params ∧ params.length = (declaredParams definition).length

theorem Becomes.later {g g' : Graph} {definition : SavedBlock} {params : List VariableId}
    (becomes : Becomes g definition params) (more : g.procedures <+: g'.procedures) :
    Becomes g' definition params := by
  obtain ⟨p, found, facts⟩ := becomes
  obtain ⟨rest, whole⟩ := more
  refine ⟨p, ?_, facts⟩
  rw [procedureWith?] at found
  rw [procedureWith?, ← whole, List.find?_append, found]
  rfl

theorem createProcedureAs_becomes {w w' : Workspace} {definition : SavedBlock} {name : String}
    {params : List VariableId} {returns : Bool}
    (made : edit w (.createProcedureAs ⟨definition.record.id ++ "_procedure"⟩ ⟨definition.record.id⟩ name params
      returns) = .ok w') (lengths : params.length = (declaredParams definition).length) :
    Becomes w'.graph definition params ∧ w.graph.procedures <+: w'.graph.procedures ∧
      w'.graph.vars = w.graph.vars := by
  obtain ⟨reply, applied⟩ := edit_eq_ok.mp made
  obtain ⟨g, created, rfl⟩ := Workspace.keepSerial_eq_ok applied
  obtain ⟨absent, _, name', _, same⟩ := createProcedure_eq_ok.mp created
  obtain ⟨p, id, facts, grown⟩ : ∃ p : Procedure, p.id = ⟨definition.record.id ++ "_procedure"⟩ ∧
      (p.definition = ⟨definition.record.id⟩ ∧ p.params = params) ∧
      w'.graph.procedures = w.graph.procedures ++ [p] := by
    rw [same]
    exact ⟨⟨_, name', params, returns, _⟩, rfl, ⟨rfl, rfl⟩, rfl⟩
  have vars : w'.graph.vars = w.graph.vars := by
    rw [same]
    rfl
  rw [Becomes, procedureWith?, grown]
  refine ⟨⟨p, ?_, facts.1, facts.2, lengths⟩, List.prefix_append _ _, vars⟩
  rw [procedureWith?] at absent
  rw [List.find?_append, absent, Option.none_or, List.find?_cons, id, beq_self_eq_true]

theorem declareNative_accounts {natives : List (String × SavedBlock)} {w w' : Workspace}
    (accounts : Accounts listed w.graph history) (made : declareNative w natives = .ok w') :
    ∃ bound : List (List VariableId),
      List.Forall₂ (Becomes w'.graph) (natives.map (·.2)) bound ∧ w.graph.procedures <+: w'.graph.procedures ∧
        Accounts listed w'.graph (history ++ ((natives.map (·.2)).flatMap declaredParams).zip bound.flatten) := by
  induction natives generalizing w history with
  | nil =>
    cases made
    exact ⟨[], .nil, List.prefix_rfl, by simpa using accounts⟩
  | cons head rest ih =>
    obtain ⟨name, definition⟩ := head
    rw [declareNative] at made
    simp only at made
    split at made
    · cases made
    · obtain ⟨⟨mid, params⟩, resolved, later⟩ := bind_eq_ok.mp made
      obtain ⟨last, created, remaining⟩ := bind_eq_ok.mp later
      obtain ⟨lengths, procedures, all⟩ := resolveParams_accounts accounts resolved
      have lengths : params.length = (declaredParams definition).length := lengths
      obtain ⟨becomes, more, vars⟩ := createProcedureAs_becomes created lengths
      obtain ⟨bound, others, longer, whole⟩ := ih (all.of_vars vars) remaining
      refine ⟨params :: bound, .cons (becomes.later longer) others, procedures ▸ more.trans longer, ?_⟩
      simp only [List.map_cons, List.flatMap_cons, List.flatten_cons]
      rw [List.zip_append lengths.symm, ← List.append_assoc]
      exact whole

theorem sortDefinitions_native_eq {found : List SavedBlock} {seen : List String} {sorted : Definitions}
    (made : sortDefinitions seen found = .ok sorted) : sorted.native.map (·.2) = found.filter isNative := by
  induction found generalizing seen sorted with
  | nil =>
    cases made
    rfl
  | cons definition rest ih =>
    rw [sortDefinitions] at made
    split at made
    · next members named =>
      have other : isNative definition = false := by rw [isNative, named]
      split at made
      · cases made
      · split at made
        · cases made
        · obtain ⟨others, sortedRest, rfl⟩ := map_eq_ok.mp made
          have later := ih sortedRest
          rw [List.filter_cons_of_neg (by simp [other])]
          exact later
    · next name named =>
      have own : isNative definition = true := by rw [isNative, named]
      obtain ⟨others, sortedRest, rfl⟩ := map_eq_ok.mp made
      rw [List.filter_cons_of_pos own, List.map_cons, ih sortedRest]
    · cases made

-- Before the first parameter, the table has the variables of the form and no others.
theorem createVariables_accounts {vars : List SavedVariable} {w w' : Workspace}
    (accounts : Accounts listed w.graph [])
    (made : editAll w (vars.map fun v => .createVariableAs ⟨v.id⟩ v.name) = .ok w') :
    Accounts (listed ++ vars.map (·.id)) w'.graph [] := by
  induction vars generalizing w listed with
  | nil =>
    cases made
    simpa using accounts
  | cons v rest ih =>
    obtain ⟨mid, first, later⟩ := bind_eq_ok.mp made
    obtain ⟨reply, applied⟩ := edit_eq_ok.mp first
    obtain ⟨g, created, rfl⟩ := Workspace.keepSerial_eq_ok applied
    obtain ⟨_, name, _, same⟩ := createVariable_eq_ok.mp created
    have start : Accounts (listed ++ [v.id]) mid.graph [] := by
      refine ⟨fun x => ?_, by simp, by simp, by simp⟩
      rw [same, variableWith?_addVariable, accounts.table]
      simp [eq_comm]
    have whole := ih start later
    rwa [List.append_assoc, List.singleton_append] at whole

theorem declareListed_vars {procedures : List SavedProcedure} {bound : List (String × SavedBlock)} {w w' : Workspace}
    (made : declareListed bound w procedures = .ok w') : w'.graph.vars = w.graph.vars := by
  induction procedures generalizing bound w with
  | nil =>
    cases bound with
    | nil =>
      cases made
      rfl
    | cons head rest => cases made
  | cons procedure rest ih =>
    rw [declareListed] at made
    split at made
    · exact ih made
    · next definition found =>
      obtain ⟨mid, created, later⟩ := bind_eq_ok.mp made
      obtain ⟨reply, applied⟩ := edit_eq_ok.mp created
      obtain ⟨g, created, rfl⟩ := Workspace.keepSerial_eq_ok applied
      obtain ⟨_, _, _, _, same⟩ := createProcedure_eq_ok.mp created
      rw [ih later, same]
      rfl

end

-- Every definition of a form that speaks for itself becomes a procedure with a variable for each of
-- its parameters. They are what the definitions declare, one after another, but for an id that is
-- neither listed nor declared before and is the id of a variable that was made up for an earlier
-- parameter: it stands for that variable.
theorem native_parameters_bound {form : Form} {w : Workspace} (restored : restore form = .ok w) :
    ∃ bound : List (List VariableId), List.Forall₂ (Becomes w.graph) form.nativeDefinitions bound ∧
      ∀ before entry after,
        (form.nativeDefinitions.flatMap declaredParams).zip bound.flatten = before ++ entry :: after →
        (¬Clashes (form.vars.map (·.id)) before entry.1 →
          AsDeclared (form.vars.map (·.id)) w.graph.vars before entry) ∧
        (Clashes (form.vars.map (·.id)) before entry.1 → entry.1.id = some entry.2.text) := by
  obtain ⟨tables, declared, later⟩ := bind_eq_ok.mp restored
  obtain ⟨planned, _, carried⟩ := bind_eq_ok.mp later
  obtain ⟨start, first, later⟩ := bind_eq_ok.mp declared
  obtain ⟨sorted, divided, later⟩ := bind_eq_ok.mp later
  obtain ⟨listed, second, third⟩ := bind_eq_ok.mp later
  have none : Accounts [] Workspace.empty.graph [] :=
    ⟨fun x => by simp [variableWith?, Workspace.empty, Graph.empty], by simp, by simp, by simp⟩
  have accounts : Accounts (form.vars.map (·.id)) listed.graph [] :=
    (createVariables_accounts none first).of_vars (declareListed_vars second)
  obtain ⟨bound, becomes, _, all⟩ := declareNative_accounts accounts third
  obtain ⟨procedures, vars⟩ := editAll_spares (script_spares form planned) carried
  rw [sortDefinitions_native_eq divided] at becomes all
  refine ⟨bound, becomes.imp fun _ _ made => made.later (by rw [procedures]), fun before entry after split => ?_⟩
  exact ⟨fun free => (all.declared before entry after split free).mono vars.subset, all.taken before entry after split⟩

-- A definition with nothing below it.
def selfDefined (id name : String) (params : List SavedParam) : SavedBlock :=
  .mk { kind := "procedures_defnoreturn", id := id, fields := .ofList [("NAME", .text name)],
        extra := some { params := some params } } [] none

-- A variable for a name, one that is listed, one that is declared and then used by its id, and one
-- that is found by its name.
theorem mixed_parameters_bound :
    let form : Form := { vars := [⟨"Total", "t"⟩], blocks := [
      selfDefined "d1" "f" [⟨"a", none⟩, ⟨"x", some "t"⟩, ⟨"b", some "k"⟩],
      selfDefined "d2" "g" [⟨"c", some "k"⟩, ⟨" A", some "q"⟩]] }
    ∃ w, restore form = .ok w ∧
      w.graph.procedures.map (·.params) = [[⟨"v1"⟩, ⟨"t"⟩, ⟨"k"⟩], [⟨"k"⟩, ⟨"v1"⟩]] ∧
      w.graph.vars = [⟨⟨"t"⟩, "Total"⟩, ⟨⟨"v1"⟩, "a"⟩, ⟨⟨"k"⟩, "b"⟩] ∧
      ∃ bound : List (List VariableId), List.Forall₂ (Becomes w.graph) form.nativeDefinitions bound ∧
        ∀ before entry after,
          (form.nativeDefinitions.flatMap declaredParams).zip bound.flatten = before ++ entry :: after →
          (¬Clashes ["t"] before entry.1 → AsDeclared ["t"] w.graph.vars before entry) ∧
          (Clashes ["t"] before entry.1 → entry.1.id = some entry.2.text) := by
  intro form
  have tables : (restore form).toOption.map (fun w => (w.graph.procedures.map (·.params), w.graph.vars))
      = some ([[⟨"v1"⟩, ⟨"t"⟩, ⟨"k"⟩], [⟨"k"⟩, ⟨"v1"⟩]],
        [⟨⟨"t"⟩, "Total"⟩, ⟨⟨"v1"⟩, "a"⟩, ⟨⟨"k"⟩, "b"⟩]) := by decide +kernel
  cases made : restore form with
  | error error => simp [made, Except.toOption] at tables
  | ok w =>
    rw [made] at tables
    have same := Option.some.inj tables
    exact ⟨w, rfl, congrArg Prod.fst same, congrArg Prod.snd same, native_parameters_bound made⟩

-- The variable that is made up for the first parameter has the id that the second one writes.
theorem generated_variable_taken_over :
    let form : Form := { blocks := [selfDefined "d1" "f" [⟨"a", none⟩], selfDefined "d2" "g" [⟨"b", some "v1"⟩]] }
    ∃ w, restore form = .ok w ∧ w.graph.procedures.map (·.params) = [[⟨"v1"⟩], [⟨"v1"⟩]] ∧
      w.graph.vars = [⟨⟨"v1"⟩, "a"⟩] ∧
      ¬AsDeclared [] w.graph.vars [(⟨"a", none⟩, ⟨"v1"⟩)] (⟨"b", some "v1"⟩, ⟨"v1"⟩) := by
  intro form
  have tables : (restore form).toOption.map (fun w => (w.graph.procedures.map (·.params), w.graph.vars))
      = some ([[⟨"v1"⟩], [⟨"v1"⟩]], [⟨⟨"v1"⟩, "a"⟩]) := by decide +kernel
  cases made : restore form with
  | error error => simp [made, Except.toOption] at tables
  | ok w =>
    rw [made] at tables
    have same := Option.some.inj tables
    have vars : w.graph.vars = [⟨⟨"v1"⟩, "a"⟩] := congrArg Prod.snd same
    refine ⟨w, rfl, congrArg Prod.fst same, vars, fun declared => ?_⟩
    have free : ∀ x, (⟨"b", some "v1"⟩ : SavedParam).id = some x →
        ¬(x ∈ ([] : List String) ∨ DeclaredIn [(⟨"a", none⟩, ⟨"v1"⟩)] x) := by
      intro x _
      simp [DeclaredIn]
    obtain ⟨v, member, _, named⟩ := declared.named free
    rw [vars, List.mem_singleton] at member
    rw [member] at named
    exact absurd named (by decide +kernel)

end Blockwork.Snapshot

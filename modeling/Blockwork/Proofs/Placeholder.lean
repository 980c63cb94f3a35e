import Mathlib
import Blockwork.Proofs.CompleteHoisting

-- The placeholder that assignments without a variable take for their target. The table of names does
-- not know of it, so a name that comes down to one underscore gets it as its identifier.
namespace Blockwork

open Python

namespace Generation

-- A name of one character, which is no letter or digit of ASCII.
def isLone (name : String) : Bool :=
  match name.toList with
  | [c] => !c.isAlphanum
  | _ => false

theorem legalize_eq_noTarget {name : String} (trimmed : Text.trim name = name) :
    legalize name = noTarget ↔ isLone name = true := by
  unfold legalize isLone noTarget
  rw [trimmed]
  match name.toList with
  | [] => decide
  | [c] =>
    cases alnum : c.isAlphanum with
    | true =>
      have kept : isNameChar c = true := by simp [isNameChar, alnum]
      simp only [List.map_cons, List.map_nil, kept, if_true, alnum, Bool.not_true, Bool.false_eq_true, iff_false]
      intro same
      have chars := congrArg String.toList same
      split at chars
      · simp at chars
      · simp only [String.toList_ofList] at chars
        obtain rfl : c = '_' := by simpa using chars
        cases alnum
    | false =>
      have turned : (if isNameChar c = true then c else '_') = '_' := by
        split
        · next kept => simpa [isNameChar, alnum] using kept
        · rfl
      simp only [List.map_cons, List.map_nil, turned, alnum]
      decide
  | c :: d :: rest =>
    simp only [List.map_cons, Bool.false_eq_true, iff_false]
    intro same
    have long := congrArg (fun s : String => s.toList.length) same
    generalize (if isNameChar c = true then c else '_') = first at long
    split at long
    · simp at long
    · simp at long

-- A number at the end is no underscore.
theorem distinct_eq_noTarget {taken : List String} {base : String} :
    distinct taken base = noTarget ↔ base = noTarget ∧ noTarget ∉ taken := by
  unfold distinct
  split
  · next busy =>
    rw [List.contains_iff_mem] at busy
    obtain ⟨n, numbered⟩ := numbered_eq taken base taken.length 2
    rw [numbered]
    constructor
    · intro same
      have chars := congrArg String.toList same
      obtain ⟨digits, filled⟩ := digits_chars n
      obtain ⟨c, inside⟩ := List.exists_mem_of_ne_nil _ filled
      have digit := List.all_eq_true.mp digits c inside
      have only : c ∈ noTarget.toList := by
        rw [← chars, String.toList_append]
        exact List.mem_append_right _ inside
      obtain rfl : c = '_' := by simpa [noTarget] using only
      cases digit
    · rintro ⟨rfl, free⟩
      exact absurd busy free
  · next free =>
    rw [List.contains_iff_mem] at free
    exact ⟨fun same => ⟨same, same ▸ free⟩, fun both => both.1⟩

section

variable {α ι : Type} {key : α → ι} {name : α → String} {items : List α} {taken : List String}

-- The first lone name gets the placeholder if nobody has it yet, and nobody else gets it.
theorem issued_lone (single : items.Nodup) (trimmed : ∀ a ∈ items, Text.trim (name a) = name a)
    (free : noTarget ∉ taken) {a : α} {given : String}
    (listed : (a, given) ∈ items.zip (issued taken (items.map name))) :
    given = noTarget ↔ items.find? (fun a => isLone (name a)) = some a := by
  induction items generalizing taken with
  | nil => simp at listed
  | cons b rest ih =>
    obtain ⟨new, single⟩ := List.nodup_cons.mp single
    obtain ⟨trimmedFirst, trimmed⟩ := List.forall_mem_cons.mp trimmed
    have legal := legalize_eq_noTarget trimmedFirst
    simp only [List.map_cons, issued, List.zip_cons_cons, List.mem_cons] at listed
    cases lone : isLone (name b) with
    | true =>
      have first : distinct taken (legalize (name b)) = noTarget :=
        distinct_eq_noTarget.mpr ⟨legal.mpr lone, free⟩
      rw [List.find?_cons, lone, Option.some.injEq]
      rcases listed with same | later
      · cases same
        exact ⟨fun _ => rfl, fun _ => first⟩
      · obtain ⟨member, among⟩ := List.of_mem_zip later
        constructor
        · rintro rfl
          exact absurd (first ▸ List.mem_cons_self) (issued_free among)
        · rintro rfl
          exact absurd member new
    | false =>
      have other : distinct taken (legalize (name b)) ≠ noTarget := by
        intro same
        rw [legal.mp (distinct_eq_noTarget.mp same).1] at lone
        cases lone
      rw [List.find?_cons, lone]
      rcases listed with same | later
      · cases same
        exact ⟨fun same => absurd same other, fun found => absurd (List.mem_of_find?_eq_some found) new⟩
      · apply ih single trimmed _ later
        rw [List.mem_cons, not_or]
        exact ⟨other.symm, free⟩

theorem exists_issued (taken : List String) (name : α → String) {a : α} (member : a ∈ items) :
    ∃ given, (a, given) ∈ items.zip (issued taken (items.map name)) := by
  have long : items.length ≤ (issued taken (items.map name)).length := by simp
  rw [← List.map_fst_zip long] at member
  obtain ⟨⟨b, given⟩, listed, rfl⟩ := List.mem_map.mp member
  exact ⟨given, listed⟩

theorem exists_first {a : α} (member : a ∈ items) (lone : isLone (name a) = true) :
    ∃ b, items.find? (fun a => isLone (name a)) = some b :=
  Option.isSome_iff_exists.mp (List.find?_isSome.mpr ⟨a, member, lone⟩)

theorem noTarget_mem_issued (table : Named key name items) (free : noTarget ∉ taken) :
    noTarget ∈ issued taken (items.map name) ↔ ∃ a ∈ items, isLone (name a) = true := by
  have single : items.Nodup := .of_map _ table.ids
  have trimmed : ∀ a ∈ items, Text.trim (name a) = name a := fun a member => (table.filled a member).1
  constructor
  · intro given
    have long : (issued taken (items.map name)).length ≤ items.length := by simp
    rw [← List.map_snd_zip long] at given
    obtain ⟨⟨a, _⟩, listed, rfl⟩ := List.mem_map.mp given
    have found := (issued_lone single trimmed free listed).mp rfl
    have lone := List.find?_some found
    exact ⟨a, List.mem_of_find?_eq_some found, lone⟩
  · rintro ⟨a, member, lone⟩
    obtain ⟨b, found⟩ := exists_first member lone
    obtain ⟨given, listed⟩ := exists_issued taken name (List.mem_of_find?_eq_some found)
    rw [← (issued_lone single trimmed free listed).mpr found]
    exact (List.of_mem_zip listed).2

theorem lookup_lone [BEq ι] [LawfulBEq ι] (table : Named key name items) (free : noTarget ∉ taken) (id : ι) :
    ((items.map key).zip (issued taken (items.map name))).reverse.lookup id = some noTarget ↔
      (items.find? fun a => isLone (name a)).map key = some id := by
  have single : items.Nodup := .of_map _ table.ids
  have trimmed : ∀ a ∈ items, Text.trim (name a) = name a := fun a member => (table.filled a member).1
  have entry : ∀ given, ((items.map key).zip (issued taken (items.map name))).reverse.lookup id = some given →
      ∃ a, key a = id ∧ (a, given) ∈ items.zip (issued taken (items.map name)) := by
    intro given found
    obtain ⟨before, after, split, _⟩ := List.lookup_eq_some_iff.mp found
    have member : (id, given) ∈ (items.map key).zip (issued taken (items.map name)) := by
      rw [← List.mem_reverse, split]
      simp
    rw [List.zip_map_left] at member
    obtain ⟨⟨a, _⟩, listed, same⟩ := List.mem_map.mp member
    cases same
    exact ⟨a, rfl, listed⟩
  rw [Option.map_eq_some_iff]
  constructor
  · intro found
    obtain ⟨a, same, listed⟩ := entry noTarget found
    exact ⟨a, (issued_lone single trimmed free listed).mp rfl, same⟩
  · rintro ⟨a, found, rfl⟩
    have member := List.mem_of_find?_eq_some found
    have long : (items.map key).length ≤ (issued taken (items.map name)).length := by simp
    obtain ⟨given, named⟩ := lookup_zip_found long (List.mem_map.mpr ⟨a, member, rfl⟩)
    obtain ⟨b, same, listed⟩ := entry given named
    obtain rfl : b = a := List.inj_on_of_nodup_map table.ids (List.of_mem_zip listed).1 member same
    rw [named, (issued_lone single trimmed free listed).mpr found]

end

-- No block relies on a name like it.
theorem noTarget_unrelied (block : Block) : noTarget ∉ reservedNames block := by
  unfold reservedNames
  cases block.kind with
  | number =>
    dsimp only
    split
    · split
      · decide
      · decide
    · decide
  | aggregate =>
    dsimp only
    split <;> decide
  | _ => simp [noTarget]

theorem noTarget_unreserved (g : Graph) : noTarget ∉ keywords ++ reservedIn g := by
  intro listed
  rcases List.mem_append.mp listed with keyword | reserved
  · exact absurd keyword (by decide)
  · obtain ⟨block, _, relied⟩ := reserved_iff.mp reserved
    exact noTarget_unrelied block relied

variable {g : Graph} {ledger : Ledger}

theorem Grants.keeps (grants : Grants g ledger) : Keeps (.build g (reservedIn g)) ledger.names := by
  induction grants with
  | start => exact .refl _
  | count _ ih => exact ih.trans (.claim _ _)
  | help _ fresh ih => exact ih.trans (.remember fresh)

theorem Grants.placeholder_variable (grants : Grants g ledger) (table : Named (·.id) (·.name) g.vars)
    (id : VariableId) : ledger.names.variableName? id = some noTarget ↔
      (g.vars.find? fun v => isLone v.name).map (·.id) = some id := by
  rw [grants.keeps.variableName?, NameTable.build_eq]
  exact lookup_lone table (noTarget_unreserved g) id

theorem Grants.placeholder_procedure (grants : Grants g ledger) (vars : Named (·.id) (·.name) g.vars)
    (table : Named (·.id) (·.name) g.procedures) (id : ProcedureId) :
    ledger.names.procedureName? id = some noTarget ↔ (∀ v ∈ g.vars, isLone v.name = false) ∧
      (g.procedures.find? fun p => isLone p.name).map (·.id) = some id := by
  have taken := noTarget_mem_issued vars (noTarget_unreserved g)
  rw [grants.keeps.procedureName?, NameTable.build_eq]
  by_cases given : noTarget ∈ issued (keywords ++ reservedIn g) (g.vars.map (·.name))
  · obtain ⟨v, listed, lone⟩ := taken.mp given
    constructor
    · intro found
      exact absurd (by simp [given]) (issued_free (mem_of_lookup_zip found))
    · intro both
      rw [both.1 v listed] at lone
      cases lone
  · have none : ∀ v ∈ g.vars, isLone v.name = false := by
      intro v listed
      rw [← Bool.not_eq_true]
      exact fun lone => given (taken.mpr ⟨v, listed, lone⟩)
    have free : noTarget ∉ (issued (keywords ++ reservedIn g) (g.vars.map (·.name))).reverse
        ++ (keywords ++ reservedIn g) := by
      rw [List.mem_append, List.mem_reverse, not_or]
      exact ⟨given, noTarget_unreserved g⟩
    exact (lookup_lone table free id).trans (and_iff_right none).symm

-- What a pass makes up by itself begins with a letter.
theorem Grants.placeholder_unclaimed (grants : Grants g ledger) :
    noTarget ∉ ledger.counters ∧ ∀ key, ledger.names.helperName? key ≠ some noTarget := by
  refine ⟨fun counter => ?_, fun key helper => ?_⟩
  · exact absurd (grants.counters_begin noTarget counter) (by decide)
  · exact absurd (grants.helper helper).1 (by decide)

-- Blocks that assign to a variable, and the text of their line up to its target and what joins it to
-- the rest.
def assigns : Kind → Bool
  | .countWith | .forEach | .changeBy | .variableSet => true
  | _ => false

def opening : Kind → String → String
  | .countWith, target => "for " ++ target ++ " in range("
  | .forEach, target => "for " ++ target ++ " in "
  | .changeBy, target => target ++ " "
  | _, target => target ++ " = "

-- The line begins with the opening, however the rest of it is put together.
theorem opens_with {front content rest : String} {lines : List Line} (whole : content = front ++ rest) :
    ∃ rest lines', Code.statement (.flat content :: lines) = .statement (.flat (front ++ rest) :: lines') :=
  ⟨rest, lines, by rw [whole]⟩

theorem rule_opens {block : Block} (assigning : assigns block.kind = true) (below : Below) (inLoop : Bool)
    (s : PassState) : ∃ rest lines, ((rule block below inLoop).run s).1 = .statement
      (.flat (opening block.kind (((block.variableIn? "VAR").bind s.names.variableName?).getD noTarget) ++ rest)
        :: lines) := by
  unfold rule
  cases kind : block.kind with
  | countWith | forEach => exact opens_with String.append_assoc
  | changeBy => exact opens_with (String.append_assoc.trans String.append_assoc)
  | variableSet => exact opens_with rfl
  | _ =>
    rw [kind] at assigning
    cases assigning

-- Who has the placeholder for an identifier: the first variable with a lone name, else the first such
-- procedure, and nobody if there is no such name.
structure PlaceholderGiven (g : Graph) (ledger : Ledger) : Prop where
  given : ledger.Gives noTarget ↔
    ∃ name ∈ g.vars.map (·.name) ++ g.procedures.map (·.name), isLone name = true
  toVariable : ∀ id, ledger.names.variableName? id = some noTarget ↔
    (g.vars.find? fun v => isLone v.name).map (·.id) = some id
  toProcedure : ∀ id, ledger.names.procedureName? id = some noTarget ↔
    (∀ v ∈ g.vars, isLone v.name = false) ∧ (g.procedures.find? fun p => isLone p.name).map (·.id) = some id
  counters : noTarget ∉ ledger.counters
  helpers : ∀ key, ledger.names.helperName? key ≠ some noTarget

theorem Grants.placeholder (grants : Grants g ledger) (vars : Named (·.id) (·.name) g.vars)
    (procedures : Named (·.id) (·.name) g.procedures) : PlaceholderGiven g ledger := by
  have toVariable := grants.placeholder_variable vars
  have toProcedure := grants.placeholder_procedure vars procedures
  obtain ⟨counters, helpers⟩ := grants.placeholder_unclaimed
  refine ⟨⟨fun given => ?_, ?_⟩, toVariable, toProcedure, counters, helpers⟩
  · cases given with
    | toVariable id named =>
      obtain ⟨v, found, _⟩ := Option.map_eq_some_iff.mp ((toVariable id).mp named)
      have lone := List.find?_some found
      refine ⟨v.name, List.mem_append_left _ (List.mem_map.mpr ⟨v, ?_, rfl⟩), lone⟩
      exact List.mem_of_find?_eq_some found
    | toProcedure id named =>
      obtain ⟨p, found, _⟩ := Option.map_eq_some_iff.mp ((toProcedure id).mp named).2
      have lone := List.find?_some found
      refine ⟨p.name, List.mem_append_right _ (List.mem_map.mpr ⟨p, ?_, rfl⟩), lone⟩
      exact List.mem_of_find?_eq_some found
    | toCounter listed => exact absurd listed counters
    | toHelper key named => exact absurd named (helpers key)
  · rintro ⟨name, listed, lone⟩
    by_cases among : ∃ v ∈ g.vars, isLone v.name = true
    · obtain ⟨v, member, lone⟩ := among
      obtain ⟨first, found⟩ := exists_first member lone
      exact .toVariable first.id ((toVariable first.id).mpr (by rw [found, Option.map_some]))
    · have none : ∀ v ∈ g.vars, isLone v.name = false := by
        intro v member
        rw [← Bool.not_eq_true]
        exact fun lone => among ⟨v, member, lone⟩
      rcases List.mem_append.mp listed with ofVariable | ofProcedure
      · obtain ⟨v, member, rfl⟩ := List.mem_map.mp ofVariable
        exact absurd ⟨v, member, lone⟩ among
      · obtain ⟨p, member, rfl⟩ := List.mem_map.mp ofProcedure
        obtain ⟨first, found⟩ := exists_first member lone
        exact .toProcedure first.id ((toProcedure first.id).mpr ⟨none, by rw [found, Option.map_some]⟩)

theorem passNames_granted (wf : g.WellFormed) : ∃ counters, Grants g ⟨passNames g, counters⟩ := by
  obtain ⟨counters, final⟩ := passEnd_accountable wf
  exact ⟨counters, final.grants⟩

theorem gives_of_passNames (wf : g.WellFormed) {id : VariableId} {name : String}
    (named : (passNames g).variableName? id = some name) :
    ∃ ledger, Grants g ledger ∧ ledger.names = passNames g ∧ ledger.Gives name := by
  obtain ⟨counters, grants⟩ := passNames_granted wf
  exact ⟨_, grants, rfl, .toVariable id named⟩

theorem placeholder_given_to_lone_name {w : Workspace} (reached : w.Reachable) :
    (∃ counters, Grants w.graph ⟨passNames w.graph, counters⟩) ∧
    (∀ ledger, Grants w.graph ledger → PlaceholderGiven w.graph ledger) ∧
    ∀ block below inLoop s, assigns block.kind = true → block.variableIn? "VAR" = none →
      ∃ rest lines, ((rule block below inLoop).run s).1
        = .statement (.flat (opening block.kind noTarget ++ rest) :: lines) := by
  have wf := reached.wellFormed
  refine ⟨passNames_granted wf, fun ledger grants => ?_, fun block below inLoop s assigning unbound => ?_⟩
  · exact grants.placeholder wf.variableNames wf.procedureNames
  · have opens := rule_opens assigning below inLoop s
    rw [unbound] at opens
    exact opens

-- Names that come close to the placeholder without being it.
theorem near_names_leave_placeholder :
    let w := (Editing.Session.runAll {} false
      [.edit (.createVariable "__"), .edit (.createVariable "é1"), .edit (.createVariable "7"),
        .edit (.addBlock .repeatTimes), .edit (.addBlock .variableSet),
        .edit (.attach ⟨"b4"⟩ (.body "DO") ⟨"b5"⟩)]).1.workspace
    compile w.graph {} = "for count in range(0):\n  _ = None\n" ∧
      w.graph.vars.map (fun v => (passNames w.graph).variableName? v.id) = [some "__", some "_1", some "my_7"] ∧
      ∀ ledger, Grants w.graph ledger → ¬ledger.Gives noTarget := by
  intro w
  have reached : w.Reachable := Editing.Session.runAll_reachable false _
  obtain ⟨_, all, _⟩ := placeholder_given_to_lone_name reached
  have none : ∀ name ∈ w.graph.vars.map (·.name) ++ w.graph.procedures.map (·.name), isLone name = false := by
    decide +kernel
  refine ⟨by decide +kernel, by decide +kernel, fun ledger grants given => ?_⟩
  obtain ⟨name, listed, lone⟩ := (all ledger grants).given.mp given
  rw [none name listed] at lone
  cases lone

-- An assignment without a variable overwrites the one whose name is a single letter of another script.
theorem lone_name_overwritten :
    let w := (Editing.Session.runAll {} false
      [.edit (.createVariable "π"), .edit (.addBlock .variableSet), .edit (.addBlock .text),
        .edit (.addBlock .variableSet), .edit (.addBlock .print), .edit (.addBlock .variableGet),
        .edit (.setField ⟨"b2"⟩ "VAR" (.variableRef ⟨"v1"⟩)), .edit (.setField ⟨"b3"⟩ "TEXT" (.text "3.14")),
        .edit (.setField ⟨"b6"⟩ "VAR" (.variableRef ⟨"v1"⟩)), .edit (.attach ⟨"b2"⟩ (.input "VALUE") ⟨"b3"⟩),
        .edit (.attach ⟨"b2"⟩ .next ⟨"b4"⟩), .edit (.attach ⟨"b4"⟩ .next ⟨"b5"⟩),
        .edit (.attach ⟨"b5"⟩ (.input "TEXT") ⟨"b6"⟩)]).1.workspace
    w.Reachable ∧ compile w.graph {} = "_ = '3.14'\n_ = None\nprint(_)\n" ∧
      (passNames w.graph).variableName? ⟨"v1"⟩ = some noTarget ∧
      ¬∀ ledger, Grants w.graph ledger → ledger.names = passNames w.graph → ¬ledger.Gives noTarget := by
  intro w
  have reached : w.Reachable := Editing.Session.runAll_reachable false _
  have named : (passNames w.graph).variableName? ⟨"v1"⟩ = some noTarget := by decide +kernel
  refine ⟨reached, by decide +kernel, named, fun apart => ?_⟩
  obtain ⟨ledger, grants, same, given⟩ := gives_of_passNames reached.wellFormed named
  exact apart ledger grants same given

end Generation

end Blockwork

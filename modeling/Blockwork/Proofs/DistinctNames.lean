import Mathlib
import Blockwork.Proofs.Phrases
import Blockwork.Proofs.Reachability

-- No identifier is given to two things. Variables, procedures and whoever asks
-- later draw from one stock of names, and a name that was given is not given
-- again, however names collapse when they are made legal.
namespace Blockwork.Python

-- A letter or an underscore, then letters, digits and underscores, all of ASCII.
def NameShaped (name : String) : Prop :=
  ∃ first rest, name.toList = first :: rest ∧ (first.isAlpha = true ∨ first = '_') ∧
    ∀ c ∈ rest, c.isAlphanum = true ∨ c = '_'

theorem nameShaped_iff {name : String} : NameShaped name ↔ Word name.toList := by
  have named : ∀ c : Char, isNameChar c = true ↔ c.isAlphanum = true ∨ c = '_' := by
    intro c
    simp [isNameChar]
  constructor
  · rintro ⟨first, rest, split, letter, others⟩
    rw [split]
    refine ⟨by simp, ?_, ?_⟩
    · rcases letter with alpha | rfl
      · simp only [List.head?_cons, Option.any_some]
        by_contra digit
        rw [Bool.not_eq_false] at digit
        simp only [Char.isAlpha, Char.isUpper, Char.isLower, Char.isDigit, ge_iff_le,
          Bool.or_eq_true, Bool.and_eq_true, decide_eq_true_eq, UInt32.le_iff_toNat_le] at alpha digit
        simp at alpha digit
        omega
      · rfl
    · refine List.all_eq_true.mpr (List.forall_mem_cons.mpr ⟨(named first).mpr ?_, ?_⟩)
      · exact letter.imp (fun alpha => by simp [Char.isAlphanum, alpha]) id
      · exact fun c member => (named c).mpr (others c member)
  · rintro ⟨filled, letter, chars⟩
    cases split : name.toList with
    | nil => exact absurd split filled
    | cons first rest =>
      rw [split] at letter chars
      simp only [List.head?_cons, Option.any_some] at letter
      have all := List.forall_mem_cons.mp (List.all_eq_true.mp chars)
      refine ⟨first, rest, split, ?_, fun c member => (named c).mp (all.2 c member)⟩
      simpa [Char.isAlphanum, letter] using (named first).mp all.1

-- A legal name has neither blanks to trim nor anything to replace.
theorem trim_word {name : String} (word : Word name.toList) : Text.trim name = name := by
  have solid : ∀ c ∈ name.toList, ¬Text.isBlank c = true := by
    intro c member
    have named := List.all_eq_true.mp word.chars c member
    simp [(blank_of_opensText (c := c) (by simp [opensText, named])).1]
  have kept : ∀ cs : List Char, (∀ c ∈ cs, ¬Text.isBlank c = true) → cs.dropWhile Text.isBlank = cs := by
    intro cs none
    cases cs with
    | nil => rfl
    | cons c rest => rw [List.dropWhile_cons_of_neg (none c List.mem_cons_self)]
  unfold Text.trim Text.trimBoth Text.trimRight
  rw [kept _ solid, kept _ fun c member => solid c (List.mem_reverse.mp member), List.reverse_reverse,
    String.ofList_toList]

theorem legalize_of_word {name : String} (word : Word name.toList) : legalize name = name := by
  have same : name.toList.map (fun c => if isNameChar c then c else '_') = name.toList := by
    refine (List.map_congr_left fun c member => ?_).trans (List.map_id _)
    rw [if_pos (List.all_eq_true.mp word.chars c member), id]
  unfold legalize
  rw [trim_word word, same]
  dsimp only
  split
  · next none => exact absurd none word.filled
  · next first rest split =>
    have letter : first.isDigit = false := by simpa [split] using word.letter
    rw [letter, if_neg Bool.false_ne_true, String.ofList_toList]

theorem legalize_legalize (name : String) : legalize (legalize name) = legalize name :=
  legalize_of_word (legalize_word name)

-- The search looks at more candidates than names are taken.
theorem numbered_firstFree (taken : List String) (base : String) (tries n : Nat) :
    numbered taken base tries n
      = base ++ toString (firstFree (fun m => taken.contains (base ++ toString m)) tries n) := by
  induction tries generalizing n with
  | zero => rfl
  | succ tries ih =>
    rw [numbered, firstFree]
    split
    · exact ih (n + 1)
    · rfl

theorem distinct_free (taken : List String) (base : String) : distinct taken base ∉ taken := by
  unfold distinct
  split
  · rw [numbered_firstFree]
    have free : taken.contains (base ++ toString (firstFree
        (fun m => taken.contains (base ++ toString m)) taken.length 2)) = false := by
      refine firstFree_free (fun m => taken.contains (base ++ toString m)) fun ms distinct all => ?_
      have names : (ms.map fun m => base ++ toString m).Nodup :=
        distinct.map fun _ _ same => Kind.prefixed_inj same
      have inside : ms.map (fun m => base ++ toString m) ⊆ taken := by
        intro name member
        obtain ⟨m, listed, rfl⟩ := List.mem_map.mp member
        simpa using all m listed
      simpa using names.length_le_of_subset inside
    simpa using free
  · next free => simpa using free

-- Names given out one after another for the bases, where some are taken already.
def issued (taken : List String) : List String → List String
  | [] => []
  | base :: rest =>
    let name := distinct taken (legalize base)
    name :: issued (name :: taken) rest

section

variable {taken bases : List String} {name : String}

@[simp] theorem issued_length : (issued taken bases).length = bases.length := by
  induction bases generalizing taken with
  | nil => rfl
  | cons base rest ih => simp [issued, ih]

theorem issued_append (taken first second : List String) : issued taken (first ++ second)
    = issued taken first ++ issued ((issued taken first).reverse ++ taken) second := by
  induction first generalizing taken with
  | nil => rfl
  | cons base rest ih => simp [issued, ih]

theorem issued_free (given : name ∈ issued taken bases) : name ∉ taken := by
  induction bases generalizing taken with
  | nil => cases given
  | cons base rest ih =>
    rcases List.mem_cons.mp given with rfl | later
    · exact distinct_free taken _
    · exact fun old => ih later (List.mem_cons_of_mem _ old)

theorem issued_nodup : (issued taken bases).Nodup := by
  induction bases generalizing taken with
  | nil => exact List.nodup_nil
  | cons base rest ih =>
    exact List.nodup_cons.mpr ⟨fun again => issued_free again List.mem_cons_self, ih⟩

theorem issued_shaped (reserved : ∀ keyword ∈ keywords, keyword ∈ taken)
    (given : name ∈ issued taken bases) : NameShaped name := by
  induction bases generalizing taken with
  | nil => cases given
  | cons base rest ih =>
    rcases List.mem_cons.mp given with rfl | later
    · exact nameShaped_iff.mpr (.of_identifier (distinct_identifier (legalize_word base) reserved))
    · exact ih (fun keyword listed => List.mem_cons_of_mem _ (reserved keyword listed)) later

end

-- Ids that differ find the names that they were listed with.
theorem lookup_zip {α : Type} [BEq α] [LawfulBEq α] {ids : List α} {names : List String}
    (distinct : ids.Nodup) (long : names.length = ids.length) :
    ids.map (fun id => (ids.zip names).reverse.lookup id) = names.map some := by
  induction ids generalizing names with
  | nil =>
    obtain rfl := List.length_eq_zero_iff.mp long
    rfl
  | cons id rest ih =>
    obtain ⟨name, others, rfl⟩ := List.exists_cons_of_length_eq_add_one long
    obtain ⟨new, distinct⟩ := List.nodup_cons.mp distinct
    have later := ih distinct (Nat.succ.inj long)
    have absent : (rest.zip others).reverse.lookup id = none := by
      rw [List.lookup_eq_none_iff]
      rintro ⟨other, name⟩ member
      have listed := (List.of_mem_zip (List.mem_reverse.mp member)).1
      have different : id ≠ other := by
        rintro rfl
        exact new listed
      simpa using different
    have found : ∀ x ∈ rest, ((rest.zip others).reverse.lookup x).isSome := by
      intro x member
      have image : (rest.zip others).reverse.lookup x ∈ others.map some :=
        later ▸ List.mem_map.mpr ⟨x, member, rfl⟩
      obtain ⟨name, _, same⟩ := List.mem_map.mp image
      rw [← same]
      rfl
    rw [List.map_cons, List.map_cons, List.zip_cons_cons, List.reverse_cons, ← later]
    refine List.cons_eq_cons.mpr ⟨?_, List.map_congr_left fun x member => ?_⟩
    · rw [List.lookup_append, absent]
      simp
    · rw [List.lookup_append, Option.or_of_isSome (found x member)]

namespace NameTable

-- Asks for names one after another.
def claimAll (table : NameTable) : List String → List String × NameTable
  | [] => ([], table)
  | base :: rest =>
    let (name, table) := table.claim base
    let (names, table) := table.claimAll rest
    (name :: names, table)

theorem claimAll_eq (table : NameTable) (bases : List String) :
    table.claimAll bases = (issued table.taken bases,
      { table with taken := (issued table.taken bases).reverse ++ table.taken }) := by
  induction bases generalizing table with
  | nil => rfl
  | cons base rest ih => simp [claimAll, claim, take, issued, ih]

theorem addVariables_eq (table : NameTable) (vs : List Variable) :
    let names := issued table.taken (vs.map (·.name))
    vs.foldl addVariable table = { table with
      taken := names.reverse ++ table.taken
      vars := ((vs.map (·.id)).zip names).reverse ++ table.vars } := by
  induction vs generalizing table with
  | nil => rfl
  | cons v rest ih => simp [addVariable, claim, take, issued, ih]

theorem addProcedures_eq (table : NameTable) (ps : List Procedure) :
    let names := issued table.taken (ps.map (·.name))
    ps.foldl addProcedure table = { table with
      taken := names.reverse ++ table.taken
      procedures := ((ps.map (·.id)).zip names).reverse ++ table.procedures } := by
  induction ps generalizing table with
  | nil => rfl
  | cons p rest ih => simp [addProcedure, claim, take, issued, ih]

theorem build_eq (g : Graph) (reserved : List String) :
    let start := keywords ++ reserved
    let vars := issued start (g.vars.map (·.name))
    let procedures := issued (vars.reverse ++ start) (g.procedures.map (·.name))
    build g reserved = ⟨procedures.reverse ++ (vars.reverse ++ start),
      ((g.vars.map (·.id)).zip vars).reverse, ((g.procedures.map (·.id)).zip procedures).reverse, []⟩ := by
  simp [build, addVariables_eq, addProcedures_eq]

-- Asking takes nothing back.
theorem claimAll_keeps (table : NameTable) (bases : List String) :
    (table.claimAll bases).2.vars = table.vars ∧ (table.claimAll bases).2.procedures = table.procedures := by
  simp [claimAll_eq]

-- Building a table and asking it for more is one run of names.
theorem build_run (g : Graph) (reserved bases : List String) :
    ∃ ofVariables ofProcedures : List String,
      ofVariables.length = g.vars.length ∧ ofProcedures.length = g.procedures.length ∧
      (build g reserved).vars = ((g.vars.map (·.id)).zip ofVariables).reverse ∧
      (build g reserved).procedures = ((g.procedures.map (·.id)).zip ofProcedures).reverse ∧
      ofVariables ++ ofProcedures ++ ((build g reserved).claimAll bases).1
        = issued (keywords ++ reserved) (g.vars.map (·.name) ++ g.procedures.map (·.name) ++ bases) := by
  refine ⟨_, _, issued_length.trans (List.length_map _), issued_length.trans (List.length_map _),
    congrArg vars (build_eq g reserved), congrArg procedures (build_eq g reserved), ?_⟩
  rw [claimAll_eq, build_eq]
  simp only [issued_append, List.append_assoc]

end NameTable

theorem names_pairwise_distinct (g : Graph) (reserved bases : List String)
    (vars : (g.vars.map (·.id)).Nodup) (procedures : (g.procedures.map (·.id)).Nodup) :
    let table := NameTable.build g reserved
    let ofHelpers := (table.claimAll bases).1
    let later := (table.claimAll bases).2
    (∃ ofVariables ofProcedures : List String,
      g.vars.map (fun v => table.variableName? v.id) = ofVariables.map some ∧
      g.procedures.map (fun p => table.procedureName? p.id) = ofProcedures.map some ∧
      ofHelpers.length = bases.length ∧
      (ofVariables ++ ofProcedures ++ ofHelpers).Nodup ∧
      ∀ name ∈ ofVariables ++ ofProcedures ++ ofHelpers,
        NameShaped name ∧ name ∉ keywords ∧ name ∉ reserved) ∧
    (∀ id, later.variableName? id = table.variableName? id) ∧
    (∀ id, later.procedureName? id = table.procedureName? id) ∧
    ∀ text, NameShaped (legalize text) ∧ legalize (legalize text) = legalize text := by
  intro table ofHelpers later
  obtain ⟨keptVars, keptProcedures⟩ := table.claimAll_keeps bases
  refine ⟨?_, fun id => congrArg (List.lookup id) keptVars,
    fun id => congrArg (List.lookup id) keptProcedures,
    fun text => ⟨nameShaped_iff.mpr (legalize_word text), legalize_legalize text⟩⟩
  obtain ⟨ofVariables, ofProcedures, longVars, longProcedures, namedVars, namedProcedures, run⟩ :=
    NameTable.build_run g reserved bases
  refine ⟨ofVariables, ofProcedures, ?_, ?_, ?_, ?_, ?_⟩
  · have found := lookup_zip vars (longVars.trans (List.length_map _).symm)
    rw [← namedVars, List.map_map] at found
    exact found
  · have found := lookup_zip procedures (longProcedures.trans (List.length_map _).symm)
    rw [← namedProcedures, List.map_map] at found
    exact found
  · exact (congrArg List.length (congrArg Prod.fst (table.claimAll_eq bases))).trans issued_length
  · rw [run]
    exact issued_nodup
  · rw [run]
    intro name given
    have free := issued_free given
    rw [List.mem_append, not_or] at free
    exact ⟨issued_shaped (fun _ => List.mem_append_left _) given, free⟩

-- Four names that collapse, one of them to a keyword, and two helpers that run into them.
theorem collapsing_names_distinct :
    let g : Graph := ⟨.empty, [], [⟨⟨"v1"⟩, "my var"⟩, ⟨⟨"v2"⟩, "my_var"⟩, ⟨⟨"v3"⟩, " class "⟩],
      [⟨⟨"p4"⟩, "my-var", [], false, ⟨"b5"⟩⟩]⟩
    let table := NameTable.build g ["count"]
    let ofHelpers := (table.claimAll ["count", "my var2"]).1
    (g.vars.map (·.id)).Nodup ∧ (g.procedures.map (·.id)).Nodup ∧
    ofHelpers = ["count2", "my_var22"] ∧
    ∃ ofVariables ofProcedures : List String,
      g.vars.map (fun v => table.variableName? v.id) = ofVariables.map some ∧
      g.procedures.map (fun p => table.procedureName? p.id) = ofProcedures.map some ∧
      (ofVariables ++ ofProcedures ++ ofHelpers).Nodup ∧
      ∀ name ∈ ofVariables ++ ofProcedures ++ ofHelpers,
        NameShaped name ∧ name ∉ keywords ∧ name ∉ ["count"] := by
  intro g table ofHelpers
  have vars : (g.vars.map (·.id)).Nodup := by decide
  have procedures : (g.procedures.map (·.id)).Nodup := by decide
  obtain ⟨⟨ofVariables, ofProcedures, named, called, _, distinct, shaped⟩, _⟩ :=
    names_pairwise_distinct g ["count"] ["count", "my var2"] vars procedures
  exact ⟨vars, procedures, by decide +kernel, ofVariables, ofProcedures, named, called, distinct, shaped⟩

end Blockwork.Python

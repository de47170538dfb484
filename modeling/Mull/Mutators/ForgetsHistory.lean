import Mathlib.Data.List.Induction
import Mull.Base.Fallible
import Mull.Mutators.MutatorsFactory

/-! Sequences of calls on one factory, and what `mutators` remembers of them. -/

namespace Mull.MutatorsFactory
open Base

inductive Call
  | mutators (names : List Text)
  | getMutator (mutatorId : Text)
  | commandLineOptions
  | init

def perform (factory : MutatorsFactory) : Call → Option MutatorsFactory
  | .mutators names => (factory.mutators names).map Prod.snd
  | .getMutator mutatorId => some (factory.getMutator mutatorId).2
  | .commandLineOptions => factory.commandLineOptions.map fun result => result.2.2
  | .init => some factory.init

def run (calls : List Call) : Option MutatorsFactory := calls.foldlM perform new

/-! ### One call -/

theorem init_known (factory : MutatorsFactory) (mutator : Mutator) :
    factory.init.mutatorsMapping mutator.getUniqueIdentifier = some (some mutator) := by
  have filled (registered : List Mutator) (mem : mutator ∈ registered) :
      registered.foldl addMutator factory.mutatorsMapping mutator.getUniqueIdentifier =
        some (some mutator) := by
    induction registered using List.reverseRecOn with
    | nil => cases mem
    | append_singleton registered last ih =>
      rw [List.foldl_append, List.foldl_cons, List.foldl_nil, addMutator]
      by_cases same : mutator = last
      · rw [same, Function.update_self]
      · have other : mutator.getUniqueIdentifier ≠ last.getUniqueIdentifier := by
          rw [ne_eq, Mutator.getUniqueIdentifier_inj]
          exact same
        rw [Function.update_of_ne other]
        exact ih (by simpa [same] using mem)
  exact filled Mutator.registered mutator.mem_registered

theorem init_unknown (factory : MutatorsFactory) {name : Text}
    (unknown : ∀ mutator : Mutator, mutator.getUniqueIdentifier ≠ name) :
    factory.init.mutatorsMapping name = factory.mutatorsMapping name := by
  have kept (registered : List Mutator) :
      registered.foldl addMutator factory.mutatorsMapping name = factory.mutatorsMapping name := by
    induction registered using List.reverseRecOn with
    | nil => rfl
    | append_singleton registered last ih =>
      rw [List.foldl_append, List.foldl_cons, List.foldl_nil, addMutator,
        Function.update_of_ne (unknown last).symm]
      exact ih
  exact kept Mutator.registered

theorem foldl_moveOut {groups : List Text} (distinct : groups.Nodup) (selection : Selection)
    (mapping : MutatorsMapping) :
    groups.foldl moveOut (selection, mapping) =
      (⟨selection.mutators ++ groups.filterMap mapping,
        selection.warnings ++ (groups.filter fun group => (mapping group).isNone).map unknownMutator⟩,
        fun name => if name ∈ groups then none else mapping name) := by
  induction groups generalizing selection mapping with
  | nil => simp
  | cons group groups ih =>
    obtain ⟨fresh, rest⟩ := List.nodup_cons.mp distinct
    rw [List.foldl_cons]
    cases found : mapping group with
    | none =>
      have missing (name : Text) : (if name ∈ groups then none else mapping name) =
          if name ∈ group :: groups then none else mapping name := by
        by_cases same : name = group
        · simp [same, found]
        · simp [same]
      simp only [moveOut, found]
      rw [ih rest]
      simp [found, missing]
    | some mutator =>
      have untouched : ∀ other ∈ groups, Function.update mapping group none other = mapping other := by
        intro other mem
        apply Function.update_of_ne
        rintro rfl
        exact fresh mem
      have missing (name : Text) : (if name ∈ groups then none else Function.update mapping group none name) =
          if name ∈ group :: groups then none else mapping name := by
        by_cases same : name = group
        · simp [same]
        · simp [same]
      simp only [moveOut, found]
      rw [ih rest, List.filterMap_congr untouched,
        List.filter_congr fun other mem => congrArg Option.isNone (untouched other mem)]
      simp [found, missing]

/-- The names without groups, of a request. -/
def StandsFor (names : List Text) (leaf : Text) :
    Prop := ∃ name ∈ requested names, Leaf groupsMapping name leaf

theorem standsFor_unknown {names : List Text} {name : Text} (unknown : Unknown name) :
    StandsFor names name ↔ name ∈ names := by
  constructor
  · rintro ⟨asked, mem, stands⟩
    rcases leaf_known stands with ⟨rfl, -⟩ | ⟨mutator, known⟩
    · unfold requested at mem
      split at mem
      · rw [List.mem_singleton.mp mem, Unknown, groupsMapping_text] at unknown
        cases unknown.1
      · exact mem
    · exact absurd known (unknown.2 mutator)
  · intro mem
    have nonempty : names.isEmpty = false := List.isEmpty_eq_false_iff.mpr (List.ne_nil_of_mem mem)
    exact ⟨name, by rwa [requested, nonempty], .single unknown.1⟩

theorem standsFor_cases {names : List Text} {leaf : Text} (stands : StandsFor names leaf) :
    Unknown leaf ∨ ∃ mutator : Mutator, mutator.getUniqueIdentifier = leaf := by
  obtain ⟨_, _, below⟩ := stands
  by_cases known : ∃ mutator : Mutator, mutator.getUniqueIdentifier = leaf
  · exact .inr known
  · exact .inl ⟨below.not_group, fun mutator same => known ⟨mutator, same⟩⟩

theorem mutators_spec (factory : MutatorsFactory) (names : List Text) :
    ∃ expanded : OrderedSet Text, (∀ leaf, leaf ∈ expanded.elements ↔ StandsFor names leaf) ∧
      factory.mutators names =
        some (⟨expanded.elements.filterMap factory.init.mutatorsMapping,
          (expanded.elements.filter fun name => (factory.init.mutatorsMapping name).isNone).map
            unknownMutator ++
            if (expanded.elements.filterMap factory.init.mutatorsMapping).isEmpty then
              [noValidMutators] else []⟩,
          ⟨fun name => if name ∈ expanded.elements then none else factory.init.mutatorsMapping name⟩) := by
  obtain ⟨expanded, opened, members⟩ := expandGroups_spec groupsMapping_ranked (GroupName.all.length + 1)
    (requested names) .empty (fun name _ => nameRank_le name) (Nat.succ_pos _)
  have distinct : expanded.elements.Nodup := by
    apply expanded.increasing.imp
    rintro name other less rfl
    exact lt_irrefl _ less
  refine ⟨expanded, by simpa [StandsFor] using members, ?_⟩
  rw [mutators, opened]
  simp only [Option.bind_eq_bind, Option.bind_some, foldl_moveOut distinct, List.nil_append]
  split <;> simp_all

/-! ### A sequence of calls -/

/-- Looked up, and not handed out since. -/
def LookedUp (calls : List Call) (name : Text) : Prop :=
  ∃ before after, calls = before ++ .getMutator name :: after ∧ ∀ names,
    .mutators names ∈ after → name ∉ names

theorem lookedUp_append {calls : List Call} {call : Call} {name : Text} :
    LookedUp (calls ++ [call]) name ↔
      call = .getMutator name ∨ LookedUp calls name ∧ ∀ names, call = .mutators names → name ∉ names := by
  constructor
  · rintro ⟨before, after, split, kept⟩
    rcases List.eq_nil_or_concat after with rfl | ⟨after, last, rfl⟩
    · obtain ⟨-, same⟩ := List.append_inj' split rfl
      exact .inl (List.head_eq_of_cons_eq same)
    · rw [List.concat_eq_append, ← List.cons_append, ← List.append_assoc] at split
      obtain ⟨rfl, same⟩ := List.append_inj' split rfl
      obtain rfl : call = last := List.head_eq_of_cons_eq same
      refine .inr ⟨⟨before, after, rfl, ?_⟩, ?_⟩
      · intro names mem
        exact kept names (by simp [mem])
      · rintro names rfl
        exact kept names (by simp)
  · rintro (rfl | ⟨⟨before, after, rfl, kept⟩, last⟩)
    · exact ⟨calls, [], rfl, by simp⟩
    · refine ⟨before, after ++ [call], by simp, ?_⟩
      intro names mem
      rcases List.mem_append.mp mem with mem | mem
      · exact kept names mem
      · exact last names (List.mem_singleton.mp mem).symm

/-- The map has no entry for an unknown name, except one without a mutator where it was looked up. -/
def Remembers (calls : List Call) (factory : MutatorsFactory) : Prop :=
  ∀ name, Unknown name → (LookedUp calls name ∧ factory.mutatorsMapping name = some none) ∨
    (¬ LookedUp calls name ∧ factory.mutatorsMapping name = none)

theorem remembers_same {calls : List Call} {call : Call} {factory after : MutatorsFactory}
    (remembers : Remembers calls factory) (other : ∀ name, call ≠ .getMutator name)
    (unasked : ∀ name, Unknown name → ∀ names, call = .mutators names → name ∉ names)
    (same : ∀ name, Unknown name → after.mutatorsMapping name = factory.mutatorsMapping name) :
    Remembers (calls ++ [call]) after := by
  intro name unknown
  rw [lookedUp_append, same name unknown]
  rcases remembers name unknown with ⟨looked, entry⟩ | ⟨not, entry⟩
  · exact .inl ⟨.inr ⟨looked, unasked name unknown⟩, entry⟩
  · refine .inr ⟨?_, entry⟩
    rintro (same' | ⟨looked, -⟩)
    · exact other name same'
    · exact not looked

theorem init_remembers {calls : List Call} {factory : MutatorsFactory} (remembers : Remembers calls factory) :
    Remembers calls factory.init := by
  intro name unknown
  rw [init_unknown factory unknown.2]
  exact remembers name unknown

theorem getMutator_remembers {calls : List Call} {factory : MutatorsFactory} (mutatorId : Text)
    (remembers : Remembers calls factory) :
    Remembers (calls ++ [.getMutator mutatorId]) (factory.getMutator mutatorId).2 := by
  intro name unknown
  rw [lookedUp_append]
  by_cases same : mutatorId = name
  · subst same
    refine .inl ⟨.inl rfl, ?_⟩
    unfold getMutator
    rcases remembers mutatorId unknown with ⟨-, entry⟩ | ⟨-, entry⟩
    · simp [entry]
    · simp [entry]
  · have kept : (factory.getMutator mutatorId).2.mutatorsMapping name = factory.mutatorsMapping name := by
      unfold getMutator
      split
      · rfl
      · exact Function.update_of_ne (Ne.symm same) _ _
    rw [kept]
    simpa [same] using remembers name unknown

theorem mutators_remembers {calls : List Call} {factory after : MutatorsFactory} {names : List Text}
    {selection : Selection} (remembers : Remembers calls factory)
    (done : factory.mutators names = some (selection, after)) :
      Remembers (calls ++ [.mutators names]) after := by
  obtain ⟨expanded, members, spec⟩ := mutators_spec factory names
  rw [done] at spec
  obtain ⟨-, rfl⟩ := Prod.mk.inj (Option.some.inj spec)
  intro name unknown
  have asked : name ∈ expanded.elements ↔ name ∈ names := (members name).trans (standsFor_unknown unknown)
  rw [lookedUp_append]
  dsimp only
  by_cases mem : name ∈ names
  · refine .inr ⟨?_, if_pos (asked.mpr mem)⟩
    rintro (impossible | ⟨-, unasked⟩)
    · cases impossible
    · exact unasked names rfl mem
  · rw [if_neg (mt asked.mp mem)]
    rcases init_remembers remembers name unknown with ⟨looked, entry⟩ | ⟨not, entry⟩
    · refine .inl ⟨.inr ⟨looked, ?_⟩, entry⟩
      intro names' same
      obtain rfl := Call.mutators.inj same
      exact mem
    · refine .inr ⟨?_, entry⟩
      rintro (impossible | ⟨looked, -⟩)
      · cases impossible
      · exact not looked

theorem not_standsFor_all {name : Text} (unknown : Unknown name) :
    ¬ StandsFor [GroupName.allMutatorsGroup.text] name := by
  rw [standsFor_unknown unknown, List.mem_singleton]
  rintro rfl
  rw [Unknown, groupsMapping_text] at unknown
  cases unknown.1

theorem commandLineOptions_remembers {calls : List Call} {factory : MutatorsFactory}
    (remembers : Remembers calls factory) :
    ∃ result, factory.commandLineOptions = some result ∧
    Remembers (calls ++ [.commandLineOptions]) result.2.2 := by
  obtain ⟨expanded, members, spec⟩ := mutators_spec factory [GroupName.allMutatorsGroup.text]
  have known : ∀ name ∈ expanded.elements, ∃ own :
    Mutator, factory.init.mutatorsMapping name = some (some own) := by
    intro name mem
    rcases standsFor_cases ((members name).mp mem) with unknown | ⟨own, rfl⟩
    · exact absurd ((members name).mp mem) (not_standsFor_all unknown)
    · exact ⟨own, init_known factory own⟩
  obtain ⟨described, done⟩ : ∃ described, (expanded.elements.filterMap factory.init.mutatorsMapping).mapM
      (fun mutator => mutator.map fun own => (own.getUniqueIdentifier, own.getDescription)) =
        some described := by
    apply mapM_total
    intro mutator mem
    obtain ⟨name, mem, entry⟩ := List.mem_filterMap.mp mem
    obtain ⟨own, known⟩ := known name mem
    obtain rfl := Option.some.inj (known.symm.trans entry)
    exact ⟨_, rfl⟩
  refine ⟨_, by simp only [commandLineOptions, spec, Option.bind_eq_bind, Option.bind_some, done]; rfl, ?_⟩
  apply remembers_same remembers
  · intro name same
    cases same
  · intro name unknown names same
    cases same
  · intro name unknown
    have absent : name ∉ expanded.elements := fun mem => not_standsFor_all unknown ((members name).mp mem)
    exact (if_neg absent).trans (init_unknown factory unknown.2)

theorem perform_remembers {calls : List Call} {factory : MutatorsFactory}
    (remembers : Remembers calls factory)
    (call : Call) : ∃ after, factory.perform call = some after ∧ Remembers (calls ++ [call]) after := by
  cases call with
  | mutators names =>
    obtain ⟨expanded, -, spec⟩ := mutators_spec factory names
    exact ⟨_, congrArg (Option.map Prod.snd) spec, mutators_remembers remembers spec⟩
  | getMutator mutatorId => exact ⟨_, rfl, getMutator_remembers mutatorId remembers⟩
  | commandLineOptions =>
    obtain ⟨result, done, after⟩ := commandLineOptions_remembers remembers
    exact ⟨result.2.2, by rw [perform, done]; rfl, after⟩
  | init =>
    refine ⟨factory.init, rfl, ?_⟩
    apply remembers_same remembers
    · intro name same
      cases same
    · intro name unknown names same
      cases same
    · intro name unknown
      exact init_unknown factory unknown.2

theorem run_remembers (calls : List Call) :
    ∃ factory, run calls = some factory ∧ Remembers calls factory := by
  induction calls using List.reverseRecOn with
  | nil =>
    refine ⟨new, rfl, ?_⟩
    intro name unknown
    refine .inr ⟨?_, rfl⟩
    rintro ⟨before, after, split, -⟩
    simp at split
  | append_singleton calls call ih =>
    obtain ⟨factory, reached, remembers⟩ := ih
    obtain ⟨after, performed, remembers⟩ := perform_remembers remembers call
    refine ⟨after, ?_, remembers⟩
    rw [run, List.foldlM_append, ← run, reached]
    simpa using performed

/-! ### What `mutators` should answer -/

/-- The mutators that the names stand for, each once and in the order of their identifiers, and a warning for each
name that stands for none. -/
def Alone (names : List Text) (selection : Selection) : Prop :=
  ∃ (chosen : List Mutator) (unknown : List Text),
    selection =
      ⟨chosen.map some, unknown.map unknownMutator ++ if chosen.isEmpty then [noValidMutators] else []⟩ ∧
    chosen.Pairwise (fun mutator other => mutator.getUniqueIdentifier < other.getUniqueIdentifier) ∧
    (∀ mutator, mutator ∈ chosen ↔ StandsFor names mutator.getUniqueIdentifier) ∧
    unknown.Pairwise (· < ·) ∧ ∀ name, name ∈ unknown ↔ name ∈ names ∧ Unknown name

theorem Alone.unique {names names' : List Text} {selection selection' : Selection}
    (alone : Alone names selection)
    (alone' : Alone names' selection') (same : ∀ leaf, StandsFor names leaf ↔ StandsFor names' leaf) :
    selection = selection' := by
  obtain ⟨chosen, unknown, rfl, ordered, members, sorted, rest⟩ := alone
  obtain ⟨chosen', unknown', rfl, ordered', members', sorted', rest'⟩ := alone'
  obtain rfl : chosen = chosen' := by
    apply eq_of_increasing ordered ordered'
    intro mutator
    rw [members, members', same]
  obtain rfl : unknown = unknown' := by
    have increasing : unknown.Pairwise fun name other => id name < id other := sorted
    apply eq_of_increasing increasing sorted'
    intro name
    rw [rest, rest']
    constructor
    · rintro ⟨mem, isUnknown⟩
      rw [← standsFor_unknown isUnknown, same, standsFor_unknown isUnknown] at mem
      exact ⟨mem, isUnknown⟩
    · rintro ⟨mem, isUnknown⟩
      rw [← standsFor_unknown isUnknown, ← same, standsFor_unknown isUnknown] at mem
      exact ⟨mem, isUnknown⟩
  rfl

/-- A call after others, on a new factory, answers as if it was alone. -/
def AnswersAlone (calls : List Call) (names : List Text) : Prop :=
  ∃ factory selection after, run calls = some factory ∧ factory.mutators names = some (selection, after) ∧
    Alone names selection

theorem filterMap_entries {α β : Type} {entry : α → Option (Option β)} {xs : List α}
    (filled : ∀ x ∈ xs, entry x ≠ some none) :
    xs.filterMap entry = (xs.filterMap fun x => (entry x).join).map some := by
  induction xs with
  | nil => rfl
  | cons x xs ih =>
    have rest := ih fun y mem => filled y (List.mem_cons_of_mem x mem)
    have first := filled x List.mem_cons_self
    cases found : entry x with
    | none => simp [found, rest]
    | some content =>
      cases content with
      | none => exact absurd found first
      | some content => simp [found, rest]

/-- With an entry for the mutators only, what is handed out is what the names stand for. -/
theorem selection_alone {names : List Text} {mapping : MutatorsMapping} {expanded : OrderedSet Text}
    (members : ∀ leaf, leaf ∈ expanded.elements ↔ StandsFor names leaf)
    (known : ∀ mutator : Mutator, mapping mutator.getUniqueIdentifier = some (some mutator))
    (unknown : ∀ name ∈ names, Unknown name → mapping name = none) :
    Alone names ⟨expanded.elements.filterMap mapping,
      (expanded.elements.filter fun name => (mapping name).isNone).map unknownMutator ++
        if (expanded.elements.filterMap mapping).isEmpty then [noValidMutators] else []⟩ := by
  have entries : ∀ name ∈ expanded.elements, (Unknown name ∧ name ∈ names ∧ mapping name = none) ∨
      ∃ own : Mutator, own.getUniqueIdentifier = name ∧ mapping name = some (some own) := by
    intro name mem
    have stands := (members name).mp mem
    rcases standsFor_cases stands with isUnknown | ⟨own, rfl⟩
    · have asked := (standsFor_unknown isUnknown).mp stands
      exact .inl ⟨isUnknown, asked, unknown name asked isUnknown⟩
    · exact .inr ⟨own, rfl, known own⟩
  have filled : ∀ name ∈ expanded.elements, mapping name ≠ some none := by
    intro name mem
    rcases entries name mem with ⟨-, -, entry⟩ | ⟨own, -, entry⟩ <;> simp [entry]
  have named {name : Text} {own : Mutator} (mem : name ∈ expanded.elements)
    (found : (mapping name).join = some own) :
      own.getUniqueIdentifier = name := by
    rcases entries name mem with ⟨-, -, entry⟩ | ⟨other, same, entry⟩
    · simp [entry] at found
    · rw [entry, Option.join_some] at found
      rw [← Option.some.inj found, same]
  refine ⟨expanded.elements.filterMap fun name => (mapping name).join,
    expanded.elements.filter fun name => (mapping name).isNone, ?_, ?_, ?_, ?_, ?_⟩
  · rw [filterMap_entries filled]
    simp
  · apply List.pairwise_filterMap.mpr
    apply expanded.increasing.imp_of_mem
    intro name other mem mem' less own found own' found'
    rw [named mem found, named mem' found']
    exact less
  · intro own
    rw [List.mem_filterMap, ← members]
    constructor
    · rintro ⟨name, mem, found⟩
      rwa [named mem found]
    · intro mem
      exact ⟨_, mem, by rw [known, Option.join_some]⟩
  · exact expanded.increasing.filter _
  · intro name
    rw [List.mem_filter]
    constructor
    · rintro ⟨mem, missing⟩
      rcases entries name mem with ⟨isUnknown, asked, -⟩ | ⟨own, -, entry⟩
      · exact ⟨asked, isUnknown⟩
      · simp [entry] at missing
    · rintro ⟨mem, isUnknown⟩
      exact ⟨(members name).mpr ((standsFor_unknown isUnknown).mpr mem), by simp [unknown name mem isUnknown]⟩

theorem answersAlone_iff (calls : List Call) (names : List Text) :
    AnswersAlone calls names ↔ ∀ name ∈ names, Unknown name → ¬ LookedUp calls name := by
  obtain ⟨factory, reached, remembers⟩ := run_remembers calls
  obtain ⟨expanded, members, spec⟩ := mutators_spec factory names
  constructor
  · rintro ⟨factory', selection, after, reached', done, chosen, rest, rfl, -⟩ name mem unknown looked
    obtain rfl := Option.some.inj (reached.symm.trans reached')
    have same : expanded.elements.filterMap factory.init.mutatorsMapping = chosen.map some :=
      congrArg Selection.mutators (Prod.mk.inj (Option.some.inj (spec.symm.trans done))).1
    have missing : none ∈ expanded.elements.filterMap factory.init.mutatorsMapping := by
      refine List.mem_filterMap.mpr ⟨name, (members name).mpr ((standsFor_unknown unknown).mpr mem), ?_⟩
      rcases init_remembers remembers name unknown with ⟨-, entry⟩ | ⟨not, -⟩
      · exact entry
      · exact absurd looked not
    rw [same] at missing
    simp at missing
  · intro fresh
    refine ⟨factory, _, _, reached, spec, selection_alone members (init_known factory) ?_⟩
    intro name mem unknown
    rcases init_remembers remembers name unknown with ⟨looked, -⟩ | ⟨-, entry⟩
    · exact absurd looked (fresh name mem unknown)
    · exact entry

/-- Every call of `mutators` in the sequence answers as if it was alone. -/
def ForgetsHistory (calls : List Call) : Prop :=
  ∀ before names after, calls = before ++ .mutators names :: after → AnswersAlone before names

def OnlyLeavesMatter : Prop :=
  ∀ names names' selection selection', Alone names selection → Alone names' selection' →
    (∀ leaf, StandsFor names leaf ↔ StandsFor names' leaf) → selection = selection'

theorem forgetsHistory_iff (calls : List Call) :
    (ForgetsHistory calls ↔ ∀ before names after, calls = before ++ .mutators names :: after →
      ∀ name ∈ names, Unknown name → ¬ LookedUp before name) ∧ OnlyLeavesMatter := by
  constructor
  · constructor
    · intro forgets before names after split
      exact (answersAlone_iff before names).mp (forgets before names after split)
    · intro fresh before names after split
      exact (answersAlone_iff before names).mpr (fresh before names after split)
  · intro names names' selection selection' alone alone' same
    exact alone.unique alone' same

/-- A name with a digit: no mutator or group has one. -/
def misspelled : Text := "cxx_add_2_sub".toList

theorem misspelled_unknown : Unknown misspelled := by
  constructor
  · have absent : (GroupName.all.find? fun group => group.text = misspelled) = none := by decide +kernel
    rw [groupsMapping, absent]
    rfl
  · intro mutator same
    have digit : '2' ∈ mutator.getUniqueIdentifier := by
      rw [same]
      decide
    exact mutator.getUniqueIdentifier_free (by decide) (by decide) digit

theorem not_forgetsHistory_misspelled :
    ¬ ForgetsHistory [.getMutator misspelled, .mutators [misspelled]] := by
  intro forgets
  have alone := forgets [.getMutator misspelled] [misspelled] [] rfl
  refine (answersAlone_iff _ _).mp alone misspelled (by simp) misspelled_unknown ⟨[], [], rfl, ?_⟩
  intro names mem
  cases mem

end Mull.MutatorsFactory

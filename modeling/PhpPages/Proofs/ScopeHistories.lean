import Mathlib.Data.List.Induction
import Mathlib.Data.List.Nodup
import PhpPages.Proofs.Imports

namespace PhpPages

open Php

namespace Php

/-- The targets of an alias differ in leading separators at most. -/
def SameTarget : Option String → Option String → Prop :=
  Option.Rel fun target target' => ∃ name, Bare target name ∧ Bare target' name

theorem namespaceBehind_eq_some {before : List Statement} {space : String}
    (h : namespaceBehind before = some space) :
    Statement.namespace (some space) ∈ before ∧ space ≠ "" := by
  unfold namespaceBehind at h
  split at h
  · rename_i name hlast
    split at h
    · cases h
    · rename_i hne
      cases h
      refine ⟨?_, hne⟩
      obtain ⟨statement, hmem, hstated⟩ := List.mem_filterMap.mp (List.mem_of_getLast? hlast)
      cases statement with
      | «namespace» name' =>
        cases hstated
        exact hmem
      | imports pairs => cases hstated
      | declaration d => cases hstated
  · cases h

section

variable {before before' : List Statement} {reference name : String}

/-- The meaning of a reference rests on the last namespace and on the last target of its alias. -/
theorem Means.alike (h : Means before reference name)
    (hspace : namespaceBehind before = namespaceBehind before')
    (htarget : SameTarget (targetBehind before reference) (targetBehind before' reference)) :
    Means before' reference name := by
  have hnone : targetBehind before reference = none → targetBehind before' reference = none := by
    intro hunknown
    rw [hunknown] at htarget
    generalize targetBehind before' reference = last at htarget
    cases htarget
    rfl
  cases h with
  | absolute front bare => exact .absolute front bare
  | imported front last bare =>
    rw [last] at htarget
    generalize hlast : targetBehind before' reference = last' at htarget
    cases htarget with
    | some hsame =>
      obtain ⟨name', hbare, hbare'⟩ := hsame
      obtain rfl := bare.unique hbare
      exact .imported front hlast hbare'
  | qualified front unknown inner => exact .qualified front (hnone unknown) inner
  | member unknown simple inside => exact .member (hnone unknown) simple (hspace.symm.trans inside)
  | top unknown simple outside => exact .top (hnone unknown) simple (hspace.symm.trans outside)

/-- No name that is meant starts with a separator, if no namespace does. -/
theorem Means.complete (h : Means before reference name)
    (hspace : ∀ space, Statement.namespace (some space) ∈ before → space.toList.head? ≠ some '\\') :
    name.toList.head? ≠ some '\\' := by
  cases h with
  | absolute _ bare | imported _ _ bare =>
    obtain ⟨_, _, hbare⟩ := bare
    exact hbare
  | qualified front => exact front
  | @member space _ _ inside =>
    obtain ⟨hin, hne⟩ := namespaceBehind_eq_some inside
    have hfront : (space ++ "\\" ++ reference).toList.head? = space.toList.head? := by
      cases hs : space.toList with
      | nil => exact absurd (String.toList_eq_nil_iff.mp hs) hne
      | cons c cs => simp [hs]
    rw [hfront]
    exact hspace space hin
  | top _ simple => exact fun hfront => simple (List.mem_of_head? hfront)

end

theorem SameTarget.refl (last : Option String) : SameTarget last last := by
  cases last with
  | none => exact .none
  | some target => exact .some ⟨_, bare_dropLeading target, bare_dropLeading target⟩

/-- Where no alias is imported twice, the last target of one is its only one. -/
theorem targetBehind_eq_some_iff {before : List Statement}
    (hdistinct : ((importsOf before).map Prod.fst).Nodup) {short target : String} :
    targetBehind before short = some target ↔ (short, target) ∈ importsOf before := by
  rw [targetBehind, Option.map_eq_some_iff]
  constructor
  · rintro ⟨pair, hlast, rfl⟩
    obtain ⟨hmem, hshort⟩ := List.mem_filter.mp (List.mem_of_getLast? hlast)
    obtain rfl := of_decide_eq_true hshort
    exact hmem
  · intro hmem
    have hkept :
        (short, target) ∈ (importsOf before).filter fun pair => pair.1 = short := by simp [hmem]
    cases hlast : ((importsOf before).filter fun pair => pair.1 = short).getLast? with
    | none => simp [List.getLast?_eq_none_iff.mp hlast] at hkept
    | some pair =>
      obtain ⟨hpair, hshort⟩ := List.mem_filter.mp (List.mem_of_getLast? hlast)
      have hsame := List.inj_on_of_nodup_map hdistinct hpair hmem (of_decide_eq_true hshort)
      exact ⟨pair, rfl, congrArg Prod.snd hsame⟩

end Php

namespace Scope

/-- A change to a scope. -/
inductive Step where
  | enter (name : Option String)
  | define (short target : String)
  | clear
  deriving DecidableEq

def Step.apply : Step → Scope → Scope
  | .enter name => Scope.enter name
  | .define short target => Scope.define short target
  | .clear => Scope.clear

/-- The scope behind a history that starts with a new one. -/
def after (history : List Step) : Scope :=
  history.foldl (fun scope step => step.apply scope) {}

/-- The statements that make the changes. None makes a scope forget. -/
def said (steps : List Step) : List Statement :=
  steps.flatMap fun
    | .enter name => [.namespace name]
    | .define short target => [.imports [(short, target)]]
    | .clear => []

/-- What was said since the last time that the scope was cleared. -/
def sinceClear (history : List Step) : List Statement :=
  said (history.reverse.takeWhile (· ≠ .clear)).reverse

theorem said_append (steps rest : List Step) : said (steps ++ rest) = said steps ++ said rest := by
  simp [said]

theorem sinceClear_clear (history : List Step) : sinceClear (history ++ [.clear]) = [] := by
  simp [sinceClear, said]

theorem sinceClear_snoc (history : List Step) {step : Step} (h : step ≠ .clear) :
    sinceClear (history ++ [step]) = sinceClear history ++ said [step] := by
  simp [sinceClear, said, h]

theorem sinceClear_append (history rest : List Step) :
    sinceClear (history ++ rest) =
      if .clear ∈ rest then sinceClear rest else sinceClear history ++ said rest := by
  induction rest using List.reverseRecOn with
  | nil => simp [said]
  | append_singleton rest step ih =>
    rw [← List.append_assoc]
    by_cases hclear : step = .clear
    · -- The last clear is in the rest, at its end.
      subst hclear
      rw [sinceClear_clear, if_pos (by simp), sinceClear_clear]
    · have hmem : Step.clear ∈ rest ++ [step] ↔ Step.clear ∈ rest := by simp [Ne.symm hclear]
      simp only [sinceClear_snoc _ hclear, ih, hmem, said_append]
      split
      · rfl
      · rw [List.append_assoc]

/-- One more step changes the scope as the statement for it does, or forgets all that was said. -/
theorem apply_foldl (history : List Step) (step : Step) :
    step.apply ((sinceClear history).foldl visit {}) =
      (sinceClear (history ++ [step])).foldl visit {} := by
  cases step with
  | enter name =>
    rw [sinceClear_snoc _ (by simp), List.foldl_append]
    rfl
  | define short target =>
    rw [sinceClear_snoc _ (by simp), List.foldl_append]
    rfl
  | clear =>
    rw [sinceClear_clear]
    rfl

/-- A scope is what the statements since it was last cleared make of a new one. -/
theorem after_eq (history : List Step) : after history = (sinceClear history).foldl visit {} := by
  induction history using List.reverseRecOn with
  | nil => rfl
  | append_singleton history step ih =>
    rw [← apply_foldl, ← ih]
    simp [after]

theorem after_means (history : List Step) (reference : String) :
    Means (sinceClear history) reference ((after history).resolve reference) := by
  rw [after_eq]
  exact resolve_means _ reference

theorem mem_sinceClear {history : List Step} {name : Option String}
    (h : Statement.namespace name ∈ sinceClear history) : .enter name ∈ history := by
  obtain ⟨step, hstep, hsaid⟩ := List.mem_flatMap.mp h
  have hin := List.mem_reverse.mp ((List.takeWhile_sublist _).subset (List.mem_reverse.mp hstep))
  cases step with
  | enter name' =>
    obtain rfl : name = name' := by simpa using hsaid
    exact hin
  | define short target => simp at hsaid
  | clear => simp at hsaid

/-- A name behind a separator is complete in every scope. -/
theorem resolve_complete (scope : Scope) {name : String} (h : name.toList.head? ≠ some '\\') :
    scope.resolve ("\\" ++ name) = name := by
  have hfront : ("\\" ++ name).toList.head? = some '\\' := by simp
  have hbare : Bare ("\\" ++ name) name := ⟨1, by simp, h⟩
  rw [resolve, if_pos hfront]
  exact (bare_dropLeading _).unique hbare

theorem resolve_alike {first second : List Step}
    (hspace : namespaceBehind (sinceClear first) = namespaceBehind (sinceClear second))
    {reference : String}
    (htarget : SameTarget (targetBehind (sinceClear first) reference)
      (targetBehind (sinceClear second) reference)) :
    (after first).resolve reference = (after second).resolve reference :=
  ((after_means first reference).alike hspace htarget).unique (after_means second reference)

section

variable {middle middle' : List Step}

theorem targetBehind_reordered (hperm : middle.Perm middle')
    (hdistinct : ((importsOf (said middle)).map Prod.fst).Nodup) (short : String) :
    targetBehind (said middle) short = targetBehind (said middle') short := by
  have himports : (importsOf (said middle)).Perm (importsOf (said middle')) :=
    (hperm.flatMap_right _).flatMap_right _
  have hdistinct' : ((importsOf (said middle')).map Prod.fst).Nodup :=
    (himports.map Prod.fst).nodup_iff.mp hdistinct
  apply Option.ext
  intro target
  rw [targetBehind_eq_some_iff hdistinct, targetBehind_eq_some_iff hdistinct', himports.mem_iff]

/-- A part of a history without a clear stands in what was said since the last one, or is
forgotten with it. -/
theorem sinceClear_between (hclear : .clear ∉ middle) (before rest : List Step) :
    sinceClear (before ++ middle ++ rest) =
      if .clear ∈ rest then sinceClear rest else sinceClear before ++ said middle ++ said rest := by
  rw [sinceClear_append, sinceClear_append, if_neg hclear]

/-- Imports of distinct aliases may come in any order, between namespaces that are
entered in theirs. -/
theorem resolve_reordered (hperm : middle.Perm middle') (hclear : .clear ∉ middle)
    (hspaces : namespacesOf (said middle) = namespacesOf (said middle'))
    (hdistinct : ((importsOf (said middle)).map Prod.fst).Nodup) (before rest : List Step)
    (reference : String) :
    (after (before ++ middle ++ rest)).resolve reference =
      (after (before ++ middle' ++ rest)).resolve reference := by
  have hclear' : .clear ∉ middle' := fun h => hclear (hperm.mem_iff.mpr h)
  by_cases hrest : Step.clear ∈ rest
  · rw [after_eq, after_eq, sinceClear_between hclear, sinceClear_between hclear', if_pos hrest,
      if_pos hrest]
  · apply resolve_alike <;>
      rw [sinceClear_between hclear, sinceClear_between hclear', if_neg hrest, if_neg hrest]
    · simp only [namespaceBehind, namespacesOf_append, hspaces]
    · simp only [targetBehind_append, targetBehind_reordered hperm hdistinct]
      exact .refl _

end

/-- A reference is resolved to what it means behind the statements since the last clear. The name
that comes out is complete: another scope, whatever its history, leaves it as it is. Two histories
resolve alike if they end in one namespace and with the same last target of each alias, so that the
order of imports of distinct aliases makes no difference. -/
theorem resolve_ignores_history (first second : List Step) :
    (∀ reference, Means (sinceClear first) reference ((after first).resolve reference)) ∧
    ((∀ name, .enter (some name) ∈ first → name.toList.head? ≠ some '\\') → ∀ reference,
      (after second).resolve ("\\" ++ (after first).resolve reference) =
        (after first).resolve reference) ∧
    (namespaceBehind (sinceClear first) = namespaceBehind (sinceClear second) →
      (∀ short, SameTarget (targetBehind (sinceClear first) short)
        (targetBehind (sinceClear second) short)) →
      ∀ reference, (after first).resolve reference = (after second).resolve reference) ∧
    ∀ before middle middle' rest, middle.Perm middle' → .clear ∉ middle →
      namespacesOf (said middle) = namespacesOf (said middle') →
      ((importsOf (said middle)).map Prod.fst).Nodup →
      ∀ reference, (after (before ++ middle ++ rest)).resolve reference =
        (after (before ++ middle' ++ rest)).resolve reference := by
  refine ⟨after_means first, fun hnames reference => ?_, fun hspace htarget reference => ?_, ?_⟩
  · apply resolve_complete
    exact (after_means first reference).complete fun space hspace =>
      hnames space (mem_sinceClear hspace)
  · exact resolve_alike hspace (htarget reference)
  · intro before middle middle' rest hperm hclear hspaces hdistinct
    exact resolve_reordered hperm hclear hspaces hdistinct before rest

def tidy : List Step :=
  [.enter (some "App"), .define "A" "X\\A", .define "B" "Y\\B"]

/-- The same in the end, after a clear, in another order and with a target that is replaced. -/
def muddled : List Step :=
  [.define "C" "Old\\C", .enter (some "Lib"), .clear, .define "B" "\\\\Y\\B", .define "A" "Z",
    .enter (some "App"), .define "A" "\\X\\A"]

theorem resolve_ignores_history_muddled :
    (after muddled).resolve ("\\" ++ (after tidy).resolve "C") = (after tidy).resolve "C" ∧
    (after tidy).resolve "C" = "App\\C" ∧
    (∀ reference, (after tidy).resolve reference = (after muddled).resolve reference) ∧
    ∀ reference,
      (after (tidy ++ [.define "D" "X", .enter (some "P"), .define "E" "Y"] ++
        [.define "A" "Z"])).resolve reference =
      (after (tidy ++ [.define "E" "Y", .enter (some "P"), .define "D" "X"] ++
        [.define "A" "Z"])).resolve reference := by
  have hnames : ∀ name, .enter (some name) ∈ tidy → name.toList.head? ≠ some '\\' := by
    intro name hname
    obtain rfl : name = "App" := by simpa [tidy] using hname
    decide
  have htarget : ∀ short,
      SameTarget (targetBehind (sinceClear tidy) short)
        (targetBehind (sinceClear muddled) short) := by
    intro short
    by_cases ha : short = "A"
    · subst ha
      exact .some ⟨"X\\A", ⟨0, by decide, by decide⟩, ⟨1, by decide, by decide⟩⟩
    · by_cases hb : short = "B"
      · subst hb
        exact .some ⟨"Y\\B", ⟨0, by decide, by decide⟩, ⟨2, by decide, by decide⟩⟩
      · have hlast : targetBehind (sinceClear tidy) short = none := by
          simp [targetBehind, importsOf, sinceClear, said, tidy, Ne.symm ha, Ne.symm hb]
        have hlast' : targetBehind (sinceClear muddled) short = none := by
          simp [targetBehind, importsOf, sinceClear, said, muddled, Ne.symm ha, Ne.symm hb]
        rw [hlast, hlast']
        exact .none
  obtain ⟨_, hcomplete, halike, hreordered⟩ := resolve_ignores_history tidy muddled
  exact ⟨hcomplete hnames "C", by decide, halike (by decide) htarget,
    hreordered tidy _ _ _ (by decide) (by decide) (by decide) (by decide)⟩

end Scope

end PhpPages

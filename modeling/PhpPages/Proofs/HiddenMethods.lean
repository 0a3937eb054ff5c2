import PhpPages.Proofs.Extraction
import PhpPages.Proofs.Lockstep

namespace PhpPages

open Php

namespace Audience

/-- Properties are always shown, methods if their modifiers admit it. -/
def showsMember (audience : Audience) : MemberOutline → Bool
  | .method m => audience.Shows m
  | .property _ => true

@[simp] theorem showsMember_property (audience : Audience) (p : PropertyOutline) :
    audience.showsMember (.property p) = true :=
  rfl

@[simp] theorem showsMember_method (audience : Audience) (m : MethodOutline) :
    audience.showsMember (.method m) = decide (audience.Shows m) :=
  rfl

/-- The outline without the methods that are not shown. -/
def shown (audience : Audience) (d : DeclarationOutline) : DeclarationOutline :=
  { d with members := d.members.filter audience.showsMember }

def shownStatement (audience : Audience) : Statement → Statement
  | .declaration d => .declaration (audience.shown d)
  | other => other

end Audience

theorem membersMethods_shown (audience : Audience) (members : List MemberOutline) :
    audience.filterMethods (membersMethods (members.filter audience.showsMember)) =
      audience.filterMethods (membersMethods members) := by
  rw [filterMethods_eq, filterMethods_eq]
  congr 1
  induction members with
  | nil => rfl
  | cons m members ih =>
    cases m with
    | property p => simpa [List.filter_cons, methodsOf] using ih
    | method m =>
      by_cases hs : audience.Shows m
      · simpa [List.filter_cons, methodsOf, hs] using ih
      · simpa [List.filter_cons, methodsOf, hs] using ih

theorem membersProperties_shown (audience : Audience) (members : List MemberOutline) :
    membersProperties (members.filter audience.showsMember) = membersProperties members := by
  induction members with
  | nil => rfl
  | cons m members ih =>
    simp only [membersProperties] at ih ⊢
    cases m with
    | property p => simp [List.filter_cons, ih]
    | method m =>
      by_cases hs : audience.Shows m
      · simpa [List.filter_cons, hs] using ih
      · simpa [List.filter_cons, hs] using ih

theorem ofOutline_shown (audience : Audience) (scope : Scope) (d : DeclarationOutline) :
    Declaration.ofOutline audience scope (audience.shown d) = .ofOutline audience scope d := by
  simp only [Declaration.ofOutline, Audience.shown, membersMethods_shown, membersProperties_shown]
  rfl

/-- The declarations of a file are those of what is shown of it. -/
theorem declarations_shown (audience : Audience) (statements : List Statement) :
    declarations audience (statements.map audience.shownStatement) =
      declarations audience statements := by
  suffices h : ∀ scope, declarationsFrom audience scope (statements.map audience.shownStatement) =
      declarationsFrom audience scope statements from h {}
  induction statements with
  | nil =>
    intro scope
    rfl
  | cons statement statements ih =>
    intro scope
    cases statement with
    | «namespace» name => exact ih _
    | imports pairs => exact ih _
    | declaration d =>
      simp only [List.map_cons, Audience.shownStatement, declarationsFrom, ofOutline_shown, ih]

/-- Statements that differ in hidden methods alone. -/
def Audience.SameShown (audience : Audience) (statements statements' : List Statement) : Prop :=
  statements.map audience.shownStatement = statements'.map audience.shownStatement

theorem Audience.SameShown.declarations {audience : Audience}
    {statements statements' : List Statement} (h : audience.SameShown statements statements') :
    declarations audience statements = PhpPages.declarations audience statements' := by
  rw [← declarations_shown, h, declarations_shown]

/-- Contents that are the same, or sources that differ in hidden methods alone. -/
def Audience.Indistinct (audience : Audience) (a b : ByteArray) : Prop :=
  a = b ∨ ∃ statements statements', Php.outline a = .ok statements ∧
    Php.outline b = .ok statements' ∧ audience.SameShown statements statements'

namespace Site

theorem declarationsOf_indistinct {audience : Audience} {a b : ByteArray}
    (h : audience.Indistinct a b) (file : Path) :
    declarationsOf audience file a = declarationsOf audience file b := by
  rcases h with rfl | ⟨statements, statements', ha, hb, hshown⟩
  · rfl
  · simp only [declarationsOf, ha, hb, hshown.declarations]

theorem fillTree_parallel {R : Location → ByteArray → ByteArray → Prop} (hrefl : ∀ l a, R l a a)
    {plan : Plan} (hread : ∀ {l a b}, R l a b → plan.audience.Indistinct a b) (output : Path)
    (sources : List Path) (now : Moment) :
    Parallel R (fillTree plan output sources now) (fillTree plan output sources now) := by
  refine .bind (scanSources_parallel plan sources) fun found => .bind (.report _) fun _ => ?_
  have hparse : Parallel R (parseFiles plan sources found) (parseFiles plan sources found) :=
    parseFiles_parallel (fun h => declarationsOf_indistinct (hread h)) sources found
  exact .bind hparse fun parsed => publish_parallel hrefl plan output now parsed

theorem run_bind {α β : Type} {x : Run α} {f : α → Run β} {w w₁ : World} {a : α}
    (h : Succeeds x w a w₁) : (x >>= f).run.run w = (f a).run.run w₁ := by
  unfold Succeeds at h
  simp only [ExceptT.run_bind, StateT.run_bind, h]
  rfl

/-- A run whose output directory was made goes on by filling it. -/
theorem run_generate {s : Settings} {w reset : World} {plan : Plan} {output : Path}
    {sources : List Path} (hprep : prepare w.files s = .ok (plan, output, sources))
    (hreset : Succeeds (resetOutput output) w () reset) (now : Moment) :
    (generate s now).run.run w = (fillTree plan output sources now).run.run reset := by
  rw [generate_eq, run_bind (succeeds_look.mpr ⟨hprep, rfl⟩)]
  exact run_bind hreset

/-- Contents at one place in two file systems: they are indistinct, and if they are not the same
they have stood there from the start. -/
def Untouched (audience : Audience) (start start' : FileSystem) (x : Location) (a b : ByteArray) :
    Prop :=
  audience.Indistinct a b ∧
    (a = b ∨ start.entry? x = some (.file a) ∧ start'.entry? x = some (.file b))

theorem untouched_refl (audience : Audience) (start start' : FileSystem) (x : Location)
    (a : ByteArray) : Untouched audience start start' x a a :=
  ⟨.inl rfl, .inl rfl⟩

section

variable {s : Settings} {w w' : World}
  (hfiles : w.files.Like (fun _ => (planOf s w.files.here).audience.Indistinct) w'.files)
  (hlog : w.log = w'.log)
include hfiles hlog

theorem untouched_start :
    World.Like (Untouched (planOf s w.files.here).audience w.files w'.files) w w' := by
  refine ⟨hfiles.mono ?_, hlog⟩
  intro x a b ha hb h
  exact ⟨h, .inr ⟨ha, hb⟩⟩

/-- Runs in worlds that are indistinct end in the same way, and leave worlds in which nothing but
what they found is different. -/
theorem generate_untouched (now : Moment) :
    ((generate s now).run.run w).1 = ((generate s now).run.run w').1 ∧
      World.Like (Untouched (planOf s w.files.here).audience w.files w'.files)
        ((generate s now).run.run w).2 ((generate s now).run.run w').2 := by
  have hstart := untouched_start hfiles hlog
  have hprep := prepare_like hfiles s
  cases hp : prepare w.files s with
  | error e =>
    have hfail : Fails (generate s now) w e w := fails_bind.mpr (.inl (fails_look.mpr ⟨hp, rfl⟩))
    have hfail' : Fails (generate s now) w' e w' :=
      fails_bind.mpr (.inl (fails_look.mpr ⟨hprep.symm.trans hp, rfl⟩))
    unfold Fails at hfail hfail'
    rw [hfail, hfail']
    exact ⟨rfl, hstart⟩
  | ok places =>
    obtain ⟨plan, output, sources⟩ := places
    obtain ⟨hplan, _⟩ := prepare_ok hp
    rw [generate_eq, run_bind (succeeds_look.mpr ⟨hp, rfl⟩),
      run_bind (succeeds_look.mpr ⟨hprep.symm.trans hp, rfl⟩)]
    refine Parallel.bind (resetOutput_parallel output) (fun _ => ?_) w w' hstart
    apply fillTree_parallel (untouched_refl _ _ _)
    intro l a b h
    rw [hplan]
    exact h.1

/-- In the output directory the two runs leave the same. -/
theorem generate_same_output (hw : w.files.WellFormed) (now : Moment) {plan : Plan} {output : Path}
    {sources : List Path} {reset : World} (hprep : prepare w.files s = .ok (plan, output, sources))
    (hreset : Succeeds (resetOutput output) w () reset) :
    ∃ l, reset.files.Denotes output l ∧ ∀ r, r ≠ [] →
      FileSystem.entry? ((generate s now).run.run w).2.files (l ++ r) =
        FileSystem.entry? ((generate s now).run.run w').2.files (l ++ r) := by
  obtain ⟨hplan, _⟩ := prepare_ok hprep
  obtain ⟨⟨o, rfl, hnames⟩, _⟩ := prepare_names hw hprep
  obtain ⟨l, hfresh⟩ := resetOutput_fresh hw hnames hreset
  obtain ⟨hdenotes, _⟩ := FileSystem.lookup_denotes hfresh.wellFormed
    (fun n hn => ⟨(hnames n hn).noSlash, (hnames n hn).noNull⟩) hfresh.place (by simp)
  refine ⟨l, hdenotes, ?_⟩
  -- The directory is empty in both worlds when it was made, so what stands in it later was
  -- written by both.
  obtain ⟨hresult, hworld⟩ := resetOutput_parallel (Path.at o) w w' (untouched_start hfiles hlog)
  generalize hrun' : (resetOutput (Path.at o)).run.run w' = ended' at hresult hworld
  obtain ⟨result', reset'⟩ := ended'
  unfold Succeeds at hreset
  rw [hreset] at hresult hworld
  obtain rfl : Except.ok () = result' := hresult
  have hinside : World.Like (fun x a b => (planOf s w.files.here).audience.Indistinct a b ∧
      ∀ r, r ≠ [] → x = l ++ r → a = b) reset reset' := by
    refine ⟨hworld.files.mono ?_, hworld.log⟩
    intro x a b ha hb h
    refine ⟨h.1, ?_⟩
    intro r hr hx
    rw [hx, hfresh.empty r hr] at ha
    cases ha
  have hread : ∀ {x a b}, (planOf s w.files.here).audience.Indistinct a b ∧
      (∀ r, r ≠ [] → x = l ++ r → a = b) → plan.audience.Indistinct a b := by
    intro x a b h
    rw [hplan]
    exact h.1
  have hfill := fillTree_parallel (fun x a => ⟨.inl rfl, fun _ _ _ => rfl⟩) hread (Path.at o)
    sources now reset reset' hinside
  intro r hr
  rw [run_generate hprep hreset, run_generate ((prepare_like hfiles s).symm.trans hprep) hrun']
  rcases hfill.2.files.entry (l ++ r) with ⟨hn, hn'⟩ | ⟨e, e', he, he', hlike⟩
  · rw [hn, hn']
  · rw [he, he']
    cases hlike with
    | directory => rfl
    | link target => rfl
    | file related => rw [related.2 r hr rfl]

/-- Wherever the two runs leave something different, it has stood there from the start. -/
theorem generate_entry (now : Moment) (x : Location) :
    FileSystem.entry? ((generate s now).run.run w).2.files x =
        FileSystem.entry? ((generate s now).run.run w').2.files x ∨
      FileSystem.entry? ((generate s now).run.run w).2.files x = w.files.entry? x ∧
        FileSystem.entry? ((generate s now).run.run w').2.files x = w'.files.entry? x := by
  rcases (generate_untouched hfiles hlog now).2.files.entry x with
    ⟨hn, hn'⟩ | ⟨e, e', he, he', hlike⟩
  · exact .inl (hn.trans hn'.symm)
  · cases hlike with
    | directory => exact .inl (he.trans he'.symm)
    | link target => exact .inl (he.trans he'.symm)
    | file related =>
      rcases related.2 with rfl | ⟨hstart, hstart'⟩
      · exact .inl (he.trans he'.symm)
      · exact .inr ⟨he.trans hstart.symm, he'.trans hstart'.symm⟩

end

/-- A run shows no difference between two worlds: it ends in the same way with the same statistics,
reports the same and fills the output directory with the same; it does not even copy a difference
from one place to another. -/
structure SameTraces (s : Settings) (now : Moment) (w w' : World) : Prop where
  result : ((generate s now).run.run w).1 = ((generate s now).run.run w').1
  log : ((generate s now).run.run w).2.log = ((generate s now).run.run w').2.log
  output : ∀ {plan output sources reset}, prepare w.files s = .ok (plan, output, sources) →
    Succeeds (resetOutput output) w () reset → ∃ l, reset.files.Denotes output l ∧ ∀ r, r ≠ [] →
      FileSystem.entry? ((generate s now).run.run w).2.files (l ++ r) =
        FileSystem.entry? ((generate s now).run.run w').2.files (l ++ r)
  elsewhere : ∀ x, FileSystem.entry? ((generate s now).run.run w).2.files x =
      FileSystem.entry? ((generate s now).run.run w').2.files x ∨
    FileSystem.entry? ((generate s now).run.run w).2.files x = w.files.entry? x ∧
      FileSystem.entry? ((generate s now).run.run w').2.files x = w'.files.entry? x

/-- A file with the declarations of its statements. -/
def readAs (audience : Audience) (f : ParsedFile × List Statement) : ParsedFile :=
  { f.1 with declarations := declarations audience f.2 }

theorem readAs_shown (audience : Audience) (f : ParsedFile × List Statement) :
    readAs audience (f.1, f.2.map audience.shownStatement) = readAs audience f := by
  simp only [readAs, declarations_shown]

/-- Hidden methods do not leak. Statements that are the same without them declare the same; files
with such statements have the same class map and are published in the same way, page by page,
with the same index and statistics; and whole runs on file systems whose sources are such have
the same traces. -/
theorem hidden_methods_leave_no_trace (audience : Audience) :
    (∀ statements statements', audience.SameShown statements statements' →
      declarations audience statements = declarations audience statements') ∧
    (∀ files files' : List (ParsedFile × List Statement),
      files.map (fun f => (f.1, f.2.map audience.shownStatement)) =
        files'.map (fun f => (f.1, f.2.map audience.shownStatement)) →
      ClassMap.ofFiles (files.map (readAs audience)) =
        ClassMap.ofFiles (files'.map (readAs audience)) ∧
        ∀ plan output now, publish plan output now (files.map (readAs audience)) =
          publish plan output now (files'.map (readAs audience))) ∧
    ∀ s w w' now, (planOf s w.files.here).audience = audience → w.files.WellFormed →
      w.files.Like (fun _ => audience.Indistinct) w'.files → w.log = w'.log →
      SameTraces s now w w' := by
  refine ⟨?_, ?_, ?_⟩
  · intro statements statements' h
    exact h.declarations
  · intro files files' h
    have hread : files.map (readAs audience) = files'.map (readAs audience) := by
      have hmap := congrArg (List.map (readAs audience)) h
      simpa only [List.map_map, Function.comp_def, readAs_shown] using hmap
    rw [hread]
    exact ⟨rfl, fun _ _ _ => rfl⟩
  · rintro s w w' now rfl hw hfiles hlog
    exact {
      result := (generate_untouched hfiles hlog now).1
      log := (generate_untouched hfiles hlog now).2.log
      output := generate_same_output hfiles hlog hw now
      elsewhere := generate_entry hfiles hlog now }

/-- A project with one class. -/
def classWorld (source : String) : World where
  files := { entries := [(["src", "A.php"], .file source.toUTF8), (["src"], .directory)] }
  log := []

/-- Whether all that is shown of the statements is an empty class. -/
def isBareClass (audience : Audience) (name : String) : List Statement → Bool
  | [.declaration d] =>
    d.kind = .class && d.name = name && d.doc = none && d.extends = [] && d.implements = [] &&
      d.mixins = [] && (audience.shown d).members.isEmpty
  | _ => false

theorem shown_bareClass {audience : Audience} {name : String} {statements : List Statement}
    (h : isBareClass audience name statements = true) :
    statements.map audience.shownStatement = [.declaration { kind := .class, name := name }] := by
  unfold isBareClass at h
  split at h
  · rename_i d
    simp only [Bool.and_eq_true, decide_eq_true_eq, List.isEmpty_iff] at h
    obtain ⟨⟨⟨⟨⟨⟨hkind, hname⟩, hdoc⟩, hextends⟩, himplements⟩, hmixins⟩, hmembers⟩ := h
    obtain ⟨kind, name', doc, exts, impls, mixins, members⟩ := d
    simp only [Audience.shown] at hkind hname hdoc hextends himplements hmixins hmembers
    simp [Audience.shownStatement, Audience.shown, hkind, hname, hdoc, hextends, himplements,
      hmixins, hmembers]
  · cases h

theorem classWorld_like {audience : Audience} {source source' : String}
    (h : audience.Indistinct source.toUTF8 source'.toUTF8) :
    (classWorld source).files.Like (fun _ => audience.Indistinct) (classWorld source').files := by
  refine ⟨rfl, ?_⟩
  intro l a b ha hb
  by_cases hl : l = ["src", "A.php"]
  · subst hl
    cases ha
    cases hb
    exact h
  · -- The other entry is a directory.
    have hne : (l == ["src", "A.php"]) = false := by simpa using hl
    simp only [classWorld, FileSystem.entry?, List.lookup_cons, hne] at ha
    split at ha
    · cases ha
    · split at ha
      · cases ha
      · cases ha

/-- A class with a private method, and the class without it. -/
theorem hidden_methods_leave_no_trace_private :
    ∃ statements statements',
      Php.outline "<?php class A { private function g() {} }".toUTF8 = .ok statements ∧
      Php.outline "<?php class A {}".toUTF8 = .ok statements' ∧ statements ≠ statements' ∧
      declarations {} statements = declarations {} statements' ∧
      (∀ file plan output now, publish plan output now [readAs {} (file, statements)] =
        publish plan output now [readAs {} (file, statements')]) ∧
      SameTraces sampleSettings ⟨2024, 1, 1, 0, 0, 0⟩
        (classWorld "<?php class A { private function g() {} }")
        (classWorld "<?php class A {}") := by
  obtain ⟨hnodes, hpublish, hrun⟩ := hidden_methods_leave_no_trace {}
  obtain ⟨statements, houtline, hview⟩ := exists_of_toOption
    (f := fun statements =>
      (isBareClass {} "A" statements, (outlinesOf statements).map (·.members.length)))
    (x := Php.outline "<?php class A { private function g() {} }".toUTF8) (b := (true, [1]))
    (by decide +kernel)
  obtain ⟨statements', houtline', hview'⟩ := exists_of_toOption
    (f := fun statements =>
      (isBareClass {} "A" statements, (outlinesOf statements).map (·.members.length)))
    (x := Php.outline "<?php class A {}".toUTF8) (b := (true, [0])) (by decide +kernel)
  simp only [Prod.mk.injEq] at hview hview'
  have hshown : Audience.SameShown {} statements statements' :=
    (shown_bareClass hview.1).trans (shown_bareClass hview'.1).symm
  refine ⟨statements, statements', houtline, houtline', ?_, hnodes _ _ hshown, ?_, ?_⟩
  · rintro rfl
    cases hview.2.symm.trans hview'.2
  · intro file plan output now
    have hone : [(file, statements)].map (fun f => (f.1, f.2.map (Audience.shownStatement {}))) =
        [(file, statements')].map (fun f => (f.1, f.2.map (Audience.shownStatement {}))) := by
      rw [List.map_singleton, List.map_singleton, hshown]
    exact (hpublish _ _ hone).2 plan output now
  · exact hrun sampleSettings _ _ _ (by decide +kernel)
      (FileSystem.wellFormed_of_check (by decide +kernel))
      (classWorld_like (.inr ⟨statements, statements', houtline, houtline', hshown⟩)) rfl

end Site

end PhpPages

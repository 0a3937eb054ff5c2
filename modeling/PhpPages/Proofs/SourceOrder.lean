import Mathlib.Data.List.Perm.Basic
import PhpPages.Proofs.PageOwners
import PhpPages.Proofs.Publication
import PhpPages.Proofs.TypedSettings

/-!
The order in which source directories are listed. The same files are found in any order. A file is
named after the first directory that contains it, but below the project root the label of a
directory and the path behind it make up the path from the root, whichever directory that is.
-/

namespace PhpPages

open Yaml (Value)

theorem mapM_perm {ε α β : Type} {f : α → Except ε β} {l l' : List α} (hl : l.Perm l') {r : List β}
    (h : l.mapM f = .ok r) : ∃ r', l'.mapM f = .ok r' ∧ r.Perm r' := by
  induction hl generalizing r with
  | nil => exact ⟨r, h, .refl r⟩
  | cons a _ ih =>
    obtain ⟨b, bs, hb, hbs, rfl⟩ := Site.mapM_cons_ok.mp h
    obtain ⟨bs', hbs', hperm⟩ := ih hbs
    exact ⟨b :: bs', Site.mapM_cons_ok.mpr ⟨b, bs', hb, hbs', rfl⟩, hperm.cons b⟩
  | swap a a' l =>
    obtain ⟨b', _, hb', htail, rfl⟩ := Site.mapM_cons_ok.mp h
    obtain ⟨b, bs, hb, hbs, rfl⟩ := Site.mapM_cons_ok.mp htail
    have htail' := Site.mapM_cons_ok.mpr ⟨b', bs, hb', hbs, rfl⟩
    exact ⟨b :: b' :: bs, Site.mapM_cons_ok.mpr ⟨b, _, hb, htail', rfl⟩, .swap b b' bs⟩
  | trans _ _ ih ih' =>
    obtain ⟨r₁, h₁, hperm₁⟩ := ih h
    obtain ⟨r₂, h₂, hperm₂⟩ := ih' h₁
    exact ⟨r₂, h₂, hperm₁.trans hperm₂⟩

theorem mapM_congr {ε α β : Type} {f g : α → Except ε β} {l : List α} (h : ∀ a ∈ l, f a = g a) :
    l.mapM f = l.mapM g := by
  induction l with
  | nil => rfl
  | cons a l ih =>
    have hl := ih fun b hb => h b (List.mem_cons_of_mem a hb)
    rw [List.mapM_cons, List.mapM_cons, h a List.mem_cons_self, hl]

namespace Settings

/-- Settings that differ in the order of the source directories alone. -/
structure Reordered (s s' : Settings) : Prop where
  sources : ∃ items items', s.get? "source_directories" = some (.list items) ∧
    s'.get? "source_directories" = some (.list items') ∧ items.Perm items'
  others : ∀ key, key ≠ "source_directories" → s.get? key = s'.get? key

theorem Reordered.symm {s s' : Settings} (h : s.Reordered s') : s'.Reordered s := by
  obtain ⟨items, items', hs, hs', hperm⟩ := h.sources
  exact ⟨⟨items', items, hs', hs, hperm.symm⟩, fun key hkey => (h.others key hkey).symm⟩

section

variable {s s' : Settings} (h : s.Reordered s')
include h

theorem Reordered.wellTyped (hs : s.WellTyped) : s'.WellTyped := by
  have hothers : ∀ key ≠ "source_directories", s'.get? key = s.get? key :=
    fun key hkey => (h.others key hkey).symm
  refine ⟨?_, ?_, ?_, ?_, ?_, ?_⟩
  · rw [hothers _ (by decide)]
    exact hs.output
  · obtain ⟨items, items', hitems, hitems', hperm⟩ := h.sources
    obtain ⟨directories, hdirectories, hne, hfilled⟩ := hs.sources
    cases hitems.symm.trans hdirectories
    obtain ⟨directories', rfl, hperm'⟩ :
        Relation.Comp (fun k l => k = List.map Value.text l) List.Perm items' directories := by
      rw [List.eq_map_comp_perm]
      exact hperm.symm
    refine ⟨directories', hitems', ?_, fun d hd => hfilled d (hperm'.mem_iff.mp hd)⟩
    intro hnil
    rw [hnil, List.nil_perm] at hperm'
    exact hne hperm'
  · intro key hkey
    rw [hothers key (by grind)]
    exact hs.lists key hkey
  · intro key hkey
    rw [hothers key (by grind)]
    exact hs.truths key hkey
  · rw [hothers _ (by decide)]
    exact hs.title
  · rw [hothers _ (by decide)]
    exact hs.root

theorem Reordered.problems (hs : problems s = []) : problems s' = [] :=
  (problems_eq_nil s').mpr (h.wellTyped ((problems_eq_nil s).mp hs))

theorem Reordered.plan (here : Option Location) :
    Site.planOf s' here = { Site.planOf s here with sources := (Site.planOf s' here).sources } := by
  simp (disch := decide) only [Site.planOf, text?, textList, isOn, h.others]

theorem Reordered.listed (here : Option Location) :
    (Site.planOf s here).sources.Perm (Site.planOf s' here).sources := by
  obtain ⟨items, items', hitems, hitems', hperm⟩ := h.sources
  simp only [Site.planOf, textList, hitems, hitems']
  exact (hperm.filterMap _).map _

end

end Settings

namespace Path

theorem le_trans {p q r : Path} (hpq : p.le q = true) (hqr : q.le r = true) : p.le r = true := by
  simp only [le, Bool.not_eq_true', decide_eq_false_iff_not] at hpq hqr ⊢
  exact List.le_trans hpq hqr

theorem le_total (p q : Path) : (p.le q || q.le p) = true := by
  simp only [le, Bool.or_eq_true, Bool.not_eq_true', decide_eq_false_iff_not]
  exact List.le_total p.parts q.parts

theorem le_antisymm {p q : Path} (hanchor : p.anchor = q.anchor) (hpq : p.le q = true)
    (hqp : q.le p = true) : p = q := by
  simp only [le, Bool.not_eq_true', decide_eq_false_iff_not] at hpq hqp
  have hparts : p.parts = q.parts := List.le_antisymm hpq hqp
  obtain ⟨anchor, segments⟩ := p
  obtain ⟨anchor', segments'⟩ := q
  cases hanchor
  cases anchor with
  | relative =>
    obtain rfl : segments = segments' := hparts
    rfl
  | root =>
    cases hparts
    rfl
  | doubleRoot =>
    cases hparts
    rfl

theorem text_relative {names : List String} (h : names ≠ []) :
    (⟨.relative, names⟩ : Path).text = "/".intercalate names := by
  simp [text, Anchor.text, h]

theorem relativeTo?_append (base names : Location) :
    (Path.at (base ++ names)).relativeTo? (Path.at base) = some ⟨.relative, names⟩ := by
  simp [relativeTo?, Path.at]

end Path

namespace Scan

/-- What one directory contributes to a search. -/
def contribution (fs : FileSystem) (f : Filter) (directory : Path) : List Path :=
  match fs.lookup true directory with
  | .entry location .directory => filesBelow fs f directory location
  | _ => []

theorem collect_cons (fs : FileSystem) (f : Filter) (d : Path) (rest : List Path) :
    (collect fs f (d :: rest)).2 =
      if fs.isDirectory d = true ∧ fs.mayList = false then .error (.scan d)
      else (collect fs f rest).2.map (contribution fs f d ++ ·) := by
  have hnone : ∀ found : Except FileError (List Path), found.map (fun files => files) = found := by
    intro found
    cases found with
    | error e => rfl
    | ok files => rfl
  rw [collect]
  unfold FileSystem.isDirectory contribution
  cases fs.lookup true d with
  | entry location e =>
    cases e with
    | directory =>
      cases fs.mayList with
      | true => simp
      | false => simp
    | file content => simp [hnone]
    | link target => simp [hnone]
  | free location => simp [hnone]
  | nowhere fault => simp [hnone]

/-- A search succeeds unless it comes to a directory and may not list it, and it gives what the
directories contribute. -/
theorem collect_iff {fs : FileSystem} {f : Filter} {directories files : List Path} :
    (collect fs f directories).2 = .ok files ↔
      (∀ d ∈ directories, ¬ (fs.isDirectory d = true ∧ fs.mayList = false)) ∧
        directories.flatMap (contribution fs f) = files := by
  induction directories generalizing files with
  | nil => simp [collect]
  | cons d rest ih =>
    rw [collect_cons, List.forall_mem_cons, List.flatMap_cons]
    by_cases hrefused : fs.isDirectory d = true ∧ fs.mayList = false
    · simp [hrefused]
    · rw [if_neg hrefused]
      cases hc : (collect fs f rest).2 with
      | error e =>
        constructor
        · intro h
          cases h
        · intro h
          rw [ih.mpr ⟨h.1.2, rfl⟩] at hc
          cases hc
      | ok more =>
        obtain ⟨hall, rfl⟩ := ih.mp hc
        simp only [Except.map, Except.ok.injEq, hrefused, not_false_eq_true, true_and]
        exact ⟨fun h => ⟨hall, h⟩, fun h => h.2⟩

/-- The order of the directories does not show in the files that are found. -/
theorem sources_perm {fs : FileSystem} (hw : fs.WellFormed) {f : Filter}
    {directories directories' : List Path} (hroot : ∀ d ∈ directories, d.anchor = .root)
    (hperm : directories.Perm directories') {found : List Path}
    (h : (sources fs f directories).2 = .ok found) : (sources fs f directories').2 = .ok found := by
  simp only [sources] at h ⊢
  cases hc : (collect fs f directories).2 with
  | error e =>
    rw [hc] at h
    cases h
  | ok files =>
    rw [hc] at h
    cases h
    have hanchor : ∀ file ∈ files, file.anchor = .root := by
      intro file hfile
      obtain ⟨d, hd, names, _, _, rfl⟩ := collect_found hw hc file hfile
      exact hroot d hd
    obtain ⟨hlist, rfl⟩ := collect_iff.mp hc
    have hfiles := hperm.flatMap_right (contribution fs f)
    have hc' : (collect fs f directories').2 = .ok (directories'.flatMap (contribution fs f)) :=
      collect_iff.mpr ⟨fun d hd => hlist d (hperm.mem_iff.mpr hd), rfl⟩
    have hsorted : (directories.flatMap (contribution fs f)).mergeSort Path.le =
        (directories'.flatMap (contribution fs f)).mergeSort Path.le := by
      have hanti : ∀ p q, p ∈ (directories.flatMap (contribution fs f)).mergeSort Path.le →
          q ∈ (directories'.flatMap (contribution fs f)).mergeSort Path.le →
          p.le q = true → q.le p = true → p = q := by
        intro p q hp hq
        have hp' := hanchor p (List.mem_mergeSort.mp hp)
        have hq' := hanchor q (hfiles.mem_iff.mpr (List.mem_mergeSort.mp hq))
        exact Path.le_antisymm (hp'.trans hq'.symm)
      have hsort := List.pairwise_mergeSort (fun p q r => Path.le_trans (p := p)) Path.le_total
      apply List.Perm.eq_of_pairwise hanti (hsort _) (hsort _)
      exact ((List.mergeSort_perm _ _).trans hfiles).trans (List.mergeSort_perm _ _).symm
    rw [hc']
    simp only [Except.map, hsorted]

section

variable {fs : FileSystem} {root : Path} {base : Location}

theorem directoryLabel_below (hroot : fs.resolveLenient root = .ok base) {names : Location}
    (hne : names ≠ []) (hn : ∀ n ∈ names, IsName n) :
    directoryLabel fs (some root) (base ++ names) = .ok ("/".intercalate names) := by
  have hdot : "/".intercalate names ≠ "." := by
    intro heq
    have hnames := Path.ofText_names hne hn
    rw [heq] at hnames
    cases hnames
    exact hne rfl
  simp [directoryLabel, hroot, Path.relativeTo?_append, Path.text_relative hne, hdot, bind,
    Except.bind, pure, Except.pure]

/-- The directories lie below a location, and not at it. -/
def Below (fs : FileSystem) (base : Location) (directories : List Path) : Prop :=
  ∀ d ∈ directories, ∃ names, names ≠ [] ∧ fs.resolveLenient d = .ok (base ++ names)

theorem Below.tail {d : Path} {rest : List Path} (h : Below fs base (d :: rest)) :
    Below fs base rest :=
  fun d hd => h d (List.mem_cons_of_mem _ hd)

variable {directories : List Path} {location : Location}

/-- A file in a directory below the root is named after its path from the root, whichever
directory that is. -/
theorem relativeAmong_below (hw : fs.WellFormed) (hroot : fs.resolveLenient root = .ok base)
    (hbelow : Below fs base directories)
    (hslash : ∀ d ∈ directories, ∀ n ∈ d.segments, '/' ∉ n.toList)
    (hapart : ∀ d ∈ directories, fs.resolveLenient d ≠ .ok location)
    (hholds : Holds fs directories location) (file : Path) :
    relativeAmong fs (some root) true file location directories =
      .ok ("/".intercalate (location.drop base.length)) := by
  induction directories with
  | nil =>
    obtain ⟨d, hd, _⟩ := hholds
    cases hd
  | cons d rest ih =>
    obtain ⟨names, hne, hd⟩ := hbelow d List.mem_cons_self
    have hnames := FileSystem.resolve_names hw (hslash d List.mem_cons_self) hd
    by_cases hin : base ++ names <+: location
    · obtain ⟨behind, rfl⟩ := hin
      have hbehind : behind ≠ [] := by
        intro hnil
        rw [hnil, List.append_nil] at hapart
        exact hapart d List.mem_cons_self hd
      have hlabel :=
        directoryLabel_below hroot hne fun n hn => hnames n (List.mem_append_right _ hn)
      have hpath : (base ++ names ++ behind).drop base.length = names ++ behind := by
        rw [List.append_assoc, List.drop_left]
      simp only [relativeAmong, hd, bind, Except.bind, Path.relativeTo?_append, ↓reduceIte, hlabel,
        hpath, Path.text_relative hbehind, String.intercalate_append_of_ne_nil hne hbehind]
      rfl
    · have hrest : Holds fs rest location := by
        obtain ⟨d', hd', top, htop, hprefix⟩ := hholds
        cases List.mem_cons.mp hd' with
        | inl heq =>
          subst heq
          rw [hd] at htop
          cases htop
          exact absurd hprefix hin
        | inr hmem => exact ⟨d', hmem, top, htop, hprefix⟩
      have hnone : (Path.at location).relativeTo? (Path.at (base ++ names)) = none := by
        simp [Path.relativeTo?, Path.at, hin]
      simp only [relativeAmong, hd, bind, Except.bind, hnone]
      exact ih hbelow.tail (fun d hd => hslash d (List.mem_cons_of_mem _ hd))
        (fun d hd => hapart d (List.mem_cons_of_mem _ hd)) hrest

/-- A file outside the directories is named by its bare name. -/
theorem relativeAmong_outside (hbelow : Below fs base directories)
    (hout : ¬ Holds fs directories location) (top : Option Path) (several : Bool) (file : Path) :
    relativeAmong fs top several file location directories = .ok file.name := by
  induction directories with
  | nil => rfl
  | cons d rest ih =>
    obtain ⟨names, _, hd⟩ := hbelow d List.mem_cons_self
    have hin : ¬ base ++ names <+: location :=
      fun hprefix => hout ⟨d, List.mem_cons_self, _, hd, hprefix⟩
    have hnone : (Path.at location).relativeTo? (Path.at (base ++ names)) = none := by
      simp [Path.relativeTo?, Path.at, hin]
    simp only [relativeAmong, hd, bind, Except.bind, hnone]
    apply ih hbelow.tail
    intro hholds
    obtain ⟨d', hd', hcontains⟩ := hholds
    exact hout ⟨d', List.mem_cons_of_mem _ hd', hcontains⟩

/-- The order of directories below the root does not show in the path of a file, unless the file
itself is listed as a directory. -/
theorem relativeSource_perm (hw : fs.WellFormed) (hroot : fs.resolveLenient root = .ok base)
    (hbelow : Below fs base directories)
    (hslash : ∀ d ∈ directories, ∀ n ∈ d.segments, '/' ∉ n.toList) {directories' : List Path}
    (hperm : directories.Perm directories') {file : Path}
    (hapart : ∀ d ∈ directories, fs.resolveLenient d ≠ fs.resolveLenient file) :
    relativeSource fs file directories (some root) =
      relativeSource fs file directories' (some root) := by
  have hmem : ∀ d ∈ directories', d ∈ directories := fun d hd => hperm.mem_iff.mpr hd
  unfold relativeSource
  cases hfile : fs.resolveLenient file with
  | error e => rfl
  | ok location =>
    rw [hfile] at hapart
    simp only [bind, Except.bind, ← hperm.length_eq]
    by_cases hseveral : directories.length > 1
    · simp only [hseveral, decide_true]
      by_cases hholds : Holds fs directories location
      · have hholds' : Holds fs directories' location := by
          obtain ⟨d, hd, hcontains⟩ := hholds
          exact ⟨d, hperm.mem_iff.mp hd, hcontains⟩
        rw [relativeAmong_below hw hroot hbelow hslash hapart hholds,
          relativeAmong_below hw hroot (fun d hd => hbelow d (hmem d hd))
            (fun d hd => hslash d (hmem d hd)) (fun d hd => hapart d (hmem d hd)) hholds']
      · have hout : ¬ Holds fs directories' location := by
          intro hin
          obtain ⟨d, hd, hcontains⟩ := hin
          exact hholds ⟨d, hmem d hd, hcontains⟩
        rw [relativeAmong_outside hbelow hholds,
          relativeAmong_outside (fun d hd => hbelow d (hmem d hd)) hout]
    · -- A single directory, or none, has no other order.
      have hsame : directories = directories' := by
        match directories, hseveral with
        | [], _ => exact (List.nil_perm.mp hperm).symm
        | [d], _ => exact (List.singleton_perm.mp hperm)
        | _ :: _ :: _, hseveral => exact absurd (by simp) hseveral
      rw [hsame]

end

end Scan

namespace Site

/-- Which files a run looks for once its root has been resolved. -/
def Plan.filter (plan : Plan) (base : Location) : Scan.Filter :=
  { excluded := plan.excluded, extensions := plan.extensions, base := some (Path.at base) }

theorem scanSources_leaves_iff {plan : Plan} {sources found : List Path} {w : World}
    {fs : FileSystem} :
    Leaves (scanSources plan sources) w found fs ↔
      w.files = fs ∧ ∃ base, w.files.resolveLenient plan.root = .ok base ∧
        (Scan.sources w.files (plan.filter base) sources).2 = .ok found := by
  constructor
  · intro h
    obtain ⟨log, h⟩ := h
    obtain ⟨hfiles, base, hbase, hsources⟩ := scanSources_steps h
    exact ⟨hfiles.symm, base, hbase, hsources⟩
  · intro h
    obtain ⟨rfl, base, hbase, hsources⟩ := h
    refine ⟨w.log ++ (Scan.sources w.files (plan.filter base) sources).1,
      succeeds_bind.mpr ⟨base, w, succeeds_look.mpr ⟨mapError_eq_ok.mpr hbase, rfl⟩, ?_⟩⟩
    refine succeeds_bind.mpr ⟨w.files, w, succeeds_files.mpr ⟨rfl, rfl⟩, ?_⟩
    dsimp only
    refine succeeds_bind.mpr ⟨(), _, succeeds_report.mpr rfl, ?_⟩
    rw [Plan.filter] at hsources
    rw [hsources]
    exact succeeds_pure.mpr ⟨rfl, rfl⟩

/-- Filling the output directory is finding the sources, reading each of them and publishing
what came out. -/
theorem fillTree_leaves_iff {plan : Plan} {output : Path} {sources : List Path} {now : Moment}
    {w : World} {stats : Stats} {fs : FileSystem} :
    Leaves (fillTree plan output sources now) w stats fs ↔
      ∃ base found pairs, w.files.resolveLenient plan.root = .ok base ∧
        (Scan.sources w.files (plan.filter base) sources).2 = .ok found ∧
        found.mapM (parseFile w.files plan.audience sources (some plan.root)) = .ok pairs ∧
        Leaves (publish plan output now (pairs.map (·.2))) w stats fs := by
  have hdocument : ∀ found, Works (document plan sources output now found) :=
    fun found => .bind (parseFiles_works plan sources found) (publish_works plan output now)
  rw [fillTree, leaves_bind fun found => .bind (.report _) fun _ => hdocument found]
  constructor
  · intro h
    obtain ⟨found, _, hscan, h⟩ := h
    obtain ⟨rfl, base, hbase, hfound⟩ := scanSources_leaves_iff.mp hscan
    rw [leaves_bind fun _ => hdocument found] at h
    obtain ⟨_, _, ⟨log, hreport⟩, h⟩ := h
    cases succeeds_report.mp hreport
    obtain ⟨pairs, hpairs, hpublish⟩ := document_leaves_iff.mp h
    exact ⟨base, found, pairs, hbase, hfound, hpairs, hpublish⟩
  · intro h
    obtain ⟨base, found, pairs, hbase, hfound, hpairs, hpublish⟩ := h
    refine ⟨found, w.files, scanSources_leaves_iff.mpr ⟨rfl, base, hbase, hfound⟩, ?_⟩
    rw [leaves_bind fun _ => hdocument found]
    exact ⟨(), w.files, ⟨_, succeeds_report.mpr rfl⟩,
      document_leaves_iff.mpr ⟨pairs, hpairs, hpublish⟩⟩

/-- A run succeeds if its places are found, its output directory is made and that is filled. -/
theorem generate_leaves_iff {s : Settings} {now : Moment} {w : World} {stats : Stats}
    {fs : FileSystem} :
    Leaves (generate s now) w stats fs ↔
      ∃ plan output sources reset, prepare w.files s = .ok (plan, output, sources) ∧
        Succeeds (resetOutput output) w () reset ∧
        Leaves (fillTree plan output sources now) reset stats fs := by
  rw [generate_eq]
  constructor
  · intro h
    obtain ⟨log, h⟩ := h
    obtain ⟨⟨plan, output, sources⟩, _, hlook, h⟩ := succeeds_bind.mp h
    obtain ⟨hprep, rfl⟩ := succeeds_look.mp hlook
    obtain ⟨_, reset, hreset, h⟩ := succeeds_bind.mp h
    exact ⟨plan, output, sources, reset, hprep, hreset, log, h⟩
  · intro h
    obtain ⟨plan, output, sources, reset, hprep, hreset, log, h⟩ := h
    exact ⟨log, succeeds_bind.mpr
      ⟨_, w, succeeds_look.mpr ⟨hprep, rfl⟩, succeeds_bind.mpr ⟨(), reset, hreset, h⟩⟩⟩

/-- With the source directories in another order, a run is allowed or refused as before, and its
places are the same in another order. -/
theorem prepare_reordered {fs : FileSystem} {s s' : Settings} (h : s.Reordered s') {plan : Plan}
    {output : Path} {sources : List Path} (hprep : prepare fs s = .ok (plan, output, sources)) :
    ∃ listed sources', sources.Perm sources' ∧
      prepare fs s' = .ok ({ plan with sources := listed }, output, sources') := by
  obtain ⟨hproblems, hhere, hplan, hplaces, hguard⟩ := prepare_iff.mp hprep
  obtain ⟨houtput, _⟩ := places_ok hplaces
  have hlisted := h.listed fs.here
  rw [← hplan] at hlisted
  obtain ⟨sources', hsources', hperm⟩ := mapM_perm hlisted (sources_mapM hplaces)
  refine ⟨(planOf s' fs.here).sources, sources', hperm,
    prepare_iff.mpr ⟨h.problems hproblems, ?_, ?_, ?_, ?_⟩⟩
  · rw [Settings.text?, ← h.others "project_root" (by decide)]
    exact hhere
  · rw [hplan]
    exact (h.plan fs.here).symm
  · exact bind_eq_ok.mpr ⟨output, houtput, bind_eq_ok.mpr ⟨sources', hsources', rfl⟩⟩
  · obtain ⟨root, hroot, hne, hwithin⟩ := guardOutput_ok.mp hguard
    exact guardOutput_ok.mpr ⟨root, hroot, hne, fun p hp => hwithin p (hperm.mem_iff.mpr hp)⟩

/-- When the sources are read, their directories lie below the root of the project, and none of the
files that are found is itself listed as a directory. -/
structure Anchored (plan : Plan) (fs : FileSystem) (sources : List Path) (base : Location) :
    Prop where
  root : fs.resolveLenient plan.root = .ok base
  below : Scan.Below fs base sources
  apart : ∀ found, (Scan.sources fs (plan.filter base) sources).2 = .ok found →
    ∀ file ∈ found, ∀ d ∈ sources, fs.resolveLenient d ≠ fs.resolveLenient file

/-- The output directory is filled with the same, whatever the order of the sources. -/
theorem fillTree_perm {plan : Plan} {sources sources' : List Path} {w : World} {base : Location}
    (hw : w.files.WellFormed) (hsources : ∀ d ∈ sources, ∃ l, d = Path.at l ∧ ∀ n ∈ l, IsName n)
    (hanchored : Anchored plan w.files sources base) (hperm : sources.Perm sources')
    (listed : List String) (output : Path) (now : Moment) (stats : Stats) (fs : FileSystem) :
    Leaves (fillTree plan output sources now) w stats fs ↔
      Leaves (fillTree { plan with sources := listed } output sources' now) w stats fs := by
  have hmem : ∀ d ∈ sources', d ∈ sources := fun d hd => hperm.mem_iff.mpr hd
  have hroot : ∀ d ∈ sources, d.anchor = .root := by
    intro d hd
    obtain ⟨l, rfl, _⟩ := hsources d hd
    rfl
  have hslash : ∀ d ∈ sources, ∀ n ∈ d.segments, '/' ∉ n.toList := by
    intro d hd n hn
    obtain ⟨l, rfl, hl⟩ := hsources d hd
    exact (hl n hn).noSlash
  have hscan : ∀ found, (Scan.sources w.files (plan.filter base) sources).2 = .ok found ↔
      (Scan.sources w.files (plan.filter base) sources').2 = .ok found := by
    intro found
    exact ⟨Scan.sources_perm hw hroot hperm,
      Scan.sources_perm hw (fun d hd => hroot d (hmem d hd)) hperm.symm⟩
  have hparse : ∀ found, (Scan.sources w.files (plan.filter base) sources).2 = .ok found →
      found.mapM (parseFile w.files plan.audience sources (some plan.root)) =
        found.mapM (parseFile w.files plan.audience sources' (some plan.root)) := by
    intro found hfound
    apply mapM_congr
    intro file hfile
    unfold parseFile
    rw [Scan.relativeSource_perm hw hanchored.root hanchored.below hslash hperm
      (hanchored.apart found hfound file hfile)]
  rw [fillTree_leaves_iff, fillTree_leaves_iff]
  constructor
  · intro h
    obtain ⟨_, found, pairs, hbase, hfound, hpairs, hpublish⟩ := h
    cases hanchored.root.symm.trans hbase
    rw [hparse found hfound] at hpairs
    exact ⟨base, found, pairs, hbase, (hscan found).mp hfound, hpairs, hpublish⟩
  · intro h
    obtain ⟨_, found, pairs, hbase, hfound, hpairs, hpublish⟩ := h
    cases hanchored.root.symm.trans hbase
    have hfound := (hscan found).mpr hfound
    have hpairs := (hparse found hfound).trans hpairs
    exact ⟨base, found, pairs, hbase, hfound, hpairs, hpublish⟩

/-- The order in which the source directories are listed does not matter: a run with them in one
order succeeds if it succeeds with them in another, and then it counts the same and leaves the same
file system. When the sources are read, the directories have to lie below the root of the project,
and no file that is found may be one of them. -/
theorem source_order_is_immaterial {s s' : Settings} {w : World} (hw : w.files.WellFormed)
    (h : s.Reordered s')
    (hplaces : ∀ plan output sources reset, prepare w.files s = .ok (plan, output, sources) →
      Succeeds (resetOutput output) w () reset → ∃ base, Anchored plan reset.files sources base)
    (now : Moment) (stats : Stats) (fs : FileSystem) :
    Leaves (generate s now) w stats fs ↔ Leaves (generate s' now) w stats fs := by
  have hfill : ∀ {plan output sources reset sources'} (listed : List String),
      prepare w.files s = .ok (plan, output, sources) → Succeeds (resetOutput output) w () reset →
      sources.Perm sources' →
      (Leaves (fillTree plan output sources now) reset stats fs ↔
        Leaves (fillTree { plan with sources := listed } output sources' now) reset stats fs) := by
    intro plan output sources reset sources' listed hprep hreset hperm
    obtain ⟨base, hanchored⟩ := hplaces plan output sources reset hprep hreset
    obtain ⟨⟨o, rfl, hnames⟩, hsources⟩ := prepare_names hw hprep
    obtain ⟨l, hfresh⟩ := resetOutput_fresh hw hnames hreset
    exact fillTree_perm hfresh.wellFormed hsources hanchored hperm listed _ now stats fs
  rw [generate_leaves_iff, generate_leaves_iff]
  constructor
  · intro hrun
    obtain ⟨plan, output, sources, reset, hprep, hreset, hrun⟩ := hrun
    obtain ⟨listed, sources', hperm, hprep'⟩ := prepare_reordered h hprep
    exact ⟨_, output, sources', reset, hprep', hreset, (hfill listed hprep hreset hperm).mp hrun⟩
  · intro hrun
    obtain ⟨plan, output, sources', reset, hprep', hreset, hrun⟩ := hrun
    obtain ⟨listed, sources, hperm, hprep⟩ := prepare_reordered h.symm hprep'
    have hback := (hfill plan.sources hprep hreset hperm.symm).mpr hrun
    exact ⟨_, output, sources, reset, hprep, hreset, hback⟩

/-- What a function sees of the world that a step leaves, if the step succeeds. -/
def viewAfter {α β : Type} (x : Run α) (w : World) (f : World → β) : Option β :=
  match x.run.run w with
  | (.ok _, w') => some (f w')
  | (.error _, _) => none

theorem exists_of_viewAfter {α β : Type} {x : Run α} {w : World} {f : World → β} {b : β}
    (h : viewAfter x w f = some b) : ∃ a fs, Leaves x w a fs ∧ ∃ log, f ⟨fs, log⟩ = b := by
  unfold viewAfter at h
  split at h
  · rename_i a w' hrun
    exact ⟨a, w'.files, ⟨w'.log, hrun⟩, w'.log, Option.some.inj h⟩
  · cases h

/-- A class in a file that is found by the name of a link, and a link out of the
output directory. -/
def shelf : World where
  files := { entries := [(["src"], .directory), (["src", "sub"], .directory),
    (["src", "sub", "A.txt"], .file "<?php class A {}".toUTF8), (["pub"], .directory),
    (["pub", "A.php"], .link "../src/sub/A.txt"), (["docs"], .directory),
    (["docs", "up"], .link "..")] }
  log := []

def shelfSettings (root : String) (sources : List String) : Settings :=
  [(.text "output_path", .text "docs"), (.text "source_directories", Settings.texts sources),
    (.text "project_root", .text root)]

theorem reordered_shelf (root : String) {sources sources' : List String}
    (h : sources.Perm sources') :
    (shelfSettings root sources).Reordered (shelfSettings root sources') := by
  refine ⟨⟨sources.map .text, sources'.map .text, rfl, rfl, h.map _⟩, ?_⟩
  intro key hkey
  have hne : (Value.text "source_directories").sameKey (.text key) = false := by
    simpa [Value.sameKey] using hkey.symm
  simp [shelfSettings, Settings.get?, Value.get?, hne]

/-- Whether directories lie below a location. -/
def isBelow (fs : FileSystem) (base : Location) (directories : List Path) : Bool :=
  directories.all fun d => (fs.resolveLenient d).toOption.map (fun l =>
    base.isPrefixOf l && decide (base.length < l.length)) = some true

theorem below_of_check {fs : FileSystem} {base : Location} {directories : List Path}
    (h : isBelow fs base directories = true) : Scan.Below fs base directories := by
  simp only [isBelow, List.all_eq_true, decide_eq_true_eq] at h
  intro d hd
  obtain ⟨l, hl, hinside⟩ := exists_of_toOption (h d hd)
  simp only [Bool.and_eq_true, List.isPrefixOf_iff_prefix, decide_eq_true_eq] at hinside
  obtain ⟨⟨names, rfl⟩, hlength⟩ := hinside
  refine ⟨names, ?_, hl⟩
  intro hnil
  simp [hnil] at hlength

/-- Whether the directories lie below the root and apart from the files that are found. -/
def isAnchored (plan : Plan) (fs : FileSystem) (sources : List Path) (base : Location) : Bool :=
  (fs.resolveLenient plan.root).toOption = some base && isBelow fs base sources &&
    ((Scan.sources fs (plan.filter base) sources).2.toOption.getD []).all fun file =>
      sources.all fun d => (fs.resolveLenient d).toOption ≠ (fs.resolveLenient file).toOption

theorem anchored_of_check {plan : Plan} {fs : FileSystem} {sources : List Path} {base : Location}
    (h : isAnchored plan fs sources base = true) : Anchored plan fs sources base := by
  simp only [isAnchored, Bool.and_eq_true, decide_eq_true_eq, List.all_eq_true] at h
  obtain ⟨⟨hroot, hbelow⟩, hapart⟩ := h
  refine ⟨ok_of_toOption hroot, below_of_check hbelow, ?_⟩
  intro found hfound file hfile d hd heq
  rw [hfound] at hapart
  exact hapart file hfile d hd (congrArg Except.toOption heq)

/-- The linked file lies in two of the directories, and its page has the same place for both. -/
theorem source_order_is_immaterial_shelf :
    (shelfSettings "/" ["src", "src/sub", "pub"]).Reordered
      (shelfSettings "/" ["pub", "src/sub", "src"]) ∧
    ∃ stats fs,
      Leaves (generate (shelfSettings "/" ["src", "src/sub", "pub"]) ⟨2024, 1, 1, 0, 0, 0⟩) shelf
        stats fs ∧
      (fs.entry? ["docs", "src", "sub", "A.md"]).isSome = true ∧
      Leaves (generate (shelfSettings "/" ["pub", "src/sub", "src"]) ⟨2024, 1, 1, 0, 0, 0⟩) shelf
        stats fs := by
  have hreordered :=
    reordered_shelf "/" (by decide : ["src", "src/sub", "pub"].Perm ["pub", "src/sub", "src"])
  obtain ⟨stats, fs, hleaves, _, hpage⟩ := exists_of_viewAfter
    (f := fun v => (v.files.entry? ["docs", "src", "sub", "A.md"]).isSome)
    (x := generate (shelfSettings "/" ["src", "src/sub", "pub"]) ⟨2024, 1, 1, 0, 0, 0⟩)
    (w := shelf) (b := true)
    (by decide +kernel)
  refine ⟨hreordered, stats, fs, hleaves, hpage, ?_⟩
  refine (source_order_is_immaterial (FileSystem.wellFormed_of_check (by decide +kernel))
    hreordered ?_ _ _ _).mp hleaves
  intro plan output sources reset hprep hreset
  have hplaces : prepare shelf.files (shelfSettings "/" ["src", "src/sub", "pub"]) =
      .ok (planOf (shelfSettings "/" ["src", "src/sub", "pub"]) shelf.files.here, Path.at ["docs"],
        [Path.at ["src"], Path.at ["src", "sub"], Path.at ["pub"]]) :=
          prepare_of_check (by decide +kernel)
  cases hprep.symm.trans hplaces
  obtain ⟨_, made, hmade, hcheck⟩ := exists_succeeds
    (f := fun w =>
      isAnchored (planOf (shelfSettings "/" ["src", "src/sub", "pub"]) shelf.files.here) w.files
      [Path.at ["src"], Path.at ["src", "sub"], Path.at ["pub"]] [])
    (x := resetOutput (Path.at ["docs"])) (w := shelf) (b := true)
    ⟨by decide +kernel, by decide +kernel⟩
  cases hreset.symm.trans hmade
  exact ⟨[], anchored_of_check hcheck⟩

/-- The directories lie below the root of the project before the run, and still their order shows in
the documentation. -/
structure OrderShows (w : World) (s s' : Settings) : Prop where
  reordered : s.Reordered s'
  below : ∃ plan output sources base, prepare w.files s = .ok (plan, output, sources) ∧
    w.files.resolveLenient plan.root = .ok base ∧ Scan.Below w.files base sources
  differs : ∃ now stats fs stats' fs' r, Leaves (generate s now) w stats fs ∧
    Leaves (generate s' now) w stats' fs' ∧ fs.entry? ("docs" :: r) ≠ fs'.entry? ("docs" :: r)

theorem orderShows_of_check {s s' : Settings} {w : World} (now : Moment) (r : Location)
    (hreordered : s.Reordered s')
    (hbelow : (prepare w.files s).toOption.map (fun p =>
      (w.files.resolveLenient p.1.root).toOption.map fun base => isBelow w.files base p.2.2) =
        some (some true))
    (hrun : viewAfter (generate s now) w (fun v => (v.files.entry? ("docs" :: r)).isSome) =
      some false)
    (hrun' : viewAfter (generate s' now) w (fun v => (v.files.entry? ("docs" :: r)).isSome) =
      some true) : OrderShows w s s' := by
  refine ⟨hreordered, ?_, ?_⟩
  · obtain ⟨⟨plan, output, sources⟩, hprep, hroot⟩ := exists_of_toOption hbelow
    obtain ⟨base, hbase, hcheck⟩ := exists_of_toOption hroot
    exact ⟨plan, output, sources, base, hprep, hbase, below_of_check hcheck⟩
  · obtain ⟨stats, fs, hleaves, _, hpage⟩ := exists_of_viewAfter hrun
    obtain ⟨stats', fs', hleaves', _, hpage'⟩ := exists_of_viewAfter hrun'
    refine ⟨now, stats, fs, stats', fs', r, hleaves, hleaves', ?_⟩
    intro heq
    rw [heq, hpage'] at hpage
    cases hpage

/-- The order shows if the root of the project is reached through the output directory, which is
emptied before the sources are read, and if a file that is found is listed as a directory. -/
theorem source_order_shows :
    OrderShows shelf (shelfSettings "/docs/up" ["src", "src/sub", "pub"])
        (shelfSettings "/docs/up" ["src/sub", "src", "pub"]) ∧
      OrderShows shelf (shelfSettings "/" ["src/sub/A.txt", "src", "pub"])
        (shelfSettings "/" ["src", "src/sub/A.txt", "pub"]) := by
  constructor
  · exact orderShows_of_check ⟨2024, 1, 1, 0, 0, 0⟩ ["sub", "A.md"] (reordered_shelf _ (by decide))
      (by decide +kernel) (by decide +kernel) (by decide +kernel)
  · exact orderShows_of_check ⟨2024, 1, 1, 0, 0, 0⟩ ["src", "sub", "A.md"]
      (reordered_shelf _ (by decide)) (by decide +kernel) (by decide +kernel) (by decide +kernel)

end Site

end PhpPages

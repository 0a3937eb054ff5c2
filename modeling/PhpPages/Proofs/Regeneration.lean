import PhpPages.Proofs.Forward
import PhpPages.Proofs.Refusal
import PhpPages.Proofs.Remaking
import PhpPages.Proofs.TypedSettings

/-!
Running again. What a run does depends on the file system as it is once the output directory was
made anew, and that is the same the second time, as long as the places of the run are found again.
-/

namespace PhpPages

namespace Site

/-- What was reported before has no influence on the work. -/
theorem Works.blind {α : Type} {x : Run α} (h : Works x) {w w' : World} {a : α}
    (hs : Succeeds x w a w') (log : List Event) :
    ∃ log', Succeeds x ⟨w.files, log⟩ a ⟨w'.files, log'⟩ := by
  induction h generalizing w w' log with
  | pure b =>
    obtain ⟨rfl, rfl⟩ := succeeds_pure.mp hs
    exact ⟨log, succeeds_pure.mpr ⟨rfl, rfl⟩⟩
  | throw => exact absurd hs not_succeeds_throw
  | files =>
    obtain ⟨rfl, rfl⟩ := succeeds_files.mp hs
    exact ⟨log, succeeds_files.mpr ⟨rfl, rfl⟩⟩
  | report events =>
    obtain rfl := succeeds_report.mp hs
    exact ⟨log ++ events, succeeds_report.mpr rfl⟩
  | look =>
    obtain ⟨hf, rfl⟩ := succeeds_look.mp hs
    exact ⟨log, succeeds_look.mpr ⟨hf, rfl⟩⟩
  | change f error =>
    obtain ⟨fs, hf, rfl⟩ := succeeds_change.mp hs
    exact ⟨log, succeeds_change.mpr ⟨fs, hf, rfl⟩⟩
  | bind _ _ ihx ihf =>
    obtain ⟨b, w₁, hx, hf⟩ := succeeds_bind.mp hs
    obtain ⟨log₁, hx'⟩ := ihx hx log
    obtain ⟨log₂, hf'⟩ := ihf b hf log₁
    exact ⟨log₂, succeeds_bind.mpr ⟨b, _, hx', hf'⟩⟩

theorem mapM_agree {ε α β : Type} {f g : α → Except ε β} {l : List α} {r : List β}
    (hf : l.mapM f = .ok r) (hg : l.mapM g = .ok r) :
    ∀ a ∈ l, ∃ b ∈ r, f a = .ok b ∧ g a = .ok b := by
  induction l generalizing r with
  | nil => simp
  | cons a l ih =>
    simp only [List.mapM_cons, bind_eq_ok, pure, Except.pure, Except.ok.injEq] at hf hg
    obtain ⟨b, hb, bs, hbs, rfl⟩ := hf
    obtain ⟨b', hb', bs', hbs', heq⟩ := hg
    cases heq
    intro x hx
    rcases List.mem_cons.mp hx with rfl | hx
    · exact ⟨b, by simp, hb, hb'⟩
    · obtain ⟨y, hy, hxy⟩ := ih hbs hbs' x hx
      exact ⟨y, by simp [hy], hxy⟩

theorem sources_mapM {fs : FileSystem} {plan : Plan} {output : Path} {sources : List Path}
    (h : places fs plan = .ok (output, sources)) :
    plan.sources.mapM (fun path => place fs plan path "Source directory") = .ok sources := by
  simp only [places, bind_eq_ok, pure, Except.pure, Except.ok.injEq, Prod.mk.injEq] at h
  obtain ⟨_, _, ss, hss, _, rfl⟩ := h
  exact hss

theorem sources_of_problems {s : Settings} (h : Settings.problems s = []) :
    s.textList "source_directories" ≠ [] := by
  obtain ⟨directories, hdirectories, hne, _⟩ := ((Settings.problems_eq_nil s).mp h).sources
  rw [Settings.textList_texts hdirectories]
  exact hne

section

variable {s : Settings} {now : Moment} {w w' : World} {stats : Stats}

/-- The output directory is not the root of the file system, for every source would lie in it. -/
theorem Course.output_ne_nil (hw : w.files.WellFormed) (c : Course s now w stats w') {o : Location}
    (ho : c.output = Path.at o) : o ≠ [] := by
  rintro rfl
  obtain ⟨hproblems, _, hplan, hplaces, hguard⟩ := prepare_iff.mp c.prepared
  obtain ⟨path, hpath⟩ : ∃ path, path ∈ c.plan.sources := by
    rw [hplan]
    exact List.exists_mem_of_ne_nil _ (by simpa [planOf] using sources_of_problems hproblems)
  obtain ⟨p, hp, hplace, _⟩ := mapM_agree (sources_mapM hplaces) (sources_mapM hplaces) path hpath
  obtain ⟨_, _, _, hout⟩ := guardOutput_ok.mp hguard
  rw [hplan] at hplace
  obtain ⟨x, rfl, _⟩ := place_names hw hplace
  have hin :=
    Segments.isWithin_below (List.nil_prefix (l := x)) (Segments.isWithin_refl (Path.at []).text)
  rw [← ho, hout _ hp] at hin
  cases hin

/-- What a run leaves behind is the file system in which its output directory was made, with that
directory filled. -/
structure Course.Remakes (c : Course s now w stats w') (bare : FileSystem) (o l : Location) :
    Prop where
  output : c.output = Path.at o
  proper : o ≠ []
  named : ∀ n ∈ o, IsName n
  fresh : Fresh w.files c.reset.files (Path.at o) l
  mayDelete : bare.mayDelete = w.files.mayDelete
  made : bare.makeDirectory (Path.at o) = .ok c.reset.files
  filled : Filled bare o l w'.files
  within : Within l c.reset.files w'.files
  plain : ∀ r, w'.files.linkAt? (l ++ r) = none

theorem Course.remakes (hw : w.files.WellFormed) (c : Course s now w stats w')
    (htop : ¬ TopAmongSeveral c.reset.files c.sources) : ∃ bare o l, c.Remakes bare o l := by
  obtain ⟨o, l, ho, hnames, hfresh, hmapped, hrel⟩ := c.fresh hw htop
  have hne := c.output_ne_nil hw ho
  have hresets := c.resets
  have hwrites :
      Succeeds (writePages (ClassMap.ofFiles c.parsed) c.output c.parsed) c.mapped () c.written :=
    c.writes
  have hindexes := c.indexes
  rw [ofText_indexFile] at hindexes
  rw [ho] at hresets hwrites hindexes
  obtain ⟨hgone, hmakes⟩ := resetOutput_made hw hnames hne hresets
  obtain ⟨bare, hbare, hdel, hmade⟩ :=
    FileSystem.makeDirectories_last (hw.without (Path.at o)) hnames hne hgone hmakes
  rw [FileSystem.mayDelete_without] at hdel
  obtain ⟨m, hfree, hnone, hreset, hentry⟩ := FileSystem.makeDirectory_new hbare hmade
  -- The empty directory itself is one way to fill the place.
  have hempty : Filled bare o m c.reset.files := by
    refine ⟨hbare, hfree, hfresh.wellFormed, by simp [hentry], ?_⟩
    rw [hreset, FileSystem.erase_insert (List.prefix_refl m), FileSystem.erase_free hbare hnone]
  obtain rfl : m = l := by
    have hplace := hfresh.place
    rw [hempty.lookup] at hplace
    simpa [Found.place?] using hplace
  have htree : Tree (Path.at o) m (fun _ => False) c.mapped.files := hmapped ▸ hfresh.tree
  obtain ⟨hpages, _⟩ := writePages_ok hnames htree hrel hwrites
  have hfirst := writePages_within hnames htree hrel hwrites
  have hindex : Succeeds (writeFile (Path.at (o ++ ([] ++ [indexFile]))) _) _ () w' := hindexes
  obtain ⟨hdone, _⟩ := writeFile_ok hindex hpages hnames (by simpa using isName_indexFile)
  have hsecond := writeFile_within hnames hindex hpages (by simpa using isName_indexFile)
  have hwithin : Within m c.reset.files w'.files := by
    rw [← hmapped]
    exact hfirst.trans hsecond
  obtain ⟨_, _, _, hdir⟩ := FileSystem.lookup_arrives hdone.wellFormed hdone.place (by simp)
  have hfilled : Filled bare o m w'.files :=
    ⟨hbare, hfree, hdone.wellFormed, hdir, hwithin.rest.trans hempty.rest⟩
  exact ⟨bare, o, m, ho, hne, hnames, hfresh, hdel, hmade, hfilled, hwithin, hdone.plain⟩

/-- Where its places are found again, a run can be repeated and changes nothing. -/
theorem Course.again (hw : w.files.WellFormed) (c : Course s now w stats w')
    (htop : ¬ TopAmongSeveral c.reset.files c.sources) (hdel : w.files.mayDelete = true)
    (hprep : prepare w'.files s = .ok (c.plan, c.output, c.sources)) (log : List Event) :
    ∃ log', Succeeds (generate s now) ⟨w'.files, log⟩ stats ⟨w'.files, log'⟩ := by
  obtain ⟨bare, o, l, h⟩ := c.remakes hw htop
  have hreset : Succeeds (resetOutput c.output) ⟨w'.files, log⟩ () ⟨c.reset.files, log⟩ := by
    rw [h.output]
    exact h.filled.reset h.proper (h.mayDelete.trans hdel) h.made log
  -- From here on each step does what it did, whatever the log.
  obtain ⟨log₁, hscan⟩ := (scanSources_works c.plan c.sources).blind c.scans log
  obtain ⟨log₂, hread⟩ := (parseFiles_works c.plan c.sources c.found).blind c.reads
    (log₁ ++ [.filesFound c.found.length])
  obtain ⟨log₃, hwrite⟩ := (writePages_works _ c.output c.parsed).blind c.writes
    (log₂ ++ ClassMap.eventsOf c.parsed)
  obtain ⟨log₄, hindex⟩ := (writeFile_works _ _).blind c.indexes
    (log₃ ++ [.pagesWritten (c.parsed.filter fun f => !f.declarations.isEmpty).length c.output])
  exact ⟨log₄, Course.succeeds ⟨c.plan, c.output, c.sources, ⟨c.reset.files, log⟩, c.found,
    ⟨c.scanned.files, log₁⟩, c.parsed, ⟨c.read.files, log₂⟩, ⟨c.written.files, log₃⟩, hprep,
    hreset, hscan, hread, hwrite, hindex, c.counts⟩⟩

/-- What a run writes extends the file system with the empty output directory. -/
theorem Course.Remakes.extends {c : Course s now w stats w'} {bare : FileSystem} {o l : Location}
    (h : c.Remakes bare o l) : FileSystem.Extends c.reset.files w'.files := by
  refine ⟨h.within.here, fun x e he => ?_, fun x => ?_⟩
  · by_cases hx : l <+: x
    · obtain ⟨r, rfl⟩ := hx
      by_cases hr : r = []
      · subst hr
        obtain ⟨_, _, _, hdir⟩ :=
          FileSystem.lookup_arrives h.fresh.wellFormed h.fresh.place (by simp)
        rw [List.append_nil, hdir] at he
        cases he
        rw [List.append_nil]
        exact h.filled.directory
      · rw [h.fresh.empty r hr] at he
        cases he
    · rw [h.within.outside hx]
      exact he
  · by_cases hx : l <+: x
    · obtain ⟨r, rfl⟩ := hx
      rw [h.plain, h.fresh.tree.plain]
    · simp only [FileSystem.linkAt?, h.within.outside hx]

end

/-- What the configured paths of a run are like: they go forward, the sources are there, and if
there are several, the root of the file system is none of them. No name and no link target
holds a backslash. -/
structure Regular (fs : FileSystem) (plan : Plan) (sources : List Path) : Prop where
  noBackslash : fs.NoBackslash
  output : Forward plan.output
  paths : ∀ path ∈ plan.sources, Forward path
  exist : ∀ p ∈ sources, fs.isDirectory p = true
  top : 1 < sources.length → Path.at [] ∉ sources

theorem planOf_ofText {fs : FileSystem} (hw : fs.WellFormed) (s : Settings) :
    Path.ofText (planOf s fs.here).root.text = (planOf s fs.here).root := by
  simp only [planOf]
  split
  · exact Path.ofText_text _
  · apply Path.ofText_at
    intro n hn
    cases hh : fs.here with
    | none => simp [hh] at hn
    | some here =>
      rw [hh] at hn
      exact hw.named (hw.here hh) n hn

/-- The root of a run whose paths are checked is there. -/
theorem prepare_root {fs : FileSystem} (hw : fs.WellFormed) {s : Settings} {plan : Plan}
    {output : Path} {sources : List Path} (h : prepare fs s = .ok (plan, output, sources))
    (hchecked : plan.unchecked = false) : ∃ l, fs.Denotes plan.root l := by
  obtain ⟨rfl, hplaces, _⟩ := prepare_ok h
  obtain ⟨houtput, _⟩ := places_ok hplaces
  unfold place at houtput
  simp only [hchecked, Bool.false_eq_true, ↓reduceIte, mapError_eq_ok] at houtput
  obtain ⟨l, hl⟩ := Boundary.check_root houtput
  rw [planOf_ofText hw] at hl
  exact ⟨l, (FileSystem.resolveStrict_denotes hw (planOf_root hw s) hl).1⟩

/-- The source directories are found without the output directory, for they do not lie in it. -/
theorem Regular.followable {fs : FileSystem} (hw : fs.WellFormed) {s : Settings} {plan : Plan}
    {output : Path} {sources : List Path} (h : Regular fs plan sources)
    (hchecked : plan.unchecked = false) (hprep : prepare fs s = .ok (plan, output, sources))
    (hkept : prepare (fs.without output) s = .ok (plan, output, sources)) :
    ∀ path ∈ plan.sources, Followable (fs.without output) plan path := by
  intro path hpath
  obtain ⟨rfl, hplaces, hguard⟩ := prepare_ok hprep
  obtain ⟨_, hplaces', _⟩ := prepare_ok hkept
  obtain ⟨p, hp, hplace, hplace'⟩ :=
    mapM_agree (sources_mapM hplaces) (sources_mapM hplaces') path hpath
  obtain ⟨y, hy⟩ := FileSystem.isDirectory_iff.mp (h.exist p hp)
  have hstraight := straight_of_forward hw h.noBackslash hchecked (h.paths path hpath)
  obtain ⟨rfl, hdir⟩ := hstraight.directory hw hplace hy
  have hthere : FileSystem.entry? (fs.without output) y = some .directory := by
    unfold FileSystem.without
    split
    · rename_i l hl
      have hl' : (fs.lookup false output).place? = some (l, some .directory) := by
        rw [hl]
        rfl
      obtain ⟨houtput, _⟩ := places_ok hplaces
      obtain ⟨rfl, _⟩ :=
        (straight_of_forward hw h.noBackslash hchecked h.output).directory hw houtput hl'
      obtain ⟨_, _, _, hall⟩ := guardOutput_ok.mp hguard
      rw [FileSystem.entry?_erase, if_neg]
      · exact hdir
      · intro hin
        have hread := Segments.isWithin_below hin.2 (Segments.isWithin_refl (Path.at l).text)
        rw [hall _ hp] at hread
        cases hread
    · exact hdir
  have hw' := hw.without output
  have hstraight' := straight_of_forward hw' (h.noBackslash.mono FileSystem.without_kept) hchecked
    (h.paths path hpath)
  exact hstraight'.followable hw' hplace' (FileSystem.lookup_directory hw' true hthere) (by simp)

/-- Sources that can be followed come out as what they lead to, and the root of the file
system as itself. -/
theorem not_topAmongSeveral {fs fs' : FileSystem} (hw : fs.WellFormed)
    (h : FileSystem.Extends fs fs') {plan : Plan} {output : Path} {sources : List Path}
    (hplaces : places fs plan = .ok (output, sources))
    (hsources : ∀ path ∈ plan.sources, Followable fs plan path)
    (htop : 1 < sources.length → Path.at [] ∉ sources) : ¬ TopAmongSeveral fs' sources := by
  intro hseveral
  obtain ⟨hlength, p, hp, hroot⟩ := hseveral
  obtain ⟨path, hpath, hplace⟩ := (places_ok hplaces).2 p hp
  obtain ⟨x, rfl, hx⟩ := (hsources path hpath).resolved hw hplace
  cases (hx.extend h).resolveLenient.symm.trans hroot
  exact htop hlength hp

/-- The output directory comes out as the same place before it is made and after it was filled. -/
theorem place_filled {fs made fs' : FileSystem} (hw : fs.WellFormed) (hb : fs.NoBackslash)
    {plan : Plan} {path label : String} {o : Location} (hforward : Forward path)
    (hloops : plan.unchecked = true → Followable fs plan path)
    (h : place fs plan path label = .ok (Path.at o)) (hn : ∀ n ∈ o, IsName n)
    (hmade : fs.makeDirectories (Path.at o) = .ok made) (hfilled : FileSystem.Extends made fs') :
    place fs' plan path label = .ok (Path.at o) := by
  obtain ⟨hw', _, _, hgrown⟩ := FileSystem.makeDirectories_ok hw hn hmade
  cases hu : plan.unchecked with
  | true => exact place_extend hw (hgrown.extends.trans hfilled) (hloops hu) h
  | false =>
    obtain ⟨hfollow, hplace⟩ := (straight_of_forward hw hb hu hforward).made hw h hn hmade
    exact place_extend hw' hfilled hfollow hplace

variable {s : Settings} {now : Moment} {w w' : World} {stats : Stats} {plan : Plan} {output : Path}
  {sources : List Path}

theorem prepare_of_check {fs : FileSystem}
    (h : (prepare fs s).toOption.map (·.2) = some (output, sources)) :
    prepare fs s = .ok (planOf s fs.here, output, sources) := by
  obtain ⟨⟨plan, _, _⟩, hprep, hpair⟩ := exists_of_toOption h
  cases hpair
  obtain ⟨rfl, _⟩ := prepare_ok hprep
  exact hprep

/-- A run that succeeds can be repeated with the same settings and moment: it succeeds, counts the
same and leaves the file system exactly as it was. The paths have to be regular, and directories may
be deleted. What the output directory holds, if there is one, must have no influence on where the
paths lead: they come out as the same places without that directory. Paths that are not checked must
not run into a loop of links. -/
theorem generate_again (hw : w.files.WellFormed) (hdel : w.files.mayDelete = true)
    (hrun : Succeeds (generate s now) w stats w')
    (hprep : prepare w.files s = .ok (plan, output, sources))
    (hregular : Regular w.files plan sources)
    (hkept : w.files.isDirectory output = true →
      prepare (w.files.without output) s = .ok (plan, output, sources))
    (hloops : plan.unchecked = true → Traceable (w.files.without output) plan) (log : List Event) :
    ∃ log', Succeeds (generate s now) ⟨w'.files, log⟩ stats ⟨w'.files, log'⟩ := by
  obtain ⟨c⟩ := generate_course hrun
  cases c.prepared.symm.trans hprep
  have hkept : prepare (w.files.without c.output) s = .ok (c.plan, c.output, c.sources) := by
    cases hd : w.files.isDirectory c.output with
    | true => exact hkept hd
    | false =>
      rw [FileSystem.without_missing hw hd]
      exact hprep
  have hsources : ∀ path ∈ c.plan.sources, Followable (w.files.without c.output) c.plan path := by
    cases hu : c.plan.unchecked with
    | true => exact (hloops hu).sources
    | false => exact hregular.followable hw hu hprep hkept
  have hroot : ∃ l, (w.files.without c.output).Denotes c.plan.root l := by
    cases hu : c.plan.unchecked with
    | true => exact (hloops hu).root
    | false => exact prepare_root (hw.without c.output) hkept hu
  obtain ⟨o, ho, hnames⟩ := c.output_at hw
  have hresets := c.resets
  rw [ho] at hresets hkept hloops hsources hroot
  have hw' := hw.without (Path.at o)
  have hb' := hregular.noBackslash.mono (FileSystem.without_kept (p := Path.at o))
  obtain ⟨_, hmade⟩ := resetOutput_made hw hnames (c.output_ne_nil hw ho) hresets
  obtain ⟨_, _, _, hgrown⟩ := FileSystem.makeDirectories_ok hw' hnames hmade
  obtain ⟨_, hplaces, _⟩ := prepare_ok hkept
  have htop := not_topAmongSeveral hw' hgrown.extends hplaces hsources hregular.top
  obtain ⟨bare, o', l, hremakes⟩ := c.remakes hw htop
  have houtput := place_filled hw' hb' hregular.output (fun hu => (hloops hu).output)
    (places_ok hplaces).1 hnames hmade hremakes.extends
  apply c.again hw htop hdel
  rw [ho]
  exact prepare_extend hw' (hgrown.extends.trans hremakes.extends) hroot hsources houtput hkept

theorem generate_again_sample :
    ∃ stats w', Succeeds (generate sampleSettings ⟨2024, 1, 1, 0, 0, 0⟩) sample stats w' ∧
      ∃ log', Succeeds (generate sampleSettings ⟨2024, 1, 1, 0, 0, 0⟩) ⟨w'.files, []⟩ stats
        ⟨w'.files, log'⟩ := by
  obtain ⟨stats, w', hrun, _⟩ := exists_succeeds (f := fun _ => ())
    (x := generate sampleSettings ⟨2024, 1, 1, 0, 0, 0⟩) (w := sample) ⟨by decide +kernel, rfl⟩
  have hprep : prepare sample.files sampleSettings =
      .ok (planOf sampleSettings sample.files.here, Path.at ["docs"], [Path.at ["src"]]) :=
    prepare_of_check (by decide +kernel)
  have hkept : prepare (sample.files.without (Path.at ["docs"])) sampleSettings =
      .ok (planOf sampleSettings sample.files.here, Path.at ["docs"], [Path.at ["src"]]) :=
    prepare_of_check (by decide +kernel)
  have hregular :
      Regular sample.files (planOf sampleSettings sample.files.here) [Path.at ["src"]] :=
    ⟨FileSystem.noBackslash_of_check (by decide +kernel), by decide, by decide,
      by decide +kernel, by simp⟩
  have hchecked : (planOf sampleSettings sample.files.here).unchecked = false := by decide
  exact ⟨stats, w', hrun, generate_again wellFormed_sample rfl hrun hprep hregular (fun _ => hkept)
    (by simp [hchecked]) []⟩

/-- A project whose source directory is given by a link in the output directory. -/
def entangled : World where
  files := { entries := [(["p"], .directory), (["p", "src"], .directory),
    (["p", "src", "A.php"], .file "<?php class A {}".toUTF8), (["p", "docs"], .directory),
    (["p", "docs", "src"], .link "../src")] }

def entangledSettings : Settings :=
  [(.text "output_path", .text "docs"), (.text "source_directories", Settings.texts ["docs/src"]),
    (.text "project_root", .text "/p")]

/-- The link is deleted with the output directory, and the next run takes the source directory for
a part of it. -/
theorem second_run_refused :
    entangled.files.WellFormed ∧ entangled.files.mayDelete = true ∧
    prepare entangled.files entangledSettings =
      .ok (planOf entangledSettings entangled.files.here, Path.at ["p", "docs"],
        [Path.at ["p", "src"]]) ∧
    Regular entangled.files (planOf entangledSettings entangled.files.here)
      [Path.at ["p", "src"]] ∧
    ∃ stats w',
      Succeeds (generate entangledSettings ⟨2024, 1, 1, 0, 0, 0⟩) entangled stats w' ∧
      ∀ log stats' w'',
        ¬ Succeeds (generate entangledSettings ⟨2024, 1, 1, 0, 0, 0⟩)
          ⟨w'.files, log⟩ stats' w'' := by
  have hregular : Regular entangled.files (planOf entangledSettings entangled.files.here)
      [Path.at ["p", "src"]] :=
    ⟨FileSystem.noBackslash_of_check (by decide +kernel), by decide, by decide,
      by decide +kernel, by simp⟩
  obtain ⟨stats, w', hrun, hrefused⟩ := exists_succeeds (b := true)
    (f := fun w' => (prepare w'.files entangledSettings).toOption.isNone)
    (x := generate entangledSettings ⟨2024, 1, 1, 0, 0, 0⟩) (w := entangled) (by decide +kernel)
  refine ⟨FileSystem.wellFormed_of_check (by decide +kernel), rfl,
    prepare_of_check (by decide +kernel), hregular, stats, w', hrun, ?_⟩
  intro log stats' w'' hagain
  obtain ⟨c⟩ := generate_course hagain
  have hprep := c.prepared
  simp only at hprep
  rw [hprep] at hrefused
  cases hrefused

end Site

end PhpPages

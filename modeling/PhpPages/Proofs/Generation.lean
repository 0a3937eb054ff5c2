import PhpPages.Proofs.Guard
import PhpPages.Proofs.Output
import PhpPages.Proofs.PagePath

namespace PhpPages.Site

/-- The course of a successful run: what each step found and the worlds in between. -/
structure Course (s : Settings) (now : Moment) (w : World) (stats : Stats) (w' : World) where
  plan : Plan
  output : Path
  sources : List Path
  reset : World
  found : List Path
  scanned : World
  parsed : List ParsedFile
  read : World
  written : World
  prepared : prepare w.files s = .ok (plan, output, sources)
  resets : Succeeds (resetOutput output) w () reset
  scans : Succeeds (scanSources plan sources) reset found scanned
  reads : Succeeds (parseFiles plan sources found)
    { scanned with log := scanned.log ++ [.filesFound found.length] } parsed read
  writes : Succeeds (writePages (ClassMap.ofFiles parsed) output parsed)
    { read with log := read.log ++ ClassMap.eventsOf parsed } () written
  indexes : Succeeds
    (writeFile (output.join (Path.ofText indexFile)) (Page.index plan.title parsed now))
    { written with log := written.log ++
      [.pagesWritten (parsed.filter fun f => !f.declarations.isEmpty).length output] } () w'
  counts : stats = statsOf parsed

/-- The world in which the first page is written. -/
def Course.mapped {s : Settings} {now : Moment} {w w' : World} {stats : Stats}
    (c : Course s now w stats w') : World :=
  { c.read with log := c.read.log ++ ClassMap.eventsOf c.parsed }

/-- A run that succeeds has a course. -/
theorem generate_course {s : Settings} {now : Moment} {w w' : World} {stats : Stats}
    (h : Succeeds (generate s now) w stats w') : Nonempty (Course s now w stats w') := by
  unfold generate at h
  obtain ⟨⟨plan, output, sources⟩, w₀, hlook, h⟩ := succeeds_bind.mp h
  obtain ⟨hprep, rfl⟩ := succeeds_look.mp hlook
  unfold writeTree at h
  obtain ⟨_, reset, hreset, h⟩ := succeeds_bind.mp h
  obtain ⟨found, scanned, hscan, h⟩ := succeeds_bind.mp h
  obtain ⟨_, _, hreport, h⟩ := succeeds_bind.mp h
  obtain rfl := succeeds_report.mp hreport
  obtain ⟨parsed, read, hread, h⟩ := succeeds_bind.mp h
  obtain ⟨_, _, hreport', h⟩ := succeeds_bind.mp h
  obtain rfl := succeeds_report.mp hreport'
  obtain ⟨_, written, hwrite, h⟩ := succeeds_bind.mp h
  obtain ⟨_, _, hreport'', h⟩ := succeeds_bind.mp h
  obtain rfl := succeeds_report.mp hreport''
  obtain ⟨_, _, hindex, h⟩ := succeeds_bind.mp h
  obtain ⟨rfl, rfl⟩ := succeeds_pure.mp h
  exact ⟨⟨plan, output, sources, reset, found, scanned, parsed, read, written, hprep, hreset, hscan,
    hread, hwrite, hindex, rfl⟩⟩

/-- A course is that of a run that succeeds. -/
theorem Course.succeeds {s : Settings} {now : Moment} {w w' : World} {stats : Stats}
    (c : Course s now w stats w') : Succeeds (generate s now) w stats w' := by
  refine succeeds_bind.mpr ⟨_, w, succeeds_look.mpr ⟨c.prepared, rfl⟩, ?_⟩
  refine succeeds_bind.mpr ⟨(), c.reset, c.resets, ?_⟩
  refine succeeds_bind.mpr ⟨c.found, c.scanned, c.scans, ?_⟩
  refine succeeds_bind.mpr ⟨(), _, succeeds_report.mpr rfl, ?_⟩
  refine succeeds_bind.mpr ⟨c.parsed, c.read, c.reads, ?_⟩
  refine succeeds_bind.mpr ⟨(), _, succeeds_report.mpr rfl, ?_⟩
  refine succeeds_bind.mpr ⟨(), c.written, c.writes, ?_⟩
  refine succeeds_bind.mpr ⟨(), _, succeeds_report.mpr rfl, ?_⟩
  refine succeeds_bind.mpr ⟨(), w', c.indexes, ?_⟩
  exact succeeds_pure.mpr ⟨c.counts.symm, rfl⟩

/-- Finding the sources is a scan below the resolved root, in a file system that stays as it is. -/
theorem scanSources_steps {plan : Plan} {sources found : List Path} {w w' : World}
    (h : Succeeds (scanSources plan sources) w found w') :
    w'.files = w.files ∧ ∃ base, w.files.resolveLenient plan.root = .ok base ∧
      (Scan.sources w.files
        { excluded := plan.excluded, extensions := plan.extensions, base := some (Path.at base) }
        sources).2 = .ok found := by
  unfold scanSources at h
  obtain ⟨base, _, hlook, h⟩ := succeeds_bind.mp h
  obtain ⟨hbase, rfl⟩ := succeeds_look.mp hlook
  obtain ⟨_, _, hfiles, h⟩ := succeeds_bind.mp h
  obtain ⟨rfl, rfl⟩ := succeeds_files.mp hfiles
  dsimp only at h
  obtain ⟨_, _, hreport, h⟩ := succeeds_bind.mp h
  obtain rfl := succeeds_report.mp hreport
  split at h
  · rename_i files hsources
    obtain ⟨rfl, rfl⟩ := succeeds_pure.mp h
    exact ⟨rfl, base, mapError_eq_ok.mp hbase, hsources⟩
  · exact absurd h not_succeeds_throw

theorem scanSources_ok {plan : Plan} {sources found : List Path} {w w' : World}
    (hw : w.files.WellFormed) (h : Succeeds (scanSources plan sources) w found w') :
    w'.files = w.files ∧ ∀ file ∈ found, Scan.FoundIn sources file := by
  obtain ⟨hfiles, base, _, hsources⟩ := scanSources_steps h
  exact ⟨hfiles, Scan.sources_found hw hsources⟩

theorem parseFiles_ok {plan : Plan} {sources files : List Path} {parsed : List ParsedFile}
    {w w' : World} (h : Succeeds (parseFiles plan sources files) w parsed w') :
    w'.files = w.files ∧ ∀ f ∈ parsed, ∃ file ∈ files, ∃ event,
      parseFile w.files plan.audience sources (some plan.root) file = .ok (event, f) := by
  induction files generalizing w parsed with
  | nil =>
    obtain ⟨rfl, rfl⟩ := succeeds_pure.mp h
    simp
  | cons file rest ih =>
    unfold parseFiles at h
    obtain ⟨⟨event, f⟩, _, hlook, h⟩ := succeeds_bind.mp h
    obtain ⟨hparse, rfl⟩ := succeeds_look.mp hlook
    obtain ⟨_, _, hreport, h⟩ := succeeds_bind.mp h
    obtain rfl := succeeds_report.mp hreport
    obtain ⟨more, _, hmore, h⟩ := succeeds_bind.mp h
    obtain ⟨rfl, rfl⟩ := succeeds_pure.mp h
    obtain ⟨hfiles, hrest⟩ := ih hmore
    refine ⟨hfiles, fun g hg => ?_⟩
    rcases List.mem_cons.mp hg with rfl | hg
    · exact ⟨file, by simp, event, hparse⟩
    · obtain ⟨file', hf, event', hp⟩ := hrest g hg
      exact ⟨file', by simp [hf], event', hp⟩

/-- Every file that is read has a page path of names, unless one of several sources is the root of
the file system. -/
theorem parseFile_page {fs : FileSystem} (hw : fs.WellFormed) {audience : Audience}
    {sources : List Path} {base : Option Path} {file : Path} {event : Event} {f : ParsedFile}
    (hs : ∀ d ∈ sources, ∀ s ∈ d.segments, '/' ∉ s.toList)
    (htop : 1 < sources.length → ∀ d ∈ sources, fs.resolveLenient d ≠ .ok [])
    (hfile : Scan.FoundIn sources file)
    (h : parseFile fs audience sources base file = .ok (event, f)) : IsRelative f.pagePath := by
  obtain ⟨d, hd, names, hne, hn, rfl⟩ := hfile
  have hslash : ∀ s ∈ (d.join ⟨.relative, names⟩).segments, '/' ∉ s.toList := by
    intro s hm
    rcases List.mem_append.mp hm with hm | hm
    · exact hs d hd s hm
    · exact (hn s hm).noSlash
  have hname : IsName (d.join ⟨.relative, names⟩).name := by
    obtain ⟨ns, n, rfl⟩ := Text.exists_snoc hne
    have hlast : (d.join ⟨.relative, ns ++ [n]⟩).name = n := by
      simp [Path.name, Path.join, Path.isAbsolute, ← List.append_assoc]
    rw [hlast]
    exact hn n (by simp)
  unfold parseFile at h
  simp only [bind_eq_ok, resolving, mapError_eq_ok] at h
  obtain ⟨relative, hrelative, location, _, ⟨event', found⟩, _, hret⟩ := h
  cases hret
  unfold Scan.relativeSource at hrelative
  obtain ⟨l, hl, hrel⟩ := bind_eq_ok.mp hrelative
  have hnames := FileSystem.resolve_names hw hslash hl
  exact (Scan.relativeAmong_ok hw hnames hname hs
    (fun hsev => htop (by simpa using hsev)) hrel).page

/-- The names that lead to the page of a file. -/
def pageNames (f : ParsedFile) : List String :=
  (Path.ofText f.pagePath).segments

/-- The file has a page among those of the list. -/
def HasPage (files : List ParsedFile) (r : List String) : Prop :=
  ∃ f ∈ files, f.declarations ≠ [] ∧ r = pageNames f

theorem hasPage_cons {f : ParsedFile} {rest : List ParsedFile} {r : List String} :
    HasPage (f :: rest) r ↔ (f.declarations ≠ [] ∧ r = pageNames f) ∨ HasPage rest r := by
  simp [HasPage]

theorem writePages_append {map : ClassMap} {output : Path} {before after : List ParsedFile}
    {w w' : World} {u : Unit} (h : Succeeds (writePages map output (before ++ after)) w u w') :
    ∃ w₁, Succeeds (writePages map output before) w () w₁ ∧
      Succeeds (writePages map output after) w₁ () w' := by
  induction before generalizing w with
  | nil => exact ⟨w, succeeds_pure.mpr ⟨rfl, rfl⟩, h⟩
  | cons f rest ih =>
    obtain ⟨_, w₁, hpage, hrest⟩ := succeeds_bind.mp h
    obtain ⟨w₂, hbefore, hafter⟩ := ih hrest
    exact ⟨w₂, succeeds_bind.mpr ⟨(), w₁, hpage, hbefore⟩, hafter⟩

/-- What writing the page of a file can come to. Nothing is written for a file without
declarations. -/
theorem writePage_cases {map : ClassMap} {output : Path} {f : ParsedFile} {w w' : World} {u : Unit}
    (h : Succeeds (writePage map output f) w u w') :
    f.declarations = [] ∧ w' = w ∨
    f.declarations ≠ [] ∧ ∃ link,
      Link.toSource w.files f.pagePath f.sourcePath.text output.text = .ok link ∧
      Succeeds (writeFile (output.join (Path.ofText f.pagePath)) (pageText map link.text f))
        { w with log := w.log ++ link.events } u w' := by
  unfold writePage at h
  by_cases hd : f.declarations = []
  · rw [if_pos (by simp [hd])] at h
    exact .inl ⟨hd, (succeeds_pure.mp h).2.symm⟩
  · rw [if_neg (by simpa using hd)] at h
    obtain ⟨link, _, hlook, h⟩ := succeeds_bind.mp h
    obtain ⟨hlink, rfl⟩ := succeeds_look.mp hlook
    obtain ⟨_, _, hreport, h⟩ := succeeds_bind.mp h
    obtain rfl := succeeds_report.mp hreport
    exact .inr ⟨hd, link, mapError_eq_ok.mp hlink, h⟩

section

variable {map : ClassMap} {o l : Location} {pages : List String → Prop} (ho : ∀ n ∈ o, IsName n)
include ho

/-- What writing the page of one file does. -/
theorem writePage_ok {w w' : World} {f : ParsedFile} {u : Unit}
    (h : Tree (Path.at o) l pages w.files) (hd : f.declarations ≠ []) (hrel : IsRelative f.pagePath)
    (hrun : Succeeds (writePage map (Path.at o) f) w u w') :
    ∃ link, Link.toSource w.files f.pagePath f.sourcePath.text (Path.at o).text = .ok link ∧
      Tree (Path.at o) l (fun r => pages r ∨ r = pageNames f) w'.files ∧
      w'.files.entry? (l ++ pageNames f) = some (.file (pageText map link.text f).toUTF8) ∧
      Kept l (fun x => x = l ++ pageNames f) w.files w'.files := by
  obtain ⟨dirs, name, hn, hnames, hjoin⟩ := hrel.join o
  obtain ⟨hnone, _⟩ | ⟨_, link, hlink, hrun⟩ := writePage_cases hrun
  · exact absurd hnone hd
  rw [hjoin] at hrun
  rw [pageNames, hnames]
  have hwrite := writeFile_ok hrun h ho hn
  exact ⟨link, hlink, hwrite⟩

/-- What writing the pages of all files does: there is a page for each file that declares something,
and nothing else has changed. -/
theorem writePages_ok {files : List ParsedFile} {w w' : World} {u : Unit}
    (h : Tree (Path.at o) l pages w.files) (hrel : ∀ f ∈ files, IsRelative f.pagePath)
    (hrun : Succeeds (writePages map (Path.at o) files) w u w') :
    Tree (Path.at o) l (fun r => pages r ∨ HasPage files r) w'.files ∧
      Kept l (fun x => ∃ r, HasPage files r ∧ x = l ++ r) w.files w'.files := by
  induction files generalizing pages w with
  | nil =>
    obtain ⟨_, rfl⟩ := succeeds_pure.mp hrun
    refine ⟨?_, Kept.refl _ _ _⟩
    simpa [HasPage] using h
  | cons f rest ih =>
    obtain ⟨_, w₁, hpage, hrest⟩ := succeeds_bind.mp hrun
    have hrel' : ∀ f ∈ rest, IsRelative f.pagePath := fun g hg => hrel g (by simp [hg])
    rcases writePage_cases hpage with ⟨hd, rfl⟩ | ⟨hd, _⟩
    · simpa [hasPage_cons, hd] using ih h hrel' hrest
    · obtain ⟨_, _, h₁, _, hk₁⟩ := writePage_ok ho h hd (hrel f (by simp)) hpage
      obtain ⟨h₂, hk₂⟩ := ih h₁ hrel' hrest
      refine ⟨h₂.congr fun r => ?_, (hk₁.trans hk₂).mono fun x hx => ?_⟩
      · simp [hasPage_cons, hd, or_assoc]
      · rcases hx with rfl | ⟨r, hr, rfl⟩
        · exact ⟨_, hasPage_cons.mpr (.inl ⟨hd, rfl⟩), rfl⟩
        · exact ⟨r, hasPage_cons.mpr (.inr hr), rfl⟩

/-- A page has the text of the last of its files. -/
theorem writePages_last {files before after : List ParsedFile} {f : ParsedFile} {w w' : World}
    {u : Unit} (h : Tree (Path.at o) l pages w.files) (hrel : ∀ g ∈ files, IsRelative g.pagePath)
    (hsplit : files = before ++ f :: after) (hd : f.declarations ≠ [])
    (hlast : ∀ g ∈ after, g.declarations ≠ [] → g.pagePath ≠ f.pagePath)
    (hrun : Succeeds (writePages map (Path.at o) files) w u w') :
    ∃ wf link, Succeeds (writePages map (Path.at o) before) w () wf ∧
      Link.toSource wf.files f.pagePath f.sourcePath.text (Path.at o).text = .ok link ∧
      w'.files.entry? (l ++ pageNames f) = some (.file (pageText map link.text f).toUTF8) := by
  subst hsplit
  have hf : IsRelative f.pagePath := hrel f (by simp)
  obtain ⟨wf, hbefore, hrest⟩ := writePages_append hrun
  obtain ⟨_, wa, hpage, hafter⟩ := succeeds_bind.mp hrest
  obtain ⟨hbt, _⟩ := writePages_ok ho h (fun g hg => hrel g (by simp [hg])) hbefore
  obtain ⟨link, hlink, hat, hentry, _⟩ := writePage_ok ho hbt hd hf hpage
  obtain ⟨_, hkept⟩ := writePages_ok ho hat (fun g hg => hrel g (by simp [hg])) hafter
  refine ⟨wf, link, hbefore, hlink, hkept.entry ?_ hentry⟩
  rintro ⟨r, ⟨g, hg, hgd, rfl⟩, hr⟩
  exact hlast g hg hgd ((hrel g (by simp [hg])).eq_of_segments hf (List.append_cancel_left hr).symm)

end

theorem isName_indexFile : IsName indexFile := by decide

theorem isRelative_indexFile : IsRelative indexFile :=
  ⟨[indexFile], by simp, by simpa using isName_indexFile, by simp⟩

theorem ofText_indexFile : Path.ofText indexFile = ⟨.relative, [indexFile]⟩ :=
  Path.ofText_names (List.cons_ne_nil indexFile []) (by simpa using isName_indexFile)

/-- A source that is the root of the file system, by whatever path, among several. -/
def TopAmongSeveral (fs : FileSystem) (sources : List Path) : Prop :=
  1 < sources.length ∧ ∃ p ∈ sources, fs.resolveLenient p = .ok []

section

variable {s : Settings} {now : Moment} {w w' : World} {stats : Stats}

/-- What a run leaves behind, where `l` is its output directory. -/
structure Outcome (c : Course s now w stats w') (l : Location) : Prop where
  place : w'.files.Denotes c.output l
  /-- The files are the index and the pages of the files that declare something. -/
  files : ∀ r, (∃ content, w'.files.entry? (l ++ r) = some (.file content)) ↔
    r = [indexFile] ∨ HasPage c.parsed r
  links : ∀ r target, w'.files.entry? (l ++ r) ≠ some (.link target)
  index : w'.files.entry? (l ++ [indexFile]) =
    some (.file (Page.index c.plan.title c.parsed now).toUTF8)
  /-- A page has the text for the last of its files, with the link to the source as it was found
  when the turn of that file came. -/
  pages : ∀ before f after, c.parsed = before ++ f :: after → f.declarations ≠ [] →
    f.pagePath ≠ indexFile → (∀ g ∈ after, g.declarations ≠ [] → g.pagePath ≠ f.pagePath) →
    ∃ wf link, Succeeds (writePages (ClassMap.ofFiles c.parsed) c.output before) c.mapped () wf ∧
    Link.toSource wf.files f.pagePath f.sourcePath.text c.output.text = .ok link ∧
    w'.files.entry? (l ++ pageNames f) =
        some (.file (pageText (ClassMap.ofFiles c.parsed) link.text f).toUTF8)
  relative : ∀ f ∈ c.parsed, IsRelative f.pagePath
  /-- Outside the output directory only directories on the way to it are new. -/
  frame : ∀ x, ¬ l <+: x → w'.files.entry? x = w.files.entry? x ∨
    w.files.entry? x = none ∧ x <+: l ∧ w'.files.entry? x = some .directory

theorem Course.output_at (hw : w.files.WellFormed) (c : Course s now w stats w') :
    ∃ o, c.output = Path.at o ∧ ∀ n ∈ o, IsName n := by
  obtain ⟨hplan, hplaces, _⟩ := prepare_ok c.prepared
  obtain ⟨houtput, _⟩ := places_ok hplaces
  rw [hplan] at houtput
  exact place_names hw houtput

theorem Course.sources_noSlash (hw : w.files.WellFormed) (c : Course s now w stats w') :
    ∀ d ∈ c.sources, ∀ n ∈ d.segments, '/' ∉ n.toList := by
  intro d hd n hn
  obtain ⟨hplan, hplaces, _⟩ := prepare_ok c.prepared
  obtain ⟨_, hsources⟩ := places_ok hplaces
  rw [hplan] at hsources
  obtain ⟨path, _, hp⟩ := hsources d hd
  obtain ⟨x, rfl, hx⟩ := place_names hw hp
  exact (hx n hn).noSlash

/-- The sources are read in the file system as it was made ready, each file from one
that was found. -/
theorem Course.parsed_from (c : Course s now w stats w') (hreset : c.reset.files.WellFormed) :
    c.mapped.files = c.reset.files ∧ ∀ f ∈ c.parsed, ∃ file event, Scan.FoundIn c.sources file ∧
      parseFile c.reset.files c.plan.audience c.sources (some c.plan.root) file =
        .ok (event, f) := by
  obtain ⟨hscanned, hfound⟩ := scanSources_ok hreset c.scans
  obtain ⟨hread, hparsed⟩ := parseFiles_ok c.reads
  refine ⟨hread.trans hscanned, fun f hf => ?_⟩
  obtain ⟨file, hfile, event, hp⟩ := hparsed f hf
  refine ⟨file, event, hfound file hfile, ?_⟩
  rw [← hscanned]
  exact hp

/-- Until the first page is written the file system stays as it was made ready, and every page has a
place below the output directory. -/
theorem Course.mapped_ok (hw : w.files.WellFormed) (c : Course s now w stats w')
    (hreset : c.reset.files.WellFormed) (htop : ¬ TopAmongSeveral c.reset.files c.sources) :
    c.mapped.files = c.reset.files ∧ ∀ f ∈ c.parsed, IsRelative f.pagePath := by
  obtain ⟨hmapped, hparsed⟩ := c.parsed_from hreset
  refine ⟨hmapped, fun f hf => ?_⟩
  obtain ⟨file, event, hfound, hp⟩ := hparsed f hf
  exact parseFile_page hreset (c.sources_noSlash hw)
    (fun hsev d hd htop' => htop ⟨hsev, d, hd, htop'⟩) hfound hp

/-- The output directory when the first page is about to be written. -/
theorem Course.fresh (hw : w.files.WellFormed) (c : Course s now w stats w')
    (htop : ¬ TopAmongSeveral c.reset.files c.sources) :
    ∃ o l, c.output = Path.at o ∧ (∀ n ∈ o, IsName n) ∧ Fresh w.files c.reset.files (Path.at o) l ∧
      c.mapped.files = c.reset.files ∧ ∀ f ∈ c.parsed, IsRelative f.pagePath := by
  obtain ⟨o, ho, hnames⟩ := c.output_at hw
  have hresets := c.resets
  rw [ho] at hresets
  obtain ⟨l, hfresh⟩ := resetOutput_fresh hw hnames hresets
  exact ⟨o, l, ho, hnames, hfresh, c.mapped_ok hw hfresh.wellFormed htop⟩

theorem Course.outcome (hw : w.files.WellFormed) (c : Course s now w stats w')
    (htop : ¬ TopAmongSeveral c.reset.files c.sources) : ∃ l, Outcome c l := by
  obtain ⟨o, l, ho, hnames, hfresh, hmapped, hrel⟩ := c.fresh hw htop
  have hwrites : Succeeds (writePages (ClassMap.ofFiles c.parsed) c.output c.parsed) c.mapped ()
      c.written := c.writes
  have hindexes := c.indexes
  rw [ho] at hwrites hindexes
  -- The pages, then the index over them.
  have htree : Tree (Path.at o) l (fun _ => False) c.mapped.files := hmapped ▸ hfresh.tree
  obtain ⟨htree₁, hkept₁⟩ := writePages_ok hnames htree hrel hwrites
  rw [ofText_indexFile] at hindexes
  have hindexes : Succeeds (writeFile (Path.at (o ++ ([] ++ [indexFile]))) _) _ () w' := hindexes
  obtain ⟨htree₂, hindex, hkept₂⟩ :=
    writeFile_ok hindexes htree₁ hnames (by simpa using isName_indexFile)
  obtain ⟨hdenotes, _⟩ := FileSystem.lookup_denotes htree₂.wellFormed
    (fun n hn => ⟨(hnames n hn).noSlash, (hnames n hn).noNull⟩) htree₂.place (by simp)
  refine ⟨l, ho ▸ hdenotes, fun r => ?_, fun r target hlink => ?_, hindex, ?_, hrel, fun x hx => ?_⟩
  · rw [htree₂.files r]
    simp [or_comm]
  · rw [← FileSystem.linkAt?_eq_some, htree₂.plain] at hlink
    cases hlink
  · intro before f after hsplit hd hnot hlast
    obtain ⟨wf, link, hbefore, hlink, hentry⟩ :=
      writePages_last hnames htree hrel hsplit hd hlast hwrites
    rw [ho]
    -- The index is written over a page of its own name only.
    refine ⟨wf, link, hbefore, hlink, hkept₂.entry (fun hi => hnot ?_) hentry⟩
    refine (hrel f (by simp [hsplit])).eq_of_segments isRelative_indexFile ?_
    rw [ofText_indexFile]
    exact List.append_cancel_left hi
  · have hinside : ∀ y, ((∃ r, HasPage c.parsed r ∧ y = l ++ r) ∨
        y = l ++ ([] ++ [indexFile])) → l <+: y := by
      rintro y (⟨r, _, rfl⟩ | rfl) <;> exact List.prefix_append _ _
    rw [(hkept₁.trans hkept₂).outside hinside hx, hmapped]
    exact hfresh.frame x hx

/-- A run that succeeds leaves behind the index and the pages of the files that declare something,
with nothing left of what was in the output directory, and everything outside it as it was. -/
theorem generate_output_tree (hw : w.files.WellFormed) (h : Succeeds (generate s now) w stats w') :
    Nonempty (Course s now w stats w') ∧ ∀ c : Course s now w stats w',
      ¬ TopAmongSeveral c.reset.files c.sources → ∃ l, Outcome c l :=
  ⟨generate_course h, fun c htop => c.outcome hw htop⟩

end

/-- A project with a class and a stale page. -/
def sample : World where
  files := { entries := [(["src"], .directory), (["src", "A"], .directory),
    (["src", "A", "B.php"], .file "<?php namespace A; class B {}".toUTF8),
    (["docs"], .directory), (["docs", "Old.md"], .file .empty)] }
  log := []

def sampleSettings : Settings :=
  [(.text "output_path", .text "docs"), (.text "source_directories", Settings.texts ["src"]),
    (.text "project_root", .text "/")]

theorem wellFormed_sample : sample.files.WellFormed :=
  FileSystem.wellFormed_of_check (by decide +kernel)

theorem generate_output_tree_sample :
    ∃ stats w', Succeeds (generate sampleSettings ⟨2024, 1, 1, 0, 0, 0⟩) sample stats w' ∧
      w'.files.entries.map (·.1) =
        [["docs", indexFile], ["docs", "A", "B.md"], ["docs", "A"], ["docs"],
        ["src"], ["src", "A"], ["src", "A", "B.php"]] ∧
      ∃ c : Course sampleSettings ⟨2024, 1, 1, 0, 0, 0⟩ sample stats w',
        ¬ TopAmongSeveral c.reset.files c.sources ∧ ∃ l, Outcome c l := by
  obtain ⟨stats, w', hrun, hentries⟩ := exists_succeeds (f := fun w' => w'.files.entries.map (·.1))
    (x := generate sampleSettings ⟨2024, 1, 1, 0, 0, 0⟩) (w := sample) ⟨by decide +kernel, rfl⟩
  obtain ⟨⟨c⟩, htree⟩ := generate_output_tree wellFormed_sample hrun
  obtain ⟨_, hprep, hone⟩ := exists_of_toOption (f := (·.2.2.length))
    (x := prepare sample.files sampleSettings) (b := 1) (by decide +kernel)
  have htop : ¬ TopAmongSeveral c.reset.files c.sources := by
    rintro ⟨hsev, _⟩
    cases c.prepared.symm.trans hprep
    rw [hone] at hsev
    exact Nat.lt_irrefl 1 hsev
  refine ⟨stats, w', hrun, ?_, c, htop, htree c htop⟩
  rw [hentries]
  decide +kernel

end PhpPages.Site

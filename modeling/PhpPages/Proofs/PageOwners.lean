import PhpPages.Proofs.CrossReference
import PhpPages.Proofs.Generation

namespace PhpPages

namespace ClassMap

/-- A page that files compete for was reported. -/
def Progress.Shared (p : Progress) : Prop :=
  ∃ page first second, Event.pageShared page first second ∈ p.events

/-- Every file that declares something has a page with an owner. It is the source of the file, or
else that was reported. -/
def Progress.Owned (p : Progress) (files : List ParsedFile) : Prop :=
  ∀ f ∈ files, f.declarations ≠ [] →
    ∃ owner, p.owners.lookup f.pagePath = some owner ∧ (owner = f.sourcePath ∨ p.Shared)

theorem owners_declare (file : ParsedFile) (ds : List Declaration) (p : Progress) :
    (ds.foldl (Progress.declare file) p).owners = p.owners := by
  induction ds generalizing p with
  | nil => rfl
  | cons d ds ih => exact ih _

theorem shared_declare {file : ParsedFile} {ds : List Declaration} {p : Progress} (h : p.Shared) :
    (ds.foldl (Progress.declare file) p).Shared := by
  induction ds generalizing p with
  | nil => exact h
  | cons d ds ih =>
    apply ih
    obtain ⟨page, first, second, hm⟩ := h
    exact ⟨page, first, second, by simp [Progress.declare, hm]⟩

/-- A page keeps its owner, and a report stays. -/
theorem occupy_keeps {file : ParsedFile} {p : Progress} :
    (∀ page owner, p.owners.lookup page = some owner →
      (p.occupy file).owners.lookup page = some owner) ∧ (p.Shared → (p.occupy file).Shared) := by
  unfold Progress.occupy
  split
  · rename_i owner hl
    split
    · exact ⟨fun _ _ h => h, id⟩
    · refine ⟨fun _ _ h => h, ?_⟩
      rintro ⟨page, first, second, hm⟩
      exact ⟨page, first, second, by simp [hm]⟩
  · rename_i hl
    refine ⟨fun page owner h => ?_, id⟩
    have hne : page ≠ file.pagePath := by
      rintro rfl
      rw [hl] at h
      cases h
    rw [List.lookup_cons, beq_false_of_ne hne]
    exact h

theorem occupy_owner (file : ParsedFile) (p : Progress) :
    ∃ owner, (p.occupy file).owners.lookup file.pagePath = some owner ∧
      (owner = file.sourcePath ∨ (p.occupy file).Shared) := by
  unfold Progress.occupy
  split
  · rename_i owner hl
    split
    · rename_i he
      exact ⟨owner, hl, .inl he⟩
    · exact ⟨owner, hl, .inr ⟨file.pagePath, owner, file.sourcePath, by simp⟩⟩
  · exact ⟨file.sourcePath, by simp, .inl rfl⟩

theorem Progress.Owned.add {p : Progress} {files : List ParsedFile} (h : p.Owned files)
    (g : ParsedFile) : (p.add g).Owned (files ++ [g]) := by
  intro f hf hd
  have hcases : f ∈ files ∨ f = g := by simpa using hf
  by_cases hg : g.declarations = []
  · rw [Progress.add, if_pos (by simp [hg])]
    rcases hcases with hf | rfl
    · exact h f hf hd
    · exact absurd hg hd
  · rw [Progress.add, if_neg (by simpa using hg)]
    rw [owners_declare]
    rcases hcases with hf | rfl
    · obtain ⟨owner, hl, ho⟩ := h f hf hd
      refine ⟨owner, occupy_keeps.1 _ _ hl, ?_⟩
      rcases ho with ho | ho
      · exact .inl ho
      · exact .inr (shared_declare (occupy_keeps.2 ho))
    · obtain ⟨owner, hl, ho⟩ := occupy_owner f p
      refine ⟨owner, hl, ?_⟩
      rcases ho with ho | ho
      · exact .inl ho
      · exact .inr (shared_declare ho)

theorem progress_owned (files : List ParsedFile) : (progress files).Owned files := by
  suffices h : ∀ rest before p, Progress.Owned p before →
    Progress.Owned (rest.foldl Progress.add p) (before ++ rest) by
    have hstart : Progress.Owned {} [] := by
      intro f hf
      cases hf
    exact h files [] {} hstart
  intro rest
  induction rest with
  | nil =>
    intro before p hp
    simpa using hp
  | cons g rest ih =>
    intro before p hp
    have hnext := ih (before ++ [g]) (p.add g) (hp.add g)
    simpa using hnext

/-- The files of one page come from one source, unless something was reported. -/
theorem source_of_page {files : List ParsedFile}
    (h : ∀ page first second, Event.pageShared page first second ∉ eventsOf files)
    {f g : ParsedFile} (hf : f ∈ files) (hg : g ∈ files) (hfd : f.declarations ≠ [])
    (hgd : g.declarations ≠ []) (hp : g.pagePath = f.pagePath) : g.sourcePath = f.sourcePath := by
  have hs : ¬ (progress files).Shared := by
    rintro ⟨page, first, second, hm⟩
    exact h page first second hm
  obtain ⟨owner, hl, ho⟩ := progress_owned files f hf hfd
  obtain ⟨owner', hl', ho'⟩ := progress_owned files g hg hgd
  rw [hp, hl] at hl'
  cases hl'
  rw [← ho.resolve_right hs, ← ho'.resolve_right hs]

end ClassMap

namespace Scan

/-- One of the directories contains the location. -/
def Holds (fs : FileSystem) (directories : List Path) (location : Location) : Prop :=
  ∃ d ∈ directories, ∃ top, fs.resolveLenient d = .ok top ∧ top <+: location

theorem relativeTo?_isNone {l base : Location} (h : (Path.at l).relativeTo? (Path.at base) = none) :
    ¬ base <+: l := by
  intro hp
  simp [Path.relativeTo?, Path.at, hp] at h

/-- The path of a file in a source directory depends on where it is only, not on the name it
was found by. -/
theorem relativeAmong_congr {fs : FileSystem} {base : Option Path} {several : Bool}
    {file file' : Path} {location : Location} {directories : List Path}
    (h : Holds fs directories location) :
    relativeAmong fs base several file location directories =
      relativeAmong fs base several file' location directories := by
  induction directories with
  | nil =>
    obtain ⟨d, hd, _⟩ := h
    cases hd
  | cons d rest ih =>
    unfold relativeAmong
    cases hr : fs.resolveLenient d with
    | error e => rfl
    | ok top =>
      simp only [bind, Except.bind]
      cases hrel : (Path.at location).relativeTo? (Path.at top) with
      | some relative => rfl
      | none =>
        apply ih
        obtain ⟨d', hd', top', hr', hp⟩ := h
        rcases List.mem_cons.mp hd' with rfl | hd'
        · rw [hr] at hr'
          cases hr'
          exact absurd hp (relativeTo?_isNone hrel)
        · exact ⟨d', hd', top', hr', hp⟩

end Scan

namespace Site

theorem read_ok {fs : FileSystem} {p : Path} {content : ByteArray} (h : fs.read p = .ok content) :
    ∃ m, (fs.lookup true p).place? = some (m, some (.file content)) := by
  unfold FileSystem.read at h
  split at h
  · rename_i m c hm
    cases h
    exact ⟨m, by simp [hm, Found.place?]⟩
  all_goals cases h

theorem extractFile_ok {fs : FileSystem} {audience : Audience} {file : Path} {event : Event}
    {found : List Declaration} (h : extractFile fs audience file = .ok (event, found)) :
    (∀ s ∈ file.segments, '\x00' ∉ s.toList) ∧
      ∃ content, fs.read file = .ok content ∧
        declarationsOf audience file content = (event, found) := by
  unfold extractFile at h
  split at h
  · cases h
  rename_i hnull
  split at h
  · cases h
  rename_i content hread
  refine ⟨fun s hs hz => hnull ?_, content, hread, Except.ok.inj h⟩
  exact List.any_eq_true.mpr ⟨s, hs, by simpa using hz⟩

/-- The declarations depend on the text only. -/
theorem declarationsOf_congr (audience : Audience) (file file' : Path) (content : ByteArray) :
    (declarationsOf audience file content).2 = (declarationsOf audience file' content).2 := by
  unfold declarationsOf
  split <;> rfl

/-- What a file declares is read where its path resolves to. -/
theorem parseFile_source {fs : FileSystem} (hw : fs.WellFormed) {audience : Audience}
    {sources : List Path} {base : Option Path} {file : Path} {event : Event} {f : ParsedFile}
    (hs : ∀ s ∈ file.segments, '/' ∉ s.toList)
    (h : parseFile fs audience sources base file = .ok (event, f)) :
    ∃ location content, f.sourcePath = Path.at location ∧
      fs.entry? location = some (.file content) ∧
      f.declarations = (declarationsOf audience file content).2 ∧
      Scan.relativeAmong fs base (sources.length > 1) file location sources = .ok f.relativePath ∧
      f.pagePath = Link.pageOf f.relativePath := by
  unfold parseFile at h
  simp only [bind_eq_ok, resolving, mapError_eq_ok] at h
  obtain ⟨relative, hrelative, location, hlocation, ⟨event', found⟩, hfound, hret⟩ := h
  cases hret
  unfold Scan.relativeSource at hrelative
  obtain ⟨location', hlocation', hrelative⟩ := bind_eq_ok.mp hrelative
  cases hlocation.symm.trans hlocation'
  obtain ⟨hnull, content, hread, hdecl⟩ := extractFile_ok hfound
  obtain ⟨m, hm⟩ := read_ok hread
  obtain ⟨hdenotes, hentry⟩ :=
    FileSystem.lookup_denotes hw (fun s h => ⟨hs s h, hnull s h⟩) hm (by simp)
  cases hlocation.symm.trans hdenotes.resolveLenient
  exact ⟨location, content, rfl, hentry, by rw [hdecl], hrelative, rfl⟩

section

variable {s : Settings} {now : Moment} {w w' : World} {stats : Stats}

/-- The part of a run that reads: gives the source directories and what was found in them. -/
def readSources (s : Settings) : Run (List Path × List ParsedFile) := do
  let (plan, output, sources) ← look fun fs => prepare fs s
  resetOutput output
  let found ← scanSources plan sources
  report [.filesFound found.length]
  let parsed ← parseFiles plan sources found
  return (sources, parsed)

/-- It determines what the course of a run has read. -/
theorem Course.read_eq (c : Course s now w stats w') (sources : List Path)
    (parsed : List ParsedFile)
    (h : ((readSources s).run.run w).1.toOption = some (sources, parsed)) :
    c.sources = sources ∧ c.parsed = parsed := by
  have hread : Succeeds (readSources s) w (c.sources, c.parsed) c.read := by
    refine succeeds_bind.mpr ⟨_, w, succeeds_look.mpr ⟨c.prepared, rfl⟩, ?_⟩
    refine succeeds_bind.mpr ⟨(), c.reset, c.resets, ?_⟩
    refine succeeds_bind.mpr ⟨c.found, c.scanned, c.scans, ?_⟩
    refine succeeds_bind.mpr ⟨(), _, succeeds_report.mpr rfl, ?_⟩
    refine succeeds_bind.mpr ⟨c.parsed, c.read, c.reads, ?_⟩
    exact succeeds_pure.mpr ⟨rfl, rfl⟩
  rw [hread] at h
  cases h
  exact ⟨rfl, rfl⟩

theorem Course.parsed_source (hw : w.files.WellFormed) (c : Course s now w stats w')
    (hreset : c.reset.files.WellFormed) {f : ParsedFile} (hf : f ∈ c.parsed) :
    ∃ file location content, f.sourcePath = Path.at location ∧
      c.reset.files.entry? location = some (.file content) ∧
      f.declarations = (declarationsOf c.plan.audience file content).2 ∧
      Scan.relativeAmong c.reset.files (some c.plan.root) (c.sources.length > 1) file
        location c.sources = .ok f.relativePath ∧
      f.pagePath = Link.pageOf f.relativePath := by
  obtain ⟨file, event, hfound, hp⟩ := (c.parsed_from hreset).2 f hf
  obtain ⟨d, hd, names, _, hn, rfl⟩ := hfound
  refine ⟨_, parseFile_source hreset ?_ hp⟩
  intro n hm
  rcases List.mem_append.mp hm with hm | hm
  · exact c.sources_noSlash hw d hd n hm
  · exact (hn n hm).noSlash

/-- Files of one source declare the same. Inside the source directories they are told
apart by nothing. -/
theorem Course.same_source (hw : w.files.WellFormed) (c : Course s now w stats w')
    (hreset : c.reset.files.WellFormed) {f g : ParsedFile} (hf : f ∈ c.parsed) (hg : g ∈ c.parsed)
    (he : g.sourcePath = f.sourcePath) :
    g.declarations = f.declarations ∧ ∀ location, f.sourcePath = Path.at location →
      Scan.Holds c.reset.files c.sources location → g = f := by
  obtain ⟨file, lf, content, hlf, hcontent, hdf, hrf, hpf⟩ := c.parsed_source hw hreset hf
  obtain ⟨file', lg, content', hlg, hcontent', hdg, hrg, hpg⟩ := c.parsed_source hw hreset hg
  obtain rfl : lg = lf := by
    rw [hlf, hlg] at he
    exact congrArg Path.segments he
  cases hcontent.symm.trans hcontent'
  have hd : g.declarations = f.declarations := by
    rw [hdf, hdg]
    exact declarationsOf_congr _ _ _ _
  refine ⟨hd, fun location hl hh => ?_⟩
  obtain rfl : location = lg := by
    rw [hlf] at hl
    exact (congrArg Path.segments hl).symm
  rw [Scan.relativeAmong_congr hh] at hrg
  have hr := Except.ok.inj (hrg.symm.trans hrf)
  cases f
  cases g
  simp_all

/-- The page of a file stands in the output directory at `l`: it has the text of the file, with the
link to the source as it was found when the turn of the file came. -/
def Course.Keeps (c : Course s now w stats w') (l : Location) (f : ParsedFile) : Prop :=
  ∃ before after wf link, c.parsed = before ++ f :: after ∧
    Succeeds (writePages (ClassMap.ofFiles c.parsed) c.output before) c.mapped () wf ∧
    Link.toSource wf.files f.pagePath f.sourcePath.text c.output.text = .ok link ∧
    w'.files.entry? (l ++ pageNames f) =
      some (.file (pageText (ClassMap.ofFiles c.parsed) link.text f).toUTF8)

/-- The last file of a page that is not the index keeps it. -/
theorem Outcome.keeps {c : Course s now w stats w'} {l : Location} (h : Outcome c l)
    {before after : List ParsedFile} {f : ParsedFile} (hsplit : c.parsed = before ++ f :: after)
    (hd : f.declarations ≠ []) (hnot : f.pagePath ≠ indexFile)
    (hlast : ∀ g ∈ after, ¬ (g.declarations ≠ [] ∧ g.pagePath = f.pagePath)) : c.Keeps l f := by
  obtain ⟨wf, link, hbefore, hlink, hpage⟩ :=
    h.pages before f after hsplit hd hnot fun g hg hgd hp => hlast g hg ⟨hgd, hp⟩
  exact ⟨before, after, wf, link, hsplit, hbefore, hlink, hpage⟩

/-- The source of the file lies in a source directory, or no other file has its page. -/
def Course.Alone (c : Course s now w stats w') (f : ParsedFile) : Prop :=
  (∃ location, f.sourcePath = Path.at location ∧ Scan.Holds c.reset.files c.sources location) ∨
    ∀ g ∈ c.parsed, g.declarations ≠ [] → g.pagePath = f.pagePath → g = f

/-- When nothing was reported, the file that keeps a page declares what every file of the
page declares. -/
theorem Course.keeper (hw : w.files.WellFormed) (c : Course s now w stats w')
    (hreset : c.reset.files.WellFormed)
    (hshared : ∀ page first second, Event.pageShared page first second ∉ ClassMap.eventsOf c.parsed)
    {f : ParsedFile} (hf : f ∈ c.parsed) (hd : f.declarations ≠ []) :
    ∃ before g after, c.parsed = before ++ g :: after ∧ g.pagePath = f.pagePath ∧
      g.declarations = f.declarations ∧ (c.Alone f → g = f) ∧
      ∀ g' ∈ after, ¬ (g'.declarations ≠ [] ∧ g'.pagePath = g.pagePath) := by
  obtain ⟨before, g, after, hsplit, ⟨hgd, hgp⟩, hlast⟩ :=
    Text.exists_last (P := fun g => g.declarations ≠ [] ∧ g.pagePath = f.pagePath) ⟨f, hf, hd, rfl⟩
  have hg : g ∈ c.parsed := by simp [hsplit]
  have hsource := ClassMap.source_of_page hshared hf hg hd hgd hgp
  obtain ⟨hdecl, hsame⟩ := c.same_source hw hreset hf hg hsource
  refine ⟨before, g, after, hsplit, hgp, hdecl, ?_, by rwa [hgp]⟩
  rintro (⟨location, hl, hh⟩ | halone)
  · exact hsame location hl hh
  · exact halone g hg hgd hgp

/-- A part of a joined text stands in it. -/
theorem mem_intercalate {separator t : String} {ts : List String} (h : t ∈ ts) :
    ∃ front back, separator.intercalate ts = front ++ t ++ back := by
  induction ts with
  | nil => cases h
  | cons u ts ih =>
    by_cases hts : ts = []
    · subst hts
      obtain rfl : t = u := by simpa using h
      exact ⟨"", "", by simp⟩
    · rw [String.intercalate_cons_of_ne_nil hts]
      rcases List.mem_cons.mp h with rfl | h
      · exact ⟨"", separator ++ separator.intercalate ts, by simp [String.append_assoc]⟩
      · obtain ⟨front, back, he⟩ := ih h
        exact ⟨u ++ separator ++ front, back, by simp [he, String.append_assoc]⟩

/-- Each declaration of a file stands in the text of its page. -/
theorem mem_pageText {map : ClassMap} {sourceLink : String} {f : ParsedFile} {d : Declaration}
    (hd : d ∈ f.declarations) :
    ∃ links front back, pageText map sourceLink f = front ++ Page.ofDeclaration links d ++ back :=
  ⟨_, mem_intercalate (List.mem_map_of_mem hd)⟩

/-- A class with a page is declared by a file with that page. -/
theorem declares_of_lookup {files : List ParsedFile} {name page : String}
    (h : (ClassMap.ofFiles files).lookup name = some page) :
    ∃ f ∈ files, f.Declares name ∧ f.pagePath = page := by
  obtain ⟨before, after, he, _⟩ := List.lookup_eq_some_iff.mp h
  have hm : (name, page) ∈ ClassMap.ofFiles files := by simp [he]
  rw [ClassMap.ofFiles_eq] at hm
  obtain ⟨f, hf, hentry⟩ := List.mem_flatMap.mp hm
  obtain ⟨hd, hp⟩ := ClassMap.mem_entriesOf.mp hentry
  exact ⟨f, List.mem_reverse.mp hf, hd, hp.symm⟩

/-- No page is lost unless that is reported, save to the index. -/
theorem generate_keeps_pages (hw : w.files.WellFormed) (h : Succeeds (generate s now) w stats w') :
    Nonempty (Course s now w stats w') ∧ ∀ c : Course s now w stats w',
      ¬ TopAmongSeveral c.reset.files c.sources →
      (∀ page first second, Event.pageShared page first second ∉ ClassMap.eventsOf c.parsed) →
      ∃ l, w'.files.Denotes c.output l ∧
        (∀ f ∈ c.parsed, f.declarations ≠ [] → f.pagePath ≠ indexFile → c.Alone f → c.Keeps l f) ∧
        (∀ name page, (ClassMap.ofFiles c.parsed).lookup name = some page → page ≠ indexFile →
          ∃ f ∈ c.parsed, ∃ d ∈ f.declarations, d.fullName = name ∧ f.pagePath = page ∧
          ∃ links front back, w'.files.entry? (l ++ pageNames f) =
            some (.file (front ++ Page.ofDeclaration links d ++ back).toUTF8)) ∧
        w'.files.entry? (l ++ [indexFile]) =
          some (.file (Page.index c.plan.title c.parsed now).toUTF8) := by
  refine ⟨generate_course h, fun c htop hshared => ?_⟩
  obtain ⟨_, _, _, _, hfresh, _⟩ := c.fresh hw htop
  have hreset := hfresh.wellFormed
  obtain ⟨l, houtcome⟩ := c.outcome hw htop
  refine ⟨l, houtcome.place, ?_, ?_, houtcome.index⟩
  · intro f hf hd hnot halone
    obtain ⟨before, g, after, hsplit, _, _, hsame, hlast⟩ := c.keeper hw hreset hshared hf hd
    obtain rfl := hsame halone
    exact houtcome.keeps hsplit hd hnot hlast
  · intro name page hname hnot
    obtain ⟨f, hf, ⟨d, hd, hfull⟩, rfl⟩ := declares_of_lookup hname
    obtain ⟨before, g, after, hsplit, hpage, hdecl, _, hlast⟩ :=
      c.keeper hw hreset hshared hf (List.ne_nil_of_mem hd)
    have hgd : d ∈ g.declarations := hdecl ▸ hd
    obtain ⟨_, _, _, link, _, _, _, hentry⟩ :=
      houtcome.keeps hsplit (List.ne_nil_of_mem hgd) (hpage ▸ hnot) hlast
    have hnames : pageNames g = pageNames f := by rw [pageNames, hpage, pageNames]
    rw [hnames] at hentry
    obtain ⟨links, front, back, htext⟩ := mem_pageText hgd
    exact ⟨f, hf, d, hd, hfull, rfl, links, front, back, by rw [hentry, htext]⟩

end

/-- What is read from the sample project. -/
def sampleFile : ParsedFile where
  sourcePath := Path.at ["src", "A", "B.php"]
  relativePath := "A/B.php"
  pagePath := "A/B.md"
  declarations := [⟨"B", .class, some "A", none, none, [], [], [], []⟩]

theorem generate_keeps_pages_sample :
    ∃ stats w', Succeeds (generate sampleSettings ⟨2024, 1, 1, 0, 0, 0⟩) sample stats w' ∧
      ∃ c : Course sampleSettings ⟨2024, 1, 1, 0, 0, 0⟩ sample stats w',
        ¬ TopAmongSeveral c.reset.files c.sources ∧ ClassMap.eventsOf c.parsed = [] ∧
        ∃ f ∈ c.parsed, f.declarations ≠ [] ∧ f.pagePath ≠ indexFile ∧ c.Alone f ∧ ∃ l,
        c.Keeps l f := by
  obtain ⟨stats, w', hrun, _⟩ := exists_succeeds (f := fun _ => ())
    (x := generate sampleSettings ⟨2024, 1, 1, 0, 0, 0⟩) (w := sample) ⟨by decide +kernel, rfl⟩
  obtain ⟨⟨c⟩, hkeeps⟩ := generate_keeps_pages wellFormed_sample hrun
  obtain ⟨hsources, hparsed⟩ := c.read_eq [Path.at ["src"]] [sampleFile] (by decide +kernel)
  have htop : ¬ TopAmongSeveral c.reset.files c.sources := by
    rintro ⟨hsev, _⟩
    simp [hsources] at hsev
  have hevents : ClassMap.eventsOf c.parsed = [] := by
    rw [hparsed]
    decide +kernel
  have hf : sampleFile ∈ c.parsed := by simp [hparsed]
  have halone : c.Alone sampleFile := by
    right
    intro g hg _ _
    simpa [hparsed] using hg
  obtain ⟨l, _, hpages, _⟩ := hkeeps c htop (by simp [hevents])
  exact ⟨stats, w', hrun, c, htop, hevents, sampleFile, hf, by decide, by decide, halone, l,
    hpages sampleFile hf (by decide) (by decide) halone⟩

/-- The first line of a text with something other than blanks in it stands in front. -/
theorem finish_front {line : String} {lines : List String} {a b : List Char}
    (hl : line.toList = a ++ b) (hb : ∃ x ∈ b, Text.isBlank x = false) :
    a <+: (Page.finish (line :: lines)).toList := by
  obtain ⟨rest, hrest⟩ :
      ∃ rest, ("\n".intercalate (line :: lines)).toList = line.toList ++ rest := by
    by_cases hn : lines = []
    · exact ⟨[], by simp [hn]⟩
    · rw [String.intercalate_cons_of_ne_nil hn]
      exact ⟨_, by rw [String.append_assoc, String.toList_append]⟩
  have hb' : ∃ x ∈ b ++ rest, Text.isBlank x = false := by
    obtain ⟨x, hx, hblank⟩ := hb
    exact ⟨x, by simp [hx], hblank⟩
  rw [Page.finish, Text.trimEnd, hrest, hl, List.append_assoc, Text.dropEndWhile_append hb']
  simp

/-- A project with a source whose page has the name of the index. -/
def eclipsed : World where
  files := { entries := [(["p"], .directory), (["p", "src"], .directory),
    (["p", "src", "README.php"], .file "<?php class Readme {}".toUTF8)] }

def eclipsedSettings : Settings :=
  [(.text "output_path", .text "docs"), (.text "source_directories", Settings.texts ["src"]),
    (.text "project_root", .text "/p")]

def eclipsedFile : ParsedFile where
  sourcePath := Path.at ["p", "src", "README.php"]
  relativePath := "README.php"
  pagePath := indexFile
  declarations := [⟨"Readme", .class, none, none, none, [], [], [], []⟩]

/-- The page is lost to the index, and nothing is reported. -/
theorem readme_page_lost :
    ∃ stats w', ∃ c : Course eclipsedSettings ⟨2024, 1, 1, 0, 0, 0⟩ eclipsed stats w',
    Succeeds (generate eclipsedSettings ⟨2024, 1, 1, 0, 0, 0⟩) eclipsed stats w' ∧
    ¬ TopAmongSeveral c.reset.files c.sources ∧ ClassMap.eventsOf c.parsed = [] ∧
    c.parsed = [eclipsedFile] ∧ eclipsedFile.declarations ≠ [] ∧ ∀ l, w'.files.Denotes c.output l →
      ¬ c.Keeps l eclipsedFile := by
  obtain ⟨stats, w', hrun, _⟩ := exists_succeeds (f := fun _ => ())
    (x := generate eclipsedSettings ⟨2024, 1, 1, 0, 0, 0⟩) (w := eclipsed) ⟨by decide +kernel, rfl⟩
  obtain ⟨c⟩ := generate_course hrun
  have hw : eclipsed.files.WellFormed := FileSystem.wellFormed_of_check (by decide +kernel)
  obtain ⟨hsources, hparsed⟩ := c.read_eq [Path.at ["p", "src"]] [eclipsedFile] (by decide +kernel)
  have htop : ¬ TopAmongSeveral c.reset.files c.sources := by
    rintro ⟨hsev, _⟩
    simp [hsources] at hsev
  refine ⟨stats, w', c, hrun, htop, by rw [hparsed]; decide +kernel, hparsed, by decide, ?_⟩
  rintro l hl ⟨_, _, _, link, _, _, _, hentry⟩
  obtain ⟨k, houtcome⟩ := c.outcome hw htop
  obtain rfl := hl.unique houtcome.place
  have hnames :
      pageNames eclipsedFile = [indexFile] := by rw [pageNames, eclipsedFile, ofText_indexFile]
  rw [hnames, houtcome.index, (prepare_ok c.prepared).1] at hentry
  have htext := String.toByteArray_inj.mp (Entry.file.inj (Option.some.inj hentry))
  have hfront :
      "# R".toList <+: (pageText (ClassMap.ofFiles c.parsed) link.text eclipsedFile).toList := by
    apply finish_front (b := "eadme".toList)
    · rfl
    · exact ⟨'e', by simp, rfl⟩
  have hfront' :
      "# P".toList <+: (Page.index (planOf eclipsedSettings eclipsed.files.here).title c.parsed
      ⟨2024, 1, 1, 0, 0, 0⟩).toList := by
    apply finish_front (b := "HP Documentation".toList)
    · rfl
    · exact ⟨'H', by simp, rfl⟩
  rw [htext] at hfront'
  have hsame := List.prefix_of_prefix_length_le hfront hfront' (by decide)
  revert hsame
  decide

end Site

end PhpPages

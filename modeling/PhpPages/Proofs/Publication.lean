import PhpPages.Proofs.CrossReference
import PhpPages.Proofs.Regeneration

namespace PhpPages

namespace Php

/-- The outline of a file for any function that gives the syntax tree of its bytes. -/
def outlineBy (parser : ByteArray → Tree) (bytes : ByteArray) :
    Except ParseError (List Statement) :=
  match String.fromUTF8? bytes with
  | none => .error .notUtf8
  | some _ => (parser bytes).outline

/-- The syntax tree of bytes that are a text. -/
def parseBytes (bytes : ByteArray) : Tree :=
  parse ((String.fromUTF8? bytes).getD "")

theorem outline_eq (bytes : ByteArray) : outline bytes = outlineBy parseBytes bytes := by
  unfold outline outlineBy parseBytes
  cases String.fromUTF8? bytes with
  | none => rfl
  | some text => rfl

end Php

namespace Site

/-- Reads the declarations of one file, for any function that gives the syntax tree of its bytes. -/
def extractBy (parser : ByteArray → Php.Tree) (fs : FileSystem) (audience : Audience)
    (file : Path) : Except Failure (Event × List Declaration) :=
  if file.segments.any (·.toList.contains '\x00') then .error (.resolve .nullCharacter)
  else
    match fs.read file with
    | .error _ => .error (.files (.read file))
    | .ok content =>
      match Php.outlineBy parser content with
      | .error reason => .ok (.fileSkipped file reason, [])
      | .ok statements =>
        .ok (.fileRead (declarations audience statements).length file,
          declarations audience statements)

theorem extractFile_eq (fs : FileSystem) (audience : Audience) (file : Path) :
    extractFile fs audience file = extractBy Php.parseBytes fs audience file := by
  unfold extractFile extractBy
  split
  · rfl
  · cases fs.read file with
    | error fault => rfl
    | ok content =>
      simp only [declarationsOf, Php.outline_eq]
      cases Php.outlineBy Php.parseBytes content with
      | error reason => rfl
      | ok statements => rfl

/-- Publishes the files that were read. -/
def publish (plan : Plan) (output : Path) (now : Moment) (parsed : List ParsedFile) :
    Run Stats := do
  report (ClassMap.eventsOf parsed)
  writePages (ClassMap.ofFiles parsed) output parsed
  report [.pagesWritten (parsed.filter fun f => !f.declarations.isEmpty).length output]
  writeFile (output.join (Path.ofText indexFile)) (Page.index plan.title parsed now)
  return statsOf parsed

/-- Reads the files that were found and publishes them. -/
def document (plan : Plan) (sources : List Path) (output : Path) (now : Moment)
    (found : List Path) : Run Stats := do
  publish plan output now (← parseFiles plan sources found)

/-- What a run does from the moment its output directory is there. -/
def fillTree (plan : Plan) (output : Path) (sources : List Path) (now : Moment) : Run Stats := do
  let found ← scanSources plan sources
  report [.filesFound found.length]
  document plan sources output now found

theorem generate_eq (s : Settings) (now : Moment) :
    generate s now = (do
      let (plan, output, sources) ← look fun fs => prepare fs s
      resetOutput output
      fillTree plan output sources now) :=
  rfl

theorem publish_works (plan : Plan) (output : Path) (now : Moment) (parsed : List ParsedFile) :
    Works (publish plan output now parsed) := by
  refine .bind (.report _) fun _ => .bind (writePages_works _ output parsed) fun _ => ?_
  exact .bind (.report _) fun _ => .bind (writeFile_works _ _) fun _ => .pure _

/-- The step succeeds and leaves a file system, whatever it reports. -/
def Leaves {α : Type} (x : Run α) (w : World) (a : α) (fs : FileSystem) : Prop :=
  ∃ log, Succeeds x w a ⟨fs, log⟩

/-- What was reported before does not matter to the steps of the work. -/
theorem Leaves.blind {α : Type} {x : Run α} {w v : World} {a : α} {fs : FileSystem}
    (h : Leaves x w a fs) (hx : Works x) (hfiles : w.files = v.files) : Leaves x v a fs := by
  obtain ⟨log, hs⟩ := h
  obtain ⟨log', hs'⟩ := hx.blind hs v.log
  rw [hfiles] at hs'
  exact ⟨log', hs'⟩

/-- The second of two steps may be looked at as if nothing had been reported by the first. -/
theorem leaves_bind {α β : Type} {x : Run α} {f : α → Run β} (hf : ∀ a, Works (f a)) {w : World}
    {b : β} {fs : FileSystem} :
    Leaves (x >>= f) w b fs ↔ ∃ a fs₁, Leaves x w a fs₁ ∧ Leaves (f a) ⟨fs₁, w.log⟩ b fs := by
  constructor
  · intro h
    obtain ⟨log, hs⟩ := h
    obtain ⟨a, w₁, hx, hfa⟩ := succeeds_bind.mp hs
    have hleaves : Leaves (f a) w₁ b fs := ⟨log, hfa⟩
    exact ⟨a, w₁.files, ⟨w₁.log, hx⟩, hleaves.blind (hf a) rfl⟩
  · intro h
    obtain ⟨a, fs₁, ⟨log₁, hx⟩, hfa⟩ := h
    have hleaves : Leaves (f a) ⟨fs₁, log₁⟩ b fs := hfa.blind (hf a) rfl
    obtain ⟨log, hs⟩ := hleaves
    exact ⟨log, succeeds_bind.mpr ⟨a, _, hx, hs⟩⟩

theorem mapM_append_ok {ε α β : Type} {f : α → Except ε β} {l k : List α} {r : List β} :
    (l ++ k).mapM f = .ok r ↔ ∃ bs cs, l.mapM f = .ok bs ∧ k.mapM f = .ok cs ∧ bs ++ cs = r := by
  simp only [List.mapM_append, bind_eq_ok, pure, Except.pure, Except.ok.injEq, exists_and_left]

theorem mapM_cons_ok {ε α β : Type} {f : α → Except ε β} {a : α} {l : List α} {r : List β} :
    (a :: l).mapM f = .ok r ↔ ∃ b bs, f a = .ok b ∧ l.mapM f = .ok bs ∧ b :: bs = r := by
  simp only [List.mapM_cons, bind_eq_ok, pure, Except.pure, Except.ok.injEq, exists_and_left]

/-- Reading files is reading each of them. -/
theorem parseFiles_iff {plan : Plan} {sources files : List Path} {parsed : List ParsedFile}
    {w w' : World} :
    Succeeds (parseFiles plan sources files) w parsed w' ↔
      ∃ pairs, files.mapM (parseFile w.files plan.audience sources (some plan.root)) = .ok pairs ∧
        pairs.map (·.2) = parsed ∧ { w with log := w.log ++ pairs.map (·.1) } = w' := by
  induction files generalizing w w' parsed with
  | nil =>
    constructor
    · intro h
      obtain ⟨rfl, rfl⟩ := succeeds_pure.mp h
      exact ⟨[], rfl, rfl, by simp⟩
    · intro h
      obtain ⟨pairs, hpairs, rfl, rfl⟩ := h
      cases hpairs
      exact succeeds_pure.mpr ⟨rfl, by simp⟩
  | cons file rest ih =>
    unfold parseFiles
    simp only [succeeds_bind, succeeds_look, succeeds_report, succeeds_pure, ih, mapM_cons_ok]
    constructor
    · intro h
      obtain ⟨pair, _, ⟨hpair, rfl⟩, _, _, rfl, _, _, ⟨pairs, hpairs, rfl, rfl⟩, rfl, rfl⟩ := h
      exact ⟨pair :: pairs, ⟨pair, pairs, hpair, hpairs, rfl⟩, rfl, by simp⟩
    · intro h
      obtain ⟨_, ⟨pair, pairs, hpair, hpairs, rfl⟩, rfl, rfl⟩ := h
      exact ⟨pair, w, ⟨hpair, rfl⟩, (), _, rfl, _, _, ⟨pairs, hpairs, rfl, rfl⟩, rfl, by simp⟩

section

variable {before after : List ParsedFile} {e : ParsedFile} (he : e.declarations = [])
include he

theorem progress_insert :
    ClassMap.progress (before ++ e :: after) = ClassMap.progress (before ++ after) := by
  have hadd : ∀ p : ClassMap.Progress, p.add e = p := by
    intro p
    rw [ClassMap.Progress.add, if_pos (by simp [he])]
  simp only [ClassMap.progress, List.foldl_append, List.foldl_cons, hadd]

theorem index_insert (title : String) (now : Moment) :
    Page.index title (before ++ e :: after) now = Page.index title (before ++ after) now := by
  have hentries :
      Page.Index.entries (before ++ e :: after) = Page.Index.entries (before ++ after) := by
    simp [Page.Index.entries, he]
  rw [Page.index, hentries, Page.index]

theorem statsOf_insert :
    statsOf (before ++ e :: after) =
      { statsOf (before ++ after) with files := (statsOf (before ++ after)).files + 1 } := by
  have hlength : (before ++ e :: after).length = (before ++ after).length + 1 := by
    simp only [List.length_append, List.length_cons]
    omega
  have hfound : (before ++ e :: after).flatMap (·.declarations) =
      (before ++ after).flatMap (·.declarations) := by
    simp [he]
  simp only [statsOf, hlength, hfound]

/-- The turn of a file without declarations does nothing. -/
theorem writePages_insert (map : ClassMap) (output : Path) :
    writePages map output (before ++ e :: after) = writePages map output (before ++ after) := by
  induction before with
  | nil =>
    have hpage : writePage map output e = pure () := by
      rw [writePage, if_pos (by simp [he])]
    rw [List.nil_append, List.nil_append, writePages, hpage, pure_bind]
  | cons f before ih =>
    rw [List.cons_append, List.cons_append, writePages, writePages, ih]

/-- With a file without declarations more, the same is published, and one file more is counted. -/
theorem publish_insert (plan : Plan) (output : Path) (now : Moment) :
    publish plan output now (before ++ e :: after) =
      (fun stats => { stats with files := stats.files + 1 }) <$>
        publish plan output now (before ++ after) := by
  have hfilter : (before ++ e :: after).filter (fun f => !f.declarations.isEmpty) =
      (before ++ after).filter fun f => !f.declarations.isEmpty := by
    simp [he]
  simp only [publish, ClassMap.eventsOf, ClassMap.ofFiles, progress_insert he, writePages_insert he,
    hfilter, index_insert he, statsOf_insert he, map_bind, map_pure]

end

/-- Reading and publishing files is reading each of them and publishing what came out. -/
theorem document_leaves_iff {plan : Plan} {sources found : List Path} {output : Path} {now : Moment}
    {w : World} {stats : Stats} {fs : FileSystem} :
    Leaves (document plan sources output now found) w stats fs ↔
      ∃ pairs, found.mapM (parseFile w.files plan.audience sources (some plan.root)) = .ok pairs ∧
        Leaves (publish plan output now (pairs.map (·.2))) w stats fs := by
  have hworks := publish_works plan output now
  rw [document, leaves_bind hworks]
  constructor
  · intro h
    obtain ⟨parsed, fs₁, ⟨log, hread⟩, hpublish⟩ := h
    obtain ⟨pairs, hpairs, rfl, hw⟩ := parseFiles_iff.mp hread
    cases hw
    exact ⟨pairs, hpairs, hpublish⟩
  · intro h
    obtain ⟨pairs, hpairs, hpublish⟩ := h
    exact ⟨_, w.files, ⟨_, parseFiles_iff.mpr ⟨pairs, hpairs, rfl, rfl⟩⟩, hpublish⟩

/-- A file that turns out to declare nothing has no influence on what is made of the others. -/
theorem document_insert_iff {plan : Plan} {sources before after : List Path} {file output : Path}
    {now : Moment} {w : World} {event : Event} {e : ParsedFile} (he : e.declarations = [])
    (hfile : parseFile w.files plan.audience sources (some plan.root) file = .ok (event, e))
    {stats : Stats} {fs : FileSystem} :
    Leaves (document plan sources output now (before ++ file :: after)) w
        { stats with files := stats.files + 1 } fs ↔
      Leaves (document plan sources output now (before ++ after)) w stats fs := by
  have hcount : ∀ pb pa : List ParsedFile, Leaves (publish plan output now (pb ++ e :: pa)) w
      { stats with files := stats.files + 1 } fs ↔
        Leaves (publish plan output now (pb ++ pa)) w stats fs := by
    intro pb pa
    rw [publish_insert he]
    constructor
    · intro h
      obtain ⟨log, hs⟩ := h
      rw [map_eq_pure_bind] at hs
      obtain ⟨counted, w₁, hpublish, hpure⟩ := succeeds_bind.mp hs
      obtain ⟨hstats, rfl⟩ := succeeds_pure.mp hpure
      simp only [Stats.mk.injEq, Nat.add_right_cancel_iff] at hstats
      obtain ⟨h₁, h₂, h₃, h₄⟩ := hstats
      cases counted
      cases stats
      cases h₁
      cases h₂
      cases h₃
      cases h₄
      exact ⟨log, hpublish⟩
    · intro h
      obtain ⟨log, hs⟩ := h
      rw [map_eq_pure_bind]
      exact ⟨log, succeeds_bind.mpr ⟨stats, _, hs, succeeds_pure.mpr ⟨rfl, rfl⟩⟩⟩
  rw [document_leaves_iff, document_leaves_iff]
  constructor
  · intro h
    obtain ⟨_, hpairs, hpublish⟩ := h
    obtain ⟨pb, _, hbefore, hrest, rfl⟩ := mapM_append_ok.mp hpairs
    obtain ⟨pair, pa, hpair, hafter, rfl⟩ := mapM_cons_ok.mp hrest
    cases hfile.symm.trans hpair
    refine ⟨pb ++ pa, mapM_append_ok.mpr ⟨pb, pa, hbefore, hafter, rfl⟩, ?_⟩
    rw [List.map_append] at hpublish ⊢
    exact (hcount _ _).mp hpublish
  · intro h
    obtain ⟨_, hpairs, hpublish⟩ := h
    obtain ⟨pb, pa, hbefore, hafter, rfl⟩ := mapM_append_ok.mp hpairs
    have hrest := mapM_cons_ok.mpr ⟨_, pa, hfile, hafter, rfl⟩
    refine ⟨pb ++ (event, e) :: pa, mapM_append_ok.mpr ⟨pb, _, hbefore, hrest, rfl⟩, ?_⟩
    rw [List.map_append] at hpublish ⊢
    exact (hcount _ _).mpr hpublish

/-- A source that cannot be parsed is skipped and has no declarations, whatever the parser is. -/
theorem extractBy_malformed {parser : ByteArray → Php.Tree} {fs : FileSystem} {file : Path}
    {content : ByteArray} {reason : Php.ParseError} (audience : Audience)
    (hnull : (file.segments.any (·.toList.contains '\x00')) = false)
    (hread : fs.read file = .ok content) (hbad : Php.outlineBy parser content = .error reason) :
    extractBy parser fs audience file = .ok (.fileSkipped file reason, []) := by
  unfold extractBy
  rw [hnull, hread]
  simp only [Bool.false_eq_true, ↓reduceIte, hbad]

/-- Among other files, the file shows in the number of files and nowhere else. -/
structure Inert (before : List ParsedFile) (e : ParsedFile) (after : List ParsedFile) : Prop where
  map : ClassMap.ofFiles (before ++ e :: after) = ClassMap.ofFiles (before ++ after)
  warnings : ClassMap.eventsOf (before ++ e :: after) = ClassMap.eventsOf (before ++ after)
  pages : ∀ map output, writePages map output (before ++ e :: after) =
    writePages map output (before ++ after)
  index : ∀ title now, Page.index title (before ++ e :: after) now =
    Page.index title (before ++ after) now
  stats : statsOf (before ++ e :: after) =
    { statsOf (before ++ after) with files := (statsOf (before ++ after)).files + 1 }
  /-- All of this in one run, in whatever world it starts. -/
  run : ∀ plan output now, publish plan output now (before ++ e :: after) =
    (fun stats => { stats with files := stats.files + 1 }) <$>
      publish plan output now (before ++ after)

/-- A file that cannot be parsed has no declarations, whatever the parser is; a file without
declarations shows in the number of files and nowhere else, wherever it stands among the others and
whatever its page is called; and a run that comes across such a file makes of the others what it
makes of them without it. -/
theorem file_without_declarations_is_inert :
    (∀ fs audience file, extractFile fs audience file = extractBy Php.parseBytes fs audience file) ∧
    (∀ parser fs audience file content reason,
      (file.segments.any (·.toList.contains '\x00')) = false →
      fs.read file = .ok content → Php.outlineBy parser content = .error reason →
      extractBy parser fs audience file = .ok (.fileSkipped file reason, [])) ∧
    (∀ before e after, e.declarations = [] → Inert before e after) ∧
    ∀ plan sources output now w before file after event e,
      parseFile w.files plan.audience sources (some plan.root) file = .ok (event, e) →
      e.declarations = [] →
      ∀ stats fs, Leaves (document plan sources output now (before ++ file :: after)) w
          { stats with files := stats.files + 1 } fs ↔
        Leaves (document plan sources output now (before ++ after)) w stats fs := by
  refine ⟨extractFile_eq, ?_, ?_, ?_⟩
  · intro parser fs audience file content reason hnull hread hbad
    exact extractBy_malformed audience hnull hread hbad
  · intro before e after he
    refine ⟨?_, ?_, writePages_insert he, index_insert he, statsOf_insert he, publish_insert he⟩
    · rw [ClassMap.ofFiles, progress_insert he, ClassMap.ofFiles]
    · rw [ClassMap.eventsOf, progress_insert he, ClassMap.eventsOf]
  · intro plan sources output now w before file after event e hfile he stats fs
    exact document_insert_iff he hfile

/-- A class and a file that is no PHP, which would have the same page. -/
def halfBroken : FileSystem where
  entries := [(["src"], .directory), (["src", "A.inc"], .file "<?php class".toUTF8),
    (["src", "A.php"], .file "<?php class A {}".toUTF8)]

def halfBrokenPlan : Plan where
  root := Path.at []
  output := "docs"
  sources := ["src"]
  excluded := []
  extensions := ["php", "inc"]
  audience := {}
  title := defaultTitle
  unchecked := false

theorem file_without_declarations_is_inert_halfBroken :
    (∃ reason, extractFile halfBroken {} (Path.at ["src", "A.inc"]) =
      .ok (.fileSkipped (Path.at ["src", "A.inc"]) reason, [])) ∧
    ∃ event e, parseFile halfBroken {} [Path.at ["src"]] (some (Path.at []))
        (Path.at ["src", "A.inc"]) = .ok (event, e) ∧
      e.pagePath = "A.md" ∧ Inert [] e Link.rivals ∧
      ∀ stats fs,
        Leaves (document halfBrokenPlan [Path.at ["src"]] (Path.at ["docs"]) ⟨2024, 1, 1, 0, 0, 0⟩
          [Path.at ["src", "A.inc"], Path.at ["src", "A.php"]]) ⟨halfBroken, []⟩
          { stats with files := stats.files + 1 } fs ↔
        Leaves (document halfBrokenPlan [Path.at ["src"]] (Path.at ["docs"]) ⟨2024, 1, 1, 0, 0, 0⟩
          [Path.at ["src", "A.php"]]) ⟨halfBroken, []⟩ stats fs := by
  obtain ⟨hextract, hbad, hinert, hrun⟩ := file_without_declarations_is_inert
  have hread : halfBroken.read (Path.at ["src", "A.inc"]) = .ok "<?php class".toUTF8 := rfl
  have hmalformed :
      (Php.outlineBy Php.parseBytes "<?php class".toUTF8).toOption.isNone = true := by
    decide +kernel
  obtain ⟨⟨event, e⟩, hparse, he⟩ := exists_of_toOption
    (f := fun r => (r.2.declarations, r.2.pagePath))
    (x := parseFile halfBroken {} [Path.at ["src"]] (some (Path.at [])) (Path.at ["src", "A.inc"]))
    (b := ([], "A.md")) (by decide +kernel)
  simp only [Prod.mk.injEq] at he
  refine ⟨?_, event, e, hparse, he.2, hinert [] e Link.rivals he.1, ?_⟩
  · rw [hextract]
    cases ho : Php.outlineBy Php.parseBytes "<?php class".toUTF8 with
    | ok statements =>
      rw [ho] at hmalformed
      cases hmalformed
    | error reason => exact ⟨reason, hbad _ _ {} _ _ reason (by decide) hread ho⟩
  · exact hrun halfBrokenPlan [Path.at ["src"]] (Path.at ["docs"]) ⟨2024, 1, 1, 0, 0, 0⟩
      ⟨halfBroken, []⟩ [] (Path.at ["src", "A.inc"]) [Path.at ["src", "A.php"]] event e hparse he.1

end Site

end PhpPages

import PhpPages.Proofs.Contents
import PhpPages.Proofs.Publication

namespace PhpPages

section

variable {R : Location → ByteArray → ByteArray → Prop} {fs fs' : FileSystem}

namespace FileSystem

theorem Like.resolveStrict (h : fs.Like R fs') : fs.resolveStrict = fs'.resolveStrict :=
  funext (h.resolve true)

theorem Like.resolveLenient (h : fs.Like R fs') : fs.resolveLenient = fs'.resolveLenient :=
  funext (h.resolve false)

end FileSystem

namespace Boundary

theorem viaAncestor_like (h : fs.Like R fs') (r : Request) (normalized : Path)
    (ancestors : List Path) :
    r.viaAncestor fs normalized ancestors = r.viaAncestor fs' normalized ancestors := by
  induction ancestors with
  | nil => rfl
  | cons parent further ih => simp only [Request.viaAncestor, h.resolveStrict, ih]

theorem check_like (h : fs.Like R fs') (path root label : String) :
    check fs path root label = check fs' path root label := by
  simp only [check, Request.judge, Request.judgeMissing, h.resolveStrict, h.resolveLenient,
    viaAncestor_like h]

end Boundary

namespace Scan

theorem filesBelow_like (h : fs.Like R fs') (f : Filter) (directory : Path) (l : Location) :
    filesBelow fs f directory l = filesBelow fs' f directory l := by
  -- The search looks at the names and at whether they lead to files.
  have hnames : ∀ gs : FileSystem, filesBelow gs f directory l =
      ((gs.below l).map Prod.fst).filterMap fun names =>
        if f.wantsSuffix (directory.join ⟨.relative, names⟩) &&
            !f.excludes directory (directory.join ⟨.relative, names⟩) &&
            gs.isFile (directory.join ⟨.relative, names⟩)
        then some (directory.join ⟨.relative, names⟩) else none := by
    intro gs
    rw [List.filterMap_map]
    rfl
  rw [hnames, hnames, h.below]
  simp only [h.isFile]

theorem collect_like (h : fs.Like R fs') (f : Filter) (directories : List Path) :
    collect fs f directories = collect fs' f directories := by
  induction directories with
  | nil => rfl
  | cons directory rest ih =>
    simp only [collect, ih, h.mayList, filesBelow_like h]
    have hlookup := h.lookup true directory
    generalize fs.lookup true directory = found, fs'.lookup true directory = found' at hlookup ⊢
    cases hlookup with
    | entry l like => cases like <;> rfl
    | free l => rfl
    | nowhere fault => rfl

theorem sources_like (h : fs.Like R fs') (f : Filter) (directories : List Path) :
    sources fs f directories = sources fs' f directories := by
  simp only [sources, collect_like h]

theorem relativeSource_like (h : fs.Like R fs') (file : Path) (directories : List Path)
    (base : Option Path) :
    relativeSource fs file directories base = relativeSource fs' file directories base := by
  have hamong : ∀ several location, relativeAmong fs base several file location directories =
      relativeAmong fs' base several file location directories := by
    intro several location
    induction directories with
    | nil => rfl
    | cons directory rest ih => simp only [relativeAmong, directoryLabel, h.resolveLenient, ih]
  simp only [relativeSource, h.resolveLenient, hamong]

end Scan

theorem Link.toSource_like (h : fs.Like R fs') (page source output : String) :
    Link.toSource fs page source output = Link.toSource fs' page source output := by
  simp only [Link.toSource, Link.normalizePath, h.resolveStrict, h.resolveLenient]

end

namespace Site

variable {R : Location → ByteArray → ByteArray → Prop} {fs fs' : FileSystem}

theorem prepare_like (h : fs.Like R fs') (s : Settings) : prepare fs s = prepare fs' s := by
  simp only [prepare, places, guardOutput, place, absolute, h.here, h.resolveLenient,
    Boundary.check_like h]

/-- Files with related contents are read alike, if those contents declare the same. -/
theorem parseFile_like (h : fs.Like R fs') {audience : Audience}
    (hread : ∀ {l a b}, R l a b → ∀ file,
      declarationsOf audience file a = declarationsOf audience file b)
    (sources : List Path) (base : Option Path) (file : Path) :
    parseFile fs audience sources base file = parseFile fs' audience sources base file := by
  have hextract : extractFile fs audience file = extractFile fs' audience file := by
    unfold extractFile
    split
    · rfl
    · rcases h.read file with ⟨fault, hf, hf'⟩ | ⟨l, a, b, ha, hb, hr⟩
      · rw [hf, hf']
      · rw [ha, hb]
        simp only [hread hr]
  simp only [parseFile, Scan.relativeSource_like h, h.resolveLenient, hextract]

/-- Worlds with the same reports, whose file systems are alike. -/
structure World.Like (R : Location → ByteArray → ByteArray → Prop) (w w' : World) : Prop where
  files : w.files.Like R w'.files
  log : w.log = w'.log

/-- Two steps go along with each other: in worlds that are alike they end in the same way and leave
worlds that are alike. -/
def Parallel {α : Type} (R : Location → ByteArray → ByteArray → Prop) (x y : Run α) : Prop :=
  ∀ w w', World.Like R w w' →
    (x.run.run w).1 = (y.run.run w').1 ∧ World.Like R (x.run.run w).2 (y.run.run w').2

namespace Parallel

theorem pure {α : Type} (a : α) : Parallel R (pure a) (pure a) := by
  intro w w' h
  exact ⟨rfl, h⟩

theorem throw {α : Type} (e : Failure) : Parallel R (throw e : Run α) (throw e) := by
  intro w w' h
  exact ⟨rfl, h⟩

theorem report (events : List Event) : Parallel R (report events) (report events) := by
  intro w w' h
  refine ⟨rfl, h.files, ?_⟩
  change w.log ++ events = w'.log ++ events
  rw [h.log]

theorem bind {α β : Type} {x y : Run α} {f g : α → Run β} (hx : Parallel R x y)
    (hf : ∀ a, Parallel R (f a) (g a)) : Parallel R (x >>= f) (y >>= g) := by
  intro w w' h
  obtain ⟨hresult, hworld⟩ := hx w w' h
  simp only [ExceptT.run_bind, StateT.run_bind]
  generalize x.run.run w = first, y.run.run w' = second at hresult hworld ⊢
  obtain ⟨result, v⟩ := first
  obtain ⟨result', v'⟩ := second
  simp only at hresult hworld
  subst hresult
  cases result with
  | error e => exact ⟨rfl, hworld⟩
  | ok a => exact hf a v v' hworld

/-- The file system itself may be looked at, as long as both steps go on alike. -/
theorem files_bind {α : Type} {f g : FileSystem → Run α}
    (h : ∀ fs fs', fs.Like R fs' → Parallel R (f fs) (g fs')) :
    Parallel R (files >>= f) (files >>= g) := by
  intro w w' hw
  exact h w.files w'.files hw.files w w' hw

theorem look {α : Type} {f : FileSystem → Except Failure α}
    (h : ∀ fs fs', fs.Like R fs' → f fs = f fs') : Parallel R (look f) (look f) := by
  unfold Site.look
  apply files_bind
  intro fs fs' hfs
  rw [h fs fs' hfs]
  cases f fs' with
  | ok a => exact pure a
  | error e => exact throw e

theorem change {f : FileSystem → Except Fault FileSystem} {error : FileError}
    (h : ∀ fs fs', fs.Like R fs' → FileSystem.Changed R (f fs) (f fs')) :
    Parallel R (change f error) (change f error) := by
  unfold Site.change
  apply files_bind
  intro fs fs' hfs
  have hchanged := h fs fs' hfs
  generalize f fs = changed, f fs' = changed' at hchanged ⊢
  cases hchanged with
  | ok like =>
    intro w w' hw
    exact ⟨rfl, like, hw.log⟩
  | error fault => exact throw _

end Parallel

theorem resetOutput_parallel (output : Path) :
    Parallel R (resetOutput output) (resetOutput output) := by
  unfold resetOutput
  apply Parallel.files_bind
  intro fs fs' h
  have hmake : Parallel R (change (·.makeDirectories output) (.create output))
      (change (·.makeDirectories output) (.create output)) :=
    .change fun _ _ h => h.makeDirectories output
  rw [h.isDirectory]
  split
  · refine .bind (.bind ?_ fun _ => ?_) fun _ => hmake
    · exact .change fun _ _ h => h.clearDirectory output
    · exact .change fun _ _ h => h.removeDirectory output
  · exact hmake

theorem scanSources_parallel (plan : Plan) (sources : List Path) :
    Parallel R (scanSources plan sources) (scanSources plan sources) := by
  unfold scanSources
  refine .bind (.look fun fs fs' h => by rw [h.resolveLenient]) fun base => ?_
  apply Parallel.files_bind
  intro fs fs' h
  rw [Scan.sources_like h]
  refine .bind (.report _) fun _ => ?_
  split
  · exact .pure _
  · exact .throw _

theorem parseFiles_parallel {plan : Plan}
    (hread : ∀ {l a b}, R l a b → ∀ file,
      declarationsOf plan.audience file a = declarationsOf plan.audience file b)
    (sources found : List Path) :
    Parallel R (parseFiles plan sources found) (parseFiles plan sources found) := by
  induction found with
  | nil => exact .pure _
  | cons file rest ih =>
    refine .bind (.look fun fs fs' h => parseFile_like h hread sources _ file) fun p => ?_
    exact .bind (.report _) fun _ => .bind ih fun _ => .pure _

section

variable (hrefl : ∀ l a, R l a a)
include hrefl

theorem writeFile_parallel (file : Path) (text : String) :
    Parallel R (writeFile file text) (writeFile file text) := by
  refine .bind (.change fun _ _ h => h.makeDirectories _) fun _ => ?_
  exact .change fun _ _ h => h.write hrefl file _

theorem writePages_parallel (map : ClassMap) (output : Path) (files : List ParsedFile) :
    Parallel R (writePages map output files) (writePages map output files) := by
  induction files with
  | nil => exact .pure _
  | cons f rest ih =>
    refine .bind ?_ fun _ => ih
    unfold writePage
    split
    · exact .pure _
    · refine .bind (.look fun fs fs' h => by rw [Link.toSource_like h]) fun link => ?_
      exact .bind (.report _) fun _ => writeFile_parallel hrefl _ _

theorem publish_parallel (plan : Plan) (output : Path) (now : Moment) (parsed : List ParsedFile) :
    Parallel R (publish plan output now parsed) (publish plan output now parsed) := by
  refine .bind (.report _) fun _ => .bind (writePages_parallel hrefl _ output parsed) fun _ => ?_
  exact .bind (.report _) fun _ => .bind (writeFile_parallel hrefl _ _) fun _ => .pure _

end

end Site

end PhpPages

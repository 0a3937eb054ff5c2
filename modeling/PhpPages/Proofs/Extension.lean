import PhpPages.Proofs.Guard

namespace PhpPages

namespace Path

theorem ofText_anchor {anchor : Anchor} {rest : String} (h : rest.toList.head? ≠ some '/') :
    Path.ofText (anchor.text ++ rest) = ⟨anchor, Path.textSegments rest⟩ := by
  have hrest : rest.toList.takeWhile (· = '/') = [] := by
    cases hr : rest.toList with
    | nil => rfl
    | cons c cs =>
      have hne : c ≠ '/' := by simpa [hr] using h
      simp [hne]
  cases anchor with
  | relative => simp [Path.ofText, Anchor.text, hrest]
  | root =>
    have hsegments := Path.textSegments_append_slash "" rest
    rw [String.empty_append] at hsegments
    have hempty : Path.textSegments "" = [] := by decide
    simp [Path.ofText, Anchor.text, hrest, hsegments, hempty]
  | doubleRoot =>
    have hsegments := Path.textSegments_append_slash "/" rest
    have hslash : Path.textSegments "/" = [] := by decide
    have htwo : ("/" : String) ++ "/" = "//" := by decide
    rw [htwo] at hsegments
    simp [Path.ofText, Anchor.text, hrest, hsegments, hslash]

/-- The text of a path that was read is read as the same path. -/
theorem ofText_text (t : String) : Path.ofText (Path.ofText t).text = Path.ofText t := by
  have hd : ∀ s ∈ (Path.ofText t).segments, Segments.isDropped s = false :=
    fun s hs => (mem_textSegments hs).1
  unfold Path.text
  split
  · rename_i hempty
    simp only [Bool.and_eq_true, decide_eq_true_eq, List.isEmpty_iff] at hempty
    have hdot : Path.ofText "." = ⟨.relative, []⟩ := by decide
    rw [hdot]
    cases hp : Path.ofText t
    simp_all
  · rw [ofText_anchor (head_intercalate hd ofText_noSlash), textSegments_join hd ofText_noSlash]

end Path

namespace FileSystem

/-- Directories and files were added. -/
structure Extends (fs fs' : FileSystem) : Prop where
  here : fs'.here = fs.here
  kept : ∀ x e, fs.entry? x = some e → fs'.entry? x = some e
  links : ∀ x, fs'.linkAt? x = fs.linkAt? x

variable {fs fs' : FileSystem}

theorem Extends.trans {fs'' : FileSystem} (h : Extends fs fs') (h' : Extends fs' fs'') :
    Extends fs fs'' :=
  ⟨h'.here.trans h.here, fun x e he => h'.kept x e (h.kept x e he),
    fun x => (h'.links x).trans (h.links x)⟩

theorem Grown.extends {l : Location} (h : Grown fs fs' l) : Extends fs fs' := by
  refine ⟨h.here, h.kept, fun x => ?_⟩
  rcases h.entries x with hx | ⟨hnone, _, hdir⟩
  · simp only [linkAt?, hx]
  · rw [linkAt?_directory hdir, linkAt?, hnone]

theorem Stands.extend (h : Extends fs fs') {l : Location} (hl : fs.Stands l) : fs'.Stands l := by
  obtain ⟨e, he, hn⟩ := hl
  exact ⟨e, h.kept l e he, hn⟩

theorem Leads.extend (h : Extends fs fs') {strict : Bool} {l m : Location} {ps : List String}
    {us : List Location} (hl : Leads fs strict l ps m us) : Leads fs' strict l ps m us := by
  induction hl with
  | done l => exact .done l
  | stay dropped _ ih => exact .stay dropped ih
  | up _ ih => exact .up ih
  | name named plain stands _ ih =>
    exact .name named ((h.links _).trans plain) (fun hs => (stands hs).extend h) ih
  | link named found _ _ ihi ihr => exact .link named ((h.links _).trans found) ihi ihr

theorem Extends.startOf (h : Extends fs fs') (p : Path) : fs'.startOf p = fs.startOf p := by
  simp only [FileSystem.startOf, h.here]

theorem Denotes.extend (h : Extends fs fs') {p : Path} {l : Location} (hp : fs.Denotes p l) :
    fs'.Denotes p l := by
  obtain ⟨start, us, hs, hl⟩ := hp
  exact ⟨start, us, (h.startOf p).trans hs, hl.extend h⟩

theorem resolveStrict_extend (h : Extends fs fs') {p : Path} {l : Location}
    (hs : ∀ s ∈ p.segments, '/' ∉ s.toList) (hp : fs.resolveStrict p = .ok l) :
    fs'.resolveStrict p = .ok l := by
  obtain ⟨start, us, hstart, hl⟩ := (resolveStrict_iff hs).mp hp
  exact (resolveStrict_iff hs).mpr ⟨start, us, (h.startOf p).trans hstart, hl.extend h⟩

end FileSystem

/-- A path that was accepted is found where it stands inside the same root. -/
theorem Boundary.check_found {fs fs' : FileSystem} {path root label : String} {p : Path}
    {location l : Location} (h : check fs path root label = .ok p)
    (hroot : fs'.resolveStrict (Path.ofText root) = .ok location)
    (hl : fs'.resolveStrict (Path.ofText (candidateFor location path)) = .ok l)
    (hin : Segments.isWithin (Path.at l).text (Path.at location).text = true) :
    check fs' path root label = .ok (Path.at l) := by
  unfold check at h ⊢
  split at h
  · cases h
  rename_i hempty
  split at h
  · cases h
  rename_i hnull
  have hadmits :
      Request.admits ⟨label, path, candidateFor location path, location⟩ (Path.at l) = true := hin
  rw [if_neg hempty, if_neg hnull, hroot]
  simp only [Request.judge, hl, bind, Except.bind, hadmits, ↓reduceIte]

theorem mapM_ok_of_imp {ε α β : Type} {f g : α → Except ε β} {l : List α} {r : List β}
    (h : l.mapM f = .ok r) (himp : ∀ a ∈ l, ∀ b, f a = .ok b → g a = .ok b) : l.mapM g = .ok r := by
  induction l generalizing r with
  | nil => exact h
  | cons a l ih =>
    simp only [List.mapM_cons, bind_eq_ok] at h ⊢
    obtain ⟨b, hb, bs, hbs, hr⟩ := h
    exact ⟨b, himp a (by simp) b hb, bs, ih hbs fun a ha => himp a (by simp [ha]), hr⟩

namespace Site

variable {fs fs' : FileSystem} {plan : Plan}

/-- The root and the configured paths of a plan can be followed. -/
structure Traceable (fs : FileSystem) (plan : Plan) : Prop where
  root : ∃ l, fs.Denotes plan.root l
  output : Followable fs plan plan.output
  sources : ∀ path ∈ plan.sources, Followable fs plan path

theorem place_extend (hw : fs.WellFormed) (h : FileSystem.Extends fs fs') {path label : String}
    {p : Path} (hf : Followable fs plan path) (hp : place fs plan path label = .ok p) :
    place fs' plan path label = .ok p := by
  unfold Followable at hf
  unfold place at hp ⊢
  cases hu : plan.unchecked with
  | true =>
    simp only [hu, ↓reduceIte, absolute] at hf hp ⊢
    obtain ⟨l, hl⟩ := hf
    rw [hl.resolveLenient] at hp
    rw [(hl.extend h).resolveLenient]
    exact hp
  | false =>
    simp only [hu, Bool.false_eq_true, ↓reduceIte, mapError_eq_ok] at hf hp ⊢
    obtain ⟨root, l, hroot, hl⟩ := hf
    obtain ⟨_, hacc⟩ := Boundary.check_accepted hw hroot hp
    cases hacc with
    | existing found inside =>
      exact Boundary.check_found hp (FileSystem.resolveStrict_extend h Path.ofText_noSlash hroot)
        (FileSystem.resolveStrict_extend h Path.ofText_noSlash found) inside
    | missing absent =>
      rw [hl] at absent
      cases absent

/-- A run finds its places where they were, if it does so with the output directory. -/
theorem prepare_extend (hw : fs.WellFormed) (h : FileSystem.Extends fs fs') {s : Settings}
    {output : Path} {sources : List Path} (hroot : ∃ l, fs.Denotes plan.root l)
    (hsources : ∀ path ∈ plan.sources, Followable fs plan path)
    (houtput : place fs' plan plan.output "Output path" = .ok output)
    (hp : prepare fs s = .ok (plan, output, sources)) :
    prepare fs' s = .ok (plan, output, sources) := by
  obtain ⟨hproblems, hhere, hplan, hplaces, hguard⟩ := prepare_iff.mp hp
  have hplaces' : places fs' plan = .ok (output, sources) := by
    simp only [places, bind_eq_ok] at hplaces ⊢
    obtain ⟨o, ho, ss, hss, hret⟩ := hplaces
    cases hret
    refine ⟨output, houtput, sources, ?_, rfl⟩
    apply mapM_ok_of_imp hss
    intro path hpath p hp
    exact place_extend hw h (hsources path hpath) hp
  have hguard' : guardOutput fs' plan output sources = .ok () := by
    obtain ⟨root, hlenient, hrest⟩ := guardOutput_ok.mp hguard
    obtain ⟨l, hl⟩ := hroot
    cases hl.resolveLenient.symm.trans hlenient
    exact guardOutput_ok.mpr ⟨_, (hl.extend h).resolveLenient, hrest⟩
  refine prepare_iff.mpr ⟨hproblems, ?_, ?_, hplaces', hguard'⟩
  · rw [h.here]
    exact hhere
  · rw [h.here]
    exact hplan

end Site

end PhpPages

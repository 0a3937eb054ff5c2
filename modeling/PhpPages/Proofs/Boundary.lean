import PhpPages.Boundary
import PhpPages.Proofs.Resolution

namespace PhpPages.Boundary

open Text

/-- The names of a location when its text is read with backslashes as slashes and without dots. -/
def reread (l : Location) : List String :=
  Segments.collapse (pieces '/' (Segments.slashed (Path.at l).text))

theorem isPlain_reread {l : Location} (hz : ∀ n ∈ l, '\x00' ∉ n.toList) :
    ∀ n ∈ reread l, IsPlain n := by
  intro n hn
  obtain ⟨hm, hd, hu⟩ := Segments.mem_collapse hn
  obtain ⟨hs, hc⟩ := mem_pieces hm
  refine ⟨⟨hd, hu, hs, fun h => ?_⟩, fun h => Segments.not_mem_slashed _ (hc _ h)⟩
  -- A null character in the result would have stood in the text.
  exact Path.not_mem_text_at (by decide) hz (Segments.mem_of_mem_slashed (by decide) (hc _ h))

theorem reread_plain {l : Location} (h : ∀ n ∈ l, IsPlain n) : reread l = l := by
  have hn : ∀ n ∈ l, IsName n := fun n hm => (h n hm).toIsName
  rw [reread,
    Segments.slashed_of_not_mem (Path.not_mem_text_at (by decide) fun n hm => (h n hm).noBackslash),
    ← Path.collapse_textSegments, Path.textSegments_at hn, Segments.collapse_names hn]

theorem normalize?_at (l : Location) :
    Segments.normalize? (Path.at l).text = some (Path.at (reread l)).text :=
  Segments.normalize?_root (Path.startsAtRoot_at l)

/-- The text of a location can be normalized, and the result is read as the reread names. -/
theorem normalize_at {l : Location} (hz : ∀ n ∈ l, '\x00' ∉ n.toList) :
    ∃ t, normalize (Path.at l).text = .ok t ∧ Path.ofText t = Path.at (reread l) := by
  refine ⟨(Path.at (reread l)).text, ?_,
    Path.ofText_at fun n hn => (isPlain_reread hz n hn).toIsName⟩
  unfold normalize
  rw [normalize?_at]

/-- How a missing path is judged by the ancestors with fewer than `k` segments, when the one with
`k` is missing. -/
theorem viaAncestor_range {r : Request} {fs : FileSystem} {normalized p : Path} {k : Nat}
    {shown : Path} (hk : k ≤ (Path.ofText r.candidate).segments.length)
    (hnext : fs.resolveStrict
      ⟨(Path.ofText r.candidate).anchor, (Path.ofText r.candidate).segments.take k⟩ =
        .error (.missing shown))
    (h : r.viaAncestor fs normalized
      ((List.range k).reverse.map fun n =>
        ⟨(Path.ofText r.candidate).anchor, (Path.ofText r.candidate).segments.take n⟩) = .ok p) :
    (∃ shown, fs.resolveStrict ⟨(Path.ofText r.candidate).anchor, []⟩ = .error (.missing shown)) ∨
    ∃ j loc shown, j < k ∧
      fs.resolveStrict ⟨(Path.ofText r.candidate).anchor,
        (Path.ofText r.candidate).segments.take j⟩ = .ok loc ∧
      r.admits (Path.at loc) = true ∧
      fs.resolveStrict ⟨(Path.ofText r.candidate).anchor,
        (Path.ofText r.candidate).segments.take (j + 1)⟩ = .error (.missing shown) ∧
      ∃ t, normalize (Path.at (loc ++ (Path.ofText r.candidate).segments.drop j)).text = .ok t ∧
        p = Path.ofText t := by
  induction k generalizing shown with
  | zero => exact .inl ⟨shown, by simpa using hnext⟩
  | succ k ih =>
    rw [List.range_succ, List.reverse_append, List.reverse_singleton, List.singleton_append,
      List.map_cons, Request.viaAncestor] at h
    split at h
    · rename_i shown' hmissing
      rcases ih (by omega) hmissing h with hl | ⟨j, loc, s, hj, hrest⟩
      · exact .inl hl
      · exact .inr ⟨j, loc, s, by omega, hrest⟩
    · simp at h
    · rename_i loc hloc
      have hlen : ((Path.ofText r.candidate).segments.take k).length = k := by
        rw [List.length_take]
        omega
      rw [hlen] at h
      cases hadm : r.admits (Path.at loc) with
      | false => simp [hadm] at h
      | true =>
        simp only [hadm, Bool.not_true, Bool.false_eq_true, ↓reduceIte] at h
        cases hn : normalize (Path.at (loc ++ (Path.ofText r.candidate).segments.drop k)).text with
        | error e => simp [hn, bind, Except.bind] at h
        | ok t =>
          simp only [hn, bind, Except.bind, pure, Except.pure, Except.ok.injEq] at h
          exact .inr ⟨k, loc, shown, by omega, hloc, hadm, hnext, t, hn, h.symm⟩

/-- How a path comes to be accepted: it exists inside the root, or it is missing, what it would
denote is inside, and so is the nearest ancestor that exists. -/
inductive Accepted (fs : FileSystem) (root : Location) (candidate : Path) : Path → Prop where
  | existing {l : Location} (found : fs.resolveStrict candidate = .ok l)
      (inside : Segments.isWithin (Path.at l).text (Path.at root).text = true) :
      Accepted fs root candidate (Path.at l)
  | missing {l followed : Location} {j : Nat} {shown shown' : Path}
      (absent : fs.resolveStrict candidate = .error (.missing shown'))
      (short : j < candidate.segments.length)
      (found : fs.resolveStrict ⟨candidate.anchor, candidate.segments.take j⟩ = .ok l)
      (inside : Segments.isWithin (Path.at l).text (Path.at root).text = true)
      (next : fs.resolveStrict ⟨candidate.anchor, candidate.segments.take (j + 1)⟩ =
        .error (.missing shown))
      (leads : fs.resolveLenient candidate = .ok followed)
      (leadsInside : Segments.isWithin (Path.at followed).text (Path.at root).text = true)
      (readInside : Segments.isWithin (Path.at (reread (l ++ candidate.segments.drop j))).text
        (Path.at root).text = true) :
      Accepted fs root candidate (Path.at (reread (l ++ candidate.segments.drop j)))

theorem judgeMissing_accepted {r : Request} {fs : FileSystem} {p shown : Path} (hw : fs.WellFormed)
    (hz : '\x00' ∉ r.candidate.toList)
    (hmissing : fs.resolveStrict (Path.ofText r.candidate) = .error (.missing shown))
    (h : r.judgeMissing fs = .ok p) (hin : r.admits p = true) :
    Accepted fs r.root (Path.ofText r.candidate) p := by
  have hseg := Path.ofText_segments hz
  unfold Request.judgeMissing at h
  cases hn : normalize r.candidate with
  | error e => simp [hn, bind, Except.bind] at h
  | ok t =>
    simp only [hn, bind, Except.bind] at h
    split at h
    · simp at h
    · rename_i followed hfollowed
      split at h
      · simp at h
      · rename_i hfind
        have hadm : r.admits (Path.at followed) = true := by
          have hall := List.find?_eq_none.mp hfind (Path.at followed) (by simp)
          simpa using hall
        obtain ⟨start, hstart⟩ := FileSystem.startOf_of_resolveLenient hfollowed
        have hfull : fs.resolveStrict ⟨(Path.ofText r.candidate).anchor,
            (Path.ofText r.candidate).segments.take (Path.ofText r.candidate).segments.length⟩ =
              .error (.missing shown) := by
          rw [List.take_length]
          exact hmissing
        rcases viaAncestor_range (Nat.le_refl _) hfull h with
          ⟨s, hs⟩ | ⟨j, l, s, hj, hl, hladm, hnext, t, ht, rfl⟩
        · rw [FileSystem.resolveStrict_start hstart] at hs
          cases hs
        · have hzl : ∀ n ∈ l ++ (Path.ofText r.candidate).segments.drop j, '\x00' ∉ n.toList := by
            intro n hm
            rcases List.mem_append.mp hm with hm | hm
            · have hslash : ∀ s ∈ (Path.ofText r.candidate).segments.take j, '/' ∉ s.toList :=
                fun s hs => (hseg s (List.mem_of_mem_take hs)).1
              exact ((FileSystem.resolveStrict_denotes hw hslash hl).2.names hw n hm).noNull
            · exact (hseg n (List.mem_of_mem_drop hm)).2
          obtain ⟨t', ht', hread⟩ := normalize_at hzl
          rw [ht, Except.ok.injEq] at ht'
          rw [ht', hread] at hin ⊢
          exact .missing hmissing hj hl hladm hnext hfollowed hadm hin

theorem judge_accepted {r : Request} {fs : FileSystem} {p : Path} (hw : fs.WellFormed)
    (hz : '\x00' ∉ r.candidate.toList) (h : r.judge fs = .ok p) :
    Accepted fs r.root (Path.ofText r.candidate) p := by
  unfold Request.judge at h
  cases hs : fs.resolveStrict (Path.ofText r.candidate) with
  | ok l =>
    simp only [hs, bind, Except.bind] at h
    split at h
    · rename_i hin
      cases h
      exact .existing hs hin
    · cases h
  | error e =>
    cases e with
    | missing shown =>
      simp only [hs, bind, Except.bind] at h
      split at h
      · cases h
      · rename_i p' hmissing
        split at h
        · rename_i hin
          cases h
          exact judgeMissing_accepted hw hz hs hmissing hin
        · cases h
    | notDirectory | loop | nullCharacter => simp [hs, bind, Except.bind] at h

theorem not_mem_candidateFor {c : Char} (hc : c ≠ '/') {root : Location} {path : String}
    (hr : ∀ n ∈ root, c ∉ n.toList) (hp : c ∉ path.toList) :
    c ∉ (candidateFor root path).toList := by
  unfold candidateFor
  split
  · exact hp
  · have hroot := Path.not_mem_text_at hc hr
    simp only [String.toList_append, List.mem_append, not_or, dropTrailing, dropLeading,
      String.toList_ofList, List.mem_reverse]
    refine ⟨⟨fun h => hroot ?_, by simpa using hc⟩, fun h => hp ?_⟩
    · exact List.mem_reverse.mp ((List.dropWhile_sublist _).subset h)
    · exact (List.dropWhile_sublist _).subset h

/-- A path is returned only if it is accepted. -/
theorem check_accepted {fs : FileSystem} {path root label : String} {location : Location} {p : Path}
    (hw : fs.WellFormed) (hroot : fs.resolveStrict (Path.ofText root) = .ok location)
    (h : check fs path root label = .ok p) :
    (∀ s ∈ (Path.ofText (candidateFor location path)).segments, '\x00' ∉ s.toList) ∧
      Accepted fs location (Path.ofText (candidateFor location path)) p := by
  unfold check at h
  split at h
  · cases h
  split at h
  · cases h
  rename_i hz
  have hz : '\x00' ∉ path.toList := by simpa using hz
  simp only [hroot] at h
  have hstands := (FileSystem.resolveStrict_denotes hw Path.ofText_noSlash hroot).2
  have hnull := not_mem_candidateFor (by decide) (fun n hn => (hstands.names hw n hn).noNull) hz
  split at h
  · rename_i q hq
    cases h
    refine ⟨fun s hs hm => hnull ((Path.mem_textSegments hs).2.2 _ hm), ?_⟩
    exact judge_accepted (r := ⟨label, path, candidateFor location path, location⟩) hw hnull hq
  · cases h

/-- Nothing is returned for a root that is not there. -/
theorem check_root {fs : FileSystem} {path root label : String} {p : Path}
    (h : check fs path root label = .ok p) :
    ∃ location, fs.resolveStrict (Path.ofText root) = .ok location := by
  unfold check at h
  split at h
  · cases h
  split at h
  · cases h
  split at h
  · cases h
  · cases h
  · rename_i location hroot
    exact ⟨location, hroot⟩

theorem Accepted.names {fs : FileSystem} (hw : fs.WellFormed) {root : Location} {candidate p : Path}
    (hs : ∀ s ∈ candidate.segments, '/' ∉ s.toList)
    (hz : ∀ s ∈ candidate.segments, '\x00' ∉ s.toList) (h : Accepted fs root candidate p) :
    ∃ l, p = Path.at l ∧ ∀ n ∈ l, IsName n := by
  cases h with
  | @existing l found =>
    exact ⟨l, rfl, (FileSystem.resolveStrict_denotes hw hs found).2.names hw⟩
  | @missing l _ j _ _ _ _ found =>
    refine ⟨_, rfl, fun n hn => (isPlain_reread (fun n hn => ?_) n hn).toIsName⟩
    rcases List.mem_append.mp hn with hn | hn
    · have hl :=
        (FileSystem.resolveStrict_denotes hw (fun s h => hs s (List.mem_of_mem_take h)) found).2
      exact (hl.names hw n hn).noNull
    · exact hz n (List.mem_of_mem_drop hn)

theorem trim_at (l : Location) : (trim (Path.at l).text).isEmpty = false := by
  have hb : isBlank '/' = false := by decide
  have hne : trimChars (Path.at l).text.toList ≠ [] := by
    intro h
    rw [Path.toList_text_at, trimChars, List.dropWhile_cons_of_neg (by simp [hb]),
      dropEndWhile] at h
    simp only [List.reverse_cons, List.dropWhile_append] at h
    split at h <;> simp [hb] at h
  simpa [trim] using hne

/-- A location given by its text is judged as it is. -/
theorem check_at {fs : FileSystem} {root label : String} {location l : Location} {p : Path}
    (hroot : fs.resolveStrict (Path.ofText root) = .ok location) (hz : ∀ n ∈ l, '\x00' ∉ n.toList)
    (h : Request.judge ⟨label, (Path.at l).text, (Path.at l).text, location⟩ fs = .ok p) :
    check fs (Path.at l).text root label = .ok p := by
  have habs : Segments.isAbsolute (Path.at l).text = true := by
    unfold Segments.isAbsolute
    rw [Path.toList_text_at]
    rfl
  have hcand : candidateFor location (Path.at l).text = (Path.at l).text := if_pos habs
  have hnull : (Path.at l).text.toList.contains '\x00' = false := by
    simpa using Path.not_mem_text_at (by decide) hz
  unfold check
  rw [trim_at, if_neg (by decide), hnull, if_neg (by decide)]
  simp only [hroot, hcand, h]

theorem check_standing {fs : FileSystem} (hw : fs.WellFormed) {root label : String}
    {location l : Location} (hroot : fs.resolveStrict (Path.ofText root) = .ok location)
    (hl : fs.Stands l) (hin : Segments.isWithin (Path.at l).text (Path.at location).text = true) :
    check fs (Path.at l).text root label = .ok (Path.at l) := by
  apply check_at hroot fun n hn => (hl.names hw n hn).noNull
  have hs : fs.resolveStrict (Path.ofText (Path.at l).text) = .ok l := by
    rw [Path.ofText_at (hl.names hw)]
    exact FileSystem.resolveStrict_at hw hl
  unfold Request.judge
  simp only [hs, bind, Except.bind]
  exact if_pos hin

theorem ancestorsOf_snoc (l : Location) (n : String) :
    ∃ further, Request.ancestorsOf (Path.at (l ++ [n])) = Path.at l :: further := by
  simp [Request.ancestorsOf, Path.at, List.range_succ]

/-- A missing name in the root is judged by the root, which is its nearest ancestor. -/
theorem judgeMissing_free {r : Request} {fs : FileSystem} {n t : String}
    (hc : r.candidate = (Path.at (r.root ++ [n])).text) (hn : ∀ k ∈ r.root ++ [n], IsName k)
    (ht : normalize r.candidate = .ok t) (hroot : fs.resolveStrict (Path.at r.root) = .ok r.root)
    (hlen : fs.resolveLenient (Path.at (r.root ++ [n])) = .ok (r.root ++ [n]))
    (hadm : r.admits (Path.ofText t) = true) (hown : r.admits (Path.at (r.root ++ [n])) = true) :
    r.judgeMissing fs = .ok (Path.ofText t) := by
  have hpath : Path.ofText r.candidate = Path.at (r.root ++ [n]) := by rw [hc, Path.ofText_at hn]
  have hself : r.admits (Path.at r.root) = true := Segments.isWithin_refl _
  obtain ⟨further, hfurther⟩ := ancestorsOf_snoc r.root n
  have hdrop : (Path.at (r.root ++ [n])).segments.drop (Path.at r.root).segments.length = [n] := by
    simp [Path.at]
  unfold Request.judgeMissing
  simp only [ht, bind, Except.bind, hpath, hlen, List.find?_cons, List.find?_nil, hadm, hown,
    Bool.not_true, hfurther, Request.viaAncestor, hroot, hself, hdrop]
  rw [← hc, ht]
  rfl

/-- A free name in the root is accepted if it reads as lying in the root, and then it is
returned as read. -/
theorem check_free {fs : FileSystem} (hw : fs.WellFormed) {root label : String}
    {location : Location} {n : String} (hroot : fs.resolveStrict (Path.ofText root) = .ok location)
    (hne : location ≠ []) (hd : fs.entry? location = some .directory) (hn : IsName n)
    (hfree : fs.entry? (location ++ [n]) = none)
    (hin : Segments.isWithin (Path.at (reread (location ++ [n]))).text (Path.at location).text =
      true) :
    check fs (Path.at (location ++ [n])).text root label =
      .ok (Path.at (reread (location ++ [n]))) := by
  have hnames : ∀ k ∈ location ++ [n], IsName k := forall_mem_snoc (hw.named hd) hn
  have hz : ∀ k ∈ location ++ [n], '\x00' ∉ k.toList := fun k hk => (hnames k hk).noNull
  have hstands := FileSystem.stands_directory hd
  have hlinkFree : fs.LinkFree (location ++ [n]) :=
    (hstands.linkFree hw).snoc (by simp [FileSystem.linkAt?, hfree])
  obtain ⟨shown, hs⟩ := FileSystem.resolveStrict_free hw hd hn hfree
  obtain ⟨t, ht, hread⟩ := normalize_at hz
  have hown :
      Segments.isWithin (Path.at (location ++ [n])).text (Path.at location).text = true := by
    rw [Path.text_snoc hne]
    exact Segments.isWithin_append_slash _ _
  apply check_at hroot hz
  generalize hr : Request.mk label (Path.at (location ++ [n])).text (Path.at (location ++ [n])).text
    location = r
  obtain ⟨rfl, hc⟩ : r.root = location ∧ r.candidate = (Path.at (location ++ [n])).text := by
    rw [← hr]
    exact ⟨rfl, rfl⟩
  have hadm : r.admits (Path.ofText t) = true := by
    rw [hread]
    exact hin
  have hmissing := judgeMissing_free hc hnames (hc ▸ ht) (FileSystem.resolveStrict_at hw hstands)
    (hlinkFree.denotes hnames).resolveLenient hadm hown
  unfold Request.judge
  rw [hc, Path.ofText_at hnames]
  simp only [hs, hmissing, bind, Except.bind]
  rw [← hread]
  exact if_pos hadm

end PhpPages.Boundary

import PhpPages.Proofs.Routes

namespace PhpPages.Link

open Text

theorem intercalate_snoc (dirs : List String) :
    ∃ front : String, ∀ n, "/".intercalate (dirs ++ [n]) = front ++ n := by
  by_cases hd : dirs = []
  · exact ⟨"", fun n => by simp [hd]⟩
  · refine ⟨"/".intercalate dirs ++ "/", fun n => ?_⟩
    rw [String.intercalate_append_of_ne_nil hd (by simp)]
    simp

theorem last_intercalate {dirs : List String} {n : String}
    (hs : ∀ d ∈ dirs ++ [n], '/' ∉ d.toList) :
    Slashed.last ("/".intercalate (dirs ++ [n])) = n := by
  have hp := pieces_intercalate (by simp) hs
  simp [Slashed.last, lastPiece_eq, hp]

/-- Only the last segment has a stem. -/
theorem stem_intercalate {dirs : List String} {n : String}
    (hs : ∀ d ∈ dirs ++ [n], '/' ∉ d.toList) :
    Slashed.stem ("/".intercalate (dirs ++ [n])) = "/".intercalate (dirs ++ [Slashed.stem n]) := by
  have hlast : Slashed.last n = n := by
    have hn : ∀ d ∈ ([] : List String) ++ [n], '/' ∉ d.toList := by simpa using hs n (by simp)
    simpa using last_intercalate hn
  obtain ⟨front, hfront⟩ := intercalate_snoc dirs
  unfold Slashed.stem
  rw [last_intercalate hs, hlast, hfront, hfront]
  split
  · rename_i hdot
    have hmem : '.' ∈ n.toList := by
      have := List.contains_iff_mem.mp hdot
      exact (List.dropWhile_sublist _).subset this
    have hstop : ∃ c ∈ n.toList, (fun c => decide (c ≠ '.')) c = false := ⟨'.', hmem, by simp⟩
    apply String.toList_inj.mp
    rw [String.toList_append, dropEndWhile_append hstop,
      List.dropLast_append_of_ne_nil (dropEndWhile_ne_nil hstop)]
    simp
  · rfl

theorem pageOf_intercalate {dirs : List String} {n : String}
    (hs : ∀ d ∈ dirs ++ [n], '/' ∉ d.toList) :
    pageOf ("/".intercalate (dirs ++ [n])) =
      "/".intercalate (dirs ++ [Slashed.stem n ++ pageEnding]) := by
  obtain ⟨front, hfront⟩ := intercalate_snoc dirs
  rw [pageOf, stem_intercalate hs, hfront, hfront, String.append_assoc]

theorem mem_stem {c : Char} {n : String} (h : c ∈ (Slashed.stem n).toList) : c ∈ n.toList := by
  unfold Slashed.stem at h
  split at h
  · rw [String.toList_ofList] at h
    have hm := (List.dropLast_sublist _).subset h
    rw [dropEndWhile, List.mem_reverse] at hm
    exact List.mem_reverse.mp ((List.dropWhile_sublist _).subset hm)
  · exact h

theorem isName_page {n : String} (hs : '/' ∉ n.toList) (hz : '\x00' ∉ n.toList) :
    IsName (Slashed.stem n ++ pageEnding) := by
  have hmd :
      (Slashed.stem n ++ pageEnding).toList = (Slashed.stem n).toList ++ ['.', 'm', 'd'] := by
    rw [String.toList_append]
    rfl
  have hm : 'm' ∈ (Slashed.stem n ++ pageEnding).toList := by simp [hmd]
  refine ⟨?_, ?_, ?_, ?_⟩
  · cases hd : Segments.isDropped (Slashed.stem n ++ pageEnding) with
    | false => rfl
    | true =>
      simp only [Segments.isDropped, Bool.or_eq_true, String.isEmpty_iff, beq_iff_eq] at hd
      rcases hd with hd | hd <;> simp [hd] at hm
  · intro hu
    simp [hu] at hm
  · rw [hmd]
    simp only [List.mem_append, not_or]
    exact ⟨fun h => hs (mem_stem h), by decide⟩
  · rw [hmd]
    simp only [List.mem_append, not_or]
    exact ⟨fun h => hz (mem_stem h), by decide⟩

/-- A path of a page: it is relative, each of its segments goes down, and it has the
ending of pages. -/
structure IsPagePath (page : String) : Prop where
  segments : ∀ s ∈ pieces '/' page, Segments.isDropped s = false ∧ s ≠ ".."
  ending : pageEnding.toList <:+ page.toList

instance : DecidablePred IsPagePath := fun page =>
  decidable_of_iff ((∀ s ∈ pieces '/' page, Segments.isDropped s = false ∧ s ≠ "..") ∧
      pageEnding.toList.isSuffixOf page.toList = true)
    ⟨fun ⟨a, b⟩ => ⟨a, List.isSuffixOf_iff_suffix.mp b⟩,
      fun h => ⟨h.segments, List.isSuffixOf_iff_suffix.mpr h.ending⟩⟩

/-- Where a link on a page leads: its segments are walked from the directory of the page. A walk
beyond the directory of all pages leads nowhere. -/
def target? (page link : String) : Option String :=
  let segments := (pieces '/' page).dropLast ++ pieces '/' link
  if Segments.climbs 0 segments then none else some ("/".intercalate (Segments.collapse segments))

theorem withoutEnding_append (s ending : String) :
    Slashed.withoutEnding ending (s ++ ending) = s := by
  have hs : ending.toList.isSuffixOf (s ++ ending).toList = true := by
    simp [List.isSuffixOf_iff_suffix]
  rw [Slashed.withoutEnding, if_pos hs]
  apply String.toList_inj.mp
  simp [← String.length_toList]

/-- The directory of a text that has a name behind a slash is what stands before the slash. -/
theorem directory_append {a n : String} {cs : List Char} {c : Char} (ha : a.toList = cs ++ [c])
    (hc : c ≠ '/') (hn : '/' ∉ n.toList) : Slashed.directory (a ++ "/" ++ n) = a := by
  have hname : ∀ x ∈ n.toList, (fun c => decide (c ≠ '/')) x = true := by
    intro x hx
    simpa using fun e : x = '/' => hn (e ▸ hx)
  have hall : (a ++ "/" ++ n).toList = a.toList ++ ['/'] ++ n.toList := by simp
  have hsome : (cs ++ [c] ++ ['/']).all (· = '/') = false := by simp [hc]
  apply String.toList_inj.mp
  rw [Slashed.directory, String.toList_ofList, Slashed.directoryChars, hall, dropEndWhile_all hname,
    dropEndWhile_snoc (by simp), ha, hsome, dropEndWhile_all (by simp),
    dropEndWhile_snoc (by simpa using hc)]
  rfl

section

variable {dirs : List String} (hd : ∀ d ∈ dirs, Segments.isDropped d = false ∧ '/' ∉ d.toList)
include hd

theorem segments_intercalate : Slashed.segments ("/".intercalate dirs) = dirs := by
  by_cases hne : dirs = []
  · simp [hne, Slashed.segments]
  · have hp := pieces_intercalate hne fun d h => (hd d h).2
    have htext : ("/".intercalate dirs).isEmpty = false := by
      cases he : ("/".intercalate dirs).isEmpty with
      | false => rfl
      | true =>
        rw [String.isEmpty_iff.mp he, pieces_of_not_mem (by simp)] at hp
        have := (hd "" (by simp [← hp])).1
        simp [Segments.isDropped] at this
    rw [Slashed.segments, htext]
    exact hp

theorem directory_intercalate {name : String} (hn : '/' ∉ name.toList) :
    Slashed.directory ("/".intercalate (dirs ++ [name])) = "/".intercalate dirs := by
  by_cases hne : dirs = []
  · have hname : ∀ c ∈ name.toList, (fun c => decide (c ≠ '/')) c = true := by
      intro c hc
      simpa using fun e : c = '/' => hn (e ▸ hc)
    have htext : ("/".intercalate (dirs ++ [name])).toList = [] ++ name.toList := by simp [hne]
    apply String.toList_inj.mp
    rw [Slashed.directory, String.toList_ofList, Slashed.directoryChars, htext,
      dropEndWhile_all hname, hne]
    rfl
  · obtain ⟨ds, d, rfl⟩ := exists_snoc hne
    obtain ⟨hdrop, hslash⟩ := hd d (by simp)
    -- The last directory ends in a character that is no slash.
    have hdne : d.toList ≠ [] := by
      intro hnil
      rw [String.toList_inj.mp (hnil.trans String.toList_empty.symm)] at hdrop
      simp [Segments.isDropped] at hdrop
    obtain ⟨cs, c, hc⟩ := exists_snoc hdne
    have hcs : c ≠ '/' := fun e => hslash (by simp [hc, e])
    obtain ⟨front, hfront⟩ := intercalate_snoc ds
    have htext : ("/".intercalate (ds ++ [d])).toList = front.toList ++ cs ++ [c] := by
      simp [hfront, hc]
    rw [String.intercalate_append_of_ne_nil hne (by simp), String.intercalate_singleton]
    exact directory_append htext hcs hn

end

/-- The ending of a page path is the ending of its last segment. -/
theorem IsPagePath.pieces {page : String} (h : IsPagePath page) :
    ∃ dirs name, pieces '/' page = dirs ++ [name ++ pageEnding] := by
  obtain ⟨dirs, last, hp⟩ := exists_snoc (pieces_ne_nil '/' page)
  have hend : pageEnding.toList <:+ last.toList := by
    have hending := h.ending
    rw [← intercalate_pieces page, hp] at hending
    by_cases hd : dirs = []
    · simpa [hd] using hending
    · have hslash : '/' :: last.toList <:+ ("/".intercalate (dirs ++ [last])).toList := by
        rw [String.intercalate_append_of_ne_nil hd (by simp)]
        exact ⟨("/".intercalate dirs).toList, by simp⟩
      rcases List.suffix_or_suffix_of_suffix hending hslash with hs | hs
      · rcases List.suffix_cons_iff.mp hs with he | hs
        · cases he
        · exact hs
      · exact absurd (hs.subset (List.mem_cons_self ..)) (by decide)
  obtain ⟨cs, hcs⟩ := hend
  have hlast : last = String.ofList cs ++ pageEnding := by
    apply String.toList_inj.mp
    simp [hcs]
  exact ⟨dirs, String.ofList cs, by rw [hp, hlast]⟩

/-- The directory and the last segment of a page path without its ending. -/
theorem IsPagePath.parts {page name : String} {dirs : List String} (h : IsPagePath page)
    (hp : Text.pieces '/' page = dirs ++ [name ++ pageEnding]) :
    Slashed.segments (Slashed.directory (Slashed.withoutEnding pageEnding page)) = dirs ∧
      Slashed.last (Slashed.withoutEnding pageEnding page) = name := by
  have hpiece :
      ∀ s ∈ dirs ++ [name ++ pageEnding], Segments.isDropped s = false ∧ '/' ∉ s.toList := by
    intro s hs
    rw [← hp] at hs
    exact ⟨(h.segments s hs).1, (mem_pieces hs).1⟩
  have hdirs : ∀ d ∈ dirs, Segments.isDropped d = false ∧ '/' ∉ d.toList :=
    fun d hd => hpiece d (by simp [hd])
  have hname : '/' ∉ name.toList :=
    fun hm => (hpiece (name ++ pageEnding) (by simp)).2 (by simp [hm])
  obtain ⟨front, hfront⟩ := intercalate_snoc dirs
  have hstem : Slashed.withoutEnding pageEnding page = "/".intercalate (dirs ++ [name]) := by
    rw [← intercalate_pieces page, hp, hfront, hfront, ← String.append_assoc, withoutEnding_append]
  rw [hstem, directory_intercalate hdirs hname, segments_intercalate hdirs]
  exact ⟨rfl, last_intercalate (forall_mem_snoc (fun s hs => (hdirs s hs).2) hname)⟩

/-- A relative path all of whose segments go down, with or without the ending of pages. -/
def Descends (page : String) : Prop :=
  ∀ s ∈ pieces '/' page, Segments.isDropped s = false ∧ s ≠ ".."

instance : DecidablePred Descends := fun page =>
  inferInstanceAs (Decidable (∀ s ∈ pieces '/' page, Segments.isDropped s = false ∧ s ≠ ".."))

/-- The directory of a page is made of all its segments but the last. -/
theorem Descends.directory {page : String} (h : Descends page) :
    Slashed.segments (Slashed.directory (Slashed.withoutEnding pageEnding page)) =
      (pieces '/' page).dropLast := by
  by_cases hend : pageEnding.toList <:+ page.toList
  · have hp : IsPagePath page := ⟨h, hend⟩
    obtain ⟨dirs, name, hpieces⟩ := hp.pieces
    rw [(hp.parts hpieces).1, hpieces, List.dropLast_concat]
  · have hkept : Slashed.withoutEnding pageEnding page = page := by
      rw [Slashed.withoutEnding, if_neg]
      rwa [List.isSuffixOf_iff_suffix]
    obtain ⟨dirs, last, hp⟩ := exists_snoc (pieces_ne_nil '/' page)
    have hdirs : ∀ d ∈ dirs, Segments.isDropped d = false ∧ '/' ∉ d.toList := by
      intro d hd
      have hm : d ∈ pieces '/' page := by simp [hp, hd]
      exact ⟨(h d hm).1, (mem_pieces hm).1⟩
    have hlast : '/' ∉ last.toList := (mem_pieces (c := '/') (s := page) (by simp [hp])).1
    rw [hkept, hp, List.dropLast_concat, ← intercalate_pieces page, hp,
      directory_intercalate hdirs hlast, segments_intercalate hdirs]

/-- The link between two pages: up to the directory that they have in common, and down. -/
theorem between_eq {source target : String} (hs : Descends source) (ht : IsPagePath target) :
    ∃ common ups downs name,
      CommonFront common (pieces '/' source).dropLast (pieces '/' target).dropLast ∧
      (pieces '/' source).dropLast = common ++ ups ∧
      pieces '/' target = common ++ (downs ++ [name]) ∧
      between source target = route ups.length downs ++ name := by
  obtain ⟨dirs, name, htarget⟩ := ht.pieces
  obtain ⟨hdirs, hname⟩ := ht.parts htarget
  obtain ⟨common, hfront, hup, hdown⟩ := dropCommon_front (pieces '/' source).dropLast dirs
  refine ⟨common, _, (dropCommon (pieces '/' source).dropLast dirs).2, name ++ pageEnding, ?_,
    hup, ?_, ?_⟩
  · rwa [htarget, List.dropLast_concat]
  · rw [← List.append_assoc, ← hdown, htarget]
  · simp only [between, hs.directory, hdirs, hname, String.append_assoc]

/-- The link from one page to another leads there. -/
theorem between_leads {source target : String} (hs : Descends source) (ht : IsPagePath target) :
    target? source (between source target) = some target := by
  obtain ⟨common, ups, downs, name, _, hsource, htarget, hlink⟩ := between_eq hs ht
  have hmem : ∀ s ∈ downs ++ [name], s ∈ pieces '/' target := by
    intro s hm
    rw [htarget]
    exact List.mem_append_right _ hm
  have hup : ∀ s ∈ common ++ ups, Segments.isDropped s = false ∧ s ≠ ".." := by
    intro s hm
    rw [← hsource] at hm
    exact hs s ((List.dropLast_prefix _).subset hm)
  have hdown : ∀ s ∈ downs ++ [name], Segments.isDropped s = false ∧ s ≠ ".." :=
    fun s hm => ht.segments s (hmem s hm)
  rw [target?, hsource, hlink, pieces_route fun s hm => (mem_pieces (hmem s hm)).1]
  simp only [Segments.climbs_route hup hdown, Segments.collapse_route hup hdown, ← htarget,
    intercalate_pieces, Bool.false_eq_true, ↓reduceIte]

theorem target?_between {source target : String} (hs : IsPagePath source) (ht : IsPagePath target) :
    target? source (between source target) = some target :=
  between_leads hs.segments ht

/-- A link that leads to a page is a walk from the directory it stands in to the
segments of the page. -/
theorem pieces_target {source target link : String} (hs : Descends source) (ht : IsPagePath target)
    (h : target? source link = some target) :
    pieces '/' target = Segments.collapseFrom (pieces '/' source).dropLast.reverse
      (pieces '/' link) := by
  have hdirs : ∀ s ∈ (pieces '/' source).dropLast, Segments.isDropped s = false ∧ s ≠ ".." :=
    fun s hm => hs s ((List.dropLast_prefix _).subset hm)
  dsimp only [target?] at h
  split at h
  · cases h
  have hwalk : Segments.collapse ((pieces '/' source).dropLast ++ pieces '/' link) =
      Segments.collapseFrom (pieces '/' source).dropLast.reverse (pieces '/' link) := by
    rw [Segments.collapse, Segments.collapseFrom_append, Segments.collapseFrom_names hdirs]
    rfl
  rw [← hwalk, ← Option.some.inj h]
  apply pieces_intercalate
  · -- The empty text is no page.
    intro hnil
    rw [hnil] at h
    obtain rfl : target = "" := (Option.some.inj h).symm
    have hdropped := (ht.segments "" (by simp [pieces_of_not_mem])).1
    simp [Segments.isDropped] at hdropped
  · intro s hm
    rcases List.mem_append.mp (Segments.mem_collapse hm).1 with hm | hm
    · exact (mem_pieces ((List.dropLast_prefix _).subset hm)).1
    · exact (mem_pieces hm).1

/-- The link from one page to another leads there. It goes up from the directory of the first page
just as far as the directories that both are in, and never again; and unless the second page is in
the way as a directory, no link that leads there has fewer segments. -/
theorem between_is_shortest {source target : String} (hs : Descends source)
    (ht : IsPagePath target) :
    target? source (between source target) = some target ∧
    (∃ common rest, CommonFront common (pieces '/' source).dropLast (pieces '/' target).dropLast ∧
      between source target =
        String.join (List.replicate ((pieces '/' source).dropLast.length - common.length) "../") ++
          rest ∧
      ".." ∉ pieces '/' rest) ∧
    (¬ pieces '/' target <+: (pieces '/' source).dropLast → ∀ link,
      target? source link = some target →
      (pieces '/' (between source target)).length ≤ (pieces '/' link).length) := by
  obtain ⟨common, ups, downs, name, hfront, hsource, htarget, hlink⟩ := between_eq hs ht
  have hmem : ∀ s ∈ downs ++ [name], s ∈ pieces '/' target := by
    intro s hm
    rw [htarget]
    exact List.mem_append_right _ hm
  have hslash : ∀ s ∈ downs ++ [name], '/' ∉ s.toList := fun s hm => (mem_pieces (hmem s hm)).1
  have hups : (pieces '/' source).dropLast.length = common.length + ups.length := by
    rw [hsource, List.length_append]
  refine ⟨between_leads hs ht, ⟨common, "/".intercalate (downs ++ [name]), hfront, ?_, ?_⟩, ?_⟩
  · rw [hlink, route_eq, hups, Nat.add_sub_cancel_left]
  · rw [pieces_intercalate (by simp) hslash]
    exact fun hm => (ht.segments ".." (hmem ".." hm)).2 rfl
  · intro hinside link htargets
    -- The last segment is not passed on the way, so both ends have nothing more in common.
    have hends : CommonFront common (pieces '/' source).dropLast (pieces '/' target) := by
      have hsplit : pieces '/' target = (pieces '/' target).dropLast ++ [name] := by
        rw [htarget, ← List.append_assoc, List.dropLast_concat]
      rw [hsplit] at hinside ⊢
      exact hfront.snoc hinside
    have hwalk := length_le_walk (pieces '/' source).dropLast.reverse (pieces '/' link)
    rw [← pieces_target hs ht htargets, List.reverse_reverse, hends.commonLength,
      List.length_reverse] at hwalk
    have hlength : (pieces '/' target).length = common.length + (downs.length + 1) := by
      rw [htarget, List.length_append, List.length_append, List.length_singleton]
    rw [hlink, pieces_route hslash, List.length_append, List.length_replicate, List.length_append,
      List.length_singleton]
    omega

theorem between_is_shortest_cousins :
    Descends "a/b/x/Index" ∧ IsPagePath "a/c/Q.md" ∧
    ¬ pieces '/' "a/c/Q.md" <+: (pieces '/' "a/b/x/Index").dropLast ∧
    between "a/b/x/Index" "a/c/Q.md" = "../../c/Q.md" ∧
    target? "a/b/x/Index" "../../c/Q.md" = some "a/c/Q.md" ∧
    ∀ link, target? "a/b/x/Index" link = some "a/c/Q.md" → 4 ≤ (pieces '/' link).length := by
  have hs : Descends "a/b/x/Index" := by decide +kernel
  have ht : IsPagePath "a/c/Q.md" := by decide +kernel
  have hinside :
      ¬ pieces '/' "a/c/Q.md" <+: (pieces '/' "a/b/x/Index").dropLast := by decide +kernel
  have hlink : between "a/b/x/Index" "a/c/Q.md" = "../../c/Q.md" := by decide +kernel
  have hlength : (pieces '/' "../../c/Q.md").length = 4 := by decide +kernel
  obtain ⟨hleads, _, hshortest⟩ := between_is_shortest hs ht
  rw [hlink] at hleads hshortest
  rw [hlength] at hshortest
  exact ⟨hs, ht, hinside, hlink, hleads, hshortest hinside⟩

end PhpPages.Link

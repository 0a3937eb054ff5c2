import PhpPages.Page.Index
import PhpPages.Proofs.Generation
import PhpPages.Proofs.Text

namespace PhpPages.Page.Index

open Text

/-- Elements that the order does not tell apart stay as they were. -/
theorem filter_mergeSort {α : Type} {le : α → α → Bool}
    (htrans : ∀ a b c, le a b = true → le b c = true → le a c = true)
    (htotal : ∀ a b, (le a b || le b a) = true) {p : α → Bool}
    (hp : ∀ a b, p a = true → p b = true → le a b = true) (l : List α) :
    (l.mergeSort le).filter p = l.filter p := by
  have hsame : (l.filter p).Pairwise fun a b => le a b = true := by
    apply List.pairwise_of_forall_mem_list
    intro a ha b hb
    exact hp a b (List.mem_filter.mp ha).2 (List.mem_filter.mp hb).2
  -- A sorted sublist is still one after sorting, and there are no more such elements than before.
  have hkept : (l.filter p).Sublist ((l.mergeSort le).filter p) := by
    have h := (List.sublist_mergeSort htrans htotal hsame List.filter_sublist).filter p
    rwa [List.filter_filter, funext fun a => Bool.and_self (p a)] at h
  exact (hkept.eq_of_length ((List.mergeSort_perm l le).filter p).length_eq.symm).symm

section SortByLower

variable {α : Type} (key : α → String) (l : List α)

/-- What the sort asks of two keys is that the second is not smaller. -/
theorem not_lt_eq_true_iff {s t : String} : (!decide (t < s)) = true ↔ s ≤ t := by
  rw [Bool.not_eq_true', decide_eq_false_iff_not, String.not_lt]

theorem keyed_trans (p q r : String × α) (hpq : (!decide (q.1 < p.1)) = true)
    (hqr : (!decide (r.1 < q.1)) = true) : (!decide (r.1 < p.1)) = true := by
  rw [not_lt_eq_true_iff] at hpq hqr ⊢
  exact String.le_trans hpq hqr

theorem keyed_total (p q : String × α) : (!decide (q.1 < p.1) || !decide (p.1 < q.1)) = true := by
  rw [Bool.or_eq_true, not_lt_eq_true_iff, not_lt_eq_true_iff]
  exact String.le_total p.1 q.1

theorem sortByLower_perm : (sortByLower key l).Perm l := by
  have h :=
    (List.mergeSort_perm (l.map fun a => (lower (key a), a)) fun p q => !decide (q.1 < p.1)).map
      Prod.snd
  rwa [List.map_map, Function.comp_def, List.map_id''] at h
  exact fun _ => rfl

theorem pairwise_sortByLower :
    (sortByLower key l).Pairwise fun a b => lower (key a) ≤ lower (key b) := by
  rw [sortByLower, List.pairwise_map]
  refine List.Pairwise.imp_of_mem ?_ (List.pairwise_mergeSort keyed_trans keyed_total _)
  intro p q hp hq hle
  obtain ⟨a, _, rfl⟩ := List.mem_map.mp (List.mem_mergeSort.mp hp)
  obtain ⟨b, _, rfl⟩ := List.mem_map.mp (List.mem_mergeSort.mp hq)
  exact not_lt_eq_true_iff.mp hle

/-- What agrees in its key stays in order. -/
theorem filter_sortByLower (k : String) :
    (sortByLower key l).filter (fun a => lower (key a) = k) = l.filter fun a =>
      lower (key a) = k := by
  have hkeyed : ∀ d : List (String × α), (∀ p ∈ d, p.1 = lower (key p.2)) →
      (d.map (·.2)).filter (fun a => lower (key a) = k) =
        (d.filter fun p => p.1 = k).map (·.2) := by
    intro d hd
    rw [List.filter_map]
    congr 1
    apply List.filter_congr
    intro p hp
    simp [hd p hp]
  have hfilter := filter_mergeSort (p := fun p : String × α => decide (p.1 = k))
    keyed_trans keyed_total
    (by
      intro p q hp hq
      rw [decide_eq_true_eq] at hp hq
      simp [hp, hq])
    (l.map fun a => (lower (key a), a))
  rw [sortByLower, hkeyed, hfilter, ← hkeyed, List.map_map, Function.comp_def, List.map_id'']
  · exact fun _ => rfl
  · simp
  · intro p hp
    obtain ⟨a, _, rfl⟩ := List.mem_map.mp (List.mem_mergeSort.mp hp)
    rfl

end SortByLower

/-- The namespace under which a declaration is listed. -/
def shownNamespace (d : Declaration) : String :=
  if d.namespace.getD "" = "" then globalHeading else d.namespace.getD ""

/-- The declarations of a namespace with their pages, in the order in which they were found. -/
def listed (files : List ParsedFile) (namesp : String) : List (String × String) :=
  files.flatMap fun file =>
    (file.declarations.filter fun d => shownNamespace d = namesp).map fun d =>
      (d.name, file.pagePath)

/-- A heading and the names and pages below it. -/
structure Group where
  heading : String
  entries : List (String × String)

def Group.lines (g : Group) : List String :=
  ["### " ++ g.heading, ""] ++ g.entries.map (fun e => "- [" ++ e.1 ++ "](" ++ e.2 ++ ")") ++ [""]

def contentLines (groups : List Group) : List String :=
  if groups.isEmpty then [] else ["## Contents", ""] ++ groups.flatMap Group.lines

/-- Groups that list the declarations of files. -/
structure Lists (files : List ParsedFile) (groups : List Group) : Prop where
  distinct : (groups.map Group.heading).Nodup
  headed : ∀ namesp, namesp ∈ groups.map Group.heading ↔
    ∃ file ∈ files, ∃ d ∈ file.declarations, shownNamespace d = namesp
  sorted : (groups.map Group.heading).Pairwise fun a b => lower a ≤ lower b
  complete : ∀ g ∈ groups, g.entries.Perm (listed files g.heading)
  ordered : ∀ g ∈ groups, g.entries.Pairwise fun a b => lower a.1 ≤ lower b.1
  stable : ∀ g ∈ groups, ∀ k,
    g.entries.filter (fun e => lower e.1 = k) =
      (listed files g.heading).filter fun e => lower e.1 = k

/-- Files of which no name, namespace or page path has a line feed. -/
def OneLined (files : List ParsedFile) : Prop :=
  ∀ file ∈ files, '\n' ∉ file.pagePath.toList ∧
    ∀ d ∈ file.declarations, '\n' ∉ d.name.toList ∧ '\n' ∉ (d.namespace.getD "").toList

theorem mem_headings {all : List Entry} {h : String} :
    h ∈ headings all ↔ ∃ e ∈ all, e.heading = h := by
  induction all with
  | nil => simp [headings]
  | cons e rest ih =>
    by_cases he : h = e.heading
    · simp [headings, he]
    · simp [headings, he, ih, Ne.symm he]

theorem nodup_headings (all : List Entry) : (headings all).Nodup := by
  induction all with
  | nil => simp [headings]
  | cons e rest ih =>
    rw [headings, List.nodup_cons]
    exact ⟨by simp, ih.sublist List.filter_sublist⟩

/-- Under headings that are all different each entry counts once. -/
theorem length_flatMap_filter {all : List Entry} {hs : List String} (hnodup : hs.Nodup)
    (hcover : ∀ e ∈ all, e.heading ∈ hs) :
    (hs.flatMap fun h => all.filter (·.heading = h)).length = all.length := by
  induction all with
  | nil =>
    rw [List.length_nil, List.length_eq_zero_iff, List.flatMap_eq_nil_iff]
    exact fun _ _ => rfl
  | cons e rest ih =>
    -- The entry is added wherever its heading stands, and that is in one place.
    have hstep :
        ∀ gs : List String, (gs.flatMap fun h => (e :: rest).filter (·.heading = h)).length =
        (gs.flatMap fun h => rest.filter (·.heading = h)).length + gs.count e.heading := by
      intro gs
      induction gs with
      | nil => rfl
      | cons h gs ihs =>
        rw [List.flatMap_cons, List.length_append, ihs, List.flatMap_cons, List.length_append,
          List.count_cons, List.filter_cons]
        by_cases hh : e.heading = h
        · simp only [hh, decide_true, if_true, List.length_cons, beq_self_eq_true]
          omega
        · simp only [hh, decide_false, Ne.symm hh, beq_iff_eq, if_false, Bool.false_eq_true]
          omega
    have hone : hs.count e.heading = 1 := by
      rw [hnodup.count, if_pos (hcover e (by simp))]
    rw [hstep hs, ih fun e' he' => hcover e' (List.mem_cons_of_mem e he'), hone, List.length_cons]

theorem heading_eq_shownNamespace (d : Declaration) :
    (filled? d.namespace).getD globalHeading = shownNamespace d := by
  unfold shownNamespace
  cases d.namespace with
  | none => rfl
  | some n => by_cases hn : n = "" <;> simp [filled?, Option.filter_some, hn]

theorem length_entries (files : List ParsedFile) :
    (entries files).length = (Site.statsOf files).declarations := by
  simp [entries, Site.statsOf, List.length_flatMap]

theorem exists_heading_iff {files : List ParsedFile} {namesp : String} :
    (∃ e ∈ entries files, e.heading = namesp) ↔
      ∃ file ∈ files, ∃ d ∈ file.declarations, shownNamespace d = namesp := by
  simp only [entries, heading_eq_shownNamespace, List.mem_flatMap, List.mem_map]
  constructor
  · intro ⟨_, ⟨file, hfile, d, hd, rfl⟩, he⟩
    exact ⟨file, hfile, d, hd, he⟩
  · intro ⟨file, hfile, d, hd, he⟩
    exact ⟨_, ⟨file, hfile, d, hd, rfl⟩, he⟩

theorem listed_eq (files : List ParsedFile) (namesp : String) :
    ((entries files).filter (·.heading = namesp)).map (fun e => (e.name, e.page)) =
      listed files namesp := by
  simp only [entries, heading_eq_shownNamespace, List.filter_flatMap, List.map_flatMap,
    List.filter_map, List.map_map]
  rfl

def Group.ofEntries (all : List Entry) (heading : String) : Group :=
  ⟨heading, (sortByLower Entry.name (all.filter (·.heading = heading))).map fun e =>
    (e.name, e.page)⟩

/-- The groups of the index page. -/
def groupsOf (all : List Entry) : List Group :=
  (sortByLower id (headings all)).map (Group.ofEntries all)

theorem map_heading_groupsOf (all : List Entry) :
    (groupsOf all).map Group.heading = sortByLower id (headings all) := by
  rw [groupsOf, List.map_map]
  exact List.map_id' _

theorem lines_ofEntries (all : List Entry) (heading : String) :
    (Group.ofEntries all heading).lines = headingPart all heading := by
  simp [Group.lines, Group.ofEntries, headingPart]

theorem contents_eq (all : List Entry) : contents all = contentLines (groupsOf all) := by
  have hlength : (groupsOf all).length = (headings all).length := by
    rw [groupsOf, List.length_map, (sortByLower_perm id _).length_eq]
  have hempty : (groupsOf all).isEmpty = all.isEmpty := by
    rw [Bool.eq_iff_iff, List.isEmpty_iff_length_eq_zero, hlength]
    cases all <;> simp [headings]
  rw [contents, contentLines, hempty, groupsOf, List.flatMap_map]
  simp only [lines_ofEntries]

theorem length_groupsOf (all : List Entry) :
    ((groupsOf all).flatMap Group.entries).length = all.length := by
  have hperm := sortByLower_perm id (headings all)
  have hlength : ∀ hs : List String, (hs.flatMap fun h => (Group.ofEntries all h).entries).length =
      (hs.flatMap fun h => all.filter (·.heading = h)).length := by
    intro hs
    induction hs with
    | nil => rfl
    | cons h hs ih =>
      rw [List.flatMap_cons, List.length_append, ih, Group.ofEntries, List.length_map,
        (sortByLower_perm Entry.name _).length_eq, List.flatMap_cons, List.length_append]
  rw [groupsOf, List.flatMap_map, hlength]
  apply length_flatMap_filter (hperm.nodup_iff.mpr (nodup_headings all))
  intro e he
  exact hperm.mem_iff.mpr (mem_headings.mpr ⟨e, he, rfl⟩)

theorem lists_groupsOf (files : List ParsedFile) : Lists files (groupsOf (entries files)) := by
  have hperm := sortByLower_perm id (headings (entries files))
  refine ⟨?_, ?_, ?_, ?_, ?_, ?_⟩
  · rw [map_heading_groupsOf]
    exact hperm.nodup_iff.mpr (nodup_headings _)
  · intro namesp
    rw [map_heading_groupsOf, hperm.mem_iff, mem_headings, exists_heading_iff]
  · rw [map_heading_groupsOf]
    exact pairwise_sortByLower id _
  · intro g hg
    obtain ⟨h, _, rfl⟩ := List.mem_map.mp hg
    rw [Group.ofEntries, ← listed_eq]
    exact (sortByLower_perm _ _).map _
  · intro g hg
    obtain ⟨h, _, rfl⟩ := List.mem_map.mp hg
    rw [Group.ofEntries, List.pairwise_map]
    exact pairwise_sortByLower Entry.name _
  · intro g hg k
    obtain ⟨h, _, rfl⟩ := List.mem_map.mp hg
    rw [Group.ofEntries, ← listed_eq, List.filter_map, List.filter_map]
    exact congrArg _ (filter_sortByLower Entry.name _ k)

theorem not_mem_toDigits (n : Nat) : '\n' ∉ Nat.toDigits 10 n := by
  intro h
  exact absurd (Nat.isDigit_of_mem_toDigits (by decide) (by decide) h) (by decide)

theorem not_mem_twoDigits (n : Nat) : '\n' ∉ (Moment.twoDigits n).toList := by
  have hzero : '\n' ∉ (toString "0").toList := by decide
  unfold Moment.twoDigits
  split <;> simp [hzero, not_mem_toDigits]

theorem not_mem_introduction (title : String) (now : Moment) :
    ∀ l ∈ (introduction title now).tail, '\n' ∉ l.toList := by
  have hmoment : '\n' ∉ now.text.toList := by
    simp [Moment.text, not_mem_toDigits, not_mem_twoDigits]
  have hgenerated : '\n' ∉ ("Generated on: " ++ now.text).toList := by
    simpa using hmoment
  simp only [introduction, List.tail_cons, List.forall_mem_cons]
  refine ⟨?_, hgenerated, ?_⟩
  · decide
  · decide +kernel

variable {files : List ParsedFile} {groups : List Group}

theorem Lists.entries_ne_nil (h : Lists files groups) {g : Group} (hg : g ∈ groups) :
    g.entries ≠ [] := by
  obtain ⟨file, hfile, d, hd, he⟩ := (h.headed g.heading).mp (List.mem_map.mpr ⟨g, hg, rfl⟩)
  have hmem : (d.name, file.pagePath) ∈ listed files g.heading := by
    simp only [listed, List.mem_flatMap, List.mem_map, List.mem_filter, decide_eq_true_eq]
    exact ⟨file, hfile, d, ⟨hd, he⟩, rfl⟩
  exact List.ne_nil_of_mem ((h.complete g hg).mem_iff.mpr hmem)

theorem Lists.not_mem_contentLines (h : Lists files groups) (hfiles : OneLined files) :
    ∀ l ∈ contentLines groups, '\n' ∉ l.toList := by
  have hgroup : ∀ g ∈ groups, ∀ l ∈ g.lines, '\n' ∉ l.toList := by
    intro g hg l hl
    simp only [Group.lines, List.mem_append, List.mem_cons, List.not_mem_nil, or_false,
      List.mem_map] at hl
    obtain ((rfl | rfl) | ⟨e, he, rfl⟩) | rfl := hl
    · obtain ⟨file, hfile, d, hd, hshown⟩ := (h.headed g.heading).mp (List.mem_map.mpr ⟨g, hg, rfl⟩)
      have hnamesp := ((hfiles file hfile).2 d hd).2
      rw [← hshown, shownNamespace]
      split
      · decide
      · simpa using hnamesp
    · simp
    · have hlisted := (h.complete g hg).mem_iff.mp he
      simp only [listed, List.mem_flatMap, List.mem_map, List.mem_filter] at hlisted
      obtain ⟨file, hfile, d, ⟨hd, _⟩, rfl⟩ := hlisted
      have hname := ((hfiles file hfile).2 d hd).1
      have hpage := (hfiles file hfile).1
      simp [hname, hpage]
    · simp
  intro l hl
  unfold contentLines at hl
  split at hl
  · cases hl
  · simp only [List.mem_append, List.mem_cons, List.not_mem_nil, or_false, List.mem_flatMap] at hl
    obtain (rfl | rfl) | ⟨g, hg, hl⟩ := hl
    · decide
    · simp
    · exact hgroup g hg l hl

/-- The page ends with an empty line behind something other than white space, so that nothing is
cut off its end. -/
theorem Lists.finish_eq (h : Lists files groups) (title : String) (now : Moment) :
    finish (introduction title now ++ contentLines groups) =
      "\n".intercalate (introduction title now ++ contentLines groups) := by
  have hparts : ∃ front last x, introduction title now ++ contentLines groups =
      front ++ [last] ++ [""] ∧ last.toList.getLast? = some x ∧ isBlank x = false ∧ front ≠ [] := by
    unfold contentLines
    split
    · exact ⟨(introduction title now).take 10,
        "- Parent classes, interfaces and traits link to their own pages.", '.', rfl, by decide,
        by decide, by simp [introduction]⟩
    · rename_i hempty
      obtain ⟨gs, g, rfl⟩ := exists_snoc (l := groups) (by simpa using hempty)
      obtain ⟨es, e, he⟩ := exists_snoc (h.entries_ne_nil (g := g) (by simp))
      refine ⟨introduction title now ++ ["## Contents", ""] ++ gs.flatMap Group.lines ++
        ["### " ++ g.heading, ""] ++ es.map (fun e => "- [" ++ e.1 ++ "](" ++ e.2 ++ ")"),
        "- [" ++ e.1 ++ "](" ++ e.2 ++ ")", ')', ?_, ?_, ?_, ?_⟩
      · simp [List.flatMap_append, Group.lines, he]
      · exact getLast?_toList_append (by decide) _
      · decide
      · simp
  obtain ⟨front, last, x, hparts, hlast, hx, hfront⟩ := hparts
  have hend : ("\n".intercalate (front ++ [last])).toList.getLast? = some x := by
    rw [String.intercalate_append_of_ne_nil hfront (by simp), String.intercalate_singleton]
    exact getLast?_toList_append hlast _
  have hfeed : isBlank '\n' = true := by decide
  rw [hparts, finish, String.intercalate_append_of_ne_nil (by simp) (by simp),
    String.intercalate_singleton, String.append_assoc,
    trimEnd_append_blanks hend hx (by simp [hfeed])]
  simp

theorem Lists.lines_page (h : Lists files groups) (hfiles : OneLined files) (title : String)
    (now : Moment) :
    pieces '\n' (finish (introduction title now ++ contentLines groups)) =
      pieces '\n' ("# " ++ title) ++ (introduction title now).tail ++ contentLines groups := by
  have hsplit : introduction title now ++ contentLines groups =
      ("# " ++ title) :: ((introduction title now).tail ++ contentLines groups) := rfl
  have hne : (introduction title now).tail ++ contentLines groups ≠ [] := by simp [introduction]
  rw [h.finish_eq, hsplit, String.intercalate_cons_of_ne_nil hne, pieces_append_separator rfl,
    pieces_intercalate_separator rfl hne, List.append_assoc]
  intro l hl
  rcases List.mem_append.mp hl with hl | hl
  · exact not_mem_introduction title now l hl
  · exact h.not_mem_contentLines hfiles l hl

/-- Behind its introduction the index page has the declarations of all files in groups, each
declaration in the group of its namespace. There are as many entries as the run that made the page
has counted declarations. -/
theorem index_lists_declarations (title : String) (now : Moment) {files : List ParsedFile}
    (hfiles : OneLined files) :
    ∃ groups : List Group,
      pieces '\n' (Page.index title files now) =
        pieces '\n' ("# " ++ title) ++ (introduction title now).tail ++ contentLines groups ∧
      Lists files groups ∧
      (groups.flatMap Group.entries).length = (files.flatMap (·.declarations)).length ∧
      ∀ {s : Settings} {w w' : Site.World} {stats : Stats} (c : Site.Course s now w stats w'),
        c.parsed = files →
        (groups.flatMap Group.entries).length = stats.declarations := by
  have hlists := lists_groupsOf files
  have htotal : ((groupsOf (entries files)).flatMap Group.entries).length =
      (Site.statsOf files).declarations := by
    rw [length_groupsOf, length_entries]
  refine ⟨groupsOf (entries files), ?_, hlists, htotal, ?_⟩
  · rw [Page.index, contents_eq]
    exact hlists.lines_page hfiles title now
  · intro s w w' stats c hparsed
    rw [htotal, c.counts, hparsed]

/-- Files whose namespaces and names differ only in their case, and declarations
without a namespace. -/
def mixedFiles : List ParsedFile :=
  [{ sourcePath := Path.at ["src", "X.php"], relativePath := "X.php", pagePath := "X.md",
     declarations := [{ name := "beta", kind := .class, «namespace» := some "b" },
       { name := "Alpha", kind := .class },
       { name := "BETA", kind := .interface, «namespace» := some "b" }] },
   { sourcePath := Path.at ["src", "A", "Y.php"], relativePath := "A/Y.php", pagePath := "A/Y.md",
     declarations := [{ name := "Beta", kind := .class, «namespace» := some "B" },
       { name := "alpha", kind := .class, «namespace» := some "" },
       { name := "Alpha", kind := .class, «namespace» := some "b" }] }]

theorem index_lists_declarations_mixed :
    OneLined mixedFiles ∧ ∃ groups : List Group,
      pieces '\n' (Page.index "Docs" mixedFiles ⟨2024, 1, 1, 0, 0, 0⟩) =
        pieces '\n' "# Docs" ++ (introduction "Docs" ⟨2024, 1, 1, 0, 0, 0⟩).tail ++
        contentLines groups ∧
      Lists mixedFiles groups ∧ (groups.flatMap Group.entries).length = 6 := by
  have hlined : OneLined mixedFiles := by
    simp [OneLined, mixedFiles]
  obtain ⟨groups, hlines, hlists, htotal, _⟩ :=
    index_lists_declarations "Docs" ⟨2024, 1, 1, 0, 0, 0⟩ hlined
  exact ⟨hlined, groups, hlines, hlists, htotal⟩

end PhpPages.Page.Index

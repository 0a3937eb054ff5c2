import Mathlib.Data.List.Induction
import PhpPages.Proofs.PageOwners

/-!
What is reported while the class map is built. A file is compared with the first file of its page
only, and a declaration with the latest page of its class only. That is enough: every conflict is
reported, and nothing else.
-/

namespace PhpPages

/-- The file has declarations, and they stand on this page. -/
def ParsedFile.Fills (file : ParsedFile) (page : String) : Prop :=
  file.declarations ≠ [] ∧ file.pagePath = page

instance (file : ParsedFile) (page : String) : Decidable (file.Fills page) :=
  inferInstanceAs (Decidable (file.declarations ≠ [] ∧ file.pagePath = page))

namespace ClassMap

/-- What there is to report about a file when it is entered: its page has an owner already, or a
class of it has another page. -/
inductive Conflict (p : Progress) (file : ParsedFile) : Event → Prop where
  | page {owner : Path} (declares : file.declarations ≠ [])
      (owned : p.owners.lookup file.pagePath = some owner) (other : owner ≠ file.sourcePath) :
      Conflict p file (.pageShared file.pagePath owner file.sourcePath)
  | name {d : Declaration} {earlier : String} (declared : d ∈ file.declarations)
      (known : p.pages.lookup d.fullName = some earlier) (other : earlier ≠ file.pagePath) :
      Conflict p file (.declaredTwice d.fullName file.relativePath earlier)

section

variable {p : Progress} {file : ParsedFile} {e : Event}

theorem mem_events_occupy : e ∈ (p.occupy file).events ↔ e ∈ p.events ∨
    ∃ owner, p.owners.lookup file.pagePath = some owner ∧ owner ≠ file.sourcePath ∧
      e = .pageShared file.pagePath owner file.sourcePath := by
  unfold Progress.occupy
  cases hl : p.owners.lookup file.pagePath with
  | none => simp
  | some owner =>
    by_cases ho : owner = file.sourcePath
    · simp [ho]
    · simp [ho]

theorem mem_events_declare {d : Declaration} : e ∈ (p.declare file d).events ↔ e ∈ p.events ∨
    ∃ earlier, p.pages.lookup d.fullName = some earlier ∧ earlier ≠ file.pagePath ∧
      e = .declaredTwice d.fullName file.relativePath earlier := by
  unfold Progress.declare
  cases hl : p.pages.lookup d.fullName with
  | none => simp
  | some earlier =>
    by_cases he : earlier = file.pagePath
    · simp [he]
    · simp [he]

theorem lookup_declare (d : Declaration) (name : String) : (p.declare file d).pages.lookup name =
    if name = d.fullName then some file.pagePath else p.pages.lookup name := by
  by_cases hn : name = d.fullName
  · simp [Progress.declare, hn]
  · simp [Progress.declare, hn, List.lookup_cons, beq_false_of_ne hn]

/-- Declaring a class again in the same file brings no new report: the page is the same by then. -/
theorem mem_events_declarations {ds : List Declaration} :
    e ∈ (ds.foldl (Progress.declare file) p).events ↔ e ∈ p.events ∨
      ∃ d ∈ ds, ∃ earlier, p.pages.lookup d.fullName = some earlier ∧ earlier ≠ file.pagePath ∧
        e = .declaredTwice d.fullName file.relativePath earlier := by
  induction ds generalizing p with
  | nil => simp
  | cons d ds ih =>
    rw [List.foldl_cons, ih, mem_events_declare]
    constructor
    · intro h
      rcases h with (he | hd) | ⟨d', hd', earlier, hl, hne, he⟩
      · exact .inl he
      · exact .inr ⟨d, List.mem_cons_self, hd⟩
      · rw [lookup_declare] at hl
        split at hl
        · exact absurd (Option.some.inj hl).symm hne
        · exact .inr ⟨d', List.mem_cons_of_mem d hd', earlier, hl, hne, he⟩
    · intro h
      rcases h with he | ⟨d', hd', earlier, hl, hne, he⟩
      · exact .inl (.inl he)
      · by_cases hn : d'.fullName = d.fullName
        · rw [hn] at hl he
          exact .inl (.inr ⟨earlier, hl, hne, he⟩)
        · have hmem : d' ∈ ds := by
            cases List.mem_cons.mp hd' with
            | inl heq => exact absurd (congrArg Declaration.fullName heq) hn
            | inr hmem => exact hmem
          have hl' : (p.declare file d).pages.lookup d'.fullName = some earlier := by
            rw [lookup_declare, if_neg hn, hl]
          exact .inr ⟨d', hmem, earlier, hl', hne, he⟩

/-- One file adds the reports on its conflicts with what is known so far. -/
theorem mem_events_add : e ∈ (p.add file).events ↔ e ∈ p.events ∨ Conflict p file e := by
  unfold Progress.add
  by_cases hd : file.declarations = []
  · rw [if_pos (by simp [hd])]
    refine ⟨.inl, fun h => h.resolve_right ?_⟩
    intro hconflict
    cases hconflict with
    | page declares => exact declares hd
    | name declared => simp [hd] at declared
  · rw [if_neg (by simpa using hd), mem_events_declarations, mem_events_occupy, pages_occupy]
    constructor
    · intro h
      rcases h with (he | ⟨owner, hl, hne, rfl⟩) | ⟨d, hmem, earlier, hl, hne, rfl⟩
      · exact .inl he
      · exact .inr (.page hd hl hne)
      · exact .inr (.name hmem hl hne)
    · intro h
      rcases h with he | hconflict
      · exact .inl (.inl he)
      · cases hconflict with
        | page _ hl hne => exact .inl (.inr ⟨_, hl, hne, rfl⟩)
        | name hmem hl hne => exact .inr ⟨_, hmem, _, hl, hne, rfl⟩

end

theorem progress_snoc (files : List ParsedFile) (g : ParsedFile) :
    progress (files ++ [g]) = (progress files).add g := by
  simp [progress]

/-- Everything that is reported is a conflict of some file with those before it. -/
theorem mem_eventsOf {files : List ParsedFile} {e : Event} : e ∈ eventsOf files ↔
    ∃ before g after, files = before ++ g :: after ∧ Conflict (progress before) g e := by
  induction files using List.reverseRec with
  | nil => simp [eventsOf, progress]
  | append_singleton files last ih =>
    have hstep :
        e ∈ eventsOf (files ++ [last]) ↔ e ∈ eventsOf files ∨ Conflict (progress files) last e := by
      rw [eventsOf, progress_snoc, mem_events_add]
      rfl
    rw [hstep, ih]
    constructor
    · intro h
      rcases h with ⟨before, g, after, rfl, hg⟩ | hlast
      · exact ⟨before, g, after ++ [last], by simp, hg⟩
      · exact ⟨files, last, [], rfl, hlast⟩
    · intro h
      obtain ⟨before, g, after, hsplit, hg⟩ := h
      cases after using List.reverseRec with
      | nil =>
        obtain ⟨rfl, hlast⟩ := List.append_inj' hsplit rfl
        cases hlast
        exact .inr hg
      | append_singleton after last' =>
        have hcut : files ++ [last] = (before ++ g :: after) ++ [last'] := by simpa using hsplit
        exact .inl ⟨before, g, after, (List.append_inj' hcut rfl).1, hg⟩

/-- A page gets an owner only if it has none. -/
theorem lookup_occupy (p : Progress) (file : ParsedFile) (page : String) :
    (p.occupy file).owners.lookup page =
      (p.owners.lookup page).or (if file.pagePath = page then some file.sourcePath else none) := by
  unfold Progress.occupy
  by_cases hp : file.pagePath = page
  · subst hp
    cases hl : p.owners.lookup file.pagePath with
    | none => simp
    | some owner =>
      by_cases ho : owner = file.sourcePath
      · simp [ho, hl]
      · simp [ho, hl]
  · cases p.owners.lookup file.pagePath with
    | none => simp [hp, List.lookup_cons, beq_false_of_ne (Ne.symm hp)]
    | some owner =>
      by_cases ho : owner = file.sourcePath
      · simp [ho, hp]
      · simp [ho, hp]

/-- The owner of a page is the source of the first file that fills it. -/
theorem lookup_owners (files : List ParsedFile) (page : String) :
    (progress files).owners.lookup page = (files.find? (·.Fills page)).map (·.sourcePath) := by
  induction files using List.reverseRec with
  | nil => rfl
  | append_singleton files g ih =>
    rw [progress_snoc, List.find?_append, Option.map_or, Progress.add]
    by_cases hd : g.declarations = []
    · have hg : ¬ g.Fills page := fun h => h.1 hd
      simp [hd, hg, ih]
    · rw [if_neg (by simpa using hd), owners_declare, lookup_occupy, ih]
      by_cases hp : g.pagePath = page
      · simp [ParsedFile.Fills, hd, hp]
      · simp [ParsedFile.Fills, hp]

/-- Two files of different sources fill the page. -/
def PageContested (files : List ParsedFile) (page : String) : Prop :=
  ∃ f ∈ files, ∃ g ∈ files, f.Fills page ∧ g.Fills page ∧ f.sourcePath ≠ g.sourcePath

/-- Two files with different pages declare the class. -/
def NameContested (files : List ParsedFile) (name : String) : Prop :=
  ∃ f ∈ files, ∃ g ∈ files, f.Declares name ∧ g.Declares name ∧ f.pagePath ≠ g.pagePath

/-- The file that is not from the source of the first file of its page is reported,
wherever it stands. -/
theorem pageShared_of_contested {files : List ParsedFile} {page : String}
    (h : PageContested files page) :
    ∃ first second, Event.pageShared page first second ∈ eventsOf files := by
  obtain ⟨f, hf, g, hg, hfills, hfills', hne⟩ := h
  cases hfirst : files.find? (·.Fills page) with
  | none =>
    have hnone := List.find?_eq_none.mp hfirst f hf
    simp [hfills] at hnone
  | some first =>
    obtain ⟨k, hk, hkfills, hother⟩ :
        ∃ k ∈ files, k.Fills page ∧ first.sourcePath ≠ k.sourcePath := by
      by_cases hsame : first.sourcePath = f.sourcePath
      · exact ⟨g, hg, hfills', hsame ▸ hne⟩
      · exact ⟨f, hf, hfills, hsame⟩
    obtain ⟨hfirstFills, front, back, rfl, hfront⟩ := List.find?_eq_some_iff_append.mp hfirst
    have hback : k ∈ back := by
      rcases List.mem_append.mp hk with hk | hk
      · have hnot := hfront k hk
        simp [hkfills] at hnot
      · cases List.mem_cons.mp hk with
        | inl heq => exact absurd (congrArg ParsedFile.sourcePath heq).symm hother
        | inr hmem => exact hmem
    obtain ⟨between, after, rfl⟩ := List.append_of_mem hback
    have hagain : (front ++ first :: between).find? (·.Fills page) = some first :=
      List.find?_eq_some_iff_append.mpr ⟨hfirstFills, front, between, rfl, hfront⟩
    have howner : (progress (front ++ first :: between)).owners.lookup k.pagePath =
        some first.sourcePath := by
      rw [lookup_owners, hkfills.2, hagain]
      rfl
    refine ⟨first.sourcePath, k.sourcePath,
      mem_eventsOf.mpr ⟨front ++ first :: between, k, after, by simp, ?_⟩⟩
    exact hkfills.2 ▸ .page hkfills.1 howner hother

theorem lookup_ofFiles_snoc {files : List ParsedFile} {g : ParsedFile} {name : String}
    (h : ¬ g.Declares name) :
    (ofFiles (files ++ [g])).lookup name = (ofFiles files).lookup name := by
  have hnone : (entriesOf g).lookup name = none := by
    have halone : (ofFiles [g]).lookup name = none := lookup_ofFiles_none (by simpa using h)
    simpa [ofFiles_eq] using halone
  rw [ofFiles, progress_snoc, pages_add, List.lookup_append, hnone]
  rfl

/-- While nothing is reported about a class, all files that declare it have the page that
the map holds. -/
theorem declaredTwice_or_page (files : List ParsedFile) (name : String) :
    (∃ relative earlier, Event.declaredTwice name relative earlier ∈ eventsOf files) ∨
      ∀ f ∈ files, f.Declares name → (ofFiles files).lookup name = some f.pagePath := by
  induction files using List.reverseRec with
  | nil =>
    right
    intro f hf
    cases hf
  | append_singleton files g ih =>
    cases ih with
    | inl hreported =>
      obtain ⟨relative, earlier, he⟩ := hreported
      obtain ⟨before, k, after, rfl, hconflict⟩ := mem_eventsOf.mp he
      exact .inl ⟨relative, earlier, mem_eventsOf.mpr ⟨before, k, after ++ [g], by simp, hconflict⟩⟩
    | inr hpages =>
      by_cases hg : g.Declares name
      · have hlast : (ofFiles (files ++ [g])).lookup name = some g.pagePath :=
          lookup_ofFiles_last hg (by simp)
        by_cases hothers : ∃ f ∈ files, f.Declares name ∧ f.pagePath ≠ g.pagePath
        · -- The map holds the page of that file when `g` is entered.
          obtain ⟨f, hf, hdeclares, hne⟩ := hothers
          obtain ⟨d, hd, rfl⟩ := hg
          have hconflict : Conflict (progress files) g _ := .name hd (hpages f hf hdeclares) hne
          exact .inl ⟨_, _, mem_eventsOf.mpr ⟨files, g, [], rfl, hconflict⟩⟩
        · right
          intro f hf hdeclares
          rw [hlast]
          cases List.mem_append.mp hf with
          | inl hmem =>
            by_cases hpage : f.pagePath = g.pagePath
            · rw [hpage]
            · exact absurd ⟨f, hmem, hdeclares, hpage⟩ hothers
          | inr hmem => rw [List.mem_singleton.mp hmem]
      · right
        intro f hf hdeclares
        cases List.mem_append.mp hf with
        | inl hmem => rw [lookup_ofFiles_snoc hg, hpages f hmem hdeclares]
        | inr hmem =>
          rw [List.mem_singleton.mp hmem] at hdeclares
          exact absurd hdeclares hg

/-- Every conflict over a page and over a class is reported, and only conflicts are. -/
theorem eventsOf_report_conflicts (files : List ParsedFile) :
    (∀ page, (∃ first second, Event.pageShared page first second ∈ eventsOf files) ↔
      PageContested files page) ∧
      ∀ name, (∃ relative earlier, Event.declaredTwice name relative earlier ∈ eventsOf files) ↔
        NameContested files name := by
  refine ⟨fun page => ⟨fun h => ?_, pageShared_of_contested⟩,
    fun name => ⟨fun h => ?_, fun h => ?_⟩⟩
  · obtain ⟨first, second, he⟩ := h
    obtain ⟨before, g, after, rfl, hconflict⟩ := mem_eventsOf.mp he
    cases hconflict with
    | page declares owned other =>
      rw [lookup_owners] at owned
      obtain ⟨f, hfind, rfl⟩ := Option.map_eq_some_iff.mp owned
      have hfills : f.Fills g.pagePath := by simpa using List.find?_some hfind
      have hf : f ∈ before := List.mem_of_find?_eq_some hfind
      exact ⟨f, List.mem_append_left _ hf, g, by simp, hfills, ⟨declares, rfl⟩, other⟩
  · obtain ⟨relative, earlier, he⟩ := h
    obtain ⟨before, g, after, rfl, hconflict⟩ := mem_eventsOf.mp he
    cases hconflict with
    | @name d _ declared known other =>
      obtain ⟨f, hf, hdeclares, rfl⟩ := Site.declares_of_lookup known
      exact ⟨f, List.mem_append_left _ hf, g, by simp, hdeclares, ⟨d, declared, rfl⟩, other⟩
  · obtain ⟨f, hf, g, hg, hdeclares, hdeclares', hne⟩ := h
    apply (declaredTwice_or_page files name).resolve_right
    intro hpages
    have hpage := (hpages f hf hdeclares).symm.trans (hpages g hg hdeclares')
    exact hne (Option.some.inj hpage)

end ClassMap

end PhpPages

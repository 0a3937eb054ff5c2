import PhpPages.ClassMap
import PhpPages.Proofs.PageLinks

namespace PhpPages

open Text

/-- The file declares a class of this full name. -/
def ParsedFile.Declares (file : ParsedFile) (name : String) : Prop :=
  ∃ d ∈ file.declarations, d.fullName = name

instance (file : ParsedFile) (name : String) : Decidable (file.Declares name) :=
  inferInstanceAs (Decidable (∃ d ∈ file.declarations, d.fullName = name))

/-- Among files of which some declare a class there is a last one that does. -/
theorem exists_last_declaring {files : List ParsedFile} {name : String}
    (h : ∃ f ∈ files, f.Declares name) :
    ∃ before f after, files = before ++ f :: after ∧ f.Declares name ∧ ∀ g ∈ after,
    ¬ g.Declares name :=
  exists_last h

namespace ClassMap

/-- What a file enters, the last declaration first. -/
def entriesOf (file : ParsedFile) : ClassMap :=
  file.declarations.reverse.map fun d => (d.fullName, file.pagePath)

@[simp] theorem pages_occupy (file : ParsedFile) (p : Progress) :
    (p.occupy file).pages = p.pages := by
  unfold Progress.occupy
  split
  · split <;> rfl
  · rfl

theorem pages_declare (file : ParsedFile) (ds : List Declaration) (p : Progress) :
    (ds.foldl (Progress.declare file) p).pages =
      ds.reverse.map (fun d => (d.fullName, file.pagePath)) ++ p.pages := by
  induction ds generalizing p with
  | nil => rfl
  | cons d ds ih =>
    rw [List.foldl_cons, ih]
    simp [Progress.declare]

theorem pages_add (p : Progress) (file : ParsedFile) :
    (p.add file).pages = entriesOf file ++ p.pages := by
  unfold Progress.add
  split
  · rename_i hd
    simp [entriesOf, List.isEmpty_iff.mp hd]
  · rw [pages_declare, pages_occupy]
    rfl

/-- The map holds the entries of all files, those of the last file first. -/
theorem ofFiles_eq (files : List ParsedFile) : ofFiles files = files.reverse.flatMap entriesOf := by
  have hall : ∀ p : Progress,
      (files.foldl Progress.add p).pages = files.reverse.flatMap entriesOf ++ p.pages := by
    induction files with
    | nil => intro p; rfl
    | cons f files ih =>
      intro p
      rw [List.foldl_cons, ih, pages_add]
      simp
  rw [ofFiles, progress, hall]
  exact List.append_nil _

theorem mem_entriesOf {file : ParsedFile} {name page : String} :
    (name, page) ∈ entriesOf file ↔ file.Declares name ∧ page = file.pagePath := by
  simp only [entriesOf, ParsedFile.Declares, List.mem_map, List.mem_reverse, Prod.mk.injEq]
  constructor
  · rintro ⟨d, hd, hname, rfl⟩
    exact ⟨⟨d, hd, hname⟩, rfl⟩
  · rintro ⟨⟨d, hd, hname⟩, rfl⟩
    exact ⟨d, hd, hname, rfl⟩

theorem lookup_entriesOf {file : ParsedFile} {name : String} (h : file.Declares name) :
    (entriesOf file).lookup name = some file.pagePath := by
  cases hl : (entriesOf file).lookup name with
  | none =>
    have hnone := List.lookup_eq_none_iff.mp hl (name, file.pagePath) (mem_entriesOf.mpr ⟨h, rfl⟩)
    simp at hnone
  | some page =>
    obtain ⟨before, after, he, _⟩ := List.lookup_eq_some_iff.mp hl
    have hm : (name, page) ∈ entriesOf file := by simp [he]
    rw [(mem_entriesOf.mp hm).2]

/-- A class that no file declares has no page. -/
theorem lookup_ofFiles_none {files : List ParsedFile} {name : String}
    (h : ∀ f ∈ files, ¬ f.Declares name) : (ofFiles files).lookup name = none := by
  rw [ofFiles_eq, List.lookup_eq_none_iff]
  rintro ⟨key, page⟩ hm
  obtain ⟨f, hf, he⟩ := List.mem_flatMap.mp hm
  have hkey : name ≠ key := fun e => h f (List.mem_reverse.mp hf) (e ▸ (mem_entriesOf.mp he).1)
  simpa using hkey

/-- The page of a class is that of the last file that declares it. -/
theorem lookup_ofFiles_last {before after : List ParsedFile} {f : ParsedFile} {name : String}
    (hf : f.Declares name) (hafter : ∀ g ∈ after, ¬ g.Declares name) :
    (ofFiles (before ++ f :: after)).lookup name = some f.pagePath := by
  have hlast := lookup_ofFiles_none hafter
  rw [ofFiles_eq] at hlast ⊢
  simp [List.lookup_append, hlast, lookup_entriesOf hf]

end ClassMap

namespace Link

/-- A link to a class. If some file declares the class, it has the last part of its name and leads
from the current page to the page of the last such file, wherever that stands; otherwise it is the
name as code. -/
theorem toClass_leads_to_last {files : List ParsedFile} {current : String} (name : String)
    (hfiles : ∀ f ∈ files, IsPagePath f.pagePath) (hcurrent : IsPagePath current)
    (hname : name.toList.head? ≠ some '\\') :
    ((∃ f ∈ files, f.Declares name) → ∃ before f after href,
      files = before ++ f :: after ∧ f.Declares name ∧
      (∀ g ∈ after, ¬ g.Declares name) ∧ target? current href = some f.pagePath ∧
      toClass (ClassMap.ofFiles files) current name =
        "[" ++ (pieces '\\' name).getLast (pieces_ne_nil _ _) ++ "](" ++ href ++ ")") ∧
    ((∀ f ∈ files, ¬ f.Declares name) → toClass (ClassMap.ofFiles files) current name =
      "`" ++ (pieces '\\' name).getLast (pieces_ne_nil _ _) ++ "`") := by
  have hdrop : dropLeading ['\\'] name = name := by
    apply dropLeading_of_head
    intro c hc hm
    exact hname (List.mem_singleton.mp hm ▸ hc)
  have hshort : shortName name = (pieces '\\' name).getLast (pieces_ne_nil _ _) := by
    rw [shortName, hdrop, lastPiece_eq]
  refine ⟨fun hsome => ?_, fun hnone => ?_⟩
  · obtain ⟨before, f, after, rfl, hf, hafter⟩ := exists_last_declaring hsome
    refine ⟨before, f, after, between current f.pagePath, rfl, hf, hafter,
      target?_between hcurrent (hfiles f (by simp)), ?_⟩
    rw [toClass, hdrop, ClassMap.lookup_ofFiles_last hf hafter, hshort]
  · rw [toClass, hdrop, ClassMap.lookup_ofFiles_none hnone, hshort]

/-- Two files that declare the same class, the first of them also another. -/
def rivals : List ParsedFile :=
  [{ sourcePath := Path.at ["src", "A.php"], relativePath := "A.php", pagePath := "A.md",
     declarations := [{ name := "C", kind := .class, «namespace» := some "N" },
       { name := "A", kind := .class }] },
   { sourcePath := Path.at ["src", "x", "C.php"], relativePath := "x/C.php", pagePath := "x/C.md",
     declarations := [{ name := "C", kind := .class, «namespace» := some "N" }] }]

theorem toClass_leads_to_last_rivals :
    (∃ before f after href, rivals = before ++ f :: after ∧ f.Declares "N\\C" ∧
      (∀ g ∈ after, ¬ g.Declares "N\\C") ∧ target? "x/y/D.md" href = some f.pagePath ∧
      toClass (ClassMap.ofFiles rivals) "x/y/D.md" "N\\C" = "[" ++ "C" ++ "](" ++ href ++ ")") ∧
    toClass (ClassMap.ofFiles rivals) "x/y/D.md" "N\\D" = "`" ++ "D" ++ "`" := by
  have hpages : ∀ f ∈ rivals, IsPagePath f.pagePath := by decide +kernel
  have hcurrent : IsPagePath "x/y/D.md" := by decide +kernel
  have hC : (pieces '\\' "N\\C").getLast (pieces_ne_nil _ _) = "C" := by decide +kernel
  have hD : (pieces '\\' "N\\D").getLast (pieces_ne_nil _ _) = "D" := by decide +kernel
  obtain ⟨hlast, _⟩ := toClass_leads_to_last "N\\C" hpages hcurrent (by decide)
  obtain ⟨_, hnone⟩ := toClass_leads_to_last "N\\D" hpages hcurrent (by decide)
  rw [hC] at hlast
  rw [hD] at hnone
  exact ⟨hlast (by decide +kernel), hnone (by decide +kernel)⟩

end Link

end PhpPages

import PhpPages.Page.Class
import PhpPages.Proofs.DocLayout
import PhpPages.Proofs.Tables

namespace PhpPages

open Text

namespace Markdown

/-- The lines of a text. A line ends at a line feed, at a carriage return, or at both
in this order. -/
def lineChars : List Char → List (List Char)
  | [] => [[]]
  | '\r' :: '\n' :: rest => [] :: lineChars rest
  | c :: rest =>
    if c = '\r' ∨ c = '\n' then [] :: lineChars rest else (lineChars rest).modifyHead (c :: ·)

def lines (s : String) : List String :=
  (lineChars s.toList).map String.ofList

theorem lineChars_cons {c : Char} {rest : List Char} (h : c = '\r' → rest.head? ≠ some '\n') :
    lineChars (c :: rest) =
      if c = '\r' ∨ c = '\n' then [] :: lineChars rest
      else (lineChars rest).modifyHead (c :: ·) := by
  rw [lineChars.eq_def]
  split
  · rename_i he
    cases he
  · rename_i he
    obtain ⟨rfl, rfl⟩ := List.cons.inj he
    exact absurd rfl (h rfl)
  · rename_i he
    obtain ⟨rfl, rfl⟩ := List.cons.inj he
    rfl

theorem lineChars_ne_nil (cs : List Char) : lineChars cs ≠ [] := by
  fun_induction lineChars cs with
  | case1 => simp
  | case2 => simp
  | case3 => simp
  | case4 c rest _ _ ih => simpa using ih

/-- A line feed that does not belong to a carriage return parts the lines before it from
those behind it. -/
theorem lineChars_append {a : List Char} (h : a.getLast? ≠ some '\r') (b : List Char) :
    lineChars (a ++ '\n' :: b) = lineChars a ++ lineChars b := by
  have htail : ∀ {c : Char} {rest : List Char}, (c :: rest).getLast? ≠ some '\r' →
      rest.getLast? ≠ some '\r' := by
    intro c rest h he
    exact h (by simp [List.getLast?_cons, he])
  have hhead : ∀ {c : Char} {rest : List Char}, (c :: rest).getLast? ≠ some '\r' →
      (∀ rest', c = '\r' → rest = '\n' :: rest' → False) → c = '\r' →
      (rest ++ '\n' :: b).head? ≠ some '\n' := by
    intro c rest h hnot hc he
    cases rest with
    | nil => exact h (by simp [hc])
    | cons d rest =>
      obtain rfl := Option.some.inj he
      exact hnot rest hc rfl
  fun_induction lineChars a with
  | case1 => rfl
  | case2 rest ih =>
    rw [List.cons_append, List.cons_append, lineChars, ih (htail (htail h)), List.cons_append]
  | case3 c rest hnot hend ih =>
    rw [List.cons_append, lineChars_cons (hhead h hnot), if_pos hend, ih (htail h),
      List.cons_append]
  | case4 c rest hnot hend ih =>
    rw [List.cons_append, lineChars_cons (hhead h hnot), if_neg hend, ih (htail h)]
    obtain ⟨first, more, hlines⟩ := List.exists_cons_of_ne_nil (lineChars_ne_nil rest)
    simp [hlines]

theorem length_lineChars {cs : List Char} (h : '\n' ∉ cs) :
    (lineChars cs).length = 1 + cs.count '\r' := by
  induction cs with
  | nil => rfl
  | cons c cs ih =>
    have hcs : '\n' ∉ cs := fun hmem => h (List.mem_cons_of_mem c hmem)
    have hc : c ≠ '\n' := fun he => h (by simp [he])
    rw [lineChars_cons fun _ he => hcs (List.mem_of_head? he)]
    by_cases hreturn : c = '\r'
    · simp [hreturn, ih hcs, Nat.add_comm]
    · simp [hreturn, hc, ih hcs]

theorem lines_append {a : String} (h : a.toList.getLast? ≠ some '\r') (b : String) :
    lines (a ++ "\n" ++ b) = lines a ++ lines b := by
  have hchars := lineChars_append h b.toList
  simp only [lines, ← List.map_append, ← hchars]
  simp

theorem lines_intercalate {ls : List String} (hne : ls ≠ [])
    (h : ∀ l ∈ ls, l.toList.getLast? ≠ some '\r') :
    lines ("\n".intercalate ls) = ls.flatMap lines := by
  induction ls with
  | nil => exact absurd rfl hne
  | cons l ls ih =>
    by_cases hls : ls = []
    · simp [hls]
    · rw [String.intercalate_cons_of_ne_nil hls, lines_append (h l (by simp)),
        ih hls fun l' hl' => h l' (List.mem_cons_of_mem l hl'), List.flatMap_cons]

theorem length_lines {s : String} (h : '\n' ∉ s.toList) :
    (lines s).length = 1 + s.toList.count '\r' := by
  rw [lines, List.length_map, length_lineChars h]

theorem getLast?_tableLine (cells : List String) :
    (tableLine cells).toList.getLast? = some '|' := by
  simp [tableLine, List.getLast?_cons]

theorem count_escapeChars (cs : List Char) : (escapeChars cs).count '\r' = cs.count '\r' := by
  induction cs with
  | nil => rfl
  | cons c cs ih =>
    rw [escapeChars]
    split
    · rename_i hbar
      simp [hbar, ih]
    · split
      · rename_i hfeed
        simp [hfeed, ih]
      · rw [List.count_cons, List.count_cons, ih]

/-- The line of a row has the carriage returns of its texts. -/
theorem count_tableLine {row : List String} (hne : row ≠ []) :
    (tableLine (row.map escapeCell)).toList.count '\r' =
      (row.flatMap fun text => trimChars text.toList).count '\r' := by
  rw [toList_tableLine (by simpa using hne), List.count_cons_of_ne (by decide), List.count_flatMap,
    List.map_map, List.count_flatMap]
  refine congrArg List.sum (List.map_congr_left fun text _ => ?_)
  simp [toList_escapeCell, count_escapeChars]

theorem lines_table {headers : List String} {rows : List (List String)} (hne : rows ≠ []) :
    lines (table headers rows) =
      (tableLine headers :: tableLine (headers.map fun _ => "---") ::
        rows.map fun row => tableLine (row.map escapeCell)).flatMap lines := by
  rw [table, if_neg (by simpa using hne), lines_intercalate (by simp)]
  intro line hline
  simp only [List.mem_cons, List.mem_map] at hline
  obtain rfl | rfl | ⟨row, _, rfl⟩ := hline <;> simp [getLast?_tableLine]

end Markdown

namespace Docblock

theorem withoutDelimiters_subset (cs : List Char) : withoutDelimiters cs ⊆ cs := by
  have hinner : ∀ inner : List Char, inner ⊆ cs →
      (if ['*', '/'].isSuffixOf inner then inner.dropLast.dropLast else inner) ⊆ cs := by
    intro inner hinner
    split
    · exact fun c hc => hinner (List.dropLast_subset _ (List.dropLast_subset _ hc))
    · exact hinner
  unfold withoutDelimiters
  apply hinner
  split
  · exact fun c hc => by simp [hc]
  · exact List.Subset.refl _

theorem withoutStar_subset (line : List Char) : withoutStar line ⊆ line := by
  unfold withoutStar
  split
  · rename_i rest hdrop
    have hrest : rest ⊆ line := fun c hc => List.dropWhile_subset _ (by rw [hdrop]; simp [hc])
    split
    · split
      · exact fun c hc => hrest (by simp [hc])
      · exact hrest
    · simp
  · exact List.Subset.refl _

theorem exists_mem_of_mem_intercalate {c x : Char} {ls : List (List Char)} (hc : c ≠ x)
    (h : c ∈ [x].intercalate ls) : ∃ l ∈ ls, c ∈ l := by
  induction ls with
  | nil => cases h
  | cons l ls ih =>
    cases ls with
    | nil => exact ⟨l, by simp, by simpa using h⟩
    | cons l' ls =>
      simp only [List.intercalate_cons_cons, List.mem_append, List.mem_singleton] at h
      rcases h with (h | h) | h
      · exact ⟨l, by simp, h⟩
      · exact absurd h hc
      · obtain ⟨k, hk, hmem⟩ := ih h
        exact ⟨k, List.mem_cons_of_mem l hk, hmem⟩

/-- Apart from line feeds, prose has only characters of its comment. -/
theorem mem_of_mem_prose {c : Char} {doc : Option String} (hc : c ≠ '\n')
    (h : c ∈ (prose doc).toList) : c ∈ (doc.getD "").toList := by
  cases doc with
  | none => exact h
  | some text =>
    rw [prose, String.toList_ofList, proseChars] at h
    have hkept := mem_of_mem_shortenRuns ((trimChars_isInfix _).subset h)
    obtain ⟨kept, hmem, hline⟩ := exists_mem_of_mem_intercalate hc hkept
    simp only [List.map_map, List.mem_map, Function.comp_apply] at hmem
    obtain ⟨line, hmem, rfl⟩ := hmem
    split at hline
    · cases hline
    · have hinner := (mem_of_mem_splitOn hmem).2 c (withoutStar_subset line hline)
      exact (trimChars_isInfix _).subset (withoutDelimiters_subset _ hinner)

end Docblock

namespace Page

open Markdown

/-- The texts of a property that its line shows. -/
def shownTexts (p : Property) : List String :=
  [p.name, p.visibility.word, p.type.getD "", p.default.getD "", Docblock.prose p.doc]

def shownChars (p : Property) : List Char :=
  (shownTexts p).flatMap String.toList

theorem trimChars_code (text : String) : trimChars (code text).toList = (code text).toList := by
  have hquote : isBlank '\x60' = false := by decide
  exact trimChars_of_ends (by simp [code, hquote]) (by simp [code, hquote, List.getLast?_cons])

theorem trimChars_prose (doc : Option String) :
    trimChars (Docblock.prose doc).toList = (Docblock.prose doc).toList := by
  cases doc with
  | none => rfl
  | some text => rw [Docblock.prose, String.toList_ofList, Docblock.proseChars, trimChars_trimChars]

theorem count_code (text : String) : (code text).toList.count '\r' = text.toList.count '\r' := by
  simp [code]

theorem count_shownType (type : Option String) :
    (shownType type).toList.count '\r' = (type.getD "").toList.count '\r' := by
  rw [shownType, count_code]
  cases type with
  | none => rfl
  | some t =>
    by_cases ht : t = ""
    · subst ht
      rfl
    · simp [filled?, Option.filter_some, ht]

theorem count_shownDefault (default : Option String) :
    (shownDefault default).toList.count '\r' = (default.getD "").toList.count '\r' := by
  rw [shownDefault, count_code]
  cases default <;> rfl

theorem count_propertyRow (p : Property) :
    ((propertyRow p).flatMap fun text => trimChars text.toList).count '\r' =
      (shownChars p).count '\r' := by
  have hname : ("$" ++ p.name).toList.count '\r' = p.name.toList.count '\r' := by simp
  have hvisibility :
      ((if p.isStatic then "static " else "") ++ p.visibility.word).toList.count '\r' =
      p.visibility.word.toList.count '\r' := by
    cases p.isStatic <;> simp
  have htype : trimChars (shownType p.type).toList = (shownType p.type).toList := trimChars_code _
  have hdefault : trimChars (shownDefault p.default).toList = (shownDefault p.default).toList :=
    trimChars_code _
  simp only [propertyRow, shownChars, shownTexts, List.flatMap_cons, List.flatMap_nil,
    List.count_append, trimChars_code, htype, hdefault, trimChars_prose, count_code,
    count_shownType, count_shownDefault, hname, hvisibility]

theorem length_propertiesTable {ps : List Property} (hne : ps ≠ []) :
    (lines (propertiesTable ps)).length = 2 + ps.length + (ps.flatMap shownChars).count '\r' := by
  have hrow : ∀ p, (lines (tableLine ((propertyRow p).map escapeCell))).length =
      1 + (shownChars p).count '\r' := by
    intro p
    have hfeed : '\n' ∉ (tableLine ((propertyRow p).map escapeCell)).toList :=
      not_mem_tableLine (by simpa using fun text _ => not_mem_escapeCell text)
    rw [length_lines hfeed, count_tableLine (by simp [propertyRow]), count_propertyRow]
  have hrows :
      ((ps.map propertyRow).map fun row => (lines (tableLine (row.map escapeCell))).length).sum =
      ps.length + (ps.flatMap shownChars).count '\r' := by
    clear hne
    induction ps with
    | nil => rfl
    | cons p ps ih =>
      simp only [List.map_cons, List.sum_cons, List.length_cons, List.flatMap_cons,
        List.count_append, hrow, ih]
      omega
  have hheader :
      (lines (tableLine ["Name", "Visibility", "Type", "Default", "Description"])).length = 1 := by
    decide +kernel
  have hrule :
      (lines (tableLine
        (["Name", "Visibility", "Type", "Default", "Description"].map fun _ => "---"))).length =
        1 := by
    decide +kernel
  rw [propertiesTable, lines_table (by simpa using hne), List.length_flatMap, List.map_cons,
    List.map_cons, List.sum_cons, List.sum_cons, hheader, hrule, List.map_map]
  simp only [Function.comp_def, hrows]
  omega

theorem lines_empty : lines "" = [""] := rfl

/-- Behind lines that end in something other than white space, an empty line stays. -/
theorem lines_finish {ls more : List String} {x : Char}
    (hlast : ("\n".intercalate ls).toList.getLast? = some x) (hx : isBlank x = false) :
    ∃ after, lines (finish (ls ++ "" :: more)) = lines ("\n".intercalate ls) ++ "" :: after := by
  have hls : ls ≠ [] := by
    rintro rfl
    simp at hlast
  have hreturn : ("\n".intercalate ls).toList.getLast? ≠ some '\r' := by
    rintro he
    obtain rfl := Option.some.inj (hlast.symm.trans he)
    exact absurd hx (by decide)
  rw [finish, String.intercalate_append_of_ne_nil hls (by simp)]
  by_cases hmore : ∃ c ∈ ("\n".intercalate more).toList, isBlank c = false
  · have hne : more ≠ [] := by
      rintro rfl
      simp at hmore
    have htrim :
        dropEndWhile isBlank ("\n".intercalate ls ++ "\n" ++ "\n".intercalate ("" :: more)).toList =
        ("\n".intercalate ls ++ "\n" ++ "" ++ "\n").toList ++
          dropEndWhile isBlank ("\n".intercalate more).toList := by
      rw [← dropEndWhile_append hmore, String.intercalate_cons_of_ne_nil hne]
      simp
    refine ⟨lines (String.ofList (dropEndWhile isBlank ("\n".intercalate more).toList) ++ "\n"), ?_⟩
    have hsplit : String.ofList (dropEndWhile isBlank
          ("\n".intercalate ls ++ "\n" ++ "\n".intercalate ("" :: more)).toList) ++ "\n" =
        "\n".intercalate ls ++ "\n" ++ ("" ++ "\n" ++
          (String.ofList (dropEndWhile isBlank ("\n".intercalate more).toList) ++ "\n")) := by
      rw [htrim]
      apply String.toList_inj.mp
      simp
    rw [trimEnd, hsplit, lines_append hreturn, lines_append (by simp), lines_empty,
      List.singleton_append]
  · have hblank : ∀ c ∈ ("\n" ++ "\n".intercalate ("" :: more)).toList, isBlank c = true := by
      have hfeed : isBlank '\n' = true := by decide
      have hall : ∀ c ∈ ("\n".intercalate more).toList, isBlank c = true := by simpa using hmore
      cases more with
      | nil => simp [hfeed]
      | cons l more =>
        rw [String.intercalate_cons_of_ne_nil (by simp)]
        simpa [hfeed] using hall
    refine ⟨[], ?_⟩
    have hsplit : "\n".intercalate ls ++ "\n" = "\n".intercalate ls ++ "\n" ++ "" := by simp
    rw [String.append_assoc, trimEnd_append_blanks hlast hx hblank, hsplit, lines_append hreturn,
      lines_empty]

/-- The lines in front of the table end with an empty one. -/
theorem lines_behind_empty {ls : List String} (hlast : ls.getLast? = some "")
    (hlength : 2 ≤ ls.length) (s : String) :
    lines ("\n".intercalate ls ++ "\n" ++ s) = lines ("\n".intercalate ls) ++ lines s := by
  obtain ⟨front, rfl⟩ := List.getLast?_eq_some_iff.mp hlast
  have hfront : front ≠ [] := by
    rintro rfl
    simp at hlength
  refine lines_append ?_ s
  rw [String.intercalate_append_of_ne_nil hfront (by simp)]
  simp

theorem getLast?_propertiesTable {ps : List Property} (hne : ps ≠ []) :
    (propertiesTable ps).toList.getLast? = some '|' := by
  obtain ⟨front, p, rfl⟩ := exists_snoc hne
  have hlines :
      ∀ header rule : String,
        header :: rule :: (((front ++ [p]).map propertyRow).map fun row =>
          tableLine (row.map escapeCell)) =
        (header :: rule :: ((front.map propertyRow).map fun row =>
          tableLine (row.map escapeCell))) ++ [tableLine ((propertyRow p).map escapeCell)] := by
    simp
  rw [propertiesTable, table, if_neg (by simp), hlines,
    String.intercalate_append_of_ne_nil (by simp) (by simp)]
  apply getLast?_toList_append
  simp [getLast?_tableLine]

/-- In the page the table stands below its title, behind an empty line and in front
of another one. -/
theorem exists_page_parts (links : Links) {d : Declaration} (hne : d.properties ≠ []) :
    ∃ front more, ofDeclaration links d =
        finish ((front ++ ["## Properties", "", propertiesTable d.properties]) ++ "" :: more) ∧
      front.getLast? = some "" ∧ 2 ≤ front.length := by
  refine ⟨["# " ++ d.name, "", header links d, ""] ++
      (if (relations links d).isEmpty then [] else [paragraph (relations links d), ""]) ++
      (if (descriptionPart d.doc).isEmpty then [] else "## Description" :: "" ::
        descriptionPart d.doc),
    if d.methods.isEmpty then []
    else "## Methods" :: "" :: d.methods.flatMap methodPart, ?_, ?_, ?_⟩
  · simp [ofDeclaration, hne]
  · have hdescription :
        descriptionPart d.doc = [] ∨ descriptionPart d.doc = [Docblock.prose d.doc, ""] := by
      simp only [descriptionPart]
      split
      · exact .inl rfl
      · exact .inr rfl
    rcases hdescription with he | he
    · rw [he]
      split <;> rfl
    · rw [he]
      exact List.getLast?_append_of_ne_nil _ (by simp)
  · simp only [List.length_append, List.length_cons]
    omega

theorem lines_ofDeclaration (links : Links) {d : Declaration} (hne : d.properties ≠ []) :
    ∃ before after, lines (ofDeclaration links d) =
      before ++ "## Properties" :: "" :: (lines (propertiesTable d.properties) ++ "" :: after) := by
  obtain ⟨front, more, hpage, hlast, hlength⟩ := exists_page_parts links hne
  have hsection : "\n".intercalate (front ++ ["## Properties", "", propertiesTable d.properties]) =
      "\n".intercalate front ++ "\n" ++
      ("## Properties" ++ "\n" ++ ("" ++ "\n" ++ propertiesTable d.properties)) := by
    rw [String.intercalate_append_of_ne_nil (List.ne_nil_of_length_pos (by omega)) (by simp)]
    simp [String.append_assoc]
  have hend :
      ("\n".intercalate
        (front ++ ["## Properties", "", propertiesTable d.properties])).toList.getLast? =
      some '|' := by
    rw [hsection]
    exact getLast?_toList_append
      (getLast?_toList_append (getLast?_toList_append (getLast?_propertiesTable hne) _) _) _
  obtain ⟨after, hlines⟩ := lines_finish hend (by decide)
  refine ⟨lines ("\n".intercalate front), after, ?_⟩
  have htitle : lines "## Properties" = ["## Properties"] := by decide +kernel
  rw [hpage, hlines, hsection, lines_behind_empty hlast hlength, lines_append (by simp),
    lines_append (by simp), htitle, lines_empty]
  simp

/-- A page has the table of properties below its title. It has two lines for the header, one for
each property and one for each carriage return in what it shows of a property. So it has exactly
a line for each property if and only if there is no carriage return, which is so if there is none
in the source. -/
theorem properties_table_lines (links : Links) {d : Declaration} (hne : d.properties ≠ []) :
    (∃ before after, lines (ofDeclaration links d) =
        before ++ "## Properties" :: "" :: (lines (propertiesTable d.properties) ++ "" :: after)) ∧
      (lines (propertiesTable d.properties)).length =
        2 + d.properties.length + (d.properties.flatMap shownChars).count '\r' ∧
      ((lines (propertiesTable d.properties)).length = 2 + d.properties.length ↔
        ∀ p ∈ d.properties, ∀ text ∈ shownTexts p, '\r' ∉ text.toList) ∧
      ((∀ p ∈ d.properties, ∀ text ∈
        [p.name, p.visibility.word, p.type.getD "", p.default.getD "", p.doc.getD ""],
        '\r' ∉ text.toList) → (lines (propertiesTable d.properties)).length =
          2 + d.properties.length) := by
  have hlength := length_propertiesTable hne
  have hiff : (lines (propertiesTable d.properties)).length = 2 + d.properties.length ↔
      ∀ p ∈ d.properties, ∀ text ∈ shownTexts p, '\r' ∉ text.toList := by
    rw [hlength, Nat.add_eq_left, List.count_eq_zero]
    simp [shownChars]
  refine ⟨lines_ofDeclaration links hne, hlength, hiff,
    fun hsource => hiff.mpr fun p hp text htext => ?_⟩
  intro hreturn
  simp only [shownTexts, List.mem_cons, List.not_mem_nil, or_false] at htext
  obtain rfl | rfl | rfl | rfl | rfl := htext
  · exact hsource p hp p.name (by simp) hreturn
  · exact hsource p hp p.visibility.word (by simp) hreturn
  · exact hsource p hp (p.type.getD "") (by simp) hreturn
  · exact hsource p hp (p.default.getD "") (by simp) hreturn
  · exact hsource p hp (p.doc.getD "") (by simp) (Docblock.mem_of_mem_prose (by decide) hreturn)

/-- A property with a comment and a default of several lines. -/
def spreadProperty (feed : String) : Property where
  name := "x"
  type := some "int|string"
  default := some ("'a" ++ "\n" ++ "b'")
  doc :=
    some ("/**" ++ feed ++ " * One" ++ feed ++ " * two" ++ feed ++ " * @var int" ++ feed ++ " */")

def spread (feed : String) : Declaration where
  name := "A"
  kind := .class
  properties := [spreadProperty feed, { name := "y" }]

theorem properties_table_lines_spread :
    (spread "\n").properties ≠ [] ∧ (lines (propertiesTable (spread "\n").properties)).length = 4 ∧
      (spread "\r\n").properties ≠ [] ∧
      (lines (propertiesTable (spread "\r\n").properties)).length = 5 := by
  have hfeed : (spread "\n").properties ≠ [] := by simp [spread]
  have hboth : (spread "\r\n").properties ≠ [] := by simp [spread]
  refine ⟨hfeed, ?_, hboth, ?_⟩
  · exact (properties_table_lines ⟨"A.php", "../A.php", id⟩ hfeed).2.2.2 (by decide +kernel)
  · exact (properties_table_lines ⟨"A.php", "../A.php", id⟩ hboth).2.1.trans (by decide +kernel)

/-- The lines of a comment that end in carriage returns and line feeds part the line of
their property. -/
theorem property_line_parted :
    (spread "\r\n").properties.length = 2 ∧
      (lines (propertiesTable (spread "\r\n").properties)).length ≠ 2 + 2 ∧
      ∃ before after, lines (ofDeclaration ⟨"A.php", "../A.php", id⟩ (spread "\r\n")) =
        before ++ "## Properties" :: "" ::
          (["| Name | Visibility | Type | Default | Description |",
            "| --- | --- | --- | --- | --- |",
            "| `$x` | `public` | `int\\|string` | `'a b'` | One", " two |",
            "| `$y` | `public` | `mixed` | `-` |  |"] ++ "" :: after) := by
  have htable : lines (propertiesTable (spread "\r\n").properties) =
      ["| Name | Visibility | Type | Default | Description |", "| --- | --- | --- | --- | --- |",
        "| `$x` | `public` | `int\\|string` | `'a b'` | One", " two |",
        "| `$y` | `public` | `mixed` | `-` |  |"] := by
    decide +kernel
  rw [← htable]
  exact ⟨rfl, by rw [htable]; decide, lines_ofDeclaration _ (by simp [spread])⟩

end Page

end PhpPages

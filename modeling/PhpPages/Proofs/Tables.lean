import Mathlib.Data.List.Forall2
import PhpPages.Markdown
import PhpPages.Proofs.Text

namespace PhpPages.Markdown

open Text

/-- The parts of a text between its bars. A bar right behind a backslash is text; `escaped` is
whether a backslash has just been passed. -/
def barParts (escaped : Bool) : List Char → List (List Char)
  | [] => [[]]
  | c :: rest =>
    if c = '|' ∧ escaped = false then [] :: barParts false rest
    else (barParts (c == '\\') rest).modifyHead (c :: ·)

/-- The parts of a line between its bars. -/
def cut (line : String) : List String :=
  (barParts false line.toList).map String.ofList

/-- Takes the backslash before each bar away. -/
def unescapeChars : List Char → List Char
  | '\\' :: '|' :: rest => '|' :: unescapeChars rest
  | c :: rest => c :: unescapeChars rest
  | [] => []

def unescape (cell : String) : String :=
  String.ofList (unescapeChars cell.toList)

/-- The line has a cell for each text of the row, with a space on both sides, and
nothing outside. -/
def Shows (line : String) (row : List String) : Prop :=
  ∃ cells : List String, cut line = "" :: cells.map (fun cell => " " ++ cell ++ " ") ++ [""] ∧
    cells.map unescape = row.map fun text => trim (substitute '\n' ' ' text)

theorem escapeChars_append (a b : List Char) :
    escapeChars (a ++ b) = escapeChars a ++ escapeChars b := by
  induction a with
  | nil => rfl
  | cons c a ih =>
    simp only [List.cons_append, escapeChars, ih]
    split <;> [rfl; split <;> rfl]

theorem isBlank_of_mem_escapeChars {cs : List Char} (h : ∀ c ∈ cs, isBlank c = true) :
    ∀ d ∈ escapeChars cs, isBlank d = true := by
  induction cs with
  | nil => simp [escapeChars]
  | cons c cs ih =>
    have hcs := ih fun d hd => h d (List.mem_cons_of_mem c hd)
    have hc := h c List.mem_cons_self
    have hbar : c ≠ '|' := by
      rintro rfl
      exact absurd hc (by decide)
    rw [escapeChars, if_neg hbar]
    split
    · simpa [isBlank] using hcs
    · simpa [hc] using hcs

/-- A character that is no white space is escaped by characters that are none. -/
theorem escapeChars_singleton {c : Char} (h : isBlank c = false) :
    escapeChars [c] = [c] ∨ escapeChars [c] = ['\\', '|'] := by
  have hfeed : c ≠ '\n' := by
    rintro rfl
    exact absurd h (by decide)
  by_cases hbar : c = '|'
  · exact .inr (by simp [escapeChars, hbar])
  · exact .inl (by simp [escapeChars, hbar, hfeed])

/-- Escaping keeps white space and all else apart, so it does not matter which comes first,
escaping or trimming. -/
theorem trimChars_escapeChars (cs : List Char) :
    trimChars (escapeChars cs) = escapeChars (trimChars cs) := by
  obtain ⟨front, back, hcs, hfront, hback, hhead, hlast⟩ := exists_trimChars cs
  have hsplit :
      escapeChars cs = escapeChars front ++ (escapeChars (trimChars cs) ++ escapeChars back) := by
    rw [← escapeChars_append, ← escapeChars_append, ← hcs]
  rw [hsplit]
  apply trimChars_framed (isBlank_of_mem_escapeChars hfront) (isBlank_of_mem_escapeChars hback)
  · intro d hd
    cases hinner : trimChars cs with
    | nil => simp [hinner, escapeChars] at hd
    | cons c rest =>
      have hc : isBlank c = false := hhead c (by simp [hinner])
      rw [hinner, ← List.singleton_append, escapeChars_append, List.head?_append] at hd
      rcases escapeChars_singleton hc with he | he <;> rw [he] at hd <;> cases hd
      · exact hc
      · decide
  · intro d hd
    rcases List.eq_nil_or_concat (trimChars cs) with hinner | ⟨rest, c, hinner⟩
    · simp [hinner, escapeChars] at hd
    · have hc : isBlank c = false := hlast c (by simp [hinner])
      rw [hinner, List.concat_eq_append, escapeChars_append, List.getLast?_append] at hd
      rcases escapeChars_singleton hc with he | he <;> rw [he] at hd <;> cases hd
      · exact hc
      · decide

theorem toList_escapeCell (text : String) :
    (escapeCell text).toList = escapeChars (trimChars text.toList) := by
  rw [escapeCell, String.toList_ofList, trimChars_escapeChars]

theorem not_mem_escapeChars (cs : List Char) : '\n' ∉ escapeChars cs := by
  induction cs with
  | nil => simp [escapeChars]
  | cons c cs ih =>
    rw [escapeChars]
    split
    · simp [ih]
    · split
      · simp [ih]
      · rename_i hfeed
        simp [ih, Ne.symm hfeed]

theorem head?_escapeChars (cs : List Char) : (escapeChars cs).head? ≠ some '|' := by
  cases cs with
  | nil => simp [escapeChars]
  | cons c cs =>
    rw [escapeChars]
    split
    · simp
    · split
      · simp
      · rename_i hbar _
        simpa using hbar

theorem unescapeChars_cons {c : Char} {rest : List Char} (h : c = '\\' → rest.head? ≠ some '|') :
    unescapeChars (c :: rest) = c :: unescapeChars rest := by
  rw [unescapeChars.eq_def]
  split
  · rename_i rest' he
    obtain ⟨rfl, rfl⟩ := List.cons.inj he
    exact absurd rfl (h rfl)
  · rename_i he
    obtain ⟨rfl, rfl⟩ := List.cons.inj he
    rfl
  · rename_i he
    cases he

/-- Only a bar is put behind a backslash, so a backslash that stands there anyway is kept. -/
theorem unescapeChars_escapeChars (cs : List Char) :
    unescapeChars (escapeChars cs) = cs.map fun c => if c = '\n' then ' ' else c := by
  induction cs with
  | nil => rfl
  | cons c cs ih =>
    rw [List.map_cons, ← ih, escapeChars]
    split
    · rename_i hbar
      simp [unescapeChars, hbar]
    · split
      · exact unescapeChars_cons fun _ => head?_escapeChars cs
      · exact unescapeChars_cons fun _ => head?_escapeChars cs

theorem unescape_escapeCell (text : String) :
    unescape (escapeCell text) = trim (substitute '\n' ' ' text) := by
  have hblank : ∀ c : Char, isBlank (if c = '\n' then ' ' else c) = isBlank c := by
    intro c
    split
    · rename_i hfeed
      rw [hfeed]
      decide
    · rfl
  rw [unescape, toList_escapeCell, unescapeChars_escapeChars, ← trimChars_map hblank, trim,
    substitute, String.toList_ofList]

/-- An escaped text has no bar at which the line is cut. -/
theorem barParts_escapeChars (escaped : Bool) (cs rest : List Char) :
    barParts escaped (escapeChars cs ++ ' ' :: rest) =
      (barParts false rest).modifyHead fun part => escapeChars cs ++ ' ' :: part := by
  induction cs generalizing escaped with
  | nil => simp [escapeChars, barParts]
  | cons c cs ih =>
    rw [escapeChars]
    split
    · rename_i hbar
      simp [barParts, ih, List.modifyHead_modifyHead, Function.comp_def]
    · rename_i hbar
      split
      · simp [barParts, ih, List.modifyHead_modifyHead, Function.comp_def]
      · simp [barParts, hbar, ih, List.modifyHead_modifyHead, Function.comp_def]

theorem toList_tableLine {cells : List String} (hne : cells ≠ []) :
    (tableLine cells).toList = '|' :: cells.flatMap fun cell =>
      ' ' :: (cell.toList ++ [' ', '|']) := by
  have hcells : ' ' :: ((" | ".intercalate cells).toList ++ [' ', '|']) =
      cells.flatMap fun cell => ' ' :: (cell.toList ++ [' ', '|']) := by
    induction cells with
    | nil => exact absurd rfl hne
    | cons cell cells ih =>
      cases cells with
      | nil => simp
      | cons next cells =>
        rw [List.flatMap_cons, ← ih (by simp)]
        simp
  rw [← hcells]
  simp [tableLine]

theorem barParts_cells (row : List String) :
    barParts false ((row.map escapeCell).flatMap fun cell => ' ' :: (cell.toList ++ [' ', '|'])) =
      (row.map fun text => ' ' :: ((escapeCell text).toList ++ [' '])) ++ [[]] := by
  induction row with
  | nil => rfl
  | cons text row ih =>
    have hcut : ∀ rest, barParts false (' ' :: ((escapeCell text).toList ++ ' ' :: '|' :: rest)) =
        (' ' :: ((escapeCell text).toList ++ [' '])) :: barParts false rest := by
      intro rest
      rw [toList_escapeCell]
      simp [barParts, barParts_escapeChars]
    have hrow :
        ((text :: row).map escapeCell).flatMap (fun cell => ' ' :: (cell.toList ++ [' ', '|'])) =
        ' ' :: ((escapeCell text).toList ++ ' ' :: '|' ::
          (row.map escapeCell).flatMap fun cell => ' ' :: (cell.toList ++ [' ', '|'])) := by
      simp
    rw [hrow, hcut, ih]
    rfl

/-- The line of a row shows the row. -/
theorem shows_tableLine {row : List String} (hne : row ≠ []) :
    Shows (tableLine (row.map escapeCell)) row := by
  refine ⟨row.map escapeCell, ?_, ?_⟩
  · have hbar : ∀ rest, barParts false ('|' :: rest) = [] :: barParts false rest :=
      fun rest => by simp [barParts]
    rw [cut, toList_tableLine (by simpa using hne), hbar, barParts_cells]
    simp [Function.comp_def, String.ofList_cons, String.append_assoc]
  · rw [List.map_map]
    exact List.map_congr_left fun text _ => unescape_escapeCell text

theorem not_mem_tableLine {cells : List String} (h : ∀ cell ∈ cells, '\n' ∉ cell.toList) :
    '\n' ∉ (tableLine cells).toList := by
  have hcells : '\n' ∉ (" | ".intercalate cells).toList := not_mem_intercalate_separator (by simp) h
  simpa [tableLine] using hcells

theorem not_mem_escapeCell (text : String) : '\n' ∉ (escapeCell text).toList := by
  rw [toList_escapeCell]
  exact not_mem_escapeChars _

/-- Each row of a table has a line behind the two lines of the header, and this line shows it. -/
theorem table_reads_back {headers : List String} {rows : List (List String)}
    (hheaders : ∀ header ∈ headers, '\n' ∉ header.toList) (hne : rows ≠ [])
    (hrows : ∀ row ∈ rows, row ≠ []) :
    ∃ lines, pieces '\n' (table headers rows) =
        tableLine headers :: tableLine (headers.map fun _ => "---") :: lines ∧
        List.Forall₂ Shows lines rows := by
  refine ⟨rows.map fun row => tableLine (row.map escapeCell), ?_, ?_⟩
  · rw [table, if_neg (by simpa using hne), pieces_intercalate_separator rfl (by simp)]
    intro line hline
    simp only [List.mem_cons, List.mem_map] at hline
    obtain rfl | rfl | ⟨row, _, rfl⟩ := hline
    · exact not_mem_tableLine hheaders
    · exact not_mem_tableLine (by simp)
    · exact not_mem_tableLine (by simpa using fun text _ => not_mem_escapeCell text)
  · rw [List.forall₂_map_left_iff, List.forall₂_same]
    exact fun row hrow => shows_tableLine (hrows row hrow)

/-- Rows with bars behind backslashes, bars and backslashes at the ends of cells, an empty cell
and line feeds. -/
def crossedRows : List (List String) :=
  [["a\\|b", "", "||"], ["x\\"], [" \n|\\ ", "one\ntwo"]]

theorem table_reads_back_crossed :
    (∀ header ∈ ["A", "B\\"], '\n' ∉ header.toList) ∧ crossedRows ≠ [] ∧
      (∀ row ∈ crossedRows, row ≠ []) ∧
      ∃ first second third, pieces '\n' (table ["A", "B\\"] crossedRows) =
          ["| A | B\\ |", "| --- | --- |", first, second, third] ∧
        Shows first ["a\\|b", "", "||"] ∧ Shows second ["x\\"] ∧
        Shows third [" \n|\\ ", "one\ntwo"] := by
  have hheaders : ∀ header ∈ ["A", "B\\"], '\n' ∉ header.toList := by simp
  have hne : crossedRows ≠ [] := by simp [crossedRows]
  have hrows : ∀ row ∈ crossedRows, row ≠ [] := by simp [crossedRows]
  obtain ⟨lines, hlines, hshows⟩ := table_reads_back hheaders hne hrows
  simp only [crossedRows, List.forall₂_cons_right_iff, List.forall₂_nil_right_iff] at hshows
  obtain ⟨first, _, hfirst, ⟨second, _, hsecond, ⟨third, _, hthird, rfl, rfl⟩, rfl⟩, rfl⟩ := hshows
  exact ⟨hheaders, hne, hrows, first, second, third, hlines, hfirst, hsecond, hthird⟩

end PhpPages.Markdown

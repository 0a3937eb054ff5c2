import Mathlib.Data.List.SplitBy
import Mathlib.Data.List.TakeWhile
import PhpPages.Docblock
import PhpPages.Proofs.Text

namespace PhpPages.Docblock

open Text

/-- The lines as a doc comment, each behind a star. -/
def layout (lines : List String) : String :=
  "/**\n" ++ String.join (lines.map fun line => " * " ++ line ++ "\n") ++ " */"

/-- Behind spaces and tabs the line goes on with a sign and a word character. -/
def StartsTag (line : String) : Prop :=
  ∃ indent c rest, line.toList = indent ++ '@' :: c :: rest ∧ (∀ i ∈ indent, i = ' ' ∨ i = '\t') ∧
    isWord c = true

/-- The pieces of a text that are line feeds alone or have none, as long as they can be. -/
def runs (cs : List Char) : List (List Char) :=
  cs.splitBy fun a b => (a == '\n') == (b == '\n')

/-- The text with at most two of the line feeds that follow one another. -/
def shortened (s : String) : String :=
  String.ofList ((runs s.toList).flatMap fun run => if '\n' ∈ run then run.take 2 else run)

theorem isTagLine_iff (line : List Char) :
    isTagLine line = true ↔ StartsTag (String.ofList line) := by
  have hindent : ∀ i : Char, (i == ' ' || i == '\t') = true ↔ i = ' ' ∨ i = '\t' := by simp
  constructor
  · intro h
    unfold isTagLine at h
    split at h
    · rename_i c rest hdrop
      refine ⟨line.takeWhile fun i => i == ' ' || i == '\t', c, rest, ?_, ?_, h⟩
      · rw [String.toList_ofList, ← hdrop, List.takeWhile_append_dropWhile]
      · intro i hi
        simpa using List.mem_takeWhile_imp hi
    · cases h
  · intro h
    obtain ⟨indent, c, rest, hline, hall, hc⟩ := h
    rw [String.toList_ofList] at hline
    have hdrop : (line.dropWhile fun i => i == ' ' || i == '\t') = '@' :: c :: rest := by
      rw [hline, List.dropWhile_append_of_pos fun i hi => (hindent i).mpr (hall i hi)]
      rfl
    rw [isTagLine, hdrop]
    exact hc

/-- A text begins with line feeds, after which something else comes, or with a run without any. -/
theorem exists_run (c : Char) (cs : List Char) :
    ∃ run rest, c :: cs = run ++ rest ∧ runs (c :: cs) = run :: runs rest ∧
      rest.length ≤ cs.length ∧
      ((∃ n, run = List.replicate (n + 1) '\n' ∧ rest.head? ≠ some '\n') ∨ '\n' ∉ run) := by
  let same : Char → Bool := fun d => (d == '\n') == (c == '\n')
  have hsame : ∀ d ∈ (c :: cs).takeWhile same, (d == '\n') = (c == '\n') := by
    intro d hd
    simpa [same] using List.mem_takeWhile_imp hd
  have hend : ∀ d ∈ ((c :: cs).dropWhile same).head?, (d == '\n') ≠ (c == '\n') := by
    intro d hd
    have hnot := List.head?_dropWhile_not same (c :: cs)
    rw [hd] at hnot
    simpa [same] using hnot
  have hcons : (c :: cs).takeWhile same = c :: cs.takeWhile same := by simp [same]
  refine ⟨(c :: cs).takeWhile same, (c :: cs).dropWhile same,
    List.takeWhile_append_dropWhile.symm, ?_, ?_, ?_⟩
  · conv_lhs => rw [← List.takeWhile_append_dropWhile (p := same) (l := c :: cs)]
    rw [runs, List.splitBy_append, List.splitBy_of_isChain]
    · rfl
    · simp [hcons]
    · refine List.Pairwise.isChain (List.pairwise_of_forall_mem_list fun x hx y hy => ?_)
      simp [hsame x hx, hsame y hy]
    · intro x hx y hy
      simpa [hsame x (List.mem_of_getLast? hx)] using (hend y hy).symm
  · have hdrop : (c :: cs).dropWhile same = cs.dropWhile same := by simp [same]
    rw [hdrop]
    exact List.length_dropWhile_le same cs
  · by_cases hc : c = '\n'
    · refine .inl ⟨(cs.takeWhile same).length, ?_, ?_⟩
      · rw [List.eq_replicate_iff]
        refine ⟨by simp [hcons], fun d hd => ?_⟩
        simpa [hc] using hsame d hd
      · intro hhead
        exact hend '\n' hhead (by simp [hc])
    · refine .inr fun hmem => ?_
      exact absurd (hsame '\n' hmem) (by simp [hc])

theorem shortenRuns_feeds (n k : Nat) {rest : List Char} (h : rest.head? ≠ some '\n') :
    shortenRuns k (List.replicate n '\n' ++ rest) =
      List.replicate (min n (2 - k)) '\n' ++ shortenRuns 0 rest := by
  induction n generalizing k with
  | zero =>
    cases rest with
    | nil => rfl
    | cons c rest =>
      have hc : c ≠ '\n' := by simpa using h
      simp [shortenRuns, hc]
  | succ n ih =>
    rw [List.replicate_succ, List.cons_append, shortenRuns, if_pos rfl]
    split
    · rename_i hk
      have hmin : min (n + 1) (2 - k) = min n (2 - (k + 1)) + 1 := by omega
      rw [ih, hmin, List.replicate_succ, List.cons_append]
    · rename_i hk
      have hmin : min (n + 1) (2 - k) = min n (2 - k) := by omega
      rw [ih, hmin]

theorem shortenRuns_text {text : List Char} (h : '\n' ∉ text) (rest : List Char) :
    shortenRuns 0 (text ++ rest) = text ++ shortenRuns 0 rest := by
  induction text with
  | nil => rfl
  | cons c text ih =>
    have hc : c ≠ '\n' := fun he => h (by simp [he])
    have htext : '\n' ∉ text := fun hmem => h (by simp [hmem])
    simp [shortenRuns, hc, ih htext]

/-- Counting the line feeds passed shortens each run of them to two. -/
theorem shortenRuns_eq (cs : List Char) :
    shortenRuns 0 cs = (runs cs).flatMap fun run => if '\n' ∈ run then run.take 2 else run := by
  match cs with
  | [] => rfl
  | c :: cs =>
    obtain ⟨run, rest, hsplit, hruns, hlength, hrun⟩ := exists_run c cs
    have ih := shortenRuns_eq rest
    rw [hruns, List.flatMap_cons, ← ih, hsplit]
    obtain ⟨n, rfl, hhead⟩ | hrun := hrun
    · rw [shortenRuns_feeds _ _ hhead, if_pos (by simp), List.take_replicate, Nat.min_comm]
    · rw [shortenRuns_text hrun, if_neg hrun]
termination_by cs.length
decreasing_by simpa using Nat.lt_succ_of_le hlength

theorem mem_of_mem_shortenRuns {d : Char} {k : Nat} {cs : List Char} (h : d ∈ shortenRuns k cs) :
    d ∈ cs := by
  induction cs generalizing k with
  | nil => cases h
  | cons c cs ih =>
    unfold shortenRuns at h
    split at h
    · split at h
      · exact (List.mem_cons.mp h).elim (by simp_all) fun h => List.mem_cons_of_mem c (ih h)
      · exact List.mem_cons_of_mem c (ih h)
    · exact (List.mem_cons.mp h).elim (by simp_all) fun h => List.mem_cons_of_mem c (ih h)

/-- White space behind a text leaves nothing but white space behind the shortened text. -/
theorem shortenRuns_append_blanks (k : Nat) (cs : List Char) {bs : List Char}
    (h : ∀ b ∈ bs, isBlank b = true) :
    ∃ bs', (∀ b ∈ bs', isBlank b = true) ∧ shortenRuns k (cs ++ bs) = shortenRuns k cs ++ bs' := by
  induction cs generalizing k with
  | nil => exact ⟨shortenRuns k bs, fun b hb => h b (mem_of_mem_shortenRuns hb), rfl⟩
  | cons c cs ih =>
    simp only [List.cons_append, shortenRuns]
    split
    · split
      · obtain ⟨bs', hbs', heq⟩ := ih (k + 1)
        exact ⟨bs', hbs', by rw [heq, List.cons_append]⟩
      · exact ih k
    · obtain ⟨bs', hbs', heq⟩ := ih 0
      exact ⟨bs', hbs', by rw [heq, List.cons_append]⟩

/-- How many line feeds came before shows only in white space at the front. -/
theorem dropWhile_shortenRuns (k : Nat) (cs : List Char) :
    (shortenRuns k cs).dropWhile isBlank = (shortenRuns 0 cs).dropWhile isBlank := by
  have hfeed : isBlank '\n' = true := by decide
  induction cs generalizing k with
  | nil => rfl
  | cons c cs ih =>
    by_cases hc : c = '\n'
    · by_cases hk : k < 2
      · simp [shortenRuns, hc, hk, hfeed, ih (k + 1), ih 1]
      · simp [shortenRuns, hc, hk, hfeed, ih k, ih 1]
    · simp [shortenRuns, hc]

/-- White space around a text has no influence on the shortened text without white
space at its ends. -/
theorem trimChars_shortenRuns (cs : List Char) {bs : List Char} (h : ∀ b ∈ bs, isBlank b = true) :
    trimChars (shortenRuns 0 ('\n' :: (cs ++ bs))) = trimChars (shortenRuns 0 cs) := by
  obtain ⟨bs', hbs', heq⟩ := shortenRuns_append_blanks 0 cs h
  have hfront : (shortenRuns 0 ('\n' :: (cs ++ bs))).dropWhile isBlank =
      (shortenRuns 0 (cs ++ bs)).dropWhile isBlank := by
    have hfeed : isBlank '\n' = true := by decide
    simp [shortenRuns, hfeed, dropWhile_shortenRuns 1]
  have htrim :
      trimChars (shortenRuns 0 ('\n' :: (cs ++ bs))) = trimChars (shortenRuns 0 (cs ++ bs)) := by
    rw [trimChars, hfront, trimChars]
  rw [htrim, heq, trimChars_append_blanks hbs']

/-- Lines that each end in a line feed, and a last one without. -/
theorem splitOn_lines {ls : List (List Char)} {last : List Char} (hls : ∀ l ∈ ls, '\n' ∉ l)
    (hlast : '\n' ∉ last) : (ls.flatMap (· ++ ['\n']) ++ last).splitOn '\n' = ls ++ [last] := by
  induction ls with
  | nil => exact List.splitOn_eq_singleton hlast
  | cons l ls ih =>
    have hrest := ih fun l' hl' => hls l' (List.mem_cons_of_mem l hl')
    rw [List.flatMap_cons, List.append_assoc, List.append_assoc, List.singleton_append,
      List.splitOn_append_cons_self, hrest, List.splitOn_eq_singleton (hls l (by simp))]
    rfl

theorem intercalate_lines (ls : List (List Char)) (last : List Char) :
    ['\n'].intercalate (ls ++ [last]) = ls.flatMap (· ++ ['\n']) ++ last := by
  induction ls with
  | nil => simp
  | cons l ls ih =>
    cases ls with
    | nil => simp
    | cons l' ls =>
      rw [List.cons_append, List.cons_append, List.intercalate_cons_cons, ← List.cons_append, ih]
      simp

/-- What stands around the lines of a layout is gone with the white space at the ends. -/
theorem trimChars_shortenRuns_lines (ls : List (List Char)) :
    trimChars (shortenRuns 0 (([] :: ls).flatMap (· ++ ['\n']) ++ [' '])) =
      trimChars (shortenRuns 0 (['\n'].intercalate ls)) := by
  obtain ⟨bs, hbs, heq⟩ : ∃ bs, (∀ b ∈ bs, isBlank b = true) ∧
      ls.flatMap (· ++ ['\n']) ++ [' '] = ['\n'].intercalate ls ++ bs := by
    cases ls.eq_nil_or_concat with
    | inl h => exact ⟨[' '], by simp [isBlank], by simp [h]⟩
    | inr h =>
      obtain ⟨ls, last, rfl⟩ := h
      refine ⟨['\n', ' '], by simp [isBlank], ?_⟩
      rw [List.concat_eq_append, intercalate_lines]
      simp
  rw [← trimChars_shortenRuns (['\n'].intercalate ls) hbs, ← heq]
  rfl

instance (line : String) : Decidable (StartsTag line) :=
  decidable_of_iff (isTagLine line.toList = true) (by simp [isTagLine_iff])

/-- A line as the layout puts it: behind a star. -/
def starred (line : String) : List Char :=
  ' ' :: '*' :: ' ' :: line.toList

theorem toList_layout (lines : List String) :
    (layout lines).toList =
      '/' :: '*' :: '*' ::
        ((([] :: lines.map starred).flatMap (· ++ ['\n']) ++ [' ']) ++ ['*', '/']) := by
  simp [layout, starred, List.flatMap_map]

/-- The delimiters are no white space, and without them the text between them is left. -/
theorem withoutDelimiters_enclosed (inner : List Char) :
    withoutDelimiters (trimChars ('/' :: '*' :: '*' :: (inner ++ ['*', '/']))) = inner := by
  have hslash : isBlank '/' = false := by decide
  have htrim : trimChars ('/' :: '*' :: '*' :: (inner ++ ['*', '/'])) =
      '/' :: '*' :: '*' :: (inner ++ ['*', '/']) := by
    rw [trimChars, List.dropWhile_cons_of_neg (by simp [hslash])]
    simpa using dropEndWhile_snoc (a := '/' :: '*' :: '*' :: (inner ++ ['*'])) hslash
  have hsuffix : ['*', '/'].isSuffixOf (inner ++ ['*', '/']) = true := by simp
  rw [htrim, withoutDelimiters, if_pos hsuffix, List.dropLast_append_of_ne_nil (by simp),
    List.dropLast_append_of_ne_nil (by simp)]
  simp

theorem withoutStar_starred (line : String) : withoutStar (starred line) = line.toList := by
  have hspace : isBlank ' ' = true := by decide
  have hstar : isBlank '*' = false := by decide
  simp [withoutStar, starred, hspace, hstar]

theorem proseChars_layout (lines : List String) (h : ∀ line ∈ lines, '\n' ∉ line.toList) :
    proseChars (layout lines).toList =
      trimChars (shortenRuns 0 (['\n'].intercalate
        (lines.map fun line => if isTagLine line.toList then [] else line.toList))) := by
  have hfree : ∀ l ∈ [] :: lines.map starred, '\n' ∉ l := by
    intro l hl
    rcases List.mem_cons.mp hl with rfl | hl
    · simp
    · obtain ⟨line, hline, rfl⟩ := List.mem_map.mp hl
      simpa [starred] using h line hline
  have hlines : (([] :: lines.map starred) ++ [[' ']]).map withoutStar =
      ([] :: lines.map String.toList) ++ [[' ']] := by
    have hempty : withoutStar [] = [] := rfl
    have hspace : withoutStar [' '] = [' '] := by decide
    simp [withoutStar_starred, hempty, hspace]
  have hkept :
      ((([] :: lines.map String.toList) ++ [[' ']]).map fun line =>
        if isTagLine line then [] else line) =
        ([] :: lines.map fun line => if isTagLine line.toList then [] else line.toList) ++
          [[' ']] := by
    have hempty : isTagLine [] = false := rfl
    have hspace : isTagLine [' '] = false := by decide
    simp [hempty, hspace]
  rw [proseChars, toList_layout, withoutDelimiters_enclosed, splitOn_lines hfree (by simp), hlines,
    hkept, intercalate_lines, trimChars_shortenRuns_lines]

/-- The prose of a doc comment in the usual layout is made of its lines, with nothing in place of
tag lines, no more than two line feeds in a row and no white space at the ends. -/
theorem prose_layout (lines : List String) (h : ∀ line ∈ lines, '\n' ∉ line.toList) :
    prose (some (layout lines)) =
      trim (shortened
        ("\n".intercalate (lines.map fun line => if StartsTag line then "" else line))) := by
  have hkept : (lines.map fun line => if isTagLine line.toList then [] else line.toList) =
      (lines.map fun line => if StartsTag line then "" else line).map String.toList := by
    rw [List.map_map]
    apply List.map_congr_left
    intro line _
    by_cases htag : StartsTag line
    · simp [htag, isTagLine_iff]
    · simp [htag, isTagLine_iff]
  rw [prose, proseChars_layout lines h, hkept, shortenRuns_eq, trim, shortened,
    String.toList_ofList, String.toList_intercalate]
  rfl

theorem prose_layout_sample :
    (∀ line ∈ ["Sends mail.", "  * to a@b.org", "\t@param int $x", "", "*/ ends", "@ home"],
      '\n' ∉ line.toList) ∧
      prose (some
        (layout ["Sends mail.", "  * to a@b.org", "\t@param int $x", "", "*/ ends", "@ home"])) =
        "Sends mail.\n  * to a@b.org\n\n*/ ends\n@ home" := by
  refine ⟨by decide, (prose_layout _ (by decide)).trans ?_⟩
  decide +kernel

end PhpPages.Docblock

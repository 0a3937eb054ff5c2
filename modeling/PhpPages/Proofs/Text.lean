import PhpPages.Text.Blank
import PhpPages.Text.Pieces

namespace PhpPages.Text

theorem exists_snoc {α : Type} {l : List α} (h : l ≠ []) : ∃ xs x, l = xs ++ [x] :=
  ⟨l.dropLast, l.getLast h, (List.dropLast_concat_getLast h).symm⟩

theorem forall_mem_snoc {α : Type} {p : α → Prop} {xs : List α} {x : α} (hxs : ∀ y ∈ xs, p y)
    (hx : p x) : ∀ y ∈ xs ++ [x], p y := by
  simpa [or_imp, forall_and] using ⟨hxs, hx⟩

/-- Among elements of which some have a property there is a last one that has it. -/
theorem exists_last {α : Type} {P : α → Prop} {l : List α} (h : ∃ x ∈ l, P x) :
    ∃ before x after, l = before ++ x :: after ∧ P x ∧ ∀ y ∈ after, ¬ P y := by
  induction l with
  | nil =>
    obtain ⟨_, hx, _⟩ := h
    cases hx
  | cons x l ih =>
    by_cases hrest : ∃ y ∈ l, P y
    · obtain ⟨before, y, after, rfl, hy⟩ := ih hrest
      exact ⟨x :: before, y, after, rfl, hy⟩
    · obtain ⟨y, hy, hP⟩ := h
      rcases List.mem_cons.mp hy with rfl | hy
      · exact ⟨[], y, l, rfl, hP, fun z hz hPz => hrest ⟨z, hz, hPz⟩⟩
      · exact absurd ⟨y, hy, hP⟩ hrest

theorem pieces_ne_nil (c : Char) (s : String) : pieces c s ≠ [] := by
  simp [pieces]

theorem lastPiece_eq (c : Char) (s : String) :
    lastPiece c s = (pieces c s).getLast (pieces_ne_nil c s) := by
  simp [lastPiece, pieces, List.getLast?_eq_some_getLast]

theorem pieces_of_not_mem {c : Char} {s : String} (h : c ∉ s.toList) : pieces c s = [s] := by
  simp [pieces, List.splitOn_eq_singleton h]

/-- Cutting at a separator that stands in the text is cutting both sides of it. -/
theorem pieces_append_separator {c : Char} {separator : String} (hc : separator.toList = [c])
    (a b : String) : pieces c (a ++ separator ++ b) = pieces c a ++ pieces c b := by
  simp [pieces, hc, List.splitOn_append_cons_self]

theorem pieces_append_slash (a b : String) :
    pieces '/' (a ++ "/" ++ b) = pieces '/' a ++ pieces '/' b :=
  pieces_append_separator rfl a b

theorem pieces_slash_append (s : String) : pieces '/' ("/" ++ s) = "" :: pieces '/' s := by
  have h := pieces_append_slash "" s
  simpa [pieces_of_not_mem] using h

theorem intercalate_pieces (s : String) : "/".intercalate (pieces '/' s) = s := by
  apply String.toList_inj.mp
  simp [pieces, Function.comp_def]

/-- Pieces without the separator are found again in the text they make up. -/
theorem pieces_intercalate_separator {c : Char} {separator : String} (hc : separator.toList = [c])
    {ps : List String} (hne : ps ≠ []) (hs : ∀ p ∈ ps, c ∉ p.toList) :
    pieces c (separator.intercalate ps) = ps := by
  have hsplit :
      (([c] : List Char).intercalate (ps.map String.toList)).splitOn c = ps.map String.toList := by
    apply List.splitOn_intercalate
    · intro l hl
      obtain ⟨p, hp, rfl⟩ := List.mem_map.mp hl
      exact hs p hp
    · simpa using hne
  simp [pieces, hc, hsplit, Function.comp_def]

theorem pieces_intercalate {ps : List String} (hne : ps ≠ []) (hs : ∀ p ∈ ps, '/' ∉ p.toList) :
    pieces '/' ("/".intercalate ps) = ps :=
  pieces_intercalate_separator rfl hne hs

/-- A text determines its pieces, and the pieces determine the text. -/
theorem pieces_inj {s t : String} (h : pieces '/' s = pieces '/' t) : s = t := by
  rw [← intercalate_pieces s, ← intercalate_pieces t, h]

theorem mem_of_mem_splitOn {c : Char} {cs p : List Char} (h : p ∈ cs.splitOn c) :
    c ∉ p ∧ ∀ d ∈ p, d ∈ cs := by
  induction cs generalizing p with
  | nil => simp_all
  | cons x xs ih =>
    rw [List.splitOn_cons_eq_if_modifyHead] at h
    split at h
    · rcases List.mem_cons.mp h with rfl | h
      · simp
      · exact ⟨(ih h).1, fun d hd => by simp [(ih h).2 d hd]⟩
    · rename_i hx
      cases hs : xs.splitOn c with
      | nil => simp at hs
      | cons q qs =>
        rw [hs] at h ih
        rcases List.mem_cons.mp h with rfl | h
        · obtain ⟨hc, hm⟩ := ih (List.mem_cons_self ..)
          have hne : c ≠ x := fun e => hx (by simp [e])
          refine ⟨by simp [hne, hc], fun d hd => ?_⟩
          rcases List.mem_cons.mp hd with rfl | hd
          · simp
          · simp [hm d hd]
        · obtain ⟨hc, hm⟩ := ih (List.mem_cons_of_mem _ h)
          exact ⟨hc, fun d hd => by simp [hm d hd]⟩

/-- A piece has no separator in it and only characters of the text. -/
theorem mem_pieces {c : Char} {s p : String} (h : p ∈ pieces c s) :
    c ∉ p.toList ∧ ∀ d ∈ p.toList, d ∈ s.toList := by
  obtain ⟨cs, hc, rfl⟩ := List.mem_map.mp h
  simpa using mem_of_mem_splitOn hc

theorem not_mem_intercalate_separator {c : Char} {separator : String} {ps : List String}
    (hc : c ∉ separator.toList) (hp : ∀ p ∈ ps, c ∉ p.toList) :
    c ∉ (separator.intercalate ps).toList := by
  rw [String.toList_intercalate]
  induction ps with
  | nil => simp
  | cons p ps ih =>
    have hrest := ih fun q hq => hp q (List.mem_cons_of_mem _ hq)
    cases ps with
    | nil => simpa using hp p (by simp)
    | cons q ps =>
      simp only [List.map_cons, List.intercalate_cons_cons, List.mem_append, not_or]
      exact ⟨⟨hp p (by simp), hc⟩, hrest⟩

/-- Between two pieces stands a separator. -/
theorem mem_intercalate_separator {c : Char} {separator : String} (hc : separator.toList = [c])
    {ps : List String} (h : 2 ≤ ps.length) : c ∈ (separator.intercalate ps).toList := by
  match ps, h with
  | p :: q :: ps, _ => simp [String.toList_intercalate, hc]

theorem intercalate_cons_ne_empty (separator : String) {p : String} (hp : p ≠ "")
    (ps : List String) : separator.intercalate (p :: ps) ≠ "" := by
  cases ps <;> simp [hp]

theorem not_mem_intercalate {c : Char} {ps : List String} (hc : c ≠ '/')
    (hp : ∀ p ∈ ps, c ∉ p.toList) : c ∉ ("/".intercalate ps).toList :=
  not_mem_intercalate_separator (by simpa using hc) hp

theorem dropEndWhile_ne_nil {α : Type} {p : α → Bool} {b : List α} (h : ∃ x ∈ b, p x = false) :
    dropEndWhile p b ≠ [] := by
  intro he
  obtain ⟨x, hx, hp⟩ := h
  have hall : b.reverse.takeWhile p = b.reverse := by
    have happend := List.takeWhile_append_dropWhile (p := p) (l := b.reverse)
    rwa [List.reverse_eq_nil_iff.mp he, List.append_nil] at happend
  have hmem : x ∈ b.reverse.takeWhile p := by
    rw [hall]
    simpa using hx
  have hxp := List.all_eq_true.mp List.all_takeWhile x hmem
  rw [hp] at hxp
  cases hxp

theorem dropEndWhile_all {α : Type} {p : α → Bool} {a b : List α} (h : ∀ x ∈ b, p x = true) :
    dropEndWhile p (a ++ b) = dropEndWhile p a := by
  rw [dropEndWhile, List.reverse_append,
    List.dropWhile_append_of_pos fun x hx => h x (List.mem_reverse.mp hx)]
  rfl

theorem dropEndWhile_snoc {α : Type} {p : α → Bool} {a : List α} {x : α} (h : p x = false) :
    dropEndWhile p (a ++ [x]) = a ++ [x] := by
  simp [dropEndWhile, h]

/-- What stays at the end of a list stays there whatever stands in front. -/
theorem dropEndWhile_append {α : Type} {p : α → Bool} {a b : List α} (h : ∃ x ∈ b, p x = false) :
    dropEndWhile p (a ++ b) = a ++ dropEndWhile p b := by
  have hne : (b.reverse.dropWhile p).isEmpty = false := by
    have := dropEndWhile_ne_nil h
    simpa [dropEndWhile] using this
  simp [dropEndWhile, List.dropWhile_append, hne]

theorem getLast?_toList_append {b : String} {x : Char} (h : b.toList.getLast? = some x)
    (a : String) : (a ++ b).toList.getLast? = some x := by
  rw [String.toList_append, List.getLast?_append, h]
  rfl

theorem trimEnd_append_blanks {s t : String} {x : Char} (hlast : s.toList.getLast? = some x)
    (hx : isBlank x = false) (ht : ∀ c ∈ t.toList, isBlank c = true) : trimEnd (s ++ t) = s := by
  obtain ⟨front, hfront⟩ := List.getLast?_eq_some_iff.mp hlast
  rw [trimEnd, String.toList_append, dropEndWhile_all ht, hfront, dropEndWhile_snoc hx, ← hfront,
    String.ofList_toList]

theorem trimChars_append_blanks {cs bs : List Char} (h : ∀ b ∈ bs, isBlank b = true) :
    trimChars (cs ++ bs) = trimChars cs := by
  rw [trimChars, trimChars, List.dropWhile_append]
  split
  · rename_i hempty
    have hbs : (bs ++ []).dropWhile isBlank = [].dropWhile isBlank := List.dropWhile_append_of_pos h
    rw [List.append_nil, List.dropWhile_nil] at hbs
    rw [hbs, List.isEmpty_iff.mp hempty]
  · exact dropEndWhile_all h

/-- A text is what trimming leaves of it, between white space. -/
theorem exists_trimChars (cs : List Char) :
    ∃ front back, cs = front ++ (trimChars cs ++ back) ∧ (∀ c ∈ front, isBlank c = true) ∧
      (∀ c ∈ back, isBlank c = true) ∧ (∀ c ∈ (trimChars cs).head?, isBlank c = false) ∧
      ∀ c ∈ (trimChars cs).getLast?, isBlank c = false := by
  have hnot : ∀ l : List Char, ∀ c ∈ (l.dropWhile isBlank).head?, isBlank c = false := by
    intro l c hc
    have hhead := List.head?_dropWhile_not isBlank l
    rw [hc] at hhead
    simpa using hhead
  have hback : cs.dropWhile isBlank = trimChars cs ++
      ((cs.dropWhile isBlank).reverse.takeWhile isBlank).reverse := by
    rw [trimChars, dropEndWhile, ← List.reverse_append, List.takeWhile_append_dropWhile,
      List.reverse_reverse]
  refine ⟨cs.takeWhile isBlank, ((cs.dropWhile isBlank).reverse.takeWhile isBlank).reverse, ?_,
    ?_, ?_, ?_, ?_⟩
  · rw [← hback, List.takeWhile_append_dropWhile]
  · exact List.all_eq_true.mp List.all_takeWhile
  · intro c hc
    exact List.all_eq_true.mp List.all_takeWhile c (List.mem_reverse.mp hc)
  · intro c hc
    apply hnot cs
    rw [hback, List.head?_append, hc]
    rfl
  · intro c hc
    rw [trimChars, dropEndWhile, List.getLast?_reverse] at hc
    exact hnot _ c hc

/-- Trimming leaves nothing of white space alone. -/
theorem trimChars_eq_nil_iff {cs : List Char} : trimChars cs = [] ↔ ∀ c ∈ cs, isBlank c = true := by
  constructor
  · intro htrim c hc
    obtain ⟨front, back, heq, hfront, hback, _⟩ := exists_trimChars cs
    rw [heq, htrim, List.nil_append, List.mem_append] at hc
    exact hc.elim (hfront c) (hback c)
  · intro hall
    have hblanks : trimChars ([] ++ cs) = trimChars [] := trimChars_append_blanks hall
    exact hblanks

/-- White space around a text without any at its ends is what trimming takes away. -/
theorem trimChars_framed {front inner back : List Char} (hfront : ∀ c ∈ front, isBlank c = true)
    (hback : ∀ c ∈ back, isBlank c = true) (hhead : ∀ c ∈ inner.head?, isBlank c = false)
    (hlast : ∀ c ∈ inner.getLast?, isBlank c = false) :
    trimChars (front ++ (inner ++ back)) = inner := by
  rw [← List.append_assoc, trimChars_append_blanks hback, trimChars,
    List.dropWhile_append_of_pos hfront]
  by_cases hne : inner = []
  · rw [hne]
    rfl
  · obtain ⟨c, rest, hc⟩ := List.exists_cons_of_ne_nil hne
    have hfirst : isBlank c = false := hhead c (by simp [hc])
    rw [hc, List.dropWhile_cons_of_neg (by simp [hfirst]), ← hc]
    obtain ⟨body, d, hd⟩ := exists_snoc hne
    rw [hd, dropEndWhile_snoc (hlast d (by simp [hd]))]

theorem trimChars_of_ends {cs : List Char} (hhead : ∀ c ∈ cs.head?, isBlank c = false)
    (hlast : ∀ c ∈ cs.getLast?, isBlank c = false) : trimChars cs = cs := by
  have htrim : trimChars ([] ++ (cs ++ [])) = cs := trimChars_framed (by simp) (by simp) hhead hlast
  rwa [List.nil_append, List.append_nil] at htrim

theorem trimChars_trimChars (cs : List Char) : trimChars (trimChars cs) = trimChars cs := by
  obtain ⟨_, _, _, _, _, hhead, hlast⟩ := exists_trimChars cs
  exact trimChars_of_ends hhead hlast

theorem trimChars_map {f : Char → Char} (hf : ∀ c, isBlank (f c) = isBlank c) (cs : List Char) :
    trimChars (cs.map f) = (trimChars cs).map f := by
  have hcomp : isBlank ∘ f = isBlank := funext hf
  rw [trimChars, dropEndWhile, List.dropWhile_map, ← List.map_reverse, List.dropWhile_map, hcomp,
    ← List.map_reverse]
  rfl

theorem trimChars_isInfix (cs : List Char) : trimChars cs <:+: cs := by
  have hend : trimChars cs <+: cs.dropWhile isBlank := by
    rw [trimChars, dropEndWhile, ← List.reverse_suffix, List.reverse_reverse]
    exact List.dropWhile_suffix isBlank
  exact hend.isInfix.trans (List.dropWhile_suffix isBlank).isInfix

theorem dropLeading_of_head {cs : List Char} {s : String} (h : ∀ c ∈ s.toList.head?, c ∉ cs) :
    dropLeading cs s = s := by
  apply String.toList_inj.mp
  rw [dropLeading, String.toList_ofList]
  cases hs : s.toList with
  | nil => rfl
  | cons c rest =>
    have hc : c ∉ cs := h c (by simp [hs])
    simp [hc]

theorem dropTrailing_congr {cs ds : List Char} {s : String}
    (h : ∀ c ∈ s.toList, cs.contains c = ds.contains c) :
    dropTrailing cs s = dropTrailing ds s := by
  have hdrop : ∀ l : List Char, (∀ c ∈ l, cs.contains c = ds.contains c) →
      l.dropWhile cs.contains = l.dropWhile ds.contains := by
    intro l hl
    induction l with
    | nil => rfl
    | cons c l ih =>
      have ih := ih fun c hc => hl c (by simp [hc])
      have hc := hl c (by simp)
      rw [List.dropWhile_cons, List.dropWhile_cons, hc, ih]
  rw [dropTrailing, dropTrailing, hdrop _ fun c hc => h c (by simpa using hc)]

/-- What holds between a text and itself, and still when slashes are put behind the second, holds
between a text without the slashes at its end and the text. -/
theorem dropTrailing_slashes {P : String → String → Prop} (hrefl : ∀ s, P s s)
    (hslash : ∀ s t, P s t → P s (t ++ "/" ++ "")) (s : String) : P (dropTrailing ['/'] s) s := by
  obtain ⟨cs, rfl⟩ : ∃ cs : List Char, s = String.ofList cs.reverse := ⟨s.toList.reverse, by simp⟩
  induction cs with
  | nil => exact hrefl _
  | cons c cs ih =>
    by_cases hc : c = '/'
    · have hdrop : dropTrailing ['/'] (String.ofList (c :: cs).reverse) =
          dropTrailing ['/'] (String.ofList cs.reverse) := by
        simp [dropTrailing, hc]
      have hs : String.ofList (c :: cs).reverse = String.ofList cs.reverse ++ "/" ++ "" := by
        apply String.toList_inj.mp
        simp [hc]
      rw [hdrop, hs]
      exact hslash _ _ ih
    · have hkeep : dropTrailing ['/'] (String.ofList (c :: cs).reverse) =
          String.ofList (c :: cs).reverse := by
        simp [dropTrailing, hc]
      rw [hkeep]
      exact hrefl _

end PhpPages.Text

import PhpPages.FileSystem.Basic
import PhpPages.Path.Segments
import PhpPages.Proofs.Text

namespace PhpPages

open Text

namespace Segments

/-- Whether a walk through segments goes back beyond its start, which is `depth` segments behind. -/
def climbs (depth : Nat) : List String → Bool
  | [] => false
  | s :: rest =>
    if isDropped s then climbs depth rest
    else if s = ".." then
      match depth with
      | 0 => true
      | d + 1 => climbs d rest
    else climbs (depth + 1) rest

/-- A walk that must not leave its start is refused exactly if it climbs above it, and otherwise
comes to what the walk comes to that stays there. -/
theorem collapse?_eq (atRoot : Bool) (passed ps : List String) : collapse? atRoot passed ps =
    if !atRoot && climbs passed.length ps then none else some (collapseFrom passed ps) := by
  induction ps generalizing passed with
  | nil => simp [collapse?, climbs, collapseFrom]
  | cons p ps ih =>
    simp only [collapse?, climbs, collapseFrom]
    split
    · exact ih passed
    · split
      · cases passed with
        | nil =>
          -- Only here the walks differ: one goes on from the start, the other may have to stop.
          cases atRoot with
          | true => exact ih []
          | false => rfl
        | cons q above => exact ih above
      · exact ih (p :: passed)

end Segments

/-- A name that can stand in a directory. -/
structure IsName (s : String) : Prop where
  notDropped : Segments.isDropped s = false
  notUp : s ≠ ".."
  noSlash : '/' ∉ s.toList
  noNull : '\x00' ∉ s.toList

instance : DecidablePred IsName := fun s =>
  decidable_of_iff (Segments.isDropped s = false ∧ s ≠ ".." ∧ '/' ∉ s.toList ∧ '\x00' ∉ s.toList)
    ⟨fun ⟨a, b, c, d⟩ => ⟨a, b, c, d⟩, fun h => ⟨h.notDropped, h.notUp, h.noSlash, h.noNull⟩⟩

theorem IsName.ne_nil {s : String} (h : IsName s) : s.toList ≠ [] := by
  intro he
  have hs : s = "" := String.toList_inj.mp (by simpa using he)
  have hd := h.notDropped
  simp [hs, Segments.isDropped] at hd

/-- What a piece without a slash can be for one who follows it. -/
inductive PieceCase (s : String) : Prop where
  | stay (dropped : Segments.isDropped s = true)
  | up (up : s = "..")
  | null (notDropped : Segments.isDropped s = false) (notUp : s ≠ "..") (null : '\x00' ∈ s.toList)
  | name (named : IsName s)

theorem piece_case {s : String} (h : '/' ∉ s.toList) : PieceCase s := by
  by_cases hd : Segments.isDropped s = true
  · exact .stay hd
  by_cases hu : s = ".."
  · exact .up hu
  have hd : Segments.isDropped s = false := by simpa using hd
  by_cases hz : '\x00' ∈ s.toList
  · exact .null hd hu hz
  · exact .name ⟨hd, hu, h, hz⟩

/-- A segment that leads down: it neither stays nor goes back. -/
structure IsStep (s : String) : Prop where
  notDropped : Segments.isDropped s = false
  notUp : s ≠ ".."
  noSlash : '/' ∉ s.toList

theorem IsName.isStep {s : String} (h : IsName s) : IsStep s :=
  ⟨h.notDropped, h.notUp, h.noSlash⟩

theorem IsStep.ne_empty {s : String} (h : IsStep s) : s ≠ "" := by
  rintro rfl
  have hd := h.notDropped
  simp [Segments.isDropped] at hd

/-- A name that is read the same whether or not a backslash counts as a slash. -/
structure IsPlain (s : String) : Prop extends IsName s where
  noBackslash : '\\' ∉ s.toList

namespace Segments

theorem toList_slashed (s : String) :
    (slashed s).toList = s.toList.map fun c => if c = '\\' then '/' else c := by
  simp [slashed, substitute]

theorem slashed_append (a b : String) : slashed (a ++ b) = slashed a ++ slashed b := by
  apply String.toList_inj.mp
  simp [toList_slashed]

theorem slashed_of_not_mem {s : String} (h : '\\' ∉ s.toList) : slashed s = s := by
  apply String.toList_inj.mp
  rw [toList_slashed]
  conv => rhs; rw [← List.map_id s.toList]
  apply List.map_congr_left
  intro c hc
  have hne : c ≠ '\\' := fun e => h (e ▸ hc)
  simp [hne]

theorem not_mem_slashed (s : String) : '\\' ∉ (slashed s).toList := by
  rw [toList_slashed]
  intro h
  obtain ⟨c, _, hc⟩ := List.mem_map.mp h
  split at hc <;> simp_all

/-- Reading backslashes as slashes brings in no other character than slashes. -/
theorem mem_of_mem_slashed {c : Char} {s : String} (hc : c ≠ '/') (h : c ∈ (slashed s).toList) :
    c ∈ s.toList := by
  rw [toList_slashed] at h
  obtain ⟨d, hd, he⟩ := List.mem_map.mp h
  split at he
  · exact absurd he.symm hc
  · exact he ▸ hd

theorem startsAtRoot_slashed {s : String} (h : startsAtRoot s = true) :
    startsAtRoot (slashed s) = true := by
  simp only [startsAtRoot, decide_eq_true_eq] at h ⊢
  rw [toList_slashed, List.head?_map, h]
  rfl

/-- Containment of texts is a matter of whole pieces. -/
theorem isWithin_iff (path root : String) : isWithin path root = true ↔
    pieces '/' (dropTrailing ['/'] (slashed root)) <+: pieces '/' (slashed path) := by
  generalize hp : slashed path = p
  generalize hr : dropTrailing ['/'] (slashed root) = r
  simp only [isWithin, hp, hr, Bool.or_eq_true, decide_eq_true_eq, List.isPrefixOf_iff_prefix]
  constructor
  · rintro (he | ⟨t, ht⟩)
    · obtain rfl := String.toList_inj.mp he
      exact List.prefix_refl _
    · have he : p = r ++ "/" ++ String.ofList t := by
        apply String.toList_inj.mp
        simp [← ht]
      rw [he, pieces_append_slash]
      exact List.prefix_append _ _
  · rintro ⟨rest, he⟩
    by_cases hn : rest = []
    · left
      rw [hn, List.append_nil] at he
      rw [pieces_inj he]
    · right
      have hj := intercalate_pieces p
      rw [← he, String.intercalate_append_of_ne_nil (pieces_ne_nil _ _) hn,
        intercalate_pieces] at hj
      rw [← hj]
      exact ⟨("/".intercalate rest).toList, by simp⟩

/-- Dropping slashes at the end only drops pieces at the end. -/
theorem pieces_dropTrailing (s : String) : pieces '/' (dropTrailing ['/'] s) <+: pieces '/' s := by
  apply dropTrailing_slashes (P := fun t s => pieces '/' t <+: pieces '/' s)
  · intro s
    exact List.prefix_refl _
  · intro t s h
    rw [pieces_append_slash]
    exact h.trans (List.prefix_append _ _)

theorem isWithin_refl (s : String) : isWithin s s = true :=
  (isWithin_iff s s).mpr (pieces_dropTrailing _)

theorem isWithin_append_slash (a b : String) : isWithin (a ++ "/" ++ b) a = true := by
  rw [isWithin_iff, slashed_append, slashed_append]
  have hs : slashed "/" = "/" := by decide
  rw [hs, pieces_append_slash]
  exact (pieces_dropTrailing _).trans (List.prefix_append _ _)

theorem getLast?_dropTrailing (s : String) : (dropTrailing ['/'] s).toList.getLast? ≠ some '/' := by
  intro h
  have hlast := List.head?_dropWhile_not ['/'].contains s.toList.reverse
  rw [dropTrailing, String.toList_ofList, List.getLast?_reverse] at h
  rw [h] at hlast
  simp at hlast

/-- Slashes at the end of a text give no room for the pieces of a text that does not end in one. -/
theorem prefix_dropTrailing {root : String} (hroot : root.toList.getLast? ≠ some '/') (s : String)
    (h : pieces '/' root <+: pieces '/' s) :
    pieces '/' root <+: pieces '/' (dropTrailing ['/'] s) := by
  revert h
  apply dropTrailing_slashes
    (P := fun t s => pieces '/' root <+: pieces '/' s → pieces '/' root <+: pieces '/' t)
  · intro s h
    exact h
  · intro t s ih h
    have hsplit : pieces '/' (s ++ "/" ++ "") = pieces '/' s ++ [""] := by
      have hempty : pieces '/' "" = [""] := pieces_of_not_mem (by simp)
      rw [pieces_append_slash, hempty]
    rw [hsplit] at h
    rcases List.prefix_concat_iff.mp h with heq | h
    · -- All pieces of the text would make the root end in its slash.
      rw [← hsplit] at heq
      exact absurd (by simp [pieces_inj heq]) hroot
    · exact ih h

theorem isWithin_trans {path middle root : String} (h : isWithin path middle = true)
    (h' : isWithin middle root = true) : isWithin path root = true := by
  rw [isWithin_iff] at h h' ⊢
  exact (prefix_dropTrailing (getLast?_dropTrailing _) _ h').trans h

/-- Containment goes by whole segments, whatever slashes stand at the ends: a text lies within a
root exactly if its pieces begin with those of the root, each text lies within itself, and what lies
within a text within the root lies within the root. -/
theorem isWithin_is_segmentwise (path middle root : String) :
    (isWithin path root = true ↔
      pieces '/' (dropTrailing ['/'] (slashed root)) <+: pieces '/' (slashed path)) ∧
    isWithin path path = true ∧
    (isWithin path middle = true → isWithin middle root = true → isWithin path root = true) :=
  ⟨isWithin_iff path root, isWithin_refl path, isWithin_trans⟩

theorem isWithin_is_segmentwise_doubled :
    isWithin "/p//x" "\\p//" = true ∧ isWithin "\\p//" "/" = true ∧
    isWithin "/p//x" "/" = true := by
  have hpath : isWithin "/p//x" "\\p//" = true := by decide
  have hroot : isWithin "\\p//" "/" = true := by decide
  exact ⟨hpath, hroot, (isWithin_is_segmentwise _ _ _).2.2 hpath hroot⟩

theorem collapseFrom_append (passed ps qs : List String) :
    collapseFrom passed (ps ++ qs) = collapseFrom (collapseFrom passed ps).reverse qs := by
  induction ps generalizing passed with
  | nil => simp [collapseFrom]
  | cons p ps ih =>
    simp only [List.cons_append, collapseFrom]
    split
    · exact ih passed
    · split
      · exact ih passed.tail
      · exact ih (p :: passed)

/-- Segments that neither stay nor go back are all kept. -/
theorem collapseFrom_names {passed ps : List String}
    (h : ∀ s ∈ ps, isDropped s = false ∧ s ≠ "..") :
    collapseFrom passed ps = passed.reverse ++ ps := by
  induction ps generalizing passed with
  | nil => simp [collapseFrom]
  | cons p ps ih =>
    obtain ⟨hd, hu⟩ := h p (by simp)
    simp [collapseFrom, hd, hu, ih fun s hs => h s (List.mem_cons_of_mem _ hs)]

theorem collapse_names {ps : List String} (h : ∀ s ∈ ps, IsName s) : collapse ps = ps := by
  have hk : ∀ s ∈ ps, isDropped s = false ∧ s ≠ ".." :=
    fun s hs => ⟨(h s hs).notDropped, (h s hs).notUp⟩
  exact collapseFrom_names hk

theorem mem_collapseFrom {passed ps : List String} {s : String} (h : s ∈ collapseFrom passed ps) :
    s ∈ passed ∨ s ∈ ps ∧ isDropped s = false ∧ s ≠ ".." := by
  induction ps generalizing passed with
  | nil => simpa [collapseFrom] using h
  | cons p ps ih =>
    simp only [collapseFrom] at h
    split at h
    · rcases ih h with hp | ⟨hm, hk⟩
      · exact .inl hp
      · exact .inr ⟨List.mem_cons_of_mem _ hm, hk⟩
    · rename_i hd
      split at h
      · rcases ih h with hp | ⟨hm, hk⟩
        · exact .inl (List.mem_of_mem_tail hp)
        · exact .inr ⟨List.mem_cons_of_mem _ hm, hk⟩
      · rename_i hu
        rcases ih h with hp | ⟨hm, hk⟩
        · rcases List.mem_cons.mp hp with rfl | hp
          · exact .inr ⟨by simp, by simpa using hd, hu⟩
          · exact .inl hp
        · exact .inr ⟨List.mem_cons_of_mem _ hm, hk⟩

/-- Double dots go back by as many segments as there are of them. -/
theorem collapseFrom_up (passed : List String) (n : Nat) (ps : List String) :
    collapseFrom passed (List.replicate n ".." ++ ps) = collapseFrom (passed.drop n) ps := by
  induction n generalizing passed with
  | zero => rfl
  | succ n ih =>
    rw [List.replicate_succ, List.cons_append, collapseFrom, if_neg (by decide), if_pos rfl, ih,
      List.drop_tail]

theorem climbs_names {depth : Nat} {ps qs : List String}
    (h : ∀ s ∈ ps, isDropped s = false ∧ s ≠ "..") :
    climbs depth (ps ++ qs) = climbs (depth + ps.length) qs := by
  induction ps generalizing depth with
  | nil => rfl
  | cons p ps ih =>
    obtain ⟨hd, hu⟩ := h p (by simp)
    have hrest : climbs (depth + 1) (ps ++ qs) = climbs (depth + 1 + ps.length) qs :=
      ih fun s hs => h s (List.mem_cons_of_mem _ hs)
    simp only [List.cons_append, climbs, hd, hu, Bool.false_eq_true, ↓reduceIte, hrest,
      List.length_cons]
    rw [Nat.add_assoc, Nat.add_comm 1]

theorem climbs_up (depth n : Nat) (ps : List String) :
    climbs (depth + n) (List.replicate n ".." ++ ps) = climbs depth ps := by
  induction n with
  | zero => rfl
  | succ n ih =>
    rw [List.replicate_succ, List.cons_append, ← Nat.add_assoc, ← ih]
    rfl

/-- Segments that stay can be left out. -/
theorem collapseFrom_filter (passed ps : List String) :
    collapseFrom passed (ps.filter fun s => !isDropped s) = collapseFrom passed ps := by
  induction ps generalizing passed with
  | nil => rfl
  | cons p ps ih =>
    cases hd : isDropped p with
    | true => simp [collapseFrom, hd, ih]
    | false =>
      simp only [List.filter_cons, hd, Bool.not_false, ↓reduceIte, collapseFrom, Bool.false_eq_true]
      split
      · exact ih _
      · exact ih _

theorem climbs_filter (depth : Nat) (ps : List String) :
    climbs depth (ps.filter fun s => !isDropped s) = climbs depth ps := by
  induction ps generalizing depth with
  | nil => rfl
  | cons p ps ih =>
    cases hd : isDropped p with
    | true => simp [climbs, hd, ih]
    | false =>
      simp only [List.filter_cons, hd, Bool.not_false, ↓reduceIte, climbs, Bool.false_eq_true, ih]

/-- What is left of segments are those that neither stay nor go back. -/
theorem mem_collapse {ps : List String} {s : String} (h : s ∈ collapse ps) :
    s ∈ ps ∧ isDropped s = false ∧ s ≠ ".." := by
  simpa using mem_collapseFrom h

end Segments

namespace Path

theorem text_at (l : Location) : (Path.at l).text = "/" ++ "/".intercalate l := by
  simp [Path.at, Path.text, Anchor.text]

theorem toList_text_at (l : Location) :
    (Path.at l).text.toList = '/' :: ("/".intercalate l).toList := by
  simp [Path.text_at]

theorem pieces_text_at {l : Location} (hs : ∀ n ∈ l, '/' ∉ n.toList) :
    pieces '/' (Path.at l).text = "" :: if l = [] then [""] else l := by
  rw [text_at, pieces_slash_append]
  by_cases hl : l = []
  · simp [hl, pieces_of_not_mem]
  · simp [hl, pieces_intercalate hl hs]

theorem textSegments_append_slash (a b : String) :
    textSegments (a ++ "/" ++ b) = textSegments a ++ textSegments b := by
  simp [textSegments, pieces_append_slash]

/-- Slashes at the end of a text make no segments. -/
theorem textSegments_dropTrailing (s : String) :
    textSegments (dropTrailing ['/'] s) = textSegments s := by
  apply dropTrailing_slashes (P := fun t s => textSegments t = textSegments s)
  · intro s
    rfl
  · intro t s h
    rw [textSegments_append_slash, h]
    simp [textSegments, pieces_of_not_mem]

/-- Segments are those of the text that they make up. -/
theorem textSegments_join {segments : List String}
    (hd : ∀ s ∈ segments, Segments.isDropped s = false) (hs : ∀ s ∈ segments, '/' ∉ s.toList) :
    textSegments ("/".intercalate segments) = segments := by
  by_cases hne : segments = []
  · simp [hne, textSegments, pieces_of_not_mem]
  · rw [textSegments, pieces_intercalate hne hs]
    apply List.filter_eq_self.mpr
    intro s h
    simpa [Segments.isDropped] using hd s h

/-- Segments with slashes in between do not start with one. -/
theorem head_intercalate {segments : List String}
    (hd : ∀ s ∈ segments, Segments.isDropped s = false) (hs : ∀ s ∈ segments, '/' ∉ s.toList) :
    ("/".intercalate segments).toList.head? ≠ some '/' := by
  cases segments with
  | nil => simp
  | cons s rest =>
    have hslash := hs s (by simp)
    cases hc : s.toList with
    | nil =>
      have hdrop := hd s (by simp)
      obtain rfl : s = "" := String.toList_inj.mp hc
      simp [Segments.isDropped] at hdrop
    | cons c cs =>
      have hne : c ≠ '/' := fun e => hslash (by simp [hc, e])
      cases rest <;> simp [hc, hne]

theorem textSegments_intercalate {names : List String} (hn : ∀ n ∈ names, IsName n) :
    textSegments ("/".intercalate names) = names :=
  textSegments_join (fun n h => (hn n h).notDropped) fun n h => (hn n h).noSlash

theorem textSegments_text {l : List String} (hd : ∀ s ∈ l, Segments.isDropped s = false)
    (hs : ∀ s ∈ l, '/' ∉ s.toList) : textSegments (Path.at l).text = l := by
  have hfront : (Path.at l).text = "" ++ "/" ++ "/".intercalate l := by simp [text_at]
  rw [hfront, textSegments_append_slash, textSegments_join hd hs]
  simp [textSegments, pieces_of_not_mem]

theorem textSegments_at {l : Location} (hn : ∀ n ∈ l, IsName n) :
    textSegments (Path.at l).text = l :=
  textSegments_text (fun n h => (hn n h).notDropped) fun n h => (hn n h).noSlash

/-- The text of a location is read as the path to it. -/
theorem ofText_at {l : Location} (hn : ∀ n ∈ l, IsName n) :
    Path.ofText (Path.at l).text = Path.at l := by
  have hs : ((Path.at l).text.toList.takeWhile (· = '/')).length = 1 := by
    rw [text_at]
    cases l with
    | nil => simp
    | cons n l =>
      have hh := (hn n (by simp)).noSlash
      have hne := (hn n (by simp)).ne_nil
      cases hc : n.toList with
      | nil => exact absurd hc hne
      | cons c cs =>
        have hx : c ≠ '/' := fun e => hh (by simp [hc, e])
        cases l <;> simp [hc, hx]
  simp only [Path.ofText, hs, textSegments_at hn]
  rfl

/-- The segments of a path that was read hold no slash and none of them is dropped. -/
theorem mem_textSegments {s t : String} (h : s ∈ textSegments t) :
    Segments.isDropped s = false ∧ '/' ∉ s.toList ∧ ∀ c ∈ s.toList, c ∈ t.toList := by
  obtain ⟨hp, hk⟩ := List.mem_filter.mp h
  obtain ⟨hn, hm⟩ := mem_pieces hp
  exact ⟨by simpa [Segments.isDropped] using hk, hn, hm⟩

theorem ofText_segments {t : String} (hz : '\x00' ∉ t.toList) :
    ∀ s ∈ (Path.ofText t).segments, '/' ∉ s.toList ∧ '\x00' ∉ s.toList := by
  intro s hs
  obtain ⟨_, hslash, hc⟩ := mem_textSegments hs
  exact ⟨hslash, fun hm => hz (hc _ hm)⟩

theorem ofText_noSlash {t : String} : ∀ s ∈ (Path.ofText t).segments, '/' ∉ s.toList :=
  fun _ hs => (mem_textSegments hs).2.1

theorem text_append {l rest : Location} (hl : l ≠ []) (hr : rest ≠ []) :
    (Path.at (l ++ rest)).text = (Path.at l).text ++ "/" ++ "/".intercalate rest := by
  rw [text_at, text_at, String.intercalate_append_of_ne_nil hl hr]
  simp [String.append_assoc]

theorem text_snoc {l : Location} (hl : l ≠ []) (n : String) :
    (Path.at (l ++ [n])).text = (Path.at l).text ++ "/" ++ n := by
  rw [text_append hl (by simp)]
  simp

/-- The text of a location ends in a slash only if it is the root. -/
theorem dropTrailing_text_at {l : Location} (hn : ∀ n ∈ l, IsName n) (hl : l ≠ []) :
    dropTrailing ['/'] (Path.at l).text = (Path.at l).text := by
  obtain ⟨k, n, rfl⟩ := exists_snoc hl
  have hname := hn n (by simp)
  obtain ⟨cs, c, hc⟩ := exists_snoc hname.ne_nil
  have hne : c ≠ '/' := fun e => hname.noSlash (by simp [hc, e])
  have ht : ∃ a : String, (Path.at (k ++ [n])).text = a ++ n := by
    by_cases hk : k = []
    · exact ⟨"/", by simp [hk, text_at]⟩
    · exact ⟨(Path.at k).text ++ "/", text_snoc hk n⟩
  obtain ⟨a, ha⟩ := ht
  apply String.toList_inj.mp
  simp [dropTrailing, ha, hc, hne]

theorem not_mem_text_at {c : Char} {l : Location} (hc : c ≠ '/') (hn : ∀ n ∈ l, c ∉ n.toList) :
    c ∉ (Path.at l).text.toList := by
  rw [toList_text_at, List.mem_cons, not_or]
  exact ⟨hc, not_mem_intercalate hc hn⟩

/-- For names without backslashes, reading as inside is being inside. -/
theorem isWithin_at {root l : Location} (hr : ∀ n ∈ root, IsPlain n) (hl : ∀ n ∈ l, IsPlain n) :
    Segments.isWithin (Path.at l).text (Path.at root).text = true ↔ root <+: l := by
  have hb : ∀ {k : Location}, (∀ n ∈ k, IsPlain n) →
      Segments.slashed (Path.at k).text = (Path.at k).text :=
    fun hk =>
      Segments.slashed_of_not_mem (not_mem_text_at (by decide) fun n hn => (hk n hn).noBackslash)
  have hnl : ∀ n ∈ l, IsName n := fun n hn => (hl n hn).toIsName
  have hnr : ∀ n ∈ root, IsName n := fun n hn => (hr n hn).toIsName
  rw [Segments.isWithin_iff, hb hl, hb hr, pieces_text_at fun n hn => (hnl n hn).noSlash]
  by_cases hroot : root = []
  · subst hroot
    have he : dropTrailing ['/'] (Path.at []).text = "" := by decide
    simp [he, pieces_of_not_mem]
  · rw [dropTrailing_text_at hnr hroot, pieces_text_at fun n hn => (hnr n hn).noSlash]
    simp only [hroot, ↓reduceIte, List.cons_prefix_cons, true_and]
    by_cases hll : l = []
    · obtain ⟨n, root', rfl⟩ := List.exists_cons_of_ne_nil hroot
      have hne : n ≠ "" := by
        rintro rfl
        exact (hnr "" (by simp)).ne_nil (by simp)
      simp [hll, hne]
    · simp [hll]

theorem textSegments_eq (s : String) :
    textSegments s = (pieces '/' s).filter fun p => !Segments.isDropped p := by
  apply List.filter_congr
  intro p _
  simp [Segments.isDropped, bne]

theorem collapse_textSegments (s : String) :
    Segments.collapse (textSegments s) = Segments.collapse (pieces '/' s) := by
  unfold Segments.collapse
  rw [textSegments_eq, Segments.collapseFrom_filter]

theorem climbs_textSegments (depth : Nat) (s : String) :
    Segments.climbs depth (textSegments s) = Segments.climbs depth (pieces '/' s) := by
  rw [textSegments_eq, Segments.climbs_filter]

theorem startsAtRoot_at (l : Location) : Segments.startsAtRoot (Path.at l).text = true := by
  simp [Segments.startsAtRoot, toList_text_at]

end Path

namespace Segments

theorem rendered_root (names : List String) : rendered true names = (Path.at names).text := by
  rw [Path.text_at]
  rfl

/-- A text is refused exactly if it is relative and climbs above its start; any other is cleaned
like one that stays there. -/
theorem normalize?_eq (path : String) : normalize? path =
    if !startsAtRoot (slashed path) && climbs 0 (pieces '/' (slashed path)) then none
    else some (if (clamped path).isEmpty then "." else clamped path) := by
  dsimp only [normalize?]
  rw [collapse?_eq, List.length_nil]
  split <;> rfl

theorem clamped_root {text : String} (h : startsAtRoot (slashed text) = true) :
    clamped text = (Path.at (collapse (pieces '/' (slashed text)))).text := by
  dsimp only [clamped]
  rw [h, rendered_root]

theorem startsAtRoot_clamped (path : String) :
    startsAtRoot (clamped path) = startsAtRoot (slashed path) := by
  cases hroot : startsAtRoot (slashed path) with
  | true => rw [clamped_root hroot, Path.startsAtRoot_at]
  | false =>
    have hhead : ("/".intercalate (collapse (pieces '/' (slashed path)))).toList.head? ≠ some '/' :=
      Path.head_intercalate (fun s hs => (mem_collapse hs).2.1) fun s hs =>
        (mem_pieces (mem_collapse hs).1).1
    have hclamped : clamped path = "/".intercalate (collapse (pieces '/' (slashed path))) := by
      dsimp only [clamped]
      rw [hroot]
      simp [rendered]
    rw [hclamped, startsAtRoot, decide_eq_false hhead]

/-- A text from the root is normalized to the location that its pieces come down to. -/
theorem normalize?_slashed_root {text : String} (h : startsAtRoot (slashed text) = true) :
    normalize? text = some (Path.at (collapse (pieces '/' (slashed text)))).text := by
  have hne :
      (Path.at (collapse (pieces '/' (slashed text)))).text.isEmpty = false :=
    by simp [Path.text_at]
  rw [normalize?_eq, h, if_neg (by simp), clamped_root h, hne, if_neg (by decide)]

theorem normalize?_root {text : String} (h : startsAtRoot text = true) :
    normalize? text = some (Path.at (collapse (pieces '/' (slashed text)))).text :=
  normalize?_slashed_root (startsAtRoot_slashed h)

end Segments

end PhpPages

import PhpPages.Proofs.DocTags

namespace PhpPages.Docblock

open Text

/-- A doc comment between its markers, with the marker of the end nowhere else. -/
structure Enclosed (doc : String) : Prop where
  opens : "/**".toList <+: doc.toList
  closes : "*/".toList <:+ doc.toList
  once : ¬ "*/".toList <:+: doc.toList.dropLast

/-- Characters of a class, at least one. -/
def IsRun (p : Char → Bool) (cs : List Char) : Prop :=
  cs ≠ [] ∧ ∀ c ∈ cs, p c = true

/-- A text that starts with a tag for a parameter, and what is left of it behind the name and a
blank. Something must be left on the line. -/
inductive ParamTag (name : List Char) : List Char → List Char → Prop where
  | intro {space type space' blanks left : List Char} (spaced : IsRun isBlank space)
      (typed : IsRun isTypeChar type) (spaced' : IsRun isBlank space')
      (apart : IsRun isIndent blanks) (onLine : ∃ c ∈ left.head?, c ≠ '\n') :
      ParamTag name
        ("@param".toList ++ (space ++ (type ++ (space' ++ '$' :: (name ++ (blanks ++ left)))))) left

/-- What is left of the text behind its first tag for the parameter: in the part that starts with
this tag stand all others. -/
def FirstTag (name cs left : List Char) : Prop :=
  ∃ start, start <:+ cs ∧ ParamTag name start left ∧
    ∀ start' left', start' <:+ cs → ParamTag name start' left' → start' <:+ start

theorem ParamTag.exists_eq_append {name start left : List Char} (h : ParamTag name start left) :
    ∃ rest, start = "@param".toList ++ rest := by
  cases h with
  | intro => exact ⟨_, rfl⟩

theorem ParamTag.left_ne_nil {name start left : List Char} (h : ParamTag name start left) :
    left ≠ [] := by
  rintro rfl
  cases h with
  | intro _ _ _ _ onLine => simp at onLine

/-- Right in front of what is left stands a blank. -/
theorem ParamTag.exists_suffix {name start left : List Char} (h : ParamTag name start left) :
    ∃ b, isIndent b = true ∧ b :: left <:+ start := by
  cases h with
  | @intro space type space' blanks _ _ _ _ apart _ =>
    obtain ⟨front, b, rfl⟩ := exists_snoc apart.1
    refine ⟨b, apart.2 b (by simp),
      "@param".toList ++ (space ++ (type ++ (space' ++ '$' :: (name ++ front)))), ?_⟩
    simp

section

variable {tag : List Char} {read : List Char → Option (List Char)}

theorem firstAfter_of_read {cs rest found : List Char} (hne : tag ≠ []) (hcs : cs = tag ++ rest)
    (h : read rest = some found) : firstAfter tag read cs = some found := by
  cases cs with
  | nil => exact absurd (List.append_eq_nil_iff.mp hcs.symm).1 hne
  | cons c cs => rw [firstAfter, if_pos (by simp [hcs]), hcs, List.drop_left, h]

theorem firstAfter_of_unread {c : Char} {cs : List Char}
    (h : ∀ rest, c :: cs = tag ++ rest → read rest = none) :
    firstAfter tag read (c :: cs) = firstAfter tag read cs := by
  by_cases hpre : tag <+: c :: cs
  · obtain ⟨rest, hrest⟩ := hpre
    rw [firstAfter, if_pos (by simp [← hrest]), ← hrest, List.drop_left, h rest hrest.symm]
  · exact firstAfter_cons hpre

/-- The search finds what is read behind the first of the tags behind which
something can be read. -/
theorem firstAfter_eq_some_iff (hne : tag ≠ []) {cs found : List Char} :
    firstAfter tag read cs = some found ↔ ∃ rest, tag ++ rest <:+ cs ∧ read rest = some found ∧
      ∀ rest' found', tag ++ rest' <:+ cs → read rest' = some found' →
        tag ++ rest' <:+ tag ++ rest := by
  induction cs with
  | nil => simp [firstAfter, hne]
  | cons c cs ih =>
    by_cases hhere : ∃ rest found', c :: cs = tag ++ rest ∧ read rest = some found'
    · obtain ⟨rest, found', hcs, hread⟩ := hhere
      rw [firstAfter_of_read hne hcs hread, hcs]
      constructor
      · intro he
        exact ⟨rest, List.suffix_rfl, hread.trans he, fun _ _ h _ => h⟩
      · rintro ⟨rest', hsuffix, hread', hlast⟩
        have hback := hlast rest found' List.suffix_rfl hread
        have he := hsuffix.eq_of_length (Nat.le_antisymm hsuffix.length_le hback.length_le)
        rw [← hread, ← hread', List.append_cancel_left he]
    · have hunread : ∀ rest, c :: cs = tag ++ rest → read rest = none := by
        intro rest hrest
        by_contra hsome
        obtain ⟨found', hfound'⟩ := Option.ne_none_iff_exists'.mp hsome
        exact hhere ⟨rest, found', hrest, hfound'⟩
      have hsuffix : ∀ rest found', read rest = some found' →
          (tag ++ rest <:+ c :: cs ↔ tag ++ rest <:+ cs) := by
        intro rest found' hread
        rw [List.suffix_cons_iff, or_iff_right]
        intro he
        rw [hunread rest he.symm] at hread
        cases hread
      rw [firstAfter_of_unread hunread, ih]
      constructor
      · rintro ⟨rest, hcs, hread, hlast⟩
        refine ⟨rest, (hsuffix rest _ hread).mpr hcs, hread, fun rest' found' hcs' hread' => ?_⟩
        exact hlast rest' found' ((hsuffix rest' _ hread').mp hcs') hread'
      · rintro ⟨rest, hcs, hread, hlast⟩
        refine ⟨rest, (hsuffix rest _ hread).mp hcs, hread, fun rest' found' hcs' hread' => ?_⟩
        exact hlast rest' found' ((hsuffix rest' _ hread').mpr hcs') hread'

end

theorem skipSome_eq_some_iff {p : Char → Bool} {cs rest : List Char} :
    skipSome p cs = some rest ↔
      ∃ run, cs = run ++ rest ∧ IsRun p run ∧ ∀ c ∈ rest.head?, p c = false := by
  constructor
  · intro h
    cases cs with
    | nil => cases h
    | cons c cs =>
      rw [skipSome] at h
      split at h
      · rename_i hc
        obtain rfl := Option.some.inj h
        refine ⟨(c :: cs).takeWhile p, List.takeWhile_append_dropWhile.symm, ⟨by simp [hc], ?_⟩, ?_⟩
        · exact fun d hd => List.mem_takeWhile_imp hd
        · intro d hd
          have hnot := List.head?_dropWhile_not p (c :: cs)
          rw [hd] at hnot
          simpa using hnot
      · cases h
  · rintro ⟨run, rfl, ⟨hne, hrun⟩, hend⟩
    cases rest with
    | nil =>
      obtain ⟨c, run, rfl⟩ := List.exists_cons_of_ne_nil hne
      rw [List.append_nil, skipSome, if_pos (hrun c (by simp)), List.dropWhile_eq_nil_iff.mpr hrun]
    | cons x rest => exact skipSome_append hne hrun (hend x rfl)

/-- The description is the line without white space at its ends, wherever the blanks in
front are cut. -/
theorem trimChars_line {blanks left : List Char} (h : ∀ c ∈ blanks, isIndent c = true) :
    trimChars (((blanks ++ left).dropWhile isIndent).takeWhile (· ≠ '\n')) =
      trimChars (left.takeWhile (· ≠ '\n')) := by
  rw [List.dropWhile_append_of_pos h]
  induction left with
  | nil => rfl
  | cons c left ih =>
    by_cases hc : isIndent c = true
    · have hfeed : c ≠ '\n' := by
        rintro rfl
        exact absurd hc (by decide)
      rw [List.dropWhile_cons_of_pos hc, ih, List.takeWhile_cons_of_pos (by simpa using hfeed),
        trimChars, trimChars, List.dropWhile_cons_of_pos (isBlank_of_isIndent hc)]
    · rw [List.dropWhile_cons_of_neg hc]

theorem descriptionAfterName_eq_some_iff {cs found : List Char} :
    descriptionAfterName cs = some found ↔
      ∃ blanks left, cs = blanks ++ left ∧ IsRun isIndent blanks ∧
      (∃ c ∈ left.head?, c ≠ '\n') ∧ found = trimChars (left.takeWhile (· ≠ '\n')) := by
  constructor
  · intro h
    have hblanks : ∀ c ∈ cs.takeWhile isIndent, isIndent c = true :=
      fun c hc => List.mem_takeWhile_imp hc
    have hcs : cs.takeWhile isIndent ++ cs.dropWhile isIndent = cs :=
      List.takeWhile_append_dropWhile
    simp only [descriptionAfterName, List.isEmpty_iff] at h
    split at h
    · cases h
    rename_i hne
    split at h
    · rename_i htext
      split at h
      · -- Nothing but blanks is on the line: the last of them is left.
        rename_i hlength
        obtain rfl := Option.some.inj h
        obtain ⟨blanks, b, hb⟩ := exists_snoc hne
        rw [hb] at hblanks hlength
        have hfront : ∀ c ∈ blanks, isIndent c = true := fun c hc => hblanks c (by simp [hc])
        have hsplit : cs = blanks ++ b :: cs.dropWhile isIndent := by
          rw [← List.singleton_append, ← List.append_assoc, ← hb, hcs]
        refine ⟨blanks, b :: cs.dropWhile isIndent, hsplit, ⟨?_, hfront⟩, ⟨b, rfl, ?_⟩, ?_⟩
        · rintro rfl
          simp at hlength
        · rintro rfl
          exact absurd (hblanks '\n' (by simp)) (by decide)
        · rw [← trimChars_line hfront, ← hsplit, htext]
          rfl
      · cases h
    · rename_i htext
      obtain rfl := Option.some.inj h
      refine ⟨_, _, hcs.symm, ⟨hne, hblanks⟩, ?_, rfl⟩
      cases hleft : cs.dropWhile isIndent with
      | nil => simp [hleft] at htext
      | cons c left =>
        refine ⟨c, rfl, fun hc => htext ?_⟩
        simp [hleft, hc]
  · rintro ⟨blanks, left, rfl, ⟨hne, hblanks⟩, ⟨c, hc, hfeed⟩, rfl⟩
    have htake : (blanks ++ left).takeWhile isIndent = blanks ++ left.takeWhile isIndent :=
      List.takeWhile_append_of_pos hblanks
    rw [← trimChars_line hblanks]
    simp only [descriptionAfterName, List.isEmpty_iff, htake, List.append_eq_nil_iff, hne,
      false_and, ↓reduceIte]
    split
    · rename_i htext
      -- Something is on the line, so blanks are, and one of them can be spared.
      obtain ⟨left, rfl⟩ := List.head?_eq_some_iff.mp hc
      have hindent : isIndent c = true := by
        by_contra hindent
        rw [List.dropWhile_append_of_pos hblanks, List.dropWhile_cons_of_neg hindent,
          List.takeWhile_cons_of_pos (by simpa using hfeed)] at htext
        cases htext
      have hlength : 0 < blanks.length := List.length_pos_iff.mpr hne
      rw [if_pos, htext]
      · rfl
      · simp only [List.takeWhile_cons_of_pos hindent, List.length_append, List.length_cons]
        omega
    · rfl

theorem IsRun.of_mem_head? {p : Char → Bool} {run rest : List Char} {c : Char} (h : IsRun p run)
    (hc : c ∈ (run ++ rest).head?) : p c = true := by
  obtain ⟨d, run, rfl⟩ := List.exists_cons_of_ne_nil h.1
  obtain rfl := Option.some.inj hc
  exact h.2 d (by simp)

theorem readParam_eq_some_iff {name cs found : List Char} :
    readParam name cs = some found ↔
      ∃ left, ParamTag name ("@param".toList ++ cs) left ∧
        found = trimChars (left.takeWhile (· ≠ '\n')) := by
  constructor
  · intro h
    simp only [readParam, Option.bind_eq_bind, Option.bind_eq_some_iff] at h
    obtain ⟨atType, htype, afterType, hafter, atName, hname, h⟩ := h
    split at h
    · rename_i hpre
      obtain ⟨behind, rfl⟩ := List.isPrefixOf_iff_prefix.mp hpre
      rw [show name.length + 1 = ('$' :: name).length from rfl, List.drop_left] at h
      obtain ⟨blanks, left, rfl, hblanks, hleft, rfl⟩ := descriptionAfterName_eq_some_iff.mp h
      obtain ⟨space, rfl, hspace, _⟩ := skipSome_eq_some_iff.mp htype
      obtain ⟨type, rfl, hchars, _⟩ := skipSome_eq_some_iff.mp hafter
      obtain ⟨space', rfl, hspace', _⟩ := skipSome_eq_some_iff.mp hname
      exact ⟨left, .intro hspace hchars hspace' hblanks hleft, rfl⟩
    · cases h
  · rintro ⟨left, htag, rfl⟩
    generalize hstart : "@param".toList ++ cs = start at htag
    cases htag with
    | @intro space type space' blanks _ hspace htype hspace' hblanks hleft =>
      obtain rfl := List.append_cancel_left hstart
      have hatType :
          skipSome isBlank (space ++ (type ++ (space' ++ '$' :: (name ++ (blanks ++ left))))) =
          some (type ++ (space' ++ '$' :: (name ++ (blanks ++ left)))) :=
        skipSome_eq_some_iff.mpr ⟨space, rfl, hspace,
          fun c hc => isBlank_of_isTypeChar (htype.of_mem_head? hc)⟩
      have hafterType :
          skipSome isTypeChar (type ++ (space' ++ '$' :: (name ++ (blanks ++ left)))) =
          some (space' ++ '$' :: (name ++ (blanks ++ left))) := by
        refine skipSome_eq_some_iff.mpr ⟨type, rfl, htype, fun c hc => ?_⟩
        by_contra hchar
        have hblank := isBlank_of_isTypeChar (Bool.not_eq_false _ ▸ hchar)
        rw [hspace'.of_mem_head? hc] at hblank
        cases hblank
      have hatName : skipSome isBlank (space' ++ '$' :: (name ++ (blanks ++ left))) =
          some ('$' :: (name ++ (blanks ++ left))) := by
        refine skipSome_eq_some_iff.mpr ⟨space', rfl, hspace', fun c hc => ?_⟩
        obtain rfl := Option.some.inj hc
        decide
      have hfound := descriptionAfterName_eq_some_iff.mpr ⟨blanks, left, rfl, hblanks, hleft, rfl⟩
      simp [readParam, hatType, hafterType, hatName, hfound]

/-- The description of a parameter is the rest of the line behind its first tag. -/
theorem firstAfter_param_eq_some_iff {name cs found : List Char} :
    firstAfter "@param".toList (readParam name) cs = some found ↔
      ∃ left, FirstTag name cs left ∧ found = trimChars (left.takeWhile (· ≠ '\n')) := by
  rw [firstAfter_eq_some_iff (by decide)]
  constructor
  · rintro ⟨rest, hcs, hread, hlast⟩
    obtain ⟨left, htag, hfound⟩ := readParam_eq_some_iff.mp hread
    refine ⟨left, ⟨_, hcs, htag, fun start' left' hcs' htag' => ?_⟩, hfound⟩
    obtain ⟨rest', rfl⟩ := htag'.exists_eq_append
    exact hlast rest' _ hcs' (readParam_eq_some_iff.mpr ⟨left', htag', rfl⟩)
  · rintro ⟨left, ⟨start, hcs, htag, hlast⟩, rfl⟩
    obtain ⟨rest, rfl⟩ := htag.exists_eq_append
    refine ⟨rest, hcs, readParam_eq_some_iff.mpr ⟨left, htag, rfl⟩,
      fun rest' found' hcs' hread' => ?_⟩
    obtain ⟨left', htag', _⟩ := readParam_eq_some_iff.mp hread'
    exact hlast _ left' hcs' htag'

theorem toList_paramDescription (doc name : String) :
    (paramDescription (some doc) name).toList =
      (firstAfter "@param".toList (readParam name.toList) doc.toList).getD [] :=
  String.toList_ofList

theorem descriptionAfterType_noStar {cs found : List Char}
    (h : descriptionAfterType cs = some found) : '*' ∉ found := by
  intro hmem
  simp only [descriptionAfterType] at h
  split at h
  · cases h
  · split at h
    · split at h
      · cases h
        cases hmem
      · cases h
    · obtain rfl := Option.some.inj h
      have hkept := List.mem_takeWhile_imp ((trimChars_isInfix _).subset hmem)
      simp at hkept

theorem returnDescription_noStar (doc : Option String) : '*' ∉ (returnDescription doc).toList := by
  cases doc with
  | none => simp [returnDescription]
  | some text =>
    rw [returnDescription, String.toList_ofList]
    cases hfound : firstAfter "@return".toList readReturn text.toList with
    | none => simp
    | some found =>
      obtain ⟨rest, _, hread, _⟩ := (firstAfter_eq_some_iff (by decide)).mp hfound
      simp only [readReturn, Option.bind_eq_bind, Option.bind_eq_some_iff] at hread
      obtain ⟨_, _, _, _, hread⟩ := hread
      exact descriptionAfterType_noStar hread

theorem endMarker_suffix_trimChars {cs : List Char} (h : "*/".toList <:+ cs) :
    "*/".toList <:+ trimChars cs := by
  obtain ⟨front, rfl⟩ := h
  have hslash : isBlank '/' = false := by decide
  obtain ⟨front', hfront'⟩ :
      ∃ front', (front ++ "*/".toList).dropWhile isBlank = front' ++ ['*', '/'] := by
    rw [List.dropWhile_append]
    split
    · exact ⟨[], by decide⟩
    · exact ⟨_, rfl⟩
  refine ⟨front', ?_⟩
  rw [trimChars, hfront', ← List.singleton_append, ← List.append_assoc, dropEndWhile_snoc hslash]
  simp

section

variable {doc : String} {name start left : List Char}

/-- A line that is not the last one has no marker. -/
theorem Enclosed.noFeed_of_isInfix (h : Enclosed doc) (hleft : left <:+ doc.toList)
    (hmarker : "*/".toList <:+: left.takeWhile (· ≠ '\n')) : '\n' ∉ left := by
  intro hmem
  obtain ⟨front, hdoc⟩ := hleft
  have hrest : left.dropWhile (· ≠ '\n') ≠ [] := by
    intro hnil
    simpa using List.dropWhile_eq_nil_iff.mp hnil '\n' hmem
  have hsplit : doc.toList.dropLast =
      front ++ left.takeWhile (· ≠ '\n') ++ (left.dropWhile (· ≠ '\n')).dropLast := by
    rw [← hdoc, ← List.dropLast_append_of_ne_nil hrest, List.append_assoc,
      List.takeWhile_append_dropWhile]
  refine h.once (hmarker.trans ?_)
  rw [hsplit]
  exact ⟨front, _, rfl⟩

/-- What is left behind a tag ends like the comment. -/
theorem Enclosed.endMarker_suffix (h : Enclosed doc) (hstart : start <:+ doc.toList)
    (htag : ParamTag name start left) : "*/".toList <:+ left := by
  obtain ⟨b, hb, hsuffix⟩ := htag.exists_suffix
  have hlength : "*/".toList.length ≤ (b :: left).length :=
    Nat.succ_le_succ (List.length_pos_iff.mpr htag.left_ne_nil)
  have hmarker := List.suffix_of_suffix_length_le h.closes (hsuffix.trans hstart) hlength
  rcases List.suffix_cons_iff.mp hmarker with he | hleft
  · -- The blank is not the star of the marker.
    obtain rfl : '*' = b := (List.cons.inj he).1
    exact absurd hb (by decide)
  · exact hleft

end

/-- The description of the returned value never has the marker of the end in it. The
description of a parameter has it exactly if the first tag for the parameter has its
description on the last line. -/
theorem end_marker_in_description_iff {doc : String} (h : Enclosed doc) (name : String) :
    ¬ "*/".toList <:+: (returnDescription (some doc)).toList ∧
      ("*/".toList <:+: (paramDescription (some doc) name).toList ↔
        ∃ left, FirstTag name.toList doc.toList left ∧ '\n' ∉ left) := by
  refine ⟨fun hmarker => returnDescription_noStar (some doc) (hmarker.subset (by decide)), ?_, ?_⟩
  · intro hmarker
    rw [toList_paramDescription] at hmarker
    cases hfound : firstAfter "@param".toList (readParam name.toList) doc.toList with
    | none =>
      rw [hfound] at hmarker
      cases List.infix_nil.mp hmarker
    | some found =>
      obtain ⟨left, hfirst, rfl⟩ := firstAfter_param_eq_some_iff.mp hfound
      obtain ⟨start, hstart, htag, _⟩ := id hfirst
      obtain ⟨b, _, hsuffix⟩ := htag.exists_suffix
      rw [hfound, Option.getD_some] at hmarker
      refine ⟨left, hfirst, h.noFeed_of_isInfix ?_ (hmarker.trans (trimChars_isInfix _))⟩
      exact (List.suffix_cons b left).trans (hsuffix.trans hstart)
  · rintro ⟨left, hfirst, hfeed⟩
    have hfound := firstAfter_param_eq_some_iff.mpr ⟨left, hfirst, rfl⟩
    obtain ⟨start, hstart, htag, _⟩ := hfirst
    have hline : left.takeWhile (· ≠ '\n') = left := by
      rw [List.takeWhile_eq_self_iff]
      intro c hc
      simpa using fun he : c = '\n' => hfeed (he ▸ hc)
    rw [hline] at hfound
    rw [toList_paramDescription, hfound, Option.getD_some]
    exact (endMarker_suffix_trimChars (h.endMarker_suffix hstart htag)).isInfix

theorem end_marker_in_description_iff_sample :
    Enclosed "/** @param int $x\n * @param int $x  all @return int what is left */" ∧
      returnDescription
          (some "/** @param int $x\n * @param int $x  all @return int what is left */") =
        "what is left" ∧
      ¬ "*/".toList <:+:
        (returnDescription
          (some "/** @param int $x\n * @param int $x  all @return int what is left */")).toList ∧
      ∃ left, '\n' ∉ left ∧
        FirstTag "x".toList
          "/** @param int $x\n * @param int $x  all @return int what is left */".toList left := by
  have hdoc : Enclosed "/** @param int $x\n * @param int $x  all @return int what is left */" :=
    ⟨by decide +kernel, by decide +kernel, by decide +kernel⟩
  obtain ⟨hreturn, hparam⟩ := end_marker_in_description_iff hdoc "x"
  obtain ⟨left, hfirst, hfeed⟩ := hparam.mp (by decide +kernel)
  exact ⟨hdoc, by decide +kernel, hreturn, left, hfeed, hfirst⟩

/-- In a comment of one line the marker is read as the end of the description. -/
theorem end_marker_in_description :
    Enclosed "/** @param int $x the x */" ∧
      paramDescription (some "/** @param int $x the x */") "x" = "the x */" ∧
      "*/".toList <:+: (paramDescription (some "/** @param int $x the x */") "x").toList :=
  ⟨⟨by decide +kernel, by decide +kernel, by decide +kernel⟩, by decide +kernel, by decide +kernel⟩

end PhpPages.Docblock

import PhpPages.Proofs.DocLayout

namespace PhpPages.Docblock

open Text

/-- A line of a doc comment: prose, a parameter tag, or a return tag whose type is made of
alternatives, each with an argument list or without. -/
inductive Entry where
  | prose (text : String)
  | param (type name description : String)
  | returns (type : List (String × Option String)) (description : String)

/-- An alternative of a type: a word, with arguments in angle brackets if there are any. -/
def alternative : String × Option String → String
  | (word, some arguments) => word ++ "<" ++ arguments ++ ">"
  | (word, none) => word

def typeText (type : List (String × Option String)) : String :=
  "|".intercalate (type.map alternative)

def Entry.line : Entry → String
  | prose text => text
  | param type name description => "@param " ++ type ++ " $" ++ name ++ " " ++ description
  | returns type description => "@return " ++ typeText type ++ " " ++ description

/-- The characters of identifiers: word characters and everything beyond ASCII. -/
def IsNameChar (c : Char) : Prop :=
  isWord c = true ∨ 128 ≤ c.toNat

instance (c : Char) : Decidable (IsNameChar c) :=
  inferInstanceAs (Decidable (_ ∨ _))

/-- A description: not blank, on one line, without a sign. -/
structure Describes (s : String) : Prop where
  some : ∃ c ∈ s.toList, isBlank c = false
  noFeed : '\n' ∉ s.toList
  noSign : '@' ∉ s.toList

/-- An alternative has a word without white space and opening bracket, and arguments that end at the
first closing bracket. -/
structure IsAlternative (a : String × Option String) : Prop where
  word : a.1 ≠ ""
  wordChars : ∀ c ∈ a.1.toList, isBlank c = false ∧ c ≠ '<'
  arguments : ∀ s ∈ a.2, s ≠ "" ∧ '>' ∉ s.toList ∧ '\n' ∉ s.toList

inductive Entry.Valid : Entry → Prop where
  | prose {text : String} (noFeed : '\n' ∉ text.toList) (noSign : '@' ∉ text.toList) :
      Valid (.prose text)
  | param {type name description : String} (some : type ≠ "")
      (chars : ∀ c ∈ type.toList, isWord c = true ∨ c ∈ ['\\', '|', '?', '<', '>', ',', '[', ']'])
      (nameChars : ∀ c ∈ name.toList, IsNameChar c) (described : Describes description) :
      Valid (.param type name description)
  | returns {type : List (String × Option String)} {description : String} (some : type ≠ [])
      (alternatives : ∀ a ∈ type, IsAlternative a) (described : Describes description)
      (noStar : '*' ∉ description.toList) : Valid (.returns type description)

def Entry.paramName? : Entry → Option String
  | param _ name _ => some name
  | _ => none

def Entry.isReturns : Entry → Bool
  | returns _ _ => true
  | _ => false

/-- The lines of a doc comment: different parameters have different names, and at most one tag is
for the returned value. -/
structure Tagged (entries : List Entry) : Prop where
  valid : ∀ e ∈ entries, e.Valid
  distinct : (entries.filterMap Entry.paramName?).Nodup
  single : (entries.filter Entry.isReturns).length ≤ 1

/-- No parameter tag stands inside the type of the returned value. -/
def Quiet (entries : List Entry) : Prop :=
  ∀ type description, .returns type description ∈ entries →
    ¬ "@param".toList <:+: (typeText type).toList

def comment (entries : List Entry) : String :=
  layout (entries.map Entry.line)

section

variable {tag : List Char} {read : List Char → Option (List Char)}

/-- Searching from the start of a line goes on behind it. -/
def Passes (tag : List Char) (read : List Char → Option (List Char)) (line : List Char) : Prop :=
  ∀ rest, firstAfter tag read (line ++ '\n' :: rest) = firstAfter tag read rest

theorem firstAfter_cons {c : Char} {cs : List Char} (h : ¬ tag <+: c :: cs) :
    firstAfter tag read (c :: cs) = firstAfter tag read cs := by
  rw [firstAfter, if_neg (by simpa using h)]

/-- A prefix without a character does not reach over it. -/
theorem prefix_of_not_mem {p a b : List Char} {x : Char} (hx : x ∉ p) (h : p <+: a ++ x :: b) :
    p <+: a := by
  induction a generalizing p with
  | nil =>
    cases p with
    | nil => exact List.prefix_refl []
    | cons d p =>
      have hd := (List.cons_prefix_cons.mp h).1
      simp [hd] at hx
  | cons c a ih =>
    cases p with
    | nil => exact List.nil_prefix
    | cons d p =>
      obtain ⟨rfl, hrest⟩ := List.cons_prefix_cons.mp h
      exact List.cons_prefix_cons.mpr ⟨rfl, ih (fun hmem => hx (by simp [hmem])) hrest⟩

theorem not_infix_split {p a b : List Char} {x : Char} (hx : x ∉ p) (ha : ¬ p <:+: a)
    (hb : ¬ p <:+: b) : ¬ p <:+: a ++ x :: b := by
  induction a with
  | nil =>
    intro h
    rcases List.infix_cons_iff.mp h with h | h
    · exact ha (prefix_of_not_mem (a := []) hx h).isInfix
    · exact hb h
  | cons c a ih =>
    intro h
    rcases List.infix_cons_iff.mp h with h | h
    · exact ha (prefix_of_not_mem (a := c :: a) hx h).isInfix
    · exact ih (fun h' => ha (List.infix_cons h')) h

theorem passes_of_absent {line : List Char} (hfeed : '\n' ∉ tag) (h : ¬ tag <:+: line) :
    Passes tag read line := by
  intro rest
  induction line with
  | nil =>
    apply firstAfter_cons
    intro hpre
    exact h (prefix_of_not_mem (a := []) hfeed hpre).isInfix
  | cons c line ih =>
    rw [List.cons_append, firstAfter_cons, ih fun h' => h (List.infix_cons h')]
    intro hpre
    exact h (prefix_of_not_mem (a := c :: line) hfeed hpre).isInfix

theorem firstAfter_lines {ls : List (List Char)} (h : ∀ l ∈ ls, Passes tag read l)
    (rest : List Char) :
    firstAfter tag read (ls.flatMap (· ++ ['\n']) ++ rest) = firstAfter tag read rest := by
  induction ls with
  | nil => rfl
  | cons l ls ih =>
    rw [List.flatMap_cons, List.append_assoc, List.append_assoc, List.singleton_append,
      h l (by simp)]
    exact ih fun l' hl' => h l' (by simp [hl'])

end

/-- The white space beyond ASCII lies in gaps of the table. -/
theorem wordRanges_gap {r : Nat × Nat} (h : r ∈ wordRanges) :
    ∀ gap ∈ [(0x80, 0xa9), (0x1680, 0x1680), (0x2000, 0x206f), (0x3000, 0x3004)],
    r.2 < gap.1 ∨ gap.2 < r.1 := by
  have hall :
      (wordRanges.all fun r =>
        [(0x80, 0xa9), (0x1680, 0x1680), (0x2000, 0x206f), (0x3000, 0x3004)].all fun gap =>
          r.2.blt gap.1 || gap.2.blt r.1) = true := by decide +kernel
  intro gap hgap
  have hr := List.all_eq_true.mp (List.all_eq_true.mp hall r h) gap hgap
  simpa only [Bool.or_eq_true, Nat.blt_eq] using hr

/-- No white space is a word character. -/
theorem isWord_of_isBlank {c : Char} (h : isBlank c = true) : isWord c = false := by
  simp only [isBlank, Bool.or_eq_true, Bool.and_eq_true, decide_eq_true_eq, beq_iff_eq] at h
  by_cases hascii : c.toNat < 128
  · have hall :
        ∀ n ∈ List.range' 9 5 ++ List.range' 28 5, isWord (Char.ofNat n) = false := by decide
    have hc := hall c.toNat
    rw [Char.ofNat_toNat] at hc
    apply hc
    simp only [List.mem_append, List.mem_range'_1]
    omega
  · rw [isWord, if_neg hascii, List.any_eq_false]
    intro r hr
    have hgap := wordRanges_gap hr
    simp only [List.forall_mem_cons, List.not_mem_nil, false_implies, implies_true,
      and_true] at hgap
    simp only [Bool.and_eq_true, decide_eq_true_eq]
    omega

theorem isBlank_of_isTypeChar {c : Char} (h : isTypeChar c = true) : isBlank c = false := by
  cases hb : isBlank c with
  | false => rfl
  | true =>
    simp only [isTypeChar, isWord_of_isBlank hb, Bool.false_or, List.contains_iff_mem] at h
    have hall :
        ∀ d ∈ ['\\', '|', '?', '<', '>', ',', '[', ']'], isBlank d = false := by simp [isBlank]
    rw [hall c h] at hb
    cases hb

theorem IsNameChar.ne_of_lt {c d : Char} (h : IsNameChar c) (hd : d.toNat < 128)
    (hword : isWord d = false) : c ≠ d := by
  rintro rfl
  rcases h with h | h
  · rw [hword] at h
    cases h
  · omega

/-- A run of a class is skipped up to where it ends. -/
theorem skipSome_append {p : Char → Bool} {a b : List Char} {x : Char} (hne : a ≠ [])
    (ha : ∀ c ∈ a, p c = true) (hx : p x = false) : skipSome p (a ++ x :: b) = some (x :: b) := by
  cases a with
  | nil => exact absurd rfl hne
  | cons c a =>
    rw [List.cons_append, skipSome, if_pos (ha c (by simp)), ← List.cons_append,
      List.dropWhile_append_of_pos ha, List.dropWhile_cons_of_neg (by simp [hx])]

/-- A description is what stands on the line, without the white space around it. -/
theorem dropWhile_description {p q : Char → Bool} {d : List Char} (hd : ∃ c ∈ d, isBlank c = false)
    (hp : ∀ c, p c = true → isBlank c = true) (hq : ∀ c ∈ d, q c = true) (hend : q '\n' = false)
    (rest : List Char) :
    ((d ++ '\n' :: rest).dropWhile p).takeWhile q = d.dropWhile p ∧ d.dropWhile p ≠ [] ∧
      trimChars (d.dropWhile p) = trimChars d := by
  have hne : d.dropWhile p ≠ [] := by
    intro h
    obtain ⟨c, hc, hblank⟩ := hd
    rw [hp c (List.dropWhile_eq_nil_iff.mp h c hc)] at hblank
    cases hblank
  have hall : ∀ c ∈ d.dropWhile p, q c = true := fun c hc => hq c (List.dropWhile_subset p hc)
  refine ⟨?_, hne, ?_⟩
  · rw [List.dropWhile_append, if_neg (by simpa using hne), List.takeWhile_append_of_pos hall,
      List.takeWhile_cons_of_neg (by simp [hend]), List.append_nil]
  · rw [trimChars, trimChars]
    conv_rhs => rw [← List.takeWhile_append_dropWhile (p := p) (l := d)]
    rw [List.dropWhile_append_of_pos fun c hc => hp c (List.mem_takeWhile_imp hc)]

theorem isBlank_of_isIndent {c : Char} (h : isIndent c = true) : isBlank c = true := by
  simp only [isIndent, Bool.or_eq_true, beq_iff_eq] at h
  rcases h with rfl | rfl <;> decide

section

variable {d : List Char}

theorem descriptionAfterName_line (hd : ∃ c ∈ d, isBlank c = false) (hfeed : '\n' ∉ d)
    (rest : List Char) :
    descriptionAfterName (' ' :: (d ++ '\n' :: rest)) = some (trimChars d) := by
  obtain ⟨htext, hne, htrim⟩ := dropWhile_description (p := isIndent) (q := (· ≠ '\n')) hd
    (fun _ => isBlank_of_isIndent) (fun c hc => by simpa using fun he : c = '\n' => hfeed (he ▸ hc))
    (by simp) rest
  have hspace : isIndent ' ' = true := by decide
  rw [descriptionAfterName, List.takeWhile_cons_of_pos hspace, List.dropWhile_cons_of_pos hspace]
  simp only [htext, List.isEmpty_cons, Bool.false_eq_true, ↓reduceIte, List.isEmpty_iff, hne, htrim]

theorem descriptionAfterType_line (hd : ∃ c ∈ d, isBlank c = false) (hfeed : '\n' ∉ d)
    (hstar : '*' ∉ d) (rest : List Char) :
    descriptionAfterType (' ' :: (d ++ '\n' :: rest)) = some (trimChars d) := by
  have hkept : ∀ c ∈ d, (decide (c ≠ '\n') && decide (c ≠ '*')) = true := by
    intro c hc
    have hc1 : c ≠ '\n' := fun he => hfeed (he ▸ hc)
    have hc2 : c ≠ '*' := fun he => hstar (he ▸ hc)
    simp [hc1, hc2]
  obtain ⟨htext, hne, htrim⟩ :=
    dropWhile_description (p := isBlank) hd (fun _ hc => hc) hkept (by simp) rest
  have hspace : isBlank ' ' = true := by decide
  rw [descriptionAfterType, List.takeWhile_cons_of_pos hspace, List.dropWhile_cons_of_pos hspace]
  simp only [htext, List.isEmpty_cons, Bool.false_eq_true, ↓reduceIte, List.isEmpty_iff, hne, htrim]

/-- A parameter tag gives its description to its own name, and none to any other. -/
theorem readParam_line {type name name' : List Char} (htype : type ≠ [])
    (hchars : ∀ c ∈ type, isTypeChar c = true) (hname : ∀ c ∈ name, IsNameChar c)
    (hname' : ∀ c ∈ name', IsNameChar c) (hd : ∃ c ∈ d, isBlank c = false) (hfeed : '\n' ∉ d)
    (rest : List Char) :
    readParam name' (' ' :: (type ++ ' ' :: '$' :: (name ++ ' ' :: (d ++ '\n' :: rest)))) =
      if name' = name then some (trimChars d) else none := by
  have hatType : ∀ cs, skipSome isBlank (' ' :: (type ++ cs)) = some (type ++ cs) := by
    intro cs
    obtain ⟨c, type, rfl⟩ := List.exists_cons_of_ne_nil htype
    exact skipSome_append (a := [' ']) (by simp) (by simp [isBlank])
      (isBlank_of_isTypeChar (hchars c (by simp)))
  have hafterType : ∀ cs, skipSome isTypeChar (type ++ ' ' :: cs) = some (' ' :: cs) :=
    fun cs => skipSome_append htype hchars (by decide)
  have hatName : ∀ cs, skipSome isBlank (' ' :: '$' :: cs) = some ('$' :: cs) :=
    fun cs => skipSome_append (a := [' ']) (by simp) (by simp [isBlank]) (by decide)
  have hread :
      readParam name' (' ' :: (type ++ ' ' :: '$' :: (name ++ ' ' :: (d ++ '\n' :: rest)))) =
      if name'.isPrefixOf (name ++ ' ' :: (d ++ '\n' :: rest)) then
        descriptionAfterName ((name ++ ' ' :: (d ++ '\n' :: rest)).drop name'.length)
          else none := by
    simp [readParam, hatType, hafterType, hatName]
  rw [hread]
  by_cases he : name' = name
  · rw [if_pos he, if_pos (by simp [he]), he, List.drop_left, descriptionAfterName_line hd hfeed]
  · rw [if_neg he]
    split
    · rename_i hpre
      -- The name that is looked for only begins the one that stands here, which goes on with
      -- a name character.
      have hspace : ' ' ∉ name' := by
        intro hmem
        exact IsNameChar.ne_of_lt (hname' _ hmem) (by decide) (by decide) rfl
      have hbegins := List.isPrefixOf_iff_prefix.mp hpre
      obtain ⟨m, rfl⟩ := prefix_of_not_mem hspace hbegins
      cases m with
      | nil => exact absurd (List.append_nil name').symm he
      | cons c m =>
        have hc := hname c (by simp)
        have hindent : isIndent c = false := by
          simp [isIndent, hc.ne_of_lt (d := ' ') (by decide) (by decide),
            hc.ne_of_lt (d := '\t') (by decide) (by decide)]
        rw [List.append_assoc, List.drop_left, List.cons_append, descriptionAfterName]
        simp [hindent]
    · rfl

end

theorem toList_typeText_singleton (a : String × Option String) :
    (typeText [a]).toList = (alternative a).toList := by
  simp [typeText]

theorem toList_typeText_cons (a b : String × Option String) (type : List (String × Option String)) :
    (typeText (a :: b :: type)).toList = (alternative a).toList ++
    '|' :: (typeText (b :: type)).toList := by
  simp [typeText]

theorem toList_alternative_some (word arguments : String) :
    (alternative (word, some arguments)).toList =
      word.toList ++ '<' :: (arguments.toList ++ ['>']) := by
  simp [alternative]

section

variable {word arguments : List Char}

theorem skipReturnType_word (fuel : Nat) (hne : word ≠ [])
    (hword : ∀ c ∈ word, isReturnChar c = true) (rest : List Char) :
    skipReturnType (fuel + 1) (word ++ ' ' :: rest) = some (' ' :: rest) := by
  have hskip : skipSome isReturnChar (word ++ ' ' :: rest) = some (' ' :: rest) :=
    skipSome_append hne hword (by decide)
  simp [skipReturnType, hskip]

/-- Behind an argument list the type goes on if a bar follows. -/
theorem skipReturnType_arguments (fuel : Nat) (hne : word ≠ [])
    (hword : ∀ c ∈ word, isReturnChar c = true) (hsome : arguments ≠ []) (hclose : '>' ∉ arguments)
    (rest : List Char) :
    skipReturnType (fuel + 1) (word ++ '<' :: (arguments ++ '>' :: ' ' :: rest)) =
      some (' ' :: rest) ∧
      skipReturnType (fuel + 1) (word ++ '<' :: (arguments ++ '>' :: '|' :: rest)) =
        skipReturnType fuel rest := by
  have hskip : ∀ cs, skipSome isReturnChar (word ++ '<' :: cs) = some ('<' :: cs) :=
    fun cs => skipSome_append hne hword (by decide)
  have hinner : ∀ c ∈ arguments, (!decide (c = '>')) = true := by
    intro c hc
    simpa using fun he : c = '>' => hclose (he ▸ hc)
  have harguments :
      ∀ cs, skipSome (fun c => !decide (c = '>')) (arguments ++ '>' :: cs) = some ('>' :: cs) :=
    fun cs => skipSome_append hsome hinner (by simp)
  constructor
  · simp [skipReturnType, hskip, harguments]
  · simp [skipReturnType, hskip, harguments]

end

theorem IsAlternative.isReturnChar {a : String × Option String} (h : IsAlternative a) :
    ∀ c ∈ a.1.toList, isReturnChar c = true := by
  intro c hc
  simp [Docblock.isReturnChar, h.wordChars c hc]

/-- The type of a return tag is skipped as a whole. The words of alternatives without arguments run
together with the bars behind them, so the type may stand behind characters of a word that are
already under way. -/
theorem skipReturnType_typeText {type : List (String × Option String)} (hne : type ≠ [])
    (htype : ∀ a ∈ type, IsAlternative a) (word : List Char)
    (hword : ∀ c ∈ word, isReturnChar c = true) (fuel : Nat) (hfuel : type.length ≤ fuel)
    (rest : List Char) :
    skipReturnType fuel (word ++ ((typeText type).toList ++ ' ' :: rest)) = some (' ' :: rest) := by
  induction type generalizing word fuel with
  | nil => exact absurd rfl hne
  | cons a type ih =>
    obtain ⟨fuel, rfl⟩ : ∃ n, fuel = n + 1 :=
      Nat.exists_eq_add_one.mpr (Nat.lt_of_lt_of_le (by simp) hfuel)
    have ha := htype a (by simp)
    have hlong : ∀ c ∈ word ++ a.1.toList, isReturnChar c = true := by
      simpa [or_imp, forall_and] using ⟨hword, ha.isReturnChar⟩
    have hsome : word ++ a.1.toList ≠ [] := by simp [ha.word]
    have hrest : ∀ b ∈ type, IsAlternative b := fun b hb => htype b (by simp [hb])
    match a, type with
    | (base, none), [] =>
      rw [toList_typeText_singleton, alternative, ← List.append_assoc]
      exact skipReturnType_word fuel hsome hlong rest
    | (base, none), b :: type =>
      have hbar : ∀ c ∈ word ++ base.toList ++ ['|'], isReturnChar c = true :=
        forall_mem_snoc hlong (by decide)
      have hfound := ih (by simp) hrest _ hbar (fuel + 1) (Nat.le_of_succ_le hfuel)
      rw [toList_typeText_cons, alternative]
      simpa using hfound
    | (base, some arguments), [] =>
      obtain ⟨hargs, hclose, _⟩ := ha.arguments arguments rfl
      have hfound :=
        (skipReturnType_arguments fuel hsome hlong (by simpa using hargs) hclose rest).1
      rw [toList_typeText_singleton, toList_alternative_some]
      simpa using hfound
    | (base, some arguments), b :: type =>
      obtain ⟨hargs, hclose, _⟩ := ha.arguments arguments rfl
      have hnext := ih (by simp) hrest [] (by simp) fuel (Nat.le_of_succ_le_succ hfuel)
      have hfound := (skipReturnType_arguments fuel hsome hlong (by simpa using hargs) hclose
        ((typeText (b :: type)).toList ++ ' ' :: rest)).2.trans hnext
      rw [toList_typeText_cons, toList_alternative_some]
      simpa using hfound

/-- An alternative starts with the first character of its word. -/
theorem IsAlternative.exists_eq_cons {a : String × Option String} (h : IsAlternative a) :
    ∃ c cs, (alternative a).toList = c :: cs ∧ isBlank c = false := by
  obtain ⟨c, cs, hcs⟩ := List.exists_cons_of_ne_nil (mt String.toList_eq_nil_iff.mp h.word)
  have hc := (h.wordChars c (by simp [hcs])).1
  match a with
  | (word, some arguments) =>
    exact ⟨c, _, by rw [toList_alternative_some, hcs, List.cons_append], hc⟩
  | (word, none) => exact ⟨c, cs, hcs, hc⟩

theorem length_le_typeText {type : List (String × Option String)}
    (htype : ∀ a ∈ type, IsAlternative a) : type.length ≤ (typeText type).toList.length := by
  induction type with
  | nil => exact Nat.zero_le _
  | cons a type ih =>
    obtain ⟨c, cs, hcs, _⟩ := (htype a (by simp)).exists_eq_cons
    have hrest := ih fun b hb => htype b (by simp [hb])
    cases type with
    | nil => simp [toList_typeText_singleton, hcs]
    | cons b type =>
      simp only [toList_typeText_cons, hcs, List.length_append, List.length_cons] at hrest ⊢
      omega

theorem exists_typeText_eq_cons {type : List (String × Option String)} (hne : type ≠ [])
    (htype : ∀ a ∈ type, IsAlternative a) :
    ∃ c cs, (typeText type).toList = c :: cs ∧ isBlank c = false := by
  obtain ⟨a, type, rfl⟩ := List.exists_cons_of_ne_nil hne
  obtain ⟨c, cs, hcs, hc⟩ := (htype a (by simp)).exists_eq_cons
  cases type with
  | nil => exact ⟨c, cs, by rw [toList_typeText_singleton, hcs], hc⟩
  | cons b type => exact ⟨c, _, by rw [toList_typeText_cons, hcs, List.cons_append], hc⟩

theorem readReturn_line {type : List (String × Option String)} (hne : type ≠ [])
    (htype : ∀ a ∈ type, IsAlternative a) {d : List Char} (hd : ∃ c ∈ d, isBlank c = false)
    (hfeed : '\n' ∉ d) (hstar : '*' ∉ d) (rest : List Char) :
    readReturn (' ' :: ((typeText type).toList ++ ' ' :: (d ++ '\n' :: rest))) =
      some (trimChars d) := by
  have hatType : ∀ cs, skipSome isBlank (' ' :: ((typeText type).toList ++ cs)) =
      some ((typeText type).toList ++ cs) := by
    intro cs
    obtain ⟨c, cs', hcs, hc⟩ := exists_typeText_eq_cons hne htype
    rw [hcs]
    exact skipSome_append (a := [' ']) (by simp) (by simp [isBlank]) hc
  have hafterType := skipReturnType_typeText hne htype [] (by simp)
    (((typeText type).toList ++ ' ' :: (d ++ '\n' :: rest)).length + 1)
    (Nat.le_succ_of_le (Nat.le_trans (length_le_typeText htype) (by simp))) (d ++ '\n' :: rest)
  rw [List.nil_append] at hafterType
  simp only [readReturn, hatType, Option.bind_eq_bind, Option.bind_some, hafterType,
    descriptionAfterType_line hd hfeed hstar]

theorem starred_param (type name description : String) :
    starred (Entry.param type name description).line =
      ' ' :: '*' :: ' ' :: ("@param".toList ++ ' ' ::
        (type.toList ++ ' ' :: '$' :: (name.toList ++ ' ' :: description.toList))) := by
  simp [starred, Entry.line]

theorem starred_returns (type : List (String × Option String)) (description : String) :
    starred (Entry.returns type description).line =
      ' ' :: '*' :: ' ' ::
        ("@return".toList ++ ' ' :: ((typeText type).toList ++ ' ' :: description.toList)) := by
  simp [starred, Entry.line]

section

variable {tag : List Char} {read : List Char → Option (List Char)}

theorem firstAfter_star (hsign : tag.head? = some '@') (cs rest : List Char) :
    firstAfter tag read (' ' :: '*' :: ' ' :: cs ++ rest) = firstAfter tag read (cs ++ rest) := by
  obtain ⟨t, rfl⟩ := List.head?_eq_some_iff.mp hsign
  simp [firstAfter]

theorem firstAfter_found {cs found : List Char} (hsign : tag.head? = some '@')
    (h : read cs = some found) : firstAfter tag read (tag ++ cs) = some found := by
  obtain ⟨t, rfl⟩ := List.head?_eq_some_iff.mp hsign
  simp [firstAfter, h]

theorem firstAfter_unread {t cs : List Char} (h : read cs = none) :
    firstAfter ('@' :: t) read ('@' :: t ++ cs) = firstAfter ('@' :: t) read (t ++ cs) := by
  simp [firstAfter, h]

/-- A line without a sign has no tag. -/
theorem passes_of_noSign {line : List Char} (hsign : '@' ∈ tag) (hfeed : '\n' ∉ tag)
    (h : '@' ∉ line) : Passes tag read line :=
  passes_of_absent hfeed fun hin => h (hin.subset hsign)

theorem passes_prose {text : String} (hsign : '@' ∈ tag) (hfeed : '\n' ∉ tag)
    (h : '@' ∉ text.toList) : Passes tag read (starred (Entry.prose text).line) :=
  passes_of_noSign hsign hfeed (by simpa [starred, Entry.line] using h)

end

section

variable {type name description : String}

theorem Entry.Valid.isTypeChar (h : (Entry.param type name description).Valid) :
    ∀ c ∈ type.toList, isTypeChar c = true := by
  intro c hc
  cases h with
  | param _ chars => simpa [Docblock.isTypeChar] using chars c hc

/-- Behind the tag, a parameter line has no sign. -/
theorem Entry.Valid.noSign_behind (h : (Entry.param type name description).Valid) :
    '@' ∉ ' ' :: (type.toList ++ ' ' :: '$' :: (name.toList ++ ' ' :: description.toList)) := by
  have htype : '@' ∉ type.toList := fun hmem => absurd (h.isTypeChar '@' hmem) (by decide)
  cases h with
  | param _ _ nameChars described =>
    have hname : '@' ∉ name.toList :=
      fun hmem => (nameChars '@' hmem).ne_of_lt (by decide) (by decide) rfl
    simp [htype, hname, described.noSign]

theorem firstAfter_param (h : (Entry.param type name description).Valid) (rest : List Char) :
    firstAfter "@param".toList (readParam name.toList)
        (starred (Entry.param type name description).line ++ '\n' :: rest) =
          some (trimChars description.toList) := by
  have hchars := h.isTypeChar
  cases h with
  | param hsome _ nameChars described =>
    have hread := readParam_line (by simpa using hsome) hchars nameChars nameChars described.some
      described.noFeed rest
    rw [if_pos rfl] at hread
    rw [starred_param, firstAfter_star (by decide), List.append_assoc, firstAfter_found (by decide)]
    simpa using hread

/-- The tag of another parameter is passed. -/
theorem passes_param (h : (Entry.param type name description).Valid) {name' : String}
    (hname' : ∀ c ∈ name'.toList, IsNameChar c) (hne : name' ≠ name) :
    Passes "@param".toList (readParam name'.toList)
      (starred (Entry.param type name description).line) := by
  intro rest
  have hchars := h.isTypeChar
  have hbehind := h.noSign_behind
  cases h with
  | param hsome _ nameChars described =>
    have hread := readParam_line (by simpa using hsome) hchars nameChars hname' described.some
      described.noFeed rest
    rw [if_neg fun he => hne (String.toList_inj.mp he)] at hread
    have hquiet : Passes "@param".toList (readParam name'.toList) ("param".toList ++
        ' ' :: (type.toList ++ ' ' :: '$' :: (name.toList ++ ' ' :: description.toList))) := by
      refine passes_of_noSign (by decide) (by decide) fun hmem => ?_
      exact (List.mem_append.mp hmem).elim (by decide) hbehind
    rw [← hquiet rest, starred_param, firstAfter_star (by decide), List.append_assoc,
      List.append_assoc]
    refine firstAfter_unread ?_
    simpa using hread

theorem passes_param_return {read : List Char → Option (List Char)}
    (h : (Entry.param type name description).Valid) :
    Passes "@return".toList read (starred (Entry.param type name description).line) := by
  have hsplit : starred (Entry.param type name description).line = " * @param".toList ++
      ' ' :: (type.toList ++ ' ' :: '$' :: (name.toList ++ ' ' :: description.toList)) := by
    simp [starred_param]
  rw [hsplit]
  have hfront : ¬ "@return".toList <:+: " * @param".toList :=
    fun hin => absurd (hin.subset (by decide : 'u' ∈ "@return".toList)) (by decide)
  refine passes_of_absent (by decide) (not_infix_split (by decide) hfront fun hin => ?_)
  exact h.noSign_behind (List.mem_cons_of_mem ' ' (hin.subset (by decide)))

end

section

variable {type : List (String × Option String)} {description : String}

theorem firstAfter_returns (h : (Entry.returns type description).Valid) (rest : List Char) :
    firstAfter "@return".toList readReturn
      (starred (Entry.returns type description).line ++ '\n' :: rest) =
      some (trimChars description.toList) := by
  cases h with
  | returns hsome alternatives described noStar =>
    have hread := readReturn_line hsome alternatives described.some described.noFeed noStar rest
    rw [starred_returns, firstAfter_star (by decide), List.append_assoc,
      firstAfter_found (by decide)]
    simpa using hread

/-- A return tag without a parameter tag in its type is passed in the search for parameters. -/
theorem passes_returns {read : List Char → Option (List Char)}
    (h : (Entry.returns type description).Valid)
    (hquiet : ¬ "@param".toList <:+: (typeText type).toList) :
    Passes "@param".toList read (starred (Entry.returns type description).line) := by
  have hsplit : starred (Entry.returns type description).line = " * @return".toList ++
      ' ' :: ((typeText type).toList ++ ' ' :: description.toList) := by
    simp [starred_returns]
  rw [hsplit]
  have hfront : ¬ "@param".toList <:+: " * @return".toList :=
    fun hin => absurd (hin.subset (by decide : 'p' ∈ "@param".toList)) (by decide)
  refine passes_of_absent (by decide)
    (not_infix_split (by decide) hfront (not_infix_split (by decide) hquiet fun hin => ?_))
  cases h with
  | returns _ _ described _ => exact described.noSign (hin.subset (by decide))

end

section

variable {tag : List Char} {read : List Char → Option (List Char)} {entries : List Entry}

theorem toList_comment (entries : List Entry) :
    (comment entries).toList =
      ("/**".toList :: entries.map fun e => starred e.line).flatMap (· ++ ['\n']) ++
      " */".toList := by
  simp [comment, toList_layout, Function.comp_def]

theorem firstAfter_of_noSign {cs : List Char} (hsign : '@' ∈ tag) (h : '@' ∉ cs) :
    firstAfter tag read cs = none := by
  induction cs with
  | nil => rfl
  | cons c cs ih =>
    rw [firstAfter_cons, ih fun hmem => h (List.mem_cons_of_mem c hmem)]
    exact fun hpre => h (hpre.subset hsign)

/-- Lines that the search passes can be left out in front. -/
theorem firstAfter_comment {before : List Entry} (hsign : '@' ∈ tag) (hfeed : '\n' ∉ tag)
    (h : ∀ e ∈ before, Passes tag read (starred e.line)) (after : List Entry) :
    firstAfter tag read (comment (before ++ after)).toList =
      firstAfter tag read ((after.map fun e => starred e.line).flatMap (· ++ ['\n']) ++
        " */".toList) := by
  have hpasses : ∀ l ∈ "/**".toList :: before.map fun e => starred e.line, Passes tag read l := by
    intro l hl
    rcases List.mem_cons.mp hl with rfl | hl
    · exact passes_of_noSign hsign hfeed (by decide)
    · obtain ⟨b, hb, rfl⟩ := List.mem_map.mp hl
      exact h b hb
  have hsplit : (comment (before ++ after)).toList =
      ("/**".toList :: before.map fun e => starred e.line).flatMap (· ++ ['\n']) ++
        ((after.map fun e => starred e.line).flatMap (· ++ ['\n']) ++ " */".toList) := by
    rw [toList_comment]
    simp
  rw [hsplit, firstAfter_lines hpasses]

/-- When the search passes all lines, it finds nothing. -/
theorem firstAfter_comment_none (hsign : '@' ∈ tag) (hfeed : '\n' ∉ tag)
    (h : ∀ e ∈ entries, Passes tag read (starred e.line)) :
    firstAfter tag read (comment entries).toList = none := by
  have hnone := firstAfter_comment hsign hfeed h []
  rw [List.append_nil] at hnone
  rw [hnone]
  exact firstAfter_of_noSign hsign (by decide)

/-- When the search passes the lines in front of one that has the tag, it finds what
is read there. -/
theorem firstAfter_comment_some {before : List Entry} {e : Entry} {found : List Char}
    (hsign : '@' ∈ tag) (hfeed : '\n' ∉ tag) (h : ∀ e ∈ before, Passes tag read (starred e.line))
    (hfound : ∀ rest, firstAfter tag read (starred e.line ++ '\n' :: rest) = some found)
    (after : List Entry) :
    firstAfter tag read (comment (before ++ e :: after)).toList = some found := by
  rw [firstAfter_comment hsign hfeed h, List.map_cons, List.flatMap_cons, List.append_assoc,
    List.append_assoc]
  exact hfound _

end

section

variable {entries : List Entry}

/-- In the search for a parameter all lines are passed but its own. -/
theorem passes_of_paramName? (h : Tagged entries) (hquiet : Quiet entries) {name : String}
    (hname : ∀ c ∈ name.toList, IsNameChar c) {e : Entry} (he : e ∈ entries)
    (hne : e.paramName? ≠ some name) :
    Passes "@param".toList (readParam name.toList) (starred e.line) := by
  have hvalid := h.valid e he
  cases e with
  | prose text =>
    cases hvalid with
    | prose _ noSign => exact passes_prose (by decide) (by decide) noSign
  | param type name' description =>
    exact passes_param hvalid hname fun heq => hne (by simp [Entry.paramName?, heq])
  | returns type description => exact passes_returns hvalid (hquiet type description he)

/-- In the search for the returned value all lines are passed but its own. -/
theorem passes_of_not_returns (h : Tagged entries) {e : Entry} (he : e ∈ entries)
    (hne : e.isReturns = false) : Passes "@return".toList readReturn (starred e.line) := by
  have hvalid := h.valid e he
  cases e with
  | prose text =>
    cases hvalid with
    | prose _ noSign => exact passes_prose (by decide) (by decide) noSign
  | param type name description => exact passes_param_return hvalid
  | returns type description => cases hne

theorem paramDescription_of_mem (h : Tagged entries) (hquiet : Quiet entries)
    {type name description : String} (hmem : .param type name description ∈ entries) :
    paramDescription (some (comment entries)) name = trim description := by
  have hvalid := h.valid _ hmem
  obtain ⟨before, after, rfl⟩ := List.append_of_mem hmem
  have hname : ∀ c ∈ name.toList, IsNameChar c := by
    cases hvalid with
    | param _ _ nameChars _ => exact nameChars
  have hbefore : ∀ e ∈ before, e.paramName? ≠ some name := by
    intro e he heq
    have hdistinct := h.distinct
    rw [List.filterMap_append, List.nodup_append] at hdistinct
    exact hdistinct.2.2 name (List.mem_filterMap.mpr ⟨e, he, heq⟩) name
      (by simp [Entry.paramName?]) rfl
  have hfound := firstAfter_comment_some (by decide) (by decide)
    (fun e he => passes_of_paramName? h hquiet hname (by simp [he]) (hbefore e he))
    (firstAfter_param hvalid) after
  simp only [paramDescription, hfound, Option.getD_some, trim]

theorem paramDescription_of_not_mem (h : Tagged entries) (hquiet : Quiet entries) {name : String}
    (hname : ∀ c ∈ name.toList, IsNameChar c) (hnone : ∀ e ∈ entries, e.paramName? ≠ some name) :
    paramDescription (some (comment entries)) name = "" := by
  have hfound := firstAfter_comment_none (by decide) (by decide)
    fun e he => passes_of_paramName? h hquiet hname he (hnone e he)
  simp only [paramDescription, hfound, Option.getD_none, String.ofList_nil]

theorem returnDescription_of_mem (h : Tagged entries) {type : List (String × Option String)}
    {description : String} (hmem : .returns type description ∈ entries) :
    returnDescription (some (comment entries)) = trim description := by
  have hvalid := h.valid _ hmem
  obtain ⟨before, after, rfl⟩ := List.append_of_mem hmem
  have hbefore : ∀ e ∈ before, e.isReturns = false := by
    intro e he
    have hsingle := h.single
    rw [List.filter_append, List.length_append, List.filter_cons_of_pos rfl,
      List.length_cons] at hsingle
    have hnil : before.filter Entry.isReturns = [] := List.length_eq_zero_iff.mp (by omega)
    simpa using List.filter_eq_nil_iff.mp hnil e he
  have hfound := firstAfter_comment_some (by decide) (by decide)
    (fun e he => passes_of_not_returns h (by simp [he]) (hbefore e he))
    (firstAfter_returns hvalid) after
  simp only [returnDescription, hfound, Option.getD_some, trim]

theorem returnDescription_of_not_mem (h : Tagged entries)
    (hnone : ∀ e ∈ entries, e.isReturns = false) :
    returnDescription (some (comment entries)) = "" := by
  have hfound := firstAfter_comment_none (by decide) (by decide) fun e he =>
    passes_of_not_returns h he (hnone e he)
  simp only [returnDescription, hfound, Option.getD_none, String.ofList_nil]

/-- The descriptions of a doc comment are those of its tags. That of the returned value is always
found. Those of the parameters are found by name, and other names have none, if no parameter tag
stands in the type of the returned value. -/
theorem descriptions_read_back (h : Tagged entries) :
    (∀ type description, .returns type description ∈ entries →
        returnDescription (some (comment entries)) = trim description) ∧
      ((∀ e ∈ entries, e.isReturns = false) → returnDescription (some (comment entries)) = "") ∧
      (Quiet entries →
        (∀ type name description, .param type name description ∈ entries →
          paramDescription (some (comment entries)) name = trim description) ∧
        ∀ name : String, (∀ c ∈ name.toList, IsNameChar c) →
          (∀ e ∈ entries, e.paramName? ≠ some name) →
          paramDescription (some (comment entries)) name = "") := by
  refine ⟨fun _ _ => returnDescription_of_mem h, returnDescription_of_not_mem h,
    fun hquiet => ⟨?_, ?_⟩⟩
  · intro type name description hmem
    exact paramDescription_of_mem h hquiet hmem
  · intro name hname hnone
    exact paramDescription_of_not_mem h hquiet hname hnone

end

def sampleEntries : List Entry :=
  [.prose "Charges an order.", .param "Order" "order" "The order\t",
    .param "array<int,int>|null" "orders" " All * of them",
    .returns [("array", some "int, Order"), ("null", none)] "What is left"]

theorem tagged_sampleEntries : Tagged sampleEntries := by
  refine ⟨?_, by decide, by decide⟩
  intro e he
  simp only [sampleEntries, List.mem_cons, List.not_mem_nil, or_false] at he
  obtain rfl | rfl | rfl | rfl := he
  · exact .prose (by simp) (by simp)
  · exact .param (by simp) (by simp [isWord]) (by simp [IsNameChar, isWord])
      ⟨⟨'T', by simp, rfl⟩, by simp, by simp⟩
  · exact .param (by simp) (by simp [isWord]) (by simp [IsNameChar, isWord])
      ⟨⟨'A', by simp, rfl⟩, by simp, by simp⟩
  · refine .returns (by simp) ?_ ⟨⟨'W', by simp, rfl⟩, by simp, by simp⟩ (by simp)
    intro a ha
    simp only [List.mem_cons, List.not_mem_nil, or_false] at ha
    obtain rfl | rfl := ha
    · exact ⟨by simp, by simp [isBlank], by simp⟩
    · exact ⟨by simp, by simp [isBlank], by simp⟩

theorem quiet_sampleEntries : Quiet sampleEntries := by
  intro type description hmem
  simp only [sampleEntries, List.mem_cons, reduceCtorEq, List.not_mem_nil, or_false, false_or,
    Entry.returns.injEq] at hmem
  obtain ⟨rfl, rfl⟩ := hmem
  decide +kernel

theorem descriptions_read_back_sample :
    Tagged sampleEntries ∧ Quiet sampleEntries ∧
      paramDescription (some (comment sampleEntries)) "order" = "The order" ∧
      paramDescription (some (comment sampleEntries)) "orders" = "All * of them" ∧
      paramDescription (some (comment sampleEntries)) "ord" = "" ∧
      returnDescription (some (comment sampleEntries)) = "What is left" := by
  obtain ⟨hreturn, _, hparams⟩ := descriptions_read_back tagged_sampleEntries
  obtain ⟨hparam, hother⟩ := hparams quiet_sampleEntries
  refine ⟨tagged_sampleEntries, quiet_sampleEntries, ?_, ?_, ?_, ?_⟩
  · exact (hparam "Order" "order" "The order\t" (by simp [sampleEntries])).trans (by decide +kernel)
  · exact (hparam "array<int,int>|null" "orders" " All * of them" (by simp [sampleEntries])).trans
      (by decide +kernel)
  · exact hother "ord" (by simp [IsNameChar, isWord]) (by decide)
  · have hmem :
        .returns [("array", some "int, Order"), ("null", none)] "What is left" ∈ sampleEntries := by
      simp [sampleEntries]
    exact (hreturn _ _ hmem).trans (by decide +kernel)

/-- A parameter tag among the arguments of a type is read to the end of the line. -/
theorem param_tag_in_type_is_read :
    Tagged [.returns [("array", some "@param int $x The key")] "The list"] ∧
      (∀ e ∈ [Entry.returns [("array", some "@param int $x The key")] "The list"],
        e.paramName? ≠ some "x") ∧
      paramDescription
        (some (comment [.returns [("array", some "@param int $x The key")] "The list"])) "x" =
        "The key> The list" := by
  refine ⟨⟨?_, by decide, by decide⟩, by decide, by decide +kernel⟩
  intro e he
  obtain rfl := List.mem_singleton.mp he
  refine .returns (by simp) ?_ ⟨⟨'T', by simp, rfl⟩, by simp, by simp⟩ (by simp)
  intro a ha
  obtain rfl := List.mem_singleton.mp ha
  exact ⟨by simp, by simp [isBlank], by simp⟩

end PhpPages.Docblock

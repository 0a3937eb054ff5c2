import Mathlib.Logic.Relation
import PhpPages.Boundary
import PhpPages.Proofs.Segments

/-!
The canonical form of a path text. Segments are simplified by leaving out what leads nowhere: a
segment that stays, a name with the double dot behind it, and at the root a double dot in front. A
path that does not climb above its start comes down to names in this way, to the same names in
whatever order it is simplified, and its canonical form is what these names spell.
-/

namespace PhpPages

open Text

namespace Segments

/-- Whether a segment goes down into a directory: it neither stays nor goes back. -/
def goesDown (s : String) : Bool :=
  s != "" && s != "." && s != ".."

theorem goesDown_iff {s : String} : goesDown s = true ↔ isDropped s = false ∧ s ≠ ".." := by
  simp [goesDown, isDropped, and_assoc]

/-- A relative path that climbs above its start: some of its first segments go back more
often than down. -/
def ClimbsOut (path : String) : Prop :=
  startsAtRoot (slashed path) = false ∧
    ∃ front, front <+: pieces '/' (slashed path) ∧ front.countP goesDown < front.count ".."

/-- A path text in canonical form: the root, the start, or names only, with at most one
slash in front. -/
def IsCanonical (path : String) : Prop :=
  path = "/" ∨ path = "." ∨
    ∀ s ∈ (pieces '/' path).drop (if startsAtRoot path then 1 else 0), s ≠ "" ∧ s ≠ "." ∧ s ≠ ".."

/-- One simplification of segments. -/
inductive Shortens (atRoot : Bool) : List String → List String → Prop where
  | stay {before after : List String} {s : String} (dropped : s = "" ∨ s = ".") :
      Shortens atRoot (before ++ s :: after) (before ++ after)
  | back {before after : List String} {s : String} (down : goesDown s = true) :
      Shortens atRoot (before ++ s :: ".." :: after) (before ++ after)
  | top {after : List String} (root : atRoot = true) : Shortens atRoot (".." :: after) after

/-- A segment stays, goes back or goes down. -/
theorem segment_cases (s : String) :
    ((s = "" ∨ s = ".") ∧ isDropped s = true ∧ s ≠ ".." ∧ goesDown s = false) ∨ s = ".." ∨
    (isDropped s = false ∧ s ≠ ".." ∧ goesDown s = true) := by
  by_cases hup : s = ".."
  · exact .inr (.inl hup)
  · cases hd : isDropped s with
    | true =>
      refine .inl ⟨by simpa [isDropped] using hd, rfl, hup, ?_⟩
      rw [← Bool.not_eq_true, goesDown_iff, hd]
      simp
    | false => exact .inr (.inr ⟨rfl, hup, goesDown_iff.mpr ⟨hd, hup⟩⟩)

/-- A walk climbs above its start exactly if the segments up to some point go back too often. -/
theorem climbs_iff (depth : Nat) (ps : List String) : climbs depth ps = true ↔
    ∃ front, front <+: ps ∧ depth + front.countP goesDown < front.count ".." := by
  induction ps generalizing depth with
  | nil => simp [climbs]
  | cons p ps ih =>
    -- Nothing goes back in the empty front, so a front that counts begins with `p`.
    have hcons : (∃ front, front <+: p :: ps ∧ depth + front.countP goesDown < front.count "..") ↔
        ∃ front, front <+: ps ∧ depth + (p :: front).countP goesDown < (p :: front).count ".." := by
      constructor
      · intro h
        obtain ⟨front, hfront, hlt⟩ := h
        rcases List.prefix_cons_iff.mp hfront with rfl | ⟨rest, rfl, hrest⟩
        · simp at hlt
        · exact ⟨rest, hrest, hlt⟩
      · intro h
        obtain ⟨rest, hrest, hlt⟩ := h
        exact ⟨p :: rest, List.cons_prefix_cons.mpr ⟨rfl, hrest⟩, hlt⟩
    rw [hcons]
    rcases segment_cases p with ⟨_, hd, hup, hdown⟩ | rfl | ⟨hd, hup, hdown⟩
    · simp [climbs, hd, hup, hdown, ih]
    · have hdown : goesDown ".." = false := rfl
      cases depth with
      | zero =>
        have hstart : climbs 0 (".." :: ps) = true := rfl
        simp only [hstart, true_iff]
        exact ⟨[], List.nil_prefix, by simp [hdown]⟩
      | succ depth =>
        have hstep : climbs (depth + 1) (".." :: ps) = climbs depth ps := rfl
        rw [hstep, ih]
        refine exists_congr fun front => and_congr_right fun _ => ?_
        rw [List.countP_cons_of_neg (by simp [hdown]), List.count_cons_self]
        omega
    · have hstep : climbs depth (p :: ps) = climbs (depth + 1) ps := by simp [climbs, hd, hup]
      rw [hstep, ih]
      refine exists_congr fun front => and_congr_right fun _ => ?_
      rw [List.countP_cons_of_pos hdown, List.count_cons_of_ne hup]
      omega

/-- Simplifying changes nothing about what is left in the end. -/
theorem Shortens.collapse_eq {atRoot : Bool} {ps qs : List String} (h : Shortens atRoot ps qs) :
    collapse ps = collapse qs := by
  have hup : isDropped ".." = false := rfl
  cases h with
  | @stay _ _ s dropped =>
    have hd : isDropped s = true := by simpa [isDropped] using dropped
    simp [collapse, collapseFrom_append, collapseFrom, hd]
  | back down =>
    obtain ⟨hd, hne⟩ := goesDown_iff.mp down
    simp [collapse, collapseFrom_append, collapseFrom, hd, hne, hup]
  | top => simp [collapse, collapseFrom, hup]

theorem reaches_collapse_eq {atRoot : Bool} {ps qs : List String}
    (h : Relation.ReflTransGen (Shortens atRoot) ps qs) : collapse ps = collapse qs := by
  induction h with
  | refl => rfl
  | tail _ hstep ih => exact ih.trans hstep.collapse_eq

/-- A walk that stays below its start, or starts at the root, simplifies to what it leaves. -/
theorem reaches_collapseFrom {atRoot : Bool} {passed ps : List String}
    (hpassed : ∀ s ∈ passed, goesDown s = true)
    (h : atRoot = true ∨ climbs passed.length ps = false) :
    Relation.ReflTransGen (Shortens atRoot) (passed.reverse ++ ps) (collapseFrom passed ps) := by
  induction ps generalizing passed with
  | nil =>
    rw [List.append_nil, collapseFrom]
  | cons p ps ih =>
    rcases segment_cases p with ⟨hstay, hd, _, _⟩ | rfl | ⟨hd, hup, hdown⟩
    · simp only [collapseFrom, climbs, hd, ↓reduceIte] at h ⊢
      exact .head (.stay hstay) (ih hpassed h)
    · cases passed with
      | nil =>
        have hroot : atRoot = true := h.resolve_right (by simp [climbs, isDropped])
        exact .head (.top hroot) (ih hpassed (.inl hroot))
      | cons q passed =>
        -- The name that was passed last stands right in front of the double dot.
        have hrest : Relation.ReflTransGen (Shortens atRoot) (passed.reverse ++ ps)
            (collapseFrom passed ps) :=
          ih (fun s hs => hpassed s (List.mem_cons_of_mem q hs)) h
        rw [List.reverse_cons, List.append_assoc]
        exact .head (.back (hpassed q List.mem_cons_self)) hrest
    · simp only [collapseFrom, climbs, hd, hup, Bool.false_eq_true, ↓reduceIte] at h ⊢
      have hrest := ih (List.forall_mem_cons.mpr ⟨hdown, hpassed⟩) h
      rwa [List.reverse_cons, List.append_assoc] at hrest

/-- Segments come down to exactly one list of names. -/
theorem reaches_names_iff {atRoot : Bool} {ps names : List String}
    (h : atRoot = true ∨ climbs 0 ps = false) (hnames : ∀ n ∈ names, goesDown n = true) :
    Relation.ReflTransGen (Shortens atRoot) ps names ↔ names = collapse ps := by
  constructor
  · intro hreach
    have hkept : collapse names = names :=
      collapseFrom_names fun n hn => goesDown_iff.mp (hnames n hn)
    rw [reaches_collapse_eq hreach, hkept]
  · intro heq
    rw [heq]
    have hnone : ∀ s ∈ ([] : List String), goesDown s = true := by simp
    exact reaches_collapseFrom hnone h

/-- The text that names spell: behind the root, from the start, or for no names the start itself. -/
inductive Spells : Bool → List String → String → Prop where
  | root (names : List String) : Spells true names (Path.at names).text
  | names {names : List String} (some : names ≠ []) : Spells false names ("/".intercalate names)
  | start : Spells false [] "."

theorem Spells.unique {atRoot : Bool} {names : List String} {text text' : String}
    (h : Spells atRoot names text) (h' : Spells atRoot names text') : text = text' := by
  cases h with
  | root => cases h' with
    | root => rfl
  | names some => cases h' with
    | names => rfl
    | start => exact absurd rfl some
  | start => cases h' with
    | names some => exact absurd rfl some
    | start => rfl

/-- A text that does not climb above its start is normalized to what its segments leave. -/
theorem normalize?_spells {path : String}
    (h : startsAtRoot (slashed path) = true ∨ climbs 0 (pieces '/' (slashed path)) = false) :
    ∃ text, normalize? path = some text ∧
      Spells (startsAtRoot (slashed path)) (collapse (pieces '/' (slashed path))) text := by
  cases hroot : startsAtRoot (slashed path) with
  | true => exact ⟨_, normalize?_slashed_root hroot, .root _⟩
  | false =>
    have hclimbs : climbs 0 (pieces '/' (slashed path)) = false := h.resolve_left (by simp [hroot])
    have hnormal : normalize? path =
        some (if ("/".intercalate (collapse (pieces '/' (slashed path)))).isEmpty then "."
          else "/".intercalate (collapse (pieces '/' (slashed path)))) := by
      simp [normalize?_eq, clamped, hroot, hclimbs, rendered]
    cases hnames : collapse (pieces '/' (slashed path)) with
    | nil =>
      rw [hnames] at hnormal
      exact ⟨".", hnormal, .start⟩
    | cons n names =>
      have hn : n ≠ "" := by
        have hkept := (mem_collapse (hnames ▸ List.mem_cons_self)).2.1
        rintro rfl
        cases hkept
      have hne : ("/".intercalate (n :: names)).isEmpty = false := by
        simpa using intercalate_cons_ne_empty "/" hn names
      rw [hnames, hne, if_neg (by decide)] at hnormal
      exact ⟨_, hnormal, .names (List.cons_ne_nil n names)⟩

section

variable {atRoot : Bool} {names : List String} {text : String} (h : Spells atRoot names text)
  (hnames : ∀ n ∈ names, IsStep n)
include h hnames

theorem Spells.startsAtRoot_eq : startsAtRoot text = atRoot := by
  cases h with
  | root => exact Path.startsAtRoot_at names
  | names some =>
    have hhead := Path.head_intercalate (fun n hn => (hnames n hn).notDropped) fun n hn =>
      (hnames n hn).noSlash
    simpa [startsAtRoot] using hhead
  | start => rfl

/-- The names that a text spells are its segments. -/
theorem Spells.textSegments_eq : Path.textSegments text = names := by
  cases h with
  | root =>
    exact Path.textSegments_text (fun n hn => (hnames n hn).notDropped) fun n hn =>
      (hnames n hn).noSlash
  | names some =>
    exact Path.textSegments_join (fun n hn => (hnames n hn).notDropped) fun n hn =>
      (hnames n hn).noSlash
  | start => decide

theorem Spells.isCanonical : IsCanonical text := by
  have hslash : ∀ n ∈ names, '/' ∉ n.toList := fun n hn => (hnames n hn).noSlash
  have hkept : ∀ n ∈ names, n ≠ "" ∧ n ≠ "." ∧ n ≠ ".." := by
    intro n hn
    have hdrop : n ≠ "" ∧ n ≠ "." := by simpa [isDropped] using (hnames n hn).notDropped
    exact ⟨hdrop.1, hdrop.2, (hnames n hn).notUp⟩
  have hroot := h.startsAtRoot_eq hnames
  cases h with
  | root =>
    by_cases hnil : names = []
    · left
      rw [hnil]
      rfl
    · right; right
      rw [hroot, Path.pieces_text_at hslash, if_neg hnil]
      exact hkept
  | names some =>
    right; right
    rw [hroot, pieces_intercalate some hslash]
    exact hkept
  | start => exact .inr (.inl rfl)

/-- Without backslashes in the names, the text is its own canonical form. -/
theorem Spells.fixed (hback : ∀ n ∈ names, '\\' ∉ n.toList) : normalize? text = some text := by
  have hslashed : slashed text = text := by
    apply slashed_of_not_mem
    cases h with
    | root => exact Path.not_mem_text_at (by decide) hback
    | names some => exact not_mem_intercalate (by decide) hback
    | start => decide
  have hdown : ∀ n ∈ names, isDropped n = false ∧ n ≠ ".." :=
    fun n hn => ⟨(hnames n hn).notDropped, (hnames n hn).notUp⟩
  have hclimbs : climbs 0 (pieces '/' (slashed text)) = false := by
    rw [hslashed, ← Path.climbs_textSegments, h.textSegments_eq hnames, ← List.append_nil names,
      climbs_names hdown]
    rfl
  have hleft : collapse (pieces '/' (slashed text)) = names := by
    rw [hslashed, ← Path.collapse_textSegments, h.textSegments_eq hnames]
    exact collapseFrom_names hdown
  obtain ⟨text', htext', hspells⟩ := normalize?_spells (.inr hclimbs)
  rw [hleft, hslashed, h.startsAtRoot_eq hnames] at hspells
  rw [htext', h.unique hspells]

end

/-- What is left of a path are names without slashes of either kind. -/
theorem isStep_of_mem_collapse {path n : String} (h : n ∈ collapse (pieces '/' (slashed path))) :
    IsStep n ∧ '\\' ∉ n.toList := by
  obtain ⟨hpiece, hdrop, hup⟩ := mem_collapse h
  obtain ⟨hslash, hchars⟩ := mem_pieces hpiece
  exact ⟨⟨hdrop, hup, hslash⟩, fun hmem => not_mem_slashed path (hchars _ hmem)⟩

theorem climbsOut_iff (path : String) : ClimbsOut path ↔
    startsAtRoot (slashed path) = false ∧ climbs 0 (pieces '/' (slashed path)) = true := by
  simp only [ClimbsOut, climbs_iff, Nat.zero_add]

theorem not_climbsOut_iff (path : String) : ¬ ClimbsOut path ↔
    startsAtRoot (slashed path) = true ∨ climbs 0 (pieces '/' (slashed path)) = false := by
  rw [climbsOut_iff, Classical.not_and_iff_not_or_not, Bool.not_eq_false, Bool.not_eq_true]

theorem normalize?_climbsOut {path : String} (h : ClimbsOut path) : normalize? path = none := by
  obtain ⟨hroot, hclimbs⟩ := (climbsOut_iff path).mp h
  simp [normalize?_eq, hroot, hclimbs]

end Segments

namespace Boundary

open Segments

theorem normalize_eq_ok {path text : String} (h : normalize? path = some text) :
    normalize path = .ok text := by
  unfold normalize
  rw [h]

/-- A path is refused exactly if it is relative and climbs above its start. Any other path has a
canonical form: it is anchored like the path, it is its own canonical form, and its segments are the
only names that the segments of the path can be simplified to. -/
theorem normalize_is_canonical (path : String) :
    (normalize path = .error (.climbs (slashed path)) ↔ ClimbsOut path) ∧
    (¬ ClimbsOut path → ∃ result, normalize path = .ok result ∧ IsCanonical result ∧
      (startsAtRoot result = true ↔ startsAtRoot (slashed path) = true) ∧
      normalize result = .ok result ∧ ∀ names : List String, (∀ n ∈ names, goesDown n = true) →
        (Relation.ReflTransGen (Shortens (startsAtRoot (slashed path)))
          (pieces '/' (slashed path)) names ↔ names = Path.textSegments result)) := by
  refine ⟨⟨fun hrefused => ?_, fun hclimbs => ?_⟩, fun hstays => ?_⟩
  · apply Classical.byContradiction
    intro hstays
    obtain ⟨result, hresult, _⟩ := normalize?_spells ((not_climbsOut_iff path).mp hstays)
    rw [normalize_eq_ok hresult] at hrefused
    cases hrefused
  · unfold normalize
    rw [normalize?_climbsOut hclimbs]
  · have hkept := (not_climbsOut_iff path).mp hstays
    obtain ⟨result, hresult, hspells⟩ := normalize?_spells hkept
    have hsteps : ∀ n ∈ collapse (pieces '/' (slashed path)), IsStep n :=
      fun n hn => (isStep_of_mem_collapse hn).1
    have hfixed := hspells.fixed hsteps fun n hn => (isStep_of_mem_collapse hn).2
    refine ⟨result, normalize_eq_ok hresult, hspells.isCanonical hsteps, ?_,
      normalize_eq_ok hfixed, ?_⟩
    · rw [hspells.startsAtRoot_eq hsteps]
    · intro names hnames
      rw [hspells.textSegments_eq hsteps]
      exact reaches_names_iff hkept hnames

theorem normalize_is_canonical_detour :
    ¬ ClimbsOut "a\\.//b/../c/" ∧ ∃ result, normalize "a\\.//b/../c/" = .ok result ∧
      IsCanonical result ∧ normalize result = .ok result ∧
      (∀ n ∈ ["a", "c"], goesDown n = true) ∧
      (Relation.ReflTransGen (Shortens (startsAtRoot (slashed "a\\.//b/../c/")))
        (pieces '/' (slashed "a\\.//b/../c/")) ["a", "c"] ↔
          ["a", "c"] = Path.textSegments result) := by
  have hnormal : normalize "a\\.//b/../c/" = .ok "a/c" := rfl
  have hstays : ¬ ClimbsOut "a\\.//b/../c/" :=
    (not_congr (normalize_is_canonical _).1).mp (by simp [hnormal])
  obtain ⟨result, hresult, hcanonical, _, hfixed, hnames⟩ := (normalize_is_canonical _).2 hstays
  have hdown : ∀ n ∈ ["a", "c"], goesDown n = true := by simp [goesDown]
  exact ⟨hstays, result, hresult, hcanonical, hfixed, hdown, hnames _ hdown⟩

end Boundary

end PhpPages

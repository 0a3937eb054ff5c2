import PhpPages.Link.Source
import PhpPages.Proofs.Segments

namespace PhpPages

open Text

namespace Segments

section

variable {common ups downs : List String}
  (hup : ∀ s ∈ common ++ ups, isDropped s = false ∧ s ≠ "..")
  (hdown : ∀ s ∈ downs, isDropped s = false ∧ s ≠ "..")
include hup hdown

/-- A walk back to a directory on the way and down from there never goes beyond its start. -/
theorem climbs_route :
    climbs 0 (common ++ ups ++ (List.replicate ups.length ".." ++ downs)) = false := by
  rw [climbs_names hup, List.length_append, ← Nat.add_assoc, climbs_up, ← List.append_nil downs,
    climbs_names hdown]
  rfl

theorem collapse_route :
    collapse (common ++ ups ++ (List.replicate ups.length ".." ++ downs)) = common ++ downs := by
  rw [collapse, collapseFrom_append, collapseFrom_names hup, collapseFrom_up,
    collapseFrom_names hdown]
  simp

end

end Segments

namespace Link

/-- The longest list that two lists both start with. -/
structure CommonFront {α : Type} (common as bs : List α) : Prop where
  left : common <+: as
  right : common <+: bs
  longest : ∀ {other}, other <+: as → other <+: bs → other <+: common

namespace CommonFront

variable {α : Type} {common as bs : List α}

theorem unique {common' : List α} (h : CommonFront common as bs) (h' : CommonFront common' as bs) :
    common = common' := by
  have hle := h'.longest h.left h.right
  have hge := h.longest h'.left h'.right
  exact hle.eq_of_length (Nat.le_antisymm hle.length_le hge.length_le)

theorem cons (h : CommonFront common as bs) (a : α) :
    CommonFront (a :: common) (a :: as) (a :: bs) := by
  refine ⟨List.cons_prefix_cons.mpr ⟨rfl, h.left⟩, List.cons_prefix_cons.mpr ⟨rfl, h.right⟩, ?_⟩
  intro other hl hr
  cases other with
  | nil => exact List.nil_prefix
  | cons b other =>
    obtain ⟨rfl, hleft⟩ := List.cons_prefix_cons.mp hl
    obtain ⟨_, hright⟩ := List.cons_prefix_cons.mp hr
    exact List.cons_prefix_cons.mpr ⟨rfl, h.longest hleft hright⟩

/-- Lists that do not start with the same element have nothing in common. -/
theorem empty (h : ∀ a as' bs', as = a :: as' → bs = a :: bs' → False) : CommonFront [] as bs := by
  refine ⟨List.nil_prefix, List.nil_prefix, ?_⟩
  rintro other ⟨s, rfl⟩ ⟨t, rfl⟩
  cases other with
  | nil => exact List.prefix_refl _
  | cons a other => exact absurd (h a _ _ rfl rfl) id

/-- One element more changes nothing, unless it makes the second list a front of the first. -/
theorem snoc (h : CommonFront common as bs) {b : α} (hb : ¬ bs ++ [b] <+: as) :
    CommonFront common as (bs ++ [b]) := by
  refine ⟨h.left, h.right.trans (List.prefix_append _ _), ?_⟩
  intro other hl hr
  rcases List.prefix_concat_iff.mp hr with rfl | hr
  · exact absurd hl hb
  · exact h.longest hl hr

end CommonFront

theorem dropCommon_front {α : Type} [DecidableEq α] (as bs : List α) :
    ∃ common, CommonFront common as bs ∧ as = common ++ (dropCommon as bs).1 ∧
      bs = common ++ (dropCommon as bs).2 := by
  fun_induction dropCommon as bs with
  | case1 as b bs ih =>
    obtain ⟨common, hc, has, hbs⟩ := ih
    exact ⟨b :: common, hc.cons b, by simp [← has], by simp [← hbs]⟩
  | case2 a as b bs hne =>
    refine ⟨[], .empty fun c as' bs' ha hb => hne ?_, rfl, rfl⟩
    exact (List.cons.inj ha).1.trans (List.cons.inj hb).1.symm
  | case3 as bs hempty =>
    exact ⟨[], .empty fun a as' bs' ha hb => hempty a as' a bs' ha hb, rfl, rfl⟩

theorem commonLength_front {α : Type} [DecidableEq α] (as bs : List α) :
    ∃ common, CommonFront common as bs ∧ commonLength as bs = common.length := by
  fun_induction commonLength as bs with
  | case1 as b bs ih =>
    obtain ⟨common, hc, hlength⟩ := ih
    exact ⟨b :: common, hc.cons b, by simp [hlength]⟩
  | case2 a as b bs hne =>
    refine ⟨[], .empty fun c as' bs' ha hb => hne ?_, rfl⟩
    exact (List.cons.inj ha).1.trans (List.cons.inj hb).1.symm
  | case3 as bs hempty => exact ⟨[], .empty fun a as' bs' ha hb => hempty a as' a bs' ha hb, rfl⟩

theorem CommonFront.commonLength {α : Type} [DecidableEq α] {common as bs : List α}
    (h : CommonFront common as bs) : Link.commonLength as bs = common.length := by
  obtain ⟨common', h', hlength⟩ := commonLength_front as bs
  rw [hlength, h'.unique h]

/-- One step down has at most one element more in common with the end of the walk, and none less. -/
theorem commonLength_snoc {α : Type} [DecidableEq α] (as bs : List α) (a : α) :
    commonLength as bs ≤ commonLength (as ++ [a]) bs ∧
      commonLength (as ++ [a]) bs ≤ commonLength as bs + 1 := by
  induction as generalizing bs with
  | nil =>
    cases bs with
    | nil => simp [commonLength]
    | cons b bs =>
      simp only [List.nil_append, commonLength]
      split <;> omega
  | cons c as ih =>
    cases bs with
    | nil => simp [commonLength]
    | cons b bs =>
      have hrest := ih bs
      simp only [List.cons_append, commonLength]
      split <;> omega

/-- A walk has a step for each segment in which its start and its end differ: what they have in
common counts on both sides. The invariant is kept by each single step. -/
theorem length_le_walk (passed ps : List String) :
    passed.length + (Segments.collapseFrom passed ps).length ≤
      ps.length + 2 * commonLength passed.reverse (Segments.collapseFrom passed ps) := by
  induction ps generalizing passed with
  | nil =>
    have hself : CommonFront passed.reverse passed.reverse passed.reverse :=
      ⟨List.prefix_refl _, List.prefix_refl _, fun h _ => h⟩
    rw [Segments.collapseFrom, hself.commonLength, List.length_reverse]
    omega
  | cons p ps ih =>
    rw [Segments.collapseFrom, List.length_cons]
    split
    · have hrest := ih passed
      omega
    split
    · cases passed with
      | nil =>
        have hrest := ih []
        rw [List.tail_nil]
        omega
      | cons q passed =>
        have hrest := ih passed
        have hstep := commonLength_snoc passed.reverse (Segments.collapseFrom passed ps) q
        rw [List.tail_cons, List.reverse_cons, List.length_cons]
        omega
    · have hrest := ih (p :: passed)
      have hstep := commonLength_snoc passed.reverse (Segments.collapseFrom (p :: passed) ps) p
      rw [List.reverse_cons, List.length_cons] at hrest
      omega

/-- A route goes up first, and what follows are the directories down and the name. -/
theorem route_eq (ups : Nat) (downs : List String) (name : String) :
    route ups downs ++ name =
      String.join (List.replicate ups "../") ++ "/".intercalate (downs ++ [name]) := by
  unfold route
  rw [String.append_assoc]
  congr 1
  by_cases hd : downs = []
  · simp [hd]
  · rw [String.intercalate_append_of_ne_nil hd (by simp)]
    simp [hd]

/-- A route and a name behind it are segments with slashes between them. -/
theorem route_append (ups : Nat) (downs : List String) (name : String) :
    route ups downs ++ name = "/".intercalate (List.replicate ups ".." ++ (downs ++ [name])) := by
  rw [route_eq]
  induction ups with
  | zero => simp
  | succ n ih =>
    rw [List.replicate_succ, List.replicate_succ, String.join_cons, String.append_assoc, ih,
      List.cons_append, String.intercalate_cons_of_ne_nil (by simp)]
    rfl

theorem pieces_route {ups : Nat} {downs : List String} {name : String}
    (hs : ∀ s ∈ downs ++ [name], '/' ∉ s.toList) :
    pieces '/' (route ups downs ++ name) = List.replicate ups ".." ++ (downs ++ [name]) := by
  rw [route_append]
  apply pieces_intercalate (by simp)
  intro s hm
  rcases List.mem_append.mp hm with hm | hm
  · rw [List.eq_of_mem_replicate hm]
    decide
  · exact hs s hm

end Link

end PhpPages

import Mathlib.Tactic
import Mathlib.Data.List.Sort

/-!
# The first rows of a sorted union

`SortedOf key rows s` : `s` is one of the orders of `rows` by `key`. If every part is cut to its first `n` rows, then the
first `n` rows of the union of what is left are the first `n` rows of everything (`exists_sortedOf_take`).
-/

namespace TSpider.Lib
open List

variable {α κ : Type*} [LinearOrder κ] {key : α → κ} {tables answers : List (List α)} {n : Nat} {u : List α}

def SortedOf (key : α → κ) (rows s : List α) : Prop := s.Perm rows ∧ s.Pairwise (key · ≤ key ·)

theorem exists_sortedOf (key : α → κ) (rows : List α) : ∃ s, SortedOf key rows s := by
  refine ⟨rows.mergeSort (key · ≤ key ·), mergeSort_perm .., ?_⟩
  have h : (rows.mergeSort fun a b => decide (key a ≤ key b)).Pairwise fun a b => decide (key a ≤ key b) :=
    pairwise_mergeSort
      (fun a b c hab hbc => decide_eq_true ((of_decide_eq_true hab).trans (of_decide_eq_true hbc)))
      (fun a b => by simpa using le_total (key a) (key b)) rows
  simpa using h

def CutTo (key : α → κ) (n : Nat) (t a : List α) : Prop := ∃ s, SortedOf key t s ∧ a = s.take n

/-- The rows that are cut off a part have `n` rows before them. -/
theorem CutTo.rest {t a : List α} (h : CutTo key n t a) :
    ∃ rest, (a ++ rest).Perm t ∧ ∀ x ∈ rest, n ≤ (a.filter (key · ≤ key x)).length := by
  obtain ⟨s, ⟨hperm, hsorted⟩, rfl⟩ := h
  refine ⟨s.drop n, by rwa [take_append_drop], fun x hx => ?_⟩
  have hall : ∀ y ∈ s.take n, key y ≤ key x := by
    rw [← take_append_drop n s] at hsorted
    exact fun y hy => (pairwise_append.mp hsorted).2.2 y hy x hx
  have hlen : n < s.length := by
    by_contra hle
    rw [drop_eq_nil_of_le (not_lt.mp hle)] at hx
    cases hx
  rw [filter_eq_self.mpr (by simpa using hall), length_take]
  omega

theorem cutAll_rest (h : List.Forall₂ (CutTo key n) tables answers) : ∃ rest, (answers.flatten ++ rest).Perm tables.flatten ∧
      ∀ x ∈ rest, n ≤ (answers.flatten.filter (key · ≤ key x)).length := by
  induction h with
  | nil => exact ⟨[], .refl _, nofun⟩
  | @cons t a tables answers hcut _ ih =>
    obtain ⟨rest, hperm, hrest⟩ := ih
    obtain ⟨cut, hcutPerm, hcutRest⟩ := hcut.rest
    refine ⟨cut ++ rest, ?_, fun x hx => ?_⟩
    · have hswap : ((a ++ answers.flatten) ++ (cut ++ rest)).Perm ((a ++ cut) ++ (answers.flatten ++ rest)) := by
        simp only [append_assoc]
        refine .append_left _ ?_
        rw [← append_assoc, ← append_assoc]
        exact .append_right _ perm_append_comm
      exact hswap.trans (hcutPerm.append hperm)
    · rw [flatten_cons, filter_append, length_append]
      rcases mem_append.mp hx with hx | hx
      · exact (hcutRest x hx).trans (Nat.le_add_right ..)
      · exact (hrest x hx).trans (Nat.le_add_left ..)

theorem key_le_of_mem_take (hu : u.Pairwise (key · ≤ key ·)) {x y : α} (hy : y ∈ u.take n)
    (hx : n ≤ (u.filter (key · ≤ key x)).length) : key y ≤ key x := by
  by_contra hlt
  push Not at hlt
  obtain ⟨before, after, hsplit⟩ := append_of_mem hy
  have hu' : u = before ++ y :: (after ++ u.drop n) := by
    rw [← cons_append, ← append_assoc, ← hsplit, take_append_drop]
  have hafter : ∀ z ∈ y :: (after ++ u.drop n), ¬ key z ≤ key x := by
    rw [hu'] at hu
    have hy' := (pairwise_append.mp hu).2.1
    intro z hz
    rcases mem_cons.mp hz with rfl | hz
    · exact not_le.mpr hlt
    · exact not_le.mpr (hlt.trans_le (rel_of_pairwise_cons hy' hz))
  have hcount : (u.filter (key · ≤ key x)).length ≤ before.length := by
    have hnil : (y :: (after ++ u.drop n)).filter (key · ≤ key x) = [] :=
      filter_eq_nil_iff.mpr fun z hz => by simpa using hafter z hz
    rw [hu', filter_append, hnil, append_nil]
    exact length_filter_le ..
  have hlen : before.length < n := by
    have h := congrArg List.length hsplit
    rw [length_take, length_append, length_cons] at h
    omega
  omega

/-- **The first `n` rows of the union of the cut parts are the first `n` rows of all parts.** -/
theorem exists_sortedOf_take (h : List.Forall₂ (CutTo key n) tables answers) (hu : SortedOf key answers.flatten u) :
    ∃ full, SortedOf key tables.flatten full ∧ full.take n = u.take n := by
  obtain ⟨rest, hperm, hrest⟩ := cutAll_rest h
  obtain ⟨tail, htail⟩ := exists_sortedOf key (u.drop n ++ rest)
  have hcount : ∀ x ∈ rest, n ≤ (u.filter (key · ≤ key x)).length := by
    intro x hx
    rw [(hu.1.filter _).length_eq]
    exact hrest x hx
  refine ⟨u.take n ++ tail, ⟨?_, ?_⟩, ?_⟩
  · have hall : (u.take n ++ tail).Perm (u ++ rest) := by
      have h := htail.1.append_left (u.take n)
      rwa [← append_assoc, take_append_drop] at h
    exact hall.trans ((hu.1.append_right rest).trans hperm)
  · have hsplit := hu.2
    rw [← take_append_drop n u] at hsplit
    obtain ⟨htake, -, hcross⟩ := pairwise_append.mp hsplit
    refine pairwise_append.mpr ⟨htake, htail.2, fun y hy x hx => ?_⟩
    rcases mem_append.mp (htail.1.mem_iff.mp hx) with hx | hx
    · exact hcross y hy x hx
    · exact key_le_of_mem_take hu.2 hy (hcount x hx)
  · rcases Nat.lt_or_ge u.length n with hlt | hge
    · -- nothing was cut off: a row that was would have `n` rows before it
      have hnil : rest = [] := by
        cases rest with
        | nil => rfl
        | cons x xs =>
          have hx := hcount x (mem_cons_self ..)
          have := length_filter_le (fun y => decide (key y ≤ key x)) u
          omega
      have htailNil : tail = [] := by
        have h := htail.1
        rw [hnil, drop_eq_nil_of_le hlt.le] at h
        exact List.Perm.eq_nil h
      rw [htailNil, append_nil, take_take, min_self]
    · rw [take_append_of_le_length (by rw [length_take]; omega), take_take, min_self]

theorem exists_sortedOf_window {n offset limit : Nat} (hn : offset + limit ≤ n)
    (h : List.Forall₂ (CutTo key n) tables answers) (hu : SortedOf key answers.flatten u) :
    ∃ full, SortedOf key tables.flatten full ∧ (u.drop offset).take limit = (full.drop offset).take limit := by
  obtain ⟨full, hfull, htake⟩ := exists_sortedOf_take h hu
  have hwindow : ∀ s : List α, (s.drop offset).take limit = ((s.take n).drop offset).take limit := by
    intro s
    rw [drop_take, take_take, min_eq_left (by omega)]
  exact ⟨full, hfull, by rw [hwindow u, hwindow full, htake]⟩

end TSpider.Lib

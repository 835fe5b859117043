import Mathlib.Data.Multiset.Bind

/-!
# Joins of bags of records

Records of any type `E` are put together by `m`.

* `cross`, `innerOn`, `leftOn` : the cross join, the join on a condition and the left outer join, as bags;
* `filter_cross`, `filter_leftOn_outer`, `filter_leftOn_filter` : records may be taken out of an operand before the join.
-/

namespace TSpider.Lib.Bag
open Multiset

variable {E : Type*} (m : E → E → E)

def cross (l r : Multiset E) : Multiset E := l.bind fun a => r.map (m a)

def found (p : E → Bool) (r : Multiset E) (a : E) : Multiset E := (r.map (m a)).filter (p ·)

def innerOn (p : E → Bool) (l r : Multiset E) : Multiset E := l.bind (found m p r)

def orAlone (a : E) (s : Multiset E) : Multiset E := if s.card = 0 then {a} else s

def leftOn (p : E → Bool) (l r : Multiset E) : Multiset E := l.bind fun a => orAlone a (found m p r a)

variable {m}

theorem mem_cross {l r : Multiset E} {e : E} : e ∈ cross m l r ↔ ∃ a ∈ l, ∃ b ∈ r, m a b = e := by
  simp [cross]

theorem mem_found {p : E → Bool} {r : Multiset E} {a e : E} (h : e ∈ found m p r a) : ∃ b ∈ r, m a b = e := by
  simpa using (mem_filter.1 h).1

theorem mem_innerOn {p : E → Bool} {l r : Multiset E} {e : E} (h : e ∈ innerOn m p l r) : ∃ a ∈ l, ∃ b ∈ r, m a b = e := by
  obtain ⟨a, ha, he⟩ := mem_bind.1 h
  exact ⟨a, ha, mem_found he⟩

theorem mem_leftOn {p : E → Bool} {l r : Multiset E} {e : E} (h : e ∈ leftOn m p l r) :
    e ∈ l ∨ ∃ a ∈ l, ∃ b ∈ r, m a b = e := by
  obtain ⟨a, ha, he⟩ := mem_bind.1 h
  unfold orAlone at he
  split at he
  · exact .inl (mem_singleton.1 he ▸ ha)
  · exact .inr ⟨a, ha, mem_found he⟩

/-! ## Restricted operands -/

section Restrict

variable {p w : E → Bool} {keep : E → Bool} {r : Multiset E} {a : E} {l : Multiset E}

theorem filter_bind (l : Multiset E) (f : E → Multiset E) : (l.bind f).filter (w ·) = l.bind fun a => (f a).filter (w ·) := by
  induction l using Multiset.induction_on with
  | empty => rfl
  | cons a l ih => rw [Multiset.cons_bind, Multiset.filter_add, ih, Multiset.cons_bind]

theorem bind_filter {f : E → Multiset E} (h : ∀ a ∈ l, keep a = false → f a = 0) : (l.filter (keep ·)).bind f = l.bind f := by
  induction l using Multiset.induction_on with
  | empty => rfl
  | cons a l ih =>
    have ih := ih fun a ha => h a (Multiset.mem_cons_of_mem ha)
    rw [Multiset.filter_cons, Multiset.add_bind, ih, Multiset.cons_bind]
    split_ifs with hk
    · rw [Multiset.singleton_bind]
    · rw [Multiset.zero_bind, h a (Multiset.mem_cons_self a l) (by simpa using hk)]

theorem innerOn_eq_filter (l : Multiset E) : innerOn m w l r = (cross m l r).filter (w ·) := (filter_bind l _).symm

theorem filter_cross {keepL keepR : E → Bool} (h : ∀ a ∈ l, ∀ b ∈ r, keep (m a b) = (keepL a && keepR b)) :
    (cross m l r).filter (keep ·) = cross m (l.filter (keepL ·)) (r.filter (keepR ·)) := by
  unfold cross
  rw [filter_bind]
  have hrow : ∀ a ∈ l, (r.map (m a)).filter (keep ·) = if keepL a then (r.filter (keepR ·)).map (m a) else 0 := by
    intro a ha
    rw [filter_map]
    split_ifs with hk
    · exact congrArg _ (filter_congr fun b hb => by simp [h a ha b hb, hk])
    · rw [filter_eq_nil.mpr fun b hb => by simp [h a ha b hb, hk], map_zero]
  rw [bind_congr hrow, ← bind_filter fun a _ (hk : keepL a = false) => by simp [hk]]
  exact bind_congr fun a ha => if_pos (mem_filter.mp ha).2

theorem filter_leftOn_outer (h : ∀ a ∈ l, keep a = false → w a = false ∧ ∀ b ∈ r, w (m a b) = false) :
    (leftOn m p (l.filter (keep ·)) r).filter (w ·) = (leftOn m p l r).filter (w ·) := by
  unfold leftOn
  rw [filter_bind, filter_bind]
  refine bind_filter fun a ha hk => ?_
  obtain ⟨halone, hpair⟩ := h a ha hk
  rw [filter_eq_nil]
  intro e he
  unfold orAlone at he
  split_ifs at he
  · simp [mem_singleton.mp he, halone]
  · obtain ⟨b, hb, rfl⟩ := mem_found he
    simp [hpair b hb]

theorem found_filter : found m p (r.filter (keep ·)) a = ((r.filter fun b => keep b ∧ p (m a b)).map (m a)) := by
  unfold found
  rw [filter_map, filter_filter]
  simp [and_comm]

theorem found_eq_map (p : E → Bool) (r : Multiset E) (a : E) : found m p r a = (r.filter fun b => p (m a b)).map (m a) := by
  unfold found
  rw [filter_map]
  rfl

theorem filter_found_filter (h : ∀ b ∈ r, p (m a b) → w (m a b) → keep b) :
    (found m p (r.filter (keep ·)) a).filter (w ·) = (found m p r a).filter (w ·) := by
  rw [found_filter, found_eq_map, filter_map, filter_map, filter_filter, filter_filter]
  refine congrArg _ (filter_congr fun b hb => ?_)
  constructor
  · rintro ⟨hw, -, hp⟩
    exact ⟨hw, hp⟩
  · rintro ⟨hw, hp⟩
    exact ⟨hw, h b hb hp hw, hp⟩

def Orphaned (m : E → E → E) (p : E → Bool) (r r' : Multiset E) (a : E) : Prop :=
  (found m p r a).card ≠ 0 ∧ (found m p r' a).card = 0

instance (r r' : Multiset E) (a : E) : Decidable (Orphaned m p r r' a) := by unfold Orphaned; infer_instance

theorem filter_orAlone_filter (h : ∀ b ∈ r, p (m a b) → w (m a b) → keep b) :
    (orAlone a (found m p (r.filter (keep ·)) a)).filter (w ·) = (orAlone a (found m p r a)).filter (w ·) +
        (if Orphaned m p r (r.filter (keep ·)) a then ({a} : Multiset E) else 0).filter (w ·) := by
  have hfound := filter_found_filter h
  have hle : (found m p (r.filter (keep ·)) a).card ≤ (found m p r a).card := by
    rw [found_filter, found_eq_map, card_map, card_map]
    exact card_le_card (monotone_filter_right r fun b hb => hb.2)
  unfold orAlone
  by_cases h0 : (found m p r a).card = 0
  · rw [if_pos h0, if_pos (Nat.le_zero.mp (h0 ▸ hle)), if_neg fun h => h.1 h0, filter_zero, add_zero]
  · rw [if_neg h0]
    by_cases h1 : (found m p (r.filter (keep ·)) a).card = 0
    · rw [if_pos h1, if_pos ⟨h0, h1⟩, ← hfound, card_eq_zero.mp h1, filter_zero, zero_add]
    · rw [if_neg h1, if_neg fun h => h1 h.2, hfound, filter_zero, add_zero]

theorem filter_leftOn_filter (h : ∀ a ∈ l, ∀ b ∈ r, p (m a b) → w (m a b) → keep b) :
    (leftOn m p l (r.filter (keep ·))).filter (w ·) =
      (leftOn m p l r).filter (w ·) + (l.filter (Orphaned m p r (r.filter (keep ·)))).filter (w ·) := by
  induction l using Multiset.induction_on with
  | empty => rfl
  | cons a l ih =>
    have ih := ih fun a ha => h a (Multiset.mem_cons_of_mem ha)
    have ha := filter_orAlone_filter (h a (Multiset.mem_cons_self a l))
    unfold leftOn at ih ⊢
    rw [Multiset.cons_bind, Multiset.cons_bind, Multiset.filter_add, Multiset.filter_add, ih, ha, Multiset.filter_cons,
      Multiset.filter_add]
    exact add_add_add_comm ..

end Restrict

end TSpider.Lib.Bag

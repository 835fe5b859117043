import Mathlib.Tactic
import Mathlib.Data.List.Basic

/-!
# Error codes, early exits and loops

A step of a C function is `σ → Nat × σ`: an error code, zero for success, and the state it leaves. `andThen` is
`if ((error_num = f())) goto error;`, `untilError` a loop that leaves at the first error, and `forEach` a loop that visits
every item and threads the code through.
-/

namespace TSpider.Lib

variable {σ α : Type*} {k : σ → Nat × σ} {r : Nat × σ}

def andThen (r : Nat × σ) (k : σ → Nat × σ) : Nat × σ := if r.1 = 0 then k r.2 else r

def untilError (body : α → σ → Nat × σ) : List α → σ → Nat × σ
  | [], s => (0, s)
  | a :: as, s => andThen (body a s) (untilError body as)

def forEach (body : α → Nat → σ → Nat × σ) : List α → Nat → σ → Nat × σ
  | [], e, s => (e, s)
  | a :: as, e, s => forEach body as (body a e s).1 (body a e s).2

theorem andThen_of_zero (h : r.1 = 0) : andThen r k = k r.2 := if_pos h

theorem andThen_of_ne (h : r.1 ≠ 0) : andThen r k = r := if_neg h

@[simp] theorem andThen_pair_zero (s : σ) (k : σ → Nat × σ) : andThen (0, s) k = k s := rfl

theorem andThen_fst_eq_zero : (andThen r k).1 = 0 ↔ r.1 = 0 ∧ (k r.2).1 = 0 := by
  unfold andThen
  split_ifs with h
  · simp [h]
  · simp [h]

theorem andThen_assoc (r : Nat × σ) (f g : σ → Nat × σ) : andThen (andThen r f) g = andThen r fun s => andThen (f s) g := by
  by_cases h : r.1 = 0
  · rw [andThen_of_zero h, andThen_of_zero h]
  · rw [andThen_of_ne h, andThen_of_ne h, andThen_of_ne h]

theorem andThen_rule {P : σ → Prop} (hr : P r.2) (hk : r.1 = 0 → P r.2 → P (k r.2).2) : P (andThen r k).2 := by
  unfold andThen
  split_ifs with h
  · exact hk h hr
  · exact hr

/-- **Loop rule** for `untilError`: what the body preserves, the loop preserves. -/
theorem untilError_invariant {I : σ → Prop} {body : α → σ → Nat × σ} :
    ∀ {as : List α} {s : σ}, (∀ a ∈ as, ∀ t, I t → I (body a t).2) → I s → I (untilError body as s).2
  | [], _, _, hs => hs
  | a :: as, s, hbody, hs =>
    andThen_rule (hbody a (by simp) s hs) fun _ h =>
      untilError_invariant (fun b hb t ht => hbody b (by simp [hb]) t ht) h

theorem untilError_ne {I : σ → Prop} {body : α → σ → Nat × σ} {n : Nat} (hn : n ≠ 0) :
    ∀ {as : List α} {s : σ}, (∀ a ∈ as, ∀ t, I t → (body a t).1 ≠ n ∧ I (body a t).2) → I s →
      (untilError body as s).1 ≠ n
  | [], _, _, _ => hn.symm
  | a :: as, s, hbody, hs => by
    obtain ⟨hcode, hnext⟩ := hbody a (by simp) s hs
    by_cases hzero : (body a s).1 = 0
    · rw [untilError, andThen_of_zero hzero]
      exact untilError_ne hn (fun b hb t ht => hbody b (by simp [hb]) t ht) hnext
    · rw [untilError, andThen_of_ne hzero]
      exact hcode

/-- **Loop rule** for `forEach`, with an invariant that may speak of the collected code. -/
theorem forEach_invariant {I : Nat → σ → Prop} {body : α → Nat → σ → Nat × σ} {as : List α} {e : Nat} {s : σ}
    (hbody : ∀ a ∈ as, ∀ e t, I e t → I (body a e t).1 (body a e t).2) (hs : I e s) :
    I (forEach body as e s).1 (forEach body as e s).2 := by
  induction as generalizing e s with
  | nil => exact hs
  | cons a as ih =>
    exact ih (fun b hb e t ht => hbody b (by simp [hb]) e t ht) (hbody a (by simp) e s hs)

theorem forEach_first {body : α → Nat → σ → Nat × σ} (hkeep : ∀ a e t, (body a e t).1 = 0 → e = 0) {as : List α} {e : Nat}
    {s : σ} (hzero : (forEach body as e s).1 = 0) : e = 0 := by
  induction as generalizing e s with
  | nil => exact hzero
  | cons a as ih => exact hkeep a e s (ih hzero)

/-! ## Loops whose items do not interfere

`v a s` is what item `a` sees of the state. When the body of `a` leaves what the other items see alone and no item comes
twice, every item is visited in a state in which it sees what it saw at the start, and it sees at the end what its visit
left. `M` is any preorder that the body respects. -/

section Visit
variable {τ : Type*} {v : α → σ → τ} {M : σ → σ → Prop} {body : α → Nat → σ → Nat × σ} {as : List α} {s : σ} {a : α}

theorem untilError_visit (hrefl : ∀ s, M s s) (htrans : ∀ s t u, M s t → M t u → M s u) {body : α → σ → Nat × σ}
    (hbody : ∀ a t, M t (body a t).2) (hother : ∀ a t b, b ≠ a → v b (body a t).2 = v b t)
    (hnodup : as.Nodup) (hzero : (untilError body as s).1 = 0) (ha : a ∈ as) :
    ∃ t, M s t ∧ v a t = v a s ∧ (body a t).1 = 0 ∧ M (body a t).2 (untilError body as s).2 ∧
      v a (untilError body as s).2 = v a (body a t).2 := by
  induction as generalizing s with
  | nil => simp at ha
  | cons b as ih =>
    obtain ⟨hb, hnodup⟩ := List.nodup_cons.mp hnodup
    obtain ⟨hzero_b, hzero⟩ := andThen_fst_eq_zero.mp hzero
    have hrest : untilError body (b :: as) s = untilError body as (body b s).2 := andThen_of_zero hzero_b
    rw [hrest]
    by_cases hab : a = b
    · subst hab
      refine ⟨s, hrefl s, rfl, hzero_b, ?_, ?_⟩
      · exact untilError_invariant (fun c _ t ht => htrans _ _ _ ht (hbody c t)) (hrefl _)
      · exact untilError_invariant
          (fun c hc t ht => (hother c t a fun h => hb (h ▸ hc)).trans ht) rfl
    · obtain ⟨t, ht, hview, hcode, hafter, hlast⟩ := ih hnodup hzero ((List.mem_cons.mp ha).resolve_left hab)
      exact ⟨t, htrans _ _ _ (hbody b s) ht, hview.trans (hother b s a hab), hcode, hafter, hlast⟩

theorem untilError_eq_zero_iff {I : σ → Prop} {P : α → τ → Prop} {body : α → σ → Nat × σ}
    (hI : ∀ a t, I t → (body a t).1 = 0 → I (body a t).2)
    (hother : ∀ a t b, b ≠ a → v b (body a t).2 = v b t) (hnodup : as.Nodup)
    (hok : ∀ a ∈ as, ∀ t, I t → v a t = v a s → ((body a t).1 = 0 ↔ P a (v a s))) (hs : I s) :
    (untilError body as s).1 = 0 ↔ ∀ a ∈ as, P a (v a s) := by
  induction as generalizing s with
  | nil => simp [untilError]
  | cons b as ih =>
    obtain ⟨hb, hnodup⟩ := List.nodup_cons.mp hnodup
    have hsame : ∀ a ∈ as, v a (body b s).2 = v a s := fun a ha => hother b s a fun h => hb (h ▸ ha)
    rw [untilError, andThen_fst_eq_zero, hok b (by simp) s hs rfl, List.forall_mem_cons]
    refine and_congr_right fun hbok => ?_
    have hcode : (body b s).1 = 0 := (hok b (by simp) s hs rfl).mpr hbok
    rw [ih hnodup _ (hI b s hs hcode)]
    · exact forall₂_congr fun a ha => by rw [hsame a ha]
    · intro a ha t ht hview
      rw [hsame a ha] at hview ⊢
      exact hok a (by simp [ha]) t ht hview

section Preorder
variable (hrefl : ∀ s, M s s) (htrans : ∀ s t u, M s t → M t u → M s u) (hbody : ∀ a e t, M t (body a e t).2)
include hrefl htrans hbody

theorem forEach_respects (as : List α) (e : Nat) (s : σ) : M s (forEach body as e s).2 :=
  forEach_invariant (fun c _ e t ht => htrans _ _ _ ht (hbody c e t)) (hrefl s)

variable (hother : ∀ a e t b, b ≠ a → v b (body a e t).2 = v b t)
include hother

omit hrefl htrans hbody in
theorem forEach_other (ha : a ∉ as) (e : Nat) (s : σ) : v a (forEach body as e s).2 = v a s :=
  forEach_invariant
    (fun c hc e t ht => (hother c e t a fun h => ha (h ▸ hc)).trans ht) rfl

theorem forEach_visit {e : Nat} (hnodup : as.Nodup) (ha : a ∈ as) :
    ∃ e' t, M s t ∧ v a t = v a s ∧ M (body a e' t).2 (forEach body as e s).2 ∧
      v a (forEach body as e s).2 = v a (body a e' t).2 := by
  induction as generalizing e s with
  | nil => simp at ha
  | cons b as ih =>
    obtain ⟨hb, hnodup⟩ := List.nodup_cons.mp hnodup
    by_cases hab : a = b
    · subst hab
      exact ⟨e, s, hrefl s, rfl, forEach_respects hrefl htrans hbody as _ _, forEach_other hother hb _ _⟩
    · obtain ⟨e', t, ht, hview, hafter, hlast⟩ :=
        ih hnodup ((List.mem_cons.mp ha).resolve_left hab)
      exact ⟨e', t, htrans _ _ _ (hbody b e s) ht, hview.trans (hother b e s a hab), hafter, hlast⟩

theorem forEach_visit_zero (hkeep : ∀ a e t, (body a e t).1 = 0 → e = 0) (hnodup : as.Nodup)
    (hzero : (forEach body as 0 s).1 = 0) (ha : a ∈ as) :
    ∃ t, v a t = v a s ∧ (body a 0 t).1 = 0 ∧ M (body a 0 t).2 (forEach body as 0 s).2 ∧
      v a (forEach body as 0 s).2 = v a (body a 0 t).2 := by
  induction as generalizing s with
  | nil => simp at ha
  | cons b as ih =>
    obtain ⟨hb, hnodup⟩ := List.nodup_cons.mp hnodup
    have hzero_b : (body b 0 s).1 = 0 :=
      forEach_first hkeep hzero
    have hrest : forEach body (b :: as) 0 s = forEach body as 0 (body b 0 s).2 := by rw [forEach, hzero_b]
    rw [hrest] at hzero ⊢
    by_cases hab : a = b
    · subst hab
      exact ⟨s, rfl, hzero_b, forEach_respects hrefl htrans hbody as _ _, forEach_other hother hb _ _⟩
    · obtain ⟨t, hview, hcode, hafter, hlast⟩ := ih hnodup hzero ((List.mem_cons.mp ha).resolve_left hab)
      exact ⟨t, hview.trans (hother b 0 s a hab), hcode, hafter, hlast⟩

end Preorder

/-- When each visit, where the item sees what it saw at the start, leaves no error, the loop leaves none. -/
theorem forEach_eq_zero {I : σ → Prop} (hI : ∀ a e t, I t → I (body a e t).2)
    (hother : ∀ a e t b, b ≠ a → v b (body a e t).2 = v b t) (hnodup : as.Nodup)
    (hok : ∀ a ∈ as, ∀ t, I t → v a t = v a s → (body a 0 t).1 = 0) (hs : I s) : (forEach body as 0 s).1 = 0 := by
  induction as generalizing s with
  | nil => rfl
  | cons b as ih =>
    obtain ⟨hb, hnodup⟩ := List.nodup_cons.mp hnodup
    rw [forEach, hok b (by simp) s hs rfl]
    refine ih hnodup (fun a ha t ht hview => hok a (by simp [ha]) t ht (hview.trans ?_)) (hI b 0 s hs)
    exact hother b 0 s a fun h => hb (h ▸ ha)

/-- If each visit of an `Ok` item leaves it `Done` or raises `Flag`, and no visit takes the flag back, at the end every item
is done or the flag is up. -/
theorem forEach_settles (Ok Done : α → τ → Prop) (Flag : Nat × σ → Prop)
    (hother : ∀ a e t b, b ≠ a → v b (body a e t).2 = v b t) (hvisit : ∀ a e t, Ok a (v a t) →
      (Flag (e, t) → Flag (body a e t)) ∧ (Done a (v a (body a e t).2) ∨ Flag (body a e t)))
    {e : Nat} (hnodup : as.Nodup) (hok : ∀ a ∈ as, Ok a (v a s)) : (Flag (e, s) → Flag (forEach body as e s)) ∧
      ∀ a ∈ as, Done a (v a (forEach body as e s).2) ∨ Flag (forEach body as e s) := by
  induction as generalizing e s with
  | nil => exact ⟨id, by simp⟩
  | cons b as ih =>
    obtain ⟨hb, hnodup⟩ := List.nodup_cons.mp hnodup
    obtain ⟨hflag, hdone⟩ := hvisit b e s (hok b (by simp))
    obtain ⟨hkeep, hrest⟩ := ih hnodup fun a ha => by
      rw [hother b e s a fun h => hb (h ▸ ha)]
      exact hok a (by simp [ha])
    refine ⟨fun h => hkeep (hflag h), fun a ha => ?_⟩
    rcases List.mem_cons.mp ha with rfl | ha
    · refine hdone.imp (fun h => ?_) hkeep
      have hlast : v a (forEach body (a :: as) e s).2 = v a (body a e s).2 := forEach_other hother hb _ _
      rwa [hlast]
    · exact hrest a ha

end Visit

end TSpider.Lib

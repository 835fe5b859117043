import Mathlib.Tactic
import Mathlib.Logic.Relation
import Mathlib.Logic.Function.Basic

/-!
# An interval allocator with hand-back

Clients `i : ι` reserve intervals `[lo i, hi i)` above a shared counter and take their values one by one from the left. A
client may hand the rest of its interval back, which lowers the counter; it may do so while its interval ends at the
counter, or while no other client has reserved since. `Alloc.Inv.nodup` : no value is taken twice.
-/

namespace TSpider.Lib
open Function

variable {ι : Type*}

/-- The counter, the interval each client may take from, the values taken, and the last client to reserve. -/
structure Alloc (ι : Type*) where
  counter : Nat
  lo : ι → Nat
  hi : ι → Nat
  taken : List Nat
  last : Option ι

namespace Alloc

def Live (a : Alloc ι) (i : ι) : Prop := a.lo i < a.hi i

def OnTop (a : Alloc ι) (i : ι) : Prop := (∀ j ≠ i, a.Live j → a.hi j ≤ a.lo i) ∧ ∀ t ∈ a.taken, t < a.lo i

structure Inv (a : Alloc ι) : Prop where
  nodup : a.taken.Nodup
  taken_lt : ∀ t ∈ a.taken, t < a.counter
  hi_le : ∀ i, a.Live i → a.hi i ≤ a.counter
  taken_out : ∀ i, a.Live i → ∀ t ∈ a.taken, t < a.lo i ∨ a.hi i ≤ t
  apart : ∀ i j, i ≠ j → a.Live i → a.Live j → a.hi i ≤ a.lo j ∨ a.hi j ≤ a.lo i
  last_top : ∀ i, a.last = some i → a.Live i → a.OnTop i

variable {a b : Alloc ι} {i : ι}

theorem Inv.onTop_of_hi_eq (h : a.Inv) (hi : a.Live i) (hc : a.hi i = a.counter) : a.OnTop i := by
  refine ⟨fun j hj hlj => ?_, fun t ht => ?_⟩
  · rcases h.apart i j hj.symm hi hlj with hle | hle
    · have := h.hi_le j hlj
      unfold Live at hlj
      omega
    · exact hle
  · have hlt := h.taken_lt t ht
    rcases h.taken_out i hi t ht with hl | hr
    · exact hl
    · omega

theorem Inv.raise (h : a.Inv) {n : Nat} (hn : a.counter ≤ n) : Inv { a with counter := n } where
  nodup := h.nodup
  taken_lt t ht := (h.taken_lt t ht).trans_le hn
  hi_le i hi := (h.hi_le i hi).trans hn
  taken_out := h.taken_out
  apart := h.apart
  last_top := h.last_top

def start (counter : Nat) : Alloc ι := ⟨counter, fun _ => 0, fun _ => 0, [], none⟩

theorem start_inv (counter : Nat) : (start counter : Alloc ι).Inv := by
  constructor <;> simp [start, Live]

variable [DecidableEq ι] {next : Nat}

inductive Step : Alloc ι → Alloc ι → Prop
  | raise (a : Alloc ι) (n : Nat) (h : a.counter ≤ n) : Step a { a with counter := n }
  | reserve (a : Alloc ι) (i : ι) (first stop : Nat) (hfirst : a.counter ≤ first) (hstop : first < stop) :
      Step a { a with
        counter := stop, lo := update a.lo i first, hi := update a.hi i stop, last := some i }
  | take (a : Alloc ι) (i : ι) (next : Nat) (hlive : a.lo i < a.hi i) (hnext : a.lo i < next) :
      Step a { a with lo := update a.lo i next, taken := a.lo i :: a.taken }
  | skip (a : Alloc ι) (i : ι) (next : Nat) (hnext : a.lo i ≤ next) :
      Step a { a with lo := update a.lo i next }
  | handBack (a : Alloc ι) (i : ι) (hlive : a.lo i < a.hi i) (htop : a.hi i = a.counter ∨ a.last = some i) :
      Step a { a with counter := a.lo i, hi := update a.hi i 0 }

theorem Inv.reserve (h : a.Inv) {first stop : Nat} (hfirst : a.counter ≤ first) (hstop : first < stop) : Inv { a with
      counter := stop, lo := update a.lo i first, hi := update a.hi i stop, last := some i } := by
  -- every other live interval and every taken value lies below the old counter
  have hold : ∀ j, a.Live j → a.hi j ≤ first := fun j hj => (h.hi_le j hj).trans hfirst
  have htaken : ∀ t ∈ a.taken, t < first := fun t ht => (h.taken_lt t ht).trans_le hfirst
  refine ⟨h.nodup, fun t ht => (htaken t ht).trans hstop, fun j hj => ?_, fun j hj t ht => ?_, ?_, ?_⟩
  · rcases eq_or_ne j i with rfl | hji
    · simp
    · simp only [Live, update_of_ne hji] at hj ⊢
      exact (hold j hj).trans hstop.le
  · rcases eq_or_ne j i with rfl | hji
    · simpa using .inl (htaken t ht)
    · simp only [Live, update_of_ne hji] at hj ⊢
      exact h.taken_out j hj t ht
  · intro j k hjk hj hk
    rcases eq_or_ne j i with rfl | hji
    · simp only [Live, update_self, update_of_ne hjk.symm] at hk ⊢
      exact .inr (hold k hk)
    · simp only [Live, update_of_ne hji] at hj ⊢
      rcases eq_or_ne k i with rfl | hki
      · simpa using .inl (hold j hj)
      · simp only [Live, update_of_ne hki] at hk ⊢
        exact h.apart j k hjk hj hk
  · rintro j hlast -
    obtain rfl : i = j := by simpa using hlast
    refine ⟨fun k hk hlk => ?_, by simpa using htaken⟩
    simp only [Live, update_of_ne hk, update_self] at hlk ⊢
    exact hold k hlk

theorem live_of_update_lo {i j : ι} (hnext : a.lo i ≤ next)
    (hj : Live { a with lo := update a.lo i next } j) :
    a.Live j ∧ a.lo j ≤ update a.lo i next j := by
  rcases eq_or_ne j i with rfl | hji
  · simp only [Live, update_self] at hj ⊢
    exact ⟨hnext.trans_lt hj, hnext⟩
  · simp only [Live, update_of_ne hji] at hj ⊢
    exact ⟨hj, le_rfl⟩

theorem Inv.skip (h : a.Inv) (hnext : a.lo i ≤ next) : Inv { a with lo := update a.lo i next } := by
  refine ⟨h.nodup, h.taken_lt, fun j hj => h.hi_le j (live_of_update_lo hnext hj).1, fun j hj t ht => ?_,
    fun j k hjk hj hk => ?_, fun j hlast hj => ⟨fun k hk hlk => ?_, fun t ht => ?_⟩⟩
  · obtain ⟨hlj, hle⟩ := live_of_update_lo hnext hj
    exact (h.taken_out j hlj t ht).imp (fun hl => hl.trans_le hle) id
  · obtain ⟨hlj, hle⟩ := live_of_update_lo hnext hj
    obtain ⟨hlk, hle'⟩ := live_of_update_lo hnext hk
    exact (h.apart j k hjk hlj hlk).imp (fun hl => hl.trans hle') (fun hl => hl.trans hle)
  · obtain ⟨hlj, hle⟩ := live_of_update_lo hnext hj
    exact ((h.last_top j hlast hlj).1 k hk (live_of_update_lo hnext hlk).1).trans hle
  · obtain ⟨hlj, hle⟩ := live_of_update_lo hnext hj
    exact ((h.last_top j hlast hlj).2 t ht).trans_le hle

theorem Inv.take (h : a.Inv) (hlive : a.lo i < a.hi i) (hnext : a.lo i < next) :
    Inv { a with lo := update a.lo i next, taken := a.lo i :: a.taken } := by
  have hs := h.skip hnext.le
  have hnew : a.lo i ∉ a.taken := fun hm => by
    rcases h.taken_out i hlive _ hm with hl | hr <;> omega
  refine ⟨List.nodup_cons.mpr ⟨hnew, h.nodup⟩, ?_, hs.hi_le, ?_, hs.apart, ?_⟩
  · intro t ht
    rcases List.mem_cons.mp ht with rfl | ht
    · exact hlive.trans_le (h.hi_le i hlive)
    · exact h.taken_lt t ht
  · intro j hj t ht
    rcases List.mem_cons.mp ht with rfl | ht
    · -- the value just taken: left of its own interval, outside every other one
      rcases eq_or_ne j i with rfl | hji
      · simpa using .inl hnext
      · have hlj := (live_of_update_lo hnext.le hj).1
        simp only [update_of_ne hji]
        rcases h.apart i j hji.symm hlive hlj with hl | hr
        · exact .inl (hlive.trans_le hl)
        · exact .inr hr
    · exact hs.taken_out j hj t ht
  · intro j hlast hj
    refine ⟨(hs.last_top j hlast hj).1, fun t ht => ?_⟩
    rcases List.mem_cons.mp ht with rfl | ht
    · obtain ⟨hlj, hle⟩ := live_of_update_lo hnext.le hj
      rcases eq_or_ne j i with rfl | hji
      · simpa using hnext
      · simp only [update_of_ne hji]
        exact hlive.trans_le ((h.last_top j hlast hlj).1 i hji.symm hlive)
    · exact (hs.last_top j hlast hj).2 t ht

theorem Inv.handBack (h : a.Inv) (htop : a.OnTop i) : Inv { a with counter := a.lo i, hi := update a.hi i 0 } := by
  have hother : ∀ j, Live { a with counter := a.lo i, hi := update a.hi i 0 } j → j ≠ i ∧ a.Live j := by
    intro j hj
    rcases eq_or_ne j i with rfl | hji
    · simp [Live] at hj
    · simp only [Live, update_of_ne hji] at hj
      exact ⟨hji, hj⟩
  refine ⟨h.nodup, htop.2, fun j hj => ?_, fun j hj t ht => ?_, fun j k hjk hj hk => ?_, fun j hlast hj => ?_⟩
  · obtain ⟨hji, hlj⟩ := hother j hj
    simpa [update_of_ne hji] using htop.1 j hji hlj
  · obtain ⟨hji, hlj⟩ := hother j hj
    simpa [update_of_ne hji] using h.taken_out j hlj t ht
  · obtain ⟨hji, hlj⟩ := hother j hj
    obtain ⟨hki, hlk⟩ := hother k hk
    simpa [update_of_ne hji, update_of_ne hki] using h.apart j k hjk hlj hlk
  · obtain ⟨hji, hlj⟩ := hother j hj
    refine ⟨fun k hk hlk => ?_, (h.last_top j hlast hlj).2⟩
    obtain ⟨hki, hlk'⟩ := hother k hlk
    simpa [update_of_ne hki] using (h.last_top j hlast hlj).1 k hk hlk'

/-- **Every step keeps the invariant.** -/
theorem Step.inv (hstep : Step a b) (h : a.Inv) : b.Inv := by
  cases hstep with
  | raise n hn => exact h.raise hn
  | reserve i first stop hfirst hstop => exact h.reserve hfirst hstop
  | take i next hlive hnext => exact h.take hlive hnext
  | skip i next hnext => exact h.skip hnext
  | handBack i hlive htop =>
    refine h.handBack ?_
    rcases htop with hc | hlast
    · exact h.onTop_of_hi_eq hlive hc
    · exact h.last_top i hlast hlive

theorem Inv.steps (h : a.Inv) (hrun : Relation.ReflTransGen Step a b) : b.Inv := by
  induction hrun with
  | refl => exact h
  | tail _ hstep ih => exact hstep.inv ih

end Alloc

end TSpider.Lib

import Mathlib.Tactic
import Mathlib.Data.List.Nodup
import Mathlib.Data.List.Perm.Basic
import Mathlib.Logic.Equiv.Basic

/-!
# A binary heap in an array

The elements stand at the places `1 .. elements` of an array, the parent of place `i` at `i / 2`. `downheap` first moves the
hole at the given place down to a leaf, along the better children, and then moves it up again to where the element belongs.

* `Heap.Ordered key s` : every parent at place `s` or behind it is not worse than its children;
* `Heap.contents` : the elements, as a list.

`cmp` is a comparison in the manner of C. It may decide as it likes between elements with equal keys.
-/

namespace TSpider.Lib
open Function List

structure Heap (α : Type*) where
  root : Nat → α
  elements : Nat

namespace Heap
variable {α κ : Type*} (cmp : α → α → Int) (root : Nat → α)

def child (n : Nat) (root : Nat → α) (idx : Nat) : Nat :=
  if 2 * idx < n ∧ cmp (root (2 * idx)) (root (2 * idx + 1)) > 0 then 2 * idx + 1 else 2 * idx

def sink (cmp : α → α → Int) (n : Nat) (x : α) : Nat → Bool → (Nat → α) → Nat → (Nat → α) × Nat
  | 0, _, root, idx => (root, idx)
  | fuel + 1, first, root, idx =>
    if idx ≤ n / 2 then
      let next := child cmp n root idx
      if first ∧ cmp (root next) x ≥ 0 then (root, idx)
      else sink cmp n x fuel false (update root idx (root next)) next
    else (root, idx)

def rise (cmp : α → α → Int) (start : Nat) (x : α) : Nat → (Nat → α) → Nat → Nat → α
  | 0, root, idx => update root idx x
  | fuel + 1, root, idx =>
    if idx / 2 > start ∧ cmp x (root (idx / 2)) < 0 then
      rise cmp start x fuel (update root idx (root (idx / 2))) (idx / 2)
    else update root idx x

/-- Store `x` at the place `start`. A hole that stays there is filled at once, having no place to rise to. -/
def downheap (h : Heap α) (start : Nat) (x : α) : Heap α :=
  let (root, idx) := sink cmp h.elements x h.elements true h.root start
  { h with root := rise cmp start x h.elements root idx }

def fixFrom (cmp : α → α → Int) : Nat → Heap α → Heap α
  | 0, h => h
  | i + 1, h => fixFrom cmp i (h.downheap cmp (i + 1) (h.root (i + 1)))

def fix (cmp : α → α → Int) (h : Heap α) : Heap α := fixFrom cmp (h.elements / 2) h

def insert (h : Heap α) (x : α) : Heap α :=
  ⟨rise cmp 0 x (h.elements + 1) h.root (h.elements + 1), h.elements + 1⟩

def replaceTop (h : Heap α) : Heap α := h.downheap cmp 1 (h.root 1)

def removeTop (h : Heap α) : Heap α :=
  downheap cmp { h with elements := h.elements - 1 } 1 (h.root h.elements)

/-! ## Order -/

variable [Preorder κ]

structure Follows (cmp : α → α → Int) (key : α → κ) : Prop where
  le : ∀ a b, cmp a b ≤ 0 → key a ≤ key b
  ge : ∀ a b, 0 ≤ cmp a b → key b ≤ key a

/-- Parents from the place `s` on are in order with their children. -/
def OrderedFrom (key : α → κ) (s n : Nat) (root : Nat → α) : Prop :=
  ∀ c ≤ n, s ≤ c / 2 → key (root (c / 2)) ≤ key (root c)

inductive Under (s : Nat) : Nat → Prop where
  | refl : Under s s
  | child {i : Nat} (h : Under s (i / 2)) : Under s i

theorem Under.le {s i : Nat} (h : Under s i) : s ≤ i := by
  induction h with
  | refl => exact le_rfl
  | child _ ih => omega

theorem Under.half {s i : Nat} (h : Under s i) (hne : i ≠ s) : Under s (i / 2) := by
  cases h with
  | refl => exact absurd rfl hne
  | child h => exact h

theorem Under.trans {s i j : Nat} (h : Under s i) (h' : Under i j) : Under s j := by
  induction h' with
  | refl => exact h
  | child _ ih => exact .child ih

/-- The array with a gap at `idx`: the pairs off the gap are in order, and so are its parent and its children. -/
structure Gap (key : α → κ) (s n : Nat) (root : Nat → α) (idx : Nat) : Prop where
  off : ∀ c ≤ n, c ≠ idx → c / 2 ≠ idx → s ≤ c / 2 → key (root (c / 2)) ≤ key (root c)
  across : s ≤ idx / 2 → ∀ c ≤ n, c / 2 = idx → key (root (idx / 2)) ≤ key (root c)

/-- The array with a hole at `idx`, below the place `s` for `x`: the pairs off the hole are in order, so are its parent and
children, and what is at `s` is not worse than `x`. -/
structure Hole (key : α → κ) (s n : Nat) (x : α) (root : Nat → α) (idx : Nat) : Prop where
  under : Under s idx
  le : idx ≤ n
  off : ∀ c ≤ n, c ≠ idx → c / 2 ≠ idx → s ≤ c / 2 → key (root (c / 2)) ≤ key (root c)
  across : s ≤ idx / 2 → ∀ c ≤ n, c / 2 = idx → key (root (idx / 2)) ≤ key (root c)
  above : idx ≠ s → key (root s) ≤ key x

section Step
variable (cmp : α → α → Int) {key : α → κ} {s n : Nat} {x : α} {root : Nat → α} {idx : Nat} {h : Heap α}

theorem child_half (n : Nat) (root : Nat → α) (idx : Nat) : child cmp n root idx / 2 = idx := by
  unfold child
  split <;> omega

theorem child_le (root : Nat → α) (h : idx ≤ n / 2) : child cmp n root idx ≤ n := by
  unfold child
  split <;> omega

theorem sink_frame (n : Nat) (x : α) (fuel : Nat) (first : Bool) (root : Nat → α) (idx : Nat) :
    Under idx (sink cmp n x fuel first root idx).2 ∧ ∀ j, ¬ Under idx j →
    (sink cmp n x fuel first root idx).1 j = root j := by
  induction fuel generalizing first root idx with
  | zero => exact ⟨.refl, fun _ _ => rfl⟩
  | succ fuel ih =>
    unfold sink
    dsimp only
    split_ifs
    · exact ⟨.refl, fun _ _ => rfl⟩
    · have hchild : Under idx (child cmp n root idx) := .child (by rw [child_half]; exact .refl)
      obtain ⟨hunder, hframe⟩ := ih false (update root idx (root (child cmp n root idx))) (child cmp n root idx)
      refine ⟨hchild.trans hunder, fun j hj => ?_⟩
      have hne : j ≠ idx := fun h => hj (h ▸ .refl)
      rw [hframe j fun h => hj (hchild.trans h), update_of_ne hne]
    · exact ⟨.refl, fun _ _ => rfl⟩

theorem rise_frame (x : α) (fuel : Nat) (hidx : Under s idx) {j : Nat} (hj : ¬ Under s j ∨ (j = s ∧ s < idx)) :
    rise cmp s x fuel root idx j = root j := by
  have hne : j ≠ idx := by
    rintro rfl
    rcases hj with hj | ⟨rfl, hlt⟩
    · exact hj hidx
    · exact lt_irrefl _ hlt
  induction fuel generalizing root idx with
  | zero => exact update_of_ne hne _ _
  | succ fuel ih =>
    unfold rise
    split
    · rename_i hup
      have hhalf : j ≠ idx / 2 := by
        rintro rfl
        rcases hj with hj | ⟨heq, -⟩
        · exact hj (hidx.half (by omega))
        · omega
      rw [ih (hidx.half (by omega)) (hj.imp_right fun h => ⟨h.1, hup.1⟩) hhalf, update_of_ne hne]
    · exact update_of_ne hne _ _

theorem downheap_frame (hs : 0 < s) (hle : s ≤ h.elements) (x : α) :
    (∀ j, ¬ Under s j → (h.downheap cmp s x).root j = h.root j) ∧
      ((h.downheap cmp s x).root s = x ∨ ∃ c ≤ h.elements, c / 2 = s ∧ (h.downheap cmp s x).root s = h.root c) := by
  obtain ⟨hunder, hframe⟩ := sink_frame cmp h.elements x h.elements true h.root s
  refine ⟨fun j hj => (rise_frame cmp x _ hunder (.inl hj)).trans (hframe j hj), ?_⟩
  obtain ⟨fuel, hfuel⟩ : ∃ fuel, h.elements = fuel + 1 := ⟨h.elements - 1, by omega⟩
  have hstay : sink cmp h.elements x h.elements true h.root s = (h.root, s) → (h.downheap cmp s x).root s = x := by
    intro hsink
    have hnot : ¬ (s / 2 > s ∧ cmp x (h.root (s / 2)) < 0) := by omega
    simp only [downheap, hsink]
    rw [hfuel, rise, if_neg hnot, update_self]
  by_cases hhalf : s ≤ h.elements / 2
  swap
  · refine .inl (hstay ?_)
    conv_lhs => rw [hfuel]
    rw [sink, if_neg (by rwa [← hfuel])]
  by_cases hfirst : cmp (h.root (child cmp h.elements h.root s)) x ≥ 0
  · refine .inl (hstay ?_)
    nth_rewrite 2 [hfuel]
    rw [sink, if_pos hhalf]
    simp [hfirst]
  · refine .inr ⟨child cmp h.elements h.root s, child_le cmp h.root hhalf, child_half _ _ _ _, ?_⟩
    have hsink : sink cmp h.elements x h.elements true h.root s =
        sink cmp h.elements x fuel false (update h.root s (h.root (child cmp h.elements h.root s)))
          (child cmp h.elements h.root s) := by
      nth_rewrite 2 [hfuel]
      rw [sink, if_pos hhalf]
      simp [hfirst]
    have hchild := child_half cmp h.elements h.root s
    obtain ⟨hunder', hframe'⟩ := sink_frame cmp h.elements x fuel false
      (update h.root s (h.root (child cmp h.elements h.root s))) (child cmp h.elements h.root s)
    have hbelow := hunder'.le
    simp only [downheap, hsink]
    rw [rise_frame cmp x _ (hsink ▸ hunder) (.inr ⟨rfl, by omega⟩), hframe' s fun hu => by have := hu.le; omega, update_self]

theorem downheap_of_lt (hs : h.elements < s) (x : α) : (h.downheap cmp s x).root = update h.root s x := by
  have hsink : sink cmp h.elements x h.elements true h.root s = (h.root, s) := by
    cases hn : h.elements with
    | zero => rfl
    | succ m => rw [sink, if_neg (by omega)]
  simp only [downheap, hsink]
  cases h.elements with
  | zero => rfl
  | succ m => rw [rise, if_neg (by omega)]

theorem Gap.up (h : Gap key s n root idx) (hs : 0 < s) (hup : s ≤ idx / 2) (hle : idx ≤ n) :
    Gap key s n (update root idx (root (idx / 2))) (idx / 2) ∧
      ∀ c ≤ n, c / 2 = idx / 2 → key (root (idx / 2)) ≤ key (update root idx (root (idx / 2)) c) := by
  have hpar : idx / 2 ≠ idx := by omega
  have hbelow : ∀ c ≤ n, c / 2 = idx / 2 → key (root (idx / 2)) ≤ key (update root idx (root (idx / 2)) c) := by
    intro c hc hchalf
    by_cases hci : c = idx
    · rw [hci, update_self]
    · rw [update_of_ne hci, ← hchalf]
      exact h.off c hc hci (by omega) (by omega)
  refine ⟨⟨fun c hc hcp hchalf hsc => ?_, fun hsp c hc hchalf => ?_⟩, hbelow⟩
  · have hci : c ≠ idx := fun hci => hchalf (by rw [hci])
    rw [update_of_ne hci]
    by_cases hcidx : c / 2 = idx
    · rw [hcidx, update_self]
      exact h.across hup c hc hcidx
    · rw [update_of_ne hcidx]
      exact h.off c hc hci hcidx hsc
  · have hgrand : idx / 2 / 2 ≠ idx := by omega
    rw [update_of_ne hgrand]
    exact (h.off (idx / 2) (by omega) hpar hgrand hsp).trans (hbelow c hc hchalf)

theorem Gap.fill (h : Gap key s n root idx) (hs : 0 < s) (hchildren : ∀ c ≤ n, c / 2 = idx → key x ≤ key (root c))
    (hparent : s ≤ idx / 2 → key (root (idx / 2)) ≤ key x) : OrderedFrom key s n (update root idx x) := by
  intro c hc hsc
  by_cases hci : c = idx
  · subst hci
    have hpar : c / 2 ≠ c := by omega
    rw [update_self, update_of_ne hpar]
    exact hparent hsc
  · rw [update_of_ne hci]
    by_cases hcp : c / 2 = idx
    · rw [hcp, update_self]
      exact hchildren c hc hcp
    · rw [update_of_ne hcp]
      exact h.off c hc hci hcp hsc

theorem Hole.up (h : Hole key s n x root idx) (hs : 0 < s) (hup : s < idx / 2) (hle : key x ≤ key (root (idx / 2))) :
    Hole key s n x (update root idx (root (idx / 2))) (idx / 2) ∧
      ∀ c ≤ n, c / 2 = idx / 2 → key x ≤ key (update root idx (root (idx / 2)) c) := by
  have hne : idx ≠ s := by omega
  have hlen := h.le
  obtain ⟨hgap, hbelow⟩ := Gap.up ⟨h.off, h.across⟩ hs hup.le hlen
  refine ⟨⟨h.under.half hne, by omega, hgap.off, hgap.across, fun _ => ?_⟩, fun c hc hchalf => hle.trans (hbelow c hc hchalf)⟩
  rw [update_of_ne hne.symm]
  exact h.above hne

variable {cmp} (hcmp : Follows cmp key)
include hcmp

theorem child_min {c : Nat} (hc : c ≤ n) (hhalf : c / 2 = idx) : key (root (child cmp n root idx)) ≤ key (root c) := by
  have hcases : c = 2 * idx ∨ c = 2 * idx + 1 := by omega
  unfold child
  split
  · rename_i h
    rcases hcases with rfl | rfl
    · exact hcmp.ge _ _ h.2.le
    · exact le_rfl
  · rename_i h
    rcases hcases with rfl | rfl
    · exact le_rfl
    · have hle : ¬ cmp (root (2 * idx)) (root (2 * idx + 1)) > 0 := fun hgt => h ⟨by omega, hgt⟩
      exact hcmp.le _ _ (not_lt.mp hle)

theorem Hole.down (hs : 0 < s) (h : Hole key s n x root idx) (hhalf : idx ≤ n / 2)
    (habove : key (root (if idx = s then child cmp n root idx else s)) ≤ key x) :
    Hole key s n x (update root idx (root (child cmp n root idx))) (child cmp n root idx) := by
  have hnext := child_half cmp n root idx
  have hnextle := child_le cmp root hhalf
  set next := child cmp n root idx with hdef
  refine ⟨.child (hnext ▸ h.under), hnextle, ?_, ?_, ?_⟩
  · intro c hc hcn hchalf hsc
    by_cases hci : c = idx
    · -- the parent of the old hole and its new value
      subst hci
      have hpar : c / 2 ≠ c := by omega
      rw [update_self, update_of_ne hpar]
      exact h.across hsc next hnextle hnext
    · rw [update_of_ne hci]
      by_cases hcp : c / 2 = idx
      · rw [hcp, update_self]
        exact child_min hcmp hc hcp
      · rw [update_of_ne hcp]
        exact h.off c hc hci hcp hsc
  · intro _ c hc hchalf
    have hci : c ≠ idx := by omega
    rw [hnext, update_self, update_of_ne hci, ← hchalf]
    exact h.off c hc hci (by omega) (by omega)
  · intro _
    by_cases hi : s = idx
    · rw [hi, update_self]
      rwa [if_pos hi.symm] at habove
    · rw [update_of_ne hi]
      rwa [if_neg (Ne.symm hi)] at habove

theorem sink_hole (hs : 0 < s) (fuel : Nat) (first : Bool) (root : Nat → α) (idx : Nat)
    (hfuel : n < fuel + idx) (hfirst : first = true ↔ idx = s) (h : Hole key s n x root idx) :
    Hole key s n x (sink cmp n x fuel first root idx).1 (sink cmp n x fuel first root idx).2 ∧
      ∀ c ≤ n, c / 2 = (sink cmp n x fuel first root idx).2 → key x ≤ key ((sink cmp n x fuel first root idx).1 c) := by
  induction fuel generalizing first root idx with
  | zero => exact ⟨h, fun c hc hchalf => by simp only [sink] at hchalf; omega⟩
  | succ fuel ih =>
    have hsidx := h.under.le
    have hnext := child_half cmp n root idx
    unfold sink
    by_cases hhalf : idx ≤ n / 2
    · rw [if_pos hhalf]
      by_cases hstay : first = true ∧ cmp (root (child cmp n root idx)) x ≥ 0
      · -- the first child is not better, so the hole stays
        simp only [hstay, and_self, if_true]
        exact ⟨h, fun c hc hchalf => (hcmp.ge _ _ hstay.2).trans (child_min hcmp hc hchalf)⟩
      · simp only [hstay, if_false]
        refine ih _ _ _ (by omega) (iff_of_false Bool.false_ne_true (by omega)) (h.down hcmp hs hhalf ?_)
        split
        · rename_i hi
          have hlt : ¬ cmp (root (child cmp n root idx)) x ≥ 0 := fun hge => hstay ⟨hfirst.mpr hi, hge⟩
          exact hcmp.le _ _ (not_le.mp hlt).le
        · rename_i hi
          exact h.above hi
    · simp only [hhalf, if_false]
      exact ⟨h, fun c hc hchalf => by omega⟩

theorem rise_ordered (hs : 0 < s) (fuel : Nat) (hfuel : idx ≤ fuel)
    (h : Hole key s n x root idx) (hchildren : ∀ c ≤ n, c / 2 = idx → key x ≤ key (root c)) :
    OrderedFrom key s n (rise cmp s x fuel root idx) := by
  induction fuel generalizing root idx with
  | zero =>
    have := h.under.le
    omega
  | succ fuel ih =>
    unfold rise
    split
    · rename_i hup
      obtain ⟨hhole, hbelow⟩ := h.up hs hup.1 (hcmp.le _ _ hup.2.le)
      exact ih (by omega) hhole hbelow
    · rename_i hstop
      refine Gap.fill ⟨h.off, h.across⟩ hs hchildren fun hsc => ?_
      rcases hsc.lt_or_eq with hlt | heq
      · have hge : ¬ cmp x (root (idx / 2)) < 0 := fun hneg => hstop ⟨hlt, hneg⟩
        exact hcmp.ge _ _ (not_lt.mp hge)
      · rw [← heq]
        exact h.above (by omega)

/-- **Storing an element** in order: the places behind `s` have to be in order. -/
theorem downheap_ordered (hs : 0 < s) (hle : s ≤ h.elements) (hord : OrderedFrom key (s + 1) h.elements h.root) (x : α) :
    OrderedFrom key s h.elements (h.downheap cmp s x).root := by
  have hhole : Hole key s h.elements x h.root s := by
    refine ⟨.refl, hle, fun c hc hcs hchalf hsc => hord c hc (by omega), fun hsp => by omega, fun hne => absurd rfl hne⟩
  obtain ⟨hsunk, hchildren⟩ := sink_hole hcmp hs h.elements true h.root s (by omega) (iff_of_true rfl rfl) hhole
  exact rise_ordered hcmp hs h.elements hsunk.le hsunk hchildren

/-- **Storing an element in the middle**: it must not be better than the parent of its place. -/
theorem downheap_ordered_all (hs : 0 < s) (hle : s ≤ h.elements)
    (hgap : Gap key 1 h.elements h.root s) (x : α) (hx : 1 ≤ s / 2 → key (h.root (s / 2)) ≤ key x) :
    OrderedFrom key 1 h.elements (h.downheap cmp s x).root := by
  obtain ⟨hframe, hstart⟩ := downheap_frame cmp hs hle x
  have hlow : OrderedFrom key s h.elements (h.downheap cmp s x).root :=
    downheap_ordered hcmp hs hle (fun c hc hsc => hgap.off c hc (by omega) (by omega) (by omega)) x
  intro c hc hhalf
  rcases le_or_gt s (c / 2) with hsc | hsc
  · exact hlow c hc hsc
  have hup : (h.downheap cmp s x).root (c / 2) = h.root (c / 2) := hframe _ fun hu => by have := hu.le; omega
  rw [hup]
  by_cases hcs : c = s
  · subst hcs
    rcases hstart with heq | ⟨d, hd, hdhalf, heq⟩
    · rw [heq]
      exact hx hhalf
    · rw [heq]
      exact hgap.across hhalf d hd hdhalf
  · rw [hframe c fun hu => by have := (hu.half hcs).le; omega]
    exact hgap.off c hc hcs (by omega) hhalf

theorem rise_ordered_all (fuel : Nat) (hfuel : idx ≤ fuel) (hpos : 0 < idx) (hle : idx ≤ n)
    (hgap : Gap key 1 n root idx) (hchildren : ∀ c ≤ n, c / 2 = idx → key x ≤ key (root c)) :
    OrderedFrom key 1 n (rise cmp 0 x fuel root idx) := by
  induction fuel generalizing root idx with
  | zero => omega
  | succ fuel ih =>
    unfold rise
    split
    · rename_i hup
      obtain ⟨hgap', hbelow⟩ := hgap.up Nat.one_pos hup.1 hle
      have hx := hcmp.le _ _ hup.2.le
      exact ih (by omega) (by omega) (by omega) hgap' fun c hc hchalf => hx.trans (hbelow c hc hchalf)
    · rename_i hstop
      refine hgap.fill Nat.one_pos hchildren fun hsc => ?_
      have hge : ¬ cmp x (root (idx / 2)) < 0 := fun hneg => hstop ⟨hsc, hneg⟩
      exact hcmp.ge _ _ (not_lt.mp hge)

/-- **Inserting an element.** -/
theorem insert_ordered (hord : OrderedFrom key 1 h.elements h.root) (x : α) :
    OrderedFrom key 1 (h.elements + 1) (h.insert cmp x).root := by
  refine rise_ordered_all hcmp _ le_rfl (Nat.succ_pos _) le_rfl ⟨fun c hc hne _ hsc => ?_, fun _ c hc hchalf => ?_⟩ ?_
  · exact hord c (by omega) hsc
  · omega
  · omega

end Step

/-! ## Contents -/

def places (n : Nat) (root : Nat → α) : List α := (List.range' 1 n).map root

def contents (h : Heap α) : List α := places h.elements h.root

theorem mem_places {n : Nat} {root : Nat → α} {a : α} : a ∈ places n root ↔ ∃ i, 1 ≤ i ∧ i ≤ n ∧ root i = a := by
  simp only [places, mem_map, mem_range'_1]
  constructor
  · rintro ⟨i, hi, rfl⟩
    exact ⟨i, hi.1, by omega, rfl⟩
  · rintro ⟨i, h1, hn, rfl⟩
    exact ⟨i, ⟨h1, by omega⟩, rfl⟩

theorem places_push (n : Nat) (root : Nat → α) (a : α) : places (n + 1) (update root (n + 1) a) = places n root ++ [a] := by
  rw [places, range'_concat, map_append, places]
  congr 1
  · refine map_congr_left fun i hi => update_of_ne ?_ _ _
    have := mem_range'_1.mp hi
    omega
  · simp [Nat.add_comm]

theorem places_swap {n i j : Nat} (hi : 1 ≤ i ∧ i ≤ n) (hj : 1 ≤ j ∧ j ≤ n) :
    (places n (root ∘ Equiv.swap i j)).Perm (places n root) := by
  have hperm : ((List.range' 1 n).map (Equiv.swap i j)).Perm (List.range' 1 n) := by
    refine (perm_ext_iff_of_nodup ((nodup_range' ..).map (Equiv.injective _)) (nodup_range' ..)).mpr ?_
    have hmem : ∀ k, Equiv.swap i j k ∈ List.range' 1 n ↔ k ∈ List.range' 1 n := by
      intro k
      rcases eq_or_ne k i with rfl | hki
      · simp only [Equiv.swap_apply_left, mem_range'_1]
        omega
      · rcases eq_or_ne k j with rfl | hkj
        · simp only [Equiv.swap_apply_right, mem_range'_1]
          omega
        · rw [Equiv.swap_apply_of_ne_of_ne hki hkj]
    intro k
    simp only [mem_map]
    constructor
    · rintro ⟨k', hk', rfl⟩
      exact (hmem k').mpr hk'
    · intro hk
      exact ⟨Equiv.swap i j k, (hmem k).mpr hk, Equiv.swap_apply_self i j k⟩
  have := hperm.map root
  rwa [map_map] at this

theorem move_eq_swap (x : α) {i j : Nat} (hij : i ≠ j) :
    update (update root i (root j)) j x = update root i x ∘ Equiv.swap i j := by
  funext k
  simp only [comp_apply]
  rcases eq_or_ne k j with rfl | hkj
  · rw [update_self, Equiv.swap_apply_right, update_self]
  · rw [update_of_ne hkj]
    rcases eq_or_ne k i with rfl | hki
    · rw [update_self, Equiv.swap_apply_left, update_of_ne hij.symm]
    · rw [update_of_ne hki, Equiv.swap_apply_of_ne_of_ne hki hkj, update_of_ne hki]

theorem places_move (x : α) {n i j : Nat} (hij : i ≠ j) (hi : 1 ≤ i ∧ i ≤ n) (hj : 1 ≤ j ∧ j ≤ n) :
    (places n (update (update root i (root j)) j x)).Perm (places n (update root i x)) := by
  rw [move_eq_swap root x hij]
  exact places_swap _ hi hj

theorem places_drop {n i : Nat} (hi : 1 ≤ i ∧ i ≤ n) :
    (root i :: places (n - 1) (update root i (root n))).Perm (places n root) := by
  obtain ⟨m, rfl⟩ : ∃ m, n = m + 1 := ⟨n - 1, by omega⟩
  have hswap := places_swap root hi ⟨(show 1 ≤ m + 1 by omega), le_rfl⟩
  have hpush : places (m + 1) (root ∘ Equiv.swap i (m + 1)) = places m (update root i (root (m + 1))) ++ [root i] := by
    rw [places, range'_concat, map_append, places]
    congr 1
    · refine map_congr_left fun k hk => ?_
      have hk := mem_range'_1.mp hk
      rcases eq_or_ne k i with rfl | hki
      · rw [update_self, comp_apply, Equiv.swap_apply_left]
      · rw [update_of_ne hki, comp_apply, Equiv.swap_apply_of_ne_of_ne hki (by omega)]
    · simp [Nat.add_comm]
  rw [hpush] at hswap
  exact (perm_append_singleton _ _).symm.trans hswap

section Contents
variable (cmp : α → α → Int) {n : Nat}

theorem sink_places (x : α) (fuel : Nat) (first : Bool) (root : Nat → α) {idx : Nat} (hidx : 1 ≤ idx ∧ idx ≤ n) :
    (places n (update (sink cmp n x fuel first root idx).1 (sink cmp n x fuel first root idx).2 x)).Perm
      (places n (update root idx x)) ∧ 1 ≤ (sink cmp n x fuel first root idx).2 ∧
        (sink cmp n x fuel first root idx).2 ≤ n := by
  induction fuel generalizing first root idx with
  | zero => exact ⟨.refl _, hidx⟩
  | succ fuel ih =>
    unfold sink
    by_cases hhalf : idx ≤ n / 2
    · rw [if_pos hhalf]
      have hnext := child_half cmp n root idx
      have hle := child_le cmp root hhalf
      by_cases hstay : first = true ∧ cmp (root (child cmp n root idx)) x ≥ 0
      · simp only [hstay, and_self, if_true]
        exact ⟨.refl _, hidx⟩
      · simp only [hstay, if_false]
        have hchild : 1 ≤ child cmp n root idx ∧ child cmp n root idx ≤ n := by omega
        obtain ⟨hperm, hbounds⟩ := ih false (update root idx (root (child cmp n root idx))) hchild
        exact ⟨hperm.trans (places_move root x (by omega) hidx hchild), hbounds⟩
    · simp only [hhalf, if_false]
      exact ⟨.refl _, hidx⟩

theorem rise_places (s : Nat) (x : α) (fuel : Nat) (root : Nat → α) {idx : Nat} (hidx : 1 ≤ idx ∧ idx ≤ n) :
    (places n (rise cmp s x fuel root idx)).Perm (places n (update root idx x)) := by
  induction fuel generalizing root idx with
  | zero => exact .refl _
  | succ fuel ih =>
    unfold rise
    split
    · have hpar : 1 ≤ idx / 2 ∧ idx / 2 ≤ n := by omega
      exact (ih _ hpar).trans (places_move root x (by omega) hidx hpar)
    · exact .refl _

/-- **Storing an element** replaces the one at its place. -/
theorem downheap_contents {h : Heap α} {s : Nat} (hs : 1 ≤ s ∧ s ≤ h.elements) (x : α) :
    (h.downheap cmp s x).contents.Perm (places h.elements (update h.root s x)) := by
  obtain ⟨hperm, hbounds⟩ := sink_places cmp x h.elements true h.root hs
  exact (rise_places cmp s x h.elements _ hbounds).trans hperm

theorem insert_contents (h : Heap α) (x : α) : (h.insert cmp x).contents.Perm (h.contents ++ [x]) := by
  have hperm := rise_places (n := h.elements + 1) cmp 0 x (h.elements + 1) h.root ⟨Nat.succ_pos _, le_rfl⟩
  rwa [places_push] at hperm

@[simp] theorem downheap_elements (h : Heap α) (s : Nat) (x : α) :
    (h.downheap cmp s x).elements = h.elements := rfl

end Contents

/-! ## Building a heap, and its top -/

section Top
variable {cmp : α → α → Int} {key : α → κ} {h : Heap α} (hcmp : Follows cmp key)

/-- **The top** is not worse than any element. -/
theorem top_le {n : Nat} {root : Nat → α} (hord : OrderedFrom key 1 n root) {a : α} (ha : a ∈ places n root) :
    key (root 1) ≤ key a := by
  obtain ⟨i, h1, hn, rfl⟩ := mem_places.mp ha
  clear ha
  induction i using Nat.strong_induction_on with
  | _ i ih =>
    rcases h1.lt_or_eq with hlt | heq
    · have hpar : 1 ≤ i / 2 := by omega
      have hsmall : i / 2 < i := by omega
      exact (ih (i / 2) hsmall hpar (hsmall.le.trans hn)).trans (hord i hn hpar)
    · rw [← heq]

/-- If only the key of the top changes, the other elements stay in order. -/
theorem OrderedFrom.change_top {n : Nat} {root : Nat → α} {key' : α → κ} (hord : OrderedFrom key 1 n root)
    (hnodup : (places n root).Nodup) (hkey : ∀ a, a ≠ root 1 → key' a = key a) : OrderedFrom key' 2 n root := by
  have hne : ∀ i, 2 ≤ i → i ≤ n → root i ≠ root 1 := by
    intro i hi hle heq
    have := inj_on_of_nodup_map hnodup (mem_range'_1.mpr ⟨by omega, by omega⟩) (mem_range'_1.mpr ⟨le_rfl, by omega⟩) heq
    omega
  intro c hc hhalf
  rw [hkey _ (hne c (by omega) hc), hkey _ (hne _ hhalf (by omega))]
  exact hord c hc (by omega)

theorem places_eq_cons {n : Nat} (root : Nat → α) (hn : 0 < n) :
    places n root = root 1 :: (List.range' 2 (n - 1)).map root := by
  obtain ⟨m, rfl⟩ : ∃ m, n = m + 1 := ⟨n - 1, by omega⟩
  simp [places, range'_succ]

include hcmp

theorem fixFrom_spec (i : Nat) (hi : i ≤ h.elements) (hord : OrderedFrom key (i + 1) h.elements h.root) :
    OrderedFrom key 1 h.elements (fixFrom cmp i h).root ∧ (fixFrom cmp i h).elements = h.elements ∧
      (fixFrom cmp i h).contents.Perm h.contents := by
  induction i generalizing h with
  | zero => exact ⟨hord, rfl, .refl _⟩
  | succ i ih =>
    have hstep := downheap_ordered hcmp (Nat.succ_pos i) hi hord (h.root (i + 1))
    have hsame := downheap_contents cmp ⟨Nat.succ_pos i, hi⟩ (h.root (i + 1))
    rw [update_eq_self] at hsame
    obtain ⟨hordered, helements, hperm⟩ := ih (h := h.downheap cmp (i + 1) (h.root (i + 1))) (Nat.le_of_succ_le hi) hstep
    exact ⟨hordered, helements, hperm.trans hsame⟩

/-- **Building a heap.** -/
theorem fix_spec (h : Heap α) : OrderedFrom key 1 h.elements (fix cmp h).root ∧ (fix cmp h).elements = h.elements ∧
      (fix cmp h).contents.Perm h.contents :=
  fixFrom_spec hcmp _ (by omega) fun c hc hhalf => by omega

/-- **Changing the top**: the other elements are in order, and the top finds its place. -/
theorem replaceTop_spec (hpos : 0 < h.elements) (hord : OrderedFrom key 2 h.elements h.root) :
    OrderedFrom key 1 h.elements (h.replaceTop cmp).root ∧ (h.replaceTop cmp).contents.Perm h.contents := by
  have hsame := downheap_contents cmp ⟨le_rfl, hpos⟩ (h.root 1)
  rw [update_eq_self] at hsame
  exact ⟨downheap_ordered hcmp Nat.one_pos hpos hord (h.root 1), hsame⟩

/-- **Removing the top.** -/
theorem removeTop_spec (hpos : 0 < h.elements) (hord : OrderedFrom key 2 h.elements h.root) :
    OrderedFrom key 1 (h.elements - 1) (h.removeTop cmp).root ∧ (h.root 1 :: (h.removeTop cmp).contents).Perm h.contents := by
  rcases (show 1 ≤ h.elements from hpos).lt_or_eq with hlt | heq
  · have hle : 1 ≤ h.elements - 1 := by omega
    refine ⟨downheap_ordered (h := { h with elements := h.elements - 1 }) hcmp Nat.one_pos hle
      (fun c hc hhalf => hord c (by simp only at hc; omega) hhalf) (h.root h.elements), ?_⟩
    have hperm := downheap_contents cmp (h := { h with elements := h.elements - 1 }) ⟨le_rfl, hle⟩ (h.root h.elements)
    exact (hperm.cons (h.root 1)).trans (places_drop h.root ⟨le_rfl, hpos⟩)
  · have hone : h.contents = [h.root 1] := by simp [contents, places, ← heq]
    have hnil : (h.removeTop cmp).contents = [] := by simp [contents, places, removeTop, ← heq]
    refine ⟨fun c hc hhalf => by omega, by rw [hone, hnil]⟩

end Top

end Heap

end TSpider.Lib

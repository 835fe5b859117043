import TSpider.Lib.Heap
import TSpider.Lib.Run

/-!
# Priority queues of mysys

A `QUEUE` is a heap of pointers; every element also stores the place it stands at. The keys are in the elements and may
change: `queue_replace` follows the change of one key, `queue_fix` that of all. `compare` is the comparison of the keys,
multiplied by `max_at_top`.

* `queue_law` : a heap with the right elements and places after every run in which the element that a removal moves is not
  better than the parent of its new place;
* `fix_drain_sorts` : a queue sorts.
-/

namespace TSpider.Mysys

open Lib Lib.Heap Function

variable {α κ : Type} [DecidableEq α]

structure Slots (α : Type) where
  root : ℕ → α
  pos : α → ℕ

def Slots.put (s : Slots α) (idx : ℕ) (e : α) : Slots α := ⟨update s.root idx e, update s.pos e idx⟩

/-- The first loop of `_downheap`: the hole moves down. -/
def sinkTo (cmp : α → α → Int) (n : ℕ) (x : α) : ℕ → Bool → Slots α → ℕ → Slots α × ℕ
  | 0, _, s, idx => (s, idx)
  | fuel + 1, first, s, idx =>
    if idx ≤ n / 2 then
      let next := child cmp n s.root idx
      if first ∧ cmp (s.root next) x ≥ 0 then (s, idx)
      else sinkTo cmp n x fuel false (s.put idx (s.root next)) next
    else (s, idx)

/-- The second loop of `_downheap`, which is that of `queue_insert` with `start` 0. -/
def riseTo (cmp : α → α → Int) (start : ℕ) (x : α) : ℕ → Slots α → ℕ → Slots α
  | 0, s, idx => s.put idx x
  | fuel + 1, s, idx =>
    if idx / 2 > start ∧ cmp x (s.root (idx / 2)) < 0 then
      riseTo cmp start x fuel (s.put idx (s.root (idx / 2))) (idx / 2)
    else s.put idx x

structure Queue (α κ : Type) where
  slots : Slots α
  elements : ℕ
  key : α → κ
  /-- the elements that were inserted and not removed -/
  held : List α

namespace Queue

def heap (q : Queue α κ) : Heap α := ⟨q.slots.root, q.elements⟩

variable (compare : κ → κ → Int)

def cmp (q : Queue α κ) (a b : α) : Int := compare (q.key a) (q.key b)

def downheap (q : Queue α κ) (start : ℕ) (x : α) : Queue α κ :=
  let (s, idx) := sinkTo (q.cmp compare) q.elements x q.elements true q.slots start
  { q with slots := riseTo (q.cmp compare) start x q.elements s idx }

def queueInsert (q : Queue α κ) (x : α) : Queue α κ where
  slots := riseTo (q.cmp compare) 0 x (q.elements + 1) q.slots (q.elements + 1)
  elements := q.elements + 1
  key := q.key
  held := x :: q.held

def queueRemove (q : Queue α κ) (idx : ℕ) : Queue α κ :=
  { downheap compare { q with elements := q.elements - 1 } idx (q.slots.root q.elements) with
    held := q.held.erase (q.slots.root idx) }

def queueReplace (q : Queue α κ) (idx : ℕ) : Queue α κ :=
  queueInsert compare (queueRemove compare q idx) (q.slots.root idx)

def queueFixFrom : ℕ → Queue α κ → Queue α κ
  | 0, q => q
  | i + 1, q => queueFixFrom i (q.downheap compare (i + 1) (q.slots.root (i + 1)))

def queueFix (q : Queue α κ) : Queue α κ := queueFixFrom compare (q.elements / 2) q

/-! ## Runs -/

inductive Op (α κ : Type)
  | insert (x : α)
  | remove (idx : ℕ)
  | replace (idx : ℕ) (k : κ)
  | fix (key : α → κ)

def step (q : Queue α κ) : Op α κ → Option (Queue α κ)
  | .insert x => some (q.queueInsert compare x)
  | .remove idx => if 1 ≤ idx ∧ idx ≤ q.elements then some (q.queueRemove compare idx) else none
  | .replace idx k =>
    if 1 ≤ idx ∧ idx ≤ q.elements then
      some (queueReplace compare { q with key := update q.key (q.slots.root idx) k } idx)
    else none
  | .fix key => some (queueFix compare { q with key := key })

variable [Preorder κ]

structure Filled (q : Queue α κ) : Prop where
  contents : (places q.elements q.slots.root).Perm q.held
  pos : ∀ i, 1 ≤ i → i ≤ q.elements → q.slots.pos (q.slots.root i) = i

/-- The law of priority queues: the array is a heap, and its first element is a least one. -/
structure Law (q : Queue α κ) : Prop extends Filled q where
  ordered : OrderedFrom q.key 1 q.elements q.slots.root
  first : ∀ x ∈ q.held, q.key (q.slots.root 1) ≤ q.key x

/-- The last element is not better than the parent of `idx`, where a removal puts it. -/
def Fits (q : Queue α κ) (idx : ℕ) : Prop :=
  1 < idx → idx < q.elements → q.key (q.slots.root (idx / 2)) ≤ q.key (q.slots.root q.elements)

/-- An element is not inserted twice, and the element that a removal moves fits its new place. -/
def Sifts (q : Queue α κ) : Op α κ → Prop
  | .insert x => x ∉ q.held
  | .remove idx => q.Fits idx
  | .replace idx _ => q.Fits idx
  | .fix _ => True

instance [DecidableLE κ] (q : Queue α κ) (idx : ℕ) : Decidable (q.Fits idx) :=
  inferInstanceAs (Decidable (1 < idx → idx < q.elements → _))

instance [DecidableLE κ] (q : Queue α κ) : (op : Op α κ) → Decidable (q.Sifts op)
  | .insert x => inferInstanceAs (Decidable (x ∉ q.held))
  | .remove idx => inferInstanceAs (Decidable (q.Fits idx))
  | .replace idx _ => inferInstanceAs (Decidable (q.Fits idx))
  | .fix _ => isTrue trivial

/-! ## The array

The elements move as in the heap of the library, whatever places they store.
-/

section Root
variable (cmp : α → α → Int) (n : ℕ) (x : α)

omit [Preorder κ] in
theorem sinkTo_root (fuel : ℕ) (first : Bool) (s : Slots α) (idx : ℕ) :
    ((sinkTo cmp n x fuel first s idx).1.root, (sinkTo cmp n x fuel first s idx).2) = sink cmp n x fuel first s.root idx := by
  induction fuel generalizing first s idx with
  | zero => rfl
  | succ fuel ih =>
    unfold sinkTo sink
    dsimp only
    split_ifs with hhalf
    · rfl
    · exact ih false _ _
    · rfl

omit [Preorder κ] in
theorem riseTo_root (start fuel : ℕ) (s : Slots α) (idx : ℕ) :
    (riseTo cmp start x fuel s idx).root = rise cmp start x fuel s.root idx := by
  induction fuel generalizing s idx with
  | zero => rfl
  | succ fuel ih =>
    unfold riseTo rise
    split_ifs with hup
    · exact ih _ _
    · rfl

end Root

section Array
variable {q : Queue α κ}

omit [Preorder κ] in
theorem downheap_heap (start : ℕ) (x : α) : (q.downheap compare start x).heap = q.heap.downheap (q.cmp compare) start x := by
  simp only [Queue.heap, downheap, Heap.downheap, riseTo_root, ← sinkTo_root (q.cmp compare) q.elements x]

omit [Preorder κ] in
theorem queueFixFrom_heap (i : ℕ) (q : Queue α κ) : (queueFixFrom compare i q).heap = Heap.fixFrom (q.cmp compare) i q.heap ∧
      (queueFixFrom compare i q).key = q.key ∧ (queueFixFrom compare i q).held = q.held := by
  induction i generalizing q with
  | zero => exact ⟨rfl, rfl, rfl⟩
  | succ i ih =>
    obtain ⟨hheap, hrest⟩ := ih (q.downheap compare (i + 1) (q.slots.root (i + 1)))
    rw [downheap_heap] at hheap
    exact ⟨hheap, hrest⟩

variable {compare} in
omit [DecidableEq α] in
theorem follows_cmp (hcmp : Follows compare id) : Follows (q.cmp compare) q.key :=
  ⟨fun _ _ => hcmp.le _ _, fun _ _ => hcmp.ge _ _⟩

/-- Fixing orders any array. -/
theorem queueFix_spec (hcmp : Follows compare id) (q : Queue α κ) :
    OrderedFrom q.key 1 q.elements (q.queueFix compare).slots.root ∧ (q.queueFix compare).elements = q.elements ∧
      (places q.elements (q.queueFix compare).slots.root).Perm (places q.elements q.slots.root) := by
  have hheap : (q.queueFix compare).heap = Heap.fix (q.cmp compare) q.heap := (queueFixFrom_heap compare _ q).1
  obtain ⟨hord, hn, hperm⟩ := fix_spec (follows_cmp hcmp) q.heap
  rw [← hheap] at hord hn hperm
  have hn : (q.queueFix compare).elements = q.elements := hn
  have hperm : (places (q.queueFix compare).elements (q.queueFix compare).slots.root).Perm (places q.elements q.slots.root) :=
    hperm
  exact ⟨hord, hn, hn ▸ hperm⟩

/-- A removal takes one element out and leaves the others in order. -/
theorem queueRemove_spec {idx : ℕ} (hcmp : Follows compare id) (hgap : Gap q.key 1 q.elements q.slots.root idx)
    (hidx : 1 ≤ idx ∧ idx ≤ q.elements) (hfits : q.Fits idx) :
    OrderedFrom q.key 1 (q.elements - 1) (q.queueRemove compare idx).slots.root ∧
      (q.slots.root idx :: places (q.elements - 1) (q.queueRemove compare idx).slots.root).Perm
        (places q.elements q.slots.root) := by
  set g : Heap α := ⟨q.slots.root, q.elements - 1⟩ with hg
  have hn : g.elements = q.elements - 1 := rfl
  have hroot : (q.queueRemove compare idx).slots.root = (g.downheap (q.cmp compare) idx (q.slots.root q.elements)).root :=
    congrArg Heap.root (downheap_heap compare (q := { q with elements := q.elements - 1 }) idx (q.slots.root q.elements))
  have hdrop := places_drop q.slots.root hidx
  rcases hidx.2.lt_or_eq with hlt | heq
  · rw [hroot]
    constructor
    · refine downheap_ordered_all (follows_cmp hcmp) (h := g) hidx.1 (by omega)
        ⟨fun c hc => ?_, fun hs c hc => ?_⟩ _ fun hs => ?_
      · exact hgap.off c (by omega)
      · exact hgap.across hs c (by omega)
      · exact hfits (by omega) hlt
    · exact ((downheap_contents (q.cmp compare) ⟨hidx.1, by omega⟩ _).cons _).trans hdrop
  · -- the last element is removed
    rw [downheap_of_lt _ (by omega)] at hroot
    rw [hroot]
    constructor
    · intro c hc hs
      have hc : c ≤ q.elements - 1 := hc
      rw [update_of_ne (by omega), update_of_ne (by omega)]
      exact hgap.off c (by omega) (by omega) (by omega) hs
    · exact hdrop

end Array

/-! ## Places -/

omit [DecidableEq α] [Preorder κ] in
/-- Every element knows its place, but for the hole; `x` is not in the array. -/
structure Placed (n : ℕ) (x : α) (hole : ℕ) (s : Slots α) : Prop where
  pos : ∀ i, 1 ≤ i → i ≤ n → i ≠ hole → s.pos (s.root i) = i
  ne : ∀ i, 1 ≤ i → i ≤ n → i ≠ hole → s.root i ≠ x

section Placed
variable (cmp : α → α → Int) {n : ℕ} {x : α} {idx : ℕ} {s : Slots α}

theorem Placed.move (h : Placed n x idx s) {j : ℕ} (hj : 1 ≤ j ∧ j ≤ n) (hne : j ≠ idx) :
    Placed n x j (s.put idx (s.root j)) := by
  refine ⟨fun i h1 hn hij => ?_, fun i h1 hn hij => ?_⟩
  · rcases eq_or_ne i idx with rfl | hi
    · simp [Slots.put]
    · have hroot : s.root i ≠ s.root j := fun heq => hij (by rw [← h.pos i h1 hn hi, heq, h.pos j hj.1 hj.2 hne])
      simp only [Slots.put, update_of_ne hi, update_of_ne hroot]
      exact h.pos i h1 hn hi
  · rcases eq_or_ne i idx with rfl | hi
    · simpa [Slots.put] using h.ne j hj.1 hj.2 hne
    · simpa [Slots.put, hi] using h.ne i h1 hn hi

theorem Placed.fill (h : Placed n x idx s) (i : ℕ) (h1 : 1 ≤ i) (hn : i ≤ n) :
    (s.put idx x).pos ((s.put idx x).root i) = i := by
  rcases eq_or_ne i idx with rfl | hi
  · simp [Slots.put]
  · simp only [Slots.put, update_of_ne hi, update_of_ne (h.ne i h1 hn hi)]
    exact h.pos i h1 hn hi

theorem sinkTo_placed (fuel : ℕ) (first : Bool) (h : Placed n x idx s) (hidx : 1 ≤ idx) :
    let r := sinkTo cmp n x fuel first s idx
    (r.2 = idx ∨ r.2 ≤ n) ∧ Placed n x r.2 r.1 := by
  induction fuel generalizing first s idx with
  | zero => exact ⟨.inl rfl, h⟩
  | succ fuel ih =>
    unfold sinkTo
    dsimp only
    split_ifs with hhalf
    · exact ⟨.inl rfl, h⟩
    · have hnext := child_half cmp n s.root idx
      have hle := child_le cmp s.root hhalf
      obtain ⟨hbound, hplaced⟩ := ih false (h.move ⟨by omega, hle⟩ (by omega)) (by omega)
      exact ⟨.inr (by omega), hplaced⟩
    · exact ⟨.inl rfl, h⟩

theorem riseTo_pos (start fuel : ℕ) (h : Placed n x idx s) (hidx : idx ≤ n ∨ idx / 2 ≤ start) :
    ∀ i, 1 ≤ i → i ≤ n → (riseTo cmp start x fuel s idx).pos ((riseTo cmp start x fuel s idx).root i) = i := by
  induction fuel generalizing s idx with
  | zero => exact h.fill
  | succ fuel ih =>
    unfold riseTo
    split_ifs with hup
    · exact ih (h.move ⟨by omega, by omega⟩ (by omega)) (by omega)
    · exact h.fill

end Placed

section Steps
variable {q : Queue α κ}

omit [Preorder κ] in
theorem downheap_pos {start : ℕ} {x : α} (hstart : 1 ≤ start) (h : Placed q.elements x start q.slots) : ∀ i, 1 ≤ i →
    i ≤ q.elements → (q.downheap compare start x).slots.pos ((q.downheap compare start x).slots.root i) = i := by
  obtain ⟨hbound, hplaced⟩ := sinkTo_placed (q.cmp compare) q.elements true h hstart
  exact riseTo_pos (q.cmp compare) start q.elements hplaced (by omega)

omit [DecidableEq α] in
theorem Filled.law (h : q.Filled) (hord : OrderedFrom q.key 1 q.elements q.slots.root) : q.Law :=
  ⟨h, hord, fun _ hx => top_le hord (h.contents.mem_iff.mpr hx)⟩

omit [DecidableEq α] [Preorder κ] in
theorem Filled.inj (h : q.Filled) {i j : ℕ} (hi : 1 ≤ i ∧ i ≤ q.elements) (hj : 1 ≤ j ∧ j ≤ q.elements)
    (heq : q.slots.root i = q.slots.root j) : i = j := by
  rw [← h.pos i hi.1 hi.2, heq, h.pos j hj.1 hj.2]

omit [DecidableEq α] [Preorder κ] in
theorem Filled.nodup (h : q.Filled) : q.held.Nodup := by
  refine h.contents.nodup_iff.mp (List.Nodup.map_on (fun i hi j hj heq => ?_) (List.nodup_range' ..))
  have hi := List.mem_range'_1.mp hi
  have hj := List.mem_range'_1.mp hj
  exact h.inj ⟨hi.1, by omega⟩ ⟨hj.1, by omega⟩ heq

theorem Law.insert (hcmp : Follows compare id) (h : q.Law) {x : α} (hx : x ∉ q.held) : (q.queueInsert compare x).Law := by
  have hplaced : Placed (q.elements + 1) x (q.elements + 1) q.slots := by
    refine ⟨fun i h1 hn hne => h.pos i h1 (by omega), fun i h1 hn hne heq => hx ?_⟩
    exact h.contents.mem_iff.mp (mem_places.mpr ⟨i, h1, by omega, heq⟩)
  have hpos := riseTo_pos (q.cmp compare) 0 (q.elements + 1) hplaced (.inl le_rfl)
  have hheap : (q.queueInsert compare x).heap = q.heap.insert (q.cmp compare) x := by
    simp only [Queue.heap, queueInsert, Heap.insert, riseTo_root]
  have hord := insert_ordered (follows_cmp hcmp) (h := q.heap) h.ordered x
  have hperm := insert_contents (q.cmp compare) q.heap x
  rw [← hheap] at hord hperm
  exact Filled.law ⟨(hperm.trans (List.perm_append_singleton _ _)).trans (h.contents.cons x), hpos⟩ hord

theorem Filled.remove {idx : ℕ} (hcmp : Follows compare id) (h : q.Filled) (hgap : Gap q.key 1 q.elements q.slots.root idx)
    (hidx : 1 ≤ idx ∧ idx ≤ q.elements) (hfits : q.Fits idx) : (q.queueRemove compare idx).Law := by
  have hplaced : Placed (q.elements - 1) (q.slots.root q.elements) idx q.slots := by
    refine ⟨fun i h1 hn _ => h.pos i h1 (by omega), fun i h1 hn _ heq => ?_⟩
    have hlast := h.inj ⟨h1, by omega⟩ ⟨by omega, le_rfl⟩ heq
    omega
  have hpos := downheap_pos compare (q := { q with elements := q.elements - 1 }) hidx.1 hplaced
  have hmem : q.slots.root idx ∈ q.held := h.contents.mem_iff.mp (mem_places.mpr ⟨idx, hidx.1, hidx.2, rfl⟩)
  obtain ⟨hord, hperm⟩ := queueRemove_spec compare hcmp hgap hidx hfits
  refine Filled.law ⟨?_, hpos⟩ hord
  exact (List.perm_cons _).mp (hperm.trans (h.contents.trans (List.perm_cons_erase hmem)))

theorem Law.replace {idx : ℕ} (hcmp : Follows compare id) (h : q.Law) (k : κ) (hidx : 1 ≤ idx ∧ idx ≤ q.elements)
    (hfits : q.Fits idx) : (queueReplace compare { q with key := update q.key (q.slots.root idx) k } idx).Law := by
  set q' : Queue α κ := { q with key := update q.key (q.slots.root idx) k } with hq'
  have hfilled : q'.Filled := ⟨h.contents, h.pos⟩
  have hkey {c : ℕ} (h1 : 1 ≤ c) (hn : c ≤ q.elements) (hne : c ≠ idx) : q'.key (q.slots.root c) = q.key (q.slots.root c) :=
    update_of_ne (fun heq => hne (h.inj ⟨h1, hn⟩ hidx heq)) _ _
  refine Law.insert compare hcmp (hfilled.remove compare hcmp ⟨fun c hc hne hhalf hs => ?_, fun hs c hc hchalf => ?_⟩ hidx
    fun h1 hlt => ?_) (List.Nodup.not_mem_erase h.nodup)
  · have hc : c ≤ q.elements := hc
    rw [hkey hs (by omega) hhalf, hkey (by omega) hc hne]
    exact h.ordered c hc hs
  · rw [hkey hs (by omega) (by omega), hkey (by omega) hc (by omega)]
    subst hchalf
    exact (h.ordered (c / 2) (by omega) hs).trans (h.ordered c hc (by omega))
  · have hlt : idx < q.elements := hlt
    rw [hkey (by omega) (by omega) (by omega), hkey (by omega) le_rfl (by omega)]
    exact hfits h1 hlt

omit [Preorder κ] in
theorem Filled.fixFrom_pos (i : ℕ) (hi : i ≤ q.elements) (h : q.Filled) : ∀ j, 1 ≤ j → j ≤ q.elements →
    (queueFixFrom compare i q).slots.pos ((queueFixFrom compare i q).slots.root j) = j := by
  induction i generalizing q with
  | zero => exact h.pos
  | succ i ih =>
    have hplaced : Placed q.elements (q.slots.root (i + 1)) (i + 1) q.slots :=
      ⟨fun j h1 hn _ => h.pos j h1 hn, fun j h1 hn hne heq => hne (h.inj ⟨h1, hn⟩ ⟨by omega, hi⟩ heq)⟩
    have hperm := downheap_contents (q.cmp compare) (h := q.heap) ⟨Nat.succ_pos i, hi⟩ (q.slots.root (i + 1))
    rw [← downheap_heap, show q.slots.root (i + 1) = q.heap.root (i + 1) from rfl, update_eq_self] at hperm
    exact ih (q := q.downheap compare (i + 1) (q.slots.root (i + 1))) (Nat.le_of_succ_le hi)
      ⟨hperm.trans h.contents, downheap_pos compare (Nat.succ_pos i) hplaced⟩

theorem Filled.fix (hcmp : Follows compare id) (h : q.Filled) : (q.queueFix compare).Law := by
  obtain ⟨hord, hn, hperm⟩ := queueFix_spec compare hcmp q
  obtain ⟨-, hkey, hheld⟩ := queueFixFrom_heap compare (q.elements / 2) q
  have hkey : (q.queueFix compare).key = q.key := hkey
  have hheld : (q.queueFix compare).held = q.held := hheld
  refine Filled.law ⟨?_, ?_⟩ ?_
  · rw [hn, hheld]
    exact hperm.trans h.contents
  · rw [hn]
    exact h.fixFrom_pos compare (q.elements / 2) (by omega)
  · rw [hn, hkey]
    exact hord

end Steps

def empty (slots : Slots α) (key : α → κ) : Queue α κ := ⟨slots, 0, key, []⟩

/-- **Priority queue law.** If no element is inserted twice and the last one fits where a removal puts it, the array is a heap
of the elements held, and each knows its place. -/
theorem queue_law (hcmp : Follows compare id) (slots : Slots α) (key : α → κ) (ops : List (Op α κ)) (q : Queue α κ)
    (hok : Along (step compare) Sifts (empty slots key) ops) (hrun : runOps (step compare) (empty slots key) ops = some q) :
    q.Law := by
  refine Along.invariant Law (fun q op q' h hok hstep => ?_)
    (Filled.law ⟨.refl _, fun i h1 hn => ?_⟩ fun c hc hs => ?_) hok hrun
  · cases op with
    | insert x =>
      cases hstep
      exact h.insert compare hcmp hok
    | remove idx =>
      obtain ⟨hidx, hq⟩ := Option.ite_none_right_eq_some.mp hstep
      cases hq
      refine h.remove compare hcmp ⟨fun c hc _ _ hs => h.ordered c hc hs, fun hs c hc hchalf => ?_⟩ hidx hok
      subst hchalf
      exact (h.ordered (c / 2) (by omega) hs).trans (h.ordered c hc (by omega))
    | replace idx k =>
      obtain ⟨hidx, hq⟩ := Option.ite_none_right_eq_some.mp hstep
      cases hq
      exact h.replace compare hcmp k hidx hok
    | fix key =>
      cases hstep
      exact Filled.fix compare hcmp ⟨h.contents, h.pos⟩
  · have hn : i ≤ 0 := hn
    omega
  · have hc : c ≤ 0 := hc
    omega

def compareNat (a b : ℕ) : Int := a - b

theorem compareNat_follows : Follows compareNat id :=
  ⟨fun a b h => by simp only [compareNat] at h; simp only [id]; omega, fun a b h =>
    by simp only [compareNat] at h; simp only [id]; omega⟩

def noSlots : Slots ℕ := ⟨fun _ => 0, fun _ => 0⟩

def topRemoved : List (Op ℕ ℕ) := [.insert 3, .insert 1, .insert 2, .replace 2 0, .remove 1]

theorem topRemoved_law : ∃ q, runOps (step compareNat) (empty noSlots id) topRemoved = some q ∧ q.Law :=
  ⟨_, rfl, queue_law compareNat compareNat_follows noSlots id topRemoved _ (by decide) rfl⟩

theorem middle_removed : ∃ q, runOps (step compareNat) (empty noSlots id)
      [.insert 1, .insert 10, .insert 2, .insert 11, .insert 12, .insert 3, .insert 4, .remove 4] = some q ∧
    q.slots.root 2 = 10 ∧ q.slots.root 4 = 4 ∧ ¬ q.Law :=
  ⟨_, rfl, rfl, rfl, fun h => absurd (h.ordered 4 (by decide) (by decide)) (by decide)⟩

/-! ## Sorting -/

/-- The elements in the order in which `n` calls of `queue_remove_top` take them out. -/
def drain : ℕ → Queue α κ → List α
  | 0, _ => []
  | n + 1, q => q.slots.root 1 :: drain n (q.queueRemove compare 1)

theorem drain_spec (hcmp : Follows compare id) {n : ℕ} {q : Queue α κ} (hord : OrderedFrom q.key 1 q.elements q.slots.root)
    (hn : q.elements = n) : (drain compare n q).Perm (places q.elements q.slots.root) ∧
      (drain compare n q).Pairwise fun a b => q.key a ≤ q.key b := by
  induction n generalizing q with
  | zero => exact ⟨by rw [hn]; exact .refl _, .nil⟩
  | succ n ih =>
    obtain ⟨hrest, hout⟩ := queueRemove_spec compare hcmp (q := q) ⟨fun c hc _ _ hs => hord c hc hs, fun hs => by omega⟩
      ⟨le_rfl, by omega⟩ fun h1 => by omega
    obtain ⟨hperm, hsorted⟩ := ih (q := q.queueRemove compare 1) hrest (show q.elements - 1 = n by omega)
    have hall := (hperm.cons (q.slots.root 1)).trans hout
    refine ⟨hall, List.pairwise_cons.mpr ⟨fun x hx => ?_, hsorted⟩⟩
    exact top_le hord (hall.mem_iff.mp (List.mem_cons_of_mem _ hx))

/-- **Sorting**: `queue_fix` of an array with any elements in any order, then `queue_remove_top` until the queue is empty,
gives them all in order. -/
theorem fix_drain_sorts (hcmp : Follows compare id) (q : Queue α κ) :
    (drain compare q.elements (q.queueFix compare)).Perm (places q.elements q.slots.root) ∧
      (drain compare q.elements (q.queueFix compare)).Pairwise fun a b => q.key a ≤ q.key b := by
  obtain ⟨hord, hn, hperm⟩ := queueFix_spec compare hcmp q
  have hkey : (q.queueFix compare).key = q.key := (queueFixFrom_heap compare (q.elements / 2) q).2.1
  obtain ⟨hdrain, hsorted⟩ := drain_spec compare hcmp (q := q.queueFix compare) (by rw [hn, hkey]; exact hord) hn
  rw [hn] at hdrain
  rw [hkey] at hsorted
  exact ⟨hdrain.trans hperm, hsorted⟩

/-- An array with an element that is there twice. -/
theorem fix_drain_sorts_three : (drain compareNat 3 (queueFix compareNat ⟨⟨(3 / ·), fun _ => 0⟩, 3, id, []⟩)).Perm
    [3, 1, 1] :=
  (fix_drain_sorts compareNat compareNat_follows ⟨⟨(3 / ·), fun _ => 0⟩, 3, id, []⟩).1

end Queue

end TSpider.Mysys

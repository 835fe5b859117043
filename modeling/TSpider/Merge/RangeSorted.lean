import TSpider.Merge.Ranges
import TSpider.Merge.Sorted

/-!
# A sorted multi-range read is a merge, range by range

* `RangeScan.pending parts` : the rows that are still to come, from the buffers of the used partitions and from the
  partitions;
* `RangeScan.Inv` : the queue has the partitions whose buffer is in the current range, the others are parked under the number
  of a later one.
-/

namespace TSpider.Merge
open RangeScan Function List

open Lib (Heap)

variable {β ι ρ τ κ : Type*}

def Index.RangeLe [Preorder κ] (t : Index ρ τ κ) (a b : Nat × ρ) : Prop := a.1 < b.1 ∨ a.1 = b.1 ∧ t.key a.2 ≤ t.key b.2

def RangeScan.block (s : RangeScan ι ρ τ) (i : Nat) : List (Nat × ρ) := (s.recs i).row :: s.file i

def RangeScan.active (parts : List Nat) (s : RangeScan ι ρ τ) : List Nat := parts.filter s.used

def RangeScan.pending (parts : List Nat) (s : RangeScan ι ρ τ) : List (Nat × ρ) := (s.active parts).flatMap s.block

def RangeScan.topRow (s : RangeScan ι ρ τ) : Nat × ρ := (s.recs (s.queue.root 1)).row

/-- The state between two reads, up to the order of the queue. `n` is the number of ranges. -/
structure RangeScan.Inv [Preorder κ] (t : Index ρ τ κ) (n : Nat) (parts : List Nat) (s : RangeScan ι ρ τ) : Prop where
  sorted : ∀ i ∈ s.active parts, (s.block i).Pairwise t.RangeLe
  bound : ∀ i ∈ s.active parts, ∀ a ∈ s.block i, a.1 < n
  queue : s.queue.contents.Perm ((s.active parts).filter fun i => (s.recs i).row.1 = s.current)
  current_le : ∀ i ∈ s.active parts, s.current ≤ (s.recs i).row.1
  stock : ∀ i ∈ s.active parts, (s.recs i).row.1 ≠ s.current → s.stock i = rangeId (s.recs i).row.1

structure RangeScan.Returned [Preorder κ] (t : Index ρ τ κ) (n : Nat) (parts : List Nat) (s : RangeScan ι ρ τ) : Prop
    extends s.Inv t n parts where
  ordered : Heap.OrderedFrom (fun i => t.key (s.recs i).row.2) 1 s.queue.elements s.queue.root
  maxAtTop : s.maxAtTop = 1
  pos : 0 < s.queue.elements
  topEntry : s.topEntry = some (s.queue.root 1)

def RangeScan.fixed (s : RangeScan ι ρ τ) : Nat × Nat × (Nat → ι) × Bool := (s.startPart, s.endPart, s.ptr, s.readFirst)

/-- A read in `s` returns the row at the top of the state it leaves, with the pending rows as `Q` says. -/
def RangeScan.Yields [Preorder κ] (t : Index ρ τ κ) (n : Nat) (parts : List Nat) (s : RangeScan ι ρ τ)
    (Q : List (Nat × ρ) → Prop) (r : Option ρ × RangeScan ι ρ τ) : Prop :=
  ∃ s', r = (some s'.topRow.2, s') ∧ s'.Returned t n parts ∧ Q (s'.pending parts) ∧ s'.fixed = s.fixed

def RangeScan.SameAt (s s' : RangeScan ι ρ τ) (i : Nat) : Prop :=
  s'.recs i = s.recs i ∧ s'.file i = s.file i ∧ s'.used i = s.used i ∧ s'.stock i = s.stock i

theorem parts_eq_of_fixed {s s' : RangeScan ι ρ τ} (h : s'.fixed = s.fixed) (tbl : PartTable β ρ) :
    s'.parts tbl = s.parts tbl := by
  simp only [fixed, Prod.mk.injEq] at h
  simp only [parts, h.1, h.2.1]

/-! ## The queue -/

theorem contents_eq_nil {q : Heap Nat} : q.contents = [] ↔ q.elements = 0 := by
  simp [Heap.contents, Heap.places]

theorem rangeId_eq {k : Nat} (h : k < uintMax32) : rangeId k = k + 1 := by
  unfold rangeId uintMax32 at *
  omega

theorem mem_active {parts : List Nat} {s : RangeScan ι ρ τ} {i : Nat} :
    i ∈ s.active parts ↔ i ∈ parts ∧ s.used i = true := mem_filter

section Queue
variable [LinearOrder κ] {t : Index ρ τ κ} {n : Nat} {parts : List Nat} {s : RangeScan ι ρ τ}

theorem RangeScan.Inv.mem_queue (h : s.Inv t n parts) {i : Nat} :
    i ∈ s.queue.contents ↔ i ∈ s.active parts ∧ (s.recs i).row.1 = s.current := by
  rw [h.queue.mem_iff, mem_filter, decide_eq_true_iff]

theorem RangeScan.Inv.parked (h : s.Inv t n parts) (hzero : s.queue.elements = 0) {i : Nat} (hi : i ∈ s.active parts) :
    s.stock i = rangeId (s.recs i).row.1 := by
  refine h.stock i hi fun heq => ?_
  have := h.mem_queue.mpr ⟨hi, heq⟩
  rw [contents_eq_nil.mpr hzero] at this
  exact absurd this not_mem_nil

theorem RangeScan.Returned.top_mem (h : s.Returned t n parts) : s.queue.root 1 ∈ s.active parts ∧ s.topRow.1 = s.current :=
  h.mem_queue.mp (Heap.mem_places.mpr ⟨1, le_rfl, h.pos, rfl⟩)

/-- **The row at the top** comes first. -/
theorem RangeScan.Returned.topRow_le (h : s.Returned t n parts) {a : Nat × ρ} (ha : a ∈ s.pending parts) :
    t.RangeLe s.topRow a := by
  obtain ⟨i, hi, hmem⟩ := mem_flatMap.mp ha
  obtain ⟨htop, hcur⟩ := h.top_mem
  -- the row in the buffer of its partition
  have hbuf : t.RangeLe s.topRow (s.recs i).row := by
    rcases (h.current_le i hi).lt_or_eq with hlt | heq
    · exact .inl (hcur ▸ hlt)
    · exact .inr ⟨hcur.trans heq, Heap.top_le h.ordered (h.mem_queue.mpr ⟨hi, heq.symm⟩)⟩
  rcases mem_cons.mp hmem with rfl | hmem
  · exact hbuf
  · rcases hbuf, rel_of_pairwise_cons (h.sorted i hi) hmem with ⟨hbuf | ⟨heq, hbuf⟩, hlt | ⟨heq', hle⟩⟩
    · exact .inl (hbuf.trans hlt)
    · exact .inl (heq' ▸ hbuf)
    · exact .inl (heq ▸ hlt)
    · exact .inr ⟨heq.trans heq', hbuf.trans hle⟩

theorem returnTop_returned (h : s.Inv t n parts)
    (hord : Heap.OrderedFrom (fun i => t.key (s.recs i).row.2) 1 s.queue.elements s.queue.root) (hmax : s.maxAtTop = 1)
    (hpos : s.queue.elements ≠ 0) : s.Yields t n parts (· = s.pending parts) s.returnTop :=
  ⟨{ s with topEntry := some (s.queue.root 1) }, rfl,
    ⟨⟨h.sorted, h.bound, h.queue, h.current_le, h.stock⟩, hord, hmax, Nat.pos_of_ne_zero hpos, rfl⟩, rfl, rfl⟩

theorem fixAndReturn_returned (h : s.Inv t n parts) (hpos : s.queue.elements ≠ 0) :
    s.Yields t n parts (· = s.pending parts) (s.fixAndReturn t) := by
  obtain ⟨hord, helements, hperm⟩ := Heap.fix_spec
    (compare_follows t.ranged (s := { s.toOrderedScan with maxAtTop := 1 }) rfl) s.queue
  exact returnTop_returned
    ⟨h.sorted, h.bound, hperm.trans h.queue, h.current_le, h.stock⟩ (by rw [helements]; exact hord) rfl
    (by rw [helements]; exact hpos)

end Queue

/-! ## The loops -/

theorem foldl_smallest {f : Nat → Nat → Nat} {used : Nat → Bool} {stock : Nat → Nat}
    (hf : ∀ m i, f m i = if used i ∧ m > stock i then stock i else m) (l : List Nat) (m : Nat) :
    l.foldl f m ≤ m ∧ (∀ i ∈ l.filter used, l.foldl f m ≤ stock i) ∧
      (l.foldl f m = m ∨ ∃ i ∈ l.filter used, l.foldl f m = stock i) := by
  induction l generalizing m with
  | nil => exact ⟨le_rfl, by simp, .inl rfl⟩
  | cons j l ih =>
    obtain ⟨hle, hall, hex⟩ := ih (f m j)
    have hstep : f m j ≤ m := by
      rw [hf]
      split_ifs <;> omega
    refine ⟨hle.trans hstep, fun i hi => ?_, ?_⟩
    · obtain ⟨hmem, hused⟩ := mem_filter.mp hi
      rcases mem_cons.mp hmem with rfl | hmem
      · refine hle.trans ?_
        rw [hf]
        split_ifs with hif
        · exact le_rfl
        · exact not_lt.mp fun hlt => hif ⟨hused, hlt⟩
      · exact hall i (mem_filter.mpr ⟨hmem, hused⟩)
    · rcases hex with heq | ⟨i, hi, heq⟩
      · by_cases hif : used j ∧ m > stock j
        · exact .inr ⟨j, mem_filter.mpr ⟨mem_cons_self, hif.1⟩, heq.trans ((hf m j).trans (if_pos hif))⟩
        · exact .inl (heq.trans ((hf m j).trans (if_neg hif)))
      · obtain ⟨hmem, hused⟩ := mem_filter.mp hi
        exact .inr ⟨i, mem_filter.mpr ⟨mem_cons_of_mem _ hmem, hused⟩, heq⟩

theorem smallestStock_spec (parts : List Nat) (s : RangeScan ι ρ τ) :
    (∀ i ∈ s.active parts, s.smallestStock parts ≤ s.stock i) ∧
      (s.smallestStock parts = uintMax32 ∨ ∃ i ∈ s.active parts, s.smallestStock parts = s.stock i) :=
  (foldl_smallest (fun _ _ => rfl) parts uintMax32).2

theorem collect_spec {add : Heap Nat → Nat → Heap Nat} (hadd : ∀ q i, (add q i).contents.Perm (q.contents ++ [i]))
    (smallest : Nat) {parts : List Nat} (hnodup : parts.Nodup) (s : RangeScan ι ρ τ) :
    ∃ q stock, s.collect add smallest parts = { s with queue := q, stock := stock } ∧
      q.contents.Perm (s.queue.contents ++ (s.active parts).filter fun i => s.stock i = smallest) ∧
      ∀ i, s.stock i ≠ smallest → stock i = s.stock i := by
  induction parts generalizing s with
  | nil => exact ⟨s.queue, s.stock, rfl, by simp [active], fun _ _ => rfl⟩
  | cons j parts ih =>
    obtain ⟨hj, hnodup⟩ := nodup_cons.mp hnodup
    rw [collect]
    split_ifs with hif
    · obtain ⟨q, stock, heq, hperm, hstock⟩ := ih hnodup
        { s with stock := update s.stock j 0, queue := add s.queue j }
      refine ⟨q, stock, heq, ?_, fun i hi => ?_⟩
      · have hrest : ((parts.filter s.used).filter fun i => update s.stock j 0 i = smallest) =
            (parts.filter s.used).filter fun i => s.stock i = smallest := by
          refine filter_congr fun i hi => ?_
          have hij : i ≠ j := by
            rintro rfl
            exact hj (mem_of_mem_filter hi)
          rw [update_of_ne hij]
        refine hperm.trans ?_
        simp only [active, hrest, filter_cons, hif.1, hif.2, if_true, decide_true]
        refine ((hadd _ _).append_right _).trans ?_
        rw [append_assoc, singleton_append]
      · have hij : i ≠ j := fun hij => hi (hij ▸ hif.2)
        have hsame : update s.stock j 0 i = s.stock i := update_of_ne hij _ _
        exact (hstock i fun h => hi (hsame.symm.trans h)).trans hsame
    · obtain ⟨q, stock, heq, hperm, hstock⟩ := ih hnodup s
      refine ⟨q, stock, heq, hperm.trans ?_, hstock⟩
      rw [active, active, filter_cons]
      split_ifs with hused
      · rw [filter_cons_of_neg (by simpa using fun h => hif ⟨hused, h⟩)]
      · exact .refl _

theorem seekRange_eq {k c fuel : Nat} (hk : k < uintMax32) (hc : c ≤ k) (hfuel : k - c ≤ fuel) :
    seekRange (rangeId k) fuel c = k := by
  induction fuel generalizing c with
  | zero =>
    rw [seekRange]
    omega
  | succ fuel ih =>
    rw [seekRange, rangeId_eq hk, rangeId_eq (hc.trans_lt hk)]
    split_ifs with hlt
    · rw [← rangeId_eq hk]
      exact ih (by omega) (by omega)
    · omega

/-- What the first loop leaves: each used partition has its first row in the buffer, and is queued if that is of the current
range, or else has its number in `m_stock_range_seq`. -/
structure RangeScan.Filled (parts : List Nat) (smallest : Nat) (s : RangeScan ι ρ τ) (smallest' : Nat)
    (s' : RangeScan ι ρ τ) :
    Prop where
  fixed : s'.fixed = s.fixed
  current : s'.current = s.current
  other : ∀ i, i ∉ parts → s.SameAt s' i
  used : ∀ i ∈ parts, s'.used i = (s.used i && !(s.file i).isEmpty)
  block : ∀ i ∈ s'.active parts, s'.block i = s.file i
  stock : ∀ i ∈ s'.active parts, s'.stock i = rangeId (s'.recs i).row.1
  queue : s'.queue.contents = s.queue.contents ++
    (s'.active parts).filter fun i => rangeId (s'.recs i).row.1 = rangeId s.current
  smallest_le : ∀ i ∈ s'.active parts, rangeId (s'.recs i).row.1 ≠ rangeId s.current → smallest' ≠ 0 ∧ smallest' ≤ s'.stock i
  smallest_mono : smallest ≠ 0 → smallest' ≠ 0 ∧ smallest' ≤ smallest
  smallest_mem : smallest' = smallest ∨ ∃ i ∈ s'.active parts, smallest' = s'.stock i

section Fill
variable {t : Index ρ τ κ} {parts : List Nat} {s : RangeScan ι ρ τ}

theorem setRef_eq (t : Index ρ τ κ) (s : RangeScan ι ρ τ) (part : Nat) :
    ∃ recs, s.setRef t part = { s with recs := recs } ∧ ∀ i, (recs i).row = (s.recs i).row ∧
    (i ≠ part → recs i = s.recs i) := by
  unfold setRef
  split_ifs
  · exact ⟨s.recs, rfl, fun _ => ⟨rfl, fun _ => rfl⟩⟩
  · refine ⟨_, rfl, fun i => ⟨?_, fun hi => update_of_ne hi _ _⟩⟩
    by_cases hi : i = part
    · rw [hi, update_self]
    · rw [update_of_ne hi]

theorem RangeScan.Filled.cons {j m m₁ m' : Nat} {s₁ s' : RangeScan ι ρ τ} (h : RangeScan.Filled [j] m s m₁ s₁)
    (h' : RangeScan.Filled parts m₁ s₁ m' s') (hj : j ∉ parts) : RangeScan.Filled (j :: parts) m s m' s' := by
  obtain ⟨hrecs, hfile, hused, hstock⟩ := h'.other j hj
  have hother : ∀ i, i ≠ j → s.SameAt s₁ i :=
    fun i hi => h.other i (by simpa using hi)
  have hne : ∀ i ∈ parts, i ≠ j := fun i hi hij => hj (hij ▸ hi)
  have hblock : s'.block j = s₁.block j := by rw [RangeScan.block, RangeScan.block, hrecs, hfile]
  have hone : s'.active [j] = s₁.active [j] := by simp only [RangeScan.active, filter_cons, hused, filter_nil]
  have happ : s'.active (j :: parts) = s₁.active [j] ++ s'.active parts := by
    rw [← hone, RangeScan.active, RangeScan.active, RangeScan.active, ← filter_append, singleton_append]
  have hself : ∀ i ∈ s₁.active [j], i = j := fun i hi => mem_singleton.mp (mem_active.mp hi).1
  -- what holds of the first partition after its step, and of the others at the end
  have hcases : ∀ P : Nat → Prop, (j ∈ s₁.active [j] → P j) → (∀ i ∈ s'.active parts, P i) →
      ∀ i ∈ s'.active (j :: parts), P i := by
    intro P hfirst hrest i hi
    rw [happ, mem_append] at hi
    rcases hi with hi | hi
    · obtain rfl := hself i hi
      exact hfirst hi
    · exact hrest i hi
  refine ⟨h'.fixed.trans h.fixed, h'.current.trans h.current, fun i hi => ?_, fun i hi => ?_, hcases _ ?_ ?_,
    hcases _ ?_ ?_, ?_,
    hcases _ ?_ ?_, ?_, ?_⟩
  · rw [mem_cons, not_or] at hi
    obtain ⟨hij, hi⟩ := hi
    obtain ⟨h1, h2, h3, h4⟩ := h'.other i hi
    obtain ⟨g1, g2, g3, g4⟩ := hother i hij
    exact ⟨h1.trans g1, h2.trans g2, h3.trans g3, h4.trans g4⟩
  · rcases mem_cons.mp hi with rfl | hi
    · rw [hused, h.used i (mem_singleton.mpr rfl)]
    · obtain ⟨-, g2, g3, -⟩ := hother i (hne i hi)
      rw [h'.used i hi, g2, g3]
  · exact fun hi => hblock.trans (h.block j hi)
  · exact fun i hi => (h'.block i hi).trans (hother i (hne i (mem_active.mp hi).1)).2.1
  · intro hi
    rw [hstock, hrecs, h.stock j hi]
  · exact h'.stock
  · have hfilter : ((s₁.active [j]).filter fun i => rangeId (s'.recs i).row.1 = rangeId s.current) =
        (s₁.active [j]).filter fun i => rangeId (s₁.recs i).row.1 = rangeId s.current := by
      refine filter_congr fun i hi => ?_
      rw [hself i hi, hrecs]
    rw [h'.queue, h.queue, happ, filter_append, hfilter, h.current, append_assoc]
  · intro hi hid
    rw [hrecs] at hid
    rw [hstock]
    obtain ⟨hzero, hle⟩ := h.smallest_le j hi hid
    exact ⟨(h'.smallest_mono hzero).1, (h'.smallest_mono hzero).2.trans hle⟩
  · intro i hi hid
    exact h'.smallest_le i hi (by rwa [h.current])
  · intro hzero
    obtain ⟨h1, hle⟩ := h.smallest_mono hzero
    exact ⟨(h'.smallest_mono h1).1, (h'.smallest_mono h1).2.trans hle⟩
  · rcases h'.smallest_mem with heq | ⟨i, hi, heq⟩
    · rcases h.smallest_mem with heq' | ⟨i, hi, heq'⟩
      · exact .inl (heq.trans heq')
      · refine .inr ⟨i, by rw [happ]; exact mem_append_left _ hi, ?_⟩
        rw [heq, heq', hself i hi, hstock]
    · exact .inr ⟨i, by rw [happ]; exact mem_append_right _ hi, heq⟩

theorem RangeScan.Filled.skip {j : Nat} {s₁ : RangeScan ι ρ τ} (m : Nat) (hfixed : s₁.fixed = s.fixed)
    (hcurrent : s₁.current = s.current) (hother : ∀ i, i ≠ j → s.SameAt s₁ i)
    (hused : s₁.used j = false) (hold : (s.used j && !(s.file j).isEmpty) = false) (hqueue : s₁.queue = s.queue) :
    Filled [j] m s m s₁ := by
  have hnil : s₁.active [j] = [] := by simp [active, hused]
  refine ⟨hfixed, hcurrent, fun i hi => hother i (by simpa using hi), ?_, ?_, ?_, ?_, ?_, fun h => ⟨h, le_rfl⟩, .inl rfl⟩
  · intro i hi
    rw [mem_singleton.mp hi, hused, hold]
  · simp [hnil]
  · simp [hnil]
  · simp [hnil, hqueue]
  · simp [hnil]

theorem RangeScan.Filled.row {j m m₁ : Nat} {s₁ : RangeScan ι ρ τ} {a : Nat × ρ} {as : List (Nat × ρ)}
    (hfile : s.file j = a :: as) (hold : s.used j = true) (hfixed : s₁.fixed = s.fixed) (hcurrent : s₁.current = s.current)
    (hother : ∀ i, i ≠ j → s.SameAt s₁ i)
    (hused : s₁.used j = true) (hrow : (s₁.recs j).row = a) (hrest : s₁.file j = as) (hstock : s₁.stock j = rangeId a.1)
    (hqueue : s₁.queue.contents = s.queue.contents ++ if rangeId a.1 = rangeId s.current then [j] else [])
    (hle : rangeId a.1 ≠ rangeId s.current → m₁ ≠ 0 ∧ m₁ ≤ rangeId a.1) (hmono : m ≠ 0 → m₁ ≠ 0 ∧ m₁ ≤ m)
    (hmem : m₁ = m ∨ m₁ = rangeId a.1) : RangeScan.Filled [j] m s m₁ s₁ := by
  have hone : s₁.active [j] = [j] := by simp [RangeScan.active, hused]
  refine ⟨hfixed, hcurrent, fun i hi => hother i (by simpa using hi), ?_, ?_, ?_, ?_, ?_, hmono, ?_⟩
  · intro i hi
    rw [mem_singleton.mp hi, hused, hold, hfile]
    rfl
  · intro i hi
    rw [hone] at hi
    rw [mem_singleton.mp hi, RangeScan.block, hrow, hrest, hfile]
  · intro i hi
    rw [hone] at hi
    rw [mem_singleton.mp hi, hstock, hrow]
  · rw [hqueue, hone, filter_cons, hrow]
    split_ifs <;> simp_all
  · intro i hi hid
    rw [hone] at hi
    rw [mem_singleton.mp hi, hrow] at hid
    rw [mem_singleton.mp hi, hstock]
    exact hle hid
  · rw [hone]
    exact hmem.imp_right fun h => ⟨j, mem_singleton.mpr rfl, h.trans hstock.symm⟩

/-- **The first loop.** -/
theorem fill_spec (t : Index ρ τ κ) (hnodup : parts.Nodup) (m : Nat) (s : RangeScan ι ρ τ)
    (hzero : ∀ i ∈ parts, s.used i = true → ∀ a ∈ s.file i, rangeId a.1 ≠ 0) :
    Filled parts m s (s.fill t parts m).1 (s.fill t parts m).2 := by
  induction parts generalizing m s with
  | nil =>
    refine ⟨rfl, rfl, fun _ _ => ⟨rfl, rfl, rfl, rfl⟩, ?_, ?_, ?_, ?_, ?_, fun h => ⟨h, le_rfl⟩, .inl rfl⟩ <;>
      simp [active, fill]
  | cons j parts ih =>
    obtain ⟨hj, hnodup⟩ := nodup_cons.mp hnodup
    -- the step of `j` leaves what the others need
    have hkeep : ∀ {s₁ : RangeScan ι ρ τ} {m₁ : Nat}, Filled [j] m s m₁ s₁ →
        ∀ i ∈ parts, s₁.used i = true → ∀ a ∈ s₁.file i, rangeId a.1 ≠ 0 := by
      intro s₁ m₁ h i hi hused
      obtain ⟨-, hfile, hold, -⟩ := h.other i (by rintro hij; exact hj (mem_singleton.mp hij ▸ hi))
      rw [hfile]
      exact hzero i (mem_cons_of_mem _ hi) (hold ▸ hused)
    have hcons : ∀ {s₁ : RangeScan ι ρ τ} {m₁ : Nat}, Filled [j] m s m₁ s₁ →
        Filled (j :: parts) m s (s₁.fill t parts m₁).1 (s₁.fill t parts m₁).2 :=
      fun h => .cons h (ih hnodup _ _ (hkeep h)) hj
    rw [fill]
    by_cases hused : s.used j = true
    · rw [if_pos hused]
      cases hfile : s.file j with
      | nil =>
        refine hcons ?_
        exact .skip m rfl rfl (fun i hi => ⟨rfl, rfl, update_of_ne hi _ _, rfl⟩) (update_self ..)
          (by rw [hfile]; simp) rfl
      | cons a as =>
        dsimp only
        by_cases hid : rangeId a.1 = rangeId s.current
        · -- a row of the current range
          rw [if_neg fun h => h hid]
          obtain ⟨recs, href, hrecs⟩ := setRef_eq t
            { s.store j j a as with stock := update s.stock j (rangeId a.1) } j
          have hrow : (recs j).row = a := by rw [(hrecs j).1]; simp [store]
          rw [href]
          refine hcons ?_
          refine .row hfile hused rfl rfl (fun i hi => ⟨?_, ?_, rfl, update_of_ne hi _ _⟩) hused hrow ?_
            (update_self ..) ?_ (absurd hid) (fun h => ⟨h, le_rfl⟩) (.inl rfl)
          · exact ((hrecs i).2 hi).trans (by simp [store, hi])
          · simp [store, hi]
          · simp [store]
          · rw [if_pos hid]
            exact Heap.places_push s.queue.elements s.queue.root j
        · -- a row of a later range
          rw [if_pos (show rangeId a.1 ≠ rangeId (s.store j j a as).current from hid)]
          have hne : rangeId a.1 ≠ 0 := hzero j mem_cons_self hused a (by rw [hfile]; exact mem_cons_self)
          refine hcons ?_
          refine .row hfile hused rfl rfl (fun i hi => ⟨?_, ?_, rfl, update_of_ne hi _ _⟩) hused ?_ ?_
            (update_self ..) ?_ (fun _ => ?_) (fun h => ?_) ?_
          · simp [store, hi]
          · simp [store, hi]
          · simp [store]
          · simp [store]
          · rw [if_neg hid, append_nil]
            rfl
          · split_ifs <;> omega
          · split_ifs <;> omega
          · split_ifs <;> simp
    · have hfalse := eq_false_of_ne_true hused
      rw [if_neg hused]
      exact hcons (.skip m rfl rfl (fun _ _ => ⟨rfl, rfl, rfl, rfl⟩) hfalse (by rw [hfalse]; rfl) rfl)

end Fill

/-! ## One read -/

section Step
variable [LinearOrder κ] {t : Index ρ τ κ} {n : Nat} {parts : List Nat} {s : RangeScan ι ρ τ} {tbl : PartTable β ρ}
  (hn : n < uintMax32) (hnodup : parts.Nodup)
include hn hnodup

/-- **The next range**: with the queue empty, the partitions parked under the smallest number enter it. -/
theorem collect_returned (h : s.Inv t n parts) (hzero : s.queue.elements = 0)
    {add : Heap Nat → Nat → Heap Nat} (hadd : ∀ q i, (add q i).contents.Perm (q.contents ++ [i])) {m : Nat}
    (hle : ∀ i ∈ s.active parts, m ≤ s.stock i) (hmem : ∃ i ∈ s.active parts, m = s.stock i) :
    (s.collect add m parts).queue.elements ≠ 0 ∧ s.Yields t n parts (· = s.pending parts) (({ s.collect add m parts with
      current := seekRange m m (s.collect add m parts).current } : RangeScan ι ρ τ).fixAndReturn t) := by
  obtain ⟨q, stock, hcollect, hperm, hstock⟩ := collect_spec hadd m hnodup s
  have hlt : ∀ i ∈ s.active parts, (s.recs i).row.1 < uintMax32 :=
    fun i hi => (h.bound i hi _ mem_cons_self).trans hn
  have hnum :=  fun i hi => (h.parked hzero hi).trans (rangeId_eq (hlt i hi))
  obtain ⟨j, hj, hm⟩ := hmem
  set k := (s.recs j).row.1 with hk
  have hseek : seekRange m m s.current = k := by
    rw [hm, h.parked hzero hj]
    exact seekRange_eq (hlt j hj) (h.current_le j hj) (by rw [rangeId_eq (hlt j hj)]; omega)
  have hmk : m = k + 1 := hm.trans (hnum j hj)
  have hqueue : q.contents.Perm ((s.active parts).filter fun i => (s.recs i).row.1 = k) := by
    rw [contents_eq_nil.mpr hzero, nil_append] at hperm
    refine hperm.trans (.of_eq (filter_congr fun i hi => ?_))
    rw [hnum i hi, hmk]
    simp
  rw [hcollect]
  rw [hseek]
  have hne : q.elements ≠ 0 := by
    intro hq
    have : j ∈ q.contents := hqueue.mem_iff.mpr (mem_filter.mpr ⟨hj, by simp [hk]⟩)
    rw [contents_eq_nil.mpr hq] at this
    exact not_mem_nil this
  refine ⟨hne, fixAndReturn_returned
    ⟨h.sorted, h.bound, hqueue, fun i hi => ?_, fun i hi hik => ?_⟩ hne⟩
  · have := hle i hi
    rw [hnum i hi, hmk] at this
    exact Nat.le_of_succ_le_succ this
  · refine (hstock i fun him => hik ?_).trans (h.parked hzero hi)
    rw [hnum i hi, hmk] at him
    exact Nat.succ_injective him

theorem getNext_spec (h : s.Inv t n parts) (hzero : s.queue.elements = 0)
    (tbl : PartTable β ρ) (hparts : s.parts tbl = parts) (part : Option Nat) (hpart : part ≠ none → s.active parts ≠ []) :
    (s.active parts = [] ∧ s.getNext tbl t part = (none, s)) ∨
    s.Yields t n parts (· = s.pending parts) (s.getNext tbl t part) := by
  obtain ⟨hle, hmem⟩ := smallestStock_spec parts s
  subst hparts
  unfold getNext
  cases hact : s.active (s.parts tbl) with
  | nil =>
    left
    have hmax : s.smallestStock (s.parts tbl) = uintMax32 := hmem.resolve_right (by simp [hact])
    rw [if_neg fun hne => hne hmax]
    cases part with
    | none => exact ⟨rfl, rfl⟩
    | some part => exact absurd hact (hpart (by simp))
  | cons j rest =>
    right
    have hj : j ∈ s.active (s.parts tbl) := by rw [hact]; exact mem_cons_self
    have hsmall : s.smallestStock (s.parts tbl) ≠ uintMax32 := by
      have hrow := h.bound j hj _ mem_cons_self
      have hjle := hle j hj
      rw [h.parked hzero hj, rangeId_eq (hrow.trans hn)] at hjle
      omega
    rw [if_pos hsmall]
    exact (collect_returned hn hnodup (s := { s with queue := { s.queue with elements := 0 } })
      ⟨h.sorted, h.bound, by rw [contents_eq_nil.mpr rfl, ← contents_eq_nil.mpr hzero]; exact h.queue,
        h.current_le, h.stock⟩ rfl
      (fun q i => q.insert_contents _ i) hle (hmem.resolve_left hsmall)).2

/-- `s'` is `s` after the partition at the top has read on: it is exhausted, or its next row is in its buffer. With a row of
the current range it stays in the queue, otherwise it leaves it. -/
structure RangeScan.ReadOn (s s' : RangeScan ι ρ τ) : Prop where
  other : ∀ i, i ≠ s.queue.root 1 → s.SameAt s' i
  current : s'.current = s.current
  gone : s'.used (s.queue.root 1) = false → s.file (s.queue.root 1) = []
  next : s'.used (s.queue.root 1) = true → s'.block (s.queue.root 1) = s.file (s.queue.root 1) ∧
    ((s'.recs (s.queue.root 1)).row.1 ≠ s.current → s'.stock (s.queue.root 1) = rangeId (s'.recs (s.queue.root 1)).row.1)
  stay : s'.used (s.queue.root 1) = true ∧ (s'.recs (s.queue.root 1)).row.1 = s.current →
    s'.queue.contents.Perm s.queue.contents
  leave : ¬(s'.used (s.queue.root 1) = true ∧ (s'.recs (s.queue.root 1)).row.1 = s.current) →
    (s.queue.root 1 :: s'.queue.contents).Perm s.queue.contents

omit hn

section ReadOn
variable {s' : RangeScan ι ρ τ} (h : s.Returned t n parts) (hs : s.ReadOn s')

/-- The used partitions but the one at the top. -/
def RangeScan.below (s : RangeScan ι ρ τ) (parts : List Nat) : List Nat := (s.active parts).erase (s.queue.root 1)

theorem RangeScan.mem_below {i : Nat} : i ∈ s.below parts ↔ i ≠ s.queue.root 1 ∧ i ∈ s.active parts :=
  (hnodup.filter _).mem_erase_iff

omit hnodup in
include h in
theorem RangeScan.Returned.active_perm : (s.active parts).Perm (s.queue.root 1 :: s.below parts) :=
  perm_cons_erase h.top_mem.1

include h hs

theorem RangeScan.ReadOn.mem_active {i : Nat} :
    i ∈ s'.active parts ↔ (i = s.queue.root 1 ∧ s'.used (s.queue.root 1) = true) ∨ i ∈ s.below parts := by
  rw [Merge.mem_active, mem_below hnodup, Merge.mem_active]
  by_cases hi : i = s.queue.root 1
  · simp [hi, (Merge.mem_active.mp h.top_mem.1).1]
  · simp [hi, (hs.other i hi).2.2.1]

theorem RangeScan.ReadOn.active_perm : (s'.active parts).Perm
    (if s'.used (s.queue.root 1) = true then s.queue.root 1 :: s.below parts else s.below parts) := by
  have hact : (s.active parts).Nodup := hnodup.filter _
  have hnew : (if s'.used (s.queue.root 1) = true then s.queue.root 1 :: s.below parts else s.below parts).Nodup := by
    split_ifs
    · exact h.active_perm.nodup_iff.mp hact
    · exact hact.erase _
  refine (perm_ext_iff_of_nodup (hnodup.filter _) hnew).mpr fun i => (hs.mem_active hnodup h).trans ?_
  split_ifs with hif <;> simp [hif]

/-- What holds of the partition at the top, if it is still used, and of the others, holds of all used ones. -/
theorem RangeScan.ReadOn.forall_active {P : Nat → Prop} (htop : s'.used (s.queue.root 1) = true → P (s.queue.root 1))
    (hbelow : ∀ i, i ≠ s.queue.root 1 → i ∈ s.active parts → P i) : ∀ i ∈ s'.active parts, P i := by
  intro i hi
  rcases (hs.mem_active hnodup h).mp hi with ⟨rfl, hu⟩ | hi
  · exact htop hu
  · obtain ⟨hne, hi⟩ := (mem_below hnodup).mp hi
    exact hbelow i hne hi

theorem RangeScan.ReadOn.queue :
    s'.queue.contents.Perm ((s'.active parts).filter fun i => (s'.recs i).row.1 = s'.current) := by
  have hfilter : ((s.below parts).filter fun i => (s'.recs i).row.1 = s'.current) =
      (s.below parts).filter fun i => (s.recs i).row.1 = s.current :=
    filter_congr fun i hi => by rw [(hs.other i ((mem_below hnodup).mp hi).1).1, hs.current]
  have hqueue : s.queue.contents.Perm
      (s.queue.root 1 :: (s.below parts).filter fun i => (s.recs i).row.1 = s.current) :=
    h.queue.trans ((h.active_perm.filter _).trans (.of_eq (filter_cons_of_pos (decide_eq_true h.top_mem.2))))
  refine .trans ?_ ((hs.active_perm hnodup h).filter _).symm
  by_cases hin : s'.used (s.queue.root 1) = true ∧ (s'.recs (s.queue.root 1)).row.1 = s.current
  · rw [if_pos hin.1, filter_cons, if_pos (by simp [hin.2, hs.current]), hfilter]
    exact (hs.stay hin).trans hqueue
  · have hrest := ((hs.leave hin).trans hqueue).cons_inv
    split_ifs with hu
    · rw [filter_cons, if_neg (by simpa [hs.current] using fun heq => hin ⟨hu, heq⟩), hfilter]
      exact hrest
    · rw [hfilter]
      exact hrest

omit hnodup h in
theorem RangeScan.ReadOn.block_eq {i : Nat} (hi : i ≠ s.queue.root 1) : s'.block i = s.block i := by
  obtain ⟨hrecs, hfile, -, -⟩ := hs.other i hi
  rw [block, block, hrecs, hfile]

theorem RangeScan.ReadOn.pending : (s.pending parts).Perm (s.topRow :: s'.pending parts) := by
  have hbelow : (s.below parts).flatMap s'.block = (s.below parts).flatMap s.block :=
    flatMap_congr fun i hi => hs.block_eq ((mem_below hnodup).mp hi).1
  calc s.pending parts
      _ ~ (s.queue.root 1 :: s.below parts).flatMap s.block := h.active_perm.flatMap_right _
      _ = s.topRow :: (s.file (s.queue.root 1) ++ (s.below parts).flatMap s.block) := by
        rw [flatMap_cons, block, cons_append, topRow]
      _ = s.topRow :: (if s'.used (s.queue.root 1) = true then s.queue.root 1 :: s.below parts
          else s.below parts).flatMap s'.block := by
        split_ifs with hu
        · rw [flatMap_cons, (hs.next hu).1, hbelow]
        · rw [hs.gone (eq_false_of_ne_true hu), hbelow, nil_append]
      _ ~ s.topRow :: s'.pending parts := .cons _ ((hs.active_perm hnodup h).flatMap_right _).symm

theorem RangeScan.ReadOn.inv : s'.Inv t n parts where
  sorted := hs.forall_active hnodup h (fun hu => (hs.next hu).1 ▸ (h.sorted _ h.top_mem.1).of_cons)
    fun i hne hi => hs.block_eq hne ▸ h.sorted i hi
  bound := by
    refine hs.forall_active hnodup h (fun hu a ha => ?_) fun i hne hi => hs.block_eq hne ▸ h.bound i hi
    rw [(hs.next hu).1] at ha
    exact h.bound _ h.top_mem.1 a (mem_cons_of_mem _ ha)
  queue := hs.queue hnodup h
  current_le := by
    refine hs.forall_active hnodup h (fun hu => ?_) fun i hne hi => ?_
    · -- the next row of the partition is not before its last one
      have hmem : (s'.recs (s.queue.root 1)).row ∈ s.file (s.queue.root 1) := by
        rw [← (hs.next hu).1]
        exact mem_cons_self
      have hle := rel_of_pairwise_cons (h.sorted _ h.top_mem.1) hmem
      rw [hs.current, ← h.top_mem.2]
      exact hle.elim le_of_lt fun h => h.1.le
    · rw [(hs.other i hne).1, hs.current]
      exact h.current_le i hi
  stock := by
    refine hs.forall_active hnodup h (fun hu hne => (hs.next hu).2 (hs.current ▸ hne)) fun i hi hact hne => ?_
    obtain ⟨hrecs, -, -, hstock⟩ := hs.other i hi
    rw [hrecs, hs.current] at hne
    rw [hrecs, hstock]
    exact h.stock i hact hne

end ReadOn

include hn

omit hn hnodup in
theorem ranged_follows (t : Index ρ τ κ) {s : RangeScan ι ρ τ} (hmax : s.maxAtTop = 1) :
    Heap.Follows (t.ranged.compare s.toOrderedScan) fun i => t.key (s.recs i).row.2 :=
  compare_follows t.ranged hmax

omit hn hnodup in
theorem orderedFrom_two {key : Nat → κ} {q : Heap Nat} (h : Heap.OrderedFrom key 1 q.elements q.root) :
    Heap.OrderedFrom key 2 q.elements q.root := fun c hc hhalf => h c hc (by omega)

theorem handleOrderedNext_end (h : s.Returned t n parts) (hparts : s.parts tbl = parts)
    (hfile : s.file (s.queue.root 1) = []) :
    (∃ s', s.handleOrderedNext tbl t = (none, s') ∧ (s.pending parts).Perm [s.topRow]) ∨
    s.Yields t n parts (fun l => (s.pending parts).Perm (s.topRow :: l)) (s.handleOrderedNext tbl t) := by
  obtain ⟨hord, hperm⟩ := Heap.removeTop_spec (ranged_follows t h.maxAtTop) h.pos (orderedFrom_two h.ordered)
  set s₁ := { s with
    used := update s.used (s.queue.root 1) false
    queue := s.queue.removeTop (t.ranged.compare s.toOrderedScan) } with hs₁
  have hnext : s.handleOrderedNext tbl t =
      if s₁.queue.elements ≠ 0 then s₁.returnTop else s₁.getNext tbl t none := by
    simp only [handleOrderedNext, h.topEntry, hfile, h.pos.ne', ne_eq, not_false_eq_true, if_true, hs₁]
  have hself : s₁.used (s.queue.root 1) = false := update_self ..
  have hread : s.ReadOn s₁ := ⟨fun i hi => ⟨rfl, rfl, update_of_ne hi _ _, rfl⟩, rfl, fun _ => hfile, by simp [hself],
    by simp [hself], fun _ => hperm⟩
  have hinv := hread.inv hnodup h
  have hpending := hread.pending hnodup h
  rw [hnext]
  by_cases hzero : s₁.queue.elements = 0
  · rw [if_neg (not_not.mpr hzero)]
    rcases getNext_spec hn hnodup hinv hzero tbl hparts none (by simp) with
      ⟨hnil, hget⟩ | ⟨s', hget, hret, hsame, hfixed⟩
    · left
      have hnone : s₁.pending parts = [] := by rw [pending, hnil, flatMap_nil]
      exact ⟨s₁, hget, hnone ▸ hpending⟩
    · exact .inr ⟨s', hget, hret, hsame ▸ hpending, hfixed⟩
  · rw [if_pos hzero]
    obtain ⟨s', hget, hret, hsame, hfixed⟩ := returnTop_returned hinv hord h.maxAtTop hzero
    exact .inr ⟨s', hget, hret, hsame ▸ hpending, hfixed⟩

omit hn hnodup in
/-- A buffer's reference changes neither the rows nor the partitions of the queue, so the queue is put in order. -/
theorem setRef_replaceTop (part : Nat) (h : s.Inv t n parts) (hmax : s.maxAtTop = 1) (hpos : s.queue.elements ≠ 0)
    (hord : Heap.OrderedFrom (fun i => t.key (s.recs i).row.2) 2 s.queue.elements s.queue.root) :
    s.Yields t n parts (· = s.pending parts) (({ s.setRef t part with
      queue := (s.setRef t part).queue.replaceTop (t.ranged.compare (s.setRef t part).toOrderedScan) } :
      RangeScan ι ρ τ).returnTop) := by
  obtain ⟨recs, href, hrecs⟩ := setRef_eq t s part
  have hrow : ∀ i, (recs i).row = (s.recs i).row := fun i => (hrecs i).1
  have hblock : ∀ i, ({ s with recs := recs } : RangeScan ι ρ τ).block i = s.block i :=
    fun i => congrArg (· :: s.file i) (hrow i)
  rw [href]
  obtain ⟨hord', hperm⟩ := Heap.replaceTop_spec (ranged_follows t (s := { s with recs := recs }) hmax)
    (Nat.pos_of_ne_zero hpos) (by simpa only [hrow] using hord)
  have hqueue : s.queue.contents.Perm ((s.active parts).filter fun i => (recs i).row.1 = s.current) :=
    h.queue.trans (.of_eq (filter_congr fun i _ => by rw [hrow]))
  obtain ⟨s', hret, hs', hpend, hfixed⟩ := returnTop_returned (s := { s with
      recs := recs
      queue := s.queue.replaceTop (t.ranged.compare ({ s with recs := recs } : RangeScan ι ρ τ).toOrderedScan) })
    (⟨fun i hi => hblock i ▸ h.sorted i hi, fun i hi => hblock i ▸ h.bound i hi, hperm.trans hqueue,
      fun i hi => by simpa only [hrow] using h.current_le i hi, fun i hi => by simpa only [hrow] using h.stock i hi⟩)
    hord' hmax hpos
  exact ⟨s', hret, hs', hpend.trans (flatMap_congr fun i _ => hblock i), hfixed⟩

theorem handleOrderedNext_row (h : s.Returned t n parts)
    (hparts : s.parts tbl = parts) {a : Nat × ρ} {as : List (Nat × ρ)} (hfile : s.file (s.queue.root 1) = a :: as) :
    s.Yields t n parts (fun l => (s.pending parts).Perm (s.topRow :: l)) (s.handleOrderedNext tbl t) := by
  obtain ⟨htop, -⟩ := h.top_mem
  set part := s.queue.root 1 with hpart
  have hused : s.used part = true := (mem_active.mp htop).2
  set s₁ := s.store part part a as with hs₁
  have hself : s₁.block part = a :: as := by simp [hs₁, store, block]
  have hrow : (s₁.recs part).row = a := by simp [hs₁, store]
  have hother : ∀ i, i ≠ part → s₁.recs i = s.recs i ∧ s₁.file i = s.file i := by
    intro i hi
    simp [hs₁, store, hi]
  -- the buffers below the top have not changed
  have hord : Heap.OrderedFrom (fun i => t.key (s₁.recs i).row.2) 2 s₁.queue.elements s₁.queue.root :=
    h.ordered.change_top (h.queue.nodup_iff.mpr ((hnodup.filter _).filter _)) fun i hi => by rw [(hother i hi).1]
  have hlt : a.1 < uintMax32 := (h.bound part htop a (by rw [block, hfile]; simp)).trans hn
  have hcur : s.current < uintMax32 := (h.top_mem.2 ▸ h.bound part htop _ mem_cons_self).trans hn
  have hid : rangeId a.1 = rangeId s.current ↔ a.1 = s.current := by
    rw [rangeId_eq hlt, rangeId_eq hcur, Nat.succ_inj]
  by_cases hsame : a.1 = s.current
  · -- a row of the current range
    have hread : s.ReadOn s₁ := ⟨fun i hi => ⟨(hother i hi).1, (hother i hi).2, rfl, rfl⟩, rfl,
      fun hu => Bool.noConfusion (hused.symm.trans hu),
      fun _ => ⟨by rw [hself, hfile], fun hne => absurd (hrow ▸ hsame) hne⟩, fun _ => .refl _,
      fun hnot => absurd ⟨hused, by rw [hrow, hsame]⟩ hnot⟩
    obtain ⟨s', hret, hs', hpend, hfixed⟩ := setRef_replaceTop part (hread.inv hnodup h) h.maxAtTop h.pos.ne' hord
    refine ⟨s', ?_, hs', hpend ▸ hread.pending hnodup h, hfixed⟩
    rw [← hret, handleOrderedNext, h.topEntry]
    dsimp only
    rw [← hpart, hfile]
    exact if_neg fun hne => hne (hid.mpr hsame)
  · -- a row of a later range: the partition is parked
    obtain ⟨hord', hperm⟩ := Heap.removeTop_spec (ranged_follows t (s := s₁) h.maxAtTop) h.pos hord
    set s₂ := { s₁ with
      stock := update s₁.stock part (rangeId a.1)
      queue := s₁.queue.removeTop (t.ranged.compare s₁.toOrderedScan) } with hs₂
    have hread : s.ReadOn s₂ := ⟨fun i hi => ⟨(hother i hi).1, (hother i hi).2, rfl, update_of_ne hi _ _⟩, rfl,
      fun hu => Bool.noConfusion (hused.symm.trans hu),
      fun _ => ⟨hself.trans hfile.symm, fun _ => (update_self ..).trans (congrArg (fun r => rangeId r.1) hrow.symm)⟩,
      fun hin => absurd (hrow ▸ hin.2) hsame, fun _ => hperm⟩
    have hinv := hread.inv hnodup h
    have hpending := hread.pending hnodup h
    have hnext : s.handleOrderedNext tbl t = if s₂.queue.elements = 0 then s₂.getNext tbl t (some part) else
        ({ s₂.setRef t part with
          queue := (s₂.setRef t part).queue.replaceTop (t.ranged.compare (s₂.setRef t part).toOrderedScan) } :
          RangeScan ι ρ τ).returnTop := by
      rw [handleOrderedNext, h.topEntry]
      dsimp only
      rw [← hpart, hfile]
      exact if_pos fun heq => hsame (hid.mp heq)
    rw [hnext]
    by_cases hzero : s₂.queue.elements = 0
    · rw [if_pos hzero]
      have hmem : part ∈ s₂.active parts := htop
      rcases getNext_spec hn hnodup hinv hzero tbl hparts (some part)
        (fun _ hnil => not_mem_nil (hnil ▸ hmem)) with ⟨hnil, -⟩ | ⟨s', hget, hret, hpend, hfixed⟩
      · exact absurd (hnil ▸ hmem) not_mem_nil
      · exact ⟨s', hget, hret, hpend ▸ hpending, hfixed⟩
    · rw [if_neg hzero]
      obtain ⟨s', hret, hs', hpend, hfixed⟩ := setRef_replaceTop part hinv h.maxAtTop hzero (orderedFrom_two hord')
      exact ⟨s', hret, hs', hpend ▸ hpending, hfixed⟩

/-- **A further read** takes the first of the pending rows away. -/
theorem handleOrderedNext_ranges (h : s.Returned t n parts) (hparts : s.parts tbl = parts) :
    (∃ s', s.handleOrderedNext tbl t = (none, s') ∧ (s.pending parts).Perm [s.topRow]) ∨
    s.Yields t n parts (fun l => (s.pending parts).Perm (s.topRow :: l)) (s.handleOrderedNext tbl t) := by
  cases hfile : s.file (s.queue.root 1) with
  | nil => exact handleOrderedNext_end hn hnodup h hparts hfile
  | cons a as => exact .inr (handleOrderedNext_row hn hnodup h hparts hfile)

omit hn hnodup in
theorem flatMap_filter_nonempty {α γ : Type*} (f : α → List γ) (p : α → Bool) (l : List α) :
    (l.filter fun i => p i && !(f i).isEmpty).flatMap f = (l.filter p).flatMap f := by
  induction l with
  | nil => rfl
  | cons i l ih =>
    rw [filter_cons, filter_cons]
    cases hp : p i <;> cases hf : f i <;> simp [hf, ih]

section First
variable {m m' i : Nat} {s' : RangeScan ι ρ τ} (h : Filled parts m s m' s')
include h

omit hn hnodup

theorem RangeScan.Filled.mem_active (hi : i ∈ s'.active parts) : i ∈ s.active parts := by
  obtain ⟨hmem, hu⟩ := Merge.mem_active.mp hi
  rw [h.used i hmem, Bool.and_eq_true] at hu
  exact Merge.mem_active.mpr ⟨hmem, hu.1⟩

theorem RangeScan.Filled.pending_eq : s'.pending parts = (s.active parts).flatMap s.file := by
  have hused : s'.active parts = parts.filter fun i => s.used i && !(s.file i).isEmpty :=
    filter_congr fun i hi => h.used i hi
  rw [pending, flatMap_congr h.block, hused]
  exact flatMap_filter_nonempty s.file s.used parts

include hn

/-- The numbers tell the rows of the first range. -/
theorem RangeScan.Filled.first_iff (hzero : s.current = 0) (hbound : ∀ i ∈ s.active parts, ∀ a ∈ s.file i, a.1 < n)
    (hi : i ∈ s'.active parts) :
    rangeId (s'.recs i).row.1 = rangeId s.current ↔ (s'.recs i).row.1 = s'.current := by
  have hrow : (s'.recs i).row.1 < n := by
    refine hbound i (h.mem_active hi) _ ?_
    rw [← h.block i hi]
    exact mem_cons_self
  rw [h.current, hzero, rangeId_eq (hrow.trans hn), rangeId_eq (by decide), Nat.succ_inj]

theorem RangeScan.Filled.inv (hempty : s.queue.elements = 0) (hzero : s.current = 0)
    (hsorted : ∀ i ∈ s.active parts, (s.file i).Pairwise t.RangeLe)
    (hbound : ∀ i ∈ s.active parts, ∀ a ∈ s.file i, a.1 < n) : s'.Inv t n parts := by
  refine ⟨fun i hi => ?_, fun i hi => ?_, .of_eq ?_, fun i _ => ?_, fun i hi _ => h.stock i hi⟩
  · rw [h.block i hi]
    exact hsorted i (h.mem_active hi)
  · rw [h.block i hi]
    exact hbound i (h.mem_active hi)
  · rw [h.queue, contents_eq_nil.mpr hempty, nil_append]
    exact filter_congr fun i hi => by rw [decide_eq_decide]; exact h.first_iff hn hzero hbound hi
  · rw [h.current, hzero]
    exact Nat.zero_le _

end First

/-- **The first read** returns the first of all rows. -/
theorem handleOrderedIndexScan_ranges (hparts : s.parts tbl = parts) (hcurrent : s.current = 0)
    (hsorted : ∀ i ∈ s.active parts, (s.file i).Pairwise t.RangeLe)
    (hbound : ∀ i ∈ s.active parts, ∀ a ∈ s.file i, a.1 < n) :
    (∃ s', s.handleOrderedIndexScan tbl t = (none, s') ∧ (s.active parts).flatMap s.file = []) ∨
    s.Yields t n parts (· = (s.active parts).flatMap s.file) (s.handleOrderedIndexScan tbl t) := by
  set s₀ := { s with topEntry := none, queue := { s.queue with elements := 0 } } with hs₀
  have hfill := fill_spec t hnodup 0 s₀ fun i hi hu a ha => by
    rw [rangeId_eq ((hbound i (mem_active.mpr ⟨hi, hu⟩) a ha).trans hn)]
    omega
  set m := (s₀.fill t parts 0).1 with hm
  set s₁ := (s₀.fill t parts 0).2 with hs₁
  have hpending : s₁.pending parts = (s.active parts).flatMap s.file := hfill.pending_eq
  have hzero : s₀.current = 0 := hcurrent
  have hinv : s₁.Inv t n parts := hfill.inv hn rfl hzero hsorted hbound
  have hscan : s.handleOrderedIndexScan tbl t =
      let s₂ := if s₁.queue.elements = 0 ∧ m ≠ 0 then
          let s := s₁.collect (fun q i => ⟨update q.root (q.elements + 1) i, q.elements + 1⟩) m (s₁.parts tbl)
          { s with current := seekRange m m s.current }
        else s₁
      if s₂.queue.elements = 0 then (none, s₂) else s₂.fixAndReturn t := by
    have hp : s₀.parts tbl = parts := hparts
    rw [handleOrderedIndexScan, ← hs₀]
    rw [hp]
  have hparts₁ : s₁.parts tbl = parts := (parts_eq_of_fixed hfill.fixed tbl).trans hparts
  rw [hscan, hparts₁]
  by_cases hempty : s₁.queue.elements = 0
  · -- no partition has a row of the first range
    have hlater : ∀ i ∈ s₁.active parts, m ≠ 0 ∧ m ≤ s₁.stock i := by
      intro i hi
      refine hfill.smallest_le i hi fun heq => ?_
      have := hinv.mem_queue.mpr ⟨hi, (hfill.first_iff hn hzero hbound hi).mp heq⟩
      rw [contents_eq_nil.mpr hempty] at this
      exact not_mem_nil this
    by_cases hm0 : m = 0
    · left
      have hnil : s₁.active parts = [] :=
        eq_nil_iff_forall_not_mem.mpr fun i hi => (hlater i hi).1 hm0
      have hno : ¬ (s₁.queue.elements = 0 ∧ m ≠ 0) := fun h => h.2 hm0
      rw [if_neg hno, if_pos hempty]
      exact ⟨s₁, rfl, by rw [← hpending, pending, hnil, flatMap_nil]⟩
    · right
      have hadd : ∀ (q : Heap Nat) (i : Nat),
          (⟨update q.root (q.elements + 1) i, q.elements + 1⟩ : Heap Nat).contents.Perm (q.contents ++ [i]) :=
        fun q i => .of_eq (Heap.places_push q.elements q.root i)
      obtain ⟨hne, s', hret, hs', hpend, hfixed⟩ := collect_returned hn hnodup hinv hempty hadd
        (fun i hi => (hlater i hi).2) (hfill.smallest_mem.resolve_left hm0)
      have hyes : s₁.queue.elements = 0 ∧ m ≠ 0 := ⟨hempty, hm0⟩
      rw [if_pos hyes, if_neg hne]
      exact ⟨s', hret, hs', hpend.trans hpending, hfixed.trans hfill.fixed⟩
  · right
    obtain ⟨s', hret, hs', hpend, hfixed⟩ := fixAndReturn_returned hinv hempty
    have hno : ¬ (s₁.queue.elements = 0 ∧ m ≠ 0) := fun h => hempty h.1
    rw [if_neg hno, if_neg hempty]
    exact ⟨s', hret, hs', hpend.trans hpending, hfixed.trans hfill.fixed⟩

end Step

end TSpider.Merge

import TSpider.Merge.Ordered

/-!
# An ordered index scan is a merge

* `OrderedScan.pending` : the rows that are still to come, the one at the top of the queue first returned next;
* `OrderedScan.Full rank` : the queue is a heap of the record buffers, and each buffer's row comes before the partition's
  rest;
* `orderedScan_merge` : the scan returns all rows, in order.
-/

namespace TSpider.Merge
open OrderedScan List

open Lib (Heap)

variable {ρ τ κ π : Type*}

def OrderedScan.pending (s : OrderedScan ρ τ) : List ρ :=
  s.queue.contents.flatMap fun i => (s.recs i).row :: s.file i

def OrderedScan.topRow (s : OrderedScan ρ τ) : ρ := (s.recs (s.queue.root 1)).row

structure OrderedScan.Full [Preorder π] (rank : ρ → π) (s : OrderedScan ρ τ) : Prop where
  nodup : s.queue.contents.Nodup
  ordered : Heap.OrderedFrom (fun i => rank (s.recs i).row) 1 s.queue.elements s.queue.root
  sorted : ∀ i ∈ s.queue.contents, ((s.recs i).row :: s.file i).Pairwise fun a b => rank a ≤ rank b

structure OrderedScan.Returned [Preorder π] (rank : ρ → π) (m : Int) (s : OrderedScan ρ τ) : Prop where
  full : s.Full rank
  maxAtTop : s.maxAtTop = m
  pos : 0 < s.queue.elements
  topEntry : s.topEntry = some (s.queue.root 1)

section Order
variable [LinearOrder κ] (t : Index ρ τ κ)

theorem compare_cases (s : OrderedScan ρ τ) (i j : Nat) : ∃ res : Int, t.compare s i j = res * s.maxAtTop ∧
      (res ≤ 0 → t.key (s.recs i).row ≤ t.key (s.recs j).row) ∧ (0 ≤ res → t.key (s.recs j).row ≤ t.key (s.recs i).row) := by
  have hkey : ∀ res : Int, (t.keyRecCmp (s.recs i).row (s.recs j).row ≠ 0 → res = t.keyRecCmp (s.recs i).row (s.recs j).row) →
      (res ≤ 0 → t.key (s.recs i).row ≤ t.key (s.recs j).row) ∧
      (0 ≤ res → t.key (s.recs j).row ≤ t.key (s.recs i).row) := by
    intro res hres
    refine ⟨fun h => not_lt.mp fun hlt => ?_, fun h => not_lt.mp fun hlt => ?_⟩
    · rw [Index.keyRecCmp, if_neg hlt.asymm, if_pos hlt] at hres
      have := hres (by decide)
      omega
    · rw [Index.keyRecCmp, if_pos hlt] at hres
      have := hres (by decide)
      omega
  unfold Index.compare
  split
  · refine ⟨_, rfl, hkey _ fun hne => ?_⟩
    simp only [Index.cmpKeyRowidPartId, hne, ne_eq, not_false_eq_true, if_true]
  · refine ⟨_, rfl, hkey _ fun hne => ?_⟩
    simp only [Index.cmpKeyPartId, hne, ne_eq, not_false_eq_true, if_true]

theorem compare_follows {s : OrderedScan ρ τ} (hs : s.maxAtTop = 1) :
    Heap.Follows (t.compare s) fun i => t.key (s.recs i).row := by
  constructor
  · intro i j h
    obtain ⟨res, hres, hle, -⟩ := compare_cases t s i j
    rw [hres, hs, mul_one] at h
    exact hle h
  · intro i j h
    obtain ⟨res, hres, -, hge⟩ := compare_cases t s i j
    rw [hres, hs, mul_one] at h
    exact hge h

theorem compare_follows_reverse {s : OrderedScan ρ τ} (hs : s.maxAtTop = -1) :
    Heap.Follows (t.compare s) fun i => OrderDual.toDual (t.key (s.recs i).row) := by
  constructor
  · intro i j h
    obtain ⟨res, hres, -, hge⟩ := compare_cases t s i j
    rw [hres, hs, mul_neg_one, neg_nonpos] at h
    exact OrderDual.toDual_le_toDual.mpr (hge h)
  · intro i j h
    obtain ⟨res, hres, hle, -⟩ := compare_cases t s i j
    rw [hres, hs, mul_neg_one, Int.neg_nonneg] at h
    exact OrderDual.toDual_le_toDual.mpr (hle h)

end Order

section Step
variable [Preorder π] {rank : ρ → π} {s : OrderedScan ρ τ}

theorem OrderedScan.Full.topRow_le (h : s.Full rank) {a : ρ} (ha : a ∈ s.pending) : rank s.topRow ≤ rank a := by
  obtain ⟨i, hi, hmem⟩ := mem_flatMap.mp ha
  have htop := Heap.top_le h.ordered hi
  rcases mem_cons.mp hmem with rfl | hmem
  · exact htop
  · exact htop.trans (rel_of_pairwise_cons (h.sorted i hi) hmem)

theorem pending_perm_cons {part : Nat} {rest : List Nat} (h : (part :: rest).Perm s.queue.contents) :
    s.pending.Perm (((s.recs part).row :: s.file part) ++ rest.flatMap fun i => (s.recs i).row :: s.file i) :=
  (h.symm.flatMap_right _).trans (by rw [flatMap_cons])

def OrderedScan.others (s : OrderedScan ρ τ) : List Nat := (List.range' 2 (s.queue.elements - 1)).map s.queue.root

theorem contents_eq_cons (hpos : 0 < s.queue.elements) : s.queue.contents = s.queue.root 1 :: s.others :=
  Heap.places_eq_cons s.queue.root hpos

theorem OrderedScan.Full.ne_of_mem_others (h : s.Full rank) (hpos : 0 < s.queue.elements) {i : Nat} (hi : i ∈ s.others) :
    i ≠ s.queue.root 1 := by
  have hnodup := h.nodup
  rw [contents_eq_cons hpos, nodup_cons] at hnodup
  exact fun heq => hnodup.1 (heq ▸ hi)

end Step

section Advance
variable [LinearOrder κ] [Preorder π] {t : Index ρ τ κ} {rank : ρ → π} {m : Int}
  (hcmp : ∀ s : OrderedScan ρ τ, s.maxAtTop = m → Heap.Follows (t.compare s) fun i => rank (s.recs i).row)
include hcmp

variable {s : OrderedScan ρ τ} (h : s.Returned rank m)
include h

theorem advance_remove (hfile : s.file (s.queue.root 1) = []) (setRef : Bool) :
    (∃ s', s.advance t setRef = (none, s') ∧ s.pending.Perm [s.topRow]) ∨
    ∃ s', s.advance t setRef = (some s'.topRow, s') ∧ s'.Returned rank m ∧ s.pending.Perm (s.topRow :: s'.pending) := by
  set s1 := { s with queue := s.queue.removeTop (t.compare s) } with hs1
  obtain ⟨hord, hperm⟩ := Heap.removeTop_spec (hcmp s h.maxAtTop) h.pos
    fun c hc hhalf => h.full.ordered c hc (by omega)
  have hpending : s.pending.Perm (s.topRow :: s1.pending) := by
    have := pending_perm_cons hperm
    rw [hfile] at this
    exact this
  have hadvance : s.advance t setRef = if s1.queue.elements ≠ 0 then s1.returnTopRecord else (none, s1) := by
    simp only [advance, h.topEntry, hfile, h.pos.ne', ne_eq, not_false_eq_true, if_true, hs1]
  by_cases hzero : s1.queue.elements = 0
  · left
    refine ⟨s1, by rw [hadvance, if_neg (by simp [hzero])], ?_⟩
    have hnil : s1.pending = [] := by simp [pending, Heap.contents, Heap.places, hzero]
    rwa [hnil] at hpending
  · right
    have hmem : ∀ i ∈ s1.queue.contents, i ∈ s.queue.contents := fun i hi => hperm.subset (mem_cons_of_mem _ hi)
    refine ⟨{ s1 with topEntry := some (s1.queue.root 1) }, by rw [hadvance, if_pos hzero]; rfl, ⟨⟨?_, hord, ?_⟩,
      h.maxAtTop, Nat.pos_of_ne_zero hzero, rfl⟩, hpending⟩
    · exact (nodup_cons.mp (hperm.nodup_iff.mpr h.full.nodup)).2
    · exact fun i hi => h.full.sorted i (hmem i hi)

theorem advance_replace {a : ρ} {as : List ρ}
    (hfile : s.file (s.queue.root 1) = a :: as) (setRef : Bool) :
    ∃ s', s.advance t setRef = (some s'.topRow, s') ∧ s'.Returned rank m ∧ s.pending.Perm (s.topRow :: s'.pending) := by
  set s1 := s.store t setRef (s.queue.root 1) (s.queue.root 1) a as with hs1
  have htop : (s1.recs (s.queue.root 1)).row = a ∧ s1.file (s.queue.root 1) = as := by
    simp [hs1, store]
  have hother : ∀ i, i ≠ s.queue.root 1 → s1.recs i = s.recs i ∧ s1.file i = s.file i := by
    intro i hi
    simp [hs1, store, hi]
  -- the buffers below the top have not changed
  have hord2 : Heap.OrderedFrom (fun i => rank (s1.recs i).row) 2 s1.queue.elements s1.queue.root :=
    h.full.ordered.change_top h.full.nodup fun i hi => by rw [(hother i hi).1]
  obtain ⟨hord, hperm⟩ := Heap.replaceTop_spec (hcmp s1 h.maxAtTop) h.pos hord2
  set s2 := { s1 with queue := s1.queue.replaceTop (t.compare s1) } with hs2
  have hcontents : (s.queue.root 1 :: s.others).Perm s2.queue.contents := by
    rw [← contents_eq_cons h.pos]
    exact hperm.symm
  have hsame : (s.others.flatMap fun i => (s2.recs i).row :: s2.file i) =
      s.others.flatMap fun i => (s.recs i).row :: s.file i := by
    refine flatMap_congr fun i hi => ?_
    have hi' := hother i (h.full.ne_of_mem_others h.pos hi)
    exact congrArg₂ _ (congrArg Rec.row hi'.1) hi'.2
  have hpending : s.pending.Perm (s.topRow :: s2.pending) := by
    have hnew := pending_perm_cons hcontents
    have hold := pending_perm_cons (by rw [← contents_eq_cons h.pos])
    rw [hsame, show (s2.recs (s.queue.root 1)).row = a from htop.1, show s2.file (s.queue.root 1) = as from htop.2] at hnew
    rw [hfile] at hold
    exact hold.trans (hnew.symm.cons s.topRow)
  refine ⟨{ s2 with topEntry := some (s2.queue.root 1) }, ?_, ⟨⟨?_, hord, ?_⟩, h.maxAtTop, h.pos, rfl⟩, hpending⟩
  · simp only [advance, h.topEntry, hfile]
    rfl
  · exact hperm.nodup_iff.mpr h.full.nodup
  · intro i hi
    have hi' : i ∈ s.queue.contents := hperm.subset hi
    by_cases hit : i = s.queue.root 1
    · have := h.full.sorted i hi'
      rw [hit, hfile] at this
      rw [hit, show (s2.recs (s.queue.root 1)).row = a from htop.1, show s2.file (s.queue.root 1) = as from htop.2]
      exact this.of_cons
    · have := h.full.sorted i hi'
      rw [show s2.recs i = s.recs i from (hother i hit).1, show s2.file i = s.file i from (hother i hit).2]
      exact this

/-- **A further read** takes the row at the top away. -/
theorem advance_spec (setRef : Bool) :
    (∃ s', s.advance t setRef = (none, s') ∧ s.pending.Perm [s.topRow]) ∨
    ∃ s', s.advance t setRef = (some s'.topRow, s') ∧ s'.Returned rank m ∧ s.pending.Perm (s.topRow :: s'.pending) := by
  cases hfile : s.file (s.queue.root 1) with
  | nil => exact advance_remove hcmp h hfile setRef
  | cons a as => exact .inr (advance_replace hcmp h hfile setRef)

/-- **A run**: the rows that follow the one returned. -/
theorem readRest_spec (setRef : Bool) {k : Nat} (hk : s.pending.length ≤ k) :
    ∃ rows, readRest (advance t setRef) k s = some rows ∧ (s.topRow :: rows).Perm s.pending ∧
      (s.topRow :: rows).Pairwise fun a b => rank a ≤ rank b := by
  induction k generalizing s with
  | zero =>
    rcases advance_spec hcmp h setRef with ⟨s', -, hperm⟩ | ⟨s', -, -, hperm⟩ <;>
    · have := hperm.length_eq
      simp at this
      omega
  | succ k ih =>
    rcases advance_spec hcmp h setRef with ⟨s', hnext, hperm⟩ | ⟨s', hnext, hs', hperm⟩
    · exact ⟨[], by simp only [readRest, hnext], hperm.symm, pairwise_singleton _ _⟩
    · have hlen := hperm.length_eq
      rw [length_cons] at hlen
      obtain ⟨rows, hrows, hrest, hsorted⟩ := ih hs' (by omega)
      have hall : (s.topRow :: s'.topRow :: rows).Perm s.pending := (hrest.cons _).trans hperm.symm
      refine ⟨s'.topRow :: rows, by simp only [readRest, hnext, hrows, Option.map_some], hall,
        pairwise_cons.mpr ⟨fun a ha => ?_, hsorted⟩⟩
      exact h.full.topRow_le (hall.subset (mem_cons_of_mem _ ha))

end Advance

/-! ## The first read -/

section Fill
variable [Preorder π] {rank : ρ → π} (t : Index ρ τ κ)

def OrderedScan.enter (s : OrderedScan ρ τ) (i : Nat) (a : ρ) (as : List ρ) : OrderedScan ρ τ :=
  let s := s.store t (!t.usingExtendedKeys) i i a as
  { s with queue := ⟨Function.update s.queue.root (s.queue.elements + 1) i, s.queue.elements + 1⟩ }

variable {t} {s : OrderedScan ρ τ} {i : Nat} {a : ρ} {as : List ρ}

theorem enter_contents : (s.enter t i a as).queue.contents = s.queue.contents ++ [i] :=
  Heap.places_push s.queue.elements s.queue.root i

theorem enter_self : ((s.enter t i a as).recs i).row = a ∧ (s.enter t i a as).file i = as := by
  simp [enter, store]

theorem enter_of_ne {j : Nat} (hj : j ≠ i) : (s.enter t i a as).recs j = s.recs j ∧ (s.enter t i a as).file j = s.file j := by
  simp [enter, store, hj]

theorem enter_pending (hi : i ∉ s.queue.contents) : (s.enter t i a as).pending = s.pending ++ (a :: as) := by
  rw [pending, enter_contents, flatMap_append, flatMap_cons, flatMap_nil, append_nil, enter_self.1, enter_self.2]
  congr 1
  refine flatMap_congr fun j hj => ?_
  have hne : j ≠ i := fun hji => hi (hji ▸ hj)
  rw [(enter_of_ne hne).1, (enter_of_ne hne).2]

structure OrderedScan.Filling (rank : ρ → π) (s : OrderedScan ρ τ) : Prop where
  nodup : s.queue.contents.Nodup
  sorted : ∀ i ∈ s.queue.contents, ((s.recs i).row :: s.file i).Pairwise fun a b => rank a ≤ rank b

theorem OrderedScan.Filling.enter (h : s.Filling rank) (hi : i ∉ s.queue.contents)
    (hsorted : (a :: as).Pairwise fun a b => rank a ≤ rank b) : (s.enter t i a as).Filling rank := by
  constructor
  · rw [enter_contents]
    refine nodup_append.mpr ⟨h.nodup, nodup_singleton i, fun j hj k hk hjk => hi ?_⟩
    rwa [← mem_singleton.mp hk, ← hjk]
  · intro j hj
    rw [enter_contents, mem_append, mem_singleton] at hj
    by_cases hne : j = i
    · rw [hne, enter_self.1, enter_self.2]
      exact hsorted
    · rw [(enter_of_ne hne).1, (enter_of_ne hne).2]
      exact h.sorted j (hj.resolve_right hne)

/-- **The loop over the used partitions** puts all their rows before the queue. -/
theorem fill_pending {parts : List Nat} (hparts : parts.Nodup) (h : s.Filling rank) (hnew : ∀ i ∈ parts, i ∉ s.queue.contents)
    (hsorted : ∀ i ∈ parts, (s.file i).Pairwise fun a b => rank a ≤ rank b) :
    (s.fill t parts).Filling rank ∧ (s.fill t parts).pending = s.pending ++ parts.flatMap s.file := by
  induction parts generalizing s with
  | nil => exact ⟨h, by simp [fill]⟩
  | cons i parts ih =>
    obtain ⟨hi, hparts⟩ := nodup_cons.mp hparts
    obtain ⟨hinew, hnew⟩ := forall_mem_cons.mp hnew
    obtain ⟨hisorted, hsorted⟩ := forall_mem_cons.mp hsorted
    cases hfile : s.file i with
    | nil =>
      have hfill : s.fill t (i :: parts) = s.fill t parts := by simp only [fill, hfile]
      rw [hfill, flatMap_cons, hfile, nil_append]
      exact ih hparts h hnew hsorted
    | cons a as =>
      have hfill : s.fill t (i :: parts) = (s.enter t i a as).fill t parts := by
        simp only [fill, hfile, enter]
      have hother : ∀ j ∈ parts, (s.enter t i a as).file j = s.file j := by
        intro j hj
        have hne : j ≠ i := by
          rintro rfl
          exact hi hj
        exact (enter_of_ne hne).2
      rw [hfile] at hisorted
      have hnew' : ∀ j ∈ parts, j ∉ (s.enter t i a as).queue.contents := by
        intro j hj
        rw [enter_contents, mem_append, mem_singleton]
        rintro (hmem | rfl)
        · exact hnew j hj hmem
        · exact hi hj
      obtain ⟨hfilling, hpending⟩ := ih hparts (h.enter hinew hisorted) hnew'
        fun j hj => by rw [hother j hj]; exact hsorted j hj
      refine ⟨hfill ▸ hfilling, ?_⟩
      rw [hfill, hpending, enter_pending hinew, flatMap_cons, hfile, append_assoc, flatMap_congr hother]

end Fill

section Scan
variable [LinearOrder κ] [Preorder π] {t : Index ρ τ κ} {rank : ρ → π}

/-- **The first read.** -/
theorem handleOrderedIndexScan_spec {reverse : Bool} (hcmp : ∀ s : OrderedScan ρ τ, s.maxAtTop = (if reverse then -1 else 1) →
      Heap.Follows (t.compare s) fun i => rank (s.recs i).row) {parts : List Nat} (hparts : parts.Nodup) {s : OrderedScan ρ τ}
    (hsorted : ∀ i ∈ parts, (s.file i).Pairwise fun a b => rank a ≤ rank b) :
    (∃ s', s.handleOrderedIndexScan t reverse parts = (none, s') ∧ parts.flatMap s.file = []) ∨
    ∃ s', s.handleOrderedIndexScan t reverse parts = (some s'.topRow, s') ∧
      s'.Returned rank (if reverse then -1 else 1) ∧ s'.pending.Perm (parts.flatMap s.file) := by
  set s0 : OrderedScan ρ τ := { s with topEntry := none, queue := { s.queue with elements := 0 } } with hs0
  have hempty : s0.queue.contents = [] := by simp [hs0, Heap.contents, Heap.places]
  have hfilling0 : s0.Filling rank := ⟨by simp [hempty], by simp [hempty]⟩
  obtain ⟨hfilling, hpending⟩ := fill_pending (t := t) hparts hfilling0 (by simp [hempty]) hsorted
  have hnil : s0.pending = [] := by simp [pending, hempty]
  rw [hnil, nil_append] at hpending
  by_cases hzero : (s0.fill t parts).queue.elements = 0
  · left
    refine ⟨s0.fill t parts, by simp only [handleOrderedIndexScan, ← hs0, hzero, if_true], ?_⟩
    rw [show s.file = s0.file from rfl, ← hpending]
    simp [pending, Heap.contents, Heap.places, hzero]
  · right
    set s1 := { s0.fill t parts with maxAtTop := if reverse then -1 else 1 } with hs1
    obtain ⟨hord, helements, hperm⟩ := Heap.fix_spec (hcmp s1 rfl) s1.queue
    set s2 := { s1 with queue := s1.queue.fix (t.compare s1) } with hs2
    refine ⟨{ s2 with topEntry := some (s2.queue.root 1) }, ?_, ⟨⟨?_, ?_, ?_⟩, rfl, ?_, rfl⟩, ?_⟩
    · simp only [handleOrderedIndexScan, ← hs0, hzero, if_false]
      rfl
    · exact hperm.nodup_iff.mpr hfilling.nodup
    · rw [← helements] at hord
      exact hord
    · exact fun i hi => hfilling.sorted i (hperm.subset hi)
    · rw [show s2.queue.elements = s1.queue.elements from helements]
      exact Nat.pos_of_ne_zero hzero
    · rw [show s.file = s0.file from rfl, ← hpending]
      exact hperm.flatMap_right _

theorem orderedScan_spec (rank : ρ → π) (type : ScanType)
    (hcmp : ∀ s : OrderedScan ρ τ, s.maxAtTop = (if type.reverse then -1 else 1) →
      Heap.Follows (t.compare s) fun i => rank (s.recs i).row) {parts : List Nat} (hparts : parts.Nodup) {s : OrderedScan ρ τ}
    (hsorted : ∀ i ∈ parts, (s.file i).Pairwise fun a b => rank a ≤ rank b) :
    ∃ rows, orderedScan t type parts s = some rows ∧ rows.Perm (parts.flatMap s.file) ∧
      rows.Pairwise fun a b => rank a ≤ rank b := by
  rcases handleOrderedIndexScan_spec hcmp hparts hsorted with ⟨s', hfirst, hnil⟩ | ⟨s', hfirst, hreturned, hperm⟩
  · exact ⟨[], by simp only [orderedScan, hfirst], by rw [hnil], .nil⟩
  · obtain ⟨rows, hrows, hall, hordered⟩ := readRest_spec hcmp hreturned
      (if type.reverse then false else !t.usingExtendedKeys) hperm.length_eq.le
    refine ⟨s'.topRow :: rows, ?_, hall.trans hperm, hordered⟩
    have hnext : (if type.reverse then handleOrderedPrev t else handleOrderedNext t) =
        advance t (if type.reverse then false else !t.usingExtendedKeys) := by
      cases type.reverse <;> rfl
    simp only [orderedScan, hfirst, hnext, hrows, Option.map_some]

end Scan

/-- **An ordered index scan is a merge**: if each used partition has its rows in order, the reads return all of them in that
order, or in the reverse one. -/
theorem orderedScan_merge [LinearOrder κ] (t : Index ρ τ κ) (type : ScanType) (totParts : Nat) (used : Nat → Bool)
    (rows : Nat → List ρ) (hrows : ∀ i, used i = true → (rows i).Pairwise fun a b => t.key a ≤ t.key b)
    (s : OrderedScan ρ τ) :
    ∃ out, orderedScan t type ((List.range totParts).filter used)
        { s with file := fun i => if type.reverse then (rows i).reverse else rows i } = some out ∧
      (out : Multiset ρ) = ((List.range totParts).filter used).flatMap rows ∧
      (if type.reverse then out.reverse else out).Pairwise fun a b => t.key a ≤ t.key b := by
  have hparts : ((List.range totParts).filter used).Nodup := nodup_range.filter _
  have hsorted : ∀ i ∈ (List.range totParts).filter used, (rows i).Pairwise fun a b => t.key a ≤ t.key b :=
    fun i hi => hrows i (of_mem_filter hi)
  cases hreverse : type.reverse with
  | false =>
    obtain ⟨out, hout, hperm, hordered⟩ := orderedScan_spec t.key type
      (fun s hs => compare_follows t (by rw [hs, hreverse]; rfl)) hparts (s := { s with file := rows }) hsorted
    exact ⟨out, hout, Multiset.coe_eq_coe.mpr hperm, hordered⟩
  | true =>
    obtain ⟨out, hout, hperm, hordered⟩ := orderedScan_spec (OrderDual.toDual ∘ t.key) type
      (fun s hs => compare_follows_reverse t (by rw [hs, hreverse]; rfl)) hparts
      (s := { s with file := fun i => (rows i).reverse }) fun i hi => pairwise_reverse.mpr (hsorted i hi)
    refine ⟨out, hout, Multiset.coe_eq_coe.mpr (hperm.trans ?_), pairwise_reverse.mpr hordered⟩
    exact List.Perm.flatMap_left _ fun i _ => reverse_perm (rows i)

/-- Three partitions, the second of them empty. -/
theorem orderedScan_merge_three : ∃ out, orderedScan (⟨id, id, fun _ _ => 0, false, false⟩ : Index Nat Nat Nat) .indexFirst
        ((List.range 3).filter fun _ => true)
        ⟨fun i => [[1, 3, 5], [], [2, 3]].getD i [], fun _ => ⟨0, 0⟩, ⟨fun _ => 0, 0⟩, 1, none⟩ = some out ∧
      (out : Multiset Nat) = ((List.range 3).filter fun _ => true).flatMap (fun i => [[1, 3, 5], [], [2, 3]].getD i []) ∧
      out.Pairwise (· ≤ ·) :=
  orderedScan_merge ⟨id, id, fun _ _ => 0, false, false⟩ .indexFirst 3 (fun _ => true)
    (fun i => [[1, 3, 5], [], [2, 3]].getD i [])
    (fun i _ => by
      rcases i with _ | _ | _ | i
      · decide
      · decide
      · decide
      · exact List.Pairwise.nil)
    ⟨fun _ => [], fun _ => ⟨0, 0⟩, ⟨fun _ => 0, 0⟩, 1, none⟩

end TSpider.Merge

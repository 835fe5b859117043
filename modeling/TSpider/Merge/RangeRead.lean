import TSpider.Merge.RangeSorted

/-!
# Sorted multi-range reads return every row once

The number of a range is an `uint`, and `UINT_MAX32` stands for "no partition is parked", so there are fewer ranges than that.
A read without ranges is not started: `multi_range_read_init` returns 0 before it resets the state, and the calls that follow
go on with an earlier read if that was left in the middle.
-/

namespace TSpider.Merge
open RangeScan List

open Lib (Heap)

variable {β ι ρ τ κ : Type*}

/-! ## Starting -/

variable (tbl : PartTable β ρ)

def PartTable.readParts : List Nat := (List.range tbl.totParts).filter tbl.readPartitions

theorem copies_eq (r : KeyMultiRange β ι) (i : Nat) : tbl.copies r i = tbl.readPartitions i := by
  have hspec : tbl.partSpec r = (0, tbl.totParts - 1) := by
    rw [PartTable.partSpec, if_neg]
    cases r.startFlag <;> simp [haReadKeyExact]
  rw [PartTable.copies, hspec]
  cases hread : tbl.readPartitions i with
  | false => rw [Bool.and_false]
  | true =>
    have hlt := tbl.read_lt i hread
    simp only [Nat.zero_le, decide_true, Bool.true_and, Bool.and_true, decide_eq_true_eq]
    omega

theorem createKey_spec (k : Nat) (ranges : List (KeyMultiRange β ι)) (c : RangeKeys ι) :
    (∀ i, (multiRangeKeyCreateKey tbl k ranges c).used i = (c.used i || (!ranges.isEmpty && tbl.readPartitions i))) ∧
    (∀ i, tbl.readPartitions i = true →
      (multiRangeKeyCreateKey tbl k ranges c).partRanges i = c.partRanges i ++ List.range' k ranges.length) ∧
    (∀ j, j < k → (multiRangeKeyCreateKey tbl k ranges c).ptr j = c.ptr j) ∧
    ∀ j r, ranges[j]? = some r → (multiRangeKeyCreateKey tbl k ranges c).ptr (k + j) = r.ptr := by
  induction ranges generalizing k c with
  | nil => exact ⟨by simp [multiRangeKeyCreateKey], by simp [multiRangeKeyCreateKey], fun _ _ => rfl, by simp⟩
  | cons r ranges ih =>
    rw [multiRangeKeyCreateKey]
    obtain ⟨hused, hranges, hbefore, hptr⟩ := ih (k + 1) _
    refine ⟨fun i => ?_, fun i hi => ?_, fun j hj => ?_, fun j r' hr' => ?_⟩
    · rw [hused i]
      dsimp only
      rw [copies_eq]
      cases c.used i <;> cases tbl.readPartitions i <;> simp
    · rw [hranges i hi]
      dsimp only
      rw [copies_eq, if_pos hi, append_assoc, length_cons, range'_succ, singleton_append]
    · rw [hbefore j (by omega)]
      exact Function.update_of_ne (by omega) _ _
    · cases j with
      | zero =>
        obtain rfl : r = r' := by simpa using hr'
        rw [hbefore (k + 0) (by omega)]
        exact Function.update_self ..
      | succ j =>
        rw [← hptr j r' (by simpa using hr')]
        congr 1
        omega

theorem le_lastSet {p : Nat → Bool} {i n : Nat} (hi : i < n) (hp : p i = true) : ∃ e, lastSet p n = some e ∧ i ≤ e := by
  induction n with
  | zero => omega
  | succ n ih =>
    rw [lastSet]
    split_ifs with hn
    · exact ⟨n, rfl, by omega⟩
    · refine ih ?_
      have : i ≠ n := fun h => hn (h ▸ hp)
      omega

theorem firstSet_le {p : Nat → Bool} {i n : Nat} (hi : i < n) (hp : p i = true) :
    ∃ e, (List.range n).find? p = some e ∧ e ≤ i := by
  cases hfind : (List.range n).find? p with
  | none =>
    rw [List.find?_eq_none] at hfind
    exact absurd hp (hfind i (mem_range.mpr hi))
  | some e =>
    refine ⟨e, rfl, not_lt.mp fun hlt => ?_⟩
    have := (List.find?_range_eq_some.mp hfind).2.2 i hlt
    simp [hp] at this

structure RangeScan.Started (tbl : PartTable β ρ) (ranges : List (KeyMultiRange β ι)) (s : RangeScan ι ρ τ) : Prop where
  used : s.used = tbl.readPartitions
  file : ∀ i, tbl.readPartitions i = true → s.file i = tbl.answer ranges i (List.range ranges.length)
  parts : s.parts tbl = tbl.readParts
  current : s.current = 0
  ptr : ∀ j r, ranges[j]? = some r → s.ptr j = r.ptr
  readFirst : s.readFirst = true

/-- **Starting a read.** -/
theorem multiRangeReadInit_started {ranges : List (KeyMultiRange β ι)} (hne : ranges ≠ [])
    (s : RangeScan ι ρ τ) : (s.multiRangeReadInit tbl ranges).Started tbl ranges := by
  obtain ⟨hused, hranges, -, hptr⟩ := createKey_spec tbl 0 ranges
    ⟨fun _ => false, fun _ => [], s.ptr, (s.startPart, s.endPart)⟩
  rw [multiRangeReadInit, if_neg hne]
  have hread : (multiRangeKeyCreateKey tbl 0 ranges ⟨fun _ => false, fun _ => [], s.ptr, (s.startPart, s.endPart)⟩).used =
      tbl.readPartitions := by
    funext i
    rw [hused i]
    simp [hne]
  refine ⟨hread, fun i hi => ?_, ?_, rfl, fun j r hr => by simpa using hptr j r hr, rfl⟩
  · dsimp only
    rw [hread, if_pos hi, hranges i hi, nil_append, ← range_eq_range']
  · refine filter_congr fun i hi => ?_
    rw [hread]
    cases hri : tbl.readPartitions i with
    | false => rfl
    | true =>
      obtain ⟨first, hfirst, hle⟩ := firstSet_le (mem_range.mp hi) hri
      obtain ⟨last, hlast, hle'⟩ := le_lastSet (mem_range.mp hi) hri
      simp [hfirst, hlast, hle, hle']

/-! ## Whole reads -/

def PartTable.allRows (ranges : List (KeyMultiRange β ι)) : List (Nat × ρ) :=
  tbl.readParts.flatMap fun i => tbl.answer ranges i (List.range ranges.length)

def Labelled (ranges : List (KeyMultiRange β ι)) (x : ι × ρ) (y : Nat × ρ) : Prop :=
  ∃ r, ranges[y.1]? = some r ∧ x = (r.ptr, y.2)

/-- The read returns all rows of the partitions, grouped by range in the order of the ranges, sorted inside a range, each with
its range's identifier. -/
def RangeScan.Exact [LinearOrder κ] (tbl : PartTable β ρ) (t : Index ρ τ κ) (ranges : List (KeyMultiRange β ι))
    (s : RangeScan ι ρ τ) : Prop :=
  ∃ k result out, (s.multiRangeReadInit tbl ranges).readAll tbl t k = some result ∧
    List.Forall₂ (Labelled ranges) result out ∧
    out.Pairwise t.RangeLe ∧ out.Perm (tbl.allRows ranges)

def PartTable.Sorted [LE κ] (tbl : PartTable β ρ) (t : Index ρ τ κ) (ranges : List (KeyMultiRange β ι)) : Prop :=
  ∀ i, tbl.readPartitions i = true → ∀ r ∈ ranges, (tbl.rows i r.keys).Pairwise fun a b => t.key a ≤ t.key b

/-- No row of an earlier read is left to be returned: none was fetched since that read was started, there is no current row,
or the partition of the current row has no other row and no other partition is in the queue. -/
def RangeScan.Idle (s : RangeScan ι ρ τ) : Prop :=
  s.readFirst = true ∨ ∀ part ∈ s.topEntry, s.file part = [] ∧ s.queue.elements ≤ 1

section Read
variable [LinearOrder κ] {tbl : PartTable β ρ} {t : Index ρ τ κ} {ranges : List (KeyMultiRange β ι)}

theorem fst_of_mem_answer {i j : Nat} {x : Nat × ρ} (hx : x ∈ tbl.answer ranges i [j]) : x.1 = j := by
  rw [PartTable.answer, flatMap_singleton] at hx
  cases hr : ranges[j]? with
  | none => simp [hr] at hx
  | some r =>
    rw [hr] at hx
    obtain ⟨a, -, rfl⟩ := mem_map.mp hx
    rfl

theorem answer_sorted (hsorted : tbl.Sorted t ranges) {i : Nat} (hi : tbl.readPartitions i = true) :
    (tbl.answer ranges i (List.range ranges.length)).Pairwise t.RangeLe := by
  refine pairwise_flatMap.mpr ⟨fun k _ => ?_, pairwise_lt_range.imp fun {k k'} hlt a ha b hb => .inl ?_⟩
  · cases hr : ranges[k]? with
    | none => exact List.Pairwise.nil
    | some r =>
      refine pairwise_map.mpr ((hsorted i hi r (mem_of_getElem? hr)).imp fun h => .inr ⟨rfl, h⟩)
  · have ha : a ∈ tbl.answer ranges i [k] := by rwa [PartTable.answer, flatMap_singleton]
    have hb : b ∈ tbl.answer ranges i [k'] := by rwa [PartTable.answer, flatMap_singleton]
    rw [fst_of_mem_answer ha, fst_of_mem_answer hb]
    exact hlt

theorem answer_bound {i : Nat} {a : Nat × ρ} (ha : a ∈ tbl.answer ranges i (List.range ranges.length)) :
    a.1 < ranges.length := by
  obtain ⟨k, hk, hmem⟩ := mem_flatMap.mp ha
  cases hr : ranges[k]? with
  | none => simp [hr] at hmem
  | some r =>
    rw [hr] at hmem
    obtain ⟨b, -, rfl⟩ := mem_map.mp hmem
    exact mem_range.mp hk

variable {n : Nat} {parts : List Nat} {s : RangeScan ι ρ τ}

/-- **A run**: the rows behind the one that was returned. -/
theorem readAll_spec (hn : n < uintMax32) (hnodup : parts.Nodup) (h : s.Returned t n parts)
    (hparts : s.parts tbl = parts) (hfirst : s.readFirst = false) :
    ∃ k out, s.readAll tbl t k = some (out.map fun y => (s.ptr y.1, y.2)) ∧ (s.topRow :: out).Perm (s.pending parts) ∧
      (s.topRow :: out).Pairwise t.RangeLe := by
  induction hlen : (s.pending parts).length using Nat.strong_induction_on generalizing s with
  | _ len ih =>
    rcases handleOrderedNext_ranges hn hnodup h hparts with ⟨s', hnext, hperm⟩ | ⟨s', hnext, hs', hperm, hfixed⟩
    · refine ⟨1, [], ?_, hperm.symm, pairwise_singleton _ _⟩
      simp [readAll, multiRangeReadNext, hfirst, hnext]
    · have hless := hperm.length_eq
      rw [length_cons] at hless
      have hfirst' : s'.readFirst = s.readFirst := congrArg (fun x => x.2.2.2) hfixed
      have hptr : s'.ptr = s.ptr := congrArg (fun x => x.2.2.1) hfixed
      obtain ⟨k, out, hread, hout, hpair⟩ := ih _ (by omega) hs' ((parts_eq_of_fixed hfixed tbl).trans hparts)
        (hfirst'.trans hfirst) rfl
      have hall : (s.topRow :: s'.topRow :: out).Perm (s.pending parts) := (hout.cons _).trans hperm.symm
      refine ⟨k + 1, s'.topRow :: out, ?_, hall, pairwise_cons.mpr ⟨fun a ha => ?_, hpair⟩⟩
      · simp only [readAll, multiRangeReadNext, hfirst, hnext, Bool.false_eq_true, if_false, hread,
          Option.map_some, map_cons, ← hs'.top_mem.2, hptr]
      · exact h.topRow_le (hall.subset (mem_cons_of_mem _ ha))

theorem started_exact (hs : s.Started tbl ranges) (hn : ranges.length < uintMax32) (hsorted : tbl.Sorted t ranges) :
    ∃ (k : Nat) (out : List (Nat × ρ)), s.readAll tbl t k = some (out.map fun y => (s.ptr y.1, y.2)) ∧
      out.Pairwise t.RangeLe ∧ out.Perm (tbl.allRows ranges) := by
  have hnodup : tbl.readParts.Nodup := nodup_range.filter _
  have hactive : s.active tbl.readParts = tbl.readParts := by
    rw [active, hs.used]
    exact filter_eq_self.mpr fun i hi => (mem_filter.mp hi).2
  have hread : ∀ i ∈ s.active tbl.readParts, tbl.readPartitions i = true := by
    intro i hi
    rw [hactive] at hi
    exact (mem_filter.mp hi).2
  have hrows : (s.active tbl.readParts).flatMap s.file = tbl.allRows ranges := by
    rw [hactive]
    exact flatMap_congr fun i hi => hs.file i (mem_filter.mp hi).2
  rcases handleOrderedIndexScan_ranges hn hnodup hs.parts hs.current
    (fun i hi => hs.file i (hread i hi) ▸ answer_sorted hsorted (hread i hi))
    (fun i hi a ha => answer_bound (hs.file i (hread i hi) ▸ ha)) with ⟨s', hfirst, hnil⟩ |
      ⟨s', hfirst, hs', hpending, hfixed⟩
  · refine ⟨1, [], ?_, List.Pairwise.nil, ?_⟩
    · simp [readAll, multiRangeReadNext, hs.readFirst, hfirst]
    · rw [← hrows, hnil]
  · have hptr : s'.ptr = s.ptr := congrArg (fun x => x.2.2.1) hfixed
    obtain ⟨k, out, hread', hout, hpair⟩ := readAll_spec (s := { s' with readFirst := false }) hn hnodup
      ⟨⟨hs'.sorted, hs'.bound, hs'.queue, hs'.current_le, hs'.stock⟩, hs'.ordered, hs'.maxAtTop, hs'.pos, hs'.topEntry⟩
      ((parts_eq_of_fixed hfixed tbl).trans hs.parts) rfl
    refine ⟨k + 1, s'.topRow :: out, ?_, hpair, hout.trans (.of_eq (hpending.trans hrows))⟩
    have hcall : s.multiRangeReadNext tbl t = (some (s'.ptr s'.current, s'.topRow.2), { s' with readFirst := false }) := by
      simp only [multiRangeReadNext, hs.readFirst, hfirst, if_true]
    rw [readAll, hcall, ← hptr]
    dsimp only
    rw [hread', Option.map_some, map_cons, hs'.top_mem.2]

theorem multiRangeReadInit_nil (s : RangeScan ι ρ τ) :
    s.multiRangeReadInit tbl [] = { s with used := fun _ => false, current := 0 } := rfl

theorem getNext_unused (hused : ∀ i, s.used i = false) (part : Option Nat) : (s.getNext tbl t part).1.isSome =
    part.isSome := by
  have hactive : s.active (s.parts tbl) = [] := filter_eq_nil_iff.mpr fun i _ => by simp [hused i]
  have hmax : s.smallestStock (s.parts tbl) = uintMax32 := (smallestStock_spec _ s).2.resolve_right (by simp [hactive])
  unfold getNext
  rw [if_neg fun hne => hne hmax]
  cases part <;> rfl

variable (tbl : PartTable β ρ) (t : Index ρ τ κ) (ranges : List (KeyMultiRange β ι))

theorem handleOrderedIndexScan_unused (hused : ∀ i, s.used i = false) (hcurrent : s.current = 0) :
    (s.handleOrderedIndexScan tbl t).1 = none := by
  have hactive : s.active (s.parts tbl) = [] := filter_eq_nil_iff.mpr fun i _ => by simp [hused i]
  rcases handleOrderedIndexScan_ranges (t := t) (n := 0) (by decide)
    (show (s.parts tbl).Nodup from nodup_range.filter _) rfl hcurrent
    (by simp [hactive]) (by simp [hactive]) with ⟨s', hfirst, -⟩ | ⟨s', -, hs', hpending, -⟩
  · rw [hfirst]
  · have hmem : s'.topRow ∈ s'.pending (s.parts tbl) :=
      mem_flatMap.mpr ⟨_, hs'.top_mem.1, mem_cons_self⟩
    rw [hpending, hactive] at hmem
    exact absurd hmem not_mem_nil

/-- Without used partitions a further read finds the end if the top partition was the last and has no more rows. -/
theorem handleOrderedNext_unused (hused : ∀ i, s.used i = false) :
    (s.handleOrderedNext tbl t).1 = none ↔ ∀ part ∈ s.topEntry, s.file part = [] ∧ s.queue.elements ≤ 1 := by
  rw [← Option.not_isSome_iff_eq_none]
  unfold handleOrderedNext
  cases htop : s.topEntry with
  | none => simp
  | some part =>
    dsimp only
    cases hfile : s.file part with
    | nil =>
      have hstill : ∀ i, Function.update s.used part false i = false := by
        intro i
        by_cases hi : i = part
        · rw [hi, Function.update_self]
        · rw [Function.update_of_ne hi, hused]
      dsimp only
      split_ifs with hpos hone
      · simp [returnTop, hfile]
        simp [Heap.removeTop] at hone
        omega
      · rw [getNext_unused hstill]
        simp [Heap.removeTop] at hone
        simp [hfile]
        omega
      · rw [getNext_unused hstill]
        simp [hfile]
        omega
    | cons a as =>
      dsimp only
      split_ifs
      · refine iff_of_false (fun hnone => hnone (getNext_unused (by exact hused) _)) (by simp [hfile])
      · simp [returnTop, hfile]
      · simp [returnTop, hfile]

theorem multiRangeReadNext_nil (s : RangeScan ι ρ τ) :
    ((s.multiRangeReadInit tbl []).multiRangeReadNext tbl t).1 = none ↔ s.Idle := by
  rw [multiRangeReadInit_nil]
  set s₀ := { s with used := fun _ => false, current := 0 } with hs₀
  have hused : ∀ i, s₀.used i = false := fun _ => rfl
  unfold multiRangeReadNext
  cases hfirst : s.readFirst with
  | true =>
    have hend := handleOrderedIndexScan_unused tbl t hused rfl
    refine iff_of_true ?_ (.inl hfirst)
    cases hcall : s₀.handleOrderedIndexScan tbl t with
    | mk row s' =>
      obtain rfl : row = none := by rw [hcall] at hend; exact hend
      rfl
  | false =>
    have hend := handleOrderedNext_unused tbl t hused
    rw [if_neg Bool.false_ne_true, Idle, hfirst]
    simp only [Bool.false_eq_true, false_or]
    refine Iff.trans ?_ hend
    cases hcall : s₀.handleOrderedNext tbl t with
    | mk row s' => cases row <;> simp

theorem exact_nil_iff (s : RangeScan ι ρ τ) : Exact tbl t [] s ↔ s.Idle := by
  rw [← multiRangeReadNext_nil tbl t]
  have hrows : tbl.allRows ([] : List (KeyMultiRange β ι)) = [] := by simp [PartTable.allRows, PartTable.answer]
  constructor
  · rintro ⟨k, result, out, hread, hlabel, -, hperm⟩
    rw [hrows, perm_nil] at hperm
    obtain rfl : result = [] := by rw [hperm] at hlabel; exact List.forall₂_nil_right_iff.mp hlabel
    cases k with
    | zero => exact absurd hread (by simp [readAll])
    | succ k =>
      rw [readAll] at hread
      cases hcall : (s.multiRangeReadInit tbl []).multiRangeReadNext tbl t with
      | mk row s' =>
        rw [hcall] at hread
        cases row with
        | none => rfl
        | some a => simp at hread
  · intro hnone
    refine ⟨1, [], [], ?_, .nil, .nil, hrows ▸ .refl _⟩
    rw [readAll]
    cases hcall : (s.multiRangeReadInit tbl []).multiRangeReadNext tbl t with
    | mk row s' =>
      obtain rfl : row = none := by rw [hcall] at hnone; exact hnone
      rfl

end Read

/-! ## Runs -/

def numberIndex : Index Nat Nat Nat := ⟨id, id, fun a b => a - b, false, false⟩

def numberTable : PartTable (Nat × Nat) Nat where
  totParts := 3
  readPartitions i := decide (i < 3)
  read_lt _ h := of_decide_eq_true h
  getPartitionSet _ := (0, 0)
  rows i r := (List.range 100).filter fun a => a % 3 = i ∧ r.1 ≤ a ∧ a < r.2

def newScan : RangeScan Char Nat Nat :=
  ⟨⟨fun _ => [], fun _ => ⟨(0, 0), 0⟩, ⟨fun _ => 0, 0⟩, 1, none⟩, fun _ => false, fun _ => 0, 0, 0, 0, fun _ => 'a', false⟩

theorem numberTable_sorted (ranges : List (KeyMultiRange (Nat × Nat) Char)) : numberTable.Sorted numberIndex ranges :=
  fun _ _ _ _ => (pairwise_lt_range.filter _).imp fun h => le_of_lt h

def leftScan : RangeScan Char Nat Nat :=
  ((newScan.multiRangeReadInit numberTable [⟨(10, 13), none, 'x'⟩]).multiRangeReadNext numberTable numberIndex).2

end TSpider.Merge

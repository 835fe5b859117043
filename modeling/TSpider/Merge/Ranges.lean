import TSpider.Merge.Ordered

/-!
# Sorted multi-range reads over partitions

`ha_partition::multi_range_read_init` numbers the ranges and hands them to the partitions. Each partition returns its rows
range by range, with the range a row belongs to. `multi_range_read_next` merges the rows of the current range; a partition
that is already in a later range is parked with the number of that range (`m_stock_range_seq`) until no partition has rows
of the current one.

All multi-range reads of the handler are sorted ones (`HA_MRR_SORTED`), and no partition fails.
-/

namespace TSpider.Merge
open Function

open Lib (Heap)

def uintMax32 : Nat := 2 ^ 32 - 1

def haReadKeyExact : Nat := 0

/-- A `KEY_MULTI_RANGE`: its keys, the flag of the start key if there is one, and the caller's identifier. -/
structure KeyMultiRange (β ι : Type*) where
  keys : β
  startFlag : Option Nat
  ptr : ι

structure PartTable (β ρ : Type*) where
  totParts : Nat
  readPartitions : Nat → Bool
  read_lt : ∀ i, readPartitions i = true → i < totParts
  /-- The first and the last partition for a start key. -/
  getPartitionSet : β → Nat × Nat
  rows : Nat → β → List ρ

/-- The state of a multi-range read. A row stands with its range, a place in the list from `m_mrr_range_first` on. -/
structure RangeScan (ι ρ τ : Type*) extends OrderedScan (Nat × ρ) τ where
  /-- `m_mrr_used_partitions`. -/
  used : Nat → Bool
  /-- `m_stock_range_seq`. -/
  stock : Nat → Nat
  startPart : Nat
  endPart : Nat
  current : Nat
  ptr : Nat → ι
  readFirst : Bool

variable {β ι ρ τ κ : Type*}

/-! ## Starting -/

/-- What `multi_range_key_create_key` collects. -/
structure RangeKeys (ι : Type*) where
  used : Nat → Bool
  partRanges : Nat → List Nat
  ptr : Nat → ι
  partSpec : Nat × Nat

/-- The partitions of a range. The test for an exact start key is never true. -/
def PartTable.partSpec (tbl : PartTable β ρ) (r : KeyMultiRange β ι) : Nat × Nat :=
  if r.startFlag.any (fun flag => flag &&& haReadKeyExact ≠ 0) then tbl.getPartitionSet r.keys else (0, tbl.totParts - 1)

def PartTable.copies (tbl : PartTable β ρ) (r : KeyMultiRange β ι) (i : Nat) : Bool :=
  decide ((tbl.partSpec r).1 ≤ i) && decide (i ≤ (tbl.partSpec r).2) && tbl.readPartitions i

def multiRangeKeyCreateKey (tbl : PartTable β ρ) : Nat → List (KeyMultiRange β ι) → RangeKeys ι → RangeKeys ι
  | _, [], c => c
  | k, r :: ranges, c =>
    multiRangeKeyCreateKey tbl (k + 1) ranges
      { used := fun i => c.used i || tbl.copies r i
        partRanges := fun i => if tbl.copies r i then c.partRanges i ++ [k] else c.partRanges i
        ptr := update c.ptr k r.ptr
        partSpec := tbl.partSpec r }

def lastSet (p : Nat → Bool) : Nat → Option Nat
  | 0 => none
  | n + 1 => if p n then some n else lastSet p n

def PartTable.answer (tbl : PartTable β ρ) (ranges : List (KeyMultiRange β ι)) (i : Nat) (ks : List Nat) : List (Nat × ρ) :=
  ks.flatMap fun k => match ranges[k]? with
    | some r => (tbl.rows i r.keys).map fun a => (k, a)
    | none => []

/-- `ha_partition::multi_range_read_init`. It returns 0 also if there is no range, and leaves the rest as it is then. -/
def RangeScan.multiRangeReadInit (tbl : PartTable β ρ) (ranges : List (KeyMultiRange β ι)) (s : RangeScan ι ρ τ) :
    RangeScan ι ρ τ :=
  let c := multiRangeKeyCreateKey tbl 0 ranges ⟨fun _ => false, fun _ => [], s.ptr, (s.startPart, s.endPart)⟩
  if ranges = [] then { s with used := c.used, current := 0 }
  else
    { s with
      file := fun i => if c.used i then tbl.answer ranges i (c.partRanges i) else s.file i
      used := c.used
      stock := fun i => if c.used i then 0 else s.stock i
      startPart := ((List.range tbl.totParts).find? c.used).getD uintMax32
      endPart := (lastSet c.used tbl.totParts).getD c.partSpec.2
      current := 0
      ptr := c.ptr
      readFirst := true }

/-! ## Reading -/

section Read
variable [LinearOrder κ] (tbl : PartTable β ρ) (t : Index ρ τ κ)

/-- The comparison of the queue does not look at the range. -/
def Index.ranged : Index (Nat × ρ) τ κ where
  key a := t.key a.2
  position a := t.position a.2
  cmpRef := t.cmpRef
  usingExtendedKeys := t.usingExtendedKeys
  cmpRefIsExpensive := t.cmpRefIsExpensive

def rangeId (k : Nat) : Nat := (k + 1) % 2 ^ 32

/-- `while (m_mrr_range_current->id < smallest_range_seq)`; it stops after at most `smallest_range_seq` steps. -/
def seekRange (smallest : Nat) : Nat → Nat → Nat
  | 0, k => k
  | fuel + 1, k => if rangeId k < smallest then seekRange smallest fuel (k + 1) else k

variable (s : RangeScan ι ρ τ)

def RangeScan.parts : List Nat :=
  (List.range tbl.totParts).filter fun i => tbl.readPartitions i && decide (s.startPart ≤ i) && decide (i ≤ s.endPart)

def RangeScan.returnTop : Option ρ × RangeScan ι ρ τ :=
  (some (s.recs (s.queue.root 1)).row.2, { s with topEntry := some (s.queue.root 1) })

def RangeScan.store (file part : Nat) (a : Nat × ρ) (as : List (Nat × ρ)) : RangeScan ι ρ τ :=
  { s with
    file := update s.file file as
    recs := update s.recs part ⟨a, (s.recs part).ref⟩ }

def RangeScan.setRef (part : Nat) : RangeScan ι ρ τ :=
  if t.usingExtendedKeys then s
  else { s with recs := update s.recs part ⟨(s.recs part).row, t.position (s.recs part).row.2⟩ }

def RangeScan.fill (t : Index ρ τ κ) : List Nat → Nat → RangeScan ι ρ τ → Nat × RangeScan ι ρ τ
  | [], smallest, s => (smallest, s)
  | i :: parts, smallest, s =>
    if s.used i then
      match s.file i with
      | [] => { s with used := update s.used i false }.fill t parts smallest
      | a :: as =>
        let s := { s.store i i a as with stock := update s.stock i (rangeId a.1) }
        if rangeId a.1 ≠ rangeId s.current then
          s.fill t parts (if smallest = 0 ∨ smallest > rangeId a.1 then rangeId a.1 else smallest)
        else
          let s := s.setRef t i
          { s with queue := ⟨update s.queue.root (s.queue.elements + 1) i, s.queue.elements + 1⟩ }.fill t parts
            smallest
    else s.fill t parts smallest

/-- The parked partitions of a range enter the queue; `add` puts one into it. -/
def RangeScan.collect (add : Heap Nat → Nat → Heap Nat) (smallest : Nat) : List Nat → RangeScan ι ρ τ → RangeScan ι ρ τ
  | [], s => s
  | i :: parts, s =>
    if s.used i ∧ s.stock i = smallest then
      { s with stock := update s.stock i 0, queue := add s.queue i }.collect add smallest parts
    else s.collect add smallest parts

def RangeScan.fixAndReturn : Option ρ × RangeScan ι ρ τ :=
  let s := { s with maxAtTop := 1 }
  { s with queue := s.queue.fix (t.ranged.compare s.toOrderedScan) }.returnTop

def RangeScan.handleOrderedIndexScan :
    Option ρ × RangeScan ι ρ τ :=
  let s := { s with topEntry := none, queue := { s.queue with elements := 0 } }
  let (smallest, s) := s.fill t (s.parts tbl) 0
  let s := if s.queue.elements = 0 ∧ smallest ≠ 0 then
      let s := s.collect (fun q i => ⟨update q.root (q.elements + 1) i, q.elements + 1⟩) smallest (s.parts tbl)
      { s with current := seekRange smallest smallest s.current }
    else s
  if s.queue.elements = 0 then (none, s) else s.fixAndReturn t

def RangeScan.smallestStock (parts : List Nat) (s : RangeScan ι ρ τ) : Nat :=
  parts.foldl (fun smallest i => if s.used i ∧ smallest > s.stock i then s.stock i else smallest) uintMax32

/-- `handle_ordered_next` under `get_next`; `part` is the buffer of the row that was read, if one was. -/
def RangeScan.getNext (part : Option Nat) (s : RangeScan ι ρ τ) :
    Option ρ × RangeScan ι ρ τ :=
  let smallest := s.smallestStock (s.parts tbl)
  if smallest ≠ uintMax32 then
    let s := { s with queue := { s.queue with elements := 0 } }
    let s := s.collect (fun q i => q.insert (t.ranged.compare s.toOrderedScan) i) smallest (s.parts tbl)
    { s with current := seekRange smallest smallest s.current }.fixAndReturn t
  else
    match part with
    | none => (none, s)
    | some part =>
      let s := s.setRef t part
      { s with queue := s.queue.replaceTop (t.ranged.compare s.toOrderedScan) }.returnTop

def RangeScan.handleOrderedNext :
    Option ρ × RangeScan ι ρ τ :=
  match s.topEntry with
  | none => (none, s)
  | some part =>
    let top := s.queue.root 1
    match s.file part with
    | [] =>
      let s := { s with used := update s.used part false }
      if s.queue.elements ≠ 0 then
        let s := { s with queue := s.queue.removeTop (t.ranged.compare s.toOrderedScan) }
        if s.queue.elements ≠ 0 then s.returnTop else s.getNext tbl t none
      else s.getNext tbl t none
    | a :: as =>
      let s := s.store part top a as
      if rangeId a.1 ≠ rangeId s.current then
        let s := { s with
          stock := update s.stock part (rangeId a.1)
          queue := s.queue.removeTop (t.ranged.compare s.toOrderedScan) }
        if s.queue.elements = 0 then s.getNext tbl t (some top)
        else
          let s := s.setRef t top
          { s with queue := s.queue.replaceTop (t.ranged.compare s.toOrderedScan) }.returnTop
      else
        let s := s.setRef t top
        { s with queue := s.queue.replaceTop (t.ranged.compare s.toOrderedScan) }.returnTop

def RangeScan.multiRangeReadNext :
    Option (ι × ρ) × RangeScan ι ρ τ :=
  if s.readFirst then
    match s.handleOrderedIndexScan tbl t with
    | (none, s) => (none, s)
    | (some a, s) => (some (s.ptr s.current, a), { s with readFirst := false })
  else
    match s.handleOrderedNext tbl t with
    | (none, s) => (none, s)
    | (some a, s) => (some (s.ptr s.current, a), s)

def RangeScan.readAll (tbl : PartTable β ρ) (t : Index ρ τ κ) : Nat → RangeScan ι ρ τ → Option (List (ι × ρ))
  | 0, _ => none
  | k + 1, s =>
    match s.multiRangeReadNext tbl t with
    | (none, _) => some []
    | (some a, s) => (s.readAll tbl t k).map (a :: ·)

end Read

end TSpider.Merge

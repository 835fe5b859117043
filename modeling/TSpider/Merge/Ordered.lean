import TSpider.Lib.Heap

/-!
# Ordered index scans over partitions

`ha_partition::handle_ordered_index_scan` reads the first row of every used partition into the partition's record buffer and
makes a heap of the buffers. `handle_ordered_next` and `handle_ordered_prev` read the next row of the partition at the top
into its buffer and restore the heap, or remove the partition from the heap at the end of its rows.
-/

namespace TSpider.Merge

open Lib (Heap)

structure Index (ρ τ κ : Type*) where
  key : ρ → κ
  position : ρ → τ
  cmpRef : τ → τ → Int
  usingExtendedKeys : Bool
  cmpRefIsExpensive : Bool

structure Rec (ρ τ : Type*) where
  row : ρ
  ref : τ

structure OrderedScan (ρ τ : Type*) where
  /-- The rows that the partitions have not returned yet, in the direction of the scan. -/
  file : Nat → List ρ
  /-- `m_ordered_rec_buffer`. -/
  recs : Nat → Rec ρ τ
  /-- `m_queue`: the partitions whose record buffer is in use. -/
  queue : Heap Nat
  /-- -1 if the queue has the maximum at its top, 1 otherwise. -/
  maxAtTop : Int
  topEntry : Option Nat

variable {ρ τ κ : Type*} [LinearOrder κ] (t : Index ρ τ κ)

def Index.keyRecCmp (a b : ρ) : Int :=
  if t.key a < t.key b then -1 else if t.key b < t.key a then 1 else 0

def cmpPartIds (i j : Nat) : Int := if j > i then -1 else if j < i then 1 else 0

def Index.cmpKeyPartId (recs : Nat → Rec ρ τ) (i j : Nat) : Int :=
  let res := t.keyRecCmp (recs i).row (recs j).row
  if res ≠ 0 then res else cmpPartIds i j

def Index.cmpKeyRowidPartId (recs : Nat → Rec ρ τ) (i j : Nat) : Int :=
  let res := t.keyRecCmp (recs i).row (recs j).row
  if res ≠ 0 then res
  else
    let res := t.cmpRef (recs i).ref (recs j).ref
    if res ≠ 0 then res else cmpPartIds i j

variable (s : OrderedScan ρ τ)

/-- The comparison of the queue, with the sign that puts the minimum or the maximum at the top. -/
def Index.compare (i j : Nat) : Int :=
  (if t.usingExtendedKeys = false ∧ t.cmpRefIsExpensive = false then t.cmpKeyRowidPartId s.recs i j
    else t.cmpKeyPartId s.recs i j) * s.maxAtTop

def OrderedScan.returnTopRecord : Option ρ × OrderedScan ρ τ :=
  let part := s.queue.root 1
  (some (s.recs part).row, { s with topEntry := some part })

def OrderedScan.store (setRef : Bool) (s : OrderedScan ρ τ) (file part : Nat) (a : ρ) (as : List ρ) :
    OrderedScan ρ τ :=
  { s with
    file := Function.update s.file file as
    recs := Function.update s.recs part ⟨a, if setRef then t.position a else (s.recs part).ref⟩ }

def OrderedScan.fill (t : Index ρ τ κ) : List Nat → OrderedScan ρ τ → OrderedScan ρ τ
  | [], s => s
  | i :: parts, s =>
    match s.file i with
    | [] => s.fill t parts
    | a :: as =>
      let s := s.store t (!t.usingExtendedKeys) i i a as
      { s with queue := ⟨Function.update s.queue.root (s.queue.elements + 1) i, s.queue.elements + 1⟩ }.fill t parts

def OrderedScan.handleOrderedIndexScan (reverse : Bool) (parts : List Nat) (s : OrderedScan ρ τ) :
    Option ρ × OrderedScan ρ τ :=
  let s := { s with topEntry := none, queue := { s.queue with elements := 0 } }.fill t parts
  if s.queue.elements = 0 then (none, s)
  else
    let s := { s with maxAtTop := if reverse then -1 else 1 }
    { s with queue := s.queue.fix (t.compare s) }.returnTopRecord

/-- The common part of `handle_ordered_next` and `handle_ordered_prev`. -/
def OrderedScan.advance (setRef : Bool) (s : OrderedScan ρ τ) : Option ρ × OrderedScan ρ τ :=
  match s.topEntry with
  | none => (none, s)
  | some part =>
    match s.file part with
    | [] =>
      if s.queue.elements ≠ 0 then
        let s := { s with queue := s.queue.removeTop (t.compare s) }
        if s.queue.elements ≠ 0 then s.returnTopRecord else (none, s)
      else (none, s)
    | a :: as =>
      let s := s.store t setRef part (s.queue.root 1) a as
      { s with queue := s.queue.replaceTop (t.compare s) }.returnTopRecord

def OrderedScan.handleOrderedNext : Option ρ × OrderedScan ρ τ :=
  s.advance t (!t.usingExtendedKeys)

/-- `ha_partition::handle_ordered_prev`, which does not ask for the reference of the new row. -/
def OrderedScan.handleOrderedPrev : Option ρ × OrderedScan ρ τ :=
  s.advance t false

inductive ScanType where
  | indexFirst
  | readRange
  | indexLast
  deriving DecidableEq

def ScanType.reverse (type : ScanType) : Bool := type = .indexLast

def readRest (next : OrderedScan ρ τ → Option ρ × OrderedScan ρ τ) : Nat → OrderedScan ρ τ → Option (List ρ)
  | 0, _ => none
  | k + 1, s =>
    match next s with
    | (none, _) => some []
    | (some a, s) => (readRest next k s).map (a :: ·)

def orderedScan (type : ScanType) (parts : List Nat) (s : OrderedScan ρ τ) : Option (List ρ) :=
  match s.handleOrderedIndexScan t type.reverse parts with
  | (none, _) => some []
  | (some a, s') =>
    -- one call for each of the other rows, and one that finds the end
    let calls := (parts.flatMap s.file).length
    (readRest (if type.reverse then OrderedScan.handleOrderedPrev t else OrderedScan.handleOrderedNext t) calls s').map
      (a :: ·)

end TSpider.Merge

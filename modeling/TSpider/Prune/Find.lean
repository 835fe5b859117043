import Mathlib.Data.Finset.Basic
import TSpider.Prune.Tree

/-!
# Which partitions a condition needs

`find_used_partitions` walks an interval tree by recursion on left, right and the next key part. It has one pruning context
for the whole walk: the stack of intervals on the way, the keys stored for them, the iterator over partitions that the
partitioning fields have given so far, and a flag to ignore the rest of the partitioning fields. Each visit changes the
context and restores it. The answer `all` says that no limit was found; then the caller marks what it knows.
-/

namespace TSpider.Prune

inductive Answer
  | no
  | yes
  | all
  deriving DecidableEq, Repr

/-- The keys given to `get_part_iter_for_interval`; `NO_MIN_RANGE` and `NO_MAX_RANGE` stand for empty keys. -/
structure KeyRange (V : Type) where
  key : Side → List V
  near : Side → Bool

variable {R V : Type} [LinearOrder V]

/-- The values of the partitioning fields are in the range, in the lexicographic order. -/
def KeyRange.Within (k : KeyRange V) (vals : Nat → V) : Prop :=
  ∀ side, k.key side = [] ∨ Above side (k.near side) vals 0 (k.key side)

/-- A partitioned table: what the pruning uses of it, where its rows are stored, and what is assumed of the interval mappers
and partitioning functions if there are fields they go by. -/
structure PartInfo (R V : Type) [LinearOrder V] where
  partFields : Nat
  subpartFields : Nat
  numParts : Nat
  numSubparts : Nat
  subPartitioned : Bool
  versioning : Bool
  /-- The values of the key parts: first the partitioning, then the sub-partitioning fields. -/
  value : R → Nat → V
  part : R → Nat
  subpart : R → Nat
  getPartIterForInterval : Option (KeyRange V → Answer × List Nat)
  /-- `none` stands for all sub-partitions. -/
  getSubpartIterForInterval : Option (Interval V → Option (List Nat))
  getTopPartitionId : List V → Option Nat
  getSubpartitionId : List V → Nat
  part_lt : ∀ r, part r < numParts
  subpart_lt : ∀ r, subPartitioned = true → subpart r < numSubparts
  subPartitioned_of_fields : subpartFields ≠ 0 → subPartitioned = true
  versioning_field : versioning = true → partFields ≤ 1
  mapper_sound : partFields ≠ 0 → ∀ get ∈ getPartIterForInterval, ∀ k r, k.Within (value r) →
    (get k).1 = .all ∨ (get k).1 = .yes ∧ part r ∈ (get k).2
  subMapper_sound : subpartFields ≠ 0 → ∀ get ∈ getSubpartIterForInterval, ∀ iv r,
    iv.Ok (value r (partFields + subpartFields - 1)) → ∀ ids ∈ get iv, subpart r ∈ ids
  top_sound : partFields ≠ 0 → ∀ r, getTopPartitionId ((List.range' 0 partFields).map (value r)) = some (part r)
  sub_sound : subpartFields ≠ 0 → ∀ r, getSubpartitionId ((List.range' partFields subpartFields).map (value r)) = subpart r

/-- `PART_PRUNE_PARAM`, with `read_partitions` as the set of its bits. The end of `argStack` is its top. -/
structure Ppar (V : Type) where
  argStack : List (Nat × Interval V)
  curPartFields : Nat
  curSubpartFields : Nat
  curKey : Side → List V
  curFlag : Side → Flag
  ignorePartFields : Bool
  partIter : List Nat
  readPartitions : Finset Nat

namespace PartInfo

variable (p : PartInfo R V)

def stored (r : R) : Nat := if p.subPartitioned then p.part r * p.numSubparts + p.subpart r else p.part r

def bits : Nat := if p.subPartitioned then p.numParts * p.numSubparts else p.numParts

def allPartitions : List Nat := List.range p.numParts

def fullPartition (id : Nat) : List Nat :=
  if p.subPartitioned then (List.range p.numSubparts).map (id * p.numSubparts + ·) else [id]

def subpartitions (ids subs : List Nat) : Finset Nat :=
  (ids.flatMap fun id => (subs.filter (· < p.numSubparts)).map (id * p.numSubparts + ·)).toFinset

def push (part : Nat) (iv : Interval V) (s : Ppar V) : Ppar V :=
  { s with
    argStack := s.argStack ++ [(part, iv)]
    curPartFields := s.curPartFields + if part < p.partFields then 1 else 0
    curSubpartFields := s.curSubpartFields + if part < p.partFields then 0 else 1 }

def pop (part : Nat) (s : Ppar V) : Ppar V :=
  { s with
    argStack := s.argStack.dropLast
    curPartFields := s.curPartFields - if part < p.partFields then 1 else 0
    curSubpartFields := s.curSubpartFields - if part < p.partFields then 0 else 1 }

end PartInfo

def Interval.isSinglepoint (iv : Interval V) : Bool :=
  iv.min.flag == .zero && iv.max.flag == .zero && decide (iv.min.value = iv.max.value)

namespace PartInfo

variable (p : PartInfo R V)

def goOn (next : SelArg V) (walk : Ppar V → Answer × Ppar V) (s : Ppar V) : Answer × Ppar V :=
  if next.isNull then (.all, s) else walk s

/-- `process_next_key_part` after the iterator was set: without a limit on the sub-partitions whole partitions are marked. -/
def markFull (res : Answer × Ppar V) : Answer × Ppar V :=
  let marked :=
    if res.1 = .all then
      (if res.2.partIter = [] then .no else .yes,
        { res.2 with readPartitions := res.2.readPartitions ∪ (res.2.partIter.flatMap p.fullPartition).toFinset })
    else res
  (marked.1, { marked.2 with partIter := p.allPartitions })

/-- `process_next_key_part` with the flag set to ignore the rest of the partitioning fields. -/
def ignoring (ignore : Bool) (walk : Ppar V → Answer × Ppar V) (s : Ppar V) : Answer × Ppar V :=
  if ignore then
    let res := walk { s with ignorePartFields := true }
    (res.1, { res.2 with ignorePartFields := false })
  else walk s

def continues (next : SelArg V) (part : Nat) : Bool :=
  !next.isNull && next.part == part + 1 && decide (next.part < p.partFields)

def rangeKey (side : Side) (part : Nat) (iv : Interval V) (next : SelArg V) (s : Ppar V) : List V × Flag :=
  let key := s.curKey side ++ Prune.stored (iv.bound side) (s.curFlag side)
  if p.continues next part && (iv.bound side).flag == .zero then storeKey side p.partFields next (key, .zero)
  else (key, (iv.bound side).flag)

def visitPart (get : KeyRange V → Answer × List Nat) (part : Nat) (iv : Interval V) (next : SelArg V)
    (walk : Ppar V → Answer × Ppar V) (s : Ppar V) : Answer × Ppar V :=
  if p.continues next part && decide (Prune.stored iv.min (s.curFlag .min) = Prune.stored iv.max (s.curFlag .max)) &&
      iv.min.flag == .zero && iv.max.flag == .zero then
    -- An equality: the next part continues the keys.
    let res := walk { s with
      curKey := fun side => s.curKey side ++ Prune.stored (iv.bound side) (s.curFlag side)
      curFlag := fun side => (s.curFlag side).or (iv.bound side).flag }
    (res.1, { res.2 with curKey := s.curKey, curFlag := s.curFlag })
  else
    let k : KeyRange V := ⟨fun side => (p.rangeKey side part iv next s).1, fun side =>
      (p.rangeKey side part iv next s).2.near⟩
    let got := if (s.argStack.head?.any (·.1 == 0)) || p.versioning then get k else (.all, s.partIter)
    if got.1 = .no then (.no, { s with partIter := got.2 })
    else
      let iter := if got.1 = .all then p.allPartitions else got.2
      p.markFull (ignoring (decide (part + 1 < p.partFields)) (goOn next walk) { s with partIter := iter })

def visitOther (part : Nat) (iv : Interval V) (next : SelArg V) (walk : Ppar V → Answer × Ppar V) (s : Ppar V) :
    Answer × Ppar V :=
  if iv.isSinglepoint then
    if part + 1 = p.partFields ∧ s.curPartFields = p.partFields ∧ p.getPartIterForInterval.isNone then
      match p.getTopPartitionId ((s.argStack.take p.partFields).map (·.2.min.value)) with
      | none => (.no, s)
      | some id => p.markFull (goOn next walk { s with partIter := [id] })
    else if p.subpartFields ≠ 0 ∧ part + 1 = p.partFields + p.subpartFields ∧ s.curSubpartFields = p.subpartFields then
      let id := p.getSubpartitionId ((s.argStack.drop (s.argStack.length - p.subpartFields)).map (·.2.min.value))
      (.yes, { s with readPartitions := s.readPartitions ∪ p.subpartitions s.partIter [id] })
    else goOn next walk s
  else if p.partFields ≤ part + 1 then (.all, s)
  else ignoring true (goOn next walk) s

def visit (ignore : Bool) (part : Nat) (iv : Interval V) (next : SelArg V) (walk : Ppar V → Answer × Ppar V)
    (s : Ppar V) : Answer × Ppar V :=
  if ignore then goOn next walk s
  else
    match (if part < p.partFields then p.getPartIterForInterval else none) with
    | some get => p.visitPart get part iv next walk s
    | none =>
      match (if p.subpartFields ≠ 0 ∧ part + 1 = p.partFields + p.subpartFields then p.getSubpartIterForInterval
        else none) with
      | some get =>
        match get iv with
        | none => (.all, s)
        | some subs => (.yes, { s with readPartitions := s.readPartitions ∪ p.subpartitions s.partIter subs })
      | none => p.visitOther part iv next walk s

/-- `left_res || right_res || res` of answers that are not `all`. -/
def anyYes (left right own : Answer) : Answer := if left = .yes ∨ right = .yes ∨ own = .yes then .yes else .no

def findUsedPartitions : SelArg V → Ppar V → Answer × Ppar V
  | .nullElement, s => (.no, s)
  | .node part iv left right next, s =>
    let l := findUsedPartitions left s
    if l.1 = .all then l
    else
      let own := p.visit s.ignorePartFields part iv next (findUsedPartitions next) (p.push part iv l.2)
      let popped := p.pop part own.2
      if own.1 = .all then (.all, popped)
      else
        let r := findUsedPartitions right popped
        if r.1 = .all then r else (anyYes l.1 r.1 own.1, r.2)

def restart (s : Ppar V) : Ppar V :=
  { s with
    argStack := []
    curPartFields := 0
    curSubpartFields := 0
    curKey := fun _ => []
    curFlag := fun _ => .zero
    partIter := p.allPartitions }

/-- `find_used_partitions_imerge`: trees joined by OR; one without intervals for the key is `nullElement`. -/
def findUsedPartitionsImerge : List (SelArg V) → Answer → Ppar V → Answer × Ppar V
  | [], res, s => (res, s)
  | t :: trees, res, s =>
    if t.isNull then (.all, p.restart s)
    else
      let r := p.findUsedPartitions t (p.restart s)
      if r.1 = .all then r else findUsedPartitionsImerge trees (anyYes res .no r.1) r.2

/-- `find_used_partitions_imerge_list`: the members are joined by AND, and their bits are collected in `all`. -/
def findUsedPartitionsImergeList : List (List (SelArg V)) → Finset Nat → Ppar V → Answer × Ppar V
  | [], all, s => (.yes, { s with readPartitions := all })
  | m :: merges, all, s =>
    let r := p.findUsedPartitionsImerge m .no s
    if r.1 = .no then r
    else
      let all := if r.1 = .all then all else all ∩ r.2.readPartitions
      if all = ∅ then (.no, r.2)
      else findUsedPartitionsImergeList merges all { r.2 with readPartitions := ∅ }

end PartInfo

inductive TreeType
  | impossible
  | always
  | maybe
  | key
  | keySmaller
  deriving DecidableEq, Repr

/-- A `SEL_TREE`: the intervals for the key, and the lists of trees that could not be brought into one. -/
structure SelTree (V : Type) [LinearOrder V] where
  type : TreeType
  keys : SelArg V
  merges : List (List (SelArg V))
  keys_wf : keys.WellFormed
  merges_wf : ∀ m ∈ merges, ∀ t ∈ m, t.WellFormed

def SelArg.SatOpt (vals : Nat → V) (t : SelArg V) : Prop := t.isNull = true ∨ t.Sat vals

def SelTree.Sat (vals : Nat → V) (t : SelTree V) : Prop :=
  match t.type with
  | .impossible => False
  | .always | .maybe => True
  | .key | .keySmaller => t.keys.SatOpt vals ∧ ∀ m ∈ t.merges, ∃ k ∈ m, k.SatOpt vals

namespace PartInfo

variable (p : PartInfo R V)

def initial : Ppar V := p.restart ⟨[], 0, 0, fun _ => [], fun _ => .zero, false, [], ∅⟩

def walkTree (t : SelTree V) : Answer × Ppar V :=
  match t.merges with
  | [] => if t.keys.isNull then (.all, p.initial) else p.findUsedPartitions t.keys p.initial
  | [m] => p.findUsedPartitionsImerge m .no p.initial
  | merges => p.findUsedPartitionsImergeList merges (Finset.range p.bits) p.initial

/-- The answer of `prune_partitions` to a tree before the locked partitions are looked at, and the bits marked. -/
def usedPartitions (tree : Option (SelTree V)) : Answer × Finset Nat :=
  match tree with
  | none => (.all, ∅)
  | some t =>
    match t.type with
    | .impossible => (.no, ∅)
    | .always | .maybe => (.all, ∅)
    | .key | .keySmaller => ((p.walkTree t).1, (p.walkTree t).2.readPartitions)

/-- `prune_partitions`: whether no partition is used, and `read_partitions`. The condition may be missing. -/
def prunePartitions (lock : Finset Nat) (cond : Option (Option (SelTree V))) : Bool × Finset Nat :=
  match cond with
  | none => (false, lock)
  | some tree =>
    if p.partFields + p.subpartFields = 0 then (false, lock)
    else
      let used := p.usedPartitions tree
      let read := if used.1 = .all then lock else used.2 ∩ lock
      (used.1 == .no || decide (read = ∅), read)

end PartInfo

end TSpider.Prune

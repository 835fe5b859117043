import Mathlib.Order.WithBot
import TSpider.Prune.Tree

/-!
# The keys of an index range and the WHERE clause for the shard

`get_quick_keys` turns an interval tree into ranges with a start key and an end key. `read_range_first_internal` hands the two
keys to `spider_db_append_key_where_internal`, which walks them column by column and appends one comparison of the column
for each key, with an operator that follows the flag of the whole key.

NULL is the first value of a column, `⊥`. No key part is a part of a column only (then `=` becomes LIKE), and the WHERE clause
is that of a SELECT statement, not of a HANDLER statement.
-/

namespace TSpider.Range

open Prune (Side Flag Bound Interval SelArg stored storeKey)

/-! ## The range optimizer -/

structure QuickRange (V : Type) where
  minKey : List V
  maxKey : List V
  nearMin : Bool
  nearMax : Bool
  eqRange : Bool
  deriving DecidableEq, Repr

section Keys
variable {V : Type} [DecidableEq V]

def quickRange (min max : List V × Flag) : QuickRange V where
  minKey := min.1
  maxKey := max.1
  nearMin := min.2.near
  nearMax := max.2.near
  eqRange := !min.2.near && !max.2.near && decide (min.1 ≠ []) && decide (max.1 ≠ []) && decide (min.1 = max.1)

/-- `store_min_key` and `store_max_key` for the next key part, unless the own bound has a flag. -/
def nextKey (side : Side) (next : SelArg V) (b : Bound V) (key : List V) : List V × Flag :=
  if b.flag = .zero then storeKey side 0 next (key, b.flag) else (key, b.flag)

def getQuickKeys : SelArg V → List V × Flag → List V × Flag → List (QuickRange V)
  | .nullElement, _, _ => []
  | .node part iv left right next, min, max =>
    let tmpMin := min.1 ++ stored iv.min min.2
    let tmpMax := max.1 ++ stored iv.max max.2
    let here :=
      if !next.isNull && next.part == part + 1 then
        -- a constant key part
        if stored iv.min min.2 = stored iv.max max.2 ∧ iv.min.flag = .zero ∧ iv.max.flag = .zero then
          getQuickKeys next (tmpMin, min.2.or iv.min.flag) (tmpMax, max.2.or iv.max.flag)
        else [quickRange (nextKey .min next iv.min tmpMin) (nextKey .max next iv.max tmpMax)]
      else [quickRange (tmpMin, iv.min.flag) (tmpMax, iv.max.flag)]
    getQuickKeys left min max ++ here ++ getQuickKeys right min max

end Keys

/-! ## The WHERE clause -/

/-- `ha_rkey_function`, without the spatial values. -/
inductive RKey
  | keyExact
  | keyOrNext
  | keyOrPrev
  | afterKey
  | beforeKey
  | readPrefix
  | prefixLast
  | prefixLastOrPrev
  deriving DecidableEq, Repr

inductive Cmp
  | eq
  | gt
  | ge
  | lt
  | le
  deriving DecidableEq, Repr

inductive Atom (W : Type)
  | isNull
  | isNotNull
  | cmp (op : Cmp) (value : W)
  deriving DecidableEq, Repr

structure KeyRange (W : Type) where
  key : List (WithBot W)
  flag : RKey

variable {W : Type}

/-- `spider_mysql_handler::append_is_null`: what stands for a NULL value. -/
def appendIsNull (keyEq : Bool) (flag : RKey) : Atom W :=
  if keyEq ∨ flag = .keyExact ∨ flag = .keyOrNext then .isNull else .isNotNull

/-- A value that is the same in both keys, or one before the last of a key without partner. -/
def eqAtom (flag : RKey) : WithBot W → Atom W
  | none => appendIsNull true flag
  | some w => .cmp .eq w

def RKey.startCmp : RKey → Cmp
  | keyExact | prefixLast => .eq
  | afterKey => .gt
  | beforeKey => .lt
  | keyOrPrev | prefixLastOrPrev => .le
  | keyOrNext | readPrefix => .ge

def RKey.endCmp : RKey → Cmp
  | beforeKey => .lt
  | _ => .le

def keyAtom (op : Cmp) (flag : RKey) : WithBot W → Atom W
  | none => appendIsNull false flag
  | some w => .cmp op w

def Atom.stops : Atom W → Bool
  | .cmp .gt _ | .cmp .lt _ => true
  | _ => false

section Where
variable [DecidableEq W]

/-- The walk over both keys from column `i` on; it ends in the column after the shorter key. -/
def bothWhere (sf ef : RKey) : Nat → List (WithBot W) → List (WithBot W) → List (Nat × Atom W)
  | _, [], [] => []
  | i, s :: _, [] => [(i, keyAtom sf.startCmp sf s)]
  | i, [], e :: _ => [(i, keyAtom ef.endCmp ef e)]
  | i, s :: ss, e :: es =>
    if s = e then (i, eqAtom sf s) :: bothWhere sf ef (i + 1) ss es
    else
      let start := keyAtom sf.startCmp sf s
      let stop := keyAtom ef.endCmp ef e
      (i, start) :: (i, stop) :: if start.stops ∨ stop.stops then [] else bothWhere sf ef (i + 1) ss es

def loneWhere (op : Cmp) (flag : RKey) : Nat → List (WithBot W) → List (Nat × Atom W)
  | _, [] => []
  | i, [v] => [(i, keyAtom op flag v)]
  | i, v :: vs => (i, eqAtom flag v) :: loneWhere op flag (i + 1) vs

/-- `spider_db_append_key_where_internal`: the comparisons that it connects with AND. -/
def appendKeyWhere : Option (KeyRange W) → Option (KeyRange W) → List (Nat × Atom W)
  | none, none => []
  | some s, none => loneWhere s.flag.startCmp s.flag 0 s.key
  | none, some e => loneWhere e.flag.endCmp e.flag 0 e.key
  | some s, some e => if s.key = [] ∨ e.key = [] then [] else bothWhere s.flag e.flag 0 s.key e.key

/-- `QUICK_RANGE::make_min_endpoint`; an empty key is handed over as a null pointer. -/
def QuickRange.minEndpoint (r : QuickRange (WithBot W)) : Option (KeyRange W) :=
  if r.minKey = [] then none
  else some ⟨r.minKey, if r.nearMin then .afterKey else if r.eqRange then .keyExact else .keyOrNext⟩

def QuickRange.maxEndpoint (r : QuickRange (WithBot W)) : Option (KeyRange W) :=
  if r.maxKey = [] then none else some ⟨r.maxKey, if r.nearMax then .beforeKey else .afterKey⟩

/-- The WHERE clause of `ha_spider::read_range_first_internal`. -/
def QuickRange.keyWhere (r : QuickRange (WithBot W)) : List (Nat × Atom W) :=
  appendKeyWhere r.minEndpoint (if r.eqRange then none else r.maxEndpoint)

end Where

end TSpider.Range

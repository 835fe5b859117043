import TSpider.Lib.Bag

/-!
# FROM clauses

* `TableRef` : a `table_ref` of the grammar; `TableRef.stored` : the `TABLE_LIST` tree that the parser makes of it. Every join
  is a nest of two with the operand read last in front; the condition and the outer-join flag stand at the inner operand; a
  right join is stored as the left join of the exchanged operands with the flag `right`;
* `TableRef.locals` : the tables in the order of `next_local`, each with the nests around it;
* `TableRef.denote` : the bag of records of a clause, for all contents of the tables and meanings of the conditions. A record
  gives each table one of its rows, or none where the table is not in the join or is filled up with NULLs.

Joins with USING and NATURAL joins are left out.
-/

namespace TSpider.Join

open Lib.Bag List

variable {T C R : Type}

inductive TableRef (T C : Type) where
  | table (t : T)
  | join (l r : TableRef T C) (on : Option C)
  | leftJoin (l r : TableRef T C) (on : C)
  | rightJoin (l r : TableRef T C) (on : C)
  deriving DecidableEq, Repr

inductive OuterJoin where
  | none
  | left
  | right
  deriving DecidableEq, Repr

/-- A `TABLE_LIST`: a table, or a nest with its `join_list`. -/
inductive TableList (T C : Type) where
  | table (t : T) (outerJoin : OuterJoin) (onExpr : Option C)
  | nest (joinList : List (TableList T C)) (outerJoin : OuterJoin) (onExpr : Option C)

/-! ## What the parser stores -/

def TableRef.tables : TableRef T C → List T
  | table t => [t]
  | join l r _ => l.tables ++ r.tables
  | leftJoin l r _ => l.tables ++ r.tables
  | rightJoin l r _ => l.tables ++ r.tables

/-- `nest_last_join`, `add_join_on` and `convert_right_join`; `j` and `on` are what the join around it writes. -/
def TableRef.stored (j : OuterJoin) (on : Option C) : TableRef T C → TableList T C
  | table t => .table t j on
  | join l r c => .nest [r.stored .none c, l.stored .none none] j on
  | leftJoin l r c => .nest [r.stored .left (some c), l.stored .none none] j on
  | rightJoin l r c => .nest [l.stored .right (some c), r.stored .none none] j on

/-- A table of the list `next_local`; `embedding` are the nests around it, the innermost one first. -/
structure Local (T C : Type) where
  table : T
  outerJoin : OuterJoin
  onExpr : Option C
  embedding : List (TableList T C)

def TableRef.locals (j : OuterJoin) (on : Option C) (outer : List (TableList T C)) : TableRef T C → List (Local T C)
  | table t => [⟨t, j, on, outer⟩]
  | join l r c =>
    l.locals .none none ((join l r c).stored j on :: outer) ++ r.locals .none c ((join l r c).stored j on :: outer)
  | leftJoin l r c =>
    l.locals .none none ((leftJoin l r c).stored j on :: outer) ++
      r.locals .left (some c) ((leftJoin l r c).stored j on :: outer)
  | rightJoin l r c =>
    l.locals .right (some c) ((rightJoin l r c).stored j on :: outer) ++
      r.locals .none none ((rightJoin l r c).stored j on :: outer)

theorem locals_tables (f : TableRef T C) (j : OuterJoin) (on : Option C) (outer : List (TableList T C)) :
    (f.locals j on outer).map Local.table = f.tables := by
  induction f generalizing j on outer with
  | table t => rfl
  | join l r c hl hr | leftJoin l r c hl hr | rightJoin l r c hl hr => simp [TableRef.locals, TableRef.tables, hl, hr]

/-! ## What a join denotes -/

structure Db (T C R : Type) where
  rows : T → Multiset R
  holds : C → (T → Option R) → Bool

def merge (e e' : T → Option R) : T → Option R := fun t => (e t).or (e' t)

namespace TableRef

variable [DecidableEq T]

def denote (db : Db T C R) : TableRef T C → Multiset (T → Option R)
  | table t => (db.rows t).map fun r => Function.update (fun _ => none) t (some r)
  | join l r none => cross merge (l.denote db) (r.denote db)
  | join l r (some c) => innerOn merge (db.holds c) (l.denote db) (r.denote db)
  | leftJoin l r c => leftOn merge (db.holds c) (l.denote db) (r.denote db)
  | rightJoin l r c => leftOn merge (db.holds c) (r.denote db) (l.denote db)

variable {db : Db T C R}

theorem denote_eq_none {f : TableRef T C} {e : T → Option R} {t : T} (he : e ∈ f.denote db) (ht : t ∉ f.tables) :
    e t = none := by
  have hmerge {x y : Multiset (T → Option R)} (hx : ∀ e ∈ x, e t = none) (hy : ∀ e ∈ y, e t = none) {e : T → Option R}
      (h : ∃ a ∈ x, ∃ b ∈ y, merge a b = e) : e t = none := by
    obtain ⟨a, ha, b, hb, rfl⟩ := h
    simp [merge, hx a ha, hy b hb]
  induction f generalizing e with
  | table t' =>
    obtain ⟨r, -, rfl⟩ := Multiset.mem_map.1 he
    exact Function.update_of_ne (by simpa [tables] using ht) _ _
  | join l r c ihl ihr =>
    obtain ⟨htl, htr⟩ : t ∉ l.tables ∧ t ∉ r.tables := by simpa [tables] using ht
    cases c with
    | none => exact hmerge (fun _ h => ihl h htl) (fun _ h => ihr h htr) (mem_cross.1 he)
    | some c => exact hmerge (fun _ h => ihl h htl) (fun _ h => ihr h htr) (mem_innerOn he)
  | leftJoin l r c ihl ihr =>
    obtain ⟨htl, htr⟩ : t ∉ l.tables ∧ t ∉ r.tables := by simpa [tables] using ht
    exact (mem_leftOn he).elim (ihl · htl) (hmerge (fun _ h => ihl h htl) fun _ h => ihr h htr)
  | rightJoin l r c ihl ihr =>
    obtain ⟨htl, htr⟩ : t ∉ l.tables ∧ t ∉ r.tables := by simpa [tables] using ht
    exact (mem_leftOn he).elim (ihr · htr) (hmerge (fun _ h => ihr h htr) fun _ h => ihl h htl)

end TableRef

end TSpider.Join

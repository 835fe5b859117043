import TSpider.Group.Walk

/-!
# The columns of the text

* `Recorded f cs` : the chain has the columns `cs` in their order;
* `columnsRight_iff` : when the text has the columns of the query behind the aliases of their tables.
-/

namespace TSpider.Group
open Fields List

/-! ## Recording -/

def Fields.fieldAt (f : Fields) (i : Nat) : Option Column := f.holders[i]?.map Holder.field

structure Recorded (f : Fields) (cs : List Column) : Prop where
  chain : f.chain.map f.fieldAt = cs.map some
  spider : ∀ h ∈ f.holders, h.spider = none

theorem recorded_empty : Recorded .empty [] := ⟨rfl, by simp [empty]⟩

theorem Recorded.addField {f : Fields} {cs : List Column} (h : Recorded f cs) (c : Column) :
    Recorded (f.addField c) (cs ++ [c]) := by
  rw [Fields.addField]
  cases hfind : f.holders.findIdx? (·.field = c) with
  | some i =>
    refine ⟨?_, h.spider⟩
    obtain ⟨hi, hc, -⟩ := List.findIdx?_eq_some_iff_getElem.mp hfind
    have hfield : f.fieldAt i = some c := by
      rw [Fields.fieldAt, List.getElem?_eq_getElem hi, Option.map_some]
      simpa using hc
    show (f.chain ++ [i]).map f.fieldAt = _
    rw [map_append, map_append, h.chain, map_singleton, hfield]
    rfl
  | none =>
    constructor
    · -- what stands before stays where it is
      have hold : ∀ i ∈ f.chain, (f.holders ++ [⟨c, none⟩])[i]?.map Holder.field = f.fieldAt i := by
        intro i hi
        have hmem : f.fieldAt i ∈ cs.map some := h.chain ▸ mem_map_of_mem hi
        obtain ⟨d, -, hd⟩ := mem_map.mp hmem
        obtain ⟨x, hx, -⟩ := Option.map_eq_some_iff.mp hd.symm
        have hlt : i < f.holders.length := (List.getElem?_eq_some_iff.mp hx).1
        rw [List.getElem?_append_left hlt, Fields.fieldAt]
      have hnew : (f.holders ++ [⟨c, none⟩])[f.holders.length]?.map Holder.field = some c := by simp
      show (f.chain ++ [f.holders.length]).map (fun i => (f.holders ++ [⟨c, none⟩])[i]?.map Holder.field) = _
      rw [map_append, map_congr_left hold, map_singleton, hnew, map_append]
      exact congrArg (· ++ [some c]) h.chain
    · intro x hx
      rcases mem_append.mp hx with hx | hx
      · exact h.spider x hx
      · rw [mem_singleton.mp hx]

theorem visitAll_accept {p : Pass} (hp : p.str = false) (cs : List Column) (f : Fields) :
    visitAll p cs f = some (cs.foldl addField f) := by
  induction cs generalizing f with
  | nil => rfl
  | cons c cs ih => rw [visitAll, visit, hp, if_neg Bool.false_ne_true, Option.bind_some, ih]; rfl

theorem Recorded.foldl {f : Fields} {cs : List Column} (h : Recorded f cs) (ds : List Column) :
    Recorded (ds.foldl Fields.addField f) (cs ++ ds) := by
  induction ds generalizing f cs with
  | nil => rwa [append_nil]
  | cons d ds ih =>
    have hstep := ih (h.addField d)
    rwa [append_assoc] at hstep

/-! ## Tables -/

structure Aliased (f : Fields) (cs : List Column) : Prop where
  chain : f.chain.map f.fieldAt = cs.map some
  spider : ∀ h ∈ f.holders, ∀ t, h.spider = some t → t = h.field.table

theorem Recorded.aliased {f : Fields} {cs : List Column} (h : Recorded f cs) : Aliased f cs := by
  refine ⟨h.chain, fun x hx t ht => ?_⟩
  rw [h.spider x hx] at ht
  cases ht

theorem Aliased.addTable {f : Fields} {cs : List Column} (h : Aliased f cs) (table : Nat) :
    Aliased (f.addTable table) cs := by
  constructor
  · have hfield : (f.addTable table).fieldAt = f.fieldAt := by
      funext i
      rw [Fields.fieldAt, Fields.addTable, List.getElem?_map, Option.map_map, Fields.fieldAt]
      congr 1
      funext x
      rw [Function.comp_apply]
      split <;> rfl
    rw [hfield]
    exact h.chain
  · intro x hx t ht
    obtain ⟨y, hy, rfl⟩ := mem_map.mp hx
    split at ht
    · next hnone =>
      rw [if_pos hnone]
      obtain rfl : table = t := by simpa using ht
      exact hnone.2.symm
    · next hsome =>
      rw [if_neg hsome]
      exact h.spider y hy t ht

theorem Aliased.foldl {f : Fields} {cs : List Column} (h : Aliased f cs) (tables : List Nat) :
    Aliased (tables.foldl Fields.addTable f) cs := by
  induction tables generalizing f with
  | nil => exact h
  | cons t tables ih => exact ih (h.addTable t)

theorem Aliased.tables {f : Fields} {cs : List Column} (h : Aliased f cs) (hall : f.holders.all (·.spider.isSome) = true) :
    f.chain.map (fun i => f.holders[i]?.bind Holder.spider) = cs.map fun c => some c.table := by
  have hpoint : ∀ i c, f.fieldAt i = some c → f.holders[i]?.bind Holder.spider = some c.table := by
    intro i c hi
    obtain ⟨x, hx, rfl⟩ := Option.map_eq_some_iff.mp hi
    have hmem := mem_of_getElem? hx
    obtain ⟨t, ht⟩ := Option.isSome_iff_exists.mp (all_eq_true.mp hall x hmem)
    rw [hx, Option.bind_some, ht, h.spider x hmem t ht]
  have hlist : ∀ (is : List Nat) (cs : List Column), is.map f.fieldAt = cs.map some →
      is.map (fun i => f.holders[i]?.bind Holder.spider) = cs.map fun c => some c.table := by
    intro is
    induction is with
    | nil => intro cs hcs; cases cs <;> simp_all
    | cons i is ih =>
      intro cs hcs
      cases cs with
      | nil => simp at hcs
      | cons c cs =>
        simp only [map_cons, List.cons.injEq] at hcs
        rw [map_cons, map_cons, hpoint i c hcs.1, ih cs hcs.2]
  exact hlist f.chain cs h.chain

/-! ## Printing -/

theorem visitAll_isSome_iff {p : Pass} (hp : p.str = true) {f : Fields} {as : List Column}
    (h : f.current.map (fun i => f.holders[i]?.bind Holder.spider) = as.map fun c => some c.table) (cs : List Column) :
    (visitAll p cs f).isSome = true ↔ cs.map Column.table <+: as.map Column.table := by
  induction cs generalizing f as with
  | nil => simp [visitAll]
  | cons c cs ih =>
    rw [visitAll, visit, if_pos hp]
    cases hcur : f.current with
    | nil =>
      obtain rfl : as = [] := by cases as <;> simp_all
      simp
    | cons i rest =>
      rw [hcur] at h
      cases as with
      | nil => simp at h
      | cons a as =>
        simp only [map_cons, List.cons.injEq] at h
        simp only [h.1, map_cons, cons_prefix_cons]
        by_cases hc : a.table = c.table
        · rw [if_pos (by rw [hc]), Option.bind_some, ih h.2]
          simp [hc]
        · simp [hc, Ne.symm hc]

namespace Query

variable (q : Query)

def accepted : Walk := walkItems q.acceptPass q.acceptItems

def printed : Walk := walkItems q.printPass q.printedItems

/-- The scan does not run into undefined behaviour, and a text that is sent has the columns of the query in their order, each
behind its table's alias. -/
def ColumnsRight (f : Fields) : Prop :=
  match q.initScan f with
  | .ok refs _ => refs = q.printed.shown.map fun x => .qualified x.1.table x.1.index
  | .skip _ => True
  | .undefined => False

variable {q}

theorem tables_of_create {f : Fields} (h : q.createGroupByHandler = some f) :
    f.chain.map (fun i => f.holders[i]?.bind Holder.spider) = q.accepted.visited.map fun c => some c.table := by
  have hrecorded : Recorded (q.accepted.visited.foldl Fields.addField .empty) q.accepted.visited := by
    simpa using recorded_empty.foldl q.accepted.visited
  have haliased := hrecorded.aliased.foldl (List.range q.tables.length)
  have hrun : printItems q.acceptPass q.acceptItems .empty = q.accepted.run q.acceptPass .empty := printItems_eq _ _ _
  rw [createGroupByHandler, hrun, Walk.run, visitAll_accept rfl] at h
  cases hs : q.accepted.status with
  | ok =>
    simp only [hs] at h
    split at h
    · next hall =>
      cases h
      exact haliased.tables hall
    · cases h
  | skip => simp only [hs] at h; cases h
  | undefined => simp only [hs] at h; cases h

/-- The columns of the text are right exactly if `init_scan` goes over the recorded tables in order, nothing is undefined, and
nothing is left to `Item::print`. -/
theorem columnsRight_iff {f : Fields} (h : q.createGroupByHandler = some f) : q.ColumnsRight f ↔
      q.printed.visited.map Column.table <+: q.accepted.visited.map Column.table ∧ q.printed.status ≠ .undefined ∧
        (q.printed.status = .ok → ∀ x ∈ q.printed.shown, x.2 = false) := by
  have hprefix : (visitAll q.printPass q.printed.visited f.setPosToFirstFieldChain).isSome = true ↔
      q.printed.visited.map Column.table <+: q.accepted.visited.map Column.table :=
    visitAll_isSome_iff rfl (tables_of_create h) _
  have hrun : q.initScan f = q.printed.run q.printPass f.setPosToFirstFieldChain := printItems_eq _ _ _
  rw [ColumnsRight, hrun, ← hprefix, Walk.run]
  cases visitAll q.printPass q.printed.visited f.setPosToFirstFieldChain with
  | none => simp
  | some f' =>
    cases hs : q.printed.status with
    | skip => simp
    | undefined => simp
    | ok => simp [map_inj_left, refOf]

/-- `SELECT t0.a, COUNT(t1.b) FROM t0 JOIN t1 ON t0.c = t1.c GROUP BY t0.a`, without or with `HAVING COUNT(t1.b) > 1`. -/
def sample (having : Option Expr) (orderBy : List Expr) : Query :=
  let column (table index : Nat) : Expr := .column ⟨table, index, none⟩
  { tables := [⟨none, false⟩, ⟨none, false⟩]
    connection := 1
    select := [column 0 0, .plain [column 1 1]]
    on := [.func [column 0 2, column 1 2]]
    where_ := none
    groupBy := [column 0 0]
    having
    orderBy }

theorem columnsRight_having :
    ∃ f, (sample (some (.func [.plain [.column ⟨1, 1, none⟩], .value false])) []).createGroupByHandler = some f ∧
      (sample (some (.func [.plain [.column ⟨1, 1, none⟩], .value false])) []).ColumnsRight f :=
  ⟨_, rfl, (columnsRight_iff rfl).mpr (by decide)⟩

/-- `ORDER BY t0.a` behind `HAVING COUNT(t1.b) > 1` takes its columns and gives its own, and the column in
`TRIM('x' FROM t0.a)` takes that of `t1.b`. -/
theorem not_columnsRight :
    let having := sample (some (.func [.plain [.column ⟨1, 1, none⟩], .value false])) [.column ⟨0, 0, none⟩]
    let trim := { sample none [] with select := [.trim (.column ⟨0, 0, none⟩) (.value true), .column ⟨1, 1, none⟩] }
    (∃ f, having.createGroupByHandler = some f ∧ ¬having.ColumnsRight f) ∧
      ∃ f, trim.createGroupByHandler = some f ∧ ¬trim.ColumnsRight f := by
  -- both scans end in undefined behaviour
  refine ⟨⟨_, rfl, ?_⟩, _, rfl, ?_⟩
  · exact fun h => h
  · exact fun h => h

end Query

end TSpider.Group

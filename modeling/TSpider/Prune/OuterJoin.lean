import Mathlib.Data.Finset.Lattice.Lemmas
import Mathlib.Algebra.Order.Monoid.Unbundled.WithTop
import TSpider.Join.Clause
import TSpider.Prune.Sound

/-!
# Pruning before outer joins are known

`JOIN::prepare` prunes every leaf table by its own ON condition, or by WHERE if it has none. In
`t1 LEFT JOIN (t2 JOIN t3) ON c WHERE w` the condition `c` stands at the nest, so that `t2` and `t3` are pruned by `w`. That
takes away no record that `w` selects, but it may take away all partners of a row of `t1`, which then comes filled up with
NULLs.
-/

namespace TSpider.Prune

open Lib.Bag Join TableRef

variable {T C R V : Type}

/-! ## Joins of restricted tables -/

def restrict (db : Db T C R) (keep : T → R → Bool) : Db T C R := { db with rows := fun t => (db.rows t).filter (keep t ·) }

def kept (keep : T → R → Bool) (ts : List T) (e : T → Option R) : Bool := ts.all fun t => (e t).all (keep t)

def isInner : TableRef T C → Bool
  | .table _ => true
  | .join l r _ => isInner l && isInner r
  | _ => false

variable {db : Db T C R} {keep : T → R → Bool}

theorem kept_congr {ts : List T} {e e' : T → Option R} (h : ∀ t ∈ ts, e t = e' t) : kept keep ts e = kept keep ts e' := by
  rw [Bool.eq_iff_iff]
  simp only [kept, List.all_eq_true]
  exact forall₂_congr fun t ht => by rw [h t ht]

theorem locals_table {f : TableRef T C} {j : OuterJoin} {on : Option C} {outer : List (TableList T C)} {l : Local T C}
    (h : l ∈ f.locals j on outer) : l.table ∈ f.tables := locals_tables f j on outer ▸ List.mem_map_of_mem h

section Restricted

variable [DecidableEq T] {l r : TableRef T C}

theorem merge_left (hd : l.tables.Disjoint r.tables) {b : T → Option R} (hb : b ∈ r.denote db)
    (a : T → Option R) {t : T} (ht : t ∈ l.tables) : merge a b t = a t := by
  simp [merge, denote_eq_none hb (hd ht)]

theorem merge_right (hd : l.tables.Disjoint r.tables) {a : T → Option R} (ha : a ∈ l.denote db)
    (b : T → Option R) {t : T} (ht : t ∈ r.tables) : merge a b t = b t := by
  simp [merge, denote_eq_none ha fun h => hd h ht]

theorem kept_merge (hd : l.tables.Disjoint r.tables) {a b : T → Option R} (ha : a ∈ l.denote db) (hb : b ∈ r.denote db) :
    kept keep (l.tables ++ r.tables) (merge a b) = (kept keep l.tables a && kept keep r.tables b) := by
  rw [← kept_congr fun t ht => merge_left hd hb a ht, ← kept_congr fun t ht => merge_right hd ha b ht]
  exact List.all_append

theorem denote_restrict {f : TableRef T C} (hf : isInner f = true) (hn : f.tables.Nodup) :
    f.denote (restrict db keep) = (f.denote db).filter (kept keep f.tables ·) := by
  induction f with
  | table t =>
    rw [denote, denote, Multiset.filter_map]
    refine congrArg _ (Multiset.filter_congr fun r _ => ?_)
    simp [kept, tables]
  | join l r c ihl ihr =>
    obtain ⟨hl, hr⟩ := Bool.and_eq_true_iff.mp hf
    obtain ⟨hnl, hnr, hd⟩ := List.nodup_append'.mp hn
    have hcross : cross merge (l.denote (restrict db keep)) (r.denote (restrict db keep)) =
        (cross merge (l.denote db) (r.denote db)).filter (kept keep (l.tables ++ r.tables) ·) := by
      rw [ihl hl hnl, ihr hr hnr]
      exact (filter_cross fun a ha b hb => kept_merge hd ha hb).symm
    cases c with
    | none => exact hcross
    | some c =>
      rw [denote, denote, innerOn_eq_filter, innerOn_eq_filter, hcross]
      exact Multiset.filter_comm ..
  | leftJoin => cases hf
  | rightJoin => cases hf

theorem exists_holds_onExpr {f : TableRef T C} (hf : isInner f = true) (hn : f.tables.Nodup) {e : T → Option R}
    (he : e ∈ f.denote db) (j : OuterJoin) (on : Option C) (outer : List (TableList T C))
    (hon : ∀ c ∈ on, ∃ e', db.holds c e' = true ∧ ∀ t ∈ f.tables, e' t = e t) :
    ∀ l ∈ f.locals j on outer, ∀ c ∈ l.onExpr, ∃ e', db.holds c e' = true ∧ e' l.table = e l.table := by
  induction f generalizing e j on outer with
  | table t =>
    intro l hl c hc
    obtain rfl := List.mem_singleton.mp hl
    obtain ⟨e', hholds, hsame⟩ := hon c hc
    exact ⟨e', hholds, hsame t (List.mem_singleton.mpr rfl)⟩
  | join l r d ihl ihr =>
    obtain ⟨hl, hr⟩ := Bool.and_eq_true_iff.mp hf
    obtain ⟨hnl, hnr, hd⟩ := List.nodup_append'.mp hn
    have hmem : ∃ a ∈ l.denote db, ∃ b ∈ r.denote db, merge a b = e := by
      cases d with
      | none => exact mem_cross.mp he
      | some d => exact mem_innerOn he
    obtain ⟨a, ha, b, hb, rfl⟩ := hmem
    intro x hx c hc
    rcases List.mem_append.mp hx with hx | hx
    · obtain ⟨e', hholds, hsame⟩ := ihl hl hnl ha _ _ _ (by simp) x hx c hc
      exact ⟨e', hholds, hsame.trans (merge_left hd hb a (locals_table hx)).symm⟩
    · have hown : ∀ c ∈ d, ∃ e', db.holds c e' = true ∧ ∀ t ∈ r.tables, e' t = b t := by
        rintro c rfl
        rw [denote, innerOn_eq_filter] at he
        exact ⟨merge a b, (Multiset.mem_filter.mp he).2, fun t ht => merge_right hd ha b ht⟩
      obtain ⟨e', hholds, hsame⟩ := ihr hr hnr hb _ _ _ hown x hx c hc
      exact ⟨e', hholds, hsame.trans (merge_right hd ha b (locals_table hx)).symm⟩
  | leftJoin => cases hf
  | rightJoin => cases hf

end Restricted

/-! ## The query -/

/-- `t1 LEFT JOIN (t2 JOIN t3 ...) ON c WHERE w` and the contents of its tables. -/
structure Query (T C R : Type) where
  outer : T
  inner : TableRef T C
  on : C
  cond : Option C
  db : Db T C R
  inner_isInner : isInner inner = true
  nodup : (outer :: inner.tables).Nodup

/-- How the tables of a query are partitioned; `tree`, what the range analyser makes of a condition for a table, is assumed to
be implied by it. -/
structure Partitioning (q : Query T C R) (V : Type) [LinearOrder V] where
  info : T → PartInfo R V
  tree : C → T → Option (SelTree V)
  tree_sound : ∀ c t e, q.db.holds c e = true → ∀ r ∈ e t, CondSat ((info t).value r) (some (tree c t))

namespace Query

variable (q : Query T C R)

def ref : TableRef T C := .leftJoin (.table q.outer) q.inner q.on

/-- The leaf tables of the nest. -/
def innerTables : List (Local T C) := q.inner.locals .left (some q.on) [q.ref.stored .none none]

def leafTables : List (Local T C) := q.ref.locals .none none []

def selected (e : T → Option R) : Bool := q.cond.all (q.db.holds · e)

/-- WHERE does not exclude the row of the table: it holds for some record with that row. -/
def Admits (t : T) (r : R) : Prop := ∀ w ∈ q.cond, ∃ e, q.db.holds w e = true ∧ e t = some r

/-- The rows of a partner in the tables of the nest that have no ON condition of their own. -/
def AdmitsOwn (b : T → Option R) : Prop := ∀ tbl ∈ q.innerTables, tbl.onExpr = none → ∀ r ∈ b tbl.table, q.Admits tbl.table r

variable {q} in
theorem mem_leafTables {tbl : Local T C} (h : tbl ∈ q.leafTables) :
    tbl.table = q.outer ∧ tbl.onExpr = none ∨ tbl ∈ q.innerTables := by
  rcases List.mem_append.mp h with h | h
  · obtain rfl := List.mem_singleton.mp h
    exact .inl ⟨rfl, rfl⟩
  · exact .inr h

variable {q} in
theorem Admits.of_selected {e : T → Option R} {t : T} {r : R} (hw : q.selected e = true) (hr : e t = some r) :
    q.Admits t r := by
  intro w hcond
  refine ⟨e, ?_, hr⟩
  simpa [selected, Option.mem_def.mp hcond] using hw

variable [DecidableEq T]

def result (db : Db T C R) : Multiset (T → Option R) := (q.ref.denote db).filter (q.selected ·)

end Query

namespace Partitioning

variable [LinearOrder V] {q : Query T C R} (p : Partitioning q V)

/-- The pruning of a leaf table in `JOIN::prepare`: `tbl->on_expr ? tbl->on_expr : conds`, with all partitions locked. -/
def prepare (tbl : Local T C) : Bool × Finset Nat :=
  (p.info tbl.table).prunePartitions (Finset.range (p.info tbl.table).bits) ((tbl.onExpr.or q.cond).map (p.tree · tbl.table))

variable {p} in
theorem mem_prepare {tbl : Local T C} {r : R}
    (h : ∀ c ∈ tbl.onExpr.or q.cond, ∃ e, q.db.holds c e = true ∧ e tbl.table = some r) :
    (p.info tbl.table).stored r ∈ (p.prepare tbl).2 := by
  refine (prunePartitions_reads ?_ (Finset.mem_range.mpr (stored_lt_bits _ r))).2
  cases hc : tbl.onExpr.or q.cond with
  | none => trivial
  | some c =>
    obtain ⟨e, hholds, hr⟩ := h c hc
    exact p.tree_sound c tbl.table e hholds r hr

variable [DecidableEq T]

def used (t : T) (r : R) : Bool :=
  q.leafTables.all fun tbl => tbl.table != t || decide ((p.info tbl.table).stored r ∈ (p.prepare tbl).2)

def pruned : Db T C R := restrict q.db p.used

def PrunedEqual : Prop := q.result p.pruned = q.result q.db

/-- The row of the outer table has partners, but none of them in the partitions that are read. -/
def PartnersPruned (a : T → Option R) : Prop :=
  Orphaned merge (q.db.holds q.on) (q.inner.denote q.db) (q.inner.denote p.pruned) a

instance : DecidablePred p.PartnersPruned := fun a => by unfold PartnersPruned; infer_instance

/-! ## What the pruning takes away -/

variable {p}

theorem used_iff {t : T} {r : R} :
    p.used t r = true ↔ ∀ tbl ∈ q.leafTables, tbl.table = t → (p.info t).stored r ∈ (p.prepare tbl).2 := by
  rw [used, List.all_eq_true]
  refine forall₂_congr fun tbl _ => ?_
  rw [Bool.or_eq_true, bne_iff_ne, decide_eq_true_eq, ← imp_iff_not_or]
  exact forall_congr' fun ht => by rw [ht]

theorem used_outer {e : T → Option R} {r : R} (hw : q.selected e = true) (hr : e q.outer = some r) :
    p.used q.outer r = true := by
  refine used_iff.mpr fun tbl htbl ht => ?_
  rcases q.mem_leafTables htbl with h | h
  · rw [← ht] at hr ⊢
    refine mem_prepare fun c hc => ?_
    rw [h.2, Option.none_or] at hc
    exact Query.Admits.of_selected hw hr c hc
  · exact absurd (ht ▸ locals_table h) (List.nodup_cons.mp q.nodup).1

/-- A partner is read if WHERE excludes none of its rows in tables without an ON condition. -/
theorem kept_inner {a b : T → Option R} (ha : a ∈ (table q.outer : TableRef T C).denote q.db)
    (hb : b ∈ q.inner.denote q.db) (hon : q.db.holds q.on (merge a b) = true) (hown : q.AdmitsOwn b) :
    kept p.used q.inner.tables b = true := by
  have hd : (table q.outer : TableRef T C).tables.Disjoint q.inner.tables :=
    List.singleton_disjoint.mpr (List.nodup_cons.mp q.nodup).1
  have hmerge : ∀ t ∈ q.inner.tables, merge a b t = b t := fun t ht => merge_right hd ha b ht
  refine List.all_eq_true.mpr fun t ht => ?_
  cases hr : b t with
  | none => rfl
  | some r =>
    refine used_iff.mpr fun tbl htbl htt => ?_
    subst htt
    rcases q.mem_leafTables htbl with h | h
    · exact absurd (h.1 ▸ ht) (List.nodup_cons.mp q.nodup).1
    refine mem_prepare fun c hc => ?_
    cases hexpr : tbl.onExpr with
    | none =>
      rw [hexpr, Option.none_or] at hc
      exact hown tbl h hexpr r hr c hc
    | some d =>
      rw [hexpr, Option.some_or] at hc
      obtain ⟨e', hholds, hsame⟩ := exists_holds_onExpr q.inner_isInner (List.nodup_cons.mp q.nodup).2 hb _ _ _
        (fun c hc => ⟨merge a b, Option.some.inj hc ▸ hon, hmerge⟩) tbl h d hexpr
      exact ⟨e', Option.some.inj hc ▸ hholds, hsame.trans hr⟩

theorem admitsOwn_of_selected {a b : T → Option R} (ha : a ∈ (table q.outer : TableRef T C).denote q.db)
    (hw : q.selected (merge a b) = true) : q.AdmitsOwn b := by
  have hd : (table q.outer : TableRef T C).tables.Disjoint q.inner.tables :=
    List.singleton_disjoint.mpr (List.nodup_cons.mp q.nodup).1
  intro tbl htbl _ r hr
  exact Query.Admits.of_selected hw ((merge_right hd ha b (locals_table htbl)).trans hr)

theorem denote_pruned (p : Partitioning q V) :
    q.inner.denote p.pruned = (q.inner.denote q.db).filter (kept p.used q.inner.tables ·) :=
  denote_restrict q.inner_isInner (List.nodup_cons.mp q.nodup).2

theorem partnersPruned_iff {a : T → Option R} : p.PartnersPruned a ↔
      (∃ b ∈ q.inner.denote q.db, q.db.holds q.on (merge a b) = true) ∧
      ∀ b ∈ q.inner.denote q.db, q.db.holds q.on (merge a b) = true → kept p.used q.inner.tables b = false := by
  rw [PartnersPruned, denote_pruned, Orphaned, found_filter, found_eq_map, Multiset.card_map, Multiset.card_map,
    Multiset.card_eq_zero, ne_eq, Multiset.card_eq_zero, Multiset.filter_eq_nil, Multiset.filter_eq_nil]
  refine and_congr ?_ ?_
  · push Not
    rfl
  · refine forall₂_congr fun b _ => ?_
    cases kept p.used q.inner.tables b <;> simp

variable (p)

/-- The result is changed exactly by outer rows whose partners are all pruned away, and which WHERE selects with NULLs. -/
theorem prunedEqual_iff_partners :
    p.PrunedEqual ↔ ∀ a ∈ (table q.outer : TableRef T C).denote q.db, q.selected a = true → ¬p.PartnersPruned a := by
  have houter : (table q.outer : TableRef T C).denote p.pruned =
      ((table q.outer : TableRef T C).denote q.db).filter (kept p.used [q.outer] ·) :=
    denote_restrict rfl (List.nodup_singleton _)
  -- A row of the outer table that is not read is in no selected record.
  have hlost : ∀ a ∈ (table q.outer : TableRef T C).denote q.db, kept p.used [q.outer] a = false →
      q.selected a = false ∧ ∀ b ∈ q.inner.denote p.pruned, q.selected (merge a b) = false := by
    intro a ha hk
    obtain ⟨r, -, rfl⟩ := Multiset.mem_map.mp ha
    have hnot : ∀ e : T → Option R, e q.outer = some r → q.selected e = false := fun e he => by
      by_contra hsel
      have := used_outer (p := p) (by simpa using hsel) he
      simp [kept, this] at hk
    exact ⟨hnot _ (by simp), fun b _ => hnot _ (by simp [merge])⟩
  have hsum : q.result p.pruned = q.result q.db +
      (((table q.outer : TableRef T C).denote q.db).filter p.PartnersPruned).filter (q.selected ·) := by
    show (leftOn merge (q.db.holds q.on) ((table q.outer : TableRef T C).denote p.pruned)
      (q.inner.denote p.pruned)).filter (q.selected ·) = _
    rw [houter, filter_leftOn_outer hlost, denote_pruned,
      filter_leftOn_filter fun a ha b hb hon hw => kept_inner ha hb hon (admitsOwn_of_selected ha hw)]
    congr 2
    refine Multiset.filter_congr fun a _ => ?_
    rw [PartnersPruned, denote_pruned]
  unfold PrunedEqual
  rw [hsum, add_eq_left, Multiset.filter_eq_nil]
  constructor
  · intro h a ha hsel horphan
    exact h a (Multiset.mem_filter.mpr ⟨ha, horphan⟩) hsel
  · intro h a ha hsel
    obtain ⟨ha, horphan⟩ := Multiset.mem_filter.mp ha
    exact h a ha hsel horphan

end Partitioning

/-! ## Partitioning by one value -/

section Split

variable [LinearOrder V]

/-- `PARTITION BY LIST` on one column, with one value in the first partition and all others in the second. -/
def splitBy (value : R → V) (v : V) : PartInfo R V where
  partFields := 1
  subpartFields := 0
  numParts := 2
  numSubparts := 0
  subPartitioned := false
  versioning := false
  value r _ := value r
  part r := if value r = v then 0 else 1
  subpart _ := 0
  getPartIterForInterval := some fun k =>
    if (k.key .min).head? = some v ∧ (k.key .max).head? = some v then (.yes, [0]) else (.all, [])
  getSubpartIterForInterval := none
  getTopPartitionId vals := some (if vals.head? = some v then 0 else 1)
  getSubpartitionId _ := 0
  part_lt r := by split_ifs <;> decide
  subpart_lt _ h := by cases h
  subPartitioned_of_fields h := absurd rfl h
  versioning_field := no_versioning
  mapper_sound _ get hget k r hk := by
    cases hget
    beta_reduce
    have hside : ∀ side, (k.key side).head? = some v → side.lt v (value r) ∨ v = value r := by
      intro side hhead
      cases hkey : k.key side with
      | nil => simp [hkey] at hhead
      | cons x xs =>
        obtain rfl : x = v := by simpa [hkey] using hhead
        have h := (hk side).resolve_left (by simp [hkey])
        rw [hkey] at h
        exact h.imp id And.left
    by_cases hkey : (k.key .min).head? = some v ∧ (k.key .max).head? = some v
    · have hmin := hside .min hkey.1
      have hmax := hside .max hkey.2
      have heq : value r = v := le_antisymm (hmax.elim le_of_lt ge_of_eq) (hmin.elim le_of_lt le_of_eq)
      rw [if_pos hkey, if_pos heq]
      exact .inr ⟨rfl, List.mem_singleton.mpr rfl⟩
    · rw [if_neg hkey]
      exact .inl rfl
  subMapper_sound h := absurd rfl h
  top_sound _ r := by simp
  sub_sound h := absurd rfl h

/-- The tree of a comparison of the column with the value. -/
def pointTree (v : V) : SelTree V where
  type := .key
  keys := .node 0 ⟨⟨.zero, v⟩, ⟨.zero, v⟩⟩ .nullElement .nullElement .nullElement
  merges := []
  keys_wf := by
    refine .node .nullElement .nullElement .nullElement ?_ ?_ ?_ ?_ ?_ ?_
    case refine_1 => exact ⟨by rintro (_ | _) <;> simp [Interval.bound, Flag.zero], fun _ _ => .inr ⟨rfl, rfl, rfl⟩⟩
    all_goals simp [SelArg.isNull, SelArg.intervals]
  merges_wf _ h := absurd h List.not_mem_nil

theorem pointTree_sat {value : R → V} {v : V} {r : R} (h : value r = v) :
    CondSat ((splitBy value v).value r) (some (some (pointTree v))) := by
  refine ⟨.inr (.inr (.inr ⟨?_, .inl rfl⟩)), by simp [pointTree]⟩
  rintro (_ | _) <;> exact .inr (.inr ⟨rfl, h.symm⟩)

theorem prunePartitions_splitBy (value : R → V) (v : V) :
    (splitBy value v).prunePartitions (Finset.range 2) (some (some (pointTree v))) = (false, {0}) := by
  simp [PartInfo.prunePartitions, PartInfo.usedPartitions, PartInfo.walkTree, pointTree, splitBy, PartInfo.findUsedPartitions,
    SelArg.isNull, PartInfo.visit, PartInfo.visitPart, PartInfo.continues, PartInfo.rangeKey, PartInfo.initial,
      PartInfo.restart,
    PartInfo.push, PartInfo.pop, Flag.zero, Prune.stored, Interval.bound, PartInfo.markFull, PartInfo.goOn, PartInfo.ignoring,
    PartInfo.fullPartition, PartInfo.anyYes, PartInfo.allPartitions]

end Split

/-! ## Queries whose result no partitioning changes -/

namespace Query

open Classical in
/-- Every table is partitioned by whether WHERE admits the row, and the range analyser finds that out. -/
noncomputable def byAdmitted (q : Query T C R) : Partitioning q Bool where
  info t := splitBy (fun r => decide (q.Admits t r)) true
  tree c _ := if q.cond = some c then some (pointTree true) else none
  tree_sound c t e hholds r hr := by
    split_ifs with hc
    · refine pointTree_sat (decide_eq_true fun w hw => ?_)
      obtain rfl : w = c := Option.some.inj (hw.symm.trans hc)
      exact ⟨e, hholds, hr⟩
    · trivial

variable [DecidableEq T] (q : Query T C R)

theorem byAdmitted_not_used {tbl : Local T C} (htbl : tbl ∈ q.innerTables) (hon : tbl.onExpr = none) {r : R}
    (h : ¬q.Admits tbl.table r) : q.byAdmitted.used tbl.table r = false := by
  rw [← Bool.not_eq_true, Partitioning.used_iff]
  intro hused
  have hread := hused tbl (List.mem_append_right _ htbl) rfl
  obtain ⟨w, hw⟩ : ∃ w, q.cond = some w := by
    cases hc : q.cond with
    | none => exact absurd (fun w hw => by rw [hc] at hw; cases hw) h
    | some w => exact ⟨w, rfl⟩
  have hprepare : q.byAdmitted.prepare tbl = (false, {0}) := by
    rw [Partitioning.prepare, hon, Option.none_or, hw, Option.map_some]
    simp only [byAdmitted, hw, if_true]
    exact prunePartitions_splitBy _ _
  have hstored : (q.byAdmitted.info tbl.table).stored r = 1 := by simp [byAdmitted, splitBy, PartInfo.stored, h]
  rw [hprepare, hstored] at hread
  simp at hread

end Query

/-! ## A query that changes -/

inductive Atom
  | sameA
  | kIsNull
  deriving DecidableEq

/-- `t1 LEFT JOIN (t2 JOIN t3) ON t1.a = t2.a WHERE t2.k IS NULL`, each table with one row of the columns `a` and `k`. -/
def nullQuery : Query (Fin 3) Atom (Nat × WithBot Nat) where
  outer := 0
  inner := .join (.table 1) (.table 2) none
  on := .sameA
  cond := some .kIsNull
  db :=
    { rows := fun _ => {(1, ((7 : Nat) : WithBot Nat))}
      holds := fun c e => match c with
        | .sameA => decide ((e 0).map Prod.fst = (e 1).map Prod.fst)
        | .kIsNull => (e 1).all fun r => decide (r.2 = ⊥) }
  inner_isInner := rfl
  nodup := by decide

/-- `PARTITION BY LIST (k)`, NULL in the first partition. -/
def byNull : Partitioning nullQuery (WithBot Nat) where
  info _ := splitBy Prod.snd ⊥
  tree c t := if c = .kIsNull ∧ t = 1 then some (pointTree ⊥) else none
  tree_sound c t e h r hr := by
    split_ifs with hct
    · obtain ⟨rfl, rfl⟩ := hct
      exact pointTree_sat (by simpa [nullQuery, Option.mem_def.mp hr] using h)
    · trivial

end TSpider.Prune

import TSpider.Agg.Loops
import Mathlib.Data.Multiset.Fold
import Mathlib.Data.Multiset.Lattice
import Mathlib.Data.List.Dedup

/-!
# Aggregating the parts is aggregating the whole

`aggregate` is the SQL value of a function over a multiset of arguments. It is a homomorphism: the value of a union is
`combine` of the values (`aggregate_add`). So the loops end with the aggregate over the rows of all shards.
-/

namespace TSpider.Agg
open Lib Arrival List

variable {f : Fn}

/-! ## The value of a function -/

def nonNull (s : Multiset (Option ℚ)) : Multiset ℚ := s.filterMap id

def aggregate (f : Fn) (s : Multiset (Option ℚ)) : Option ℚ :=
  match f with
  | .count => some (nonNull s).card
  | .sum => if nonNull s = 0 then none else some (nonNull s).sum
  | .min => ((nonNull s).map ((↑) : ℚ → WithTop ℚ)).inf
  | .max => ((nonNull s).map ((↑) : ℚ → WithBot ℚ)).sup

instance Fn.combine_comm (f : Fn) : Std.Commutative f.combine := by
  cases f with
  | count => exact ⟨fun a b => by simp [Fn.combine, add_comm]⟩
  | sum | min | max => unfold Fn.combine; infer_instance

instance Fn.combine_assoc (f : Fn) : Std.Associative f.combine := by
  cases f with
  | count => exact ⟨fun a b c => by simp [Fn.combine, add_assoc]⟩
  | sum | min | max => unfold Fn.combine; infer_instance

theorem Fn.combine_unit {a : Option ℚ} (h : f.Answers a) : f.combine a f.unit = a := by
  rw [f.combine_comm.comm, Fn.unit_combine h]

theorem aggregate_answers (f : Fn) (s : Multiset (Option ℚ)) : f.Answers (aggregate f s) := by
  rintro rfl
  exact ⟨(nonNull s).card, by simp [aggregate]⟩

@[simp] theorem aggregate_zero (f : Fn) : aggregate f 0 = f.unit := by
  cases f <;> simp [aggregate, nonNull, Fn.unit] <;> rfl

theorem aggregate_add (f : Fn) (s t : Multiset (Option ℚ)) :
    aggregate f (s + t) = f.combine (aggregate f s) (aggregate f t) := by
  have hadd : nonNull (s + t) = nonNull s + nonNull t := Multiset.filterMap_add _ _ _
  cases f with
  | count => simp [aggregate, Fn.combine, hadd]
  | sum =>
    simp only [aggregate, Fn.combine, hadd]
    by_cases hs : nonNull s = 0 <;> by_cases ht : nonNull t = 0 <;> simp [hs, ht]
  | min =>
    simp only [aggregate, Fn.combine, hadd, Multiset.map_add, Multiset.inf_add]
    generalize ((nonNull s).map ((↑) : ℚ → WithTop ℚ)).inf = a
    generalize ((nonNull t).map ((↑) : ℚ → WithTop ℚ)).inf = b
    cases a <;> cases b <;> rfl
  | max =>
    simp only [aggregate, Fn.combine, hadd, Multiset.map_add, Multiset.sup_add]
    generalize ((nonNull s).map ((↑) : ℚ → WithBot ℚ)).sup = a
    generalize ((nonNull t).map ((↑) : ℚ → WithBot ℚ)).sup = b
    cases a <;> cases b <;> rfl

def total (f : Fn) (cells : Multiset (Option ℚ)) : Option ℚ := cells.fold f.combine f.unit

@[simp] theorem total_zero (f : Fn) : total f 0 = f.unit := Multiset.fold_zero _ _

theorem total_cons (f : Fn) (c : Option ℚ) (cells : Multiset (Option ℚ)) :
    total f (c ::ₘ cells) = f.combine c (total f cells) := Multiset.fold_cons_left _ _ _ _

/-! ## Rows and groups -/

section Rows

/-- A row of the table, or the answer of a shard for a group: the group, and a value for each function. -/
abbrev Row (n : Nat) (γ : Type) := γ × (Fin n → Option ℚ)

variable {n : Nat} {γ : Type} [DecidableEq γ] {fs : Fin n → Fn} {g : γ} {i : Fin n}

def argsOf (g : γ) (i : Fin n) (rows : List (Row n γ)) : Multiset (Option ℚ) :=
  ((rows.filter (·.1 = g)).map (·.2 i) : List (Option ℚ))

theorem argsOf_append (rows rows' : List (Row n γ)) : argsOf g i (rows ++ rows') = argsOf g i rows + argsOf g i rows' := by
  simp [argsOf]

theorem argsOf_perm {rows rows' : List (Row n γ)} (h : rows.Perm rows') : argsOf g i rows = argsOf g i rows' :=
  Multiset.coe_eq_coe.mpr ((h.filter _).map _)

theorem argsOf_cons_self (r : Row n γ) (rows : List (Row n γ)) : argsOf r.1 i (r :: rows) = r.2 i ::ₘ argsOf r.1 i rows := by
  simp [argsOf]

theorem argsOf_cons_of_ne {r : Row n γ} (h : r.1 ≠ g) (rows : List (Row n γ)) : argsOf g i (r :: rows) = argsOf g i rows := by
  simp [argsOf, h]

theorem argsOf_of_not_mem {rows : List (Row n γ)} (h : g ∉ rows.map Prod.fst) : argsOf g i rows = 0 := by
  have : rows.filter (·.1 = g) = [] := by
    refine filter_eq_nil_iff.mpr fun r hr => ?_
    have hne : r.1 ≠ g := fun he => h (he ▸ mem_map_of_mem hr)
    simpa using hne
  simp [argsOf, this]

/-- What a shard answers to the query with `GROUP BY`: one row for each group that it has rows of. -/
def groupRows (fs : Fin n → Fn) (shard : List (Row n γ)) : List (Row n γ) :=
  (shard.map Prod.fst).dedup.map fun g => (g, fun i => aggregate (fs i) (argsOf g i shard))

theorem mem_groupRows {shard : List (Row n γ)} {r : Row n γ} : r ∈ groupRows fs shard ↔
    r.1 ∈ shard.map Prod.fst ∧ r.2 = fun i => aggregate (fs i) (argsOf r.1 i shard) := by
  obtain ⟨k, v⟩ := r
  simp only [groupRows, mem_map, mem_dedup, Prod.mk.injEq]
  constructor
  · rintro ⟨k, hk, rfl, rfl⟩
    exact ⟨hk, rfl⟩
  · rintro ⟨hk, rfl⟩
    exact ⟨k, hk, rfl, rfl⟩

theorem groupRows_keys (shard : List (Row n γ)) : (groupRows fs shard).map Prod.fst = (shard.map Prod.fst).dedup := by
  simp [groupRows, Function.comp_def]

theorem total_groupRows (shard : List (Row n γ)) :
    total (fs i) (argsOf g i (groupRows fs shard)) = aggregate (fs i) (argsOf g i shard) := by
  by_cases hg : g ∈ shard.map Prod.fst
  · have hfilter : (groupRows fs shard).filter (·.1 = g) =
        [(g, fun i => aggregate (fs i) (argsOf g i shard))] := by
      rw [groupRows, filter_map]
      have : ((fun r : Row n γ => decide (r.1 = g)) ∘ fun k => (k, fun i => aggregate (fs i) (argsOf k i shard))) =
          fun k => decide (k = g) := rfl
      rw [this, filter_eq, count_dedup, if_pos hg]
      rfl
    rw [argsOf, hfilter, map_singleton, ← Multiset.cons_coe, total_cons, Multiset.coe_nil, total_zero,
      Fn.combine_unit (aggregate_answers _ _)]
  · rw [argsOf_of_not_mem hg, argsOf_of_not_mem (by rwa [groupRows_keys, mem_dedup]), total_zero, aggregate_zero]

theorem total_append (rows rows' : List (Row n γ)) (h : (fs i).Answers (total (fs i) (argsOf g i rows'))) :
    total (fs i) (argsOf g i (rows ++ rows')) =
      (fs i).combine (total (fs i) (argsOf g i rows)) (total (fs i) (argsOf g i rows')) := by
  rw [argsOf_append]
  induction argsOf g i rows using Multiset.induction_on with
  | empty => rw [zero_add, total_zero, Fn.unit_combine h]
  | cons c s ih =>
    rw [Multiset.cons_add, total_cons, ih, total_cons, (fs i).combine_assoc.assoc]

theorem total_flatMap_groupRows : ∀ shards : List (List (Row n γ)),
    total (fs i) (argsOf g i (shards.flatMap (groupRows fs))) = aggregate (fs i) (argsOf g i shards.flatten)
  | [] => by simp [argsOf]
  | shard :: shards => by
    have ih := total_flatMap_groupRows shards
    rw [flatMap_cons, flatten_cons, total_append _ _ (ih ▸ aggregate_answers _ _), ih, total_groupRows,
      argsOf_append, aggregate_add]

theorem mem_keys_flatMap_groupRows (shards : List (List (Row n γ))) :
    g ∈ (shards.flatMap (groupRows fs)).map Prod.fst ↔ g ∈ shards.flatten.map Prod.fst := by
  rw [map_flatMap, map_flatten, mem_flatMap, mem_flatten]
  simp only [groupRows_keys, mem_dedup, mem_map, exists_exists_and_eq_and]

/-- What a shard answers to the query without `GROUP BY`: always one row. -/
def wholeRow (fs : Fin n → Fn) (shard : List (Row n Unit)) : Row n Unit :=
  ((), fun i => aggregate (fs i) (argsOf () i shard))

theorem total_map_wholeRow : ∀ shards : List (List (Row n Unit)),
    total (fs i) (argsOf () i (shards.map (wholeRow fs))) = aggregate (fs i) (argsOf () i shards.flatten)
  | [] => by simp [argsOf]
  | shard :: shards => by
    have hcons := argsOf_cons_self (i := i) (wholeRow fs shard) (shards.map (wholeRow fs))
    rw [map_cons, flatten_cons, hcons, total_cons, total_map_wholeRow shards, argsOf_append, aggregate_add]
    rfl

/-! ## The loops -/

def Arrival.row (a : Arrival n γ) : Row n γ := (a.key, a.cells)

theorem Fn.Answers.combine {a b : Option ℚ} (ha : f.Answers a) (hb : f.Answers b) : f.Answers (f.combine a b) := by
  rintro rfl
  obtain ⟨m, rfl⟩ := ha rfl
  obtain ⟨k, rfl⟩ := hb rfl
  exact ⟨m + k, by simp [Fn.combine]⟩

omit [DecidableEq γ] in
theorem foldl_absorb : ∀ (rows : List (Arrival n γ)) (r : Fin n → Option ℚ), (∀ i, (fs i).Answers (r i)) →
    (∀ a ∈ rows, a.Answers fs) → rows.foldl (fun r a => some (absorb fs r a.cells)) (some r) =
      some fun i => (fs i).combine (r i) (total (fs i) ((rows.map fun a => a.cells i : List (Option ℚ))))
  | [], r, hr, _ => by
    simp only [foldl_nil, map_nil, Multiset.coe_nil, total_zero, Fn.combine_unit (hr _)]
  | a :: rows, r, hr, hans => by
    rw [foldl_cons, foldl_absorb rows (absorb fs (some r) a.cells)
      (fun i => (hr i).combine (hans a mem_cons_self i)) fun b hb => hans b (mem_cons_of_mem _ hb)]
    simp only [map_cons, ← Multiset.cons_coe, total_cons, absorb]
    simp only [(Fn.combine_assoc _).assoc]

theorem argsOf_map_row (rows : List (Arrival n γ)) :
    argsOf g i (rows.map row) = ((rows.filter (·.key = g)).map fun a => a.cells i : List (Option ℚ)) := by
  rw [argsOf, filter_map, map_map]
  rfl

theorem foldl_absorb_none {rows : List (Arrival n γ)} (hans : ∀ a ∈ rows, a.Answers fs) :
    (rows.filter (·.key = g)).foldl (fun r a => some (absorb fs r a.cells)) none = if g ∈ (rows.map row).map Prod.fst then
        some fun i => total (fs i) (argsOf g i (rows.map row)) else none := by
  simp only [argsOf_map_row]
  have hmem : g ∈ (rows.map row).map Prod.fst ↔ rows.filter (·.key = g) ≠ [] := by
    simp [filter_eq_nil_iff, row]
  cases hf : rows.filter (·.key = g) with
  | nil => rw [if_neg (by rw [hmem, hf]; simp), foldl_nil]
  | cons a rest =>
    have hsub : ∀ b ∈ a :: rest, b.Answers fs := fun b hb => hans b (mem_of_mem_filter (hf ▸ hb))
    rw [if_pos (by rw [hmem, hf]; simp), foldl_cons]
    rw [foldl_absorb rest (absorb fs none a.cells) (hsub a mem_cons_self)
      fun b hb => hsub b (mem_cons_of_mem _ hb)]
    simp only [absorb, map_cons, ← Multiset.cons_coe, total_cons]

theorem argsOf_row_cons (a : Arrival n γ) (rows : List (Row n γ)) :
    argsOf a.key i (a.row :: rows) = a.cells i ::ₘ argsOf a.key i rows := argsOf_cons_self a.row rows

theorem groups_unit : ∀ (rows : List (Arrival n Unit)) (vals : Fin n → Option ℚ), (∀ i, (fs i).Answers (vals i)) →
    (∀ a ∈ rows, a.Answers fs) → groups fs () vals rows =
      [((), fun i => (fs i).combine (vals i) (total (fs i) (argsOf () i (rows.map row))))]
  | [], vals, hv, _ => by
    simp only [groups, map_nil, argsOf, filter_nil, Multiset.coe_nil, total_zero, Fn.combine_unit (hv _)]
  | a :: rows, vals, hv, hans => by
    rw [groups, if_pos rfl, groups_unit rows _ (fun i => (hv i).combine (hans a mem_cons_self i))
      fun b hb => hans b (mem_cons_of_mem _ hb)]
    have hself := fun i => argsOf_row_cons (i := i) a (rows.map row)
    simp only [map_cons, hself, total_cons, (Fn.combine_assoc _).assoc]

end Rows

section Sorted

variable {n : Nat} {γ : Type} [LinearOrder γ] {fs : Fin n → Fn}

theorem mem_first_or_later {a : Arrival n γ} {rows : List (Arrival n γ)} (hsorted : ((a :: rows).map key).Pairwise (· ≤ ·))
    (r : Row n γ) :
    (r.1 = a.key ∧ r.2 = fun i => (fs i).combine (a.cells i) (total (fs i) (argsOf a.key i (rows.map row)))) ∨
        (a.key < r.1 ∧ r.1 ∈ rows.map key ∧ r.2 = fun i => total (fs i) (argsOf r.1 i (rows.map row))) ↔
      r.1 ∈ (a :: rows).map key ∧ r.2 = fun i => total (fs i) (argsOf r.1 i ((a :: rows).map row)) := by
  have hself := fun i => argsOf_row_cons (i := i) a (rows.map row)
  simp only [map_cons, mem_cons]
  by_cases hka : r.1 = a.key
  · simp only [hka, hself, total_cons, lt_irrefl, false_and, or_false, true_or, true_and]
  · simp only [hka, argsOf_cons_of_ne (show a.row.1 ≠ r.1 from Ne.symm hka), false_and, false_or]
    refine ⟨And.right, fun h => ⟨lt_of_le_of_ne (rel_of_pairwise_cons hsorted h.1) (Ne.symm hka), h⟩⟩

theorem mem_groups : ∀ (rows : List (Arrival n γ)) (g : γ) (vals : Fin n → Option ℚ), (∀ i, (fs i).Answers (vals i)) →
    (∀ a ∈ rows, a.Answers fs) → (g :: rows.map key).Pairwise (· ≤ ·) → ∀ r : Row n γ,
    r ∈ groups fs g vals rows ↔
      (r.1 = g ∧ r.2 = fun i => (fs i).combine (vals i) (total (fs i) (argsOf g i (rows.map row)))) ∨
      (g < r.1 ∧ r.1 ∈ rows.map key ∧
        r.2 = fun i => total (fs i) (argsOf r.1 i (rows.map row)))
  | [], g, vals, hv, _, _, r => by
    simp only [groups, mem_singleton, map_nil, argsOf, filter_nil, Multiset.coe_nil, total_zero,
      Fn.combine_unit (hv _), not_mem_nil, false_and, and_false, or_false, Prod.ext_iff]
  | a :: rows, g, vals, hv, hans, hsorted, r => by
    have ha := hans a mem_cons_self
    have hrest := fun b hb => hans b (mem_cons_of_mem a hb)
    have hself := fun i => argsOf_row_cons (i := i) a (rows.map row)
    rw [map_cons, pairwise_cons] at hsorted
    by_cases hg : g = a.key
    · subst hg
      rw [groups, if_pos rfl, mem_groups rows _ _ (fun i => (hv i).combine (ha i)) hrest hsorted.2]
      simp only [map_cons, mem_cons, hself, total_cons, (Fn.combine_assoc _).assoc]
      refine or_congr Iff.rfl (and_congr_right fun hlt => ?_)
      have hne : a.row.1 ≠ r.1 := hlt.ne
      simp only [argsOf_cons_of_ne hne, hlt.ne', false_or]
    · have hlt : g < a.key := lt_of_le_of_ne (hsorted.1 _ mem_cons_self) hg
      have hnot : g ∉ (rows.map row).map Prod.fst := by
        intro hmem
        have hmem' : g ∈ rows.map key := by simpa [row, Function.comp_def] using hmem
        exact absurd (rel_of_pairwise_cons hsorted.2 hmem') (not_le.mpr hlt)
      rw [groups, if_neg hg, mem_cons, mem_groups rows _ _ ha hrest hsorted.2, Prod.ext_iff]
      simp only [map_cons, mem_cons, argsOf_cons_of_ne (show a.row.1 ≠ g from Ne.symm hg),
        argsOf_of_not_mem hnot, total_zero, Fn.combine_unit (hv _)]
      refine or_congr Iff.rfl ((mem_first_or_later hsorted.2 r).trans
        ⟨fun h => ⟨?_, by simpa using h⟩, fun h => by simpa using h.2⟩)
      exact (mem_cons.mp h.1).elim (fun hk => hk ▸ hlt) fun hk => hlt.trans_le (rel_of_pairwise_cons hsorted.2 hk)

theorem groups_sorted : ∀ (rows : List (Arrival n γ)) (g : γ) (vals : Fin n → Option ℚ),
    (g :: rows.map key).Pairwise (· ≤ ·) →
    ((groups fs g vals rows).map Prod.fst).Pairwise (· < ·) ∧ ∀ k ∈ (groups fs g vals rows).map Prod.fst, g ≤ k
  | [], g, vals, _ => by simp [groups]
  | a :: rows, g, vals, hsorted => by
    rw [map_cons, pairwise_cons] at hsorted
    rw [groups]
    split_ifs with hg
    · exact groups_sorted rows g _ (hg ▸ hsorted.2)
    · have hlt : g < a.key := lt_of_le_of_ne (hsorted.1 _ mem_cons_self) hg
      obtain ⟨hpair, hle⟩ := groups_sorted rows a.key a.cells hsorted.2
      refine ⟨pairwise_cons.mpr ⟨fun k hk => hlt.trans_le (hle k hk), hpair⟩, fun k hk => ?_⟩
      rcases mem_cons.mp hk with rfl | hk
      · exact le_rfl
      · exact hlt.le.trans (hle k hk)

end Sorted

/-! ## The merge law -/

section Law

variable {n : Nat} {γ : Type} (items : Fin n → Item)

def fns (i : Fin n) : Fn := (items i).fn

theorem fn_eq : ∀ i, (items i).fn = fns items i := fun _ => rfl

theorem answers_of_perm [DecidableEq γ] {fs : Fin n → Fn} {shards : List (List (Row n γ))} {rows : List (Arrival n γ)}
    (h : (rows.map row).Perm (shards.flatMap (groupRows fs))) : ∀ a ∈ rows, a.Answers fs := by
  intro a ha i
  obtain ⟨shard, -, hr⟩ := mem_flatMap.mp (h.subset (mem_map_of_mem ha))
  have hcells : a.cells = fun i => aggregate (fs i) (argsOf a.key i shard) := (mem_groupRows.mp hr).2
  rw [hcells]
  exact aggregate_answers _ _

theorem whole_answers_of_perm {fs : Fin n → Fn} {shards : List (List (Row n Unit))} {rows : List (Arrival n Unit)}
    (h : (rows.map row).Perm (shards.map (wholeRow fs))) : ∀ a ∈ rows, a.Answers fs := by
  intro a ha i
  obtain ⟨shard, -, hr⟩ := mem_map.mp (h.subset (mem_map_of_mem ha))
  have hcells : (wholeRow fs shard).2 = a.cells := congrArg Prod.snd hr
  rw [← hcells]
  exact aggregate_answers _ _

/-- `rows` are the answers of the shards to the query with `GROUP BY`, in some order. -/
def GroupAnswers [DecidableEq γ] (items : Fin n → Item) (shards : List (List (Row n γ))) (rows : List (Arrival n γ)) :
    Prop := (rows.map row).Perm (shards.flatMap (groupRows (fns items)))

/-- `rows` are the answers of the shards to the query without `GROUP BY`, in some order. -/
def WholeAnswers (shards : List (List (Row n Unit))) (rows : List (Arrival n Unit)) : Prop :=
  (rows.map row).Perm (shards.map (wholeRow (fns items)))

/-- The temporary table ends with the aggregates of each group; `unique` says whether it starts with `end_unique_update`. -/
def TableMerges [DecidableEq γ] (items : Fin n → Item) (unique : Bool) (shards : List (List (Row n γ)))
    (rows : List (Arrival n γ)) : Prop :=
  ∃ t, runOps Tmp.step ⟨items, fun _ => none, unique⟩ rows = some t ∧ ∀ g, t.table g =
    if g ∈ shards.flatten.map Prod.fst then some fun i => aggregate (fns items i) (argsOf g i shards.flatten)
    else none

/-- Each group of the table is sent once, with the aggregates over its rows. -/
def GroupsMerge [DecidableEq γ] (items : Fin n → Item) (shards : List (List (Row n γ))) (rows : List (Arrival n γ)) :
    Prop :=
  ∃ s, runOps Sending.step ⟨items, none, []⟩ rows = some s ∧ ((s.finish none).map Prod.fst).Nodup ∧
    ∀ r : Row n γ, r ∈ s.finish none ↔ r.1 ∈ shards.flatten.map Prod.fst ∧
      r.2 = fun i => aggregate (fns items i) (argsOf r.1 i shards.flatten)

/-- One row is sent, with the aggregates over all rows of the table. -/
def WholeMerges (shards : List (List (Row n Unit))) (rows : List (Arrival n Unit)) : Prop :=
  ∃ s, runOps Sending.step ⟨items, none, []⟩ rows = some s ∧
    s.finish (some ()) = [((), fun i => aggregate (fns items i) (argsOf () i shards.flatten))]

theorem table_merge [DecidableEq γ] (items : Fin n → Item) (unique : Bool) (shards : List (List (Row n γ)))
    (rows : List (Arrival n γ)) (h : GroupAnswers items shards rows) : TableMerges items unique shards rows := by
  have hans := answers_of_perm h
  obtain ⟨t, hrun, htable⟩ := Tmp.run_table rows (t := ⟨items, fun _ => none, unique⟩) (fn_eq items) hans
  refine ⟨t, hrun, fun g => ?_⟩
  have hmem : g ∈ (rows.map row).map Prod.fst ↔ g ∈ shards.flatten.map Prod.fst := by
    rw [(h.map Prod.fst).mem_iff, mem_keys_flatMap_groupRows]
  rw [htable g, foldl_absorb_none hans]
  simp only [hmem, argsOf_perm h, total_flatMap_groupRows]

theorem sent_merge [LinearOrder γ] (items : Fin n → Item) (shards : List (List (Row n γ))) (rows : List (Arrival n γ))
    (h : GroupAnswers items shards rows) (hsorted : (rows.map key).Pairwise (· ≤ ·)) : GroupsMerge items shards rows := by
  have hans := answers_of_perm h
  obtain ⟨s, hrun, hfin⟩ := Sending.run_sent rows none (fn_eq items) hans
  refine ⟨s, hrun, ?_⟩
  have hkey : ∀ g, g ∈ rows.map key ↔ g ∈ shards.flatten.map Prod.fst := by
    intro g
    calc g ∈ rows.map key
      _ ↔ g ∈ (rows.map row).map Prod.fst := by rw [map_map]; rfl
      _ ↔ g ∈ shards.flatten.map Prod.fst := by rw [(h.map Prod.fst).mem_iff, mem_keys_flatMap_groupRows]
  have htotal : ∀ g i, total (fns items i) (argsOf g i (rows.map row)) =
      aggregate (fns items i) (argsOf g i shards.flatten) := fun g i => by
    rw [argsOf_perm h, total_flatMap_groupRows]
  rw [hfin]
  cases rows with
  | nil =>
    have hnone : ∀ g, g ∉ shards.flatten.map Prod.fst := fun g hg => by simpa using (hkey g).mpr hg
    simp only [sentRows, Option.toList_none, map_nil, nodup_nil, true_and, not_mem_nil, false_iff]
    exact fun r hr => hnone _ hr.1
  | cons a rows =>
    have ha := hans a mem_cons_self
    have hrest := fun b hb => hans b (mem_cons_of_mem a hb)
    refine ⟨(groups_sorted rows a.key a.cells hsorted).1.imp ne_of_lt, fun r => ?_⟩
    rw [sentRows, mem_groups rows a.key a.cells ha hrest hsorted]
    rw [mem_first_or_later hsorted, ← hkey]
    simp only [← htotal]

theorem whole_merge (shards : List (List (Row n Unit))) (rows : List (Arrival n Unit))
    (h : WholeAnswers items shards rows) : WholeMerges items shards rows := by
  have hans := whole_answers_of_perm h
  obtain ⟨s, hrun, hfin⟩ := Sending.run_sent rows (some ()) (fn_eq items) hans
  refine ⟨s, hrun, ?_⟩
  have htotal : ∀ i, total (fns items i) (argsOf () i (rows.map row)) =
      aggregate (fns items i) (argsOf () i shards.flatten) := fun i => by
    rw [argsOf_perm h, total_map_wholeRow]
  rw [hfin]
  simp only [← htotal]
  cases rows with
  | nil => rfl
  | cons a rows =>
    have hself := fun i => argsOf_row_cons (i := i) a (rows.map row)
    rw [sentRows, groups_unit rows a.cells (hans a mem_cons_self) fun b hb => hans b (mem_cons_of_mem _ hb)]
    simp only [map_cons, hself, total_cons]

/-- **Pushed-down aggregates merge**, for every split of the rows and every order of the answers, in the temporary table and
for rows in group order or without `GROUP BY`. -/
theorem aggregates_merge [LinearOrder γ] (items : Fin n → Item) :
    (∀ (shards : List (List (Row n γ))) (rows : List (Arrival n γ)), GroupAnswers items shards rows →
      (∀ unique, TableMerges items unique shards rows) ∧ ((rows.map key).Pairwise (· ≤ ·) → GroupsMerge items shards rows)) ∧
    ∀ (shards : List (List (Row n Unit))) (rows : List (Arrival n Unit)), WholeAnswers items shards rows →
      WholeMerges items shards rows :=
  ⟨fun shards rows h => ⟨fun unique => table_merge items unique shards rows h, sent_merge items shards rows h⟩,
    whole_merge items⟩

def arriving (answers : List (Row n γ)) : List (Arrival n γ) := answers.map fun r => ⟨r.1, r.2, fun _ => none, true⟩

theorem arriving_row (answers : List (Row n γ)) : (arriving answers).map row = answers := by
  simp [arriving, row, Function.comp_def]

end Law

def newSum : Item := .sum ⟨true, 0, 0, false, false, false, 0⟩

def twoShards : List (List (Row 1 ℕ)) :=
  [[(1, fun _ => some 2), (2, fun _ => none)], [(1, fun _ => some 3), (1, fun _ => some 4)]]

/-- The sums 7 and then 2, NULL arrive from two shards; the record of group 1 is written and then found to be a duplicate. -/
theorem aggregates_merge_twoShards : TableMerges (fun _ => newSum) true twoShards
      (arriving (twoShards.reverse.flatMap (groupRows (fns fun _ => newSum)))) ∧
    aggregate .sum (argsOf 1 (0 : Fin 1) twoShards.flatten) = some 9 ∧
    aggregate .sum (argsOf 2 (0 : Fin 1) twoShards.flatten) = none := by
  refine ⟨((aggregates_merge fun _ => newSum).1 twoShards _ ?_).1 true, by decide +kernel, by decide +kernel⟩
  rw [GroupAnswers, arriving_row]
  exact (reverse_perm twoShards).flatMap_right _

end TSpider.Agg

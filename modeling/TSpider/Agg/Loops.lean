import TSpider.Agg.Item
import TSpider.Lib.Run

/-!
# The loops that merge the rows of the shards

With rows in group order, or without `GROUP BY`, `end_send_group` keeps the values in the functions and sends them when the
group changes. With rows in any order a temporary table has a record for each group: `end_update` looks the group up first;
`end_unique_update` writes a new record and updates the old one if the group is already there. The first turns into the
second when the table does not fit into memory.
-/

namespace TSpider.Agg
open Lib

/-- A shard's row, what the arguments read from the record at that time, and whether the temporary table is full. -/
structure Arrival (n : Nat) (γ : Type) where
  key : γ
  cells : Fin n → Option ℚ
  args : Fin n → Option ℚ
  full : Bool

variable {n : Nat} {γ : Type} {a : Arrival n γ}

def Arrival.Answers (fs : Fin n → Fn) (a : Arrival n γ) : Prop := ∀ i, (fs i).Answers (a.cells i)

/-- `spider_db_fetch_for_item_sum_funcs`. -/
def fetchAll (items : Fin n → Item) (a : Arrival n γ) : Option (Fin n → Item) :=
  if h : ∀ i, ((items i).fetch (a.cells i)).isSome then some fun i => ((items i).fetch (a.cells i)).get (h i) else none

theorem fetchAll_spec {fs : Fin n → Fn} {items : Fin n → Item} (hfn : ∀ i, (items i).fn = fs i)
    (ha : a.Answers fs) : ∃ items', fetchAll items a = some items' ∧ ∀ i, (items' i).fn = fs i ∧
      (items' i).val = (items i).val ∧ ((items' i).Zeroed ↔ (items i).Zeroed) ∧ (items' i).Fresh (a.cells i) := by
  have hspec :=  fun i => Item.fetch_spec (hfn i ▸ ha i)
  have hsome : ∀ i, ((items i).fetch (a.cells i)).isSome := fun i => by
    obtain ⟨it', h, -⟩ := hspec i
    simp [h]
  refine ⟨_, dif_pos hsome, fun i => ?_⟩
  obtain ⟨it', h, hf, hrest⟩ := hspec i
  simp only [h, Option.get_some]
  exact ⟨hf.trans (hfn i), hrest⟩

/-! ## The temporary table -/

/-- The functions, the temporary table by the values of the group columns, and whether `end_unique_update` is in use. -/
structure Tmp (n : Nat) (γ : Type) where
  items : Fin n → Item
  table : γ → Option (Fin n → Option ℚ)
  unique : Bool

variable [DecidableEq γ]

def endUpdate (a : Arrival n γ) (t : Tmp n γ) : Tmp n γ :=
  match t.table a.key with
  | some r =>
    { t with
      items := fun i => ((t.items i).updateField (a.args i) (r i)).1
      table := Function.update t.table a.key (some fun i => ((t.items i).updateField (a.args i) (r i)).2) }
  | none =>
    { items := fun i => ((t.items i).resetField false (a.args i)).1
      table := Function.update t.table a.key (some fun i => ((t.items i).resetField false (a.args i)).2)
      unique := a.full }

def endUniqueUpdate (a : Arrival n γ) (t : Tmp n γ) : Tmp n γ :=
  match t.table a.key with
  | none =>
    { t with
      items := fun i => ((t.items i).resetField true (a.args i)).1
      table := Function.update t.table a.key (some fun i => ((t.items i).resetField true (a.args i)).2) }
  | some r =>
    -- the write is refused as a duplicate, and the record of the group is updated
    { t with
      items := fun i => (((t.items i).resetField true (a.args i)).1.updateField (a.args i) (r i)).1
      table := Function.update t.table a.key
        (some fun i => (((t.items i).resetField true (a.args i)).1.updateField (a.args i) (r i)).2) }

def Tmp.step (t : Tmp n γ) (a : Arrival n γ) : Option (Tmp n γ) :=
  (fetchAll t.items a).map fun items =>
    if t.unique then endUniqueUpdate a { t with items := items } else endUpdate a { t with items := items }

def absorb (fs : Fin n → Fn) (record : Option (Fin n → Option ℚ)) (cells : Fin n → Option ℚ) : Fin n → Option ℚ :=
  match record with
  | none => cells
  | some r => fun i => (fs i).combine (r i) (cells i)

variable {fs : Fin n → Fn} {t : Tmp n γ}

theorem endUpdate_spec (hfn : ∀ i, (t.items i).fn = fs i) (hfresh : ∀ i, (t.items i).Fresh (a.cells i)) :
    (∀ i, ((endUpdate a t).items i).fn = fs i) ∧
      (endUpdate a t).table = Function.update t.table a.key (some (absorb fs (t.table a.key) a.cells)) := by
  unfold endUpdate
  cases hr : t.table a.key with
  | none =>
    refine ⟨fun i => ((hfresh i).resetField false _).1.trans (hfn i), ?_⟩
    simp only [((hfresh _).resetField false _).2.1, absorb]
  | some r =>
    refine ⟨fun i => ((hfresh i).held.updateField _ _).1.trans (hfn i), ?_⟩
    simp only [((hfresh _).held.updateField _ _).2, hfn, absorb]

theorem endUniqueUpdate_spec (hfn : ∀ i, (t.items i).fn = fs i) (hfresh : ∀ i, (t.items i).Fresh (a.cells i)) :
    (∀ i, ((endUniqueUpdate a t).items i).fn = fs i) ∧
      (endUniqueUpdate a t).table = Function.update t.table a.key (some (absorb fs (t.table a.key) a.cells)) := by
  have hreset := fun i => (hfresh i).resetField true (a.args i)
  unfold endUniqueUpdate
  cases hr : t.table a.key with
  | none =>
    refine ⟨fun i => (hreset i).1.trans (hfn i), ?_⟩
    simp only [(hreset _).2.1, absorb]
  | some r =>
    have hupd := fun i => ((hreset i).2.2 rfl).updateField (a.args i) (r i)
    refine ⟨fun i => (hupd i).1.trans ((hreset i).1.trans (hfn i)), ?_⟩
    simp only [(hupd _).2, (hreset _).1, hfn, absorb]

theorem Tmp.step_spec (hfn : ∀ i, (t.items i).fn = fs i) (ha : a.Answers fs) :
    ∃ t', t.step a = some t' ∧ (∀ i, (t'.items i).fn = fs i) ∧
      t'.table = Function.update t.table a.key (some (absorb fs (t.table a.key) a.cells)) := by
  obtain ⟨items', hfetch, hitems⟩ := fetchAll_spec hfn ha
  have hfn' := fun i => (hitems i).1
  have hfresh := fun i => (hitems i).2.2.2
  rw [Tmp.step, hfetch, Option.map_some]
  refine ⟨_, rfl, ?_⟩
  split_ifs
  · exact endUniqueUpdate_spec hfn' hfresh
  · exact endUpdate_spec hfn' hfresh

/-- **The temporary table after a run**: each group's record has absorbed the group's rows in the order of their arrival. -/
theorem Tmp.run_table : ∀ (rows : List (Arrival n γ)) {t : Tmp n γ}, (∀ i, (t.items i).fn = fs i) →
    (∀ a ∈ rows, a.Answers fs) → ∃ t', runOps Tmp.step t rows = some t' ∧
      ∀ g, t'.table g = (rows.filter (·.key = g)).foldl (fun r a => some (absorb fs r a.cells)) (t.table g)
  | [], t, _, _ => ⟨t, rfl, fun _ => rfl⟩
  | a :: rows, t, hfn, hans => by
    obtain ⟨u, hu, hufn, hutable⟩ := Tmp.step_spec hfn (hans a List.mem_cons_self)
    obtain ⟨t', hrun, htable⟩ := Tmp.run_table rows hufn fun b hb => hans b (List.mem_cons_of_mem _ hb)
    refine ⟨t', runOps_cons_eq_some.mpr ⟨u, hu, hrun⟩, fun g => ?_⟩
    rw [htable g, hutable]
    by_cases hg : a.key = g
    · rw [List.filter_cons_of_pos (by simpa using hg), List.foldl_cons, ← hg, Function.update_self]
    · rw [List.filter_cons_of_neg (by simpa using hg), Function.update_of_ne (Ne.symm hg)]

/-! ## Rows in group order -/

/-- The functions, the group whose rows are being read (`first_record`, `test_if_group_changed`), and the rows sent. -/
structure Sending (n : Nat) (γ : Type) where
  items : Fin n → Item
  current : Option γ
  sent : List (γ × (Fin n → Option ℚ))

open Sending

/-- `end_send_group` on a row: `update_sum_func` inside a group; at its end it is sent and `init_sum_functions` starts the
next. -/
def Sending.step (s : Sending n γ) (a : Arrival n γ) : Option (Sending n γ) :=
  (fetchAll s.items a).map fun items =>
    if s.current = some a.key then { s with items := fun i => (items i).add (a.args i) }
    else
      { items := fun i => (items i).clear.add (a.args i)
        current := some a.key
        sent := s.sent ++ s.current.toList.map fun g => (g, fun i => (items i).val) }

/-- `end_send_group` at the end; a query without `GROUP BY` (`ungrouped`) has a group without rows too. -/
def Sending.finish (ungrouped : Option γ) (s : Sending n γ) : List (γ × (Fin n → Option ℚ)) :=
  match s.current with
  | some g => s.sent ++ [(g, fun i => (s.items i).val)]
  | none => s.sent ++ ungrouped.toList.map fun g => (g, fun i => (s.items i).clear.val)

def groups (fs : Fin n → Fn) (g : γ) (vals : Fin n → Option ℚ) : List (Arrival n γ) → List (γ × (Fin n → Option ℚ))
  | [] => [(g, vals)]
  | a :: rows =>
    if g = a.key then groups fs g (fun i => (fs i).combine (vals i) (a.cells i)) rows
    else (g, vals) :: groups fs a.key a.cells rows

structure Sending.Holds (fs : Fin n → Fn) (vals : Fin n → Option ℚ) (s : Sending n γ) : Prop where
  fn : ∀ i, (s.items i).fn = fs i
  val : ∀ i, (s.items i).val = vals i
  zeroed : ∀ i, (s.items i).Zeroed

theorem Sending.step_same {s : Sending n γ} {vals : Fin n → Option ℚ} (hs : s.Holds fs vals)
    (ha : a.Answers fs) (hcur : s.current = some a.key) : ∃ s', s.step a = some s' ∧ s'.sent = s.sent ∧
      s'.current = s.current ∧ s'.Holds fs fun i => (fs i).combine (vals i) (a.cells i) := by
  obtain ⟨items', hfetch, hitems⟩ := fetchAll_spec hs.fn ha
  have hadd := fun i => (hitems i).2.2.2.add ((hitems i).2.2.1.mpr (hs.zeroed i)) (a.args i)
  rw [step, hfetch, Option.map_some, if_pos hcur]
  refine ⟨_, rfl, rfl, rfl, fun i => (hadd i).1.trans (hitems i).1, fun i => ?_, fun i => (hadd i).2.2⟩
  rw [(hadd i).2.1, (hitems i).1, (hitems i).2.1, hs.val]

theorem Sending.step_other {s : Sending n γ} {vals : Fin n → Option ℚ}
    (hfn : ∀ i, (s.items i).fn = fs i) (hval : s.current ≠ none → ∀ i, (s.items i).val = vals i) (ha : a.Answers fs)
    (hcur : s.current ≠ some a.key) : ∃ s', s.step a = some s' ∧
      s'.sent = s.sent ++ s.current.toList.map (fun g => (g, vals)) ∧ s'.current = some a.key ∧ s'.Holds fs a.cells := by
  obtain ⟨items', hfetch, hitems⟩ := fetchAll_spec hfn ha
  have hadd := fun i => (hitems i).2.2.2.clear.add Item.clear_zeroed (a.args i)
  rw [step, hfetch, Option.map_some, if_neg hcur]
  refine ⟨_, rfl, ?_, rfl, fun i => ?_, fun i => ?_, fun i => (hadd i).2.2⟩
  · cases hc : s.current with
    | none => rfl
    | some g =>
      have hv : (fun i => (items' i).val) = vals := funext fun i => (hitems i).2.1.trans (hval (by simp [hc]) i)
      simp [hv]
  · rw [(hadd i).1, Item.clear_fn, (hitems i).1]
  · rw [(hadd i).2.1, Item.clear_val, Item.clear_fn, (hitems i).1, Fn.unit_combine (ha i)]

theorem Sending.run_groups : ∀ (rows : List (Arrival n γ)) {s : Sending n γ} {g : γ} {vals : Fin n → Option ℚ}
    (ungrouped : Option γ), s.Holds fs vals → s.current = some g → (∀ a ∈ rows, a.Answers fs) →
    ∃ s', runOps step s rows = some s' ∧ s'.finish ungrouped = s.sent ++ groups fs g vals rows
  | [], s, g, vals, ungrouped, hs, hcur, _ => by
    refine ⟨s, rfl, ?_⟩
    have hv : (fun i => (s.items i).val) = vals := funext hs.val
    simp [finish, hcur, groups, hv]
  | a :: rows, s, g, vals, ungrouped, hs, hcur, hans => by
    have ha := hans a List.mem_cons_self
    have hrest := fun b hb => hans b (List.mem_cons_of_mem a hb)
    by_cases hg : g = a.key
    · obtain ⟨u, hu, hsent, hucur, hholds⟩ := step_same hs ha (hg ▸ hcur)
      obtain ⟨s', hrun, hfin⟩ := run_groups rows ungrouped hholds (hucur.trans hcur) hrest
      refine ⟨s', runOps_cons_eq_some.mpr ⟨u, hu, hrun⟩, ?_⟩
      rw [hfin, hsent, groups, if_pos hg]
    · obtain ⟨u, hu, hsent, hucur, hholds⟩ := step_other hs.fn (fun _ => hs.val) ha
        (fun h => hg (Option.some.inj (hcur.symm.trans h)))
      obtain ⟨s', hrun, hfin⟩ := run_groups rows ungrouped hholds hucur hrest
      refine ⟨s', runOps_cons_eq_some.mpr ⟨u, hu, hrun⟩, ?_⟩
      rw [hfin, hsent, groups, if_neg hg, hcur]
      simp

def sentRows (fs : Fin n → Fn) (ungrouped : Option γ) : List (Arrival n γ) → List (γ × (Fin n → Option ℚ))
  | [] => ungrouped.toList.map fun g => (g, fun i => (fs i).unit)
  | a :: rows => groups fs a.key a.cells rows

/-- **The rows sent by a run**, from any state of the functions. -/
theorem Sending.run_sent (rows : List (Arrival n γ)) {items : Fin n → Item} (ungrouped : Option γ)
    (hfn : ∀ i, (items i).fn = fs i) (hans : ∀ a ∈ rows, a.Answers fs) :
    ∃ s, runOps step ⟨items, none, []⟩ rows = some s ∧ s.finish ungrouped = sentRows fs ungrouped rows := by
  cases rows with
  | nil =>
    refine ⟨_, rfl, ?_⟩
    simp [finish, sentRows, Item.clear_val, hfn]
  | cons a rows =>
    obtain ⟨u, hu, hsent, hucur, hholds⟩ := step_other (s := ⟨items, none, []⟩)
      hfn (fun h i => absurd (b := _ = (fs i).unit) rfl h) (hans a List.mem_cons_self) (by simp)
    obtain ⟨s', hrun, hfin⟩ := run_groups rows ungrouped hholds hucur
      fun b hb => hans b (List.mem_cons_of_mem _ hb)
    exact ⟨s', runOps_cons_eq_some.mpr ⟨u, hu, hrun⟩, by rw [hfin, hsent]; rfl⟩

end TSpider.Agg

import TSpider.Lib.Run

/-!
# Transactions on one shard

With `spider_transaction_one_shard` a user without SUPER may use one partition number in a transaction. A statement is refused
if a table uses more than one partition, or if its number (`spider_current_partition_num`) differs from the one that the
previous statement left (`spider_last_partition_num`); `trans_commit_stmt` copies the one to the other.

So a statement that never reaches the check replaces the number by its own, mostly zero. A statement over several tables is
not compared with the previous one; `DELETE` without a condition removes the rows before the check; an accepted statement that
fails later leaves no number. Only the first `num_parts` partitions are counted, so that later subpartitions are not, and none
are on a table whose partitioning columns no range can be built for.
-/

namespace TSpider.Shard
open Lib List

/-- What kind of table the pruning finds: without partitions, partitioned, or partitioned over Spider. -/
inductive Engine
  | plain
  | partitioned
  | spider
  deriving DecidableEq, Repr

/-- What `prune_partitions` does: the partitions it marks in `read_partitions`, and whether it goes on to count them. It does
not if `create_partition_index_description` fails. -/
structure Pruning where
  marked : List Nat
  counted : Bool
  deriving DecidableEq, Repr

/-- A leaf table: `num_parts`, which leaves out subpartitions; the first pruning; whether that was final
(`is_pruning_completed`); if not, the second. `embedded` tables, inside an outer join, are pruned once. -/
structure Table where
  engine : Engine
  numParts : Nat
  prepared : Pruning
  completed : Bool
  optimized : Pruning
  embedded : Bool
  locked : optimized.marked.Sublist prepared.marked
  deriving DecidableEq, Repr

/-- One that goes through `JOIN::prepare` and `JOIN::optimize_inner`, `impossible` also with LIMIT 0; UPDATE and DELETE of one
table, `all` if `delete_all_rows` is used; or any other. -/
inductive Stmt
  | join (tables : List Table) (impossible : Bool)
  | update (t : Table)
  | delete (t : Table) (all : Bool)
  | other
  deriving DecidableEq, Repr

variable (t : Table)

/-- The partitions that the loop of `get_num_of_usedparts` comes upon. -/
def Table.seen (p : Pruning) : List Nat :=
  if t.engine = .spider ∧ p.counted then p.marked.filter (· < t.numParts) else []

/-- `spider_current_partition_num` after a pruning. -/
def getNumOfUsedparts (p : Pruning) (current : Nat) : Nat := (t.seen p).getLast?.elim current (· + 1)

/-- `sql_use_partition_count` of the table after a pruning. -/
def useCount (p : Pruning) : Nat := (t.seen p).length

def Table.again : Bool := !t.completed && !t.embedded

def Table.pruned : Pruning := if t.again then t.optimized else t.prepared

/-- The partitions that are used on a shard. -/
def Table.onShards (p : Pruning) : List Nat := if t.engine = .spider then p.marked else []

/-- The pruning in `JOIN::prepare`. -/
def prepare (tables : List Table) (current : Nat) : Nat :=
  tables.foldl (fun c t => getNumOfUsedparts t t.prepared c) current

def prune (current : Nat) : Nat := if t.again then getNumOfUsedparts t t.optimized current else current

def optimizeLoop : List Table → Option Nat → Nat → Nat × Bool
  | [], _, current => (current, true)
  | t :: ts, shard, current =>
    let c := prune t current
    let rest := optimizeLoop ts (some (shard.getD c)) c
    (rest.1, (shard.getD c == c) && rest.2)

def multiple : Bool := 1 < useCount t t.pruned

/-- `JOIN::prepare` and the check of `JOIN::optimize_inner`: whether the statement is accepted, and the number. -/
def runJoin (tables : List Table) (impossible : Bool) (last : Nat) : Bool × Nat :=
  if impossible then (true, prepare tables 0)
  else
    let r := optimizeLoop tables none (prepare tables 0)
    if tables.length = 1 then (!(tables.any multiple || (last != 0 && r.1 != last)), r.1)
    else (!(1 < tables.length && (tables.any multiple || !r.2)), r.1)

def Table.prunedAway : Bool := t.engine ≠ .plain ∧ t.prepared.marked = []

/-- The check of `mysql_update` and `mysql_delete`. -/
def refused (current last : Nat) : Bool :=
  1 < useCount t t.prepared || (last != 0 && current != last)

/-- `mysql_update`: pruned, checked, pruned again. -/
def runUpdate (last : Nat) : Bool × Nat :=
  let c := getNumOfUsedparts t t.prepared 0
  if t.prunedAway then (true, c) else if refused t c last then (false, c) else (true, prune t c)

/-- `mysql_delete`: pruned and checked, but for `delete_all_rows`. -/
def runDelete (all : Bool) (last : Nat) : Bool × Nat :=
  let c := getNumOfUsedparts t t.prepared 0
  if t.prunedAway || all then (true, c) else (!refused t c last, c)

/-- Whether the statement is accepted, and `spider_current_partition_num` after it. -/
def Stmt.run (s : Stmt) (last : Nat) : Bool × Nat :=
  match s with
  | .join tables impossible => runJoin tables impossible last
  | .update t => runUpdate t last
  | .delete t all => runDelete t all last
  | .other => (true, 0)

def Stmt.used : Stmt → List Nat
  | .join tables impossible => if impossible then [] else tables.flatMap fun t => t.onShards t.pruned
  | .update t => t.onShards t.pruned
  | .delete t _ => t.onShards t.prepared
  | .other => []

structure Session where
  last : Nat
  used : List Nat
  deriving DecidableEq, Repr

/-- `trans_begin`. -/
def Session.start : Session := ⟨0, []⟩

/-- One statement, and whether it fails once accepted: `trans_commit_stmt` remembers the number, `trans_rollback_stmt` does
not. -/
def step (s : Session) (a : Stmt × Bool) : Option Session :=
  if (a.1.run s.last).1 then some ⟨if a.2 then s.last else (a.1.run s.last).2, s.used ++ a.1.used⟩ else some s

def Session.OneShard (s : Session) : Prop := ∀ p ∈ s.used, ∀ q ∈ s.used, p = q

instance (s : Session) : Decidable s.OneShard := by unfold Session.OneShard; infer_instance

def Stmt.unchecked : Stmt → Bool
  | .join tables impossible => impossible || tables.length != 1
  | .update t => t.prunedAway
  | .delete t all => t.prunedAway || all
  | .other => true

/-- The pruning counts every partition that it marks on a shard. -/
def Table.Counts (p : Pruning) : Prop := t.engine = .spider → p.counted = true ∧ ∀ i ∈ p.marked, i < t.numParts

instance (p : Pruning) : Decidable (t.Counts p) := by unfold Table.Counts; infer_instance

/-- The prunings that the check goes by count what they mark. -/
def Stmt.Counts : Stmt → Prop
  | .join tables _ => ∀ t ∈ tables, t.Counts t.pruned
  | .update t | .delete t _ => t.Counts t.prepared
  | .other => True

instance : DecidablePred Stmt.Counts
  | .join _ _ | .update _ | .delete _ _ | .other => by unfold Stmt.Counts; infer_instance

/-- A statement that is not checked uses no partition, and no number is remembered or it fails; one that is has its partitions
counted and, if it uses one with no number remembered, does not fail. -/
def Remembered (s : Session) (a : Stmt × Bool) : Prop :=
  if a.1.unchecked then a.1.used = [] ∧ (s.last = 0 ∨ a.2 = true)
  else a.1.Counts ∧ (s.last = 0 → a.1.used ≠ [] → a.2 = false)

instance (s : Session) (a : Stmt × Bool) : Decidable (Remembered s a) := by unfold Remembered; infer_instance

/-! ## A checked statement -/

variable {t : Table} {last : Nat}

theorem Table.Counts.seen_eq {p : Pruning} (h : t.Counts p) : t.seen p = t.onShards p := by
  unfold Table.seen Table.onShards
  by_cases he : t.engine = .spider
  · obtain ⟨hcounted, hlt⟩ := h he
    rw [if_pos ⟨he, hcounted⟩, if_pos he, filter_eq_self]
    simpa using hlt
  · rw [if_neg fun h => he h.1, if_neg he]

theorem seen_sublist_onShards (p : Pruning) : (t.seen p).Sublist (t.onShards p) := by
  unfold Table.seen Table.onShards
  split_ifs with h he
  · exact filter_sublist
  · exact absurd h.1 he
  · exact nil_sublist _
  · exact nil_sublist _

theorem onShards_sublist {p p' : Pruning} (h : p.marked.Sublist p'.marked) : (t.onShards p).Sublist (t.onShards p') := by
  unfold Table.onShards
  split_ifs
  · exact h
  · exact List.Sublist.refl _

theorem Table.pruned_sublist : t.pruned.marked.Sublist t.prepared.marked := by
  unfold Table.pruned
  split_ifs
  · exact t.locked
  · exact List.Sublist.refl _

theorem prune_getNumOfUsedparts (current : Nat) : prune t (getNumOfUsedparts t t.prepared current) =
      (t.seen t.pruned).getLast?.elim (getNumOfUsedparts t t.prepared current) (· + 1) := by
  unfold prune Table.pruned
  split_ifs with h
  · rfl
  · rw [getNumOfUsedparts]
    cases (t.seen t.prepared).getLast? <;> rfl

/-- An accepted statement that was checked uses at most one partition, leaves its number, and that is the one remembered. -/
structure Told (used : List Nat) (last c : Nat) : Prop where
  one : used.length ≤ 1
  number : ∀ p ∈ used, c = p + 1
  same : last ≠ 0 → c = last

theorem number_of_length {used : List Nat} {d p : Nat} (h : used.length ≤ 1) (hp : p ∈ used) :
    used.getLast?.elim d (· + 1) = p + 1 := by
  match used, h, hp with
  | [q], _, hp => rw [mem_singleton.mp hp]; rfl

theorem told_join {c : Nat} (hcounts : t.Counts t.pruned) (h : runJoin [t] false last = (true, c)) :
    Told (t.onShards t.pruned) last c := by
  have hr : (optimizeLoop [t] none (prepare [t] 0)).1 = prune t (getNumOfUsedparts t t.prepared 0) := rfl
  simp only [runJoin, Bool.false_eq_true, if_false, length_singleton, if_true, any_cons, any_nil,
    Bool.or_false, Prod.mk.injEq, Bool.not_eq_true', Bool.or_eq_false_iff, multiple, decide_eq_false_iff_not,
    useCount, hcounts.seen_eq, Nat.not_lt, hr] at h
  obtain ⟨⟨hone, hlast⟩, rfl⟩ := h
  refine ⟨hone, fun p hp => ?_, fun h0 => by simpa [h0] using hlast⟩
  rw [prune_getNumOfUsedparts, hcounts.seen_eq, number_of_length hone hp]

theorem told_prepared (hcounts : t.Counts t.prepared) (h : refused t (getNumOfUsedparts t t.prepared 0) last = false) :
    Told (t.onShards t.prepared) last (getNumOfUsedparts t t.prepared 0) := by
  simp only [refused, Bool.or_eq_false_iff, decide_eq_false_iff_not, useCount, hcounts.seen_eq, Nat.not_lt] at h
  refine ⟨h.1, fun p hp => ?_, fun h0 => by simpa [h0] using h.2⟩
  rw [getNumOfUsedparts, hcounts.seen_eq, number_of_length h.1 hp]

theorem told_pruned (hcounts : t.Counts t.prepared) (h : refused t (getNumOfUsedparts t t.prepared 0) last = false) :
    Told (t.onShards t.pruned) last (prune t (getNumOfUsedparts t t.prepared 0)) := by
  have hp := told_prepared hcounts h
  have hsub := onShards_sublist (t := t) t.pruned_sublist
  have hsame : prune t (getNumOfUsedparts t t.prepared 0) = getNumOfUsedparts t t.prepared 0 := by
    rw [prune_getNumOfUsedparts]
    cases hl : (t.seen t.pruned).getLast? with
    | none => rfl
    | some p =>
      have hmem := (seen_sublist_onShards t.pruned).subset (mem_of_getLast? hl)
      exact (hp.number p (hsub.subset hmem)).symm
  rw [hsame]
  exact ⟨hsub.length_le.trans hp.one, fun p hm => hp.number p (hsub.subset hm), hp.same⟩

theorem told_of_checked {s : Stmt} (hu : s.unchecked = false) (hcounts : s.Counts) (h : (s.run last).1 = true) :
    Told s.used last (s.run last).2 := by
  cases s with
  | join tables impossible =>
    simp only [Stmt.unchecked, Bool.or_eq_false_iff, bne_eq_false_iff_eq] at hu
    obtain ⟨rfl, hlen⟩ := hu
    obtain ⟨t, rfl⟩ := length_eq_one_iff.mp hlen
    have hj : runJoin [t] false last = (true, (runJoin [t] false last).2) := Prod.ext h rfl
    simpa [Stmt.used, Stmt.run] using told_join (hcounts t (mem_singleton.mpr rfl)) hj
  | update t =>
    simp only [Stmt.unchecked] at hu
    simp only [Stmt.run, runUpdate, hu, Bool.false_eq_true, if_false] at h ⊢
    split_ifs at h ⊢ with hr
    exact told_pruned hcounts (Bool.eq_false_iff.mpr hr)
  | delete t all =>
    simp only [Stmt.unchecked] at hu
    simp only [Stmt.run, runDelete, hu, Bool.false_eq_true, if_false, Bool.not_eq_true'] at h ⊢
    exact told_prepared hcounts h
  | other => simp [Stmt.unchecked] at hu

/-! ## Whole transactions -/

/-- As long as no number is remembered no partition is used; and only the remembered one is. -/
structure Inv (s : Session) : Prop where
  fresh : s.last = 0 → s.used = []
  remembered : ∀ p ∈ s.used, p + 1 = s.last

theorem inv_start : Inv Session.start := ⟨fun _ => rfl, by simp [Session.start]⟩

theorem Inv.checked {s : Session} {used : List Nat} {c : Nat} {fails : Bool} (hi : Inv s) (ht : Told used s.last c)
    (hc : s.last = 0 → used ≠ [] → fails = false) : Inv ⟨if fails then s.last else c, s.used ++ used⟩ := by
  by_cases h0 : s.last = 0
  · -- The first partition: the statement does not fail, so its number is remembered.
    rw [hi.fresh h0, nil_append]
    by_cases hu : used = []
    · subst hu
      exact ⟨fun _ => rfl, by simp⟩
    · rw [hc h0 hu, if_neg Bool.false_ne_true]
      refine ⟨fun hz => ?_, fun p hp => (ht.number p hp).symm⟩
      obtain ⟨p, hp⟩ := exists_mem_of_ne_nil _ hu
      have := ht.number p hp
      dsimp only at hz
      omega
  · -- The number is the remembered one, whether the statement fails or not.
    have hl : (if fails then s.last else c) = s.last := by
      split_ifs
      · rfl
      · exact ht.same h0
    rw [hl]
    refine ⟨fun hz => absurd hz h0, fun p hp => ?_⟩
    rcases mem_append.mp hp with hp | hp
    · exact hi.remembered p hp
    · exact (ht.number p hp).symm.trans (ht.same h0)

theorem Inv.unchecked {s : Session} {c : Nat} {fails : Bool} (hi : Inv s) (hc : s.last = 0 ∨ fails = true) :
    Inv ⟨if fails then s.last else c, s.used⟩ := by
  rcases hc with h0 | rfl
  · have hu := hi.fresh h0
    exact ⟨fun _ => hu, fun p hp => by rw [hu] at hp; cases hp⟩
  · exact hi

theorem Inv.step {s s' : Session} {a : Stmt × Bool} (hi : Inv s) (hc : Remembered s a) (h : step s a = some s') : Inv s' := by
  unfold Shard.step at h
  by_cases hrun : (a.1.run s.last).1 = true
  · rw [if_pos hrun] at h
    cases h
    unfold Remembered at hc
    by_cases hu : a.1.unchecked = true
    · rw [if_pos hu] at hc
      rw [hc.1, append_nil]
      exact hi.unchecked hc.2
    · rw [if_neg hu] at hc
      exact hi.checked (told_of_checked (Bool.eq_false_iff.mpr hu) hc.1 hrun) hc.2
  · rw [if_neg hrun] at h
    exact Option.some.inj h ▸ hi

/-- One of four partitions with two subpartitions each, by the number of the subpartition. -/
def onPartition (p : Nat) : Table := ⟨.spider, 4, ⟨[p], true⟩, true, ⟨[], true⟩, false, nil_sublist _⟩

/-- `set_rone_shard_part` on the marked partitions, with `rand()` being `rand`. Only the first `num_parts` bits count; `none`
is a division by zero. -/
def setRoneShardPart (numParts rand : Nat) (readPartitions : List Nat) : Option (List Nat) :=
  let used := (List.range numParts).filter (readPartitions.contains ·)
  if h : 0 < used.length then some [used.get ⟨rand % used.length, Nat.mod_lt _ h⟩] else none

/-- **The step ends with one of the marked partitions** or none, exactly if one of the first `num_parts` partitions is
marked. -/
theorem setRoneShardPart_iff (numParts rand : Nat) (marked : List Nat) :
    (∃ parts, setRoneShardPart numParts rand marked = some parts ∧ ((∃ i ∈ marked, parts = [i]) ∨ marked = [] ∧ parts = [])) ↔
      ∃ i ∈ marked, i < numParts := by
  have hused : ∀ i, i ∈ (List.range numParts).filter (marked.contains ·) ↔ i < numParts ∧ i ∈ marked := fun i => by simp
  unfold setRoneShardPart
  constructor
  · rintro ⟨parts, h, -⟩
    dsimp only at h
    split_ifs at h with hpos
    obtain ⟨i, hi⟩ := exists_mem_of_length_pos hpos
    exact ⟨i, ((hused i).mp hi).2, ((hused i).mp hi).1⟩
  · rintro ⟨i, hi, hlt⟩
    have hpos := length_pos_of_mem ((hused i).mpr ⟨hlt, hi⟩)
    rw [dif_pos hpos]
    exact ⟨_, rfl, .inl ⟨_, ((hused _).mp (get_mem _ _)).2, rfl⟩⟩

/-- A contradictory condition, and two partitions with two subpartitions each of which only the last is used. -/
theorem setRoneShardPart_crash : setRoneShardPart 4 7 [] = none ∧ setRoneShardPart 2 7 [3] = none := by decide

end TSpider.Shard

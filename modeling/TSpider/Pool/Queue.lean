import Mathlib.Algebra.Order.Group.Multiset
import Mathlib.Data.List.Induction
import Mathlib.Data.PNat.Basic

/-!
# The arrays of the connection pool

`SPIDER_CONN_POOL` is a hash with an array of connections for each key. A connection is put at the end of the array of its key
and taken from there, also by the recycler.
-/

namespace TSpider.Pool.Queue
open List

variable {κ γ : Type*}

/-- The connections of a pool with their keys. -/
def contents (h : List (κ × List γ)) : Multiset (κ × γ) := (h.flatMap fun e => e.2.map (e.1, ·) : List (κ × γ))

theorem contents_cons (k : κ) (q : List γ) (h : List (κ × List γ)) :
    contents ((k, q) :: h) = (q.map (k, ·) : List (κ × γ)) + contents h := by
  simp [contents]

variable [DecidableEq κ]

/-- `put_conn`, on if it fails: `created` is off if there is no memory for an array, `inserted` if none for the connection. -/
def putConn (key : κ) (conn : γ) (created inserted : Bool) : List (κ × List γ) → Bool × List (κ × List γ)
  | [] => if created then (!inserted, [(key, if inserted then [conn] else [])]) else (true, [])
  | (k, q) :: h =>
    if k = key then (!inserted, (k, if inserted then q ++ [conn] else q) :: h)
    else
      let r := putConn key conn created inserted h
      (r.1, (k, q) :: r.2)

/-- `get_conn`, which is given the hash value of the key too, and `get_conn_by_key`. -/
def getConn (key : κ) : List (κ × List γ) → Option γ × List (κ × List γ)
  | [] => (none, [])
  | (k, q) :: h =>
    if k = key then (q.getLast?, (k, q.dropLast) :: h)
    else
      let r := getConn key h
      (r.1, (k, q) :: r.2)

/-- The pool, and what was put into it and taken from it. -/
structure State (κ γ : Type*) where
  hash : List (κ × List γ)
  put : List (κ × γ)
  taken : List (κ × γ)

inductive Op (κ γ : Type*) where
  | put (key : κ) (conn : γ) (created inserted : Bool)
  | get (key : κ)

def step (st : State κ γ) : Op κ γ → State κ γ
  | .put key conn created inserted =>
    let r := putConn key conn created inserted st.hash
    { st with hash := r.2, put := st.put ++ if r.1 then [] else [(key, conn)] }
  | .get key =>
    let r := getConn key st.hash
    { st with hash := r.2, taken := st.taken ++ (r.1.map (key, ·)).toList }

def run (ops : List (Op κ γ)) : State κ γ := ops.foldl step ⟨[], [], []⟩

section Calls
variable (key : κ) (conn : γ) (created inserted : Bool) (h : List (κ × List γ))

theorem contents_putConn : contents (putConn key conn created inserted h).2 =
    contents h + (if (putConn key conn created inserted h).1 then [] else [(key, conn)] : List (κ × γ)) := by
  induction h with
  | nil => cases created <;> cases inserted <;> simp [putConn, contents]
  | cons e h ih =>
    obtain ⟨k, q⟩ := e
    by_cases hk : k = key
    · subst hk
      cases inserted <;> simp [putConn, contents_cons, ← Multiset.coe_add, add_right_comm]
    · simp only [putConn, if_neg hk, contents_cons, ih, add_assoc]

theorem contents_getConn : contents (getConn key h).2 + ((getConn key h).1.map (key, ·)).toList = contents h := by
  induction h with
  | nil => rfl
  | cons e h ih =>
    obtain ⟨k, q⟩ := e
    by_cases hk : k = key
    · subst hk
      rcases eq_nil_or_concat q with rfl | ⟨q, c, rfl⟩
      · simp [getConn, contents_cons]
      · simp [getConn, contents_cons, ← Multiset.coe_add, add_right_comm]
    · simp only [getConn, if_neg hk, contents_cons, add_assoc, ih]

theorem keys_getConn : (getConn key h).2.map Prod.fst = h.map Prod.fst := by
  induction h with
  | nil => rfl
  | cons e h ih =>
    rw [getConn]
    split_ifs
    · rfl
    · simpa using ih

theorem keys_putConn : (putConn key conn created inserted h).2.map Prod.fst = h.map Prod.fst ∨
    key ∉ h.map Prod.fst ∧ (putConn key conn created inserted h).2.map Prod.fst = h.map Prod.fst ++ [key] := by
  induction h with
  | nil => cases created <;> simp [putConn]
  | cons e h ih =>
    by_cases hk : e.1 = key
    · simp [putConn, hk]
    · rcases ih with ih | ⟨hnew, ih⟩
      · exact .inl (by simp [putConn, hk, ih])
      · refine .inr ⟨?_, by simp [putConn, hk, ih]⟩
        rw [map_cons, mem_cons, not_or]
        exact ⟨Ne.symm hk, hnew⟩

end Calls

theorem run_append (ops : List (Op κ γ)) (op : Op κ γ) : run (ops ++ [op]) = step (run ops) op := by
  simp [run]

/-- The pool has what was put and not taken, under the key it was put under; nothing is handed out more often than put. -/
theorem pool_conserved (ops : List (Op κ γ)) :
    contents (run ops).hash + (run ops).taken = ((run ops).put : Multiset (κ × γ)) ∧ (run ops).taken <+~ (run ops).put := by
  have hall : contents (run ops).hash + (run ops).taken = ((run ops).put : Multiset (κ × γ)) := by
    induction ops using reverseRecOn with
    | nil => rfl
    | append_singleton ops op ih =>
      rw [run_append]
      cases op with
      | put key conn created inserted =>
        simp only [step, contents_putConn, ← Multiset.coe_add, ← ih]
        rw [add_right_comm]
      | get key =>
        simp only [step, ← Multiset.coe_add, ← ih]
        rw [← contents_getConn key (run ops).hash, add_right_comm, add_assoc]
  exact ⟨hall, Multiset.coe_le.mp (hall ▸ Multiset.le_add_left _ _)⟩

theorem run_keys_nodup (ops : List (Op κ γ)) : ((run ops).hash.map Prod.fst).Nodup := by
  induction ops using reverseRecOn with
  | nil => exact nodup_nil
  | append_singleton ops op ih =>
    rw [run_append]
    cases op with
    | put key conn created inserted =>
      rcases keys_putConn key conn created inserted (run ops).hash with hk | ⟨hnew, hk⟩
      · simpa only [step, hk] using ih
      · simp only [step, hk]
        exact concat_eq_append ▸ ih.concat hnew
    | get key => simpa only [step, keys_getConn] using ih

/-! ## The recycler -/

section Recycler
variable (idle : γ → Bool)

/-- `poll_last_visited` : the keys of the idle connections, each as often as it has idle ones. -/
def pollLastVisited (h : List (κ × List γ)) : List κ := h.flatMap fun e => replicate (e.2.countP idle) e.1

/-- The connections that are freed, one taken from the pool for each key. -/
def freeConns : List κ → List (κ × List γ) → List γ
  | [], _ => []
  | key :: keys, h => (getConn key h).1.toList ++ freeConns keys (getConn key h).2

/-- A round of `spider_conn_recycle_action`. The interval has a least value of 8. -/
def connRecycleAction (interval : ℕ+) (now : ℕ) (lastVisited : γ → ℕ) (h : List (κ × List γ)) : List γ :=
  freeConns (pollLastVisited (fun c => 0 < now ∧ lastVisited c < now ∧ interval ≤ now - lastVisited c) h) h

theorem freeConns_replicate (n : ℕ) (key : κ) (keys : List κ) (p : List γ) (h : List (κ × List γ)) :
    freeConns (replicate n key ++ keys) ((key, p.reverse) :: h) =
      p.take n ++ freeConns keys ((key, (p.drop n).reverse) :: h) := by
  induction n generalizing p with
  | zero => simp
  | succ n ih =>
    simp only [replicate_succ, cons_append, freeConns, getConn, if_true, getLast?_reverse, dropLast_reverse, ih]
    cases p <;> simp

theorem freeConns_cons_of_notMem {key : κ} {keys : List κ} (hnew : key ∉ keys) (q : List γ) (h : List (κ × List γ)) :
    freeConns keys ((key, q) :: h) = freeConns keys h := by
  induction keys generalizing h with
  | nil => rfl
  | cons k keys ih =>
    rw [mem_cons, not_or] at hnew
    simp only [freeConns, getConn, if_neg hnew.1, ih hnew.2]

/-- From each array as many connections are freed as it has idle ones, from its end. -/
theorem freeConns_poll {h : List (κ × List γ)} (hkeys : (h.map Prod.fst).Nodup) :
    freeConns (pollLastVisited idle h) h = h.flatMap fun e => e.2.reverse.take (e.2.countP idle) := by
  induction h with
  | nil => rfl
  | cons e h ih =>
    obtain ⟨k, q⟩ := e
    rw [map_cons, nodup_cons] at hkeys
    have hnew : k ∉ pollLastVisited idle h := by
      intro hmem
      obtain ⟨e, he, hk⟩ := mem_flatMap.mp hmem
      exact hkeys.1 (mem_map.mpr ⟨e, he, (eq_of_mem_replicate hk).symm⟩)
    have htake := freeConns_replicate (q.countP idle) k (pollLastVisited idle h) q.reverse h
    rw [reverse_reverse, freeConns_cons_of_notMem hnew, ih hkeys.2] at htake
    exact htake

theorem take_idle_iff (p : List γ) :
    (∀ c ∈ p.take (p.countP idle), idle c) ↔ p.Pairwise fun a b => idle b → idle a := by
  induction p with
  | nil => simp
  | cons a p ih =>
    rw [pairwise_cons, ← ih]
    by_cases ha : idle a
    · simp [ha]
    · rw [countP_cons_of_neg ha]
      -- what is taken begins with `a`, unless no connection is idle
      rcases hn : p.countP idle with _ | n
      · have hnone := countP_eq_zero.mp hn
        simpa using fun b hb hib => absurd hib (hnone b hb)
      · obtain ⟨b, hb, hib⟩ := countP_pos_iff.mp (Nat.lt_of_lt_of_eq n.succ_pos hn.symm)
        exact ⟨fun hall => absurd (hall a (by simp)) ha, fun hall => absurd (hall.1 b hb hib) ha⟩

end Recycler

/-- The recycler frees only connections unused for the interval exactly if no array has an idle one before one that is not. -/
theorem freed_unused_iff (ops : List (Op κ γ)) (interval : ℕ+) (now : ℕ) (lastVisited : γ → ℕ) :
    (∀ c ∈ connRecycleAction interval now lastVisited (run ops).hash, lastVisited c + interval ≤ now) ↔
      ∀ e ∈ (run ops).hash, e.2.Pairwise fun a b => lastVisited a + interval ≤ now → lastVisited b + interval ≤ now := by
  have hidle : (fun c => decide (0 < now ∧ lastVisited c < now ∧ (interval : ℕ) ≤ now - lastVisited c)) =
      fun c => decide (lastVisited c + interval ≤ now) := by
    funext c
    have := interval.pos
    exact decide_eq_decide.mpr (by omega)
  rw [connRecycleAction, hidle, freeConns_poll _ (run_keys_nodup ops)]
  simp only [mem_flatMap, forall_exists_index, and_imp]
  rw [forall_comm]
  refine forall_congr' fun e => ?_
  rw [forall_comm]
  refine forall_congr' fun _ => ?_
  have htake := take_idle_iff (fun c => decide (lastVisited c + interval ≤ now)) e.2.reverse
  simpa only [countP_reverse, pairwise_reverse, decide_eq_true_eq] using htake

/-- The second connection was used just now and is the one that is freed. -/
theorem freed_recently_used : connRecycleAction 8 20 Prod.snd
    (run [.put "0a" ('a', 0) true true, .put "0a" ('b', 20) true true]).hash = [('b', 20)] := by
  decide

end TSpider.Pool.Queue

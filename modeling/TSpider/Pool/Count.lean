import Mathlib.Data.List.Perm.Basic
import TSpider.Lib.Run

/-!
# The count of connections

For every connection key there is an entry (`SPIDER_IP_PORT_CONN`) with the number of its connections; a new one is refused if
the number has reached `spider_max_connections`. Threads search the entry under a read lock, count under the mutex of the
entry, and insert a new entry under a write lock.

A casual read asks under a key with another first byte and with the hash value of the key without it, so a search can miss
what the hash has; when its connection goes to the pool the first byte is `0` again. `base` is this change of the first byte.

`counted_of_sound` : the number is right as long as every allocation and insertion succeeds, no thread inserts a second entry
for a key and no connection of a casual read goes to the pool.
-/

namespace TSpider.Pool.Count
open Lib List Option

variable {κ : Type} [DecidableEq κ]

/-! ## The functions -/

structure Entry (κ : Type) where
  key : κ
  count : Nat

/-- Where a connection is: with a thread that makes or fetches it, in a thread's transaction, or in the pool. -/
inductive Place where
  | flight (thd : Nat)
  | held (thd : Nat)
  | pooled
  deriving DecidableEq

/-- `SPIDER_CONN`: the entry is `ip_port_conn`. -/
structure Conn (κ : Type) where
  key : κ
  entry : Option Nat
  place : Place
  connected : Bool

inductive Pc (κ : Type) where
  | idle
  /-- At the start of `spider_get_conn_from_idle_connection`. -/
  | lookup (key : κ)
  | waiting (key : κ)
  | create (key : κ)
  | found (key : κ) (entry : Nat)
  /-- `spider_create_ipport_conn` has made an entry that is not in the hash yet. -/
  | missing (key : κ)
  /-- Before `spider_add_conn_meta_info`. -/
  | counted
  /-- Before the insertion into `trx_conn_hash`. -/
  | made

structure State (κ : Type) where
  entries : List (Entry κ)
  conns : List (Conn κ)
  pc : Nat → Pc κ

open State

def State.init : State κ := ⟨[], [], fun _ => .idle⟩

/-- One step of a thread; `conn` and `entry` are places in the lists. -/
inductive Op (κ : Type) where
  | getPooled (thd conn : Nat) (key : κ)
  | miss (thd : Nat) (key : κ)
  | lookup (thd : Nat) (entry : Option Nat)
  | timeout (thd : Nat)
  | wake (thd conn : Nat)
  /-- An error of `spider_create_conn` before the search. -/
  | allocFail (thd : Nat)
  | search (thd : Nat) (entry : Option Nat) (alloc : Bool)
  | count (thd : Nat)
  | insert (thd : Nat) (ok : Bool)
  | addMeta (thd conn : Nat) (ok : Bool)
  | hold (thd conn : Nat) (ok : Bool)
  | connect (thd conn : Nat) (ok : Bool)
  | put (thd conn : Nat) (ok : Bool)
  | free (thd conn : Nat)
  | recycle (conn : Nat)

namespace State
variable (base : κ → κ) (st : State κ)

def setPc (thd : Nat) (p : Pc κ) : State κ := { st with pc := Function.update st.pc thd p }

def connAt (j : Nat) (place : Place) : Option (Conn κ) := (st.conns[j]?).filter (·.place = place)

def setConn (j : Nat) (c : Conn κ) : State κ := { st with conns := st.conns.set j c }

def addConn (c : Conn κ) : State κ := { st with conns := st.conns ++ [c] }

def finds (key : κ) : Option Nat → Bool
  | some e => (st.entries[e]?).any (·.key = key)
  | none => base key ≠ key || st.entries.all (·.key ≠ key)

def freeConn (j : Nat) (c : Conn κ) : State κ :=
  { st with
    entries := match c.entry with
      | some e => st.entries.modify e fun x => { x with count := if 0 < x.count then x.count - 1 else x.count }
      | none => st.entries
    conns := st.conns.eraseIdx j }

def full (max : Nat) (e : Nat) : Bool := (st.entries[e]?).any fun x => 0 < max && max ≤ x.count

def step (base : κ → κ) (max : Nat) (st : State κ) : Op κ → Option (State κ)
  | .getPooled thd j key =>
    match st.pc thd, st.connAt j .pooled with
    | .idle, some c => if c.key = key then some ((st.setConn j { c with place := .flight thd }).setPc thd .made) else none
    | _, _ => none
  | .miss thd key =>
    match st.pc thd with
    | .idle =>
      if base key ≠ key || st.conns.all fun c => !(c.place = .pooled && c.key = key) then some (st.setPc thd (.lookup key))
      else none
    | _ => none
  | .lookup thd entry =>
    match st.pc thd with
    | .lookup key =>
      if st.finds base key entry then some (st.setPc thd (if entry.any (st.full max) then .waiting key else .create key))
      else none
    | _ => none
  | .timeout thd =>
    match st.pc thd with
    | .waiting _ => some (st.setPc thd .idle)
    | _ => none
  | .wake thd j =>
    match st.pc thd, st.connAt j .pooled with
    | .waiting key, some c =>
      if c.key = key then some ((st.setConn j { c with place := .flight thd }).setPc thd .made) else none
    | _, _ => none
  | .allocFail thd =>
    match st.pc thd with
    | .create _ => some (st.setPc thd .idle)
    | _ => none
  | .search thd entry alloc =>
    match st.pc thd with
    | .create key =>
      if st.finds base key entry then
        match entry with
        | some e => some (st.setPc thd (.found key e))
        | none =>
          some (if alloc then st.setPc thd (.missing key) else (st.addConn ⟨key, none, .flight thd, false⟩).setPc thd .made)
      else none
    | _ => none
  | .count thd =>
    match st.pc thd with
    | .found key e =>
      some (if st.full max e then st.setPc thd .idle
        else ({ st with entries := st.entries.modify e fun x => { x with count := x.count + 1 } }.addConn
          ⟨key, some e, .flight thd, false⟩).setPc thd .counted)
    | _ => none
  | .insert thd ok =>
    match st.pc thd with
    | .missing key =>
      some (if ok then ({ st with entries := st.entries ++ [(⟨key, 1⟩ : Entry κ)] }.addConn
          ⟨key, some st.entries.length, .flight thd, false⟩).setPc thd .counted
        else (st.addConn ⟨key, none, .flight thd, false⟩).setPc thd .made)
    | _ => none
  | .addMeta thd j ok =>
    match st.pc thd, st.connAt j (.flight thd) with
    -- the connection is not freed, but nobody has it
    | .counted, some _ => some (if ok then st.setPc thd .made else { st with conns := st.conns.eraseIdx j }.setPc thd .idle)
    | _, _ => none
  | .hold thd j ok =>
    match st.pc thd, st.connAt j (.flight thd) with
    | .made, some c => some ((if ok then st.setConn j { c with place := .held thd } else st.freeConn j c).setPc thd .idle)
    | _, _ => none
  | .connect thd j ok => (st.connAt j (.held thd)).map fun c => st.setConn j { c with connected := ok }
  | .put thd j ok =>
    (st.connAt j (.held thd)).map fun c =>
      if ok then st.setConn j { c with key := base c.key, place := .pooled } else st.freeConn j c
  | .free thd j => (st.connAt j (.held thd)).map (st.freeConn j)
  | .recycle j => (st.connAt j .pooled).map (st.freeConn j)

def created (key : κ) : Nat := (st.conns.map (·.key)).count key

/-- The count of every key is the number of its connections, and at most the limit. -/
def Counted (max : Nat) : Prop :=
  ∀ key, (∀ x ∈ st.entries, x.key = key → x.count = st.created key) ∧
    ((∀ x ∈ st.entries, x.key ≠ key) → st.created key = 0) ∧ (0 < max → st.created key ≤ max)

end State

/-! ## Effects -/

section Effects
variable {st : State κ}

omit [DecidableEq κ] in
theorem connAt_eq_some {j : Nat} {place : Place} {c : Conn κ} (h : st.connAt j place = some c) :
    st.conns[j]? = some c ∧ c.place = place := by
  simpa [connAt, filter_eq_some_iff] using h

theorem created_setConn {j : Nat} {c d : Conn κ} (hc : st.conns[j]? = some c) (hd : d.key = c.key) (key : κ) :
    (st.setConn j d).created key = st.created key := by
  have hmap : (st.conns.set j d).map (·.key) = st.conns.map (·.key) := by
    refine ext_getElem? fun i => ?_
    rw [List.getElem?_map, List.getElem?_map]
    by_cases hi : j = i
    · subst hi
      simp [List.getElem?_set_self (List.getElem?_eq_some_iff.mp hc).1, hc, hd]
    · rw [List.getElem?_set_ne hi]
  simp only [created, setConn, hmap]

theorem created_addConn (c : Conn κ) (key : κ) :
    (st.addConn c).created key = st.created key + if c.key = key then 1 else 0 := by
  simp only [created, addConn, map_append, count_append, map_cons, map_nil]
  by_cases h : c.key = key <;> simp [h]

theorem created_eraseIdx {j : Nat} {c : Conn κ} (hc : st.conns[j]? = some c) (key : κ) :
    st.created key = ((st.conns.eraseIdx j).map (·.key)).count key + if c.key = key then 1 else 0 := by
  obtain ⟨hlt, rfl⟩ := List.getElem?_eq_some_iff.mp hc
  have hperm := ((getElem_cons_eraseIdx_perm hlt).map (·.key)).count_eq key
  rw [created, ← hperm, map_cons, count_cons]
  simp

end Effects

/-! ## Invariant -/

/-- Every connection has the entry of its key, of which there is one, and its count is right. -/
structure Inv (max : Nat) (st : State κ) : Prop where
  unique : ∀ (i j : Nat) (x y : Entry κ), st.entries[i]? = some x → st.entries[j]? = some y → x.key = y.key → i = j
  entry : ∀ c ∈ st.conns, ∃ (e : Nat) (x : Entry κ), c.entry = some e ∧ st.entries[e]? = some x ∧ x.key = c.key
  count : ∀ (e : Nat) (x : Entry κ), st.entries[e]? = some x → x.count = st.created x.key
  limit : 0 < max → ∀ (e : Nat) (x : Entry κ), st.entries[e]? = some x → x.count ≤ max
  pc : ∀ thd key e, st.pc thd = .found key e → ∃ x : Entry κ, st.entries[e]? = some x ∧ x.key = key

/-- Nothing fails after the limit has been tested, a thread inserts an entry only for a key without one, and a connection goes
to the pool under its own key. -/
def Sound (base : κ → κ) (st : State κ) : Op κ → Prop
  | .search _ none alloc => alloc = true
  | .insert thd ok =>
    ok = true ∧ match st.pc thd with
      | .missing key => ∀ x ∈ st.entries, x.key ≠ key
      | _ => True
  | .addMeta _ _ ok => ok = true
  | .put thd j ok => ok = true → ∀ c ∈ st.connAt j (.held thd), base c.key = c.key
  | _ => True

instance (base : κ → κ) (st : State κ) (op : Op κ) : Decidable (Sound base st op) := by
  unfold Sound
  split
  · infer_instance
  · split <;> infer_instance
  · infer_instance
  · infer_instance
  · infer_instance

namespace Inv
variable {base : κ → κ} {max : Nat} {st st' : State κ} {key : κ} {thd j : Nat}

theorem init : Inv max (State.init : State κ) := by
  refine ⟨?_, ?_, ?_, ?_, ?_⟩ <;> simp [State.init]

theorem setPc (h : Inv max st) (thd : Nat) {p : Pc κ}
    (hp : ∀ key e, p = .found key e → ∃ x, st.entries[e]? = some x ∧ x.key = key) : Inv max (st.setPc thd p) := by
  refine ⟨h.unique, h.entry, h.count, h.limit, fun t key e ht => ?_⟩
  by_cases htt : t = thd
  · subst htt
    simp only [State.setPc, Function.update_self] at ht
    exact hp key e ht
  · simp only [State.setPc, Function.update_of_ne htt] at ht
    exact h.pc t key e ht

theorem setPc_ne_found (h : Inv max st) (thd : Nat) {p : Pc κ} (hp : ∀ key e, p ≠ .found key e) :
    Inv max (st.setPc thd p) :=
  h.setPc thd fun key e hpe => absurd hpe (hp key e)

theorem setConn (h : Inv max st) {j : Nat} {c d : Conn κ} (hc : st.conns[j]? = some c) (hkey : d.key = c.key)
    (hentry : d.entry = c.entry) : Inv max (st.setConn j d) := by
  refine ⟨h.unique, fun x hx => ?_, fun e x hx => ?_, h.limit, h.pc⟩
  · obtain hx | rfl := mem_or_eq_of_mem_set hx
    · exact h.entry x hx
    · rw [hkey, hentry]
      exact h.entry c (mem_of_getElem? hc)
  · rw [created_setConn hc hkey]
    exact h.count e x hx

theorem finds_some {e : Nat} (h : st.finds base key (some e) = true) : ∃ x, st.entries[e]? = some x ∧ x.key = key := by
  simpa [finds, Option.any_eq_true] using h

variable (h : Inv max st)
include h

theorem modify {e : Nat} {x : Entry κ} (hx : st.entries[e]? = some x) (f : Entry κ → Entry κ)
    (hf : ∀ y, (f y).key = y.key) {conns : List (Conn κ)}
    (hentry : ∀ c ∈ conns, ∃ (e : Nat) (x : Entry κ), c.entry = some e ∧ st.entries[e]? = some x ∧ x.key = c.key)
    (hcount : (f x).count = (conns.map (·.key)).count x.key)
    (hother : ∀ key, key ≠ x.key → (conns.map (·.key)).count key = st.created key) (hlimit : 0 < max → (f x).count ≤ max) :
    Inv max { st with entries := st.entries.modify e f, conns := conns } := by
  have hget : ∀ (i : Nat) (y : Entry κ), (st.entries.modify e f)[i]? = some y →
      ∃ z, st.entries[i]? = some z ∧ y = if e = i then f z else z := by
    intro i y hy
    rw [List.getElem?_modify] at hy
    obtain ⟨z, hz, rfl⟩ := map_eq_some_iff.mp hy
    exact ⟨z, hz, rfl⟩
  have hkey : ∀ (i : Nat) (z : Entry κ), (if e = i then f z else z).key = z.key := by
    intro i z
    split_ifs
    · exact hf z
    · rfl
  have hkeys : ∀ (i : Nat) (z : Entry κ), st.entries[i]? = some z →
      ∃ y, (st.entries.modify e f)[i]? = some y ∧ y.key = z.key := by
    intro i z hz
    rw [List.getElem?_modify, hz]
    exact ⟨_, rfl, hkey i z⟩
  -- the entry at `e` is the one that is changed, all others have other keys
  have hother' : ∀ (i : Nat) (z : Entry κ), st.entries[i]? = some z → e ≠ i → z.key ≠ x.key :=
    fun i z hz hi hk => hi (h.unique e i x z hx hz hk.symm)
  refine ⟨fun i j y y' hy hy' hk => ?_, fun c hc => ?_, fun i y hy => ?_, fun hmax i y hy => ?_, fun t key i ht => ?_⟩
  · obtain ⟨z, hz, rfl⟩ := hget i y hy
    obtain ⟨z', hz', rfl⟩ := hget j y' hy'
    exact h.unique i j z z' hz hz' (by rw [hkey, hkey] at hk; exact hk)
  · obtain ⟨i, z, hi, hz, hk⟩ := hentry c hc
    obtain ⟨y, hy, hyz⟩ := hkeys i z hz
    exact ⟨i, y, hi, hy, hyz.trans hk⟩
  · obtain ⟨z, hz, rfl⟩ := hget i y hy
    rw [hkey]
    by_cases hi : e = i
    · subst hi
      obtain rfl : x = z := Option.some.inj (hx.symm.trans hz)
      rw [if_pos rfl]
      exact hcount
    · rw [if_neg hi]
      exact (h.count i z hz).trans (hother z.key (hother' i z hz hi)).symm
  · obtain ⟨z, hz, rfl⟩ := hget i y hy
    by_cases hi : e = i
    · subst hi
      obtain rfl : x = z := Option.some.inj (hx.symm.trans hz)
      simpa using hlimit hmax
    · rw [if_neg hi]
      exact h.limit hmax i z hz
  · obtain ⟨z, hz, hk⟩ := h.pc t key i ht
    obtain ⟨y, hy, hyz⟩ := hkeys i z hz
    exact ⟨y, hy, hyz.trans hk⟩

theorem countConn {e thd : Nat} {x : Entry κ} (hx : st.entries[e]? = some x) (hkey : x.key = key)
    (hfull : st.full max e = false) :
    Inv max ({ st with entries := st.entries.modify e fun x => { x with count := x.count + 1 } }.addConn
      ⟨key, some e, .flight thd, false⟩) := by
  subst hkey
  have hadd (key' : κ) : (st.addConn ⟨x.key, some e, .flight thd, false⟩).created key' = _ := created_addConn _ key'
  refine h.modify hx (fun y => { y with count := y.count + 1 }) (fun _ => rfl) (fun c hc => ?_) ?_ (fun key' hk => ?_)
    fun hmax => ?_
  · obtain hc | hc := mem_append.mp hc
    · exact h.entry c hc
    · obtain rfl := mem_singleton.mp hc
      exact ⟨e, x, rfl, hx, rfl⟩
  · have := hadd x.key
    rw [if_pos rfl, ← h.count e x hx] at this
    exact this.symm
  · have := hadd key'
    rw [if_neg hk.symm, Nat.add_zero] at this
    exact this
  · have : x.count < max := by simpa [full, hx, hmax] using hfull
    exact this

theorem freeConn {j : Nat} {c : Conn κ} (hc : st.conns[j]? = some c) : Inv max (st.freeConn j c) := by
  obtain ⟨e, x, he, hx, hkey⟩ := h.entry c (mem_of_getElem? hc)
  have herase := fun key => created_eraseIdx hc key
  have hcount := h.count e x hx
  have hself := herase x.key
  rw [if_pos hkey.symm] at hself
  rw [State.freeConn, he]
  refine h.modify hx (fun y => { y with count := if 0 < y.count then y.count - 1 else y.count }) (fun _ => rfl)
    (fun d hd => h.entry d (mem_of_mem_eraseIdx hd)) ?_ (fun key hk => ?_) fun hmax => ?_
  · have hpos : 0 < x.count := by omega
    simp only [if_pos hpos]
    omega
  · have := herase key
    rw [if_neg (fun h' => hk (h'.symm.trans hkey.symm)), Nat.add_zero] at this
    exact this.symm
  · have := h.limit hmax e x hx
    dsimp only
    split_ifs <;> omega

theorem created_eq_zero (hnew : ∀ x ∈ st.entries, x.key ≠ key) : st.created key = 0 := by
  refine count_eq_zero.mpr fun hmem => ?_
  obtain ⟨c, hc, rfl⟩ := mem_map.mp hmem
  obtain ⟨e, x, -, hx, hk⟩ := h.entry c hc
  exact hnew x (mem_of_getElem? hx) hk

theorem insertConn {thd : Nat} (hnew : ∀ x ∈ st.entries, x.key ≠ key) :
    Inv max ({ st with entries := st.entries ++ [(⟨key, 1⟩ : Entry κ)] }.addConn
      ⟨key, some st.entries.length, .flight thd, false⟩) := by
  have hnone := h.created_eq_zero hnew
  have hadd (key' : κ) : (st.addConn ⟨key, some st.entries.length, .flight thd, false⟩).created key' = _ :=
    created_addConn _ key'
  have hget : ∀ (i : Nat) (y : Entry κ), (st.entries ++ [(⟨key, 1⟩ : Entry κ)])[i]? = some y →
      st.entries[i]? = some y ∨ (i = st.entries.length ∧ y = ⟨key, 1⟩) := by
    intro i y hy
    rw [List.getElem?_append, List.getElem?_singleton] at hy
    split_ifs at hy with hi hzero
    · exact .inl hy
    · exact .inr ⟨by omega, (Option.some.inj hy).symm⟩
  have hold : ∀ (i : Nat) (y : Entry κ), st.entries[i]? = some y → (st.entries ++ [(⟨key, 1⟩ : Entry κ)])[i]? = some y :=
    fun i y hy => by rw [List.getElem?_append_left (List.getElem?_eq_some_iff.mp hy).1]; exact hy
  refine ⟨fun i j y y' hy hy' hk => ?_, fun c hc => ?_, fun i y hy => ?_, fun hmax i y hy => ?_, fun t key' i ht => ?_⟩
  · obtain hy | ⟨rfl, rfl⟩ := hget i y hy <;> obtain hy' | ⟨rfl, rfl⟩ := hget j y' hy'
    · exact h.unique i j y y' hy hy' hk
    · exact absurd hk (hnew y (mem_of_getElem? hy))
    · exact absurd hk.symm (hnew y' (mem_of_getElem? hy'))
    · rfl
  · obtain hc | hc := mem_append.mp hc
    · obtain ⟨e, x, he, hx, hk⟩ := h.entry c hc
      exact ⟨e, x, he, hold e x hx, hk⟩
    · obtain rfl := mem_singleton.mp hc
      exact ⟨st.entries.length, ⟨key, 1⟩, rfl, by simp [addConn], rfl⟩
  · refine Eq.trans ?_ (hadd y.key).symm
    obtain hy | ⟨-, rfl⟩ := hget i y hy
    · rw [if_neg (hnew y (mem_of_getElem? hy)).symm, Nat.add_zero]
      exact h.count i y hy
    · rw [if_pos rfl, hnone]
  · obtain hy | ⟨-, rfl⟩ := hget i y hy
    · exact h.limit hmax i y hy
    · exact hmax
  · obtain ⟨x, hx, hk⟩ := h.pc t key' i ht
    exact ⟨x, hold i x hx, hk⟩

/-- A thread takes a connection from the pool. -/
theorem fetch {c : Conn κ} (hc : st.connAt j .pooled = some c) :
    Inv max ((st.setConn j { c with place := .flight thd }).setPc thd .made) := by
  refine setPc_ne_found ?_ thd nofun
  exact h.setConn (connAt_eq_some hc).1 rfl rfl

theorem step_getPooled (hstep : st.step base max (.getPooled thd j key) = some st') : Inv max st' := by
  unfold State.step at hstep
  dsimp only at hstep
  split at hstep
  · rename_i hc
    obtain ⟨-, hstep⟩ := ite_none_right_eq_some.mp hstep
    cases hstep
    exact h.fetch hc
  · cases hstep

theorem step_wake (hstep : st.step base max (.wake thd j) = some st') : Inv max st' := by
  unfold State.step at hstep
  dsimp only at hstep
  split at hstep
  · rename_i hc
    obtain ⟨-, hstep⟩ := ite_none_right_eq_some.mp hstep
    cases hstep
    exact h.fetch hc
  · cases hstep

theorem step_miss (hstep : st.step base max (.miss thd key) = some st') : Inv max st' := by
  unfold State.step at hstep
  dsimp only at hstep
  split at hstep
  · obtain ⟨-, hstep⟩ := ite_none_right_eq_some.mp hstep
    cases hstep
    exact h.setPc_ne_found thd nofun
  · cases hstep

theorem step_lookup {entry : Option Nat} (hstep : st.step base max (.lookup thd entry) = some st') : Inv max st' := by
  unfold State.step at hstep
  dsimp only at hstep
  split at hstep
  · obtain ⟨-, hstep⟩ := ite_none_right_eq_some.mp hstep
    cases hstep
    exact h.setPc_ne_found thd fun key e hpe => by split_ifs at hpe
  · cases hstep

theorem step_search {entry : Option Nat} {alloc : Bool} (hok : Sound base st (.search thd entry alloc))
    (hstep : st.step base max (.search thd entry alloc) = some st') : Inv max st' := by
  unfold State.step at hstep
  dsimp only at hstep
  split at hstep
  · rename_i key hpc
    obtain ⟨hfinds, hstep⟩ := ite_none_right_eq_some.mp hstep
    cases entry with
    | some e =>
      cases hstep
      refine h.setPc thd fun key' e' hpe => ?_
      obtain ⟨rfl, rfl⟩ : key = key' ∧ e = e' := by simpa using hpe
      exact finds_some hfinds
    | none =>
      obtain rfl : alloc = true := hok
      cases hstep
      exact h.setPc_ne_found thd nofun
  · cases hstep

theorem step_count (hstep : st.step base max (.count thd) = some st') : Inv max st' := by
  unfold State.step at hstep
  dsimp only at hstep
  split at hstep
  · rename_i key e hpc
    cases hstep
    obtain ⟨x, hx, hkey⟩ := h.pc thd key e hpc
    by_cases hfull : st.full max e = true
    · rw [if_pos hfull]
      exact h.setPc_ne_found thd nofun
    · rw [if_neg hfull]
      exact (h.countConn hx hkey (by simpa using hfull)).setPc_ne_found thd nofun
  · cases hstep

theorem step_insert {ok : Bool} (hok : Sound base st (.insert thd ok))
    (hstep : st.step base max (.insert thd ok) = some st') : Inv max st' := by
  obtain ⟨rfl, hnew⟩ := hok
  unfold State.step at hstep
  dsimp only at hstep
  split at hstep
  · rename_i key hpc
    cases hstep
    rw [hpc] at hnew
    exact (h.insertConn hnew).setPc_ne_found thd nofun
  · cases hstep

theorem step_addMeta {ok : Bool} (hok : Sound base st (.addMeta thd j ok))
    (hstep : st.step base max (.addMeta thd j ok) = some st') : Inv max st' := by
  obtain rfl : ok = true := hok
  unfold State.step at hstep
  dsimp only at hstep
  split at hstep
  · cases hstep
    exact h.setPc_ne_found thd nofun
  · cases hstep

theorem step_hold {ok : Bool} (hstep : st.step base max (.hold thd j ok) = some st') : Inv max st' := by
  unfold State.step at hstep
  dsimp only at hstep
  split at hstep
  · rename_i c hpc hc
    cases hstep
    refine setPc_ne_found ?_ thd nofun
    cases ok with
    | true => exact h.setConn (connAt_eq_some hc).1 rfl rfl
    | false => exact h.freeConn (connAt_eq_some hc).1
  · cases hstep

theorem step_put {ok : Bool} (hok : Sound base st (.put thd j ok))
    (hstep : st.step base max (.put thd j ok) = some st') : Inv max st' := by
  obtain ⟨c, hc, rfl⟩ := map_eq_some_iff.mp hstep
  cases ok with
  | true => exact h.setConn (connAt_eq_some hc).1 (hok rfl c hc) rfl
  | false => exact h.freeConn (connAt_eq_some hc).1

theorem step {op : Op κ} (hok : Sound base st op) (hstep : st.step base max op = some st') : Inv max st' := by
  cases op with
  | getPooled thd j key => exact h.step_getPooled hstep
  | wake thd j => exact h.step_wake hstep
  | miss thd key => exact h.step_miss hstep
  | lookup thd entry => exact h.step_lookup hstep
  | timeout thd | allocFail thd =>
    unfold State.step at hstep
    dsimp only at hstep
    split at hstep
    · cases hstep
      exact h.setPc_ne_found thd nofun
    · cases hstep
  | search thd entry alloc => exact h.step_search hok hstep
  | count thd => exact h.step_count hstep
  | insert thd ok => exact h.step_insert hok hstep
  | addMeta thd j ok => exact h.step_addMeta hok hstep
  | hold thd j ok => exact h.step_hold hstep
  | connect thd j ok =>
    obtain ⟨c, hc, rfl⟩ := map_eq_some_iff.mp hstep
    exact h.setConn (connAt_eq_some hc).1 rfl rfl
  | put thd j ok => exact h.step_put hok hstep
  | free | recycle =>
    obtain ⟨c, hc, rfl⟩ := map_eq_some_iff.mp hstep
    exact h.freeConn (connAt_eq_some hc).1

theorem counted : st.Counted max := by
  refine fun key => ⟨fun x hx hkey => ?_, h.created_eq_zero, fun hmax => ?_⟩
  · obtain ⟨e, he⟩ := mem_iff_getElem?.mp hx
    rw [← hkey]
    exact h.count e x he
  · by_cases hkey : ∃ x ∈ st.entries, x.key = key
    · obtain ⟨x, hx, rfl⟩ := hkey
      obtain ⟨e, he⟩ := mem_iff_getElem?.mp hx
      rw [← h.count e x he]
      exact h.limit hmax e x he
    · rw [h.created_eq_zero fun x hx hk => hkey ⟨x, hx, hk⟩]
      exact Nat.zero_le _

end Inv

/-! ## Runs -/

/-- Along every interleaving in which nothing fails to be allocated or inserted, no key gets a second entry and no connection
changes its key, every count is right and at most the limit. -/
theorem counted_of_sound (base : κ → κ) (max : Nat) (ops : List (Op κ)) (st : State κ)
    (hsound : Along (step base max) (Sound base) (init : State κ) ops) (hrun : runOps (step base max) init ops = some st) :
    st.Counted max :=
  (Along.invariant (Inv max) (fun _ _ _ h hok hstep => h.step hok hstep) Inv.init hsound hrun).counted

def firstConn (thd conn : Nat) : List (Op Unit) :=
  [.miss thd (), .lookup thd none, .search thd none true, .insert thd true, .addMeta thd conn true, .hold thd conn true]

def waitRun : List (Op Unit) :=
  firstConn 0 0 ++ [.miss 1 (), .lookup 1 (some 0), .put 0 0 true, .wake 1 0, .hold 1 0 true]

theorem counted_wait : ∃ st, runOps (step id 1) init waitRun = some st ∧ st.conns.length = 1 ∧ st.Counted 1 :=
  ⟨_, rfl, rfl, counted_of_sound id 1 waitRun _ (by decide) rfl⟩

/-- Two threads search a new key before either inserts it: two entries with count 1, and two connections where one is
allowed. -/
theorem not_counted : ∃ st, runOps (step id 1) init
    [.miss 0 (), .miss 1 (), .lookup 0 none, .lookup 1 none, .search 0 none true, .search 1 none true, .insert 0 true,
      .insert 1 true, .addMeta 0 0 true, .addMeta 1 1 true, .hold 0 0 true, .hold 1 1 true] = some st ∧ ¬ st.Counted 1 := by
  refine ⟨_, rfl, fun h => ?_⟩
  exact absurd ((h ()).2.2 (by decide)) (by decide)

end TSpider.Pool.Count

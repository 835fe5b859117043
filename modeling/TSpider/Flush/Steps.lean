import TSpider.Flush.Tables

/-!
# What a step does

`Effect` lists the effects of the steps with their guards; `effect_cases` : there are no others. Invariants of runs are proved
from it.
-/

namespace TSpider.Flush

variable {n : Nat} {st st' : State n} {i : Fin n} {s : Stmt} {t : Nat}

theorem Request.table_of_next {r : Request} (h : r.next = some (.share t)) : r.table = t := by
  unfold next at h
  split at h <;> simp_all

theorem Request.next_ne_lock (r r' : Request) : r.next ≠ some (.lock r') := by
  unfold next
  split <;> simp

inductive Effect (st : State n) : Op n → State n → Prop
  | start (i : Fin n) (handle : Option Nat) (hs : (st.session i).stmt = none) :
    Effect st (.start i handle) (st.start i handle)
  | found (i : Fin n) (s : Stmt) (r : Request) (x : Ticket) (hs : (st.session i).stmt = some s)
    (hp : (st.session i).pending = none)
      (hx : (findTicket r.table r.type (st.session i).tickets ((st.session i).asked s r)).1 = some x) :
      Effect st (.ask i r)
        (st.put i { (st.session i).setKey s r.table ((st.session i).settledVersion s r) with pending := r.next })
  | queued (i : Fin n) (s : Stmt) (r : Request) (hs : (st.session i).stmt = some s) (hp : (st.session i).pending = none) :
      Effect st (.ask i r)
        (st.put i { (st.session i).setKey s r.table ((st.session i).settledVersion s r) with pending := some (.lock r) })
  | grant (i : Fin n) (s : Stmt) (r : Request) (hs : (st.session i).stmt = some s)
      (hp : (st.session i).pending = some (.lock r)) (hc : ¬st.conflict i ((st.session i).key s r.table) r.type) :
      Effect st (.grant i) (st.put i { st.session i with
        tickets := ⟨(st.session i).key s r.table, r.type, r.byName, s.started⟩ :: (st.session i).tickets, pending := r.next })
  | upgrade (i : Fin n) (t : Nat) (y : Ticket) (hy : (st.session i).tickets.find? (·.upgradable t) = some y)
      (hc : ¬st.conflict i y.key .exclusive) :
      Effect st (.upgrade i t) (st.put i { st.session i with
        tickets := (st.session i).tickets.map fun z => if z = y then { z with type := .exclusive } else z })
  | load (i : Fin n) (s : Stmt) (t : Nat) (hs : (st.session i).stmt = some s)
    (hp : (st.session i).pending = some (.share t)) :
      Effect st (.load i)
        (st.putElement ((st.session i).key s t) (some ⟨st.clock, false, false, [(i, s.started)]⟩))
  | publish (i : Fin n) (s : Stmt) (t : Nat) (e : Element n) (he : st.element ((st.session i).key s t) = some e) :
      Effect st (.publish i) (st.putElement ((st.session i).key s t) (some ⟨e.loadedAt, true, false, []⟩))
  | use (i : Fin n) (s : Stmt) (t : Nat) (ignoreFlush : Bool) (e : Element n) (hs : (st.session i).stmt = some s)
      (hp : (st.session i).pending = some (.share t)) (he : st.element ((st.session i).key s t) = some e) :
      Effect st (.use i ignoreFlush)
        ((st.putElement ((st.session i).key s t) (some { e with users := (i, s.started) :: e.users })).put i
          { st.session i with
            opened := ⟨t, (st.session i).key s t, e.loadedAt⟩ :: (st.session i).opened, pending := none })
  | finish (i : Fin n) (endTransaction : Bool) : Effect st (.finish i endTransaction) (st.finish i endTransaction)
  | flushBegin : Effect st .flushBegin
      { st with tableShareVersion := st.tableShareVersion + 1, flushes := st.flushes ++ [⟨st.clock, none⟩] }
  | mark (k : Key) (e : Element n) (he : st.element k = some e) :
      Effect st (.mark k) (st.putElement k (if e.users = [] then none else some { e with flushed := true }))
  | flushEnd (f began : Nat) (hf : st.flushes[f]? = some ⟨began, none⟩) :
      Effect st (.flushEnd f) { st with flushes := st.flushes.set f ⟨began, some st.clock⟩ }
  | evict (k : Key) : Effect st (.evict k) (st.putElement k none)

theorem ask_cases {r : Request} (hs : (st.session i).stmt = some s) (hp : (st.session i).pending = none) :
    Effect st (.ask i r) (st.ask i s r) := by
  unfold State.ask
  simp only
  split
  · rename_i x hx
    exact .found i s r x hs hp hx
  · exact .queued i s r hs hp

theorem grant_cases {r : Request} (hs : (st.session i).stmt = some s)
    (hp : (st.session i).pending = some (.lock r)) (h : st.grant i s r = some st') : Effect st (.grant i) st' := by
  unfold State.grant at h
  simp only at h
  split at h
  · cases h
  · rename_i hc
    cases h
    exact .grant i s r hs hp hc

theorem upgrade_cases (h : st.upgrade i t = some st') : Effect st (.upgrade i t) st' := by
  unfold State.upgrade at h
  simp only at h
  split at h
  · cases h
  · rename_i y hy
    split at h
    · cases h
    · rename_i hc
      cases h
      exact .upgrade i t y hy hc

theorem use_cases {ignoreFlush : Bool} (hs : (st.session i).stmt = some s)
    (hp : (st.session i).pending = some (.share t)) (h : st.use i s t ignoreFlush = some st') :
    Effect st (.use i ignoreFlush) st' := by
  unfold State.use at h
  simp only at h
  split at h
  · cases h
  · rename_i e he
    split at h
    · cases h
      exact .use i s t ignoreFlush e hs hp he
    · cases h

theorem load_cases (hs : (st.session i).stmt = some s)
    (hp : (st.session i).pending = some (.share t)) (h : st.load i s t = some st') : Effect st (.load i) st' := by
  unfold State.load at h
  simp only at h
  split at h
  · cases h
    exact .load i s t hs hp
  · cases h

theorem publish_cases (h : st.publish i s t = some st') : Effect st (.publish i) st' := by
  unfold State.publish at h
  simp only at h
  split at h
  · rename_i e he
    split at h
    · cases h
      exact .publish i s t e he
    · cases h
  · cases h

/-- What a step can do, without the clock. -/
theorem effect_cases {op : Op n} (h : effect st op = some st') : Effect st op st' := by
  cases op with
  | start i handle =>
    simp only [effect] at h
    split at h
    · rename_i hs
      cases h
      exact .start i handle hs
    · cases h
  | ask i r =>
    simp only [effect] at h
    split at h
    · rename_i s hs hp
      cases h
      exact ask_cases hs hp
    · cases h
  | grant i =>
    simp only [effect] at h
    split at h
    · rename_i s r hs hp
      exact grant_cases hs hp h
    · cases h
  | upgrade i t =>
    simp only [effect] at h
    split at h
    · cases h
    · exact upgrade_cases h
  | load i =>
    simp only [effect] at h
    split at h
    · rename_i s t hs hp
      exact load_cases hs hp h
    · cases h
  | publish i =>
    simp only [effect] at h
    split at h
    · exact publish_cases h
    · cases h
  | use i ignoreFlush =>
    simp only [effect] at h
    split at h
    · rename_i s t hs hp
      exact use_cases hs hp h
    · cases h
  | finish i endTransaction =>
    simp only [effect] at h
    split at h
    · cases h
    · cases h
      exact .finish i endTransaction
  | flushBegin =>
    cases h
    exact .flushBegin
  | mark k =>
    simp only [effect] at h
    split at h
    · rename_i e he
      cases h
      exact .mark k e he
    · cases h
  | flushEnd f =>
    simp only [effect] at h
    split at h
    · rename_i began hf
      cases h
      exact .flushEnd f began hf
    · cases h
  | evict k =>
    simp only [effect] at h
    split at h
    · split at h
      · cases h
        exact .evict k
      · cases h
    · cases h

theorem step_cases {op : Op n} (h : step st op = some st') : ∃ st₁, Effect st op st₁ ∧
    st' = { st₁ with clock := st.clock + 1 } := by
  obtain ⟨st₁, h₁, rfl⟩ := Option.map_eq_some_iff.1 h
  exact ⟨st₁, effect_cases h₁, rfl⟩

/-! ## Sessions and entries after a step -/

@[simp] theorem State.put_session_self (st : State n) (i : Fin n) (x : Session) : (st.put i x).session i = x :=
  Function.update_self ..

theorem State.put_session_of_ne (st : State n) {i j : Fin n} (x : Session) (h : j ≠ i) :
    (st.put i x).session j = st.session j :=
  Function.update_of_ne h ..

theorem State.forall_put {P : Fin n → Session → Prop} {x : Session} (h : ∀ j, P j (st.session j)) (hx : P i x) (j : Fin n) :
    P j ((st.put i x).session j) := by
  rcases eq_or_ne j i with rfl | hj
  · rw [put_session_self]
    exact hx
  · rw [put_session_of_ne st x hj]
    exact h j

end TSpider.Flush

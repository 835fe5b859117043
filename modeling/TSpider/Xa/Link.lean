import TSpider.Xa.Settles

/-!
# One connection of a session and its shard

`Link` is the record of a connection with the branch, whether a transaction is open, and the remote `autocommit`.

* `Rests` : outside of a transaction, nothing is queued and nothing is open;
* `XaMember` : in an internal XA transaction a branch is open exactly after `XA START` was sent, and nothing else is;
* `PlainMember` : in a plain transaction, what is open will be sent `COMMIT` or `ROLLBACK`.
-/

namespace TSpider.Xa
open Lib State

@[ext] structure Link where
  conn : Conn
  branch : Branch
  trxOpen : Bool
  autocommit : Bool

open Link

def State.link (st : State) (c : ConnId) : Link :=
  ⟨st.conn c, st.world.branch c, st.world.trxOpen c, st.world.autocommit c⟩

/-! ## A statement on the connection -/

namespace Link
variable (v : Vars) (transmit : Bool) (q : Query) (x : Link)

def opened : Option Link :=
  if x.conn.queuedConnect then
    if q.connects then
      some ⟨{ x.conn with
          serverLost := false, queuedConnect := false, autocommit := v.remoteAutocommit
          trxIsolation := v.remoteTrxIsolation }, x.branch, false, true⟩
    else none
  else some x

def setAutocommit : Option Bool → Link
  | none => x
  | some b => { x with autocommit := b, trxOpen := x.trxOpen && !b }

def flushed : Link :=
  let y := x.setAutocommit (x.conn.sendsAutocommit v)
  ⟨x.conn.flushed v q, if x.conn.queuedXaStart then .active else x.branch,
    y.trxOpen || (x.conn.queuedTrxStart && transmit), y.autocommit⟩

def statement : Link := { x with trxOpen := x.trxOpen || (!x.autocommit && x.branch != .active) }

def dropped : Link := ⟨{ x.conn with serverLost := true }, x.branch.detach, false, x.autocommit⟩

/-- The packet of the queue, and the statement if that succeeds. -/
def sent : Link :=
  match q.queue with
  | .ack =>
    match q.reply with
    | .lost _ => (x.flushed v transmit q).dropped
    | _ => (x.flushed v transmit q).statement
  | .refused set => if set then x.setAutocommit (x.conn.sendsAutocommit v) else x
  | .lost => x.dropped

def query : Link :=
  match x.opened v q with
  | none => { x with conn := { x.conn with serverLost := true } }
  | some y =>
    if y.conn.serverLost then y
    else sent v transmit q { y with conn := { y.conn with ignoreDupKey := q.ignoreDupKey } }

end Link

section Query
variable (v : Vars) (transmit : Bool) (q : Query) (c : ConnId) (st : State) {d : ConnId}

@[simp] theorem setConn_link_self (k : Conn) : (st.setConn c k).link c = { st.link c with conn := k } := by
  simp [link, setConn]

theorem setConn_link_ne (k : Conn) (hd : d ≠ c) : (st.setConn c k).link d = st.link d := by
  simp [link, setConn, hd]

theorem SameConn.link {u : State} (h : SameConn st u d) : u.link d = st.link d := by
  simp only [State.link, h.conn, h.branch, h.trxOpen, h.autocommit]

@[simp] theorem fail_link (told : Bool) : (st.fail told).link = st.link := by
  unfold fail
  split_ifs <;> rfl

theorem dropConn_link : (st.dropConn c).link c = (st.link c).dropped := by
  simp [link, dropConn, setConn, World.disconnect, dropped]

theorem statement_link : ({ st with world := st.world.statement c } : State).link c = (st.link c).statement := by
  simp [link, World.statement, statement]

theorem setAutocommit_link (b : Option Bool) :
    ({ st with world := st.world.setAutocommit c b } : State).link c = (st.link c).setAutocommit b := by
  cases b <;> simp [link, World.setAutocommit, setAutocommit]

theorem openConn_link : (openConn v q c st).map (link · c) = (st.link c).opened v q := by
  unfold openConn opened link
  split_ifs <;> simp [setConn, World.connect]

theorem queueAction_link : (queueAction v transmit q c st).2.link c = match q.queue with
    | .ack => (st.link c).flushed v transmit q
    | .refused set => if set then (st.link c).setAutocommit ((st.conn c).sendsAutocommit v) else st.link c
    | .lost => (st.link c).dropped := by
  unfold queueAction
  cases hq : q.queue with
  | ack =>
    cases hs : (st.conn c).sendsAutocommit v <;> cases hx : (st.conn c).queuedXaStart <;>
      simp [link, flushed, setAutocommit, setConn, World.start, World.setAutocommit, hs, hx]
  | refused set =>
    cases set
    · rfl
    · exact setAutocommit_link c st _
  | lost => exact dropConn_link c st

theorem queueAction_fst : (queueAction v transmit q c st).1 = true ↔ q.queue = .ack := by
  unfold queueAction
  cases q.queue <;> simp

theorem remoteQuery_link : (remoteQuery v transmit q c st).link c = (st.link c).query v transmit q := by
  have hopen := openConn_link v q c st
  unfold remoteQuery query
  cases ho : openConn v q c st with
  | none =>
    rw [ho, Option.map_none] at hopen
    rw [← hopen]
    simp only [fail_link, setConn_link_self]
    rfl
  | some u =>
    rw [ho, Option.map_some] at hopen
    rw [← hopen]
    dsimp only
    by_cases hl : (u.conn c).serverLost = true
    · rw [if_pos hl, if_pos (show (u.link c).conn.serverLost = true from hl), fail_link]
    · rw [if_neg hl, if_neg (show ¬ (u.link c).conn.serverLost = true from hl)]
      generalize hw : u.setConn c { u.conn c with ignoreDupKey := q.ignoreDupKey } = w
      have hlink : w.link c = { u.link c with conn := { u.conn c with ignoreDupKey := q.ignoreDupKey } } := by
        rw [← hw, setConn_link_self]
      have hqueue := queueAction_link v transmit q c w
      have hfst := queueAction_fst v transmit q c w
      rw [show (u.link c).conn = u.conn c from rfl, ← hlink]
      unfold Link.sent
      cases hq : q.queue with
      | ack =>
        rw [hq] at hqueue
        rw [if_pos (hfst.mpr hq)]
        cases q.reply with
        | ack => rw [statement_link, hqueue]
        | refused e =>
          rw [fail_link, statement_link, hqueue]
        | lost effect =>
          rw [fail_link, dropConn_link, hqueue]
      | refused set =>
        rw [hq] at hqueue
        rw [if_neg (fun h => by simp [hfst.mp h] at hq), fail_link, hqueue]
        rfl
      | lost =>
        rw [hq] at hqueue
        rw [if_neg (fun h => by simp [hfst.mp h] at hq), fail_link, hqueue]

theorem openConn_link_ne {u : State} (h : openConn v q c st = some u) (hd : d ≠ c) : u.link d = st.link d := by
  unfold openConn at h
  split_ifs at h
  · cases h
    simp [link, setConn, World.connect, hd]
  · rw [Option.some.inj h]

theorem dropConn_link_ne (hd : d ≠ c) : (st.dropConn c).link d = st.link d := by
  simp [link, dropConn, setConn, World.disconnect, hd]

theorem statement_link_ne (hd : d ≠ c) : ({ st with world := st.world.statement c } : State).link d = st.link d := by
  simp [link, World.statement, hd]

theorem queueAction_link_ne (hd : d ≠ c) : (queueAction v transmit q c st).2.link d = st.link d := by
  unfold queueAction
  cases q.queue with
  | ack =>
    cases hs : (st.conn c).sendsAutocommit v <;>
      simp [link, setConn, World.start, World.setAutocommit, hd, hs]
  | refused set =>
    cases set
    · rfl
    · cases hs : (st.conn c).sendsAutocommit v <;> simp [link, World.setAutocommit, hd, hs]
  | lost => exact dropConn_link_ne c st hd

theorem remoteQuery_link_ne (hd : d ≠ c) : (remoteQuery v transmit q c st).link d = st.link d := by
  unfold remoteQuery
  cases ho : openConn v q c st with
  | none =>
    rw [fail_link, setConn_link_ne c st _ hd]
  | some u =>
    dsimp only
    rw [← openConn_link_ne v q c st ho hd]
    have hqueue := queueAction_link_ne v transmit q c (u.setConn c { u.conn c with ignoreDupKey := q.ignoreDupKey }) hd
    rw [setConn_link_ne c u _ hd] at hqueue
    split_ifs
    · rw [fail_link]
    · cases q.reply with
      | ack =>
        rw [statement_link_ne c _ hd, hqueue]
      | refused e =>
        rw [fail_link, statement_link_ne c _ hd, hqueue]
      | lost effect =>
        rw [fail_link, dropConn_link_ne c _ hd, hqueue]
    · rw [fail_link, hqueue]

end Query

/-! ## `autocommit` -/

/-- The record knows when the remote `autocommit` is off, and it is not without `spider_sync_autocommit`. -/
structure Link.Coherent (v : Vars) (x : Link) : Prop where
  off : x.autocommit = false → x.conn.autocommit = 0
  unsynced : v.syncAutocommit = false → x.autocommit = true ∧ x.conn.queuedAutocommit = none

/-- `SET autocommit` is not executed in a packet that is then refused, if it turns `autocommit` off. -/
def Query.knowsOff (q : Query) (k : Conn) : Prop := ¬ (q.queue = .refused true ∧ k.queuedAutocommit = some false)

instance (q : Query) (k : Conn) : Decidable (q.knowsOff k) := by unfold Query.knowsOff; infer_instance

section Coherent
variable {v : Vars} {transmit : Bool} {q : Query} {x : Link}

theorem sendsAutocommit_queued {k : Conn} {b : Bool} (h : k.sendsAutocommit v = some b) :
    k.queuedAutocommit.isSome = true ∧ (b = false → k.queuedAutocommit = some false ∧ v.ignoreAutocommit = false) := by
  unfold Conn.sendsAutocommit at h
  split at h
  · cases h
  · split_ifs at h <;> simp_all

theorem Link.Coherent.flushed (h : x.Coherent v) : (x.flushed v transmit q).Coherent v ∧
    ((x.flushed v transmit q).autocommit = false → x.conn.queuedAutocommit = some false ∨
      x.conn.queuedAutocommit = none ∧ x.autocommit = false) := by
  obtain ⟨hoff, hunsynced⟩ := h
  -- by what is queued, and whether `SET autocommit` is sent for it
  cases hqueue : x.conn.queuedAutocommit with
  | none =>
    have hsends : x.conn.sendsAutocommit v = none := by simp [Conn.sendsAutocommit, hqueue]
    simp only [Link.flushed, Link.setAutocommit, hsends, Conn.flushed, hqueue]
    exact ⟨⟨hoff, fun h => ⟨(hunsynced h).1, rfl⟩⟩, fun h => .inr ⟨trivial, h⟩⟩
  | some b =>
    have hsync : v.syncAutocommit = false → False := fun h => by simp [(hunsynced h).2] at hqueue
    cases b with
    | true =>
      have hon : (x.setAutocommit (x.conn.sendsAutocommit v)).autocommit = true := by
        unfold Conn.sendsAutocommit
        rw [hqueue]
        cases ha : x.autocommit with
        | true => dsimp only; split_ifs <;> simp [Link.setAutocommit, ha]
        | false => simp [Link.setAutocommit, hoff ha]
      have hflushed : (x.flushed v transmit q).autocommit = true := hon
      exact ⟨⟨fun h => by simp [hflushed] at h, fun h => (hsync h).elim⟩, fun h => by simp [hflushed] at h⟩
    | false =>
      refine ⟨⟨fun h => ?_, fun h => (hsync h).elim⟩, fun _ => .inl rfl⟩
      have hconn : (x.flushed v transmit q).conn.autocommit = if v.ignoreAutocommit then 1 else 0 := by
        simp [Link.flushed, Conn.flushed, hqueue]
      rw [hconn]
      cases hi : v.ignoreAutocommit with
      | false => rfl
      | true =>
        -- with `spider_ignore_autocommit` it is never turned off
        have hon : (x.flushed v transmit q).autocommit = true := by
          simp only [Link.flushed, Conn.sendsAutocommit, hqueue, hi]
          cases ha : x.autocommit with
          | true => simp only [↓reduceIte]; split_ifs <;> simp [Link.setAutocommit, ha]
          | false => simp [Link.setAutocommit, hoff ha]
        simp [hon] at h

theorem Link.Coherent.opened (h : x.Coherent v) {y : Link} (hy : x.opened v q = some y) : y.Coherent v := by
  unfold Link.opened at hy
  split_ifs at hy
  · cases hy
    exact ⟨fun h => by simp at h, fun hs => ⟨rfl, (h.unsynced hs).2⟩⟩
  · exact Option.some.inj hy ▸ h

theorem Link.Coherent.refused (h : x.Coherent v) (hsends : x.conn.sendsAutocommit v ≠ some false) :
    (x.setAutocommit (x.conn.sendsAutocommit v)).Coherent v := by
  cases hs : x.conn.sendsAutocommit v with
  | none => exact h
  | some b =>
    cases b with
    | false => exact absurd hs hsends
    | true =>
      have hq := (sendsAutocommit_queued hs).1
      exact ⟨fun h => by simp [setAutocommit] at h, fun hsync => by simp [(h.unsynced hsync).2] at hq⟩

theorem Query.knowsOff.sends {k : Conn} (h : q.knowsOff k) (hq : q.queue = .refused true) :
    k.sendsAutocommit v ≠ some false :=
  fun hs => h ⟨hq, ((sendsAutocommit_queued hs).2 rfl).1⟩

end Coherent

/-! ## In and outside of a transaction -/

structure Link.Rests (v : Vars) (x : Link) : Prop extends x.Coherent v where
  branch : x.branch.Closed
  trxOpen : x.trxOpen = false
  noXa : x.conn.queuedXaStart = false
  noTrx : x.conn.queuedTrxStart = false
  noAutocommit : x.conn.queuedAutocommit = none

structure Link.XaMember (v : Vars) (x : Link) : Prop extends x.Coherent v where
  trxOpen : x.trxOpen = false
  noTrx : x.conn.queuedTrxStart = false
  unopened : x.conn.queuedConnect = true → x.conn.queuedXaStart = true
  waiting : x.conn.queuedXaStart = true → x.branch.Closed
  running : x.conn.queuedXaStart = false → x.branch = .active ∨ x.conn.serverLost = true ∧ x.branch.Closed

/-- A plain transaction of a session with this `autocommit`, which sends `COMMIT` to its shards if `transmit`. -/
structure Link.PlainMember (v : Vars) (notAutocommit transmit : Bool) (x : Link) : Prop extends x.Coherent v where
  branch : x.branch.Closed
  noXa : x.conn.queuedXaStart = false
  begins : x.conn.queuedTrxStart = true → x.conn.trxStart = true
  queued : x.conn.queuedAutocommit = some (!notAutocommit) ∧ x.trxOpen = false ∨
    x.conn.queuedAutocommit = none ∧ (x.autocommit = false → notAutocommit = true)
  ends : x.trxOpen = true → (x.conn.autocommit ≠ 1 ∨ x.conn.trxStart = true) ∧ x.conn.queuedConnect = false ∧
    x.conn.queuedTrxStart = false ∧ transmit = true

structure Conn.SameQueue (k k' : Conn) : Prop where
  queuedConnect : k'.queuedConnect = k.queuedConnect
  queuedXaStart : k'.queuedXaStart = k.queuedXaStart
  queuedTrxStart : k'.queuedTrxStart = k.queuedTrxStart
  queuedAutocommit : k'.queuedAutocommit = k.queuedAutocommit
  autocommit : k'.autocommit = k.autocommit
  trxStart : k'.trxStart = k.trxStart
  serverLost : k'.serverLost = k.serverLost

section Members
variable {v : Vars} {transmit notAutocommit : Bool} {q : Query} {x : Link} {k : Conn}

theorem Link.Coherent.sameQueue (h : x.Coherent v) (hk : x.conn.SameQueue k) :
    Coherent v { x with conn := k } where
  off ha := hk.autocommit.trans (h.off ha)
  unsynced hs := ⟨(h.unsynced hs).1, hk.queuedAutocommit.trans (h.unsynced hs).2⟩

theorem Link.Rests.sameQueue (h : x.Rests v) (hk : x.conn.SameQueue k) : Rests v { x with conn := k } where
  toCoherent := h.toCoherent.sameQueue hk
  branch := h.branch
  trxOpen := h.trxOpen
  noXa := hk.queuedXaStart.trans h.noXa
  noTrx := hk.queuedTrxStart.trans h.noTrx
  noAutocommit := hk.queuedAutocommit.trans h.noAutocommit

theorem Link.XaMember.sameQueue (h : x.XaMember v) (hk : x.conn.SameQueue k) :
    XaMember v { x with conn := k } where
  toCoherent := h.toCoherent.sameQueue hk
  trxOpen := h.trxOpen
  noTrx := hk.queuedTrxStart.trans h.noTrx
  unopened := by rw [hk.queuedConnect, hk.queuedXaStart]; exact h.unopened
  waiting := by rw [hk.queuedXaStart]; exact h.waiting
  running := by rw [hk.queuedXaStart, hk.serverLost]; exact h.running

theorem Link.PlainMember.sameQueue (h : x.PlainMember v notAutocommit transmit) (hk : x.conn.SameQueue k) :
    PlainMember v notAutocommit transmit { x with conn := k } where
  toCoherent := h.toCoherent.sameQueue hk
  branch := h.branch
  noXa := hk.queuedXaStart.trans h.noXa
  begins := by rw [hk.queuedTrxStart, hk.trxStart]; exact h.begins
  queued := by rw [hk.queuedAutocommit]; exact h.queued
  ends := by rw [hk.autocommit, hk.trxStart, hk.queuedConnect, hk.queuedTrxStart]; exact h.ends

/-- What a statement keeps: opening, losing, and the packet on an open connection have to keep it. -/
theorem Link.query_rule {P : Link → Prop} (hx : P x) (hq : q.knowsOff x.conn)
    (hlose : x.conn.queuedConnect = true → P { x with conn := { x.conn with serverLost := true } })
    (hopen : ∀ y, x.opened v q = some y → x.conn.queuedConnect = true → P y)
    (hdup : ∀ y : Link, P y → P { y with conn := { y.conn with ignoreDupKey := q.ignoreDupKey } })
    (hsent : ∀ y : Link, P y → y.conn.queuedConnect = false → y.conn.serverLost = false → q.knowsOff y.conn →
      P (y.sent v transmit q)) :
    P (x.query v transmit q) := by
  unfold query
  split
  · next ho =>
    refine hlose ?_
    by_contra hc
    simp [opened, hc] at ho
  · next y ho =>
    have hy : P y ∧ y.conn.queuedConnect = false ∧ y.conn.queuedAutocommit = x.conn.queuedAutocommit := by
      cases hc : x.conn.queuedConnect with
      | true =>
        refine ⟨hopen y ho hc, ?_⟩
        simp only [opened, hc, if_true, Option.ite_none_right_eq_some, Option.some.injEq] at ho
        rw [← ho.2]
        exact ⟨rfl, rfl⟩
      | false =>
        simp only [opened, hc, Bool.false_eq_true, if_false, Option.some.injEq] at ho
        exact ⟨ho ▸ hx, ho ▸ hc, by rw [ho]⟩
    split_ifs with hl
    · exact hy.1
    · refine hsent _ (hdup y hy.1) hy.2.1 (by simpa using hl) ?_
      unfold Query.knowsOff at hq ⊢
      rwa [hy.2.2]

theorem detach_closed {b : Branch} (h : b ≠ .prepared) : b.detach.Closed := by
  cases b <;> first | exact absurd rfl h | exact ⟨by decide, by decide⟩

theorem Link.Coherent.dropped (h : x.Coherent v) : x.dropped.Coherent v := ⟨h.off, h.unsynced⟩

theorem Link.XaMember.dropped (h : x.XaMember v) : x.dropped.XaMember v := by
  have hclosed : x.branch.detach.Closed := by
    refine detach_closed fun hb => ?_
    cases hx : x.conn.queuedXaStart with
    | true => exact (h.waiting hx).2 hb
    | false =>
      rcases h.running hx with ha | ⟨-, hc⟩
      · simp [ha] at hb
      · exact hc.2 hb
  exact ⟨h.toCoherent.dropped, rfl, h.noTrx, h.unopened, fun _ => hclosed, fun _ => .inr ⟨rfl, hclosed⟩⟩

theorem Link.XaMember.flushed (h : x.XaMember v) (hc : x.conn.queuedConnect = false) (hl : x.conn.serverLost = false) :
    (x.flushed v transmit q).XaMember v ∧ (x.flushed v transmit q).branch = .active := by
  have hactive : (x.flushed v transmit q).branch = .active := by
    cases hx : x.conn.queuedXaStart with
    | true => simp [Link.flushed, hx]
    | false =>
      have hb := (h.running hx).resolve_right fun hlost => by simp [hl] at hlost
      simp [Link.flushed, hx, hb]
  have hopen : (x.flushed v transmit q).trxOpen = false := by
    cases hs : x.conn.sendsAutocommit v <;> simp [Link.flushed, Link.setAutocommit, hs, h.trxOpen, h.noTrx]
  refine ⟨⟨h.toCoherent.flushed.1, hopen, rfl, fun h' => ?_, (fun h' => by cases h'), fun _ => .inl hactive⟩, hactive⟩
  rw [show (x.flushed v transmit q).conn.queuedConnect = x.conn.queuedConnect from rfl, hc] at h'
  cases h'

theorem Link.statement_active (h : x.branch = .active) : x.statement = x := by
  ext <;> simp [statement, h]

theorem Link.XaMember.refused (h : x.XaMember v) (hs : x.conn.sendsAutocommit v ≠ some false) :
    (x.setAutocommit (x.conn.sendsAutocommit v)).XaMember v := by
  have hcoherent := h.toCoherent.refused hs
  cases hs' : x.conn.sendsAutocommit v with
  | none => exact h
  | some b =>
    rw [hs'] at hcoherent
    exact ⟨hcoherent, by simp [setAutocommit, h.trxOpen], h.noTrx, h.unopened, h.waiting, h.running⟩

theorem Link.XaMember.query (h : x.XaMember v) (hq : q.knowsOff x.conn) : (x.query v transmit q).XaMember v := by
  refine query_rule h hq (fun hc => ?_) (fun y hy hc => ?_)
    (fun y hy => hy.sameQueue ⟨rfl, rfl, rfl, rfl, rfl, rfl, rfl⟩) fun y hy hc hl hk => ?_
  · have hx := h.unopened hc
    exact { h with running := fun h' => by simp [hx] at h', off := h.off, unsynced := h.unsynced }
  · have hcoherent := h.toCoherent.opened hy
    have hx := h.unopened hc
    simp only [opened, hc, if_true, Option.ite_none_right_eq_some, Option.some.injEq] at hy
    obtain ⟨-, rfl⟩ := hy
    exact ⟨hcoherent, rfl, h.noTrx, (fun h' => by cases h'), h.waiting, fun h' => by simp [hx] at h'⟩
  · unfold Link.sent
    cases hqueue : q.queue with
    | ack =>
      obtain ⟨hmember, hactive⟩ := hy.flushed hc hl
      dsimp only
      split
      · exact hmember.dropped
      · -- in a branch a statement opens no transaction
        rw [statement_active hactive]
        exact hmember
    | refused set =>
      cases set with
      | false => exact hy
      | true => exact hy.refused (hk.sends hqueue)
    | lost => exact hy.dropped

variable (h : x.PlainMember v notAutocommit transmit)
include h

theorem Link.PlainMember.dropped :
    x.dropped.PlainMember v notAutocommit transmit where
  toCoherent := h.toCoherent.dropped
  branch := detach_closed h.branch.2
  noXa := h.noXa
  begins := h.begins
  queued := h.queued.imp (fun hq => ⟨hq.1, rfl⟩) id
  ends := fun h' => by cases h'

theorem Link.PlainMember.flushed (hc : x.conn.queuedConnect = false) :
    (x.flushed v transmit q).PlainMember v notAutocommit transmit ∧
      (x.flushed v transmit q).conn.queuedConnect = false ∧ (x.flushed v transmit q).conn.queuedTrxStart = false := by
  obtain ⟨hcoherent, hoff⟩ := h.toCoherent.flushed
  refine ⟨⟨hcoherent, ?_, rfl, (fun h' => by cases h'), .inr ⟨rfl, fun ha => ?_⟩, fun ho => ?_⟩, hc, rfl⟩
  · simpa [Link.flushed, h.noXa] using h.branch
  · rcases hoff ha with hq | ⟨hq, ha'⟩
    · rcases h.queued with ⟨hq', -⟩ | ⟨hq', -⟩
      · simpa using hq'.symm.trans hq
      · simp [hq'] at hq
    · rcases h.queued with ⟨hq', -⟩ | ⟨-, hno⟩
      · simp [hq'] at hq
      · exact hno ha'
  · -- a transaction that is open was so before, or `START TRANSACTION` was sent
    have hcases : x.trxOpen = true ∧ x.conn.queuedAutocommit = none ∨ x.conn.queuedTrxStart = true ∧ transmit = true := by
      rcases h.queued with ⟨-, hclosed⟩ | ⟨hnone, -⟩
      · cases hs : x.conn.sendsAutocommit v <;> simpa [Link.flushed, Link.setAutocommit, hs, hclosed] using ho
      · have hs : x.conn.sendsAutocommit v = none := by simp [Conn.sendsAutocommit, hnone]
        have ho' : x.trxOpen = true ∨ x.conn.queuedTrxStart = true ∧ transmit = true := by
          simpa [Link.flushed, Link.setAutocommit, hs] using ho
        exact ho'.imp (fun h => ⟨h, hnone⟩) id
    rcases hcases with ⟨hopen, hnone⟩ | ⟨hstart, htransmit⟩
    · obtain ⟨hsent, -, -, htransmit⟩ := h.ends hopen
      refine ⟨?_, hc, rfl, htransmit⟩
      simpa [Link.flushed, Conn.flushed, hnone] using hsent
    · exact ⟨.inr (h.begins hstart), hc, rfl, htransmit⟩

theorem Link.PlainMember.statement (hc : x.conn.queuedConnect = false)
    (ht : x.conn.queuedTrxStart = false) (hnone : x.conn.queuedAutocommit = none)
    (htransmit : notAutocommit = true → transmit = true) : x.statement.PlainMember v notAutocommit transmit := by
  have hno : x.autocommit = false → notAutocommit = true := by
    rcases h.queued with ⟨hq, -⟩ | ⟨-, hno⟩
    · simp [hnone] at hq
    · exact hno
  refine ⟨⟨h.off, h.unsynced⟩, h.branch, h.noXa, h.begins, .inr ⟨hnone, hno⟩, fun ho => ?_⟩
  simp only [Link.statement, Bool.or_eq_true, Bool.and_eq_true, Bool.not_eq_true'] at ho
  rcases ho with ho | ⟨ha, -⟩
  · exact h.ends ho
  · exact ⟨.inl (by simp [Link.statement, h.off ha]), hc, ht, htransmit (hno ha)⟩

theorem Link.PlainMember.refused (hs : x.conn.sendsAutocommit v ≠ some false) :
    (x.setAutocommit (x.conn.sendsAutocommit v)).PlainMember v notAutocommit transmit := by
  have hcoherent := h.toCoherent.refused hs
  cases hs' : x.conn.sendsAutocommit v with
  | none => exact h
  | some b =>
    have hq := (sendsAutocommit_queued hs').1
    obtain ⟨hq', hclosed⟩ := h.queued.resolve_right fun hno => by simp [hno.1] at hq
    rw [hs'] at hcoherent
    exact ⟨hcoherent, h.branch, h.noXa, h.begins, .inl ⟨hq', by simp [setAutocommit, hclosed]⟩, fun ho => by
      simp [setAutocommit, hclosed] at ho⟩

theorem Link.PlainMember.query (hq : q.knowsOff x.conn)
    (htransmit : notAutocommit = true → transmit = true) : (x.query v transmit q).PlainMember v notAutocommit transmit := by
  refine query_rule h hq (fun hc => ?_) (fun y hy hc => ?_)
    (fun y hy => hy.sameQueue ⟨rfl, rfl, rfl, rfl, rfl, rfl, rfl⟩) fun y hy hc hl hk => ?_
  · exact ⟨⟨h.off, h.unsynced⟩, h.branch, h.noXa, h.begins, h.queued, h.ends⟩
  · have hcoherent := h.toCoherent.opened hy
    simp only [opened, hc, if_true, Option.ite_none_right_eq_some, Option.some.injEq] at hy
    obtain ⟨-, rfl⟩ := hy
    exact ⟨hcoherent, h.branch, h.noXa, h.begins, h.queued.imp (fun hq => ⟨hq.1, rfl⟩)
      (fun hq => ⟨hq.1, fun h' => by cases h'⟩),
      fun h' => by cases h'⟩
  · unfold Link.sent
    cases hqueue : q.queue with
    | ack =>
      obtain ⟨hmember, hc', ht'⟩ := hy.flushed hc
      dsimp only
      split
      · exact hmember.dropped
      · exact hmember.statement hc' ht' rfl htransmit
    | refused set =>
      cases set with
      | false => exact hy
      | true => exact hy.refused (hk.sends hqueue)
    | lost => exact hy.dropped

end Members

end TSpider.Xa

import TSpider.Remote.Session

/-!
# The settings in force are those that were asked for

`agrees_of_orderly` : along every run that meets `Orderly`, a data statement finds the settings at the node that were asked
for last. The condition leaves out a text of which only a part is executed, a new session for settings that are not asked for
again, and a level for one transaction that is asked for, or given up, at the wrong time.
-/

namespace TSpider.Remote
open Lib Conn

variable {τ : Type}

namespace Conn

def Up (c : Conn τ) : Prop := c.queuedConnect = false ∧ c.serverLost = false

def Agrees (c : Conn τ) : Prop :=
  (∀ v, c.wantedIsolation = some v → c.isolation = v) ∧ (∀ v, c.autocommit.wanted = some v → c.autocommit.remote = v) ∧
    (∀ v, c.sqlLogOff.wanted = some v → c.sqlLogOff.remote = v) ∧ ∀ v, c.timeZone.wanted = some v → c.timeZone.remote = v

structure IsoOk (c : Conn τ) : Prop where
  queuedSemi : ∀ w, c.queuedSemiTrxIsolation = some w → c.wantedSemi = some w
  queuedTrx : c.queuedSemiTrxIsolation = none → ∀ v, c.queuedTrxIsolation = some v → c.wantedTrx = some v ∧
    c.wantedSemi = none
  /-- Nothing is queued while a level for the transaction is in force. -/
  inForce : c.semiTrxIsolation ≠ none → c.queuedSemiTrxIsolation = none ∧ c.queuedTrxIsolation = none
  cached : c.Up → c.semiTrxIsolation = none → ∀ v, c.trxIsolation = some v → c.isolation = v
  semi : c.Up → ∀ w, c.semiTrxIsolation = some w → c.isolation = w
  wanted : c.Up → c.queuedSemiTrxIsolation = none → c.queuedTrxIsolation = none → ∀ v, c.wantedIsolation =
    some v → c.isolation = v
  /-- The level that will be restored at the end of the transaction. -/
  restored : c.Up → c.queuedSemiTrxIsolation = none → c.queuedTrxIsolation = none → ∀ v, c.wantedTrx = some v →
    if c.semiTrxIsolation = none then c.isolation = v else c.trxIsolation = some v

structure Inv (c : Conn τ) : Prop where
  iso : c.IsoOk
  autocommit : c.autocommit.Ok c.Up
  sqlLogOff : c.sqlLogOff.Ok c.Up
  timeZone : c.timeZone.Ok c.Up
  sent : c.sent = true → c.Agrees

def AllQueued (c : Conn τ) : Prop :=
  (c.autocommit.queued = none → c.autocommit.wanted = none) ∧ (c.sqlLogOff.queued = none → c.sqlLogOff.wanted = none) ∧
    (c.timeZone.queued = none → c.timeZone.wanted = none) ∧
    (c.queuedSemiTrxIsolation = none → c.queuedTrxIsolation = none → c.wantedSemi = none ∧ c.wantedTrx = none)

end Conn

def Config.Knows (cfg : Config τ) (n : Node τ) : Prop :=
  (∀ v ∈ cfg.autocommit, n.autocommit = v) ∧ (∀ v ∈ cfg.sqlLogOff, n.sqlLogOff = v) ∧ (∀ v ∈ cfg.timeZone, n.timeZone = v) ∧
    ∀ v ∈ cfg.trxIsolation, n.isolation = v

/-- A new session is opened for settings that are all queued, is as configured, and no level for a transaction is in force. -/
def Conn.ConnectOk (cfg : Config τ) (c : Conn τ) (e : Exec τ) : Prop :=
  c.queuedConnect = true → ∀ n ∈ e.session, cfg.Knows n ∧ c.AllQueued ∧ c.semiTrxIsolation = none

/-- A text of which a part fails has changed nothing, or the connection is lost; autocommit is not ignored; and the level
restored is that for all transactions. -/
def Conn.FlushOk [DecidableEq τ] (cfg : Config τ) (c : Conn τ) (e : Exec τ) : Prop :=
  (e.done < (c.due cfg.ignoreAutocommit e.starts).length → e.done = 0 ∨ e.lost = true) ∧
    (cfg.ignoreAutocommit = true → c.autocommit.queued = none) ∧
    ∀ w ∈ c.queuedSemiTrxIsolation, ∀ v ∈ c.wantedTrx, v = if c.trxIsolation = some w then w else e.txIsolation

def Orderly [DecidableEq τ] (cfg : Config τ) (c : Conn τ) : Op τ → Prop
  | .queueTrxIsolation _ => c.queuedSemiTrxIsolation = none ∧ c.semiTrxIsolation = none
  | .queueSemiTrxIsolation _ => c.semiTrxIsolation = none
  | .noSemi => c.semiTrxIsolation = none
  | .statement e => c.ConnectOk cfg e ∧ (c.reconnect cfg e).1.FlushOk cfg e
  | .endTrx e ok lost =>
    c.queuedSemiTrxIsolation = none ∧ (c.semiTrxIsolation ≠ none → c.queuedConnect = false ∧ c.FlushOk cfg e ∧
      ((c.due cfg.ignoreAutocommit e.starts).length ≤ e.done ∨ e.lost = true) ∧ (ok = true ∨ lost = true))
  | _ => True

namespace Conn
variable {cfg : Config τ} {c : Conn τ} {e : Exec τ}

theorem dueAutocommit_eq {ignore : Bool} (h : ignore = true → c.autocommit.queued = none) : c.dueAutocommit ignore =
    c.autocommit.due := by
  cases ignore with
  | false => rfl
  | true => simp [dueAutocommit, Cell.due, h rfl]

theorem IsoOk.of_idle (hqueued : c.queuedTrxIsolation = none ∧ c.queuedSemiTrxIsolation = none)
    (hcached : c.Up → c.semiTrxIsolation = none → ∀ v, c.trxIsolation = some v → c.isolation = v)
    (hsemi : c.Up → ∀ w, c.semiTrxIsolation = some w → c.isolation = w)
    (hwanted : c.Up → ∀ v, c.wantedIsolation = some v → c.isolation = v)
    (hrestored : c.Up → ∀ v, c.wantedTrx = some v → if c.semiTrxIsolation = none then c.isolation =
      v else c.trxIsolation = some v) :
    c.IsoOk where
  queuedSemi w hw := by simp [hqueued.2] at hw
  queuedTrx _ v hv := by simp [hqueued.1] at hv
  inForce _ := ⟨hqueued.2, hqueued.1⟩
  cached := hcached
  semi := hsemi
  wanted hup _ _ := hwanted hup
  restored hup _ _ := hrestored hup

theorem IsoOk.cells (h : c.IsoOk) (autocommit sqlLogOff : Cell Bool) (timeZone : Cell τ) (sent : Bool) :
    IsoOk { c with autocommit, sqlLogOff, timeZone, sent } :=
  ⟨h.1, h.2, h.3, h.4, h.5, h.6, h.7⟩

def queues (c : Conn τ) : (Option Iso × Option Iso × Option Iso × Option Iso × Option Iso) × (Option Bool × Option Bool) ×
    (Option Bool × Option Bool) × Option τ × Option τ :=
  ((c.semiTrxIsolation, c.queuedSemiTrxIsolation, c.queuedTrxIsolation, c.wantedSemi, c.wantedTrx),
    (c.autocommit.queued, c.autocommit.wanted), (c.sqlLogOff.queued, c.sqlLogOff.wanted), c.timeZone.queued,
      c.timeZone.wanted)

theorem IsoOk.of_down (hd : ¬ c.Up) (hsemi : ∀ w, c.queuedSemiTrxIsolation = some w → c.wantedSemi = some w)
    (htrx : c.queuedSemiTrxIsolation = none → ∀ v, c.queuedTrxIsolation = some v → c.wantedTrx = some v ∧ c.wantedSemi = none)
    (hforce : c.semiTrxIsolation ≠ none → c.queuedSemiTrxIsolation = none ∧ c.queuedTrxIsolation = none) : c.IsoOk :=
  ⟨hsemi, htrx, hforce, fun hu => absurd hu hd, fun hu => absurd hu hd, fun hu => absurd hu hd, fun hu => absurd hu hd⟩

theorem Inv.down (h : c.Inv) {d : Conn τ} (hd : ¬ d.Up) (hsent : d.sent = false) (hsame : d.queues = c.queues) : d.Inv := by
  simp only [queues, Prod.mk.injEq] at hsame
  obtain ⟨⟨hsemi, hqueuedSemi, hqueuedTrx, hwantedSemi, hwantedTrx⟩, ⟨ha, ha'⟩, ⟨hl, hl'⟩, hz, hz'⟩ := hsame
  refine ⟨.of_down hd ?_ ?_ ?_, .of_not hd ?_, .of_not hd ?_, .of_not hd ?_, by simp [hsent]⟩
  · rw [hqueuedSemi, hwantedSemi]; exact h.iso.queuedSemi
  · rw [hqueuedSemi, hqueuedTrx, hwantedSemi, hwantedTrx]; exact h.iso.queuedTrx
  · rw [hqueuedSemi, hqueuedTrx, hsemi]; exact h.iso.inForce
  · rw [ha, ha']; exact h.autocommit.queued
  · rw [hl, hl']; exact h.sqlLogOff.queued
  · rw [hz, hz']; exact h.timeZone.queued

theorem foldl_queues (l : List (Setting τ)) (c : Conn τ) : (l.foldl apply c).queues = c.queues := by
  induction l generalizing c with
  | nil => rfl
  | cons s l ih => exact (ih _).trans (by cases s <;> rfl)

theorem foldl_sent (l : List (Setting τ)) (c : Conn τ) : (l.foldl apply c).sent = c.sent := by
  induction l generalizing c with
  | nil => rfl
  | cons s l ih => cases s <;> exact ih _

theorem Inv.setSent (h : c.Inv) : Inv { c with sent := false } :=
  ⟨h.iso.cells _ _ _ _, h.autocommit, h.sqlLogOff, h.timeZone, by simp⟩

theorem Inv.connect (h : c.Inv) (hsent : c.sent = false) {n : Node τ} (hn : cfg.Knows n) (hall : c.AllQueued)
    (hsemi : c.semiTrxIsolation = none) : (c.connect cfg n).Inv := by
  obtain ⟨hauto, hlog, hzone, hiso⟩ := hn
  obtain ⟨hautoQ, hlogQ, hzoneQ, hisoQ⟩ := hall
  refine ⟨⟨h.iso.queuedSemi, h.iso.queuedTrx, h.iso.inForce, fun _ _ => hiso, fun _ w hw => ?_, fun _ hs ht v hv => ?_,
    fun _ hs ht v hv => ?_⟩, h.autocommit.connect hauto hautoQ, h.sqlLogOff.connect hlog hlogQ,
      h.timeZone.connect hzone hzoneQ, ?_⟩
  · simp [Conn.connect, hsemi] at hw
  · obtain ⟨hnoSemi, hnoTrx⟩ := hisoQ hs ht
    simp [wantedIsolation, Conn.connect, hnoSemi, hnoTrx] at hv
  · simp [Conn.connect, (hisoQ hs ht).2] at hv
  · simp [Conn.connect, hsent]

theorem IsoOk.endTrx (h : c.IsoOk) (hqueued : c.queuedSemiTrxIsolation = none) {i : Iso}
    (hi : c.Up → (c.semiTrxIsolation = none → i = c.isolation) ∧
      (c.semiTrxIsolation ≠ none → ∀ v, c.trxIsolation = some v → i = v)) :
    IsoOk { c with isolation := i, semiTrxIsolation := none, wantedSemi := none } := by
  have hback : c.Up → c.queuedTrxIsolation = none → ∀ v, c.wantedTrx = some v → i = v := by
    intro hup htrx v hv
    have hrestored := h.restored hup hqueued htrx v hv
    by_cases hsemi : c.semiTrxIsolation = none
    · rw [if_pos hsemi] at hrestored
      exact ((hi hup).1 hsemi).trans hrestored
    · rw [if_neg hsemi] at hrestored
      exact (hi hup).2 hsemi v hrestored
  refine ⟨fun w hw => ?_, fun hs v hv => ⟨(h.queuedTrx hs v hv).1, rfl⟩, fun hne => absurd rfl hne, fun hup _ v hv => ?_,
    fun _ w hw => ?_, fun hup _ htrx v hv => ?_, fun hup _ htrx v hv => ?_⟩
  · exact absurd hw (by simp [hqueued])
  · by_cases hsemi : c.semiTrxIsolation = none
    · exact ((hi hup).1 hsemi).trans (h.cached hup hsemi v hv)
    · exact (hi hup).2 hsemi v hv
  · exact absurd hw (by simp)
  · exact hback hup htrx v (by simpa [wantedIsolation] using hv)
  · rw [if_pos rfl]
    exact hback hup htrx v hv

theorem Inv.giveUp (h : c.Inv) (hsent : c.sent = false) (hqueued : c.queuedSemiTrxIsolation = none) {i : Iso}
    (hi : c.Up → (c.semiTrxIsolation = none → i = c.isolation) ∧
      (c.semiTrxIsolation ≠ none → ∀ v, c.trxIsolation = some v → i = v)) :
    Inv { c with isolation := i, semiTrxIsolation := none, wantedSemi := none } :=
  ⟨h.iso.endTrx hqueued hi, h.autocommit, h.sqlLogOff, h.timeZone, by simp [hsent]⟩

theorem Inv.lose (h : c.Inv) : Inv { c with serverLost := true, sent := false } :=
  h.down (fun hu => by simp [Up] at hu) rfl rfl

theorem Inv.clearQueue (h : c.Inv) (hsent : c.sent = false) : c.clearQueue.Inv := by
  refine ⟨.of_idle ⟨rfl, rfl⟩ h.iso.cached h.iso.semi (fun _ v hv => ?_) (fun _ v hv => ?_), h.autocommit.clear,
    h.sqlLogOff.clear,
    h.timeZone.clear, fun hs => ?_⟩
  · simp [wantedIsolation, Conn.clearQueue] at hv
  · simp [Conn.clearQueue] at hv
  · simp [Conn.clearQueue, hsent] at hs

theorem Inv.create (n : Node τ) : (Conn.create n).Inv := by
  have hdown : ¬ (Conn.create n).Up := by simp [Up, Conn.create]
  refine ⟨.of_down hdown ?_ ?_ ?_, .of_not hdown ?_, .of_not hdown ?_, .of_not hdown ?_, ?_⟩ <;> simp [Conn.create]

variable [DecidableEq τ]

/-! ## The text in front of a statement -/

theorem foldl_due (c : Conn τ) (ignore : Bool) (starts : Nat) :
    (c.due ignore starts).foldl apply c =
      { c with
        isolation := c.dueIsolation.getD c.isolation
        autocommit := { c.autocommit with remote := (c.dueAutocommit ignore).getD c.autocommit.remote }
        sqlLogOff := { c.sqlLogOff with remote := c.sqlLogOff.due.getD c.sqlLogOff.remote }
        timeZone := { c.timeZone with remote := c.timeZone.due.getD c.timeZone.remote } } := by
  have hstart : ∀ (k : Nat) (d : Conn τ), (List.replicate k Setting.start).foldl apply d = d := by
    intro k d
    induction k with
    | zero => rfl
    | succ k ih => simpa [List.replicate_succ, apply] using ih
  unfold due
  simp only [List.foldl_append, hstart]
  cases c.dueIsolation <;> cases c.dueAutocommit ignore <;> cases c.sqlLogOff.due <;> cases c.timeZone.due <;> rfl

def flushed (c : Conn τ) (ignore : Bool) (starts : Nat) (session : Iso) : Conn τ :=
    ((c.due ignore starts).foldl apply c).settle ignore session

section Flushed
variable (ignore : Bool) (starts : Nat) (session : Iso)

theorem flushed_up (c : Conn τ) : (c.flushed ignore starts session).Up ↔ c.Up := by
  rw [flushed, foldl_due]
  rfl

theorem flushed_isolation (c : Conn τ) : (c.flushed ignore starts session).isolation = c.dueIsolation.getD c.isolation := by
  rw [flushed, foldl_due]
  rfl

theorem flushed_wanted (c : Conn τ) : (c.flushed ignore starts session).wantedTrx = c.wantedTrx ∧
    (c.flushed ignore starts session).wantedSemi = c.wantedSemi := by
  rw [flushed, foldl_due]
  exact ⟨rfl, rfl⟩

theorem flushed_queued (c : Conn τ) : (c.flushed ignore starts session).queuedTrxIsolation = none ∧
    (c.flushed ignore starts session).queuedSemiTrxIsolation = none :=
  ⟨rfl, rfl⟩

theorem flushed_semi {w : Iso} (hw : c.queuedSemiTrxIsolation = some w) : if c.trxIsolation = some w then
      c.dueIsolation = none ∧ (c.flushed ignore starts session).trxIsolation = some w ∧
        (c.flushed ignore starts session).semiTrxIsolation = c.semiTrxIsolation
    else c.dueIsolation = some w ∧ (c.flushed ignore starts session).trxIsolation = some session ∧
      (c.flushed ignore starts session).semiTrxIsolation = some w := by
  rw [flushed, foldl_due]
  by_cases h : c.trxIsolation = some w
  · simp [settle, dueIsolation, hw, h, Option.filter_some]
  · simp [settle, dueIsolation, hw, h, Option.filter_some, Ne.symm h]

theorem flushed_trx (hnone : c.queuedSemiTrxIsolation = none) :
    (c.flushed ignore starts session).trxIsolation = c.queuedTrxIsolation.or c.trxIsolation ∧
      (c.flushed ignore starts session).semiTrxIsolation = c.semiTrxIsolation := by
  rw [flushed, foldl_due]
  simp [settle, hnone]

theorem IsoOk.flushed (h : c.IsoOk) (hup : c.Up)
    (hrestore : ∀ w, c.queuedSemiTrxIsolation = some w → ∀ v, c.wantedTrx = some v → v = if c.trxIsolation =
      some w then w else session) :
    (c.flushed ignore starts session).IsoOk := by
  have hiso := flushed_isolation ignore starts session c
  obtain ⟨hwantedTrx, hwantedSemi⟩ := flushed_wanted ignore starts session c
  have hwanted : (c.flushed ignore starts session).wantedIsolation = c.wantedIsolation := by
    rw [wantedIsolation, hwantedTrx, hwantedSemi, wantedIsolation]
  cases hsemi : c.queuedSemiTrxIsolation with
  | some w =>
    have hnone : c.semiTrxIsolation = none := by
      by_contra hne
      simp [(h.inForce hne).1] at hsemi
    have hw : c.wantedIsolation = some w := by simp [wantedIsolation, h.queuedSemi w hsemi]
    have hfields := flushed_semi ignore starts session hsemi
    have hrestore := hrestore w hsemi
    by_cases htrx : c.trxIsolation = some w
    · rw [if_pos htrx] at hfields
      obtain ⟨hdue, htrx', hsemi'⟩ := hfields
      rw [hdue, Option.getD_none, h.cached hup hnone w htrx] at hiso
      refine .of_idle (flushed_queued ignore starts session c) (fun _ _ v hv => ?_) (fun _ v hv => ?_) (fun _ v hv => ?_)
        fun _ v hv => ?_
      · rw [htrx'] at hv
        rw [hiso, Option.some.inj hv]
      · simp [hsemi', hnone] at hv
      · rw [hwanted, hw] at hv
        rw [hiso, Option.some.inj hv]
      · rw [hsemi', if_pos hnone, hiso]
        rw [hwantedTrx] at hv
        simpa [htrx] using (hrestore v hv).symm
    · rw [if_neg htrx] at hfields
      obtain ⟨hdue, htrx', hsemi'⟩ := hfields
      rw [hdue, Option.getD_some] at hiso
      refine .of_idle (flushed_queued ignore starts session c) (fun _ hn v hv => ?_) (fun _ v hv => ?_) (fun _ v hv => ?_)
        fun _ v hv => ?_
      · simp [hsemi'] at hn
      · rw [hsemi'] at hv
        rw [hiso, Option.some.inj hv]
      · rw [hwanted, hw] at hv
        rw [hiso, Option.some.inj hv]
      · rw [hwantedTrx] at hv
        rw [if_neg (by simp [hsemi']), htrx', hrestore v hv, if_neg htrx]
  | none =>
    obtain ⟨htrx', hsemi'⟩ := flushed_trx ignore starts session hsemi
    cases htrx : c.queuedTrxIsolation with
    | some v =>
      obtain ⟨hv, hvSemi⟩ := h.queuedTrx hsemi v htrx
      have hnone : c.semiTrxIsolation = none := by
        by_contra hne
        simp [(h.inForce hne).2] at htrx
      have hw : c.wantedIsolation = some v := by simp [wantedIsolation, hvSemi, hv]
      have hiso' : (c.flushed ignore starts session).isolation = v := by
        rw [hiso]
        by_cases hcached : c.trxIsolation = some v
        · simp [dueIsolation, hsemi, htrx, hcached, Option.filter_some, h.cached hup hnone v hcached]
        · simp [dueIsolation, hsemi, htrx, hcached, Option.filter_some]
      refine .of_idle (flushed_queued ignore starts session c) (fun _ _ u hu => ?_) (fun _ u hu => ?_) (fun _ u hu => ?_)
        fun _ u hu => ?_
      · rw [htrx', htrx, Option.some_or] at hu
        rw [hiso', Option.some.inj hu]
      · simp [hsemi', hnone] at hu
      · rw [hwanted, hw] at hu
        rw [hiso', Option.some.inj hu]
      · rw [hwantedTrx, hv] at hu
        rw [if_pos (hsemi'.trans hnone), hiso', Option.some.inj hu]
    | none =>
      have hdue : c.dueIsolation = none := by simp [dueIsolation, hsemi, htrx]
      rw [hdue, Option.getD_none] at hiso
      rw [htrx, Option.none_or] at htrx'
      refine .of_idle (flushed_queued ignore starts session c) (fun _ hn u hu => ?_) (fun _ u hu => ?_) (fun _ u hu => ?_)
        fun _ u hu => ?_
      · rw [hiso]
        exact h.cached hup (hsemi' ▸ hn) u (htrx' ▸ hu)
      · rw [hiso]
        exact h.semi hup u (hsemi' ▸ hu)
      · rw [hiso]
        exact h.wanted hup hsemi htrx u (hwanted ▸ hu)
      · rw [hsemi', hiso, htrx']
        exact h.restored hup hsemi htrx u (hwantedTrx ▸ hu)

theorem flushed_cells (hignore : ignore = true → c.autocommit.queued = none) :
    (c.flushed ignore starts session).autocommit =
      Cell.settle { c.autocommit with remote := c.autocommit.due.getD c.autocommit.remote } ∧
      (c.flushed ignore starts session).sqlLogOff =
        Cell.settle { c.sqlLogOff with remote := c.sqlLogOff.due.getD c.sqlLogOff.remote } ∧
      (c.flushed ignore starts session).timeZone =
        Cell.settle { c.timeZone with remote := c.timeZone.due.getD c.timeZone.remote } := by
  rw [flushed, foldl_due, dueAutocommit_eq hignore]
  cases ignore with
  | false => simp [settle, Cell.settle]
  | true => simp [settle, Cell.settle, hignore rfl]

end Flushed

theorem Inv.flushed (h : c.Inv) (hup : c.Up) (hok : c.FlushOk cfg e) (sent : Bool) :
    Inv { c.flushed cfg.ignoreAutocommit e.starts e.txIsolation with sent := sent } := by
  obtain ⟨-, hignore, hrestore⟩ := hok
  have hup' := flushed_up cfg.ignoreAutocommit e.starts e.txIsolation c
  have hiso := h.iso.flushed cfg.ignoreAutocommit e.starts e.txIsolation hup hrestore
  obtain ⟨hauto, hlog, hzone⟩ := flushed_cells cfg.ignoreAutocommit e.starts e.txIsolation hignore
  have hqueued := flushed_queued cfg.ignoreAutocommit e.starts e.txIsolation c
  have hautoOk := hauto ▸ h.autocommit.settle
  have hlogOk := hlog ▸ h.sqlLogOff.settle
  have hzoneOk := hzone ▸ h.timeZone.settle
  refine ⟨hiso.cells _ _ _ _, hautoOk.mono hup'.mp, hlogOk.mono hup'.mp, hzoneOk.mono hup'.mp,
    fun _ => ⟨hiso.wanted (hup'.mpr hup) hqueued.2 hqueued.1, hautoOk.wanted hup ?_, hlogOk.wanted hup ?_,
      hzoneOk.wanted hup ?_⟩⟩
  · rw [hauto]; rfl
  · rw [hlog]; rfl
  · rw [hzone]; rfl

/-! ## Steps -/

theorem Inv.flush (h : c.Inv) (hup : c.Up) (hsent : c.sent = false) (hok : c.FlushOk cfg e) :
    Inv { (c.flush cfg e).1 with sent := (c.flush cfg e).2 } := by
  unfold Conn.flush
  by_cases hdone : (c.due cfg.ignoreAutocommit e.starts).length ≤ e.done
  · simp only [if_pos hdone]
    exact h.flushed hup hok true
  · simp only [if_neg hdone]
    obtain hzero | hlost := hok.1 (by omega)
    · cases hlost : e.lost with
      | false =>
        have hsame : c = { c with serverLost := false, sent := false } := by
          obtain ⟨-, hl⟩ := hup
          cases c
          simp_all
        simpa [hzero, hsame.symm] using h
      | true =>
        refine h.down (fun hu => ?_) rfl ?_
        · simp [Up] at hu
        · rw [hzero]
          rfl
    · exact h.down (fun hu => by simp [Up, hlost] at hu) rfl (foldl_queues _ c)

theorem Inv.beforeQuery (h : c.Inv) (hsent : c.sent = false) (hconnect : c.ConnectOk cfg e)
    (hok : (c.reconnect cfg e).1.FlushOk cfg e) : Inv { (c.beforeQuery cfg e).1 with sent := (c.beforeQuery cfg e).2 } := by
  unfold Conn.beforeQuery
  unfold Conn.reconnect at hok ⊢
  by_cases hqueued : c.queuedConnect = true
  · rw [if_pos hqueued] at hok ⊢
    cases hn : e.session with
    | none => exact h.down (by simp [Up]) rfl rfl
    | some n =>
      obtain ⟨hknows, hall, hsemi⟩ := hconnect hqueued n hn
      simp only [hn] at hok ⊢
      exact (h.connect hsent hknows hall hsemi).flush ⟨rfl, rfl⟩ hsent hok
  · rw [if_neg hqueued] at hok ⊢
    cases hlost : c.serverLost with
    | true => exact h.down (by simp [Up, hlost]) rfl rfl
    | false => exact h.flush ⟨by simpa using hqueued, hlost⟩ hsent hok

theorem Inv.setTrxIsolation (h : c.Inv) (hsent : c.sent = false) (hup : c.Up) (hsemi : c.semiTrxIsolation ≠ none)
    (hok : c.FlushOk cfg e) (hflush : (c.due cfg.ignoreAutocommit e.starts).length ≤ e.done ∨ e.lost = true) {ok lost : Bool}
    (hset : ok = true ∨ lost = true) :
    Inv { c.setTrxIsolation cfg e ok lost with semiTrxIsolation := none, wantedSemi := none } := by
  obtain ⟨hqueuedSemi, hqueuedTrx⟩ := h.iso.inForce hsemi
  unfold Conn.setTrxIsolation
  cases htrx : c.trxIsolation with
  | none =>
    exact h.giveUp hsent hqueuedSemi fun _ => ⟨fun _ => rfl, fun _ v hv => by simp [htrx] at hv⟩
  | some v =>
    have hbefore : c.beforeQuery cfg e = c.flush cfg e := by
      simp [Conn.beforeQuery, Conn.reconnect, hup.1, hup.2]
    simp only [hbefore, Conn.flush]
    by_cases hdone : (c.due cfg.ignoreAutocommit e.starts).length ≤ e.done
    · rw [if_pos hdone]
      have hflushed := h.flushed hup hok false
      obtain ⟨htrx', hsemi'⟩ := flushed_trx cfg.ignoreAutocommit e.starts e.txIsolation hqueuedSemi
      rw [hqueuedTrx, Option.none_or, htrx] at htrx'
      have hsent' : (c.flushed cfg.ignoreAutocommit e.starts e.txIsolation).sent = false := by
        rw [Conn.flushed, foldl_due]
        exact hsent
      have hsame : c.flushed cfg.ignoreAutocommit e.starts e.txIsolation =
          { c.flushed cfg.ignoreAutocommit e.starts e.txIsolation with sent := false } := by rw [← hsent']
      rw [← hsame] at hflushed
      cases ok with
      | true =>
        refine hflushed.giveUp hsent' rfl fun _ => ⟨fun hnone => absurd (hsemi'.symm.trans hnone) hsemi, fun _ u hu => ?_⟩
        exact Option.some.inj (htrx'.symm.trans hu)
      | false =>
        obtain rfl : lost = true := by simpa using hset
        have hlost := hflushed.lose
        rw [← hsent'] at hlost
        exact hlost.giveUp hsent' rfl fun hu => by simp [Up] at hu
    · rw [if_neg hdone]
      have hlost : e.lost = true := hflush.resolve_left hdone
      have hqueues := foldl_queues ((c.due cfg.ignoreAutocommit e.starts).take e.done) c
      have hsent' : ((c.due cfg.ignoreAutocommit e.starts).take e.done |>.foldl apply c).sent = false :=
        (foldl_sent _ c).trans hsent
      have hinv : Inv { ((c.due cfg.ignoreAutocommit e.starts).take e.done).foldl apply c with serverLost := e.lost } :=
        h.down (fun hu => by simp [Up, hlost] at hu) hsent' hqueues
      exact hinv.giveUp hsent' ((congrArg (·.1.2.1) hqueues).trans hqueuedSemi) fun hu => by simp [Up, hlost] at hu

theorem Inv.endTrx (h : c.Inv) (hsent : c.sent = false) {ok lost : Bool} (hok : Orderly cfg c (.endTrx e ok lost)) :
    (c.endTrx cfg e ok lost).Inv := by
  obtain ⟨hqueued, hforce⟩ := hok
  unfold Conn.endTrx
  by_cases hset : c.semiTrxIsolation ≠ none ∧ c.trxIsolation ≠ c.semiTrxIsolation ∧ c.serverLost = false ∧
    c.queuedSemiTrxIsolation = none
  · simp only [if_pos hset]
    obtain ⟨hsemi, -, hlost, -⟩ := hset
    obtain ⟨hconnect, hok, hflush, hset⟩ := hforce hsemi
    exact h.setTrxIsolation hsent ⟨hconnect, hlost⟩ hsemi hok hflush hset
  · simp only [if_neg hset]
    refine h.giveUp hsent hqueued fun hup => ⟨fun _ => rfl, fun hsemi v hv => ?_⟩
    have hsame : c.trxIsolation = c.semiTrxIsolation := by
      by_contra hne
      exact hset ⟨hsemi, hne, hup.2, hqueued⟩
    exact h.iso.semi hup v (hsame ▸ hv)

theorem Inv.step (h : c.Inv) {op : Op τ} (hok : Orderly cfg c op) : (c.step cfg op).Inv := by
  have h' := h.setSent
  cases op with
  | queueTrxIsolation v =>
    obtain ⟨hqueued, hsemi⟩ := hok
    refine ⟨⟨fun w hw => absurd (hqueued.symm.trans hw) (by simp), fun _ u hu => ⟨hu, rfl⟩, fun hne =>
      absurd hsemi hne, h.iso.cached,
      h.iso.semi, fun _ _ hnone => by simp [Conn.step] at hnone, fun _ _ hnone => by simp [Conn.step] at hnone⟩,
        h'.autocommit, h'.sqlLogOff,
      h'.timeZone, by simp [Conn.step]⟩
  | queueSemiTrxIsolation w =>
    refine ⟨⟨fun _ hu => hu, fun hnone => by simp [Conn.step] at hnone, fun hne => absurd hok hne, h.iso.cached, h.iso.semi,
      fun _ hnone => by simp [Conn.step] at hnone, fun _ hnone => by simp [Conn.step] at hnone⟩, h'.autocommit,
        h'.sqlLogOff, h'.timeZone,
      by simp [Conn.step]⟩
  | noSemi =>
    have hsame : c.step cfg .noSemi = { c with sent := false } := by
      have hsemi : c.semiTrxIsolation = none := hok
      simp [Conn.step, ← hsemi]
    rw [hsame]
    exact h'
  | queueAutocommit v => exact ⟨h.iso.cells _ _ _ _, h'.autocommit.queue v, h'.sqlLogOff, h'.timeZone, by simp [Conn.step]⟩
  | queueSqlLogOff v => exact ⟨h.iso.cells _ _ _ _, h'.autocommit, h'.sqlLogOff.queue v, h'.timeZone, by simp [Conn.step]⟩
  | queueTimeZone v => exact ⟨h.iso.cells _ _ _ _, h'.autocommit, h'.sqlLogOff, h'.timeZone.queue v, by simp [Conn.step]⟩
  | queueConnect =>
    exact h'.down (fun hu => by simp [Up, Conn.step] at hu) rfl rfl
  | lose => exact h.lose
  | statement e =>
    refine h'.beforeQuery rfl hok.1 ?_
    have hflush := hok.2
    unfold Conn.reconnect at hflush ⊢
    by_cases hqueued : c.queuedConnect = true
    · simp only [if_pos hqueued] at hflush ⊢
      cases hn : e.session <;> (rw [hn] at hflush; exact hflush)
    · simp only [if_neg hqueued] at hflush ⊢
      exact hflush
  | endTrx e ok lost => exact h'.endTrx rfl hok
  | release => exact h'.clearQueue rfl

end Conn

variable [DecidableEq τ]

/-! ## Runs -/

/-- Along every run that meets the condition, data statements are executed with the settings asked for last. -/
theorem agrees_of_orderly (cfg : Config τ) (n : Node τ) (ops : List (Op τ)) (c : Conn τ)
    (horderly : Along (fun c op => some (c.step cfg op)) (Orderly cfg) (create n) ops)
    (hrun : runOps (fun c op => some (c.step cfg op)) (create n) ops = some c) (hsent : c.sent = true) : c.Agrees :=
  (Along.invariant Inv (fun _ _ _ h hok hstep => Option.some.inj hstep ▸ h.step hok) (Inv.create n) horderly hrun).sent hsent

def freshNode : Node Unit := ⟨.repeatableRead, true, false, ()⟩

def noConfig : Config Unit := ⟨false, none, none, none, none⟩

def semiRun : List (Op Unit) :=
  [.queueTrxIsolation .repeatableRead, .queueAutocommit true, .queueTimeZone (), .queueSemiTrxIsolation .serializable,
    .statement ⟨some freshNode, .repeatableRead, 1, 10, false⟩, .endTrx ⟨none, .repeatableRead, 0, 10, false⟩ true false,
    .queueTrxIsolation .repeatableRead, .statement ⟨none, .repeatableRead, 1, 10, false⟩]

instance (cfg : Config τ) (c : Conn τ) (e : Exec τ) : Decidable (c.ConnectOk cfg e) := by
  unfold ConnectOk Config.Knows AllQueued
  infer_instance

instance (cfg : Config τ) (c : Conn τ) (e : Exec τ) : Decidable (c.FlushOk cfg e) := by
  unfold FlushOk
  infer_instance

instance (cfg : Config τ) (c : Conn τ) (op : Op τ) : Decidable (Orderly cfg c op) := by
  unfold Orderly
  split <;> infer_instance

theorem agrees_semi : ∃ c, runOps (fun c op => some (step noConfig c op)) (create freshNode) semiRun = some c ∧
    c.wantedIsolation = some .repeatableRead ∧ c.Agrees :=
  ⟨_, rfl, rfl, agrees_of_orderly noConfig freshNode semiRun _ (by decide) rfl rfl⟩

/-- Autocommit is turned off, START TRANSACTION fails behind it; it is turned on again, and the next statement finds it
off. -/
theorem not_agrees : ∃ c, runOps (fun c op => some (step noConfig c op)) (create freshNode)
    [.queueAutocommit true, .statement ⟨some freshNode, .repeatableRead, 0, 10, false⟩, .queueAutocommit false,
      .statement ⟨none, .repeatableRead, 1, 1, false⟩, .queueAutocommit true,
        .statement ⟨none, .repeatableRead, 1, 10, false⟩] = some c ∧
    c.sent = true ∧ ¬ c.Agrees := by
  refine ⟨_, rfl, rfl, fun h => ?_⟩
  exact absurd (h.2.1 true rfl) (by decide)

end TSpider.Remote

import TSpider.Lib.Run
import Mathlib.Logic.Function.Basic

/-!
# Parallel bulk insert and the errors of its statements

With background DML the rows of a partition are collected in the handler's INSERT statement, which is handed to the background
thread of the connection when it is long enough or at the end (`spider_db_bulk_insert`, `spider_bg_conn_search`). The
hand-off does not wait for the execution. The outcome is stored in the handler's `bgs_error`, which the session reads right
after the hand-off, and once more at the end (`ha_partition::end_bulk_insert`, `get_bg_result`).

The thread clears `bgs_error` when it takes a statement, and an error that was not read by then is lost.
-/

namespace TSpider.Dml.Bulk
open Lib Function

def endOfFile : Nat := 137

def IsError (e : Nat) : Prop := e ≠ 0 ∧ e ≠ endOfFile

instance (e : Nat) : Decidable (IsError e) := by unfold IsError; infer_instance

structure Config where
  parts : Nat
  conn : Nat → Nat
  bulkSize : Nat

/-- Where the session is: writing rows, in the first or the second loop of `end_bulk_insert` with the partitions left, or at
the end of the statement. -/
inductive Phase
  | writing
  | ending (left : List Nat)
  | collecting (left : List Nat)
  | done
  deriving DecidableEq, Repr

/-- Of each handler, the length of the values in `insert_sql` and `bgs_error`; the handler that each connection's thread works
for; `m_bulk_insert_started`; the hand-off not yet read; the error returned; the errors so far. -/
structure State where
  buffer : Nat → Nat
  bgsError : Nat → Nat
  job : Nat → Option Nat
  started : Nat → Bool
  phase : Phase
  handedOff : Option Nat
  returned : Option Nat
  failed : List Nat

def State.initial : State := ⟨fun _ => 0, fun _ => 0, fun _ => none, fun _ => false, .writing, none, none, []⟩

/-- Steps of the session: a row of some length, the read after a hand-off, `end_bulk_insert`, a turn of either loop; and of a
background thread: a statement is executed. -/
inductive Op
  | write (p size : Nat)
  | check
  | endBulkInsert
  | endNext
  | collect
  | finish (c error : Nat)
  deriving DecidableEq, Repr

variable {cfg : Config} {st st' : State} {op : Op}

def State.startedParts (cfg : Config) (st : State) : List Nat := (List.range cfg.parts).filter st.started

/-- `spider_bg_conn_search` up to the signal: the idle thread takes the statement and clears the handler's error. -/
def handOff (cfg : Config) (p : Nat) (st : State) : Option State :=
  if st.job (cfg.conn p) = none then
    some { st with
      bgsError := update st.bgsError p 0
      job := update st.job (cfg.conn p) (some p)
      buffer := update st.buffer p 0
      handedOff := some p }
  else none

def State.fail (st : State) (e : Nat) : State := { st with returned := some e, phase := .done }

def step (cfg : Config) (st : State) (op : Op) : Option State :=
  match op, st.handedOff, st.phase with
  | .write p size, none, .writing =>
    if p < cfg.parts ∧ 0 < size then
      let t := { st with
        buffer := update st.buffer p (st.buffer p + size)
        started := update st.started p true }
      if cfg.bulkSize ≤ st.buffer p + size then handOff cfg p t else some t
    else none
  | .check, some p, _ =>
    some (if IsError (st.bgsError p) then { st.fail (st.bgsError p) with handedOff := none }
      else { st with handedOff := none })
  | .endBulkInsert, none, .writing => some { st with phase := .ending (st.startedParts cfg) }
  | .endNext, none, .ending (p :: ps) =>
    if 0 < st.buffer p then handOff cfg p { st with phase := .ending ps } else some { st with phase := .ending ps }
  | .endNext, none, .ending [] => some { st with phase := .collecting (st.startedParts cfg) }
  | .collect, none, .collecting (p :: ps) =>
    -- the session waits while the thread works for this handler
    if st.job (cfg.conn p) = some p then none
    else some (if IsError (st.bgsError p) then st.fail (st.bgsError p) else { st with phase := .collecting ps })
  | .collect, none, .collecting [] => some { st with phase := .done }
  | .finish c error, _, _ => (st.job c).map fun p =>
      { st with
        job := update st.job c none
        bgsError := update st.bgsError p (if error = 0 then endOfFile else error)
        failed := if IsError error then error :: st.failed else st.failed }
  | _, _, _ => none

def handsOff (cfg : Config) (st : State) (op : Op) : Option Nat :=
  match op, st.phase with
  | .write p size, _ => if cfg.bulkSize ≤ st.buffer p + size then some p else none
  | .endNext, .ending (p :: _) => if 0 < st.buffer p then some p else none
  | _, _ => none

/-- The condition: no statement is handed over to a handler whose last statement failed. -/
def Clean (cfg : Config) (st : State) (op : Op) : Prop :=
  ∀ p, handsOff cfg st op = some p → ¬IsError (st.bgsError p)

instance (cfg : Config) (st : State) (op : Op) : Decidable (Clean cfg st op) := by
  unfold Clean
  match handsOff cfg st op with
  | none => exact isTrue (by simp)
  | some p => exact decidable_of_iff (¬IsError (st.bgsError p)) (by simp)

/-! ## What a step can do -/

def Phase.toEnd : Phase → List Nat
  | .ending ps => ps
  | _ => []

def Phase.toCollect : Phase → Option (List Nat)
  | .collecting ps => some ps
  | .done => some []
  | _ => none

inductive Effect (cfg : Config) (st : State) : Op → State → Prop
  | quiet {op : Op} (b : Nat → Nat) (r : Nat → Bool) (ph : Phase) (hr : ∀ p, st.started p = true → r p = true)
      (hph : ph.toCollect = none) (hend : ∀ p ∈ ph.toEnd, p ∈ st.phase.toEnd ∨ p ∈ st.startedParts cfg) :
      Effect cfg st op { st with buffer := b, started := r, phase := ph }
  | handOff {op : Op} (p : Nat) (b : Nat → Nat) (r : Nat → Bool) (ph : Phase)
      (hr : ∀ p, st.started p = true → r p = true) (hph : ph.toCollect = none)
      (hend : ∀ p ∈ ph.toEnd, p ∈ st.phase.toEnd) (hop : handsOff cfg st op = some p)
      (hp : p ∈ st.phase.toEnd ∨ p < cfg.parts ∧ r p = true) :
      Effect cfg st op { st with
        buffer := b, started := r, phase := ph
        bgsError := update st.bgsError p 0
        job := update st.job (cfg.conn p) (some p)
        handedOff := some p }
  | checked : Effect cfg st .check { st with handedOff := none }
  | failed {op : Op} (e : Nat) (h : Option Nat) : Effect cfg st op { st.fail e with handedOff := h }
  | toCollect : Effect cfg st .endNext { st with phase := .collecting (st.startedParts cfg) }
  | collected (p : Nat) (ps : List Nat) (hph : st.phase = .collecting (p :: ps))
      (hidle : st.job (cfg.conn p) ≠ some p) (hok : ¬IsError (st.bgsError p)) :
      Effect cfg st .collect { st with phase := .collecting ps }
  | finished (hph : st.phase = .collecting []) : Effect cfg st .collect { st with phase := .done }
  | executed (c p error : Nat) (hjob : st.job c = some p) :
      Effect cfg st (.finish c error) { st with
        job := update st.job c none
        bgsError := update st.bgsError p (if error = 0 then endOfFile else error)
        failed := if IsError error then error :: st.failed else st.failed }

theorem started_update (f : Nat → Bool) (q p : Nat) (h : f p = true) : update f q true p = true := by
  by_cases hp : p = q
  · simp [hp]
  · rwa [update_of_ne hp]

theorem effect_cases (h : step cfg st op = some st') : Effect cfg st op st' := by
  unfold step at h
  split at h
  case h_1 p size hh hph =>
    split_ifs at h with hp hfull
    · simp only [handOff] at h
      split_ifs at h
      cases h
      refine .handOff p _ _ _ (fun q hq => started_update _ _ _ hq) (by simp [hph, Phase.toCollect])
        (by simp [hph, Phase.toEnd]) (by simp [handsOff, hfull]) (.inr ⟨hp.1, by simp⟩)
    · cases h
      exact .quiet _ _ _ (fun q hq => started_update _ _ _ hq) (by simp [hph, Phase.toCollect])
        (by simp [hph, Phase.toEnd])
  case h_2 p hh =>
    cases h
    split_ifs
    · exact .failed _ _
    · exact .checked
  case h_3 hh hph =>
    cases h
    exact .quiet st.buffer st.started _ (fun _ h => h) rfl (fun p hp => .inr hp)
  case h_4 p ps hh hph =>
    split_ifs at h with hbuf
    · simp only [handOff] at h
      split_ifs at h
      cases h
      exact .handOff p _ st.started _ (fun _ h => h) rfl (fun q hq => by rw [hph]; exact List.mem_cons_of_mem _ hq)
        (by simp [handsOff, hph, hbuf]) (.inl (by rw [hph]; exact List.mem_cons_self))
    · cases h
      exact .quiet st.buffer st.started _ (fun _ h => h) rfl
        (fun q hq => .inl (by rw [hph]; exact List.mem_cons_of_mem _ hq))
  case h_5 hh hph =>
    cases h
    exact .toCollect
  case h_6 p ps hh hph =>
    split_ifs at h with hjob hbad
    · cases h
      exact .failed _ _
    · cases h
      exact .collected p ps hph hjob hbad
  case h_7 hh hph =>
    cases h
    exact .finished hph
  case h_8 c error =>
    obtain ⟨p, hjob, rfl⟩ := Option.map_eq_some_iff.mp h
    exact .executed c p error hjob
  case h_9 => cases h

/-! ## No failure is lost -/

theorem mem_startedParts {p : Nat} : p ∈ st.startedParts cfg ↔ p < cfg.parts ∧ st.started p = true := by
  simp [State.startedParts]

/-- What is left is about partitions with rows; a statement being executed has left no error yet; until something is returned,
a failure can be seen in a handler not yet collected. -/
structure Inv (cfg : Config) (st : State) : Prop where
  toEnd : ∀ p ∈ st.phase.toEnd, p ∈ st.startedParts cfg
  job : ∀ c p, st.job c = some p → cfg.conn p = c ∧ p ∈ st.startedParts cfg ∧ ¬IsError (st.bgsError p)
  visible : st.returned = none → st.failed ≠ [] → ∃ p ∈ st.startedParts cfg, IsError (st.bgsError p)
  collected : st.returned = none → ∀ left, st.phase.toCollect = some left → ∀ p ∈ st.startedParts cfg, p ∉ left →
    st.job (cfg.conn p) ≠ some p ∧ ¬IsError (st.bgsError p)

theorem Inv.initial (cfg : Config) : Inv cfg .initial where
  toEnd p hp := by simp [State.initial, Phase.toEnd] at hp
  job c p h := by simp [State.initial] at h
  visible _ h := by simp [State.initial] at h
  collected _ left h := by simp [State.initial, Phase.toCollect] at h

theorem not_isError_zero : ¬IsError 0 := by decide

theorem Inv.handOff (h : Inv cfg st) {p : Nat} (b : Nat → Nat) (r : Nat → Bool) (ph : Phase)
    (hr : ∀ p, st.started p = true → r p = true) (hph : ph.toCollect = none) (hend : ∀ p ∈ ph.toEnd, p ∈ st.phase.toEnd)
    (hp : p ∈ st.phase.toEnd ∨ p < cfg.parts ∧ r p = true) (hclean : ¬IsError (st.bgsError p)) :
    Inv cfg { st with
      buffer := b, started := r, phase := ph
      bgsError := update st.bgsError p 0
      job := update st.job (cfg.conn p) (some p)
      handedOff := some p } := by
  have hgrow : ∀ q ∈ st.startedParts cfg, q < cfg.parts ∧ r q = true := fun q hq =>
    ⟨(mem_startedParts.mp hq).1, hr q (mem_startedParts.mp hq).2⟩
  refine ⟨fun q hq => mem_startedParts.mpr (hgrow q (h.toEnd q (hend q hq))), fun c q hjob => ?_, fun hret hfail => ?_,
    fun _ left hleft => by rw [hph] at hleft; cases hleft⟩
  · dsimp only at hjob
    by_cases hq : q = p
    · subst hq
      refine ⟨?_, ?_, by simp [not_isError_zero]⟩
      · by_contra hc
        rw [update_of_ne (Ne.symm hc)] at hjob
        exact hc (h.job c q hjob).1
      · exact mem_startedParts.mpr (hp.elim (fun hp => hgrow q (h.toEnd q hp)) id)
    · have hold : st.job c = some q := by
        by_cases hc : c = cfg.conn p
        · rw [hc, update_self, Option.some.injEq] at hjob
          exact absurd hjob.symm hq
        · rwa [update_of_ne hc] at hjob
      obtain ⟨h1, h2, h3⟩ := h.job c q hold
      exact ⟨h1, mem_startedParts.mpr (hgrow q h2), by dsimp only; rwa [update_of_ne hq]⟩
  · obtain ⟨q, hq, herr⟩ := h.visible hret hfail
    have hne : q ≠ p := fun he => hclean (he ▸ herr)
    exact ⟨q, mem_startedParts.mpr (hgrow q hq), by dsimp only; rwa [update_of_ne hne]⟩

theorem Inv.executed (h : Inv cfg st) {c p : Nat} (error : Nat) (hjob : st.job c = some p) : Inv cfg { st with
    job := update st.job c none
    bgsError := update st.bgsError p (if error = 0 then endOfFile else error)
    failed := if IsError error then error :: st.failed else st.failed } := by
  obtain ⟨hc, hp, hnone⟩ := h.job c p hjob
  refine ⟨h.toEnd, fun c' q hjob' => ?_, fun hret hfail => ?_, fun hret left hleft q hq hnot => ?_⟩
  · dsimp only at hjob'
    have hcc : c' ≠ c := by
      rintro rfl
      simp at hjob'
    rw [update_of_ne hcc] at hjob'
    obtain ⟨h1, h2, h3⟩ := h.job c' q hjob'
    have hne : q ≠ p := fun he => hcc (h1.symm.trans (he ▸ hc))
    exact ⟨h1, h2, by dsimp only; rwa [update_of_ne hne]⟩
  · by_cases herr : IsError error
    · exact ⟨p, hp, by simpa [herr.1] using herr⟩
    · simp only [if_neg herr] at hfail
      obtain ⟨q, hq, hqerr⟩ := h.visible hret hfail
      have hne : q ≠ p := fun he => hnone (he ▸ hqerr)
      exact ⟨q, hq, by dsimp only; rwa [update_of_ne hne]⟩
  · obtain ⟨hidle, hok⟩ := h.collected hret left hleft q hq hnot
    have hne : q ≠ p := fun he => hidle (by rw [he, hc, hjob])
    dsimp only
    refine ⟨?_, by rwa [update_of_ne hne]⟩
    by_cases hcc : cfg.conn q = c
    · simp [hcc]
    · rwa [update_of_ne hcc]

theorem Inv.step (h : Inv cfg st) (hclean : Clean cfg st op) (hstep : step cfg st op = some st') : Inv cfg st' := by
  cases effect_cases hstep with
  | quiet b r ph hr hph hend =>
    have hgrow : ∀ q ∈ st.startedParts cfg, q < cfg.parts ∧ r q = true := fun q hq =>
      ⟨(mem_startedParts.mp hq).1, hr q (mem_startedParts.mp hq).2⟩
    refine ⟨fun q hq => mem_startedParts.mpr (hgrow q ((hend q hq).elim (h.toEnd q) id)), fun c q hjob => ?_,
      fun hret hfail => ?_, fun _ left hleft => by rw [hph] at hleft; cases hleft⟩
    · obtain ⟨h1, h2, h3⟩ := h.job c q hjob
      exact ⟨h1, mem_startedParts.mpr (hgrow q h2), h3⟩
    · obtain ⟨q, hq, herr⟩ := h.visible hret hfail
      exact ⟨q, mem_startedParts.mpr (hgrow q hq), herr⟩
  | handOff p b r ph hr hph hend hop hp => exact h.handOff b r ph hr hph hend hp (hclean p hop)
  | checked => exact ⟨h.toEnd, h.job, h.visible, h.collected⟩
  | failed e k =>
    exact ⟨fun p hp => by simp [State.fail, Phase.toEnd] at hp, h.job, fun hret => by simp [State.fail] at hret,
      fun hret => by simp [State.fail] at hret⟩
  | toCollect =>
    refine ⟨fun p hp => by simp [Phase.toEnd] at hp, h.job, h.visible, fun _ left hleft p hp hnot => ?_⟩
    exact absurd hp (Option.some.inj hleft ▸ hnot)
  | collected p ps hph hidle hok =>
    refine ⟨fun p hp => by simp [Phase.toEnd] at hp, h.job, h.visible, fun hret left hleft q hq hnot => ?_⟩
    cases hleft
    by_cases hqp : q = p
    · exact hqp ▸ ⟨hidle, hok⟩
    · exact h.collected hret (p :: ps) (by rw [hph]; rfl) q hq (by simp [hqp, hnot])
  | finished hph =>
    refine ⟨fun p hp => by simp [Phase.toEnd] at hp, h.job, h.visible, fun hret left hleft q hq _ => ?_⟩
    exact h.collected hret [] (by rw [hph]; rfl) q hq (by simp)
  | executed c p error hjob => exact h.executed error hjob

/-- At the end of the statement, a background statement that failed has made it return an error. -/
def FailureReturned (st : State) : Prop := st.phase = .done → st.failed ≠ [] → st.returned ≠ none

instance (st : State) : Decidable (FailureReturned st) := by unfold FailureReturned; infer_instance

/-- **No failure is lost**, whatever the order of the steps of session and threads, if no statement is handed over to a
handler whose last one failed. -/
theorem failure_returned_of_clean (cfg : Config) (ops : List Op) (st : State)
    (hclean : Along (step cfg) (Clean cfg) .initial ops) (hrun : runOps (step cfg) .initial ops = some st) :
    FailureReturned st := by
  have hinv : Inv cfg st := Along.invariant (Inv cfg) (fun _ _ _ h hok hstep => h.step hok hstep) (.initial cfg) hclean
    hrun
  intro hdone hfail hret
  obtain ⟨p, hp, herr⟩ := hinv.visible hret hfail
  exact (hinv.collected hret [] (by rw [hdone]; rfl) p hp (by simp)).2 herr

def oneByOne : Config := ⟨1, fun _ => 0, 1⟩

def endOps : List Op := [.endBulkInsert, .endNext, .endNext, .collect, .collect]

/-- The second of two statements fails, and `get_bg_result` returns the error. -/
theorem failure_returned_last : ∃ st, runOps (step oneByOne) .initial
      [.write 0 9, .check, .finish 0 0, .write 0 9, .check, .finish 0 1062, .endBulkInsert, .endNext, .endNext, .collect] =
        some st ∧ st.failed = [1062] ∧ st.returned = some 1062 ∧ FailureReturned st := by
  refine ⟨(runOps (step oneByOne) .initial
    [.write 0 9, .check, .finish 0 0, .write 0 9, .check, .finish 0 1062, .endBulkInsert, .endNext, .endNext,
      .collect]).get (by decide +kernel), (Option.some_get _).symm, by decide +kernel, by decide +kernel, ?_⟩
  exact failure_returned_of_clean oneByOne _ _ (by decide +kernel) (Option.some_get _).symm

/-- The first of two statements fails after `bgs_error` was read, and the hand-off of the second clears it: no error at the
end. -/
theorem not_failure_returned : ∃ st, runOps (step oneByOne) .initial
      ([.write 0 9, .check, .finish 0 1062, .write 0 9, .check, .finish 0 0] ++ endOps) = some st ∧
    st.failed = [1062] ∧ st.returned = none ∧ ¬FailureReturned st := by
  refine ⟨(runOps (step oneByOne) .initial
    ([.write 0 9, .check, .finish 0 1062, .write 0 9, .check, .finish 0 0] ++ endOps)).get (by decide +kernel),
    (Option.some_get _).symm, by decide +kernel, by decide +kernel, by decide +kernel⟩

/-! ## No row is left behind -/

/-- Collected rows wait for `end_bulk_insert`, a statement that is executed for the collection of its outcome. -/
structure Pending (cfg : Config) (st : State) : Prop where
  buffer : ∀ p, 0 < st.buffer p → p ∈ st.startedParts cfg ∧ (st.phase = .writing ∨ p ∈ st.phase.toEnd ∨ st.returned ≠ none)
  job : ∀ c p, st.job c = some p → p ∈ st.startedParts cfg ∧ cfg.conn p = c ∧
    (st.returned = none → ∀ left, st.phase.toCollect = some left → p ∈ left)
  toEnd : ∀ p ∈ st.phase.toEnd, p ∈ st.startedParts cfg

/-- A row is collected. -/
theorem Pending.collect (h : Pending cfg st) (hph : st.phase = .writing) {p : Nat} (hp : p < cfg.parts) (n : Nat) :
    Pending cfg { st with buffer := update st.buffer p n, started := update st.started p true } := by
  have hgrow : ∀ q ∈ st.startedParts cfg, q < cfg.parts ∧ update st.started p true q = true := fun q hq =>
    ⟨(mem_startedParts.mp hq).1, started_update _ _ _ (mem_startedParts.mp hq).2⟩
  refine ⟨fun q hq => ⟨mem_startedParts.mpr ?_, .inl hph⟩, fun c q hjob => ?_, fun q hq => ?_⟩
  · dsimp only at hq ⊢
    by_cases hqp : q = p
    · subst hqp
      exact ⟨hp, update_self ..⟩
    · rw [update_of_ne hqp] at hq
      exact hgrow q (h.buffer q hq).1
  · obtain ⟨hq, hc, hleft⟩ := h.job c q hjob
    exact ⟨mem_startedParts.mpr (hgrow q hq), hc, hleft⟩
  · exact mem_startedParts.mpr (hgrow q (h.toEnd q hq))

/-- A statement is handed over; only the buffer of its partition need not wait for anything. -/
theorem Pending.handOff {p : Nat} (hstep : Bulk.handOff cfg p st = some st')
    (hbuffer : ∀ q, q ≠ p → 0 < st.buffer q → q ∈ st.startedParts cfg ∧
      (st.phase = .writing ∨ q ∈ st.phase.toEnd ∨ st.returned ≠ none))
    (hjob : ∀ c q, st.job c = some q → q ∈ st.startedParts cfg ∧ cfg.conn q = c)
    (hend : ∀ q ∈ st.phase.toEnd, q ∈ st.startedParts cfg) (hp : p ∈ st.startedParts cfg)
    (hph : st.phase.toCollect = none) : Pending cfg st' := by
  unfold Bulk.handOff at hstep
  split_ifs at hstep
  cases hstep
  refine ⟨fun q hq => ?_, fun c q hq => ?_, hend⟩
  · dsimp only at hq
    by_cases hqp : q = p
    · simp [hqp] at hq
    · exact hbuffer q hqp (by rwa [update_of_ne hqp] at hq)
  · dsimp only at hq
    have hq' : q ∈ st.startedParts cfg ∧ cfg.conn q = c := by
      by_cases hc : c = cfg.conn p
      · rw [hc, update_self, Option.some.injEq] at hq
        exact hq ▸ ⟨hp, hc.symm⟩
      · exact hjob c q (by rwa [update_of_ne hc] at hq)
    exact ⟨hq'.1, hq'.2, fun _ left hleft => by rw [hph] at hleft; cases hleft⟩

/-- The first loop of `end_bulk_insert` goes on to the partitions `ps`. -/
theorem Pending.endNext (h : Pending cfg st) {p : Nat} {ps : List Nat} (hph : st.phase = .ending (p :: ps))
    (hstep : (if 0 < st.buffer p then Bulk.handOff cfg p { st with phase := .ending ps }
      else some { st with phase := .ending ps }) = some st') : Pending cfg st' := by
  have hend : ∀ q ∈ ps, q ∈ st.startedParts cfg := fun q hq => h.toEnd q (by rw [hph]; exact List.mem_cons_of_mem _ hq)
  have hbuffer : ∀ q, q ≠ p → 0 < st.buffer q → q ∈ st.startedParts cfg ∧
      (Phase.ending ps = .writing ∨ q ∈ ps ∨ st.returned ≠ none) := by
    intro q hqp hq
    obtain ⟨hstarted, hwait⟩ := h.buffer q hq
    simp only [hph, Phase.toEnd, List.mem_cons, hqp, false_or, reduceCtorEq] at hwait
    exact ⟨hstarted, .inr hwait⟩
  split_ifs at hstep with hrows
  · exact .handOff hstep hbuffer (fun c q hq => ⟨(h.job c q hq).1, (h.job c q hq).2.1⟩) hend
      (h.toEnd p (by rw [hph]; exact List.mem_cons_self)) rfl
  · cases hstep
    refine ⟨fun q hq => hbuffer q ?_ hq, fun c q hq => ⟨(h.job c q hq).1, (h.job c q hq).2.1, fun _ _ h => by cases h⟩, hend⟩
    rintro rfl
    exact hrows hq

theorem Pending.fail (h : Pending cfg st) (e : Nat) (k : Option Nat) : Pending cfg { st.fail e with handedOff := k } :=
  ⟨fun p hp => ⟨(h.buffer p hp).1, .inr (.inr nofun)⟩, fun c p hp => ⟨(h.job c p hp).1, (h.job c p hp).2.1, nofun⟩, nofun⟩

/-- The second loop of `end_bulk_insert` has `left` left: no row waits any more, and no job of a partition behind is on its
way. -/
theorem Pending.collecting (h : Pending cfg st) {ph : Phase} (hwriting : st.phase ≠ .writing) (hend : st.phase.toEnd = [])
    (hnone : ph.toEnd = []) (hjob : ∀ c p, st.job c = some p → st.returned = none → ∀ left, ph.toCollect = some left →
      p ∈ left) : Pending cfg { st with phase := ph } := by
  refine ⟨fun p hp => ?_, fun c p hp => ⟨(h.job c p hp).1, (h.job c p hp).2.1, hjob c p hp⟩, fun p hp => ?_⟩
  · obtain ⟨hstarted, hwait⟩ := h.buffer p hp
    rw [hend] at hwait
    exact ⟨hstarted, .inr (.inr ((hwait.resolve_left hwriting).resolve_left List.not_mem_nil))⟩
  · rw [hnone] at hp
    cases hp

theorem Pending.step (h : Pending cfg st) (hstep : step cfg st op = some st') : Pending cfg st' := by
  unfold Bulk.step at hstep
  split at hstep
  case h_1 p size hh hph =>
    split_ifs at hstep with hp hfull
    · have hrow := h.collect hph hp.1 (st.buffer p + size)
      exact .handOff hstep (fun q _ => hrow.buffer q) (fun c q hq => ⟨(hrow.job c q hq).1, (hrow.job c q hq).2.1⟩)
        hrow.toEnd (mem_startedParts.mpr ⟨hp.1, update_self ..⟩) (by rw [hph]; rfl)
    · cases hstep
      exact h.collect hph hp.1 _
  case h_2 p hh =>
    cases hstep
    split_ifs
    · exact h.fail _ _
    · exact ⟨h.buffer, h.job, h.toEnd⟩
  case h_3 hh hph =>
    cases hstep
    refine ⟨fun p hp => ⟨(h.buffer p hp).1, .inr (.inl (h.buffer p hp).1)⟩, fun c p hp => ?_, fun p hp => hp⟩
    exact ⟨(h.job c p hp).1, (h.job c p hp).2.1, fun _ _ h => by cases h⟩
  case h_4 p ps hh hph => exact h.endNext hph hstep
  case h_5 hh hph =>
    cases hstep
    refine h.collecting (by simp [hph]) (by rw [hph]; rfl) rfl fun c p hp _ left hleft => ?_
    cases hleft
    exact (h.job c p hp).1
  case h_6 p ps hh hph =>
    split_ifs at hstep with hjob hbad
    · cases hstep
      exact h.fail _ _
    · cases hstep
      refine h.collecting (by simp [hph]) (by rw [hph]; rfl) rfl fun c q hq hret left hleft => ?_
      cases hleft
      obtain ⟨-, hc, hmem⟩ := h.job c q hq
      -- the job of the partition that was collected is over
      have hne : q ≠ p := by
        rintro rfl
        exact hjob (hc ▸ hq)
      exact (List.mem_cons.mp (hmem hret _ (by rw [hph]; rfl))).resolve_left hne
  case h_7 hh hph =>
    cases hstep
    refine h.collecting (by simp [hph]) (by rw [hph]; rfl) rfl fun c q hq hret left hleft => ?_
    cases hleft
    exact (h.job c q hq).2.2 hret _ (by rw [hph]; rfl)
  case h_8 c error =>
    -- a statement is executed, which only ends a job
    obtain ⟨p, hp, rfl⟩ := Option.map_eq_some_iff.mp hstep
    refine ⟨h.buffer, fun c' q hq => h.job c' q ?_, h.toEnd⟩
    dsimp only at hq
    by_cases hc : c' = c
    · simp [hc] at hq
    · rwa [update_of_ne hc] at hq
  case h_9 => cases hstep

/-- **No row is left behind**: in every interleaving, when the statement ends without an error all collected rows have been
handed over and executed. -/
theorem done_all_executed (cfg : Config) (ops : List Op) (st : State) (hrun : runOps (step cfg) .initial ops = some st)
    (hdone : st.phase = .done) (hok : st.returned = none) : (∀ p, st.buffer p = 0) ∧ ∀ c, st.job c = none := by
  have hinit : Pending cfg .initial := ⟨by simp [State.initial], by simp [State.initial],
    by simp [State.initial, Phase.toEnd]⟩
  have h : Pending cfg st := runOps_invariant (Pending cfg) (fun _ _ _ h hs => h.step hs) hinit hrun
  refine ⟨fun p => Nat.eq_zero_of_not_pos fun hp => ?_, fun c => Option.eq_none_iff_forall_ne_some.mpr fun p hp => ?_⟩
  · simpa [hdone, hok, Phase.toEnd] using (h.buffer p hp).2
  · simpa [hdone, Phase.toCollect] using (h.job c p hp).2.2 hok

theorem done_all_executed_one : ∃ st, runOps (step oneByOne) .initial
    ([.write 0 9, .check, .finish 0 0] ++ endOps) = some st ∧
    (∀ p, st.buffer p = 0) ∧ ∀ c, st.job c = none :=
  ⟨_, rfl, done_all_executed oneByOne ([.write 0 9, .check, .finish 0 0] ++ endOps) _ rfl rfl rfl⟩

end TSpider.Dml.Bulk

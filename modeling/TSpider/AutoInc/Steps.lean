import TSpider.AutoInc.Basic

/-!
# What the steps of the generator do

Bounds and residues of the computed values, the effect of `update_auto_increment` and of each step (`Stepped`), and the
facts about sessions that every run keeps while reservations fit (`Sane`).
-/

namespace TSpider.AutoInc
open Lib Nat

variable {cfg : Config} {v : Vars} {nr : Nat}

/-! ## Computed values -/

theorem ulonglongMax_lt : ulonglongMax < wordSize := by decide

theorem computeNextInsertId_le (cfg : Config) (v : Vars) (nr : Nat) : computeNextInsertId cfg v nr ≤ ulonglongMax := by
  have hsnap : ∀ s m x, snap s m x ≤ ulonglongMax := fun s m x => le_sub_one_of_lt snap_lt
  unfold computeNextInsertId
  dsimp only
  split_ifs
  · exact le_rfl
  · exact hsnap _ _ _
  · exact le_rfl
  · exact le_sub_one_of_lt (mod_lt _ (by decide))
  · exact le_rfl
  · exact hsnap _ _ _

theorem lt_computeNextInsertId (cfg : Config) (v : Vars) (h : nr < ulonglongMax) : nr < computeNextInsertId cfg v nr := by
  unfold computeNextInsertId
  dsimp only
  split_ifs <;> omega

theorem le_computeNextInsertId (cfg : Config) (v : Vars) (h : nr < wordSize) : nr ≤ computeNextInsertId cfg v nr := by
  rcases lt_or_ge nr ulonglongMax with hlt | hge
  · exact (lt_computeNextInsertId cfg v hlt).le
  · unfold computeNextInsertId ulonglongMax
    dsimp only
    split_ifs <;> omega

theorem computeNextInsertId_spider (hsp : cfg.spiderMode = true) (h : computeNextInsertId cfg v nr ≠ ulonglongMax) :
    computeNextInsertId cfg v nr = snap cfg.step cfg.modeValue (nr + cfg.step) ∧
      nr < snap cfg.step cfg.modeValue (nr + cfg.step) := by
  unfold computeNextInsertId at h ⊢
  simp only [hsp, if_true] at h ⊢
  split_ifs at h ⊢ with hle
  · exact absurd rfl h
  · exact ⟨rfl, not_le.mp hle⟩

theorem computeNextInsertId_modEq (hsp : cfg.spiderMode = true) (hnr : nr < wordSize)
    (hmode : cfg.step ∣ wordSize ∨ cfg.modeValue ≤ nr + cfg.step) (h : computeNextInsertId cfg v nr ≠ ulonglongMax) :
    computeNextInsertId cfg v nr ≡ cfg.modeValue [MOD cfg.step] := by
  obtain ⟨heq, hlt⟩ := computeNextInsertId_spider hsp h
  have hstep := cfg.step_range
  rw [heq]
  rcases hmode with hdvd | hmode
  · exact snap_modEq hstep.1 (.inl hdvd)
  · exact snap_modEq_of_lt hstep.1 (hstep.2.trans (by decide)) hnr hmode hlt

theorem computeNextInsertId_modEq_offset (hsp : cfg.spiderMode = false) (hnr : nr < wordSize)
    (hoff : v.offset ≤ v.increment) (h : computeNextInsertId cfg v nr ≠ ulonglongMax) :
    computeNextInsertId cfg v nr ≡ v.offset [MOD v.increment] := by
  rcases eq_or_ne v.increment 1 with hone | hone
  · rw [hone]
    exact modEq_one
  · unfold computeNextInsertId at h ⊢
    simp only [hsp, hone, if_false, Bool.false_eq_true] at h ⊢
    split_ifs at h ⊢ with hle
    · exact absurd rfl h
    · exact snap_modEq_of_lt v.increment_range.1 (v.increment_range.2.trans (by decide)) hnr (by omega) (not_le.mp hle)

theorem computeNextInsertId_le_add (v : Vars) (nr : Nat) (hsp : cfg.spiderMode = false) (hfit : nr + v.increment < wordSize) :
    computeNextInsertId cfg v nr ≤ nr + v.increment := by
  have hinc := v.increment_range
  have hoff := v.offset_range
  have hsnap := snap_le hinc.1 hfit
    (hoff.2.trans (by decide)) (by omega)
  have hgt := lt_snap_add hinc.1 hfit
    (hoff.2.trans (by decide)) (by omega)
  unfold computeNextInsertId
  simp only [hsp, if_false, Bool.false_eq_true]
  split_ifs with h1 h2 h2
  · rw [mod_eq_of_lt (by omega)] at h2
    omega
  · rw [mod_eq_of_lt (by omega)]
    omega
  · omega
  · omega

theorem roundFirst_spider (hsp : cfg.spiderMode = true) (first : Nat) : roundFirst cfg v first = first := by
  simp [roundFirst, hsp]

theorem one_le_nbDesiredValues (s : Session) : 1 ≤ nbDesiredValues s := by
  unfold nbDesiredValues
  split_ifs with h1 h2 h3
  · exact h1.2
  · exact h2.2
  · exact le_min (by simp [Nat.one_le_two_pow]) (by omega)
  · omega

theorem Interval.replace_max_lt (start val incr : Nat) : (Interval.replace start val incr).max < wordSize := by
  unfold Interval.replace
  dsimp only
  split_ifs with h
  · rw [h]; decide
  · exact mod_lt _ (by decide)

theorem Interval.replace_max_eq {start val incr : Nat} (hincr : 1 ≤ incr) (h : start + val * incr < wordSize) :
    (Interval.replace start val incr).max = start + val * incr := by
  unfold Interval.replace
  dsimp only
  split_ifs with hval
  · have := Nat.le_mul_of_pos_right val hincr
    unfold ulonglongMax at hval
    omega
  · exact Nat.mod_eq_of_lt h

theorem Config.one_le_increment (cfg : Config) (v : Vars) : 1 ≤ cfg.increment v := by
  unfold Config.increment
  split_ifs
  · exact cfg.step_range.1
  · exact v.increment_range.1

/-! ## `update_auto_increment` -/

variable {s : Session} {sh : Share} {sid value : Nat}

def firstValue (cfg : Config) (v : Vars) (next : Nat) : Nat := roundFirst cfg v (roundCounter cfg next)

/-- A reservation fits: the rounding does not wrap, the interval ends below `2 ^ 64`, its first value fits the column. -/
def ReserveFits (cfg : Config) (s : Session) (next : Nat) : Prop :=
  next ≤ firstValue cfg s.vars next ∧
  firstValue cfg s.vars next + nbDesiredValues s * cfg.increment s.vars < wordSize ∧
  firstValue cfg s.vars next ≤ cfg.fieldMax

instance (cfg : Config) (s : Session) (next : Nat) : Decidable (ReserveFits cfg s next) := by
  unfold ReserveFits; infer_instance

theorem ReserveFits.mul_le (cfg : Config) (s : Session) : cfg.increment s.vars ≤
    nbDesiredValues s * cfg.increment s.vars := by
  simpa using mul_le_mul_right (cfg.increment s.vars) (one_le_nbDesiredValues s)

theorem ReserveFits.lt_max {next : Nat} (hfit : ReserveFits cfg s next) : firstValue cfg s.vars next < ulonglongMax := by
  have hlt := hfit.2.1
  have hmul := ReserveFits.mul_le cfg s
  have hinc := cfg.one_le_increment s.vars
  unfold ulonglongMax
  omega

theorem reserve_bounds {next : Nat} (hfit : ReserveFits cfg s next) : roundCounter cfg next ≤ firstValue cfg s.vars next ∧
    firstValue cfg s.vars next < roundCounter cfg next + cfg.increment s.vars ∧
    (cfg.spiderMode = true → firstValue cfg s.vars next = roundCounter cfg next) := by
  obtain ⟨hle, hlt, -⟩ := hfit
  have hinc := cfg.one_le_increment s.vars
  cases hsp : cfg.spiderMode with
  | true =>
    rw [firstValue, roundFirst_spider hsp]
    exact ⟨le_rfl, by omega, fun _ => rfl⟩
  | false =>
    have hround : roundCounter cfg next = next := by simp [roundCounter, hsp]
    have hincr : cfg.increment s.vars = s.vars.increment := by simp [Config.increment, hsp]
    have hmul := Nat.mul_le_mul_right s.vars.increment (one_le_nbDesiredValues s)
    rw [hround]
    refine ⟨hle, ?_, fun h => by cases h⟩
    rw [hincr] at hlt ⊢
    -- the counter is not zero: the number before zero is the marker, and nothing is above it
    rcases Nat.eq_zero_or_pos next with rfl | hpos
    · have hmark : firstValue cfg s.vars 0 = computeNextInsertId cfg s.vars ulonglongMax := by
        simp [firstValue, roundFirst, roundCounter, hsp, ulonglongMax, wordSize]
      have := le_computeNextInsertId cfg s.vars ulonglongMax_lt
      unfold ulonglongMax at *
      omega
    · have hfirst : firstValue cfg s.vars next = computeNextInsertId cfg s.vars (next - 1) := by
        simp only [firstValue, roundFirst, hsp, hround, Bool.false_eq_true, if_false]
        rw [show next + wordSize - 1 = next - 1 + wordSize by omega, Nat.add_mod_right, Nat.mod_eq_of_lt (by omega)]
      have := computeNextInsertId_le_add s.vars (next - 1) hsp (by omega)
      omega

theorem ReserveFits.counter (hfit : ReserveFits cfg s sh.nextAutoIncVal) (sid : Nat) :
    (getAutoIncrement cfg sid (nbDesiredValues s) s sh).2.nextAutoIncVal =
      roundCounter cfg sh.nextAutoIncVal + nbDesiredValues s * cfg.increment s.vars ∧
        firstValue cfg s.vars sh.nextAutoIncVal <
      roundCounter cfg sh.nextAutoIncVal + nbDesiredValues s * cfg.increment s.vars := by
  obtain ⟨hge, hlt, -⟩ := reserve_bounds hfit
  have hend := hfit.2.1
  have hmul := ReserveFits.mul_le cfg s
  exact ⟨mod_eq_of_lt (by omega), by omega⟩

def Session.took (cfg : Config) (s : Session) (nr : Nat) : Session :=
  { s with insertIdForCurRow := nr, nextInsertId := computeNextInsertId cfg s.vars nr, phase := .filled nr true }

def Session.reserved (cfg : Config) (s : Session) (nr : Nat) : Session :=
  { s with
    interval := Interval.replace nr (nbDesiredValues s) (cfg.increment s.vars)
    intervalsCount := s.intervalsCount + 1 }

/-- A row takes the cursor's value while the interval lasts; a value that cannot be stored leaves the session as it was. -/
theorem updateAutoIncrement_inside (cfg : Config) (sid value : Nat) (sh : Share)
    (hlt : s.nextInsertId < s.interval.max) (hmax : s.interval.max < wordSize) :
    updateAutoIncrement cfg sid value false s sh = ⟨.ok, s.took cfg s.nextInsertId, sh⟩ ∨
      updateAutoIncrement cfg sid value false s sh =
        ⟨.erange, { s with insertIdForCurRow := s.nextInsertId, phase := .between }, sh⟩ := by
  have hne : s.nextInsertId ≠ ulonglongMax := by
    unfold ulonglongMax
    omega
  simp only [updateAutoIncrement, storeValue, if_neg hlt.not_ge, if_neg hne, Bool.false_eq_true, if_false]
  split_ifs
  · exact .inr rfl
  · exact .inl rfl

theorem storeValue_reserved (hne : nr ≠ ulonglongMax) (hcol : nr ≤ cfg.fieldMax) :
    storeValue cfg nr (some (nbDesiredValues s)) s sh = ⟨.ok, (s.reserved cfg nr).took cfg nr, sh⟩ := by
  simp [storeValue, hne, hcol.not_gt, Session.reserved, Session.took]

theorem updateAutoIncrement_reserve (sid value : Nat) (hres : s.reserves) (hfit : ReserveFits cfg s sh.nextAutoIncVal) :
    updateAutoIncrement cfg sid value false s sh = ⟨.ok, (s.reserved cfg (firstValue cfg s.vars sh.nextAutoIncVal)).took cfg
          (firstValue cfg s.vars sh.nextAutoIncVal), (getAutoIncrement cfg sid (nbDesiredValues s) s sh).2⟩ := by
  have hne := hfit.lt_max.ne
  -- the engine's own first value is not the marker either: with the switch it is the value itself, and without it the
  -- marker would be rounded to the marker
  have hfirst : roundCounter cfg sh.nextAutoIncVal ≠ ulonglongMax := by
    intro hmark
    refine hne ?_
    unfold firstValue roundFirst
    rw [hmark]
    split_ifs with hsp
    · rfl
    · have hgt : ulonglongMax - 1 < computeNextInsertId cfg s.vars (ulonglongMax - 1) :=
        lt_computeNextInsertId cfg s.vars (by decide)
      have hle := computeNextInsertId_le cfg s.vars (ulonglongMax - 1)
      rw [show (ulonglongMax + wordSize - 1) % wordSize = ulonglongMax - 1 by decide]
      omega
  unfold updateAutoIncrement reserveValue
  rw [if_neg Bool.false_ne_true, if_pos hres.1, hres.2]
  rw [if_neg (by exact hfirst)]
  exact storeValue_reserved hne hfit.2.2

/-! ## Inversion of a step -/

variable {st st' : State}

@[simp] theorem State.put_share (s : Session) (sh : Share) : (st.put sid s sh).share = sh := rfl

@[simp] theorem State.put_session_self (s : Session) (sh : Share) : (st.put sid s sh).session sid = s := by
  simp [State.put]

theorem State.put_session_of_ne {j : Nat} (hj : j ≠ sid) (s : Session) (sh : Share) :
    (st.put sid s sh).session j = st.session j := by
  simp [State.put, Function.update_of_ne hj]

inductive Stepped (cfg : Config) (st : State) (sid : Nat) : Op → State → Prop
  | setInsertId (value : UInt64) (hp : (st.session sid).phase = .outside) :
      Stepped cfg st sid (.setInsertId value)
        (st.put sid { st.session sid with forced := forceOneAutoIncInterval value.toNat } st.share)
  | startStmt (i : StmtInfo) (hp : (st.session sid).phase = .outside) :
      Stepped cfg st sid (.startStmt i) (st.put sid { st.session sid with
        phase := .between, vars := i.vars, estimationRowsToInsert := i.estimationRowsToInsert
        manyValues := i.manyValues, insertCommand := i.insertCommand, stmtLog := i.stmtLog } st.share)
  | openRow (value : UInt64) (explicit need : Bool) (remotes : List UInt64)
      (hp : (st.session sid).phase = .between) :
      Stepped cfg st sid (.openRow value explicit need remotes)
        (st.put sid { st.session sid with phase := .opened value.toNat explicit }
          (updateNextAutoIncVal cfg need value.toNat (st.session sid).insertCommand remotes st.share))
  | fillRow (value : Nat) (explicit : Bool) (hp : (st.session sid).phase = .opened value explicit) :
      Stepped cfg st sid .fillRow
        { st.put sid (updateAutoIncrement cfg sid value explicit (st.session sid) st.share).session
            (updateAutoIncrement cfg sid value explicit (st.session sid) st.share).share with
          history := if explicit then st.history
            else st.fillHistory cfg sid (updateAutoIncrement cfg sid value explicit (st.session sid) st.share) }
  | writeRow (error generated : Bool) (value : Nat) (hp : (st.session sid).phase = .filled value generated) :
      Stepped cfg st sid (.writeRow error)
        { st.put sid { st.session sid with phase := .between } (setAutoIncrementIfHigher cfg value error st.share) with
          history := st.writeHistory cfg value generated error }
  | leaveRow (value : Nat) (generated : Bool) (hp : (st.session sid).phase = .filled value generated) :
      Stepped cfg st sid .leaveRow (st.put sid { st.session sid with phase := .between } st.share)
  | endBulkInsert (error : Bool) (hp : (st.session sid).phase = .between) :
      Stepped cfg st sid (.endBulkInsert error) (st.put sid (st.session sid) (noteInsertError cfg error st.share))
  | release (hp : (st.session sid).phase = .between) :
      Stepped cfg st sid .release (st.put sid (resetAutoIncrement (st.session sid))
        (releaseAutoIncrement sid (st.session sid) st.share))

theorem step_stepped {op : Op} (h : step cfg st (sid, op) = some st') : Stepped cfg st sid op st' := by
  unfold step at h
  dsimp only at h
  split at h
  · cases h
    exact .setInsertId _ ‹_›
  · cases h
    exact .startStmt _ ‹_›
  · split_ifs at h
    cases h
    exact .openRow _ _ _ _ ‹_›
  · split at h
    · cases h
      exact .fillRow _ _ ‹_›
    · cases h
  · split_ifs at h
    cases h
    exact .writeRow _ _ _ ‹_›
  · cases h
    exact .leaveRow _ _ ‹_›
  · split_ifs at h
    cases h
    exact .endBulkInsert _ ‹_›
  · split_ifs at h
    cases h
    exact .release ‹_›
  · cases h

/-! ## Effects -/

/-- A session between steps while its reservations fit: no `SET INSERT_ID`, no interval outside a statement, no zero cursor
while its interval lasts. -/
structure Session.Sane (s : Session) : Prop where
  forced : s.forced = ⟨[], []⟩
  max_lt : s.interval.max < wordSize
  outside : s.phase = .outside → s.interval.max = 0
  opened : ∀ v e, s.phase = .opened v e → v < wordSize
  filled : ∀ v g, s.phase = .filled v g → v < wordSize
  live_pos : s.nextInsertId < s.interval.max → 0 < s.nextInsertId

def State.Sane (st : State) : Prop := ∀ i, (st.session i).Sane

def Reserves (st : State) (act : Nat × Op) : Prop :=
  act.2.isFillRow = true ∧ (st.session act.1).awaitsValue = true ∧ (st.session act.1).reserves

instance (st : State) (act : Nat × Op) : Decidable (Reserves st act) := by unfold Reserves; infer_instance

/-- The step sets no `INSERT_ID`, and its reservation does not wrap and fits the field. -/
def Fits (cfg : Config) (st : State) (act : Nat × Op) : Prop :=
  act.2.isSetInsertId = false ∧ (Reserves st act → ReserveFits cfg (st.session act.1) st.share.nextAutoIncVal)

instance (cfg : Config) (st : State) (act : Nat × Op) : Decidable (Fits cfg st act) := by
  unfold Fits; infer_instance

/-- If the step raises the counter to follow a written value, it does not wrap. -/
def WriteFits (cfg : Config) (st : State) (act : Nat × Op) : Prop :=
  match act.2, (st.session act.1).phase with
  | .writeRow _, .filled value _ =>
    st.share.nextAutoIncVal ≤ value → value + (if cfg.spiderMode then cfg.step else 1) < wordSize
  | _, _ => True

instance (cfg : Config) (st : State) (act : Nat × Op) : Decidable (WriteFits cfg st act) := by
  unfold WriteFits
  split <;> infer_instance

/-- What a step does to the counter, the cursor and interval of its session, and the history. -/
inductive Effect (cfg : Config) (st : State) (sid : Nat) (op : Op) : State → Prop
  | quiet (s' : Session) (sh' : Share) (hid : s'.nextInsertId = (st.session sid).nextInsertId)
      (hiv : s'.interval = (st.session sid).interval)
      (hvars : s'.vars = (st.session sid).vars ∨ (st.session sid).interval.max ≤ (st.session sid).nextInsertId)
      (hnext : st.share.nextAutoIncVal ≤ sh'.nextAutoIncVal) : Effect cfg st sid op (st.put sid s' sh')
  | skip (s' : Session) (value : Nat) (hpos : 0 < (st.session sid).nextInsertId)
      (hle : (st.session sid).nextInsertId ≤ value) (hv : value < wordSize)
      (hid : s'.nextInsertId = computeNextInsertId cfg (st.session sid).vars value)
      (hiv : s'.interval = (st.session sid).interval) (hvars : s'.vars = (st.session sid).vars) :
      Effect cfg st sid op (st.put sid s' st.share)
  | take (hlive : (st.session sid).nextInsertId < (st.session sid).interval.max) :
      Effect cfg st sid op
        { st.put sid ((st.session sid).took cfg (st.session sid).nextInsertId) st.share with
          history := { st.history with
            generated := ⟨(st.session sid).nextInsertId, (st.history.reservation sid).explicitBefore⟩ ::
              st.history.generated } }
  | reserve (hres : Reserves st (sid, op))
      (hdone : (st.session sid).interval.max ≤ (st.session sid).nextInsertId)
      (hfit : ReserveFits cfg (st.session sid) st.share.nextAutoIncVal) :
      Effect cfg st sid op
        { st.put sid (((st.session sid).reserved cfg (firstValue cfg (st.session sid).vars
              st.share.nextAutoIncVal)).took cfg (firstValue cfg (st.session sid).vars st.share.nextAutoIncVal))
            (getAutoIncrement cfg sid (nbDesiredValues (st.session sid)) (st.session sid) st.share).2 with
          history :=
            { generated := ⟨firstValue cfg (st.session sid).vars st.share.nextAutoIncVal, st.history.explicitDone⟩ ::
                st.history.generated
              explicitDone := st.history.explicitDone
              reservation := Function.update st.history.reservation sid (st.newReservation cfg sid)
              lastReserver := some sid } }
  | write (value : Nat) (generated error : Bool) (hop : op = .writeRow error)
      (hp : (st.session sid).phase = .filled value generated) (hv : value < wordSize) :
      Effect cfg st sid op
        { st.put sid { st.session sid with phase := .between } (setAutoIncrementIfHigher cfg value error st.share) with
          history := st.writeHistory cfg value generated error }
  | release (hop : op.isRelease = true) :
      Effect cfg st sid op (st.put sid (resetAutoIncrement (st.session sid))
        (releaseAutoIncrement sid (st.session sid) st.share))

theorem updateNextAutoIncVal_le {need ic : Bool} {remotes : List UInt64} :
    sh.nextAutoIncVal ≤ (updateNextAutoIncVal cfg need value ic remotes sh).nextAutoIncVal := by
  unfold updateNextAutoIncVal
  split
  · exact le_rfl
  · exact le_max_left _ _

theorem noteInsertError_nextAutoIncVal (error : Bool) : (noteInsertError cfg error sh).nextAutoIncVal =
    sh.nextAutoIncVal := by
  unfold noteInsertError
  split_ifs <;> rfl

theorem setAutoIncrementIfHigher_raises (error : Bool)
    (hfit : sh.nextAutoIncVal ≤ value → value + (if cfg.spiderMode then cfg.step else 1) < wordSize) :
    sh.nextAutoIncVal ≤ (setAutoIncrementIfHigher cfg value error sh).nextAutoIncVal ∧
      (cfg.countsAsPositive value → value < (setAutoIncrementIfHigher cfg value error sh).nextAutoIncVal) := by
  have hstep := cfg.step_range
  -- beyond a number that counts, whatever the mode
  have hbeyond : ∀ nr, nr ≤ value → sh.nextAutoIncVal ≤ nr →
      nr < (if cfg.spiderMode then snap cfg.step cfg.modeValue (nr + cfg.step) else (nr + 1) % wordSize) := by
    intro nr hnr hle
    have hlt := hfit (hle.trans hnr)
    split_ifs at hlt ⊢
    · have := lt_snap_add (x := nr + cfg.step) hstep.1 (by omega)
        (cfg.mode_range.trans (by decide)) (by omega)
      omega
    · rw [mod_eq_of_lt (by omega)]
      omega
  unfold setAutoIncrementIfHigher
  rw [noteInsertError_nextAutoIncVal]
  by_cases hpos : cfg.countsAsPositive value
  · rw [if_pos hpos]
    by_cases hle : sh.nextAutoIncVal ≤ value
    · rw [if_pos hle]
      exact ⟨hle.trans (hbeyond value le_rfl hle).le, fun _ => hbeyond value le_rfl hle⟩
    · rw [if_neg hle]
      exact ⟨le_rfl, fun _ => not_le.mp hle⟩
  · rw [if_neg hpos]
    refine ⟨?_, fun h => absurd h hpos⟩
    by_cases hle : sh.nextAutoIncVal ≤ 0
    · rw [if_pos hle]
      exact hle.trans (hbeyond 0 (zero_le _) hle).le
    · rw [if_neg hle]

theorem releaseAutoIncrement_nextAutoIncVal (sid : Nat) (s : Session) (sh : Share) :
    (releaseAutoIncrement sid s sh).nextAutoIncVal = if handsBack s sh then s.nextInsertId else sh.nextAutoIncVal := by
  unfold releaseAutoIncrement
  by_cases hzero : s.nextInsertId = 0
  · have hno : ¬handsBack s sh := fun h => by
      have := h.2.2
      omega
    rw [if_pos hzero, if_neg hno]
  · rw [if_neg hzero]

theorem State.Sane.put (h : st.Sane) (hs : s.Sane) (sh : Share) (hist : History) :
    State.Sane { st.put sid s sh with history := hist } := by
  intro j
  rcases eq_or_ne j sid with rfl | hj
  · simpa [State.put] using hs
  · simpa [State.put, Function.update_of_ne hj] using h j

theorem Session.took_sane (hforced : s.forced = ⟨[], []⟩) (hmax : s.interval.max < wordSize) (hnr : nr < ulonglongMax) :
    (s.took cfg nr).Sane where
  forced := hforced
  max_lt := hmax
  outside h := by cases h
  opened v e h := by cases h
  filled v g h := by
    cases h
    exact hnr.trans ulonglongMax_lt
  live_pos _ := (zero_le nr).trans_lt (lt_computeNextInsertId cfg s.vars hnr)

theorem Session.Sane.congr {s' : Session} (hs : s.Sane) (hforced : s'.forced = s.forced)
    (hiv : s'.interval = s.interval) (hid : s'.nextInsertId = s.nextInsertId) (hp : s'.phase = .between) :
    s'.Sane where
  forced := hforced.trans hs.forced
  max_lt := hiv ▸ hs.max_lt
  outside h := by rw [hp] at h; cases h
  opened v e h := by rw [hp] at h; cases h
  filled v g h := by rw [hp] at h; cases h
  live_pos h := by
    rw [hiv, hid] at h
    rw [hid]
    exact hs.live_pos h

theorem adjustNextInsertIdAfterExplicitValue_cases (cfg : Config) (value : Nat) (s : Session) :
    adjustNextInsertIdAfterExplicitValue cfg value s = s ∨
      (0 < s.nextInsertId ∧ s.nextInsertId ≤ value ∧ adjustNextInsertIdAfterExplicitValue cfg value s =
        { s with nextInsertId := computeNextInsertId cfg s.vars value }) := by
  unfold adjustNextInsertIdAfterExplicitValue
  split_ifs with h
  · exact .inr ⟨h.1, h.2, rfl⟩
  · exact .inl rfl

theorem effect_fillExplicit (hs : st.Sane) (hp : (st.session sid).phase = .opened value true) :
    State.Sane (st.put sid (updateAutoIncrement cfg sid value true (st.session sid) st.share).session st.share) ∧
      Effect cfg st sid .fillRow
        (st.put sid (updateAutoIncrement cfg sid value true (st.session sid) st.share).session st.share) := by
  have hv := (hs sid).opened _ _ hp
  -- the session up to its cursor, which can only move forward
  have hsane : ∀ n, (st.session sid).nextInsertId ≤ n → Session.Sane { st.session sid with
      nextInsertId := n, insertIdForCurRow := 0, phase := .filled value false } := by
    intro n hn
    refine ⟨(hs sid).forced, (hs sid).max_lt, fun h => (by cases h), fun v e h => (by cases h), fun v g h => ?_, ?_⟩
    · cases h
      exact hv
    · intro hlt
      have := (hs sid).live_pos
      dsimp only at hlt ⊢
      omega
  have hquiet : State.Sane (st.put sid { st.session sid with insertIdForCurRow := 0, phase := .filled value false }
        st.share) ∧ Effect cfg st sid .fillRow (st.put sid { st.session sid with
          insertIdForCurRow := 0, phase := .filled value false } st.share) :=
    ⟨hs.put (hsane _ le_rfl) _ _, .quiet _ _ rfl rfl (.inl rfl) le_rfl⟩
  simp only [updateAutoIncrement, if_true]
  split_ifs
  · rcases adjustNextInsertIdAfterExplicitValue_cases cfg value (st.session sid) with heq | ⟨hpos, hle, heq⟩
    · rw [heq]
      exact hquiet
    · rw [heq]
      exact ⟨hs.put (hsane _ (hle.trans (le_computeNextInsertId cfg _ hv))) _ _, .skip _ value hpos hle hv rfl rfl rfl⟩
  · exact hquiet

theorem effect_fillGenerated (hs : st.Sane) (hfit : Fits cfg st (sid, .fillRow))
    (hp : (st.session sid).phase = .opened value false) {f : Fill}
    (hf : updateAutoIncrement cfg sid value false (st.session sid) st.share = f) :
    State.Sane { st.put sid f.session f.share with history := st.fillHistory cfg sid f } ∧
      Effect cfg st sid .fillRow { st.put sid f.session f.share with history := st.fillHistory cfg sid f } := by
  rcases lt_or_ge (st.session sid).nextInsertId (st.session sid).interval.max with hlive | hdone
  · have hres : ¬(st.session sid).reserves := fun h => hlive.not_ge h.1
    have hmax : (st.session sid).nextInsertId < ulonglongMax :=
      hlive.trans_le (le_sub_one_of_lt (hs sid).max_lt)
    rcases updateAutoIncrement_inside cfg sid value st.share hlive (hs sid).max_lt with h | h
    · obtain rfl := h.symm.trans hf
      refine ⟨hs.put (Session.took_sane (hs sid).forced (hs sid).max_lt hmax) _ _, ?_⟩
      simpa [State.fillHistory, hres, Session.took] using
        (Effect.take hlive : Effect cfg st sid .fillRow _)
    · obtain rfl := h.symm.trans hf
      refine ⟨hs.put ?_ _ _, ?_⟩
      · exact (hs sid).congr rfl rfl rfl rfl
      have hhist : st.fillHistory cfg sid ⟨.erange, { st.session sid with
          insertIdForCurRow := (st.session sid).nextInsertId, phase := .between }, st.share⟩ = st.history := by
        simp [State.fillHistory, hres]
      rw [hhist]
      exact .quiet _ _ rfl rfl (.inl rfl) le_rfl
  · have hres : (st.session sid).reserves := ⟨hdone, by rw [(hs sid).forced]⟩
    have hact : Reserves st (sid, .fillRow) := ⟨rfl, by simp [Session.awaitsValue, hp], hres⟩
    have hfits : ReserveFits cfg (st.session sid) st.share.nextAutoIncVal := hfit.2 hact
    obtain rfl := (updateAutoIncrement_reserve sid value hres hfits).symm.trans hf
    refine ⟨hs.put (Session.took_sane (s := (st.session sid).reserved cfg _) (hs sid).forced (Interval.replace_max_lt _ _ _)
      hfits.lt_max) _ _, ?_⟩
    simpa [State.fillHistory, hres, Session.took, State.newReservation] using
      (Effect.reserve hact hdone hfits : Effect cfg st sid .fillRow _)

/-- **What a step can do**, while reservations fit. -/
theorem step_effect {op : Op} (hs : st.Sane) (hfit : Fits cfg st (sid, op)) (h : step cfg st (sid, op) = some st') :
    st'.Sane ∧ Effect cfg st sid op st' := by
  cases step_stepped h with
  | setInsertId value hp => cases hfit.1
  | startStmt i hp =>
    have hmax := (hs sid).outside hp
    refine ⟨hs.put ?_ _ _, .quiet _ _ rfl rfl (.inr (by omega)) le_rfl⟩
    exact (hs sid).congr rfl rfl rfl rfl
  | openRow value explicit need remotes hp =>
    refine ⟨hs.put ?_ _ _, .quiet _ _ rfl rfl (.inl rfl) updateNextAutoIncVal_le⟩
    refine ⟨(hs sid).forced, (hs sid).max_lt, fun h => (by cases h), fun v e h => ?_, fun v g h => (by cases h),
      (hs sid).live_pos⟩
    cases h
    exact value.toNat_lt
  | fillRow value explicit hp =>
    cases explicit with
    | true => exact effect_fillExplicit hs hp
    | false => exact effect_fillGenerated hs hfit hp rfl
  | writeRow error generated value hp =>
    refine ⟨hs.put ?_ _ _, .write value generated error rfl hp ((hs sid).filled _ _ hp)⟩
    exact (hs sid).congr rfl rfl rfl rfl
  | leaveRow value generated hp =>
    refine ⟨hs.put ?_ _ _, .quiet _ _ rfl rfl (.inl rfl) le_rfl⟩
    exact (hs sid).congr rfl rfl rfl rfl
  | endBulkInsert error hp =>
    exact ⟨hs.put (hs sid) _ _, .quiet _ _ rfl rfl (.inl rfl) (noteInsertError_nextAutoIncVal error).ge⟩
  | release hp =>
    refine ⟨hs.put ?_ _ _, .release rfl⟩
    have hmax : (resetAutoIncrement (st.session sid)).interval.max = 0 := by simp [resetAutoIncrement, Interval.replace]
    refine ⟨?_, hmax ▸ by decide, fun _ => hmax, fun v e h => (by cases h), fun v g h => (by cases h), ?_⟩
    · simp [resetAutoIncrement, (hs sid).forced]
    · exact fun h => absurd h (not_lt_zero _)

end TSpider.AutoInc

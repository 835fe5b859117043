import TSpider.AutoInc.Unique

/-!
# The rows of one generator

Facts about a generator whose rows all get a generated value, as every run keeps them: each row that has a value has one of
its own (`Good`), nothing is generated below a bound that the counter has passed once (`Bounded`), and before its first row
a generator has given nothing (`Closed`).
-/

namespace TSpider.AutoInc
open Lib State

variable {cfg : Config} {st st' : State} {sid : Nat} {op : Op}

def State.values (st : State) : List Nat := st.history.generated.map Generated.value

theorem step_session_of_ne (h : step cfg st (sid, op) = some st') {i : Nat} (hi : i ≠ sid) :
    st'.session i = st.session i := by
  cases step_stepped h <;> simp [put, Function.update_of_ne hi]

def Session.Filled (s : Session) (value : Nat) : Prop := ∃ generated, s.phase = .filled value generated

theorem updateAutoIncrement_phase (cfg : Config) (sid value : Nat) (s : Session) (sh : Share) :
    let f := updateAutoIncrement cfg sid value false s sh
    (f.result = .ok ∧ f.session.phase = .filled f.session.insertIdForCurRow true) ∨
      (f.result ≠ .ok ∧ f.session.phase = .between) := by
  have hstore : ∀ (nr : Nat) (append : Option Nat) (s : Session) (sh : Share), let f := storeValue cfg nr append s sh
      (f.result = .ok ∧ f.session.phase = .filled f.session.insertIdForCurRow true) ∨
        (f.result ≠ .ok ∧ f.session.phase = .between) := by
    intro nr append s sh
    unfold storeValue
    split
    · exact .inr ⟨nofun, rfl⟩
    · dsimp only
      split
      · exact .inr ⟨nofun, rfl⟩
      · exact .inl ⟨rfl, rfl⟩
  unfold updateAutoIncrement reserveValue
  rw [if_neg Bool.false_ne_true]
  split
  · split
    · exact hstore _ _ _ _
    · dsimp only
      split
      · exact .inr ⟨nofun, rfl⟩
      · exact hstore _ _ _ _
  · exact hstore _ _ _ _

/-- A step adds no value and leaves no row with a value, or it adds one value, which is its session's row's. -/
theorem step_values (h : step cfg st (sid, op) = some st')
    (hplain : ∀ v e, (st.session sid).phase = .opened v e → e = false) :
    (st'.values = st.values ∧ ∀ v, ¬(st'.session sid).Filled v) ∨
      ∃ v, st'.values = v :: st.values ∧ ∀ u, (st'.session sid).Filled u → u = v := by
  cases step_stepped h with
  | setInsertId value hp => exact .inl ⟨rfl, by simp [Session.Filled, hp]⟩
  | startStmt | openRow | leaveRow => exact .inl ⟨rfl, by simp [Session.Filled]⟩
  | fillRow value explicit hp =>
    obtain rfl := hplain _ _ hp
    rcases updateAutoIncrement_phase cfg sid value (st.session sid) st.share with ⟨hok, hphase⟩ | ⟨hno, hphase⟩
    · refine .inr ⟨(updateAutoIncrement cfg sid value false (st.session sid) st.share).session.insertIdForCurRow, ?_, ?_⟩
      · simp only [values, fillHistory, hok, if_true, Bool.false_eq_true, if_false, List.map_cons]
        split_ifs <;> rfl
      · rintro u ⟨g, hu⟩
        simp only [put, Function.update_self] at hu
        exact (Phase.filled.inj (hu.symm.trans hphase)).1
    · refine .inl ⟨?_, ?_⟩
      · simp only [values, fillHistory, hno, Bool.false_eq_true, if_false]
        split_ifs <;> rfl
      · rintro v ⟨g, hv⟩
        simp only [put, Function.update_self] at hv
        cases hv.symm.trans hphase
  | writeRow error generated value hp =>
    refine .inl ⟨?_, by simp [Session.Filled, put]⟩
    unfold values writeHistory
    split_ifs <;> rfl
  | endBulkInsert error hp => exact .inl ⟨rfl, by simp [Session.Filled, hp]⟩
  | release hp => exact .inl ⟨rfl, by simp [Session.Filled, resetAutoIncrement]⟩

/-- The counter, the cursors of lasting intervals and the values are at `b` or beyond, and no value marks an overflow. -/
structure Bounded (b : Nat) (st : State) : Prop where
  counter : b ≤ st.share.nextAutoIncVal
  cursor : ∀ i, (st.session i).nextInsertId < (st.session i).interval.max → b ≤ (st.session i).nextInsertId
  values : ∀ v ∈ st.values, b ≤ v ∧ v < ulonglongMax

theorem Bounded.put {b : Nat} {s : Session} {sh : Share} {hist : History} (h : Bounded b st)
    (hcounter : b ≤ sh.nextAutoIncVal) (hcursor : s.nextInsertId < s.interval.max → b ≤ s.nextInsertId)
    (hvalues : ∀ g ∈ hist.generated, g ∉ st.history.generated → b ≤ g.value ∧ g.value < ulonglongMax) :
    Bounded b { st.put sid s sh with history := hist } where
  counter := hcounter
  cursor i hlive := by
    rcases eq_or_ne i sid with rfl | hi
    · simp only [State.put, Function.update_self] at hlive ⊢
      exact hcursor hlive
    · simp only [State.put, Function.update_of_ne hi] at hlive ⊢
      exact h.cursor i hlive
  values v hv := by
    obtain ⟨g, hg, rfl⟩ := List.mem_map.mp hv
    by_cases hold : g ∈ st.history.generated
    · exact h.values _ (List.mem_map_of_mem hold)
    · exact hvalues g hg hold

theorem Bounded.step {b : Nat} (hsane : st.Sane) (h : Bounded b st) (hok : UniqueOk cfg st (sid, op))
    (hstep : step cfg st (sid, op) = some st') : Bounded b st' := by
  have hnone : ∀ g ∈ st.history.generated, g ∉ st.history.generated → b ≤ g.value ∧ g.value < ulonglongMax :=
    fun g hg hno => absurd hg hno
  cases (step_effect hsane hok.1 hstep).2 with
  | quiet s' sh' hid hiv hvars hnext =>
    refine h.put (h.counter.trans hnext) (fun hlive => ?_) hnone
    rw [hid, hiv] at hlive
    exact hid ▸ h.cursor sid hlive
  | skip s' value hpos hle hv hid hiv hvars =>
    refine h.put h.counter (fun hlive => ?_) hnone
    have hge := le_computeNextInsertId cfg (st.session sid).vars hv
    rw [hid, hiv] at hlive
    have hold := h.cursor sid (by omega)
    omega
  | take hlive =>
    have hb := h.cursor sid hlive
    have hlt := hlive.trans_le (Nat.le_sub_one_of_lt (hsane sid).max_lt)
    have hgt := lt_computeNextInsertId cfg (st.session sid).vars hlt
    refine h.put h.counter (fun _ => hb.trans hgt.le) fun g hg hno => ?_
    rcases List.mem_cons.mp hg with rfl | hg
    · exact ⟨hb, hlt⟩
    · exact absurd hg hno
  | reserve hres hdone hfit =>
    obtain ⟨hcounter, hstop⟩ := hfit.counter sid
    have hb := h.counter.trans hfit.1
    have hgt := lt_computeNextInsertId cfg (st.session sid).vars hfit.lt_max
    refine h.put (hcounter ▸ hb.trans hstop.le) (fun _ => hb.trans hgt.le) fun g hg hno => ?_
    rcases List.mem_cons.mp hg with rfl | hg
    · exact ⟨hb, hfit.lt_max⟩
    · exact absurd hg hno
  | write value generated error hop hp hv =>
    have hfit : st.share.nextAutoIncVal ≤ value → value + (if cfg.spiderMode then cfg.step else 1) < wordSize := by
      simpa [WriteFits, hop, hp] using hok.2.1
    refine h.put (h.counter.trans (setAutoIncrementIfHigher_raises error hfit).1) (h.cursor sid) fun g hg hno => ?_
    unfold writeHistory at hg
    split_ifs at hg <;> exact absurd hg hno
  | release hop =>
    have hcounter := releaseAutoIncrement_nextAutoIncVal sid (st.session sid) st.share
    refine h.put (le_of_le_of_eq ?_ hcounter.symm) (fun hlive => ?_) hnone
    · split_ifs with hback
      · exact h.cursor sid (hback.1.trans_le hback.2.1)
      · exact h.counter
    · simp [resetAutoIncrement, Interval.replace] at hlive

structure Closed (st : State) : Prop where
  counter : st.share.nextAutoIncVal = 0
  uninitialized : st.share.autoIncInitialized = false
  phase : ∀ i, (st.session i).phase = .outside ∨ (st.session i).phase = .between
  interval : ∀ i, (st.session i).interval.max = 0
  values : st.values = []

theorem initial_closed : Closed (initial 0 false) :=
  ⟨rfl, rfl, fun _ => .inl rfl, fun _ => rfl, rfl⟩

theorem Closed.put {s : Session} {sh : Share} (h : Closed st) (hcounter : sh.nextAutoIncVal = 0)
    (hinit : sh.autoIncInitialized = false) (hphase : s.phase = .outside ∨ s.phase = .between)
    (hmax : s.interval.max = 0) : Closed (st.put sid s sh) := by
  refine ⟨hcounter, hinit, fun i => ?_, fun i => ?_, h.values⟩
  · rcases eq_or_ne i sid with rfl | hi
    · rw [put_session_self]
      exact hphase
    · rw [put_session_of_ne hi]
      exact h.phase i
  · rcases eq_or_ne i sid with rfl | hi
    · rw [put_session_self]
      exact hmax
    · rw [put_session_of_ne hi]
      exact h.interval i

theorem Closed.step (h : Closed st) (hstep : step cfg st (sid, op) = some st')
    (hop : ∀ v e need remotes, op ≠ .openRow v e need remotes) : Closed st' := by
  have hno : ∀ {p}, (st.session sid).phase = p → p = .outside ∨ p = .between := fun hp => hp ▸ h.phase sid
  cases step_stepped hstep with
  | setInsertId value hp => exact h.put h.counter h.uninitialized (.inl hp) (h.interval sid)
  | startStmt i hp => exact h.put h.counter h.uninitialized (.inr rfl) (h.interval sid)
  | openRow value explicit need remotes hp => exact absurd rfl (hop value explicit need remotes)
  | fillRow value explicit hp | writeRow error generated value hp | leaveRow value generated hp => simpa using hno hp
  | endBulkInsert error hp =>
    refine h.put ((noteInsertError_nextAutoIncVal error).trans h.counter) ?_ (h.phase sid) (h.interval sid)
    unfold noteInsertError
    split_ifs
    · rfl
    · exact h.uninitialized
  | release hp =>
    have hback : ¬handsBack (st.session sid) st.share := fun hback => by
      have := h.counter ▸ hback.1
      omega
    refine h.put ?_ ?_ (.inl rfl) (by simp [resetAutoIncrement, Interval.replace])
    · rw [releaseAutoIncrement_nextAutoIncVal, if_neg hback]
      exact h.counter
    · unfold releaseAutoIncrement
      split_ifs <;> exact h.uninitialized

theorem Closed.openRow {value : UInt64} {explicit need : Bool} {remotes : List UInt64} (h : Closed st)
    (hstep : AutoInc.step cfg st (sid, .openRow value explicit need remotes) = some st') :
    Bounded ((remotes.map UInt64.toNat).foldl max 0) st' := by
  cases step_stepped hstep with
  | openRow _ _ _ _ hp =>
    refine ⟨?_, fun i hlive => ?_, fun v hv => ?_⟩
    · simp only [put_share, updateNextAutoIncVal, h.uninitialized, h.counter, Bool.false_and, Bool.false_eq_true,
        if_false, true_or, if_true, ite_self]
      exact le_max_right _ _
    · rcases eq_or_ne i sid with rfl | hi
      · rw [put_session_self] at hlive
        exact absurd ((h.interval i).symm ▸ hlive) (Nat.not_lt_zero _)
      · rw [put_session_of_ne hi, h.interval i] at hlive
        exact absurd hlive (Nat.not_lt_zero _)
    · have hold : v ∈ st.values := hv
      rw [h.values] at hold
      cases hold

structure Good (cfg : Config) (st : State) : Prop where
  sane : st.Sane
  refines : ∃ a : Alloc Nat, a.Inv ∧ Refines cfg st a
  generates : ∀ i v e, (st.session i).phase = .opened v e → e = false
  made : ∀ i v, (st.session i).Filled v → v ∈ st.values
  apart : ∀ i j v, i ≠ j → (st.session i).Filled v → ¬(st.session j).Filled v

theorem Refines.nodup {a : Alloc Nat} (href : Refines cfg st a) (ha : a.Inv) : st.values.Nodup := by
  unfold values
  exact href.taken ▸ ha.nodup

theorem initial_good (cfg : Config) : Good cfg (initial 0 false) where
  sane := initial_sane 0 false
  refines := ⟨.start 0, Alloc.start_inv _, rfl, rfl, rfl, fun i h => by
    simp [initial, Session.idle, Interval.replace] at h⟩
  generates i v e h := by cases h
  made i v h := by
    obtain ⟨g, h⟩ := h
    cases h
  apart i j v _ h := by
    obtain ⟨g, h⟩ := h
    cases h

def Op.Generates : Op → Prop
  | .openRow _ explicit _ _ => explicit = false
  | _ => True

theorem step_generates (h : step cfg st (sid, op) = some st') (hop : op.Generates) {v : Nat} {e : Bool}
    (hp : (st'.session sid).phase = .opened v e) : e = false := by
  cases step_stepped h with
  | setInsertId value hp' => simp [hp'] at hp
  | startStmt i hp' => simp at hp
  | openRow value explicit need remotes hp' =>
    simp only [put_session_self, Phase.opened.injEq] at hp
    exact hp.2 ▸ hop
  | fillRow value explicit hp' =>
    simp only [put, Function.update_self] at hp
    cases explicit with
    | true => simp [updateAutoIncrement] at hp
    | false =>
      rcases updateAutoIncrement_phase cfg sid value (st.session sid) st.share with ⟨-, hq⟩ | ⟨-, hq⟩ <;>
        cases hq.symm.trans hp
  | writeRow error generated value hp' => simp [put] at hp
  | leaveRow value generated hp' => simp at hp
  | endBulkInsert error hp' => simp [hp'] at hp
  | release hp' => simp [resetAutoIncrement] at hp

theorem step_values_mono (h : step cfg st (sid, op) = some st')
    (hgen : ∀ v e, (st.session sid).phase = .opened v e → e = false) {v : Nat} (hv : v ∈ st.values) : v ∈ st'.values := by
  rcases step_values h hgen with ⟨heq, -⟩ | ⟨u, hu, -⟩
  · rwa [heq]
  · rw [hu]
    exact List.mem_cons_of_mem _ hv

theorem Good.fresh (h : Good cfg st) (hok : UniqueOk cfg st (sid, op)) (hstep : step cfg st (sid, op) = some st') {v : Nat}
    (hv : (st'.session sid).Filled v) : v ∈ st'.values ∧ v ∉ st.values := by
  obtain ⟨a, ha, href⟩ := h.refines
  obtain ⟨b, hab, hb⟩ := refines_step h.sane ha href hok hstep
  have hnodup := hb.nodup (ha.steps hab)
  rcases step_values hstep (h.generates sid) with ⟨-, hno⟩ | ⟨u, hu, honly⟩
  · exact absurd hv (hno v)
  · obtain rfl := honly v hv
    rw [hu] at hnodup ⊢
    exact ⟨List.mem_cons_self, (List.nodup_cons.mp hnodup).1⟩

theorem Good.step (h : Good cfg st) (hok : UniqueOk cfg st (sid, op)) (hop : op.Generates)
    (hstep : step cfg st (sid, op) = some st') : Good cfg st' := by
  obtain ⟨a, ha, href⟩ := h.refines
  obtain ⟨b, hab, hb⟩ := refines_step h.sane ha href hok hstep
  have hother : ∀ i v, i ≠ sid → (st'.session i).Filled v → v ∈ st.values := fun i v hi hv =>
    h.made i v (step_session_of_ne hstep hi ▸ hv)
  have hself : ∀ v, (st'.session sid).Filled v → v ∈ st'.values ∧ v ∉ st.values := fun v => h.fresh hok hstep
  refine ⟨(step_effect h.sane hok.1 hstep).1, ⟨b, ha.steps hab, hb⟩, fun i v e hp => ?_, fun i v hv => ?_,
    fun i j v hij hi hj => ?_⟩
  · rcases eq_or_ne i sid with rfl | hi
    · exact step_generates hstep hop hp
    · exact h.generates i v e (step_session_of_ne hstep hi ▸ hp)
  · rcases eq_or_ne i sid with rfl | hi
    · exact (hself v hv).1
    · exact step_values_mono hstep (h.generates sid) (hother i v hi hv)
  · rcases eq_or_ne i sid with rfl | hisid
    · exact (hself v hi).2 (hother j v hij.symm hj)
    · rcases eq_or_ne j sid with rfl | hjsid
      · exact (hself v hj).2 (hother i v hij hi)
      · exact h.apart i j v hij (step_session_of_ne hstep hisid ▸ hi) (step_session_of_ne hstep hjsid ▸ hj)

theorem uniqueOk_of_quiet (cfg : Config) (st : State) (sid : Nat) (op : Op) (hset : op.isSetInsertId = false)
    (hfill : op.isFillRow = false) (hrel : op.isRelease = false) (hwrite : ∀ error, op ≠ .writeRow error) :
    UniqueOk cfg st (sid, op) := by
  have hno : ¬Reserves st (sid, op) := fun h => by
    have := h.1
    rw [hfill] at this
    cases this
  refine ⟨⟨hset, fun h => absurd h hno⟩, ?_, fun _ h => absurd h hno, fun _ h => ?_⟩
  · unfold WriteFits
    split
    · rename_i heq _
      exact absurd heq (hwrite _)
    · trivial
  · rw [hrel] at h
    cases h

end TSpider.AutoInc

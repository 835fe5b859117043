import TSpider.AutoInc.Steps

/-!
# Nodes of a cluster generate values in different residue classes

With the mode switch on, every node rounds its values to `mode_value` modulo the common step. The rounding subtracts the mode
value in unsigned arithmetic: while the counter is below `mode_value - step` the subtraction borrows and, unless the step
divides `2 ^ 64`, the result leaves the class. `ResidueOk` rules that out.
-/

namespace TSpider.AutoInc
open Lib

variable {cfg : Config} {st st' : State} {sid : Nat} {s : Session}

/-- The subtraction of the mode value does not borrow at `x`, or a borrow does no harm. -/
def Config.noBorrow (cfg : Config) (x : Nat) : Prop := cfg.step ∣ wordSize ∨ cfg.modeValue ≤ x + cfg.step

instance (cfg : Config) (x : Nat) : Decidable (cfg.noBorrow x) := by unfold Config.noBorrow; infer_instance

theorem Config.noBorrow.mono {x y : Nat} (h : cfg.noBorrow x) (hxy : x ≤ y) : cfg.noBorrow y :=
  h.imp id fun hx => hx.trans (Nat.add_le_add_right hxy _)

/-- A reservation of the step fits, and the counter it starts from is large enough for the mode value. -/
def ResidueOk (cfg : Config) (st : State) (act : Nat × Op) : Prop :=
  Fits cfg st act ∧ (Reserves st act →
    cfg.step ∣ wordSize ∨ cfg.modeValue < st.share.nextAutoIncVal + cfg.step)

instance (cfg : Config) (st : State) (act : Nat × Op) : Decidable (ResidueOk cfg st act) := by
  unfold ResidueOk; infer_instance

/-- The cursor of a session whose interval lasts is in the class and above the numbers that borrow. -/
def Session.InClass (cfg : Config) (s : Session) : Prop :=
  s.nextInsertId < s.interval.max → s.nextInsertId ≡ cfg.modeValue [MOD cfg.step] ∧ cfg.noBorrow s.nextInsertId

structure NodeInClass (cfg : Config) (st : State) : Prop where
  sane : st.Sane
  cursor : ∀ i, (st.session i).InClass cfg
  values : ∀ g ∈ st.history.generated, g.value ≡ cfg.modeValue [MOD cfg.step]

theorem firstValue_modEq {next : Nat} (hsp : cfg.spiderMode = true)
    (hmode : cfg.step ∣ wordSize ∨ cfg.modeValue < next + cfg.step) (hfit : ReserveFits cfg s next) :
    firstValue cfg s.vars next ≡ cfg.modeValue [MOD cfg.step] := by
  have hstep := cfg.step_range
  rw [firstValue, roundFirst_spider hsp]
  simp only [roundCounter, hsp, if_true]
  refine snap_modEq hstep.1 (hmode.imp id fun hlt => ⟨by omega, ?_⟩)
  have hmul : cfg.step ≤ nbDesiredValues s * cfg.increment s.vars := by
    have := Nat.mul_le_mul_right cfg.step (one_le_nbDesiredValues s)
    simpa [Config.increment, hsp] using this
  have h1 := hfit.1
  have h2 := hfit.2.1
  omega

theorem inClass_computeNext {nr : Nat} (hsp : cfg.spiderMode = true) (hmax : s.interval.max < wordSize)
    (hnr : nr < wordSize) (hb : cfg.noBorrow nr) (hid : s.nextInsertId = computeNextInsertId cfg s.vars nr) :
    s.InClass cfg := by
  intro hlive
  have hne : computeNextInsertId cfg s.vars nr ≠ ulonglongMax := by
    unfold ulonglongMax
    omega
  refine ⟨hid ▸ computeNextInsertId_modEq hsp hnr hb hne, hb.mono ?_⟩
  have hlt := (computeNextInsertId_spider hsp hne).2
  rw [← (computeNextInsertId_spider hsp hne).1] at hlt
  omega

theorem NodeInClass.put (h : NodeInClass cfg st) {sh : Share} {hist : History}
    (hsane : State.Sane { st.put sid s sh with history := hist }) (hs : s.InClass cfg)
    (hg : ∀ g ∈ hist.generated, g.value ≡ cfg.modeValue [MOD cfg.step]) :
    NodeInClass cfg { st.put sid s sh with history := hist } where
  sane := hsane
  cursor i := by
    rcases eq_or_ne i sid with rfl | hi
    · simpa [State.put] using hs
    · simpa [State.put, Function.update_of_ne hi] using h.cursor i
  values := hg

/-- **A step keeps the class.** -/
theorem NodeInClass.step {op : Op} (hsp : cfg.spiderMode = true) (h : NodeInClass cfg st)
    (hok : ResidueOk cfg st (sid, op)) (hstep : step cfg st (sid, op) = some st') : NodeInClass cfg st' := by
  obtain ⟨hsane, heff⟩ := step_effect h.sane hok.1 hstep
  cases heff with
  | quiet s' sh' hid hiv hvars hnext =>
    refine h.put hsane ?_ h.values
    intro hlive
    rw [hid, hiv] at hlive
    rw [hid]
    exact h.cursor sid hlive
  | skip s' value hpos hle hv hid hiv hvars =>
    refine h.put hsane ?_ h.values
    intro hlive
    rw [hiv] at hlive
    -- the cursor was in the class only while the interval lasted; beyond it the new cursor is beyond it too
    have hmax := (h.sane sid).max_lt
    rcases lt_or_ge (st.session sid).nextInsertId (st.session sid).interval.max with hold | hold
    · have hb := (h.cursor sid hold).2.mono hle
      exact inClass_computeNext hsp (hiv ▸ hmax) hv hb (by rw [hid, hvars]) (by rwa [hiv])
    · have hge := le_computeNextInsertId cfg (st.session sid).vars hv
      omega
  | take hlive =>
    obtain ⟨hmod, hb⟩ := h.cursor sid hlive
    have hmax := (h.sane sid).max_lt
    refine h.put hsane (inClass_computeNext hsp hmax (hlive.trans hmax) hb rfl) ?_
    rintro g (_ | ⟨_, hg⟩)
    · exact hmod
    · exact h.values g hg
  | reserve hres hdone hfit =>
    have hmode := hok.2 hres
    have hmod := firstValue_modEq hsp hmode hfit
    have hb := Config.noBorrow.mono (hmode.imp id fun hlt => hlt.le) hfit.1
    refine h.put hsane (inClass_computeNext hsp (Interval.replace_max_lt _ _ _) ?_ hb rfl) ?_
    · have := hfit.2.1
      omega
    · rintro g (_ | ⟨_, hg⟩)
      · exact hmod
      · exact h.values g hg
  | write value generated error hop hp hv =>
    refine h.put hsane (h.cursor sid) ?_
    unfold State.writeHistory
    split_ifs <;> exact h.values
  | release hop =>
    refine h.put hsane (fun hlive => ?_) h.values
    simp [resetAutoIncrement, Interval.replace] at hlive

theorem initial_sane (next : UInt64) (initialized : Bool) : (State.initial next initialized).Sane := by
  intro i
  constructor <;> simp [State.initial, Session.idle, Interval.replace, ulonglongMax, wordSize]

theorem initial_inClass (next : UInt64) (initialized : Bool) : NodeInClass cfg (State.initial next initialized) where
  sane := initial_sane next initialized
  cursor i h := by simp [State.initial, Session.idle, Interval.replace] at h
  values g hg := by cases hg

/-! ## Clusters -/

section Cluster

variable {ι : Type*} [DecidableEq ι]

/-- One step of one session of one node; the nodes share nothing but the values the partitions report to them. -/
def clusterStep (cfg : ι → Config) (nodes : ι → State) (act : ι × Nat × Op) : Option (ι → State) :=
  (step (cfg act.1) (nodes act.1) act.2).map (Function.update nodes act.1)

def clusterStart (next : ι → UInt64) (initialized : ι → Bool) : ι → State :=
  fun i => State.initial (next i) (initialized i)

theorem clusterStep_inClass {cfg : ι → Config} (hsp : ∀ i, (cfg i).spiderMode = true) {nodes nodes' : ι → State}
    {act : ι × Nat × Op} (h : ∀ i, NodeInClass (cfg i) (nodes i)) (hok : ResidueOk (cfg act.1) (nodes act.1) act.2)
    (hstep : clusterStep cfg nodes act = some nodes') : ∀ i, NodeInClass (cfg i) (nodes' i) := by
  obtain ⟨n, sid, op⟩ := act
  obtain ⟨st', hst', rfl⟩ := Option.map_eq_some_iff.mp hstep
  intro i
  rcases eq_or_ne i n with rfl | hi
  · simpa using (h i).step (hsp i) hok hst'
  · simpa [Function.update_of_ne hi] using h i

end Cluster

def Config.bigint (s m : Nat) (hs : 1 ≤ s ∧ s ≤ 64) (hm : m ≤ 128) : Config :=
  ⟨true, true, s, m, true, ulonglongMax, hs, hm⟩

def StmtInfo.insert (n : Nat) : StmtInfo := ⟨⟨1, 1, one_range, one_range⟩, n, n, true, false⟩

def insertOne (sid : Nat) (remote : UInt64) : List (Nat × Op) :=
  [(sid, .startStmt (.insert 1)), (sid, .openRow 0 false true [remote]), (sid, .fillRow), (sid, .writeRow false),
    (sid, .release)]

theorem step_range_17 : 1 ≤ 17 ∧ 17 ≤ 64 := by decide

def twoNodes (m : Nat) (hm : m ≤ 128) : Bool → Config :=
  fun i => .bigint 17 (if i then 2 else m) step_range_17 (by split <;> omega)

def twoInserts : List (Bool × Nat × Op) := (insertOne 0 1).map (false, ·) ++ (insertOne 0 1).map (true, ·)

end TSpider.AutoInc

import TSpider.AutoInc.Residue
import TSpider.Lib.Allocator

/-!
# No value is generated twice on one node

The sessions of a node refine the interval allocator: the shared counter is its counter, a session's cursor and interval
its client's interval, `release_auto_increment` its hand-back (`refines_step`). Uniqueness is the allocator's
(`generated_nodup`).
-/

namespace TSpider.AutoInc
open Lib

variable {cfg : Config} {st st' : State} {sid : Nat} {s : Session}

/-- Nothing wraps; without the mode switch a session that reserves has an offset within its increment, and one that hands
values back was the last to reserve. -/
def UniqueOk (cfg : Config) (st : State) (act : Nat × Op) : Prop :=
  Fits cfg st act ∧ WriteFits cfg st act ∧
  (cfg.spiderMode = false → Reserves st act →
    (st.session act.1).vars.offset ≤ (st.session act.1).vars.increment) ∧
  (cfg.spiderMode = false → act.2.isRelease = true → handsBack (st.session act.1) st.share →
    st.history.lastReserver = some act.1)

instance (cfg : Config) (st : State) (act : Nat × Op) : Decidable (UniqueOk cfg st act) := by
  unfold UniqueOk; infer_instance

/-! ## Refinement -/

/-- While its interval lasts, a session's cursor is the left end `lo` of its client's interval; it ends at `hi`, or without
the mode switch less than one increment beyond it in the cursor's class. -/
def CursorIn (cfg : Config) (s : Session) (lo hi : Nat) : Prop :=
  s.nextInsertId < s.interval.max → lo = s.nextInsertId ∧
    (cfg.spiderMode = true → s.interval.max = hi) ∧
    (cfg.spiderMode = false → s.vars.offset ≤ s.vars.increment ∧ s.interval.max < hi + s.vars.increment ∧
      s.interval.max ≡ s.vars.offset [MOD s.vars.increment] ∧ s.nextInsertId ≡ s.vars.offset [MOD s.vars.increment])

theorem CursorIn.lt {lo hi : Nat} (h : CursorIn cfg s lo hi) (hlive : s.nextInsertId < s.interval.max) :
    s.nextInsertId < hi := by
  obtain ⟨-, hspider, hplain⟩ := h hlive
  cases hsp : cfg.spiderMode with
  | true => exact hspider hsp ▸ hlive
  | false =>
    obtain ⟨-, hmax, hmod, hmod'⟩ := hplain hsp
    have := (hmod'.trans hmod.symm).add_le_of_lt hlive
    omega

structure Refines (cfg : Config) (st : State) (a : Alloc Nat) : Prop where
  counter : a.counter = st.share.nextAutoIncVal
  taken : a.taken = st.history.generated.map Generated.value
  last : a.last = st.history.lastReserver
  cursor : ∀ i, CursorIn cfg (st.session i) (a.lo i) (a.hi i)

theorem CursorIn.advance (s' : Session) {lo hi nr : Nat} (h : CursorIn cfg s lo hi)
    (hlive : s.nextInsertId < s.interval.max) (hmax : s.interval.max < wordSize) (hnr : nr < wordSize)
    (hid : s'.nextInsertId = computeNextInsertId cfg s.vars nr) (hiv : s'.interval = s.interval)
    (hvars : s'.vars = s.vars) : CursorIn cfg s' (computeNextInsertId cfg s.vars nr) hi := by
  intro hlive'
  obtain ⟨-, hspider, hplain⟩ := h hlive
  rw [hiv] at hlive'
  refine ⟨hid.symm, fun hsp => hiv ▸ hspider hsp, fun hsp => ?_⟩
  obtain ⟨hoff, hlt, hmod, -⟩ := hplain hsp
  have hne : computeNextInsertId cfg s.vars nr ≠ ulonglongMax := by
    unfold ulonglongMax
    omega
  rw [hiv, hvars, hid]
  exact ⟨hoff, hlt, hmod, computeNextInsertId_modEq_offset hsp hnr hoff hne⟩

theorem cursorIn_put {sh : Share} {hist : History} {lo hi : Nat → Nat}
    (h : ∀ i ≠ sid, CursorIn cfg (st.session i) (lo i) (hi i)) (hs : CursorIn cfg s (lo sid) (hi sid)) (i : Nat) :
    CursorIn cfg (State.session { st.put sid s sh with history := hist } i) (lo i) (hi i) := by
  rcases eq_or_ne i sid with rfl | hi
  · simpa [State.put] using hs
  · simpa [State.put, Function.update_of_ne hi] using h i hi

theorem reserve_cursorIn {next : Nat} (hfit : ReserveFits cfg s next)
    (hoff : cfg.spiderMode = false → s.vars.offset ≤ s.vars.increment) :
    CursorIn cfg ((s.reserved cfg (firstValue cfg s.vars next)).took cfg (firstValue cfg s.vars next))
      (computeNextInsertId cfg s.vars (firstValue cfg s.vars next))
      (roundCounter cfg next + nbDesiredValues s * cfg.increment s.vars) := by
  obtain ⟨hge, hlt, heq⟩ := reserve_bounds hfit
  obtain ⟨hle, hend, hcol⟩ := hfit
  have hmaxEq := Interval.replace_max_eq (cfg.one_le_increment s.vars) hend
  intro hlive
  simp only [Session.took, Session.reserved, hmaxEq] at hlive ⊢
  refine ⟨trivial, fun hsp => by rw [heq hsp], fun hsp => ?_⟩
  have hincr : cfg.increment s.vars = s.vars.increment := by simp [Config.increment, hsp]
  rw [hincr] at hlive hlt hend ⊢
  have hne : ∀ x, computeNextInsertId cfg s.vars x < wordSize - 1 → computeNextInsertId cfg s.vars x ≠ ulonglongMax :=
    fun x hx h => by unfold ulonglongMax at h; omega
  have hfirst : firstValue cfg s.vars next ≡ s.vars.offset [MOD s.vars.increment] := by
    have hpos := Nat.mul_le_mul_right s.vars.increment (one_le_nbDesiredValues s)
    have hval : firstValue cfg s.vars next = computeNextInsertId cfg s.vars
        ((roundCounter cfg next + wordSize - 1) % wordSize) := by simp [firstValue, roundFirst, hsp]
    rw [hval]
    exact computeNextInsertId_modEq_offset hsp (Nat.mod_lt _ (by decide)) (hoff hsp) (hne _ (by rw [← hval]; omega))
  refine ⟨hoff hsp, by omega, ?_, computeNextInsertId_modEq_offset hsp (by omega) (hoff hsp) (hne _ (by omega))⟩
  simpa [Nat.ModEq] using hfirst

/-- The allocator can run from `a` to a state that `st` refines. -/
def Follows (cfg : Config) (a : Alloc Nat) (st : State) : Prop :=
  ∃ b, Relation.ReflTransGen Alloc.Step a b ∧ Refines cfg st b

section Refines

variable {a : Alloc Nat} (h : Refines cfg st a)
include h

theorem Refines.quiet {s' : Session} {sh' : Share} (hid : s'.nextInsertId = (st.session sid).nextInsertId)
    (hiv : s'.interval = (st.session sid).interval)
    (hvars : s'.vars = (st.session sid).vars ∨ (st.session sid).interval.max ≤ (st.session sid).nextInsertId)
    (hnext : st.share.nextAutoIncVal ≤ sh'.nextAutoIncVal) : Follows cfg a (st.put sid s' sh') := by
  refine ⟨_, .single (.raise a sh'.nextAutoIncVal (h.counter ▸ hnext)), rfl, h.taken, h.last, ?_⟩
  refine cursorIn_put (fun i _ => h.cursor i) ?_
  intro hlive
  rw [hid, hiv] at hlive
  rcases hvars with hvars | hdone
  · rw [hid, hiv, hvars]
    exact h.cursor sid hlive
  · omega

theorem Refines.skip (hmax : (st.session sid).interval.max < wordSize) {s' : Session} {value : Nat}
    (hle : (st.session sid).nextInsertId ≤ value) (hv : value < wordSize)
    (hid : s'.nextInsertId = computeNextInsertId cfg (st.session sid).vars value)
    (hiv : s'.interval = (st.session sid).interval) (hvars : s'.vars = (st.session sid).vars) :
    Follows cfg a (st.put sid s' st.share) := by
  have hge := le_computeNextInsertId cfg (st.session sid).vars hv
  rcases lt_or_ge (st.session sid).nextInsertId (st.session sid).interval.max with hlive | hdone
  · have hlo := (h.cursor sid hlive).1
    refine ⟨_, .single (.skip a sid (computeNextInsertId cfg (st.session sid).vars value) (by omega)), h.counter,
      h.taken, h.last, cursorIn_put (fun i hi => ?_) ?_⟩
    · simpa [Function.update_of_ne hi] using h.cursor i
    · simpa using (h.cursor sid).advance s' hlive hmax hv hid hiv hvars
  · -- beyond the interval already, and further beyond it now
    refine ⟨a, .refl, h.counter, h.taken, h.last, cursorIn_put (fun i _ => h.cursor i) fun hlive => ?_⟩
    rw [hiv, hid] at hlive
    omega

theorem Refines.take (hmax : (st.session sid).interval.max < wordSize)
    (hlive : (st.session sid).nextInsertId < (st.session sid).interval.max) (before : List Nat) :
    Follows cfg a { st.put sid ((st.session sid).took cfg (st.session sid).nextInsertId) st.share with
      history := { st.history with
        generated := ⟨(st.session sid).nextInsertId, before⟩ :: st.history.generated } } := by
  have hlo := (h.cursor sid hlive).1
  have hhi := (h.cursor sid).lt hlive
  have hgt : (st.session sid).nextInsertId <
      computeNextInsertId cfg (st.session sid).vars (st.session sid).nextInsertId :=
    lt_computeNextInsertId cfg _ (hlive.trans_le (Nat.le_sub_one_of_lt hmax))
  refine ⟨_, .single (.take a sid (computeNextInsertId cfg (st.session sid).vars (st.session sid).nextInsertId)
    (hlo ▸ hhi) (by omega)), h.counter, ?_, h.last, cursorIn_put (fun i hi => ?_) ?_⟩
  · simp [h.taken, hlo]
  · simpa [Function.update_of_ne hi] using h.cursor i
  · simpa using (h.cursor sid).advance ((st.session sid).took cfg (st.session sid).nextInsertId) hlive hmax
      (hlive.trans hmax) rfl rfl rfl

/-- The allocator reserves and takes the first value at once. -/
theorem Refines.reserve (hoff : cfg.spiderMode = false → (st.session sid).vars.offset ≤ (st.session sid).vars.increment)
    (hfit : ReserveFits cfg (st.session sid) st.share.nextAutoIncVal) (before done : List Nat)
    (reservation : Nat → Reservation) :
    Follows cfg a { st.put sid (((st.session sid).reserved cfg (firstValue cfg (st.session sid).vars
          st.share.nextAutoIncVal)).took cfg (firstValue cfg (st.session sid).vars st.share.nextAutoIncVal))
        (getAutoIncrement cfg sid (nbDesiredValues (st.session sid)) (st.session sid) st.share).2 with
      history :=
        { generated := ⟨firstValue cfg (st.session sid).vars st.share.nextAutoIncVal, before⟩ :: st.history.generated
          explicitDone := done, reservation := reservation, lastReserver := some sid } } := by
  have hcur := reserve_cursorIn hfit hoff
  obtain ⟨hcounter, hstop⟩ := hfit.counter sid
  have hgt := lt_computeNextInsertId cfg (st.session sid).vars hfit.lt_max
  refine ⟨_, .head (.reserve a sid (firstValue cfg (st.session sid).vars st.share.nextAutoIncVal)
      (roundCounter cfg st.share.nextAutoIncVal +
        nbDesiredValues (st.session sid) * cfg.increment (st.session sid).vars)
      (h.counter ▸ hfit.1) hstop)
    (.single (.take _ sid (computeNextInsertId cfg (st.session sid).vars
      (firstValue cfg (st.session sid).vars st.share.nextAutoIncVal)) ?_ ?_)), ?_, ?_, rfl, ?_⟩
  · simpa using hstop
  · simpa using hgt
  · exact hcounter.symm
  · simp [h.taken]
  · refine cursorIn_put (fun i hi => ?_) ?_
    · simpa [Function.update_of_ne hi] using h.cursor i
    · simpa using hcur

theorem Refines.write {value : Nat} (generated error : Bool)
    (hfit : st.share.nextAutoIncVal ≤ value → value + (if cfg.spiderMode then cfg.step else 1) < wordSize) :
    Follows cfg a { st.put sid { st.session sid with phase := .between }
        (setAutoIncrementIfHigher cfg value error st.share) with
      history := st.writeHistory cfg value generated error } := by
  refine ⟨_, .single (.raise a _ (h.counter ▸ (setAutoIncrementIfHigher_raises error hfit).1)), rfl, ?_, ?_,
    cursorIn_put (fun i _ => h.cursor i) (h.cursor sid)⟩
  · unfold State.writeHistory
    split_ifs <;> exact h.taken
  · unfold State.writeHistory
    split_ifs <;> exact h.last

theorem Refines.release (ha : a.Inv)
    (hlast : cfg.spiderMode = false → handsBack (st.session sid) st.share → st.history.lastReserver = some sid) :
    Follows cfg a (st.put sid (resetAutoIncrement (st.session sid))
      (releaseAutoIncrement sid (st.session sid) st.share)) := by
  have hreset : ∀ lo hi, CursorIn cfg (resetAutoIncrement (st.session sid)) lo hi := by
    intro lo hi hlive
    simp [resetAutoIncrement, Interval.replace] at hlive
  by_cases hback : handsBack (st.session sid) st.share
  · have hlive : (st.session sid).nextInsertId < (st.session sid).interval.max := hback.1.trans_le hback.2.1
    obtain ⟨hlo, hspider, -⟩ := h.cursor sid hlive
    have hhi : a.lo sid < a.hi sid := hlo ▸ (h.cursor sid).lt hlive
    have htop : a.hi sid = a.counter ∨ a.last = some sid := by
      cases hsp : cfg.spiderMode with
      | true =>
        have h1 := hspider hsp
        have h2 := ha.hi_le sid hhi
        have h3 := h.counter
        have h4 := hback.2.1
        omega
      | false => exact .inr (h.last.trans (hlast hsp hback))
    refine ⟨_, .single (.handBack a sid hhi htop), ?_, h.taken, h.last, cursorIn_put (fun i hi => ?_) (hreset _ _)⟩
    · simp [releaseAutoIncrement_nextAutoIncVal, hback, hlo]
    · simpa [Function.update_of_ne hi] using h.cursor i
  · refine ⟨a, .refl, ?_, h.taken, h.last, cursorIn_put (fun i _ => h.cursor i) (hreset _ _)⟩
    simpa [releaseAutoIncrement_nextAutoIncVal, hback] using h.counter

end Refines

/-- **Refinement.** Every step of a node is a run of the allocator. -/
theorem refines_step {op : Op} {a : Alloc Nat} (hsane : st.Sane) (ha : a.Inv) (h : Refines cfg st a)
    (hok : UniqueOk cfg st (sid, op)) (hstep : step cfg st (sid, op) = some st') : Follows cfg a st' := by
  obtain ⟨hfits, hwrite, hoff, hlast⟩ := hok
  have hmax := (hsane sid).max_lt
  cases (step_effect hsane hfits hstep).2 with
  | quiet s' sh' hid hiv hvars hnext => exact h.quiet hid hiv hvars hnext
  | skip s' value hpos hle hv hid hiv hvars => exact h.skip hmax hle hv hid hiv hvars
  | take hlive => exact h.take hmax hlive _
  | reserve hres hdone hfit => exact h.reserve (fun hsp => hoff hsp hres) hfit _ _ _
  | write value generated error hop hp hv => exact h.write generated error (by simpa [WriteFits, hop, hp] using hwrite)
  | release hop => exact h.release ha fun hsp => hlast hsp hop

/-! ## Uniqueness -/

def generateRow (sid : Nat) (remote : UInt64) : List (Nat × Op) :=
  [(sid, .openRow 0 false false [remote]), (sid, .fillRow), (sid, .writeRow false)]

/-- With the mode switch on, 0 reserves three values and uses one, 1 reserves after it; then 1 gives back what it did not use
and 0 generates again. -/
def twoSessions : List (Nat × Op) :=
  [(0, .startStmt (.insert 3)), (1, .startStmt (.insert 2))] ++ generateRow 0 1 ++ generateRow 1 1 ++
    [(0, .release), (1, .release)] ++ insertOne 0 1

/-- A statement of `n` rows in a session with the given increment and offset. -/
def StmtInfo.stepped (n incr off : Nat) (hi : 1 ≤ incr ∧ incr ≤ 65535) (ho : 1 ≤ off ∧ off ≤ 65535) : StmtInfo :=
  ⟨⟨incr, off, hi, ho⟩, n, n, true, false⟩

theorem mode_range_1 : 1 ≤ 128 := by decide

def Config.plain : Config := ⟨false, true, 17, 1, true, ulonglongMax, step_range_17, mode_range_1⟩

/-- Session 0 (increment 10, offset 5) reserves [5, 25), session 1 takes 21. Session 0 lowers the counter to 15, as its
interval reaches beyond 22. -/
def foreignTail : List (Nat × Op) :=
  [(0, .startStmt (.stepped 2 10 5 (by decide) (by decide)))] ++ generateRow 0 1 ++ insertOne 1 1 ++
    [(0, .release), (2, .startStmt (.insert 7))] ++ (List.replicate 7 (generateRow 2 1)).flatten ++ [(2, .release)]

def Session.Reserved (s : Session) (v : Nat) : Prop := s.nextInsertId ≤ v ∧ v < s.interval.max

end TSpider.AutoInc

import TSpider.AutoInc.Residue

/-!
# Explicit values and later reservations

An insert with an explicit value raises the counter beyond it, if the counter is not there yet. A session that releases an
interval lowers the counter to its cursor, and does not know of explicit values inside what it gives back: a later
reservation generates them again. In runs where no completed explicit value lies in what is
given back, and nothing wraps, an interval reserved after the completion never yields the value
(`generated_not_explicit`).
-/

namespace TSpider.AutoInc
open Lib

variable {cfg : Config} {st st' : State} {sid : Nat}

/-- Nothing wraps, and a session that lowers the counter does not give back a completed explicit value. -/
def ExplicitOk (cfg : Config) (st : State) (act : Nat × Op) : Prop :=
  Fits cfg st act ∧ WriteFits cfg st act ∧
  (act.2.isRelease = true → handsBack (st.session act.1) st.share →
    ∀ v ∈ st.history.explicitDone, ¬((st.session act.1).nextInsertId ≤ v ∧ v < st.share.nextAutoIncVal))

instance (cfg : Config) (st : State) (act : Nat × Op) : Decidable (ExplicitOk cfg st act) := by
  unfold ExplicitOk; infer_instance

/-- While the interval of `i` lasts, its cursor is beyond the explicit values completed before its reservation. -/
def CursorBeyond (st : State) (i : Nat) : Prop :=
  (st.session i).nextInsertId < (st.session i).interval.max →
    ∀ v ∈ (st.history.reservation i).explicitBefore, v < (st.session i).nextInsertId

/-- Completed explicit values are below the counter, and below the cursors of the intervals reserved after them. -/
structure ExplicitInv (st : State) : Prop where
  sane : st.Sane
  done_lt : ∀ v ∈ st.history.explicitDone, v < st.share.nextAutoIncVal
  cursor : ∀ i, CursorBeyond st i
  values : ∀ g ∈ st.history.generated, g.value ∉ g.explicitBefore

theorem cursorBeyond_put {s : Session} {sh : Share} {hist : History} (h : ∀ i, CursorBeyond st i)
    (hres : ∀ i ≠ sid, hist.reservation i = st.history.reservation i)
    (hs : s.nextInsertId < s.interval.max → ∀ v ∈ (hist.reservation sid).explicitBefore, v < s.nextInsertId) (i : Nat) :
    CursorBeyond { st.put sid s sh with history := hist } i := by
  rcases eq_or_ne i sid with rfl | hi
  · simpa [CursorBeyond, State.put] using hs
  · simpa [CursorBeyond, State.put, Function.update_of_ne hi, hres i hi] using h i

/-- **A step keeps the explicit values behind.** -/
theorem ExplicitInv.step {op : Op} (h : ExplicitInv st) (hok : ExplicitOk cfg st (sid, op))
    (hstep : step cfg st (sid, op) = some st') : ExplicitInv st' := by
  obtain ⟨hfits, hwrite, hback⟩ := hok
  obtain ⟨hsane, heff⟩ := step_effect h.sane hfits hstep
  cases heff with
  | quiet s' sh' hid hiv hvars hnext =>
    refine ⟨hsane, fun v hv => (h.done_lt v hv).trans_le hnext, cursorBeyond_put h.cursor (fun _ _ => rfl) ?_, h.values⟩
    rw [hid, hiv]
    exact h.cursor sid
  | skip s' value hpos hle hv hid hiv hvars =>
    refine ⟨hsane, h.done_lt, cursorBeyond_put h.cursor (fun _ _ => rfl) fun hlive v hmem => ?_, h.values⟩
    have hge := le_computeNextInsertId cfg (st.session sid).vars hv
    rw [hid, hiv] at hlive
    rw [hid]
    exact (h.cursor sid (by omega) v hmem).trans_le (hle.trans hge)
  | take hlive =>
    have hbefore := h.cursor sid hlive
    have hgt := lt_computeNextInsertId cfg (st.session sid).vars
      (hlive.trans_le (Nat.le_sub_one_of_lt (h.sane sid).max_lt))
    refine ⟨hsane, h.done_lt, cursorBeyond_put h.cursor (fun _ _ => rfl) fun _ v hmem => ?_, ?_⟩
    · exact (hbefore v hmem).trans hgt
    · rintro g (_ | ⟨_, hg⟩)
      · exact fun hmem => lt_irrefl _ (hbefore _ hmem)
      · exact h.values g hg
  | reserve hres hdone hfit =>
    obtain ⟨hcounter, hstop⟩ := hfit.counter sid
    have hgt := lt_computeNextInsertId cfg (st.session sid).vars hfit.lt_max
    have hfirst :=  fun v hv => (h.done_lt v hv).trans_le hfit.1
    refine ⟨hsane, fun v hv => ?_, cursorBeyond_put h.cursor (fun i hi => Function.update_of_ne hi _ _) ?_, ?_⟩
    · exact ((hfirst v hv).trans hstop).trans_eq hcounter.symm
    · simp only [Function.update_self, State.newReservation]
      exact fun _ v hv => (hfirst v hv).trans hgt
    · rintro g (_ | ⟨_, hg⟩)
      · exact fun hmem => lt_irrefl _ (hfirst _ hmem)
      · exact h.values g hg
  | write value generated error hop hp hv =>
    have hfit : st.share.nextAutoIncVal ≤ value → value + (if cfg.spiderMode then cfg.step else 1) < wordSize := by
      simpa [WriteFits, hop, hp] using hwrite
    obtain ⟨hle, hgt⟩ := setAutoIncrementIfHigher_raises error hfit
    have hold :=  fun v hv => (h.done_lt v hv).trans_le hle
    refine ⟨hsane, ?_, cursorBeyond_put h.cursor ?_ ?_, ?_⟩
    all_goals unfold State.writeHistory; split_ifs with hdone
    · rintro v (_ | ⟨_, hv⟩)
      · exact hgt hdone.2.2.2
      · exact hold v hv
    · exact hold
    · exact fun _ _ => rfl
    · exact fun _ _ => rfl
    · exact h.cursor sid
    · exact h.cursor sid
    · exact h.values
    · exact h.values
  | release hop =>
    refine ⟨hsane, fun v hv => ?_, cursorBeyond_put h.cursor (fun _ _ => rfl) fun hlive => ?_, h.values⟩
    · have hlt := h.done_lt v hv
      simp only [State.put_share, releaseAutoIncrement_nextAutoIncVal]
      split_ifs with hb
      · have := hback hop hb v hv
        dsimp only at this
        omega
      · exact hlt
    · simp [resetAutoIncrement, Interval.replace] at hlive

def insertExplicit (sid : Nat) (v remote : UInt64) : List (Nat × Op) :=
  [(sid, .startStmt (.insert 1)), (sid, .openRow v true true [remote]), (sid, .fillRow), (sid, .writeRow false),
    (sid, .release)]

/-- Session 0 plans three rows and writes one, session 1 inserts an explicit value, session 0 goes on; session 2 generates. -/
def explicitMeanwhile (v : UInt64) : List (Nat × Op) :=
  [(0, .startStmt (.insert 3)), (0, .openRow 0 false true [1]), (0, .fillRow), (0, .writeRow false)] ++
    insertExplicit 1 v 1 ++
    [(0, .openRow 0 false false [36]), (0, .fillRow), (0, .writeRow false), (0, .release)] ++ insertOne 2 36

end TSpider.AutoInc

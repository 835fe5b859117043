import TSpider.AutoInc.Rows
import TSpider.AutoInc.Versions

/-!
# Stored values across FLUSH TABLES WITH NO BLOCK

Across versions the values are separated by the first value of the later counter: it is beyond everything stored, and a
statement of an older version sends nothing any more. So only rows that were already on their way when the later counter was
initialised can reach beyond it. `stored_nodup` : where there are none, no value is stored twice.
-/

namespace TSpider.AutoInc.Versions
open Lib Function List

variable {t : Table} {n m : Node} {sid : Nat}

/-! ## What the partitions report -/

theorem le_foldl_max {l : List Nat} {x a : Nat} (h : x ≤ a ∨ x ∈ l) : x ≤ l.foldl max a := by
  induction l generalizing a with
  | nil => simpa using h
  | cons y l ih =>
    refine ih ?_
    rcases h with h | h
    · exact .inl (h.trans (le_max_left _ _))
    · rcases mem_cons.mp h with rfl | h
      · exact .inl (le_max_right _ _)
      · exact .inr h

theorem foldl_max_lt {l : List Nat} {k a : Nat} (ha : a < k) (h : ∀ x ∈ l, x < k) : l.foldl max a < k := by
  induction l generalizing a with
  | nil => exact ha
  | cons y l ih =>
    exact ih (max_lt ha (h y mem_cons_self)) fun x hx => h x (mem_cons_of_mem _ hx)

theorem lt_remotes (hsmall : ∀ r ∈ n.stored, r.value < ulonglongMax) {r : Row} (hr : r ∈ n.stored)
    (hpart : r.part < t.parts) : r.value < ((n.remotes t).map UInt64.toNat).foldl max 0 := by
  have hlargest : n.largest r.part < ulonglongMax := by
    refine foldl_max_lt (by decide) fun x hx => ?_
    obtain ⟨q, hq, rfl⟩ := mem_map.mp hx
    exact hsmall q (mem_filter.mp hq).1
  have hle : r.value ≤ n.largest r.part :=
    le_foldl_max (.inr (mem_map_of_mem (mem_filter.mpr ⟨hr, by simp⟩)))
  have hnat : (UInt64.ofNat (n.largest r.part + 1)).toNat = n.largest r.part + 1 := by
    refine UInt64.toNat_ofNat_of_lt' ?_
    have : ulonglongMax < UInt64.size := by decide
    omega
  have hmem : n.largest r.part + 1 ∈ (n.remotes t).map UInt64.toNat :=
    mem_map.mpr ⟨_, mem_map.mpr ⟨r.part, mem_range.mpr hpart, rfl⟩, hnat⟩
  exact Nat.lt_of_lt_of_le (Nat.lt_succ_of_le hle) (le_foldl_max (.inr hmem))

/-! ## The invariant -/

/-- The generator of version `w` has not begun, or it is beyond every row of an older version. -/
def Barrier (rows : List Row) (w : Nat) (st : State) : Prop :=
  Closed st ∨ ∃ b, Bounded b st ∧ ∀ r ∈ rows, r.version < w → r.value < b

/-- What every run keeps. `unsent` : a value without its check is not the value of a row of its version that was sent. -/
structure Inv (t : Table) (n : Node) : Prop where
  stmt_le : ∀ i, n.flushNoBlockVersion i ≤ n.version
  good : ∀ w, Good t.toConfig (n.opened w)
  future : ∀ w, n.version < w → Closed (n.opened w)
  barrier : ∀ w, Barrier n.rows w (n.opened w)
  row_le : ∀ r ∈ n.rows, r.version ≤ n.version ∧ r.part < t.parts
  row_made : ∀ r ∈ n.rows, r.value ∈ (n.opened r.version).values
  once : (n.rows.map fun r => (r.version, r.value)).Nodup
  unsent : ∀ i v, ((n.current i).session i).Filled v → n.checked i = false →
    ∀ r ∈ n.rows, r.version = n.flushNoBlockVersion i → r.value ≠ v

theorem initial_inv (t : Table) : Inv t .initial where
  stmt_le _ := le_rfl
  good _ := initial_good t.toConfig
  future _ _ := initial_closed
  barrier _ := .inl initial_closed
  row_le := nofun
  row_made := nofun
  once := nodup_nil
  unsent := nofun

theorem Inv.value_lt (h : Inv t n) {w v : Nat} (hv : v ∈ (n.opened w).values) : v < ulonglongMax := by
  rcases h.barrier w with hclosed | ⟨b, hb, -⟩
  · rw [hclosed.values] at hv
    cases hv
  · exact (hb.values v hv).2

/-- **Step of a generator.** A step of a session in the generator of its statement, with the barrier it leaves. -/
theorem Inv.put {op : AutoInc.Op} {st : State} (h : Inv t n)
    (hstep : AutoInc.step t.toConfig (n.current sid) (sid, op) = some st)
    (hok : UniqueOk t.toConfig (n.current sid) (sid, op)) (hop : op.Generates)
    (hbar : Barrier n.rows (n.flushNoBlockVersion sid) st) :
    Inv t { n with opened := update n.opened (n.flushNoBlockVersion sid) st } := by
  have hgood : Good t.toConfig (n.current sid) := h.good _
  have hopened : ∀ (P : Nat → State → Prop), P (n.flushNoBlockVersion sid) st → (∀ w, P w (n.opened w)) →
      ∀ w, P w (update n.opened (n.flushNoBlockVersion sid) st w) := by
    intro P hst hall w
    rcases eq_or_ne w (n.flushNoBlockVersion sid) with rfl | hw
    · rwa [update_self]
    · rw [update_of_ne hw]
      exact hall w
  refine ⟨h.stmt_le, hopened (fun _ st => Good t.toConfig st) (hgood.step hok hop hstep) h.good, fun w hw => ?_,
    hopened (Barrier n.rows) hbar h.barrier, h.row_le, fun r hr => ?_, h.once, fun i v hv hchecked r hr hver => ?_⟩
  · have hne : w ≠ n.flushNoBlockVersion sid := by
      have := h.stmt_le sid
      dsimp only at hw
      omega
    simp only [update_of_ne hne]
    exact h.future w hw
  · refine hopened (fun w st => ∀ r ∈ n.rows, r.version = w → r.value ∈ st.values) (fun r hr hver => ?_)
      (fun w r hr hver => hver ▸ h.row_made r hr) r.version r hr rfl
    exact step_values_mono hstep (hgood.generates sid) (show r.value ∈ (n.opened _).values from hver ▸ h.row_made r hr)
  · rcases eq_or_ne i sid with rfl | hi
    · -- the new value of the session's own row is not among the old ones, and those of the rows are
      have hnew : v ∉ (n.current i).values := (hgood.fresh hok hstep (by
        simpa [Node.current, update_self] using hv)).2
      rintro rfl
      exact hnew (show r.value ∈ (n.opened _).values from hver ▸ h.row_made r hr)
    · refine h.unsent i v ?_ hchecked r hr hver
      refine hopened (fun w st => (st.session i).Filled v → ((n.opened w).session i).Filled v)
        (fun hf => step_session_of_ne hstep hi ▸ hf) (fun _ hf => hf) (n.flushNoBlockVersion i) hv

theorem Inv.advance {op : AutoInc.Op} (h : Inv t n) (hok : UniqueOk t.toConfig (n.current sid) (sid, op))
    (hop : ∀ v e need remotes, op ≠ .openRow v e need remotes) (hadv : n.advance t sid op = some m) : Inv t m := by
  obtain ⟨st, hst, rfl⟩ := Option.map_eq_some_iff.mp hadv
  have hgen : op.Generates := by
    cases op with
    | openRow v e need remotes => exact absurd rfl (hop v e need remotes)
    | _ => trivial
  refine h.put hst hok hgen ?_
  rcases h.barrier (n.flushNoBlockVersion sid) with hclosed | ⟨b, hb, hrows⟩
  · exact .inl (Closed.step hclosed hst hop)
  · exact .inr ⟨b, Bounded.step (h.good _).sane hb hok hst, hrows⟩

theorem Inv.openRow (h : Inv t n) {need : Bool}
    (hpassed : (n.current sid).share.nextAutoIncVal = 0 → ∀ r ∈ n.passed, n.flushNoBlockVersion sid ≤ r.2.version)
    (hadv : n.advance t sid (.openRow 0 false need (n.remotes t)) = some m) : Inv t m := by
  obtain ⟨st, hst, rfl⟩ := Option.map_eq_some_iff.mp hadv
  have hok := uniqueOk_of_quiet t.toConfig (n.current sid) sid (.openRow 0 false need (n.remotes t)) rfl rfl rfl nofun
  refine h.put hst hok rfl ?_
  rcases h.barrier (n.flushNoBlockVersion sid) with hclosed | ⟨b, hb, hrows⟩
  · refine .inr ⟨_, hclosed.openRow hst, fun r hr hlt => ?_⟩
    have hstored : ∀ r ∈ n.stored, r ∈ n.rows := fun r hr => mem_append_right _ hr
    rcases mem_append.mp hr with hr | hr
    · obtain ⟨x, hx, rfl⟩ := mem_map.mp hr
      have := hpassed hclosed.counter x hx
      omega
    · exact lt_remotes (fun q hq => h.value_lt (h.row_made q (hstored q hq))) hr (h.row_le r (hstored r hr)).2
  · exact .inr ⟨b, Bounded.step (h.good _).sane hb hok hst, hrows⟩

theorem Inv.mono (h : Inv t n) {passed : List (Nat × Row)} {stored : List Row}
    (hsub : (Node.rows { n with passed := passed, stored := stored }).Subperm n.rows) :
    Inv t { n with passed := passed, stored := stored } where
  stmt_le := h.stmt_le
  good := h.good
  future := h.future
  barrier w := (h.barrier w).imp_right fun ⟨b, hb, hrows⟩ => ⟨b, hb, fun r hr => hrows r (hsub.subset hr)⟩
  row_le r hr := h.row_le r (hsub.subset hr)
  row_made r hr := h.row_made r (hsub.subset hr)
  once := by
    obtain ⟨l, hperm, hl⟩ := hsub
    exact (hperm.map _).nodup_iff.mp (h.once.sublist (hl.map _))
  unsent i v hv hc r hr := h.unsent i v hv hc r (hsub.subset hr)

theorem rows_execute {row : Row} (hmem : (sid, row) ∈ n.passed) (ok : Bool) : (Node.rows { n with
      passed := n.passed.erase (sid, row), stored := if ok then row :: n.stored else n.stored }).Subperm n.rows := by
  have hperm : n.rows.Perm ((n.passed.erase (sid, row)).map Prod.snd ++ row :: n.stored) := by
    have := ((perm_cons_erase hmem).map Prod.snd).append_right n.stored
    exact this.trans perm_middle.symm
  cases ok with
  | true => exact hperm.symm.subperm
  | false => exact ((sublist_cons_self row n.stored).append_left _).subperm.trans hperm.symm.subperm

theorem Inv.send (h : Inv t n) {part value : Nat} (hcur : n.flushNoBlockVersion sid = n.version)
    (hfilled : ((n.current sid).session sid).Filled value) (hchecked : n.checked sid = false) (hpart : part < t.parts) :
    Inv t (n.send sid part value) := by
  have hrows : (n.send sid part value).rows = ⟨n.flushNoBlockVersion sid, part, value⟩ :: n.rows := rfl
  refine ⟨h.stmt_le, h.good, h.future, fun w => ?_, ?_, ?_, ?_, fun i v hv hc => ?_⟩
  · rcases lt_or_ge n.version w with hw | hw
    · exact .inl (h.future w hw)
    · refine (h.barrier w).imp_right fun ⟨b, hb, hold⟩ => ⟨b, hb, fun r hr hlt => ?_⟩
      rcases mem_cons.mp (hrows ▸ hr) with rfl | hr
      · exact absurd hlt (by dsimp only; omega)
      · exact hold r hr hlt
  · exact forall_mem_cons.mpr ⟨⟨h.stmt_le sid, hpart⟩, h.row_le⟩
  · exact forall_mem_cons.mpr ⟨(h.good _).made sid value hfilled, h.row_made⟩
  · rw [hrows, map_cons, nodup_cons]
    refine ⟨fun hmem => ?_, h.once⟩
    obtain ⟨r, hr, heq⟩ := mem_map.mp hmem
    exact h.unsent sid value hfilled hchecked r hr (congrArg Prod.fst heq) (congrArg Prod.snd heq)
  · -- another session of the same version has another value
    have hi : i ≠ sid := by
      rintro rfl
      simp [Node.send] at hc
    have hc' : n.checked i = false := by simpa [Node.send, update_of_ne hi] using hc
    refine forall_mem_cons.mpr ⟨fun hver heq => ?_, h.unsent i v hv hc'⟩
    dsimp only at hver heq
    have hv' : ((n.opened (n.flushNoBlockVersion sid)).session i).Filled v := hver ▸ hv
    exact (h.good _).apart sid i value hi.symm hfilled (heq ▸ hv')

theorem Inv.startStmt (h : Inv t n) {info : StmtInfo}
    (hadv : Node.advance t { n with flushNoBlockVersion := update n.flushNoBlockVersion sid n.version } sid
      (.startStmt info) = some m) : Inv t m := by
  obtain ⟨st, hst, -⟩ := Option.map_eq_some_iff.mp hadv
  -- the session has no row under the version in force
  have hout : ((n.opened n.version).session sid).phase = .outside := by
    cases step_stepped hst with
    | startStmt i hp => simpa [Node.current] using hp
  have hstart : Inv t { n with flushNoBlockVersion := update n.flushNoBlockVersion sid n.version } := by
    refine ⟨fun i => ?_, h.good, h.future, h.barrier, h.row_le, h.row_made, h.once, fun i v hv hc r hr hver => ?_⟩
    · rcases eq_or_ne i sid with rfl | hi
      · simp
      · simpa [update_of_ne hi] using h.stmt_le i
    · rcases eq_or_ne i sid with rfl | hi
      · obtain ⟨g, hg⟩ := hv
        simp only [Node.current, update_self, hout] at hg
        cases hg
      · simp only [Node.current, update_of_ne hi] at hv hver
        exact h.unsent i v hv hc r hr hver
  exact hstart.advance (uniqueOk_of_quiet _ _ sid (.startStmt info) rfl rfl rfl nofun) nofun hadv

theorem Inv.fillRow (h : Inv t n) (hok : UniqueOk t.toConfig (n.current sid) (sid, .fillRow))
    (hadv : n.advance t sid .fillRow = some m) : Inv t { m with checked := update m.checked sid false } := by
  obtain ⟨st, hst, rfl⟩ := Option.map_eq_some_iff.mp hadv
  have hopened : ∀ v, ¬((n.current sid).session sid).Filled v := by
    rintro v ⟨g, hg⟩
    cases step_stepped hst with
    | fillRow value explicit hp => cases hg.symm.trans hp
  have hreset : Inv t { n with checked := update n.checked sid false } := by
    refine ⟨h.stmt_le, h.good, h.future, h.barrier, h.row_le, h.row_made, h.once, fun i v hv hc => ?_⟩
    rcases eq_or_ne i sid with rfl | hi
    · exact absurd hv (hopened v)
    · exact h.unsent i v hv (by simpa [update_of_ne hi] using hc)
  exact hreset.advance hok nofun (Option.map_eq_some_iff.mpr ⟨st, hst, rfl⟩)

theorem Inv.checkVersion (h : Inv t n) {value : Nat} {part : Option Nat}
    (hfilled : ((n.current sid).session sid).Filled value) (hchecked : n.checked sid = false)
    (hstep : n.checkVersion t sid value part = some m) : Inv t m := by
  have hleave : n.advance t sid .leaveRow = some m → Inv t m :=
    h.advance (uniqueOk_of_quiet t.toConfig _ sid .leaveRow rfl rfl rfl nofun) nofun
  unfold Node.checkVersion getShareVersionErr at hstep
  by_cases hcur : n.flushNoBlockVersion sid = n.version
  · rw [if_pos hcur] at hstep
    cases part with
    | none => exact hleave hstep
    | some p =>
      dsimp only at hstep
      split_ifs at hstep with hpart
      cases hstep
      exact h.send hcur hfilled hchecked hpart
  · rw [if_neg hcur] at hstep
    exact hleave hstep

theorem Inv.step {op : Op} (h : Inv t n) (hok : StepOk t n op) (hstep : step t n op = some m) : Inv t m := by
  cases op with
  | flush =>
    cases hstep
    exact ⟨fun i => (h.stmt_le i).trans (Nat.le_succ _), h.good, fun w hw => h.future w (Nat.lt_of_succ_lt hw), h.barrier,
      fun r hr => ⟨(h.row_le r hr).1.trans (Nat.le_succ _), (h.row_le r hr).2⟩, h.row_made, h.once, h.unsent⟩
  | startStmt sid info =>
    simp only [Versions.step] at hstep
    split_ifs at hstep
    exact h.startStmt hstep
  | openRow sid need => exact h.openRow hok hstep
  | fillRow sid =>
    obtain ⟨m, hadv, rfl⟩ := Option.map_eq_some_iff.mp hstep
    exact h.fillRow hok hadv
  | checkVersion sid part =>
    simp only [Versions.step] at hstep
    split at hstep
    · rename_i value generated hp hchecked
      exact h.checkVersion ⟨generated, hp⟩ hchecked hstep
    · cases hstep
  | execute sid row ok =>
    rw [Versions.step] at hstep
    by_cases hmem : (sid, row) ∈ n.passed
    · rw [if_pos hmem] at hstep
      cases hstep
      exact h.mono (rows_execute hmem ok)
    · rw [if_neg hmem] at hstep
      cases hstep
  | writeRow sid error | release sid =>
    simp only [Versions.step] at hstep
    split_ifs at hstep
    exact h.advance hok nofun hstep
  | endBulkInsert sid error =>
    exact h.advance (uniqueOk_of_quiet _ _ sid (.endBulkInsert error) rfl rfl rfl nofun) nofun hstep

/-! ## Stored values -/

theorem Inv.version_eq (h : Inv t n) {r q : Row} (hr : r ∈ n.rows) (hq : q ∈ n.rows) (hv : r.value = q.value) :
    r.version = q.version := by
  have hlt : ∀ {r q : Row}, r ∈ n.rows → q ∈ n.rows → r.value = q.value → ¬r.version < q.version := by
    intro r q hr hq hv hlt
    have hmade := h.row_made q hq
    rcases h.barrier q.version with hclosed | ⟨b, hb, hrows⟩
    · rw [hclosed.values] at hmade
      cases hmade
    · have h1 := (hb.values _ hmade).1
      have h2 := hrows r hr hlt
      omega
  exact le_antisymm (not_lt.mp (hlt hq hr hv.symm)) (not_lt.mp (hlt hr hq hv))

def twoParts : Table := ⟨.bigint 17 1 step_range_17 mode_range_1, 2, Nat.two_pos⟩

def generate (sid : Nat) : List Op := [.startStmt sid (.insert 1), .openRow sid false, .fillRow sid]

def finish (sid : Nat) (row : Row) : List Op := [.execute sid row true, .writeRow sid false, .release sid]

/-- Session 0 stores 1 before a flush; session 1 has generated 18 and its check fails; session 2 generates 18 again. -/
def flushBetween : List Op :=
  generate 0 ++ [.checkVersion 0 (some 0)] ++ finish 0 ⟨0, 0, 1⟩ ++ generate 1 ++ [.flush] ++ generate 2 ++
    [.checkVersion 1 (some 0), .checkVersion 2 (some 1)] ++ finish 2 ⟨1, 1, 18⟩

/-- Session 0 passes the check with the value 1 before the flush. Nothing is stored yet, so the new counter starts at 1
too. -/
def overtaken : List Op :=
  generate 0 ++ [.checkVersion 0 (some 0), .flush] ++ generate 1 ++ [.checkVersion 1 (some 1)] ++ finish 1 ⟨1, 1, 1⟩ ++
    finish 0 ⟨0, 0, 1⟩

end TSpider.AutoInc.Versions

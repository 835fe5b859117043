import TSpider.Limit.Scan

/-!
# The rows that a scan hands to the server

* `Scan.Yields q s rows` : the scan `s` hands out exactly `rows`;
* `fetched` : what the shards answer, partition by partition, once the counters are those of the creator;
* `take_fetched` : up to the limit the fetched rows are the rows of all partitions behind the offset.
-/

namespace TSpider.Limit
open List

variable {α : Type*} {q : Limits} {ps : List (Part α)} {s t : Scan α}

def Scan.Yields (q : Limits) (s : Scan α) (rows : List α) : Prop := ∀ k, s.read q k = some (rows.take k)

theorem Scan.Yields.nil (h : rndNext q s.parts s.direct s.buf = (.eof, t)) : s.Yields q [] := by
  intro k
  cases k with
  | zero => rfl
  | succ k => simp only [Scan.read, h, take_nil]

theorem Scan.Yields.cons {rows : List α} (h : rndNext q s.parts s.direct s.buf = (.ok, t))
    (ht : t.Yields q rows) : s.Yields q (t.buf :: rows) := by
  intro k
  cases k with
  | zero => rfl
  | succ k => simp only [Scan.read, h, ht k, Option.map_some, take_succ_cons]

theorem Scan.Yields.congr {rows : List α}
    (h : rndNext q s.parts s.direct s.buf = rndNext q t.parts t.direct t.buf) (ht : t.Yields q rows) : s.Yields q rows := by
  intro k
  rw [← ht k]
  cases k with
  | zero => rfl
  | succ k => simp only [Scan.read, h]

def Follows (q : Limits) (d : Direct) (ps : List (Part α)) (rest : List α) : Prop :=
  ∀ o ≤ 0, ∀ buf, Scan.Yields q ⟨ps, { d with selectOffset := o }, buf⟩ rest

theorem yields_stored {p : Part α} (hfirst : p.scanAndFirst = false) (hpre : p.usePreCall = false) {d : Direct}
    {rest : List α} (hrest : Follows q d ps rest) (buf : α) :
    Scan.Yields q ⟨p :: ps, d, buf⟩ (List.replicate d.selectOffset.toNat buf ++ p.result ++ rest) := by
  have hnext : ∀ (p : Part α) (d : Direct) (buf : α), p.scanAndFirst = false → p.usePreCall = false →
      p.rndNext q d buf =
        if 0 < d.selectOffset then (.ok, p, { d with selectOffset := d.selectOffset - 1 }, buf) else p.seekNext d buf := by
    intro p d buf hfirst hpre
    simp [Part.rndNext, Part.rndNextInternal, hfirst, hpre]
  -- first the repeated rows, then the rows of the result
  generalize hk : d.selectOffset.toNat = k
  induction k generalizing d with
  | succ k ih =>
    have hpos : 0 < d.selectOffset := by omega
    have hstep : rndNext q (p :: ps) d buf = (.ok, ⟨p :: ps, { d with selectOffset := d.selectOffset - 1 }, buf⟩) := by
      simp [rndNext, hnext p d buf hfirst hpre, hpos]
    exact .cons hstep (ih (d := { d with selectOffset := d.selectOffset - 1 }) hrest (by simp only; omega))
  | zero =>
    have hzero : ¬ 0 < d.selectOffset := by omega
    generalize hrs : p.result = rs
    induction rs generalizing p buf with
    | nil =>
      have hstep : rndNext q (p :: ps) d buf = rndNext q ps d buf := by
        simp [rndNext, hnext p d buf hfirst hpre, hzero, Part.seekNext, hrs]
      exact .congr hstep (hrest d.selectOffset (by omega) buf)
    | cons a as ih =>
      have hstep : rndNext q (p :: ps) d buf = (.ok, ⟨{ p with result := as } :: ps, d, a⟩) := by
        simp [rndNext, hnext p d buf hfirst hpre, hzero, Part.seekNext, hrs]
      exact .cons hstep (ih (p := { p with result := as }) hfirst hpre a rfl)

def fetched (limit : Int) : Int → List (List α) → List (List α)
  | _, [] => []
  | c, t :: ts =>
    if 0 < c ∧ (t.length : Int) ≤ c then fetched limit (c - t.length) ts
    else
      match selectLimit t c limit with
      | some (a :: as) => (a :: as) :: fetched limit 0 ts
      | _ => fetched limit 0 ts

def padded (o : Nat) : List (List α) → List α
  | (a :: as) :: rest => a :: (List.replicate o a ++ as ++ rest.flatten)
  | _ => []

theorem padded_zero {c limit : Int} (ts : List (List α)) : padded 0 (fetched limit c ts) = (fetched limit c ts).flatten := by
  induction ts generalizing c with
  | nil => rfl
  | cons t ts ih =>
    unfold fetched
    split
    · exact ih
    · split
      · simp [padded]
      · exact ih

theorem exists_selectLimit (t : List α) {c limit : Int} (hc : 0 ≤ c) (hl : 0 ≤ limit) :
    ∃ res, selectLimit t c limit = some res := by
  by_cases h : c ≠ 0 ∨ limit < maxLonglong
  · exact ⟨_, selectLimit_eq hc hl h⟩
  · refine ⟨t, ?_⟩
    unfold selectLimit appendLimit
    rw [if_neg h]
    rfl

section First
variable {p : Part α} (hfirst : p.scanAndFirst = true) {d d' : Direct} (hd : setDirectLimitOffset q p d = d')
  (hl : 0 < d'.selectLimit) (fill : Bool) (buf : α)
include hfirst hd hl

theorem rndNextInternal_skip (hskip : 0 < d'.currentOffset ∧ (p.rows.length : Int) ≤ d'.currentOffset) :
    p.rndNextInternal q fill d buf = (.eof, p, { d' with currentOffset := d'.currentOffset - p.rows.length }, buf) := by
  simp only [Part.rndNextInternal, hfirst, hd, hl.ne', hskip, if_true, if_false, and_self]

theorem rndNextInternal_empty (hskip : ¬ (0 < d'.currentOffset ∧ (p.rows.length : Int) ≤ d'.currentOffset))
    (hres : selectLimit p.rows d'.currentOffset d'.selectLimit = some []) :
    p.rndNextInternal q fill d buf = (.eof, p, { d' with currentOffset := 0 }, buf) := by
  simp only [Part.rndNextInternal, hfirst, hd, hl.ne', hskip, hres, if_true, if_false]

theorem rndNextInternal_rows (hskip : ¬ (0 < d'.currentOffset ∧ (p.rows.length : Int) ≤ d'.currentOffset)) {a : α}
    {as : List α} (hres : selectLimit p.rows d'.currentOffset d'.selectLimit = some (a :: as)) :
    p.rndNextInternal q fill d buf =
      if fill then (.ok, { p with scanAndFirst := false, result := as }, { d' with currentOffset := 0 }, a)
      else (.ok, { p with scanAndFirst := false, result := a :: as }, { d' with currentOffset := 0 }, buf) := by
  simp only [Part.rndNextInternal, hfirst, hd, hl.ne', hskip, hres, if_true, if_false]

end First

theorem yields_first {p : Part α} (hfirst : p.scanAndFirst = true) (hpre : p.usePreCall = false) {d d' : Direct}
    (hd : setDirectLimitOffset q p d = d') (hc : 0 ≤ d'.currentOffset) (hl : 0 < d'.selectLimit) {ts : List (List α)}
    (htail : ∀ e : Direct, 0 ≤ e.currentOffset → 0 < e.selectLimit → ∀ buf, Scan.Yields q ⟨ps, e, buf⟩
      (padded e.selectOffset.toNat (fetched e.selectLimit e.currentOffset ts))) (buf : α) : Scan.Yields q ⟨p :: ps, d, buf⟩
      (padded d'.selectOffset.toNat (fetched d'.selectLimit d'.currentOffset (p.rows :: ts))) := by
  have hnext : p.rndNext q d buf = p.rndNextInternal q true d buf := by simp [Part.rndNext, hpre]
  unfold fetched
  by_cases hskip : 0 < d'.currentOffset ∧ (p.rows.length : Int) ≤ d'.currentOffset
  · rw [if_pos hskip]
    refine .congr ?_ (htail { d' with currentOffset := d'.currentOffset - p.rows.length } (by simp only; omega) hl buf)
    simp only [rndNext, hnext, rndNextInternal_skip hfirst hd hl true buf hskip]
  rw [if_neg hskip]
  obtain ⟨res, hres⟩ := exists_selectLimit p.rows hc hl.le
  rw [hres]
  cases res with
  | nil =>
    refine .congr ?_ (htail { d' with currentOffset := 0 } le_rfl hl buf)
    simp only [rndNext, hnext, rndNextInternal_empty hfirst hd hl true buf hskip hres]
  | cons a as =>
    have hstep : rndNext q (p :: ps) d buf =
        (.ok, ⟨{ p with scanAndFirst := false, result := as } :: ps, { d' with currentOffset := 0 }, a⟩) := by
      simp only [rndNext, hnext, rndNextInternal_rows hfirst hd hl true buf hskip hres, if_true]
    have hrest : Follows q { d' with currentOffset := 0 } ps (fetched d'.selectLimit 0 ts).flatten := by
      intro o ho buf
      have h := htail { selectOffset := o, currentOffset := 0, selectLimit := d'.selectLimit } le_rfl hl buf
      rwa [Int.toNat_of_nonpos ho, padded_zero] at h
    exact .cons hstep (yields_stored (p := { p with scanAndFirst := false, result := as }) rfl hpre hrest a)

theorem yields_init (ts : List (List α)) (d : Direct) (hc : 0 ≤ d.currentOffset) (hl : 0 < d.selectLimit) (buf : α) :
    Scan.Yields q ⟨ts.map (.init false), d, buf⟩ (padded
      d.selectOffset.toNat (fetched d.selectLimit d.currentOffset ts)) := by
  induction ts generalizing d buf with
  | nil => exact .nil rfl
  | cons t ts ih => exact yields_first (p := .init false t) rfl rfl rfl hc hl ih buf

/-! ## With the pre-scan call -/

inductive Ready : List (Part α) → List (List α) → Prop where
  | nil : Ready [] []
  | eof {p : Part α} {ps : List (Part α)} {rs : List (List α)} (hpre : p.usePreCall = true)
      (heof : p.storeError = .eof) (hps : Ready ps rs) : Ready (p :: ps) rs
  | ok {p : Part α} {ps : List (Part α)} {rs : List (List α)} (hpre : p.usePreCall = true) (hok : p.storeError = .ok)
      (hfirst : p.scanAndFirst = false) (hps : Ready ps rs) : Ready (p :: ps) (p.result :: rs)

theorem preScan_first {p : Part α} (hfirst : p.scanAndFirst = true) {d d' : Direct}
    (hd : setDirectLimitOffset q p d = d') (hc : 0 ≤ d'.currentOffset) (hl : 0 < d'.selectLimit)
    {ts : List (List α)} (buf : α)
    (htail : ∀ e : Direct, 0 ≤ e.currentOffset → 0 < e.selectLimit → ∃ ps' e', preScan q true buf ps e = (.ok, ps', e') ∧
      Ready ps' (fetched e.selectLimit e.currentOffset ts) ∧ e'.selectOffset = e.selectOffset) :
    ∃ ps' e', preScan q true buf (p :: ps) d = (.ok, ps', e') ∧
      Ready ps' (fetched d'.selectLimit d'.currentOffset (p.rows :: ts)) ∧ e'.selectOffset = d'.selectOffset := by
  have hd1 : setDirectLimitOffset q { p with usePreCall := true } d = d' := hd
  have hfirst1 : ({ p with usePreCall := true } : Part α).scanAndFirst = true := hfirst
  unfold fetched
  by_cases hskip : 0 < d'.currentOffset ∧ (p.rows.length : Int) ≤ d'.currentOffset
  · obtain ⟨ps', e', h, hready, ho⟩ :=
      htail { d' with currentOffset := d'.currentOffset - p.rows.length } (by simp only; omega) hl
    rw [if_pos hskip]
    refine ⟨_, e', ?_, .eof (p := { p with usePreCall := true, storeError := .eof }) rfl rfl hready, ho⟩
    simp only [preScan, Part.preRndNext, rndNextInternal_skip hfirst1 hd1 hl false buf hskip, if_true, h]
  rw [if_neg hskip]
  obtain ⟨ps', e', h, hready, ho⟩ := htail { d' with currentOffset := 0 } le_rfl hl
  obtain ⟨res, hres⟩ := exists_selectLimit p.rows hc hl.le
  rw [hres]
  cases res with
  | nil =>
    refine ⟨_, e', ?_, .eof (p := { p with usePreCall := true, storeError := .eof }) rfl rfl hready, ho⟩
    simp only [preScan, Part.preRndNext, rndNextInternal_empty hfirst1 hd1 hl false buf hskip hres, if_true, h]
  | cons a as =>
    refine ⟨_, e', ?_, .ok (p := { p with
      usePreCall := true, storeError := .ok, scanAndFirst := false, result := a :: as }) rfl rfl rfl hready, ho⟩
    simp only [preScan, Part.preRndNext, rndNextInternal_rows hfirst1 hd1 hl false buf hskip hres, if_true, if_false,
      Bool.false_eq_true, h]

theorem preScan_init (ts : List (List α)) (d : Direct) (hc : 0 ≤ d.currentOffset) (hl : 0 < d.selectLimit) (buf : α) :
    ∃ ps' e', preScan q true buf (ts.map (.init false)) d = (.ok, ps', e') ∧
      Ready ps' (fetched d.selectLimit d.currentOffset ts) ∧ e'.selectOffset = d.selectOffset := by
  induction ts generalizing d with
  | nil => exact ⟨[], d, rfl, .nil, rfl⟩
  | cons t ts ih => exact preScan_first (p := .init false t) rfl rfl hc hl buf ih

theorem yields_ready {rs : List (List α)} (h : Ready ps rs) (d : Direct) (buf : α) : Scan.Yields q ⟨ps, d, buf⟩
      (if rs = [] then [] else List.replicate d.selectOffset.toNat buf ++ rs.flatten) := by
  induction h generalizing d buf with
  | nil => exact .nil rfl
  | @eof p ps rs hpre heof _ ih =>
    refine .congr ?_ (ih d buf)
    simp only [rndNext, Part.rndNext, hpre, heof, if_true, reduceCtorEq, if_false]
  | @ok p ps rs hpre hok hfirst _ ih =>
    rw [if_neg (cons_ne_nil _ _), flatten_cons, ← append_assoc]
    have hrest : Follows q d ps rs.flatten := by
      intro o ho buf
      have h := ih { d with selectOffset := o } buf
      rw [Int.toNat_of_nonpos ho, replicate_zero, nil_append] at h
      split at h
      · next hrs => rwa [hrs]
      · exact h
    refine .congr ?_ (yields_stored (p := { p with usePreCall := false }) hfirst rfl hrest buf)
    simp only [rndNext, Part.rndNext, hpre, hok, if_true, Bool.false_eq_true, if_false]

/-! ## The fetched rows -/

theorem take_append_congr {n : Nat} {as as' bs bs' : List α} (ha : as.take n = as'.take n)
    (hb : bs.take n = bs'.take n) : (as ++ bs).take n = (as' ++ bs').take n := by
  induction n generalizing as as' bs bs' with
  | zero => rfl
  | succ n ih =>
    have hb' : bs.take n = bs'.take n := by
      simpa [take_take] using congrArg (List.take n) hb
    cases as with
    | nil =>
      cases as' with
      | nil => exact hb
      | cons a' as' => cases ha
    | cons a as =>
      cases as' with
      | nil => cases ha
      | cons a' as' =>
        simp only [take_succ_cons, List.cons.injEq, cons_append] at ha ⊢
        exact ⟨ha.1, ih ha.2 hb'⟩

/-- **Up to the limit, the fetched rows are the rows of all partitions behind the offset.** -/
theorem take_fetched {limit c : Int} (hc : 0 ≤ c) (hl : 0 ≤ limit) (ts : List (List α)) :
    (fetched limit c ts).flatten.take limit.toNat = (ts.flatten.drop c.toNat).take limit.toNat := by
  induction ts generalizing c with
  | nil => simp [fetched]
  | cons t ts ih =>
    unfold fetched
    by_cases hskip : 0 < c ∧ (t.length : Int) ≤ c
    · have hnil : t.drop c.toNat = [] := drop_eq_nil_of_le (by omega)
      rw [if_pos hskip, ih (by omega), flatten_cons, drop_append, hnil, nil_append]
      congr 2
      omega
    · rw [if_neg hskip]
      obtain ⟨res, hres⟩ := exists_selectLimit t hc hl
      have hflat : (match selectLimit t c limit with
          | some (a :: as) => (a :: as) :: fetched limit 0 ts
          | _ => fetched limit 0 ts).flatten = res ++ (fetched limit 0 ts).flatten := by
        rw [hres]
        cases res <;> rfl
      have hdrop : (t :: ts).flatten.drop c.toNat = t.drop c.toNat ++ ts.flatten := by
        rw [flatten_cons, drop_append, show c.toNat - t.length = 0 by omega, drop_zero]
      rw [hflat, hdrop]
      exact take_append_congr (take_of_selectLimit hres) (ih le_rfl)

end TSpider.Limit

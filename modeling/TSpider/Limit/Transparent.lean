import TSpider.Limit.Options

/-!
# Where the padded scan is transparent

The scan of all partitions by the server of `Limit.Options`, with the clause pushed down and without.

`transparent_iff` : when the two answers are equal.
-/

namespace TSpider.Limit
open ScanHandler List

variable {α β σ : Type*}

/-- The rows of a scan are handed to `step` until no more are needed; `none` for a failed scan or too little fuel. -/
def Scan.feed (q : Limits) (step : α → σ → Bool × σ) : Nat → Scan α → σ → Option σ
  | 0, _, _ => none
  | k + 1, s, st =>
    match rndNext q s.parts s.direct s.buf with
    | (.ok, t) =>
      match step t.buf st with
      | (true, st) => some st
      | (false, st) => t.feed q step k st
    | (.eof, _) => some st
    | (.error, _) => none

def Options.pushed [DecidableEq β] (o : Options) (q : Limits) (f : α → β) (fuel : Nat) (s : Scan α) :
    Option (List β × Nat) :=
  if o.distinct then (s.feed q (fun a => endWrite o (q.offset + q.limit) (f a)) fuel []).map (o.send q)
  else
    (s.feed q (fun a => endSend o (q.offset + q.limit) (f a)) fuel ⟨q.offset, 0, true, []⟩).map fun s =>
      (s.sent, s.sendRecords)

/-- The scan of all partitions. Its first partition is the one that was opened first. -/
def scanAll (tables : List (List α)) (d : Direct) (buf : α) : Scan α := ⟨initParts 0 tables, d, buf⟩

/-! ## The rows of the scan -/

section Feed
variable {q : Limits} {step : α → σ → Bool × σ} {s : Scan α} {rows : List α}

theorem Scan.Yields.inv_nil (h : s.Yields q []) : ∃ t, rndNext q s.parts s.direct s.buf = (.eof, t) := by
  have hone := h 1
  simp only [Scan.read] at hone
  rcases hcall : rndNext q s.parts s.direct s.buf with ⟨_ | _ | _, t⟩
  · simp [hcall] at hone
  · exact ⟨t, rfl⟩
  · simp [hcall] at hone

theorem Scan.Yields.inv_cons {a : α} (h : s.Yields q (a :: rows)) :
    ∃ t, rndNext q s.parts s.direct s.buf = (.ok, t) ∧ t.buf = a ∧ t.Yields q rows := by
  have hone := h 1
  rcases hcall : rndNext q s.parts s.direct s.buf with ⟨_ | _ | _, t⟩
  · have hnext : ∀ k, (t.read q k).map (t.buf :: ·) = some (a :: rows.take k) := by
      intro k
      have hk := h (k + 1)
      simpa [Scan.read, hcall] using hk
    have hbuf : t.buf = a := by simpa [Scan.read] using hnext 0
    refine ⟨t, rfl, hbuf, fun k => ?_⟩
    obtain ⟨rows', hread, hcons⟩ := Option.map_eq_some_iff.mp (hnext k)
    rw [hread, (List.cons.inj hcons).2]
  · simp [Scan.read, hcall] at hone
  · simp [Scan.read, hcall] at hone

theorem feed_of_yields (h : s.Yields q rows) {fuel : Nat} (hfuel : rows.length < fuel) (st : σ) :
    s.feed q step fuel st = some (feedRows step rows st) := by
  induction rows generalizing s fuel st with
  | nil =>
    obtain ⟨k, rfl⟩ : ∃ k, fuel = k + 1 := ⟨fuel - 1, by simp at hfuel; omega⟩
    obtain ⟨t, hcall⟩ := h.inv_nil
    simp only [Scan.feed, hcall, feedRows]
  | cons a rows ih =>
    obtain ⟨k, rfl⟩ : ∃ k, fuel = k + 1 := ⟨fuel - 1, by simp at hfuel; omega⟩
    obtain ⟨t, hcall, rfl, ht⟩ := h.inv_cons
    simp only [Scan.feed, hcall, feedRows]
    rcases step t.buf st with ⟨_ | _, st⟩
    · exact ih ht (by simpa using hfuel) st
    · rfl

theorem eq_of_feed (h : s.Yields q rows) {fuel : Nat} {st r : σ} (hr : s.feed q step fuel st = some r) :
    r = feedRows step rows st := by
  induction rows generalizing s fuel st with
  | nil =>
    cases fuel with
    | zero => cases hr
    | succ k =>
      obtain ⟨t, hcall⟩ := h.inv_nil
      simp only [Scan.feed, hcall, Option.some.injEq] at hr
      exact hr.symm
  | cons a rows ih =>
    cases fuel with
    | zero => cases hr
    | succ k =>
      obtain ⟨t, hcall, rfl, ht⟩ := h.inv_cons
      simp only [Scan.feed, hcall] at hr
      simp only [feedRows]
      rcases hstep : step t.buf st with ⟨_ | _, st'⟩
      · simp only [hstep] at hr
        exact ih ht hr
      · simp only [hstep, Option.some.injEq] at hr
        exact hr.symm

theorem feedRows_map (step : β → σ → Bool × σ) (f : α → β) (rows : List α) (st : σ) :
    feedRows (fun a => step (f a)) rows st = feedRows step (rows.map f) st := by
  induction rows generalizing st with
  | nil => rfl
  | cons a rows ih =>
    simp only [feedRows, map_cons]
    rcases step (f a) st with ⟨_ | _, st⟩
    · exact ih st
    · rfl

theorem feed_map_iff {γ : Type*} (step : β → σ → Bool × σ) (f : α → β) (h : s.Yields q rows) (st : σ) (out : σ → γ) {x : γ} :
    (∃ fuel, (s.feed q (fun a => step (f a)) fuel st).map out = some x) ↔ x = out (feedRows step (rows.map f) st) := by
  constructor
  · rintro ⟨fuel, hfuel⟩
    obtain ⟨st', hst', rfl⟩ := Option.map_eq_some_iff.mp hfuel
    rw [eq_of_feed h hst', feedRows_map]
  · rintro rfl
    exact ⟨rows.length + 1, by rw [feed_of_yields h (Nat.lt_succ_self _), feedRows_map, Option.map_some]⟩

/-- **The answer of the padded scan** is the answer to the rows that it hands out. -/
theorem pushed_iff [DecidableEq β] (o : Options) (f : α → β) (h : s.Yields q rows) (x : List β × Nat) :
    (∃ fuel, o.pushed q f fuel s = some x) ↔ x = o.answer q (rows.map f) := by
  unfold Options.pushed Options.answer
  cases o.distinct with
  | true | false => exact feed_map_iff _ f h _ _

end Feed

/-! ## Scans that hand out nothing -/

section Nothing
variable [DecidableEq β] {o : Options} {q : Limits} {f : α → β} {s : Scan α}

theorem pushed_of_not_ok (hm : 0 < q.limit) (h : (rndNext q s.parts s.direct s.buf).1 ≠ .ok) {fuel : Nat}
    {x : List β × Nat} (hx : o.pushed q f fuel s = some x) : x = ([], 0) ∧ (rndNext q s.parts s.direct s.buf).1 = .eof := by
  cases fuel with
  | zero => simp [Options.pushed, Scan.feed] at hx
  | succ k =>
    match hcall : rndNext q s.parts s.direct s.buf with
    | (.ok, t) => exact absurd (by rw [hcall]) h
    | (.error, t) => simp [Options.pushed, Scan.feed, hcall] at hx
    | (.eof, t) =>
      refine ⟨?_, rfl⟩
      simp only [Options.pushed, Scan.feed, hcall, Option.map_some] at hx
      cases hdistinct : o.distinct with
      | true =>
        simp only [hdistinct, if_true, Option.some.injEq] at hx
        rw [← hx, send_eq o hm]
        exact (window_eq_nil_iff o hm []).mpr rfl
      | false =>
        simp only [hdistinct, Bool.false_eq_true, if_false, Option.some.injEq] at hx
        exact hx.symm

theorem answer_eq_nil_iff (hm : 0 < q.limit) (rows : List β) : o.answer q rows = ([], 0) ↔ rows = [] := by
  rw [answer_eq o hm, window_eq_nil_iff o hm]
  cases o.distinct with
  | true => exact firsts_eq_nil_iff rows
  | false => exact Iff.rfl

end Nothing

section Calls
variable {q : Limits} {p : Part α} (hfirst : p.scanAndFirst = true) (hpre : p.usePreCall = false) {d d' : Direct}
  (hd : setDirectLimitOffset q p d = d') {buf : α} {ps : List (Part α)}
include hfirst hpre hd

theorem rndNext_ne_ok (hl : d'.selectLimit < 0)
    (htail : ∀ e : Direct, e.selectLimit < 0 → (rndNext q ps e buf).1 ≠ .ok) : (rndNext q (p :: ps) d buf).1 ≠ .ok := by
  by_cases hskip : 0 < d'.currentOffset ∧ (p.rows.length : Int) ≤ d'.currentOffset
  · obtain ⟨-, hcall⟩ := rndNext_covered hfirst hpre hd hl.ne hskip buf
    simp only [rndNext, hcall]
    exact htail _ hl
  · obtain ⟨-, hcall⟩ := rndNext_asked hfirst hpre hd hl.ne hskip buf
    rw [selectLimit_neg (.inr hl)] at hcall
    simp [rndNext, hcall]

theorem rndNext_refused (hl : d'.selectLimit ≠ 0) (hc : d'.currentOffset < 0) : (rndNext q (p :: ps) d buf).1 = .error := by
  obtain ⟨-, hcall⟩ := rndNext_asked hfirst hpre hd hl (by omega) buf
  rw [selectLimit_neg (.inl hc)] at hcall
  simp only [rndNext, hcall]

theorem rndNext_eof (hrows : p.rows = []) (hl : d'.selectLimit ≠ 0) (hc : 0 < d'.currentOffset)
    (htail : ∀ e : Direct, e.selectLimit ≠ 0 → 0 < e.currentOffset → ∃ t, rndNext q ps e buf = (.eof, t)) :
    ∃ t, rndNext q (p :: ps) d buf = (.eof, t) := by
  have hlen : (p.rows.length : Int) = 0 := by simp [hrows]
  obtain ⟨-, hcall⟩ := rndNext_covered hfirst hpre hd hl ⟨hc, by omega⟩ buf
  simp only [rndNext, hcall]
  exact htail _ hl (by simp only; omega)

end Calls

theorem rndNext_init_ne_ok {q : Limits} (ts : List (List α)) {d : Direct} (hl : d.selectLimit < 0) (buf : α) :
    (rndNext q (ts.map (.init false)) d buf).1 ≠ .ok := by
  induction ts generalizing d with
  | nil => simp [rndNext]
  | cons t ts ih => exact rndNext_ne_ok rfl rfl rfl hl fun e he => ih he

theorem rndNext_init_eof {q : Limits} {ts : List (List α)} (hts : ts.flatten = []) {d : Direct} (hl : d.selectLimit ≠ 0)
    (hc : 0 < d.currentOffset) (buf : α) : ∃ t, rndNext q (ts.map (.init false)) d buf = (.eof, t) := by
  induction ts generalizing d with
  | nil => exact ⟨_, rfl⟩
  | cons t ts ih =>
    obtain ⟨rfl, hts⟩ : t = [] ∧ ts.flatten = [] := append_eq_nil_iff.mp hts
    exact rndNext_eof rfl rfl rfl rfl hl hc fun e hel hec => ih hts hel hec

/-! ## The repeated rows -/

theorem firsts_replicate [DecidableEq β] (n : Nat) (b : β) (bs : List β) :
    firsts [] (List.replicate n b ++ b :: bs) = firsts [] (b :: bs) := by
  have hseen : ∀ n, firsts [b] (List.replicate n b ++ b :: bs) = firsts [b] bs := by
    intro n
    induction n with
    | zero => simp [firsts]
    | succ n ih => simpa [replicate_succ, firsts] using ih
  cases n with
  | zero => rfl
  | succ n =>
    rw [replicate_succ, cons_append]
    simp only [firsts, not_mem_nil, if_false, nil_append, hseen n]

theorem fetched_cases (limit c : Int) (ts : List (List α)) :
    fetched limit c ts = [] ∨ ∃ a as rest, fetched limit c ts = (a :: as) :: rest := by
  induction ts generalizing c with
  | nil => exact .inl rfl
  | cons t ts ih =>
    unfold fetched
    split
    · exact ih _
    · split
      · exact .inr ⟨_, _, _, rfl⟩
      · exact ih _

/-! ## The rows that the shards send -/

/-- The rows behind the offset, up to the limit of each partition. -/
def sentRows (limit : Nat) : Nat → List (List α) → List α
  | _, [] => []
  | c, t :: ts => (selectLimit t c limit).getD [] ++ sentRows limit (c - t.length) ts

/-- No partition has more rows behind the offset than the limit says. A limit of `2 ^ 63 - 1` without an offset is not
sent. -/
def AllSent (limit : Nat) : Nat → List Nat → Prop
  | _, [] => True
  | c, n :: ns => (n - c ≤ limit ∨ c = 0 ∧ maxLonglong ≤ limit) ∧ AllSent limit (c - n) ns

instance (limit c : Nat) (sizes : List Nat) : Decidable (AllSent limit c sizes) := by
  induction sizes generalizing c with
  | nil => exact .isTrue trivial
  | cons n ns ih =>
    unfold AllSent
    have := ih (c - n)
    infer_instance

theorem fetched_flatten (limit c : Nat) (ts : List (List α)) :
    (Limit.fetched (limit : Int) c ts).flatten = sentRows limit c ts := by
  induction ts generalizing c with
  | nil => rfl
  | cons t ts ih =>
    obtain ⟨res, hres⟩ := exists_selectLimit t (Int.natCast_nonneg c) (Int.natCast_nonneg limit)
    unfold fetched
    rw [sentRows, hres, Option.getD_some]
    by_cases hskip : 0 < (c : Int) ∧ (t.length : Int) ≤ c
    · have hnil : res = [] := by
        have hc : (c : Int) ≠ 0 ∨ (limit : Int) < maxLonglong := .inl (by omega)
        rw [selectLimit_eq (Int.natCast_nonneg c) (Int.natCast_nonneg limit) hc, Option.some.injEq] at hres
        rw [← hres, drop_eq_nil_of_le (by omega), take_nil]
      rw [if_pos hskip, hnil, nil_append, show (c : Int) - t.length = ((c - t.length : Nat) : Int) by omega, ih]
    · rw [if_neg hskip, show c - t.length = 0 by omega, ← ih]
      cases res <;> rfl

theorem selectLimit_part (t : List α) (c limit : Nat) : ((selectLimit t c limit).getD []).Sublist (t.drop c) ∧
      (((selectLimit t c limit).getD []).length = (t.drop c).length ↔ t.length - c ≤ limit ∨ c = 0 ∧
        maxLonglong ≤ limit) := by
  by_cases h : (c : Int) ≠ 0 ∨ (limit : Int) < maxLonglong
  · rw [selectLimit_eq (Int.natCast_nonneg c) (Int.natCast_nonneg limit) h, Option.getD_some, Int.toNat_natCast,
      Int.toNat_natCast]
    refine ⟨take_sublist .., ?_⟩
    rw [length_take, length_drop]
    omega
  · obtain ⟨rfl, hlimit⟩ : c = 0 ∧ maxLonglong ≤ limit := by omega
    rw [Nat.cast_zero, selectLimit_all hlimit, Option.getD_some, drop_zero]
    exact ⟨.refl _, by simp [hlimit]⟩

theorem sentRows_sublist (limit c : Nat) (ts : List (List α)) : (sentRows limit c ts).Sublist (ts.flatten.drop c) := by
  induction ts generalizing c with
  | nil => exact nil_sublist _
  | cons t ts ih =>
    rw [sentRows, flatten_cons, drop_append]
    exact (selectLimit_part t c limit).1.append (ih _)

theorem length_sentRows_iff (limit c : Nat) (ts : List (List α)) :
    (sentRows limit c ts).length = (ts.flatten.drop c).length ↔ AllSent limit c (ts.map length) := by
  induction ts generalizing c with
  | nil => simp [sentRows, AllSent]
  | cons t ts ih =>
    rw [map_cons, AllSent, ← (selectLimit_part t c limit).2, ← ih, sentRows, flatten_cons, drop_append,
      length_append, length_append]
    have hpart := (selectLimit_part t c limit).1.length_le
    have hrest := (sentRows_sublist limit (c - t.length) ts).length_le
    omega

section Answer
variable [DecidableEq β] (o : Options) {q : Limits} (f : α → β)

/-- There is no `DISTINCT`; and with `SQL_CALC_FOUND_ROWS` all rows behind the offset are sent, unless the number is taken
from the statistics. -/
def Options.Fits (q : Limits) (sizes : List Nat) : Prop :=
  o.distinct = false ∧ (o.foundRows = true → o.fromStats = true ∨ AllSent q.limit q.offset sizes)

instance (q : Limits) (sizes : List Nat) : Decidable (o.Fits q sizes) := by
  unfold Options.Fits
  infer_instance

theorem count_iff {k n : Nat} (hn : q.offset < n) (hmin : min q.limit k = min q.limit (n - q.offset)) :
    o.count q (q.offset + k) = o.count q n ↔ (o.foundRows → o.fromStats ∨ k = n - q.offset) := by
  unfold Options.count
  cases o.foundRows with
  | false =>
    simp only [Bool.false_eq_true, if_false, IsEmpty.forall_iff, iff_true]
    omega
  | true =>
    cases o.fromStats with
    | true =>
      simp only [if_true, true_and, true_or, forall_const, iff_true]
      split_ifs <;> omega
    | false =>
      simp only [if_true, Bool.false_eq_true, false_and, if_false, false_or, forall_const]
      omega

theorem padded_sentRows {tables : List (List α)} (hm : 0 < q.limit) (hlt : q.offset < tables.flatten.length) :
    ∃ a as, sentRows q.limit q.offset tables = a :: as ∧
      padded q.offset (Limit.fetched q.limit q.offset tables) = List.replicate q.offset a ++ a :: as := by
  have htake := take_fetched (Int.natCast_nonneg q.offset) (Int.natCast_nonneg q.limit) tables
  rcases fetched_cases (q.limit : Int) q.offset tables with hnil | ⟨a, as, rest, hcons⟩
  · have hlen := congrArg List.length htake
    rw [hnil] at hlen
    simp only [flatten_nil, take_nil, length_nil, length_take, length_drop] at hlen
    omega
  · refine ⟨a, as ++ rest.flatten, ?_, ?_⟩
    · rw [← fetched_flatten, hcons, flatten_cons, cons_append]
    · rw [hcons, padded_eq, flatten_cons, cons_append]

theorem take_sentRows (q : Limits) (tables : List (List α)) :
    (sentRows q.limit q.offset tables).take q.limit = (tables.flatten.drop q.offset).take q.limit := by
  have htake := take_fetched (Int.natCast_nonneg q.offset) (Int.natCast_nonneg q.limit) tables
  rwa [fetched_flatten, Int.toNat_natCast, Int.toNat_natCast] at htake

theorem answer_padded_iff {tables : List (List α)} (hm : 0 < q.limit) (hlt : q.offset < tables.flatten.length)
    (hdistinct : o.distinct = false) : o.answer q (tables.flatten.map f) =
        o.answer q ((padded q.offset (Limit.fetched q.limit q.offset tables)).map f) ↔ o.Fits q (tables.map length) := by
  obtain ⟨a, as, hsent, hpadded⟩ := padded_sentRows hm hlt
  have htake := take_sentRows q tables
  rw [hsent] at htake
  have hrows : ((tables.flatten.map f).drop q.offset).take q.limit =
      ((List.replicate q.offset (f a) ++ f a :: as.map f).drop q.offset).take q.limit := by
    rw [drop_left' (length_replicate ..), ← map_cons, ← map_take, htake, map_take, map_drop]
  have hmin : min q.limit (a :: as).length = min q.limit (tables.flatten.length - q.offset) := by
    have hlen := congrArg List.length htake
    rwa [length_take, length_take, length_drop] at hlen
  rw [answer_eq o hm, answer_eq o hm, hpadded, map_append, map_replicate, map_cons, Options.Fits,
    ← length_sentRows_iff, hsent,
    length_drop, ← count_iff o hlt hmin]
  simp only [hdistinct, Bool.false_eq_true, if_false, Options.window, hrows, Prod.mk.injEq, true_and,
    length_map, length_append,
    length_replicate, length_cons]
  exact eq_comm

theorem firsts_of_nodup {seen rows : List β} (h : (seen ++ rows).Nodup) : firsts seen rows = rows := by
  induction rows generalizing seen with
  | nil => rfl
  | cons b bs ih =>
    have hb : b ∉ seen := fun hmem => (nodup_append'.mp h).2.2 hmem (mem_cons_self ..)
    rw [firsts, if_neg hb, ih (by simpa using h)]

/-- With `DISTINCT` and rows that all differ the server discards rows behind the offset. -/
theorem answer_padded_distinct {tables : List (List α)} (hn : 0 < q.offset) (hm : 0 < q.limit)
    (hlt : q.offset < tables.flatten.length) (hdistinct : o.distinct = true) (hnodup : (tables.flatten.map f).Nodup) :
    o.answer q (tables.flatten.map f) ≠ o.answer q ((padded q.offset (Limit.fetched q.limit q.offset tables)).map f) := by
  obtain ⟨a, as, hsent, hpadded⟩ := padded_sentRows hm hlt
  have htake := take_sentRows q tables
  have hsub := ((sentRows_sublist q.limit q.offset tables).trans (drop_sublist ..)).map f
  have hfew := hnodup.sublist hsub
  rw [hsent] at htake hfew
  rw [answer_eq o hm, answer_eq o hm, hpadded, map_append, map_replicate, map_cons, hdistinct, if_pos rfl, if_pos rfl,
    firsts_replicate, firsts_of_nodup (by simpa using hnodup), firsts_of_nodup (by simpa using hfew)]
  intro heq
  have hrows := congrArg Prod.fst heq
  simp only [Options.window] at hrows
  rw [← map_drop, ← map_take, ← htake] at hrows
  -- The first row behind the offset is the first one sent, which is not sent again.
  obtain ⟨k, hk⟩ := Nat.exists_eq_succ_of_ne_zero hm.ne'
  obtain ⟨i, hi⟩ := Nat.exists_eq_succ_of_ne_zero hn.ne'
  rw [hk, take_succ_cons, map_cons, hi, drop_succ_cons] at hrows
  have hmem : f a ∈ ((as.map f).drop i).take (k + 1) := hrows ▸ mem_cons_self ..
  exact (nodup_cons.mp hfew).1 (mem_of_mem_drop (mem_of_mem_take hmem))

end Answer

theorem ScanHandler.limits_of_accepts {h : ScanHandler} {lex : SelectLex} {q : Limits} (hlex : h.selectLex = some lex)
    (hq : lex.limits = some q) (hacc : h.accepts = true) : longlong q.limit ≠ 0 ∧ longlong q.offset ≠ 0 := by
  unfold accepts at hacc
  rw [hlex] at hacc
  simp only [getSelectLimit, Option.bind_some, hq, Bool.and_eq_true, decide_eq_true_eq] at hacc
  tauto

/-- Whether the select list holds a unique key or a column, and the statistics of the table. Only with `SQL_CALC_FOUND_ROWS`
there is no limit on the temporary table, and `DISTINCT` becomes `GROUP BY`. -/
def SelectLex.options (lex : SelectLex) (selectsUnique selectsColumn exactRecords : Bool) (statRecords : Nat) : Options where
  distinct := lex.distinct && !selectsUnique
  grouped := lex.distinct && !selectsUnique && lex.foundRows && selectsColumn
  foundRows := lex.foundRows
  exactRecords := exactRecords
  statRecords := statRecords

section Transparent
variable [DecidableEq β] (o : Options) {q : Limits} (f : α → β) (d : Direct) (buf : α) {tables : List (List α)}

theorem setDirectLimitOffset_first (q : Limits) (t : List α) (d : Direct) :
    setDirectLimitOffset q (.init true t) d = ⟨longlong q.offset, longlong q.offset, longlong q.limit⟩ := rfl

def Options.Transparent (q : Limits) (tables : List (List α)) : Prop :=
  ∃ fuel, o.pushed q f fuel (scanAll tables d buf) = some (o.answer q (tables.flatten.map f))

theorem transparent_of_nil (ho : q.offset < 2 ^ 63) (ho0 : 0 < q.offset) (hl0 : longlong q.limit ≠ 0)
    (hnil : tables.flatten = []) : o.Transparent f d buf q tables := by
  have hyields : (scanAll tables d buf).Yields q [] := by
    cases tables with
    | nil => exact .nil rfl
    | cons t ts =>
      obtain ⟨rfl, hts⟩ : t = [] ∧ ts.flatten = [] := append_eq_nil_iff.mp hnil
      have hc : 0 < longlong q.offset := by rw [longlong_of_lt ho]; omega
      obtain ⟨u, hu⟩ : ∃ u, rndNext q (.init true [] :: ts.map (.init false)) d buf = (.eof, u) :=
        rndNext_eof rfl rfl (setDirectLimitOffset_first q [] d) rfl hl0 hc fun e hel hec => rndNext_init_eof hts hel hec buf
      exact .nil hu
  exact (pushed_iff o f hyields _).mpr (by rw [hnil, map_nil])

theorem not_transparent_offset (ho : 2 ^ 63 ≤ q.offset) (ho' : q.offset < 2 ^ 64) (hl0 : longlong q.limit ≠ 0)
    (hm : 0 < q.limit) (t : List α) (ts : List (List α)) : ¬ o.Transparent f d buf q (t :: ts) := by
  rintro ⟨fuel, hfuel⟩
  have hrefused : (rndNext q (scanAll (t :: ts) d buf).parts d buf).1 = .error :=
    rndNext_refused rfl rfl (setDirectLimitOffset_first q t d) hl0 (longlong_neg ho ho')
  have hcode : (rndNext q (scanAll (t :: ts) d buf).parts d buf).1 ≠ .ok := by rw [hrefused]; decide
  have heof := (pushed_of_not_ok hm hcode hfuel).2
  rw [show (rndNext q (scanAll (t :: ts) d buf).parts (scanAll (t :: ts) d buf).direct (scanAll (t :: ts) d buf).buf).1 =
    .error from hrefused] at heof
  cases heof

theorem not_transparent_limit (hl : 2 ^ 63 ≤ q.limit) (hl' : q.limit < 2 ^ 64)
    (hne : tables.flatten ≠ []) : ¬ o.Transparent f d buf q tables := by
  rintro ⟨fuel, hfuel⟩
  have hm : 0 < q.limit := by omega
  cases tables with
  | nil => exact hne rfl
  | cons t ts =>
    have hcode := rndNext_ne_ok rfl rfl (setDirectLimitOffset_first q t d) (longlong_neg hl hl') fun e he =>
        rndNext_init_ne_ok ts he buf
    have hnil := (answer_eq_nil_iff hm _).mp (pushed_of_not_ok hm hcode hfuel).1
    exact hne (map_eq_nil_iff.mp hnil)

theorem yields_scanAll (ho : q.offset < 2 ^ 63) (hl : q.limit < 2 ^ 63) (hm : 0 < q.limit) (tables : List (List α)) :
    (scanAll tables d buf).Yields q (padded q.offset (Limit.fetched q.limit q.offset tables)) := by
  cases tables with
  | nil => exact .nil rfl
  | cons t ts =>
    have hd : setDirectLimitOffset q (.init true t) d = ⟨q.offset, q.offset, q.limit⟩ := by
      rw [setDirectLimitOffset_first, longlong_of_lt ho, longlong_of_lt hl]
    exact yields_first rfl rfl hd (Int.natCast_nonneg _) (Int.natCast_pos.mpr hm)
      (fun e hec hel buf => yields_init ts e hec hel buf) buf

theorem not_transparent_behind (ho : q.offset < 2 ^ 63) (hl : q.limit < 2 ^ 63) (hm : 0 < q.limit)
    (hne : tables.flatten ≠ []) (hle : tables.flatten.length ≤ q.offset) : ¬ o.Transparent f d buf q tables := by
  intro h
  have hpadded : padded q.offset (Limit.fetched q.limit q.offset tables) = [] := by
    have htake := take_fetched (Int.natCast_nonneg q.offset) (Int.natCast_nonneg q.limit) tables
    simp only [Int.toNat_natCast, drop_eq_nil_of_le hle, take_nil] at htake
    rcases fetched_cases (q.limit : Int) q.offset tables with hnil | ⟨a, as, rest, hcons⟩
    · simp [hnil, padded]
    · rw [hcons, flatten_cons, cons_append, take_eq_nil_iff] at htake
      rcases htake with hzero | hcons
      · omega
      · cases hcons
  have hanswer := (pushed_iff o f (yields_scanAll d buf ho hl hm tables) _).mp h
  rw [hpadded, map_nil, (answer_eq_nil_iff hm []).mpr rfl, answer_eq_nil_iff hm, map_eq_nil_iff] at hanswer
  exact hne hanswer

theorem transparent_nil_iff (ho : q.offset < 2 ^ 64) (ho0 : 0 < q.offset) (hl0 : longlong q.limit ≠ 0) (hm : 0 < q.limit)
    (hnil : tables.flatten = []) : o.Transparent f d buf q tables ↔ tables = [] ∨ q.offset < 2 ^ 63 := by
  constructor
  · intro h
    by_contra hbad
    push Not at hbad
    obtain ⟨t, ts, rfl⟩ := exists_cons_of_ne_nil hbad.1
    exact not_transparent_offset o f d buf hbad.2 ho hl0 hm t ts h
  · rintro (rfl | ho63)
    · exact (pushed_iff o f (.nil rfl) _).mpr rfl
    · exact transparent_of_nil o f d buf ho63 ho0 hl0 hnil

theorem transparent_cons_iff (ho : q.offset < 2 ^ 64) (hl : q.limit < 2 ^ 64) (hl0 : longlong q.limit ≠ 0) (hm : 0 < q.limit)
    (hne : tables.flatten ≠ []) : o.Transparent f d buf q tables ↔
      q.offset < 2 ^ 63 ∧ q.limit < 2 ^ 63 ∧ q.offset < tables.flatten.length ∧ o.answer q (tables.flatten.map f) =
        o.answer q ((padded q.offset (Limit.fetched q.limit q.offset tables)).map f) := by
  constructor
  · intro h
    have ho63 : q.offset < 2 ^ 63 := by
      by_contra hge
      cases tables with
      | nil => exact hne rfl
      | cons t ts => exact not_transparent_offset o f d buf (not_lt.mp hge) ho hl0 hm t ts h
    have hl63 : q.limit < 2 ^ 63 := by
      by_contra hge
      exact not_transparent_limit o f d buf (not_lt.mp hge) hl hne h
    have hlt : q.offset < tables.flatten.length := by
      by_contra hge
      exact not_transparent_behind o f d buf ho63 hl63 hm hne (not_lt.mp hge) h
    exact ⟨ho63, hl63, hlt, (pushed_iff o f (yields_scanAll d buf ho63 hl63 hm tables) _).mp h⟩
  · rintro ⟨ho63, hl63, -, hanswer⟩
    exact (pushed_iff o f (yields_scanAll d buf ho63 hl63 hm tables) _).mpr hanswer

end Transparent

/-- Partitions of the given sizes with rows that all differ. -/
def numbered : Nat → List Nat → List (List Nat)
  | _, [] => []
  | k, n :: ns => List.range' k n :: numbered (k + n) ns

theorem map_length_numbered (k : Nat) (sizes : List Nat) : (numbered k sizes).map length = sizes := by
  induction sizes generalizing k with
  | nil => rfl
  | cons n ns ih => rw [numbered, map_cons, length_range', ih]

theorem flatten_numbered (k : Nat) (sizes : List Nat) : (numbered k sizes).flatten = List.range' k sizes.sum := by
  induction sizes generalizing k with
  | nil => rfl
  | cons n ns ih => rw [numbered, flatten_cons, ih, sum_cons, range'_append_1]

def ScanHandler.ofLimits (q : Limits) (distinct foundRows : Bool) : ScanHandler where
  select := true
  directAggregate := false
  directOrderLimit := false
  rndInit := true
  selectLex := some {
    leafTables := 1, tableList := 1, distinct, foundRows, groupList := [], withSumFunc := false, sumFuncs := []
    having := false, orderList := [], limits := some q }
  partitionHt := true
  condition := false
  whereSubquery := false
  mainSelect := true

def ScanHandler.options (h : ScanHandler) : Options :=
  (h.selectLex.map fun lex => lex.options false true false 0).getD ⟨false, false, false, false, 0⟩

end TSpider.Limit

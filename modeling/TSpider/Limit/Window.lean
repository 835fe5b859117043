import Mathlib.Data.List.Basic
import TSpider.Limit.Exact

/-!
# The windows of a scan after other statements

A handler is reused from statement to statement. `spider_set_direct_limit_offset` sets the counters of the handler it is
called for, but the windows are taken from those of the creator, which nothing else resets.

`windows_own_iff` : they are those of the clause after every history if and only if the creator is the first partition that
the statement uses.
-/

namespace TSpider.Limit
open List

variable {α : Type*}

abbrev Window := Int × Int

/-- The window with which the next call of `rnd_next_internal` scans the partition, if it starts it; `none` if it starts it
and asks nothing. -/
def Part.asks (q : Limits) (p : Part α) (d : Direct) : List (Option Window) :=
  if p.scanAndFirst then
    let d := setDirectLimitOffset q p d
    if d.selectLimit = 0 ∨ (0 < d.currentOffset ∧ (p.rows.length : Int) ≤ d.currentOffset) then [none]
    else [some (d.currentOffset, d.selectLimit)]
  else []

def asksNext (q : Limits) : List (Part α) → Direct → α → List (Option Window)
  | [], _, _ => []
  | p :: ps, d, buf =>
    p.asks q d ++ match p.rndNext q d buf with
      | (.eof, _, d, buf) => asksNext q ps d buf
      | _ => []

def Scan.asks (q : Limits) : Nat → Scan α → List (Option Window)
  | 0, _ => []
  | k + 1, s =>
    asksNext q s.parts s.direct s.buf ++ match rndNext q s.parts s.direct s.buf with
      | (.ok, t) => t.asks q k
      | _ => []

def Scan.after (q : Limits) : Nat → Scan α → Scan α
  | 0, s => s
  | k + 1, s =>
    match rndNext q s.parts s.direct s.buf with
    | (.ok, t) => t.after q k
    | (_, t) => t

/-- A statement with a clause that is pushed down. There is no pre-scan call for it (`check_pre_call`). -/
structure Statement (α : Type*) where
  limits : Limits
  limit_ne : longlong limits.limit ≠ 0
  offset_ne : longlong limits.offset ≠ 0
  used : List Nat
  used_ne : used ≠ []
  used_lt : used.Pairwise (· < ·)
  rows : Nat → List α
  /-- The row buffer before the statement. -/
  buf : α

open Statement

namespace Statement
variable (st : Statement α) (creator : Nat) (d : Direct)

def tables : List (List α) := st.used.map st.rows

def scan : Scan α := ⟨initParts (st.used.idxOf creator) st.tables, d, st.buf⟩

def result : Option (List α) := limitRows st.limits false (st.used.idxOf creator) d st.buf st.tables

/-- The windows of a clause: partitions that the offset covers are not asked, the next is asked from the rest of the offset
on, the others from their start. -/
def windowsFrom (limit : Int) : Int → List (List α) → List (Option Window)
  | _, [] => []
  | c, t :: ts =>
    if 0 < c ∧ (t.length : Int) ≤ c then none :: windowsFrom limit (c - t.length) ts
    else some (c, limit) :: windowsFrom limit 0 ts

def windows : List (Option Window) := windowsFrom (longlong st.limits.limit) (longlong st.limits.offset) st.tables

def ownResult : Option (List α) := limitRows st.limits false 0 ⟨0, 0, 0⟩ st.buf st.tables

end Statement

structure Earlier (α : Type*) extends Statement α where
  reads : Nat

/-- The counters of the creator after earlier statements. Statements that are not pushed down do not touch them. -/
def countersAfter (creator : Nat) (history : List (Earlier α)) (d : Direct) : Direct :=
  history.foldl (fun d e => ((e.scan creator d).after e.limits e.reads).direct) d

/-! ## The windows of one scan -/

open Statement (windowsFrom)

variable {q : Limits}

section First
variable {p : Part α} (hfirst : p.scanAndFirst = true) (hpre : p.usePreCall = false) {d d' : Direct}
  (hd : setDirectLimitOffset q p d = d') (hl : d'.selectLimit ≠ 0)
include hfirst hpre hd hl

theorem rndNext_covered (hskip : 0 < d'.currentOffset ∧ (p.rows.length : Int) ≤ d'.currentOffset) (buf : α) :
    p.asks q d = [none] ∧
      p.rndNext q d buf = (.eof, p, { d' with currentOffset := d'.currentOffset - p.rows.length }, buf) := by
  constructor
  · simp only [Part.asks, hfirst, hd, hskip, and_self, or_true, if_true]
  · simp only [Part.rndNext, Part.rndNextInternal, hpre, hfirst, hd, hl, hskip, and_self, if_true, if_false,
      Bool.false_eq_true]

theorem rndNext_asked (hskip : ¬ (0 < d'.currentOffset ∧ (p.rows.length : Int) ≤ d'.currentOffset)) (buf : α) :
    p.asks q d = [some (d'.currentOffset, d'.selectLimit)] ∧
      p.rndNext q d buf = match selectLimit p.rows d'.currentOffset d'.selectLimit with
        | none => (.error, p, { d' with currentOffset := 0 }, buf)
        | some [] => (.eof, p, { d' with currentOffset := 0 }, buf)
        | some (a :: as) =>
          (.ok, { p with scanAndFirst := false, result := as }, { d' with currentOffset := 0 }, a) := by
  constructor
  · simp only [Part.asks, hfirst, hd, hl, hskip, or_self, if_true, if_false]
  · rcases hsel : selectLimit p.rows d'.currentOffset d'.selectLimit with _ | (_ | _) <;>
      simp only [Part.rndNext, Part.rndNextInternal, hpre, hfirst, hd, hl, hskip, hsel, if_true, if_false, Bool.false_eq_true]

end First

def Part.Stored (p : Part α) : Prop := p.scanAndFirst = false ∧ p.usePreCall = false

def Rest (limit : Int) (ws : List (Option Window)) (t : Scan α) : Prop :=
  ∃ (p : Part α) (ts : List (List α)), p.Stored ∧ t.parts = p :: ts.map (.init false) ∧ t.direct.selectLimit = limit ∧
    ws = windowsFrom limit t.direct.currentOffset ts

def Meets (q : Limits) (limit c : Int) (ts : List (List α)) (s : Scan α) : Prop :=
  ∃ ws, windowsFrom limit c ts = asksNext q s.parts s.direct s.buf ++ ws ∧
    ∀ t, rndNext q s.parts s.direct s.buf = (.ok, t) → Rest limit ws t

theorem meets_first {p : Part α} (hfirst : p.scanAndFirst = true) (hpre : p.usePreCall = false) {d d' : Direct}
    (hd : setDirectLimitOffset q p d = d') (hl : d'.selectLimit ≠ 0) {ts : List (List α)} {buf : α}
    (hnext : ∀ c, Meets q d'.selectLimit c ts ⟨ts.map (.init false), { d' with currentOffset := c }, buf⟩) :
    Meets q d'.selectLimit d'.currentOffset (p.rows :: ts) ⟨p :: ts.map (.init false), d, buf⟩ := by
  unfold Meets windowsFrom
  by_cases hskip : 0 < d'.currentOffset ∧ (p.rows.length : Int) ≤ d'.currentOffset
  · obtain ⟨hasks, hcall⟩ := rndNext_covered hfirst hpre hd hl hskip buf
    obtain ⟨ws, hws, hrest⟩ := hnext (d'.currentOffset - p.rows.length)
    refine ⟨ws, ?_, ?_⟩
    · rw [if_pos hskip]
      simp only [asksNext, hasks, hcall, cons_append, nil_append, hws]
    · simpa only [rndNext, hcall] using hrest
  · obtain ⟨hasks, hcall⟩ := rndNext_asked hfirst hpre hd hl hskip buf
    rw [if_neg hskip]
    rcases hres : selectLimit p.rows d'.currentOffset d'.selectLimit with _ | (_ | ⟨a, as⟩)
    · rw [hres] at hcall
      refine ⟨windowsFrom d'.selectLimit 0 ts, ?_, ?_⟩
      · simp only [asksNext, hasks, hcall, append_nil, cons_append, nil_append]
      · simp only [rndNext, hcall]
        rintro t ⟨⟩
    · rw [hres] at hcall
      obtain ⟨ws, hws, hrest⟩ := hnext 0
      refine ⟨ws, ?_, ?_⟩
      · simp only [asksNext, hasks, hcall, cons_append, nil_append, hws]
      · simpa only [rndNext, hcall] using hrest
    · rw [hres] at hcall
      refine ⟨windowsFrom d'.selectLimit 0 ts, ?_, ?_⟩
      · simp only [asksNext, hasks, hcall, append_nil, cons_append, nil_append]
      · simp only [rndNext, hcall]
        rintro t ⟨⟩
        exact ⟨{ p with scanAndFirst := false, result := as }, ts, ⟨rfl, hpre⟩, rfl, rfl, rfl⟩

theorem meets_init (ts : List (List α)) {d : Direct} (hl : d.selectLimit ≠ 0) (buf : α) :
    Meets q d.selectLimit d.currentOffset ts ⟨ts.map (.init false), d, buf⟩ := by
  induction ts generalizing d with
  | nil => exact ⟨[], rfl, nofun⟩
  | cons t ts ih =>
    exact meets_first (p := .init false t) rfl rfl rfl hl fun c => ih (d := { d with currentOffset := c }) hl

theorem Part.Stored.rndNext {p : Part α} (hp : p.Stored) (ps : List (Part α)) (d : Direct) (buf : α) :
    p.asks q d = [] ∧
      ((∃ p' o buf', p'.Stored ∧ Limit.rndNext q (p :: ps) d buf = (.ok, ⟨p' :: ps, { d with selectOffset := o }, buf'⟩) ∧
          asksNext q (p :: ps) d buf = []) ∨
        (Limit.rndNext q (p :: ps) d buf = Limit.rndNext q ps d buf ∧
          asksNext q (p :: ps) d buf = asksNext q ps d buf)) := by
  obtain ⟨hfirst, hpre⟩ := hp
  have hasks : p.asks q d = [] := by simp [Part.asks, hfirst]
  refine ⟨hasks, ?_⟩
  have hcall : p.rndNext q d buf =
      if 0 < d.selectOffset then (.ok, p, { d with selectOffset := d.selectOffset - 1 }, buf) else p.seekNext d buf := by
    simp [Part.rndNext, Part.rndNextInternal, hfirst, hpre]
  by_cases hpos : 0 < d.selectOffset
  · rw [if_pos hpos] at hcall
    exact .inl ⟨p, d.selectOffset - 1, buf, ⟨hfirst, hpre⟩, by simp [Limit.rndNext, hcall], by simp [asksNext, hcall, hasks]⟩
  · rw [if_neg hpos] at hcall
    unfold Part.seekNext at hcall
    cases hres : p.result with
    | nil =>
      rw [hres] at hcall
      exact .inr ⟨by simp [Limit.rndNext, hcall], by simp [asksNext, hcall, hasks]⟩
    | cons a as =>
      rw [hres] at hcall
      exact .inl ⟨{ p with result := as }, d.selectOffset, a, ⟨hfirst, hpre⟩, by simp [Limit.rndNext, hcall],
        by simp [asksNext, hcall, hasks]⟩

theorem Meets.asks {limit c : Int} {ts : List (List α)} {s : Scan α} (h : Meets q limit c ts s) {k : Nat}
    (hlater : ∀ (ws : List (Option Window)) (t : Scan α), Rest limit ws t → t.asks q k <+: ws) :
    s.asks q (k + 1) <+: windowsFrom limit c ts := by
  obtain ⟨ws, hws, hrest⟩ := h
  rw [hws, Scan.asks]
  refine prefix_append_right_inj _ |>.mpr ?_
  match hcall : rndNext q s.parts s.direct s.buf with
  | (.ok, t) => exact hlater ws t (hrest t hcall)
  | (.eof, t) => exact nil_prefix
  | (.error, t) => exact nil_prefix

theorem Rest.asks {limit : Int} (hl : limit ≠ 0) (k : Nat) {ws : List (Option Window)} {t : Scan α}
    (h : Rest limit ws t) : t.asks q k <+: ws := by
  induction k generalizing ws t with
  | zero => exact nil_prefix
  | succ k ih =>
    obtain ⟨p, ts, hp, hparts, rfl, rfl⟩ := h
    obtain ⟨parts, e, buf⟩ := t
    obtain rfl : parts = p :: ts.map (.init false) := hparts
    rcases (hp.rndNext (q := q) (ts.map (.init false)) e buf).2 with ⟨p', o, buf', hp', hcall, hasks⟩ | ⟨hcall, hasks⟩
    · simp only [Scan.asks, hcall, hasks, nil_append]
      exact ih ⟨p', ts, hp', rfl, rfl, rfl⟩
    · have h := (meets_init ts hl buf).asks (k := k) fun ws t hrest => ih hrest
      simpa only [Scan.asks, hcall, hasks] using h

/-! ## The statement -/

namespace Statement
variable {st : Statement α} {creator : Nat}

theorem idxOf_eq_zero (h : st.used.head? = some creator) : st.used.idxOf creator = 0 := by
  obtain ⟨is, his⟩ : ∃ is, st.used = creator :: is := by
    cases hused : st.used with
    | nil => exact absurd hused st.used_ne
    | cons i is =>
      rw [hused] at h
      exact ⟨is, by rw [Option.some.inj h]⟩
  rw [his, idxOf_cons_self]

theorem exists_tables (st : Statement α) : ∃ t ts, st.tables = t :: ts := by
  cases hused : st.used with
  | nil => exact absurd hused st.used_ne
  | cons i is => exact ⟨st.rows i, is.map st.rows, by rw [tables, hused, map_cons]⟩

def counters (st : Statement α) : Direct := ⟨longlong st.limits.offset, longlong st.limits.offset, longlong st.limits.limit⟩

theorem asks_of_first (h : st.used.head? = some creator) (d : Direct) (k : Nat) :
    (st.scan creator d).asks st.limits k <+: st.windows := by
  obtain ⟨t, ts, htables⟩ := st.exists_tables
  cases k with
  | zero => exact nil_prefix
  | succ k =>
    have hmeets : Meets st.limits st.counters.selectLimit st.counters.currentOffset (t :: ts)
        ⟨.init true t :: ts.map (.init false), d, st.buf⟩ :=
      meets_first (p := .init true t) rfl rfl rfl st.limit_ne fun c =>
        meets_init ts (d := { st.counters with currentOffset := c }) st.limit_ne st.buf
    have hasks := hmeets.asks fun ws t hrest => hrest.asks st.limit_ne k
    rw [scan, idxOf_eq_zero h, windows, htables]
    exact hasks

end Statement

theorem limitRows_creator_congr (q : Limits) (d d' : Direct) (buf : α) (tables : List (List α)) :
    limitRows q false 0 d buf tables = limitRows q false 0 d' buf tables := by
  cases tables with
  | nil => rw [limitRows_nil, limitRows_nil]
  | cons t ts =>
    have hcall : rndNext q (initParts 0 (t :: ts)) d buf = rndNext q (initParts 0 (t :: ts)) d' buf := rfl
    have hread : ∀ k, Scan.read q k ⟨initParts 0 (t :: ts), d, buf⟩ = Scan.read q k ⟨initParts 0 (t :: ts), d', buf⟩ := by
      intro k
      cases k with
      | zero => rfl
      | succ k => simp only [Scan.read, hcall]
    have hpre := initParts_usePreCall 0 (t :: ts)
    simp only [limitRows, preScan_false hpre, hread]

namespace Statement
variable {st : Statement α} {creator : Nat}

def onCreator (creator : Nat) (buf : α) : Earlier α where
  limits := ⟨1, 1⟩
  limit_ne := by decide
  offset_ne := by decide
  used := [creator]
  used_ne := cons_ne_nil _ _
  used_lt := pairwise_singleton ..
  rows := fun _ => [buf]
  buf := buf
  reads := 1

theorem countersAfter_onCreator (creator : Nat) (buf : α) (d : Direct) :
    countersAfter creator [onCreator creator buf] d = ⟨1, 0, 1⟩ := by
  have hscan : (onCreator creator buf).scan creator d = ⟨[.init true [buf]], d, buf⟩ := by
    simp [scan, onCreator, tables, initParts]
  simp only [countersAfter, foldl_cons, foldl_nil, hscan]
  rfl

theorem asks_of_not_first (h : st.used.head? ≠ some creator) :
    ∃ ws, (st.scan creator ⟨1, 0, 1⟩).asks st.limits 1 = some (0, 1) :: ws := by
  obtain ⟨t, ts, htables⟩ := st.exists_tables
  obtain ⟨c, hc⟩ : ∃ c, st.used.idxOf creator = c + 1 := by
    cases hused : st.used with
    | nil => exact absurd hused st.used_ne
    | cons i is =>
      have hne : i ≠ creator := by
        rintro rfl
        exact h (by rw [hused, List.head?_cons])
      exact ⟨is.idxOf creator, idxOf_cons_ne _ hne⟩
  rw [scan, htables, hc, initParts]
  exact ⟨_, rfl⟩

theorem windows_head (st : Statement α) (ws : List (Option Window)) : ¬ some (0, 1) :: ws <+: st.windows := by
  obtain ⟨t, ts, htables⟩ := st.exists_tables
  rw [windows, htables, windowsFrom]
  split_ifs with hskip
  · intro h
    cases (cons_prefix_cons.mp h).1
  · intro h
    have hoffset := (cons_prefix_cons.mp h).1
    simp only [Option.some.injEq, Prod.mk.injEq] at hoffset
    exact st.offset_ne hoffset.1.symm

end Statement

/-- **A statement's windows are its own after every history** exactly if the handler that created the shared counters is that
of the first partition used. -/
theorem windows_own_iff (st : Statement α) (creator : Nat) (d : Direct) : (∀ history : List (Earlier α),
      (∀ k, (st.scan creator (countersAfter creator history d)).asks st.limits k <+: st.windows) ∧
        st.result creator (countersAfter creator history d) = st.ownResult) ↔ st.used.head? = some creator := by
  constructor
  · intro h
    by_contra hne
    obtain ⟨ws, hws⟩ := asks_of_not_first hne
    have hprefix := (h [onCreator creator st.buf]).1 1
    rw [countersAfter_onCreator, hws] at hprefix
    exact st.windows_head ws hprefix
  · intro h history
    refine ⟨fun k => asks_of_first h _ k, ?_⟩
    rw [result, idxOf_eq_zero h]
    exact limitRows_creator_congr ..

def Statement.onSecond : Statement Nat where
  limits := ⟨1, 1⟩
  limit_ne := by decide
  offset_ne := by decide
  used := [1]
  used_ne := by decide
  used_lt := by decide
  rows := fun i => if i = 1 then [1, 2, 3] else [4]
  buf := 0

/-- A statement on the first partition leaves the counters there, and the second is asked for its first row. -/
theorem not_windows_own : (onSecond.scan 0 (countersAfter 0 [onCreator 0 0] ⟨0, 0, 0⟩)).asks ⟨1, 1⟩ 1 = [some (0, 1)] ∧
    onSecond.windows = [some (1, 1)] ∧ onSecond.result 0 (countersAfter 0 [onCreator 0 0] ⟨0, 0, 0⟩) = some [1] ∧
    onSecond.ownResult = some [2] := by
  refine ⟨by decide, by decide, by decide, by decide⟩

end TSpider.Limit

import TSpider.Limit.Seek

/-!
# Paged reading is exact

`Inv` relates a state between two calls to the remote result `w`: the rows of the page that are not fetched yet are the next
rows of `w`, an open result continues them, and unless the end was reported every query has been answered in full.
-/

namespace TSpider.Seek
open Settings State List

variable {α : Type} {cfg : Settings} {w : List α} {s : State α}

def Settings.total (cfg : Settings) (w : List α) : Nat := min cfg.internalLimit w.length

/-- The split-read size of the `n`-th query, if each page has its own. -/
def Settings.querySize (cfg : Settings) : Nat → Nat
  | 0 => 0
  | 1 => cfg.firstSize
  | n + 2 => cfg.nextSize (n + 1)

def Settings.offset (cfg : Settings) : Nat → Nat
  | 0 => 0
  | n + 1 => cfg.offset n + cfg.querySize n

/-- The condition on the parameters and the number of rows: pages have a size, every query asks for a row, and with temporary
tables a page that is cut to one row is of size one, or a page of a query with one row. -/
structure Settings.Fits (cfg : Settings) (w : List α) : Prop where
  page : cfg.quickMode = .collective ∨ cfg.quickPageSize ≠ 0
  first : 0 < cfg.firstSize
  next : ∀ n, 0 < cfg.nextSize n
  const : cfg.quickMode = .stored → ∀ n, cfg.constIndexRead n = true →
    cfg.quickPageSize = 1 ∨ min (cfg.querySize n) (cfg.total w - cfg.offset n) ≤ 1

/-- A query that was answered in full and has not reached the limit: its answer does not report the end. -/
def Open (cfg : Settings) (w : List α) (q : Nat × Nat) : Prop := q.1 + q.2 ≤ w.length ∧ q.1 + q.2 < cfg.internalLimit

def State.pending (cfg : Settings) (s : State α) : List α :=
  if cfg.quickMode = .collective then s.page.buffered
  else s.page.positions.drop s.currentRowNum ++ s.page.tmpTbl.getD []

def State.fetched (s : State α) : Nat := s.recordNum - s.page.recordNum + s.currentRowNum

structure Inv (cfg : Settings) (w : List α) (s : State α) : Prop where
  row_le : s.currentRowNum ≤ s.page.recordNum
  page_le : s.page.recordNum ≤ s.recordNum
  record_le : s.recordNum ≤ cfg.total w
  pending : s.pending cfg = (w.drop s.fetched).take (s.page.recordNum - s.currentRowNum)
  shape : cfg.quickMode ≠ .collective → s.page.positions.length ≤ cfg.quickPageSize ∧
    (s.page.tmpTbl.getD [] = [] ∨ s.page.positions.length = cfg.quickPageSize)
  last : s.finish = true → s.recordNum = cfg.total w
  more : s.finish = false → s.recordNum < cfg.internalLimit
  asked : cfg.quickMode = .stored → s.finish = false →
    s.page.result = none ∧ 0 < s.setSplitReadCount ∧ s.recordNum = cfg.offset (s.setSplitReadCount + 1)
  result : ∀ rest ∈ s.page.result, cfg.quickMode ≠ .collective ∧ s.page.recordNum < s.limitNum ∧
    s.recordNum + (s.limitNum - s.page.recordNum) ≤ cfg.internalLimit ∧
    rest = (w.drop s.recordNum).take (s.limitNum - s.page.recordNum) ∧
    ∃ qs o l, s.queries = qs ++ [(o, l)] ∧ o + l = s.recordNum + (s.limitNum - s.page.recordNum)
  past : ∀ q ∈ s.queries.dropLast, Open cfg w q
  all : s.finish = false → s.page.result = none → ∀ q ∈ s.queries, Open cfg w q

/-! ## Fetching -/

theorem Inv.length_pending (h : Inv cfg w s) : (s.pending cfg).length = s.page.recordNum - s.currentRowNum := by
  rw [h.pending, length_take, length_drop]
  have := h.page_le
  have := h.record_le
  simp only [total, fetched] at *
  omega

theorem fetch_pending (hshape : cfg.quickMode ≠ .collective → s.page.positions.length ≤ cfg.quickPageSize ∧
    (s.page.tmpTbl.getD [] = [] ∨ s.page.positions.length = cfg.quickPageSize)) {a : α} {rest : List α}
    (hp : s.pending cfg = a :: rest) : ∃ page, (page.recordNum = s.page.recordNum ∧ page.positions = s.page.positions ∧
      page.result = s.page.result ∧ (s.page.tmpTbl.getD [] = [] → page.tmpTbl.getD [] = [])) ∧
      fetch cfg s = (.row a, { s with page, currentRowNum := s.currentRowNum + 1 }) ∧
      ({ s with page, currentRowNum := s.currentRowNum + 1 } : State α).pending cfg = rest := by
  unfold pending at hp
  unfold fetch
  by_cases hq : cfg.quickMode = .collective
  · rw [if_pos hq] at hp
    refine ⟨{ s.page with buffered := rest }, ⟨rfl, rfl, rfl, id⟩, ?_, ?_⟩
    · simp only [hq, if_true, hp]
    · simp [pending, hq]
  · obtain ⟨hlen, htmp⟩ := hshape hq
    rw [if_neg hq] at hp
    simp only [hq, if_false]
    by_cases hi : s.currentRowNum < s.page.positions.length
    · -- The row is in the array.
      rw [drop_eq_getElem_cons hi, cons_append, List.cons.injEq] at hp
      refine ⟨s.page, ⟨rfl, rfl, rfl, id⟩, ?_, ?_⟩
      · rw [if_pos (by omega), List.getElem?_eq_getElem hi, hp.1]
      · simpa [pending, hq] using hp.2
    · -- It is in the temporary table, which begins where the array ends.
      have hi := Nat.not_lt.mp hi
      rw [drop_eq_nil_of_le hi, nil_append] at hp
      cases htbl : s.page.tmpTbl with
      | none => simp [htbl] at hp
      | some rows =>
        obtain rfl : rows = a :: rest := by simpa [htbl] using hp
        have hfull := htmp.resolve_left (by simp [htbl])
        refine ⟨{ s.page with tmpTbl := some rest }, ⟨rfl, rfl, rfl, by simp⟩, ?_, ?_⟩
        · rw [if_neg (by omega)]
        · simp [pending, hq, drop_eq_nil_of_le (Nat.le_succ_of_le hi)]

theorem Inv.fetch (h : Inv cfg w s) (hrow : s.currentRowNum < s.page.recordNum) :
    ∃ a s', fetch cfg s = (.row a, s') ∧ Inv cfg w s' ∧ s'.fetched = s.fetched + 1 ∧ s'.finish = s.finish ∧
      w.drop s.fetched = a :: w.drop (s.fetched + 1) := by
  have hlen := h.length_pending
  cases hp : s.pending cfg with
  | nil => rw [hp] at hlen; simp at hlen; omega
  | cons a rest =>
    obtain ⟨page, ⟨hnum, hpos, hres, htbl⟩, hfetch, hrest⟩ := fetch_pending h.shape hp
    have hlt : s.fetched < w.length := by
      have := h.page_le
      have := h.record_le
      simp only [total, fetched] at *
      omega
    have hpend := h.pending
    rw [hp, show s.page.recordNum - s.currentRowNum = s.page.recordNum - (s.currentRowNum + 1) + 1 by omega,
      drop_eq_getElem_cons hlt, take_succ_cons, List.cons.injEq] at hpend
    refine ⟨a, _, hfetch, ⟨?_, ?_, h.record_le, ?_, ?_, h.last, h.more, ?_, ?_, h.past, ?_⟩, ?_, rfl, ?_⟩
    · show _ ≤ page.recordNum
      rw [hnum]
      exact hrow
    · simpa only [hnum] using h.page_le
    · rw [hrest, hpend.2]
      simp only [fetched, hnum]
      rfl
    · intro hq
      obtain ⟨hlen, htmp⟩ := h.shape hq
      rw [← hpos] at hlen htmp
      exact ⟨hlen, htmp.imp_left htbl⟩
    · simpa only [hres] using h.asked
    · simpa only [hres, hnum] using h.result
    · simpa only [hres] using h.all
    · simp only [fetched, hnum]
      rfl
    · rw [hpend.1]
      exact drop_eq_getElem_cons hlt

/-! ## Storing a page -/

structure Ready (cfg : Settings) (w : List α) (s : State α) : Prop where
  pos : 0 < s.limitNum ∨ s.recordNum = cfg.internalLimit
  limit : s.recordNum + s.limitNum ≤ cfg.internalLimit
  record_le : s.recordNum ≤ w.length
  finish : s.finish = false
  split : cfg.quickMode = .collective → s.limitNum = min s.splitRead (cfg.internalLimit - s.recordNum)
  asked : cfg.quickMode = .stored → 0 < s.setSplitReadCount ∧ s.recordNum = cfg.offset s.setSplitReadCount ∧
    s.limitNum = min (cfg.querySize s.setSplitReadCount) (cfg.internalLimit - s.recordNum)
  queries : ∃ qs o l, s.queries = qs ++ [(o, l)] ∧ o + l = s.recordNum + s.limitNum ∧ ∀ q ∈ qs, Open cfg w q

structure Paged (cfg : Settings) (w : List α) (record : Nat) (s : State α) : Prop extends Inv cfg w s where
  row : s.currentRowNum = 0
  fetched_eq : s.fetched = record
  empty : s.page.recordNum = 0 → s.finish = true ∧ cfg.quickMode = .collective

theorem length_answer (w : List α) (record limit : Nat) :
    ((w.drop record).take limit).length = min limit (w.length - record) := by
  rw [length_take, length_drop]

theorem take_answer (w : List α) (record limit n : Nat) (hn : n ≤ limit) :
    ((w.drop record).take limit).take n = (w.drop record).take n := by
  rw [take_take, Nat.min_eq_left hn]

theorem Ready.paged (h : Ready cfg w s) {page : Page α} {finish : Bool} (hle : s.recordNum + page.recordNum ≤ cfg.total w)
    (hpending : ({ s with page, currentRowNum := 0 } : State α).pending cfg = (w.drop s.recordNum).take page.recordNum)
    (hshape : cfg.quickMode ≠ .collective → page.positions.length ≤ cfg.quickPageSize ∧
      (page.tmpTbl.getD [] = [] ∨ page.positions.length = cfg.quickPageSize))
    (hlast : finish = true → s.recordNum + page.recordNum = cfg.total w)
    (hmore : finish = false → s.recordNum + page.recordNum < cfg.internalLimit)
    (hresult : ∀ rest ∈ page.result, cfg.quickMode ≠ .collective ∧ page.recordNum < s.limitNum ∧
      rest = (w.drop (s.recordNum + page.recordNum)).take (s.limitNum - page.recordNum))
    (hall : finish = false → page.result = none → page.recordNum = s.limitNum)
    (hstored : cfg.quickMode = .stored → page.result = none)
    (hempty : page.recordNum = 0 → finish = true ∧ cfg.quickMode = .collective) :
    Paged cfg w s.recordNum
      { s with page, currentRowNum := 0, recordNum := s.recordNum + page.recordNum, finish } := by
  obtain ⟨-, hlimit, -, -, -, hasked, qs, o, l, hqs, hol, hopen⟩ := h
  have hfetched : ({ s with page, currentRowNum := 0, recordNum := s.recordNum + page.recordNum, finish } :
      State α).fetched = s.recordNum := Nat.add_sub_cancel ..
  refine ⟨⟨Nat.zero_le _, Nat.le_add_left .., hle, ?_, hshape, hlast, hmore, ?_, ?_, ?_, ?_⟩, rfl, hfetched, hempty⟩
  · rw [hfetched]
    exact hpending
  · intro hmode hfinish
    obtain ⟨hcount, hoffset, hsize⟩ := hasked hmode
    have hfull := hall hfinish (hstored hmode)
    have hmore := hmore hfinish
    refine ⟨hstored hmode, hcount, ?_⟩
    show s.recordNum + page.recordNum = cfg.offset s.setSplitReadCount + cfg.querySize s.setSplitReadCount
    omega
  · intro rest hrest
    obtain ⟨hq, hlt, hrows⟩ := hresult rest hrest
    refine ⟨hq, hlt, ?_, hrows, qs, o, l, hqs, ?_⟩ <;> dsimp only <;> omega
  · intro q hmem
    rw [hqs, dropLast_concat] at hmem
    exact hopen q hmem
  · intro hfinish hnone q hmem
    have hfull := hall hfinish hnone
    have hmore := hmore hfinish
    rw [hqs, mem_append, mem_singleton] at hmem
    rcases hmem with hmem | rfl
    · exact hopen q hmem
    · simp only [Open, total] at *
      omega

theorem Ready.collective (h : Ready cfg w s) (hq : cfg.quickMode = .collective) :
    ∃ s', storeResult cfg ((w.drop s.recordNum).take s.limitNum) s = (true, s') ∧ Paged cfg w s.recordNum s' := by
  obtain ⟨hpos, hlimit, hrecord, hfinish, hsplit, -⟩ := id h
  have hsplit := hsplit hq
  refine ⟨_, if_pos hq, h.paged ?_ ?_ (fun h => absurd hq h) ?_ ?_ (by simp [Page.empty]) ?_ (fun _ => rfl) ?_⟩
  · simp only [length_answer, total]
    omega
  · simp only [pending, hq, if_true, length_answer]
    rw [take_eq_take_min, length_drop]
  all_goals
    simp only [hfinish, length_answer, total, Bool.false_or, Bool.or_eq_true, Bool.or_eq_false_iff,
      decide_eq_true_eq, decide_eq_false_iff_not, hq, and_true]
    omega

theorem pageSize_le (hp : cfg.quickPageSize ≠ 0) (hlimit : 0 < s.limitNum) :
    0 < pageSize cfg s ∧ pageSize cfg s ≤ s.limitNum ∧ pageSize cfg s ≤ cfg.quickPageSize := by
  unfold pageSize
  split_ifs <;> omega

/-- With temporary tables the array is full before the table is read, or the query has one row. -/
theorem Ready.pageSize_stored (h : Ready cfg w s) (hf : cfg.Fits w) (hmode : cfg.quickMode = .stored) :
    pageSize cfg s = min s.limitNum cfg.quickPageSize ∨ ((w.drop s.recordNum).take s.limitNum).length ≤ 1 := by
  have hp := hf.page.resolve_left (by simp [hmode])
  rw [length_answer]
  obtain ⟨-, hoffset, hsize⟩ := h.asked hmode
  have hpos := h.pos
  unfold pageSize
  split_ifs with hconst hlimit
  · rcases hf.const hmode _ hconst with hone | hrest
    · omega
    · simp only [total] at hrest
      omega
  · omega
  · omega

theorem Ready.quick_empty (h : Ready cfg w s) (hq : cfg.quickMode ≠ .collective)
    (hrows : (w.drop s.recordNum).take s.limitNum = []) : s.recordNum = cfg.total w ∧
      storeResult cfg ((w.drop s.recordNum).take s.limitNum) s =
        (false, { s with page := .empty, currentRowNum := 0, finish := true }) := by
  refine ⟨?_, by rw [storeResult, if_neg hq, if_pos hrows]⟩
  have hlen := congrArg List.length hrows
  rw [length_answer, length_nil] at hlen
  have := h.pos
  have := h.limit
  have := h.record_le
  unfold total
  omega

section
variable (h : Ready cfg w s) (hf : cfg.Fits w) (hq : cfg.quickMode ≠ .collective)
  (hrows : (w.drop s.recordNum).take s.limitNum ≠ [])
include h hf hq hrows

theorem Ready.quick_spilled (hsp : spilled cfg s ((w.drop s.recordNum).take s.limitNum) = true) :
    ∃ s', storeResult cfg ((w.drop s.recordNum).take s.limitNum) s = (true, s') ∧ Paged cfg w s.recordNum s' := by
  obtain ⟨hpos, hlimit, hrecord, hfinish, -⟩ := id h
  refine ⟨_, (if_neg hq).trans (if_neg hrows), ?_⟩
  simp only [hsp, if_true]
  simp only [spilled, Bool.and_eq_true, beq_iff_eq, decide_eq_true_eq] at hsp
  obtain ⟨⟨hmode, hfull⟩, hmore⟩ := hsp
  have hlen := length_answer w s.recordNum s.limitNum
  obtain ⟨hP, -, hPq⟩ := pageSize_le (hf.page.resolve_left hq) (Nat.zero_lt_of_lt hmore)
  refine h.paged ?_ ?_ (fun _ => ⟨?_, ?_⟩) ?_ ?_ (by simp [hmode]) ?_ (by simp [hmode]) ?_
  · simp only [hlen, total]
    omega
  · simp only [pending, hq, if_false, drop_zero, Option.getD_some, take_append_drop]
    rw [length_answer, take_eq_take_min, length_drop]
  · rw [length_take]
    omega
  · rw [Option.getD_some, length_take]
    rcases h.pageSize_stored hf hmode with hsize | hone
    · exact .inr (by omega)
    · exact .inl (drop_eq_nil_of_le (by omega))
  all_goals
    simp only [hfinish, hlen, total, Bool.false_or, Bool.or_eq_true, Bool.or_eq_false_iff, decide_eq_true_eq,
      decide_eq_false_iff_not]
    omega

theorem Ready.quick_page (hsp : spilled cfg s ((w.drop s.recordNum).take s.limitNum) = false) :
    ∃ s', storeResult cfg ((w.drop s.recordNum).take s.limitNum) s = (true, s') ∧ Paged cfg w s.recordNum s' := by
  obtain ⟨hpos, hlimit, hrecord, hfinish, -⟩ := id h
  have hlen := length_answer w s.recordNum s.limitNum
  have hne := length_pos_iff.mpr hrows
  obtain ⟨hP, hPl, hPq⟩ : 0 < pageSize cfg s ∧ pageSize cfg s ≤ s.limitNum ∧ _ :=
    pageSize_le (hf.page.resolve_left hq) (by omega)
  have hcount : (((w.drop s.recordNum).take s.limitNum).take (pageSize cfg s)).length =
      min (pageSize cfg s) (w.length - s.recordNum) := by
    rw [length_take, hlen]
    omega
  -- In the mode with temporary tables the page has all rows of the query.
  have hstored : cfg.quickMode = .stored → w.length - s.recordNum < pageSize cfg s ∨ s.limitNum ≤ pageSize cfg s := by
    intro hmode
    simp only [spilled, hmode, BEq.rfl, Bool.true_and, hlen, Bool.and_eq_false_iff, decide_eq_false_iff_not] at hsp
    omega
  refine ⟨_, (if_neg hq).trans (if_neg hrows), ?_⟩
  simp only [hsp, Bool.false_eq_true, if_false, hcount, hfinish, Bool.false_or]
  refine h.paged ?_ ?_ (fun _ => ⟨?_, .inl rfl⟩) ?_ ?_ ?_ ?_ (by simp +contextual) ?_
  · simp only [total]
    omega
  · simp only [pending, hq, if_false, drop_zero, Option.getD_none, append_nil]
    rw [take_answer _ _ _ _ hPl, take_eq_take_min, length_drop]
  · dsimp only
    omega
  · simp only [total, Bool.or_eq_true, decide_eq_true_eq]
    omega
  · simp only [Bool.or_eq_false_iff, decide_eq_false_iff_not]
    omega
  · intro rest hrest
    dsimp only at hrest ⊢
    split_ifs at hrest with hlast
    · cases hrest
    · simp only [Bool.or_eq_true, decide_eq_true_eq, beq_iff_eq, not_or] at hlast
      cases hrest
      refine ⟨hq, by omega, ?_⟩
      rw [drop_take, drop_drop, show min (pageSize cfg s) (w.length - s.recordNum) = pageSize cfg s by omega]
  · intro hlast hnone
    dsimp only at hlast hnone ⊢
    simp only [Bool.or_eq_false_iff, decide_eq_false_iff_not] at hlast
    by_contra hno
    have hmode : cfg.quickMode = .stored := by
      by_contra hmode
      simp [hmode] at hnone
      omega
    have := hstored hmode
    omega
  · dsimp only
    omega

end

/-- **A page is stored**, or the remote result is at its end. -/
theorem storeResult_spec (h : Ready cfg w s) (hf : cfg.Fits w) :
    (∃ s', storeResult cfg ((w.drop s.recordNum).take s.limitNum) s = (true, s') ∧ Paged cfg w s.recordNum s') ∨
      s.recordNum = cfg.total w ∧ storeResult cfg ((w.drop s.recordNum).take s.limitNum) s =
        (false, { s with page := .empty, currentRowNum := 0, finish := true }) := by
  by_cases hq : cfg.quickMode = .collective
  · exact .inl (h.collective hq)
  · by_cases hrows : (w.drop s.recordNum).take s.limitNum = []
    · exact .inr (h.quick_empty hq hrows)
    · left
      cases hsp : spilled cfg s ((w.drop s.recordNum).take s.limitNum) with
      | true => exact h.quick_spilled hf hq hrows hsp
      | false => exact h.quick_page hf hq hrows hsp

/-! ## Whole scans -/

theorem nextPage_ready (h : Inv cfg w s) (hf : cfg.Fits w) (hfinish : s.finish = false) :
    ∃ t, Ready cfg w t ∧ t.recordNum = s.recordNum ∧
      nextPage cfg w s = storeResult cfg ((w.drop t.recordNum).take t.limitNum) t := by
  have hmore := h.more hfinish
  have hrecord : s.recordNum ≤ w.length := Nat.le_trans h.record_le (Nat.min_le_right ..)
  unfold nextPage
  dsimp only
  cases hres : s.page.result with
  | some rest =>
    obtain ⟨hq, hlt, hlimit, rfl, qs, o, l, hqs, hol⟩ := h.result rest hres
    have hmode : cfg.quickMode ≠ .stored := fun hmode => by simp [(h.asked hmode hfinish).1] at hres
    refine ⟨{ s with
        splitRead := cfg.nextSize s.setSplitReadCount
        setSplitReadCount := s.setSplitReadCount + 1
        limitNum := s.limitNum - s.page.recordNum },
      ⟨.inl (Nat.sub_pos_of_lt hlt), hlimit, hrecord, hfinish, fun h => absurd h hq, fun h => absurd h hmode, qs, o, l, hqs,
        hol, ?_⟩, rfl, rfl⟩
    have hpast := h.past
    rwa [hqs, dropLast_concat] at hpast
  | none =>
    have hsize := hf.next s.setSplitReadCount
    let limit := min (cfg.nextSize s.setSplitReadCount) (cfg.internalLimit - s.recordNum)
    refine ⟨{ s with
        splitRead := cfg.nextSize s.setSplitReadCount
        setSplitReadCount := s.setSplitReadCount + 1
        limitNum := limit
        queries := s.queries ++ [(s.recordNum, limit)] },
      ⟨.inl ?_, ?_, hrecord, hfinish, fun _ => rfl, ?_, s.queries, _, _, rfl, rfl, h.all hfinish hres⟩, rfl, rfl⟩
    · dsimp only
      omega
    · dsimp only
      omega
    · intro hmode
      obtain ⟨-, hcount, hoffset⟩ := h.asked hmode hfinish
      obtain ⟨n, hn⟩ := Nat.exists_eq_add_one_of_ne_zero (Nat.pos_iff_ne_zero.mp hcount)
      refine ⟨Nat.succ_pos _, hoffset, ?_⟩
      show min (cfg.nextSize s.setSplitReadCount) _ = min (cfg.querySize (s.setSplitReadCount + 1)) _
      rw [hn]
      rfl

/-- The scan has ended: the queries before the last one have not reported the end, and further calls send none. -/
structure Ended (cfg : Settings) (w : List α) (s : State α) : Prop where
  past : ∀ q ∈ s.queries.dropLast, Open cfg w q
  still : seekNext cfg w s = (.eof, s)

theorem Ended.of_finish (hpast : ∀ q ∈ s.queries.dropLast, Open cfg w q) (hrow : s.page.recordNum ≤ s.currentRowNum)
    (hfinish : s.finish = true) : Ended cfg w s :=
  ⟨hpast, by rw [seekNext, if_neg (Nat.not_lt.mpr hrow), if_pos hfinish]⟩

/-- **One call of `spider_db_seek_next`** returns the next row, or the end of file after the last one. -/
theorem seekNext_spec (h : Inv cfg w s) (hf : cfg.Fits w) :
    (∃ a s', seekNext cfg w s = (.row a, s') ∧ Inv cfg w s' ∧ s'.fetched = s.fetched + 1 ∧ s.fetched < cfg.total w ∧
      w.drop s.fetched = a :: w.drop (s.fetched + 1)) ∨
    s.fetched = cfg.total w ∧ ∃ s', seekNext cfg w s = (.eof, s') ∧ Ended cfg w s' := by
  have hlt : ∀ {t : State α}, Inv cfg w t → t.currentRowNum < t.page.recordNum → t.fetched < cfg.total w := by
    intro t ht hrow
    have := ht.page_le
    have := ht.record_le
    unfold fetched
    omega
  by_cases hrow : s.currentRowNum < s.page.recordNum
  · obtain ⟨a, s', hfetch, hinv, hfetched, -, hdrop⟩ := h.fetch hrow
    exact .inl ⟨a, s', by rw [seekNext, if_pos hrow, hfetch], hinv, hfetched, hlt h hrow, hdrop⟩
  · have hpage := Nat.not_lt.mp hrow
    have hfetched : s.fetched = s.recordNum := by
      have := h.row_le
      have := h.page_le
      unfold fetched
      omega
    cases hfinish : s.finish with
    | true =>
      right
      refine ⟨hfetched.trans (h.last hfinish), s, ?_, .of_finish h.past hpage hfinish⟩
      rw [seekNext, if_neg hrow, if_pos hfinish]
    | false =>
      obtain ⟨t, hready, hrecord, hnext⟩ := nextPage_ready h hf hfinish
      have hseek : seekNext cfg w s = if (nextPage cfg w s).1 then fetch cfg (nextPage cfg w s).2
          else (.eof, (nextPage cfg w s).2) := by
        rw [seekNext, if_neg hrow, if_neg (by simp [hfinish])]
      rw [hseek, hnext]
      rcases storeResult_spec hready hf with ⟨u, hstore, hpaged⟩ | ⟨htotal, hstore⟩ <;> rw [hstore]
      · have hstart := hpaged.fetched_eq
        rw [hrecord, ← hfetched] at hstart
        by_cases hempty : u.page.recordNum = 0
        · -- An empty page of mode 0.
          obtain ⟨hend, hq⟩ := hpaged.empty hempty
          have hnil : u.page.buffered = [] := by
            have hlen := hpaged.toInv.length_pending
            rw [pending, if_pos hq, hempty, Nat.zero_sub] at hlen
            exact length_eq_zero_iff.mp hlen
          have htotal := hpaged.last hend
          right
          refine ⟨?_, { u with currentRowNum := u.currentRowNum + 1 }, ?_, .of_finish hpaged.past ?_ hend⟩
          · rw [← hstart, ← htotal, fetched, hempty, hpaged.row, Nat.sub_zero, Nat.add_zero]
          · simp only [fetch, hq, if_true, hnil]
          · simp only [hempty]
            omega
        · have hpos : u.currentRowNum < u.page.recordNum := by
            rw [hpaged.row]
            omega
          obtain ⟨a, s', hfetch, hinv, hnew, -, hdrop⟩ := hpaged.toInv.fetch hpos
          rw [hstart] at hnew hdrop
          exact .inl ⟨a, s', hfetch, hinv, hnew, hstart ▸ hlt hpaged.toInv hpos, hdrop⟩
      · right
        refine ⟨by rw [hfetched, ← hrecord, htotal], _, rfl, .of_finish ?_ (Nat.le_refl _) rfl⟩
        obtain ⟨qs, o, l, hqs, -, hopen⟩ := hready.queries
        intro q hmem
        rw [hqs, dropLast_concat] at hmem
        exact hopen q hmem

theorem seekAll_spec (hf : cfg.Fits w) : ∀ {k : Nat} {s : State α}, Inv cfg w s → cfg.total w - s.fetched < k →
    ∃ s', seekAll cfg w k s = some ((w.drop s.fetched).take (cfg.total w - s.fetched), s') ∧ Ended cfg w s'
  | 0, _, _, hk => absurd hk (Nat.not_lt_zero _)
  | k + 1, s, h, hk => by
    rcases seekNext_spec h hf with ⟨a, t, hnext, hinv, hfetched, hlt, hdrop⟩ | ⟨htotal, t, hnext, hended⟩
    · obtain ⟨s', hall, hended⟩ := seekAll_spec hf (k := k) hinv (by omega)
      refine ⟨s', ?_, hended⟩
      rw [seekAll, hnext]
      dsimp only
      rw [hall, hfetched, Option.map_some, hdrop,
        show cfg.total w - s.fetched = cfg.total w - (s.fetched + 1) + 1 by omega, take_succ_cons]
    · exact ⟨t, by rw [seekAll, hnext, htotal, Nat.sub_self, take_zero], hended⟩

/-- The scan delivers the first rows up to the limit, once and in order, and sends no query after the end was reported. -/
def Exact (cfg : Settings) (w : List α) : Prop :=
  ∃ s, scan cfg w = some (w.take cfg.internalLimit, s) ∧
    (∀ q ∈ s.queries.dropLast, q.1 + q.2 ≤ w.length ∧ q.1 + q.2 < cfg.internalLimit) ∧ seekNext cfg w s = (.eof, s)

/-- The second page is stored after a table has been read by a constant key, which cuts it to one row. -/
def storedSettings : Settings := ⟨.stored, 2, 100, 3, nextSplitReadParam 0 1 3, fun n => n == 2⟩

/-- **`quick_page_size` 0** stores all rows in the array, and reads them from the temporary table that was never made: through
a pointer that is not set. -/
theorem scan_unpaged (hq : cfg.quickMode ≠ .collective) (hp : cfg.quickPageSize = 0) (hconst : cfg.constIndexRead 1 = false)
    (hfirst : 0 < cfg.firstSize) (htotal : 0 < cfg.total w) : scan cfg w = none := by
  have hsize (s : State α) (hs : s.setSplitReadCount = 1) : pageSize cfg s = s.limitNum := by
    rw [pageSize, hs, hconst, if_neg Bool.false_ne_true, if_pos (.inl hp)]
  have hspilled (s : State α) (rows : List α) (hs : s.setSplitReadCount = 1) : spilled cfg s rows = false := by
    simp [spilled, hsize s hs]
  have hlen : 0 < (w.take (min cfg.firstSize cfg.internalLimit)).length := by
    rw [length_take]
    unfold total at htotal
    omega
  have hrows := ne_nil_of_length_pos hlen
  simp only [scan, start, query, storeResult, drop_zero, hq, hrows, hsize, hspilled, if_false, if_true, take_take,
    Nat.min_self, seekAll, seekNext, fetch, hp, Nat.not_lt_zero, hlen, Bool.false_eq_true]

def unpagedSettings : Settings := ⟨.oneByOne, 0, 100, 10, fun _ => 10, fun _ => false⟩

/-- A page of one row in a statement that has read a table by a constant key, while `quick_page_size` is 1000. -/
def cutSettings : Settings := ⟨.stored, 1000, 100, 10, fun _ => 10, fun _ => true⟩

end TSpider.Seek

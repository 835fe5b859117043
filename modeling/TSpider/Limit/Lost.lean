import Mathlib.Data.Set.Finite.Basic
import TSpider.Limit.Exact

/-!
# Scans with `LIMIT` and `OFFSET` that are not exact

* `limitRows_avoids` : rows that a creator skips in its own partition are not handed out later;
* `limitRows_refused` : a number of `2 ^ 63` or more is sent as a negative one, and the shard refuses it;
* `limitRows_exact_iff` : which scans are exact for all rows.
-/

namespace TSpider.Limit
open List

variable {α : Type*} {q : Limits} {P : α → Prop} {pre : Bool} {d : Direct} {buf : α} {tables : List (List α)}
  {code : Code} {rows : List α} {creator : Nat}

/-! ## A creator that is not scanned first -/

structure Part.Within (q : Limits) (P : α → Prop) (p : Part α) : Prop where
  result : p.scanAndFirst = false → ∀ a ∈ p.result, P a
  rows : p.scanAndFirst = true → ∀ a ∈ p.rows.drop (if p.creator then q.offset else 0), P a

theorem Part.Within.rndNextInternal {p p' : Part α} (hp : p.Within q P) (hq : q.offset < 2 ^ 64)
    {d d' : Direct} {buf buf' : α} (hbuf : P buf) {fill : Bool}
    (h : p.rndNextInternal q fill d buf = (code, p', d', buf')) : p'.Within q P ∧ P buf' := by
  unfold Part.rndNextInternal at h
  by_cases hfirst : p.scanAndFirst = true
  · rw [if_pos hfirst] at h
    extract_lets e at h
    -- the answer of the shard lies behind the offset that the handler has set, if it is the creator
    have hrows : ∀ res, selectLimit p.rows e.currentOffset e.selectLimit = some res → ∀ a ∈ res, P a := by
      intro res hres a ha
      obtain ⟨hnonneg, hmem⟩ := mem_of_selectLimit hres
      refine hp.rows hfirst a ?_
      by_cases hcr : p.creator = true
      · have he : e.currentOffset = longlong q.offset := by simp [e, setDirectLimitOffset, hcr]
        have hlt : q.offset < 2 ^ 63 := by
          by_contra hge
          exact absurd (longlong_neg (not_lt.mp hge) hq) (by omega)
        have hoff := hmem a ha
        rw [he, longlong_of_lt hlt, Int.toNat_natCast] at hoff
        rwa [if_pos hcr]
      · rw [if_neg hcr]
        exact mem_of_mem_drop (hmem a ha)
    clear_value e
    split at h
    · cases h
      exact ⟨hp, hbuf⟩
    · split at h
      · cases h
        exact ⟨hp, hbuf⟩
      · split at h
        · cases h
          exact ⟨hp, hbuf⟩
        · cases h
          exact ⟨hp, hbuf⟩
        · rename_i a as hres
          obtain ⟨ha, has⟩ := forall_mem_cons.mp (hrows _ hres)
          split at h
          · cases h
            exact ⟨⟨fun _ => has, fun h => by cases h⟩, ha⟩
          · cases h
            exact ⟨⟨fun _ => forall_mem_cons.mpr ⟨ha, has⟩, fun h => by cases h⟩, hbuf⟩
  · rw [if_neg hfirst] at h
    have hstored : p.scanAndFirst = false := by simpa using hfirst
    split at h
    · cases h
      exact ⟨hp, hbuf⟩
    · unfold Part.seekNext at h
      split at h
      · cases h
        exact ⟨hp, hbuf⟩
      · rename_i a as hres
        have hall := hp.result hstored
        rw [hres] at hall
        obtain ⟨ha, has⟩ := forall_mem_cons.mp hall
        cases h
        exact ⟨⟨fun _ => has, fun h => absurd h hfirst⟩, ha⟩

theorem Part.Within.rndNext {p p' : Part α} (hp : p.Within q P) (hq : q.offset < 2 ^ 64) {d d' : Direct}
    {buf buf' : α} (hbuf : P buf) (h : p.rndNext q d buf = (code, p', d', buf')) : p'.Within q P ∧ P buf' := by
  unfold Part.rndNext at h
  split at h
  · split at h
    · exact Part.Within.rndNextInternal (p := { p with usePreCall := false }) ⟨hp.result, hp.rows⟩ hq hbuf h
    · cases h
      exact ⟨hp, hbuf⟩
  · exact hp.rndNextInternal hq hbuf h

theorem within_rndNext (hq : q.offset < 2 ^ 64) {ps : List (Part α)} (hps : ∀ p ∈ ps, p.Within q P)
    (hbuf : P buf) {t : Scan α} (h : rndNext q ps d buf = (code, t)) : (∀ p ∈ t.parts, p.Within q P) ∧ P t.buf := by
  induction ps generalizing d buf with
  | nil =>
    cases h
    exact ⟨hps, hbuf⟩
  | cons p ps ih =>
    obtain ⟨hp, hps⟩ := forall_mem_cons.mp hps
    unfold Limit.rndNext at h
    split at h
    · rename_i hnext
      cases h
      exact ⟨forall_mem_cons.mpr ⟨(hp.rndNext hq hbuf hnext).1, hps⟩, (hp.rndNext hq hbuf hnext).2⟩
    · rename_i hnext
      cases h
      exact ⟨forall_mem_cons.mpr ⟨(hp.rndNext hq hbuf hnext).1, hps⟩, (hp.rndNext hq hbuf hnext).2⟩
    · rename_i hnext
      exact ih hps (hp.rndNext hq hbuf hnext).2 h

theorem within_read (hq : q.offset < 2 ^ 64) {k : Nat} {s : Scan α} (hs : ∀ p ∈ s.parts, p.Within q P)
    (hbuf : P s.buf) (h : s.read q k = some rows) : ∀ a ∈ rows, P a := by
  induction k generalizing s rows with
  | zero =>
    cases h
    simp
  | succ k ih =>
    unfold Scan.read at h
    split at h
    · rename_i t hnext
      obtain ⟨hparts, hbuf'⟩ := within_rndNext hq hs hbuf hnext
      obtain ⟨rest, hrest, rfl⟩ := Option.map_eq_some_iff.mp h
      exact forall_mem_cons.mpr ⟨hbuf', ih hparts hbuf' hrest⟩
    · cases h
      simp
    · cases h

theorem within_preScan (hq : q.offset < 2 ^ 64) (hbuf : P buf)
    {ps ps' : List (Part α)} (hps : ∀ p ∈ ps, p.Within q P) {d d' : Direct}
    (h : preScan q pre buf ps d = (code, ps', d')) : ∀ p ∈ ps', p.Within q P := by
  induction ps generalizing d ps' code with
  | nil =>
    cases h
    exact hps
  | cons p ps ih =>
    obtain ⟨hp, hps⟩ := forall_mem_cons.mp hps
    have hpre : ∀ c p' e, p.preRndNext q pre d buf = (c, p', e) → p'.Within q P := by
      intro c p' e hc
      unfold Part.preRndNext at hc
      extract_lets p1 at hc
      have hp1 : p1.Within q P := ⟨hp.result, hp.rows⟩
      clear_value p1
      split at hc
      · generalize hnext : p1.rndNextInternal q false d buf = out at hc
        cases hc
        exact ⟨(hp1.rndNextInternal hq hbuf hnext).1.result, (hp1.rndNextInternal hq hbuf hnext).1.rows⟩
      · cases hc
        exact hp1
    unfold preScan at h
    split at h
    · rename_i hnext
      cases h
      exact forall_mem_cons.mpr ⟨hpre _ _ _ hnext, hps⟩
    · rename_i hnext
      generalize hrest : preScan q pre buf ps _ = out at h
      cases h
      exact forall_mem_cons.mpr ⟨hpre _ _ _ hnext, ih hps hrest⟩

/-- **Rows that the creator skips in its own partition are not handed out**, whatever comes before it. -/
theorem limitRows_avoids (hq : q.offset < 2 ^ 64) (hbuf : P buf) (hrows : ∀ p ∈ initParts creator tables, p.Within q P)
    (h : limitRows q pre creator d buf tables = some rows) : ∀ a ∈ rows, P a := by
  unfold limitRows at h
  generalize hscan : preScan q pre buf (initParts creator tables) d = out at h
  obtain ⟨code, ps, e⟩ := out
  have hps := within_preScan hq hbuf hrows hscan
  have hread : (Scan.read q (q.offset + q.limit) ⟨ps, e, buf⟩).map (·.drop q.offset) = some rows := by
    cases code with
    | ok => exact h
    | eof => exact h
    | error => cases h
  obtain ⟨all, hall, rfl⟩ := Option.map_eq_some_iff.mp hread
  exact fun a ha => within_read hq hps hbuf hall a (mem_of_mem_drop ha)

theorem initParts_creator (j : Nat) (t : List α) (ts : List (List α)) :
    initParts j (List.replicate j [] ++ t :: ts) = List.replicate j (.init false []) ++
      .init true t :: ts.map (.init false) := by
  induction j with
  | zero => rfl
  | succ j ih => simp only [replicate_succ, cons_append, initParts, ih]

theorem limitRows_lost (hq : q.offset < 2 ^ 64) (j : Nat) (pre : Bool) (d : Direct) {buf x y : α} {t : List α}
    (hlen : t.length ≤ q.offset) (hbuf : buf ≠ y) (hx : x ≠ y) (ts : List (List α)) (hts : ∀ r ∈ ts, r = [])
    (h : limitRows q pre (j + 1) d buf ([x] :: (List.replicate j [] ++ t :: ts)) = some rows) : y ∉ rows := by
  refine fun hy => limitRows_avoids (P := (· ≠ y)) hq hbuf ?_ h y hy rfl
  rw [initParts, initParts_creator]
  intro p hp
  simp only [mem_cons, mem_append, mem_replicate, mem_map] at hp
  rcases hp with rfl | ⟨-, rfl⟩ | rfl | ⟨r, hr, rfl⟩
  · exact ⟨fun h => (by cases h), fun _ => by simpa [Part.init] using hx⟩
  · exact ⟨fun h => (by cases h), fun _ => by simp [Part.init]⟩
  · exact ⟨fun h => (by cases h), fun _ => by simp [Part.init, drop_eq_nil_of_le hlen]⟩
  · exact ⟨fun h => (by cases h), fun _ => by simp [Part.init, hts r hr]⟩

/-! ## Counters that are not positive -/

theorem limitRows_refused {d d' : Direct} {p : Part α}
    {ps : List (Part α)} (hparts : initParts creator tables = p :: ps) (hfirst : p.scanAndFirst = true)
    (hd : setDirectLimitOffset q p d = d') (hl : d'.selectLimit ≠ 0)
    (hskip : ¬ (0 < d'.currentOffset ∧ (p.rows.length : Int) ≤ d'.currentOffset))
    (hneg : d'.currentOffset < 0 ∨ d'.selectLimit < 0) (hm : 0 < q.limit) (buf : α) :
    limitRows q pre creator d buf tables = none := by
  have hcode : ∀ (p : Part α) (fill : Bool), p.scanAndFirst = true → setDirectLimitOffset q p d = d' →
      ¬ (0 < d'.currentOffset ∧ (p.rows.length : Int) ≤ d'.currentOffset) →
      p.rndNextInternal q fill d buf = (.error, p, { d' with currentOffset := 0 }, buf) := by
    intro p fill hfirst hd hskip
    simp only [Part.rndNextInternal, hfirst, hd, hl, hskip, selectLimit_neg hneg, if_true, if_false]
  have husePreCall := initParts_usePreCall creator tables
  unfold limitRows
  cases pre with
  | false =>
    rw [preScan_false husePreCall]
    rw [hparts] at husePreCall ⊢
    have hpre := husePreCall p (mem_cons_self ..)
    obtain ⟨k, hk⟩ : ∃ k, q.offset + q.limit = k + 1 := ⟨q.offset + q.limit - 1, by omega⟩
    simp [hk, Scan.read, rndNext, Part.rndNext, hpre, hcode p true hfirst hd hskip]
  | true =>
    rw [hparts]
    simp only [preScan, Part.preRndNext, if_true, hcode { p with usePreCall := true } false hfirst hd hskip]

theorem limitRows_zero (hl : d.selectLimit = 0) (buf : α)
    (hlen : tables.length ≤ creator) : limitRows q pre creator d buf tables = some [] := by
  have hcode : ∀ (p : Part α) (fill : Bool), p.scanAndFirst = true → p.creator = false →
      p.rndNextInternal q fill d buf = (.eof, p, d, buf) := by
    intro p fill hfirst hcr
    simp [Part.rndNextInternal, hfirst, setDirectLimitOffset, hcr, hl]
  have hempty : ∃ ps, preScan q pre buf (tables.map (.init false)) d = (.ok, ps, d) ∧ Scan.Yields q ⟨ps, d, buf⟩ [] := by
    cases pre with
    | false =>
      refine ⟨_, preScan_false (by simp [Part.init]) d buf, ?_⟩
      clear hlen
      induction tables with
      | nil => exact .nil rfl
      | cons t ts ih =>
        refine .congr ?_ ih
        have hnext : (Part.init false t).rndNext q d buf = (.eof, .init false t, d, buf) :=
          hcode (.init false t) true rfl rfl
        simp only [map_cons, rndNext, hnext]
    | true =>
      have hready : ∃ ps, preScan q true buf (tables.map (.init false)) d = (.ok, ps, d) ∧ Ready ps [] := by
        clear hlen
        induction tables with
        | nil => exact ⟨[], rfl, .nil⟩
        | cons t ts ih =>
          obtain ⟨ps, hps, hready⟩ := ih
          refine ⟨_, ?_, .eof (p := { Part.init false t with usePreCall := true, storeError := .eof }) rfl rfl hready⟩
          simp only [map_cons, preScan, Part.preRndNext, if_true,
            hcode { Part.init false t with usePreCall := true } false rfl rfl, hps]
      obtain ⟨ps, hps, hready⟩ := hready
      exact ⟨ps, hps, yields_ready hready d buf⟩
  obtain ⟨ps, hps, hyields⟩ := hempty
  rw [← initParts_of_le hlen] at hps
  simpa using limitRows_of_yields hps hyields

/-! ## Counters of another statement -/

theorem fetched_replicate_nil {limit : Int} (hl : 0 < limit) (j : Nat) :
    fetched limit 0 (List.replicate j ([] : List α)) = [] := by
  induction j with
  | zero => rfl
  | succ j ih =>
    obtain ⟨res, hres⟩ := exists_selectLimit ([] : List α) le_rfl hl.le
    have hnil : res = [] := eq_nil_iff_forall_not_mem.mpr fun a ha => by
      simpa using (mem_of_selectLimit hres).2 a ha
    rw [replicate_succ, fetched, if_neg (by omega), hres, hnil]
    exact ih

theorem fetched_single {limit c : Int} (hc : 0 ≤ c) (hl : 0 < limit) {t : List α} (hlen : c < t.length) (j : Nat) :
    ∃ a as, fetched limit c (t :: List.replicate j []) = [a :: as] ∧
      ∀ i : Nat, (a :: as)[i]? = if (i : Int) < limit ∨ c = 0 ∧ maxLonglong ≤ limit then t[c.toNat + i]? else none := by
  have hrest := fetched_replicate_nil (α := α) hl j
  unfold fetched
  rw [if_neg (by omega), hrest]
  -- the answer of the shard, by index
  have hres : ∃ res, selectLimit t c limit = some res ∧
      ∀ i : Nat, res[i]? = if (i : Int) < limit ∨ c = 0 ∧ maxLonglong ≤ limit then t[c.toNat + i]? else none := by
    by_cases hall : c = 0 ∧ maxLonglong ≤ limit
    · refine ⟨t, ?_, fun i => by simp [hall]⟩
      rw [hall.1]
      exact selectLimit_all hall.2
    · refine ⟨_, selectLimit_eq hc hl.le (by omega), fun i => ?_⟩
      rw [List.getElem?_take, List.getElem?_drop]
      congr 1
      simp only [eq_iff_iff]
      omega
  obtain ⟨res, hsel, hget⟩ := hres
  cases res with
  | nil =>
    have h0 := hget 0
    rw [if_pos (.inl (by simpa using hl)), List.getElem?_eq_getElem (show c.toNat + 0 < t.length by omega)] at h0
    cases h0
  | cons a as => exact ⟨a, as, by rw [hsel], hget⟩

theorem getElem?_handed (pre : Bool) (buf : α) (o : Nat) (a : α) (as : List α) (i : Nat) :
    (handed pre buf o [a :: as])[i]? = if pre = true ∧ i < o then some buf else (a :: as)[i - o]? := by
  have happ : ∀ b, (List.replicate o b ++ (a :: as))[i]? = if i < o then some b else (a :: as)[i - o]? := by
    intro b
    rw [List.getElem?_append, length_replicate]
    split
    · rename_i hi
      exact List.getElem?_replicate_of_lt hi
    · rfl
  cases pre with
  | true => simp [handed, happ]
  | false =>
    simp only [handed, Bool.false_eq_true, if_false, false_and, padded_eq, flatten_cons, flatten_nil, append_nil, happ]
    split
    · rename_i hi
      rw [Nat.sub_eq_zero_of_le hi.le, List.getElem?_cons_zero]
    · rfl

theorem exists_rows [Infinite α] (s : Finset α) (k : Nat) : ∃ t : List α, t.length = k ∧ t.Nodup ∧ ∀ a ∈ t, a ∉ s := by
  obtain ⟨u, hu, hcard⟩ := (s.finite_toSet.infinite_compl).exists_subset_card_eq k
  exact ⟨u.toList, by rw [Finset.length_toList, hcard], u.nodup_toList, fun a ha => hu (Finset.mem_toList.mp ha)⟩

theorem fits_of_exact [Infinite α] {creator k : Nat} (hm : 0 < q.limit) (hk : k + 1 ≤ creator)
    (h : ∀ tables : List (List α), tables.length = k + 1 →
      limitRows q pre creator d buf tables = some ((tables.flatten.drop q.offset).take q.limit)) : d.Fits pre q := by
  set c := d.currentOffset with hcdef
  set o := d.selectOffset.toNat with hodef
  obtain ⟨t, hlen, hnodup, havoid⟩ := exists_rows {buf} (q.offset + q.limit + c.toNat + o + 1)
  have hlength : (t :: List.replicate k []).length = k + 1 := by simp
  have hflat : (t :: List.replicate k []).flatten = t := by simp
  have heq := h (t :: List.replicate k []) hlength
  rw [hflat] at heq
  have hparts := initParts_of_le (hlength.le.trans hk)
  have hskip : ¬ (0 < c ∧ (t.length : Int) ≤ c) := by omega
  -- the counters have to be valid, or nothing is fetched
  have hl0 : d.selectLimit ≠ 0 := by
    intro hl0
    rw [limitRows_zero hl0 buf (hlength.le.trans hk), Option.some.injEq, eq_comm, take_eq_nil_iff, drop_eq_nil_iff] at heq
    omega
  have hvalid : 0 ≤ c ∧ 0 < d.selectLimit := by
    by_contra hbad
    have hneg : d.currentOffset < 0 ∨ d.selectLimit < 0 := by omega
    rw [limitRows_refused hparts rfl rfl hl0 hskip hneg hm buf] at heq
    cases heq
  obtain ⟨hc, hl⟩ := hvalid
  -- the rows that are handed out, by index
  obtain ⟨a, as, hfetched, hget⟩ := fetched_single hc hl (t := t) (by omega) k
  rw [limitRows_of_counters hparts ⟨rfl, rfl⟩ rfl hc hl buf, Option.some.injEq] at heq
  simp only [setDirectLimitOffset, Part.init, Bool.false_eq_true, if_false, ← hcdef, ← hodef, hfetched] at heq
  have hrow : ∀ j < q.limit, ¬ (pre = true ∧ q.offset + j < o) ∧
      (((q.offset + j - o : Nat) : Int) < d.selectLimit ∨ c = 0 ∧ maxLonglong ≤ d.selectLimit) ∧
      c.toNat + (q.offset + j - o) = q.offset + j := by
    intro j hj
    have hidx : q.offset + j < t.length := by omega
    have hj' := congrArg (fun rows => rows[j]?) heq
    simp only [List.getElem?_take_of_lt hj, List.getElem?_drop, getElem?_handed, hget] at hj'
    split at hj'
    · rw [List.getElem?_eq_getElem hidx, Option.some.injEq] at hj'
      exact absurd (Finset.mem_singleton.mpr hj'.symm) (havoid _ (getElem_mem hidx))
    · rename_i hbuf
      split at hj'
      · rename_i hin
        exact ⟨hbuf, hin, ((List.getElem?_inj hidx hnodup).mp hj'.symm).symm⟩
      · rw [List.getElem?_eq_getElem hidx] at hj'
        cases hj'
  obtain ⟨hb0, -, h0⟩ := hrow 0 hm
  obtain ⟨-, hin, hlast⟩ := hrow (q.limit - 1) (by omega)
  refine ⟨hc, hl, ?_⟩
  rcases Nat.lt_or_ge q.offset o with hlt | hge
  · have hpre : pre = false := by
      cases pre with
      | true => exact absurd ⟨rfl, hlt⟩ hb0
      | false => rfl
    have hone : q.limit = 1 := by omega
    exact .inr ⟨hpre, hone, by omega, by omega⟩
  · refine .inl ⟨by omega, by omega, ?_⟩
    rcases hin with hin | hall
    · exact .inl (by omega)
    · exact .inr hall

/-! ## Which scans are exact -/

theorem lt_of_exact {k : Nat} (hn : q.offset < 2 ^ 64) (hm : 0 < q.limit) (hm' : q.limit < 2 ^ 64)
    (h : ∀ tables : List (List α), tables.length = k + 1 →
      limitRows q pre 0 d buf tables = some ((tables.flatten.drop q.offset).take q.limit)) :
    q.offset < 2 ^ 63 ∧ q.limit < 2 ^ 63 := by
  by_contra hbig
  have hneg : longlong q.offset < 0 ∨ longlong q.limit < 0 := by
    rcases not_and_or.mp hbig with hbig | hbig
    · exact .inl (longlong_neg (not_lt.mp hbig) hn)
    · exact .inr (longlong_neg (not_lt.mp hbig) hm')
  have hl : longlong q.limit ≠ 0 := by
    rcases lt_or_ge q.limit (2 ^ 63) with hlt | hge
    · rw [longlong_of_lt hlt]
      omega
    · exact (longlong_neg hge hm').ne
  have hskip : ¬ (0 < longlong q.offset ∧ ((List.replicate (q.offset + 1) buf).length : Int) ≤ longlong q.offset) := by
    rcases lt_or_ge q.offset (2 ^ 63) with hlt | hge
    · rw [longlong_of_lt hlt, length_replicate]
      omega
    · have := longlong_neg hge hn
      omega
  have heq := h (List.replicate (q.offset + 1) buf :: List.replicate k []) (by simp)
  rw [limitRows_refused (p := .init true _) rfl rfl rfl hl hskip hneg hm buf] at heq
  cases heq

theorem not_exact_of_later [Infinite α] {j k : Nat} (hn0 : 0 < q.offset)
    (hn : q.offset < 2 ^ 64) (hm : 0 < q.limit) (hj : j + 1 < k) : ¬ ∀ tables : List (List α), tables.length = k →
      limitRows q pre (j + 1) d buf tables = some ((tables.flatten.drop q.offset).take q.limit) := by
  intro h
  obtain ⟨t, hlen, hnodup, havoid⟩ := exists_rows {buf} (q.offset + 1)
  obtain ⟨x, t, rfl⟩ := exists_cons_of_length_eq_add_one hlen
  have hidx : q.offset < (x :: t).length := by omega
  -- the last row is behind the offset, but it is among the first rows of the creator
  set y := (x :: t)[q.offset] with hy
  have hxy : x ≠ y := by
    intro hxy
    have h0 := (List.getElem?_inj (i := 0) (j := q.offset) (by simp) hnodup).mp (by
      rw [List.getElem?_eq_getElem hidx, List.getElem?_cons_zero, ← hy, hxy])
    omega
  have hbuf : buf ≠ y := by
    intro hbuf
    exact havoid y (getElem_mem hidx) (Finset.mem_singleton.mpr hbuf.symm)
  have heq := h ([x] :: (List.replicate j [] ++ t :: List.replicate (k - j - 2) [])) (by simp; omega)
  have hflat : ([x] :: (List.replicate j [] ++ t :: List.replicate (k - j - 2) [])).flatten = x :: t := by simp
  rw [hflat] at heq
  refine limitRows_lost hn j pre d ?_ hbuf hxy _ (fun r hr => eq_of_mem_replicate hr) heq ?_
  · rw [length_cons] at hlen
    omega
  · rw [mem_iff_getElem?]
    exact ⟨0, by rw [List.getElem?_take_of_lt hm, List.getElem?_drop, Nat.add_zero, List.getElem?_eq_getElem hidx]⟩

/-- **A scan with `LIMIT` and `OFFSET` is exact for all rows** exactly if the counters' creator is scanned first and both
numbers are below `2 ^ 63`, or it is not scanned and its left-over counters fit. -/
theorem limitRows_exact_iff [Infinite α] (q : Limits) (hn0 : 0 < q.offset) (hn : q.offset < 2 ^ 64) (hm0 : 0 < q.limit)
    (hm : q.limit < 2 ^ 64) (pre : Bool) (k creator : Nat) (d : Direct) (buf : α) :
    (∀ tables : List (List α), tables.length = k →
      limitRows q pre creator d buf tables = some ((tables.flatten.drop q.offset).take q.limit)) ↔
    k = 0 ∨ (creator = 0 ∧ q.offset < 2 ^ 63 ∧ q.limit < 2 ^ 63) ∨ (k ≤ creator ∧ d.Fits pre q) := by
  constructor
  · intro h
    cases k with
    | zero => exact .inl rfl
    | succ k =>
      right
      rcases Nat.eq_zero_or_pos creator with rfl | hpos
      · exact .inl ⟨rfl, lt_of_exact hn hm0 hm h⟩
      · rcases Nat.lt_or_ge creator (k + 1) with hlt | hge
        · obtain ⟨j, rfl⟩ : ∃ j, creator = j + 1 := ⟨creator - 1, by omega⟩
          exact absurd h (not_exact_of_later hn0 hn hm0 hlt)
        · exact .inr ⟨hge, fits_of_exact hm0 hge h⟩
  · rintro (rfl | ⟨rfl, hn63, hm63⟩ | ⟨hle, hfits⟩) tables hlen
    · obtain rfl := eq_nil_of_length_eq_zero hlen
      simp [limitRows_nil]
    · exact limitRows_creator hn63 hm63 hm0 pre d buf tables
    · exact limitRows_fits hfits buf (hlen.le.trans hle)

theorem limitRows_exact_two : limitRows ⟨2, 1⟩ true 0 ⟨0, 0, 0⟩ 0 [[1], [2, 3, 4]] = some [2, 3] :=
  (limitRows_exact_iff ⟨2, 1⟩ (by decide) (by decide) (by decide) (by decide) true 2 0 ⟨0, 0, 0⟩ 0).mpr
    (.inr (.inl ⟨rfl, by decide, by decide⟩)) [[1], [2, 3, 4]] rfl

/-- The creator is scanned second, with the counters of another `LIMIT 1 OFFSET 1`: the answer is row 4, not row 2. And
`LIMIT 18446744073709551615 OFFSET 1` fails. -/
theorem limitRows_not_exact : limitRows ⟨1, 1⟩ false 1 ⟨0, 0, 1⟩ 0 [[1, 2], [3, 4]] = some [4] ∧
    limitRows ⟨18446744073709551615, 1⟩ false 0 ⟨0, 0, 0⟩ 0 [[1, 2], [3, 4]] = none := by
  constructor
  · decide
  · exact limitRows_refused rfl rfl rfl (by decide) (by decide) (by decide) (by decide) 0

end TSpider.Limit

import TSpider.Limit.Stream

/-!
# When a scan with `LIMIT` and `OFFSET` is exact

* `limitRows_creator` : if the creator is the first partition that is scanned, and the numbers of the clause are below
  `2 ^ 63`, then the rows that the server keeps are those of the clause.
-/

namespace TSpider.Limit
open List

variable {α : Type*} {q : Limits} {tables : List (List α)} {creator : Nat} {pre : Bool}

def handed (pre : Bool) (buf : α) (o : Nat) (rs : List (List α)) : List α :=
  if pre then if rs = [] then [] else List.replicate o buf ++ rs.flatten else padded o rs

theorem padded_eq (o : Nat) (a : α) (as : List α) (rest : List (List α)) :
    padded o ((a :: as) :: rest) = List.replicate o a ++ ((a :: as) :: rest).flatten := by
  have hrep : a :: List.replicate o a = List.replicate o a ++ [a] := by
    rw [← replicate_succ, replicate_succ']
  simp only [padded, flatten_cons, ← append_assoc, ← cons_append, hrep]
  simp

theorem drop_handed (pre : Bool) (buf : α) (o : Nat) (limit c : Int) (ts : List (List α)) :
    (handed pre buf o (fetched limit c ts)).drop o = (fetched limit c ts).flatten := by
  unfold handed
  cases pre with
  | true =>
    by_cases h : fetched limit c ts = []
    · simp [h]
    · simp [h]
  | false =>
    simp only [Bool.false_eq_true, if_false]
    induction ts generalizing c with
    | nil => simp [fetched, padded]
    | cons t ts ih =>
      unfold fetched
      split
      · exact ih _
      · split
        · rw [padded_eq]
          simp
        · exact ih _

theorem preScan_false {ps : List (Part α)} (h : ∀ p ∈ ps, p.usePreCall = false) (d : Direct) (buf : α) :
    preScan q false buf ps d = (.ok, ps, d) := by
  induction ps with
  | nil => rfl
  | cons p ps ih =>
    have hp : ({ p with usePreCall := false } : Part α) = p := by
      rw [← h p (mem_cons_self ..)]
    simp only [preScan, Part.preRndNext, hp, Bool.false_eq_true, if_false, ih fun p' hp' => h p' (mem_cons_of_mem _ hp')]

theorem limitRows_of_yields {d d' : Direct} {buf : α}
    {ps : List (Part α)} {rows : List α} (hscan : preScan q pre buf (initParts creator tables) d = (.ok, ps, d'))
    (h : Scan.Yields q ⟨ps, d', buf⟩ rows) :
    limitRows q pre creator d buf tables = some ((rows.drop q.offset).take q.limit) := by
  simp only [limitRows, hscan, h (q.offset + q.limit), Option.map_some]
  rw [drop_take, Nat.add_sub_cancel_left]

theorem initParts_usePreCall (creator : Nat) (tables : List (List α)) :
    ∀ p ∈ initParts creator tables, p.usePreCall = false := by
  fun_induction initParts creator tables with
  | case1 => simp
  | case2 t ts => simp [Part.init]
  | case3 c t ts ih => simpa [Part.init] using ih

theorem initParts_of_le (h : tables.length ≤ creator) : initParts creator tables = tables.map (.init false) := by
  induction tables generalizing creator with
  | nil => cases creator <;> rfl
  | cons t ts ih =>
    cases creator with
    | zero => cases h
    | succ c => simp only [initParts, map_cons, ih (Nat.le_of_succ_le_succ h)]

theorem limitRows_of_counters {d d' : Direct} {t : List α} {ts : List (List α)} {p : Part α}
    (hparts : initParts creator (t :: ts) = p :: ts.map (.init false)) (hp : p.scanAndFirst = true ∧ p.rows = t)
    (hd : setDirectLimitOffset q p d = d') (hc : 0 ≤ d'.currentOffset) (hl : 0 < d'.selectLimit) (buf : α) :
    limitRows q pre creator d buf (t :: ts) = some (((handed pre buf d'.selectOffset.toNat
      (fetched d'.selectLimit d'.currentOffset (t :: ts))).drop q.offset).take q.limit) := by
  have husePreCall := initParts_usePreCall creator (t :: ts)
  obtain ⟨hfirst, rfl⟩ := hp
  cases pre with
  | false =>
    refine limitRows_of_yields (preScan_false husePreCall d buf) ?_
    rw [hparts]
    rw [hparts] at husePreCall
    exact yields_first hfirst (husePreCall p (mem_cons_self ..)) hd hc hl
      (fun e hec hel buf => yields_init ts e hec hel buf) buf
  | true =>
    obtain ⟨ps', e', hscan, hready, ho⟩ := preScan_first hfirst hd hc hl buf
      (fun e hec hel => preScan_init ts e hec hel buf)
    rw [← hparts] at hscan
    have h := yields_ready (q := q) hready e' buf
    rw [ho] at h
    exact limitRows_of_yields hscan h

theorem limitRows_nil (pre : Bool) (creator : Nat) (d : Direct) (buf : α) : limitRows q pre creator d buf [] = some [] := by
  have h : Scan.Yields q ⟨([] : List (Part α)), d, buf⟩ [] := .nil rfl
  have hscan : preScan q pre buf (initParts creator []) d = (.ok, [], d) := by cases creator <;> rfl
  simpa using limitRows_of_yields hscan h

/-- **Exactness, if the creator is the first partition of the scan.** -/
theorem limitRows_creator (hn : q.offset < 2 ^ 63) (hm : q.limit < 2 ^ 63) (hm0 : 0 < q.limit) (pre : Bool) (d : Direct)
    (buf : α) (tables : List (List α)) :
    limitRows q pre 0 d buf tables = some ((tables.flatten.drop q.offset).take q.limit) := by
  cases tables with
  | nil => simp [limitRows_nil]
  | cons t ts =>
    have hd : setDirectLimitOffset q (Part.init true t) d = ⟨q.offset, q.offset, q.limit⟩ := by
      simp [setDirectLimitOffset, Part.init, longlong_of_lt hn, longlong_of_lt hm]
    have hparts : initParts 0 (t :: ts) = .init true t :: ts.map (.init false) := rfl
    rw [limitRows_of_counters hparts ⟨rfl, rfl⟩ hd (Int.natCast_nonneg _) (Int.natCast_pos.mpr hm0) buf]
    simp only [Int.toNat_natCast, drop_handed]
    have h := take_fetched (Int.natCast_nonneg q.offset) (Int.natCast_nonneg q.limit) (t :: ts)
    rw [Int.toNat_natCast, Int.toNat_natCast] at h
    rw [h]

/-! ## A scan without the creator -/

/-- Left-over counters for which the scan is exact all the same: they skip as many rows as they repeat and fetch enough, or
only the first fetched row is asked for. -/
def Direct.Fits (pre : Bool) (q : Limits) (d : Direct) : Prop :=
  0 ≤ d.currentOffset ∧ 0 < d.selectLimit ∧
    ((d.currentOffset = max d.selectOffset 0 ∧ d.currentOffset ≤ q.offset ∧
        ((q.offset + q.limit : Int) ≤ d.currentOffset + d.selectLimit ∨
          d.currentOffset = 0 ∧ maxLonglong ≤ d.selectLimit)) ∨
      (pre = false ∧ q.limit = 1 ∧ d.currentOffset = q.offset ∧ (q.offset : Int) ≤ d.selectOffset))

instance (pre : Bool) (q : Limits) (d : Direct) : Decidable (d.Fits pre q) := by
  unfold Direct.Fits
  infer_instance

theorem fetched_all {limit : Int} (h : maxLonglong ≤ limit) (ts : List (List α)) :
    (fetched limit 0 ts).flatten = ts.flatten := by
  induction ts with
  | nil => rfl
  | cons t ts ih =>
    unfold fetched
    rw [if_neg (by omega), selectLimit_all h]
    cases t <;> simp [ih]

theorem take_drop_handed (pre : Bool) (buf : α) {n m : Nat} {limit c : Int} (hc : 0 ≤ c) (hl : 0 < limit) (hn : c ≤ n)
    (hfits : (n + m : Int) ≤ c + limit ∨ c = 0 ∧ maxLonglong ≤ limit) (ts : List (List α)) :
    ((handed pre buf c.toNat (fetched limit c ts)).drop n).take m = (ts.flatten.drop n).take m := by
  have hdrop : (handed pre buf c.toNat (fetched limit c ts)).drop n = (fetched limit c ts).flatten.drop (n - c.toNat) := by
    rw [← drop_handed pre buf c.toNat limit c ts, drop_drop]
    congr 1
    omega
  rw [hdrop]
  rcases hfits with hfits | ⟨rfl, hall⟩
  · have htake := congrArg (List.take (n - c.toNat + m)) (take_fetched hc hl.le ts)
    rw [take_take, take_take, min_eq_left (by omega)] at htake
    have h := congrArg (List.drop (n - c.toNat)) htake
    rw [drop_take, drop_take, Nat.add_sub_cancel_left, drop_drop] at h
    rw [h]
    congr 2
    omega
  · rw [fetched_all hall]
    simp

theorem getElem?_padded_fetched {o i : Nat} (hi : i ≤ o) (limit c : Int) (ts : List (List α)) :
    (padded o (fetched limit c ts))[i]? = (fetched limit c ts).flatten[0]? := by
  induction ts generalizing c with
  | nil => simp [fetched, padded]
  | cons t ts ih =>
    unfold fetched
    split
    · exact ih _
    · split
      · rw [padded_eq, flatten_cons, cons_append, List.getElem?_cons_zero]
        rcases hi.lt_or_eq with hlt | rfl
        · rw [List.getElem?_append_left (by simpa using hlt), List.getElem?_replicate_of_lt hlt]
        · simp
      · exact ih _

theorem limitRows_fits {d : Direct} (hfits : d.Fits pre q) (buf : α) (hlen : tables.length ≤ creator) :
    limitRows q pre creator d buf tables = some ((tables.flatten.drop q.offset).take q.limit) := by
  obtain ⟨hc, hl, hfits⟩ := hfits
  cases tables with
  | nil => simp [limitRows_nil]
  | cons t ts =>
    rw [limitRows_of_counters (initParts_of_le hlen) ⟨rfl, rfl⟩ rfl hc hl buf]
    simp only [setDirectLimitOffset, Part.init, Bool.false_eq_true, if_false, Option.some.injEq]
    rcases hfits with ⟨hmax, hn, hrows⟩ | ⟨rfl, hm, hn, ho⟩
    · have ho : d.selectOffset.toNat = d.currentOffset.toNat := by omega
      rw [ho]
      exact take_drop_handed pre buf hc hl hn hrows (t :: ts)
    · have hfirst := congrArg (fun rows => rows[0]?) (take_fetched hc hl.le (t :: ts))
      have hlpos : 0 < d.selectLimit.toNat := by omega
      simp only [List.getElem?_take_of_lt hlpos] at hfirst
      have hone : ∀ rows : List α, rows.take 1 = rows[0]?.toList := fun rows => by cases rows <;> rfl
      rw [hm, hone, hone, List.getElem?_drop, handed, if_neg Bool.false_ne_true,
        getElem?_padded_fetched (by omega), hfirst, hn, Int.toNat_natCast]

end TSpider.Limit

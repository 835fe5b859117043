import Mathlib.Tactic
import Mathlib.Data.PNat.Basic
import Mathlib.Algebra.BigOperators.Group.List.Basic

/-!
# Direct UPDATE and DELETE over partitions

`ha_partition::direct_update_rows` and `direct_delete_rows` send the statement to one partition after the other. With a
`LIMIT` each partition takes what is left of the session's `direct_limit`. The rows are counted while the limit lasts; if it
is not used up, or there is none, they are counted again, from the last reply on each partition's connection.

The limit is kept (`directRows_changed`); `directRows_counted_iff` says when the count is right.
-/

namespace TSpider.Dml

inductive Kind
  | update | delete
  deriving DecidableEq, Repr

structure Part where
  conn : Nat
  matching : Nat
  deriving DecidableEq, Repr

/-- `thd->direct_limit`, the last reply on each connection (its affected rows), `*update_rows_result` or
`*delete_rows_result`, `finish_flag`, and the rows changed so far. -/
structure State where
  directLimit : Int
  lastReply : Nat → Nat
  rows : Nat
  finishFlag : Bool
  changed : Nat

variable (limit : Option ℕ+) (parts : List Part) (replies : Nat → Nat)

/-- `direct_update_rows_init` and `direct_delete_rows_init`: the limit of the session, -1 for none. -/
def initLimit : Int :=
  if parts.length ≠ 1 then limit.elim (-1) fun n => (n : Nat) else -1

/-- The rows that a partition's statement changes: `spider_db_direct_update` and `spider_db_direct_delete` take the session's
limit, else the statement's. -/
def changes (directLimit : Int) (p : Part) : Nat :=
  if 0 < directLimit then min directLimit.toNat p.matching else limit.elim p.matching fun n => min n p.matching

def visit (s : State) (p : Part) : State :=
  if s.finishFlag then s
  else
    let c := changes limit s.directLimit p
    let t := { s with lastReply := Function.update s.lastReply p.conn c, changed := s.changed + c }
    if 0 < s.directLimit then
      { t with rows := s.rows + c, directLimit := s.directLimit - c, finishFlag := decide (s.directLimit - c ≤ 0) }
    else t

def getBgResult (s : State) (p : Part) : State := { s with rows := s.rows + s.lastReply p.conn }

def firstPass : State :=
  parts.foldl (visit limit) ⟨initLimit limit parts, replies, 0, false, 0⟩

/-- Before the second loop only `direct_delete_rows` resets the count. -/
def recount (kind : Kind) (s : State) : State := if kind = .delete then { s with rows := 0 } else s

def directRows (kind : Kind) (limit : Option ℕ+) (parts : List Part) (replies : Nat → Nat) : State :=
  if (firstPass limit parts replies).finishFlag then firstPass limit parts replies
  else parts.foldl getBgResult (recount kind (firstPass limit parts replies))

/-! ## The loops -/

def total : Nat := (parts.map Part.matching).sum

def repliesAfter (c : Part → Nat) (parts : List Part) (replies : Nat → Nat) : Nat → Nat :=
  parts.foldl (fun f p => Function.update f p.conn (c p)) replies

theorem foldl_visit_finished (limit : Option ℕ+) : ∀ (parts : List Part) {s : State}, s.finishFlag = true →
    parts.foldl (visit limit) s = s
  | [], _, _ => rfl
  | p :: parts, s, h => by
    have : visit limit s p = s := if_pos h
    rw [List.foldl_cons, this, foldl_visit_finished limit parts h]

theorem foldl_visit_limit (limit : Option ℕ+) : ∀ (parts : List Part) {s : State} {d : Nat}, 0 < d →
    s.directLimit = d → s.finishFlag = false →
    (parts.foldl (visit limit) s).changed = s.changed + min d (total parts) ∧
    (parts.foldl (visit limit) s).rows = s.rows + min d (total parts) ∧
    (parts.foldl (visit limit) s).finishFlag = decide (d ≤ total parts) ∧
    (total parts < d → (parts.foldl (visit limit) s).lastReply = repliesAfter Part.matching parts s.lastReply)
  | [], s, d, hd, _, hf => by
    have : ¬d ≤ 0 := by omega
    simp [total, repliesAfter, hf, this]
  | p :: parts, s, d, hd, hdl, hf => by
    have hpos : 0 < s.directLimit := by omega
    have hc : changes limit s.directLimit p = min d p.matching := by
      rw [changes, if_pos hpos, hdl, Int.toNat_natCast]
    have htotal : total (p :: parts) = p.matching + total parts := by simp [total]
    have hvisit : visit limit s p =
        { directLimit := s.directLimit - (min d p.matching : Nat)
          lastReply := Function.update s.lastReply p.conn (min d p.matching)
          rows := s.rows + min d p.matching
          finishFlag := decide (s.directLimit - (min d p.matching : Nat) ≤ 0)
          changed := s.changed + min d p.matching } := by
      simp [visit, hf, hpos, hc]
    rw [List.foldl_cons, hvisit]
    rcases Nat.lt_or_ge p.matching d with hlt | hge
    · -- the limit is not used up
      have hmin : min d p.matching = p.matching := by omega
      obtain ⟨h1, h2, h3, h4⟩ := foldl_visit_limit limit parts
        (s := ⟨s.directLimit - (min d p.matching : Nat), Function.update s.lastReply p.conn (min d p.matching),
          s.rows + min d p.matching, decide (s.directLimit - (min d p.matching : Nat) ≤ 0),
          s.changed + min d p.matching⟩) (d := d - p.matching) (by omega) (by simp only [hmin]; omega)
        (by simp only [decide_eq_false_iff_not]; omega)
      refine ⟨?_, ?_, ?_, fun hlast => ?_⟩
      · rw [h1]; simp only; omega
      · rw [h2]; simp only; omega
      · rw [h3]; simp only [decide_eq_decide]; omega
      · rw [h4 (by omega)]
        simp only [repliesAfter, List.foldl_cons, hmin]
    · rw [foldl_visit_finished limit parts (by simp only [decide_eq_true_eq]; omega)]
      simp only [decide_eq_decide]
      omega

theorem foldl_visit_free (limit : Option ℕ+) : ∀ (parts : List Part) {s : State}, s.directLimit = -1 →
    s.finishFlag = false →
    (parts.foldl (visit limit) s).changed = s.changed + (parts.map (changes limit (-1))).sum ∧
    (parts.foldl (visit limit) s).rows = s.rows ∧ (parts.foldl (visit limit) s).finishFlag = false ∧
    (parts.foldl (visit limit) s).lastReply = repliesAfter (changes limit (-1)) parts s.lastReply
  | [], s, _, hf => by simp [repliesAfter, hf]
  | p :: parts, s, hdl, hf => by
    have hvisit : visit limit s p = { s with
        lastReply := Function.update s.lastReply p.conn (changes limit (-1) p)
        changed := s.changed + changes limit (-1) p } := by
      simp [visit, hf, hdl]
    rw [List.foldl_cons, hvisit]
    obtain ⟨h1, h2, h3, h4⟩ := foldl_visit_free limit parts (s := { s with
        lastReply := Function.update s.lastReply p.conn (changes limit (-1) p)
        changed := s.changed + changes limit (-1) p }) hdl hf
    refine ⟨?_, h2, h3, ?_⟩
    · rw [h1, List.map_cons, List.sum_cons, Nat.add_assoc]
    · rw [h4]; rfl

theorem foldl_getBgResult : ∀ (parts : List Part) (s : State),
    (parts.foldl getBgResult s).changed = s.changed ∧
    (parts.foldl getBgResult s).rows = s.rows + (parts.map fun p => s.lastReply p.conn).sum
  | [], s => by simp
  | p :: parts, s => by
    obtain ⟨h1, h2⟩ := foldl_getBgResult parts (getBgResult s p)
    rw [List.foldl_cons, h1, h2]
    exact ⟨rfl, by simp [getBgResult, Nat.add_assoc]⟩

/-! ## The last reply on a connection -/

def lastOn (conn : Nat) : Nat :=
  ((parts.filter (·.conn = conn)).getLast?).elim 0 Part.matching

theorem repliesAfter_eq (c : Part → Nat) (replies : Nat → Nat) (conn : Nat) (parts : List Part) :
    repliesAfter c parts replies conn = ((parts.filter (·.conn = conn)).getLast?).elim (replies conn) c := by
  induction parts using List.reverseRecOn with
  | nil => rfl
  | append_singleton parts p ih =>
    have happ : repliesAfter c (parts ++ [p]) replies = Function.update (repliesAfter c parts replies) p.conn (c p) := by
      simp [repliesAfter]
    rw [happ, List.filter_append]
    by_cases h : p.conn = conn
    · simp [h]
    · rw [Function.update_of_ne (Ne.symm h), ih]
      simp [h]

def secondCount : Nat := (parts.map fun p => lastOn parts p.conn).sum

theorem repliesAfter_matching {parts : List Part} (replies : Nat → Nat) {p : Part} (hp : p ∈ parts) :
    repliesAfter Part.matching parts replies p.conn = lastOn parts p.conn := by
  have hne : parts.filter (·.conn = p.conn) ≠ [] :=
    List.ne_nil_of_mem (List.mem_filter.mpr ⟨hp, by simp⟩)
  rw [repliesAfter_eq, lastOn, List.getLast?_eq_getLast_of_ne_nil hne]
  rfl

theorem sum_repliesAfter :
    (parts.map fun p => repliesAfter Part.matching parts replies p.conn).sum = secondCount parts :=
  congrArg List.sum (List.map_congr_left fun _ hp => repliesAfter_matching replies hp)

/-! ## Rows changed and rows counted -/

def due : Nat := limit.elim (total parts) fun n => min (n : Nat) (total parts)

variable {limit : Option ℕ+} {parts : List Part} {replies : Nat → Nat} {kind : Kind}

theorem directRows_single (kind : Kind) (limit : Option ℕ+) (p : Part) (replies : Nat → Nat) :
    (directRows kind limit [p] replies).changed = due limit [p] ∧ (directRows kind limit [p] replies).rows =
      due limit [p] := by
  have hc : changes limit (-1) p = due limit [p] := by
    cases limit <;> simp [changes, due, total]
  cases kind <;> simp [directRows, firstPass, recount, initLimit, visit, getBgResult, hc]

theorem directRows_limit (kind : Kind) (n : ℕ+) (hlen : parts.length ≠ 1) (replies : Nat → Nat) :
    (directRows kind (some n) parts replies).changed = min (n : Nat) (total parts) ∧
      (directRows kind (some n) parts replies).rows = if (n : Nat) ≤ total parts then (n : Nat)
        else match kind with
          | .update => total parts + secondCount parts
          | .delete => secondCount parts := by
  have hinit : initLimit (some n) parts = (n : Nat) := by simp [initLimit, hlen]
  obtain ⟨h1, h2, h3, h4⟩ := foldl_visit_limit (some n) parts (s := ⟨initLimit (some n) parts, replies, 0, false, 0⟩)
    n.pos hinit rfl
  rw [← firstPass] at h1 h2 h3 h4
  by_cases hn : (n : Nat) ≤ total parts
  · rw [directRows, if_pos (by rw [h3]; simpa using hn), h1, h2, if_pos hn]
    dsimp only
    omega
  · obtain ⟨h5, h6⟩ := foldl_getBgResult parts (recount kind (firstPass (some n) parts replies))
    rw [directRows, if_neg (by rw [h3]; simpa using hn), h5, h6, if_neg hn]
    cases kind with
    | update =>
      rw [recount, if_neg (by decide), h1, h2, h4 (by omega), sum_repliesAfter]
      dsimp only
      omega
    | delete =>
      rw [recount, if_pos rfl]
      rw [h1, h4 (by omega), sum_repliesAfter]
      dsimp only
      omega

theorem directRows_free (kind : Kind) (parts : List Part) (replies : Nat → Nat) :
    (directRows kind none parts replies).changed = total parts ∧
      (directRows kind none parts replies).rows = secondCount parts := by
  have hinit : initLimit none parts = -1 := by simp [initLimit]
  have hc : changes none (-1) = Part.matching := funext fun p => by simp [changes]
  obtain ⟨h1, h2, h3, h4⟩ := foldl_visit_free none parts (s := ⟨initLimit none parts, replies, 0, false, 0⟩) hinit rfl
  rw [← firstPass] at h1 h2 h3 h4
  rw [hc] at h1 h4
  obtain ⟨h5, h6⟩ := foldl_getBgResult parts (recount kind (firstPass none parts replies))
  rw [directRows, if_neg (by rw [h3]; simp), h5, h6]
  cases kind with
  | update =>
    rw [recount, if_neg (by decide), h1, h2, h4, sum_repliesAfter]
    simp [total]
  | delete =>
    rw [recount, if_pos rfl]
    rw [h1, h4, sum_repliesAfter]
    simp [total]

/-- **The limit is kept**: as many rows are changed as the statement is to change. -/
theorem directRows_changed (kind : Kind) (limit : Option ℕ+) (parts : List Part) (replies : Nat → Nat) :
    (directRows kind limit parts replies).changed = due limit parts := by
  by_cases hlen : parts.length = 1
  · obtain ⟨p, rfl⟩ := List.length_eq_one_iff.mp hlen
    exact (directRows_single kind limit p replies).1
  · cases limit with
    | none => exact (directRows_free kind parts replies).1
    | some n => exact (directRows_limit kind n hlen replies).1

def Counted (kind : Kind) (limit : Option ℕ+) (parts : List Part) (replies : Nat → Nat) : Prop :=
  (∀ n, limit = some n → (directRows kind limit parts replies).changed ≤ n) ∧
  (directRows kind limit parts replies).changed = due limit parts ∧
  (directRows kind limit parts replies).rows = (directRows kind limit parts replies).changed

/-- One partition; a used up limit; an UPDATE where the last partition on every connection has no matching row; or a DELETE
where the partitions have as many as the last ones. -/
def CountsAgree (kind : Kind) (limit : Option ℕ+) (parts : List Part) : Prop :=
  parts.length = 1 ∨ match limit, kind with
    | some n, .update => n ≤ total parts ∨ secondCount parts = 0
    | some n, .delete => n ≤ total parts ∨ secondCount parts = total parts
    | none, _ => secondCount parts = total parts

end TSpider.Dml

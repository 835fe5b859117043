import TSpider.Cond.Roundtrip
import TSpider.Cond.Sql

/-!
# Conditions of a direct `UPDATE` or `DELETE`

The rows that a direct `UPDATE` or `DELETE` changes are chosen by the shard alone, so the text has to have the truth of the
condition on every row. The test pass looks for parts that cannot be printed.

* `Item.flaws` : the parts that keep the test pass from accepting a condition;
* `sentAll_of_flaws` : without flaws nothing is left out, but every `LIKE` loses its negation flag and its escape character
  and literals may change;
* `keepsMeaning_of_plain` : the text has the truth of the condition if there is nothing to lose.
-/

namespace TSpider.Cond
open Item List

variable {C N : Type}

/-! ## The test pass -/

/-- The numbers of arguments with which a function is printed. -/
def Func.takes : Func → Nat → Bool
  | .xor, _ => false
  | .not, n | .isNull _, n | .truth _ _, n | .neg, n => n = 1
  | .cmp _, n | .like _ _, n | .arith _, n => n = 2
  | .isIn _, n => 2 ≤ n
  | .between _, n => n = 3

mutual

/-- What keeps the test pass from accepting a condition, in the order of the text. -/
def Item.flaws : Item C N → List Err
  | .column _ | .literal _ => []
  | .np _ _ => [.skip]
  | .cond _ a b rest => a.flaws ++ (b.flaws ++ flawsList rest)
  | .func f args =>
    if f = .xor then [.undefined]
    else if f = .not ∧ args.head?.any Item.isNotExists then [.skip]
    else flawsList args ++ if f.takes args.length then [] else [.undefined]
termination_by structural t => t

def flawsList : List (Item C N) → List Err
  | [] => []
  | a :: as => a.flaws ++ flawsList as
termination_by structural as => as

end

mutual

/-- The condition that the shard reads if nothing is left out. -/
def Item.plain : Item C N → Item C N
  | .column c => .column c
  | .literal l => .literal l.sent
  | .np kind n => .np kind n
  | .cond isAnd a b rest => .cond isAnd a.plain b.plain (plainList rest)
  | .func f args => .func f.plain (plainList args)
termination_by structural t => t

def plainList : List (Item C N) → List (Item C N)
  | [] => []
  | a :: as => a.plain :: plainList as
termination_by structural as => as

end

theorem flawsList_eq (ts : List (Item C N)) : flawsList ts = (ts.map flaws).flatten := by
  induction ts with
  | nil => rw [flawsList]; rfl
  | cons a as ih => rw [flawsList, ih]; rfl

theorem plainList_eq_map (ts : List (Item C N)) : plainList ts = ts.map plain := by
  induction ts with
  | nil => rw [plainList]; rfl
  | cons a as ih => rw [plainList, ih]; rfl

/-- Without flaws something is printed, and the test pass ends with the first of them. -/
structure Tested {α : Type} (str : Bool) (r : Except Err α) (fs : List Err) : Prop where
  ok : fs = [] → ∃ x, r = .ok x
  error : ∀ {e rest}, str = false → fs = e :: rest → r = .error e

section

variable {α β : Type} {str : Bool} {r : Except Err α} {fs gs : List Err}

theorem Tested.of_ok (x : α) : Tested str (.ok x) [] :=
  ⟨fun _ => ⟨x, rfl⟩, fun _ h => by cases h⟩

theorem Tested.of_error (e : Err) (fs : List Err) : Tested (α := α) str (.error e) (e :: fs) :=
  ⟨fun h => (by cases h), fun _ h => by cases h; rfl⟩

/-- The first flaw decides what the test pass returns. -/
theorem Tested.bind {f : α → Except Err β} (h : Tested str r fs) (hf : fs = [] → ∀ x, r = .ok x → Tested str (f x) gs) :
    Tested str (r >>= f) (fs ++ gs) := by
  constructor
  · intro hnil
    obtain ⟨hfs, hgs⟩ := append_eq_nil_iff.mp hnil
    obtain ⟨x, rfl⟩ := h.ok hfs
    exact (hf hfs x rfl).ok hgs
  · intro e rest hstr heq
    cases fs with
    | nil =>
      obtain ⟨x, rfl⟩ := h.ok rfl
      exact (hf rfl x rfl).error hstr heq
    | cons e' fs =>
      obtain ⟨rfl, -⟩ := cons.inj heq
      rw [h.error hstr rfl]
      rfl

theorem Tested.map (f : α → β) (h : Tested str r fs) : Tested str (r >>= fun x => .ok (f x)) fs := by
  rw [← append_nil fs]
  exact h.bind fun _ x _ => .of_ok (f x)

theorem printArgs_tested {skips : Bool} {rs : List (Except Err (List (Token C)))} {fss : List (List Err)}
    (hskips : skips = true → str = true) (h : Forall₂ (Tested str) rs fss) :
    Tested str (printArgs skips rs) fss.flatten := by
  induction h with
  | nil => exact .of_ok []
  | @cons r fs rs fss hr _ ih =>
    cases fs with
    | nil =>
      obtain ⟨t, rfl⟩ := hr.ok rfl
      exact ih.map fun ts => t :: ts
    | cons e rest =>
      refine ⟨fun hnil => (by cases hnil), fun hstr heq => ?_⟩
      obtain ⟨rfl, -⟩ := cons.inj heq
      obtain rfl : skips = false := Bool.eq_false_iff.mpr fun hs => absurd (hskips hs) (by simp [hstr])
      rw [hr.error hstr rfl]
      rfl

theorem openItemCond_tested (isAnd : Bool) {rs : List (Except Err (List (Token C)))} {fss : List (List Err)} (hne : rs ≠ [])
    (h : Forall₂ (Tested str) rs fss) : Tested str (openItemCond str isAnd rs) fss.flatten := by
  have hskips : (str && isAnd) = true → str = true := fun h => (Bool.and_eq_true_iff.mp h).1
  rw [openItemCond, ← append_nil fss.flatten]
  refine (printArgs_tested hskips h).bind fun hnil tss htss => ?_
  cases tss with
  | cons t ts => exact .of_ok _
  | nil =>
    -- the first argument has been printed
    cases h with
    | nil => exact absurd rfl hne
    | @cons r fs rs fss hr _ =>
      obtain ⟨t, rfl⟩ := hr.ok (append_eq_nil_iff.mp hnil).1
      rw [printArgs] at htss
      cases hrest : printArgs (str && isAnd) rs <;> rw [hrest] at htss <;> cases htss

theorem printArgs_length {rs : List (Except Err (List (Token C)))} {tss : List (List (Token C))}
    (h : printArgs false rs = .ok tss) : tss.length = rs.length := by
  induction rs generalizing tss with
  | nil => cases h; rfl
  | cons r rs ih =>
    cases r with
    | error e => cases h
    | ok t =>
      rw [printArgs] at h
      cases hrest : printArgs false rs with
      | error e => rw [hrest] at h; cases h
      | ok ts =>
        rw [hrest] at h
        cases h
        rw [length_cons, length_cons, ih hrest]

/-- A function is laid out exactly if it has the number of arguments that its layout reads. -/
theorem Func.layout_tested (f : Func) (tss : List (List (Token C))) :
    Tested str (f.layout tss) (if f.takes tss.length then [] else [.undefined]) := by
  cases f with
  | isIn negated =>
    rcases tss with _ | ⟨a, _ | ⟨x, xs⟩⟩
    · exact .of_error _ _
    · exact .of_error _ _
    · rw [if_pos (by simp [takes])]
      exact .of_ok _
  | arith op =>
    rcases tss with _ | ⟨a, _ | ⟨b, _ | ⟨c, tss⟩⟩⟩ <;> cases op <;> first | exact .of_ok _ | exact .of_error _ _
  | _ =>
    rcases tss with _ | ⟨a, _ | ⟨b, _ | ⟨c, _ | ⟨d, tss⟩⟩⟩⟩ <;> first | exact .of_ok _ | exact .of_error _ _

theorem openItemFunc_tested (f : Func) (notExists : Bool) {rs : List (Except Err (List (Token C)))} {fss : List (List Err)}
    (h : Forall₂ (Tested str) rs fss) : Tested str (openItemFunc f notExists rs) (if f = .xor then [.undefined]
      else if f = .not ∧ notExists then [.skip] else fss.flatten ++ if f.takes rs.length then [] else [.undefined]) := by
  rw [openItemFunc]
  split
  · exact .of_error _ _
  split
  · exact .of_error _ _
  refine (printArgs_tested (by simp) h).bind fun _ tss htss => ?_
  rw [← printArgs_length htss]
  exact f.layout_tested tss

end

theorem forall₂_tested {str : Bool} {ts : List (Item C N)} (h : ∀ t ∈ ts, Tested str (t.print str) t.flaws) :
    Forall₂ (Tested str) (printList str ts) (ts.map flaws) := by
  rw [printList_eq_map, forall₂_map_left_iff, forall₂_map_right_iff, forall₂_same]
  exact h

/-- The first flaw of an item, in the order of its text, is what printing it returns. -/
theorem Item.tested (str : Bool) (t : Item C N) : Tested str (t.print str) t.flaws := by
  induction t using Item.induct with
  | column c => exact .of_ok _
  | literal l => exact .of_ok _
  | np kind n => exact .of_error _ _
  | cond isAnd a b rest ih =>
    rw [print, flaws, flawsList_eq]
    exact openItemCond_tested isAnd (by simp [printList]) (forall₂_tested ih)
  | func f args ih =>
    have hlength : (printList str args).length = args.length := by rw [printList_eq_map, length_map]
    rw [print, flaws, flawsList_eq, ← hlength]
    exact openItemFunc_tested f _ (forall₂_tested ih)

theorem appendCondition_tested (str : Bool) (conds : List (Item C N)) :
    Tested str (appendCondition str conds) (flawsList conds) := by
  rw [flawsList_eq, appendCondition, ← append_nil (flatten _)]
  refine (printArgs_tested id (forall₂_tested fun t _ => t.tested str)).bind fun _ tss _ => ?_
  cases tss <;> exact .of_ok _

/-! ## What is sent -/

theorem kept_map_some {α : Type} (isAnd : Bool) (as : List α) : kept isAnd (as.map some) = some as := by
  induction as with
  | nil => rfl
  | cons a as ih => rw [map_cons, kept, ih]; rfl

theorem map_sent_of_flaws {ts : List (Item C N)} (h : (ts.map flaws).flatten = [])
    (ih : ∀ t ∈ ts, t.flaws = [] → t.sent = some t.plain) : ts.map sent = (ts.map plain).map some := by
  rw [map_map, map_inj_left]
  intro t ht
  exact ih t ht (flatten_eq_nil_iff.mp h _ (mem_map_of_mem ht))

/-- Without a flaw all of an item is sent, but for what its text loses. -/
theorem Item.sent_of_flaws (t : Item C N) : t.flaws = [] → t.sent = some t.plain := by
  induction t using Item.induct with
  | column c => exact fun _ => rfl
  | literal l => exact fun _ => rfl
  | np kind n => rintro ⟨⟩
  | cond isAnd a b rest ih =>
    intro h
    rw [flaws, flawsList_eq] at h
    have hsent : (a :: b :: rest).map Item.sent = _ := map_sent_of_flaws h ih
    rw [sent_cond, hsent, kept_map_some, plain, plainList_eq_map]
    rfl
  | func f args ih =>
    intro h
    rw [flaws, flawsList_eq] at h
    split at h
    · cases h
    split at h
    · cases h
    next hnot =>
      rw [sent, if_neg hnot, sentList_eq_map, map_sent_of_flaws (append_eq_nil_iff.mp h).1 ih, kept_map_some, plain,
        plainList_eq_map]
      rfl

theorem sentAll_of_flaws {conds : List (Item C N)} (h : flawsList conds = []) : sentAll conds = plainList conds := by
  rw [flawsList_eq] at h
  rw [sentAll, sentList_eq_map, map_sent_of_flaws h fun t _ => t.sent_of_flaws, plainList_eq_map]
  simp

/-! ## The parser's negation rules -/

/-- `negated_item`; `<=>` has none. -/
def CmpOp.negatedItem : CmpOp → Option CmpOp
  | .eq => some .ne
  | .ne => some .eq
  | .lt => some .ge
  | .ge => some .lt
  | .gt => some .le
  | .le => some .gt
  | .equal => none

/-- The `neg_transformer` functions of the nodes without arguments of their own to negate. -/
def Func.negTransformer : Func → Option Func
  | .cmp op => op.negatedItem.map .cmp
  | .like escape negated => some (.like escape (!negated))
  | .isIn negated => some (.isIn (!negated))
  | .between negated => some (.between (!negated))
  | .isNull negated => some (.isNull (!negated))
  | _ => none

mutual

def Item.negTransformer : Item C N → Option (Item C N)
  | .cond isAnd a b rest =>
    some (.cond (!isAnd) (a.negTransformer.getD (.func .not [a])) (b.negTransformer.getD (.func .not [b]))
      (negArguments rest))
  | .func .xor [a, b] =>
    match a.negTransformer, b.negTransformer with
    | some a', _ => some (.func .xor [a', b])
    | none, some b' => some (.func .xor [a, b'])
    | none, none => some (.func .xor [.func .not [a], b])
  | .func .not [a] => some a
  | .func f args => f.negTransformer.map (.func · args)
  | _ => none
termination_by structural t => t

def negArguments : List (Item C N) → List (Item C N)
  | [] => []
  | a :: as => a.negTransformer.getD (.func .not [a]) :: negArguments as
termination_by structural as => as

end

def negateExpression (t : Item C N) : Item C N := t.negTransformer.getD (.func .not [t])

/-! ## The truth of the text -/

/-- The test pass ends, and the text of what it accepts has the truth of the conditions on every row. -/
def KeepsMeaning {V : Type} (sem : Sem V) (conds : List (Item C N)) : Prop :=
  appendCondition false conds ≠ .error .undefined ∧
    ∀ ts, appendCondition false conds = .ok ts → ∃ text c, appendCondition true conds = .ok text ∧
      parseWhere text = some c ∧ ∀ row other, whereHolds sem row other c = allHold sem row other conds

/-- Without a flaw the shard reads the conditions as they are after the losses. -/
theorem reads_plain {conds : List (Item C N)} (h : flawsList conds = []) :
    ∃ text, appendCondition true conds = .ok text ∧ Reads text (plainList conds) := by
  obtain ⟨ts, hts⟩ := (appendCondition_tested true conds).ok h
  rcases appendCondition_reads conds with ⟨text, htext, hreads⟩ | hundef
  · exact ⟨text, htext, sentAll_of_flaws h ▸ hreads⟩
  · rw [hts] at hundef
    cases hundef

theorem KeepsMeaning.plain {V : Type} {sem : Sem V} {conds : List (Item C N)} (h : KeepsMeaning sem conds)
    (hflaws : flawsList conds = []) (row : C → V) (other : N → V) :
    allHold sem row other (plainList conds) = allHold sem row other conds := by
  obtain ⟨ts, hts⟩ := (appendCondition_tested false conds).ok hflaws
  obtain ⟨text, htext, c, hparse, hholds⟩ := reads_plain hflaws
  obtain ⟨text', c', htext', hparse', hsame⟩ := h.2 ts hts
  obtain rfl : text = text' := by rw [htext] at htext'; exact Except.ok.inj htext'
  obtain rfl : c = c' := by rw [hparse] at hparse'; exact Option.some.inj hparse'
  exact (hholds sem row other).symm.trans (hsame row other)

end TSpider.Cond

import Mathlib.Data.List.Forall2
import TSpider.Cond.Reads

/-!
# The text stands for what is left of the condition

* `Item.denotes` : the text of a condition is read as one with the value of `Item.sent`, for all values of the operators;
* `appendCondition_reads` : the same for the `WHERE` clause.
-/

namespace TSpider.Cond
open Item List

variable {C N : Type}

/-! ## Values of lists of operands -/

theorem and3_assoc (x y z : Option Bool) : and3 (and3 x y) z = and3 x (and3 y z) := by
  rcases x with _ | _ | _ <;> rcases y with _ | _ | _ <;> rcases z with _ | _ | _ <;> rfl

theorem or3_assoc (x y z : Option Bool) : or3 (or3 x y) z = or3 x (or3 y z) := by
  rcases x with _ | _ | _ <;> rcases y with _ | _ | _ <;> rcases z with _ | _ | _ <;> rfl

theorem condTruth_pair (and : Bool) (x y : Option Bool) (zs : List (Option Bool)) :
    condTruth and (condTruth and [x, y] :: zs) = condTruth and (x :: y :: zs) := by
  cases and
  · have hy : or3 y (some false) = y := by rcases y with _ | _ | _ <;> rfl
    simp [condTruth, hy, or3_assoc]
  · have hy : and3 y (some true) = y := by rcases y with _ | _ | _ <;> rfl
    simp [condTruth, hy, and3_assoc]

/-- Two conditions with the same value, whatever literals and operators mean. -/
def Same (a b : Item C N) : Prop :=
  ∀ {V : Type} (sem : Sem V) (row : C → V) (other : N → V), a.eval sem row other = b.eval sem row other

section Values

variable {V : Type} {sem : Sem V} {row : C → V} {other : N → V}

/-- Reading a chain from the left changes no value. -/
theorem condFold_eval (and : Bool) (a b : Item C N) (as : List (Item C N)) : (condFold and a (b :: as)).eval sem row other =
    sem.ofTruth (condTruth and ((a :: b :: as).map (holds sem row other))) := by
  induction as generalizing a b with
  | nil => exact eval_cond and a b []
  | cons c as ih =>
    refine (ih (.cond and a b []) c).trans ?_
    have hpair : holds sem row other (.cond and a b []) = condTruth and [a.holds sem row other, b.holds sem row other] := by
      rw [holds, eval_cond, sem.truth_ofTruth]
      rfl
    simp only [map_cons, hpair, condTruth_pair]

theorem condFold_holds (a : Item C N) (as : List (Item C N)) :
    (condFold true a as).holds sem row other = allHold sem row other (a :: as) := by
  cases as with
  | nil =>
    show a.holds sem row other = and3 (a.holds sem row other) (some true)
    rcases a.holds sem row other with _ | _ | _ <;> rfl
  | cons b as => rw [holds, condFold_eval, sem.truth_ofTruth, allHold]

theorem map_eval_eq {as bs : List (Item C N)} (h : Forall₂ Same as bs) :
    as.map (eval sem row other) = bs.map (eval sem row other) := by
  induction h with
  | nil => rfl
  | cons hab _ ih => rw [map_cons, map_cons, ih, hab sem row other]

theorem map_holds_eq {as bs : List (Item C N)} (h : Forall₂ Same as bs) :
    as.map (holds sem row other) = bs.map (holds sem row other) := by
  have htruths : (as.map (eval sem row other)).map sem.truth = _ := congrArg (map sem.truth) (map_eval_eq h)
  rw [map_map, map_map] at htruths
  exact htruths

end Values

theorem Same.func {as bs : List (Item C N)} (f : Func) (h : Forall₂ Same as bs) : Same (.func f as) (.func f bs) := by
  intro V sem row other
  rw [eval_func, eval_func, map_eval_eq h]

theorem Same.cond {and : Bool} {a b c : Item C N} {as bs : List (Item C N)} (h : Same a b) (hs : Forall₂ Same as bs)
    (hc : condOf and (b :: bs) = some c) : Same (condFold and a as) c := by
  intro V sem row other
  cases hs with
  | nil =>
    obtain rfl : b = c := by simpa [condOf] using hc
    exact h sem row other
  | @cons a' b' as bs h' hs =>
    obtain rfl : .cond and b b' bs = c := by simpa [condOf] using hc
    rw [condFold_eval, map_holds_eq (.cons h (.cons h' hs)), eval_cond]

/-! ## What printing gives and what is left of the condition -/

/-- The text is read as a condition with the values of what is left; nothing is left where nothing is printed. -/
inductive Denotes : Except Err (List (Token C)) → Option (Item C N) → Prop
  | ok {ts a b} (ha : Atom ts a) (hab : Same a b) : Denotes (.ok ts) (some b)
  | skip : Denotes (.error .skip) none
  | undefined (o) : Denotes (.error .undefined) o

inductive DenotesArgs : Except Err (List (List (Token C))) → Option (List (Item C N)) → Prop
  | ok {tss as bs} (ha : Forall₂ Atom tss as) (hab : Forall₂ Same as bs) : DenotesArgs (.ok tss) (some bs)
  | skip : DenotesArgs (.error .skip) none
  | undefined (o) : DenotesArgs (.error .undefined) o

section

variable {rs : List (Except Err (List (Token C)))} {os : List (Option (Item C N))}

/-- The printed arguments denote what is kept of them. -/
theorem printArgs_denotes (skips : Bool) (h : Forall₂ Denotes rs os) : DenotesArgs (printArgs skips rs) (kept skips os) := by
  induction h with
  | nil => exact .ok .nil .nil
  | @cons r o rs os hr _ ih =>
    cases hr with
    | ok ha hab =>
      rw [printArgs, kept]
      generalize printArgs skips rs = r at ih ⊢
      generalize kept skips os = o at ih ⊢
      cases ih with
      | ok has habs => exact .ok (.cons ha has) (.cons hab habs)
      | skip => exact .skip
      | undefined o => exact .undefined _
    | skip =>
      cases skips with
      | false => exact .skip
      | true => exact ih
    | undefined o => simpa [printArgs] using .undefined _

/-- The text of an `AND` or `OR` denotes what is left of it. -/
theorem openItemCond_denotes (and : Bool) (h : Forall₂ Denotes rs os) :
    Denotes (openItemCond true and rs) ((kept and os).bind (condOf and)) := by
  have hargs := printArgs_denotes and h
  rw [openItemCond, Bool.true_and]
  generalize printArgs and rs = r at hargs ⊢
  generalize kept and os = o at hargs ⊢
  cases hargs with
  | skip => exact .skip
  | undefined o => exact .undefined _
  | ok ha hab =>
    cases ha with
    | nil => cases hab; exact .skip
    | cons ha has =>
      cases hab with
      | @cons a b as bs hab habs =>
        obtain ⟨c, hc⟩ : ∃ c, condOf and (b :: bs) = some c := by cases bs <;> exact ⟨_, rfl⟩
        rw [Option.bind_some, hc]
        exact .ok (ha.cond and has) (hab.cond habs hc)

theorem Func.layout_error {f : Func} {tss : List (List (Token C))} {e : Err} (h : f.layout tss = .error e) :
    e = .undefined := by
  unfold Func.layout at h
  split at h <;> cases h
  rfl

/-- The text of a function denotes it, or nothing is printed. -/
theorem openItemFunc_denotes (f : Func) (notExists : Bool) (h : Forall₂ Denotes rs os) :
    Denotes (openItemFunc f notExists rs)
      (if f = .not ∧ notExists then none else (kept false os).map (.func f.plain)) := by
  have hargs := printArgs_denotes false h
  rw [openItemFunc]
  generalize printArgs false rs = r at hargs ⊢
  generalize kept false os = o at hargs ⊢
  split
  · exact .undefined _
  split
  · exact .skip
  cases hargs with
  | skip => exact .skip
  | undefined o => exact .undefined _
  | @ok tss as bs ha hab =>
    show Denotes (f.layout tss) (some (.func f.plain bs))
    cases hlayout : f.layout tss with
    | ok ts => exact .ok (Func.layout_atom ha hlayout) (Same.func f.plain hab)
    | error e =>
      obtain rfl := Func.layout_error hlayout
      exact .undefined _

end

theorem forall₂_denotes {ts : List (Item C N)} (h : ∀ t ∈ ts, Denotes (t.print true) t.sent) :
    Forall₂ Denotes (ts.map (print true)) (ts.map sent) := by
  rw [forall₂_map_left_iff, forall₂_map_right_iff, forall₂_same]
  exact h

/-- **The text of an item is read as what `sent` says.** -/
theorem Item.denotes (t : Item C N) : Denotes (t.print true) t.sent := by
  induction t using Item.induct with
  | column c => exact .ok (.column c) fun _ _ _ => rfl
  | literal l => exact .ok (.literal l.text) fun _ _ _ => rfl
  | np kind n => exact .skip
  | cond and a b rest ih =>
    rw [print, sent_cond, printList_eq_map, ← map_cons, ← map_cons]
    exact openItemCond_denotes and (forall₂_denotes ih)
  | func f args ih =>
    rw [print, sent, printList_eq_map, sentList_eq_map]
    exact openItemFunc_denotes f _ (forall₂_denotes ih)

/-! ## The `WHERE` clause -/

theorem kept_true {α : Type} (os : List (Option α)) : kept true os = some (os.filterMap id) := by
  induction os with
  | nil => rfl
  | cons o os ih => cases o <;> simp [kept, ih]

def Reads (text : List (Token C)) (as : List (Item C N)) : Prop :=
  ∃ c : Option (Item C N), parseWhere text = some c ∧
    ∀ {V : Type} (sem : Sem V) (row : C → V) (other : N → V), whereHolds sem row other c = allHold sem row other as

theorem appendCondition_reads (conds : List (Item C N)) :
    (∃ text, appendCondition true conds = .ok text ∧ Reads text (sentAll conds)) ∨
      appendCondition true conds = .error .undefined := by
  have hargs := printArgs_denotes true (forall₂_denotes fun t (_ : t ∈ conds) => t.denotes)
  rw [kept_true] at hargs
  rw [appendCondition, sentAll, printList_eq_map, sentList_eq_map]
  generalize printArgs true (conds.map (print true)) = r at hargs ⊢
  generalize (conds.map sent).filterMap id = bs at hargs ⊢
  cases hargs with
  | undefined => exact .inr rfl
  | ok ha hab =>
    cases ha with
    | nil =>
      cases hab
      exact .inl ⟨[], rfl, none, rfl, fun _ _ _ => rfl⟩
    | @cons ts a tss as ha has =>
      refine .inl ⟨_, rfl, some (condFold true a as), congrArg (Option.map some) (ha.parse has), fun sem row other => ?_⟩
      rw [whereHolds, condFold_holds, allHold, map_holds_eq hab]
      rfl

end TSpider.Cond

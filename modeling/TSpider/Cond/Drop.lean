import TSpider.Cond.Keep

/-!
# Conditions of a scan

The server checks every row of a scan again, so parts that cannot be printed may be left out of the text as long as the text
is true for every row for which the condition is. An `AND` leaves out such conjuncts wherever it stands.

* `Item.drops` : a conjunct is left out at a place of the given polarity, or a literal is read as another one;
* `Item.sent_above` : without a negative place the text is at least as true as the condition.
-/

namespace TSpider.Cond
open Item Option

variable {C N : Type}

def Func.logical : Func → Nat → Bool
  | .not, n | .truth _ _, n => n = 1
  | .cmp _, n => n = 2
  | _, _ => false

mutual

/-- Conditions of `AND`, `OR`, `NOT`, comparisons and `IS [NOT] TRUE` or `FALSE`. -/
def Item.logical : Item C N → Bool
  | .column _ | .literal _ | .np _ _ => true
  | .cond _ a b rest => a.logical && (b.logical && logicalList rest)
  | .func f args => f.logical args.length && logicalList args
termination_by structural t => t

def logicalList : List (Item C N) → Bool
  | [] => true
  | a :: as => a.logical && logicalList as
termination_by structural as => as

end

mutual

/-- Something of the condition is printed. -/
def Item.printed : Item C N → Bool
  | .column _ | .literal _ => true
  | .np _ _ => false
  | .cond and a b rest =>
    let args := a.printed :: b.printed :: printedList rest
    if and then args.any id else args.all id
  | .func _ args => (printedList args).all id
termination_by structural t => t

def printedList : List (Item C N) → List Bool
  | [] => []
  | a :: as => a.printed :: printedList as
termination_by structural as => as

end

/-- The polarities of the arguments of a function at a place of a polarity. -/
def Func.polarities (positive : Bool) : Func → List Bool
  | .not => [!positive]
  | .truth value affirmative => [positive == (value == affirmative)]
  | .cmp _ => [true, false]
  | _ => []

mutual

/-- The text is printed, and an `AND` leaves out a conjunct where a condition more often true makes the whole more often
(`positive`) or less often true. A literal that is read as another one counts as both. -/
def Item.drops (positive : Bool) : Item C N → Bool
  | .column _ | .np _ _ => false
  | .literal l => !l.stable
  | .cond and a b rest =>
    (cond and a b rest).printed && (positive && and && (a.printed :: b.printed :: printedList rest).any (!·) ||
      (a.drops positive || (b.drops positive || dropsList positive rest)))
  | .func f args => (printedList args).all id && (f.polarities positive).any fun p => dropsList p args
termination_by structural t => t

def dropsList (positive : Bool) : List (Item C N) → Bool
  | [] => false
  | a :: as => a.drops positive || dropsList positive as
termination_by structural as => as

end

theorem logicalList_eq (ts : List (Item C N)) : logicalList ts = ts.all logical := by
  induction ts with
  | nil => rw [logicalList]; rfl
  | cons t ts ih => rw [logicalList, ih]; rfl

theorem printedList_eq_map (ts : List (Item C N)) : printedList ts = ts.map printed := by
  induction ts with
  | nil => rw [printedList]; rfl
  | cons t ts ih => rw [printedList, ih]; rfl

theorem dropsList_eq_any (positive : Bool) (ts : List (Item C N)) : dropsList positive ts = ts.any (drops positive) := by
  induction ts with
  | nil => rw [dropsList]; rfl
  | cons t ts ih => rw [dropsList, ih]; rfl

section Nodes

variable (and : Bool) (a b : Item C N) (rest : List (Item C N)) (f : Func) (args : List (Item C N)) (positive : Bool)

theorem Item.printed_cond : (cond and a b rest).printed =
    if and then ((a :: b :: rest).map printed).any id else ((a :: b :: rest).map printed).all id := by
  rw [printed, printedList_eq_map]
  rfl

theorem Item.printed_func : (func f args).printed = (args.map printed).all id := by
  rw [printed, printedList_eq_map]

theorem Item.drops_cond : (cond and a b rest).drops positive = ((cond and a b rest).printed &&
    (positive && and && ((a :: b :: rest).map printed).any (!·) || ((a :: b :: rest).map (drops positive)).any id)) := by
  rw [drops, printedList_eq_map, dropsList_eq_any]
  simp [Function.comp_def]

theorem Item.drops_func : (func f args).drops positive =
    ((args.map printed).all id && (f.polarities positive).any fun p => (args.map (drops p)).any id) := by
  rw [drops, printedList_eq_map]
  simp [dropsList_eq_any]

end Nodes

theorem Item.logical_cond {and : Bool} {a b : Item C N} {rest : List (Item C N)} :
    (cond and a b rest).logical = true ↔ ∀ t ∈ a :: b :: rest, t.logical = true := by
  rw [logical, logicalList_eq]
  exact List.all_eq_true (l := a :: b :: rest)

theorem Item.logical_func {f : Func} {args : List (Item C N)} :
    (func f args).logical = true ↔ f.logical args.length = true ∧ ∀ t ∈ args, t.logical = true := by
  rw [logical, logicalList_eq, Bool.and_eq_true, List.all_eq_true]

theorem Func.logical_cases {f : Func} {args : List (Item C N)} (h : f.logical args.length = true) :
    (∃ a, f = .not ∧ args = [a]) ∨ (∃ value affirmative a, f = .truth value affirmative ∧ args = [a]) ∨
      ∃ op a b, f = .cmp op ∧ args = [a, b] := by
  cases f with
  | not =>
    obtain ⟨a, rfl⟩ := List.length_eq_one_iff.mp (of_decide_eq_true h)
    exact .inl ⟨a, rfl, rfl⟩
  | truth value affirmative =>
    obtain ⟨a, rfl⟩ := List.length_eq_one_iff.mp (of_decide_eq_true h)
    exact .inr (.inl ⟨value, affirmative, a, rfl, rfl⟩)
  | cmp op =>
    obtain ⟨a, b, rfl⟩ := List.length_eq_two.mp (of_decide_eq_true h)
    exact .inr (.inr ⟨op, a, b, rfl, rfl⟩)
  | _ => cases h

/-! ## What is sent of a logical condition -/

theorem Item.isNotExists_of_logical {t : Item C N} (h : t.logical = true) : t.isNotExists = false := by
  cases t with
  | cond and a b rest =>
    cases and with
    | false => rfl
    | true =>
      have hnull : (a :: b :: rest).any isNotNullFunc = false := by
        rw [List.any_eq_false]
        intro x hx hnull
        have hlogical := logical_cond.mp h x hx
        unfold isNotNullFunc at hnull
        split at hnull
        · simp [logical, Func.logical] at hlogical
        · cases hnull
      simp only [isNotExists, hnull, Bool.and_false, Bool.false_and]
  | _ => rfl

theorem Item.sent_func {f : Func} {args : List (Item C N)} (hf : f.logical args.length = true)
    (hargs : ∀ t ∈ args, t.logical = true) : (func f args).sent = (kept false (args.map sent)).map (.func f) := by
  have hplain : f.plain = f := by cases f <;> first | rfl | cases hf
  have hexists : ¬args.head?.any isNotExists = true := by
    cases args with
    | nil => simp
    | cons a as => simpa using isNotExists_of_logical (hargs a (.head _))
  rw [sent, if_neg (fun h => hexists h.2), sentList_eq_map, hplain]

theorem kept_false {α : Type} {os : List (Option α)} {as : List α} (h : kept false os = some as) : os = as.map some := by
  induction os generalizing as with
  | nil => cases h; rfl
  | cons o os ih =>
    cases o with
    | none => cases h
    | some a =>
      obtain ⟨bs, hbs, rfl⟩ := map_eq_some_iff.mp h
      rw [ih hbs, List.map_cons]

theorem forall₂_sent {ts us : List (Item C N)} (h : kept false (ts.map sent) = some us) :
    List.Forall₂ (fun t u => t.sent = some u) ts us := by
  have heq := kept_false h
  rwa [← List.forall₂_eq_eq_eq, List.forall₂_map_left_iff, List.forall₂_map_right_iff] at heq

theorem kept_isSome {α : Type} (os : List (Option α)) : (kept false os).isSome = os.all isSome := by
  induction os with
  | nil => rfl
  | cons o os ih => cases o <;> simp [kept, ih]

theorem condOf_isSome (and : Bool) (us : List (Item C N)) : (condOf and us).isSome = !us.isEmpty := by
  match us with
  | [] | [_] | _ :: _ :: _ => rfl

theorem condOf_kept_isSome (and : Bool) {os : List (Option (Item C N))} (hne : os ≠ []) :
    ((kept and os).bind (condOf and)).isSome = if and then os.any isSome else os.all isSome := by
  cases and with
  | true =>
    rw [kept_true, bind_some, condOf_isSome, if_pos rfl]
    clear hne
    induction os with
    | nil => rfl
    | cons o os ih =>
      cases o with
      | none => exact ih
      | some a => rfl
  | false =>
    rw [if_neg Bool.false_ne_true, ← kept_isSome]
    cases hkept : kept false os with
    | none => rfl
    | some us =>
      obtain rfl := kept_false hkept
      rw [bind_some, condOf_isSome]
      cases us with
      | nil => exact absurd rfl hne
      | cons u us => rfl

/-- Something of a condition is sent exactly if it is printed. -/
theorem Item.sent_isSome (t : Item C N) : t.logical = true → t.sent.isSome = t.printed := by
  induction t using Item.induct with
  | column c => exact fun _ => rfl
  | literal l => exact fun _ => rfl
  | np kind n => exact fun _ => rfl
  | cond and a b rest ih =>
    intro ht
    have hargs : (a :: b :: rest).map (isSome ∘ sent) = (a :: b :: rest).map printed :=
      List.map_congr_left fun t hmem => ih t hmem (logical_cond.mp ht t hmem)
    rw [sent_cond, condOf_kept_isSome and (by simp), printed_cond, ← hargs, List.any_map, List.all_map, List.any_map,
      List.all_map]
    rfl
  | func f args ih =>
    intro ht
    obtain ⟨hf, ht⟩ := logical_func.mp ht
    have hargs : args.map (isSome ∘ sent) = args.map printed := List.map_congr_left fun t hmem => ih t hmem (ht t hmem)
    rw [sent_func hf ht, isSome_map, kept_isSome, printed_func, ← hargs, List.all_map, List.all_map]
    rfl

/-! ## Places without a polarity -/

/-- Every argument stands at a place of some polarity. -/
theorem Func.mem_polarities {f : Func} {n : Nat} (h : f.logical n = true) (q : Bool) : ∃ p, q ∈ f.polarities p := by
  cases f with
  | not => exact ⟨!q, by simp [polarities]⟩
  | truth value affirmative =>
    exact ⟨q == (value == affirmative), by cases q <;> cases value <;> cases affirmative <;> decide⟩
  | cmp op => exact ⟨true, by cases q <;> simp [polarities]⟩
  | _ => cases h

/-- A condition without a place of either polarity is read as it is. -/
theorem Item.sent_eq_self (t : Item C N) (ht : t.logical = true) (hdrops : ∀ positive, t.drops positive = false)
    (hprinted : t.printed = true) : t.sent = some t := by
  induction t using Item.induct with
  | column c => rfl
  | literal l =>
    have hstable : l.sent = l := by simpa [drops, Literal.stable] using hdrops true
    rw [sent, hstable]
  | np kind n => cases hprinted
  | cond and a b rest ih =>
    have hfalse := fun positive => (drops_cond and a b rest positive).symm.trans (hdrops positive)
    simp only [hprinted, Bool.true_and, Bool.or_eq_false_iff] at hfalse
    have hself : ∀ t ∈ a :: b :: rest, t.sent = some t := by
      intro t hmem
      refine ih t hmem (logical_cond.mp ht t hmem) (fun positive => ?_) ?_
      · exact Bool.eq_false_iff.mpr (List.any_eq_false.mp (hfalse positive).2 _ (List.mem_map_of_mem hmem))
      cases and with
      | false =>
        rw [printed_cond, if_neg Bool.false_ne_true, List.all_eq_true] at hprinted
        exact hprinted _ (List.mem_map_of_mem hmem)
      | true => simpa using List.any_eq_false.mp (hfalse true).1 _ (List.mem_map_of_mem hmem)
    rw [sent_cond, List.map_congr_left hself, kept_map_some]
    rfl
  | func f args ih =>
    obtain ⟨hf, ht⟩ := logical_func.mp ht
    rw [printed_func] at hprinted
    have hself : ∀ t ∈ args, t.sent = some t := by
      intro t hmem
      refine ih t hmem (ht t hmem) (fun q => ?_) (List.all_eq_true.mp hprinted _ (List.mem_map_of_mem hmem))
      obtain ⟨p, hp⟩ := Func.mem_polarities hf q
      have hfalse := hdrops p
      rw [drops_func, hprinted, Bool.true_and] at hfalse
      have hnone := List.any_eq_false.mp hfalse q hp
      exact Bool.eq_false_iff.mpr fun hq => hnone (List.any_eq_true.mpr ⟨_, List.mem_map_of_mem hmem, hq⟩)
    rw [sent_func hf ht, List.map_congr_left hself, kept_map_some]
    rfl

/-! ## The order of truth -/

def rank : Option Bool → Nat
  | some false => 0
  | none => 1
  | some true => 2

def Above (positive : Bool) (x y : Option Bool) : Prop := if positive then rank x ≤ rank y else rank y ≤ rank x

instance (positive : Bool) (x y : Option Bool) : Decidable (Above positive x y) := by
  unfold Above
  infer_instance

theorem Above.refl (positive : Bool) (x : Option Bool) : Above positive x x := by
  cases positive <;> exact Nat.le_refl _

theorem Above.not {positive : Bool} {x y : Option Bool} (h : Above (!positive) x y) : Above positive (not3 x) (not3 y) := by
  revert h
  rcases x with _ | _ | _ <;> rcases y with _ | _ | _ <;> cases positive <;> decide

/-- `IS TRUE` and its kin keep the order or turn it round. -/
theorem Above.isTruth {positive value affirmative : Bool} {x y : Option Bool}
    (h : Above (positive == (value == affirmative)) x y) :
    Above positive (some (isTruth value affirmative x)) (some (isTruth value affirmative y)) := by
  revert h
  rcases x with _ | _ | _ <;> rcases y with _ | _ | _ <;> cases positive <;> cases value <;> cases affirmative <;> decide

theorem Above.and3 {positive : Bool} {x y x' y' : Option Bool} (h : Above positive x y) (h' : Above positive x' y') :
    Above positive (and3 x x') (and3 y y') := by
  revert h h'
  rcases x with _ | _ | _ <;> rcases y with _ | _ | _ <;> rcases x' with _ | _ | _ <;> rcases y' with _ | _ | _ <;>
    cases positive <;> decide

theorem Above.or3 {positive : Bool} {x y x' y' : Option Bool} (h : Above positive x y) (h' : Above positive x' y') :
    Above positive (or3 x x') (or3 y y') := by
  have hnot : ∀ {z z'}, Above positive z z' → Above (!positive) (not3 z) (not3 z') := fun hz =>
    Above.not (by rwa [Bool.not_not])
  exact Above.not ((hnot h).and3 (hnot h'))

theorem Above.and3_left {x y z : Option Bool} (h : Above true y z) : Above true (Cond.and3 x y) z := by
  revert h
  rcases x with _ | _ | _ <;> rcases y with _ | _ | _ <;> rcases z with _ | _ | _ <;> decide

theorem Above.condTruth_cons {and positive : Bool} {x y : Option Bool} {xs ys : List (Option Bool)}
    (h : Above positive x y) (hs : Above positive (condTruth and xs) (condTruth and ys)) :
    Above positive (condTruth and (x :: xs)) (condTruth and (y :: ys)) := by
  cases and
  · exact h.or3 hs
  · exact h.and3 hs

section Above

variable {V : Type} {sem : Sem V} {row : C → V} {other : N → V}

theorem condOf_holds {and : Bool} {us : List (Item C N)} {u : Item C N} (h : condOf and us = some u) :
    u.holds sem row other = condTruth and (us.map (holds sem row other)) := by
  match us, h with
  | [a], h =>
    obtain rfl : a = u := by simpa [condOf] using h
    cases and <;> rcases ha : a.holds sem row other with _ | _ | _ <;> simp [condTruth, ha, or3, and3, not3]
  | a :: b :: rest, h =>
    obtain rfl : .cond and a b rest = u := by simpa [condOf] using h
    rw [holds, eval_cond, sem.truth_ofTruth]

/-- Leaving out conjuncts weakens an `AND`; an `OR` leaves none out. -/
theorem kept_above {and positive : Bool} {ts us : List (Item C N)} (hkept : kept and (ts.map sent) = some us)
    (hnone : positive = false → and = true → ∀ t ∈ ts, t.sent ≠ none)
    (habove : ∀ t ∈ ts, ∀ u, t.sent = some u → Above positive (t.holds sem row other) (u.holds sem row other)) :
    Above positive (condTruth and (ts.map (holds sem row other))) (condTruth and (us.map (holds sem row other))) := by
  induction ts generalizing us with
  | nil => cases hkept; exact .refl _ _
  | cons t ts ih =>
    have hnone' : positive = false → and = true → ∀ x ∈ ts, x.sent ≠ none := fun hp ha x hx => hnone hp ha x (.tail _ hx)
    have habove' := fun x hx => habove x (.tail _ hx)
    rw [List.map_cons] at hkept
    cases ht : t.sent with
    | some u =>
      rw [ht] at hkept
      obtain ⟨us', hus', rfl⟩ := map_eq_some_iff.mp hkept
      exact (habove t (.head _) u ht).condTruth_cons (ih hus' hnone' habove')
    | none =>
      -- only an `AND` goes on
      rw [ht] at hkept
      cases and with
      | false => cases hkept
      | true =>
        cases positive with
        | false => exact absurd ht (hnone rfl rfl t (.head _))
        | true => exact (ih hkept hnone' habove').and3_left

/-- At a place where nothing is dropped for the worse, what is sent is implied by what was asked. -/
theorem Item.sent_above (t : Item C N) (ht : t.logical = true) (positive : Bool) (hdrops : t.drops (!positive) = false) :
    ∀ u, t.sent = some u → Above positive (t.holds sem row other) (u.holds sem row other) := by
  induction t using Item.induct generalizing positive with
  | column c =>
    rintro u ⟨⟩
    exact .refl _ _
  | literal l =>
    rintro u ⟨⟩
    have hstable : l.sent = l := by simpa [drops, Literal.stable] using hdrops
    rw [hstable]
    exact .refl _ _
  | np kind n => rintro u ⟨⟩
  | cond and a b rest ih =>
    intro u hu
    have hprinted : (cond and a b rest).printed = true := by rw [← sent_isSome _ ht, hu]; rfl
    rw [drops_cond, hprinted] at hdrops
    simp only [Bool.true_and, Bool.or_eq_false_iff] at hdrops
    rw [sent_cond, bind_eq_some_iff] at hu
    obtain ⟨us, hkept, hcond⟩ := hu
    have hlogical := logical_cond.mp ht
    rw [condOf_holds hcond, holds, eval_cond, sem.truth_ofTruth]
    refine kept_above hkept ?_ fun t hmem => ih t hmem (hlogical t hmem) positive (Bool.eq_false_iff.mpr ?_)
    · rintro rfl rfl t hmem hnone
      have hany := List.any_eq_false.mp hdrops.1 _ (List.mem_map_of_mem hmem)
      simp [← sent_isSome t (hlogical t hmem), hnone] at hany
    · exact List.any_eq_false.mp hdrops.2 _ (List.mem_map_of_mem hmem)
  | func f args ih =>
    intro u hu
    have hprinted : (func f args).printed = true := by rw [← sent_isSome _ ht, hu]; rfl
    rw [printed_func] at hprinted
    obtain ⟨hf, hargs⟩ := logical_func.mp ht
    rw [sent_func hf hargs, map_eq_some_iff] at hu
    obtain ⟨us, hkept, rfl⟩ := hu
    have hsent := forall₂_sent hkept
    rw [drops_func, hprinted, Bool.true_and] at hdrops
    rw [holds, holds, eval_func, eval_func]
    obtain ⟨a, rfl, rfl⟩ | ⟨value, affirmative, a, rfl, rfl⟩ | ⟨op, a, b, rfl, rfl⟩ := Func.logical_cases hf
    · rcases hsent with _ | ⟨hv, ⟨⟩⟩
      have habove := ih a (.head _) (hargs a (.head _)) (!positive) (by simpa [Func.polarities] using hdrops) _ hv
      simpa [Sem.apply, holds] using habove.not
    · rcases hsent with _ | ⟨hv, ⟨⟩⟩
      have hpolarity : ((!positive) == (value == affirmative)) = !(positive == (value == affirmative)) := by
        cases positive <;> cases value <;> cases affirmative <;> rfl
      have hdrop : a.drops (!(positive == (value == affirmative))) = false := by
        simpa [Func.polarities, hpolarity] using hdrops
      have habove := ih a (.head _) (hargs a (.head _)) _ hdrop _ hv
      simpa [Sem.apply, holds] using habove.isTruth
    · -- both operands are read as they are
      simp only [Func.polarities, List.any_cons, List.any_nil, List.map_cons, List.map_nil, id, Bool.or_false,
        Bool.or_eq_false_iff] at hdrops
      simp only [List.map_cons, List.map_nil, List.all_cons, List.all_nil, id, Bool.and_true, Bool.and_eq_true] at hprinted
      have ha := a.sent_eq_self (hargs a (by simp)) (by simp [hdrops]) hprinted.1
      have hb := b.sent_eq_self (hargs b (by simp)) (by simp [hdrops]) hprinted.2
      rcases hsent with _ | ⟨hv, _ | ⟨hw, ⟨⟩⟩⟩
      obtain rfl := Option.some.inj (ha.symm.trans hv)
      obtain rfl := Option.some.inj (hb.symm.trans hw)
      exact .refl _ _

end Above

end TSpider.Cond

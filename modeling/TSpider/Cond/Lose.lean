import TSpider.Cond.Drop

/-!
# Conditions that lose rows

* `Item.shape` : what decides whether something is printed or left out;
* `Item.exists_dropped` : a condition of a shape that drops something may be true where its text is false;
* `losesNoRow_iff` : no condition of a shape loses a row exactly if nothing is left out at a negative place.
-/

namespace TSpider.Cond
open Item List

variable {C N : Type}

/-! ## Conditions of one shape -/

mutual

/-- The condition without columns, without what other parts stand for, and without the literals that are read as
themselves. -/
def Item.shape : Item C N → Item Unit Unit
  | .column _ => .column ()
  | .literal l => if l.stable then .column () else .literal (.hexString [0])
  | .np kind _ => .np kind ()
  | .cond isAnd a b rest => .cond isAnd a.shape b.shape (shapeList rest)
  | .func f args => .func f (shapeList args)
termination_by structural t => t

def shapeList : List (Item C N) → List (Item Unit Unit)
  | [] => []
  | a :: as => a.shape :: shapeList as
termination_by structural as => as

end

theorem shapeList_eq_map (ts : List (Item C N)) : shapeList ts = ts.map shape := by
  induction ts with
  | nil => rw [shapeList]; rfl
  | cons t ts ih => rw [shapeList, ih]; rfl

theorem map_shape {β : Type} {p : Item Unit Unit → β} {q : Item C N → β} {ts : List (Item C N)}
    (h : ∀ t ∈ ts, p t.shape = q t) : (ts.map shape).map p = ts.map q := by
  rw [map_map]
  exact map_congr_left h

theorem Item.shape_cond (isAnd : Bool) (a b : Item C N) (rest : List (Item C N)) :
    (cond isAnd a b rest).shape = .cond isAnd a.shape b.shape (rest.map shape) := by
  rw [shape, shapeList_eq_map]

theorem Item.shape_func (f : Func) (args : List (Item C N)) : (func f args).shape = .func f (args.map shape) := by
  rw [shape, shapeList_eq_map]

theorem Item.printed_shape (t : Item C N) : t.shape.printed = t.printed := by
  induction t using Item.induct with
  | column c => rfl
  | literal l => rw [shape]; split <;> rfl
  | np kind n => rfl
  | cond isAnd a b rest ih => rw [shape_cond, printed_cond, printed_cond, ← map_cons, ← map_cons, map_shape ih]
  | func f args ih => rw [shape_func, printed_func, printed_func, map_shape ih]

theorem Item.logical_shape (t : Item C N) : t.shape.logical = t.logical := by
  induction t using Item.induct with
  | column c => rfl
  | literal l => rw [shape]; split <;> rfl
  | np kind n => rfl
  | cond isAnd a b rest ih =>
    rw [Bool.eq_iff_iff, shape_cond, logical_cond, logical_cond, ← map_cons, ← map_cons, forall_mem_map]
    exact forall₂_congr fun t hmem => by rw [ih t hmem]
  | func f args ih =>
    rw [Bool.eq_iff_iff, shape_func, logical_func, logical_func, length_map, forall_mem_map]
    exact and_congr_right fun _ => forall₂_congr fun t hmem => by rw [ih t hmem]

/-- What is dropped depends on the shape only. -/
theorem Item.drops_shape (t : Item C N) : ∀ positive, t.shape.drops positive = t.drops positive := by
  induction t using Item.induct with
  | column c => exact fun _ => rfl
  | literal l =>
    intro positive
    rw [shape, drops]
    split
    · next h => rw [h]; rfl
    · next h => rw [Bool.not_eq_true] at h; rw [h]; rfl
  | np kind n => exact fun _ => rfl
  | cond isAnd a b rest ih =>
    intro positive
    have hprinted := (cond isAnd a b rest).printed_shape
    rw [shape_cond] at hprinted ⊢
    rw [drops_cond, drops_cond, hprinted, ← map_cons, ← map_cons, map_shape fun t _ => t.printed_shape,
      map_shape fun t hmem => ih t hmem positive]
  | func f args ih =>
    intro positive
    have hargs : ∀ p, (args.map shape).map (drops p) = args.map (drops p) := fun p => map_shape fun t hmem => ih t hmem p
    rw [shape_func, drops_func, drops_func, map_shape fun t _ => t.printed_shape]
    simp only [hargs]

/-! ## Truth of lists -/

theorem condTruth_neutral_cons (and : Bool) (xs : List (Option Bool)) : condTruth and (some and :: xs) =
    condTruth and xs := by
  cases and
  · show or3 (some false) (condTruth false xs) = condTruth false xs
    rcases condTruth false xs with _ | _ | _ <;> rfl
  · show and3 (some true) (condTruth true xs) = condTruth true xs
    rcases condTruth true xs with _ | _ | _ <;> rfl

theorem condTruth_cons_neutral {and : Bool} {zs : List (Option Bool)} (y : Option Bool)
    (hzs : condTruth and zs = some and) : condTruth and (y :: zs) = y := by
  cases and
  · show or3 y (condTruth false zs) = y
    rw [hzs]
    rcases y with _ | _ | _ <;> rfl
  · show and3 y (condTruth true zs) = y
    rw [hzs]
    rcases y with _ | _ | _ <;> rfl

theorem condTruth_neutral {and : Bool} {xs zs : List (Option Bool)} (y : Option Bool) (hxs : ∀ x ∈ xs, x = some and)
    (hzs : ∀ z ∈ zs, z = some and) : condTruth and (xs ++ y :: zs) = y := by
  have htail : condTruth and zs = some and := by
    induction zs with
    | nil => cases and <;> rfl
    | cons z zs ih =>
      rw [hzs z (.head _), condTruth_neutral_cons]
      exact ih fun w hw => hzs w (.tail _ hw)
  induction xs with
  | nil => exact condTruth_cons_neutral y htail
  | cons x xs ih =>
    rw [hxs x (.head _), cons_append, condTruth_neutral_cons]
    exact ih fun w hw => hxs w (.tail _ hw)

theorem condTruth_const {and b : Bool} {xs : List (Option Bool)} (hne : xs ≠ []) (hxs : ∀ x ∈ xs, x = some b) :
    condTruth and xs = some b := by
  cases xs with
  | nil => exact absurd rfl hne
  | cons x xs =>
    rw [hxs x (.head _)]
    by_cases hb : b = and
    · subst hb
      show condTruth b ([] ++ some b :: xs) = some b
      exact condTruth_neutral (some b) (by simp) fun z hz => hxs z (.tail _ hz)
    · -- the first argument decides
      cases and <;> cases b <;> first | exact absurd rfl hb | rfl

theorem condTruth_of_mem_false {xs : List (Option Bool)} (h : some false ∈ xs) : condTruth true xs = some false := by
  show xs.foldr and3 (some true) = some false
  have hright : ∀ x, and3 x (some false) = some false := by
    intro x
    rcases x with _ | _ | _ <;> rfl
  induction xs with
  | nil => cases h
  | cons x xs ih =>
    rw [foldr_cons]
    rcases mem_cons.mp h with rfl | hmem
    · rfl
    · rw [ih hmem, hright]

theorem kept_append {α : Type} (and : Bool) (os₁ os₂ : List (Option α)) :
    kept and (os₁ ++ os₂) = (kept and os₁).bind fun as => (kept and os₂).map (as ++ ·) := by
  induction os₁ with
  | nil => simp [kept]
  | cons o os₁ ih =>
    cases o with
    | some a =>
      rw [cons_append, kept, kept, ih]
      cases kept and os₁ with
      | none => rfl
      | some as => simp [Function.comp_def]
    | none =>
      cases and with
      | false => rfl
      | true => exact ih

theorem mem_kept {and : Bool} {ts us : List (Item C N)} (hkept : kept and (ts.map sent) = some us) :
    ∀ u ∈ us, ∃ t ∈ ts, t.sent = some u := by
  induction ts generalizing us with
  | nil => cases hkept; simp
  | cons t ts ih =>
    rw [map_cons] at hkept
    intro u hu
    have hrest : ∀ us', kept and (ts.map sent) = some us' → u ∈ us' → ∃ x ∈ t :: ts, x.sent = some u := by
      intro us' hus' hmem
      obtain ⟨x, hx, hsent⟩ := ih hus' u hmem
      exact ⟨x, .tail _ hx, hsent⟩
    cases ht : t.sent with
    | some v =>
      rw [ht] at hkept
      obtain ⟨us', hus', rfl⟩ := Option.map_eq_some_iff.mp hkept
      rcases mem_cons.mp hu with rfl | hmem
      · exact ⟨t, .head _, ht⟩
      · exact hrest us' hus' hmem
    | none =>
      rw [ht] at hkept
      cases and with
      | false => cases hkept
      | true => exact hrest us hkept hu

/-! ## Conditions that move -/

/-- A value for each shape of literal: `X'00'` and `X'01'` change theirs when they are sent, `X'02'` and `X'03'` do not. -/
def Sem.free : Sem (Option Bool) where
  lit
    | .hexString bytes => some (bytes = [1] ∨ bytes = [3])
    | .hexHybrid bytes => some (bytes = [0] ∨ bytes = [3])
    | _ => none
  truth := id
  ofTruth := id
  truth_ofTruth _ := rfl
  cmp _ x y := some (x == y)
  like _ _ _ := none
  isIn _ _ := none
  between _ _ _ := none
  isNull _ := false
  arith _ x _ := x
  neg := id

def Item.value (t : Item Bool Bool) : Option Bool := t.eval .free some some

/-- The condition has the value `c` and what is left of it the value `d`. -/
structure Moves (c d : Bool) (t : Item Bool Bool) : Prop where
  value : t.value = some c
  sent : ∀ u, t.sent = some u → u.value = some d

/-- A condition of the shape has the property. -/
def Has (t : Item C N) (Q : Item Bool Bool → Prop) : Prop := ∃ t' : Item Bool Bool, t'.shape = t.shape ∧ Q t'

theorem Has.list {Q : Item Bool Bool → Prop} {ts : List (Item C N)} (h : ∀ t ∈ ts, Has t Q) :
    ∃ ts' : List (Item Bool Bool), ts'.map shape = ts.map shape ∧ ∀ t' ∈ ts', Q t' := by
  induction ts with
  | nil => exact ⟨[], rfl, by simp⟩
  | cons t ts ih =>
    obtain ⟨t', ht, hQ⟩ := h t (.head _)
    obtain ⟨ts', hts, hQs⟩ := ih fun x hx => h x (.tail _ hx)
    exact ⟨t' :: ts', by rw [map_cons, map_cons, ht, hts], forall_mem_cons.mpr ⟨hQ, hQs⟩⟩

section Cond

variable {isAnd : Bool} {a b : Item Bool Bool} {rest : List (Item Bool Bool)}

/-- Operands of the shapes of an `AND` or `OR` make one of its shape. -/
theorem exists_cond (isAnd : Bool) {x y : Item C N} {zs : List (Item C N)} {ts : List (Item Bool Bool)}
    (h : ts.map shape = (x :: y :: zs).map shape) :
    ∃ x' y' zs', ts = x' :: y' :: zs' ∧ (cond isAnd x' y' zs').shape = (cond isAnd x y zs).shape := by
  match ts, h with
  | [], h => simp at h
  | [_], h => simp at h
  | x' :: y' :: zs', h =>
    simp only [map_cons, cons.injEq] at h
    exact ⟨x', y', zs', rfl, by rw [shape_cond, shape_cond, h.1, h.2.1, h.2.2]⟩

theorem value_cond : (cond isAnd a b rest).value = condTruth isAnd ((a :: b :: rest).map Item.value) :=
  eval_cond isAnd a b rest

theorem value_condOf {us : List (Item Bool Bool)} {u : Item Bool Bool} (h : condOf isAnd us = some u) :
    u.value = condTruth isAnd (us.map Item.value) := by
  have hholds : u.holds Sem.free some some = _ := condOf_holds h
  exact hholds

theorem values_eq {ts : List (Item Bool Bool)} {c : Bool} (h : ∀ t ∈ ts, t.value = some c) :
    ∀ x ∈ ts.map Item.value, x = some c :=
  forall_mem_map.mpr h

/-- A condition moves as the values of its parts and of what is left of them do. -/
theorem Moves.cond {c d : Bool} (hc : condTruth isAnd ((a :: b :: rest).map Item.value) = some c)
    (hd : ∀ t ∈ a :: b :: rest, ∀ u, t.sent = some u → u.value = some d) : Moves c d (.cond isAnd a b rest) := by
  refine ⟨value_cond.trans hc, fun u hu => ?_⟩
  rw [sent_cond, Option.bind_eq_some_iff] at hu
  obtain ⟨us, hkept, hcond⟩ := hu
  rw [value_condOf hcond]
  refine condTruth_const ?_ (values_eq fun v hv => ?_)
  · rintro hnil
    rw [map_eq_nil_iff.mp hnil] at hcond
    cases hcond
  · obtain ⟨t, hmem, hsent⟩ := mem_kept hkept v hv
    exact hd t hmem v hsent

theorem Moves.below {c d : Bool} {t v : Item Bool Bool} {l r : List (Item Bool Bool)} (hargs : a :: b :: rest = l ++ t :: r)
    (hl : ∀ t ∈ l, Moves isAnd isAnd t) (ht : Moves c d t) (hv : t.sent = some v) (hr : ∀ t ∈ r, Moves isAnd isAnd t) :
    Moves c d (.cond isAnd a b rest) := by
  constructor
  · rw [value_cond, hargs, map_append, map_cons, ht.value]
    exact condTruth_neutral _ (values_eq fun t hmem => (hl t hmem).value) (values_eq fun t hmem => (hr t hmem).value)
  · intro u hu
    rw [sent_cond, hargs, map_append, map_cons, hv, kept_append, kept, Option.bind_assoc] at hu
    obtain ⟨ul, hul, hu⟩ := Option.bind_eq_some_iff.mp hu
    rw [Option.map_map, Option.bind_map] at hu
    obtain ⟨ur, hur, hcond⟩ := Option.bind_eq_some_iff.mp hu
    have hkept : ∀ {ts us : List (Item Bool Bool)}, (∀ t ∈ ts, Moves isAnd isAnd t) →
      kept isAnd (ts.map Item.sent) = some us →
        ∀ x ∈ us.map Item.value, x = some isAnd := by
      intro ts us hts hus
      refine values_eq fun u hu => ?_
      obtain ⟨t, hmem, hsent⟩ := mem_kept hus u hu
      exact (hts t hmem).sent u hsent
    rw [value_condOf hcond, Function.comp_apply, map_append, map_cons, ht.sent v hv]
    exact condTruth_neutral _ (hkept hl hul) (hkept hr hur)

end Cond

/-- A function moves with its arguments. -/
theorem Moves.func {f : Func} {args : List (Item Bool Bool)} {cds : List (Bool × Bool)} {c d : Bool}
    (hf : f.logical args.length = true) (hargs : ∀ t ∈ args, t.logical = true)
    (h : Forall₂ (fun cd t => Moves cd.1 cd.2 t) cds args) (hc : Sem.free.apply f (cds.map fun cd => some cd.1) = some c)
    (hd : Sem.free.apply f (cds.map fun cd => some cd.2) = some d) : Moves c d (.func f args) := by
  constructor
  · have hvalues : args.map Item.value = cds.map fun cd => some cd.1 := by
      clear hf hargs hc hd
      induction h with
      | nil => rfl
      | cons ht _ ih => rw [map_cons, map_cons, ih, ht.value]
    exact (eval_func f args).trans ((congrArg _ hvalues).trans hc)
  · intro u hu
    rw [sent_func hf hargs, Option.map_eq_some_iff] at hu
    obtain ⟨us, hkept, rfl⟩ := hu
    have hsent := forall₂_sent hkept
    have hvalues : us.map Item.value = cds.map fun cd => some cd.2 := by
      clear hf hargs hc hd hkept
      induction h generalizing us with
      | nil => cases hsent; rfl
      | cons ht _ ih =>
        cases hsent with
        | cons hu hsent => rw [map_cons, map_cons, ih _ hsent, ht.sent _ hu]
    exact (eval_func f us).trans ((congrArg _ hvalues).trans hd)

/-! ## Every shape that drops something -/

section Exists

variable {t : Item C N} {f : Func} {args : List (Item C N)} {c d : Bool}

theorem Has.logical {Q : Item Bool Bool → Prop} (h : Has t Q) (ht : t.logical = true) : Has t fun t' => t'.logical =
    true ∧ Q t' := by
  obtain ⟨t', hshape, hQ⟩ := h
  exact ⟨t', hshape, by rw [← t'.logical_shape, hshape, t.logical_shape, ht], hQ⟩

theorem Has.one (hf : f.logical 1 = true) {a : Item C N} (ha : a.logical = true) {x y : Bool} (h : Has a (Moves x y))
    (hc : Sem.free.apply f [some x] = some c) (hd : Sem.free.apply f [some y] = some d) : Has (.func f [a]) (Moves c d) := by
  obtain ⟨a', hshape, hlogical, hmoves⟩ := h.logical ha
  have hargs : Forall₂ (fun cd t => Moves cd.1 cd.2 t) [(x, y)] [a'] := .cons hmoves .nil
  exact ⟨.func f [a'], by simp [shape_func, hshape], .func hf (by simpa using hlogical) hargs hc hd⟩

theorem Has.two (hf : f.logical 2 = true) {a b : Item C N} (ha : a.logical = true) (hb : b.logical = true) {x y z w : Bool}
    (h : Has a (Moves x y)) (h' : Has b (Moves z w)) (hc : Sem.free.apply f [some x, some z] = some c)
    (hd : Sem.free.apply f [some y, some w] = some d) : Has (.func f [a, b]) (Moves c d) := by
  obtain ⟨a', hsa, hla, hma⟩ := h.logical ha
  obtain ⟨b', hsb, hlb, hmb⟩ := h'.logical hb
  have hargs : Forall₂ (fun cd t => Moves cd.1 cd.2 t) [(x, y), (z, w)] [a', b'] := .cons hma (.cons hmb .nil)
  exact ⟨.func f [a', b'], by simp [shape_func, hsa, hsb], .func hf (by simpa using ⟨hla, hlb⟩) hargs hc hd⟩

end Exists

/-- A literal that is read as another one moves as it is wanted to. -/
theorem Has.literal {l : Literal} (h : l.stable = false) (c d : Bool) : Has (.literal l : Item C N) (Moves c d) := by
  have hshape : (.literal l : Item C N).shape = .literal (.hexString [0]) := by rw [shape, h]; rfl
  rw [Has, hshape]
  cases c <;> cases d
  · exact ⟨.literal (.hexString [2]), rfl, rfl, by rintro u ⟨⟩; rfl⟩
  · exact ⟨.literal (.hexString [0]), rfl, rfl, by rintro u ⟨⟩; rfl⟩
  · exact ⟨.literal (.hexString [1]), rfl, rfl, by rintro u ⟨⟩; rfl⟩
  · exact ⟨.literal (.hexString [3]), rfl, rfl, by rintro u ⟨⟩; rfl⟩

/-- Every shape has an item with a given value, which what is left of it has too. -/
theorem Item.exists_constant (t : Item C N) (ht : t.logical = true) (c : Bool) : Has t (Moves c c) := by
  induction t using Item.induct generalizing c with
  | column x => exact ⟨.column c, rfl, rfl, by rintro u ⟨⟩; rfl⟩
  | literal l =>
    cases hstable : l.stable with
    | false => exact .literal hstable c c
    | true => exact ⟨.column c, by rw [shape, shape, if_pos hstable], rfl, by rintro u ⟨⟩; rfl⟩
  | np kind n => exact ⟨.np kind c, rfl, rfl, by rintro u ⟨⟩⟩
  | cond isAnd a b rest ih =>
    obtain ⟨ts, hshape, hts⟩ := Has.list fun t hmem => ih t hmem (logical_cond.mp ht t hmem) c
    obtain ⟨a', b', rest', rfl, hcond⟩ := exists_cond isAnd hshape
    exact ⟨_, hcond, .cond (condTruth_const (by simp) (values_eq fun t hmem => (hts t hmem).value)) fun t hmem =>
      (hts t hmem).sent⟩
  | func f args ih =>
    obtain ⟨hf, hargs⟩ := logical_func.mp ht
    obtain ⟨a, rfl, rfl⟩ | ⟨value, affirmative, a, rfl, rfl⟩ | ⟨op, a, b, rfl, rfl⟩ := Func.logical_cases hf
    · have ha := ih a (.head _) (hargs a (.head _)) (!c)
      exact ha.one rfl (hargs a (.head _)) (by cases c <;> rfl) (by cases c <;> rfl)
    · have ha := ih a (.head _) (hargs a (.head _)) (c == (value == affirmative))
      have hvalue : Sem.free.apply (.truth value affirmative) [some (c == (value == affirmative))] = some c := by
        cases c <;> cases value <;> cases affirmative <;> rfl
      exact ha.one rfl (hargs a (.head _)) hvalue hvalue
    · have ha := ih a (by simp) (hargs a (by simp)) true
      have hb := ih b (by simp) (hargs b (by simp)) c
      exact ha.two rfl (hargs a (by simp)) (hargs b (by simp)) hb (by cases c <;> rfl) (by cases c <;> rfl)

theorem Item.printed_of_drops {t : Item C N} {positive : Bool} (h : t.drops positive = true) : t.printed = true := by
  cases t with
  | column c => rfl
  | literal l => rfl
  | np kind n => cases h
  | cond isAnd a b rest =>
    rw [drops_cond, Bool.and_eq_true] at h
    exact h.1
  | func f args =>
    rw [drops_func, Bool.and_eq_true] at h
    rw [printed_func]
    exact h.1

section Dropped

variable {a b : Item C N} {rest : List (Item C N)} (ht : ∀ t ∈ a :: b :: rest, t.logical = true)

include ht

/-- A conjunct of an `AND` is left out: it is false, and the ones that are printed are true. -/
theorem Has.and (hnone : ∃ t ∈ a :: b :: rest, t.printed = false) : Has (.cond true a b rest) (Moves false true) := by
  have hargs : ∀ t ∈ a :: b :: rest, Has t fun t' => t'.logical = true ∧ Moves t'.printed t'.printed t' := by
    intro t hmem
    obtain ⟨t', hshape, hmoves⟩ := t.exists_constant (ht t hmem) t.printed
    have hprinted : t.printed = t'.printed := by rw [← t'.printed_shape, hshape, t.printed_shape]
    rw [hprinted] at hmoves
    exact Has.logical (Q := fun t' => Moves t'.printed t'.printed t') ⟨t', hshape, hmoves⟩ (ht t hmem)
  obtain ⟨ts, hshapes, hts⟩ := Has.list hargs
  obtain ⟨a', b', rest', rfl, hcond⟩ := exists_cond true hshapes
  refine ⟨_, hcond, .cond (condTruth_of_mem_false ?_) fun t hmem u hu => ?_⟩
  · obtain ⟨t, hmem, hfalse⟩ := hnone
    obtain ⟨t', hmem', hshape⟩ := mem_map.mp (hshapes ▸ mem_map_of_mem hmem : t.shape ∈ map shape _)
    have hprinted : t'.printed = false := by rw [← t'.printed_shape, hshape, t.printed_shape, hfalse]
    have hvalue := (hts t' hmem').2.value
    rw [hprinted] at hvalue
    exact mem_map.mpr ⟨t', hmem', hvalue⟩
  · have hprinted : t.printed = true := by rw [← t.sent_isSome (hts t hmem).1, hu]; rfl
    have hvalue := (hts t hmem).2.sent u hu
    rwa [hprinted] at hvalue

/-- Something is left out of an argument: the others do not decide. -/
theorem Has.below {isAnd c d : Bool} {t : Item C N} (hmem : t ∈ a :: b :: rest) (hprinted : t.printed = true)
    (h : Has t (Moves c d)) : Has (.cond isAnd a b rest) (Moves c d) := by
  obtain ⟨l, r, hargs⟩ := append_of_mem hmem
  have hconst : ∀ x ∈ l ++ t :: r, Has x (Moves isAnd isAnd) := fun x hx =>
    x.exists_constant (ht x (hargs ▸ hx)) isAnd
  obtain ⟨l', hl, hconstl⟩ := Has.list fun t hmem => hconst t (mem_append_left _ hmem)
  obtain ⟨r', hr, hconstr⟩ := Has.list fun t hmem => hconst t (mem_append_right _ (.tail _ hmem))
  obtain ⟨t', hshape, hlogical, hmoves⟩ := h.logical (ht t hmem)
  have hshapes : (l' ++ t' :: r').map shape = (a :: b :: rest).map shape := by
    rw [hargs, map_append, map_append, map_cons, map_cons, hl, hr, hshape]
  obtain ⟨a', b', rest', hargs', hcond⟩ := exists_cond isAnd hshapes
  have hsome : t'.sent.isSome = true := by rw [t'.sent_isSome hlogical, ← t'.printed_shape, hshape, t.printed_shape, hprinted]
  obtain ⟨v, hv⟩ := Option.isSome_iff_exists.mp hsome
  exact ⟨_, hcond, .below hargs'.symm hconstl hmoves hv hconstr⟩

end Dropped

/-- A condition that is left out at a place of a polarity has an instance that the text makes more (`positive`) or less often
true. -/
theorem Item.exists_dropped (t : Item C N) (ht : t.logical = true) (positive : Bool) (h : t.drops positive = true) :
    Has t (Moves (!positive) positive) := by
  induction t using Item.induct generalizing positive with
  | column c => cases h
  | literal l => exact .literal (by simpa [drops] using h) _ _
  | np kind n => cases h
  | cond isAnd a b rest ih =>
    have hargs := logical_cond.mp ht
    rw [drops_cond, Bool.and_eq_true, Bool.or_eq_true] at h
    obtain ⟨-, hleft | hbelow⟩ := h
    · simp only [Bool.and_eq_true, any_map, any_eq_true, Function.comp_apply] at hleft
      obtain ⟨⟨rfl, rfl⟩, t, hmem, hnone⟩ := hleft
      exact .and hargs ⟨t, hmem, by simpa using hnone⟩
    · obtain ⟨t, hmem, hdrops⟩ := any_eq_true.mp (any_map ▸ hbelow)
      exact .below hargs hmem (printed_of_drops hdrops) (ih t hmem (hargs t hmem) positive hdrops)
  | func f args ih =>
    obtain ⟨hf, hargs⟩ := logical_func.mp ht
    rw [drops_func, Bool.and_eq_true] at h
    replace h := h.2
    obtain ⟨a, rfl, rfl⟩ | ⟨value, affirmative, a, rfl, rfl⟩ | ⟨op, a, b, rfl, rfl⟩ := Func.logical_cases hf
    · have ha := ih a (.head _) (hargs a (.head _)) (!positive) (by simpa [Func.polarities] using h)
      exact ha.one rfl (hargs a (.head _)) (by cases positive <;> rfl) (by cases positive <;> rfl)
    · have ha := ih a (.head _) (hargs a (.head _)) (positive == (value == affirmative)) (by simpa [Func.polarities] using h)
      refine ha.one rfl (hargs a (.head _)) ?_ ?_ <;> cases positive <;> cases value <;> cases affirmative <;> rfl
    · have hla := hargs a (by simp)
      have hlb := hargs b (by simp)
      have hpolarity : (∃ p, a.drops p = true) ∨ ∃ p, b.drops p = true := by
        simp only [Func.polarities, any_cons, any_nil, map_cons, map_nil, id, Bool.or_false, Bool.or_eq_true] at h
        obtain (h | h) | (h | h) := h
        exacts [.inl ⟨_, h⟩, .inr ⟨_, h⟩, .inl ⟨_, h⟩, .inr ⟨_, h⟩]
      -- the other operand is chosen so that the comparison moves as it should
      obtain ⟨p, h⟩ | ⟨p, h⟩ := hpolarity
      · have hb := b.exists_constant hlb (p == positive)
        refine (ih a (by simp) hla p h).two rfl hla hlb hb ?_ ?_ <;> cases p <;> cases positive <;> rfl
      · have ha := a.exists_constant hla (p == positive)
        refine ha.two rfl hla hlb (ih b (by simp) hlb p h) ?_ ?_ <;> cases p <;> cases positive <;> rfl

/-! ## The text of a scan -/

theorem bind_defined {α β : Type} {r : Except Err α} {f : α → Except Err β} (hr : r ≠ .error .undefined)
    (hf : ∀ x, r = .ok x → f x ≠ .error .undefined) : (r >>= f) ≠ .error .undefined := by
  cases r with
  | ok x => exact hf x rfl
  | error e => exact fun heq => hr (congrArg Except.error (Except.error.inj heq))

theorem printArgs_defined {skips : Bool} {rs : List (Except Err (List (Token C)))} (h : ∀ r ∈ rs, r ≠ .error .undefined) :
    printArgs skips rs ≠ .error .undefined := by
  induction rs with
  | nil => rintro ⟨⟩
  | cons r rs ih =>
    have hrest := ih fun x hx => h x (.tail _ hx)
    cases r with
    | ok t => exact bind_defined hrest fun ts _ => by rintro ⟨⟩
    | error e =>
      rw [printArgs]
      split
      · exact hrest
      · exact fun heq => h (.error e) (.head _) (congrArg Except.error (Except.error.inj heq))

/-- The test pass returns for every condition of the logical operators. -/
theorem Item.print_defined (str : Bool) (t : Item C N) (ht : t.logical = true) : t.print str ≠ .error .undefined := by
  induction t using Item.induct with
  | column c => rintro ⟨⟩
  | literal l => rintro ⟨⟩
  | np kind n => rintro ⟨⟩
  | cond isAnd a b rest ih =>
    have hargs : ∀ r ∈ printList str (a :: b :: rest), r ≠ .error .undefined := by
      rw [printList_eq_map, forall_mem_map]
      exact fun t hmem => ih t hmem (logical_cond.mp ht t hmem)
    rw [print, openItemCond]
    refine bind_defined (printArgs_defined hargs) fun tss _ => ?_
    cases tss <;> rintro ⟨⟩
  | func f args ih =>
    obtain ⟨hf, hlogical⟩ := logical_func.mp ht
    have hargs : ∀ r ∈ printList str args, r ≠ .error .undefined := by
      rw [printList_eq_map, forall_mem_map]
      exact fun t hmem => ih t hmem (hlogical t hmem)
    rw [print, openItemFunc]
    split
    · next hxor => subst hxor; cases hf
    split
    · rintro ⟨⟩
    refine bind_defined (printArgs_defined hargs) fun tss htss => ?_
    have htakes : f.takes tss.length = true := by
      rw [printArgs_length htss, printList_eq_map, length_map]
      cases f <;> first | exact hf | cases hf
    have htested : Tested str (f.layout tss) _ := f.layout_tested tss
    obtain ⟨ts, hts⟩ := htested.ok (if_pos htakes)
    rw [hts]
    rintro ⟨⟩

/-- A text is sent, and it is true for every row for which the conditions are. -/
def LosesNoRow {V : Type} (sem : Sem V) (conds : List (Item C N)) : Prop :=
  ∃ text c, appendCondition true conds = .ok text ∧ parseWhere text = some c ∧
    ∀ row other, allHold sem row other conds = some true → whereHolds sem row other c = some true

section

variable {conds : List (Item C N)} (h : ∀ t ∈ conds, t.logical = true)

include h

/-- No row is lost exactly if what is sent holds for every row that is asked for. -/
theorem losesNoRow_iff_sent {V : Type} (sem : Sem V) : LosesNoRow sem conds ↔ ∀ row other,
    allHold sem row other conds = some true → allHold sem row other (sentAll conds) = some true := by
  obtain ⟨text, htext, c, hparse, hholds⟩ | hundef := appendCondition_reads conds
  · constructor
    · rintro ⟨text', c', htext', hparse', h⟩ row other htrue
      obtain rfl : text = text' := by rw [htext] at htext'; exact Except.ok.inj htext'
      obtain rfl : c = c' := by rw [hparse] at hparse'; exact Option.some.inj hparse'
      rw [← hholds sem row other]
      exact h row other htrue
    · exact fun h => ⟨text, c, htext, hparse, fun row other htrue => (hholds sem row other).trans (h row other htrue)⟩
  · have hargs : ∀ r ∈ printList true conds, r ≠ .error .undefined := by
      rw [printList_eq_map, forall_mem_map]
      exact fun t hmem => t.print_defined true (h t hmem)
    refine absurd hundef (bind_defined (printArgs_defined hargs) fun tss _ => ?_)
    cases tss <;> rintro ⟨⟩

theorem losesNoRow_of_drops {V : Type} (sem : Sem V) (hdrops : ∀ t ∈ conds, t.drops false = false) :
    LosesNoRow sem conds := by
  rw [losesNoRow_iff_sent h]
  intro row other htrue
  have hkept : kept true (conds.map sent) = some (sentAll conds) := by rw [kept_true, sentAll, sentList_eq_map]
  have habove : Above true (allHold sem row other conds) (allHold sem row other (sentAll conds)) :=
    kept_above hkept (fun hp => by cases hp) fun t hmem => t.sent_above (h t hmem) true (hdrops t hmem)
  rw [htrue] at habove
  rcases hsent : allHold sem row other (sentAll conds) with _ | _ | _
  · rw [hsent] at habove; exact absurd habove (by decide)
  · rw [hsent] at habove; exact absurd habove (by decide)
  · rfl

/-- A place where something is dropped for the worse: conditions of the shape, and a row that is lost. -/
theorem exists_loses {t : Item C N} (ht : t ∈ conds) (hdrops : t.drops false = true) :
    ∃ conds' : List (Item Bool Bool), shapeList conds' = shapeList conds ∧ ¬LosesNoRow .free conds' := by
  have hconst : ∀ t ∈ conds, Has t fun t' => t'.logical = true ∧ Moves true true t' := fun t hmem =>
    (t.exists_constant (h t hmem) true).logical (h t hmem)
  obtain ⟨t', hshape, hlogical, hmoves⟩ := (t.exists_dropped (h t ht) false hdrops).logical (h t ht)
  have hsome : t'.sent.isSome = true := by
    rw [t'.sent_isSome hlogical, ← t'.printed_shape, hshape, t.printed_shape, printed_of_drops hdrops]
  obtain ⟨u, hu⟩ := Option.isSome_iff_exists.mp hsome
  obtain ⟨l, r, rfl⟩ := append_of_mem ht
  obtain ⟨l', hls, hl⟩ := Has.list fun t hmem => hconst t (mem_append_left _ hmem)
  obtain ⟨r', hrs, hr⟩ := Has.list fun t hmem => hconst t (mem_append_right _ (.tail _ hmem))
  have hlogicals : ∀ x ∈ l' ++ t' :: r', x.logical = true := by
    simp only [mem_append, mem_cons]
    rintro x (hx | rfl | hx)
    exacts [(hl x hx).1, hlogical, (hr x hx).1]
  refine ⟨l' ++ t' :: r', by simp only [shapeList_eq_map, map_append, map_cons, hls, hrs, hshape], fun hloses => ?_⟩
  rw [losesNoRow_iff_sent hlogicals] at hloses
  have hall : allHold .free some some (l' ++ t' :: r') = some true := by
    show condTruth true ((l' ++ t' :: r').map Item.value) = some true
    rw [map_append, map_cons, hmoves.value]
    exact condTruth_neutral _ (values_eq fun t hmem => (hl t hmem).2.value) (values_eq fun t hmem => (hr t hmem).2.value)
  have hmem : u ∈ sentAll (l' ++ t' :: r') := by
    rw [sentAll, sentList_eq_map, mem_filterMap]
    exact ⟨some u, mem_map.mpr ⟨t', by simp, hu⟩, rfl⟩
  have hfalse : allHold .free some some (sentAll (l' ++ t' :: r')) = some false :=
    condTruth_of_mem_false (mem_map.mpr ⟨u, hmem, hmoves.sent u hu⟩)
  have hsent := hloses some some hall
  rw [hfalse] at hsent
  cases hsent

end

end TSpider.Cond

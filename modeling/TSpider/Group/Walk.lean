import TSpider.Group.Fields

/-!
# What a pass does

`walk p e` says which columns a pass goes over, which of them stay in the text, and how it ends; it does not depend on what
has been recorded. `printItemType_eq` : a pass records the columns that it goes over, or takes as many from the chain; it ends
in undefined behaviour if the chain has a column of another table in one of their places.
-/

namespace TSpider.Group
open Fields

inductive Status where
  | ok
  | skip
  | undefined
  deriving DecidableEq

structure Walk where
  visited : List Column
  shown : List (Column × Bool)
  status : Status
  deriving DecidableEq

namespace Walk

def done (status : Status) : Walk := ⟨[], [], status⟩

def andThen (w w' : Walk) : Walk :=
  match w.status with
  | .ok => ⟨w.visited ++ w'.visited, w.shown ++ w'.shown, w'.status⟩
  | _ => w

def cut (w w' : Walk) : Walk := ⟨w.visited ++ w'.visited, w'.shown, w'.status⟩

/-- One walk after another; with `goOn` the second one follows also on a part that cannot be pushed down. -/
def cutThen (w w' : Walk) (goOn : Bool) : Walk :=
  match w.status with
  | .skip => if goOn then w.cut w' else w
  | _ => w.andThen w'

end Walk

def checkedWalk (p : Pass) (e : Expr) (w : Walk) : Walk := if checkInvalidCharset p e then .done .skip else w

mutual

def walk (p : Pass) : Expr → Walk
  | .column c => ⟨[c], if p.str then [(c, false)] else [], .ok⟩
  | .value _ => .done .ok
  | .skip => .done .skip
  | .undefined => .done .undefined
  | .raw cs =>
    if p.skipDefaultCondition then .done .skip else ⟨[], if p.str then cs.map (·, true) else [], .ok⟩
  | .cond and args => if args.isEmpty then .done .ok else walkFirst p and args
  | .func args => walkArgs p args
  | .plain args => walkItems p args
  | .fulltext table args => if p.handler = table then walkArgs p args else .done .skip
  | .trim item removeStr =>
    if p.str && removeStr.isString then
      (checkedWalk p removeStr (walk p removeStr)).andThen (checkedWalk p item (walk p item))
    else .done .ok
termination_by structural e => e

def walkFirst (p : Pass) (and : Bool) : List Expr → Walk
  | [] => .done .skip
  | a :: as =>
    let w := checkedWalk p a (walk p a)
    match w.status with
    | .skip => if p.str && and then w.cut (walkFirst p and as) else w
    | _ => w.andThen (walkRest p and as)
termination_by structural as => as

def walkRest (p : Pass) (and : Bool) : List Expr → Walk
  | [] => .done .ok
  | a :: as => (checkedWalk p a (walk p a)).cutThen (walkRest p and as) (p.str && and)
termination_by structural as => as

def walkArgs (p : Pass) : List Expr → Walk
  | [] => .done .ok
  | a :: as => (checkedWalk p a (walk p a)).andThen (walkArgs p as)
termination_by structural as => as

def walkItems (p : Pass) : List Expr → Walk
  | [] => .done .ok
  | a :: as => (walk p a).andThen (walkItems p as)
termination_by structural as => as

end

/-! ## The columns that have been recorded -/

def Fields.visit (p : Pass) (f : Fields) (c : Column) : Option Fields :=
  if p.str then
    match f.current with
    | i :: rest => if f.holders[i]?.bind Holder.spider = some c.table then some { f with current := rest } else none
    | [] => none
  else some (f.addField c)

def Fields.visitAll (p : Pass) : List Column → Fields → Option Fields
  | [], f => some f
  | c :: cs, f => (f.visit p c).bind (visitAll p cs)

theorem Fields.visitAll_append (p : Pass) (cs ds : List Column) (f : Fields) :
    visitAll p (cs ++ ds) f = (visitAll p cs f).bind (visitAll p ds) := by
  induction cs generalizing f with
  | nil => rfl
  | cons c cs ih =>
    rw [List.cons_append, visitAll, visitAll, Option.bind_assoc]
    exact congrArg _ (funext ih)

def refOf (x : Column × Bool) : Ref := if x.2 then .original x.1 else .qualified x.1.table x.1.index

namespace Walk

def run (p : Pass) (w : Walk) (f : Fields) : Outcome :=
  match visitAll p w.visited f with
  | none => .undefined
  | some f =>
    match w.status with
    | .ok => .ok (w.shown.map refOf) f
    | .skip => .skip f
    | .undefined => .undefined

variable {p : Pass}

theorem run_andThen (w w' : Walk) (f : Fields) : (w.andThen w').run p f = (w.run p f).andThen (w'.run p) := by
  obtain ⟨visited, shown, status⟩ := w
  cases status with
  | ok =>
    simp only [andThen, run, visitAll_append]
    cases h : visitAll p visited f with
    | none => rfl
    | some f' =>
      simp only [Option.bind_some, Outcome.andThen, run]
      cases h' : visitAll p w'.visited f' with
      | none => rfl
      | some f'' => cases hs : w'.status <;> simp
  | skip | undefined =>
    simp only [andThen, run]
    cases visitAll p visited f <;> rfl

theorem run_cut {w : Walk} (h : w.status = .skip) (w' : Walk) (f : Fields) : (w.cut w').run p f =
    match w.run p f with
    | .skip f => w'.run p f
    | o => o := by
  obtain ⟨visited, shown, status⟩ := w
  cases h
  simp only [cut, run, visitAll_append]
  cases visitAll p visited f <;> rfl

theorem run_of_skip {w : Walk} (h : w.status = .skip) (f : Fields) : w.run p f = .undefined ∨ ∃ f', w.run p f = .skip f' := by
  rw [run, h]
  cases visitAll p w.visited f with
  | none => exact .inl rfl
  | some f' => exact .inr ⟨f', rfl⟩

theorem run_ne_skip {w : Walk} (h : w.status ≠ .skip) (f f' : Fields) : w.run p f ≠ .skip f' := by
  rw [run]
  cases visitAll p w.visited f with
  | none => simp
  | some f'' =>
    cases hs : w.status with
    | ok => simp
    | skip => exact absurd hs h
    | undefined => simp

theorem run_first (w : Walk) {first : Fields → Outcome} (wFirst wRest : Walk) (goOn : Bool)
    (hfirst : ∀ f, first f = wFirst.run p f) (f : Fields) :
    (match w.run p f with
      | .skip f => if goOn then first f else .skip f
      | o => o.andThen (wRest.run p)) =
    (match w.status with
      | .skip => if goOn then w.cut wFirst else w
      | _ => w.andThen wRest : Walk).run p f := by
  by_cases h : w.status = .skip
  · rw [h]
    cases goOn with
    | true =>
      rw [if_pos rfl, run_cut h]
      obtain hr | ⟨f', hr⟩ := run_of_skip h f <;> rw [hr]
      · rfl
      · exact hfirst f'
    | false => obtain hr | ⟨f', hr⟩ := run_of_skip h f <;> rw [if_neg Bool.false_ne_true, hr] <;> rfl
  · have hthen : (match w.status with
        | .skip => if goOn then w.cut wFirst else w
        | _ => w.andThen wRest : Walk) = w.andThen wRest := by
      cases hs : w.status <;> simp_all
    rw [hthen, run_andThen]
    cases hr : w.run p f with
    | skip f' => exact absurd hr (run_ne_skip h f f')
    | ok refs f' => rfl
    | undefined => rfl

theorem run_cutThen (w w' : Walk) (goOn : Bool) (f : Fields) :
    (w.cutThen w' goOn).run p f = (w.run p f).cutThen (w'.run p) goOn :=
  (run_first w w' w' goOn (fun _ => rfl) f).symm

end Walk

theorem run_checkedWalk (p : Pass) (e : Expr) {w : Walk} {print : Fields → Outcome} (h : ∀ f, print f = w.run p f)
    (f : Fields) : checked p e print f = (checkedWalk p e w).run p f := by
  rw [checked, checkedWalk]
  split
  · rfl
  · exact h f

theorem openItemField_eq (p : Pass) (c : Column) (f : Fields) :
    openItemField p c f = (⟨[c], if p.str then [(c, false)] else [], .ok⟩ : Walk).run p f := by
  rw [openItemField, Walk.run, visitAll, visit]
  cases p.str with
  | false => rfl
  | true =>
    cases f.current with
    | nil => rfl
    | cons i rest =>
      cases hs : f.holders[i]?.bind Holder.spider with
      | none => simp [hs]
      | some table =>
        by_cases hc : c.table = table
        · simp [hs, hc, visitAll, refOf]
        · simp [hs, hc, Ne.symm hc]

mutual

theorem printItemType_eq (p : Pass) : ∀ (e : Expr) (f : Fields), printItemType p e f = (walk p e).run p f
  | .column c, f => by rw [printItemType, walk, openItemField_eq]
  | .value string, f | .skip, f | .undefined, f => by rw [printItemType, walk]; rfl
  | .raw cs, f => by
    rw [printItemType, walk]
    split
    · rfl
    · cases p.str <;> simp [Walk.run, visitAll, refOf, Function.comp_def]
  | .cond and args, f => by
    rw [printItemType, walk]
    split
    · rfl
    · exact condFirst_eq p and args f
  | .func args, f => by rw [printItemType, walk, printArgs_eq p args f]
  | .plain args, f => by rw [printItemType, walk, printItems_eq p args f]
  | .fulltext table args, f => by
    rw [printItemType, walk]
    split
    · exact printArgs_eq p args f
    · rfl
  | .trim item removeStr, f => by
    rw [printItemType, walk]
    split
    · rw [Walk.run_andThen, run_checkedWalk p removeStr (printItemType_eq p removeStr),
        funext (run_checkedWalk p item (printItemType_eq p item))]
    · rfl
termination_by structural e => e

theorem condFirst_eq (p : Pass) (and : Bool) : ∀ (as : List Expr) (f : Fields),
    condFirst p and as f = (walkFirst p and as).run p f
  | [], f => by rw [condFirst, walkFirst]; rfl
  | a :: as, f => by
    have hfirst := condFirst_eq p and as
    have hrest := funext (condRest_eq p and as)
    rw [condFirst, walkFirst, run_checkedWalk p a (printItemType_eq p a), hrest]
    exact Walk.run_first (checkedWalk p a (walk p a)) _ (walkRest p and as) (p.str && and) hfirst f
termination_by structural as => as

theorem condRest_eq (p : Pass) (and : Bool) : ∀ (as : List Expr) (f : Fields),
    condRest p and as f = (walkRest p and as).run p f
  | [], f => by rw [condRest, walkRest]; rfl
  | a :: as, f => by
    rw [condRest, walkRest, Walk.run_cutThen, run_checkedWalk p a (printItemType_eq p a), funext (condRest_eq p and as)]
termination_by structural as => as

theorem printArgs_eq (p : Pass) : ∀ (as : List Expr) (f : Fields), printArgs p as f = (walkArgs p as).run p f
  | [], f => by rw [printArgs, walkArgs]; rfl
  | a :: as, f => by
    rw [printArgs, walkArgs, Walk.run_andThen, run_checkedWalk p a (printItemType_eq p a), funext (printArgs_eq p as)]
termination_by structural as => as

theorem printItems_eq (p : Pass) : ∀ (as : List Expr) (f : Fields), printItems p as f = (walkItems p as).run p f
  | [], f => by rw [printItems, walkItems]; rfl
  | a :: as, f => by
    rw [printItems, walkItems, Walk.run_andThen, printItemType_eq p a f, funext (printItems_eq p as)]
termination_by structural as => as

end

end TSpider.Group

import TSpider.Cond.Item

/-!
# The meaning of a condition

* `Sem V` : what the operators do with the values `V`; a truth value is `none` if it is unknown;
* `Item.eval` : the value of a condition on a row, with values for the parts that cannot be printed;
* `Item.sent` : the condition that is left of one when its text is printed and read.
-/

namespace TSpider.Cond

/-! ## Three-valued logic -/

def and3 : Option Bool → Option Bool → Option Bool
  | some false, _ => some false
  | _, some false => some false
  | some true, some true => some true
  | _, _ => none

def not3 (x : Option Bool) : Option Bool := x.map Bool.not

def or3 (x y : Option Bool) : Option Bool := not3 (and3 (not3 x) (not3 y))

def xor3 (x y : Option Bool) : Option Bool := x.bind fun a => y.map (a ^^ ·)

def condTruth (and : Bool) (xs : List (Option Bool)) : Option Bool :=
  if and then xs.foldr and3 (some true) else xs.foldr or3 (some false)

def negIf (negated : Bool) (x : Option Bool) : Option Bool := if negated then not3 x else x

def isTruth (value affirmative : Bool) (x : Option Bool) : Bool := (x == some value) == affirmative

/-! ## Values -/

/-- What literals stand for and what the operators do with values. The escape character of `LIKE` is `none` if the clause is
absent. -/
structure Sem (V : Type) where
  lit : Literal → V
  truth : V → Option Bool
  ofTruth : Option Bool → V
  truth_ofTruth : ∀ x, truth (ofTruth x) = x
  cmp : CmpOp → V → V → Option Bool
  like : V → V → Option Char → Option Bool
  isIn : V → List V → Option Bool
  between : V → V → V → Option Bool
  isNull : V → Bool
  arith : ArithOp → V → V → V
  neg : V → V

attribute [simp] Sem.truth_ofTruth

def Sem.apply {V : Type} (sem : Sem V) : Func → List V → V
  | .xor, [a, b] => sem.ofTruth (xor3 (sem.truth a) (sem.truth b))
  | .not, [a] => sem.ofTruth (not3 (sem.truth a))
  | .cmp op, [a, b] => sem.ofTruth (sem.cmp op a b)
  | .like escape negated, [a, b] => sem.ofTruth (negIf negated (sem.like a b escape))
  | .isIn negated, a :: xs => sem.ofTruth (negIf negated (sem.isIn a xs))
  | .between negated, [a, b, c] => sem.ofTruth (negIf negated (sem.between a b c))
  | .isNull negated, [a] => sem.ofTruth (negIf negated (some (sem.isNull a)))
  | .truth value affirmative, [a] => sem.ofTruth (some (isTruth value affirmative (sem.truth a)))
  | .arith op, [a, b] => sem.arith op a b
  | .neg, [a] => sem.neg a
  | _, _ => sem.ofTruth none

variable {C N V : Type}

section Eval

variable (sem : Sem V) (row : C → V) (other : N → V)

mutual

def Item.eval : Item C N → V
  | .column c => row c
  | .literal l => sem.lit l
  | .np _ n => other n
  | .cond and a b rest => sem.ofTruth (condTruth and ((a.eval :: b.eval :: evalList rest).map sem.truth))
  | .func f args => sem.apply f (evalList args)
termination_by structural t => t

def evalList : List (Item C N) → List V
  | [] => []
  | a :: as => a.eval :: evalList as
termination_by structural as => as

end

def Item.holds (t : Item C N) : Option Bool := sem.truth (t.eval sem row other)

def whereHolds : Option (Item C N) → Option Bool
  | none => some true
  | some t => t.holds sem row other

def allHold (ts : List (Item C N)) : Option Bool := condTruth true (ts.map (Item.holds sem row other))

end Eval

/-! ## What the text stands for -/

/-- An `Item_cond` with the arguments that have been printed; one without a word between them is that argument. -/
def condOf (and : Bool) : List (Item C N) → Option (Item C N)
  | [] => none
  | [a] => some a
  | a :: b :: rest => some (.cond and a b rest)

/-- The arguments that are printed: an `AND` goes on without those that cannot be, everything else fails. -/
def kept {α : Type} (and : Bool) : List (Option α) → Option (List α)
  | [] => some []
  | some a :: args => (kept and args).map (a :: ·)
  | none :: args => if and then kept and args else none

/-- The function that the shard reads: `LIKE` has lost its flag and its escape character. -/
def Func.plain : Func → Func
  | .like _ _ => .like none false
  | f => f

mutual

/-- The condition that is left when the text is printed. -/
def Item.sent : Item C N → Option (Item C N)
  | .column c => some (.column c)
  | .literal l => some (.literal l.sent)
  | .np _ _ => none
  | .cond and a b rest => (kept and (a.sent :: b.sent :: sentList rest)).bind (condOf and)
  | .func f args =>
    if f = .not ∧ args.head?.any Item.isNotExists then none else (kept false (sentList args)).map (.func f.plain)
termination_by structural t => t

def sentList : List (Item C N) → List (Option (Item C N))
  | [] => []
  | a :: as => a.sent :: sentList as
termination_by structural as => as

end

def sentAll (conds : List (Item C N)) : List (Item C N) := (sentList conds).filterMap id

section Lists

variable {sem : Sem V} {row : C → V} {other : N → V}

theorem evalList_eq_map (as : List (Item C N)) : evalList sem row other as = as.map (Item.eval sem row other) := by
  induction as with
  | nil => rw [evalList, List.map_nil]
  | cons a as ih => rw [evalList, ih, List.map_cons]

theorem Item.eval_cond (and : Bool) (a b : Item C N) (rest : List (Item C N)) : (cond and a b rest).eval sem row other =
      sem.ofTruth (condTruth and ((a :: b :: rest).map (holds sem row other))) := by
  rw [eval, evalList_eq_map, List.map_cons, List.map_cons, List.map_map]
  rfl

theorem Item.eval_func (f : Func) (args : List (Item C N)) :
    (func f args).eval sem row other = sem.apply f (args.map (eval sem row other)) := by
  rw [eval, evalList_eq_map]

end Lists

theorem sentList_eq_map (ts : List (Item C N)) : sentList ts = ts.map Item.sent := by
  induction ts with
  | nil => rw [sentList]; rfl
  | cons t ts ih => rw [sentList, ih]; rfl

theorem Item.sent_cond (and : Bool) (a b : Item C N) (rest : List (Item C N)) :
    (cond and a b rest).sent = (kept and ((a :: b :: rest).map sent)).bind (condOf and) := by
  rw [sent, sentList_eq_map]; rfl

end TSpider.Cond

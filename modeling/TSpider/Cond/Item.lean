import Mathlib.Tactic.TypeStar
import TSpider.Cond.Literal

/-!
# Conditions and their text

Conditions as the server keeps them (`Item`), after the parser has pushed `NOT` into the operands, and the text that
`spider_db_print_item_type`, `spider_db_open_item_cond`, `spider_db_mysql_util::open_item_func` and
`spider_mysql_handler::append_condition` print for a shard, as a list of tokens.

With `str` off the printing is the test pass, which prints nothing and only looks for parts that cannot be pushed down. With
`str` on, an `AND` leaves out such parts.
-/

namespace TSpider.Cond

inductive CmpOp where
  | eq
  | equal
  | ne
  | lt
  | le
  | ge
  | gt
  deriving DecidableEq

inductive ArithOp where
  | plus
  | minus
  | mul
  | div
  | intDiv
  | mod
  deriving DecidableEq

/-- The functions, with the flags that the parser keeps in their nodes. -/
inductive Func where
  | xor
  | not
  | cmp (op : CmpOp)
  | like (escape : Option Char) (negated : Bool)
  | isIn (negated : Bool)
  | between (negated : Bool)
  /-- `Item_func_isnull`, and `Item_func_isnotnull` if `negated`. -/
  | isNull (negated : Bool)
  /-- `Item_func_truth`: `IS TRUE` or `IS FALSE`, and their negations if not `affirmative`. -/
  | truth (value affirmative : Bool)
  | arith (op : ArithOp)
  | neg
  deriving DecidableEq

inductive Kind where
  | subselect
  /-- `EXPR_CACHE_ITEM`. -/
  | exprCache
  /-- `FUNC_SP` and `UDF_FUNC`. -/
  | storedFunction
  /-- A column of another table or character set. -/
  | foreignColumn
  deriving DecidableEq

/-- A condition or an expression over the columns `C`; `N` stands for parts that cannot be printed. -/
inductive Item (C N : Type) where
  | column (c : C)
  | literal (l : Literal)
  | np (kind : Kind) (n : N)
  /-- `Item_cond_and` or `Item_cond_or`, with two arguments or more. -/
  | cond (and : Bool) (a b : Item C N) (rest : List (Item C N))
  | func (f : Func) (args : List (Item C N))

inductive Word where
  | and
  | or
  | not
  | is
  | null
  | true
  | false
  | like
  | in
  | between
  | mod
  | where
  deriving DecidableEq

inductive Token (C : Type) where
  | column (c : C)
  | literal (x : Lexeme)
  | lparen
  | rparen
  | comma
  | word (w : Word)
  | cmp (op : CmpOp)
  | arith (op : ArithOp)

inductive Err where
  /-- `ER_SPIDER_COND_SKIP_NUM`. -/
  | skip
  /-- The code reads a member that the object does not have. -/
  | undefined
  deriving DecidableEq

variable {C N : Type}

def Item.isExprCache : Item C N → Bool
  | .np .exprCache _ => true
  | _ => false

def Item.isNotNullFunc : Item C N → Bool
  | .func (.isNull true) _ => true
  | _ => false

/-- An `AND` of expression caches and `IS NOT NULL` conditions; behind `NOT` it stands for `NOT EXISTS`. -/
def Item.isNotExists : Item C N → Bool
  | .cond true a b rest =>
    let args := a :: b :: rest
    args.any isExprCache && args.any isNotNullFunc && args.all fun i => i.isExprCache || i.isNotNullFunc
  | _ => false

def condWord (and : Bool) : Token C := .word (if and then .and else .or)

def notWords (negated : Bool) : List (Token C) := if negated then [.word .not] else []

/-- The loop over the arguments of a node, from what printing each of them gives. With `skips`, one that cannot be printed is
cut off again (`str->length(restart_pos)`), together with the word in front of it. -/
def printArgs (skips : Bool) : List (Except Err (List (Token C))) → Except Err (List (List (Token C)))
  | [] => .ok []
  | .ok t :: rs => do
    let ts ← printArgs skips rs
    .ok (t :: ts)
  | .error e :: rs => if skips && e = .skip then printArgs skips rs else .error e

/-- `spider_db_open_item_cond`. -/
def openItemCond (str and : Bool) (args : List (Except Err (List (Token C)))) : Except Err (List (Token C)) := do
  match ← printArgs (str && and) args with
  -- every argument has been cut off, and `error_num` is that of the last
  | [] => .error .skip
  | t :: ts => .ok (.lparen :: t ++ ts.flatMap (condWord and :: ·) ++ [.rparen])

/-- The text of a function from that of its arguments. -/
def Func.layout : Func → List (List (Token C)) → Except Err (List (Token C))
  | .not, [a] => .ok (.lparen :: .word .not :: a ++ [.rparen])
  | .cmp op, [a, b] => .ok (.lparen :: a ++ .cmp op :: b ++ [.rparen])
  -- neither flag is printed
  | .like _ _, [a, b] => .ok (.lparen :: a ++ .word .like :: b ++ [.rparen])
  | .isIn negated, a :: x :: xs => .ok (.lparen :: a ++ notWords negated ++ .word .in :: .lparen :: x ++
      xs.flatMap (.comma :: ·) ++ [.rparen, .rparen])
  | .between negated, [a, b, c] =>
    .ok (.lparen :: a ++ notWords negated ++ .word .between :: b ++ .word .and :: c ++ [.rparen])
  | .isNull negated, [a] => .ok (.lparen :: a ++ .word .is :: notWords negated ++ [.word .null, .rparen])
  | .truth value affirmative, [a] =>
    .ok (.lparen :: a ++ .word .is :: notWords (!affirmative) ++ [.word (if value then .true else .false), .rparen])
  -- the name of `Item_func_mod` is printed as that of a function
  | .arith .mod, [a, b] => .ok (.lparen :: .word .mod :: .lparen :: a ++ .comma :: b ++ [.rparen, .rparen])
  | .arith op, [a, b] => .ok (.lparen :: a ++ .arith op :: b ++ [.rparen])
  | .neg, [a] => .ok (.lparen :: .arith .minus :: a ++ [.rparen])
  | _, _ => .error .undefined

/-- `open_item_func`; `notExists` if the first argument is such an `AND`. -/
def openItemFunc (f : Func) (notExists : Bool) (args : List (Except Err (List (Token C)))) : Except Err (List (Token C)) := do
  -- `XOR_FUNC` is handled with `COND_AND_FUNC`, but an `Item_func_xor` is no `Item_cond` and has no list
  if f = .xor then .error .undefined
  else if f = .not ∧ notExists then .error .skip
  else f.layout (← printArgs false args)

mutual

/-- `spider_db_print_item_type`. -/
def Item.print (str : Bool) : Item C N → Except Err (List (Token C))
  | .column c => .ok [.column c]
  | .literal l => .ok [.literal l.text]
  | .np _ _ => .error .skip
  | .cond and a b rest => openItemCond str and (a.print str :: b.print str :: printList str rest)
  | .func f args => openItemFunc f (args.head?.any Item.isNotExists) (printList str args)
termination_by structural t => t

def printList (str : Bool) : List (Item C N) → List (Except Err (List (Token C)))
  | [] => []
  | a :: as => a.print str :: printList str as
termination_by structural as => as

end

/-- `spider_mysql_handler::append_condition`. -/
def appendCondition (str : Bool) (conds : List (Item C N)) : Except Err (List (Token C)) := do
  match ← printArgs str (printList str conds) with
  | [] => .ok []
  | t :: ts => .ok (.word .where :: t ++ ts.flatMap (condWord true :: ·))

/-! ## Induction -/

mutual

/-- **Induction over conditions**, with the claim for every argument of a node. -/
theorem Item.induct {P : Item C N → Prop} (column : ∀ c, P (.column c)) (literal : ∀ l, P (.literal l))
    (np : ∀ kind n, P (.np kind n)) (cond : ∀ and a b rest, (∀ t ∈ a :: b :: rest, P t) → P (.cond and a b rest))
    (func : ∀ f args, (∀ t ∈ args, P t) → P (.func f args)) : ∀ t : Item C N, P t
  | .column c => column c
  | .literal l => literal l
  | .np kind n => np kind n
  | .cond and a b rest => by
    have ha := a.induct column literal np cond func
    have hb := b.induct column literal np cond func
    have hrest := inductList column literal np cond func rest
    exact cond and a b rest (List.forall_mem_cons.mpr ⟨ha, List.forall_mem_cons.mpr ⟨hb, hrest⟩⟩)
  | .func f args => func f args (inductList column literal np cond func args)
termination_by structural t => t

theorem inductList {P : Item C N → Prop} (column : ∀ c, P (.column c)) (literal : ∀ l, P (.literal l))
    (np : ∀ kind n, P (.np kind n)) (cond : ∀ and a b rest, (∀ t ∈ a :: b :: rest, P t) → P (.cond and a b rest))
    (func : ∀ f args, (∀ t ∈ args, P t) → P (.func f args)) : ∀ ts : List (Item C N), ∀ t ∈ ts, P t
  | [] => fun _ h => absurd h List.not_mem_nil
  | a :: as => by
    have ha := a.induct column literal np cond func
    have has := inductList column literal np cond func as
    exact List.forall_mem_cons.mpr ⟨ha, has⟩
termination_by structural ts => ts

end

theorem printList_eq_map (str : Bool) (ts : List (Item C N)) : printList str ts = ts.map (Item.print str) := by
  induction ts with
  | nil => rw [printList]; rfl
  | cons t ts ih => rw [printList, ih]; rfl

end TSpider.Cond

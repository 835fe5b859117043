import TSpider.Cond.Meaning

/-!
# Values of the server

`NULL`, numbers, strings and the values of `0x..` literals, which are strings beside a string and numbers elsewhere, with the
comparison and pattern operators of the server. How a string is read as a number and a number written as a string, and
arithmetic are left open.
-/

namespace TSpider.Cond

inductive Value where
  | null
  | num (q : Rat)
  | text (s : List Char)
  | hybrid (bytes : List Nat)
  deriving DecidableEq

structure Conversion where
  number : List Char → Rat
  text : Rat → List Char

namespace Value

def ofLiteral : Literal → Value
  | .null => null
  | .string s | .temporal s => text s
  | .int n => num n
  | .decimal m scale => num (m / 10 ^ scale)
  | .real m e => num (m * 10 ^ e.toNat / 10 ^ (-e).toNat)
  | .hexString bytes => text (bytes.map Char.ofNat)
  | .hexHybrid bytes => hybrid bytes

def ofTruth : Option Bool → Value
  | none => null
  | some b => num (if b then 1 else 0)

def order {α : Type} [DecidableEq α] [LT α] [DecidableLT α] (op : CmpOp) (a b : α) : Bool :=
  match op with
  | .eq | .equal => a = b
  | .ne => a ≠ b
  | .lt => a < b
  | .le => a < b ∨ a = b
  | .ge => b < a ∨ a = b
  | .gt => b < a

section

variable (conv : Conversion)

def toNumber : Value → Rat
  | null => 0
  | num q => q
  | text s => conv.number s
  | hybrid bytes => (bytes.foldl (fun n b => 256 * n + b) 0 : Nat)

def toText : Value → List Char
  | null => []
  | num q => conv.text q
  | text s => s
  | hybrid bytes => bytes.map Char.ofNat

def truth (v : Value) : Option Bool := if v = null then none else some (v.toNumber conv != 0)

theorem truth_ofTruth (x : Option Bool) : truth conv (ofTruth x) = x := by
  rcases x with _ | _ | _ <;> rfl

def isNumber : Value → Bool
  | num _ => true
  | _ => false

/-- Two values are compared as strings if neither is a number. -/
def cmp (op : CmpOp) (a b : Value) : Option Bool :=
  if a = null ∨ b = null then if op = .equal then some (a = b) else none
  else if a.isNumber || b.isNumber then some (order op (a.toNumber conv) (b.toNumber conv))
  else some (order op (a.toText conv) (b.toText conv))

/-- `LIKE` on strings: `%` stands for any string, `_` for one character. -/
def likeText (escape : Char) : List Char → List Char → Bool
  | s, [] => s.isEmpty
  | s, [c] =>
    if c = '%' then true
    else match s with
      | [a] => c = '_' || c = a
      | _ => false
  | s, c :: d :: p =>
    if c = escape then
      match s with
      | a :: s => a = d && likeText escape s p
      | [] => false
    else if c = '%' then s.tails.any fun s => likeText escape s (d :: p)
    else match s with
      | a :: s => (c = '_' || c = a) && likeText escape s (d :: p)
      | [] => false
termination_by structural _ p => p

/-- `LIKE`; a backslash is the escape character if there is no `ESCAPE` clause. -/
def like (a b : Value) (escape : Option Char) : Option Bool :=
  if a = null ∨ b = null then none else some (likeText (escape.getD '\\') (a.toText conv) (b.toText conv))

end

end Value

def Sem.sql (conv : Conversion) (arith : ArithOp → Value → Value → Value) (neg : Value → Value) : Sem Value where
  lit := Value.ofLiteral
  truth := Value.truth conv
  ofTruth := Value.ofTruth
  truth_ofTruth := Value.truth_ofTruth conv
  cmp := Value.cmp conv
  like := Value.like conv
  isIn a xs := condTruth false (xs.map (Value.cmp conv .eq a))
  between a b c := and3 (Value.cmp conv .ge a b) (Value.cmp conv .le a c)
  isNull a := a = .null
  arith := arith
  neg := neg

/-- Strings are read by the digits in front; arithmetic is not used. -/
def Sem.digits : Sem Value :=
  .sql ⟨fun s => ((s.takeWhile Char.isDigit).foldl (fun n c => 10 * n + (c.toNat - 48)) 0 : Nat), fun _ => []⟩
    (fun _ _ _ => .null) fun _ => .null

end TSpider.Cond

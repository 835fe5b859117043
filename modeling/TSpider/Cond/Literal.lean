import Mathlib.Algebra.Group.Int.Defs
import Mathlib.Data.List.Basic

/-!
# Literals and their text

What `spider_db_open_item_string`, `spider_db_open_item_int` and `spider_db_open_item_hex_string` print for a literal, and
what the shard's lexer reads. Not every literal is read as itself: `X'3132'` is sent as `0x3132`, which counts as a number
where one is wanted, and `0.1e0` as `0.1`, which is exact.
-/

namespace TSpider.Cond

inductive Literal where
  | null
  | string (s : List Char)
  | int (n : Int)
  /-- `Item_decimal`: `m` with `scale` digits behind the point. -/
  | decimal (m : Int) (scale : Nat)
  /-- `Item_float`, the shortest decimal number `m * 10 ^ e` that is read as the value. -/
  | real (m e : Int)
  /-- `Item_hex_string`, written `X'..'`. -/
  | hexString (bytes : List Nat)
  /-- `Item_hex_hybrid`, written `0x..` or `b'..'`. -/
  | hexHybrid (bytes : List Nat)
  /-- `DATE'..'`, `TIME'..'` and `TIMESTAMP'..'`. -/
  | temporal (s : List Char)
  deriving DecidableEq

/-- The text of a literal. A number has its digits, with the sign, and may have a point and an exponent. -/
inductive Lexeme where
  | null
  | quoted (s : List Char)
  | number (m : Int) (scale : Option Nat) (exponent : Option Int)
  | hex (bytes : List Nat)
  | temporal (s : List Char)
  deriving DecidableEq

/-- `my_gcvt` writes the number without an exponent. -/
def fFormat (m e : Int) : Bool :=
  let decpt := (Nat.toDigits 10 m.natAbs).length + e
  decide (-14 ≤ decpt) && (decide (decpt ≤ 15) || decide (e < 0))

def Literal.text : Literal → Lexeme
  | null => .null
  | string s => .quoted s
  | int n => .number n none none
  | decimal m scale => .number m (if scale = 0 then none else some scale) none
  | real m e =>
    if !fFormat m e then .number m none (some e)
    else if e < 0 then .number m (some e.natAbs) none
    else .number (m * 10 ^ e.natAbs) none none
  -- `print_for_x` of both classes
  | hexString bytes => if bytes = [] then .quoted [] else .hex bytes
  | hexHybrid bytes => if bytes = [] then .quoted [] else .hex bytes
  | temporal s => .temporal s

def Lexeme.read : Lexeme → Literal
  | null => .null
  | quoted s => .string s
  | number m none none => if -2 ^ 63 ≤ m ∧ m < 2 ^ 64 then .int m else .decimal m 0
  | number m (some scale) none => .decimal m scale
  | number m scale (some e) => .real m (e - scale.getD 0)
  | hex bytes => .hexHybrid bytes
  | temporal s => .temporal s

/-- The literal that the shard reads. -/
def Literal.sent (l : Literal) : Literal := l.text.read

def Literal.stable (l : Literal) : Bool := l.sent = l

example : [Literal.hexString [0x31, 0x32], .real 1 (-1), .decimal 1 0, .hexHybrid []].map Literal.sent =
    [.hexHybrid [0x31, 0x32], .decimal 1 1, .int 1, .string []] := by decide

end TSpider.Cond

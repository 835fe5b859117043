import TSpider.Cond.Item

/-!
# The shard's parser

How the grammar of the server reads the text of a condition: a parser by precedence, with the levels of `sql_yacc.yy` (`expr`,
`bool_pri`, `predicate`, `bit_expr`, `simple_expr`). Levels grow with the strength of an operator:

* 1 `OR`, 3 `AND`, 4 `NOT`;
* 6 comparisons and `IS`, 7 `IN`, `BETWEEN` and `LIKE`;
* 10 `+` and `-`, 11 `*`, `/` and `DIV`, 14 a `simple_expr`.
-/

namespace TSpider.Cond

variable {C N : Type}

/-- The level of an operator between two operands, the least level of its right operand, and what it builds. -/
def Token.binary : Token C → Option (Nat × Nat × (Item C N → Item C N → Item C N))
  | .word .or => some (1, 2, fun a b => .cond false a b [])
  | .word .and => some (3, 4, fun a b => .cond true a b [])
  | .cmp op => some (6, 7, fun a b => .func (.cmp op) [a, b])
  | .word .like => some (7, 14, fun a b => .func (.like none false) [a, b])
  | .arith .plus => some (10, 11, fun a b => .func (.arith .plus) [a, b])
  | .arith .minus => some (10, 11, fun a b => .func (.arith .minus) [a, b])
  | .arith op => some (11, 12, fun a b => .func (.arith op) [a, b])
  | _ => none

def takeNot : List (Token C) → Bool × List (Token C)
  | .word .not :: r => (true, r)
  | r => (false, r)

def closing : List (Token C) → Option (List (Token C))
  | .rparen :: r => some r
  | _ => none

def isTest (a : Item C N) (negated : Bool) : List (Token C) → Option (Item C N × List (Token C))
  | .word .null :: r => some (.func (.isNull negated) [a], r)
  | .word .true :: r => some (.func (.truth true (!negated)) [a], r)
  | .word .false :: r => some (.func (.truth false (!negated)) [a], r)
  | _ => none

mutual

def expr : Nat → Nat → List (Token C) → Option (Item C N × List (Token C))
  | 0, _, _ => none
  | k + 1, p, .word .not :: r => do
    if p ≤ 4 then
      let (a, r) ← expr k 4 r
      operators k p (.func .not [a]) r
    else none
  | k + 1, p, toks => do
    let (a, r) ← simpleExpr k toks
    operators k p a r

def simpleExpr : Nat → List (Token C) → Option (Item C N × List (Token C))
  | 0, _ => none
  | _ + 1, .column c :: r => some (.column c, r)
  | _ + 1, .literal x :: r => some (.literal x.read, r)
  | k + 1, .lparen :: r => do
    let (a, r) ← expr k 0 r
    let r ← closing r
    some (a, r)
  | k + 1, .arith .minus :: r => do
    let (a, r) ← simpleExpr k r
    some (.func .neg [a], r)
  | k + 1, .word .mod :: .lparen :: r => do
    let (a, r) ← expr k 0 r
    match r with
    | .comma :: r =>
      let (b, r) ← expr k 0 r
      let r ← closing r
      some (.func (.arith .mod) [a, b], r)
    | _ => none
  | _ + 1, _ => none

def operators : Nat → Nat → Item C N → List (Token C) → Option (Item C N × List (Token C))
  | 0, _, _, _ => none
  | _ + 1, _, a, [] => some (a, [])
  | k + 1, p, a, t :: r =>
    match t.binary with
    | some (level, right, build) => do
      if p ≤ level then
        let (b, r) ← expr k right r
        operators k p (build a b) r
      else some (a, t :: r)
    | none =>
      match t with
      | .word .is => do
        if p ≤ 6 then
          let (negated, r) := takeNot r
          let (b, r) ← isTest a negated r
          operators k p b r
        else some (a, t :: r)
      | _ => do
        if p ≤ 7 then
          let (negated, r') := takeNot (t :: r)
          match r' with
          | .word .in :: .lparen :: r' =>
            let (x, r') ← expr k 0 r'
            let (xs, r') ← exprList k r'
            let r' ← closing r'
            operators k p (.func (.isIn negated) (a :: x :: xs)) r'
          | .word .between :: r' =>
            let (b, r') ← expr k 8 r'
            match r' with
            | .word .and :: r' =>
              let (c, r') ← expr k 7 r'
              operators k p (.func (.between negated) [a, b, c]) r'
            | _ => none
          | .word .like :: r' =>
            let (b, r') ← expr k 14 r'
            operators k p (.func .not [.func (.like none false) [a, b]]) r'
          | _ => some (a, t :: r)
        else some (a, t :: r)

def exprList : Nat → List (Token C) → Option (List (Item C N) × List (Token C))
  | 0, _ => none
  | k + 1, .comma :: r => do
    let (a, r) ← expr k 0 r
    let (as, r) ← exprList k r
    some (a :: as, r)
  | _ + 1, r => some ([], r)

end

def parse (toks : List (Token C)) : Option (Item C N) :=
  match expr (2 * toks.length + 2) 0 toks with
  | some (a, []) => some a
  | _ => none

def parseWhere : List (Token C) → Option (Option (Item C N))
  | [] => some none
  | .word .where :: toks => (parse toks).map some
  | _ => none

end TSpider.Cond

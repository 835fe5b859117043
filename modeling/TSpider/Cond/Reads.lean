import TSpider.Cond.Meaning
import TSpider.Cond.Parse

/-!
# What the parser reads

* `Atom ts a` : the text `ts` is read as the operand `a`, whatever follows;
* `Inside ts a` : between parentheses, the text `ts` is read as `a`.
-/

namespace TSpider.Cond
open List

variable {C N : Type}

structure Atom (ts : List (Token C)) (a : Item C N) : Prop where
  head : ∃ t r, ts = t :: r ∧ t ≠ .word .not
  simple : ∀ k r, 2 * ts.length ≤ k → simpleExpr k (ts ++ r) = some (a, r)

/-- No operator of level `p` or more stands in front of the text. -/
def Ends (N : Type) (p : Nat) (r : List (Token C)) : Prop :=
  ∀ k (a : Item C N), 0 < k → operators k p a r = some (a, r)

def Inside (ts : List (Token C)) (a : Item C N) : Prop :=
  ∀ k r, 2 * ts.length + 1 ≤ k → expr k 0 (ts ++ .rparen :: r) = some (a, .rparen :: r)

theorem ends_nil (p : Nat) : Ends N p ([] : List (Token C)) := by
  rintro (_ | k) a hk
  · omega
  · rw [operators]

theorem ends_rparen (p : Nat) (r : List (Token C)) : Ends N p (.rparen :: r) := by
  rintro (_ | k) a hk
  · omega
  · simp [operators, Token.binary, takeNot]

theorem ends_comma (p : Nat) (r : List (Token C)) : Ends N p (.comma :: r) := by
  rintro (_ | k) a hk
  · omega
  · simp [operators, Token.binary, takeNot]

theorem ends_binary {t : Token C} {level right p : Nat} {build : Item C N → Item C N → Item C N}
    (ht : t.binary = some (level, right, build)) (hp : level < p) (r : List (Token C)) : Ends N p (t :: r) := by
  rintro (_ | k) a hk
  · omega
  · rw [operators.eq_def]
    simp [ht, Nat.not_le.mpr hp]

section

variable {ta tb tc : List (Token C)} {a b c : Item C N} {k p : Nat} {r : List (Token C)}
  {tss : List (List (Token C))} {as : List (Item C N)} {negated : Bool} {t : Token C}

theorem expr_of_head (ht : t ≠ .word .not) :
    expr (N := N) (k + 1) p (t :: r) = (simpleExpr k (t :: r)).bind fun x => operators k p x.1 x.2 := by
  rw [expr]
  · rfl
  · rintro r' h
    exact ht (List.cons.inj h).1

theorem Atom.expr (ha : Atom ta a) (hk : 2 * ta.length ≤ k) : Cond.expr (k + 1) p (ta ++ r) = operators k p a r := by
  obtain ⟨t, u, rfl, ht⟩ := ha.head
  rw [cons_append, expr_of_head ht, ← cons_append, ha.simple k r hk, Option.bind_some]

theorem Atom.pos (ha : Atom ta a) : 0 < ta.length := by
  obtain ⟨t, u, rfl, -⟩ := ha.head
  exact Nat.succ_pos _

/-- A text in parentheses is read as one operand at every place. -/
theorem Atom.operand (ha : Atom ta a) (hr : Ends N p r) (hk : 2 * ta.length + 1 ≤ k) :
    Cond.expr k p (ta ++ r) = some (a, r) := by
  obtain ⟨k, rfl⟩ : ∃ j, k = j + 1 := ⟨k - 1, by omega⟩
  have hpos := ha.pos
  rw [ha.expr (by omega), hr k a (by omega)]

theorem Atom.column (c : C) : Atom [Token.column c] (Item.column c : Item C N) := by
  refine ⟨⟨_, _, rfl, by simp⟩, fun k r hk => ?_⟩
  obtain ⟨k, rfl⟩ : ∃ j, k = j + 1 := ⟨k - 1, by simp at hk; omega⟩
  simp [simpleExpr]

theorem Atom.literal (x : Lexeme) : Atom [Token.literal x] (Item.literal x.read : Item C N) := by
  refine ⟨⟨_, _, rfl, by simp⟩, fun k r hk => ?_⟩
  obtain ⟨k, rfl⟩ : ∃ j, k = j + 1 := ⟨k - 1, by simp at hk; omega⟩
  simp [simpleExpr]

theorem Inside.atom (h : Inside ta a) : Atom (.lparen :: ta ++ [.rparen]) a := by
  refine ⟨⟨_, _, rfl, by simp⟩, fun k r hk => ?_⟩
  simp only [length_append, length_cons, length_nil] at hk
  obtain ⟨k, rfl⟩ : ∃ j, k = j + 1 := ⟨k - 1, by omega⟩
  have hin := h k r (by omega)
  simp [simpleExpr, hin, closing]

theorem operators_binary {level right : Nat} {build : Item C N → Item C N → Item C N}
    (ht : t.binary = some (level, right, build)) (hp : p ≤ level) :
    operators (k + 1) p a (t :: r) = (Cond.expr k right r).bind fun x => operators k p (build a x.1) x.2 := by
  rw [operators.eq_def]
  simp [ht, hp]

/-- An operator between two operands, in parentheses. -/
theorem Atom.binary {level right : Nat} {build : Item C N → Item C N → Item C N}
    (ha : Atom ta a) (hb : Atom tb b) (ht : t.binary = some (level, right, build)) :
    Atom (.lparen :: ta ++ t :: tb ++ [.rparen]) (build a b) := by
  have hin : Inside (ta ++ t :: tb) (build a b) := by
    intro k r hk
    simp only [length_append, length_cons] at hk
    obtain ⟨k, rfl⟩ : ∃ j, k = j + 2 := ⟨k - 2, by omega⟩
    have hright := hb.operand (k := k) (ends_rparen right r) (by omega)
    rw [append_assoc, ha.expr (by omega), cons_append, operators_binary ht (Nat.zero_le _), hright,
      Option.bind_some, ends_rparen 0 r k _ (by omega)]
  simpa using hin.atom

theorem Atom.func {f : Func} {level right : Nat} (ha : Atom ta a) (hb : Atom tb b)
    (ht : t.binary = some (level, right, fun a b : Item C N => .func f [a, b])) :
    Atom (.lparen :: ta ++ t :: tb ++ [.rparen]) (.func f [a, b]) :=
  ha.binary hb ht

theorem Atom.not (ha : Atom ta a) : Atom (.lparen :: .word .not :: ta ++ [.rparen]) (.func .not [a]) := by
  have hin : Inside (Token.word .not :: ta) (.func .not [a]) := by
    intro k r hk
    simp only [length_cons] at hk
    obtain ⟨k, rfl⟩ : ∃ j, k = j + 1 := ⟨k - 1, by omega⟩
    have hright := ha.operand (k := k) (ends_rparen 4 r) (by omega)
    simp [Cond.expr, hright, ends_rparen 0 r k _ (by omega)]
  exact hin.atom

theorem Atom.neg (ha : Atom ta a) : Atom (.lparen :: .arith .minus :: ta ++ [.rparen]) (.func .neg [a]) := by
  have hin : Inside (Token.arith .minus :: ta) (.func .neg [a]) := by
    intro k r hk
    simp only [length_cons] at hk
    obtain ⟨k, rfl⟩ : ∃ j, k = j + 2 := ⟨k - 2, by omega⟩
    rw [cons_append, expr_of_head (by simp), simpleExpr, ha.simple k _ (by omega)]
    simp [ends_rparen 0 r (k + 1)]
  exact hin.atom

theorem Atom.mod (ha : Atom ta a) (hb : Atom tb b) :
    Atom (.lparen :: .word .mod :: .lparen :: ta ++ .comma :: tb ++ [.rparen, .rparen]) (.func (.arith .mod) [a, b]) := by
  have hin : Inside (Token.word .mod :: .lparen :: ta ++ .comma :: tb ++ [.rparen]) (.func (.arith .mod) [a, b]) := by
    intro k r hk
    simp only [length_append, length_cons] at hk
    obtain ⟨k, rfl⟩ : ∃ j, k = j + 2 := ⟨k - 2, by omega⟩
    have hright := hb.operand (k := k) (ends_rparen 0 (.rparen :: r)) (by omega)
    simp only [cons_append, append_assoc, nil_append]
    rw [expr_of_head (by simp), simpleExpr, ha.operand (ends_comma 0 _) (by omega)]
    simp [hright, closing, ends_rparen 0 r (k + 1)]
  simpa using hin.atom

theorem takeNot_notWords {w : Word} (hw : w ≠ .not) (r : List (Token C)) :
    takeNot (notWords negated ++ .word w :: r) = (negated, .word w :: r) := by
  cases negated <;> simp [notWords, takeNot, hw]

theorem Atom.isTest {w : Word} {build : Item C N} (ha : Atom ta a) (hw : w ≠ .not)
    (ht : ∀ r, Cond.isTest a negated (.word w :: r) = some (build, r)) :
    Atom (.lparen :: ta ++ .word .is :: notWords negated ++ [.word w, .rparen]) build := by
  have hin : Inside (ta ++ Token.word .is :: notWords negated ++ [.word w]) build := by
    intro k r hk
    simp only [length_append, length_cons] at hk
    obtain ⟨k, rfl⟩ : ∃ j, k = j + 2 := ⟨k - 2, by omega⟩
    simp only [cons_append, append_assoc, nil_append]
    rw [ha.expr (by omega), operators]
    simp [Token.binary, takeNot_notWords hw, ht, ends_rparen 0 r k _ (by omega)]
  simpa using hin.atom

theorem operators_in {x : Item C N} {xs : List (Item C N)} {r₁ r₂ : List (Token C)}
    (hx : Cond.expr k 0 r = some (x, r₁)) (hxs : exprList k r₁ = some (xs, .rparen :: r₂)) :
    operators (k + 1) 0 a (notWords negated ++ .word .in :: .lparen :: r) =
      operators k 0 (.func (.isIn negated) (a :: x :: xs)) r₂ := by
  cases negated <;> simp [operators, notWords, Token.binary, takeNot, hx, hxs, closing]

theorem operators_between {r₁ r₂ : List (Token C)} (hb : Cond.expr k 8 r = some (b, .word .and :: r₁))
    (hc : Cond.expr k 7 r₁ = some (c, r₂)) :
    operators (k + 1) 0 a (notWords negated ++ .word .between :: r) =
      operators k 0 (.func (.between negated) [a, b, c]) r₂ := by
  cases negated <;> simp [operators, notWords, Token.binary, takeNot, hb, hc]

theorem Atom.between (negated : Bool) (ha : Atom ta a) (hb : Atom tb b) (hc : Atom tc c) :
    Atom (.lparen :: ta ++ notWords negated ++ .word .between :: tb ++ .word .and :: tc ++ [.rparen])
      (.func (.between negated) [a, b, c]) := by
  have hin : Inside (ta ++ notWords negated ++ Token.word .between :: tb ++ .word .and :: tc)
      (.func (.between negated) [a, b, c]) := by
    intro k r hk
    simp only [length_append, length_cons] at hk
    obtain ⟨k, rfl⟩ : ∃ j, k = j + 2 := ⟨k - 2, by omega⟩
    have hand : Ends N 8 (Token.word .and :: (tc ++ .rparen :: r)) := ends_binary rfl (by omega) _
    have hlow := hb.operand (k := k) hand (by omega)
    have hhigh := hc.operand (k := k) (ends_rparen 7 r) (by omega)
    simp only [cons_append, append_assoc]
    rw [ha.expr (by omega), operators_between hlow hhigh, ends_rparen 0 r k _ (by omega)]
  simpa using hin.atom

theorem ends_commas (tss : List (List (Token C))) (r : List (Token C)) :
    Ends N 0 (tss.flatMap (.comma :: ·) ++ .rparen :: r) := by
  cases tss with
  | nil => exact ends_rparen 0 r
  | cons ts tss => exact ends_comma 0 _

/-- The elements of a list are read one by one. -/
theorem exprList_atoms (h : Forall₂ Atom tss as) (r : List (Token C)) : ∀ k, 2 * (tss.flatMap (.comma :: ·)).length + 1 ≤ k →
    exprList k (tss.flatMap (.comma :: ·) ++ .rparen :: r) = some (as, .rparen :: r) := by
  induction h with
  | nil =>
    intro k hk
    obtain ⟨k, rfl⟩ : ∃ j, k = j + 1 := ⟨k - 1, by omega⟩
    simp [exprList]
  | @cons ts a tss as ha _ ih =>
    intro k hk
    simp only [flatMap_cons, cons_append, length_cons, length_append] at hk ⊢
    obtain ⟨k, rfl⟩ : ∃ j, k = j + 1 := ⟨k - 1, by omega⟩
    rw [exprList, append_assoc, ha.operand (ends_commas tss r) (by omega)]
    simp [ih k (by omega)]

theorem Atom.isIn {tx : List (Token C)} {x : Item C N} (negated : Bool) (ha : Atom ta a) (hx : Atom tx x)
    (h : Forall₂ Atom tss as) : Atom (.lparen :: ta ++ notWords negated ++ .word .in :: .lparen :: tx ++
      tss.flatMap (.comma :: ·) ++ [.rparen, .rparen]) (.func (.isIn negated) (a :: x :: as)) := by
  have hin : Inside (ta ++ notWords negated ++ Token.word .in :: .lparen :: tx ++ tss.flatMap (.comma :: ·) ++ [.rparen])
      (.func (.isIn negated) (a :: x :: as)) := by
    intro k r hk
    simp only [length_append, length_cons] at hk
    obtain ⟨k, rfl⟩ : ∃ j, k = j + 2 := ⟨k - 2, by omega⟩
    have hfirst := hx.operand (k := k) (ends_commas tss (.rparen :: r)) (by omega)
    have hlist := exprList_atoms h (.rparen :: r) k (by omega)
    simp only [cons_append, append_assoc, nil_append]
    rw [ha.expr (by omega), operators_in hfirst hlist, ends_rparen 0 r k _ (by omega)]
  simpa using hin.atom

/-- **The text of a function** is read as the function, without the flags of `LIKE`. -/
theorem Func.layout_atom {f : Func} {ts : List (Token C)} (h : Forall₂ Atom tss as) (hf : f.layout tss = .ok ts) :
    Atom ts (.func f.plain as) := by
  cases f with
  | xor => cases tss <;> cases hf
  | not =>
    rcases h with _ | ⟨ha, _ | _⟩ <;> cases hf
    exact ha.not
  | cmp op =>
    rcases h with _ | ⟨ha, _ | ⟨hb, _ | _⟩⟩ <;> cases hf
    exact ha.func hb rfl
  | like escape negated =>
    rcases h with _ | ⟨ha, _ | ⟨hb, _ | _⟩⟩ <;> cases hf
    exact ha.func hb rfl
  | isIn negated =>
    rcases h with _ | ⟨ha, _ | ⟨hx, hxs⟩⟩ <;> cases hf
    exact ha.isIn negated hx hxs
  | between negated =>
    rcases h with _ | ⟨ha, _ | ⟨hb, _ | ⟨hc, _ | _⟩⟩⟩ <;> cases hf
    exact ha.between negated hb hc
  | isNull negated =>
    rcases h with _ | ⟨ha, _ | _⟩ <;> cases hf
    exact ha.isTest (by decide) fun _ => rfl
  | truth value affirmative =>
    rcases h with _ | ⟨ha, _ | _⟩ <;> cases hf
    refine ha.isTest (by cases value <;> decide) fun r => ?_
    cases value <;> cases affirmative <;> rfl
  | arith op =>
    cases op <;> rcases h with _ | ⟨ha, _ | ⟨hb, _ | _⟩⟩ <;> cases hf <;> first | exact ha.mod hb | exact ha.func hb rfl
  | neg =>
    rcases h with _ | ⟨ha, _ | _⟩ <;> cases hf
    exact ha.neg

/-! ## Lists of operands between `AND` or `OR` -/

def condFold (and : Bool) (a : Item C N) (as : List (Item C N)) : Item C N := as.foldl (fun a b => .cond and a b []) a

theorem condWord_binary (and : Bool) : ∃ level, (condWord and : Token C).binary =
    some (level, level + 1, fun a b : Item C N => .cond and a b []) := by
  cases and
  · exact ⟨1, rfl⟩
  · exact ⟨3, rfl⟩

/-- A chain of `AND` or `OR` is read from the left. -/
theorem operators_cond (and : Bool) (h : Forall₂ Atom tss as) (hr : ∀ p, Ends N p r) :
    ∀ k a, 2 * (tss.flatMap (condWord and :: ·)).length + 1 ≤ k →
      operators k 0 a (tss.flatMap (condWord and :: ·) ++ r) = some (condFold and a as, r) := by
  obtain ⟨level, hlevel⟩ : ∃ level, _ := condWord_binary (C := C) (N := N) and
  induction h with
  | nil => exact fun k a hk => hr 0 k a hk
  | @cons ts b tss as hb _ ih =>
    intro k a hk
    have hends : Ends N (level + 1) (tss.flatMap (condWord and :: ·) ++ r) := by
      cases tss with
      | nil => exact hr (level + 1)
      | cons us tss => exact ends_binary hlevel (Nat.lt_succ_self level) _
    simp only [flatMap_cons, cons_append, length_cons, length_append] at hk ⊢
    obtain ⟨k, rfl⟩ : ∃ j, k = j + 1 := ⟨k - 1, by omega⟩
    rw [operators_binary hlevel (Nat.zero_le _), append_assoc, hb.operand hends (by omega), Option.bind_some,
      ih k _ (by omega)]
    rfl

theorem Atom.expr_cond (and : Bool) (ha : Atom ta a) (h : Forall₂ Atom tss as) (hr : ∀ p, Ends N p r)
    (hk : 2 * (ta ++ tss.flatMap (condWord and :: ·)).length + 1 ≤ k) :
    Cond.expr k 0 (ta ++ tss.flatMap (condWord and :: ·) ++ r) = some (condFold and a as, r) := by
  rw [length_append] at hk
  obtain ⟨k, rfl⟩ : ∃ j, k = j + 1 := ⟨k - 1, by omega⟩
  have hpos := ha.pos
  rw [append_assoc, ha.expr (by omega), operators_cond and h hr k a (by omega)]

theorem Atom.cond (and : Bool) (ha : Atom ta a) (h : Forall₂ Atom tss as) :
    Atom (.lparen :: ta ++ tss.flatMap (condWord and :: ·) ++ [.rparen]) (condFold and a as) := by
  have hin : Inside (ta ++ tss.flatMap (condWord and :: ·)) (condFold and a as) :=
    fun k r hk => ha.expr_cond and h (fun p => ends_rparen p r) hk
  simpa using hin.atom

/-- The whole text is read. -/
theorem Atom.parse (ha : Atom ta a) (h : Forall₂ Atom tss as) :
    Cond.parse (ta ++ tss.flatMap (condWord true :: ·)) = some (condFold true a as) := by
  have hexpr := ha.expr_cond true (k := 2 * (ta ++ tss.flatMap (condWord true :: ·)).length + 2) h ends_nil (by omega)
  rw [append_nil] at hexpr
  rw [Cond.parse, hexpr]

end

end TSpider.Cond

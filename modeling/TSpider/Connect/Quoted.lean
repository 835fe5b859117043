import TSpider.Connect.Parse
import Mathlib.Data.List.TakeWhile
import Mathlib.Tactic

/-!
# Texts between quotes, read back

A value is written as a list of `Tok`s, plain characters and escaped ones. It is read back, but the position behind it is
right only if nothing is escaped (`readBack_iff`).
-/

namespace TSpider.Connect
open List

theorem escape_raw (body : List Tok) (q : Char) (hq : q ≠ '\\') (h : ∀ c, Tok.plain c ∈ body → c ≠ q ∧ c ≠ '\\')
    (r : List Char) : scanQuote q (body.flatMap Tok.raw ++ q :: r) = some (body.flatMap Tok.raw, r) := by
  induction body with
  | nil => cases r <;> simp [scanQuote, hq]
  | cons t body ih =>
    have ih := ih fun c hc => h c (mem_cons_of_mem _ hc)
    cases t with
    | plain c =>
      obtain ⟨hcq, hcb⟩ := h c mem_cons_self
      obtain ⟨d, s, hds⟩ : ∃ d s, body.flatMap Tok.raw ++ q :: r = d :: s :=
        exists_cons_of_ne_nil (by simp)
      rw [flatMap_cons, Tok.raw, append_assoc, singleton_append, hds, scanQuote, if_neg hcb, if_neg hcq, ← hds, ih]
      rfl
    | escaped c =>
      rw [flatMap_cons, Tok.raw, append_assoc, cons_append, singleton_append, scanQuote, if_pos rfl, ih]
      rfl

theorem unescape_raw (body : List Tok) (h : ∀ c, Tok.plain c ∈ body → c ≠ '\\') :
    unescape (body.flatMap Tok.raw) = body.map Tok.value := by
  induction body with
  | nil => rfl
  | cons t body ih =>
    have ih := ih fun c hc => h c (mem_cons_of_mem _ hc)
    cases t with
    | plain c =>
      have hc := h c mem_cons_self
      cases hb : body.flatMap Tok.raw with
      | nil =>
        rw [hb] at ih
        rw [flatMap_cons, hb, map_cons, ← ih]
        rfl
      | cons d s =>
        rw [hb] at ih
        rw [flatMap_cons, hb, map_cons, ← ih, Tok.raw, singleton_append, unescape, if_neg hc]
        rfl
    | escaped c =>
      rw [flatMap_cons, Tok.raw, cons_append, singleton_append, unescape, if_pos rfl, ih]
      rfl

theorem not_blank_of_isQuote {c : Char} (h : isQuote c = true) : isBlank c = false ∧ c ≠ '\\' ∧ c ≠ ',' := by
  simp only [isQuote, Bool.or_eq_true, decide_eq_true_eq] at h
  rcases h with rfl | rfl <;> decide

/-- `end_value_ptr` as a position in `s`: the text is measured after the escapes have been taken out of it. -/
def Quoted.endValue (s : List Char) (q : Quoted) : ℕ := (s.takeWhile fun c => !isQuote c).length + 1 + q.text.length + 1

section Quote
variable {before rest : List Char} {q : Char}

/-- A text between the quotes `q`, the first ones in `s`. -/
structure Quotes (s : List Char) (q : Char) (before : List Char) (body : List Tok) (rest : List Char) : Prop where
  eq : s = before ++ q :: (body.flatMap Tok.raw ++ q :: rest)
  quote : isQuote q = true
  before_plain : ∀ c ∈ before, isQuote c = false
  body_plain : ∀ c, Tok.plain c ∈ body → c ≠ q ∧ c ≠ '\\'

theorem Quotes.read {s : List Char} {body : List Tok} (h : Quotes s q before body rest) :
    getStringBetweenQuote s = some ⟨body.map Tok.value, rest, (body.flatMap Tok.raw).any (· = '\\')⟩ ∧
      (s.takeWhile fun c => !isQuote c) = before := by
  have hplain : ∀ c ∈ before, (!isQuote c) = true := fun c hc => by simp [h.before_plain c hc]
  have hdrop : s.dropWhile (fun c => !isQuote c) = q :: (body.flatMap Tok.raw ++ q :: rest) := by
    rw [h.eq, dropWhile_append_of_pos hplain, dropWhile_cons_of_neg (by simp [h.quote])]
  constructor
  · simp only [getStringBetweenQuote, hdrop, escape_raw body q (not_blank_of_isQuote h.quote).2.1 h.body_plain,
      Option.map_some,
      unescape_raw body fun c hc => (h.body_plain c hc).2]
  · rw [h.eq, takeWhile_append_of_pos hplain, takeWhile_cons_of_neg (by simp [h.quote]), append_nil]

theorem exists_toks {s t r : List Char} (h : scanQuote q s = some (t, r)) :
    ∃ body : List Tok, t = body.flatMap Tok.raw ∧ s = t ++ q :: r ∧ ∀ c, Tok.plain c ∈ body → c ≠ q ∧ c ≠ '\\' := by
  fun_induction scanQuote q s generalizing t with
  | case1 => cases h
  | case2 =>
    cases h
    exact ⟨[], rfl, rfl, nofun⟩
  | case3 => cases h
  | case4 d s ih =>
    obtain ⟨⟨t', r'⟩, hs, he⟩ := Option.map_eq_some_iff.mp h
    cases he
    obtain ⟨body, ht, hs', hbody⟩ := ih hs
    refine ⟨.escaped d :: body, by simp [Tok.raw, ← ht], by rw [hs']; rfl, fun c hc => hbody c ?_⟩
    simpa using hc
  | case5 =>
    cases h
    exact ⟨[], rfl, rfl, nofun⟩
  | case6 c d s hc hcq ih =>
    obtain ⟨⟨t', r'⟩, hs, he⟩ := Option.map_eq_some_iff.mp h
    cases he
    obtain ⟨body, ht, hs', hbody⟩ := ih hs
    refine ⟨.plain c :: body, by simp [Tok.raw, ← ht], by rw [hs']; rfl, fun e he => ?_⟩
    rcases mem_cons.mp he with he | he
    · cases he
      exact ⟨hcq, hc⟩
    · exact hbody e he

theorem getStringBetweenQuote_eq_none_iff (s : List Char) :
    getStringBetweenQuote s = none ↔ ¬ ∃ q before body rest, Quotes s q before body rest := by
  constructor
  · rintro hnone ⟨q, before, body, rest, h⟩
    rw [h.read.1] at hnone
    cases hnone
  · intro hno
    rw [getStringBetweenQuote]
    split
    · rfl
    · rename_i q s' hdrop
      rw [Option.map_eq_none_iff]
      by_contra hsome
      obtain ⟨⟨t, r⟩, hscan⟩ := Option.ne_none_iff_exists'.mp hsome
      have hquote : isQuote q = true := by
        simpa [hdrop] using head_dropWhile_not (fun c => !isQuote c) (l := s) (by simp [hdrop])
      obtain ⟨body, rfl, rfl, hbody⟩ := exists_toks hscan
      refine hno ⟨q, s.takeWhile fun c => !isQuote c, body, r, ?_, hquote, fun c hc => ?_, hbody⟩
      · rw [← hdrop, takeWhile_append_dropWhile]
      · simpa using mem_takeWhile_imp hc

def Tok.isEscaped : Tok → Bool
  | plain _ => false
  | escaped _ => true

theorem length_raw (body : List Tok) : (body.flatMap Tok.raw).length = body.length + body.countP Tok.isEscaped := by
  induction body with
  | nil => rfl
  | cons t body ih =>
    rw [flatMap_cons, length_append, ih, length_cons, countP_cons]
    cases t with
    | plain c =>
      simp only [Tok.raw, Tok.isEscaped, length_singleton, Bool.false_eq_true, if_false]
      omega
    | escaped c =>
      simp only [Tok.raw, Tok.isEscaped, length_cons, length_nil, if_true]
      omega

/-- **A quoted text is read back and the position behind it is that behind the quote** exactly if nothing in it is escaped;
nothing is read exactly if no text between quotes follows. -/
theorem readBack_iff (s : List Char) : (getStringBetweenQuote s = none ↔ ¬ ∃ q before body rest,
    Quotes s q before body rest) ∧
    ∀ q before body rest, Quotes s q before body rest →
      ((∃ r, getStringBetweenQuote s = some r ∧ r.text = body.map Tok.value ∧
          r.endValue s = (before ++ q :: (body.flatMap Tok.raw ++ [q])).length) ↔ ∀ t ∈ body, t.isEscaped = false) := by
  refine ⟨getStringBetweenQuote_eq_none_iff s, fun q before body rest h => ?_⟩
  have hnone : (∀ t ∈ body, t.isEscaped = false) ↔ body.countP Tok.isEscaped = 0 := by
    simp [countP_eq_zero]
  have hraw := length_raw body
  obtain ⟨hread, hbefore⟩ := h.read
  rw [hnone]
  constructor
  · rintro ⟨r, hr, -, hend⟩
    rw [hread] at hr
    cases hr
    simp only [Quoted.endValue, hbefore, length_append, length_cons, length_map] at hend
    omega
  · intro hzero
    refine ⟨_, hread, rfl, ?_⟩
    simp only [Quoted.endValue, hbefore, length_append, length_cons, length_map, length_nil]
    omega

/-- Behind `'a\'b' x` the position is that of the closing quote and not the one behind it. -/
theorem readBack_short : (getStringBetweenQuote "'a\\'b' x".toList).map (fun r => (r.text, r.endValue "'a\\'b' x".toList)) =
    some ("a'b".toList, 5) := by
  decide

end Quote

end TSpider.Connect

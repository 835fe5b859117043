import Mathlib.Order.Lattice

/-!
# Interval trees of the range analyser

A `SelArg` is a red-black tree of disjoint intervals of one key part, and each interval may carry a tree for a later key
part (`next_key_part`). NULL is the first value of a column.

* `SelArg.Sat` : a row satisfies the condition of the tree;
* `SelArg.WellFormed` : the intervals of a tree are of one key part and ascend, and the trees at them are of later parts;
* `storeKey` : `store_min_key` and `store_max_key`, for the two sides of an interval.
-/

namespace TSpider.Prune
open List

inductive Side
  | min
  | max
  deriving DecidableEq, Repr

/-- `NO_MIN_RANGE` and `NEAR_MIN`, or `NO_MAX_RANGE` and `NEAR_MAX`. -/
structure Flag where
  no : Bool
  near : Bool
  deriving DecidableEq, Repr

def Flag.zero : Flag := ⟨false, false⟩

def Flag.or (a b : Flag) : Flag := ⟨a.no || b.no, a.near || b.near⟩

structure Bound (V : Type) where
  flag : Flag
  value : V
  deriving DecidableEq, Repr

structure Interval (V : Type) where
  min : Bound V
  max : Bound V
  deriving DecidableEq, Repr

variable {V : Type}

def Interval.bound (iv : Interval V) : Side → Bound V
  | .min => iv.min
  | .max => iv.max

inductive SelArg (V : Type)
  | nullElement
  | node (part : Nat) (iv : Interval V) (left right nextKeyPart : SelArg V)
  deriving DecidableEq, Repr

namespace SelArg

def isNull : SelArg V → Bool
  | nullElement => true
  | node .. => false

def part : SelArg V → Nat
  | nullElement => 0
  | node part .. => part

def intervals : SelArg V → List (Interval V)
  | nullElement => []
  | node _ iv left right _ => left.intervals ++ iv :: right.intervals

def child (left right : SelArg V) : Side → SelArg V
  | .min => left
  | .max => right

end SelArg

/-! ## Keys -/

/-- `store_min` and `store_max`: what they append to the key. -/
def stored (b : Bound V) (keyFlag : Flag) : List V :=
  if !b.flag.no && !(keyFlag.no || keyFlag.near) then [b.value] else []

/-- `store_min_key` and `store_max_key`, with the number of partitioning fields: the key and its flags. -/
def storeKey (side : Side) (parts : Nat) : SelArg V → List V × Flag → List V × Flag
  | .nullElement, k => k
  | .node part iv left right next, k =>
    let flag := k.2.or (iv.bound side).flag
    let own := (k.1 ++ stored (iv.bound side) k.2, flag)
    let here :=
      if !next.isNull && part + 1 != parts && next.part == part + 1 && !(flag.no || flag.near) then
        storeKey side parts next own
      else own
    match side with
    | .min => if left.isNull then here else storeKey side parts left k
    | .max => if right.isNull then here else storeKey side parts right k

section Order

variable [LinearOrder V]

def Side.lt : Side → V → V → Prop
  | .min, a, b => a < b
  | .max, a, b => b < a

def Bound.Ok (side : Side) (b : Bound V) (v : V) : Prop :=
  b.flag.no = true ∨ side.lt b.value v ∨ b.flag.near = false ∧ b.value = v

def Interval.Ok (iv : Interval V) (v : V) : Prop := ∀ side, (iv.bound side).Ok side v

def SelArg.Sat (vals : Nat → V) : SelArg V → Prop
  | nullElement => False
  | node part iv left right next =>
    left.Sat vals ∨ right.Sat vals ∨ iv.Ok (vals part) ∧ (next.isNull = true ∨ next.Sat vals)

structure Interval.Proper (iv : Interval V) : Prop where
  near : ∀ side, (iv.bound side).flag.no = true → (iv.bound side).flag.near = false
  ordered : iv.min.flag.no = false → iv.max.flag.no = false →
    iv.min.value < iv.max.value ∨ iv.min.value = iv.max.value ∧ iv.min.flag.near = false ∧ iv.max.flag.near = false

structure Interval.Before (i j : Interval V) : Prop where
  max : i.max.flag.no = false
  min : j.min.flag.no = false
  apart : i.max.value < j.min.value ∨ i.max.value = j.min.value ∧ (i.max.flag.near = true ∨ j.min.flag.near = true)

inductive SelArg.WellFormed : SelArg V → Prop
  | nullElement : WellFormed .nullElement
  | node {part : Nat} {iv : Interval V} {left right next : SelArg V} (hleft : WellFormed left) (hright : WellFormed right)
      (hnext : WellFormed next) (proper : iv.Proper) (leftPart : left.isNull = false → left.part = part)
      (rightPart : right.isNull = false → right.part = part) (nextPart : next.isNull = false → part < next.part)
      (leftBefore : ∀ j ∈ left.intervals, j.Before iv) (rightAfter : ∀ j ∈ right.intervals, iv.Before j) :
      WellFormed (.node part iv left right next)

/-- The values from a key part on are not beyond the key, in the lexicographic order. -/
def Above (side : Side) (near : Bool) (vals : Nat → V) : Nat → List V → Prop
  | _, [] => near = false
  | i, k :: ks => side.lt k (vals i) ∨ k = vals i ∧ Above side near vals (i + 1) ks

/-! ## Intervals in order -/

variable {side : Side} {vals : Nat → V} {t : SelArg V}

def Interval.Inside (side : Side) (iv : Interval V) (v : V) : Prop :=
  (iv.bound side).flag.no = true ∨ side.lt (iv.bound side).value v

theorem Interval.Before.trans {i j k : Interval V} (hij : i.Before j) (hj : j.Proper) (hjk : j.Before k) : i.Before k := by
  refine ⟨hij.max, hjk.min, ?_⟩
  have hmid := hj.ordered hij.min hjk.max
  have hle := hmid.elim le_of_lt fun h => h.1.le
  rcases hij.apart with hlt | ⟨heq, hn⟩
  · exact .inl (hlt.trans_le (hle.trans (hjk.apart.elim le_of_lt fun h => h.1.le)))
  · rw [heq]
    rcases hjk.apart with hlt | ⟨heq', -⟩
    · exact .inl (hle.trans_lt hlt)
    · rw [← heq']
      refine hmid.imp_right fun h => ⟨h.1, hn.imp_right fun hmin => ?_⟩
      rw [h.2.1] at hmin
      cases hmin

/-- `i` comes before `j` on the side. -/
def Interval.Ahead (side : Side) (i j : Interval V) : Prop := match side with
  | .min => i.Before j
  | .max => j.Before i

theorem Interval.Ahead.trans {i j k : Interval V} (h : i.Ahead side j) (hj : j.Proper) (h' : j.Ahead side k) :
    i.Ahead side k := by
  cases side with
  | min => exact Before.trans h hj h'
  | max => exact Before.trans h' hj h

theorem Interval.Ahead.inside {i j : Interval V} {v : V} (h : i.Ahead side j) (hi : i.Proper) (hv : j.Ok v) :
    i.Inside side v := by
  refine or_iff_not_imp_left.mpr fun hno => ?_
  -- The bound of `j` is not before that of `i`, and does not belong to `j` if they are equal.
  obtain ⟨hj, hij⟩ : (j.bound side).flag.no = false ∧ (side.lt (i.bound side).value (j.bound side).value ∨
      (i.bound side).value = (j.bound side).value ∧ (j.bound side).flag.near = true) := by
    cases side with
    | min =>
      refine ⟨Before.min h, ?_⟩
      rcases hi.ordered (by simpa [bound] using hno) (Before.max h) with hlt | ⟨heq, -, hnear⟩
      · exact .inl ((Before.apart h).elim hlt.trans fun h => h.1 ▸ hlt)
      · exact (Before.apart h).imp (heq ▸ ·) fun h => ⟨heq.trans h.1, h.2.resolve_left (by simp [hnear])⟩
    | max =>
      refine ⟨Before.max h, ?_⟩
      rcases hi.ordered (Before.min h) (by simpa [bound] using hno) with hlt | ⟨heq, hnear, -⟩
      · exact .inl ((Before.apart h).elim (lt_trans · hlt) fun h => h.1 ▸ hlt)
      · exact (Before.apart h).imp (heq ▸ ·) fun h => ⟨(h.1.trans heq).symm, h.2.resolve_right (by simp [hnear])⟩
  rcases (hv side).resolve_left (by simp [hj]) with hlt | ⟨hnear, rfl⟩
  · refine hij.elim (fun h => ?_) fun h => h.1 ▸ hlt
    cases side with
    | min => exact lt_trans h hlt
    | max => exact lt_trans hlt h
  · exact hij.resolve_right (by simp [hnear])

theorem SelArg.isNull_of_sat (h : t.Sat vals) : t.isNull = false := by
  cases t with
  | nullElement => exact h.elim
  | node => rfl

theorem SelArg.Sat.exists_interval (hw : t.WellFormed) (hs : t.Sat vals) : ∃ iv ∈ t.intervals, iv.Ok (vals t.part) := by
  induction hw with
  | nullElement => exact hs.elim
  | @node part iv left right next _ _ _ _ leftPart rightPart _ _ _ ihl ihr _ =>
    rcases hs with h | h | h
    · obtain ⟨j, hj, hok⟩ := ihl h
      exact ⟨j, mem_append_left _ hj, leftPart (isNull_of_sat h) ▸ hok⟩
    · obtain ⟨j, hj, hok⟩ := ihr h
      exact ⟨j, mem_append_right _ (mem_cons_of_mem _ hj), rightPart (isNull_of_sat h) ▸ hok⟩
    · exact ⟨iv, mem_append_right _ mem_cons_self, h.1⟩

theorem SelArg.WellFormed.proper (hw : t.WellFormed) : ∀ j ∈ t.intervals, j.Proper := by
  induction hw with
  | nullElement => intro j hj; cases hj
  | @node part iv left right next _ _ _ proper _ _ _ _ _ ihl ihr _ =>
    intro j hj
    rcases mem_append.mp hj with hj | hj
    · exact ihl j hj
    · rcases mem_cons.mp hj with rfl | hj
      · exact proper
      · exact ihr j hj

/-! ## The stored key -/

theorem Above.append {near : Bool} {ks : List V} : ∀ {n i : Nat}, Above side near vals (i + n) ks →
    Above side near vals i ((List.range' i n).map vals ++ ks)
  | 0, _, h => h
  | n + 1, i, h => by
    rw [range'_succ, map_cons, cons_append]
    exact .inr ⟨rfl, Above.append (by rwa [Nat.add_assoc, Nat.add_comm 1])⟩

section Rule
omit [LinearOrder V]

theorem storeKey_rule {Q : List V × Flag → Prop} {parts part : Nat} {iv : Interval V} {left right next : SelArg V}
    (k : List V × Flag)
    (hown : ∀ goOn : Bool, (goOn = true → ((k.2.or (iv.bound side).flag).no || (k.2.or (iv.bound side).flag).near) = false ∧
        next.isNull = false ∧ next.part = part + 1) → (SelArg.child left right side).isNull = true →
      Q (if goOn then storeKey side parts next (k.1 ++ stored (iv.bound side) k.2, k.2.or (iv.bound side).flag)
        else (k.1 ++ stored (iv.bound side) k.2, k.2.or (iv.bound side).flag)))
    (hchild : (SelArg.child left right side).isNull = false → Q (storeKey side parts (SelArg.child left right side) k)) :
    Q (storeKey side parts (.node part iv left right next) k) := by
  have hsplit : ∀ (b : Bool) {x y : List V × Flag}, (b = true → Q x) → (b = false → Q y) → Q (if b then x else y) :=
    fun b _ _ hx hy => by
      cases b
      exacts [hy rfl, hx rfl]
  have hgo : ∀ {b : Bool}, (!next.isNull && part + 1 != parts && next.part == part + 1 && !b) = true →
      b = false ∧ next.isNull = false ∧ next.part = part + 1 := fun h => by
    simp only [Bool.and_eq_true, Bool.not_eq_true', beq_iff_eq] at h
    exact ⟨h.2, h.1.1.1, h.1.2⟩
  cases side with
  | min | max =>
    rw [storeKey]
    exact hsplit _ (hown _ hgo) hchild

theorem storeKey_append (side : Side) (parts : Nat) (t : SelArg V) (k : List V × Flag) :
    ∃ ks, (storeKey side parts t k).1 = k.1 ++ ks := by
  induction t generalizing k with
  | nullElement => exact ⟨[], (append_nil _).symm⟩
  | node part iv left right next ihl ihr ihn =>
    refine storeKey_rule (Q := fun x => ∃ ks, x.1 = k.1 ++ ks) k (fun goOn _ _ => ?_) fun _ => ?_
    · cases goOn with
      | false => exact ⟨_, rfl⟩
      | true =>
        obtain ⟨ks, hks⟩ := ihn (k.1 ++ stored (iv.bound side) k.2, k.2.or (iv.bound side).flag)
        exact ⟨_, hks.trans (append_assoc ..)⟩
    · cases side with
      | min => exact ihl k
      | max => exact ihr k

end Rule

/-- The key has been continued, and the row is not beyond what was added. -/
def Continued (side : Side) (vals : Nat → V) (part : Nat) (key : List V) (k : List V × Flag) : Prop :=
  ∃ ks, k.1 = key ++ ks ∧ Above side k.2.near vals part ks

/-- The row is strictly inside of the edge interval's bound; or at the bound, and the rest of the key is continued. -/
theorem continued_edge (parts : Nat) {part : Nat} {iv : Interval V} (next : SelArg V) (key : List V) (goOn : Bool)
    (hp : iv.Proper) (hgo : goOn = true → (iv.bound side).flag = .zero)
    (hv : iv.Inside side (vals part) ∨ (iv.bound side).flag.near = false ∧ (iv.bound side).value = vals part ∧
      (goOn = true → Continued side vals (part + 1) (key ++ [(iv.bound side).value])
        (storeKey side parts next (key ++ [(iv.bound side).value], .zero)))) : Continued side vals part key
      (if goOn then storeKey side parts next (key ++ stored (iv.bound side) .zero, (iv.bound side).flag)
        else (key ++ stored (iv.bound side) .zero, (iv.bound side).flag)) := by
  by_cases hno : (iv.bound side).flag.no = true
  · have hstop : goOn = false := by
      cases goOn with
      | false => rfl
      | true => rw [hgo rfl] at hno; cases hno
    subst hstop
    exact ⟨[], by simp [stored, hno], hp.near side hno⟩
  · have hst : stored (iv.bound side) .zero = [(iv.bound side).value] := by simp [stored, hno, Flag.zero]
    rw [hst]
    have hv := hv.imp_left fun h => h.resolve_left hno
    cases goOn with
    | false =>
      refine ⟨_, rfl, ?_⟩
      exact hv.imp id fun h => ⟨h.2.1, h.1⟩
    | true =>
      rw [hgo rfl, if_pos rfl]
      rcases hv with hlt | ⟨-, heq, hcont⟩
      · obtain ⟨ks, hks⟩ := storeKey_append side parts next (key ++ [(iv.bound side).value], .zero)
        exact ⟨_, hks.trans (append_assoc ..), .inl hlt⟩
      · obtain ⟨ks, hks, habove⟩ := hcont rfl
        exact ⟨_, hks.trans (append_assoc ..), .inr ⟨heq, habove⟩⟩

@[simp] theorem Flag.zero_or (f : Flag) : Flag.zero.or f = f := by simp [Flag.or, Flag.zero]

theorem Flag.eq_zero_of {f : Flag} (h : (f.no || f.near) = false) : f = .zero := by
  cases f
  simp_all [Flag.zero]

theorem continued_ok (parts : Nat) {part : Nat} {iv : Interval V} {next : SelArg V} (key : List V) (goOn : Bool)
    (hp : iv.Proper) (hzero : goOn = true → (iv.bound side).flag = .zero)
    (hgo : goOn = true → next.isNull = false ∧ next.part = part + 1) (hok : iv.Ok (vals part))
    (hnext : next.isNull = true ∨ ∀ key, Continued side vals next.part key (storeKey side parts next (key, .zero))) :
    Continued side vals part key
      (if goOn then storeKey side parts next (key ++ stored (iv.bound side) .zero, (iv.bound side).flag)
        else (key ++ stored (iv.bound side) .zero, (iv.bound side).flag)) := by
  refine continued_edge parts next key goOn hp hzero ?_
  rcases hok side with hno | hlt | ⟨hnear, heq⟩
  · exact .inl (.inl hno)
  · exact .inl (.inr hlt)
  · refine .inr ⟨hnear, heq, fun h => ?_⟩
    obtain ⟨hn, hpart⟩ := hgo h
    rw [← hpart]
    exact hnext.resolve_left (by simp [hn]) _

theorem storeKey_inside (hw : t.WellFormed) (side : Side) (parts : Nat) (key : List V)
    (hn : t.isNull = false) (hin : ∀ j ∈ t.intervals, j.Inside side (vals t.part)) :
    Continued side vals t.part key (storeKey side parts t (key, .zero)) := by
  induction hw with
  | nullElement => cases hn
  | @node part iv left right next _ _ _ proper leftPart rightPart _ _ _ ihl ihr _ =>
    refine storeKey_rule (key, .zero) (fun goOn hgo _ => ?_) fun hn => ?_
    · simp only [Flag.zero_or] at hgo ⊢
      exact continued_edge parts next key goOn proper (fun h => Flag.eq_zero_of (hgo h).1)
        (.inl (hin iv (mem_append_right _ mem_cons_self)))
    · cases side with
      | min =>
        rw [SelArg.part, ← leftPart hn]
        exact ihl hn fun j hj => leftPart hn ▸ hin j (mem_append_left _ hj)
      | max =>
        rw [SelArg.part, ← rightPart hn]
        exact ihr hn fun j hj => rightPart hn ▸ hin j (mem_append_right _ (mem_cons_of_mem _ hj))

/-- **The stored key bounds the tree**: a row that satisfies the tree is not beyond it. -/
theorem storeKey_above (hw : t.WellFormed) (side : Side) (parts : Nat) (key : List V) (hs : t.Sat vals) :
    Continued side vals t.part key (storeKey side parts t (key, .zero)) := by
  induction hw generalizing key with
  | nullElement => exact hs.elim
  | @node part iv left right next hleft hright _ proper leftPart rightPart _ leftBefore rightAfter ihl ihr ihn =>
    have hwf : ∀ s, (SelArg.child left right s).WellFormed ∧
        ((SelArg.child left right s).isNull = false → (SelArg.child left right s).part = part) := by
      rintro (_ | _)
      exacts [⟨hleft, leftPart⟩, ⟨hright, rightPart⟩]
    have hahead : ∀ j ∈ (SelArg.child left right side).intervals, j.Ahead side iv := by
      cases side
      exacts [leftBefore, rightAfter]
    -- The row is in the child on the side, or at the interval of the root, or in one that the root is ahead of.
    have hsat : (SelArg.child left right side).Sat vals ∨ (∃ k : Interval V, iv.Ahead side k ∧ k.Ok (vals part)) ∨
        iv.Ok (vals part) ∧ (next.isNull = true ∨ next.Sat vals) := by
      cases side with
      | min =>
        refine hs.imp_right (Or.imp_left fun h => ?_)
        obtain ⟨k, hk, hok⟩ := h.exists_interval hright
        exact ⟨k, rightAfter k hk, rightPart (SelArg.isNull_of_sat h) ▸ hok⟩
      | max =>
        refine (or_left_comm.mp hs).imp_right (Or.imp_left fun h => ?_)
        obtain ⟨k, hk, hok⟩ := h.exists_interval hleft
        exact ⟨k, leftBefore k hk, leftPart (SelArg.isNull_of_sat h) ▸ hok⟩
    refine storeKey_rule (key, .zero) (fun goOn hgo hn => ?_) fun hn => ?_
    · simp only [Flag.zero_or] at hgo ⊢
      have hzero := fun h => Flag.eq_zero_of (hgo h).1
      rcases hsat.resolve_left fun h => by simp [SelArg.isNull_of_sat h] at hn with ⟨k, hk, hok⟩ | ⟨hok, hnext⟩
      · exact continued_edge parts next key goOn proper hzero (.inl (hk.inside proper hok))
      · exact continued_ok parts key goOn proper hzero (fun h => (hgo h).2) hok (hnext.imp id fun h key => ihn key h)
    · rw [SelArg.part, ← (hwf side).2 hn]
      by_cases h : (SelArg.child left right side).Sat vals
      · cases side
        exacts [ihl key h, ihr key h]
      · refine storeKey_inside (hwf side).1 side parts key hn fun j hj => ?_
        rw [(hwf side).2 hn]
        have hjp := (hwf side).1.proper j hj
        rcases hsat.resolve_left h with ⟨k, hk, hok⟩ | ⟨hok, -⟩
        · exact ((hahead j hj).trans proper hk).inside hjp hok
        · exact (hahead j hj).inside hjp hok

end Order

end TSpider.Prune

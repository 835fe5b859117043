import TSpider.Range.Keys

/-!
# Which index ranges are kept on the way to the shard

* `KeyPart` : a column of the index with its interval; `Satisfies` : a row is in all intervals;
* `QuickRange.Fits` : the condition on the keys and intervals;
* `kept_iff` : the WHERE clause keeps the rows exactly under this condition.
-/

namespace TSpider.Range
open List

open Prune (Side Flag Bound Interval SelArg stored storeKey)

variable {W : Type}

structure KeyPart (W : Type) where
  nullable : Bool
  iv : Interval (WithBot W)
  near : ∀ side, (iv.bound side).flag.no = true → (iv.bound side).flag.near = false
  notNull : nullable = false → ∀ side, (iv.bound side).flag.no = false → (iv.bound side).value ≠ ⊥

def chain : Nat → List (KeyPart W) → SelArg (WithBot W)
  | _, [] => .nullElement
  | i, p :: ps => .node i p.iv .nullElement .nullElement (chain (i + 1) ps)

def quickKeys [DecidableEq W] (parts : List (KeyPart W)) : List (QuickRange (WithBot W)) :=
  getQuickKeys (chain 0 parts) ([], .zero) ([], .zero)

/-! ## The keys -/

def Bounds (side : Side) (parts : List (KeyPart W)) : Nat → List (WithBot W) → Prop
  | _, [] => True
  | i, k :: ks => (∃ p, parts[i]? = some p ∧ (p.iv.bound side).flag.no = false ∧ (p.iv.bound side).value = k) ∧
    Bounds side parts (i + 1) ks

section Keys
variable {parts : List (KeyPart W)} {ps : List (KeyPart W)} {i : Nat}

theorem drop_eq_cons {p : KeyPart W} (h : parts.drop i = p :: ps) : parts[i]? = some p ∧ parts.drop (i + 1) = ps := by
  constructor
  · rw [← List.head?_drop, h, List.head?_cons]
  · rw [← tail_drop, h, tail_cons]

theorem bounds_stored {p : KeyPart W} (hp : parts[i]? = some p) (side : Side) :
    Bounds side parts i (stored (p.iv.bound side) .zero) := by
  cases hno : (p.iv.bound side).flag.no with
  | true => simp [stored, hno, Bounds]
  | false =>
    simp only [stored, hno, Flag.zero, Bool.not_false, Bool.or_self, Bool.and_self, if_true]
    exact ⟨⟨p, hp, hno, rfl⟩, trivial⟩

theorem Bounds.cons_stored {p : KeyPart W} (hp : parts[i]? = some p) (side : Side)
    (hzero : (p.iv.bound side).flag = .zero) {ks : List (WithBot W)} (h : Bounds side parts (i + 1) ks) :
    Bounds side parts i (stored (p.iv.bound side) .zero ++ ks) := by
  rw [stored, hzero]
  exact ⟨⟨p, hp, by rw [hzero]; rfl, rfl⟩, h⟩

theorem storeKey_bounds (side : Side) (h : parts.drop i = ps) (key : List (WithBot W)) :
    ∃ ks, (storeKey side 0 (chain i ps) (key, .zero)).1 = key ++ ks ∧ Bounds side parts i ks := by
  induction ps generalizing i key with
  | nil => exact ⟨[], (append_nil _).symm, trivial⟩
  | cons p ps ih =>
    obtain ⟨hp, hps⟩ := drop_eq_cons h
    have hstore : storeKey side 0 (chain i (p :: ps)) (key, .zero) =
        if !(chain (i + 1) ps).isNull && i + 1 != 0 && (chain (i + 1) ps).part == i + 1 &&
            !((p.iv.bound side).flag.no || (p.iv.bound side).flag.near) then
          storeKey side 0 (chain (i + 1) ps) (key ++ stored (p.iv.bound side) .zero, (p.iv.bound side).flag)
        else (key ++ stored (p.iv.bound side) .zero, (p.iv.bound side).flag) := by
      cases side <;> simp [storeKey, chain, SelArg.isNull, Interval.bound]
    rw [hstore]
    split_ifs with hgo
    · rw [Bool.and_eq_true, Bool.not_eq_true'] at hgo
      have hzero := Flag.eq_zero_of hgo.2
      obtain ⟨ks, hks, hb⟩ := ih hps (key ++ stored (p.iv.bound side) .zero)
      rw [hzero, hks]
      exact ⟨_, append_assoc .., hb.cons_stored hp side hzero⟩
    · exact ⟨_, rfl, bounds_stored hp side⟩

theorem nextKey_bounds [DecidableEq W] (side : Side) {p : KeyPart W} (h : parts.drop i = p :: ps) (key : List (WithBot W)) :
    ∃ ks, (nextKey side (chain (i + 1) ps) (p.iv.bound side) (key ++ stored (p.iv.bound side) .zero)).1 = key ++ ks ∧
      Bounds side parts i ks := by
  obtain ⟨hp, hps⟩ := drop_eq_cons h
  unfold nextKey
  split_ifs with hzero
  · obtain ⟨ks, hks, hb⟩ := storeKey_bounds side hps (key ++ stored (p.iv.bound side) .zero)
    rw [hzero, hks]
    exact ⟨_, append_assoc .., hb.cons_stored hp side hzero⟩
  · exact ⟨_, rfl, bounds_stored hp side⟩

/-- **The keys of a range** are bounds of the intervals. -/
theorem getQuickKeys_bounds [DecidableEq W] (h : parts.drop i = ps)
    (min max : List (WithBot W)) {r : QuickRange (WithBot W)} (hr : r ∈ getQuickKeys (chain i ps) (min, .zero) (max, .zero)) :
    (∃ ks, r.minKey = min ++ ks ∧ Bounds .min parts i ks) ∧ ∃ ks, r.maxKey = max ++ ks ∧ Bounds .max parts i ks := by
  induction ps generalizing i min max with
  | nil => exact absurd hr not_mem_nil
  | cons p ps ih =>
    obtain ⟨hp, hps⟩ := drop_eq_cons h
    simp only [chain, getQuickKeys, nil_append, append_nil] at hr
    split_ifs at hr with hnext hconst
    · -- a constant key part
      obtain ⟨-, hmin, hmax⟩ := hconst
      rw [hmin, hmax] at hr
      obtain ⟨⟨ks, hks, hb⟩, ⟨ks', hks', hb'⟩⟩ := ih hps _ _ hr
      exact ⟨⟨_, hks.trans (append_assoc ..), hb.cons_stored hp .min hmin⟩,
        ⟨_, hks'.trans (append_assoc ..), hb'.cons_stored hp .max hmax⟩⟩
    · rw [mem_singleton] at hr
      subst hr
      exact ⟨nextKey_bounds .min h min, nextKey_bounds .max h max⟩
    · rw [mem_singleton] at hr
      subst hr
      exact ⟨⟨_, rfl, bounds_stored hp .min⟩, ⟨_, rfl, bounds_stored hp .max⟩⟩

theorem exists_quickRange {V : Type} [DecidableEq V] (t : SelArg V) (min max : List V × Flag) {r : QuickRange V}
    (hr : r ∈ getQuickKeys t min max) : ∃ kmin kmax, r = quickRange kmin kmax := by
  induction t generalizing min max with
  | nullElement => exact absurd hr not_mem_nil
  | node part iv left right next ihl ihr ihn =>
    rcases mem_append.mp hr with hr | hr
    · rcases mem_append.mp hr with hr | hr
      · exact ihl _ _ hr
      · split_ifs at hr
        · exact ihn _ _ hr
        · exact ⟨_, _, mem_singleton.mp hr⟩
        · exact ⟨_, _, mem_singleton.mp hr⟩
    · exact ihr _ _ hr

theorem eqRange_spec [DecidableEq W] {r : QuickRange (WithBot W)} (hr : r ∈ quickKeys parts) (heq : r.eqRange = true) :
    r.nearMin = false ∧ r.minKey ≠ [] ∧ r.minKey = r.maxKey := by
  obtain ⟨kmin, kmax, rfl⟩ := exists_quickRange _ _ _ hr
  simp only [quickRange, Bool.and_eq_true, Bool.not_eq_true', decide_eq_true_eq] at heq
  obtain ⟨⟨⟨⟨hnear, -⟩, hne⟩, -⟩, hkey⟩ := heq
  exact ⟨hnear, hne, hkey⟩

theorem both_mem [DecidableEq W] {sf ef : RKey} {ss es : List (WithBot W)} (hs : Bounds .min parts i ss)
    (he : Bounds .max parts i es) : ∀ a ∈ bothWhere sf ef i ss es, ∃ p, parts[a.1]? = some p := by
  induction ss generalizing i es with
  | nil =>
    cases es with
    | nil => simp [bothWhere]
    | cons e es =>
      obtain ⟨p, hp, -⟩ := he.1
      simp [bothWhere, hp]
  | cons s ss ih =>
    obtain ⟨p, hp, -⟩ := hs.1
    cases es with
    | nil => simp [bothWhere, hp]
    | cons e es =>
      have hrest := ih hs.2 he.2
      rw [bothWhere]
      dsimp only
      split_ifs
      · exact forall_mem_cons.mpr ⟨⟨p, hp⟩, hrest⟩
      · simp [hp]
      · exact forall_mem_cons.mpr ⟨⟨p, hp⟩, forall_mem_cons.mpr ⟨⟨p, hp⟩, hrest⟩⟩

theorem lone_mem {side : Side} {op : Cmp} {flag : RKey} {ks : List (WithBot W)} (hks : Bounds side parts i ks) :
    ∀ a ∈ loneWhere op flag i ks, ∃ p, parts[a.1]? = some p := by
  induction ks generalizing i with
  | nil => simp [loneWhere]
  | cons b ks ih =>
    obtain ⟨p, hp, -⟩ := hks.1
    cases ks with
    | nil => simp [loneWhere, hp]
    | cons b' ks =>
      rw [loneWhere]
      · exact forall_mem_cons.mpr ⟨⟨p, hp⟩, ih hks.2⟩
      · simp

end Keys

/-! ## One comparison -/

def startFlag (near : Bool) : RKey := if near then .afterKey else .keyOrNext

def endFlag (near : Bool) : RKey := if near then .beforeKey else .afterKey

theorem keyAtom_stops_start (near : Bool) (s : WithBot W) :
    (keyAtom (startFlag near).startCmp (startFlag near) s).stops = true ↔ near = true ∧ s ≠ ⊥ := by
  cases near <;> cases s <;> simp [startFlag, keyAtom, RKey.startCmp, Atom.stops, appendIsNull]

theorem keyAtom_stops_end (near : Bool) (e : WithBot W) :
    (keyAtom (endFlag near).endCmp (endFlag near) e).stops = true ↔ near = true ∧ e ≠ ⊥ := by
  cases near <;> cases e <;> simp [endFlag, keyAtom, RKey.endCmp, Atom.stops, appendIsNull]

section Order
variable [LinearOrder W]

def KeyPart.Has (p : KeyPart W) (v : WithBot W) : Prop := (p.nullable = false → v ≠ ⊥) ∧ p.iv.Ok v

variable (parts : List (KeyPart W))

def Satisfies (row : Nat → WithBot W) : Prop :=
  ∀ (i : Nat) (p : KeyPart W), parts[i]? = some p → p.Has (row i)

def Cmp.Holds : Cmp → WithBot W → WithBot W → Prop
  | eq, v, w => v = w
  | gt, v, w => w < v
  | ge, v, w => w ≤ v
  | lt, v, w => v < w
  | le, v, w => v ≤ w

def Atom.Holds : Atom W → WithBot W → Prop
  | isNull, v => v = ⊥
  | isNotNull, v => v ≠ ⊥
  | cmp op w, v => v ≠ ⊥ ∧ op.Holds v w

def Kept : Prop :=
  ∀ r ∈ quickKeys parts, ∀ row, Satisfies parts row → ∀ a ∈ r.keyWhere, a.2.Holds (row a.1)

/-- The comparison with a start key keeps the interval. An open one excludes its value in each column, and a NULL of a closed
one all others. -/
def FitsStart (near : Bool) (p : KeyPart W) (s : WithBot W) : Prop :=
  if near then ¬ p.Has s else s = ⊥ → ∀ v, p.Has v → v = ⊥

/-- The comparison with a value of the end key keeps the interval. It excludes NULL, and the value if the key is open. -/
def FitsEnd (near : Bool) (p : KeyPart W) (e : WithBot W) : Prop :=
  ¬ p.Has ⊥ ∧ (near = true → ¬ p.Has e)

variable {p : KeyPart W} {b v : WithBot W}

theorem eqAtom_holds (flag : RKey) : (eqAtom flag b).Holds v ↔ v = b := by
  cases b with
  | bot => exact Iff.rfl
  | coe w => exact ⟨fun h => h.2, fun h => ⟨h ▸ WithBot.coe_ne_bot, h⟩⟩

/-- **A comparison with the start key** keeps the interval. -/
theorem start_iff (near : Bool) (hle : ∀ v, p.Has v → b ≤ v) :
    (∀ v, p.Has v → (keyAtom (startFlag near).startCmp (startFlag near) b).Holds v) ↔ FitsStart near p b := by
  have hnot : (∀ v, p.Has v → v ≠ b) ↔ ¬ p.Has b := ⟨fun h hb => h b hb rfl, fun h v hv hvb => h (hvb ▸ hv)⟩
  cases near with
  | false =>
    cases b with
    | bot => exact ⟨fun h _ => h, fun h => h rfl⟩
    | coe w =>
      exact iff_of_true (fun v hv => ⟨((WithBot.bot_lt_coe w).trans_le (hle v hv)).ne', hle v hv⟩)
        fun h => absurd h WithBot.coe_ne_bot
  | true =>
    cases b with
    | bot => exact hnot
    | coe w =>
      refine Iff.trans ?_ hnot
      exact forall₂_congr fun v hv => ⟨fun h => h.2.ne', fun h =>
        ⟨((WithBot.bot_lt_coe w).trans_le (hle v hv)).ne', (hle v hv).lt_of_ne' h⟩⟩

/-- **A comparison with the end key** keeps the interval. -/
theorem end_iff (near : Bool) (hle : ∀ v, p.Has v → v ≤ b) :
    (∀ v, p.Has v → (keyAtom (endFlag near).endCmp (endFlag near) b).Holds v) ↔ FitsEnd near p b := by
  have hbot : (∀ v, p.Has v → v ≠ ⊥) ↔ ¬ p.Has ⊥ := ⟨fun h hb => h ⊥ hb rfl, fun h v hv hvb => h (hvb ▸ hv)⟩
  cases b with
  | bot =>
    refine Iff.trans ?_ (hbot.trans ⟨fun h => ⟨h, fun _ => h⟩, fun h => h.1⟩)
    cases near <;> exact Iff.rfl
  | coe w =>
    cases near with
    | false =>
      refine Iff.trans ?_ (hbot.trans ⟨fun h => ⟨h, fun h => by cases h⟩, fun h => h.1⟩)
      exact forall₂_congr fun v hv => ⟨fun h => h.1, fun h => ⟨h, hle v hv⟩⟩
    | true =>
      constructor
      · exact fun h => ⟨hbot.mp fun v hv => (h v hv).1, fun _ hw => lt_irrefl _ (h w hw).2⟩
      · rintro ⟨hnull, hw⟩ v hv
        exact ⟨hbot.mpr hnull v hv, (hle v hv).lt_of_ne fun hvw => hw rfl (hvw ▸ hv)⟩

/-! ## The walk over the keys -/

def Keeps (a : Nat × Atom W) : Prop :=
  ∃ p, parts[a.1]? = some p ∧ ∀ v, p.Has v → a.2.Holds v

/-- The columns in which the keys agree are fixed; from the first other one on both are compared, until one is open or has
ended. -/
def FitsBoth (parts : List (KeyPart W)) (nearMin nearMax : Bool) : Nat → List (WithBot W) → List (WithBot W) → Prop
  | _, [], [] => True
  | i, s :: _, [] => ∀ p ∈ parts[i]?, FitsStart nearMin p s
  | i, [], e :: _ => ∀ p ∈ parts[i]?, FitsEnd nearMax p e
  | i, s :: ss, e :: es =>
    if s = e then FitsBoth parts nearMin nearMax (i + 1) ss es
    else (∀ p ∈ parts[i]?, FitsStart nearMin p s ∧ FitsEnd nearMax p e) ∧
      (nearMin = true ∧ s ≠ ⊥ ∨ nearMax = true ∧ e ≠ ⊥ ∨ FitsBoth parts nearMin nearMax (i + 1) ss es)

def FitsLone (parts : List (KeyPart W)) (last : KeyPart W → WithBot W → Prop) : Nat → List (WithBot W) → Prop
  | _, [] => True
  | i, [v] => ∀ p ∈ parts[i]?, last p v
  | i, v :: vs => (∀ p ∈ parts[i]?, ∀ x, p.Has x → x = v) ∧ FitsLone parts last (i + 1) vs

def QuickRange.Fits (r : QuickRange (WithBot W)) : Prop :=
  if r.eqRange then True
  else if r.maxKey = [] then FitsLone parts (FitsStart r.nearMin) 0 r.minKey
  else if r.minKey = [] then FitsLone parts (FitsEnd r.nearMax) 0 r.maxKey
  else FitsBoth parts r.nearMin r.nearMax 0 r.minKey r.maxKey

section Walk
variable {parts : List (KeyPart W)} {ks : List (WithBot W)} {i : Nat}

theorem keeps_iff (hp : parts[i]? = some p) (a : Atom W) : Keeps parts (i, a) ↔ ∀ v, p.Has v → a.Holds v := by
  constructor
  · rintro ⟨q, hq, h⟩
    obtain rfl : p = q := Option.some.inj (hp.symm.trans hq)
    exact h
  · exact fun h => ⟨p, hp, h⟩

theorem Bounds.le_min (h : Bounds .min parts i (b :: ks)) (hp : parts[i]? = some p) : ∀ v, p.Has v → b ≤ v := by
  obtain ⟨⟨q, hq, hno, rfl⟩, -⟩ := h
  obtain rfl : p = q := Option.some.inj (hp.symm.trans hq)
  intro v hv
  rcases hv.2 .min with h | h | ⟨-, h⟩
  · rw [hno] at h
    cases h
  · exact le_of_lt h
  · exact h.le

theorem Bounds.max_le (h : Bounds .max parts i (b :: ks)) (hp : parts[i]? = some p) : ∀ v, p.Has v → v ≤ b := by
  obtain ⟨⟨q, hq, hno, rfl⟩, -⟩ := h
  obtain rfl : p = q := Option.some.inj (hp.symm.trans hq)
  intro v hv
  rcases hv.2 .max with h | h | ⟨-, h⟩
  · rw [hno] at h
    cases h
  · exact le_of_lt h
  · exact h.ge

/-- **Both keys.** -/
theorem both_iff (nearMin nearMax : Bool) {ss es : List (WithBot W)} (hs : Bounds .min parts i ss)
    (he : Bounds .max parts i es) : (∀ a ∈ bothWhere (startFlag nearMin) (endFlag nearMax) i ss es, Keeps parts a) ↔
      FitsBoth parts nearMin nearMax i ss es := by
  induction ss generalizing i es with
  | nil =>
    cases es with
    | nil => simp [bothWhere, FitsBoth]
    | cons e es =>
      obtain ⟨p, hp, -⟩ := he.1
      simp [bothWhere, FitsBoth, hp, keeps_iff hp, end_iff nearMax (he.max_le hp)]
  | cons s ss ih =>
    obtain ⟨p, hp, -⟩ := hs.1
    have hmin := hs.le_min hp
    cases es with
    | nil => simp [bothWhere, FitsBoth, hp, keeps_iff hp, start_iff nearMin hmin]
    | cons e es =>
      have hmax := he.max_le hp
      rw [bothWhere, FitsBoth]
      by_cases hse : s = e
      · -- the column is fixed by both bounds
        subst hse
        have hfix : Keeps parts (i, eqAtom (startFlag nearMin) s) :=
          ⟨p, hp, fun v hv => (eqAtom_holds _).mpr (le_antisymm (hmax v hv) (hmin v hv))⟩
        rw [if_pos rfl, if_pos rfl, forall_mem_cons, ih hs.2 he.2]
        exact and_iff_right hfix
      · simp only [hse, if_false, forall_mem_cons, keeps_iff hp, start_iff nearMin hmin, end_iff nearMax hmax,
          keyAtom_stops_start, keyAtom_stops_end, hp, Option.mem_def, Option.some.injEq, forall_eq', and_assoc]
        refine and_congr_right fun _ => and_congr_right fun _ => ?_
        split_ifs with hstop
        · exact iff_of_true (by simp) (hstop.imp_right .inl)
        · rw [not_or] at hstop
          rw [ih hs.2 he.2, or_iff_right hstop.1, or_iff_right hstop.2]

/-- **A key without partner.** -/
theorem lone_iff {side : Side} {op : Cmp} {flag : RKey} {last : KeyPart W → WithBot W → Prop}
    (hlast : ∀ i p b, parts[i]? = some p → Bounds side parts i [b] →
      ((∀ v, p.Has v → (keyAtom op flag b).Holds v) ↔ last p b))
    (hks : Bounds side parts i ks) : (∀ a ∈ loneWhere op flag i ks, Keeps parts a) ↔ FitsLone parts last i ks := by
  induction ks generalizing i with
  | nil => simp [loneWhere, FitsLone]
  | cons b ks ih =>
    obtain ⟨p, hp, hb⟩ := hks.1
    cases ks with
    | nil => simp [loneWhere, FitsLone, hp, keeps_iff hp, hlast i p b hp ⟨⟨p, hp, hb⟩, trivial⟩]
    | cons b' ks =>
      rw [loneWhere, FitsLone, forall_mem_cons, ih hks.2, keeps_iff hp]
      · simp [hp, eqAtom_holds]
      · simp
      · simp

theorem exact_keeps (hmin : Bounds .min parts i ks) (hmax : Bounds .max parts i ks) :
    ∀ a ∈ loneWhere .eq .keyExact i ks, Keeps parts a := by
  induction ks generalizing i with
  | nil => simp [loneWhere]
  | cons b ks ih =>
    obtain ⟨p, hp, -⟩ := hmin.1
    have hfix : Keeps parts (i, eqAtom .keyExact b) :=
      ⟨p, hp, fun v hv => (eqAtom_holds _).mpr (le_antisymm (hmax.max_le hp v hv) (hmin.le_min hp v hv))⟩
    have hrest := ih hmin.2 hmax.2
    cases ks with
    | nil =>
      have hatom : keyAtom .eq .keyExact b = eqAtom .keyExact b := by cases b <;> rfl
      simpa [loneWhere, hatom] using hfix
    | cons b' ks =>
      rw [loneWhere]
      · exact forall_mem_cons.mpr ⟨hfix, hrest⟩
      · simp

/-- **The WHERE clause of a range.** -/
theorem keyWhere_iff {r : QuickRange (WithBot W)} (hr : r ∈ quickKeys parts) :
    (∀ a ∈ r.keyWhere, ∃ p, parts[a.1]? = some p) ∧ ((∀ a ∈ r.keyWhere, Keeps parts a) ↔ r.Fits parts) := by
  obtain ⟨⟨ks, hmin, hbmin⟩, ⟨ks', hmax, hbmax⟩⟩ := getQuickKeys_bounds (drop_zero) [] [] hr
  subst hmin hmax
  unfold QuickRange.keyWhere QuickRange.Fits
  by_cases heq : r.eqRange = true
  · obtain ⟨hnear, hne, hkey⟩ := eqRange_spec hr heq
    have hend : r.minEndpoint = some ⟨r.minKey, .keyExact⟩ := by
      rw [QuickRange.minEndpoint, if_neg hne, hnear, heq]
      rfl
    rw [if_pos heq, if_pos heq, hend]
    exact ⟨lone_mem hbmin, iff_true_intro (exact_keeps hbmin (hkey ▸ hbmax))⟩
  · rw [if_neg heq, if_neg heq]
    have hstart : r.minEndpoint = if r.minKey = [] then none else some ⟨r.minKey, startFlag r.nearMin⟩ := by
      simp only [QuickRange.minEndpoint, heq, startFlag, Bool.false_eq_true, if_false]
    have hend : r.maxEndpoint = if r.maxKey = [] then none else some ⟨r.maxKey, endFlag r.nearMax⟩ := rfl
    rw [hstart, hend]
    by_cases hmax : r.maxKey = []
    · rw [if_pos hmax, if_pos hmax]
      by_cases hmin : r.minKey = []
      · rw [if_pos hmin, hmin]
        simp [appendKeyWhere, FitsLone]
      · rw [if_neg hmin]
        exact ⟨lone_mem hbmin, lone_iff (fun i p b hp hb => start_iff _ (hb.le_min hp)) hbmin⟩
    · rw [if_neg hmax, if_neg hmax]
      by_cases hmin : r.minKey = []
      · rw [if_pos hmin, if_pos hmin]
        exact ⟨lone_mem hbmax, lone_iff (fun i p b hp hb => end_iff _ (hb.max_le hp)) hbmax⟩
      · rw [if_neg hmin, if_neg hmin, appendKeyWhere, if_neg (by simp [hmin, hmax])]
        exact ⟨both_mem hbmin hbmax, both_iff r.nearMin r.nearMax hbmin hbmax⟩

theorem holds_iff_keeps {row : Nat → WithBot W} (hrow : Satisfies parts row) {l : List (Nat × Atom W)}
    (hl : ∀ a ∈ l, ∃ p, parts[a.1]? = some p) :
    (∀ row, Satisfies parts row → ∀ a ∈ l, a.2.Holds (row a.1)) ↔ ∀ a ∈ l, Keeps parts a := by
  constructor
  · intro h a ha
    obtain ⟨p, hp⟩ := hl a ha
    refine ⟨p, hp, fun v hv => ?_⟩
    have hnew : Satisfies parts (Function.update row a.1 v) := by
      intro i q hq
      by_cases hia : i = a.1
      · subst hia
        obtain rfl : p = q := Option.some.inj (hp.symm.trans hq)
        rwa [Function.update_self]
      · rw [Function.update_of_ne hia]
        exact hrow i q hq
    have := h _ hnew a ha
    rwa [Function.update_self] at this
  · intro h row hrow a ha
    obtain ⟨p, hp, hholds⟩ := h a ha
    exact hholds _ (hrow a.1 p hp)

end Walk

end Order

def KeyPart.lower (near : Bool) (w : W) : KeyPart W where
  nullable := false
  iv := ⟨⟨⟨false, near⟩, w⟩, ⟨⟨true, false⟩, ⊥⟩⟩
  near side h := by cases side <;> trivial
  notNull _ side h := by
    cases side with
    | min => exact WithBot.coe_ne_bot
    | max => cases h

theorem KeyPart.lower_has [LinearOrder W] (near : Bool) {w x : W} (h : w < x) : (KeyPart.lower near w).Has x := by
  refine ⟨fun _ => WithBot.coe_ne_bot, fun side => ?_⟩
  cases side with
  | min => exact .inr (.inl (WithBot.coe_lt_coe.mpr h))
  | max => exact .inl rfl

/-- `a >= 1 AND b > 3`: the start key is (1, 3) and open, and there is no end key. -/
def openPair : List (KeyPart Nat) := [.lower false 1, .lower true 3]

end TSpider.Range

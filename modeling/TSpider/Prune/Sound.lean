import TSpider.Prune.Frame

/-!
# Pruning loses no row

Fix a row. `Ctx` says that the context of a call agrees with the row: the intervals on the stack contain its values, the
stored keys are its values, and in trees of sub-partitioning fields the iterator has its partition. In such a context a call
for a tree that the row satisfies marks the row's [sub]partition or answers `all`.
-/

namespace TSpider.Prune
open PartInfo List Bool

/-! ## Ascending lists -/

theorem eq_range'_of_ascending {l : List Nat} {lo n : Nat} (hl : l.Pairwise (· < ·)) (hlen : l.length = n)
    (h : ∀ x ∈ l, lo ≤ x ∧ x < lo + n) : l = List.range' lo n := by
  have hsub : l ⊆ List.range' lo n := fun x hx => mem_range'_1.mpr (h x hx)
  have hperm : l.Perm (List.range' lo n) :=
    (subperm_of_subset (hl.imp fun h => h.ne) hsub).perm_of_length_le (by simp [hlen])
  exact hperm.eq_of_pairwise (fun a b _ _ hab hba => absurd (hab.trans hba) (lt_irrefl a)) hl (pairwise_lt_range' ..)

theorem drop_of_ascending {α : Type} (f : α → Nat) (n : Nat) : ∀ {l : List α}, (l.map f).Pairwise (· < ·) →
    l.drop (l.length - l.countP (n ≤ f ·)) = l.filter (n ≤ f ·)
  | [], _ => rfl
  | a :: l, h => by
    rw [map_cons, pairwise_cons] at h
    have ih := drop_of_ascending f n h.2
    have hle := countP_le_length (l := l) (p := fun x => decide (n ≤ f x))
    by_cases ha : n ≤ f a
    · have hall : ∀ x ∈ l, decide (n ≤ f x) = true := fun x hx =>
        decide_eq_true (ha.trans (h.1 _ (mem_map_of_mem hx)).le)
      rw [countP_cons_of_pos (by simpa using ha), filter_cons_of_pos (by simpa using ha),
        filter_eq_self.mpr hall, countP_eq_length.mpr hall]
      simp
    · rw [countP_cons_of_neg (by simpa using ha), filter_cons_of_neg (by simpa using ha), ← ih, length_cons,
        Nat.succ_sub hle, drop_succ_cons]

variable {R V : Type} [LinearOrder V] {p : PartInfo R V} {r : R} {trees : List (SelArg V)}

theorem Interval.Ok.eq_of_isSinglepoint {iv : Interval V} {v : V} (h : iv.Ok v) (hs : iv.isSinglepoint = true) :
    iv.min.value = v := by
  simp only [Interval.isSinglepoint, and_eq_true, beq_iff_eq, decide_eq_true_eq] at hs
  obtain ⟨⟨hmin, hmax⟩, heq⟩ := hs
  have hlo : iv.min.value < v ∨ iv.min.value = v := by
    rcases h .min with h | h | h
    · rw [show (iv.bound .min).flag = .zero from hmin] at h; cases h
    · exact .inl h
    · exact .inr h.2
  have hhi : v < iv.max.value ∨ iv.max.value = v := by
    rcases h .max with h | h | h
    · rw [show (iv.bound .max).flag = .zero from hmax] at h; cases h
    · exact .inl h
    · exact .inr h.2
  rcases hlo with hlo | hlo
  · rcases hhi with hhi | hhi
    · exact absurd (hlo.trans hhi) (heq ▸ lt_irrefl _)
    · exact heq.trans hhi
  · exact hlo

/-! ## Contexts that agree with the row -/

/-- The context of a call for a tree of the key part `part` agrees with the row. -/
structure Ctx (p : PartInfo R V) (r : R) (part : Nat) (s : Ppar V) : Prop where
  ignore : s.ignorePartFields = false
  below : ∀ e ∈ s.argStack, e.1 < part
  ascending : (s.argStack.map Prod.fst).Pairwise (· < ·)
  fits : ∀ e ∈ s.argStack, e.2.Ok (p.value r e.1)
  curPart : s.curPartFields = s.argStack.countP (·.1 < p.partFields)
  curSub : s.curSubpartFields = s.argStack.countP (p.partFields ≤ ·.1)
  points : ∀ e ∈ s.argStack, p.partFields ≤ e.1 ∨ p.getPartIterForInterval = none → e.2.isSinglepoint = true
  iter : p.partFields ≤ part → p.part r ∈ s.partIter
  all : p.getPartIterForInterval = none → part < p.partFields → s.partIter = p.allPartitions
  keys : p.getPartIterForInterval ≠ none → part < p.partFields → (s.argStack.map Prod.fst).head?.getD part = 0 →
    ∀ side, s.curKey side = (List.range' 0 part).map (p.value r) ∧ s.curFlag side = .zero

theorem Ctx.frame {part : Nat} {s s' : Ppar V} (h : Ctx p r part s) (hf : Frame p part s s') : Ctx p r part s' where
  ignore := hf.keeps.ignorePartFields.trans h.ignore
  below := hf.keeps.argStack ▸ h.below
  ascending := hf.keeps.argStack ▸ h.ascending
  fits := hf.keeps.argStack ▸ h.fits
  curPart := by rw [hf.keeps.curPartFields, hf.keeps.argStack, h.curPart]
  curSub := by rw [hf.keeps.curSubpartFields, hf.keeps.argStack, h.curSub]
  points := hf.keeps.argStack ▸ h.points
  iter hp := by rw [hf.subIter hp]; exact h.iter hp
  all hn hp := hf.topIter hn (h.all hn hp)
  keys := by rw [hf.keeps.argStack, hf.keeps.curKey, hf.keeps.curFlag]; exact h.keys

theorem Ctx.push {part part' : Nat} {iv : Interval V} {s s' : Ppar V} (h : Ctx p r part s) (hlt : part < part')
    (hok : iv.Ok (p.value r part)) (hk : Keeps { p.push part iv s with curKey := s'.curKey, curFlag := s'.curFlag } s')
    (hpoint : p.partFields ≤ part ∨ p.getPartIterForInterval = none → iv.isSinglepoint = true)
    (hiter : p.partFields ≤ part' → p.part r ∈ s'.partIter)
    (hall : p.getPartIterForInterval = none → part' < p.partFields → s'.partIter = p.allPartitions)
    (hkeys : p.getPartIterForInterval ≠ none → part' < p.partFields → (s.argStack.map Prod.fst).head?.getD part = 0 →
      ∀ side, s'.curKey side = (List.range' 0 part').map (p.value r) ∧ s'.curFlag side = .zero) : Ctx p r part' s' := by
  have hstack : s'.argStack = s.argStack ++ [(part, iv)] := hk.argStack
  have hmem : ∀ {e}, e ∈ s'.argStack → e ∈ s.argStack ∨ e = (part, iv) := fun he => by
    rw [hstack] at he
    simpa using he
  refine ⟨hk.ignorePartFields.trans h.ignore, fun e he => ?_, ?_, fun e he => ?_, ?_, ?_, fun e he => ?_, hiter, hall, ?_⟩
  · rcases hmem he with he | rfl
    · exact (h.below e he).trans hlt
    · exact hlt
  · rw [hstack, map_append, pairwise_append]
    refine ⟨h.ascending, pairwise_singleton _ _, fun a ha b hb => ?_⟩
    obtain ⟨e, he, rfl⟩ := mem_map.mp ha
    rw [map_singleton, mem_singleton] at hb
    exact hb ▸ h.below e he
  · rcases hmem he with he | rfl
    · exact h.fits e he
    · exact hok
  · rw [hk.curPartFields, hstack, countP_append, ← h.curPart]
    simp [PartInfo.push, countP_singleton]
  · rw [hk.curSubpartFields, hstack, countP_append, ← h.curSub]
    by_cases hp : part < p.partFields <;> simp [PartInfo.push, hp, Nat.not_lt.mp]
  · rcases hmem he with he | rfl
    · exact h.points e he
    · exact hpoint
  · intro hget hp hhead
    refine hkeys hget hp ?_
    rw [hstack] at hhead
    cases hs : s.argStack with
    | nil => simpa [hs] using hhead
    | cons e l => simpa [hs] using hhead

/-! ## Marks -/

/-- The answer is `all`, or that partitions are used and the row's [sub]partition is marked. -/
def Found (p : PartInfo R V) (r : R) (res : Answer × Ppar V) : Prop :=
  res.1 = .all ∨ res.1 = .yes ∧ p.stored r ∈ res.2.readPartitions

theorem mem_allPartitions (p : PartInfo R V) (r : R) : p.part r ∈ p.allPartitions := mem_range.mpr (p.part_lt r)

theorem stored_mem_fullPartition (p : PartInfo R V) (r : R) : p.stored r ∈ p.fullPartition (p.part r) := by
  unfold PartInfo.stored PartInfo.fullPartition
  split_ifs with h
  · exact mem_map.mpr ⟨_, mem_range.mpr (p.subpart_lt r h), rfl⟩
  · exact mem_singleton.mpr rfl

theorem stored_mem_subpartitions {ids subs : List Nat} (h : p.subPartitioned = true) (hid : p.part r ∈ ids)
    (hsub : p.subpart r ∈ subs) : p.stored r ∈ p.subpartitions ids subs := by
  unfold PartInfo.stored PartInfo.subpartitions
  rw [if_pos h, mem_toFinset, mem_flatMap]
  refine ⟨_, hid, mem_map.mpr ⟨_, ?_, rfl⟩⟩
  exact mem_filter.mpr ⟨hsub, by simpa using p.subpart_lt r h⟩

theorem markFull_found (res : Answer × Ppar V) (h : Found p r res) (hiter : res.1 = .all → p.part r ∈ res.2.partIter) :
    Found p r (p.markFull res) := by
  right
  unfold markFull
  by_cases hall : res.1 = .all
  · rw [if_pos hall]
    refine ⟨if_neg (ne_nil_of_mem (hiter hall)), ?_⟩
    refine Finset.mem_union_right _ (mem_toFinset.mpr (mem_flatMap.mpr ⟨_, hiter hall, ?_⟩))
    exact stored_mem_fullPartition p r
  · rw [if_neg hall]
    exact h.resolve_left hall

/-! ## One interval -/

/-- The walk comes to the interval `iv` of `part`, which has the row's value, with `next` behind it. -/
structure Visited (p : PartInfo R V) (r : R) (part : Nat) (iv : Interval V) (next : SelArg V) (s : Ppar V) : Prop where
  ctx : Ctx p r part s
  proper : iv.Proper
  ok : iv.Ok (p.value r part)
  wf : next.WellFormed
  lt : next.isNull = false → part < next.part
  sat : next.SatOpt (p.value r)
  ih : next.Sat (p.value r) → ∀ s, Ctx p r next.part s → Found p r (p.findUsedPartitions next s)

section Visit

variable {part : Nat} {iv : Interval V} {next : SelArg V} {s : Ppar V}

theorem goOn_ignored {s : Ppar V} (hs : s.ignorePartFields = true) : (goOn next (p.findUsedPartitions next) s).1 = .all := by
  unfold goOn
  split_ifs with hn
  · rfl
  · exact findUsedPartitions_ignored next hs (eq_false_iff.mpr hn)

theorem goOn_found (hv : Visited p r part iv next s) {s' : Ppar V} (hctx : next.isNull = false → Ctx p r next.part s') :
    Found p r (goOn next (p.findUsedPartitions next) s') := by
  unfold goOn
  split_ifs with hn
  · exact .inl rfl
  · exact hv.ih (hv.sat.resolve_left hn) s' (hctx (eq_false_iff.mpr hn))

theorem goOn_iter (hw : next.WellFormed) (hp : next.isNull = false → p.partFields ≤ next.part) (s : Ppar V) :
    (goOn next (p.findUsedPartitions next) s).2.partIter = s.partIter := by
  unfold goOn
  split_ifs with hn
  · rfl
  · exact (findUsedPartitions_frame hw s).subIter (hp (eq_false_iff.mpr hn))

theorem rangeKey_within (hv : Visited p r part iv next s) (hget : p.getPartIterForInterval ≠ none)
    (hpart : part < p.partFields) (hhead : (s.argStack.map Prod.fst).head?.getD part = 0) :
    KeyRange.Within ⟨fun side => (p.rangeKey side part iv next (p.push part iv s)).1,
      fun side => (p.rangeKey side part iv next (p.push part iv s)).2.near⟩ (p.value r) := by
  intro side
  right
  obtain ⟨hkey, hflag⟩ := hv.ctx.keys hget hpart hhead side
  have hcont : Continued side (p.value r) part (s.curKey side) (p.rangeKey side part iv next (p.push part iv s)) := by
    have h : Continued side (p.value r) part (s.curKey side) _ := continued_ok p.partFields (s.curKey side)
      (p.continues next part && (iv.bound side).flag == .zero) hv.proper (fun h => by simpa using (and_eq_true_iff.mp h).2)
      (fun h => by
        simp only [continues, and_eq_true, not_eq_true', beq_iff_eq] at h
        exact h.1.1)
      hv.ok (hv.sat.imp id fun h key => storeKey_above hv.wf side p.partFields key h)
    unfold rangeKey
    simp only [push, hflag]
    split_ifs at h ⊢ with hgo
    · rwa [show (iv.bound side).flag = .zero by simpa using (and_eq_true_iff.mp hgo).2] at h
    · exact h
  obtain ⟨ks, hks, habove⟩ := hcont
  dsimp only
  rw [hks, hkey]
  exact Above.append (by simpa using habove)

/-- What the interval mapper says of the row: no limit, or an iterator with its partition. Where the keys do not start with
the first field it is not asked. -/
theorem mapped (hv : Visited p r part iv next s) {get : KeyRange V → Answer × List Nat}
    (hget : p.getPartIterForInterval = some get) (hpart : part < p.partFields) {got : Answer × List Nat}
    (hgot : got = if ((p.push part iv s).argStack.head?.any (·.1 == 0)) || p.versioning then
        get ⟨fun side => (p.rangeKey side part iv next (p.push part iv s)).1,
          fun side => (p.rangeKey side part iv next (p.push part iv s)).2.near⟩
      else (.all, (p.push part iv s).partIter)) : got.1 = .all ∨ got.1 = .yes ∧ p.part r ∈ got.2 := by
  split_ifs at hgot with hask
  · have hhead : (s.argStack.map Prod.fst).head?.getD part = 0 := by
      rcases or_eq_true_iff.mp hask with h | h
      · cases hs : s.argStack <;> simpa [push, hs] using h
      · -- Versioning has one field, so that nothing is on the stack.
        obtain rfl : part = 0 := by have := p.versioning_field h; omega
        cases hs : s.argStack with
        | nil => rfl
        | cons e l => exact absurd (hv.ctx.below e (by simp [hs])) (Nat.not_lt_zero _)
    subst hgot
    exact p.mapper_sound (by omega) get hget _ r
      (rangeKey_within hv (by rw [hget]; exact Option.some_ne_none _) hpart hhead)
  · exact .inl (by rw [hgot])

theorem keys_equality (hok : iv.Ok (p.value r part)) (hmin : iv.min.flag = .zero) (hmax : iv.max.flag = .zero)
    (heq : stored iv.min .zero = stored iv.max .zero) (side : Side) : stored (iv.bound side) .zero = [p.value r part] := by
  have hst : ∀ b : Bound V, b.flag = .zero → stored b .zero = [b.value] := fun b hb => by simp [stored, hb, Flag.zero]
  rw [hst _ hmin, hst _ hmax] at heq
  have hval : iv.min.value = iv.max.value := by simpa using heq
  have hv := hok.eq_of_isSinglepoint (by simp [Interval.isSinglepoint, hmin, hmax, hval])
  cases side with
  | min => rw [Interval.bound, hst _ hmin, hv]
  | max => rw [Interval.bound, hst _ hmax, ← hval, hv]

theorem visitPart_found (hv : Visited p r part iv next s) {get : KeyRange V → Answer × List Nat}
    (hget : p.getPartIterForInterval = some get) (hpart : part < p.partFields) :
    Found p r (p.visitPart get part iv next (p.findUsedPartitions next) (p.push part iv s)) := by
  have hnone : p.getPartIterForInterval ≠ none := by rw [hget]; exact Option.some_ne_none _
  unfold visitPart
  by_cases heq : (p.continues next part && decide (stored iv.min ((p.push part iv s).curFlag .min) =
      stored iv.max ((p.push part iv s).curFlag .max)) && iv.min.flag == .zero && iv.max.flag == .zero) = true
  · -- The next field continues the keys, with the row's value.
    rw [if_pos heq]
    simp only [continues, and_eq_true, not_eq_true', beq_iff_eq, decide_eq_true_eq] at heq
    obtain ⟨⟨⟨⟨⟨hn, hsucc⟩, hnp⟩, heq⟩, hmin⟩, hmax⟩ := heq
    refine hv.ih (hv.sat.resolve_left (by simp [hn])) _
      (hv.ctx.push (hv.lt hn) hv.ok ⟨rfl, rfl, rfl, rfl, rfl, rfl, subset_rfl⟩ ?_ ?_ ?_ ?_)
    · rintro (h | h)
      · omega
      · exact absurd h hnone
    · intro h; omega
    · intro h; exact absurd h hnone
    · intro _ _ hhead side
      obtain ⟨hkey, hflag⟩ := hv.ctx.keys hnone hpart hhead side
      have hzero : ∀ side, (p.push part iv s).curFlag side = .zero := fun side => (hv.ctx.keys hnone hpart hhead side).2
      rw [hzero, hzero] at heq
      have hbound : (iv.bound side).flag = .zero := by cases side; exacts [hmin, hmax]
      have hval := keys_equality hv.ok hmin hmax heq side
      refine ⟨?_, by simp [hzero, hbound]⟩
      simp only [hzero, hval]
      rw [show (p.push part iv s).curKey side = s.curKey side from rfl, hkey, hsucc, range'_concat, map_append]
      simp
  · rw [if_neg heq]
    dsimp only
    generalize hgot : (if ((p.push part iv s).argStack.head?.any (·.1 == 0)) || p.versioning then
        get ⟨fun side => (p.rangeKey side part iv next (p.push part iv s)).1,
          fun side => (p.rangeKey side part iv next (p.push part iv s)).2.near⟩
      else (.all, (p.push part iv s).partIter)) = got
    have hm := mapped hv hget hpart hgot.symm
    have hiter : p.part r ∈ (if got.1 = .all then p.allPartitions else got.2) := by
      split_ifs with h
      · exact mem_allPartitions p r
      · exact (hm.resolve_left h).2
    rw [if_neg (by rcases hm with h | h <;> simp [h])]
    by_cases hlast : part + 1 < p.partFields
    · -- The rest of the partitioning fields is ignored, so that the whole partitions are marked.
      have hall : ∀ s : Ppar V, (ignoring (decide (part + 1 < p.partFields))
          (goOn next (p.findUsedPartitions next)) s).1 = .all := fun s => by
        rw [decide_eq_true hlast]
        exact goOn_ignored rfl
      refine markFull_found _ (.inl (hall _)) fun _ => ?_
      have hframe : ∀ s, Frame p 0 s (goOn next (p.findUsedPartitions next) s).2 :=
        goOn_frame fun _ s => (findUsedPartitions_frame hv.wf s).mono (Nat.zero_le _)
      rw [decide_eq_true hlast, ignoring_partIter hframe]
      exact hiter
    · rw [decide_eq_false hlast]
      have hsub : next.isNull = false → p.partFields ≤ next.part := fun hn => by have := hv.lt hn; omega
      refine markFull_found (goOn next (p.findUsedPartitions next) _) (goOn_found hv fun hn => ?_)
        fun _ => ?_
      swap
      · rw [goOn_iter hv.wf hsub]
        exact hiter
      refine hv.ctx.push (hv.lt hn) hv.ok ⟨rfl, rfl, rfl, rfl, rfl, rfl, subset_rfl⟩ ?_ (fun _ => hiter) ?_ ?_
      · rintro (h | h)
        · omega
        · exact absurd h hnone
      · intro h; exact absurd h hnone
      · intro _ h; have := hsub hn; omega

theorem map_points {l : List (Nat × Interval V)} (hfits : ∀ e ∈ l, e.2.Ok (p.value r e.1))
    (hpoints : ∀ e ∈ l, e.2.isSinglepoint = true) : l.map (·.2.min.value) = (l.map Prod.fst).map (p.value r) := by
  rw [map_map]
  exact map_congr_left fun e he => (hfits e he).eq_of_isSinglepoint (hpoints e he)

theorem top_id (hc : Ctx p r (part + 1) s) (hget : p.getPartIterForInterval = none) (hlast : part + 1 = p.partFields)
    (hcur : s.curPartFields = p.partFields) :
    p.getTopPartitionId ((s.argStack.take p.partFields).map (·.2.min.value)) = some (p.part r) := by
  have hlt : ∀ e ∈ s.argStack, e.1 < p.partFields := fun e he => hlast ▸ hc.below e he
  have hlen : s.argStack.length = p.partFields := by
    rw [← hcur, hc.curPart, countP_eq_length.mpr fun e he => decide_eq_true (hlt e he)]
  rw [take_of_length_le hlen.le, map_points hc.fits fun e he => hc.points e he (.inr hget)]
  have hparts : s.argStack.map Prod.fst = List.range' 0 p.partFields :=
    eq_range'_of_ascending hc.ascending (by rw [length_map, hlen]) fun x hx => by
      obtain ⟨e, he, rfl⟩ := mem_map.mp hx
      exact ⟨Nat.zero_le _, by have := hlt e he; omega⟩
  rw [hparts]
  exact p.top_sound (by omega) r

theorem sub_id (hc : Ctx p r (part + 1) s) (hsub : p.subpartFields ≠ 0) (hlast : part + 1 = p.partFields + p.subpartFields)
    (hcur : s.curSubpartFields = p.subpartFields) :
    p.getSubpartitionId ((s.argStack.drop (s.argStack.length - p.subpartFields)).map (·.2.min.value)) = p.subpart r := by
  have hdrop : s.argStack.drop (s.argStack.length - p.subpartFields) = s.argStack.filter (p.partFields ≤ ·.1) := by
    rw [← hcur, hc.curSub]
    exact drop_of_ascending Prod.fst p.partFields hc.ascending
  have hmem : ∀ e ∈ s.argStack.filter (p.partFields ≤ ·.1), e ∈ s.argStack ∧ p.partFields ≤ e.1 := fun e he => by
    simpa using mem_filter.mp he
  rw [hdrop, map_points (fun e he => hc.fits e (hmem e he).1) fun e he => hc.points e (hmem e he).1 (.inl (hmem e he).2)]
  have hparts : (s.argStack.filter (p.partFields ≤ ·.1)).map Prod.fst = List.range' p.partFields p.subpartFields := by
    refine eq_range'_of_ascending (hc.ascending.sublist (filter_sublist.map _)) ?_ fun x hx => ?_
    · rw [length_map, ← countP_eq_length_filter, ← hc.curSub, hcur]
    · obtain ⟨e, he, rfl⟩ := mem_map.mp hx
      exact ⟨(hmem e he).2, hlast ▸ hc.below e (hmem e he).1⟩
  rw [hparts]
  exact p.sub_sound hsub r

theorem Ctx.push_point {part' : Nat} (hc : Ctx p r part s) (hlt : part < part') (hok : iv.Ok (p.value r part))
    (hget : part < p.partFields → p.getPartIterForInterval = none) (hs : iv.isSinglepoint = true) :
    Ctx p r part' (p.push part iv s) := by
  refine hc.push hlt hok (Keeps.refl _) (fun _ => hs) (fun _ => ?_) (fun hn hp => ?_) (fun hn hp => ?_)
  · by_cases hp : part < p.partFields
    · rw [show (p.push part iv s).partIter = s.partIter from rfl, hc.all (hget hp) hp]
      exact mem_allPartitions p r
    · exact hc.iter (Nat.not_lt.mp hp)
  · exact hc.all hn (hlt.trans hp)
  · exact absurd (hget (hlt.trans hp)) hn

theorem visitOther_found (hv : Visited p r part iv next s) (hget : part < p.partFields → p.getPartIterForInterval = none) :
    Found p r (p.visitOther part iv next (p.findUsedPartitions next) (p.push part iv s)) := by
  unfold visitOther
  split_ifs with hs htop hsub hlast
  · have hpart : part < p.partFields := by omega
    have hsub : next.isNull = false → p.partFields ≤ next.part := fun hn => by have := hv.lt hn; omega
    rw [top_id (hv.ctx.push_point (Nat.lt_succ_self part) hv.ok hget hs) (hget hpart) htop.1 htop.2.1]
    refine markFull_found _ (goOn_found hv fun hn => ?_) fun _ => ?_
    · refine hv.ctx.push (hv.lt hn) hv.ok ⟨rfl, rfl, rfl, rfl, rfl, rfl, subset_rfl⟩ (fun _ => hs)
        (fun _ => mem_singleton.mpr rfl)
        (fun _ h => ?_) fun h => absurd (hget hpart) h
      have := hsub hn
      omega
    · rw [goOn_iter hv.wf hsub]
      exact mem_singleton.mpr rfl
  · have hp : p.partFields ≤ part := by omega
    refine .inr ⟨rfl, ?_⟩
    rw [sub_id (hv.ctx.push_point (Nat.lt_succ_self part) hv.ok hget hs) hsub.1 hsub.2.1 hsub.2.2]
    exact Finset.mem_union_right _ (stored_mem_subpartitions (p.subPartitioned_of_fields hsub.1) (hv.ctx.iter hp)
      (mem_singleton.mpr rfl))
  · exact goOn_found hv fun hn => hv.ctx.push_point (hv.lt hn) hv.ok hget hs
  · exact .inl rfl
  · exact .inl (goOn_ignored rfl)

/-- **The visit of an interval that has the row's value.** -/
theorem visit_found (hv : Visited p r part iv next s) :
    Found p r (p.visit false part iv next (p.findUsedPartitions next) (p.push part iv s)) := by
  unfold visit
  rw [if_neg Bool.false_ne_true]
  split
  · rename_i get hget
    split_ifs at hget with hpart
    exact visitPart_found hv hget hpart
  · rename_i hget
    have hget : part < p.partFields → p.getPartIterForInterval = none := fun hp => by rwa [if_pos hp] at hget
    split
    · rename_i get hsub
      split_ifs at hsub with hlast
      split
      · exact .inl rfl
      · rename_i subs hsubs
        have hp : p.partFields ≤ part := by omega
        refine .inr ⟨rfl, Finset.mem_union_right _ (stored_mem_subpartitions (p.subPartitioned_of_fields hlast.1)
          (hv.ctx.iter hp) ?_)⟩
        refine p.subMapper_sound hlast.1 get hsub iv r ?_ subs hsubs
        rw [← hlast.2, Nat.add_sub_cancel]
        exact hv.ok
    · exact visitOther_found hv hget

end Visit

/-! ## Whole trees -/

/-- **A call for a tree that the row satisfies** marks the row's [sub]partition or answers `all`. -/
theorem findUsedPartitions_found {t : SelArg V} (hw : t.WellFormed) (hs : t.Sat (p.value r)) {s : Ppar V}
    (hc : Ctx p r t.part s) : Found p r (p.findUsedPartitions t s) := by
  induction hw generalizing s with
  | nullElement => exact hs.elim
  | @node part iv left right next hleft hright hnext proper leftPart rightPart nextPart _ _ ihl ihr ihn =>
    have hside : ∀ {u : SelArg V}, u.WellFormed → (u.isNull = false → u.part = part) →
        ∀ s, Frame p part s (p.findUsedPartitions u s).2 := by
      intro u hu hpart s
      cases u with
      | nullElement => exact .refl s
      | node => exact hpart rfl ▸ findUsedPartitions_frame hu s
    have hl := hside hleft leftPart s
    have hown : Frame p part (p.findUsedPartitions left s).2 (p.pop part (p.visit s.ignorePartFields part iv next
        (p.findUsedPartitions next) (p.push part iv (p.findUsedPartitions left s).2)).2) :=
      Frame.pop_push (visit_frame hl.keeps.ignorePartFields fun hn s =>
        (findUsedPartitions_frame hnext s).mono (nextPart hn).le)
    have hr := hside hright rightPart
    have hcl := hc.frame hl
    unfold findUsedPartitions
    dsimp only
    rcases hs with hs | hs | ⟨hok, hs⟩
    · have hfound := ihl hs (leftPart (SelArg.isNull_of_sat hs) ▸ hc)
      by_cases hla : (p.findUsedPartitions left s).1 = .all
      · rw [if_pos hla]
        exact .inl hla
      · have hfound := hfound.resolve_left hla
        split_ifs with h₂ h₃
        · exact .inl rfl
        · exact .inl h₃
        · exact .inr ⟨if_pos (.inl hfound.1), (hr _).keeps.read (hown.keeps.read hfound.2)⟩
    · have hcr := hcl.frame hown
      rw [← rightPart (SelArg.isNull_of_sat hs)] at hcr
      have hfound := ihr hs hcr
      rw [rightPart (SelArg.isNull_of_sat hs)] at hfound
      split_ifs with h₁ h₂ h₃
      · exact .inl h₁
      · exact .inl rfl
      · exact .inl h₃
      · have hfound := hfound.resolve_left h₃
        exact .inr ⟨if_pos (.inr (.inl hfound.1)), hfound.2⟩
    · have hfound := visit_found ⟨hcl, proper, hok, hnext, nextPart, hs, fun hs s hc => ihn hs hc⟩
      rw [← hc.ignore] at hfound
      split_ifs with h₁ h₂ h₃
      · exact .inl h₁
      · exact .inl rfl
      · exact .inl h₃
      · have hfound := hfound.resolve_left h₂
        exact .inr ⟨if_pos (.inr (.inr hfound.1)), (hr _).keeps.read hfound.2⟩

theorem restart_ctx (p : PartInfo R V) (r : R) (part : Nat) {s : Ppar V} (hs : s.ignorePartFields = false) :
    Ctx p r part (p.restart s) where
  ignore := hs
  below e he := absurd he not_mem_nil
  ascending := List.Pairwise.nil
  fits e he := absurd he not_mem_nil
  curPart := rfl
  curSub := rfl
  points e he := absurd he not_mem_nil
  iter _ := mem_allPartitions p r
  all _ _ := rfl
  keys _ _ hhead side := by
    obtain rfl : part = 0 := hhead
    exact ⟨rfl, rfl⟩

theorem imerge_cons (p : PartInfo R V) (t : SelArg V) (trees : List (SelArg V)) (res : Answer) (s : Ppar V) :
    t.isNull = true ∧ p.findUsedPartitionsImerge (t :: trees) res s = (.all, p.restart s) ∨
    (p.findUsedPartitions t (p.restart s)).1 = .all ∧
      p.findUsedPartitionsImerge (t :: trees) res s = p.findUsedPartitions t (p.restart s) ∨
    t.isNull = false ∧ (p.findUsedPartitions t (p.restart s)).1 ≠ .all ∧
      p.findUsedPartitionsImerge (t :: trees) res s = p.findUsedPartitionsImerge trees
        (anyYes res .no (p.findUsedPartitions t (p.restart s)).1) (p.findUsedPartitions t (p.restart s)).2 := by
  by_cases hnull : t.isNull = true
  · exact .inl ⟨hnull, if_pos hnull⟩
  · by_cases hall : (p.findUsedPartitions t (p.restart s)).1 = .all
    · exact .inr (.inl ⟨hall, (if_neg hnull).trans (if_pos hall)⟩)
    · exact .inr (.inr ⟨eq_false_iff.mpr hnull, hall, (if_neg hnull).trans (if_neg hall)⟩)

theorem imerge_keeps (hw : ∀ t ∈ trees, t.WellFormed) (res : Answer) (s : Ppar V) :
    (p.findUsedPartitionsImerge trees res s).2.ignorePartFields = s.ignorePartFields := by
  induction trees generalizing res s with
  | nil => rfl
  | cons t trees ih =>
    have hf := (findUsedPartitions_frame (p := p) (hw t mem_cons_self) (p.restart s)).keeps
    rcases imerge_cons p t trees res s with ⟨-, h⟩ | ⟨-, h⟩ | ⟨-, -, h⟩ <;> rw [h]
    · rfl
    · exact hf.ignorePartFields
    · exact (ih (fun t ht => hw t (mem_cons_of_mem _ ht)) (anyYes res .no
        (p.findUsedPartitions t (p.restart s)).1) (p.findUsedPartitions t (p.restart s)).2).trans hf.ignorePartFields

theorem imerge_yes (hw : ∀ t ∈ trees, t.WellFormed) {s : Ppar V}
    (h : p.stored r ∈ s.readPartitions) : Found p r (p.findUsedPartitionsImerge trees .yes s) := by
  induction trees generalizing s with
  | nil => exact .inr ⟨rfl, h⟩
  | cons t trees ih =>
    have hf := (findUsedPartitions_frame (p := p) (hw t mem_cons_self) (p.restart s)).keeps
    rcases imerge_cons p t trees .yes s with ⟨-, h'⟩ | ⟨hall, h'⟩ | ⟨-, -, h'⟩ <;> rw [h']
    · exact .inl rfl
    · exact .inl hall
    · exact ih (fun t ht => hw t (mem_cons_of_mem _ ht)) (hf.read h)

theorem imerge_found (hw : ∀ t ∈ trees, t.WellFormed) {s : Ppar V} (res : Answer)
    (hs : s.ignorePartFields = false) (hr : ∃ t ∈ trees, t.SatOpt (p.value r)) :
    Found p r (p.findUsedPartitionsImerge trees res s) := by
  induction trees generalizing res s with
  | nil => simp at hr
  | cons t trees ih =>
    have hwt := hw t mem_cons_self
    have hf := (findUsedPartitions_frame (p := p) hwt (p.restart s)).keeps
    rcases imerge_cons p t trees res s with ⟨-, h⟩ | ⟨hall, h⟩ | ⟨hnull, hall, h⟩ <;> rw [h]
    · exact .inl rfl
    · exact .inl hall
    · have hwr : ∀ t ∈ trees, t.WellFormed := fun t ht => hw t (mem_cons_of_mem _ ht)
      rw [exists_mem_cons_iff] at hr
      rcases hr with ht | hr
      · have hfound := (findUsedPartitions_found hwt (ht.resolve_left (by simp [hnull]))
          (restart_ctx p r t.part hs)).resolve_left hall
        have hyes : anyYes res .no (p.findUsedPartitions t (p.restart s)).1 = .yes := if_pos (.inr (.inr hfound.1))
        rw [hyes]
        exact imerge_yes hwr hfound.2
      · exact ih hwr _ (hf.ignorePartFields.trans hs) hr

theorem imergeList_found {merges : List (List (SelArg V))} (hw : ∀ m ∈ merges, ∀ t ∈ m, t.WellFormed) {s : Ppar V}
    {all : Finset Nat} (hs : s.ignorePartFields = false) (hall : p.stored r ∈ all)
    (hr : ∀ m ∈ merges, ∃ t ∈ m, t.SatOpt (p.value r)) : Found p r (p.findUsedPartitionsImergeList merges all s) := by
  induction merges generalizing all s with
  | nil => exact .inr ⟨rfl, hall⟩
  | cons m merges ih =>
    have hwm := hw m mem_cons_self
    have hfound := imerge_found hwm .no hs (hr m mem_cons_self)
    have hkeeps := imerge_keeps (p := p) hwm .no s
    unfold findUsedPartitionsImergeList
    have hmem : p.stored r ∈ (if (p.findUsedPartitionsImerge m .no s).1 = .all then all
        else all ∩ (p.findUsedPartitionsImerge m .no s).2.readPartitions) := by
      split_ifs with h
      · exact hall
      · exact Finset.mem_inter.mpr ⟨hall, (hfound.resolve_left h).2⟩
    rw [if_neg (by rcases hfound with h | h <;> simp [h]), if_neg (Finset.ne_empty_of_mem hmem)]
    exact ih (fun m hm => hw m (mem_cons_of_mem _ hm)) (hkeeps.trans hs) hmem
      fun m hm => hr m (mem_cons_of_mem _ hm)

theorem stored_lt_bits (p : PartInfo R V) (r : R) : p.stored r < p.bits := by
  unfold PartInfo.stored PartInfo.bits
  split_ifs with h
  · have hp := p.part_lt r
    have hsub := p.subpart_lt r h
    calc p.part r * p.numSubparts + p.subpart r
      _ < p.part r * p.numSubparts + p.numSubparts := by omega
      _ = (p.part r + 1) * p.numSubparts := (Nat.succ_mul ..).symm
      _ ≤ p.numParts * p.numSubparts := Nat.mul_le_mul_right _ hp
  · exact p.part_lt r

theorem walkTree_found {t : SelTree V} (hkeys : t.keys.SatOpt (p.value r))
    (hmerges : ∀ m ∈ t.merges, ∃ k ∈ m, k.SatOpt (p.value r)) : Found p r (p.walkTree t) := by
  unfold walkTree
  split
  · split_ifs with hnull
    · exact .inl rfl
    · exact findUsedPartitions_found t.keys_wf (hkeys.resolve_left hnull) (restart_ctx p r _ rfl)
  · rename_i m hm
    have hmem : m ∈ t.merges := hm ▸ mem_singleton.mpr rfl
    exact imerge_found (t.merges_wf m hmem) .no rfl (hmerges m hmem)
  · exact imergeList_found t.merges_wf rfl (Finset.mem_range.mpr (stored_lt_bits p r)) hmerges

/-- A row satisfies the condition that `prune_partitions` is given: a missing tree says nothing. -/
def CondSat (vals : Nat → V) : Option (Option (SelTree V)) → Prop
  | some (some t) => t.Sat vals
  | _ => True

theorem usedPartitions_found {tree : Option (SelTree V)} (hr : CondSat (p.value r) (some tree)) :
    (p.usedPartitions tree).1 = .all ∨ (p.usedPartitions tree).1 = .yes ∧ p.stored r ∈ (p.usedPartitions tree).2 := by
  cases tree with
  | none => exact .inl rfl
  | some t =>
    have hr : t.Sat (p.value r) := hr
    unfold SelTree.Sat at hr
    unfold usedPartitions
    dsimp only
    split
    · rename_i ht
      rw [ht] at hr
      exact hr.elim
    · exact .inl rfl
    · exact .inl rfl
    · rename_i ht
      rw [ht] at hr
      exact walkTree_found hr.1 hr.2
    · rename_i ht
      rw [ht] at hr
      exact walkTree_found hr.1 hr.2

theorem prunePartitions_reads {lock : Finset Nat} {cond : Option (Option (SelTree V))} (hr : CondSat (p.value r) cond)
    (hlock : p.stored r ∈ lock) : (p.prunePartitions lock cond).1 = false ∧ p.stored r ∈ (p.prunePartitions lock cond).2 := by
  cases cond with
  | none => exact ⟨rfl, hlock⟩
  | some tree =>
    have hfound := usedPartitions_found hr
    unfold prunePartitions
    dsimp only
    by_cases hfields : p.partFields + p.subpartFields = 0
    · rw [if_pos hfields]
      exact ⟨rfl, hlock⟩
    · rw [if_neg hfields]
      have hmem : p.stored r ∈ (if (p.usedPartitions tree).1 = .all then lock else (p.usedPartitions tree).2 ∩ lock) := by
        split_ifs with h
        · exact hlock
        · exact Finset.mem_inter.mpr ⟨(hfound.resolve_left h).2, hlock⟩
      refine ⟨?_, hmem⟩
      have hne := Finset.ne_empty_of_mem hmem
      rcases hfound with h | h <;> simp [h] at hne ⊢ <;> exact hne

theorem no_versioning : false = true → 1 ≤ 1 := fun h => absurd h false_ne_true

def twoByTwo : PartInfo (Nat × Nat) Nat where
  partFields := 1
  subpartFields := 1
  numParts := 2
  numSubparts := 2
  subPartitioned := true
  versioning := false
  value r i := if i = 0 then r.1 else r.2
  part r := if r.1 < 10 then 0 else 1
  subpart r := r.2 % 2
  getPartIterForInterval := some fun k => if (k.key .max).head?.any (· < 10) then (.yes, [0]) else (.all, [])
  getSubpartIterForInterval := none
  getTopPartitionId vals := some (if (vals.head?.any (· < 10)) then 0 else 1)
  getSubpartitionId vals := vals.head?.getD 0 % 2
  part_lt r := by split_ifs <;> decide
  subpart_lt r _ := Nat.mod_lt _ (by decide)
  subPartitioned_of_fields _ := rfl
  versioning_field := no_versioning
  mapper_sound _ get hget k r hk := by
    cases hget
    beta_reduce
    by_cases hmax : (k.key .max).head?.any (· < 10) = true
    · rw [if_pos hmax]
      cases hkey : k.key .max with
      | nil => simp [hkey] at hmax
      | cons x xs =>
        have hx : x < 10 := by simpa [hkey] using hmax
        have hr : r.1 ≤ x := by
          rcases (hk .max).resolve_left (by simp [hkey]) with h
          rw [hkey] at h
          exact h.elim (fun h => le_of_lt h) fun h => h.1.ge
        exact .inr ⟨rfl, by simp [hr.trans_lt hx]⟩
    · rw [if_neg hmax]
      exact .inl rfl
  subMapper_sound _ get hget := by cases hget
  top_sound _ r := by simp
  sub_sound _ r := by simp [List.range']

def smallThree : SelTree Nat where
  type := .key
  keys := .node 0 ⟨⟨⟨true, false⟩, 0⟩, ⟨.zero, 5⟩⟩ .nullElement .nullElement
    (.node 1 ⟨⟨.zero, 3⟩, ⟨.zero, 3⟩⟩ .nullElement .nullElement .nullElement)
  merges := []
  keys_wf := by
    refine .node .nullElement .nullElement (.node .nullElement .nullElement .nullElement ?_ ?_ ?_ ?_ ?_ ?_) ?_ ?_ ?_ ?_ ?_ ?_
    case refine_1 => exact ⟨by rintro (_ | _) <;> simp [Interval.bound, Flag.zero], fun _ _ => .inr ⟨rfl, rfl, rfl⟩⟩
    case refine_7 => exact ⟨by rintro (_ | _) <;> simp [Interval.bound, Flag.zero], by simp⟩
    all_goals simp [SelArg.isNull, SelArg.part, SelArg.intervals]
  merges_wf _ h := absurd h not_mem_nil

end TSpider.Prune

import TSpider.Prune.Find

/-!
# What the walk restores

Every call of `find_used_partitions` gives the stack, the counters, the keys and the ignore flag back as it got them, and
takes no mark away. The iterator over partitions is left alone by the trees of sub-partitioning fields and while
partitioning fields are ignored; without an interval mapper it is reset to all partitions.
-/

namespace TSpider.Prune
open PartInfo

variable {R V : Type}

structure Keeps (s s' : Ppar V) : Prop where
  argStack : s'.argStack = s.argStack
  curPartFields : s'.curPartFields = s.curPartFields
  curSubpartFields : s'.curSubpartFields = s.curSubpartFields
  curKey : s'.curKey = s.curKey
  curFlag : s'.curFlag = s.curFlag
  ignorePartFields : s'.ignorePartFields = s.ignorePartFields
  read : s.readPartitions ⊆ s'.readPartitions

theorem Keeps.refl (s : Ppar V) : Keeps s s := ⟨rfl, rfl, rfl, rfl, rfl, rfl, subset_rfl⟩

theorem Keeps.trans {s s' s'' : Ppar V} (h : Keeps s s') (h' : Keeps s' s'') : Keeps s s'' :=
  ⟨h'.argStack.trans h.argStack, h'.curPartFields.trans h.curPartFields, h'.curSubpartFields.trans h.curSubpartFields,
    h'.curKey.trans h.curKey, h'.curFlag.trans h.curFlag, h'.ignorePartFields.trans h.ignorePartFields,
    h.read.trans h'.read⟩

theorem Keeps.setIter {s s' : Ppar V} (h : Keeps s s') (iter : List Nat) : Keeps s { s' with partIter := iter } :=
  ⟨h.argStack, h.curPartFields, h.curSubpartFields, h.curKey, h.curFlag, h.ignorePartFields, h.read⟩

theorem Keeps.mark {s s' : Ppar V} (h : Keeps s s') (bits : Finset Nat) :
    Keeps s { s' with readPartitions := s'.readPartitions ∪ bits } :=
  ⟨h.argStack, h.curPartFields, h.curSubpartFields, h.curKey, h.curFlag, h.ignorePartFields,
    h.read.trans Finset.subset_union_left⟩

theorem ignoring_keeps {ignore : Bool} {s : Ppar V} {walk : Ppar V → Answer × Ppar V} (hs : s.ignorePartFields = false)
    (hwalk : ∀ s, Keeps s (walk s).2) :
    Keeps s (ignoring ignore walk s).2 := by
  unfold ignoring
  split_ifs
  · have h := hwalk { s with ignorePartFields := true }
    exact ⟨h.argStack, h.curPartFields, h.curSubpartFields, h.curKey, h.curFlag, hs.symm, h.read⟩
  · exact hwalk s

variable [LinearOrder V] {p : PartInfo R V}

/-- What a call for a tree of the key part `part` does to the context. -/
structure Frame (p : PartInfo R V) (part : Nat) (s s' : Ppar V) : Prop where
  keeps : Keeps s s'
  subIter : p.partFields ≤ part → s'.partIter = s.partIter
  ignoredIter : s.ignorePartFields = true → s'.partIter = s.partIter
  topIter : p.getPartIterForInterval = none → s.partIter = p.allPartitions → s'.partIter = p.allPartitions

variable {part : Nat} {s s' : Ppar V}

theorem Frame.of_iter (h : Keeps s s') (hi : s'.partIter = s.partIter) : Frame p part s s' :=
  ⟨h, fun _ => hi, fun _ => hi, fun _ ha => hi.trans ha⟩

theorem Frame.refl (s : Ppar V) : Frame p part s s := .of_iter (.refl s) rfl

theorem Frame.trans {s'' : Ppar V} (h : Frame p part s s') (h' : Frame p part s' s'') : Frame p part s s'' where
  keeps := h.keeps.trans h'.keeps
  subIter hp := (h'.subIter hp).trans (h.subIter hp)
  ignoredIter hi := (h'.ignoredIter (h.keeps.ignorePartFields.trans hi)).trans (h.ignoredIter hi)
  topIter hn ha := h'.topIter hn (h.topIter hn ha)

theorem Frame.mono {part' : Nat} (h : Frame p part' s s') (hp : part ≤ part') : Frame p part s s' :=
  ⟨h.keeps, fun hq => h.subIter (hq.trans hp), h.ignoredIter, h.topIter⟩

theorem Frame.pop_push {iv : Interval V} (h : Frame p part (p.push part iv s) s') : Frame p part s (p.pop part s') := by
  obtain ⟨⟨h₁, h₂, h₃, h₄, h₅, h₆, h₇⟩, h₈, h₉, h₁₀⟩ := h
  refine ⟨⟨?_, ?_, ?_, h₄, h₅, h₆, h₇⟩, h₈, h₉, h₁₀⟩
  · simp [pop, h₁, push]
  · simp [pop, h₂, push]
  · simp [pop, h₃, push]

/-! ## One interval -/

section Visit

variable {iv : Interval V} {next : SelArg V} {walk : Ppar V → Answer × Ppar V}

theorem goOn_frame (hwalk : next.isNull = false → ∀ s, Frame p part s (walk s).2) (s : Ppar V) :
    Frame p part s (goOn next walk s).2 := by
  unfold goOn
  split_ifs with hn
  · exact .refl s
  · exact hwalk (Bool.eq_false_iff.mpr hn) s

theorem markFull_keeps {res : Answer × Ppar V} (h : Keeps s res.2) : Keeps s (p.markFull res).2 := by
  unfold markFull
  by_cases hall : res.1 = .all
  · rw [if_pos hall]
    exact (h.mark _).setIter _
  · rw [if_neg hall]
    exact h.setIter _

theorem ignoring_partIter (hwalk : ∀ s, Frame p part s (walk s).2) (s : Ppar V) :
    (ignoring true walk s).2.partIter = s.partIter :=
  (hwalk { s with ignorePartFields := true }).ignoredIter rfl

theorem visitPart_frame {get : KeyRange V → Answer × List Nat} (hs : s.ignorePartFields = false) (hpart : part < p.partFields)
    (hget : p.getPartIterForInterval = some get) (hwalk : next.isNull = false → ∀ s, Frame p part s (walk s).2) :
    Frame p part s (p.visitPart get part iv next walk s).2 := by
  have hkeeps : Keeps s (p.visitPart get part iv next walk s).2 := by
    unfold visitPart
    have hgo : ∀ s, Keeps s (goOn next walk s).2 := fun s => (goOn_frame hwalk s).keeps
    split_ifs with heq
    · have hn : next.isNull = false := by
        simp only [continues, Bool.and_eq_true, Bool.not_eq_true'] at heq
        exact heq.1.1.1.1.1
      obtain ⟨h₁, h₂, h₃, -, -, h₆, h₇⟩ := (hwalk hn { s with
        curKey := fun side => s.curKey side ++ Prune.stored (iv.bound side) (s.curFlag side)
        curFlag := fun side => (s.curFlag side).or (iv.bound side).flag }).keeps
      exact ⟨h₁, h₂, h₃, rfl, rfl, h₆, h₇⟩
    all_goals dsimp only
    all_goals split_ifs
    all_goals first
      | exact (Keeps.refl s).setIter _
      | exact markFull_keeps (((Keeps.refl s).setIter _).trans (ignoring_keeps hs hgo))
  refine ⟨hkeeps, fun h => absurd h (by omega), fun h => ?_, fun h => ?_⟩
  · rw [hs] at h; cases h
  · rw [hget] at h; cases h

theorem visitOther_frame (hs : s.ignorePartFields = false) (hwalk : next.isNull = false → ∀ s, Frame p part s (walk s).2) :
    Frame p part s (p.visitOther part iv next walk s).2 := by
  have hgo := goOn_frame hwalk
  unfold visitOther
  split_ifs with hsingle htop hsub hlast
  · cases p.getTopPartitionId ((s.argStack.take p.partFields).map (·.2.min.value)) with
    | none => exact .refl s
    | some id =>
      refine ⟨markFull_keeps (((Keeps.refl s).setIter _).trans (hgo _).keeps), fun h => absurd h (by omega), fun h => ?_,
        fun _ _ => rfl⟩
      rw [hs] at h; cases h
  · exact .of_iter ((Keeps.refl s).mark _) rfl
  · exact hgo s
  · exact .refl s
  · exact .of_iter (ignoring_keeps hs fun s => (hgo s).keeps) (ignoring_partIter hgo s)

theorem visit_frame {ignore : Bool} (hs : s.ignorePartFields = ignore)
    (hwalk : next.isNull = false → ∀ s, Frame p part s (walk s).2) :
    Frame p part s (p.visit ignore part iv next walk s).2 := by
  unfold visit
  cases ignore with
  | true => exact goOn_frame hwalk s
  | false =>
    rw [if_neg Bool.false_ne_true]
    split
    · rename_i get hget
      split_ifs at hget with hpart
      exact visitPart_frame hs hpart hget hwalk
    · split
      · split
        · exact .refl s
        · exact .of_iter ((Keeps.refl s).mark _) rfl
      · exact visitOther_frame hs hwalk

end Visit

/-- **The frame of a call.** -/
theorem findUsedPartitions_frame {t : SelArg V} (hw : t.WellFormed) (s : Ppar V) :
    Frame p t.part s (p.findUsedPartitions t s).2 := by
  induction hw generalizing s with
  | nullElement => exact .refl s
  | @node part iv left right next _ _ _ _ leftPart rightPart nextPart _ _ ihl ihr ihn =>
    have hside : ∀ {u : SelArg V}, (u.isNull = false → u.part = part) →
        (∀ s, Frame p u.part s (p.findUsedPartitions u s).2) → ∀ s, Frame p part s (p.findUsedPartitions u s).2 := by
      intro u hpart ih s
      cases u with
      | nullElement => exact .refl s
      | node => exact hpart rfl ▸ ih s
    have hl := hside leftPart ihl s
    have hown : Frame p part s (p.pop part (p.visit s.ignorePartFields part iv next (p.findUsedPartitions next)
        (p.push part iv (p.findUsedPartitions left s).2)).2) :=
      hl.trans (Frame.pop_push (visit_frame hl.keeps.ignorePartFields fun hn s => (ihn s).mono (nextPart hn).le))
    have hr := fun s => hside rightPart ihr s
    unfold findUsedPartitions
    dsimp only
    split_ifs
    · exact hl
    · exact hown
    · exact hown.trans (hr _)
    · exact hown.trans (hr _)

theorem findUsedPartitions_ignored (t : SelArg V) {s : Ppar V} (hs : s.ignorePartFields = true) (hn : t.isNull = false) :
    (p.findUsedPartitions t s).1 = .all := by
  induction t generalizing s with
  | nullElement => cases hn
  | node part iv left right next ihl _ ihn =>
    unfold findUsedPartitions
    by_cases hl : left.isNull = true
    · cases left with
      | node => cases hl
      | nullElement =>
        have hown : (p.visit s.ignorePartFields part iv next (p.findUsedPartitions next)
            (p.push part iv (p.findUsedPartitions .nullElement s).2)).1 = .all := by
          unfold visit goOn
          split_ifs with hnull
          · rfl
          · exact ihn hs (Bool.eq_false_iff.mpr hnull)
        rw [if_neg (by simp [findUsedPartitions]), if_pos hown]
    · have hall := ihl hs (Bool.eq_false_iff.mpr hl)
      rw [if_pos hall, hall]

end TSpider.Prune

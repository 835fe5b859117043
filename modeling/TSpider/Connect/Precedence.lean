import TSpider.Connect.Quoted
import Mathlib.Data.Bool.AllAny
import Mathlib.Tactic

/-!
# Which setting of a parameter counts

For texts of well-formed settings the share should hold, for each parameter, the value in the first text that sets it, and
each setting should be handled as the one setting it is (`Right`). That is the case exactly if no value has a comma and each
parameter's first setting leaves it set, or else all its settings leave it unset (`right_iff_decisive`).
-/

namespace TSpider.Connect
open Setting List

variable {keys : ℕ} {l : List (Setting keys)} {st st' : State}

/-! ## One setting -/

theorem not_isQuote_of_blank {c : Char} (h : isBlank c = true) : isQuote c = false ∧ c ≠ ',' := by
  simp only [isBlank, Bool.or_eq_true, decide_eq_true_eq] at h
  rcases h with ((rfl | rfl) | rfl) | rfl <;> decide

namespace Setting
variable (s : Setting keys)

theorem getStringBetweenQuote_eq : getStringBetweenQuote (s.between ++ s.quote :: (s.raw ++ s.quote :: s.after)) =
      some ⟨s.value, s.after, s.raw.any (· = '\\')⟩ :=
  (Quotes.read ⟨rfl, s.quote_isQuote, fun c hc => (not_isQuote_of_blank (s.between_blank c hc)).1, s.body_plain⟩).1

theorem hasExtra_eq_false (escaped : Bool) : hasExtra ⟨s.value, s.after, escaped⟩ = false := by
  simp only [hasExtra, Bool.and_eq_false_iff, Bool.not_eq_false', any_eq_false, Bool.not_eq_true']
  exact .inr fun c hc => by simp [s.after_blank c hc]

def apply (st : State) : Except ParseError State :=
  match s.param with
  | none => .ok ⟨st.share, st.handled ++ [s.title]⟩
  | some p =>
    if (st.share p).isSome then .ok ⟨st.share, st.handled ++ [s.title]⟩
    else
      match s.read with
      | .error e => .error e
      | .ok none => .ok ⟨st.share, st.handled ++ [s.title]⟩
      | .ok (some v) => .ok ⟨Function.update st.share p (some v), st.handled ++ [s.title]⟩

theorem dropWhile_render : s.render.dropWhile isBlank = s.title ++
    (s.between ++ s.quote :: (s.raw ++ s.quote :: s.after)) := by
  obtain ⟨c, r, hcr⟩ := exists_cons_of_ne_nil s.title_ne
  rw [render, dropWhile_append_of_pos s.before_blank, hcr, cons_append, dropWhile_cons_of_neg]
  simp [(s.title_char c (hcr ▸ mem_cons_self)).1]

theorem takeWhile_title (r : List Char) :
    (s.title ++ (s.between ++ s.quote :: r)).takeWhile (fun c => !isBlank c && !isQuote c) = s.title := by
  have hend : (s.between ++ s.quote :: r).takeWhile (fun c => !isBlank c && !isQuote c) = [] := by
    cases hb : s.between with
    | nil => simp [s.quote_isQuote]
    | cons c l => simp [s.between_blank c (hb ▸ mem_cons_self)]
  rw [takeWhile_append_of_pos, hend, append_nil]
  intro c hc
  simp [(s.title_char c hc).1, (s.title_char c hc).2.1]

theorem parsePiece_render (st : State) : parsePiece keys st s.render = s.apply st := by
  have hne : s.title ++ (s.between ++ s.quote :: (s.raw ++ s.quote :: s.after)) ≠ [] := by simp
  unfold parsePiece
  rw [s.dropWhile_render]
  split
  · rename_i h
    exact absurd h hne
  · simp only [s.takeWhile_title, if_neg s.title_ne, s.target_eq, drop_left]
    unfold fill apply param
    cases s.target.param with
    | none => rfl
    | some p =>
      simp only [s.getStringBetweenQuote_eq, s.hasExtra_eq_false, Bool.and_false, read]
      by_cases hset : (st.share p).isSome
      · simp only [if_pos hset]
      · simp only [if_neg hset]
        rcases s.target.read s.value with e | _ | v <;> rfl

end Setting

/-! ## Texts without commas in values -/

def NoComma (l : List (Setting keys)) : Prop := ∀ s ∈ l, ∀ t ∈ s.body, t.char ≠ ','

theorem Setting.comma_mem_raw {s : Setting keys} : ',' ∈ s.raw ↔ ∃ t ∈ s.body, t.char = ',' := by
  simp only [raw, mem_flatMap]
  refine exists_congr fun t => and_congr_right fun _ => ?_
  cases t <;> simp [Tok.raw, Tok.char, eq_comm]

theorem Setting.comma_mem_render {s : Setting keys} : ',' ∈ s.render ↔ ',' ∈ s.raw := by
  have hblank : ∀ l : List Char, (∀ c ∈ l, isBlank c = true) → ',' ∉ l :=
    fun l hl h => (not_isQuote_of_blank (hl _ h)).2 rfl
  have htitle : ',' ∉ s.title := fun h => (s.title_char _ h).2.2 rfl
  have hquote : ',' ≠ s.quote := (not_blank_of_isQuote s.quote_isQuote).2.2.symm
  simp [render, hblank _ s.before_blank, htitle, hblank _ s.between_blank, hquote, hblank _ s.after_blank]

theorem parseText_text (h : NoComma l) (st : State) : parseText keys st (text l) = l.foldlM (fun st s => s.apply st) st := by
  cases l with
  | nil => rfl
  | cons s l =>
    have hsplit : (text (s :: l)).splitOn ',' = (s :: l).map render := by
      refine splitOn_intercalate ',' ?_ (by simp)
      intro piece hpiece
      obtain ⟨s', hs', rfl⟩ := mem_map.mp hpiece
      rw [comma_mem_render, comma_mem_raw]
      rintro ⟨t, ht, htc⟩
      exact h s' hs' t ht htc
    rw [parseText, hsplit, foldlM_map]
    simp only [parsePiece_render]

theorem parseConnectInfo_text {sub part comment connect : List (Setting keys)}
    (h : NoComma (sub ++ part ++ comment ++ connect)) :
    parseConnectInfo keys (text sub) (text part) (text comment) (text connect) =
      (sub ++ part ++ comment ++ connect).foldlM (fun st s => s.apply st) ⟨fun _ => none, []⟩ := by
  have hsub : NoComma sub := fun s hs => h s (by simp [hs])
  have hpart : NoComma part := fun s hs => h s (by simp [hs])
  have hcomment : NoComma comment := fun s hs => h s (by simp [hs])
  have hconnect : NoComma connect := fun s hs => h s (by simp [hs])
  simp only [parseConnectInfo, foldlM_cons, foldlM_nil, parseText_text hsub, parseText_text hpart,
    parseText_text hcomment, parseText_text hconnect, foldlM_append, bind_assoc, bind_pure]

/-! ## The outcome for one parameter -/

def outcome (p : Param) : List (Setting keys) → Except ParseError (Option Value)
  | [] => .ok none
  | s :: l =>
    if s.param = some p then
      match s.read with
      | .error e => .error e
      | .ok none => outcome p l
      | .ok (some v) => .ok (some v)
    else outcome p l

theorem Setting.apply_ok {s : Setting keys} (h : s.apply st = .ok st') : st'.handled = st.handled ++ [s.title] ∧
    ∀ p, (s.param = some p → st.share p = none → s.read = .ok (st'.share p)) ∧
      (s.param ≠ some p ∨ (st.share p).isSome → st'.share p = st.share p) := by
  unfold apply at h
  cases hp : s.param with
  | none =>
    simp only [hp] at h
    cases h
    exact ⟨rfl, fun p => ⟨by simp, fun _ => rfl⟩⟩
  | some p =>
    simp only [hp] at h
    by_cases hset : (st.share p).isSome
    · rw [if_pos hset] at h
      cases h
      refine ⟨rfl, fun p' => ⟨?_, fun _ => rfl⟩⟩
      intro hp' hnone
      cases hp'
      simp [hnone] at hset
    · rw [if_neg hset] at h
      have hnone : st.share p = none := by simpa using hset
      cases hr : s.read with
      | error e => simp [hr] at h
      | ok o =>
        cases o with
        | none =>
          simp only [hr] at h
          cases h
          refine ⟨rfl, fun p' => ⟨?_, fun _ => rfl⟩⟩
          intro hp' _
          cases hp'
          rw [hnone]
        | some v =>
          simp only [hr] at h
          cases h
          refine ⟨rfl, fun p' => ⟨?_, ?_⟩⟩
          · intro hp' _
            cases hp'
            simp
          · rintro (hne | hsome)
            · exact Function.update_of_ne (fun heq => hne (by rw [heq])) _ _
            · have hpp : p' ≠ p := by
                rintro rfl
                simp [hnone] at hsome
              exact Function.update_of_ne hpp _ _

theorem foldlM_outcome (h : l.foldlM (fun st s => s.apply st) st = .ok st') : st'.handled = st.handled ++ l.map title ∧
    ∀ p, (st.share p = none → outcome p l = .ok (st'.share p)) ∧ ((st.share p).isSome → st'.share p = st.share p) := by
  induction l generalizing st with
  | nil =>
    cases h
    exact ⟨by simp, fun p => ⟨fun hp => by rw [hp]; rfl, fun _ => rfl⟩⟩
  | cons s l ih =>
    rw [foldlM_cons] at h
    cases hs : s.apply st with
    | error e => rw [hs] at h; cases h
    | ok st₁ =>
      rw [hs] at h
      obtain ⟨hhandled, hshare⟩ := ih h
      obtain ⟨hhandled₁, hshare₁⟩ := apply_ok hs
      refine ⟨by rw [hhandled, hhandled₁]; simp, fun p => ?_⟩
      obtain ⟨hread, hkeep⟩ := hshare₁ p
      obtain ⟨hout, hset⟩ := hshare p
      constructor
      · intro hnone
        by_cases hp : s.param = some p
        · rw [outcome, if_pos hp, hread hp hnone]
          cases hv : st₁.share p with
          | none => exact hout hv
          | some v => simp [hset (by rw [hv]; rfl), hv]
        · rw [outcome, if_neg hp]
          exact hout ((hkeep (.inl hp)).trans hnone)
      · intro hsome
        have hsame := hkeep (.inr hsome)
        rw [hset (by rw [hsame]; exact hsome), hsame]

theorem foldlM_ok {st : State} (h : ∀ p, st.share p = none → ∃ o, outcome p l = .ok o) :
    ∃ st', l.foldlM (fun st s => s.apply st) st = .ok st' := by
  induction l generalizing st with
  | nil => exact ⟨st, rfl⟩
  | cons s l ih =>
    rw [foldlM_cons]
    obtain ⟨st₁, hs⟩ : ∃ st₁, s.apply st = .ok st₁ := by
      unfold apply
      cases hp : s.param with
      | none => exact ⟨_, rfl⟩
      | some p =>
        dsimp only
        split
        · exact ⟨_, rfl⟩
        · rename_i hset
          obtain ⟨o, ho⟩ := h p (by simpa using hset)
          rw [outcome, if_pos hp] at ho
          rcases hr : s.read with e | _ | v
          · simp [hr] at ho
          · exact ⟨_, rfl⟩
          · exact ⟨_, rfl⟩
    rw [hs]
    refine ih fun p hp => ?_
    obtain ⟨hread, hkeep⟩ := (apply_ok hs).2 p
    by_cases hsp : s.param = some p
    · cases hnone : st.share p with
      | none =>
        obtain ⟨o, ho⟩ := h p hnone
        rw [outcome, if_pos hsp, hread hsp hnone, hp] at ho
        exact ⟨o, ho⟩
      | some v =>
        have hsame := hkeep (.inr (by rw [hnone]; rfl))
        rw [hp, hnone] at hsame
        cases hsame
    · obtain ⟨o, ho⟩ := h p ((hkeep (.inl hsp)).symm.trans hp)
      rw [outcome, if_neg hsp] at ho
      exact ⟨o, ho⟩

/-! ## Precedence -/

def settingOf (p : Param) (l : List (Setting keys)) : Option (Setting keys) := l.find? (·.param = some p)

def firstSetting (p : Param) (texts : List (List (Setting keys))) : Option (Setting keys) := texts.findSome? (settingOf p)

def valueOf (o : Option (Setting keys)) : Option Value :=
  match o with
  | none => none
  | some s =>
    match s.read with
    | .ok v => v
    | .error _ => none

theorem firstSetting_eq (p : Param) (texts : List (List (Setting keys))) :
    firstSetting p texts = settingOf p texts.flatten := List.find?_flatten.symm

/-- The first setting of a parameter leaves it set, or all its settings leave it unset. -/
def Decisive (p : Param) (l : List (Setting keys)) : Prop :=
  ∀ s, settingOf p l = some s → (∃ v, s.read = .ok (some v)) ∨ ∀ s' ∈ l, s'.param = some p → s'.read = .ok none

theorem outcome_none_iff {p : Param} : outcome p l = .ok none ↔ ∀ s ∈ l, s.param = some p → s.read = .ok none := by
  induction l with
  | nil => simp [outcome]
  | cons s l ih =>
    rw [forall_mem_cons, ← ih, outcome]
    by_cases hp : s.param = some p
    · rcases hr : s.read with e | _ | v <;> simp [hp]
    · simp [hp]

theorem outcome_eq_iff {p : Param} : outcome p l = .ok (valueOf (settingOf p l)) ↔ Decisive p l := by
  induction l with
  | nil => simp [outcome, valueOf, settingOf, Decisive]
  | cons s l ih =>
    by_cases hp : s.param = some p
    · have hset : settingOf p (s :: l) = some s := by simp [settingOf, hp]
      have hdec : Decisive p (s :: l) ↔
          (∃ v, s.read = .ok (some v)) ∨ ∀ s' ∈ s :: l, s'.param = some p → s'.read = .ok none := by
        simp [Decisive, hset]
      rw [hset, hdec, ← outcome_none_iff, outcome, if_pos hp, valueOf]
      rcases hr : s.read with e | _ | v <;> simp
    · have hset : settingOf p (s :: l) = settingOf p l := by simp [settingOf, hp]
      have hdec : Decisive p (s :: l) ↔ Decisive p l := by
        simp [Decisive, hset, hp]
      rw [hset, hdec, ← ih, outcome, if_neg hp]

/-! ## Commas in values -/

def filledPieces (s : List Char) : ℕ := ((s.splitOn ',').filter fun p => p.any fun c => !isBlank c).length

theorem filledPieces_comma (a b : List Char) : filledPieces (a ++ ',' :: b) = filledPieces a + filledPieces b := by
  have hsplit : (a ++ ',' :: b).splitOn ',' = a.splitOn ',' ++ b.splitOn ',' :=
    splitOnP_append_cons a b (by simp)
  rw [filledPieces, hsplit, filter_append, length_append]
  rfl

theorem filledPieces_pos {s : List Char} {c : Char} (hc : c ∈ s) (hcomma : c ≠ ',') (hblank : isBlank c = false) :
    1 ≤ filledPieces s := by
  by_cases hs : ',' ∈ s
  · obtain ⟨a, b, rfl⟩ := append_of_mem hs
    rw [filledPieces_comma]
    rcases mem_append.mp hc with hca | hcb
    · have := filledPieces_pos hca hcomma hblank
      omega
    · have := filledPieces_pos (mem_of_ne_of_mem hcomma hcb) hcomma hblank
      omega
  · have hsplit : s.splitOn ',' = [s] := by
      have hone : ([','].intercalate [s]).splitOn ',' = [s] := splitOn_intercalate ',' (by simpa using hs) (by simp)
      simpa using hone
    have hany : (s.any fun c => !isBlank c) = true := any_eq_true.mpr ⟨c, hc, by simp [hblank]⟩
    simp [filledPieces, hsplit, hany]
termination_by s.length

theorem Setting.filledPieces_render (s : Setting keys) :
    1 ≤ filledPieces s.render ∧ ((∃ t ∈ s.body, t.char = ',') → 2 ≤ filledPieces s.render) := by
  obtain ⟨c, r, hcr⟩ := exists_cons_of_ne_nil s.title_ne
  have hc : c ∈ s.title := hcr ▸ mem_cons_self
  obtain ⟨hcblank, -, hccomma⟩ := s.title_char c hc
  obtain ⟨hqblank, -, hqcomma⟩ := not_blank_of_isQuote s.quote_isQuote
  constructor
  · exact filledPieces_pos (by simp [render, hc]) hccomma hcblank
  · intro hcomma
    obtain ⟨a, b, hab⟩ := append_of_mem (comma_mem_raw.mpr hcomma)
    have hrender : s.render = (s.before ++ (s.title ++ (s.between ++ s.quote :: a))) ++ ',' :: (b ++ s.quote :: s.after) := by
      simp [render, hab]
    have hleft : 1 ≤ filledPieces (s.before ++ (s.title ++ (s.between ++ s.quote :: a))) :=
      filledPieces_pos (by simp [hc]) hccomma hcblank
    have hright : 1 ≤ filledPieces (b ++ s.quote :: s.after) :=
      filledPieces_pos (by simp) hqcomma hqblank
    rw [hrender, filledPieces_comma]
    omega

theorem pieces_text (l : List (Setting keys)) :
    l.length ≤ filledPieces (text l) ∧ (¬ NoComma l → l.length < filledPieces (text l)) := by
  induction l with
  | nil => exact ⟨Nat.zero_le _, fun h => absurd (fun s hs => by cases hs) h⟩
  | cons s l ih =>
    obtain ⟨hone, htwo⟩ := s.filledPieces_render
    have hcount : filledPieces (text (s :: l)) = filledPieces s.render + (if l = [] then 0 else filledPieces (text l)) := by
      cases l with
      | nil => simp [text, List.intercalate]
      | cons s' l =>
        have htext : text (s :: s' :: l) = s.render ++ ',' :: text (s' :: l) := by simp [text, List.intercalate]
        rw [htext, filledPieces_comma, if_neg (by simp)]
    have hrest : l.length ≤ if l = [] then 0 else filledPieces (text l) := by
      split
      · rename_i h
        simp [h]
      · exact ih.1
    rw [hcount, length_cons]
    refine ⟨by omega, fun hcomma => ?_⟩
    by_cases hs : ∃ t ∈ s.body, t.char = ','
    · have := htwo hs
      omega
    · have hl : ¬ NoComma l := by
        intro hl
        refine hcomma fun s' hs' t ht htc => ?_
        rcases mem_cons.mp hs' with rfl | hs'
        · exact hs ⟨t, ht, htc⟩
        · exact hl s' hs' t ht htc
      have hne : l ≠ [] := by
        rintro rfl
        exact hl fun s hs => by cases hs
      have := ih.2 hl
      rw [if_neg hne]
      omega

theorem parsePiece_handled {s : List Char} (h : parsePiece keys st s = .ok st') :
    st'.handled.length = st.handled.length + if s.any fun c => !isBlank c then 1 else 0 := by
  unfold parsePiece at h
  have hany : (s.any fun c => !isBlank c) = !(s.dropWhile isBlank).isEmpty := by
    induction s with
    | nil => rfl
    | cons c s ih =>
      cases hc : isBlank c <;> simp_all
  rw [hany]
  split at h
  · rename_i hnil
    cases h
    simp [hnil]
  · rename_i hne
    have hfull : (s.dropWhile isBlank).isEmpty = false := by simpa using hne
    dsimp only at h
    split at h
    · cases h
    · split at h
      · cases h
      · cases h
        simp [hfull]

theorem parseText_handled {s : List Char} (h : parseText keys st s = .ok st') :
    st'.handled.length = st.handled.length + filledPieces s := by
  unfold parseText at h
  unfold filledPieces
  generalize s.splitOn ',' = pieces at h ⊢
  induction pieces generalizing st with
  | nil =>
    cases h
    simp
  | cons p ps ih =>
    rw [foldlM_cons] at h
    cases hp : parsePiece keys st p with
    | error e => rw [hp] at h; cases h
    | ok st₁ =>
      rw [hp] at h
      rw [ih h, parsePiece_handled hp, filter_cons]
      split
      · rw [length_cons]
        omega
      · omega

theorem noComma_of_handled {sub part comment connect : List (Setting keys)} {st : State}
    (h : parseConnectInfo keys (text sub) (text part) (text comment) (text connect) = .ok st)
    (hlen : st.handled.length = (sub ++ part ++ comment ++ connect).length) :
    NoComma (sub ++ part ++ comment ++ connect) := by
  have hcount : ∀ (texts : List (List (Setting keys))) (st₀ : State),
      (texts.map text).foldlM (parseText keys) st₀ = .ok st →
      st.handled.length = st₀.handled.length + (texts.map fun l => filledPieces (text l)).sum := by
    intro texts
    induction texts with
    | nil =>
      intro st₀ h
      cases h
      simp
    | cons l texts ih =>
      intro st₀ h
      rw [map_cons, foldlM_cons] at h
      cases hl : parseText keys st₀ (text l) with
      | error e => rw [hl] at h; cases h
      | ok st₁ =>
        rw [hl] at h
        rw [ih st₁ h, parseText_handled hl, map_cons, sum_cons]
        omega
  have htotal := hcount [sub, part, comment, connect] _ h
  simp only [map_cons, map_nil, sum_cons, sum_nil, length_nil] at htotal
  simp only [length_append] at hlen
  have hle : ∀ l : List (Setting keys), l.length ≤ filledPieces (text l) := fun l => (pieces_text l).1
  have hcomma : ∀ l ∈ [sub, part, comment, connect], NoComma l := by
    intro l hl
    by_contra hcon
    have hlt := (pieces_text l).2 hcon
    have h1 := hle sub
    have h2 := hle part
    have h3 := hle comment
    have h4 := hle connect
    simp only [mem_cons, not_mem_nil, or_false] at hl
    rcases hl with rfl | rfl | rfl | rfl <;> omega
  intro s hs
  simp only [mem_append] at hs
  rcases hs with ((hs | hs) | hs) | hs
  · exact hcomma sub (by simp) s hs
  · exact hcomma part (by simp) s hs
  · exact hcomma comment (by simp) s hs
  · exact hcomma connect (by simp) s hs

/-! ## The connect information of a table -/

/-- The texts are parsed without an error, the settings in them are the ones handled, and each parameter has the value in the
first text that sets it. -/
def Right (sub part comment connect : List (Setting keys)) : Prop :=
  ∃ st, parseConnectInfo keys (text sub) (text part) (text comment) (text connect) = .ok st ∧
    st.handled = (sub ++ part ++ comment ++ connect).map title ∧
    ∀ p, st.share p = valueOf (firstSetting p [sub, part, comment, connect])

/-- No value has a comma, and the first setting of each parameter decides. -/
theorem right_iff_decisive (sub part comment connect : List (Setting keys)) : Right sub part comment connect ↔
      NoComma (sub ++ part ++ comment ++ connect) ∧ ∀ p, Decisive p (sub ++ part ++ comment ++ connect) := by
  have hfirst : ∀ p, firstSetting p [sub, part, comment, connect] = settingOf p (sub ++ part ++ comment ++ connect) := by
    intro p
    rw [firstSetting_eq]
    simp
  constructor
  · rintro ⟨st, hok, hhandled, hshare⟩
    have hcomma := noComma_of_handled hok (by rw [hhandled, length_map])
    rw [parseConnectInfo_text hcomma] at hok
    refine ⟨hcomma, fun p => outcome_eq_iff.mp ?_⟩
    rw [((foldlM_outcome hok).2 p).1 rfl, hshare, hfirst]
  · rintro ⟨hcomma, hdec⟩
    obtain ⟨st, hst⟩ : ∃ st, (sub ++ part ++ comment ++ connect).foldlM (fun st s => s.apply st)
      ⟨fun _ => none, []⟩ = .ok st :=
      foldlM_ok fun p _ => ⟨_, outcome_eq_iff.mpr (hdec p)⟩
    obtain ⟨hhandled, hshare⟩ := foldlM_outcome hst
    refine ⟨st, by rw [parseConnectInfo_text hcomma, hst], by simpa using hhandled, fun p => ?_⟩
    have hout := (hshare p).1 rfl
    rw [outcome_eq_iff.mpr (hdec p)] at hout
    rw [hfirst]
    exact (Except.ok.inj hout).symm

def commaSetting : Setting 0 where
  before := []
  title := "table".toList
  between := [' ']
  quote := '"'
  body := [.plain 'a', .plain ',', .plain 'b']
  after := []
  target := .field .tgtTableNames .strList
  target_eq := by rfl
  title_ne := by decide
  title_char := List.all_iff_forall_prop.mp rfl
  before_blank := by simp
  between_blank := by simp [isBlank]
  after_blank := by simp
  quote_isQuote := by decide
  body_plain := by
    intro c hc
    simp only [List.mem_cons, Tok.plain.injEq, List.not_mem_nil, or_false] at hc
    rcases hc with rfl | rfl | rfl <;> decide

/-- The comment of a table that names the table `a,b` is refused. -/
theorem not_right_comma : parseConnectInfo 0 [] [] (text [commaSetting]) [] = .error (.invalidConnectInfo "table".toList) ∧
      ¬ Right [] [] [commaSetting] [] := by
  refine ⟨by rfl, ?_⟩
  rintro ⟨st, hok, hhandled, -⟩
  have hcomma := noComma_of_handled hok (by rw [hhandled, length_map])
  exact hcomma commaSetting (by simp) (.plain ',') (by simp [commaSetting]) rfl

end TSpider.Connect

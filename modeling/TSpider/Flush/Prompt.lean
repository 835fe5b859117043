import TSpider.Flush.Steps

/-!
# FLUSH TABLES WITH NO BLOCK takes effect without waiting

Statements of one version start after the flush that began the version, so under keys with the version of the session nobody
meets a definition or a lock of an older statement. `prompt_of_carriesVersion` : that is so in every run in which keys carry
the version of the session and no statement starts while a flush is under way.
-/

namespace TSpider.Flush
open Lib List

variable {n : Nat} {st : State n} {st' : State n} {op : Op n} {i : Fin n} {k : Key} {v τ : Nat}

/-- A statement started after a flush uses definitions read after the flush began, and waits for no statement that started
before.
-/
def Prompt (st : State n) : Prop :=
  ∀ i s, (st.session i).stmt = some s → ∀ f ∈ st.flushes, ∀ c, f.completed = some c → c < s.started →
    (∀ o ∈ (st.session i).opened, f.began < o.loadedAt) ∧ ∀ started ∈ st.waitsFor i, c < started

/-- A statement starts when no flush is under way, and the key of a lock that it asks for carries its version. -/
def CarriesVersion (st : State n) : Op n → Prop
  | .start _ _ => ∀ f ∈ st.flushes, f.completed.isSome
  | .ask i r => ∀ s ∈ (st.session i).stmt, (st.session i).settledVersion s r = suffix s.version
  | _ => True

instance (st : State n) : (op : Op n) → Decidable (CarriesVersion st op)
  | .start _ _ | .ask _ _ => by unfold CarriesVersion; infer_instance
  | .grant _ | .upgrade _ _ | .load _ | .publish _ | .use _ _ | .finish _ _ | .flushBegin | .mark _ |
    .flushEnd _ | .evict _ =>
    .isTrue trivial

/-- Different versions have different keys. -/
theorem suffix_injective : Function.Injective suffix := by
  intro v w h
  unfold suffix at h
  split at h <;> split at h <;> simp_all

/-! ## Times -/

/-- `τ` is the start of a statement of version `v`: the flushes before the version began before it, and had completed. -/
structure Stamp (st : State n) (v τ : Nat) : Prop where
  past : τ < st.clock
  version : v ≤ st.flushes.length
  before : ∀ j f, st.flushes[j]? = some f → (j < v ↔ f.began < τ)
  completed : ∀ f ∈ st.flushes, f.began < τ → ∃ c, f.completed = some c ∧ c < τ

structure Times (st : State n) : Prop where
  version : st.tableShareVersion = st.flushes.length
  began : ∀ f ∈ st.flushes, f.began < st.clock
  completed : ∀ f ∈ st.flushes, ∀ c, f.completed = some c → f.began < c ∧ c < st.clock

theorem Stamp.tick (h : Stamp st v τ) (hf : st'.flushes = st.flushes) (hc : st.clock ≤ st'.clock) : Stamp st' v τ :=
  ⟨h.past.trans_le hc, hf ▸ h.version, hf ▸ h.before, hf ▸ h.completed⟩

/-- A flush that begins now began before none of the starts so far. -/
theorem Stamp.flushBegin (h : Stamp st v τ)
    (hf : st'.flushes = st.flushes ++ [⟨st.clock, none⟩]) (hc : st.clock ≤ st'.clock) : Stamp st' v τ := by
  have hpast := h.past
  refine ⟨hpast.trans_le hc, ?_, fun j f hj => ?_, fun f hmem hb => ?_⟩
  · rw [hf, length_append]
    exact h.version.trans (Nat.le_add_right _ _)
  · rw [hf] at hj
    rcases lt_or_ge j st.flushes.length with hlt | hge
    · rw [List.getElem?_append_left hlt] at hj
      exact h.before j f hj
    · have hv := h.version
      rw [List.getElem?_append_right hge, List.getElem?_singleton] at hj
      split at hj
      · cases hj
        simp only
        omega
      · cases hj
  · rw [hf] at hmem
    rcases mem_append.1 hmem with hmem | hmem
    · exact h.completed f hmem hb
    · rw [mem_singleton.1 hmem] at hb
      simp only at hb
      omega

theorem Stamp.flushEnd {v τ k began : Nat} (h : Stamp st v τ) (hk : st.flushes[k]? = some ⟨began, none⟩)
    (hf : st'.flushes = st.flushes.set k ⟨began, some st.clock⟩) (hc : st.clock ≤ st'.clock) : Stamp st' v τ := by
  refine ⟨h.past.trans_le hc, ?_, fun j f hj => ?_, fun f hmem hb => ?_⟩
  · rw [hf, length_set]
    exact h.version
  · rw [hf, List.getElem?_set] at hj
    split at hj
    · rename_i heq
      split at hj
      · cases hj
        subst heq
        exact h.before k ⟨began, none⟩ hk
      · cases hj
    · exact h.before j f hj
  · rw [hf] at hmem
    rcases mem_or_eq_of_mem_set hmem with hmem | rfl
    · exact h.completed f hmem hb
    · -- its record had no completion, so it began after the statement
      obtain ⟨c, hnone, -⟩ := h.completed _ (mem_of_getElem? hk) hb
      cases hnone

theorem stamp_effect {st st₁ : State n} (heff : Effect st op st₁) (h : Stamp st v τ) :
    Stamp { st₁ with clock := st.clock + 1 } v τ := by
  cases heff with
  | flushBegin => exact h.flushBegin rfl (Nat.le_succ _)
  | flushEnd f began hf => exact h.flushEnd hf rfl (Nat.le_succ _)
  | start | found | queued | grant | upgrade | load | publish | use | finish | mark | evict =>
    exact h.tick rfl (Nat.le_succ _)

theorem times_effect {st st₁ : State n} (heff : Effect st op st₁) (h : Times st) :
    Times { st₁ with clock := st.clock + 1 } := by
  have hsame {st₁ : State n} (hv : st₁.tableShareVersion = st.tableShareVersion) (hf : st₁.flushes = st.flushes) :
      Times { st₁ with clock := st.clock + 1 } := by
    refine ⟨by simpa [hv, hf] using h.version, fun f hmem => ?_, fun f hmem c hc => ?_⟩
    · exact (h.began f (hf ▸ hmem)).trans (Nat.lt_succ_self _)
    · obtain ⟨h₁, h₂⟩ := h.completed f (hf ▸ hmem) c hc
      exact ⟨h₁, h₂.trans (Nat.lt_succ_self _)⟩
  cases heff with
  | flushBegin =>
    refine ⟨by simp [h.version], fun f hmem => ?_, fun f hmem c hc => ?_⟩
    · rcases mem_append.1 hmem with hmem | hmem
      · exact (h.began f hmem).trans (Nat.lt_succ_self _)
      · rw [mem_singleton.1 hmem]
        exact Nat.lt_succ_self _
    · rcases mem_append.1 hmem with hmem | hmem
      · obtain ⟨h₁, h₂⟩ := h.completed f hmem c hc
        exact ⟨h₁, h₂.trans (Nat.lt_succ_self _)⟩
      · rw [mem_singleton.1 hmem] at hc
        cases hc
  | flushEnd k began hk =>
    have hbegan := h.began _ (mem_of_getElem? hk)
    refine ⟨by simpa using h.version, fun f hmem => ?_, fun f hmem c hc => ?_⟩
    · rcases mem_or_eq_of_mem_set hmem with hmem | rfl
      · exact (h.began f hmem).trans (Nat.lt_succ_self _)
      · exact hbegan.trans (Nat.lt_succ_self _)
    · rcases mem_or_eq_of_mem_set hmem with hmem | rfl
      · obtain ⟨h₁, h₂⟩ := h.completed f hmem c hc
        exact ⟨h₁, h₂.trans (Nat.lt_succ_self _)⟩
      · cases hc
        exact ⟨hbegan, Nat.lt_succ_self _⟩
  | start | found | queued | grant | upgrade | load | publish | use | finish | mark | evict => exact hsame rfl rfl

/-- A statement that starts with no flush under way has the version in force. -/
theorem Times.stamp (h : Times st) (hdone : ∀ f ∈ st.flushes, f.completed.isSome)
    (hf : st'.flushes = st.flushes) (hc : st.clock < st'.clock) : Stamp st' st.tableShareVersion st.clock := by
  refine ⟨hc, by rw [hf, h.version], fun j f hj => ?_, fun f hmem _ => ?_⟩
  · rw [hf] at hj
    have hlt := (List.getElem?_eq_some_iff.1 hj).1
    exact ⟨fun _ => h.began f (mem_of_getElem? hj), fun _ => h.version ▸ hlt⟩
  · rw [hf] at hmem
    obtain ⟨c, hc⟩ := Option.isSome_iff_exists.1 (hdone f hmem)
    exact ⟨c, hc, (h.completed f hmem c hc).2⟩

/-! ## Keys carry the version -/

/-- The locks and open tables of a session, with `S v τ` for the starts `τ` of statements of version `v`. -/
structure Session.Sound (S : Nat → Nat → Prop) (x : Session) : Prop where
  stmt : ∀ s, x.stmt = some s → S s.version s.started
  idle : x.stmt = none → x.opened = []
  lock : ∀ s r, x.stmt = some s → x.pending = some (.lock r) → x.keys s.handle r.table = suffix s.version
  share : ∀ s t, x.stmt = some s → x.pending = some (.share t) → x.keys s.handle t = suffix s.version
  tickets : ∀ y ∈ x.tickets, ∃ v, y.key.version = suffix v ∧ S v y.since
  opened : ∀ s, x.stmt = some s → ∀ o ∈ x.opened, ∃ τ, τ < o.loadedAt ∧ S s.version τ

def Element.Sound (S : Nat → Nat → Prop) (k : Key) (e : Element n) : Prop :=
  ∃ v, k.version = suffix v ∧ (∃ τ, τ < e.loadedAt ∧ S v τ) ∧ ∀ u ∈ e.users, S v u.2

structure Sound (st : State n) : Prop where
  times : Times st
  session : ∀ i, (st.session i).Sound (Stamp st)
  element : ∀ k e, st.element k = some e → e.Sound (Stamp st) k

section Mono

variable {S S' : Nat → Nat → Prop} (hS : ∀ v τ, S v τ → S' v τ)

include hS

theorem Session.Sound.mono {x : Session} (h : x.Sound S) : x.Sound S' where
  stmt s hs := hS _ _ (h.stmt s hs)
  idle := h.idle
  lock := h.lock
  share := h.share
  tickets y hy := by
    obtain ⟨v, hv, hs⟩ := h.tickets y hy
    exact ⟨v, hv, hS _ _ hs⟩
  opened s hs o ho := by
    obtain ⟨τ, hτ, hs⟩ := h.opened s hs o ho
    exact ⟨τ, hτ, hS _ _ hs⟩

theorem Element.Sound.mono {k : Key} {e : Element n} (h : e.Sound S k) : e.Sound S' k := by
  obtain ⟨v, hv, ⟨τ, hτ, hs⟩, hu⟩ := h
  exact ⟨v, hv, ⟨τ, hτ, hS _ _ hs⟩, fun u hu' => hS _ _ (hu u hu')⟩

end Mono

theorem Element.Sound.users {S : Nat → Nat → Prop} {e e' : Element n} (h : e.Sound S k) (hl : e'.loadedAt = e.loadedAt)
    (hu : e'.users ⊆ e.users) : e'.Sound S k := by
  obtain ⟨v, hv, hload, hold⟩ := h
  exact ⟨v, hv, hl ▸ hload, fun u hu' => hold u (hu hu')⟩

theorem forall_putElement (st : State n) {P : Key → Element n → Prop} (h : ∀ k e, st.element k = some e → P k e)
    {e? : Option (Element n)} (hk : ∀ e, e? = some e → P k e) (k' : Key) (e : Element n)
    (he : (st.putElement k e?).element k' = some e) : P k' e := by
  unfold State.putElement at he
  rcases eq_or_ne k' k with rfl | hne
  · exact hk e (by simpa using he)
  · exact h k' e (by simpa [Function.update_of_ne hne] using he)

theorem drop_some {e e' : Element n} (h : e.drop i = some e') : e'.loadedAt = e.loadedAt ∧ e'.users ⊆ e.users := by
  unfold Element.drop at h
  simp only at h
  split at h
  · cases h
  · cases h
    exact ⟨rfl, fun u hu => mem_of_mem_filter hu⟩

theorem CarriesVersion.keys {s : Stmt} {r : Request} (hok : CarriesVersion st (.ask i r))
    (hs : (st.session i).stmt = some s) :
    ((st.session i).setKey s r.table ((st.session i).settledVersion s r)).keys s.handle r.table = suffix s.version := by
  simpa [Session.setKey] using hok s hs

/-- The locks and open tables of a session keep to the versions of its statements, if it asks under them. -/
theorem sessions_effect {st st₁ : State n} (h : Sound st) (hok : CarriesVersion st op) (heff : Effect st op st₁) :
    ∀ i, (st₁.session i).Sound (Stamp { st₁ with clock := st.clock + 1 }) := by
  have hS : ∀ v τ, Stamp st v τ → Stamp { st₁ with clock := st.clock + 1 } v τ := fun v τ => stamp_effect heff
  have hall : ∀ i, (st.session i).Sound (Stamp { st₁ with clock := st.clock + 1 }) := fun i => (h.session i).mono hS
  cases heff with
  | start i handle hs =>
    refine State.forall_put hall ⟨fun s hs' => ?_, fun hs' => by simp at hs', fun s r _ hp => by simp at hp,
      fun s t _ hp => by simp at hp, (hall i).tickets, fun s _ o ho => ?_⟩
    · cases hs'
      exact h.times.stamp hok rfl (Nat.lt_succ_self _)
    · rw [(h.session i).idle hs] at ho
      simp at ho
  | found i s r x hs hp hx =>
    have hkey := hok.keys hs
    refine State.forall_put hall ⟨(hall i).stmt, (hall i).idle, fun s' r' _ hp' => ?_, fun s' t hs' hp' => ?_,
      (hall i).tickets,
      (hall i).opened⟩
    · exact absurd hp' (Request.next_ne_lock r r')
    · obtain rfl : s = s' := Option.some.inj (hs.symm.trans hs')
      obtain rfl : r.table = t := Request.table_of_next hp'
      exact hkey
  | queued i s r hs hp =>
    have hkey := hok.keys hs
    refine State.forall_put hall ⟨(hall i).stmt, (hall i).idle, fun s' r' hs' hp' => ?_, fun s' t _ hp' => by simp at hp',
      (hall i).tickets, (hall i).opened⟩
    obtain rfl : s = s' := Option.some.inj (hs.symm.trans hs')
    obtain rfl : r = r' := by simpa using hp'
    exact hkey
  | grant i s r hs hp hc =>
    have hkey := (h.session i).lock s r hs hp
    refine State.forall_put hall ⟨(hall i).stmt, (hall i).idle, fun s' r' _ hp' => ?_, fun s' t hs' hp' => ?_, fun y hy => ?_,
      (hall i).opened⟩
    · exact absurd hp' (Request.next_ne_lock r r')
    · obtain rfl : s = s' := Option.some.inj (hs.symm.trans hs')
      obtain rfl : r.table = t := Request.table_of_next hp'
      exact hkey
    · obtain rfl | hy := mem_cons.1 hy
      · exact ⟨s.version, hkey, (hall i).stmt s hs⟩
      · exact (hall i).tickets y hy
  | upgrade i t y hy hc =>
    refine State.forall_put hall ⟨(hall i).stmt, (hall i).idle, (hall i).lock, (hall i).share, fun z hz => ?_,
      (hall i).opened⟩
    obtain ⟨z', hz', rfl⟩ := mem_map.1 hz
    split <;> exact (hall i).tickets z' hz'
  | use i s t ignoreFlush e hs hp he =>
    refine State.forall_put hall ⟨(hall i).stmt, fun hs' => by simp [hs] at hs', fun s r _ hp => by simp at hp,
      fun s t _ hp => by simp at hp, (hall i).tickets, fun s' hs' o ho => ?_⟩
    obtain rfl | ho := mem_cons.1 ho
    · obtain rfl : s = s' := Option.some.inj (hs.symm.trans hs')
      obtain ⟨v, hv, ⟨τ, hτ, hstamp⟩, -⟩ := h.element _ _ he
      obtain rfl : v = s.version := suffix_injective (hv.symm.trans ((h.session i).share s t hs hp))
      exact ⟨τ, hτ, hS _ _ hstamp⟩
    · exact (hall i).opened s' hs' o ho
  | finish i endTransaction =>
    refine State.forall_put hall ⟨fun s hs => by simp at hs, fun _ => rfl, fun s r hs => by simp at hs,
      fun s t hs => by simp at hs,
      fun y hy => ?_, fun s hs => by simp at hs⟩
    exact (hall i).tickets y (by cases endTransaction <;> simp_all)
  | load | publish | flushBegin | mark | flushEnd | evict => exact hall

/-- A share was loaded after the start of a statement of its key's version. -/
theorem elements_effect {st st₁ : State n} (h : Sound st) (heff : Effect st op st₁) :
    ∀ k e, st₁.element k = some e → e.Sound (Stamp { st₁ with clock := st.clock + 1 }) k := by
  have hS : ∀ v τ, Stamp st v τ → Stamp { st₁ with clock := st.clock + 1 } v τ := fun v τ => stamp_effect heff
  have hall : ∀ k e, st.element k = some e → e.Sound (Stamp { st₁ with clock := st.clock + 1 }) k := fun k e he =>
    (h.element k e he).mono hS
  cases heff with
  | load i s t hs hp =>
    refine forall_putElement st hall fun e he => ?_
    cases he
    have hstamp := (h.session i).stmt s hs
    refine ⟨s.version, (h.session i).share s t hs hp, ⟨s.started, hstamp.past, hS _ _ hstamp⟩, fun u hu => ?_⟩
    rw [mem_singleton.1 hu]
    exact hS _ _ hstamp
  | publish i s t e he =>
    refine forall_putElement st hall fun e' he' => ?_
    cases he'
    exact (hall _ e he).users rfl (nil_subset _)
  | use i s t ignoreFlush e hs hp he =>
    refine forall_putElement st hall fun e' he' => ?_
    cases he'
    obtain ⟨v, hv, hload, hu⟩ := hall _ e he
    obtain rfl : v = s.version := suffix_injective (hv.symm.trans ((h.session i).share s t hs hp))
    refine ⟨s.version, hv, hload, fun u hu' => ?_⟩
    obtain rfl | hu' := mem_cons.1 hu'
    · exact hS _ _ ((h.session i).stmt s hs)
    · exact hu u hu'
  | finish i endTransaction =>
    intro k e' he'
    obtain ⟨e, he, hdrop⟩ := Option.bind_eq_some_iff.1 he'
    obtain ⟨hl, hu⟩ := drop_some hdrop
    exact (hall k e he).users hl hu
  | mark k e he =>
    refine forall_putElement st hall fun e' he' => ?_
    split at he'
    · cases he'
    · cases he'
      exact (hall k e he).users rfl (List.Subset.refl _)
  | evict k => exact forall_putElement st hall fun e he => by cases he
  | start | found | queued | grant | upgrade | flushBegin | flushEnd => exact hall

theorem sound_step {st st' : State n} (h : Sound st) (hok : CarriesVersion st op) (hstep : step st op = some st') :
    Sound st' := by
  obtain ⟨st₁, heff, rfl⟩ := step_cases hstep
  have hsessions := sessions_effect h hok heff
  have helements := elements_effect h heff
  exact ⟨times_effect heff h.times, hsessions, helements⟩

/-! ## Waiting -/

/-- A flush before one statement of a version is completed before every other one of it. -/
theorem Stamp.after {v τ τ' c : Nat} (h : Stamp st v τ) (h' : Stamp st v τ') {f : FlushRun} (hf : f ∈ st.flushes)
    (hb : f.began < τ) (hc : f.completed = some c) : f.began < τ' ∧ c < τ' := by
  obtain ⟨j, hj⟩ := mem_iff_getElem?.1 hf
  have hb' := (h'.before j f hj).1 ((h.before j f hj).2 hb)
  obtain ⟨c', hc', hlt⟩ := h'.completed f hf hb'
  obtain rfl := Option.some.inj (hc.symm.trans hc')
  exact ⟨hb', hlt⟩

theorem Sound.lockWaits (h : Sound st) {type : MdlType} {τ v : Nat} (hk : k.version = suffix v)
    (hτ : τ ∈ st.lockWaits i k type) : Stamp st v τ := by
  obtain ⟨j, -, hj⟩ := mem_flatMap.1 hτ
  split at hj
  · simp at hj
  · rcases mem_append.1 hj with hj | hj
    · obtain ⟨x, hx, rfl⟩ := mem_map.1 hj
      obtain ⟨hx, hcond⟩ := mem_filter.1 hx
      obtain ⟨w, hw, hstamp⟩ := (h.session j).tickets x hx
      have hxk : x.key = k := (of_decide_eq_true hcond).1
      obtain rfl : w = v := suffix_injective (hw.symm.trans (hxk ▸ hk))
      exact hstamp
    · split at hj
      · rename_i s r hs hp
        split at hj
        · rename_i hcond
          obtain rfl := mem_singleton.1 hj
          have hkey := (h.session j).lock s r hs hp
          have hv : s.version = v := suffix_injective (hkey.symm.trans (by rw [← hk, ← hcond.1]; rfl))
          exact hv ▸ (h.session j).stmt s hs
        · simp at hj
      · simp at hj

theorem Sound.shareWaits (h : Sound st) {τ v : Nat} (hk : k.version = suffix v)
    (hτ : τ ∈ st.shareWaits i k) : Stamp st v τ := by
  unfold State.shareWaits at hτ
  split at hτ
  · rename_i e he
    split at hτ
    · obtain ⟨u, hu, rfl⟩ := mem_map.1 hτ
      obtain ⟨w, hw, -, husers⟩ := h.element k e he
      obtain rfl : w = v := suffix_injective (hw.symm.trans hk)
      exact husers u (mem_of_mem_filter hu)
    · simp at hτ
  · simp at hτ

/-- What a statement waits for belongs to statements of its version. -/
theorem Sound.waitsFor (h : Sound st) {s : Stmt} (hs : (st.session i).stmt = some s) {τ : Nat}
    (hτ : τ ∈ st.waitsFor i) : Stamp st s.version τ := by
  unfold State.waitsFor at hτ
  rw [hs] at hτ
  split at hτ
  · rename_i s' r hs' hp
    cases hs'
    exact h.lockWaits ((h.session i).lock s r hs hp) hτ
  · rename_i s' t hs' hp
    cases hs'
    exact h.shareWaits ((h.session i).share s t hs hp) hτ
  · simp at hτ

theorem Sound.prompt (h : Sound st) : Prompt st := by
  intro i s hs f hf c hc hlt
  have hstamp := (h.session i).stmt s hs
  have hb : f.began < s.started := (h.times.completed f hf c hc).1.trans hlt
  refine ⟨fun o ho => ?_, fun τ hτ => (hstamp.after (h.waitsFor hs hτ) hf hb hc).2⟩
  obtain ⟨τ, hτ, hload⟩ := (h.session i).opened s hs o ho
  exact (hstamp.after hload hf hb hc).1.trans hτ

theorem prompt_of_carriesVersion (ops : List (Op n)) (st : State n) (hok : Along step CarriesVersion (.initial n) ops)
    (hrun : runOps step (.initial n) ops = some st) : Prompt st := by
  refine (Along.invariant Sound (fun st op st' h hok hstep => sound_step h hok hstep)
    ⟨⟨rfl, ?_, ?_⟩, fun i => ⟨?_, ?_, ?_, ?_, ?_, ?_⟩,
    ?_⟩ hok hrun).prompt
  all_goals simp [State.initial]

def readIn (i : Fin n) (t : Nat) : List (Op n) := [.ask i ⟨t, .sharedRead, false⟩, .grant i, .load i,
    .publish i, .use i false]

def first : Fin 2 := ⟨0, Nat.two_pos⟩

def second : Fin 2 := ⟨1, Nat.one_lt_two⟩

/-- Session 1 reads table 0 while a flush goes over its definition; session 0 starts after the flush and reads it anew. -/
def readAfterFlush : List (Op 2) :=
  [.start second none] ++ readIn second 0 ++ [.flushBegin, .mark ⟨0, none⟩, .flushEnd 0, .start first none] ++ readIn first 0

theorem prompt_readAfterFlush : ∃ st : State 2, runOps step (.initial 2) readAfterFlush = some st ∧
    (st.session 0).opened = [⟨0, ⟨0, some 1⟩, 12⟩] ∧ (st.session 1).opened = [⟨0, ⟨0, none⟩, 3⟩] ∧ Prompt st := by
  refine ⟨(runOps step (.initial 2) readAfterFlush).get (by decide +kernel), (Option.some_get _).symm, by decide +kernel,
    by decide +kernel, ?_⟩
  exact prompt_of_carriesVersion readAfterFlush _ (by decide +kernel) (Option.some_get _).symm

/-- Session 0 executes a prepared statement after a flush, on a table that session 1 keeps open, and once more after another
one; its key still has version 1. -/
def executeAgain : List (Op 2) :=
  [.flushBegin, .flushEnd 0, .start first (some 7)] ++ readIn first 0 ++
    [.finish first true, .start second none, .ask second ⟨0, .sharedRead, false⟩, .grant second, .use second false,
      .flushBegin, .mark ⟨0, some 1⟩, .flushEnd 1, .start first (some 7), .ask first ⟨0, .sharedRead, false⟩, .grant first]

/-- A prepared statement asks under the key of its first execution, and waits for a statement of that version. -/
theorem not_prompt : ∃ st : State 2, runOps step (.initial 2) executeAgain = some st ∧
    (st.session 0).stmt = some ⟨some 7, 2, 16⟩ ∧ (st.session 0).pending = some (.share 0) ∧
    (st.session 0).keys (some 7) 0 = some 1 ∧
    st.flushes[1]? = some ⟨13, some 15⟩ ∧ st.waitsFor 0 = [9] ∧ ¬ Prompt st := by
  refine ⟨(runOps step (.initial 2) executeAgain).get (by decide +kernel), (Option.some_get _).symm, by decide +kernel,
    by decide +kernel, by decide +kernel, by decide +kernel, by decide +kernel, fun h => ?_⟩
  have hlt := (h 0 ⟨some 7, 2, 16⟩ (by decide +kernel) ⟨13, some 15⟩ (by decide +kernel) 15 rfl (by decide)).2 9
    (by decide +kernel)
  exact absurd hlt (by decide)

end TSpider.Flush

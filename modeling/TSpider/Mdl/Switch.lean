import Mathlib.Data.Nat.Notation
import TSpider.Lib.Run

/-!
# The shared tickets on the switch lock

With `spider_internal_xa` on, `GET_LOCK`, `HANDLER` and `FLUSH TABLES WITH READ LOCK` take explicit shared tickets on the lock
`spider_switch_lock` and note each in one field: of the session, of the handler, of the global read lock.

* `Accounted` : every ticket is held or was released once, `release_lock` was never called with `NULL`, and a session without
  a user lock, open handler or global read lock holds none;
* `tickets_accounted` : this holds along every run that is `Tidy`.
-/

namespace TSpider.Mdl.Switch

open Lib List

structure Handler (ν : Type*) where
  name : ν
  table : Bool
  share : Option ℕ
  deriving DecidableEq

/-- Tickets are numbers, `NULL` is `none`. -/
structure Session (ν : Type*) where
  tickets : List ℕ
  fresh : ℕ
  /-- what `release_lock` was called with, for the switch lock -/
  released : List (Option ℕ)
  /-- `ull_hash` with the reference counts, and `mdl_user_share_lock` -/
  ulls : List (ν × ℕ)
  userShare : Option ℕ
  handlers : List (Handler ν)
  /-- `m_mdl_user_xa_switch_s_lock`, and whether the global read lock is acquired -/
  switchS : Option ℕ
  acquired : Bool

open Session

/-- Where opening the handler's table ends: before the request for the switch lock, with its failure, behind it, or well. -/
inductive Open
  | before | refused | behind | ok
  deriving DecidableEq

inductive Op (ν : Type*)
  | getLock (name : ν) (switch lock : Bool)
  | releaseLock (name : ν)
  | haOpen (name : ν) (result : Open)
  | haRead (name : ν) (result : Open)
  | haFlush (name : ν)
  | haClose (name : ν)
  | flushReadLock (switch global rest : Bool)
  | unlockTables

namespace Session
variable {ν : Type*} (s : Session ν)

def init : Session ν := ⟨[], 0, [], [], none, [], none, false⟩

def acquire : Session ν := { s with tickets := s.fresh :: s.tickets, fresh := s.fresh + 1 }

def release (ticket : Option ℕ) : Session ν :=
  { s with tickets := ticket.elim s.tickets s.tickets.erase, released := ticket :: s.released }

def closeTable (h : Handler ν) : Session ν := if h.table then s.release h.share else s

/-- `mysql_ha_open`; `keep` is what a failure behind the request for the switch lock leaves of the handler. -/
def openTable (name : ν) (keep : Option (Handler ν)) : Open → Session ν
  | .before => s
  | .refused => { s with handlers := ⟨name, true, none⟩ :: s.handlers }
  | .behind => { s.acquire with handlers := keep.toList ++ s.handlers }
  | .ok => { s.acquire with handlers := ⟨name, true, some s.fresh⟩ :: s.handlers }

def unlockGlobal : Session ν := { s.release s.switchS with switchS := none, acquired := false }

/-- `FLUSH TABLES WITH READ LOCK`: the requests for the switch lock and the global lock, and what follows them -/
def flushReadLock (switch global rest : Bool) : Session ν :=
  if s.acquired then if rest then s else s.unlockGlobal
  else if switch = false then s
  else
    let s := { s.acquire with switchS := some s.fresh }
    if global = false then s
    else
      let s := { s with acquired := true }
      if rest then s else s.unlockGlobal

def unlockTables : Session ν := if s.acquired then s.unlockGlobal else s

section Ops
variable [DecidableEq ν] (name : ν)

def setRefs (refs : ℕ) : Session ν := { s with ulls := s.ulls.map fun e => if e.1 = name then (name, refs) else e }

/-- `Item_func_get_lock::val_int`; the requests for the two locks may fail. -/
def getLock (switch lock : Bool) : Session ν :=
  if switch = false then s
  else
    let s := { s.acquire with userShare := some s.fresh }
    match s.ulls.find? (·.1 = name) with
    | some e => s.setRefs name (e.2 + 1)
    | none => if lock then { s with ulls := (name, 1) :: s.ulls } else s

def releaseLock : Session ν :=
  match s.ulls.find? (·.1 = name) with
  | none => s
  | some e =>
    let s := if e.2 = 1 then { s with ulls := s.ulls.erase e } else s.setRefs name (e.2 - 1)
    { s.release s.userShare with userShare := none }

def haOpen (result : Open) : Session ν :=
  match s.handlers.find? (·.name = name) with
  | some _ => s
  | none => s.openTable name none result

def without (h : Handler ν) : Session ν := { s with handlers := s.handlers.erase h }

/-- `mysql_ha_find_handler`: a table that was closed is opened again. -/
def haRead (result : Open) : Session ν :=
  match s.handlers.find? (·.name = name) with
  | some h => if h.table ∨ result = .before then s else (s.without h).openTable name (some ⟨name, false, none⟩) result
  | none => s

def haFlush : Session ν :=
  match s.handlers.find? (·.name = name) with
  | some h =>
    let s := (s.without h).closeTable h
    { s with handlers := ⟨name, false, none⟩ :: s.handlers }
  | none => s

def haClose : Session ν :=
  match s.handlers.find? (·.name = name) with
  | some h => (s.without h).closeTable h
  | none => s

end Ops

def step [DecidableEq ν] (s : Session ν) : Op ν → Option (Session ν)
  | .getLock name switch lock => some (s.getLock name switch lock)
  | .releaseLock name => some (s.releaseLock name)
  | .haOpen name result => some (s.haOpen name result)
  | .haRead name result => some (s.haRead name result)
  | .haFlush name => some (s.haFlush name)
  | .haClose name => some (s.haClose name)
  | .flushReadLock switch global rest => some (s.flushReadLock switch global rest)
  | .unlockTables => some s.unlockTables

/-- `GET_LOCK` finds no other user lock and gets its own, and no request fails behind one that was granted. -/
def Tidy : Op ν → Prop
  | .getLock _ switch lock => switch = true → s.ulls = [] ∧ lock = true
  | .haOpen _ result | .haRead _ result => result = .before ∨ result = .ok
  | .flushReadLock switch global _ => switch = true → s.acquired = true ∨ global = true
  | _ => True

instance (op : Op ν) : Decidable (s.Tidy op) := by
  unfold Tidy
  split <;> infer_instance

/-- Every ticket is held or was released once, and nothing else was released. -/
structure Once : Prop where
  once : ∀ t, s.released.count (some t) + s.tickets.count t = if t < s.fresh then 1 else 0
  noNull : none ∉ s.released

structure Accounted : Prop extends s.Once where
  idle : s.ulls = [] → (∀ h ∈ s.handlers, h.table = false) → s.acquired = false → s.tickets = []

/-! ## The books -/

def noted : List ℕ := s.userShare.toList ++ (s.handlers.filterMap Handler.share ++ s.switchS.toList)

structure Books : Prop extends s.Once where
  noted : s.tickets.Perm s.noted

structure Inv : Prop extends s.Books where
  user : s.ulls = [] ∧ s.userShare = none ∨ ∃ n, s.ulls = [(n, 1)] ∧ s.userShare.isSome = true
  handlers : ∀ h ∈ s.handlers, h.share.isSome = h.table
  global : s.switchS.isSome = s.acquired

variable {s} {s' : Session ν}

theorem Books.acquire (h : s.Books) (hreleased : s'.released = s.released) (htickets : s'.tickets = s.fresh :: s.tickets)
    (hfresh : s'.fresh = s.fresh + 1) (hnoted : s'.noted.Perm (s.fresh :: s.noted)) : s'.Books where
  once t := by
    have hold := h.once t
    rw [hreleased, htickets, hfresh, count_cons, ← Nat.add_assoc, hold]
    by_cases ht : s.fresh = t
    · simp [ht]
    · have hlt : t < s.fresh + 1 ↔ t < s.fresh := by omega
      simp [ht, hlt]
  noNull := hreleased ▸ h.noNull
  noted := by
    rw [htickets]
    exact (h.noted.cons _).trans hnoted.symm

theorem Books.release (h : s.Books) {t : ℕ} (hreleased : s'.released = some t :: s.released)
    (htickets : s'.tickets = s.tickets.erase t) (hfresh : s'.fresh = s.fresh) (hnoted : s.noted.Perm (t :: s'.noted)) :
    s'.Books where
  once u := by
    have hold := h.once u
    have hmem : t ∈ s.tickets := (h.noted.trans hnoted).mem_iff.mpr mem_cons_self
    have hpos := count_pos_iff.mpr hmem
    rw [hreleased, htickets, hfresh, ← hold, count_cons]
    by_cases hu : t = u
    · subst hu
      simp
      omega
    · rw [count_erase_of_ne (Ne.symm hu)]
      simp [hu]
  noNull := by simpa [hreleased] using h.noNull
  noted := by
    rw [htickets]
    simpa using (h.noted.trans hnoted).erase t

theorem Books.keep (h : s.Books) (hreleased : s'.released = s.released) (htickets : s'.tickets = s.tickets)
    (hfresh : s'.fresh = s.fresh) (hnoted : s.noted.Perm s'.noted) : s'.Books where
  once t := by rw [hreleased, htickets, hfresh, h.once]
  noNull := hreleased ▸ h.noNull
  noted := htickets ▸ h.noted.trans hnoted

theorem noted_cons (h : Handler ν) :
    ({ s with handlers := h :: s.handlers } : Session ν).noted.Perm (h.share.toList ++ s.noted) := by
  have hcons : ({ s with handlers := h :: s.handlers } : Session ν).noted =
      s.userShare.toList ++ (h.share.toList ++ (s.handlers.filterMap Handler.share ++ s.switchS.toList)) := by
    cases hshare : h.share <;> simp [noted, hshare]
  rw [hcons]
  exact perm_append_comm_assoc _ _ _

/-! ## Steps -/

theorem Inv.openTable (hs : s.Inv) (name : ν) (keep : Option (Handler ν)) : (s.openTable name keep .ok).Inv :=
  ⟨hs.toBooks.acquire rfl rfl rfl (noted_cons _), hs.user, forall_mem_cons.mpr ⟨rfl, hs.handlers⟩, hs.global⟩

theorem Inv.unlockGlobal (hs : s.Inv) (hacquired : s.acquired = true) : s.unlockGlobal.Inv := by
  obtain ⟨t, ht⟩ := Option.isSome_iff_exists.mp (hs.global.trans hacquired)
  unfold Session.unlockGlobal
  rw [ht]
  refine ⟨hs.toBooks.release rfl rfl rfl ?_, hs.user, hs.handlers, rfl⟩
  have hlast : s.noted = (s.userShare.toList ++ s.handlers.filterMap Handler.share) ++ [t] := by simp [noted, ht]
  rw [hlast]
  refine (perm_append_singleton _ _).trans (.cons _ (.of_eq ?_))
  simp [noted, Session.release]

theorem Inv.flushReadLock (hs : s.Inv) {switch global rest : Bool} (hok : s.Tidy (.flushReadLock switch global rest)) :
    (s.flushReadLock switch global rest).Inv := by
  unfold Session.flushReadLock
  by_cases hacquired : s.acquired = true
  · rw [if_pos hacquired]
    split
    · exact hs
    · exact hs.unlockGlobal hacquired
  rw [if_neg hacquired]
  cases switch with
  | false => exact hs
  | true =>
    obtain rfl := (hok rfl).resolve_left hacquired
    have hnone : s.switchS = none := by simpa [hacquired] using hs.global
    have hinv : Inv { s.acquire with switchS := some s.fresh, acquired := true } := by
      refine ⟨hs.toBooks.acquire rfl rfl rfl ?_, hs.user, hs.handlers, rfl⟩
      have hlast : ({ s.acquire with switchS := some s.fresh, acquired := true } : Session ν).noted =
        s.noted ++ [s.fresh] := by
        simp [noted, Session.acquire, hnone]
      rw [hlast]
      exact perm_append_singleton _ _
    cases rest with
    | true => exact hinv
    | false => exact hinv.unlockGlobal rfl

theorem Inv.accounted (hs : s.Inv) : s.Accounted := by
  refine ⟨hs.toOnce, fun hulls hclosed hacquired => ?_⟩
  have huser : s.userShare = none := (hs.user.resolve_right fun ⟨n, hn, _⟩ => by simp [hulls] at hn).2
  have hswitch : s.switchS = none := by simpa [hacquired] using hs.global
  have hshares : s.handlers.filterMap Handler.share = [] := by
    refine filterMap_eq_nil_iff.mpr fun h hh => ?_
    simpa [hclosed h hh] using hs.handlers h hh
  have hnoted := hs.noted
  rw [noted, huser, hswitch, hshares] at hnoted
  exact hnoted.eq_nil

variable [DecidableEq ν]

theorem noted_erase {h : Handler ν} (hmem : h ∈ s.handlers) : s.noted.Perm (h.share.toList ++ (s.without h).noted) := by
  have hperm : (s.handlers.filterMap Handler.share).Perm
    (h.share.toList ++ (s.handlers.erase h).filterMap Handler.share) := by
    refine ((perm_cons_erase hmem).filterMap _).trans (.of_eq ?_)
    cases hshare : h.share <;> simp [hshare]
  have happend := (hperm.append_right s.switchS.toList).append_left s.userShare.toList
  refine happend.trans ?_
  rw [append_assoc]
  exact perm_append_comm_assoc _ _ _

theorem Inv.closeTable (hs : s.Inv) {h : Handler ν} (hmem : h ∈ s.handlers) : ((s.without h).closeTable h).Inv := by
  have hnoted := noted_erase hmem
  have hsome := hs.handlers h hmem
  have hrest : ∀ k ∈ s.handlers.erase h, k.share.isSome = k.table := fun k hk => hs.handlers k (mem_of_mem_erase hk)
  unfold Session.closeTable
  cases htable : h.table with
  | false =>
    obtain hnone : h.share = none := by simpa [htable] using hsome
    rw [hnone] at hnoted
    exact ⟨hs.toBooks.keep rfl rfl rfl hnoted, hs.user, hrest, hs.global⟩
  | true =>
    obtain ⟨t, ht⟩ := Option.isSome_iff_exists.mp (hsome.trans htable)
    rw [ht] at hnoted ⊢
    exact ⟨hs.toBooks.release rfl rfl rfl hnoted, hs.user, hrest, hs.global⟩

theorem Inv.getLock (hs : s.Inv) (name : ν) {switch lock : Bool} (hok : s.Tidy (.getLock name switch lock)) :
    (s.getLock name switch lock).Inv := by
  unfold Session.getLock
  cases switch with
  | false => exact hs
  | true =>
    obtain ⟨hnil, rfl⟩ := hok rfl
    have hnone : s.userShare = none := (hs.user.resolve_right fun ⟨n, hn, _⟩ => by simp [hnil] at hn).2
    simp only [Session.acquire, hnil, Bool.true_eq_false, if_false, List.find?_nil, if_true]
    exact ⟨hs.toBooks.acquire rfl rfl rfl (by simp [noted, hnone]), .inr ⟨name, rfl, rfl⟩, hs.handlers, hs.global⟩

theorem Inv.releaseLock (hs : s.Inv) (name : ν) : (s.releaseLock name).Inv := by
  unfold Session.releaseLock
  split
  · exact hs
  · rename_i e he
    obtain ⟨n, hn, hsome⟩ := hs.user.resolve_left fun h => by simp [h.1] at he
    obtain ⟨t, ht⟩ := Option.isSome_iff_exists.mp hsome
    obtain rfl : e = (n, 1) := by
      rw [hn] at he
      simpa using mem_of_find?_eq_some he
    simp only [if_true, hn, ht, erase_cons_head]
    exact ⟨hs.toBooks.release rfl rfl rfl (by simp [noted, ht, Session.release]), .inl ⟨rfl, rfl⟩, hs.handlers, hs.global⟩

theorem Inv.step (hs : s.Inv) {op : Op ν} (hok : s.Tidy op) (hstep : s.step op = some s') : s'.Inv := by
  cases op <;> cases hstep
  case getLock name switch lock => exact hs.getLock name hok
  case releaseLock name => exact hs.releaseLock name
  case flushReadLock => exact hs.flushReadLock hok
  case unlockTables =>
    unfold unlockTables
    split_ifs with h
    · exact hs.unlockGlobal h
    · exact hs
  case haOpen name result =>
    unfold haOpen
    split
    · exact hs
    · rcases hok with rfl | rfl
      · exact hs
      · exact hs.openTable name none
  case haRead name result =>
    unfold haRead
    split
    · rename_i h hfind
      split_ifs with hstay
      · exact hs
      · rw [not_or] at hstay
        obtain rfl := hok.resolve_left hstay.2
        have hclosed := hs.closeTable (mem_of_find?_eq_some hfind)
        rw [Session.closeTable, if_neg hstay.1] at hclosed
        exact hclosed.openTable name _
    · exact hs
  case haFlush name =>
    unfold haFlush
    split
    · rename_i h hfind
      have hclosed := hs.closeTable (mem_of_find?_eq_some hfind)
      exact ⟨hclosed.toBooks.keep rfl rfl rfl (noted_cons ⟨name, false, none⟩).symm, hclosed.user,
        forall_mem_cons.mpr ⟨rfl, hclosed.handlers⟩, hclosed.global⟩
    · exact hs
  case haClose name =>
    unfold haClose
    split
    · rename_i h hfind
      exact hs.closeTable (mem_of_find?_eq_some hfind)
    · exact hs

end Session

/-- **Switch-lock accounting**, if `GET_LOCK` finds no other user lock and gets its own, and no request fails behind a granted
one.
-/
theorem tickets_accounted {ν : Type*} [DecidableEq ν] (ops : List (Op ν)) (s : Session ν)
    (hok : Along step Tidy .init ops) (hrun : runOps step .init ops = some s) : s.Accounted := by
  have hinit : (init : Session ν).Inv :=
    ⟨⟨⟨fun t => by simp [init], by simp [init]⟩, .refl _⟩, .inl ⟨rfl, rfl⟩, by simp [init], rfl⟩
  exact (Along.invariant Inv (fun _ _ _ hs hok hstep => hs.step hok hstep) hinit hok hrun).accounted

def orderly : List (Op ℕ) :=
  [.getLock 0 true true, .haOpen 1 .ok, .haFlush 1, .haRead 1 .ok, .flushReadLock true true true, .releaseLock 0, .haClose 1,
    .unlockTables]

theorem orderly_accounted : ∃ s, runOps step (.init : Session ℕ) orderly = some s ∧ s.fresh = 4 ∧ s.Accounted :=
  ⟨_, rfl, rfl, tickets_accounted orderly _ (by decide) rfl⟩

/-- With two user locks the second ticket is lost and `NULL` is released; a user lock that is not granted leaves a ticket. -/
theorem tickets_lost :
    (∃ s, runOps step (.init : Session ℕ) [.getLock 0 true true, .getLock 1 true true, .releaseLock 0,
      .releaseLock 1] = some s ∧
      ¬ s.Accounted) ∧ ∃ s, runOps step (.init : Session ℕ) [.getLock 0 true false] = some s ∧ ¬ s.Accounted :=
  ⟨⟨_, rfl, fun h => absurd h.noNull (by decide)⟩, _, rfl, fun h => absurd (h.idle rfl (by decide) rfl) (by decide)⟩

end TSpider.Mdl.Switch

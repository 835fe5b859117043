import TSpider.Flush.Steps

/-!
# DDL under FLUSH TABLES WITH NO BLOCK

`lock_table_names` asks for its lock under the name of the table, `open_table` under the name and the version; once a flush
has raised the version these are different lock objects. `exclusive_of_keyAgrees` : where the keys agree, a lock taken by name
keeps all other sessions out.
-/

namespace TSpider.Flush
open Lib State

variable {n : Nat} {st st' : State n}

def Ticket.isDdl (x : Ticket) : Bool := x.byName && x.type == .exclusive

/-- While a session holds an exclusive lock by name, no other session whose statement started after the last flush has a lock
on the table or has it open. -/
def Exclusive (st : State n) : Prop :=
  ∀ i j, j ≠ i → ∀ x ∈ (st.session i).tickets, x.isDdl → ∀ s, (st.session j).stmt = some s →
    (∀ f ∈ st.flushes, ∃ c, f.completed = some c ∧ c < s.started) →
      (∀ y ∈ (st.session j).tickets, y.key.name ≠ x.key.name) ∧ ∀ o ∈ (st.session j).opened, o.table ≠ x.key.name

/-- Other sessions' locks on the table of `k` have the key `k`; only those taken by name for DDL count, unless `all`. -/
def SameKey (st : State n) (i : Fin n) (k : Key) (all : Bool) : Prop :=
  ∀ j, j ≠ i → ∀ y ∈ (st.session j).tickets, y.key.name = k.name → (all || y.isDdl) → y.key = k

instance (st : State n) (i : Fin n) (k : Key) (all : Bool) : Decidable (SameKey st i k all) := by
  unfold SameKey; infer_instance

/-- The condition on a step: a lock for DDL and the locks of other sessions on the table have one key. -/
def KeyAgrees (st : State n) : Op n → Prop
  | .grant i =>
    match (st.session i).stmt, (st.session i).pending with
    | some s, some (.lock r) => SameKey st i ((st.session i).key s r.table) (r.byName && r.type == .exclusive)
    | _, _ => True
  | .upgrade i t =>
    match (st.session i).tickets.find? (·.upgradable t) with
    | some y => SameKey st i y.key true
    | none => True
  | _ => True

instance (st : State n) (op : Op n) : Decidable (KeyAgrees st op) := by
  unfold KeyAgrees
  split
  · split <;> infer_instance
  · split <;> infer_instance
  · infer_instance

/-! ## Invariant -/

structure Session.Covered (x : Session) : Prop where
  pending : ∀ s t, x.stmt = some s → x.pending = some (.share t) → ∃ y ∈ x.tickets, y.key = x.key s t
  opened : ∀ o ∈ x.opened, o.key.name = o.table ∧ ∃ y ∈ x.tickets, y.key = o.key

def Alone (st : State n) : Prop :=
  ∀ i j, j ≠ i → ∀ x ∈ (st.session i).tickets, x.isDdl → ∀ y ∈ (st.session j).tickets, y.key.name ≠ x.key.name

theorem findTicket_key {name : Nat} {type : MdlType} {xs : List Ticket} {v : Option Nat} {x : Ticket}
    (h : (findTicket name type xs v).1 = some x) : x ∈ xs ∧ x.key = ⟨name, (findTicket name type xs v).2⟩ := by
  induction xs generalizing v with
  | nil => simp [findTicket] at h
  | cons y ys ih =>
    unfold findTicket at h ⊢
    simp only at h ⊢
    split at h
    · rename_i hy
      rw [if_pos hy]
      cases h
      exact ⟨List.mem_cons_self, hy.1⟩
    · rename_i hy
      rw [if_neg hy]
      obtain ⟨hmem, hkey⟩ := ih h
      exact ⟨List.mem_cons_of_mem _ hmem, hkey⟩

theorem exists_key_map {xs : List Ticket} {y : Ticket} {k : Key} (h : ∃ x ∈ xs, x.key = k) :
    ∃ x ∈ xs.map (fun z => if z = y then { z with type := .exclusive } else z), x.key = k := by
  obtain ⟨x, hx, hk⟩ := h
  refine ⟨_, List.mem_map_of_mem hx, ?_⟩
  split <;> exact hk

/-- Open tables, and one that is about to be opened, stay covered by a ticket with their key. -/
theorem covered_effect {op : Op n} (h : ∀ j, (st.session j).Covered) (heff : Effect st op st') :
    ∀ j, (st'.session j).Covered := by
  cases heff with
  | start i handle hs =>
    exact forall_put h ⟨fun s t _ hp => by simp at hp, (h i).opened⟩
  | found i s r x hs hp hx =>
    refine forall_put h ⟨fun s' t hs' hp' => ?_, (h i).opened⟩
    obtain rfl : s = s' := Option.some.inj (hs.symm.trans hs')
    obtain rfl : r.table = t := Request.table_of_next hp'
    obtain ⟨hmem, hkey⟩ := findTicket_key hx
    exact ⟨x, hmem, by simpa [Session.key, Session.setKey, Session.settledVersion] using hkey⟩
  | queued i s r hs hp => exact forall_put h ⟨fun s t _ hp => by simp at hp, (h i).opened⟩
  | grant i s r hs hp hc =>
    refine forall_put h ⟨fun s' t hs' hp' => ?_, fun o ho => ?_⟩
    · obtain rfl : s = s' := Option.some.inj (hs.symm.trans hs')
      obtain rfl : r.table = t := Request.table_of_next hp'
      exact ⟨_, List.mem_cons_self, rfl⟩
    · obtain ⟨hname, y, hy, hk⟩ := (h i).opened o ho
      exact ⟨hname, y, List.mem_cons_of_mem _ hy, hk⟩
  | upgrade i t y hy hc =>
    refine forall_put h ⟨fun s t hs hp => exists_key_map ((h i).pending s t hs hp), fun o ho => ?_⟩
    obtain ⟨hname, hk⟩ := (h i).opened o ho
    exact ⟨hname, exists_key_map hk⟩
  | use i s t ignoreFlush e hs hp he =>
    refine forall_put h ⟨fun s t _ hp => by simp at hp, fun o ho => ?_⟩
    obtain rfl | ho := List.mem_cons.1 ho
    · exact ⟨rfl, (h i).pending s t hs hp⟩
    · exact (h i).opened o ho
  | finish i endTransaction =>
    exact forall_put h ⟨fun s t _ hp => by simp at hp, fun o ho => by simp at ho⟩
  | load | publish | flushBegin | mark | flushEnd | evict => exact h

/-- A ticket that conflicts with none and has the key of the others may be added. -/
theorem alone_put {st : State n} (h : Alone st) {i : Fin n} {x : Session} {w : Ticket}
    (hx : ∀ z ∈ x.tickets, z = w ∨ z ∈ (st.session i).tickets) (hc : ¬st.conflict i w.key w.type)
    (hk : SameKey st i w.key w.isDdl) : Alone (st.put i x) := by
  -- no lock of another session on the table meets the new one, if one of the two is for DDL
  have hw (j : Fin n) (hj : j ≠ i) (y : Ticket) (hy : y ∈ (st.session j).tickets) (hd : w.isDdl = true ∨ y.isDdl = true) :
      y.key.name ≠ w.key.name := by
    intro hname
    refine hc ⟨j, hj, y, hy, hk j hj y hy hname (by simpa using hd), ?_⟩
    rcases hd with hd | hd
    · have hex : w.type = .exclusive := by simpa using (Bool.and_eq_true_iff.1 hd).2
      exact hex ▸ MdlType.mem_grantedIncompatible_exclusive _
    · have hex : y.type = .exclusive := by simpa using (Bool.and_eq_true_iff.1 hd).2
      exact hex ▸ MdlType.exclusive_mem_grantedIncompatible _
  intro a b hab y hy hd z hz
  rcases eq_or_ne a i with rfl | ha
  · rw [put_session_self] at hy
    rw [put_session_of_ne st x hab] at hz
    rcases hx y hy with rfl | hy
    · exact hw b hab z hz (.inl hd)
    · exact h a b hab y hy hd z hz
  · rw [put_session_of_ne st x ha] at hy
    rcases eq_or_ne b i with rfl | hb
    · rw [put_session_self] at hz
      rcases hx z hz with rfl | hz
      · exact (hw a ha y hy (.inr hd)).symm
      · exact h a b hab y hy hd z hz
    · rw [put_session_of_ne st x hb] at hz
      exact h a b hab y hy hd z hz

theorem Alone.mono (h : Alone st) (hsub : ∀ i, (st'.session i).tickets ⊆ (st.session i).tickets) : Alone st' :=
  fun i j hij x hx hd y hy => h i j hij x (hsub i hx) hd y (hsub j hy)

theorem put_tickets_subset (st : State n) {i : Fin n} {x : Session} (hx : x.tickets ⊆ (st.session i).tickets) (j : Fin n) :
    ((st.put i x).session j).tickets ⊆ (st.session j).tickets :=
  forall_put (P := fun j y => y.tickets ⊆ (st.session j).tickets) (fun _ => List.Subset.refl _) hx j

/-- A step under `KeyAgrees` gives no other session a ticket on the table of a lock for DDL. -/
theorem alone_effect {op : Op n} (h : Alone st) (hok : KeyAgrees st op) (heff : Effect st op st') : Alone st' := by
  cases heff with
  | grant i s r hs hp hc =>
    simp only [KeyAgrees, hs, hp] at hok
    exact alone_put h (fun z hz => by simpa using hz) hc hok
  | upgrade i t y hy hc =>
    simp only [KeyAgrees, hy] at hok
    have hname : y.byName = true := by
      have := List.find?_some hy
      simp only [Ticket.upgradable, Bool.and_eq_true] at this
      exact this.1.1
    refine alone_put (w := { y with type := .exclusive }) h (fun z hz => ?_) hc (by simpa [Ticket.isDdl, hname] using hok)
    obtain ⟨z', hz', rfl⟩ := List.mem_map.1 hz
    split
    · rename_i heq
      exact .inl (by rw [heq])
    · exact .inr hz'
  | start | found | queued => exact h.mono (put_tickets_subset st (List.Subset.refl _))
  | use i s t ignoreFlush e hs hp he =>
    exact h.mono (put_tickets_subset (st.putElement _ _) (List.Subset.refl _))
  | finish i endTransaction =>
    refine h.mono (put_tickets_subset st ?_)
    cases endTransaction
    · exact List.Subset.refl _
    · exact List.nil_subset _
  | load | publish | flushBegin | mark | flushEnd | evict => exact h

/-- The table of a lock for DDL is open in no other session. -/
theorem Alone.exclusive {st : State n} (h : Alone st) (hcov : ∀ j, (st.session j).Covered) : Exclusive st := by
  intro i j hij x hx hd s _ _
  refine ⟨h i j hij x hx hd, fun o ho hname => ?_⟩
  obtain ⟨hkey, y, hy, hyk⟩ := (hcov j).opened o ho
  exact h i j hij x hx hd y hy (by rw [hyk, hkey, hname])

def lockAfterRead : List (Op 2) :=
  [.start 1 none, .ask 1 ⟨0, .sharedRead, false⟩, .grant 1, .load 1, .publish 1, .use 1 false, .finish 1 true,
    .start 0 none, .ask 0 ⟨0, .exclusive, true⟩, .grant 0, .start 1 none]

/-- After a flush session 1 reads table 0 under the key with version 1, and session 0 locks it under the name alone. -/
def lockDuringRead : List (Op 2) :=
  [.flushBegin, .flushEnd 0, .start 1 none, .ask 1 ⟨0, .sharedRead, false⟩, .grant 1, .load 1, .publish 1, .use 1 false,
    .start 0 none, .ask 0 ⟨0, .exclusive, true⟩, .grant 0]

end TSpider.Flush

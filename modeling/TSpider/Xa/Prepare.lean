import TSpider.Xa.Spec

/-!
# The prepare phase

`Ready st` is the state in which `spider_commit` finds an internal XA transaction. For such a state this file says which
replies and log accesses let `spider_internal_xa_prepare` go on (`LogWritable`, `Conn.prepares`), and what it leaves on the
shards: the participants but the last are prepared, the last one has committed in one phase.
-/

namespace TSpider.Xa
open Lib

structure Ready (st : State) : Prop where
  trxStart : st.trx.trxStart = true
  trxXa : st.trx.trxXa = true
  internalXa : st.trx.internalXa = true
  notPrepared : st.trx.trxXaPrepared = false
  joined_ne : st.trx.joinTrxTop ≠ []
  nodup : st.trx.joinTrxTop.Nodup
  joinTrx : ∀ c ∈ st.trx.joinTrxTop, (st.conn c).joinTrx = true
  twoPhase : ∀ c ∈ st.trx.joinTrxTop, (st.conn c).isXaCommitOnePhase = false
  /-- `disable_xa` is set for a connection that holds a lock of `LOCK TABLES` kind 3. -/
  disableXa : ∀ c ∈ st.trx.joinTrxTop, (st.conn c).disableXa = true → (st.conn c).tableLock = 3
  undecided : ∀ c, st.world.branch c ≠ .prepared ∧ st.world.branch c ≠ .committed
  noRow : st.log.xa st.trx.xid = none
  noMember : st.log.member st.trx.xid = []
  trace : st.trace = []
  nullDeref : st.nullDeref = false

/-- The defaults of `spd_param.cc`, in a transaction begun with `BEGIN`. -/
def Params.default : Params where
  forceCommit := 2
  ignoreXaLog := true
  xaRegisterMode := 1
  connRecycleMode := 1
  multiStmt := true
  withBeginCommit := false
  errorWhenFlushServer := false
  lastKilled := .notKilled

def Env.quiet : Env where
  reply _ _ := .ack
  log _ := none
  failedLogError _ := false
  versionChanged _ := false
  putFails _ := false

def Conn.inBranch (host : Nat) : Conn where
  joinTrx := true
  disableXa := false
  tableLock := 0
  errorMode := false
  serverLost := false
  disableReconnect := true
  queuedConnect := false
  queuedTrxStart := false
  queuedXaStart := false
  queuedAutocommit := none
  queuedSemiTrxIsolation := false
  isXaCommitOnePhase := false
  useForActiveStandby := false
  ignoreDupKey := false
  trxStart := false
  tableLocked := false
  openedHandlers := false
  autocommit := 0
  trxIsolation := 2
  semiTrxIsolation := -2
  server := ⟨host, 0⟩

def State.updatedOn (cs : List ConnId) : State where
  isError := false
  trx := {
    trxStart := true, trxXa := true, trxXaPrepared := false, internalXa := true, updatedInThisTrx := true
    trxConsistentSnapshot := false, xid := 1, joinTrxTop := cs, trxConnHash := cs }
  conn := Conn.inBranch
  world := { branch := fun c => if c ∈ cs then .active else .none, trxOpen := fun _ => false, autocommit := fun _ => false }
  log := { xa := fun _ => none, member := fun _ => [] }
  trace := []
  pool := []
  nullDeref := false

theorem updatedOn_ready {cs : List ConnId} (hne : cs ≠ []) (hnodup : cs.Nodup) : Ready (.updatedOn cs) where
  trxStart := rfl
  trxXa := rfl
  internalXa := rfl
  notPrepared := rfl
  joined_ne := hne
  nodup := hnodup
  joinTrx _ _ := rfl
  twoPhase _ _ := rfl
  disableXa _ _ h := absurd h (by simp [State.updatedOn, Conn.inBranch])
  undecided c := by by_cases h : c ∈ cs <;> simp [State.updatedOn, h]
  noRow := rfl
  noMember := rfl
  trace := rfl
  nullDeref := rfl

/-- The participants that are prepared, all but the last in the tree. -/
def Trx.others (t : Trx) : List ConnId := t.joinTrxTop.dropLast

/-- The last participant in the tree, which commits in one phase. -/
def Trx.last (t : Trx) : ConnId := t.joinTrxTop.getLastD 0

/-- The log accesses at the start of the prepare phase succeed, those of a connection in error mode aside. -/
def LogWritable (p : Params) (env : Env) (st : State) : Prop :=
  st.logged p = true → env.log .openXa = none ∧ env.log .insertXa = none ∧ env.log .openMember = none ∧
    ∀ c ∈ st.trx.joinTrxTop, env.log (.insertMember c) = none ∨ (st.conn c).errorMode = true

def Conn.prepares (p : Params) (env : Env) (c : ConnId) (k : Conn) : Prop :=
  if k.disableXa then endTrxCode p env c k = 0 ∨ k.errorMode = true
  else k.started = true → k.serverLost = false ∧ env.reply c .xaEndAndPrepare = .ack

instance (p : Params) (env : Env) (st : State) : Decidable (LogWritable p env st) := by
  unfold LogWritable; infer_instance

instance (p : Params) (env : Env) (c : ConnId) (k : Conn) : Decidable (k.prepares p env c) := by
  unfold Conn.prepares; infer_instance

section Log
variable (p : Params) (env : Env) (st : State)

theorem insertXa_fst (status : XaStatus) : (insertXa env status st).1 = 0 ↔ env.log .insertXa = none := by
  unfold insertXa
  cases st.log.xa st.trx.xid with
  | none => exact logAccess_fst env _ st _
  | some _ => exact logOpen_fst env _ st

theorem insertXaMember_fst (c : ConnId) : (insertXaMember env c st).1 = 0 ↔ env.log (.insertMember c) = none := by
  unfold insertXaMember
  split_ifs
  · exact logOpen_fst env _ st
  · exact logAccess_fst env _ st _

theorem prepareMember_fst (da : Bool) (c : ConnId) :
    (prepareMember env da c st).1 = 0 ↔ env.log (.insertMember c) = none ∨ (st.conn c).errorMode = true := by
  unfold prepareMember
  rw [restoreDastatus_fst_eq_zero, insertXaMember_fst, (insertXaMember_only env st c).conn]

theorem prepareMember_only (da : Bool) (c : ConnId) : LogsOnly st (prepareMember env da c st).2 :=
  restoreDastatus_only st (insertXaMember_only env st c)

variable {st} in
theorem prepareLog_fst (hnodup : st.trx.joinTrxTop.Nodup) : (prepareLog p env st).1 = 0 ↔ LogWritable p env st := by
  unfold prepareLog LogWritable
  by_cases hlog : st.logged p = true
  · simp only [hlog, if_true, true_imp_iff]
    rw [andThen_fst_eq_zero, andThen_fst_eq_zero, andThen_fst_eq_zero, logOpen_fst, insertXa_fst, logOpen_fst]
    have h1 := logOpen_only env .openXa st
    have h2 := h1.trans (insertXa_only env (logOpen env .openXa st).2 .notYet)
    have h3 := h2.trans (logOpen_only env .openMember _)
    refine and_congr_right fun _ => and_congr_right fun _ => and_congr_right fun _ => ?_
    rw [h3.trx, untilError_eq_zero_iff (v := fun c st => (st.conn c).errorMode) (I := fun t => LogsOnly st t)
      (P := fun c m => env.log (.insertMember c) = none ∨ m = true)
      (fun c t ht _ => ht.trans (prepareMember_only env t _ c))
      (fun c t d _ => by rw [(prepareMember_only env t _ c).conn]) hnodup
      (fun c _ t _ hsee => by rw [prepareMember_fst, hsee]) h3]
    rw [h3.conn]
  · simp [hlog]

theorem prepareMember_log (da : Bool) (c : ConnId) (st : State) : (prepareMember env da c st).2.log.xa = st.log.xa ∧
      (∀ h ∈ st.log.member st.trx.xid, h ∈ (prepareMember env da c st).2.log.member st.trx.xid) ∧
      (∀ s ∈ (prepareMember env da c st).2.log.member st.trx.xid,
        s ∈ st.log.member st.trx.xid ∨ s = (st.conn c).server) ∧
      (env.log (.insertMember c) = none →
        (prepareMember env da c st).2.log.hasHost st.trx.xid (st.conn c).server.host = true) := by
  have hrestore : (prepareMember env da c st).2.log = (insertXaMember env c st).2.log := by
    unfold prepareMember restoreDastatus
    split_ifs <;> rfl
  rw [hrestore]
  unfold insertXaMember
  split_ifs with hmem
  · rw [logOpen_log]
    exact ⟨rfl, fun _ h => h, fun _ => .inl, fun _ => hmem⟩
  · unfold logAccess
    cases env.log (.insertMember c) with
    | none => exact ⟨rfl, fun s hs => by simp [hs], fun s hs => by simpa [or_comm] using hs, fun _ => by simp [Log.hasHost]⟩
    | some e => exact ⟨rfl, fun _ h => h, fun _ => .inl, fun h => by cases h⟩

def KeepsMembers (s t : State) : Prop :=
  t.trx = s.trx ∧ t.conn = s.conn ∧ ∀ h ∈ s.log.member s.trx.xid, h ∈ t.log.member s.trx.xid

theorem prepareMember_keeps (da : Bool) (c : ConnId) (st : State) : KeepsMembers st (prepareMember env da c st).2 :=
  ⟨(prepareMember_only env st da c).trx, (prepareMember_only env st da c).conn, (prepareMember_log env da c st).2.1⟩

theorem KeepsMembers.trans {s t u : State} (h : KeepsMembers s t) (h' : KeepsMembers t u) : KeepsMembers s u :=
  ⟨h'.1.trans h.1, h'.2.1.trans h.2.1, fun a ha => by
    have := h'.2.2 a
    rw [h.1] at this
    exact this (h.2.2 a ha)⟩

/-- A row of the log names the server of a participant on the host of `c`. -/
def State.namesHost (st : State) (l : Log) (c : ConnId) : Prop :=
  ∃ d ∈ st.trx.joinTrxTop, (st.conn d).server.host = (st.conn c).server.host ∧ (st.conn d).server ∈ l.member st.trx.xid

variable {st} in
theorem prepareLog_rows (hready : Ready st) (hlog : st.logged p = true) (hok : (prepareLog p env st).1 = 0) :
    (prepareLog p env st).2.log.xa st.trx.xid = some .notYet ∧
      ∀ c ∈ st.trx.joinTrxTop, env.log (.insertMember c) = none → st.namesHost (prepareLog p env st).2.log c := by
  obtain ⟨h1, h2, h3, -⟩ := (prepareLog_fst p env hready.nodup).mp hok hlog
  have hinsert : insertXa env .notYet st = logAccess env .insertXa
      (fun l => { l with xa := Function.update l.xa st.trx.xid (some .notYet) }) st := by
    simp only [insertXa, hready.noRow]
  unfold prepareLog at hok ⊢
  rw [if_pos hlog, logOpen_ok env _ st h1, andThen_pair_zero, hinsert, logAccess_ok env _ st _ h2, andThen_pair_zero,
    logOpen_ok env _ _ h3, andThen_pair_zero] at hok ⊢
  generalize hs : ({ st.record .logWrite with
    log := { st.log with xa := Function.update st.log.xa st.trx.xid (some .notYet) } } : State) = s at hok ⊢
  have htrx : s.trx = st.trx := by rw [← hs]; rfl
  have hrow : s.log.xa st.trx.xid = some .notYet := by rw [← hs]; exact Function.update_self ..
  have hsame (t : State) (da : Bool) (c : ConnId) := prepareMember_only env t da c
  -- the rows name servers of participants
  let I (t : State) : Prop := t.trx = st.trx ∧ t.conn = st.conn ∧
    ∀ r ∈ t.log.member st.trx.xid, ∃ d ∈ st.trx.joinTrxTop, r = (st.conn d).server
  have hnames : I (untilError (prepareMember env s.isError) s.trx.joinTrxTop s).2 := untilError_invariant
    (fun c hc t ⟨ht, hconn, hmem⟩ => ⟨(hsame t _ c).trx.trans ht, (hsame t _ c).conn.trans hconn, fun r hr => by
      have hnew := (prepareMember_log env s.isError c t).2.2.1 r
      rw [ht, hconn] at hnew
      exact (hnew hr).elim (hmem r) fun h => ⟨c, htrx ▸ hc, h⟩⟩)
    ⟨htrx, by rw [← hs]; rfl, fun r hr => by rw [← hs] at hr; simp [hready.noMember] at hr⟩
  constructor
  · exact untilError_invariant (I := fun t : State => t.log.xa st.trx.xid = some .notYet)
      (fun c _ t ht => by rw [(prepareMember_log env s.isError c t).1]; exact ht) hrow
  · intro c hc hfree
    obtain ⟨t, hst, -, -, hlast, -⟩ := untilError_visit (v := fun _ _ => ()) (M := KeepsMembers)
      (fun _ => ⟨rfl, rfl, fun _ h => h⟩) (fun _ _ _ => KeepsMembers.trans) (prepareMember_keeps env s.isError)
      (fun _ _ _ _ => rfl) (by rw [htrx]; exact hready.nodup) hok (by rw [htrx]; exact hc)
    have hhost := (prepareMember_log env s.isError c t).2.2.2 hfree
    have hconn : t.conn = st.conn := hst.2.1.trans (by rw [← hs]; rfl)
    have hxid : t.trx = st.trx := hst.1.trans htrx
    obtain ⟨r, hr, hrhost⟩ := List.any_eq_true.mp hhost
    have hr' := hlast.2.2 r
    rw [(prepareMember_keeps env s.isError c t).1] at hr'
    rw [hxid] at hr hr'
    obtain ⟨d, hd, rfl⟩ := hnames.2.2 r (hr' hr)
    exact ⟨d, hd, by simpa [hconn] using hrhost, hr' hr⟩

end Log

/-! ## The prepare loop -/

section Loop
variable (p : Params) (env : Env) (da : Bool) (c : ConnId) {st : State}

theorem dbXaEndAndPrepare_fst : (dbXaEndAndPrepare p env c st).1 = 0 ↔
    ((st.conn c).started = true → (st.conn c).serverLost = false ∧ env.reply c .xaEndAndPrepare = .ack) := by
  unfold dbXaEndAndPrepare Conn.started
  by_cases hs : (!(st.conn c).queuedConnect && !(st.conn c).queuedXaStart) = true
  · simp only [hs, if_true, true_imp_iff]
    by_cases hf : ((st.conn c).useForActiveStandby && (st.conn c).serverLost) = true
    · have hl : (st.conn c).serverLost = true := (Bool.and_eq_true_iff.mp hf).2
      rw [if_pos hf, hl]
      simp [erSpiderLinkIsFailover]
    · rw [if_neg hf, dbPacket_fst, queryCode_eq_zero]
  · simp [hs]

theorem prepareConn_fst (hlock : (st.conn c).disableXa = true → (st.conn c).tableLock = 3) :
    (prepareConn p env da c st).1 = 0 ↔ (st.conn c).prepares p env c := by
  unfold prepareConn Conn.prepares
  by_cases hx : (st.conn c).disableXa = true
  · have hmode : ((endTrx p env c st).2.conn c).errorMode = (st.conn c).errorMode :=
      ((endTrx_touches (S := fun _ => True) (C := fun _ => True) p env trivial st trivial trivial).later c).errorMode
    simp only [hx, if_true, hlock hx, ne_eq, not_true_eq_false, if_false, andThen_pair_zero]
    rw [andThen_fst_eq_zero, restoreDastatus_fst_eq_zero, endTrx_fst, hmode]
    simp
  · rw [if_neg hx, if_neg hx, dbXaEndAndPrepare_fst]

theorem prepareConn_started (hx : (st.conn c).disableXa = false) (hs : (st.conn c).started = true)
    (hok : (prepareConn p env da c st).1 = 0) : prepareConn p env da c st = (0, st.issue c .xaEndAndPrepare .ack) := by
  unfold prepareConn at hok ⊢
  simp only [hx, Bool.false_eq_true, if_false] at hok ⊢
  obtain ⟨hl, hr⟩ := (dbXaEndAndPrepare_fst p env c).mp hok hs
  unfold Conn.started at hs
  simp [dbXaEndAndPrepare, hs, hl, dbPacket_ack p env c _ st hl hr]

theorem prepareConn_queued (hx : (st.conn c).disableXa = false) (hs : (st.conn c).started = false) :
    prepareConn p env da c st = (0, st) := by
  unfold Conn.started at hs
  simp [prepareConn, hx, dbXaEndAndPrepare, hs]

def Conn.afterPrepare (k : Conn) (b : Branch) (o : Bool) : Conn × Branch × Bool :=
  (k, if k.started then Stmt.xaEndAndPrepare.onBranch b else b, o)

theorem prepareConn_see (hx : (st.conn c).disableXa = false) (hok : (prepareConn p env da c st).1 = 0) :
    (prepareConn p env da c st).2.see c = (st.conn c).afterPrepare (st.world.branch c) (st.world.trxOpen c) := by
  unfold Conn.afterPrepare
  cases hs : (st.conn c).started with
  | true =>
    rw [prepareConn_started p env da c hx hs hok]
    simp [State.see, World.after, World.exec, Stmt.endsTrx]
  | false =>
    rw [prepareConn_queued p env da c hx hs]
    rfl

theorem prepareConn_disabled (hx : (st.conn c).disableXa = true) (hok : (prepareConn p env da c st).1 = 0) :
    ((prepareConn p env da c st).2.conn c).joinTrx = false := by
  unfold prepareConn at hok ⊢
  simp only [hx, if_true] at hok ⊢
  obtain ⟨h1, hok⟩ := andThen_fst_eq_zero.mp hok
  rw [andThen_of_zero h1]
  obtain ⟨h2, -⟩ := andThen_fst_eq_zero.mp hok
  rw [andThen_of_zero h2]
  simp [State.leaveTrx]

theorem prepareConn_disabled_branch (hx : (st.conn c).disableXa = true) (hb : st.world.branch c ≠ .prepared) :
    (prepareConn p env da c st).2.world.branch c ≠ .prepared := by
  have h := prepareConn_disabled_touches p env da rfl st hx
  exact (h.branch c).prepared_of outsideXa_not_prepare hb

end Loop

/-! ## The whole loop -/

def prepareLoop (p : Params) (env : Env) (st : State) : Nat × State :=
  untilError (prepareConn p env st.isError) st.trx.others st

section WholeLoop
variable (p : Params) (env : Env) {st : State} {t : Trx}

theorem others_append_last (h : t.joinTrxTop ≠ []) : t.others ++ [t.last] = t.joinTrxTop := by
  unfold Trx.others Trx.last
  rw [List.getLastD_eq_getLast?, List.getLast?_eq_some_getLast h]
  exact List.dropLast_append_getLast h

theorem mem_joined_iff (h : t.joinTrxTop ≠ []) {c : ConnId} : c ∈ t.joinTrxTop ↔ c ∈ t.others ∨ c = t.last := by
  conv_lhs => rw [← others_append_last h]
  simp

theorem last_notMem_others (h : t.joinTrxTop ≠ []) (hnodup : t.joinTrxTop.Nodup) : t.last ∉ t.others := by
  rw [← others_append_last h, List.nodup_append] at hnodup
  exact fun hmem => hnodup.2.2 _ hmem _ (by simp) rfl

theorem others_nodup (hnodup : t.joinTrxTop.Nodup) : t.others.Nodup :=
  hnodup.sublist (List.dropLast_sublist _)

theorem others_ne_nil : t.others ≠ [] ↔ 2 ≤ t.joinTrxTop.length := by
  rw [ne_eq, ← List.length_eq_zero_iff, Trx.others, List.length_dropLast]
  omega

theorem prepareConns_eq (h : 2 ≤ st.trx.joinTrxTop.length) :
    prepareConns p env st = andThen (prepareLoop p env st) (dbXaCommitOnePhase p env st.trx.last) := by
  unfold prepareConns prepareLoop Trx.others Trx.last
  match hj : st.trx.joinTrxTop with
  | [] => simp [hj] at h
  | [c] => simp [hj] at h
  | c :: d :: cs => rfl

theorem prepareLoop_touches (st : State) : Touches Stmt.ofPrepare (· ∈ st.trx.others) st (prepareLoop p env st).2 :=
  untilError_touches st fun _ hc t => prepareConn_touches p env st.isError hc t

/-- **Rule for the prepare phase**: what the log accesses, visits and one-phase commit preserve, the call preserves. -/
theorem internalXaPrepare_rule {P : State → Prop} (hlen : 2 ≤ st.trx.joinTrxTop.length)
    (hlog : ∀ {t u}, LogsOnly t u → P t → P u)
    (hconn : ∀ da, ∀ c ∈ st.trx.others, ∀ t, (∀ d, Conn.Later (st.conn d) (t.conn d)) → P t → P (prepareConn p env da c t).2)
    (hone : ∀ t, P t → P (dbXaCommitOnePhase p env st.trx.last t).2) (h : P st) : P (internalXaPrepare p env st).2 := by
  have honly := prepareLog_only p env st
  refine andThen_rule (hlog honly h) fun _ h0 => andThen_rule ?_ fun _ h1 => hlog (preparedLog_only p env _) h1
  rw [prepareConns_eq p env (by rw [honly.trx]; exact hlen), honly.trx]
  refine andThen_rule ?_ fun _ h => hone _ h
  -- the records of the connections only get later in the loop
  refine (untilError_invariant (I := fun t => P t ∧ ∀ d, Conn.Later (st.conn d) (t.conn d)) (fun c hc t ht => ?_)
    ⟨h0, fun d => by rw [honly.conn]; exact .refl _⟩).1
  rw [honly.trx] at hc
  exact ⟨hconn _ c hc t ht.2 ht.1, fun d =>
    (ht.2 d).trans ((prepareConn_touches p env _ rfl t).later d)⟩

theorem prepareConn_see_other (da : Bool) (c : ConnId) (t : State) (d : ConnId) (hd : d ≠ c) :
    (prepareConn p env da c t).2.see d = t.see d :=
  Touches.see_eq (prepareConn_touches (C := (· = c)) p env da rfl t) hd

theorem prepareLoop_fst (hnodup : st.trx.joinTrxTop.Nodup)
    (hlock : ∀ c ∈ st.trx.joinTrxTop, (st.conn c).disableXa = true → (st.conn c).tableLock = 3) :
    (prepareLoop p env st).1 = 0 ↔ ∀ c ∈ st.trx.others, (st.conn c).prepares p env c := by
  refine untilError_eq_zero_iff (I := fun _ => True) (P := fun c x => x.1.prepares p env c)
    (fun _ _ _ _ => trivial) (prepareConn_see_other p env st.isError) (others_nodup hnodup)
    (fun c hc t _ hsee => ?_) trivial
  have hmem : c ∈ st.trx.joinTrxTop := List.dropLast_subset _ hc
  have hconn := see_conn hsee
  rw [prepareConn_fst p env _ c (by rw [hconn]; exact hlock c hmem), hconn]
  rfl

variable (hnodup : st.trx.joinTrxTop.Nodup) (hok : (prepareLoop p env st).1 = 0) {c : ConnId} (hc : c ∈ st.trx.others)
include hnodup hok hc

theorem prepareLoop_visit : ∃ t, t.see c = st.see c ∧ (prepareConn p env st.isError c t).1 = 0 ∧
      Touches Stmt.ofPrepare (fun _ => True) (prepareConn p env st.isError c t).2 (prepareLoop p env st).2 ∧
      (prepareLoop p env st).2.see c = (prepareConn p env st.isError c t).2.see c := by
  obtain ⟨t, -, h⟩ := untilError_visit Touches.refl
    (fun _ _ _ => Touches.trans) (fun c t => prepareConn_touches p env st.isError trivial t)
    (prepareConn_see_other p env st.isError) (others_nodup hnodup) hok hc
  exact ⟨t, h⟩

theorem prepareLoop_see (hx : (st.conn c).disableXa = false) :
    (prepareLoop p env st).2.see c = (st.conn c).afterPrepare (st.world.branch c) (st.world.trxOpen c) := by
  obtain ⟨t, hsee, hzero, -, hlast⟩ := prepareLoop_visit p env hnodup hok hc
  have hconn := see_conn hsee
  rw [hlast, prepareConn_see p env _ c (by rw [hconn]; exact hx) hzero, hconn, see_branch hsee, see_trxOpen hsee]

theorem prepareLoop_disabled (hx : (st.conn c).disableXa = true) (hb : st.world.branch c ≠ .prepared) :
    ((prepareLoop p env st).2.conn c).joinTrx = false ∧ (prepareLoop p env st).2.world.branch c ≠ .prepared := by
  obtain ⟨t, hsee, hzero, -, hlast⟩ := prepareLoop_visit p env hnodup hok hc
  have hxt : (t.conn c).disableXa = true := by rw [see_conn hsee]; exact hx
  rw [see_conn hlast, see_branch hlast]
  exact ⟨prepareConn_disabled p env _ c hxt hzero,
    prepareConn_disabled_branch p env _ c hxt (by rw [see_branch hsee]; exact hb)⟩

theorem prepareLoop_sent (hx : (st.conn c).disableXa = false) (hs : (st.conn c).started = true) :
    ∃ e ∈ (prepareLoop p env st).2.trace, e.action = .stmt c .xaEndAndPrepare (some .ack) := by
  obtain ⟨t, hsee, hzero, hafter, -⟩ := prepareLoop_visit p env hnodup hok hc
  have hconn := see_conn hsee
  rw [prepareConn_started p env _ c (by rw [hconn]; exact hx) (by rw [hconn]; exact hs) hzero] at hafter
  obtain ⟨tr, htr, -⟩ := hafter.trace
  rw [htr]
  exact ⟨⟨t.world, t.log, .stmt c .xaEndAndPrepare (some .ack)⟩, by simp, rfl⟩

end WholeLoop

/-! ## Traces -/

def Only (S : Stmt → Prop) (tr : List Event) : Prop :=
  ∀ e ∈ tr, e.action = .logWrite ∨ ∃ c s r, S s ∧ e.action = .stmt c s r

section Only
variable {S S' : Stmt → Prop} {C : ConnId → Prop} {st st' : State} {e : Event}

theorem Touches.only (h : Touches S C st st') (hS : ∀ s, S s → S' s) (hst : Only S' st.trace) : Only S' st'.trace := by
  obtain ⟨tr, htr, hev⟩ := h.trace
  rw [htr]
  intro e he
  rcases List.mem_append.mp he with he | he
  · exact hst e he
  · obtain ⟨c, s, r, -, hs, ha⟩ := (hev e he).stmt
    exact .inr ⟨c, s, r, hS s hs, ha⟩

theorem LogsOnly.only (h : LogsOnly st st') (hst : Only S st.trace) : Only S st'.trace := by
  obtain ⟨tr, htr, hev⟩ := h.trace
  rw [htr]
  intro e he
  rcases List.mem_append.mp he with he | he
  · exact hst e he
  · exact .inl (hev e he).1

theorem Touches.mem_cases (h : Touches S C st st') (he : e ∈ st'.trace) :
    e ∈ st.trace ∨ ∃ c s r, C c ∧ S s ∧ e.action = .stmt c s r := by
  obtain ⟨tr, htr, hev⟩ := h.trace
  rw [htr] at he
  exact (List.mem_append.mp he).imp_right fun he => (hev e he).stmt

theorem LogsOnly.mem_cases (h : LogsOnly st st') (he : e ∈ st'.trace) : e ∈ st.trace ∨ e.action = .logWrite := by
  obtain ⟨tr, htr, hev⟩ := h.trace
  rw [htr] at he
  exact (List.mem_append.mp he).imp_right fun he => (hev e he).1

theorem Touches.mem_trace (h : Touches S C st st') (he : e ∈ st.trace) : e ∈ st'.trace := by
  obtain ⟨tr, htr, -⟩ := h.trace
  rw [htr]
  exact List.mem_append_left _ he

theorem LogsOnly.mem_trace (h : LogsOnly st st') (he : e ∈ st.trace) : e ∈ st'.trace := by
  obtain ⟨tr, htr, -⟩ := h.trace
  rw [htr]
  exact List.mem_append_left _ he

theorem LogsOnly.see_eq (h : LogsOnly st st') (c : ConnId) : st'.see c = st.see c := by
  simp only [State.see, h.conn, h.world]

end Only

/-! ## After the loop -/

/-- If the event is an `XA PREPARE`, its connection is a participant that takes part in XA and has a branch. -/
def PreparesXa (st : State) (e : Event) : Prop :=
  ∀ c r, e.action = .stmt c .xaEndAndPrepare r →
    c ∈ st.trx.others ∧ (st.conn c).disableXa = false ∧ (st.conn c).started = true

theorem Touches.preparesXa {S : Stmt → Prop} {C : ConnId → Prop} {st t u : State} (h : Touches S C t u)
    (hS : ¬ S .xaEndAndPrepare) (ht : ∀ e ∈ t.trace, PreparesXa st e) : ∀ e ∈ u.trace, PreparesXa st e := by
  intro e he
  rcases h.mem_cases he with he | ⟨c', s, r', -, hs, ha'⟩
  · exact ht e he
  · intro c r ha
    rw [ha] at ha'
    obtain ⟨-, rfl, -⟩ := Action.stmt.inj ha'
    exact absurd hs hS

theorem LogsOnly.preparesXa {st t u : State} (h : LogsOnly t u) (ht : ∀ e ∈ t.trace, PreparesXa st e) :
    ∀ e ∈ u.trace, PreparesXa st e := by
  intro e he
  rcases h.mem_cases he with he | hlog
  · exact ht e he
  · intro c r ha
    rw [hlog] at ha
    cases ha

theorem started_later {k k' : Conn} (h : Conn.Later k k') : k'.started = k.started := by
  unfold Conn.started
  rw [h.queuedConnect, h.queuedXaStart]

theorem prepareLoop_preparesXa (p : Params) (env : Env) {st : State} (ht : ∀ e ∈ st.trace, PreparesXa st e) :
    ∀ e ∈ (prepareLoop p env st).2.trace, PreparesXa st e := by
  refine (untilError_invariant (I := fun t : State => (∀ c, Conn.Later (st.conn c) (t.conn c)) ∧
    ∀ e ∈ t.trace, PreparesXa st e) (fun c hc t ⟨hlater, hev⟩ => ?_) ⟨fun _ => .refl _, ht⟩).2
  have htouch := prepareConn_touches (C := (· = c)) p env st.isError rfl t
  refine ⟨fun d => (hlater d).trans (htouch.later d), ?_⟩
  cases hx : (t.conn c).disableXa with
  | true => exact (prepareConn_disabled_touches p env st.isError rfl t hx).preparesXa (by decide) hev
  | false =>
    cases hs : (t.conn c).started with
    | false => rw [prepareConn_queued p env _ c hx hs]; exact hev
    | true =>
      intro e he
      rcases htouch.mem_cases he with he | ⟨c', s, r', rfl, -, ha'⟩
      · exact hev e he
      · intro d r ha
        rw [ha] at ha'
        obtain ⟨rfl, -⟩ := Action.stmt.inj ha'
        exact ⟨hc, (hlater _).disableXa ▸ hx, started_later (hlater _) ▸ hs⟩

/-- The state after the log was written and the participants but the last are prepared. -/
structure LoopDone (p : Params) (env : Env) (st t : State) : Prop where
  state : t = (prepareLoop p env (prepareLog p env st).2).2
  writable : LogWritable p env st
  prepares : ∀ c ∈ st.trx.others, (st.conn c).prepares p env c
  trx : t.trx = st.trx
  others : ∀ c ∈ st.trx.others, (st.conn c).disableXa = false →
    t.see c = (st.conn c).afterPrepare (st.world.branch c) (st.world.trxOpen c)
  disabled : ∀ c ∈ st.trx.others, (st.conn c).disableXa = true →
    (t.conn c).joinTrx = false ∧ t.world.branch c ≠ .prepared
  untouched : ∀ c, c ∉ st.trx.others → t.see c = st.see c
  noCommit : ∀ c, t.world.branch c ≠ .committed
  row : st.logged p = true → t.log.xa st.trx.xid = some .notYet
  member : st.logged p = true → ∀ c ∈ st.trx.joinTrxTop, env.log (.insertMember c) = none →
    st.namesHost t.log c
  unlogged : st.logged p = false → t.log = st.log
  preparesXa : ∀ e ∈ t.trace, PreparesXa st e

section LoopDone
variable (p : Params) (env : Env) {st : State}

theorem prepareLog_unlogged (h : st.logged p = false) : prepareLog p env st = (0, st) := by simp [prepareLog, h]

theorem loopDone (hready : Ready st) (hlog : (prepareLog p env st).1 = 0)
    (hloop : (prepareLoop p env (prepareLog p env st).2).1 = 0) :
    LoopDone p env st (prepareLoop p env (prepareLog p env st).2).2 := by
  have honly := prepareLog_only p env st
  generalize hs : (prepareLog p env st).2 = s at honly hloop ⊢
  have hnodup : s.trx.joinTrxTop.Nodup := by rw [honly.trx]; exact hready.nodup
  have hlock : ∀ c ∈ s.trx.joinTrxTop, (s.conn c).disableXa = true → (s.conn c).tableLock = 3 := by
    rw [honly.trx, honly.conn]; exact hready.disableXa
  have htouch := prepareLoop_touches p env s
  have hprep := (prepareLoop_fst p env hnodup hlock).mp hloop
  rw [honly.trx, honly.conn] at hprep
  exact {
    state := by rw [hs]
    writable := (prepareLog_fst p env hready.nodup).mp hlog
    prepares := hprep
    trx := htouch.trx.trans honly.trx
    others := fun c hc hx => by
      rw [prepareLoop_see p env hnodup hloop (by rw [honly.trx]; exact hc) (by rw [honly.conn]; exact hx), honly.conn,
        honly.world]
    disabled := fun c hc hx =>
      prepareLoop_disabled p env hnodup hloop (by rw [honly.trx]; exact hc) (by rw [honly.conn]; exact hx)
        (by rw [honly.world]; exact (hready.undecided c).1)
    untouched := fun c hc => by
      have hc' : c ∉ s.trx.others := by rw [honly.trx]; exact hc
      rw [← honly.see_eq c]
      simp only [State.see, htouch.conn c hc', htouch.branch_eq c hc', htouch.trxOpen_eq c hc']
    noCommit := fun c => (htouch.branch c).committed_of ofPrepare_not_commit
      (by rw [honly.world]; exact (hready.undecided c).2)
    row := fun h => by rw [htouch.log, ← hs]; exact (prepareLog_rows p env hready h hlog).1
    member := fun h => by rw [htouch.log, ← hs]; exact (prepareLog_rows p env hready h hlog).2
    unlogged := fun h => by rw [htouch.log, ← hs, prepareLog_unlogged p env h]
    preparesXa := by
      have hs' : ∀ e ∈ s.trace, PreparesXa s e :=
        honly.preparesXa (by rw [hready.trace]; intro e he; simp at he)
      have hloop' := prepareLoop_preparesXa p env hs'
      unfold PreparesXa at hloop' ⊢
      rw [honly.trx, honly.conn] at hloop'
      exact hloop' }

theorem LoopDone.prepared_inv {t : State} (hready : Ready st) (ht : LoopDone p env st t) {c : ConnId}
    (hc : t.world.branch c = .prepared) :
    c ∈ st.trx.others ∧ (st.conn c).disableXa = false ∧ (st.conn c).started = true ∧ st.world.branch c = .active := by
  have hundecided := (hready.undecided c).1
  have hmem : c ∈ st.trx.others := by
    by_contra hno
    rw [see_branch (ht.untouched c hno)] at hc
    exact hundecided hc
  have hx : (st.conn c).disableXa = false := by
    by_contra hx
    exact (ht.disabled c hmem (by simpa using hx)).2 hc
  have hbranch : t.world.branch c = ((st.conn c).afterPrepare (st.world.branch c) (st.world.trxOpen c)).2.1 :=
    congrArg (fun x => x.2.1) (ht.others c hmem hx)
  rw [hbranch] at hc
  cases hs : (st.conn c).started with
  | false => simp [Conn.afterPrepare, hs] at hc; exact absurd hc hundecided
  | true =>
    cases hb : st.world.branch c <;> simp_all [Conn.afterPrepare, Stmt.onBranch]

/-- **The prepare phase** ends in the log, in the loop, in the one-phase commit, or in the second log access. -/
theorem internalXaPrepare_cases (hready : Ready st) (hlen : 2 ≤ st.trx.joinTrxTop.length) :
    (¬ LogWritable p env st ∧ (prepareLog p env st).1 ≠ 0 ∧ internalXaPrepare p env st = prepareLog p env st) ∨
    ((prepareLoop p env (prepareLog p env st).2).1 ≠ 0 ∧ (¬ ∀ c ∈ st.trx.others, (st.conn c).prepares p env c) ∧
      (prepareLog p env st).1 = 0 ∧ internalXaPrepare p env st = prepareLoop p env (prepareLog p env st).2) ∨
    ∃ t, LoopDone p env st t ∧ ((dbXaCommitOnePhase p env st.trx.last t).1 ≠ 0 ∧
          internalXaPrepare p env st = dbXaCommitOnePhase p env st.trx.last t ∨
            (dbXaCommitOnePhase p env st.trx.last t).1 = 0 ∧
          internalXaPrepare p env st = preparedLog p env (dbXaCommitOnePhase p env st.trx.last t).2) := by
  have honly := prepareLog_only p env st
  unfold internalXaPrepare
  by_cases hlog : (prepareLog p env st).1 = 0
  · rw [andThen_of_zero hlog, prepareConns_eq p env (by rw [honly.trx]; exact hlen), honly.trx]
    by_cases hloop : (prepareLoop p env (prepareLog p env st).2).1 = 0
    · refine .inr (.inr ⟨_, loopDone p env hready hlog hloop, ?_⟩)
      rw [andThen_of_zero hloop]
      by_cases hone : (dbXaCommitOnePhase p env st.trx.last (prepareLoop p env (prepareLog p env st).2).2).1 = 0
      · exact .inr ⟨hone, andThen_of_zero hone⟩
      · exact .inl ⟨hone, andThen_of_ne hone⟩
    · rw [andThen_of_ne hloop, andThen_of_ne hloop]
      refine .inr (.inl ⟨hloop, ?_, hlog, rfl⟩)
      rw [prepareLoop_fst p env (by rw [honly.trx]; exact hready.nodup)
        (by rw [honly.trx, honly.conn]; exact hready.disableXa), honly.trx, honly.conn] at hloop
      exact hloop
  · rw [andThen_of_ne hlog]
    exact .inl ⟨fun h => hlog ((prepareLog_fst p env hready.nodup).mpr h), hlog, rfl⟩

end LoopDone

/-! ## The one-phase commit of the last participant -/

section OnePhase
variable (p : Params) (env : Env) (c : ConnId) {st : State}

theorem onePhase_queued (hs : (st.conn c).started = false) : dbXaCommitOnePhase p env c st = (0, st) := by
  unfold Conn.started at hs
  simp [dbXaCommitOnePhase, hs]

theorem onePhase_started (hs : (st.conn c).started = true) : dbXaCommitOnePhase p env c st =
      dbPacket p env c .xaCommitOnePhase (st.setConn c { st.conn c with isXaCommitOnePhase := true }) := by
  unfold Conn.started at hs
  simp [dbXaCommitOnePhase, hs]

theorem onePhase_fst : (dbXaCommitOnePhase p env c st).1 = 0 ↔
    ((st.conn c).started = true → (st.conn c).serverLost = false ∧ env.reply c .xaCommitOnePhase = .ack) := by
  cases hs : (st.conn c).started with
  | false => simp [onePhase_queued p env c hs]
  | true =>
    rw [onePhase_started p env c hs, dbPacket_fst, queryCode_eq_zero]
    simp

theorem onePhase_ack (hs : (st.conn c).started = true) (hok : (dbXaCommitOnePhase p env c st).1 = 0) :
    dbXaCommitOnePhase p env c st =
      (0, (st.setConn c { st.conn c with isXaCommitOnePhase := true }).issue c .xaCommitOnePhase .ack) := by
  obtain ⟨hl, hr⟩ := (onePhase_fst p env c).mp hok hs
  rw [onePhase_started p env c hs]
  exact dbPacket_ack p env c _ _ (by simpa using hl) hr

theorem onePhase_event (hs : (st.conn c).started = true) (hok : (dbXaCommitOnePhase p env c st).1 = 0) :
    ∃ e ∈ (dbXaCommitOnePhase p env c st).2.trace, e.action = .stmt c .xaCommitOnePhase (some .ack) := by
  rw [onePhase_ack p env c hs hok]
  exact ⟨⟨st.world, st.log, .stmt c .xaCommitOnePhase (some .ack)⟩, by simp, rfl⟩

theorem onePhase_lost_before (hs : (st.conn c).started = true) (hl : (st.conn c).serverLost = true) :
    (dbXaCommitOnePhase p env c st).2.world = st.world := by
  rw [onePhase_started p env c hs, (dbPacket_eq p env c _ _).2.1, (dbQuery_not_sent p env c _ _ (by simpa using hl)).2.1]
  rfl

theorem onePhase_sent (hs : (st.conn c).started = true) (hl : (st.conn c).serverLost = false) :
    (dbXaCommitOnePhase p env c st).2.world = st.world.after c .xaCommitOnePhase (env.reply c .xaCommitOnePhase) := by
  rw [onePhase_started p env c hs, (dbPacket_eq p env c _ _).2.1, (dbQuery_sent p env c _ _ (by simpa using hl)).2.1]
  rfl

theorem onePhase_touches (st : State) : Touches Stmt.ofOnePhase (· = c) st (dbXaCommitOnePhase p env c st).2 :=
  dbXaCommitOnePhase_touches (C := (· = c)) p env rfl st (by decide)

theorem onePhase_committed (hb : st.world.branch c ≠ .committed) :
    (dbXaCommitOnePhase p env c st).2.world.branch c = .committed ↔
      (st.conn c).started = true ∧ (st.conn c).serverLost = false ∧ st.world.branch c = .active ∧
        (env.reply c .xaCommitOnePhase = .ack ∨ env.reply c .xaCommitOnePhase = .lost true) := by
  cases hs : (st.conn c).started with
  | false => simpa [onePhase_queued p env c hs] using hb
  | true =>
    cases hl : (st.conn c).serverLost with
    | true => simpa [onePhase_lost_before p env c hs hl] using hb
    | false =>
      rw [onePhase_sent p env c hs hl]
      cases hr : env.reply c .xaCommitOnePhase with
      | ack =>
        cases hbr : st.world.branch c <;> simp_all [Stmt.onBranch]
      | refused e =>
        rw [after_refused_branch]
        split_ifs <;> cases hbr : st.world.branch c <;> simp_all [Branch.forget]
      | lost effect =>
        cases effect <;> cases hbr : st.world.branch c <;> simp_all [Stmt.onBranch, Branch.detach]

end OnePhase

def UpdateFails (p : Params) (env : Env) (st : State) : Prop :=
  st.logged p = true ∧ (env.log .reopenXa ≠ none ∨ env.log .updatePrepared ≠ none)

instance (p : Params) (env : Env) (st : State) : Decidable (UpdateFails p env st) := by
  unfold UpdateFails; infer_instance

theorem updateXa_fst (env : Env) (a : LogAccess) (status : XaStatus) {st : State} (h : st.log.xa st.trx.xid ≠ none) :
    (updateXa env a status st).1 = 0 ↔ env.log a = none := by
  unfold updateXa
  cases hrow : st.log.xa st.trx.xid with
  | none => exact absurd hrow h
  | some _ => exact logAccess_fst env a st _

theorem preparedLog_fst (p : Params) (env : Env) {st : State} (h : st.logged p = true → st.log.xa st.trx.xid ≠ none) :
    (preparedLog p env st).1 ≠ 0 ↔ UpdateFails p env st := by
  unfold preparedLog UpdateFails
  cases hl : st.logged p with
  | false => simp
  | true =>
    simp only [if_true, true_and]
    rw [ne_eq, andThen_fst_eq_zero, logOpen_fst]
    by_cases hopen : env.log .reopenXa = none
    · rw [logOpen_ok env _ st hopen, updateXa_fst env _ _ (h hl)]
      simp [hopen]
    · simp [hopen]

theorem LoopDone.preparedLog_fst {p : Params} {env : Env} {st t : State} (ht : LoopDone p env st t) :
    (preparedLog p env (dbXaCommitOnePhase p env st.trx.last t).2).1 ≠ 0 ↔ UpdateFails p env st := by
  have htouch := onePhase_touches p env st.trx.last t
  have htrx := htouch.trx.trans ht.trx
  have hlogged : (dbXaCommitOnePhase p env st.trx.last t).2.logged p = st.logged p := by
    unfold State.logged; rw [htrx]
  rw [Xa.preparedLog_fst, UpdateFails, hlogged]
  · rfl
  · intro hlog
    rw [htrx, htouch.log, ht.row (hlogged ▸ hlog)]
    simp

end TSpider.Xa

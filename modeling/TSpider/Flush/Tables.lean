import TSpider.Lib.Run

/-!
# Metadata locks and cached definitions under FLUSH TABLES WITH NO BLOCK

A flush raises `table_share_version`, and then marks the cached definitions one by one. A statement takes the version in force
when it starts (`reset_for_next_command`). The version becomes part of the key of its lock and of the definition
(`update_table_share_key`), but

* `open_table` puts it there before it asks for the lock, `lock_table_names` does not;
* a key that has a version keeps it, also over the executions of a prepared statement;
* `is_equal` copies the version of any lock that the session holds into a key without one.

Each step is one critical section; `clock` counts them.
-/

namespace TSpider.Flush

/-! ## Lock types -/

inductive MdlType where
  | shared
  | sharedHighPrio
  | sharedRead
  | sharedWrite
  | sharedUpgradable
  | sharedReadOnly
  | sharedNoWrite
  | sharedNoReadWrite
  | exclusive
  deriving DecidableEq, Repr

namespace MdlType

def all : List MdlType :=
  [shared, sharedHighPrio, sharedRead, sharedWrite, sharedUpgradable, sharedReadOnly, sharedNoWrite,
    sharedNoReadWrite, exclusive]

/-- `MDL_object_lock::m_granted_incompatible` : the granted types that a request of this type does not go with. -/
def grantedIncompatible : MdlType → List MdlType
  | shared => [exclusive]
  | sharedHighPrio => [exclusive]
  | sharedRead => [exclusive, sharedNoReadWrite]
  | sharedWrite => [exclusive, sharedNoReadWrite, sharedNoWrite, sharedReadOnly]
  | sharedUpgradable => [exclusive, sharedNoReadWrite, sharedNoWrite, sharedUpgradable]
  | sharedReadOnly => [exclusive, sharedNoReadWrite, sharedWrite]
  | sharedNoWrite => [exclusive, sharedNoReadWrite, sharedNoWrite, sharedUpgradable, sharedWrite]
  | sharedNoReadWrite =>
    [exclusive, sharedNoReadWrite, sharedNoWrite, sharedReadOnly, sharedUpgradable, sharedWrite, sharedRead]
  | exclusive => all

/-- `MDL_object_lock::m_waiting_incompatible` : the pending types that a request of this type lets pass first. -/
def waitingIncompatible : MdlType → List MdlType
  | shared => [exclusive]
  | sharedHighPrio => []
  | sharedRead => [exclusive, sharedNoReadWrite]
  | sharedWrite => [exclusive, sharedNoReadWrite, sharedNoWrite]
  | sharedUpgradable => [exclusive]
  | sharedReadOnly => [exclusive, sharedNoReadWrite, sharedWrite]
  | sharedNoWrite => [exclusive]
  | sharedNoReadWrite => [exclusive]
  | exclusive => []

/-- `MDL_ticket::has_stronger_or_equal_type`. -/
def strongerOrEqual (a b : MdlType) : Bool := b.grantedIncompatible.all (a.grantedIncompatible.contains ·)

/-- An exclusive lock goes with nothing. -/
theorem exclusive_mem_grantedIncompatible (a : MdlType) : exclusive ∈ a.grantedIncompatible := by cases a <;> decide

theorem mem_grantedIncompatible_exclusive (a : MdlType) : a ∈ exclusive.grantedIncompatible := by cases a <;> decide

end MdlType

/-! ## Keys and tickets -/

/-- `MDL_key` of a table, which is also the key of its definition: the name and the version, if there is one. -/
structure Key where
  name : Nat
  version : Option Nat
  deriving DecidableEq, Repr

def suffix (version : Nat) : Option Nat := if version = 0 then none else some version

def updateTableShareKey (version : Nat) : Option Nat → Option Nat
  | some v => some v
  | none => suffix version

structure Ticket where
  key : Key
  type : MdlType
  byName : Bool
  since : Nat
  deriving DecidableEq, Repr

/-- `MDL_context::find_ticket` for a key with version `v`: a lock that will do, and the version that `is_equal` leaves in the
key.
-/
def findTicket (name : Nat) (type : MdlType) : List Ticket → Option Nat → Option Ticket × Option Nat
  | [], v => (none, v)
  | x :: xs, v =>
    let v := v.or x.key.version
    if x.key = ⟨name, v⟩ ∧ x.type.strongerOrEqual type then (some x, v) else findTicket name type xs v

/-! ## State -/

/-- A lock that is asked for: by `lock_table_names` if `byName`, and otherwise by `open_table`. -/
structure Request where
  table : Nat
  type : MdlType
  byName : Bool
  deriving DecidableEq, Repr

inductive Pending where
  | lock (r : Request)
  | share (table : Nat)
  deriving DecidableEq, Repr

/-- A statement: the prepared one that it executes or prepares, `flush_no_block_version`, and when it started. -/
structure Stmt where
  handle : Option Nat
  version : Nat
  started : Nat
  deriving DecidableEq, Repr

structure OpenTable where
  table : Nat
  key : Key
  loadedAt : Nat
  deriving DecidableEq, Repr

/-- A session. `keys h t` is the version in the key of table `t` in the prepared statement `h`, or the one at hand for
`none`. -/
structure Session where
  stmt : Option Stmt
  pending : Option Pending
  keys : Option Nat → Nat → Option Nat
  tickets : List Ticket
  opened : List OpenTable

/-- `TDC_element`; `ready` says that its share was read in, `users` are the sessions with the starts of their statements. -/
structure Element (n : Nat) where
  loadedAt : Nat
  ready : Bool
  flushed : Bool
  users : List (Fin n × Nat)
  deriving DecidableEq, Repr

structure FlushRun where
  began : Nat
  completed : Option Nat
  deriving DecidableEq, Repr

structure State (n : Nat) where
  clock : Nat
  tableShareVersion : Nat
  session : Fin n → Session
  element : Key → Option (Element n)
  flushes : List FlushRun

namespace State

variable {n : Nat}

def initial (n : Nat) : State n where
  clock := 0
  tableShareVersion := 0
  session := fun _ => ⟨none, none, fun _ _ => none, [], []⟩
  element := fun _ => none
  flushes := []

def put (st : State n) (i : Fin n) (s : Session) : State n := { st with session := Function.update st.session i s }

def putElement (st : State n) (k : Key) (e : Option (Element n)) : State n :=
  { st with element := Function.update st.element k e }

end State

def Session.key (x : Session) (s : Stmt) (t : Nat) : Key := ⟨t, x.keys s.handle t⟩

/-- The version in the key of a request, as `open_table` or `lock_table_names` hand it to the lock system. -/
def Session.asked (x : Session) (s : Stmt) (r : Request) : Option Nat :=
  if r.byName then x.keys s.handle r.table else updateTableShareKey s.version (x.keys s.handle r.table)

def Session.settledVersion (x : Session) (s : Stmt) (r : Request) : Option Nat :=
  (findTicket r.table r.type x.tickets (x.asked s r)).2

def Session.setKey (x : Session) (s : Stmt) (t : Nat) (version : Option Nat) : Session :=
  { x with keys := Function.update x.keys s.handle (Function.update (x.keys s.handle) t version) }

def Request.next (r : Request) : Option Pending := if r.byName then none else some (.share r.table)

/-- `tdc_release_share` of a session's references: an unused entry goes if it is marked or was not read in. -/
def Element.drop {n : Nat} (i : Fin n) (e : Element n) : Option (Element n) :=
  let users := e.users.filter (·.1 ≠ i)
  if users = [] ∧ (e.flushed ∨ !e.ready) then none else some { e with users := users }

/-! ## Steps -/

inductive Op (n : Nat) where
  /-- A statement starts: sent directly, or the prepared statement `h`, when prepared and each time it is executed. -/
  | start (i : Fin n) (handle : Option Nat)
  /-- `open_table` or `lock_table_names` asks for a lock. -/
  | ask (i : Fin n) (r : Request)
  | grant (i : Fin n)
  /-- `upgrade_shared_lock` of a lock taken by name. -/
  | upgrade (i : Fin n) (t : Nat)
  /-- `tdc_acquire_share` finds no entry, makes one and reads the definition. -/
  | load (i : Fin n)
  /-- The definition that has been read is put into the entry. -/
  | publish (i : Fin n)
  /-- `tdc_acquire_share` finds an entry, and `open_table` opens the table from it. -/
  | use (i : Fin n) (ignoreFlush : Bool)
  /-- The statement closes its tables; at the end of the transaction its locks are released. -/
  | finish (i : Fin n) (endTransaction : Bool)
  /-- `close_cached_tables` up to the increment of `table_share_version`. -/
  | flushBegin
  /-- `tc_purge` and `tdc_purge` at one entry. -/
  | mark (k : Key)
  | flushEnd (f : Nat)
  /-- An entry that nobody uses is dropped to make room. -/
  | evict (k : Key)
  deriving DecidableEq, Repr

section Step

variable {n : Nat} (st : State n) (i : Fin n)

def State.ask (s : Stmt) (r : Request) : State n :=
  let x := st.session i
  let x' := x.setKey s r.table (x.settledVersion s r)
  match (findTicket r.table r.type x.tickets (x.asked s r)).1 with
  | some _ => st.put i { x' with pending := r.next }
  | none => st.put i { x' with pending := some (.lock r) }

def State.conflict (k : Key) (type : MdlType) : Prop :=
  ∃ j, j ≠ i ∧ ∃ x ∈ (st.session j).tickets, x.key = k ∧ x.type ∈ type.grantedIncompatible

instance (k : Key) (type : MdlType) : Decidable (st.conflict i k type) := by
  unfold State.conflict; infer_instance

def State.grant (s : Stmt) (r : Request) : Option (State n) :=
  let x := st.session i
  let k := x.key s r.table
  if st.conflict i k r.type then none
  else some (st.put i { x with tickets := ⟨k, r.type, r.byName, s.started⟩ :: x.tickets, pending := r.next })

def Ticket.upgradable (x : Ticket) (t : Nat) : Bool :=
  x.byName && x.key.name == t &&
    [MdlType.sharedUpgradable, .sharedNoWrite, .sharedNoReadWrite].contains x.type

def State.upgrade (t : Nat) : Option (State n) :=
  let x := st.session i
  match x.tickets.find? (·.upgradable t) with
  | none => none
  | some y =>
    if st.conflict i y.key .exclusive then none
    else some (st.put i { x with tickets := x.tickets.map fun z => if z = y then { z with type := .exclusive } else z })

def State.use (s : Stmt) (t : Nat) (ignoreFlush : Bool) : Option (State n) :=
  let x := st.session i
  let k := x.key s t
  match st.element k with
  | none => none
  | some e =>
    if e.ready && (!e.flushed || ignoreFlush) then
      some ((st.putElement k (some { e with users := (i, s.started) :: e.users })).put i
        { x with opened := ⟨t, k, e.loadedAt⟩ :: x.opened, pending := none })
    else none

def State.load (s : Stmt) (t : Nat) : Option (State n) :=
  let k := (st.session i).key s t
  match st.element k with
  | none => some (st.putElement k (some ⟨st.clock, false, false, [(i, s.started)]⟩))
  | some _ => none

def State.publish (s : Stmt) (t : Nat) : Option (State n) :=
  let k := (st.session i).key s t
  match st.element k with
  | some e =>
    if !e.ready && e.users == [(i, s.started)] then some (st.putElement k (some ⟨e.loadedAt, true, false, []⟩)) else none
  | none => none

def State.start (handle : Option Nat) : State n :=
  let x := st.session i
  -- a statement sent directly has been parsed anew
  let keys := if handle = none then Function.update x.keys none fun _ => none else x.keys
  st.put i { x with stmt := some ⟨handle, st.tableShareVersion, st.clock⟩, pending := none, keys := keys }

def State.finish (endTransaction : Bool) : State n :=
  let x := st.session i
  { st.put i { x with stmt := none, pending := none, opened := [], tickets := if endTransaction then [] else x.tickets } with
    element := fun k => (st.element k).bind (Element.drop i) }

def effect : Op n → Option (State n)
  | .start i handle => if (st.session i).stmt = none then some (st.start i handle) else none
  | .ask i r =>
    match (st.session i).stmt, (st.session i).pending with
    | some s, none => some (st.ask i s r)
    | _, _ => none
  | .grant i =>
    match (st.session i).stmt, (st.session i).pending with
    | some s, some (.lock r) => st.grant i s r
    | _, _ => none
  | .upgrade i t => if (st.session i).stmt = none then none else st.upgrade i t
  | .load i =>
    match (st.session i).stmt, (st.session i).pending with
    | some s, some (.share t) => st.load i s t
    | _, _ => none
  | .publish i =>
    match (st.session i).stmt, (st.session i).pending with
    | some s, some (.share t) => st.publish i s t
    | _, _ => none
  | .use i ignoreFlush =>
    match (st.session i).stmt, (st.session i).pending with
    | some s, some (.share t) => st.use i s t ignoreFlush
    | _, _ => none
  | .finish i endTransaction => if (st.session i).stmt = none then none else some (st.finish i endTransaction)
  | .flushBegin =>
    some { st with tableShareVersion := st.tableShareVersion + 1, flushes := st.flushes ++ [⟨st.clock, none⟩] }
  | .mark k =>
    match st.element k with
    | some e => some (st.putElement k (if e.users = [] then none else some { e with flushed := true }))
    | none => none
  | .flushEnd f =>
    match st.flushes[f]? with
    | some ⟨began, none⟩ => some { st with flushes := st.flushes.set f ⟨began, some st.clock⟩ }
    | _ => none
  | .evict k =>
    match st.element k with
    | some e => if e.users = [] then some (st.putElement k none) else none
    | none => none

def step (op : Op n) : Option (State n) := (effect st op).map fun st' => { st' with clock := st.clock + 1 }

end Step

/-! ## Waiting -/

section Waits

variable {n : Nat}

/-- The starts of the statements whose locks, or waiting requests with priority, keep session `i` from its lock. -/
def State.lockWaits (st : State n) (i : Fin n) (k : Key) (type : MdlType) : List Nat :=
  (List.finRange n).flatMap fun j =>
    if j = i then []
    else
      ((st.session j).tickets.filter fun x => x.key = k ∧ x.type ∈ type.grantedIncompatible).map Ticket.since ++
        match (st.session j).stmt, (st.session j).pending with
        | some s, some (.lock r) =>
          if (st.session j).key s r.table = k ∧ r.type ∈ type.waitingIncompatible then [s.started] else []
        | _, _ => []

/-- The starts of the statements that use a marked definition, or are about to read it, and keep session `i` from opening. -/
def State.shareWaits (st : State n) (i : Fin n) (k : Key) : List Nat :=
  match st.element k with
  | some e => if e.flushed || !e.ready then (e.users.filter (·.1 ≠ i)).map Prod.snd else []
  | none => []

def State.waitsFor (st : State n) (i : Fin n) : List Nat :=
  match (st.session i).stmt, (st.session i).pending with
  | some s, some (.lock r) => st.lockWaits i ((st.session i).key s r.table) r.type
  | some s, some (.share t) => st.shareWaits i ((st.session i).key s t)
  | _, _ => []

end Waits

end TSpider.Flush

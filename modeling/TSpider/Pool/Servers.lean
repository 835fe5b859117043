import Mathlib.Data.Nat.Digits.Defs
import TSpider.Lib.Run

/-!
# Servers, connection keys and the pool

`mysql.servers` is read into a cache (`sql_servers.cc`). A server in the cache has a version that grows when its definition
changes; a reload keeps the versions in a copy of the cache. The key of a connection is the name of the server and its version
(`spider_update_conn_keys`), and the pool hands out connections by their key.

The caches compare names by `system_charset_info`, which takes no notice of case; a key has the bytes that the table gives.
The names of servers are here what `fold` makes of their bytes, and the names of tables' links are the bytes themselves.
-/

namespace TSpider.Pool

abbrev Text := List UInt8

/-! ## The server cache -/

structure Info where
  host : Text
  db : Text
  username : Text
  password : Text
  port : Int
  socket : Text
  scheme : Text
  owner : Text
  deriving DecidableEq

/-- `FOREIGN_SERVER`, under its name after `fold`. -/
structure Server where
  name : Text
  info : Info
  version : Nat
  deriving DecidableEq

abbrev Row := Text × Info

structure Options where
  host : Option Text
  db : Option Text
  username : Option Text
  password : Option Text
  port : Option Int
  socket : Option Text
  scheme : Option Text
  owner : Option Text

/-- `prepare_server_struct_for_update`: the options that differ from the existing server. -/
def Options.altered (o : Options) (x : Info) : Options where
  host := o.host.filter (· ≠ x.host)
  db := o.db.filter (· ≠ x.db)
  username := o.username.filter (· ≠ x.username)
  password := o.password.filter (· ≠ x.password)
  port := o.port.filter (· ≠ x.port)
  socket := o.socket.filter (· ≠ x.socket)
  scheme := o.scheme.filter (· ≠ x.scheme)
  owner := o.owner.filter (· ≠ x.owner)

/-- `store_server_fields` and `merge_server_struct`: the options that are set replace the fields. -/
def Options.apply (o : Options) (x : Info) : Info where
  host := o.host.getD x.host
  db := o.db.getD x.db
  username := o.username.getD x.username
  password := o.password.getD x.password
  port := o.port.getD x.port
  socket := o.socket.getD x.socket
  scheme := o.scheme.getD x.scheme
  owner := o.owner.getD x.owner

/-- How `servers_load` ends: with all rows, with an error before the first row, or with one at a row. -/
inductive LoadEnd where
  | ok
  | noScan
  | atRow (k : Nat)
  deriving DecidableEq

/-- `servers_cache`, `servers_cache_bak`, `global_modify_server_version` and the rows of `mysql.servers`. -/
structure Servers where
  rows : List Row
  cache : List Server
  bak : List Server
  modifyVersion : Nat

def search (l : List Server) (name : Text) : Option Server := l.find? (·.name = name)

variable (fold : Text → Text)

def Servers.versionByName (s : Servers) (name : Text) : Nat := ((search s.cache (fold name)).map (·.version)).getD 0

def updateVersion (bak : List Server) (r : Row) : Server :=
  match search bak r.1 with
  | some b => ⟨r.1, r.2, if b.info ≠ r.2 then b.version + 1 else b.version⟩
  | none => ⟨r.1, r.2, 0⟩

def versionUpdated (bak : List Server) (rows : List Row) : Bool :=
  rows.any fun r => (search bak r.1).any fun b => b.info ≠ r.2

namespace Servers

variable (s : Servers)

def load : LoadEnd → Servers
  | .ok => { s with
      cache := s.rows.map (updateVersion (s.bak ++ s.cache)), bak := [],
      modifyVersion := if versionUpdated (s.bak ++ s.cache) s.rows then s.modifyVersion + 1 else s.modifyVersion }
  | .noScan => { s with cache := [], bak := s.bak ++ s.cache }
  | .atRow k => { s with cache := (s.rows.take k).map fun r => ⟨r.1, r.2, 0⟩, bak := [] }

def reload (e : LoadEnd) : Servers := if e = .ok then s.load e else { s.load e with cache := [] }

/-- `drop_server_internal`; `opened` is on if `mysql.servers` can be opened. -/
def drop (name : Text) (opened : Bool) : Option Servers :=
  if (search s.cache name).isSome then
    some { s with
      cache := s.cache.filter (·.name ≠ name), rows := if opened then s.rows.filter (·.1 ≠ name) else s.rows }
  else none

def insert (name : Text) (info : Info) (inserted : Bool) : Servers :=
  if (s.rows.map (·.1)).contains name then s
  else { s with rows := s.rows ++ [(name, info)], cache := if inserted then s.cache ++ [⟨name, info, 0⟩] else s.cache }

/-- `create_server`; without OR REPLACE nothing is done for a known name, with it nothing is inserted if the row is not
deleted. -/
def create (name : Text) (info : Info) (orReplace opened inserted : Bool) : Servers :=
  match search s.cache name with
  | none => s.insert name info inserted
  | some _ =>
    if orReplace then
      match s.drop name opened with
      | some t => if opened && (s.rows.map (·.1)).contains name then t.insert name info inserted else t
      | none => s
    else s

/-- `alter_server`; `inserted` is on if the cache takes the server. The result of `servers_load` is not looked at. -/
def alter (name : Text) (o : Options) (inserted : Bool) (e : LoadEnd) : Servers :=
  match search s.cache name with
  | none => s
  | some x =>
    if (s.rows.map (·.1)).contains name then
      let o := o.altered x.info
      let cache := s.cache.filter (·.name ≠ name)
      { s with
        rows := s.rows.map fun r => if r.1 = name then (r.1, o.apply r.2) else r
        cache := if inserted then cache ++ [⟨name, o.apply x.info, x.version + 1⟩] else cache
        modifyVersion := s.modifyVersion + 1 : Servers }.load e
    else s

def write (name : Text) (info : Option Info) : Servers :=
  { s with rows := s.rows.filter (·.1 ≠ name) ++ (info.map fun x => (name, x)).toList }

end Servers

/-! ## Shares and connections -/

def decimal (v : Nat) : Text := if v = 0 then [0x30] else (Nat.digits 10 v).reverse.map fun d => 0x30 + UInt8.ofNat d

def createConnKey (name : Text) : Text := 0x30 :: name

def updateConnKey (name : Text) (version : Nat) : Text := 0x30 :: (name ++ 0x23 :: decimal version)

/-- The fields of `SPIDER_SHARE` for the keys: a name and a key for each link, one version for all. -/
structure Share where
  names : List Text
  keys : List Text
  keyVersion : Nat
  modifyVersion : Nat

def Share.create (names : List Text) : Share := ⟨names, names.map createConnKey, 0, 0⟩

/-- `spider_update_conn_keys`. -/
def Share.updateKeys (sh : Share) (s : Servers) (link : Nat) : Share :=
  match sh.names[link]? with
  | none => sh
  | some name =>
    if s.versionByName fold name ≠ sh.keyVersion then
      { sh with keys := sh.keys.set link (updateConnKey name (s.versionByName fold name)), keyVersion :=
        s.versionByName fold name }
    else sh

/-- The start of `spider_get_conn`. -/
def Share.refresh (sh : Share) (s : Servers) (link : Nat) : Share :=
  if sh.modifyVersion ≠ s.modifyVersion then { sh.updateKeys fold s link with modifyVersion := s.modifyVersion } else sh

/-- `SPIDER_CONN`: the name and the key, `current_key_version`, and the server it was connected to last. -/
structure Conn where
  name : Text
  key : Text
  keyVersion : Nat
  opened : Option Server
  deriving DecidableEq

/-- The server caches, the shares of the open tables, the pool, and each session's connections and the
`global_modify_server_version` it started with. No function reads `known`. -/
structure State where
  servers : Servers
  shares : List Share
  pool : List Conn
  held : Nat → List Conn
  seen : Nat → Nat
  known : List Text

def State.init : State := ⟨⟨[], [], [], 0⟩, [], [], fun _ => [], fun _ => 0, []⟩

inductive Op where
  | write (name : Text) (info : Option Info)
  | create (name : Text) (info : Info) (orReplace opened inserted : Bool)
  | drop (name : Text) (opened : Bool)
  | alter (name : Text) (o : Options) (inserted : Bool) (e : LoadEnd)
  | reload (e : LoadEnd)
  | openTable (names : List Text)
  | closeTable (share : Nat)
  | startStmt (thd : Nat)
  | reuse (thd share link : Nat)
  | getPooled (thd share link place : Nat)
  /-- A new connection; `counted` is off if there is no memory for its counter. -/
  | createConn (thd share link : Nat) (counted : Bool)
  | connect (thd conn : Nat)
  /-- The end of a transaction; `keep` is on if the connection may go to the pool. -/
  | release (thd conn : Nat) (keep : Bool)
  | recycle (place : Nat)

namespace State

def setServers (st : State) (s : Servers) : State :=
  { st with servers := s, known := s.cache.map (·.name) ++ st.known }

/-- The share `i` after the start of `spider_get_conn`, and its name and key at `link`. -/
def keyFor (st : State) (i link : Nat) : Option (Share × Text × Text) := do
  let sh ← st.shares[i]?
  let sh := sh.refresh fold st.servers link
  let name ← sh.names[link]?
  let key ← sh.keys[link]?
  some (sh, name, key)

def setHeld (st : State) (thd : Nat) (l : List Conn) : State := { st with held := Function.update st.held thd l }

def setShare (st : State) (i : Nat) (sh : Share) : State := { st with shares := st.shares.set i sh }

def connect (st : State) (c : Conn) : Conn :=
  match search st.servers.cache (fold c.name) with
  | some x => { c with opened := some x }
  | none => c

/-- `spider_free_conn_from_trx` finds that the server of a connection has changed since the statement began. -/
def serverChanged (st : State) (thd : Nat) (c : Conn) : Bool :=
  st.seen thd ≠ st.servers.modifyVersion && st.servers.versionByName fold c.name ≠ c.keyVersion

def step (st : State) : Op → Option State
  | .write name info => some (st.setServers (st.servers.write name info))
  | .create name info orReplace opened inserted =>
    some (st.setServers (st.servers.create name info orReplace opened inserted))
  | .drop name opened => (st.servers.drop name opened).map st.setServers
  | .alter name o inserted e => some (st.setServers (st.servers.alter name o inserted e))
  | .reload e => some (st.setServers (st.servers.reload e))
  | .openTable names =>
    if names.all fun n => (search st.servers.cache (fold n)).isSome
      then some { st with shares := st.shares ++ [Share.create names] }
    else none
  | .closeTable i => some { st with shares := st.shares.eraseIdx i }
  | .startStmt thd => some { st with seen := Function.update st.seen thd st.servers.modifyVersion }
  | .reuse thd i link => do
    let (sh, _, key) ← st.keyFor fold i link
    let _ ← (st.held thd).find? (·.key = key)
    some (st.setShare i sh)
  | .getPooled thd i link place => do
    let (sh, _, key) ← st.keyFor fold i link
    let c ← st.pool[place]?
    if c.key = key ∧ (st.held thd).all (·.key ≠ key) then
      some ({ st with pool := st.pool.eraseIdx place }.setHeld thd (c :: st.held thd) |>.setShare i sh)
    else none
  | .createConn thd i link counted => do
    let (sh, name, key) ← st.keyFor fold i link
    if (st.held thd).all (·.key ≠ key) ∧ st.pool.all (·.key ≠ key) then
      some (st.setHeld thd (⟨name, key, if counted then sh.keyVersion else 0, none⟩ :: st.held thd) |>.setShare i sh)
    else none
  | .connect thd j => do
    let c ← (st.held thd)[j]?
    some (st.setHeld thd ((st.held thd).set j (st.connect fold c)))
  | .release thd j keep => do
    let c ← (st.held thd)[j]?
    let st' := st.setHeld thd ((st.held thd).eraseIdx j)
    some (if keep ∧ st.serverChanged fold thd c = false then { st' with pool := c :: st'.pool } else st')
  | .recycle place => some { st with pool := st.pool.eraseIdx place }

end State

end TSpider.Pool

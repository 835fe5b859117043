import TSpider.Pool.Servers

/-!
# The connections of a transaction

`spider_get_conn` searches the hash of the transaction with the hash value that the share keeps for its key. A casual read
changes the first byte of the key for the call and not this value; the hash inserts a connection under the hash value of its
own key.

* `attached_same` : one connection for a key whose requests come with its own hash value.
-/

namespace TSpider.Pool.Attached
open List

/-! ## `HASH` -/

/-- `MY_HASH_ADD`. -/
def hashAdd : UInt64 × UInt64 → UInt8 → UInt64 × UInt64
  | (a, b), value => (a ^^^ ((a &&& (63 : UInt64)) + b) * value.toUInt64 + (a <<< (8 : UInt64)), b + 3)

/-- `my_hash_sort` with `my_hash_sort_mb_bin`. -/
def hashSort (key : Text) : ℕ := ((key.reverse.dropWhile (· = 0x20)).reverse.foldl hashAdd (1, 4)).1.toNat % 2 ^ 32

def hashMask (hashnr buffmax maxlength : ℕ) : ℕ :=
  if hashnr % buffmax < maxlength then hashnr % buffmax else hashnr % (buffmax / 2)

structure Conn where
  obj : ℕ
  connKey : Text

structure Request where
  /-- the key after its first byte -/
  rest : Text
  /-- the casual read, 0 if there is none -/
  casual : UInt8
  /-- `spider_update_conn_keys` wrote the key in the call -/
  updated : Bool
  /-- the connection of the pool or a new one -/
  conn : Option ℕ
  stray : ℕ

def Request.connKey (r : Request) : Text := (if r.updated then 0x30 else 0x30 + r.casual) :: r.rest

def Request.hashValue (r : Request) : ℕ := hashSort (0x30 :: r.rest)

inductive Call where
  | request (r : Request)
  | release (obj : ℕ)

/-- A bucket is the list of its records, without their places in the array. -/
structure Hash where
  records : List Conn
  blength : ℕ

namespace Hash

variable (t : Hash)

def mask (v : ℕ) : ℕ := hashMask v t.blength t.records.length

def bucket (v : ℕ) : List Conn := t.records.filter fun c => t.mask (hashSort c.connKey) = t.mask v

/-- `my_hash_search_using_hash_value`; the record `stray` of another bucket can be at an empty one's place. -/
def search (r : Request) : Option Conn :=
  let found := t.bucket r.hashValue
  (if found = [] then t.records.filter (·.obj = r.stray) else found).find? (·.connKey = r.connKey)

def insert (c : Conn) : Hash :=
  ⟨c :: t.records, if t.records.length + 1 = t.blength then 2 * t.blength else t.blength⟩

def delete (obj : ℕ) : Hash :=
  let rest := t.records.filter (·.obj ≠ obj)
  ⟨rest, if rest.length < t.blength / 2 then t.blength / 2 else t.blength⟩

/-- `spider_get_conn`. -/
def getConn (r : Request) : Hash × Option ℕ :=
  match t.search r, r.conn with
  | some c, _ => (t, some c.obj)
  | none, some obj => (t.insert ⟨obj, r.connKey⟩, some obj)
  | none, none => (t, none)

def call : Call → Hash
  | .request r => (t.getConn r).1
  | .release obj => t.delete obj

/-- `trx_another_conn_hash` or `trx_conn_hash` after the calls. -/
def run (another : Bool) (calls : List (Bool × Call)) : Hash :=
  calls.foldl (fun t x => if x.1 = another then t.call x.2 else t) ⟨[], 1⟩

/-- At most one record with the key. -/
def One (key : Text) : Prop := ∀ c ∈ t.records, ∀ d ∈ t.records, c.connKey = key → d.connKey = key → c = d

variable {t} {r : Request} {c : Conn} {x : Call} {key : Text} {obj : ℕ}

theorem mem_of_search (h : t.search r = some c) : c ∈ t.records ∧ c.connKey = r.connKey := by
  refine ⟨?_, by simpa using find?_some h⟩
  have hmem := mem_of_find?_eq_some h
  split_ifs at hmem <;> exact mem_of_mem_filter hmem

theorem search_of_mem (hr : r.hashValue = hashSort r.connKey) (hc : c ∈ t.records) (hk : c.connKey = r.connKey) :
    ∃ d, t.search r = some d := by
  have hb : c ∈ t.bucket r.hashValue := by simp [bucket, hc, hr, hk]
  rw [search, if_neg (ne_nil_of_mem hb)]
  exact Option.isSome_iff_exists.mp (find?_isSome.mpr ⟨c, hb, by simpa using hk⟩)

theorem getConn_cases (t : Hash) (r : Request) :
    (t.getConn r).1 = t ∧ (∀ obj, (t.getConn r).2 = some obj → ⟨obj, r.connKey⟩ ∈ t.records) ∨
    t.search r = none ∧ ∃ obj, t.getConn r = (t.insert ⟨obj, r.connKey⟩, some obj) := by
  unfold getConn
  cases hs : t.search r with
  | some c =>
    obtain ⟨hc, hk⟩ := mem_of_search hs
    refine .inl ⟨rfl, ?_⟩
    rintro _ ⟨⟩
    rwa [← hk]
  | none =>
    cases r.conn with
    | some obj => exact .inr ⟨rfl, obj, rfl⟩
    | none => exact .inl ⟨rfl, fun _ h => nomatch h⟩

theorem getConn_attached (h : (t.getConn r).2 = some obj) : ⟨obj, r.connKey⟩ ∈ (t.getConn r).1.records := by
  obtain ⟨ht, hmem⟩ | ⟨-, new, hnew⟩ := t.getConn_cases r
  · rw [ht]
    exact hmem obj h
  · rw [hnew] at h ⊢
    obtain rfl : new = obj := Option.some.inj h
    exact mem_cons_self

theorem One.call (hone : t.One key) (hx : ∀ r, x = .request r → r.connKey = key → r.hashValue = hashSort key) :
    (t.call x).One key := by
  cases x with
  | release obj => exact fun c hc d hd => hone c (mem_of_mem_filter hc) d (mem_of_mem_filter hd)
  | request r =>
    rw [Hash.call]
    obtain ⟨ht, -⟩ | ⟨hnone, obj, hnew⟩ := t.getConn_cases r
    · rwa [ht]
    · have hfresh : r.connKey = key → ∀ d ∈ t.records, d.connKey ≠ key := by
        rintro rfl d hd hk
        obtain ⟨e, he⟩ := search_of_mem (hx r rfl rfl) hd hk
        cases hnone.symm.trans he
      rw [hnew]
      intro c hc d hd hck hdk
      rcases mem_cons.mp hc with rfl | hc <;> rcases mem_cons.mp hd with rfl | hd
      · rfl
      · exact absurd hdk (hfresh hck d hd)
      · exact absurd hck (hfresh hdk c hc)
      · exact hone c hc d hd hck hdk

theorem call_attached (hc : c ∈ t.records) (hx : x ≠ .release c.obj) : c ∈ (t.call x).records := by
  cases x with
  | release obj => exact mem_filter.mpr ⟨hc, decide_eq_true fun h => hx (h ▸ rfl)⟩
  | request r =>
    rw [call]
    obtain ⟨ht, -⟩ | ⟨-, obj, hnew⟩ := t.getConn_cases r
    · rwa [ht]
    · rw [hnew]
      exact mem_cons_of_mem _ hc

end Hash

open Hash

/-- Two requests of one key in one hash, the first of which got `obj`, with no release of it between them. -/
theorem attached_same {another : Bool} {calls later : List (Bool × Call)} {r r' : Request} {obj : ℕ}
    (hvalue : ∀ q, (another, .request q) ∈ calls ++ (another, .request r) :: later ++ [(another, .request r')] →
      q.connKey = r.connKey → q.hashValue = hashSort q.connKey)
    (hfirst : ((run another calls).getConn r).2 = some obj) (hattached : (another, .release obj) ∉ later)
    (hkey : r'.connKey = r.connKey) :
    ((run another (calls ++ (another, .request r) :: later)).getConn r').2 = some obj := by
  have hone : (run another (calls ++ (another, .request r) :: later)).One r.connKey := by
    refine foldlRecOn (motive := (One · r.connKey)) _ _ (fun _ hc => absurd hc not_mem_nil) fun t ht ⟨a, x⟩ hx => ?_
    split_ifs with ha
    · subst ha
      refine ht.call fun q hq hk => ?_
      rw [hvalue q (mem_append_left _ (hq ▸ hx)) hk, hk]
    · exact ht
  have hmem : ⟨obj, r.connKey⟩ ∈ (run another (calls ++ (another, .request r) :: later)).records := by
    rw [run, foldl_append, foldl_cons, if_pos rfl]
    refine foldlRecOn (motive := fun t : Hash => ⟨obj, r.connKey⟩ ∈ t.records) later _ (getConn_attached hfirst)
      fun t ht x hx => ?_
    obtain ⟨a, x⟩ := x
    split_ifs with ha
    · subst ha
      exact call_attached ht fun h => hattached (h ▸ hx)
    · exact ht
  obtain ⟨d, hd⟩ := search_of_mem (hvalue r' (by simp) hkey) hmem hkey.symm
  obtain rfl : d = ⟨obj, r.connKey⟩ := hone _ (mem_of_search hd).1 _ hmem ((mem_of_search hd).2.trans hkey) rfl
  simp [getConn, hd]

theorem attached_same_base :
    ((run false [(false, .request ⟨[0x62], 0, false, some 1, 0⟩), (false, .request ⟨[0x63], 0, false, some 2, 0⟩)]).getConn
      ⟨[0x62], 0, false, some 3, 0⟩).2 = some 1 :=
  @attached_same false [] [_] ⟨[0x62], 0, false, some 1, 0⟩ _ 1 (by simp [Request.connKey, Request.hashValue])
    rfl (by simp) rfl

/-- `casual_read` 3 with the server `b`, in a transaction that has the connection `0b`. -/
theorem casual_read_twice :
    ((run false [(false, .request ⟨[0x62], 0, false, some 1, 0⟩)]).getConn ⟨[0x62], 3, false, some 2, 0⟩).2 = some 2 ∧
      ((run false [(false, .request ⟨[0x62], 0, false, some 1, 0⟩), (false, .request ⟨[0x62], 3, false, some 2, 0⟩)]).getConn
        ⟨[0x62], 3, false, some 3, 0⟩).2 = some 3 := by decide +kernel

end TSpider.Pool.Attached

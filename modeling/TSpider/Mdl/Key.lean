import Mathlib.Data.Nat.Digits.Lemmas
import TSpider.Lib.Buffer

/-!
# Keys of metadata locks and of the table cache

An `MDL_key` is the namespace, the database and the name of an object, each string with its NUL; `update_table_share_key`
appends the version of a table share. The table cache uses the same bytes without the namespace. The buffers are sized for the
names alone.

`keys_fit_iff` : the functions write inside of the buffers, and tell tables apart, if and only if the names leave room for the
version.
-/

namespace TSpider.Mdl
open Lib List

inductive Namespace
  | global | schema | table | function | procedure | packageBody | trigger | event | commit | userLock
  deriving DecidableEq

open Namespace

def Namespace.code : Namespace → UInt8
  | .global => 0 | .schema => 1 | .table => 2 | .function => 3 | .procedure => 4 | .packageBody => 5 | .trigger => 6
  | .event => 7 | .commit => 8 | .userLock => 9

def nameLen : ℕ := 192

def serverVersionLength : ℕ := 60

/-- The name of a database or of an object: a C string of at most `NAME_LEN` bytes. -/
structure Name where
  bytes : List UInt8
  nul : 0 ∉ bytes
  length_le : bytes.length ≤ nameLen
  deriving DecidableEq

def ullstr (v : UInt64) : List UInt8 :=
  if v = 0 then [48] else ((Nat.digits 10 v.toNat).map fun d => UInt8.ofNat (48 + d)).reverse

/-! ## Version texts -/

section Version
variable {v w : UInt64}

theorem digit_lt {d : ℕ} (hd : d ∈ Nat.digits 10 v.toNat) : d < 10 := Nat.digits_lt_base (by decide) hd

theorem toNat_digit {d : ℕ} (hd : d < 10) : (UInt8.ofNat (48 + d)).toNat = 48 + d :=
  Nat.mod_eq_of_lt (by omega)

theorem nul_ullstr : 0 ∉ ullstr v := by
  unfold ullstr
  split_ifs with hv
  · simp
  · rw [mem_reverse, mem_map]
    rintro ⟨d, hd, hzero⟩
    have := toNat_digit (digit_lt hd)
    rw [hzero] at this
    have hz : (0 : UInt8).toNat = 0 := rfl
    omega

theorem length_ullstr (hv : v ≠ 0) : (ullstr v).length = (Nat.digits 10 v.toNat).length := by
  rw [ullstr, if_neg hv, length_reverse, length_map]

theorem length_ullstr_le (hv : v ≠ 0) : (ullstr v).length ≤ 20 := by
  rw [length_ullstr hv, Nat.digits_length_le_iff (by decide)]
  have := v.toNat_lt
  omega

theorem ullstr_inj (hv : v ≠ 0) (hw : w ≠ 0) (h : ullstr v = ullstr w) : v = w := by
  rw [ullstr, ullstr, if_neg hv, if_neg hw, reverse_inj] at h
  have hdigits : Nat.digits 10 v.toNat = Nat.digits 10 w.toNat := by
    have hcancel := congrArg (List.map fun b : UInt8 => b.toNat - 48) h
    rw [map_map, map_map] at hcancel
    have hid (u : UInt64) : (Nat.digits 10 u.toNat).map ((fun b : UInt8 => b.toNat - 48) ∘ fun d => UInt8.ofNat (48 + d)) =
        Nat.digits 10 u.toNat := by
      refine (map_congr_left fun d hd => ?_).trans (map_id _)
      rw [Function.comp_apply, toNat_digit (digit_lt hd), id, Nat.add_sub_cancel_left]
    rwa [hid, hid] at hcancel
  exact UInt64.toNat_inj.mp (Nat.digits_inj_iff.mp hdigits)

end Version

/-! ## The key that is meant -/

/-- A key; `version` is 0 if it has none (`m_with_version`). -/
structure Key where
  ns : Namespace
  db : Name
  name : Name
  version : UInt64
  deriving DecidableEq

def versionBytes (v : UInt64) : List UInt8 := if v = 0 then [] else ullstr v ++ [0]

def Key.cacheBytes (k : Key) : List UInt8 := k.db.bytes ++ 0 :: (k.name.bytes ++ 0 :: versionBytes k.version)

def Key.bytes (k : Key) : List UInt8 := k.ns.code :: k.cacheBytes

section Bytes
variable {k l : Key}

theorem versionBytes_inj {v w : UInt64} (h : versionBytes v = versionBytes w) : v = w := by
  unfold versionBytes at h
  split_ifs at h with hv hw hw
  · rw [hv, hw]
  · simp at h
  · simp at h
  · exact ullstr_inj hv hw ((append_nul_inj nul_ullstr nul_ullstr).mp h).1

/-- **The bytes of a key determine it.** -/
theorem Key.cacheBytes_inj (h : k.cacheBytes = l.cacheBytes) : k.db = l.db ∧ k.name = l.name ∧ k.version = l.version := by
  obtain ⟨hdb, hrest⟩ := (append_nul_inj k.db.nul l.db.nul).mp h
  obtain ⟨hname, hversion⟩ := (append_nul_inj k.name.nul l.name.nul).mp hrest
  refine ⟨?_, ?_, versionBytes_inj hversion⟩
  · cases hk : k.db
    simp_all
  · cases hk : k.name
    simp_all

end Bytes

/-! ## Writing a key -/

def maxMdlkeyLength : ℕ := 1 + nameLen + 1 + nameLen + 1

def tdcKeyLength : ℕ := nameLen + 1 + nameLen + 1

structure KeyBuf where
  length : ℕ
  dbNameLength : ℕ
  currentVersion : UInt64
  withVersion : Bool
  ptr : List UInt8

def mdlKeyInit (ptr : List UInt8) (ns : Namespace) (db name : List UInt8) : Option KeyBuf := do
  let ptr ← poke 0 [ns.code] ptr
  let (ptr, e) ← strmake ptr 1 db nameLen
  let dbNameLength := e - 1
  let (ptr, e) ← strmake ptr (dbNameLength + 2) name nameLen
  some { length := e + 1, dbNameLength, currentVersion := 0, withVersion := false, ptr }

def updateTableShareKey (k : KeyBuf) (tableVersion : UInt64) : Option KeyBuf :=
  if tableVersion ≠ 0 ∧ k.withVersion = false then do
    let (ptr, e) ← strmake k.ptr k.length (ullstr tableVersion) serverVersionLength
    some { k with length := e + 1, withVersion := true, currentVersion := tableVersion, ptr }
  else some k

def tdcCreateKey (key db tableName : List UInt8) (version : UInt64) : Option (List UInt8 × ℕ) :=
  if version ≠ 0 then do
    let (key, e) ← strmake key 0 db nameLen
    let (key, e) ← strmake key (e + 1) tableName nameLen
    let (key, e) ← strmake key (e + 1) (ullstr version) serverVersionLength
    some (key, e + 1)
  else do
    let (key, e) ← strmake key 0 db nameLen
    let (key, e) ← strmake key (e + 1) tableName nameLen
    some (key, e + 1)

def getTableDefKey (k : KeyBuf) (version : UInt64) : Option (KeyBuf × List UInt8) := do
  let k ← updateTableShareKey k version
  let key ← peek 1 (k.length - 1) k.ptr
  some (k, key)

def tdcHashInitializer (mKey key : List UInt8) : Option (List UInt8 × ℕ) := (poke 0 key mKey).map (·, key.length)

/-! ## Fitting the buffers -/

structure Table where
  db : Name
  name : Name
  version : UInt64
  deriving DecidableEq

def Table.key (t : Table) : Key := ⟨.table, t.db, t.name, t.version⟩

/-- The buffers of a table's keys before they are written: `MDL_key::m_ptr`, `key` of `tdc_lock_share`,
`TDC_element::m_key`. -/
structure Buffers where
  mPtr : List UInt8
  lookup : List UInt8
  mKey : List UInt8
  length_mPtr : mPtr.length = maxMdlkeyLength
  length_lookup : lookup.length = maxMdlkeyLength
  length_mKey : mKey.length = tdcKeyLength

/-- The keys of a table: of its metadata lock, and for looking it up in the table cache and for inserting it. -/
structure Keys where
  mdl : List UInt8
  lookup : List UInt8
  element : List UInt8

/-- The request of a table's lock, the lookup of its element (`tdc_lock_share`) and the insertion (`tdc_acquire_share`). -/
def buildKeys (b : Buffers) (t : Table) : Option Keys := do
  let k ← mdlKeyInit b.mPtr .table t.db.bytes t.name.bytes
  let (k, key) ← getTableDefKey k t.version
  let (lookup, lookupLength) ← tdcCreateKey b.lookup t.db.bytes t.name.bytes t.version
  let (mKey, mKeyLength) ← tdcHashInitializer b.mKey key
  some { mdl := k.ptr.take k.length, lookup := lookup.take lookupLength, element := mKey.take mKeyLength }

def Table.Fits (t : Table) : Prop :=
  t.version = 0 ∨ t.db.bytes.length + t.name.bytes.length + (ullstr t.version).length < 2 * nameLen

instance (t : Table) : Decidable t.Fits := inferInstanceAs (Decidable (_ ∨ _))

section Fit
variable {b : Buffers} {t : Table}

theorem mdlKeyInit_eq (b : Buffers) (t : Table) : ∃ k : KeyBuf,
    mdlKeyInit b.mPtr .table t.db.bytes t.name.bytes = some k ∧ k.withVersion = false ∧ k.ptr.length = maxMdlkeyLength ∧
      k.length = t.db.bytes.length + t.name.bytes.length + 3 ∧
      table.code :: (t.db.bytes ++ 0 :: (t.name.bytes ++ [0])) <+: k.ptr := by
  have hdb := t.db.length_le
  have hname := t.name.length_le
  have hsize : maxMdlkeyLength = 2 * nameLen + 3 := rfl
  have hptr := b.length_mPtr
  -- the namespace
  have hcode : poke 0 [table.code] b.mPtr = some (patch 0 [table.code] b.mPtr) :=
    poke_of_le (by rw [hptr, length_singleton]; omega)
  have hlength : (patch 0 [table.code] b.mPtr).length = maxMdlkeyLength := by
    rw [length_patch (by rw [hptr, length_singleton]; omega), hptr]
  have hstarts : [table.code] <+: patch 0 [table.code] b.mPtr := prefix_append _ _
  -- the database
  obtain ⟨p, hp, hpl, hps⟩ := strmake_starts hstarts hdb (by rw [hlength, length_singleton]; omega)
  -- the name
  have hlen : ([table.code] ++ (t.db.bytes ++ [0])).length = t.db.bytes.length + 2 := by simp
  obtain ⟨q, hq, hql, hqs⟩ := strmake_starts hps hname (by rw [hlen, hpl, hlength]; omega)
  rw [hlen] at hq
  rw [length_singleton] at hp
  refine ⟨⟨t.db.bytes.length + 2 + t.name.bytes.length + 1, 1 + t.db.bytes.length - 1, 0, false, q⟩, ?_, rfl,
    hql.trans (hpl.trans hlength), by dsimp only; omega, by simpa using hqs⟩
  simp [mdlKeyInit, hcode, hp, hq]

theorem Key.length_cacheBytes (k : Key) :
    k.cacheBytes.length = k.db.bytes.length + k.name.bytes.length + 2 + (versionBytes k.version).length := by
  simp only [Key.cacheBytes, length_append, length_cons]
  omega

theorem length_versionBytes (hv : t.version ≠ 0) : (versionBytes t.version).length = (ullstr t.version).length + 1 := by
  rw [versionBytes, if_neg hv, length_append, length_singleton]

theorem fits_iff : t.Fits ↔ t.key.cacheBytes.length ≤ tdcKeyLength := by
  have hdb := t.db.length_le
  have hname := t.name.length_le
  have hsize : tdcKeyLength = 2 * nameLen + 2 := rfl
  have hbytes : t.key.cacheBytes.length = t.db.bytes.length + t.name.bytes.length + 2 + (versionBytes t.version).length :=
    t.key.length_cacheBytes
  rw [hbytes, Table.Fits]
  by_cases hv : t.version = 0
  · rw [versionBytes, if_pos hv, length_nil]
    exact ⟨fun _ => by omega, fun _ => .inl hv⟩
  · rw [length_versionBytes hv]
    refine ⟨fun h => ?_, fun h => .inr (by omega)⟩
    have := h.resolve_left hv
    omega

/-- The request's key is written inside of `m_ptr` exactly if it fits; then it is the key meant, and the table cache gets its
part.
-/
theorem getTableDefKey_eq (hfits : t.Fits) : ∃ k k' : KeyBuf, mdlKeyInit b.mPtr .table t.db.bytes t.name.bytes = some k ∧
      getTableDefKey k t.version = some (k', t.key.cacheBytes) ∧ k'.ptr.take k'.length = t.key.bytes := by
  obtain ⟨k, hk, hwith, hptr, hlength, hstarts⟩ := mdlKeyInit_eq b t
  have hroom := fits_iff.mp hfits
  have hbytes : t.key.cacheBytes.length = t.db.bytes.length + t.name.bytes.length + 2 + (versionBytes t.version).length :=
    t.key.length_cacheBytes
  have hsize : maxMdlkeyLength = tdcKeyLength + 1 := rfl
  have hplain : (table.code :: (t.db.bytes ++ 0 :: (t.name.bytes ++ [0]))).length = k.length := by
    simp
    omega
  -- it is enough to know the buffer after the version
  have hread (k' : KeyBuf) (hlen' : k'.length = t.key.bytes.length) (hpre : t.key.bytes <+: k'.ptr)
      (hup : updateTableShareKey k t.version = some k') :
      getTableDefKey k t.version = some (k', t.key.cacheBytes) ∧ k'.ptr.take k'.length = t.key.bytes := by
    have htake : k'.ptr.take k'.length = t.key.bytes := by rw [hlen', ← prefix_iff_eq_take.mp hpre]
    have hinside : 1 + (k'.length - 1) ≤ k'.ptr.length := by
      have := hpre.length_le
      rw [hlen', Key.bytes, length_cons] at *
      omega
    have hslice : slice 1 (k'.length - 1) k'.ptr = t.key.cacheBytes := by
      rw [slice, ← drop_take, htake, Key.bytes, drop_one, tail_cons]
    refine ⟨?_, htake⟩
    simp [getTableDefKey, hup, peek, hinside, hslice]
  by_cases hv : t.version = 0
  · have hbytes0 : t.key.bytes = table.code :: (t.db.bytes ++ 0 :: (t.name.bytes ++ [0])) := by
      simp [Key.bytes, Key.cacheBytes, Table.key, versionBytes, hv]
    have hup : updateTableShareKey k t.version = some k := by rw [updateTableShareKey, if_neg (by simp [hv])]
    exact ⟨k, k, hk, hread k (by rw [hbytes0, hplain]) (hbytes0 ▸ hstarts) hup⟩
  · rw [length_versionBytes hv] at hbytes
    have hdigits := length_ullstr_le hv
    have h60 : serverVersionLength = 60 := rfl
    obtain ⟨p, hp, -, hps⟩ := strmake_starts hstarts (by omega : (ullstr t.version).length ≤ serverVersionLength)
      (by rw [hplain, hptr, hlength]; omega)
    rw [hplain] at hp
    have hbytesv : t.key.bytes =
        table.code :: (t.db.bytes ++ 0 :: (t.name.bytes ++ [0])) ++ (ullstr t.version ++ [0]) := by
      simp [Key.bytes, Key.cacheBytes, Table.key, versionBytes, hv]
    refine ⟨k, _, hk, hread ⟨k.length + (ullstr t.version).length + 1, k.dbNameLength, t.version, true, p⟩ ?_
      (hbytesv ▸ hps) ?_⟩
    · rw [hbytesv, length_append, hplain, length_append, length_singleton, Nat.add_assoc]
    · rw [updateTableShareKey, if_pos ⟨hv, hwith⟩, hp]
      rfl

theorem getTableDefKey_none (hfits : ¬ t.Fits) : ∃ k : KeyBuf,
    mdlKeyInit b.mPtr .table t.db.bytes t.name.bytes = some k ∧ getTableDefKey k t.version = none := by
  obtain ⟨k, hk, hwith, hptr, hlength, -⟩ := mdlKeyInit_eq b t
  obtain ⟨hv, hlong⟩ := not_or.mp hfits
  have hdigits := length_ullstr_le hv
  have h60 : serverVersionLength = 60 := rfl
  have hsize : maxMdlkeyLength = 2 * nameLen + 3 := rfl
  have hwrite : strmake k.ptr k.length (ullstr t.version) serverVersionLength = none :=
    strmake_of_le (by omega) (by rw [hptr, hlength]; omega)
  refine ⟨k, hk, ?_⟩
  simp [getTableDefKey, updateTableShareKey, hv, hwith, hwrite]

theorem tdcCreateKey_eq (hfits : t.Fits) : ∃ l : List UInt8,
    tdcCreateKey b.lookup t.db.bytes t.name.bytes t.version = some (l, t.key.cacheBytes.length) ∧ t.key.cacheBytes <+: l := by
  have hdb := t.db.length_le
  have hname := t.name.length_le
  have hroom := fits_iff.mp hfits
  have hbytes : t.key.cacheBytes.length = t.db.bytes.length + t.name.bytes.length + 2 + (versionBytes t.version).length :=
    t.key.length_cacheBytes
  have hsize : maxMdlkeyLength = tdcKeyLength + 1 := rfl
  have hlookup := b.length_lookup
  obtain ⟨p, hp, hpl, hps⟩ := strmake_starts nil_prefix hdb (by rw [hlookup, length_nil]; omega)
  rw [length_nil, Nat.zero_add] at hp
  have hlen : ([] ++ (t.db.bytes ++ [0])).length = t.db.bytes.length + 1 := by simp
  obtain ⟨q, hq, hql, hqs⟩ := strmake_starts hps hname (by rw [hlen, hpl, hlookup]; omega)
  rw [hlen] at hq
  by_cases hv : t.version = 0
  · have hplain : t.key.cacheBytes = [] ++ (t.db.bytes ++ [0]) ++ (t.name.bytes ++ [0]) := by
      simp [Key.cacheBytes, Table.key, versionBytes, hv]
    refine ⟨q, ?_, hplain ▸ hqs⟩
    rw [hbytes, versionBytes, if_pos hv, tdcCreateKey, if_neg (not_not.mpr hv)]
    simp [hp, hq]
    omega
  · rw [length_versionBytes hv] at hbytes
    have hdigits := length_ullstr_le hv
    have h60 : serverVersionLength = 60 := rfl
    have hlen' : ([] ++ (t.db.bytes ++ [0]) ++ (t.name.bytes ++ [0])).length =
      t.db.bytes.length + 1 + t.name.bytes.length + 1 := by
      simp
      omega
    obtain ⟨r, hr, -, hrs⟩ := strmake_starts hqs (by omega : (ullstr t.version).length ≤ serverVersionLength)
      (by rw [hlen', hql, hpl, hlookup]; omega)
    rw [hlen'] at hr
    have hversion : t.key.cacheBytes = [] ++ (t.db.bytes ++ [0]) ++ (t.name.bytes ++ [0]) ++ (ullstr t.version ++ [0]) := by
      simp [Key.cacheBytes, Table.key, versionBytes, hv]
    refine ⟨r, ?_, hversion ▸ hrs⟩
    rw [hbytes, tdcCreateKey, if_pos hv]
    simp [hp, hq, hr]
    omega

theorem tdcHashInitializer_eq (hfits : t.Fits) : ∃ l : List UInt8,
    tdcHashInitializer b.mKey t.key.cacheBytes = some (l, t.key.cacheBytes.length) ∧ t.key.cacheBytes <+: l := by
  have hroom : 0 + t.key.cacheBytes.length ≤ b.mKey.length := by
    rw [b.length_mKey, Nat.zero_add]
    exact fits_iff.mp hfits
  refine ⟨patch 0 t.key.cacheBytes b.mKey, ?_, prefix_append _ _⟩
  rw [tdcHashInitializer, poke_of_le hroom]
  rfl

theorem buildKeys_eq (hfits : t.Fits) : buildKeys b t = some ⟨t.key.bytes, t.key.cacheBytes, t.key.cacheBytes⟩ := by
  obtain ⟨k, k', hk, hdef, hmdl⟩ := getTableDefKey_eq (b := b) hfits
  obtain ⟨l, hl, hls⟩ := tdcCreateKey_eq (b := b) hfits
  obtain ⟨m, hm, hms⟩ := tdcHashInitializer_eq (b := b) hfits
  simp [buildKeys, hk, hdef, hl, hm, hmdl, ← prefix_iff_eq_take.mp hls, ← prefix_iff_eq_take.mp hms]

theorem buildKeys_none (hfits : ¬ t.Fits) : buildKeys b t = none := by
  obtain ⟨k, hk, hdef⟩ := getTableDefKey_none (b := b) hfits
  simp [buildKeys, hk, hdef]

theorem Table.key_inj {u : Table} (hdb : t.key.db = u.key.db) (hname : t.key.name = u.key.name)
    (hversion : t.key.version = u.key.version) : t = u := by
  cases t
  simp_all [Table.key]

end Fit

/-- **Two tables' keys are written inside of their buffers, and differ if the tables do**, exactly if the names leave room for
the version. -/
theorem keys_fit_iff (b c : Buffers) (t u : Table) : (∃ k l, buildKeys b t = some k ∧ buildKeys c u = some l ∧
      (t ≠ u → k.mdl ≠ l.mdl ∧ k.lookup ≠ l.lookup ∧ k.element ≠ l.element)) ↔ t.Fits ∧ u.Fits := by
  constructor
  · rintro ⟨k, l, hk, hl, -⟩
    refine ⟨?_, ?_⟩
    · by_contra hfits
      rw [buildKeys_none hfits] at hk
      simp at hk
    · by_contra hfits
      rw [buildKeys_none hfits] at hl
      simp at hl
  · rintro ⟨ht, hu⟩
    have hcache : t ≠ u → t.key.cacheBytes ≠ u.key.cacheBytes := fun hne heq =>
      have ⟨hdb, hname, hversion⟩ := Key.cacheBytes_inj heq
      hne (Table.key_inj hdb hname hversion)
    refine ⟨_, _, buildKeys_eq ht, buildKeys_eq hu, fun hne => ⟨fun heq => ?_, hcache hne, hcache hne⟩⟩
    exact hcache hne (List.cons.inj heq).2

/-- Characters of three bytes in UTF-8. -/
def wideText (n : ℕ) : List UInt8 := (List.replicate n [0xe4, 0xb8, 0xad]).flatten

theorem nul_wideText (n : ℕ) : 0 ∉ wideText n := by simp [wideText]

theorem length_wideText (n : ℕ) : (wideText n).length = n * 3 := by simp [wideText]

def longName : Name := ⟨wideText 64, nul_wideText 64, (length_wideText 64).le⟩

def longTable : Table := ⟨longName, longName, 1⟩

theorem longTable_not_fits : ¬ longTable.Fits := by
  have hdb : longTable.db.bytes.length = nameLen := length_wideText 64
  have hname : longTable.name.bytes.length = nameLen := length_wideText 64
  rintro (h | h)
  · exact absurd h (by decide)
  · rw [hdb, hname] at h
    have : ∀ n, ¬ nameLen + nameLen + n < 2 * nameLen := fun n => by omega
    exact this _ h

def Buffers.zeroed : Buffers where
  mPtr := List.replicate maxMdlkeyLength 0
  lookup := List.replicate maxMdlkeyLength 0
  mKey := List.replicate tdcKeyLength 0
  length_mPtr := length_replicate
  length_lookup := length_replicate
  length_mKey := length_replicate

/-- Its key is written behind the end of `MDL_key::m_ptr`. -/
theorem longTable_overruns : buildKeys .zeroed longTable = none :=
  buildKeys_none longTable_not_fits

end TSpider.Mdl

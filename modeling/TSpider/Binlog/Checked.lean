import TSpider.Binlog.Event
import TSpider.Lib.Buffer

/-!
# Converting a damaged event

`query_event_uncompress` and `row_log_event_uncompress` with every access to memory checked: one outside the event, the tables
of the format description or the output space ends the run (`none`). A run that ends otherwise returns 1 (`some none`), or 0
with the new length and the output space. zlib's `uncompress` may read all of the source and write all of the destination.
-/

namespace TSpider.Binlog.Checked

open Lib Lib.Crc

structure Description where
  commonHeaderLen : UInt8
  postHeaderLen : List UInt8
  /-- less than `OLD_HEADER_LEN` is refused -/
  old_le : 13 ≤ commonHeaderLen.toNat

def Description.postHeaderLenOf (d : Description) (type : UInt8) : Option UInt8 :=
  if type = 0 then none else d.postHeaderLen[type.toNat - 1]?

/-- The caller's buffer, and what `my_malloc` gives. -/
structure Memory where
  buf : List UInt8
  malloc : ℕ → Option (List UInt8)
  length_malloc : ∀ n x, malloc n = some x → x.length = n

variable (z : Zlib) (m : Memory) (src : List UInt8)

def Memory.choose (allocSize : ℕ) : Option (List UInt8) :=
  if allocSize ≤ m.buf.length then some m.buf else m.malloc allocSize

/-! ## The compressed block -/

def binlogGetUncompressLen (tmp : ℕ) : Option ℕ := do
  let flags ← src[tmp]?
  let lenlen := (flags &&& 0x07).toNat
  if 1 ≤ lenlen ∧ lenlen ≤ 4 then
    let bytes ← peek (tmp + 1) lenlen src
    some (korr bytes.reverse)
  else some 0

/-- `binlog_buf_uncompress` of the `len` bytes at `tmp` to the same offset of `dst`, with room for `newlen` bytes. -/
def binlogBufUncompress (tmp len : ℕ) (dst : List UInt8) (newlen : ℕ) :
    Option (Option (List UInt8)) := do
  let flags ← src[tmp]?
  if flags &&& 0x80 = 0 ∨ flags &&& 0x70 ≠ 0 then some none
  else
    let lenlen := (flags &&& 0x07).toNat
    let stream ← peek (tmp + 1 + lenlen) ((len + 2 ^ 32 - 1 - lenlen) % 2 ^ 32) src
    let room ← peek tmp newlen dst
    match z.uncompress stream with
    | some out => some (if out.length ≤ room.length then some (patch tmp out dst) else none)
    | none => some none

def stamp (checksum : Bool) (type : UInt8) (newlen : ℕ) (dst : List UInt8) : Option (Option (ℕ × List UInt8)) := do
  let dst ← poke 4 [type] dst
  let dst ← poke 9 (store 4 newlen) dst
  if checksum then
    let clear ← peek 0 (newlen - 4) dst
    let dst ← poke (newlen - 4) (store 4 (crc32 0 clear).toNat) dst
    some (some (newlen, dst))
  else some (some (newlen, dst))

/-- The output space is filled: the head of the event is copied, the block behind it is uncompressed. -/
def fill (checksum : Bool) (src : List UInt8) (tmp compLen unLen : ℕ) (type : UInt8) (dst : List UInt8) :
    Option (Option (ℕ × List UInt8)) := do
  let head ← peek 0 tmp src
  let dst ← poke 0 head dst
  match ← binlogBufUncompress z src tmp compLen dst unLen with
  | none => some none
  | some dst => stamp checksum type (tmp + unLen + checksumLen checksum) dst

/-- The end of both conversions, from the block at `tmp` on, which differ in the least number of compressed bytes accepted and
in the type of `alloc_size`. -/
def convert (checksum : Bool) (src : List UInt8) (len tmp : ℕ) (type : UInt8) (least : ℤ)
    (allocSize : ℕ → ℕ) : Option (Option (ℕ × List UInt8)) := do
  let unLen ← binlogGetUncompressLen src tmp
  let compLen := compressedLen checksum len tmp
  if compLen < least ∨ unLen = 0 then some none
  else
    match m.choose (allocSize (tmp + unLen + checksumLen checksum)) with
    | none => some none
    | some dst => fill z checksum src tmp compLen.toNat unLen type dst

/-! ## The two conversions -/

def queryEventUncompress (d : Description) (m : Memory) (checksum : Bool) (src : List UInt8) :
    Option (Option (ℕ × List UInt8)) := do
  let len := korr (← peek 9 4 src)
  if src.length < len then some none
  else
    let header := d.commonHeaderLen.toNat
    let postHeaderLen ← d.postHeaderLenOf 50
    if len ≤ header then some none
    else
      let dbLen := charToUint (← src[header + 8]?)
      let statusVarsLen := korr (← peek (header + 11) 2 src)
      let tmp := header + (postHeaderLen.toNat + statusVarsLen + dbLen + 1) % 2 ^ 32
      if len ≤ tmp then some none
      -- alloc_size is a uint32
      else convert z m checksum src len tmp 2 0 fun newlen => alignSize newlen % 2 ^ 32

/-- `net_field_length` at offset `pos`: the number, and the offset behind it -/
def netFieldLength (pos : ℕ) : Option (ℕ × ℕ) := do
  let b := (← src[pos]?).toNat
  if b < 251 then some (b, pos + 1)
  else if b = 251 then some (2 ^ 64 - 1, pos + 1)
  else if b = 252 then
    let bytes ← peek (pos + 1) 2 src
    some (korr bytes, pos + 3)
  else if b = 253 then
    let bytes ← peek (pos + 1) 3 src
    some (korr bytes, pos + 4)
  else
    let bytes ← peek (pos + 1) 4 src
    some (korr bytes, pos + 9)

def rowLogEventUncompressAt (checksum : Bool) (src : List UInt8) (len : ℕ) (type : UInt8) (pos : ℕ) :
    Option (Option (ℕ × List UInt8)) := do
  if len ≤ pos then some none
  else
    let (width, pos) ← netFieldLength src pos
    let bytes := (width + 7) % 2 ^ 64 / 8
    let tmp := if type = 24 ∨ type = 31 then pos + bytes + bytes else pos + bytes
    if len ≤ tmp then some none
    else convert z m checksum src len tmp type 1 alignSize

def rowLogEventUncompress (d : Description) (m : Memory) (checksum : Bool) (src : List UInt8) :
    Option (Option (ℕ × List UInt8)) := do
  let type ← src[4]?
  let len := korr (← peek 9 4 src)
  if src.length < len then some none
  else
    let postHeaderLen ← d.postHeaderLenOf type
    let pos := d.commonHeaderLen.toNat + 8
    if postHeaderLen = 10 then
      if len ≤ pos + 2 then some none
      else
        let varHeaderLen := korr (← peek pos 2 src)
        rowLogEventUncompressAt z m checksum src len (type - 54 + 30) (pos + varHeaderLen)
    else rowLogEventUncompressAt z m checksum src len (type - 51 + 23) pos

/-! ## Events whose lengths are right -/

def LengthAgrees : Option (ℕ × List UInt8) → Prop
  | none => True
  | some (newlen, dst) => korr (slice 9 4 dst) = newlen

def lenlen (tmp : ℕ) : ℕ := (src.getD tmp 0 &&& 0x07).toNat

/-- The number of bytes that are given to zlib, a `uint32`. -/
def streamLen (tmp compLen : ℕ) : ℕ := (compLen + 2 ^ 32 - 1 - lenlen src tmp) % 2 ^ 32

def IsZlib (tmp : ℕ) : Prop := ¬ (src.getD tmp 0 &&& 0x80 = 0 ∨ src.getD tmp 0 &&& 0x70 ≠ 0)

/-- The block at `tmp` and the event that is made of it, of `newlen` bytes, fit the output space. -/
structure OutputFits (z : Zlib) (checksum : Bool) (src : List UInt8) (tmp compLen unLen newlen : ℕ)
    (dst : List UInt8) : Prop where
  head : tmp ≤ dst.length
  stream : IsZlib src tmp → tmp + 1 + lenlen src tmp + streamLen src tmp compLen ≤ src.length
  body : IsZlib src tmp → tmp + unLen ≤ dst.length
  /-- the length field holds 32 bits, and the checksum comes last -/
  length : IsZlib src tmp → ∀ out, z.uncompress (slice (tmp + 1 + lenlen src tmp) (streamLen src tmp compLen) src) =
    some out →
    out.length ≤ unLen → newlen < 2 ^ 32 ∧ (checksum → newlen ≤ dst.length)

/-- The block at `tmp` of an event of length `len` fits the event, and what is made of it the output space. -/
structure BlockFits (z : Zlib) (m : Memory) (checksum : Bool) (src : List UInt8) (len tmp : ℕ) (least : ℤ)
    (allocSize : ℕ → ℕ) : Prop where
  lengthBytes : lenlen src tmp ≤ 4 → tmp + 1 + lenlen src tmp ≤ src.length
  output : ∀ unLen newlen dst, unLen = Binlog.binlogGetUncompressLen (src.drop tmp) →
    newlen = tmp + unLen + checksumLen checksum →
    ¬ (compressedLen checksum len tmp < least ∨ unLen = 0) → m.choose (allocSize newlen) = some dst →
    OutputFits z checksum src tmp (compressedLen checksum len tmp).toNat unLen newlen dst

section Block
variable {z : Zlib} {m : Memory} {checksum : Bool} {src dst : List UInt8} {len tmp : ℕ} {P : Option (ℕ × List UInt8) → Prop}
  {type : UInt8}

/-- The length bytes are read inside of the event. -/
theorem runs_getUncompressLen (f : ℕ → Option (Option (ℕ × List UInt8))) (htmp : tmp < src.length) :
    Runs P (binlogGetUncompressLen src tmp >>= f) ↔ (lenlen src tmp ≤ 4 → tmp + 1 + lenlen src tmp ≤ src.length) ∧
        Runs P (f (Binlog.binlogGetUncompressLen (src.drop tmp))) := by
  have hflags : (src.drop tmp).getD 0 0 = src.getD tmp 0 := by simp
  rw [binlogGetUncompressLen, bind_assoc, runs_get, and_iff_right htmp, Binlog.binlogGetUncompressLen, hflags]
  change Runs P ((if 1 ≤ lenlen src tmp ∧ lenlen src tmp ≤ 4 then
      peek (tmp + 1) (lenlen src tmp) src >>= fun bytes => some (korr bytes.reverse) else some 0) >>= f) ↔
    _ ∧ Runs P (f (if 1 ≤ lenlen src tmp ∧ lenlen src tmp ≤
      4 then korr (slice 1 (lenlen src tmp) (src.drop tmp)).reverse else 0))
  by_cases h : 1 ≤ lenlen src tmp ∧ lenlen src tmp ≤ 4
  · have hslice : slice 1 (lenlen src tmp) (src.drop tmp) = slice (tmp + 1) (lenlen src tmp) src := by
      simp [slice]
    rw [if_pos h, if_pos h, bind_assoc, runs_peek, hslice]
    simp [h.2]
  · rw [if_neg h, if_neg h]
    have hlen : lenlen src tmp ≤ 4 → tmp + 1 + lenlen src tmp ≤ src.length := by omega
    exact ⟨fun hr => ⟨hlen, hr⟩, fun hr => hr.2⟩

/-- The new length and the checksum are written inside of the output. -/
theorem runs_stamp {newlen : ℕ} (hdst : 13 ≤ dst.length) (hnew : checksum → 17 ≤ newlen) :
    Runs LengthAgrees (stamp checksum type newlen dst) ↔ newlen < 2 ^ 32 ∧ (checksum → newlen ≤ dst.length) := by
  have htype : (patch 4 [type] dst).length = dst.length := length_patch (by simp; omega)
  have hlength : (patch 9 (store 4 newlen) (patch 4 [type] dst)).length = dst.length := by
    rw [length_patch] <;> simp [htype, hdst]
  have hfield : slice 9 4 (patch 9 (store 4 newlen) (patch 4 [type] dst)) = store 4 newlen := by
    have h : slice 9 (store 4 newlen).length _ = store 4 newlen := slice_patch_self (l := patch 4 [type] dst) (by omega)
    rwa [length_store] at h
  have hstore : korr (store 4 newlen) = newlen ↔ newlen < 2 ^ 32 := by
    rw [korr_store]
    omega
  rw [stamp, runs_poke, and_iff_right (by simp; omega), runs_poke, and_iff_right (by simp [htype, hdst])]
  cases checksum with
  | false => simp [LengthAgrees, hfield, hstore]
  | true =>
    have h17 := hnew rfl
    rw [if_pos rfl, runs_peek, runs_poke, hlength, length_store]
    by_cases hfit : newlen ≤ dst.length
    · rw [and_iff_right (by omega), and_iff_right (by omega), runs_some, LengthAgrees,
        slice_patch_of_le (by omega) (by omega), hfield, hstore]
      simp [hfit]
    · have hout : ¬ newlen - 4 + 4 ≤ dst.length := by omega
      simp [hfit, hout]

/-- The head, the uncompressed block and the checksum are written inside of the output. -/
theorem runs_fill {compLen unLen : ℕ} (htmp : tmp < src.length) (hold : 13 ≤ tmp) :
    Runs LengthAgrees (fill z checksum src tmp compLen unLen type dst) ↔
      OutputFits z checksum src tmp compLen unLen (tmp + unLen + checksumLen checksum) dst := by
  have hhead : (slice 0 tmp src).length = tmp := by
    rw [slice, List.length_take_of_le]
    simpa using htmp.le
  rw [fill, runs_peek, and_iff_right (by omega), runs_poke, hhead, zero_add]
  by_cases hdst : tmp ≤ dst.length
  swap
  · exact ⟨fun h => absurd h.1 hdst, fun h => absurd h.head hdst⟩
  have hcopy : (patch 0 (slice 0 tmp src) dst).length = dst.length := length_patch (by omega)
  rw [and_iff_right hdst, binlogBufUncompress, bind_assoc, runs_get, and_iff_right htmp]
  by_cases hz : IsZlib src tmp
  swap
  · rw [if_pos (not_not.mp hz)]
    exact ⟨fun _ => ⟨hdst, fun h => absurd h hz, fun h => absurd h hz, fun h => absurd h hz⟩, fun _ => runs_some.mpr trivial⟩
  rw [if_neg hz, bind_assoc, runs_peek, bind_assoc, runs_peek, hcopy]
  change tmp + 1 + lenlen src tmp + streamLen src tmp compLen ≤ src.length ∧ tmp + unLen ≤ dst.length ∧ _ ↔ _
  by_cases hbody : tmp + unLen ≤ dst.length
  swap
  · exact ⟨fun h => absurd h.2.1 hbody, fun h => absurd (h.body hz) hbody⟩
  have hroom : (slice tmp unLen (patch 0 (slice 0 tmp src) dst)).length = unLen := by
    rw [slice, List.length_take_of_le]
    rw [List.length_drop]
    omega
  rw [hroom]
  refine Iff.trans (and_congr_right fun _ => and_congr_right fun _ => ?_)
    ⟨fun h => ⟨hdst, fun _ => h.1, fun _ => h.2.1, fun _ => h.2.2⟩, fun h => ⟨h.stream hz, h.body hz, h.length hz⟩⟩
  change Runs LengthAgrees ((match z.uncompress (slice (tmp + 1 + lenlen src tmp) (streamLen src tmp compLen) src) with
    | some out => _ | none => _) >>= _) ↔ _
  cases hu : z.uncompress (slice (tmp + 1 + lenlen src tmp) (streamLen src tmp compLen) src) with
  | none => exact ⟨fun _ out h => by simp at h, fun _ => runs_some.mpr trivial⟩
  | some out =>
    by_cases hout : out.length ≤ unLen
    · have hlen : (patch tmp out (patch 0 (slice 0 tmp src) dst)).length = dst.length := by
        rw [length_patch (by omega), hcopy]
      have hstamp : Runs LengthAgrees (stamp checksum type (tmp + unLen + checksumLen checksum)
          (patch tmp out (patch 0 (slice 0 tmp src) dst))) ↔ _ :=
        runs_stamp (by omega) fun h => by simp [checksumLen, h]; omega
      rw [hlen] at hstamp
      simpa [hout] using hstamp
    · simp [hout, LengthAgrees]

/-- The conversion of a block at `tmp` stays inside of both buffers exactly if the block fits. -/
theorem runs_convert {least : ℤ} {allocSize : ℕ → ℕ} (htmp : tmp < src.length) (hold : 13 ≤ tmp) :
    Runs LengthAgrees (convert z m checksum src len tmp type least allocSize) ↔
      BlockFits z m checksum src len tmp least allocSize := by
  rw [convert, runs_getUncompressLen _ htmp]
  have houtput (unLen : ℕ) : Runs LengthAgrees (if compressedLen checksum len tmp < least ∨ unLen = 0 then some none else
      match m.choose (allocSize (tmp + unLen + checksumLen checksum)) with
      | none => some none
      | some dst => fill z checksum src tmp (compressedLen checksum len tmp).toNat unLen type dst) ↔
      ∀ dst, ¬ (compressedLen checksum len tmp < least ∨ unLen = 0) →
        m.choose (allocSize (tmp + unLen + checksumLen checksum)) = some dst →
        OutputFits z checksum src tmp (compressedLen checksum len tmp).toNat unLen
          (tmp + unLen + checksumLen checksum) dst := by
    split_ifs with hacc
    · simp [hacc, LengthAgrees]
    · cases m.choose (allocSize (tmp + unLen + checksumLen checksum)) with
      | none => simp [LengthAgrees]
      | some dst => simp [runs_fill htmp hold, hacc]
  refine ⟨fun h => ⟨h.1, ?_⟩, fun h => ⟨h.lengthBytes, (houtput _).mpr fun dst => h.output _ _ dst rfl rfl⟩⟩
  rintro _ _ dst rfl rfl
  exact (houtput _).mp h.2 dst

end Block

/-! ## The conversions -/

def eventLen : ℕ := korr (slice 9 4 src)

def queryBlock (d : Description) (postHeaderLen : UInt8) (src : List UInt8) : ℕ :=
  d.commonHeaderLen.toNat + (postHeaderLen.toNat + korr (slice (d.commonHeaderLen.toNat + 11) 2 src) +
    charToUint (src.getD (d.commonHeaderLen.toNat + 8) 0) + 1) % 2 ^ 32

structure QueryFits (z : Zlib) (d : Description) (m : Memory) (checksum : Bool) (src : List UInt8) : Prop where
  entry : eventLen src ≤ src.length → (d.postHeaderLenOf 50).isSome
  fields : eventLen src ≤ src.length → d.commonHeaderLen.toNat < eventLen src → d.commonHeaderLen.toNat + 13 ≤ src.length
  block : ∀ p, d.postHeaderLenOf 50 = some p → eventLen src ≤ src.length → d.commonHeaderLen.toNat < eventLen src →
    queryBlock d p src < eventLen src →
    BlockFits z m checksum src (eventLen src) (queryBlock d p src) 0 fun newlen => alignSize newlen % 2 ^ 32

theorem runs_refuse {c : Prop} [Decidable c] {x : Option (Option (ℕ × List UInt8))} :
    Runs LengthAgrees (if c then some none else x) ↔ (¬ c → Runs LengthAgrees x) := by
  split_ifs with h <;> simp [h, LengthAgrees]

theorem runs_entry {o : Option UInt8} {f : UInt8 → Option (Option (ℕ × List UInt8))} :
    Runs LengthAgrees (o >>= f) ↔ o.isSome ∧ ∀ p, o = some p → Runs LengthAgrees (f p) := by
  cases o <;> simp

/-- The same for a query event, whose block begins behind the name of the database. -/
theorem runs_query (d : Description) (m : Memory) (checksum : Bool) {src : List UInt8} (hsrc : 19 ≤ src.length) :
    Runs LengthAgrees (queryEventUncompress z d m checksum src) ↔ QueryFits z d m checksum src := by
  have hold := d.old_le
  have hblock (p : UInt8) : d.commonHeaderLen.toNat ≤ queryBlock d p src := Nat.le_add_right _ _
  simp only [queryEventUncompress, runs_peek, runs_refuse, runs_entry, runs_get, not_lt, not_le]
  change _ ∧ (eventLen src ≤ src.length → _ ∧ ∀ p, _ → d.commonHeaderLen.toNat < eventLen src → _ ∧ _ ∧
    (queryBlock d p src < eventLen src → _)) ↔ _
  constructor
  · rintro ⟨-, h⟩
    refine ⟨fun hl => (h hl).1, fun hl hh => ?_, fun p hp hl hh hb => ?_⟩
    · obtain ⟨p, hp⟩ := Option.isSome_iff_exists.mp (h hl).1
      exact ((h hl).2 p hp hh).2.1
    · exact (runs_convert (hb.trans_le hl) (hold.trans (hblock p))).mp (((h hl).2 p hp hh).2.2 hb)
  · intro h
    refine ⟨by omega, fun hl => ⟨h.entry hl, fun p hp hh => ?_⟩⟩
    have hfields := h.fields hl hh
    refine ⟨by omega, by omega, fun hb => ?_⟩
    exact (runs_convert (hb.trans_le hl) (hold.trans (hblock p))).mpr (h.block p hp hl hh hb)

def countBytes (pos : ℕ) : ℕ :=
  let b := (src.getD pos 0).toNat
  if b < 252 then 0 else if b = 252 then 2 else if b = 253 then 3 else 4

/-- The column count at `pos` and the block behind the bitmaps are inside the event. -/
structure ColumnsFit (z : Zlib) (m : Memory) (checksum : Bool) (src : List UInt8) (len : ℕ) (type : UInt8)
    (pos : ℕ) : Prop where
  count : pos < len → pos + 1 + countBytes src pos ≤ src.length
  block : pos < len → skipColumns src type pos < len → BlockFits z m checksum src len (skipColumns src type pos) 1 alignSize

/-- The packed number of columns is read inside of the event. -/
theorem runs_fieldLength {src : List UInt8} {pos : ℕ} (f : ℕ × ℕ → Option (Option (ℕ × List UInt8)))
    (hpos : pos < src.length) :
    Runs LengthAgrees (netFieldLength src pos >>= f) ↔
      pos + 1 + countBytes src pos ≤ src.length ∧ Runs LengthAgrees (f (Binlog.netFieldLength src pos)) := by
  rw [netFieldLength, bind_assoc, runs_get, and_iff_right hpos, countBytes, Binlog.netFieldLength]
  generalize (src.getD pos 0).toNat = b
  by_cases h250 : b < 251
  · rw [if_pos h250, if_pos h250, if_pos (by omega)]
    exact (and_iff_right (by omega)).symm
  by_cases h251 : b = 251
  · rw [if_neg h250, if_neg h250, if_pos h251, if_pos h251, if_pos (by omega)]
    exact (and_iff_right (by omega)).symm
  rw [if_neg h250, if_neg h250, if_neg h251, if_neg h251, if_neg (show ¬ b < 252 by omega)]
  split_ifs <;> rw [bind_assoc, runs_peek] <;> rfl

theorem runs_rowsAt {z : Zlib} {m : Memory} {checksum : Bool} {src : List UInt8} {len : ℕ} {type : UInt8} {pos : ℕ}
    (hlen : len ≤ src.length) (hold : 13 ≤ pos) : Runs LengthAgrees (rowLogEventUncompressAt z m checksum src len type pos) ↔
      ColumnsFit z m checksum src len type pos := by
  have hskip : pos ≤ skipColumns src type pos := by
    have hnet : pos ≤ (Binlog.netFieldLength src pos).2 := by
      simp only [Binlog.netFieldLength]
      split_ifs <;> simp
    simp only [skipColumns]
    split_ifs <;> omega
  rw [rowLogEventUncompressAt, runs_refuse, not_le]
  constructor
  · intro h
    refine ⟨fun hp => ?_, fun hp hb => ?_⟩
    · exact ((runs_fieldLength _ (hp.trans_le hlen)).mp (h hp)).1
    · have hconvert := runs_refuse.mp ((runs_fieldLength _ (hp.trans_le hlen)).mp (h hp)).2
      exact (runs_convert (hb.trans_le hlen) (hold.trans hskip)).mp (hconvert hb.not_ge)
  · intro h hp
    refine (runs_fieldLength _ (hp.trans_le hlen)).mpr ⟨h.count hp, runs_refuse.mpr fun hb => ?_⟩
    have hb : skipColumns src type pos < len := not_le.mp hb
    exact (runs_convert (hb.trans_le hlen) (hold.trans hskip)).mpr (h.block hp hb)

/-- The header, the column count and the block of a rows event are inside it. -/
structure RowsFits (z : Zlib) (d : Description) (m : Memory) (checksum : Bool) (src : List UInt8) : Prop where
  entry : eventLen src ≤ src.length → (d.postHeaderLenOf (src.getD 4 0)).isSome
  version1 : ∀ p, d.postHeaderLenOf (src.getD 4 0) = some p → p ≠ 10 → eventLen src ≤ src.length →
    ColumnsFit z m checksum src (eventLen src) (src.getD 4 0 - 51 + 23) (d.commonHeaderLen.toNat + 8)
  version2 : d.postHeaderLenOf (src.getD 4 0) = some 10 → eventLen src ≤ src.length →
    d.commonHeaderLen.toNat + 8 + 2 < eventLen src →
    ColumnsFit z m checksum src (eventLen src) (src.getD 4 0 - 54 + 30)
      (d.commonHeaderLen.toNat + 8 + korr (slice (d.commonHeaderLen.toNat + 8) 2 src))

/-- The same for a rows event, whose block begins behind the bitmaps. -/
theorem runs_rows (d : Description) (m : Memory) (checksum : Bool) {src : List UInt8} (hsrc : 19 ≤ src.length) :
    Runs LengthAgrees (rowLogEventUncompress z d m checksum src) ↔ RowsFits z d m checksum src := by
  have hold := d.old_le
  rw [rowLogEventUncompress, runs_get, and_iff_right (by omega), runs_peek, and_iff_right (by omega), runs_refuse, not_lt]
  change (eventLen src ≤ src.length → _) ↔ _
  constructor
  · intro h
    refine ⟨fun hl => (runs_entry.mp (h hl)).1, fun p hp h10 hl => ?_, fun hp hl hlong => ?_⟩
    · have hrun := (runs_entry.mp (h hl)).2 p hp
      rw [if_neg h10] at hrun
      exact (runs_rowsAt hl (by omega)).mp hrun
    · have hrun := runs_refuse.mp ((runs_entry.mp (h hl)).2 10 hp) hlong.not_ge
      exact (runs_rowsAt hl (by omega)).mp ((runs_peek _ _ _ _).mp hrun).2
  · intro h hl
    refine runs_entry.mpr ⟨h.entry hl, fun p hp => ?_⟩
    by_cases h10 : p = 10
    · subst h10
      refine runs_refuse.mpr fun hshort => (runs_peek _ _ _ _).mpr ⟨?_, ?_⟩
      · exact (not_le.mp hshort).le.trans hl
      · exact (runs_rowsAt hl (by omega)).mpr (h.version2 hp hl (not_le.mp hshort))
    · rw [if_neg h10]
      exact (runs_rowsAt hl (by omega)).mpr (h.version1 p hp h10 hl)

/-- **The conversions keep to their memory** exactly if the lengths given for the event's parts are right. -/
theorem uncompress_safe_iff (d : Description) (m : Memory) (checksum : Bool) (src : List UInt8) (hsrc : 19 ≤ src.length) :
    (Runs LengthAgrees (queryEventUncompress z d m checksum src) ↔ QueryFits z d m checksum src) ∧
      (Runs LengthAgrees (rowLogEventUncompress z d m checksum src) ↔ RowsFits z d m checksum src) :=
  ⟨runs_query z d m checksum hsrc, runs_rows z d m checksum hsrc⟩

def thisServer : Description where
  commonHeaderLen := 19
  postHeaderLen := List.replicate 49 0 ++ [13, 8, 8, 8, 10, 10, 10]
  old_le := by decide

def plentiful : Memory where
  buf := []
  malloc n := some (List.replicate n 0)
  length_malloc n x h := by rw [← Option.some.inj h, List.length_replicate]

def stored : Zlib where
  compress x := x
  uncompress x := some x
  uncompress_compress _ := rfl
  compress_le x := by unfold compressBound; omega

def shortQuery : List UInt8 := [0, 0, 0, 0, 50, 0, 0, 0, 0, 20, 0, 0, 0, 0, 0, 0, 0, 0, 0, 0]

def shortRows : List UInt8 :=
  [0, 0, 0, 0, 51, 0, 0, 0, 0, 28, 0, 0, 0, 0, 0, 0, 0, 0, 0] ++ [0, 0, 0, 0, 0, 0, 0, 0] ++ [254]

/-- Short events are read behind their end. -/
theorem shortEvents_left : (19 ≤ shortQuery.length ∧ 19 ≤ shortRows.length) ∧
    ¬ Runs LengthAgrees (queryEventUncompress stored thisServer plentiful false shortQuery) ∧
      ¬ Runs LengthAgrees (rowLogEventUncompress stored thisServer plentiful false shortRows) := by
  exact ⟨by decide, not_runs_none, not_runs_none⟩

def goodQuery : List UInt8 :=
  [0, 0, 0, 0, 50, 0, 0, 0, 0, 36, 0, 0, 0, 0, 0, 0, 0, 0, 0] ++ List.replicate 14 0 ++ [0x81, 1, 65]

theorem goodQuery_fits : 19 ≤ goodQuery.length ∧ QueryFits stored thisServer plentiful false goodQuery := by
  have hrun : queryEventUncompress stored thisServer plentiful false goodQuery =
      some (some (34, [0, 0, 0, 0, 2, 0, 0, 0, 0, 34] ++ List.replicate 23 0 ++ [65] ++ List.replicate 6 0)) := rfl
  have hlen : 19 ≤ goodQuery.length := by decide
  exact ⟨hlen, (uncompress_safe_iff stored thisServer plentiful false goodQuery hlen).1.mp (hrun ▸ runs_some.mpr rfl)⟩

end TSpider.Binlog.Checked

import TSpider.Binlog.Event
import Mathlib.Tactic

/-!
# Compressed events convert back to the events written without compression

`frame` is the shape both kinds of events have, and `Reads` says that a conversion finds the compressed part of one. Then it
returns the uncompressed event for every zlib exactly if the event `Fits` (`Reads.roundTrips_iff`): it has its end position,
no flag that the checksum leaves out, something to compress, and a compressed block of less than 2 GB.
-/

namespace TSpider.Binlog

open Lib Lib.Crc List

/-! ## Compressed blocks -/

theorem lenLen_cases (n : ℕ) : lenLen n = 1 ∨ lenLen n = 2 ∨ lenLen n = 3 ∨ lenLen n = 4 := by
  unfold lenLen
  split_ifs <;> simp

theorem lt_pow_lenLen {n : ℕ} (h : n < 2 ^ 32) : n < 256 ^ lenLen n := by
  unfold lenLen
  split_ifs <;> omega

@[simp] theorem length_blockHeader (n : ℕ) : (blockHeader n).length = 1 + lenLen n := by
  simp [blockHeader, Nat.add_comm]

theorem blockHeader_getD (n : ℕ) (r : List UInt8) :
    (blockHeader n ++ r).getD 0 0 = UInt8.ofNat (0x80 ||| lenLen n) := rfl

-- The first byte: the flag of a compressed block, algorithm 0 and the number of length bytes.
theorem firstByte (n : ℕ) : (UInt8.ofNat (0x80 ||| lenLen n) &&& 0x07).toNat = lenLen n ∧
      UInt8.ofNat (0x80 ||| lenLen n) &&& 0x80 ≠ 0 ∧ UInt8.ofNat (0x80 ||| lenLen n) &&& 0x70 = 0 := by
  rcases lenLen_cases n with h | h | h | h <;> rw [h] <;> decide

/-- The header of a block gives back the length. -/
theorem uncompressLen_block {n : ℕ} (hn : n < 2 ^ 32) (r : List UInt8) : binlogGetUncompressLen (blockHeader n ++ r) = n := by
  have hlen := lenLen_cases n
  have hslice : slice 1 (lenLen n) (blockHeader n ++ r) = (store (lenLen n) n).reverse :=
    slice_append (a := [UInt8.ofNat (0x80 ||| lenLen n)]) rfl (by simp) r
  rw [binlogGetUncompressLen, blockHeader_getD, (firstByte n).1, if_pos (by omega), hslice, reverse_reverse,
    korr_store, Nat.mod_eq_of_lt (lt_pow_lenLen hn)]

/-- What was compressed is uncompressed. -/
theorem bufUncompress_block {z : Zlib} {p r : List UInt8} {len : ℕ}
    (hlen : len = 1 + lenLen p.length + (z.compress p).length) (hlt : len < 2 ^ 32) :
    binlogBufUncompress z (blockHeader p.length ++ (z.compress p ++ r)) len p.length = some p := by
  have hcount : (len + 2 ^ 32 - 1 - lenLen p.length) % 2 ^ 32 = (z.compress p).length := by omega
  have hslice : slice (1 + lenLen p.length) (z.compress p).length (blockHeader p.length ++ (z.compress p ++ r)) =
      z.compress p := slice_append (length_blockHeader _) rfl r
  rw [binlogBufUncompress, blockHeader_getD, if_neg (firstByte _).2.1, if_pos (firstByte _).2.2, (firstByte _).1,
    hcount, hslice, z.uncompress_compress]
  exact if_pos rfl

theorem bufCompress_of_bound {z : Zlib} {p : List UInt8} (hp : 1 + lenLen p.length + compressBound p.length < 2 ^ 31) :
    binlogBufCompress z p (binlogGetCompressLen p.length) = some (blockHeader p.length ++ z.compress p) := by
  have hlen := lenLen_cases p.length
  have hle := z.compress_le p
  have hroom : (z.compress p).length ≤
      (binlogGetCompressLen p.length + 2 ^ 64 - 1 - lenLen p.length - 1) % 2 ^ 64 := by
    unfold binlogGetCompressLen alignSize
    omega
  rw [binlogBufCompress, if_pos hroom, take_of_length_le]
  simp only [length_append, length_blockHeader]
  omega

theorem bufCompress_some {z : Zlib} {p c : List UInt8} {n : ℕ} (h : binlogBufCompress z p n = some c)
    (hlt : 1 + lenLen p.length + (z.compress p).length < 2 ^ 32) : c = blockHeader p.length ++ z.compress p := by
  rw [binlogBufCompress, Option.ite_none_right_eq_some] at h
  rw [← Option.some.inj h.2, take_of_length_le]
  simp only [length_append, length_blockHeader]
  omega

/-! ## The shape of an event -/

@[simp] theorem length_rawHeader (a : ℕ) (type : UInt8) (b c d e : ℕ) : (rawHeader a type b c d e).length = 19 := by
  simp [rawHeader]

section
variable (a : ℕ) (type : UInt8) (b c d e : ℕ) (r : List UInt8)

theorem rawHeader_type :
    (rawHeader a type b c d e ++ r).getD 4 0 = type := rfl

theorem rawHeader_append : rawHeader a type b c d e ++ r =
      (store 4 a ++ [type] ++ store 4 b) ++ (store 4 c ++ (store 4 d ++ (store 2 e ++ r))) := by
  simp only [rawHeader, append_assoc]

theorem rawHeader_len :
    korr (slice 9 4 (rawHeader a type b c d e ++ r)) = c % 2 ^ 32 := by
  rw [rawHeader_append, slice_append (by simp) (by simp), korr_store]
  norm_num

theorem rawHeader_logPos :
    slice 13 4 (rawHeader a type b c d e ++ r) = store 4 d := by
  rw [rawHeader_append, ← append_assoc _ (store 4 c), slice_append (by simp) (by simp)]

end

theorem patch_rawHeader (a : ℕ) (type type' : UInt8) (b c c' d e : ℕ) (r : List UInt8) :
    patch 9 (store 4 c') (patch 4 [type'] (rawHeader a type b c d e ++ r)) = rawHeader a type' b c' d e ++ r := by
  have htype : patch 4 [type'] (rawHeader a type b c d e ++ r) = rawHeader a type' b c d e ++ r := by
    simp only [rawHeader, append_assoc]
    exact patch_append (by simp) (by simp) _
  rw [htype]
  simp only [rawHeader, append_assoc _ _ r]
  exact patch_append (by simp) (by simp) _

def footer (w : Writer) (header body : List UInt8) : List UInt8 :=
  if w.checksum then store 4 (crc32 0 (dropInUse header ++ body)).toNat else []

@[simp] theorem length_footer (w : Writer) (header body : List UInt8) :
    (footer w header body).length = checksumLen w.checksum := by
  unfold footer checksumLen
  split <;> simp

def frame (h : Header) (w : Writer) (pre : List UInt8) (type : UInt8) (c : List UInt8) : List UInt8 :=
  let header := h.write w type (pre.length + c.length)
  header ++ (pre ++ (c ++ footer w header (pre ++ c)))

theorem writePieces_eq {w : Writer} {h : Header} {type : UInt8} {pieces : List (List UInt8)} {pre c : List UInt8}
    {n : ℕ} (hpieces : pieces.flatten = pre ++ c) (hn : n = pre.length + c.length) :
    writePieces w (h.write w type n) pieces = frame h w pre type c := by
  subst hn
  simp only [writePieces, frame, footer, foldl_crc32, crc32_append, hpieces, append_assoc]

section Frame
variable (h : Header) (w : Writer) (pre : List UInt8) (type : UInt8) (c : List UInt8)

theorem length_frame : (frame h w pre type c).length = 19 + pre.length + c.length + checksumLen w.checksum := by
  simp only [frame, Header.write, length_append, length_rawHeader, length_footer]
  omega

theorem frame_type : (frame h w pre type c).getD 4 0 = type := rawHeader_type ..

theorem frame_len :
    korr (slice 9 4 (frame h w pre type c)) = (19 + pre.length + c.length + checksumLen w.checksum) % 2 ^ 32 := by
  rw [frame, Header.write, rawHeader_len, dataWritten]
  congr 1
  omega

theorem take_frame : (frame h w pre type c).take (19 + pre.length) = h.write w type (pre.length + c.length) ++ pre := by
  rw [frame, ← append_assoc, take_left']
  simp [Header.write]

theorem drop_frame : (frame h w pre type c).drop (19 + pre.length) =
      c ++ footer w (h.write w type (pre.length + c.length)) (pre ++ c) := by
  rw [frame, ← append_assoc, drop_left']
  simp [Header.write]

variable {pre}

theorem frame_slice {l b r : List UInt8} {i n : ℕ} (hpre : pre = l ++ (b ++ r)) (hl : l.length = i) (hb : b.length = n) :
    slice (19 + i) n (frame h w pre type c) = b := by
  have hsplit : frame h w pre type c = (h.write w type (pre.length + c.length) ++ l) ++
      (b ++ (r ++ (c ++ footer w (h.write w type (pre.length + c.length)) (pre ++ c)))) := by
    simp [frame, hpre]
  rw [hsplit, slice_append (by simp [Header.write, hl]) hb]

end Frame

/-- The event around a block is the event around what the block holds. -/
theorem rebuild_frame (z : Zlib) (h : Header) (w : Writer) (pre : List UInt8) (t type : UInt8) (c : List UInt8) (n u : ℕ) :
    rebuild z w.checksum (frame h w pre t c) (19 + pre.length) n u type =
      (binlogBufUncompress z ((frame h w pre t c).drop (19 + pre.length)) n u).map fun body => finish w.checksum
          (rawHeader h.when type h.serverId (19 + pre.length + u + checksumLen w.checksum)
            (h.endPos w (pre.length + c.length)) h.flags ++ (pre ++ body)) := by
  unfold rebuild
  cases binlogBufUncompress z ((frame h w pre t c).drop (19 + pre.length)) n u with
  | none => rfl
  | some body =>
    simp only [take_frame, Header.write, append_assoc, patch_rawHeader, Option.map_some]

theorem bufUncompress_length {z : Zlib} {src body : List UInt8} {n u : ℕ}
    (h : binlogBufUncompress z src n u = some body) : body.length = u := by
  unfold binlogBufUncompress at h
  split at h
  · simp at h
  · dsimp only at h
    split at h
    · split at h
      · rw [Option.ite_none_right_eq_some] at h
        rw [← Option.some.inj h.2]
        exact h.1
      · simp at h
    · simp at h

/-! ## The checksum of the header -/

theorem drop_low_bit (b : UInt8) : b &&& 0xFE = b ↔ b.toNat.testBit 0 = false := by
  obtain ⟨b⟩ := b
  revert b
  decide

theorem rawHeader_split (a : ℕ) (type : UInt8) (b c d e : ℕ) :
    ∃ l, l.length = 17 ∧ rawHeader a type b c d e = l ++ UInt8.ofNat e :: [UInt8.ofNat (e / 256)] :=
  ⟨store 4 a ++ [type] ++ store 4 b ++ store 4 c ++ store 4 d, by simp, by simp [rawHeader, store]⟩

theorem dropInUse_split {l r : List UInt8} (hl : l.length = 17) (x : UInt8) :
    dropInUse (l ++ x :: r) = l ++ (x &&& 0xFE) :: r := by
  rw [dropInUse, modify_eq_take_drop, take_left' hl, drop_left' hl]
  rfl

theorem low_byte_testBit (n : ℕ) : (UInt8.ofNat n).toNat.testBit 0 = n.testBit 0 := by
  simp

theorem dropInUse_write {h : Header} (hu : h.inUse = false) (w : Writer) (type : UInt8) (n : ℕ) :
    dropInUse (h.write w type n) = h.write w type n := by
  obtain ⟨l, hl, heq⟩ :=
    rawHeader_split h.when type h.serverId (dataWritten w n) (h.endPos w n) h.flags
  have hbit : UInt8.ofNat h.flags &&& 0xFE = UInt8.ofNat h.flags := by
    rw [drop_low_bit, low_byte_testBit]
    exact hu
  rw [Header.write, heq, dropInUse_split hl, hbit]

theorem inUse_of_crc {h : Header} {w : Writer} {type : UInt8} {n : ℕ} {r : List UInt8}
    (heq : crc32 0 (dropInUse (h.write w type n) ++ r) = crc32 0 (h.write w type n ++ r)) : h.inUse = false := by
  obtain ⟨l, hl, hsplit⟩ :=
    rawHeader_split h.when type h.serverId (dataWritten w n) (h.endPos w n) h.flags
  rw [Header.write, hsplit, dropInUse_split hl, append_assoc, append_assoc] at heq
  have hbyte := crc32_byte_inj heq
  rw [drop_low_bit, low_byte_testBit] at hbyte
  exact hbyte

/-- A written event ends with the checksum of all before it, unless its header has the flag that the checksum leaves out. -/
theorem frame_eq_finish {h : Header} {w : Writer} (hu : w.checksum = true → h.inUse = false) (pre : List UInt8)
    (type : UInt8) (p : List UInt8) :
    frame h w pre type p = finish w.checksum (h.write w type (pre.length + p.length) ++ (pre ++ p)) := by
  cases hw : w.checksum with
  | false => simp [frame, footer, finish, hw]
  | true => simp [frame, footer, finish, hw, dropInUse_write (hu hw)]

/-! ## Transparent events -/

/-- The part `p` of an event can be compressed and the event converted back, whatever zlib makes of it. -/
def Fits (h : Header) (w : Writer) (p : List UInt8) : Prop :=
  (h.artificial = true ∨ h.logPos ≠ 0) ∧ (w.checksum = true → h.inUse = false) ∧ p ≠ [] ∧
    1 + lenLen p.length + compressBound p.length < 2 ^ 31

/-- The conversion `f` finds the block of a compressed event of type `t` and makes it one of type `type`. -/
structure Reads (f : Zlib → List UInt8 → Option (List UInt8)) (h : Header) (w : Writer) (pre : List UInt8)
    (t type : UInt8) : Prop where
  accepts : ∀ z c u, 0 < c.length → c.length < 2 ^ 31 →
    u = binlogGetUncompressLen ((frame h w pre t c).drop (19 + pre.length)) → 0 < u → u < 2 ^ 31 →
    f z (frame h w pre t c) = rebuild z w.checksum (frame h w pre t c) (19 + pre.length) c.length u type
  found : ∀ z c out, f z (frame h w pre t c) = some out → c.length % 2 ^ 32 < 2 ^ 31 ∧
    ∃ n u, 0 < u ∧ rebuild z w.checksum (frame h w pre t c) (19 + pre.length) n u type = some out

/-- Writing with compression and converting gives the event written without, for every zlib. -/
def RoundTrips (f : Zlib → List UInt8 → Option (List UInt8)) (h : Header) (w : Writer) (pre : List UInt8)
    (t type : UInt8) (p : List UInt8) : Prop :=
  ∀ z : Zlib, ((binlogBufCompress z p (binlogGetCompressLen p.length)).map (frame h w pre t)).bind (f z) =
    some (frame h w pre type p)

def untag (tag : UInt8) : List UInt8 → Option (List UInt8)
  | [] => none
  | t :: x => if t = tag then some x else none

section Tagged
variable {tag : UInt8} {p c : List UInt8}

theorem untag_tagged (hc : ∀ x, c ≠ tag :: x) (x : List UInt8) :
    (if (if x = p then c else tag :: x) = c then some p else untag tag (if x = p then c else tag :: x)) = some x := by
  by_cases hx : x = p
  · simp [hx]
  · simp [hx, (hc x).symm, untag]

theorem tagged_le (hle : c.length ≤ compressBound p.length) (x : List UInt8) :
    (if x = p then c else tag :: x).length ≤ compressBound x.length := by
  by_cases hx : x = p
  · simpa [hx] using hle
  · simp only [if_neg hx, length_cons, compressBound]
    omega

end Tagged

def Zlib.tagged (tag : UInt8) (p c : List UInt8) (hc : ∀ x, c ≠ tag :: x) (hle : c.length ≤ compressBound p.length) :
    Zlib where
  compress x := if x = p then c else tag :: x
  uncompress y := if y = c then some p else untag tag y
  uncompress_compress := untag_tagged hc
  compress_le := tagged_le hle

section Reads
variable {f : Zlib → List UInt8 → Option (List UInt8)} {h : Header} {w : Writer} {pre p : List UInt8} {t type : UInt8}

/-- An event that fits is converted back to the one that was written without compression. -/
theorem Fits.roundTrips (hr : Reads f h w pre t type) (hp : Fits h w p) : RoundTrips f h w pre t type p := by
  obtain ⟨hpos, hflag, hne, hbound⟩ := hp
  intro z
  have hle := z.compress_le p
  have hplt : p.length < 2 ^ 31 := by unfold compressBound at hbound; omega
  have hc : (blockHeader p.length ++ z.compress p).length = 1 + lenLen p.length + (z.compress p).length := by simp
  have hun : p.length = binlogGetUncompressLen
      ((frame h w pre t (blockHeader p.length ++ z.compress p)).drop (19 + pre.length)) := by
    rw [drop_frame, append_assoc, uncompressLen_block (by omega)]
  -- the position in the header is not computed from the length of the event
  have hend : ∀ n, h.endPos w n = h.endPos w (pre.length + p.length) := by
    intro n
    unfold Header.endPos
    rcases hpos with ha | hl
    · rw [if_pos ha, if_pos ha]
    · rw [if_neg hl, if_neg hl]
  rw [bufCompress_of_bound hbound, Option.map_some, Option.bind_some,
    hr.accepts z _ p.length (by omega) (by omega) hun (length_pos_iff.mpr hne) hplt, rebuild_frame, drop_frame,
    append_assoc, bufUncompress_block hc (by omega), Option.map_some, hend, frame_eq_finish hflag, Header.write]
  congr 4
  unfold dataWritten
  omega

theorem RoundTrips.converted (hr : Reads f h w pre t type) (hp : RoundTrips f h w pre t type p) {c : List UInt8}
    (hc : ∀ x, c ≠ 0 :: x) (hle : c.length ≤ compressBound p.length) (hlt : 1 + lenLen p.length + c.length < 2 ^ 32) :
    1 + lenLen p.length + c.length < 2 ^ 31 ∧ ∃ body, 0 < body.length ∧ frame h w pre type p = finish w.checksum
        (rawHeader h.when type h.serverId (19 + pre.length + body.length + checksumLen w.checksum)
          (h.endPos w (pre.length + (1 + lenLen p.length + c.length))) h.flags ++ (pre ++ body)) := by
  obtain ⟨e, he, hf⟩ := Option.bind_eq_some_iff.mp (hp (Zlib.tagged 0 p c hc hle))
  obtain ⟨b, hb, rfl⟩ := Option.map_eq_some_iff.mp he
  have hz : (Zlib.tagged 0 p c hc hle).compress p = c := if_pos rfl
  have hbc : b = blockHeader p.length ++ c := by
    rw [← hz]
    exact bufCompress_some hb (by rwa [hz])
  have hblen : b.length = 1 + lenLen p.length + c.length := by simp [hbc]
  obtain ⟨hsize, n, u, hu, hre⟩ := hr.found _ _ _ hf
  rw [rebuild_frame] at hre
  obtain ⟨body, hbody, hout⟩ := Option.map_eq_some_iff.mp hre
  have hbl := bufUncompress_length hbody
  refine ⟨?_, body, by omega, ?_⟩
  · omega
  · rw [← hout, hbl, hblen]

theorem length_finish (checksum : Bool) (l : List UInt8) : (finish checksum l).length = l.length + checksumLen checksum := by
  unfold finish checksumLen
  split <;> simp

theorem finish_logPos (checksum : Bool) (a : ℕ) (type : UInt8) (b c d e : ℕ) (r : List UInt8) :
    slice 13 4 (finish checksum (rawHeader a type b c d e ++ r)) = store 4 d := by
  unfold finish
  split
  · rw [append_assoc, rawHeader_logPos]
  · rw [rawHeader_logPos]

section
variable (hr : Reads f h w pre t type) (hp : RoundTrips f h w pre t type p)
include hr hp

/-- An event without a position gets that of its compressed form. -/
theorem RoundTrips.positioned :
    h.artificial = true ∨ h.logPos ≠ 0 := by
  by_contra hcon
  push Not at hcon
  obtain ⟨hart, hlog⟩ := hcon
  have hlen := lenLen_cases p.length
  obtain ⟨-, body, -, heq⟩ := hp.converted hr (c := []) (by simp) (by simp) (by simp; omega)
  obtain ⟨-, body', -, heq'⟩ := hp.converted hr (c := [1]) (by simp) (by simp [compressBound]) (by simp; omega)
  have hpos := congrArg (slice 13 4) (heq.symm.trans heq')
  rw [finish_logPos, finish_logPos] at hpos
  have hmod := store_inj hpos
  simp only [Header.endPos, hart, hlog, if_true, dataWritten, length_nil, length_cons] at hmod
  norm_num at hmod
  omega

theorem RoundTrips.nonempty : p ≠ [] := by
  have hlen := lenLen_cases p.length
  obtain ⟨-, body, hbody, heq⟩ := hp.converted hr (c := []) (by simp) (by simp) (by simp; omega)
  have hlength := congrArg List.length heq
  rw [length_frame, length_finish, length_append, length_rawHeader, length_append] at hlength
  exact length_pos_iff.mp (by omega)

theorem RoundTrips.unflagged
    (hw : w.checksum = true) : h.inUse = false := by
  have hlen := lenLen_cases p.length
  obtain ⟨-, body, hbody, heq⟩ := hp.converted hr (c := []) (by simp) (by simp) (by simp; omega)
  simp only [frame, footer, hw, if_true] at heq
  rw [← append_assoc pre p, ← append_assoc] at heq
  obtain ⟨hdata, hcrc⟩ := append_inj' heq (by simp)
  have hcrc' := store_inj hcrc
  rw [← hdata, Nat.mod_eq_of_lt (by norm_num; exact BitVec.isLt _),
    Nat.mod_eq_of_lt (by norm_num; exact BitVec.isLt _)] at hcrc'
  exact inUse_of_crc (BitVec.eq_of_toNat_eq hcrc')

/-- A block of 2 GB has a negative length. -/
theorem RoundTrips.bounded :
    1 + lenLen p.length + compressBound p.length < 2 ^ 31 := by
  by_contra hcon
  have hlen := lenLen_cases p.length
  obtain ⟨k, hk⟩ : ∃ k, 1 + lenLen p.length + k = 2 ^ 31 := ⟨2 ^ 31 - 1 - lenLen p.length, by omega⟩
  have hne : ∀ x, List.replicate k (1 : UInt8) ≠ 0 :: x := by
    intro x hx
    have hmem : (0 : UInt8) ∈ List.replicate k (1 : UInt8) := hx ▸ mem_cons_self
    exact absurd (eq_of_mem_replicate hmem) (by decide)
  have hsize := (hp.converted hr hne (by rw [length_replicate]; omega)
    (by rw [length_replicate]; omega)).1
  rw [length_replicate] at hsize
  omega

end

/-- The conversion gives the event back exactly if it fits. -/
theorem Reads.roundTrips_iff (hr : Reads f h w pre t type) : RoundTrips f h w pre t type p ↔ Fits h w p :=
  ⟨fun hp => ⟨hp.positioned hr, hp.unflagged hr, hp.nonempty hr, hp.bounded hr⟩, fun hp => hp.roundTrips hr⟩

end Reads

end TSpider.Binlog

import TSpider.Binlog.Convert

/-!
# Which compressed events are transparent

`row_log_event_uncompress` finds the compressed block of every rows event (`rows_reads`), `query_event_uncompress` that of a
query event whose database has a name of less than 128 bytes (`query_reads`). A longer name makes its length, read as a signed
`char`, wrong by 256, and no zlib helps (`RoundTrips.db_lt`).
-/

namespace TSpider.Binlog

open Lib Lib.Crc RowsEvent

theorem getD_append_cons {l r : List UInt8} {i : ℕ} (hl : l.length = i) (x : UInt8) : (l ++ x :: r).getD i 0 = x := by
  subst hl
  simp

theorem getD_of_slice {l : List UInt8} {i : ℕ} {x : UInt8} (h : slice i 1 l = [x]) : l.getD i 0 = x := by
  have hhead := congrArg (fun l : List UInt8 => l.getD 0 0) h
  simpa [slice, List.getD_eq_getElem?_getD] using hhead

/-! ## The number of compressed bytes -/

theorem compressedLen_frame (checksum : Bool) (tmp c : ℕ) :
    compressedLen checksum ((tmp + c + checksumLen checksum) % 2 ^ 32) tmp = Int.bmod c (2 ^ 32) := by
  simp only [compressedLen, Int.bmod]
  omega

theorem compressedLen_small (checksum : Bool) (tmp : ℕ) {c : ℕ} (hc : c < 2 ^ 31) :
    compressedLen checksum ((tmp + c + checksumLen checksum) % 2 ^ 32) tmp = c := by
  rw [compressedLen_frame]
  simp only [Int.bmod]
  omega

theorem lt_of_compressedLen {checksum : Bool} {tmp c : ℕ}
    (h : 0 ≤ compressedLen checksum ((tmp + c + checksumLen checksum) % 2 ^ 32) tmp) : c % 2 ^ 32 < 2 ^ 31 := by
  rw [compressedLen_frame] at h
  simp only [Int.bmod] at h
  omega

/-! ## Query events -/

def QueryEvent.pre (e : QueryEvent) : List UInt8 := e.postHeader ++ (e.status.vars ++ (e.db ++ [0]))

theorem QueryEvent.length_pre (e : QueryEvent) : e.pre.length = 13 + e.status.vars.length + e.db.length + 1 := by
  simp [QueryEvent.pre, QueryEvent.postHeader]
  omega

theorem QueryEvent.writeWith_eq (e : QueryEvent) (w : Writer) (type : UInt8) (c : List UInt8) :
    e.writeWith w type c = frame e.header w e.pre type c := by
  refine writePieces_eq ?_ ?_
  · simp [QueryEvent.pre]
  · rw [e.length_pre]
    omega

theorem QueryEvent.queryBlock_frame (e : QueryEvent) (w : Writer) (type : UInt8) (c : List UInt8) :
    queryBlock (frame e.header w e.pre type c) =
      19 + (13 + e.status.vars.length + charToUint (UInt8.ofNat e.db.length) + 1) % 2 ^ 32 := by
  have hsv : e.status.vars.length < 2 ^ 16 := lt_of_le_of_lt e.status_le (by decide)
  have hdb : slice (19 + 8) 1 (frame e.header w e.pre type c) = [UInt8.ofNat e.db.length] :=
    frame_slice (l := store 4 e.slaveProxyId ++ store 4 e.execTime)
      (r := store 2 e.errorCode ++ store 2 e.status.vars.length ++ (e.status.vars ++ (e.db ++ [0]))) _ _ _ _
      (by simp [QueryEvent.pre, QueryEvent.postHeader]) (by simp) rfl
  have hvars : slice (19 + 11) 2 (frame e.header w e.pre type c) = store 2 e.status.vars.length :=
    frame_slice (l := store 4 e.slaveProxyId ++ store 4 e.execTime ++ [UInt8.ofNat e.db.length] ++ store 2 e.errorCode)
      (r := e.status.vars ++ (e.db ++ [0])) _ _ _ _
      (by simp [QueryEvent.pre, QueryEvent.postHeader]) (by simp) (by simp)
  have hkorr : korr (store 2 e.status.vars.length) = e.status.vars.length := by
    rw [korr_store, Nat.mod_eq_of_lt (by omega)]
  rw [queryBlock, getD_of_slice hdb, hvars, hkorr]

theorem queryEventUncompress_some {z : Zlib} {checksum : Bool} {src out : List UInt8}
    (h : queryEventUncompress z checksum src = some out) :
    queryBlock src < korr (slice 9 4 src) ∧ korr (slice 9 4 src) ≤ src.length ∧
    0 ≤ compressedLen checksum (korr (slice 9 4 src)) (queryBlock src) ∧
    0 < binlogGetUncompressLen (src.drop (queryBlock src)) ∧
    rebuild z checksum src (queryBlock src) (compressedLen checksum (korr (slice 9 4 src)) (queryBlock src)).toNat
      (binlogGetUncompressLen (src.drop (queryBlock src))) 2 = some out := by
  simp only [queryEventUncompress, Option.ite_none_left_eq_some, not_or, not_lt, not_le] at h
  obtain ⟨hlen, -, hblock, ⟨hcomp, hun⟩, -, hre⟩ := h
  exact ⟨hblock, hlen, hcomp, Nat.pos_of_ne_zero hun, hre⟩

theorem charToUint_of_lt {n : ℕ} (h : n < 128) : charToUint (UInt8.ofNat n) = n := by
  have hn : (UInt8.ofNat n).toNat = n := by
    rw [UInt8.toNat_ofNat']
    omega
  rw [charToUint, hn, if_pos h]

/-- The length byte is sign-extended. -/
theorem charToUint_of_ge {n : ℕ} (h : 128 ≤ n) (hn : n ≤ 192) : charToUint (UInt8.ofNat n) = n + 2 ^ 32 - 256 := by
  have hb : (UInt8.ofNat n).toNat = n := by
    rw [UInt8.toNat_ofNat']
    omega
  rw [charToUint, hb, if_neg (by omega)]

/-- The conversion finds the block of a query event whose database has a short name. -/
theorem query_reads {e : QueryEvent} (hdb : e.db.length < 128) (w : Writer) :
    Reads (queryEventUncompress · w.checksum) e.header w e.pre 50 2 := by
  have hpre := e.length_pre
  have hsv : e.status.vars.length ≤ 1077 := e.status_le.trans (by decide)
  have hblock : ∀ c, queryBlock (frame e.header w e.pre 50 c) = 19 + e.pre.length := by
    intro c
    rw [e.queryBlock_frame, charToUint_of_lt hdb, Nat.mod_eq_of_lt (by omega)]
    omega
  have hcl : checksumLen w.checksum ≤ 4 := by unfold checksumLen; split <;> omega
  constructor
  · intro z c u hc hlt hu hpos hult
    have hcomp := compressedLen_small w.checksum (19 + e.pre.length) hlt
    simp only [queryEventUncompress, hblock, frame_len, length_frame, ← hu]
    rw [hcomp, if_neg (by omega), if_neg (by omega), if_neg (by omega), if_neg (by omega), if_neg, Int.toNat_natCast]
    unfold alignSize
    omega
  · intro z c out hout
    obtain ⟨-, -, hcomp, hun, hre⟩ := queryEventUncompress_some hout
    rw [hblock, frame_len] at hcomp
    rw [hblock] at hun hre
    exact ⟨lt_of_compressedLen hcomp, _, _, hun, hre⟩

theorem rebuild_length {z : Zlib} {checksum : Bool} {src out : List UInt8} {tmp n u : ℕ} {type : UInt8}
    (hsrc : tmp ≤ src.length) (htmp : 19 ≤ tmp) (h : rebuild z checksum src tmp n u type = some out) :
    out.length = tmp + u + checksumLen checksum := by
  unfold rebuild at h
  cases hb : binlogBufUncompress z (src.drop tmp) n u with
  | none => simp [hb] at h
  | some body =>
    simp only [hb, Option.some.injEq] at h
    have hbody := bufUncompress_length hb
    have hall : (src.take tmp ++ body).length = tmp + u := by
      rw [List.length_append, List.length_take, hbody, Nat.min_eq_left hsrc]
    have hfirst : (patch 4 [type] (src.take tmp ++ body)).length = tmp + u := by
      rw [length_patch (by rw [hall, List.length_singleton]; omega), hall]
    rw [← h, length_finish, length_patch (by rw [hfirst, length_store]; omega), hfirst]

theorem bufUncompress_some {z : Zlib} {src body : List UInt8} {n u : ℕ} (h : binlogBufUncompress z src n u = some body) :
    ∃ i k, (∀ z' body', binlogBufUncompress z' src n u = some body' → z'.uncompress (slice i k src) = some body') ∧
      z.uncompress (slice i k src) = some body := by
  have hall : ∀ z' body', binlogBufUncompress z' src n u = some body' → z'.uncompress (slice
      (1 + (src.getD 0 0 &&& 0x07).toNat) ((n + 2 ^ 32 - 1 - (src.getD 0 0 &&& 0x07).toNat) % 2 ^ 32) src) = some body' := by
    intro z' body' h'
    simp only [binlogBufUncompress, Option.ite_none_left_eq_some, Option.ite_none_right_eq_some] at h'
    obtain ⟨-, -, h'⟩ := h'
    split at h'
    · rename_i out hout
      rw [Option.ite_none_right_eq_some] at h'
      rw [hout, h'.2]
    · simp at h'
  exact ⟨_, _, hall, hall z body h⟩

/-- With a long name the block is looked for at a wrong place, whatever the compression. -/
theorem RoundTrips.db_lt {e : QueryEvent} {w : Writer}
    (h : RoundTrips (queryEventUncompress · w.checksum) e.header w e.pre 50 2 e.query) : e.db.length < 128 := by
  by_contra hge
  have hlen := lenLen_cases e.query.length
  have hpre := e.length_pre
  have hdb := e.db_le
  -- the text is compressed to nothing, everything else gets a tag
  let z (tag : UInt8) := Zlib.tagged tag e.query [] (by simp) (by simp)
  have hevent : ∀ tag, queryEventUncompress (z tag) w.checksum
      (frame e.header w e.pre 50 (blockHeader e.query.length ++ [])) = some (frame e.header w e.pre 2 e.query) := by
    intro tag
    obtain ⟨b, hb, hf⟩ := Option.bind_eq_some_iff.mp (h (z tag))
    obtain ⟨c, hc, rfl⟩ := Option.map_eq_some_iff.mp hb
    have hz : (z tag).compress e.query = [] := if_pos rfl
    rw [bufCompress_some hc (by rw [hz, List.length_nil]; omega), hz] at hf
    exact hf
  generalize hsrc : frame e.header w e.pre 50 (blockHeader e.query.length ++ []) = src at hevent
  have hblock : queryBlock src =
      19 + (13 + e.status.vars.length + (e.db.length + 2 ^ 32 - 256) + 1) % 2 ^ 32 := by
    rw [← hsrc, e.queryBlock_frame, charToUint_of_ge (by omega) hdb]
  obtain ⟨hlt, hle, -, -, hre⟩ := queryEventUncompress_some (hevent 0)
  obtain ⟨-, -, -, -, hre'⟩ := queryEventUncompress_some (hevent 1)
  have hout := rebuild_length (by omega) (by omega) hre
  rw [length_frame] at hout
  unfold rebuild at hre hre'
  cases hb : binlogBufUncompress (z 0) (src.drop (queryBlock src))
      (compressedLen w.checksum (korr (slice 9 4 src)) (queryBlock src)).toNat
      (binlogGetUncompressLen (src.drop (queryBlock src))) with
  | none => simp [hb] at hre
  | some body =>
    cases hb' : binlogBufUncompress (z 1) (src.drop (queryBlock src))
        (compressedLen w.checksum (korr (slice 9 4 src)) (queryBlock src)).toNat
        (binlogGetUncompressLen (src.drop (queryBlock src))) with
    | none => simp [hb'] at hre'
    | some body' =>
      obtain ⟨i, k, hall, hz⟩ := bufUncompress_some hb
      have hz' := hall _ _ hb'
      have hbody := bufUncompress_length hb
      -- both see the same bytes, which start with one tag at most
      cases hs : slice i k (src.drop (queryBlock src)) with
      | nil =>
        have hq : body = e.query := by
          rw [hs] at hz
          exact (Option.some.inj hz).symm
        rw [hq] at hbody
        omega
      | cons t x =>
        rw [hs] at hz hz'
        simp only [z, Zlib.tagged, untag, reduceCtorEq, if_false, Option.ite_none_right_eq_some] at hz hz'
        exact absurd (hz.1.symm.trans hz'.1) (by decide)

/-! ## Rows events -/

variable (w : Writer) (e : RowsEvent)

def RowsEvent.pre : List UInt8 :=
  e.dataHeader ++ (netStoreLength e.width ++ (e.cols ++ e.afterImage))

theorem RowsEvent.writeWith_eq (w : Writer) (type : UInt8) (c : List UInt8) :
    e.writeWith w type c = frame e.header w e.pre type c := by
  refine writePieces_eq ?_ ?_
  · simp [pre]
  · simp only [dataSize, pre, List.length_append]
    omega

theorem length_netStoreLength (n : ℕ) : 1 ≤ (netStoreLength n).length ∧ (netStoreLength n).length ≤ 9 := by
  unfold netStoreLength
  split_ifs <;> simp

theorem slice_of_append {a b c : List UInt8} {i n : ℕ} (ha : a.length = i) (hb : n ≤ b.length) :
    slice i n (a ++ (b ++ c)) = b.take n := by
  subst ha
  simp [slice, List.take_append_of_le_length hb]

/-- A packed number is read back. -/
theorem netFieldLength_store {n : ℕ} (hn : n < 2 ^ 32) (a r : List UInt8) :
    netFieldLength (a ++ (netStoreLength n ++ r)) a.length = (n, a.length + (netStoreLength n).length) := by
  have hread : ∀ (x : UInt8) (w k m : ℕ), m ≤ w → slice (a.length + 1) m (a ++ x :: (store w k ++ r)) =
      (store w k).take m := by
    intro x w k m hm
    have hsplit : a ++ x :: (store w k ++ r) = (a ++ [x]) ++ (store w k ++ r) := by simp
    rw [hsplit, slice_of_append (by simp) (by simpa using hm)]
  have hkorr : ∀ k, n < 256 ^ k → korr (store k n) = n := by
    intro k hk
    rw [korr_store, Nat.mod_eq_of_lt hk]
  unfold netStoreLength
  split_ifs with h1 h2 h3
  · have hb : (UInt8.ofNat n).toNat = n := by
      rw [UInt8.toNat_ofNat']
      omega
    simp only [netFieldLength, List.cons_append, getD_append_cons rfl, hb, if_pos h1, List.length_singleton]
  · have htake : (store 2 n).take 2 = store 2 n := List.take_of_length_le (by simp)
    simp [netFieldLength, hread _ 2 n 2 le_rfl, htake, hkorr 2 (by omega)]
  · have htake : (store 3 n).take 3 = store 3 n := List.take_of_length_le (by simp)
    simp [netFieldLength, hread _ 3 n 3 le_rfl, htake, hkorr 3 (by omega)]
  · -- eight bytes are written, the low four are read
    have htake : (store 8 n).take 4 = store 4 n := rfl
    simp [netFieldLength, hread _ 8 n 4 (by omega), htake, hkorr 4 (by omega)]

theorem RowsEvent.type_update : (e.type = 24 ∨ e.type = 31) ↔ e.kind = .update := by
  unfold type
  cases e.kind <;> cases e.extra.isSome <;> decide

theorem RowsEvent.length_afterImage :
    e.afterImage.length = if e.kind = .update then (e.width + 7) / 8 else 0 := by
  unfold afterImage
  split
  · exact e.colsAi_length
  · rfl

theorem RowsEvent.skipColumns_frame (w : Writer) (t : UInt8) (c : List UInt8) :
    skipColumns (frame e.header w e.pre t c) e.type (19 + e.dataHeader.length) = 19 + e.pre.length := by
  have hwidth := e.width_lt
  have hread : netFieldLength (frame e.header w e.pre t c) (19 + e.dataHeader.length) =
      (e.width, 19 + e.dataHeader.length + (netStoreLength e.width).length) := by
    have hsplit : frame e.header w e.pre t c = (e.header.write w t (e.pre.length + c.length) ++ e.dataHeader) ++
        (netStoreLength e.width ++ (e.cols ++ (e.afterImage ++
          (c ++ footer w (e.header.write w t (e.pre.length + c.length)) (e.pre ++ c))))) := by
      simp [frame, pre]
    have hlen : 19 + e.dataHeader.length = (e.header.write w t (e.pre.length + c.length) ++ e.dataHeader).length := by
      simp [Header.write]
    rw [hsplit, hlen, netFieldLength_store hwidth]
  have hpre : e.pre.length =
      e.dataHeader.length + (netStoreLength e.width).length + (e.width + 7) / 8 + e.afterImage.length := by
    simp only [pre, List.length_append, e.cols_length]
    omega
  rw [skipColumns, hread]
  simp only [e.type_update]
  rw [hpre, e.length_afterImage, Nat.mod_eq_of_lt (by omega)]
  split <;> omega

theorem RowsEvent.length_pre_lt : e.dataHeader.length < e.pre.length ∧ e.pre.length < 2 ^ 30 + 2 ^ 17 := by
  have hwidth := e.width_lt
  have hnet := length_netStoreLength e.width
  have hafter : e.afterImage.length ≤ (e.width + 7) / 8 := by
    rw [e.length_afterImage]
    split <;> omega
  have hheader : e.dataHeader.length ≤ 8 + 2 ^ 16 := by
    unfold dataHeader
    cases hx : e.extra with
    | none => simp
    | some x =>
      have hlt := e.extra_lt x hx
      simp only [List.length_append, length_store]
      omega
  simp only [pre, List.length_append, e.cols_length]
  omega

theorem RowsEvent.uncompress_eq (z : Zlib) (w : Writer) {c : List UInt8} {len : ℕ}
    (hlen : korr (slice 9 4 (frame e.header w e.pre e.compressedType c)) = len) :
    rowLogEventUncompress z w.checksum (frame e.header w e.pre e.compressedType c) =
      if (frame e.header w e.pre e.compressedType c).length < len then none else if e.extra.isSome ∧ len ≤ 29 then none
      else rowLogEventUncompressAt z w.checksum (frame e.header w e.pre e.compressedType c) len e.type
        (19 + e.dataHeader.length) := by
  rw [rowLogEventUncompress, hlen, frame_type]
  split
  · rfl
  · cases hx : e.extra with
    | none =>
      have hheader : e.dataHeader.length = 8 := by simp [dataHeader, hx]
      have htype : rowsPostHeaderLen e.compressedType ≠ 10 ∧ e.compressedType - 51 + 23 = e.type := by
        simp only [compressedType, type, hx, Option.isSome_none]
        cases e.kind <;> decide
      rw [if_neg htype.1, htype.2, hheader]
      simp
    | some x =>
      have hlt := e.extra_lt x hx
      have htype : rowsPostHeaderLen e.compressedType = 10 ∧ e.compressedType - 54 + 30 = e.type := by
        simp only [compressedType, type, hx, Option.isSome_some]
        cases e.kind <;> decide
      have hslice : slice (19 + 8) 2 (frame e.header w e.pre e.compressedType c) = store 2 (x.length + 2) :=
        frame_slice (l := store 6 e.tableId ++ store 2 e.flags)
          (r := x ++ (netStoreLength e.width ++ (e.cols ++ e.afterImage))) _ _ _ _
          (by simp [pre, dataHeader, hx]) (by simp) (by simp)
      have hvar : korr (slice 27 2 (frame e.header w e.pre e.compressedType c)) = x.length + 2 := by
        rw [hslice, korr_store, Nat.mod_eq_of_lt (by omega)]
      have hheader : 27 + (x.length + 2) = 19 + e.dataHeader.length := by
        simp [dataHeader, hx]
        omega
      rw [if_pos htype.1, htype.2, hvar, hheader]
      simp

/-- The conversion finds the block of a rows event. -/
theorem rows_reads (w : Writer) :
    Reads (rowLogEventUncompress · w.checksum) e.header w e.pre e.compressedType e.type := by
  obtain ⟨hheader, hpre⟩ := e.length_pre_lt
  have hcl : checksumLen w.checksum ≤ 4 := by unfold checksumLen; split <;> omega
  constructor
  · intro z c u hc hlt hu hpos hult
    have hcomp := compressedLen_small w.checksum (19 + e.pre.length) hlt
    have hskip := e.skipColumns_frame w e.compressedType c
    have hdh2 : e.extra.isSome → 10 ≤ e.dataHeader.length := by
      intro hsome
      obtain ⟨x, hx⟩ := Option.isSome_iff_exists.mp hsome
      simp [dataHeader, hx]
      omega
    rw [e.uncompress_eq z w (frame_len ..), length_frame, if_neg (by omega), if_neg]
    · simp only [rowLogEventUncompressAt, hskip, hcomp, ← hu]
      rw [if_neg (by omega), if_neg (by omega), if_neg (by omega), if_neg (by omega), Int.toNat_natCast]
    · rintro ⟨hsome, hle⟩
      have := hdh2 hsome
      omega
  · intro z c out hout
    rw [e.uncompress_eq z w (frame_len ..)] at hout
    simp only [rowLogEventUncompressAt, e.skipColumns_frame, Option.ite_none_left_eq_some, not_le, not_lt] at hout
    obtain ⟨-, -, -, -, hun, hcomp, hre⟩ := hout
    exact ⟨lt_of_compressedLen hcomp.le, _, _, Nat.pos_of_ne_zero hun, hre⟩

/-! ## Events -/

/-- Writing with compression and converting gives what writing without gives, if zlib keeps its promises. -/
def Transparent (e : Event) : Prop :=
  ∀ z : Zlib, (e.writeCompressed z w).bind (e.uncompress z w.checksum) = some (e.write w)

/-- The event `Fits`, and the name of a query event's database has less than 128 bytes. -/
def Convertible (e : Event) : Prop :=
  Fits e.header w e.payload ∧
    match e with
    | .query q => q.db.length < 128
    | .rows _ => True

theorem transparent_query_iff (e : QueryEvent) : Transparent w (.query e) ↔
      RoundTrips (queryEventUncompress · w.checksum) e.header w e.pre 50 2 e.query := by
  have hw : e.writeWith w = frame e.header w e.pre := by
    funext type c
    exact e.writeWith_eq w type c
  simp only [Transparent, RoundTrips, Event.writeCompressed, QueryEvent.writeCompressed, Event.uncompress, Event.write,
    QueryEvent.write, hw]

theorem transparent_rows_iff : Transparent w (.rows e) ↔
      RoundTrips (rowLogEventUncompress · w.checksum) e.header w e.pre e.compressedType e.type e.rows := by
  have hw : e.writeWith w = frame e.header w e.pre := by
    funext type c
    exact e.writeWith_eq w type c
  simp only [Transparent, RoundTrips, Event.writeCompressed, writeCompressed, Event.uncompress, Event.write, write, hw]

/-- The events that come back from compression byte for byte. -/
theorem transparent_iff_convertible (w : Writer) (e : Event) : Transparent w e ↔ Convertible w e := by
  cases e with
  | query e =>
    rw [transparent_query_iff]
    constructor
    · intro h
      exact ⟨(query_reads h.db_lt w).roundTrips_iff.mp h, h.db_lt⟩
    · rintro ⟨hfits, hdb⟩
      exact (query_reads hdb w).roundTrips_iff.mpr hfits
  | rows e =>
    rw [transparent_rows_iff, (rows_reads e w).roundTrips_iff]
    exact ⟨fun h => ⟨h, trivial⟩, And.left⟩

def plainStatus : Status where
  flags2 := none
  sqlMode := none
  catalog := []
  autoIncrementIncrement := 1
  autoIncrementOffset := 1
  charset := none
  timeZone := []
  lcTimeNames := 0
  charsetDatabase := 0
  tableMapForUpdate := 0
  masterDataWritten := 0
  invoker := none
  hrNow := none

/-- The name has 43 characters of three bytes in UTF-8. -/
def longNameEvent : QueryEvent where
  header := ⟨1500000000, 1, 1000, 0⟩
  slaveProxyId := 7
  execTime := 0
  errorCode := 0
  status := plainStatus
  db := (List.replicate 43 [0xe4, 0xb8, 0xad]).flatten
  query := List.replicate 40 0x20
  status_le := by decide
  db_le := by simp
  query_lt := by simp

/-- The event has its position, no flag and a short text: only the name is in the way. -/
theorem not_transparent_longName :
    Fits longNameEvent.header ⟨256, true⟩ longNameEvent.query ∧ ¬ Transparent ⟨256, true⟩ (.query longNameEvent) := by
  refine ⟨⟨.inr (by decide), fun _ => by decide, by decide, by decide⟩, fun h => ?_⟩
  rw [transparent_query_iff] at h
  exact absurd h.db_lt (by simp [longNameEvent])

end TSpider.Binlog

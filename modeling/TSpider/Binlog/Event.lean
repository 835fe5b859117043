import TSpider.Lib.Bytes
import TSpider.Lib.Crc

/-!
# Writing query and rows events to the binary log

An event is a header of 19 bytes, a data part and, with checksums on, four bytes of CRC-32. The compressed kinds write the
same event with its last piece (the query text, the row images) replaced by a compressed block: a byte that holds the number
of length bytes, the original length high byte first, and what zlib's `compress` returned.

zlib is a parameter (`Zlib`): `uncompress` inverts `compress`, and `compress` keeps to `compressBound`.
-/

namespace TSpider.Binlog

open Lib Lib.Crc

def compressBound (n : ℕ) : ℕ := n + n / 2 ^ 12 + n / 2 ^ 14 + 11

structure Zlib where
  compress : List UInt8 → List UInt8
  uncompress : List UInt8 → Option (List UInt8)
  uncompress_compress : ∀ x, uncompress (compress x) = some x
  compress_le : ∀ x, (compress x).length ≤ compressBound x.length

/-! ## The compressed block -/

def alignSize (n : ℕ) : ℕ := (n + 7) / 8 * 8

def binlogGetCompressLen (len : ℕ) : ℕ := alignSize (1 + 4 + compressBound len + 1) % 2 ^ 32

/-- The bytes for the length: the masks of `binlog_buf_compress` look for the highest byte that is not zero. -/
def lenLen (len : ℕ) : ℕ :=
  if 2 ^ 24 ≤ len then 4 else if 2 ^ 16 ≤ len then 3 else if 2 ^ 8 ≤ len then 2 else 1

def blockHeader (len : ℕ) : List UInt8 :=
  UInt8.ofNat (0x80 ||| lenLen len) :: (store (lenLen len) len).reverse

variable (z : Zlib) (checksum : Bool) (src : List UInt8)

/-- `binlog_buf_compress` with a destination of `comlen` bytes. `compress` fails if its result does not fit. -/
def binlogBufCompress (comlen : ℕ) : Option (List UInt8) :=
  let tmplen := (comlen + 2 ^ 64 - 1 - lenLen src.length - 1) % 2 ^ 64
  let out := z.compress src
  if out.length ≤ tmplen then
    -- *comlen is a uint32, and so much of the destination is written
    some ((blockHeader src.length ++ out).take ((out.length + 1 + lenLen src.length) % 2 ^ 32))
  else none

/-! ## Header and footer -/

structure Header where
  when : ℕ
  serverId : ℕ
  /-- 0 until the event gets its place in a log -/
  logPos : ℕ
  flags : ℕ

def Header.inUse (h : Header) : Bool := h.flags.testBit 0

def Header.artificial (h : Header) : Bool := h.flags.testBit 5

structure Writer where
  pos : ℕ
  checksum : Bool

variable (w : Writer)

def checksumLen : ℕ := if checksum then 4 else 0

def rawHeader (when : ℕ) (type : UInt8) (serverId len logPos flags : ℕ) : List UInt8 :=
  (store 4 when ++ [type] ++ store 4 serverId) ++ (store 4 len ++ (store 4 logPos ++ store 2 flags))

def dataWritten (dataLength : ℕ) : ℕ := dataLength + 19 + checksumLen w.checksum

/-- `log_pos` as `Log_event::write_header` leaves it -/
def Header.endPos (h : Header) (w : Writer) (dataLength : ℕ) : ℕ :=
  if h.artificial then 0 else if h.logPos = 0 then w.pos + dataWritten w dataLength else h.logPos

def Header.write (h : Header) (w : Writer) (type : UInt8) (dataLength : ℕ) : List UInt8 :=
  rawHeader h.when type h.serverId (dataWritten w dataLength) (h.endPos w dataLength) h.flags

/-- The checksum is that of a header without `LOG_EVENT_BINLOG_IN_USE_F`. -/
def dropInUse (header : List UInt8) : List UInt8 := header.modify 17 (· &&& 0xFE)

/-- `Log_event_writer`: the header, the pieces of `write_data` and the footer. -/
def writePieces (header : List UInt8) (pieces : List (List UInt8)) : List UInt8 :=
  let crc := pieces.foldl crc32 (crc32 0 (dropInUse header))
  header ++ pieces.flatten ++ if w.checksum then store 4 crc.toNat else []

/-! ## Query events -/

structure Status where
  flags2 : Option ℕ
  sqlMode : Option ℕ
  catalog : List UInt8
  autoIncrementIncrement : ℕ
  autoIncrementOffset : ℕ
  charset : Option (Vector UInt8 6)
  timeZone : List UInt8
  lcTimeNames : ℕ
  charsetDatabase : ℕ
  tableMapForUpdate : ℕ
  masterDataWritten : ℕ
  /-- user and host -/
  invoker : Option (List UInt8 × List UInt8)
  /-- the microseconds, if the statement used them -/
  hrNow : Option ℕ

def statusVar (code : UInt8) (value : Option (List UInt8)) : List UInt8 :=
  match value with
  | none => []
  | some v => code :: v

def strWithLen (s : List UInt8) : List UInt8 := UInt8.ofNat s.length :: s

def ifSet (c : Bool) (v : List UInt8) : Option (List UInt8) := if c then some v else none

def Status.vars (s : Status) : List UInt8 :=
  statusVar 0 (s.flags2.map (store 4)) ++
  statusVar 1 (s.sqlMode.map (store 8)) ++
  statusVar 6 (ifSet (s.catalog != []) (strWithLen s.catalog)) ++
  statusVar 3 (ifSet (s.autoIncrementIncrement != 1 || s.autoIncrementOffset != 1)
    (store 2 s.autoIncrementIncrement ++ store 2 s.autoIncrementOffset)) ++
  statusVar 4 (s.charset.map (·.toList)) ++
  statusVar 5 (ifSet (s.timeZone != []) (strWithLen s.timeZone)) ++
  statusVar 7 (ifSet (s.lcTimeNames != 0) (store 2 s.lcTimeNames)) ++
  statusVar 8 (ifSet (s.charsetDatabase != 0) (store 2 s.charsetDatabase)) ++
  statusVar 9 (ifSet (s.tableMapForUpdate != 0) (store 8 s.tableMapForUpdate)) ++
  statusVar 10 (ifSet (s.masterDataWritten != 0) (store 4 s.masterDataWritten)) ++
  statusVar 11 (s.invoker.bind fun (user, host) => ifSet (user != []) (strWithLen user ++ strWithLen host)) ++
  statusVar 128 (s.hrNow.map (store 3))

def maxSizeLogEventStatus : ℕ :=
  (1 + 4) + (1 + 8) + (1 + 1 + 255) + (1 + 4) + (1 + 6) + (1 + 1 + 255) + (1 + 2) + (1 + 2) + (1 + 8) + (1 + 4) +
    (1 + 3) + (1 + 16 + 1 + 255)

structure QueryEvent where
  header : Header
  slaveProxyId : ℕ
  execTime : ℕ
  errorCode : ℕ
  status : Status
  db : List UInt8
  query : List UInt8
  status_le : status.vars.length ≤ maxSizeLogEventStatus
  /-- `NAME_LEN` -/
  db_le : db.length ≤ 192
  /-- `q_len` is a `uint32` -/
  query_lt : query.length < 2 ^ 32

def QueryEvent.postHeader (e : QueryEvent) : List UInt8 :=
  store 4 e.slaveProxyId ++ store 4 e.execTime ++
    ([UInt8.ofNat e.db.length] ++ (store 2 e.errorCode ++ store 2 e.status.vars.length))

/-- `Query_log_event::write` with `query` for the text; `get_post_header_size_for_derived` is 0. -/
def QueryEvent.writeWith (e : QueryEvent) (w : Writer) (type : UInt8) (query : List UInt8) : List UInt8 :=
  let eventLength := 13 + e.status.vars.length + 0 + e.db.length + 1 + query.length
  writePieces w (e.header.write w type eventLength) [e.postHeader, [], e.status.vars, e.db ++ [0], query]

def QueryEvent.write (e : QueryEvent) (w : Writer) : List UInt8 := e.writeWith w 2 e.query

def QueryEvent.writeCompressed (e : QueryEvent) (w : Writer) : Option (List UInt8) :=
  (binlogBufCompress z e.query (binlogGetCompressLen e.query.length)).map (e.writeWith w 50)

/-! ## Rows events -/

inductive RowsKind
  | write
  | update
  | delete
deriving DecidableEq

def RowsKind.code : RowsKind → UInt8
  | .write => 0
  | .update => 1
  | .delete => 2

structure RowsEvent where
  header : Header
  kind : RowsKind
  /-- the content of the variable-length header, if the event is of version 2 -/
  extra : Option (List UInt8)
  tableId : ℕ
  flags : ℕ
  width : ℕ
  cols : List UInt8
  colsAi : List UInt8
  rows : List UInt8
  extra_lt : ∀ x ∈ extra, x.length + 2 < 2 ^ 16
  /-- the number of fields of a table is a `uint` -/
  width_lt : width < 2 ^ 32
  /-- `no_bytes_in_map` -/
  cols_length : cols.length = (width + 7) / 8
  colsAi_length : colsAi.length = (width + 7) / 8
  /-- `do_add_row_data` keeps the images below 4 GB -/
  rows_lt : rows.length < 2 ^ 32

def netStoreLength (n : ℕ) : List UInt8 :=
  if n < 251 then [UInt8.ofNat n]
  else if n < 65536 then 252 :: store 2 n
  else if n < 16777216 then 253 :: store 3 n
  else 254 :: store 8 n

variable (e : RowsEvent)

/-- `Rows_log_event::write_data_header`; the header of version 2 is the one that the constructor of `Rows_log_event` reads. -/
def RowsEvent.dataHeader : List UInt8 :=
  store 6 e.tableId ++ store 2 e.flags ++
    match e.extra with
    | none => []
    | some x => store 2 (x.length + 2) ++ x

def RowsEvent.afterImage : List UInt8 := if e.kind = .update then e.colsAi else []

/-- `Rows_log_event::get_data_size`; only its low 32 bits reach the log. -/
def RowsEvent.dataSize (rows : List UInt8) : ℕ :=
  e.dataHeader.length + e.cols.length + (netStoreLength e.width).length + e.afterImage.length + rows.length

def RowsEvent.writeWith (w : Writer) (type : UInt8) (rows : List UInt8) : List UInt8 :=
  writePieces w (e.header.write w type (e.dataSize rows))
    [e.dataHeader, netStoreLength e.width, e.cols, e.afterImage, rows]

/-- `WRITE_ROWS_EVENT` and `WRITE_ROWS_EVENT_V1`, and the types that follow them -/
def RowsEvent.type : UInt8 := (if e.extra.isSome then 30 else 23) + e.kind.code

/-- `WRITE_ROWS_COMPRESSED_EVENT` and `WRITE_ROWS_COMPRESSED_EVENT_V1`, and the types that follow them -/
def RowsEvent.compressedType : UInt8 := (if e.extra.isSome then 54 else 51) + e.kind.code

def RowsEvent.write (w : Writer) : List UInt8 := e.writeWith w e.type e.rows

def RowsEvent.writeCompressed (w : Writer) : Option (List UInt8) :=
  (binlogBufCompress z e.rows (binlogGetCompressLen e.rows.length)).map (e.writeWith w e.compressedType)

/-! ## Converting a compressed event -/

/-- `binlog_get_uncompress_len`; 0 means an error. -/
def binlogGetUncompressLen (buf : List UInt8) : ℕ :=
  let lenlen := (buf.getD 0 0 &&& 0x07).toNat
  if 1 ≤ lenlen ∧ lenlen ≤ 4 then korr (slice 1 lenlen buf).reverse else 0

/-- `binlog_buf_uncompress` of `len` bytes at `src` to `newlen` bytes. A result too long is an error of `uncompress`, a
shorter one fails the assertion after it. -/
def binlogBufUncompress (len newlen : ℕ) : Option (List UInt8) :=
  if src.getD 0 0 &&& 0x80 = 0 then none
  else
    let lenlen := (src.getD 0 0 &&& 0x07).toNat
    if src.getD 0 0 &&& 0x70 = 0 then
      match z.uncompress (slice (1 + lenlen) ((len + 2 ^ 32 - 1 - lenlen) % 2 ^ 32) src) with
      | some out => if out.length = newlen then some out else none
      | none => none
    else none

def finish (dst : List UInt8) : List UInt8 :=
  if checksum then dst ++ store 4 (crc32 0 dst).toNat else dst

/-- The end of both conversions: `tmp` bytes are copied, the block behind them is uncompressed; type, length and checksum are
written. -/
def rebuild (tmp compLen unLen : ℕ) (type : UInt8) :
    Option (List UInt8) :=
  match binlogBufUncompress z (src.drop tmp) compLen unLen with
  | none => none
  | some body =>
    let newlen := tmp + unLen + checksumLen checksum
    some (finish checksum (patch 9 (store 4 newlen) (patch 4 [type] (src.take tmp ++ body))))

/-- `(uint)` of a `char`, which has a sign -/
def charToUint (b : UInt8) : ℕ := if b.toNat < 128 then b.toNat else b.toNat + 2 ^ 32 - 256

def compressedLen (len tmp : ℕ) : ℤ :=
  Int.bmod ((len : ℤ) - tmp - checksumLen checksum) (2 ^ 32)

/-- Where the block of a query event begins; the sum of the lengths is of type `uint`. -/
def queryBlock : ℕ :=
  let dbLen := charToUint (src.getD (19 + 8) 0)
  let statusVarsLen := korr (slice (19 + 11) 2 src)
  19 + (13 + statusVarsLen + dbLen + 1) % 2 ^ 32

/-- `query_event_uncompress` of the event `src`; `src_len` is the length of `src`. -/
def queryEventUncompress : Option (List UInt8) :=
  let len := korr (slice 9 4 src)
  if src.length < len then none else
  if len ≤ 19 then none else
  let tmp := queryBlock src
  if len ≤ tmp then none else
  let compLen := compressedLen checksum len tmp
  let unLen := binlogGetUncompressLen (src.drop tmp)
  if compLen < 0 ∨ unLen = 0 then none else
  -- alloc_size is a uint32: a larger event would be written past its buffer
  if 2 ^ 32 ≤ alignSize (tmp + unLen + checksumLen checksum) then none else
  rebuild z checksum src tmp compLen.toNat unLen 2

def netFieldLength (pos : ℕ) : ℕ × ℕ :=
  let b := (src.getD pos 0).toNat
  if b < 251 then (b, pos + 1)
  else if b = 251 then (2 ^ 64 - 1, pos + 1)
  else if b = 252 then (korr (slice (pos + 1) 2 src), pos + 3)
  else if b = 253 then (korr (slice (pos + 1) 3 src), pos + 4)
  else (korr (slice (pos + 1) 4 src), pos + 9)

/-- The `post_header_len` of the compressed rows events in a format description of this server. -/
def rowsPostHeaderLen (type : UInt8) : ℕ := if 54 ≤ type ∧ type ≤ 56 then 10 else 8

def skipColumns (type : UInt8) (pos : ℕ) : ℕ :=
  let (width, pos) := netFieldLength src pos
  let bytes := (width + 7) % 2 ^ 64 / 8
  if type = 24 ∨ type = 31 then pos + bytes + bytes else pos + bytes

def rowLogEventUncompressAt (len : ℕ) (type : UInt8) (pos : ℕ) :
    Option (List UInt8) :=
  if len ≤ pos then none else
  let tmp := skipColumns src type pos
  if len ≤ tmp then none else
  let unLen := binlogGetUncompressLen (src.drop tmp)
  if unLen = 0 then none else
  let compLen := compressedLen checksum len tmp
  if compLen ≤ 0 then none else
  rebuild z checksum src tmp compLen.toNat unLen type

/-- `row_log_event_uncompress` of the event `src`; `src_len` is the length of `src`. -/
def rowLogEventUncompress : Option (List UInt8) :=
  let type := src.getD 4 0
  let len := korr (slice 9 4 src)
  if src.length < len then none else
  if rowsPostHeaderLen type = 10 then
    if len ≤ 27 + 2 then none
    else rowLogEventUncompressAt z checksum src len (type - 54 + 30) (27 + korr (slice 27 2 src))
  else rowLogEventUncompressAt z checksum src len (type - 51 + 23) 27

/-! ## Events -/

inductive Event
  | query (e : QueryEvent)
  | rows (e : RowsEvent)

namespace Event

def header : Event → Header
  | query e => e.header
  | rows e => e.header

def payload : Event → List UInt8
  | query e => e.query
  | rows e => e.rows

def write (w : Writer) : Event → List UInt8
  | query e => e.write w
  | rows e => e.write w

def writeCompressed (z : Zlib) (w : Writer) : Event → Option (List UInt8)
  | query e => e.writeCompressed z w
  | rows e => e.writeCompressed z w

def uncompress (z : Zlib) (checksum : Bool) : Event → List UInt8 → Option (List UInt8)
  | query _ => queryEventUncompress z checksum
  | rows _ => rowLogEventUncompress z checksum

end Event

end TSpider.Binlog

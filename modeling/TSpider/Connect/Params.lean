import Mathlib.Data.Rat.Defs
import Mathlib.Algebra.Field.Rat
import Mathlib.Data.List.Basic
import Mathlib.Tactic.Linarith

/-!
# The parameters of a table's connect information

Each parameter of `spider_parse_connect_info` is a title, or two, and a field of the share that one of the `SPIDER_PARAM_*`
macros fills from a quoted text. `Kind` are the macros, `titles` is the table of the function's `switch`, and `Kind.decode` is
what a macro makes of a text.
-/

namespace TSpider.Connect

/-! ## Numbers in texts -/

def isDigit (c : Char) : Bool := '0' ≤ c && c ≤ '9'

def isSpace (c : Char) : Bool := c = ' ' || ('\t' ≤ c && c ≤ '\r')

variable (s : List Char)

def digits : ℕ := (s.takeWhile isDigit).foldl (fun n c => 10 * n + (c.toNat - '0'.toNat)) 0

def sign : List Char → Bool × List Char
  | '-' :: s => (true, s)
  | '+' :: s => (false, s)
  | s => (false, s)

/-- `strtol` with base 10, which is `atol` -/
def atol : ℤ :=
  let (negative, s) := sign (s.dropWhile isSpace)
  if negative then max (-2 ^ 63) (-(digits s : ℤ)) else min (2 ^ 63 - 1) (digits s)

/-- `atoi`: the `int` of it -/
def atoi : ℤ := Int.bmod (atol s) (2 ^ 32)

inductive NumError
  | ok
  | negative
  | erange
  | edom
deriving DecidableEq

/-- `my_strtoll10`: an unsigned number is returned as the `longlong` of the same bits. -/
def myStrtoll10 : ℤ × NumError :=
  let (negative, s) := sign (s.dropWhile fun c => c = ' ' || c = '\t')
  if !(s.head?.any isDigit) then (0, .edom)
  else if negative then if 2 ^ 63 < digits s then (-2 ^ 63, .erange) else (-(digits s : ℤ), .negative)
  else if 2 ^ 64 ≤ digits s then (-1, .erange)
  else (Int.bmod (digits s) (2 ^ 64), .ok)

/-- `my_atof`, not rounded to a `double` -/
def myAtof : ℚ :=
  let (negative, s) := sign s
  let rest := s.dropWhile isDigit
  let fraction := match rest with
    | '.' :: r => r.takeWhile isDigit
    | _ => []
  let behind := match rest with
    | '.' :: r => r.dropWhile isDigit
    | r => r
  let exponent : ℤ := match behind with
    | c :: r =>
      if (c = 'e' ∨ c = 'E') ∧ (sign r).2.head?.any isDigit then
        if (sign r).1 then -(digits (sign r).2 : ℤ) else digits (sign r).2
      else 0
    | [] => 0
  let mantissa : ℚ := digits s + digits fraction / 10 ^ fraction.length
  (if negative then -mantissa else mantissa) * (10 : ℚ) ^ exponent

/-! ## Lists in texts -/

def spaceRuns (after : Bool) : List Char → ℕ
  | [] => 0
  | c :: s => if c = ' ' then (if after then 0 else 1) + spaceRuns true s else spaceRuns false s

def behindSpace : List Char → Option (List Char)
  | [] => none
  | [c] => if c = ' ' then some [] else none
  | c :: d :: s => if c = '\\' then behindSpace s else if c = ' ' then some (d :: s) else behindSpace (d :: s)

def splitWords : ℕ → List Char → List (List Char)
  | 0, s => [s]
  | n + 1, s => s.takeWhile (· ≠ ' ') :: splitWords n ((s.dropWhile (· ≠ ' ')).dropWhile (· = ' '))

/-- `spider_create_string_list`. `find_flg` is never reset: escapes count for the first separator only, and not where the text
is cut. Without a word the list stays NULL. -/
def createStringList : Option (List (List Char)) :=
  match s.dropWhile (· = ' ') with
  | [] => none
  | s =>
    let separators := match behindSpace s with
      | none => 0
      | some r => 1 + spaceRuns true r
    some (splitWords separators s)

def clamp (lo hi n : ℤ) : ℤ := if n < lo then lo else if hi < n then hi else n

/-- `spider_create_long_list` and `spider_create_longlong_list` -/
def createNumList (number : List Char → ℤ) (lo hi : ℤ) (s : List Char) : Option (List ℤ) :=
  match s.dropWhile (· = ' ') with
  | [] => none
  | s => some ((splitWords (spaceRuns false s) s).map fun w => clamp lo hi (number w))

/-! ## Kinds of parameters -/

inductive Value
  | str (s : List Char)
  | strs (l : List (List Char))
  | int (n : ℤ)
  | ints (l : List ℤ)
  | num (q : ℚ)
deriving DecidableEq

inductive Kind
  | str
  | strList
  | longList (lo hi : ℤ)
  | longlongList (lo hi : ℤ)
  | intWithMax (lo hi : ℤ)
  | int (lo : ℤ)
  | double (lo : ℚ)
  | longlong (lo : ℤ)

def Kind.decode : Kind → Option Value
  | str => some (.str s)
  | strList => (createStringList s).map .strs
  | longList lo hi => (createNumList atol lo hi s).map .ints
  | longlongList lo hi => (createNumList (fun w => (myStrtoll10 w).1) lo hi s).map .ints
  | intWithMax lo hi => some (.int (clamp lo hi (atoi s)))
  | int lo => some (.int (max lo (atoi s)))
  | double lo => some (.num (max lo (myAtof s)))
  | longlong lo => some (.int (max lo (myStrtoll10 s).1))

/-! ## Titles -/

inductive Field
  | serverNames | accessBalances | autoIncrementMode | activeLinkCount | bgsFirstRead | bgsMode
  | bgsSecondRead | bkaEngine | bkaMode | bulkSize | bkaTableNameTypes | bulkUpdateMode
  | bulkUpdateSize | crdBgMode | crdInterval | crdMode | casualRead | crdSync
  | connectTimeouts | crdType | crdWeight | deleteAllRowsType | directDupInsert | tgtDefaultFiles
  | tgtDefaultGroups | directOrderLimit | errorReadMode | errorWriteMode | forceBulkDelete | forceBulkUpdate
  | firstRead | initSqlAllocSize | internalDelayed | internalLimit | internalOffset | internalOptimize
  | internalOptimizeLocal | lowMemRead | loadCrdAtStartup | loadStsAtStartup | linkStatuses | monitoringBgFlag
  | monitoringBgInterval | monitoringBgKind | monitoringBinlogPosAtFailing | monitoringFlag | monitoringKind | monitoringLimit
  | maxOrder | monitoringSid | multiSplitRead | netReadTimeouts | netWriteTimeouts | tgtPkNames
  | priority | queryCache | queryCacheSync | quickMode | quickPageSize | readOnlyMode
  | readRate | resetSqlAlloc | stsBgMode | tgtSslCas | tgtSslCiphers | selectColumnMode
  | tgtSslCapaths | tgtSslCerts | skipDefaultCondition | stsInterval | tgtSslKeys | staticLinkIds
  | storeLastCrd | selupdLockMode | storeLastSts | stsMode | staticMeanRecLength | splitRead
  | skipParallelSearch | tgtSequenceNames | secondRead | scanRate | semiSplitRead | semiSplitReadLimit
  | stsSync | semiTableLockConn | semiTableLock | staticRecordsForStatus | tgtSslVscs | tgtTableNames
  | tableCountMode | useHandlers | usePushdownUdf | useTableCharset | tgtSockets | tgtWrappers
  | tgtDbs | tgtShardKeys | tgtConfigTable
deriving DecidableEq

def titles : List (String × Field × Kind) := [
    ("srv", .serverNames, .strList), ("abl", .accessBalances, .longList 0 2147483647),
    ("aim", .autoIncrementMode, .intWithMax 0 3), ("alc", .activeLinkCount, .int 1),
    ("bfr", .bgsFirstRead, .longlong 0), ("bmd", .bgsMode, .int 0), ("bsr", .bgsSecondRead, .longlong 0),
    ("bke", .bkaEngine, .str), ("bkm", .bkaMode, .intWithMax 0 2), ("bsz", .bulkSize, .int 0),
    ("btt", .bkaTableNameTypes, .longList 0 1), ("bum", .bulkUpdateMode, .intWithMax 0 2),
    ("bus", .bulkUpdateSize, .int 0), ("cbm", .crdBgMode, .intWithMax 0 2), ("civ", .crdInterval, .double 0),
    ("cmd", .crdMode, .intWithMax 0 3), ("csr", .casualRead, .intWithMax 0 63), ("csy", .crdSync, .intWithMax 0 2),
    ("cto", .connectTimeouts, .longList 0 2147483647), ("ctp", .crdType, .intWithMax 0 2),
    ("cwg", .crdWeight, .double 1), ("dat", .deleteAllRowsType, .intWithMax 0 1),
    ("ddi", .directDupInsert, .intWithMax 0 1), ("dff", .tgtDefaultFiles, .strList),
    ("dfg", .tgtDefaultGroups, .strList), ("dol", .directOrderLimit, .longlong 0),
    ("erm", .errorReadMode, .intWithMax 0 1), ("ewm", .errorWriteMode, .intWithMax 0 1),
    ("fbd", .forceBulkDelete, .intWithMax 0 1), ("fbu", .forceBulkUpdate, .intWithMax 0 1),
    ("frd", .firstRead, .longlong 0), ("isa", .initSqlAllocSize, .int 0), ("idl", .internalDelayed, .intWithMax 0 1),
    ("ilm", .internalLimit, .longlong 0), ("ios", .internalOffset, .longlong 0),
    ("iom", .internalOptimize, .intWithMax 0 1), ("iol", .internalOptimizeLocal, .intWithMax 0 1),
    ("lmr", .lowMemRead, .intWithMax 0 1), ("lcs", .loadCrdAtStartup, .intWithMax 0 1),
    ("lss", .loadStsAtStartup, .intWithMax 0 1), ("lst", .linkStatuses, .longList 0 3),
    ("mbf", .monitoringBgFlag, .longList 0 1), ("mbi", .monitoringBgInterval, .longlongList 0 4294967295),
    ("mbk", .monitoringBgKind, .longList 0 3), ("mbp", .monitoringBinlogPosAtFailing, .longList 0 2),
    ("mfg", .monitoringFlag, .longList 0 1), ("mkd", .monitoringKind, .longList 0 3),
    ("mlt", .monitoringLimit, .longlongList 0 9223372036854775807), ("mod", .maxOrder, .int 0),
    ("msi", .monitoringSid, .longlongList 0 4294967295), ("msr", .multiSplitRead, .intWithMax 0 2147483647),
    ("nrt", .netReadTimeouts, .longList 0 2147483647), ("nwt", .netWriteTimeouts, .longList 0 2147483647),
    ("pkn", .tgtPkNames, .strList), ("prt", .priority, .longlong 0), ("qch", .queryCache, .intWithMax 0 2),
    ("qcs", .queryCacheSync, .intWithMax 0 3), ("qmd", .quickMode, .intWithMax 0 3),
    ("qps", .quickPageSize, .longlong 0), ("rom", .readOnlyMode, .intWithMax 0 1), ("rrt", .readRate, .double 0),
    ("rsa", .resetSqlAlloc, .intWithMax 0 1), ("sbm", .stsBgMode, .intWithMax 0 2), ("sca", .tgtSslCas, .strList),
    ("sch", .tgtSslCiphers, .strList), ("scm", .selectColumnMode, .intWithMax 0 1),
    ("scp", .tgtSslCapaths, .strList), ("scr", .tgtSslCerts, .strList),
    ("sdc", .skipDefaultCondition, .intWithMax 0 1), ("siv", .stsInterval, .double 0),
    ("sky", .tgtSslKeys, .strList), ("sli", .staticLinkIds, .strList), ("slc", .storeLastCrd, .intWithMax 0 1),
    ("slm", .selupdLockMode, .intWithMax 0 2), ("sls", .storeLastSts, .intWithMax 0 1),
    ("smd", .stsMode, .intWithMax 1 2), ("smr", .staticMeanRecLength, .longlong 0), ("spr", .splitRead, .longlong 0),
    ("sps", .skipParallelSearch, .intWithMax 0 3), ("sqn", .tgtSequenceNames, .strList),
    ("srd", .secondRead, .longlong 0), ("srt", .scanRate, .double 0), ("ssr", .semiSplitRead, .double 0),
    ("ssl", .semiSplitReadLimit, .longlong 0), ("ssy", .stsSync, .intWithMax 0 2),
    ("stc", .semiTableLockConn, .intWithMax 0 1), ("stl", .semiTableLock, .intWithMax 0 1),
    ("srs", .staticRecordsForStatus, .longlong 0), ("svc", .tgtSslVscs, .longList 0 1),
    ("tbl", .tgtTableNames, .strList), ("tcm", .tableCountMode, .intWithMax 0 3),
    ("uhd", .useHandlers, .longList 0 3), ("upu", .usePushdownUdf, .intWithMax 0 1),
    ("utc", .useTableCharset, .intWithMax 0 1),
    ("table", .tgtTableNames, .strList),
    ("server", .serverNames, .strList), ("socket", .tgtSockets, .strList), ("ssl_ca", .tgtSslCas, .strList),
    ("wrapper", .tgtWrappers, .strList), ("ssl_key", .tgtSslKeys, .strList), ("pk_name", .tgtPkNames, .strList),
    ("database", .tgtDbs, .strList), ("sts_mode", .stsMode, .intWithMax 1 2),
    ("sts_sync", .stsSync, .intWithMax 0 2), ("crd_mode", .crdMode, .intWithMax 0 3),
    ("crd_sync", .crdSync, .intWithMax 0 2), ("crd_type", .crdType, .intWithMax 0 2),
    ("priority", .priority, .longlong 0), ("bgs_mode", .bgsMode, .int 0), ("ssl_cert", .tgtSslCerts, .strList),
    ("bka_mode", .bkaMode, .intWithMax 0 2),
    ("shard_key", .tgtShardKeys, .strList), ("max_order", .maxOrder, .int 0), ("bulk_size", .bulkSize, .int 0),
    ("scan_rate", .scanRate, .double 0), ("read_rate", .readRate, .double 0),
    ("crd_weight", .crdWeight, .double 1), ("split_read", .splitRead, .longlong 0),
    ("quick_mode", .quickMode, .intWithMax 0 3), ("ssl_cipher", .tgtSslCiphers, .strList),
    ("ssl_capath", .tgtSslCapaths, .strList), ("bka_engine", .bkaEngine, .str),
    ("first_read", .firstRead, .longlong 0),
    ("query_cache", .queryCache, .intWithMax 0 2), ("crd_bg_mode", .crdBgMode, .intWithMax 0 2),
    ("sts_bg_mode", .stsBgMode, .intWithMax 0 2), ("link_status", .linkStatuses, .longList 0 3),
    ("use_handler", .useHandlers, .longList 0 3), ("casual_read", .casualRead, .intWithMax 0 63),
    ("sts_interval", .stsInterval, .double 0), ("crd_interval", .crdInterval, .double 0),
    ("low_mem_read", .lowMemRead, .intWithMax 0 1), ("default_file", .tgtDefaultFiles, .strList),
    ("config_table", .tgtConfigTable, .strList),
    ("default_group", .tgtDefaultGroups, .strList), ("sequence_name", .tgtSequenceNames, .strList),
    ("internal_limit", .internalLimit, .longlong 0), ("bgs_first_read", .bgsFirstRead, .longlong 0),
    ("read_only_mode", .readOnlyMode, .intWithMax 0 1), ("access_balance", .accessBalances, .longList 0 2147483647),
    ("static_link_id", .staticLinkIds, .strList), ("store_last_crd", .storeLastCrd, .intWithMax 0 1),
    ("store_last_sts", .storeLastSts, .intWithMax 0 1),
    ("internal_offset", .internalOffset, .longlong 0), ("reset_sql_alloc", .resetSqlAlloc, .intWithMax 0 1),
    ("semi_table_lock", .semiTableLock, .intWithMax 0 1), ("quick_page_size", .quickPageSize, .longlong 0),
    ("bgs_second_read", .bgsSecondRead, .longlong 0), ("monitoring_flag", .monitoringFlag, .longList 0 1),
    ("monitoring_kind", .monitoringKind, .longList 0 3), ("semi_split_read", .semiSplitRead, .double 0),
    ("connect_timeout", .connectTimeouts, .longList 0 2147483647),
    ("error_read_mode", .errorReadMode, .intWithMax 0 1),
    ("multi_split_read", .multiSplitRead, .intWithMax 0 2147483647),
    ("selupd_lock_mode", .selupdLockMode, .intWithMax 0 2), ("internal_delayed", .internalDelayed, .intWithMax 0 1),
    ("table_count_mode", .tableCountMode, .intWithMax 0 3), ("use_pushdown_udf", .usePushdownUdf, .intWithMax 0 1),
    ("monitoring_limit", .monitoringLimit, .longlongList 0 9223372036854775807),
    ("bulk_update_mode", .bulkUpdateMode, .intWithMax 0 2), ("bulk_update_size", .bulkUpdateSize, .int 0),
    ("net_read_timeout", .netReadTimeouts, .longList 0 2147483647),
    ("error_write_mode", .errorWriteMode, .intWithMax 0 1), ("query_cache_sync", .queryCacheSync, .intWithMax 0 3),
    ("internal_optimize", .internalOptimize, .intWithMax 0 1),
    ("use_table_charset", .useTableCharset, .intWithMax 0 1),
    ("direct_dup_insert", .directDupInsert, .intWithMax 0 1), ("active_link_count", .activeLinkCount, .int 1),
    ("net_write_timeout", .netWriteTimeouts, .longList 0 2147483647),
    ("force_bulk_delete", .forceBulkDelete, .intWithMax 0 1),
    ("force_bulk_update", .forceBulkUpdate, .intWithMax 0 1),
    ("select_column_mode", .selectColumnMode, .intWithMax 0 1),
    ("monitoring_bg_flag", .monitoringBgFlag, .longList 0 1),
    ("monitoring_bg_kind", .monitoringBgKind, .longList 0 3), ("direct_order_limit", .directOrderLimit, .longlong 0),
    ("init_sql_alloc_size", .initSqlAllocSize, .int 0), ("auto_increment_mode", .autoIncrementMode, .intWithMax 0 3),
    ("bka_table_name_type", .bkaTableNameTypes, .longList 0 1),
    ("load_crd_at_startup", .loadCrdAtStartup, .intWithMax 0 1),
    ("load_sts_at_startup", .loadStsAtStartup, .intWithMax 0 1),
    ("monitoring_server_id", .monitoringSid, .longlongList 0 4294967295),
    ("delete_all_rows_type", .deleteAllRowsType, .intWithMax 0 1),
    ("skip_parallel_search", .skipParallelSearch, .intWithMax 0 3),
    ("semi_split_read_limit", .semiSplitReadLimit, .longlong 0),
    ("ssl_verify_server_cert", .tgtSslVscs, .longList 0 1),
    ("monitoring_bg_interval", .monitoringBgInterval, .longlongList 0 4294967295),
    ("skip_default_condition", .skipDefaultCondition, .intWithMax 0 1),
    ("static_mean_rec_length", .staticMeanRecLength, .longlong 0),
    ("internal_optimize_local", .internalOptimizeLocal, .intWithMax 0 1),
    ("static_records_for_status", .staticRecordsForStatus, .longlong 0),
    ("semi_table_lock_connection", .semiTableLockConn, .intWithMax 0 1),
    ("monitoring_binlog_pos_at_failing", .monitoringBinlogPosAtFailing, .longList 0 2)]

def ignoredTitles : List String := ["shard_func", "shard_type", "shard_count"]

inductive Param
  | field (f : Field)
  | keyHint (key : ℕ)
  | staticKeyCardinality (key : ℕ)
deriving DecidableEq

inductive Target
  | ignored
  | field (f : Field) (kind : Kind)
  | keyHint (key : ℕ)
  | staticKeyCardinality (key : ℕ)

def lower : List Char := s.map Char.toLower

/-- The key whose number is behind the first three characters of a title, if the table has it. -/
def keyOf (keys : ℕ) (title : List Char) : Option ℕ :=
  let hintNum := atoi (title.drop 3)
  if hintNum < 0 ∨ keys ≤ hintNum then none else some hintNum.toNat

/-- The `switch` over the title. `SPIDER_PARAM_HINT` and `SPIDER_PARAM_NUMHINT` compare three characters, also for
`static_key_cardinality` of case 25. -/
def targetOf (keys : ℕ) (title : List Char) : Option Target :=
  match titles.find? fun t => t.1.toList = lower title with
  | some (_, f, kind) => some (.field f kind)
  | none =>
    if ignoredTitles.any fun t => t.toList = lower title then some .ignored
    else if title.length = 6 ∧ (lower title).take 3 = "idx".toList then (keyOf keys title).map .keyHint
    else if title.length = 6 ∧ (lower title).take 3 = "skc".toList then (keyOf keys title).map .staticKeyCardinality
    else if title.length = 25 ∧ (lower title).take 3 = "sta".toList then (keyOf keys title).map .staticKeyCardinality
    else none

def Target.param : Target → Option Param
  | ignored => none
  | field f _ => some (.field f)
  | keyHint key => some (.keyHint key)
  | staticKeyCardinality key => some (.staticKeyCardinality key)

def appendKeyHint : List Char :=
  if lower (s.take 2) = "f ".toList then " force index(".toList ++ s.drop 2 ++ [')']
  else if lower (s.take 2) = "u ".toList then " use index(".toList ++ s.drop 2 ++ [')']
  else if lower (s.take 3) = "ig ".toList then " ignore index(".toList ++ s.drop 3 ++ [')']
  else ' ' :: s

end TSpider.Connect

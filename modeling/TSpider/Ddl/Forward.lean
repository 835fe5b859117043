import TSpider.Literal.Lexer

/-!
# DDL statements at the control node

With `ddl_execute_by_ctl` a DDL statement is sent to the control node in one text with multi-statements enabled: the session
settings, a `USE` of the database and the statement of the user (`tdbctl_conn_before_query`). The name of the database is
written as it is, without quotes.

The node reads the text with the lexer of the server. `Node.read` takes the settings and the `USE` from the start of a text
and leaves the rest; a name is given by its bytes in the text.
-/

namespace TSpider.Ddl

def ascii (s : String) : List UInt8 := s.toList.map fun c => UInt8.ofNat c.toNat

/-! ## Character sets -/

def isDigit (c : UInt8) : Bool := 0x30 ≤ c && c ≤ 0x39

def isXdigit (c : UInt8) : Bool := isDigit c || (0x41 ≤ c && c ≤ 0x46) || (0x61 ≤ c && c ≤ 0x66)

def isWord (c : UInt8) : Bool := isDigit c || (0x41 ≤ c && c ≤ 0x5a) || (0x61 ≤ c && c ≤ 0x7a) || c = 0x5f

/-- What the lexer knows of `thd->charset()`: bytes below `0x80` are those of ASCII. -/
structure Charset extends Literal.Charset where
  csname : List UInt8
  csname_word : ∀ c ∈ csname, isWord c = true
  /-- Bytes from `0x80` on that `ident_map`, `my_isspace` and `my_iscntrl` accept. -/
  identHigh : UInt8 → Bool
  spaceHigh : UInt8 → Bool
  cntrlHigh : UInt8 → Bool
  charlen_ascii : ∀ (c : UInt8) (s : List UInt8), c < 0x80 → charlen (c :: s) = 1
  /-- The conversion of an identifier to the character set of names. -/
  toSystem : List UInt8 → List UInt8

namespace Charset
variable (cs : Charset)

def identMap (c : UInt8) : Bool := if c < 0x80 then isWord c || c = 0x24 else cs.identHigh c

/-- `state_map[c] == MY_LEX_SKIP`. -/
def isSkip (c : UInt8) : Bool :=
  !cs.identMap c && if c < 0x80 then (0x09 ≤ c && c ≤ 0x0d) || c = 0x20 else cs.spaceHigh c

/-- `my_isspace` or `my_iscntrl`. -/
def isSpaceOrCntrl (c : UInt8) : Bool := if c < 0x80 then c ≤ 0x20 || c = 0x7f else cs.spaceHigh c || cs.cntrlHigh c

/-- The number of bytes of the character at the start of a text, 0 if there is none. -/
def width (s : List UInt8) : Nat := if cs.useMb then (cs.charlen s).toNat else 1

end Charset

/-! ## The text -/

inductive Command where
  | createUser | dropUser | alterUser | renameUser | revokeAll | revoke | grant
  | createEvent | alterEvent | dropEvent
  | createProcedure | createSpfunction | alterProcedure | dropProcedure
  | createFunction | alterFunction | dropFunction | createTrigger | dropTrigger
  | createView | dropView
  | createTable | dropTable | alterTable | renameTable | createIndex | dropIndex
  | createDb | dropDb | alterDb
  deriving DecidableEq

structure Session where
  charset : Charset
  /-- The names of the modes in `sql_mode`, with commas between them. -/
  sqlMode : List UInt8
  sqlMode_word : ∀ c ∈ sqlMode, isWord c = true ∨ c = 0x2c
  db : Option (List UInt8)

structure Statement where
  command : Command
  /-- `lex->sphead->m_db`; there is no `sphead` for statements without a body. -/
  spheadDb : Option (List UInt8)
  tablesDb : List UInt8
  query : List UInt8

inductive UseDb where
  | omitted
  | nullDeref
  | name (db : List UInt8)
  deriving DecidableEq

/-- The `switch` of `tdbctl_conn_before_query`. -/
def Statement.useDb (st : Statement) (s : Session) : UseDb :=
  match st.command with
  | .createEvent | .alterEvent | .dropEvent | .createProcedure | .createSpfunction | .alterProcedure | .dropProcedure
  | .createFunction | .alterFunction | .dropFunction | .createTrigger | .dropTrigger =>
    match s.db with
    | some db => .name db
    | none =>
      match st.spheadDb with
      | some db => .name db
      | none => .nullDeref
  | .createView | .dropView => .name (s.db.getD st.tablesDb)
  | .createTable | .dropTable | .alterTable | .renameTable | .createIndex | .dropIndex => .name st.tablesDb
  | .createUser | .dropUser | .alterUser | .renameUser | .revokeAll | .revoke | .grant | .createDb | .dropDb | .alterDb =>
    .omitted

def Session.settings (s : Session) : List (List UInt8) :=
  [ascii "set names " ++ s.charset.csname, ascii "set sql_mode='" ++ s.sqlMode ++ ascii "'", ascii "set tc_admin=1"]

/-- `tdbctl_conn_before_query`; `none` if a null pointer is read. -/
def beforeQuery (s : Session) (st : Statement) : Option (List UInt8) :=
  let settings := ascii "set names " ++ s.charset.csname ++ ascii ";" ++
    (ascii "set sql_mode='" ++ s.sqlMode ++ ascii "';") ++
    ascii "set tc_admin=1;"
  match st.useDb s with
  | .omitted => some (settings ++ st.query)
  | .nullDeref => none
  | .name db => some (settings ++ (ascii "use " ++ db ++ ascii ";") ++ st.query)

/-! ## The node's lexer -/

/-- Inside white space, in a comment up to the end of the line, or in a comment up to its end mark. -/
inductive Gap where
  | space
  | line
  | long

def skip (cs : Charset) : Gap → List UInt8 → Option (List UInt8)
  | .space, [] => some []
  | .line, [] => some []
  | .long, [] => none
  | .line, c :: s => if c = 0x0a then skip cs .space s else skip cs .line s
  | .long, [_] => none
  | .long, c :: d :: s => if c = 0x2a ∧ d = 0x2f then skip cs .space s else skip cs .long (d :: s)
  | .space, [c] => if cs.isSkip c then some [] else if c = 0x23 then some [] else some [c]
  | .space, c :: d :: s =>
    if cs.isSkip c then skip cs .space (d :: s)
    else if c = 0x23 then skip cs .line (d :: s)
    else if c = 0x2f ∧ d = 0x2a then skip cs .long s
    -- behind the last byte of the text is a NUL, which is a control character
    else if c = 0x2d ∧ d = 0x2d ∧ s.head?.all cs.isSpaceOrCntrl then skip cs .line s
    else some (c :: d :: s)

/-- The characters of an identifier; the first argument counts the bytes of a character still to be taken. -/
def takeIdent (cs : Charset) : Nat → List UInt8 → List UInt8 × List UInt8
  | _, [] => ([], [])
  | k + 1, c :: s => ((takeIdent cs k s).1.cons c, (takeIdent cs k s).2)
  | 0, c :: s =>
    if cs.identMap c ∧ 0 < cs.width (c :: s) then
      ((takeIdent cs (cs.width (c :: s) - 1) s).1.cons c, (takeIdent cs (cs.width (c :: s) - 1) s).2)
    else ([], c :: s)

def identEnds (cs : Charset) (s : List UInt8) : Bool := !s.head?.any cs.identMap

def isDecimal (cs : Charset) (s : List UInt8) : Bool :=
  match s.dropWhile isDigit with
  | [] => true
  | c :: r =>
    !cs.identMap c ||
      (c = 0x65 || c = 0x45) && (r.head?.any isDigit || r.head?.any (fun d => d = 0x2b || d = 0x2d) &&
        r.tail.head?.any isDigit)

def isDigits (cs : Charset) (digit : UInt8 → Bool) (s : List UInt8) : Bool :=
  s.head?.any digit && identEnds cs (s.dropWhile digit)

/-- `MY_LEX_NUMBER_IDENT`: a text that starts with a digit (`0x1f`, `0b10`, `12`, `1e5`) is a number, not an identifier. -/
def isNumber (cs : Charset) (s : List UInt8) : Bool :=
  if s.take 2 = ascii "0x" then isDigits cs isXdigit (s.drop 2)
  else if s.take 2 = ascii "0b" then isDigits cs (fun c => c = 0x30 || c = 0x31) (s.drop 2)
  else isDecimal cs s

/-- `scan_ident_delimited`: the name without its quotes, and what follows. -/
def readDelimited (cs : Charset) (q : UInt8) : Nat → List UInt8 → List UInt8 × List UInt8
  | _, [] => ([], [])
  | k + 1, c :: s => ((readDelimited cs q k s).1.cons c, (readDelimited cs q k s).2)
  | 0, c :: s =>
    if c = q ∧ cs.charlen (c :: s) = 1 then
      match s with
      | [] => ([], [])
      | d :: s' =>
        if d = q then ((readDelimited cs q 0 s').1.cons q, (readDelimited cs q 0 s').2)
        else ([], d :: s')
    else ((readDelimited cs q ((cs.charlen (c :: s)).toNat - 1) s).1.cons c,
      (readDelimited cs q ((cs.charlen (c :: s)).toNat - 1) s).2)

/-- The words of the node: those that the rule `ident` does not take, and the names of character sets. -/
structure Words where
  reserved : List UInt8 → Bool
  isCharset : List UInt8 → Bool

/-- The control node after the settings: the session's character set, and whether `sql_mode` has `ANSI_QUOTES`. -/
structure Node extends Words where
  charset : Charset
  ansiQuotes : Bool

def Session.node (s : Session) (w : Words) : Node :=
  { w with charset := s.charset, ansiQuotes := ascii "ANSI_QUOTES" <:+: s.sqlMode }

namespace Node
variable (n : Node)

def isKeyword (w : List UInt8) : Bool :=
  n.reserved w || w.head?.any (· = 0x5f) && w.all (· < 0x80) && n.isCharset w.tail

def readIdent : List UInt8 → Option (List UInt8 × List UInt8)
  | [] => none
  | c :: s =>
    if c = 0x60 ∨ (c = 0x22 ∧ n.ansiQuotes) then some (readDelimited n.charset c 0 s)
    else if isDigit c then if isNumber n.charset (c :: s) then none else some (takeIdent n.charset 0 (c :: s))
    else if c ∈ ascii "xXbBnN" ∧ s.head?.any (· = 0x27) then none
    else if (takeIdent n.charset 0 (c :: s)).1 = [] ∨ n.isKeyword (takeIdent n.charset 0 (c :: s)).1 then none
    else some (takeIdent n.charset 0 (c :: s))

/-- A statement `use name ;` at the start of a text: the name, and the text behind the semicolon. -/
def readUse (text : List UInt8) : Option (List UInt8 × List UInt8) :=
  (text.dropPrefix? (ascii "use ")).bind fun text =>
    (skip n.charset .space text).bind fun text =>
      (n.readIdent text).bind fun (name, text) =>
        (skip n.charset .space text).bind fun
          | 0x3b :: rest => some (name, rest)
          | _ => none

end Node

/-- A statement up to its semicolon, and the text behind it; the first argument is on inside a string. -/
def cut : Bool → List UInt8 → Option (List UInt8 × List UInt8)
  | _, [] => none
  | q, c :: s =>
    if c = 0x3b ∧ q = false then some ([], s)
    else (cut (if c = 0x27 then !q else q) s).map fun (stmt, rest) => (c :: stmt, rest)

structure Reading where
  settings : List (List UInt8)
  db : Option (List UInt8)
  rest : List UInt8
  deriving DecidableEq

def Node.read (n : Node) (withUse : Bool) (text : List UInt8) : Option Reading := do
  let (s₁, text) ← cut false text
  let (s₂, text) ← cut false text
  let (s₃, text) ← cut false text
  if withUse then
    let (db, text) ← n.readUse text
    some ⟨[s₁, s₂, s₃], some db, text⟩
  else some ⟨[s₁, s₂, s₃], none, text⟩

/-! ## The answers -/

inductive Reply where
  | ok
  | rows
  | error (errno : Nat)
  deriving DecidableEq

/-- `tbdctl_conn_exec_query` and `tdbctl_mysql_next_result`: on if an error is reported. A lost connection gives no answer. -/
def execQuery : List Reply → Bool
  | [] => true
  | [.ok] => false
  | .ok :: r :: rs => execQuery (r :: rs)
  | .rows :: _ => true
  | .error _ :: _ => true

end TSpider.Ddl

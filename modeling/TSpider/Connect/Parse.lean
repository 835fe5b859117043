import TSpider.Connect.Params

/-!
# Parsing the connect information of a table

`spider_parse_connect_info` goes through four texts: the comments of the sub-partition, of the partition and of the table, and
the connect string. It cuts each text at its commas, wherever they stand, and takes from each piece a title and, if the
title's field is still unset, the text between quotes (`spider_get_string_between_quote`).

A `Setting` is a parameter as it is written: a title, a quoted value in which a backslash escapes the next character, and
blanks.
-/

namespace TSpider.Connect

def isBlank (c : Char) : Bool := c = ' ' || c = '\r' || c = '\n' || c = '\t'

def isQuote (c : Char) : Bool := c = '\x27' || c = '"'

/-! ## Quoted texts -/

/-- The text up to the quote `q` and the rest; the `strchr` loops step over a backslash with what is behind it. -/
def scanQuote (q : Char) : List Char → Option (List Char × List Char)
  | [] => none
  | [c] => if c = q then some ([], []) else none
  | c :: d :: s =>
    if c = '\\' then (scanQuote q s).map fun r => (c :: d :: r.1, r.2)
    else if c = q then some ([], d :: s)
    else (scanQuote q (d :: s)).map fun r => (c :: r.1, r.2)

def escape (c : Char) : Char :=
  if c = 'b' then '\x08' else if c = 'n' then '\n' else if c = 'r' then '\r' else if c = 't' then '\t' else c

def unescape : List Char → List Char
  | [] => []
  | [c] => [c]
  | c :: d :: s => if c = '\\' then escape d :: unescape s else c :: unescape (d :: s)

structure Quoted where
  text : List Char
  rest : List Char
  escaped : Bool

def getStringBetweenQuote (s : List Char) : Option Quoted :=
  match s.dropWhile fun c => !isQuote c with
  | [] => none
  | q :: s => (scanQuote q s).map fun r => ⟨unescape r.1, r.2, r.1.any (· = '\\')⟩

/-- `has_extra_parameter_values`. A text that had escapes is shorter: NULs follow its end and hide what stands behind the
quote. -/
def hasExtra (q : Quoted) : Bool := !q.escaped && q.rest.any fun c => !isBlank c

/-! ## The loop -/

inductive ParseError
  /-- `ER_SPIDER_INVALID_CONNECT_INFO_NUM` for the parameter that starts with this title -/
  | invalidConnectInfo (title : List Char)
  /-- the error of `my_strtoll10`, returned by `spider_set_ll_value` -/
  | number (e : NumError)
  /-- a hint without a quoted text is read from a null pointer -/
  | nullPointer

/-- The share's parameters, `none` for NULL and -1. `handled` are the titles that the loop has gone through. -/
structure State where
  share : Param → Option Value
  handled : List (List Char)

/-- What the macro of a title makes of a text: `none` if the field is unset after it. -/
def Target.read (text : List Char) : Target → Except ParseError (Option Value)
  | ignored => .ok none
  | field _ kind => .ok (kind.decode text)
  | keyHint _ => .ok (some (.str (appendKeyHint text)))
  | staticKeyCardinality _ =>
    match myStrtoll10 text with
    | (n, .ok) => .ok (if n = -1 then none else some (.int n))
    | (_, e) => .error (.number e)

/-- The macros for hints do not say where their value ended. -/
def Target.checksRest : Target → Bool
  | field _ _ => true
  | _ => false

def fill (share : Param → Option Value) (title behind : List Char) (t : Target) :
    Except ParseError (Param → Option Value) :=
  match t.param with
  | none => .ok share
  | some p =>
    if (share p).isSome then .ok share
    else
      match getStringBetweenQuote behind with
      | none => .error (if t.checksRest then .invalidConnectInfo title else .nullPointer)
      | some q =>
        match t.read q.text with
        | .error e => .error e
        | .ok none => .ok share
        | .ok (some v) =>
          if t.checksRest && hasExtra q then .error (.invalidConnectInfo title)
          else .ok (Function.update share p (some v))

def parsePiece (keys : ℕ) (st : State) (s : List Char) : Except ParseError State :=
  match s.dropWhile isBlank with
  | [] => .ok st
  | s =>
    let title := s.takeWhile fun c => !isBlank c && !isQuote c
    match if title = [] then none else targetOf keys title with
    | none => .error (.invalidConnectInfo title)
    | some t =>
      match fill st.share title (s.drop title.length) t with
      | .error e => .error e
      | .ok share => .ok ⟨share, st.handled ++ [title]⟩

def parseText (keys : ℕ) (st : State) (s : List Char) : Except ParseError State :=
  (s.splitOn ',').foldlM (parsePiece keys) st

/-- `spider_parse_connect_info` up to the check of the link count, with `keys` keys; an absent text is empty. -/
def parseConnectInfo (keys : ℕ) (subComment partComment comment connectString : List Char) : Except ParseError State :=
  [subComment, partComment, comment, connectString].foldlM (parseText keys) ⟨fun _ => none, []⟩

/-! ## Settings -/

inductive Tok
  | plain (c : Char)
  | escaped (c : Char)

namespace Tok

def char : Tok → Char
  | plain c => c
  | escaped c => c

def raw : Tok → List Char
  | plain c => [c]
  | escaped c => ['\\', c]

def value : Tok → Char
  | plain c => c
  | escaped c => escape c

end Tok

structure Setting (keys : ℕ) where
  before : List Char
  title : List Char
  between : List Char
  quote : Char
  body : List Tok
  after : List Char
  target : Target
  target_eq : targetOf keys title = some target
  title_ne : title ≠ []
  title_char : ∀ c ∈ title, isBlank c = false ∧ isQuote c = false ∧ c ≠ ','
  before_blank : ∀ c ∈ before, isBlank c = true
  between_blank : ∀ c ∈ between, isBlank c = true
  after_blank : ∀ c ∈ after, isBlank c = true
  quote_isQuote : isQuote quote = true
  /-- a closing quote or a backslash in the value is escaped -/
  body_plain : ∀ c, Tok.plain c ∈ body → c ≠ quote ∧ c ≠ '\\'

namespace Setting
variable {keys : ℕ} (s : Setting keys)

def raw : List Char := s.body.flatMap Tok.raw

def value : List Char := s.body.map Tok.value

def render : List Char := s.before ++ (s.title ++ (s.between ++ s.quote :: (s.raw ++ s.quote :: s.after)))

def param : Option Param := s.target.param

def read : Except ParseError (Option Value) := s.target.read s.value

end Setting

def text {keys : ℕ} (l : List (Setting keys)) : List Char := [','].intercalate (l.map Setting.render)

end TSpider.Connect

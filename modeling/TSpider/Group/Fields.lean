import Mathlib.Tactic

/-!
# The columns of a query that is pushed down as a whole

`spider_create_group_by_handler` goes over the clauses of a query without writing anything and records the columns that it
meets (`add_field`). `init_scan` goes over them again and prints the text; for each column it takes the next one that has been
recorded (`get_next_field_chain`) and prints its table's alias. Both passes use `spider_db_print_item_type`.

Of the text only the columns are kept.
-/

namespace TSpider.Group

abbrev Charset := Nat

def binaryCharset : Charset := 0

/-- A `Field`: its table, its `field_index`, and a string's character set. Tables are numbered by `idx_for_direct_join`; other
numbers are outside the query. -/
structure Column where
  table : Nat
  index : Nat
  charset : Option Charset
  deriving DecidableEq

inductive Expr where
  | column (c : Column)
  /-- What is printed without a column: a literal (`string` for a `STRING_ITEM`), a constant table's column, an alias. -/
  | value (string : Bool)
  /-- What returns `ER_SPIDER_COND_SKIP_NUM`: subqueries, `CASE`, stored functions and the like. -/
  | skip
  /-- What the code cannot go through: `XOR`, `UTC_DATE`, `UTC_TIME`. -/
  | undefined
  /-- What is left to `Item::print`, such as `DEFAULT(a)`, with the columns printed under the query's own names. -/
  | raw (cs : List Column)
  /-- `Item_cond_and` or `Item_cond_or`. -/
  | cond (and : Bool) (args : List Expr)
  /-- A function, whose arguments are checked for their character set; in the order of the text. -/
  | func (args : List Expr)
  /-- A row, an aggregate function or a reference, whose arguments are not checked. -/
  | plain (args : List Expr)
  /-- `MATCH ... AGAINST` over a full-text index of a table. -/
  | fulltext (table : Nat) (args : List Expr)
  /-- `TRIM` with a string to remove. -/
  | trim (item removeStr : Expr)

def Expr.isString : Expr → Bool
  | .value string => string
  | _ => false

/-- A column in the text: behind the alias of a table of the query, or under the query's own names. -/
inductive Ref where
  | qualified (table index : Nat)
  | original (c : Column)
  deriving DecidableEq

/-- `SPIDER_FIELD_HOLDER`; `spider` is the table whose handler and alias it has. -/
structure Holder where
  field : Column
  spider : Option Nat
  deriving DecidableEq

/-- `spider_fields`: the columns, the chain of holders in the order in which they were met, and what is left of it. -/
structure Fields where
  holders : List Holder
  chain : List Nat
  current : List Nat
  deriving DecidableEq

def Fields.empty : Fields := ⟨[], [], []⟩

def Fields.addField (f : Fields) (c : Column) : Fields :=
  match f.holders.findIdx? (·.field = c) with
  | some i => { f with chain := f.chain ++ [i] }
  | none => { f with holders := f.holders ++ [⟨c, none⟩], chain := f.chain ++ [f.holders.length] }

def Fields.addTable (f : Fields) (table : Nat) : Fields :=
  { f with holders := f.holders.map fun h =>
      if h.spider = none ∧ h.field.table = table then { h with spider := some table } else h }

def Fields.setPosToFirstFieldChain (f : Fields) : Fields := { f with current := f.chain }

/-- One of the two passes; `spider_db_print_item_type` gets one handler of the query, whose table has a character set. -/
structure Pass where
  str : Bool
  handler : Nat
  tableCharset : Option Charset
  skipDefaultCondition : Bool
  connection : Charset

/-- What a call returns: the columns printed and the state, or `ER_SPIDER_COND_SKIP_NUM`. -/
inductive Outcome where
  | ok (refs : List Ref) (f : Fields)
  | skip (f : Fields)
  | undefined
  deriving DecidableEq

def Outcome.andThen (o : Outcome) (next : Fields → Outcome) : Outcome :=
  match o with
  | .ok refs f =>
    match next f with
    | .ok refs' f' => .ok (refs ++ refs') f'
    | o => o
  | o => o

def Outcome.cutThen (o : Outcome) (next : Fields → Outcome) (goOn : Bool) : Outcome :=
  match o with
  | .skip f => if goOn then next f else .skip f
  | o => o.andThen next

def checkInvalidCharset (p : Pass) : Expr → Bool
  | .column c =>
    match p.tableCharset, c.charset with
    | some table, some cs => p.connection ≠ table ∧ cs ≠ table ∧ cs ≠ binaryCharset
    | _, _ => false
  | _ => false

/-- `spider_db_print_item_type_and_check_charset`, with the call behind the check. -/
def checked (p : Pass) (e : Expr) (print : Fields → Outcome) (f : Fields) : Outcome :=
  if checkInvalidCharset p e then .skip f else print f

def openItemField (p : Pass) (c : Column) (f : Fields) : Outcome :=
  if p.str then
    match f.current with
    | i :: rest =>
      match f.holders[i]?.bind Holder.spider with
      -- `field_exchange` returns `NULL` for a column of another table, and its index is read all the same
      | some table => if c.table = table then .ok [.qualified table c.index] { f with current := rest } else .undefined
      | none => .undefined
    | [] => .undefined
  else .ok [] (f.addField c)

mutual

def printItemType (p : Pass) : Expr → Fields → Outcome
  | .column c, f => openItemField p c f
  | .value _, f => .ok [] f
  | .skip, f => .skip f
  | .undefined, _ => .undefined
  | .raw cs, f => if p.skipDefaultCondition then .skip f else .ok (if p.str then cs.map .original else []) f
  | .cond and args, f => if args.isEmpty then .ok [] f else condFirst p and args f
  | .func args, f => printArgs p args f
  | .plain args, f => printItems p args f
  | .fulltext table args, f => if p.handler = table then printArgs p args f else .skip f
  -- without a text the arguments are not looked at
  | .trim item removeStr, f =>
    if p.str && removeStr.isString then
      (checked p removeStr (printItemType p removeStr) f).andThen (checked p item (printItemType p item))
    else .ok [] f
termination_by structural e => e

/-- `spider_db_open_item_cond` up to the first argument that is printed. -/
def condFirst (p : Pass) (and : Bool) : List Expr → Fields → Outcome
  | [], f => .skip f
  | a :: as, f =>
    match checked p a (printItemType p a) f with
    | .skip f => if p.str && and then condFirst p and as f else .skip f
    | o => o.andThen (condRest p and as)
termination_by structural as => as

/-- `spider_db_open_item_cond` behind the first argument that is printed. -/
def condRest (p : Pass) (and : Bool) : List Expr → Fields → Outcome
  | [], f => .ok [] f
  | a :: as, f => (checked p a (printItemType p a) f).cutThen (condRest p and as) (p.str && and)
termination_by structural as => as

def printArgs (p : Pass) : List Expr → Fields → Outcome
  | [], f => .ok [] f
  | a :: as, f => (checked p a (printItemType p a) f).andThen (printArgs p as)
termination_by structural as => as

def printItems (p : Pass) : List Expr → Fields → Outcome
  | [], f => .ok [] f
  | a :: as, f => (printItemType p a f).andThen (printItems p as)
termination_by structural as => as

end

structure Table where
  charset : Option Charset
  skipDefaultCondition : Bool

/-- The query; `on` are its `ON` conditions in the order in which `append_from_and_tables` prints them. -/
structure Query where
  tables : List Table
  connection : Charset
  select : List Expr
  on : List Expr
  where_ : Option Expr
  groupBy : List Expr
  having : Option Expr
  orderBy : List Expr

namespace Query

variable (q : Query)

/-- The pass of `spider_create_group_by_handler`, whose handler is the first with `skip_default_condition` or the last. -/
def acceptPass : Pass :=
  let handler := (q.tables.findIdx? Table.skipDefaultCondition).getD (q.tables.length - 1)
  { str := false
    handler
    tableCharset := q.tables[handler]?.bind Table.charset
    skipDefaultCondition := (q.tables[handler]?.map Table.skipDefaultCondition).getD false
    connection := q.connection }

def printPass : Pass :=
  { str := true
    handler := 0
    tableCharset := q.tables[0]?.bind Table.charset
    skipDefaultCondition := (q.tables[0]?.map Table.skipDefaultCondition).getD false
    connection := q.connection }

def acceptItems : List Expr := q.select ++ q.on ++ q.where_.toList ++ q.groupBy ++ q.orderBy ++ q.having.toList

def printedItems : List Expr := q.select ++ q.on ++ q.where_.toList ++ q.groupBy ++ q.having.toList ++ q.orderBy

def createGroupByHandler : Option Fields :=
  match printItems q.acceptPass q.acceptItems .empty with
  | .ok _ f =>
    let f := (List.range q.tables.length).foldl Fields.addTable f
    -- `all_query_fields_are_query_table_members`
    if f.holders.all (·.spider.isSome) then some f else none
  | _ => none

def initScan (f : Fields) : Outcome := printItems q.printPass q.printedItems f.setPosToFirstFieldChain

end Query

end TSpider.Group

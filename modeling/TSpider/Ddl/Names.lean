import TSpider.Ddl.Split
import Mathlib.Data.List.TakeWhile

/-!
# Which statements are forwarded

With `ddl_execute_by_ctl` the statements that define data are forwarded, but for those whose database is in the list
`tdbctl_skip_ddl_convert_db` (`tdbctl_is_ddl_by_ctl`). Statements about users have no database, and that of `ALTER DATABASE`
is not looked up.
-/

namespace TSpider.Ddl
open List

structure Names where
  command : Command
  /-- The databases written with the names of tables, in the order of `lex->query_tables`. -/
  tables : List (Option (List UInt8))
  spheadDb : Option (List UInt8)
  /-- `lex->name`, the database of `CREATE DATABASE` and `DROP DATABASE`. -/
  name : List UInt8
  query : List UInt8

/-- The parser gives the current database to a name without one. -/
def Names.statement (n : Names) (s : Session) : Statement where
  command := n.command
  spheadDb := n.spheadDb
  tablesDb := (n.tables.head?.join.or s.db).getD []
  query := n.query

/-- `tdbctl_get_current_db`: as for `USE`, but with the database that is created or dropped. -/
def Names.currentDb (n : Names) (s : Session) : UseDb :=
  match n.command with
  | .createDb | .dropDb => .name n.name
  | _ => (n.statement s).useDb s

/-! ## The list -/

def lower (c : UInt8) : UInt8 := if 0x41 ≤ c && c ≤ 0x5a then c + 0x20 else c

/-- `!strcasecmp` -/
def sameName (a b : List UInt8) : Bool := a.map lower = b.map lower

/-- `strtok_r` with a comma. -/
def strtok (s : List UInt8) : Option (List UInt8 × List UInt8) :=
  match s.dropWhile (· = 0x2c) with
  | [] => none
  | c :: s => some (c :: s.takeWhile (· ≠ 0x2c), (s.dropWhile (· ≠ 0x2c)).tail)

theorem strtok_length {s t r : List UInt8} (h : strtok s = some (t, r)) : r.length < s.length := by
  have hdrop := (dropWhile_sublist (l := s) fun c => decide (c = 0x2c)).length_le
  unfold strtok at h
  split at h
  · cases h
  · rename_i c s' hs
    cases h
    have htail := (dropWhile_sublist (l := s') fun c => decide (c ≠ 0x2c)).length_le
    simp only [hs, length_cons, length_tail] at hdrop ⊢
    omega

/-- The loop of `tdbctl_is_ignore_db`. -/
def ignoreLoop (db s : List UInt8) : Bool :=
  match _h : strtok s with
  | none => false
  | some (t, r) => sameName db t || ignoreLoop db r
termination_by s.length
decreasing_by exact strtok_length _h

def isIgnoreDb (list db : List UInt8) : Bool := if db = [] then false else ignoreLoop db list

/-- `tdbctl_is_ddl_by_ctl`; `none` if a null pointer is read. -/
def Names.isDdlByCtl (n : Names) (s : Session) (ddlExecuteByCtl : Bool) (list : List UInt8) : Option Bool :=
  if ddlExecuteByCtl then
    match n.currentDb s with
    | .omitted => some (!isIgnoreDb list [])
    | .nullDeref => none
    | .name db => some (!isIgnoreDb list db)
  else some false

def items (list : List UInt8) : List (List UInt8) := (list.splitOn 0x2c).filter (· ≠ [])

theorem splitOn_comma (s : List UInt8) : s.splitOn 0x2c = s.takeWhile (· ≠ 0x2c) ::
    match s.dropWhile (· ≠ 0x2c) with
    | [] => []
    | _ :: r => r.splitOn 0x2c := by
  induction s with
  | nil => rfl
  | cons c s ih =>
    by_cases hc : c = 0x2c <;> simp [splitOn_eq_splitOnP, splitOnP_cons_eq_if_modifyHead, hc] at ih ⊢
    rw [ih, modifyHead_cons]

/-- The `strtok` loop finds the items of the list one by one. -/
theorem items_strtok (s : List UInt8) : items s = match strtok s with
    | none => []
    | some (t, r) => t :: items r := by
  induction s with
  | nil => rfl
  | cons c s ih =>
    by_cases hc : c = 0x2c
    · simpa [items, strtok, hc, splitOn_eq_splitOnP, splitOnP_cons_eq_if_modifyHead] using ih
    · rw [items, splitOn_comma, strtok, takeWhile_cons_of_pos (by simpa), dropWhile_cons_of_pos (by simpa),
        dropWhile_cons_of_neg (by simpa)]
      dsimp only
      cases s.dropWhile (· ≠ 0x2c) <;> simp [items]

/-- A database is ignored exactly if an item of the list is its name up to case. -/
theorem ignoreLoop_iff (db s : List UInt8) : ignoreLoop db s = true ↔ ∃ t ∈ items s, sameName db t = true := by
  fun_induction ignoreLoop db s with
  | case1 s h => simp [items_strtok s, h]
  | case2 s t r h ih => simp [items_strtok s, h, ih]

theorem isIgnoreDb_iff (list db : List UInt8) : isIgnoreDb list db = true ↔ ∃ t ∈ items list, sameName db t = true := by
  unfold isIgnoreDb
  split_ifs with h
  · have hempty : ∀ t ∈ items list, sameName db t = false := by
      intro t ht
      simpa [h, sameName] using (mem_filter.mp ht).2
    simpa using hempty
  · exact ignoreLoop_iff db list

/-- The database of the statement is looked up. -/
def Command.hasDb : Command → Bool
  | .createUser | .dropUser | .alterUser | .renameUser | .revokeAll | .revoke | .grant | .alterDb => false
  | _ => true

theorem currentDb_eq_omitted_iff (n : Names) (s : Session) : n.currentDb s = .omitted ↔ n.command.hasDb = false := by
  unfold Names.currentDb Statement.useDb Names.statement
  cases n.command
  case createEvent | alterEvent | dropEvent | createProcedure | createSpfunction | alterProcedure | dropProcedure |
      createFunction | alterFunction | dropFunction | createTrigger | dropTrigger =>
    cases s.db <;> cases n.spheadDb <;> simp [Command.hasDb]
  all_goals simp [Command.hasDb]

/-- **A statement is forwarded** exactly if the option is on and no database is looked up for it, or one that is found and is
no item of the list, without regard to case. -/
theorem isDdlByCtl_iff (n : Names) (s : Session) (ddlExecuteByCtl : Bool) (list : List UInt8) :
    n.isDdlByCtl s ddlExecuteByCtl list = some true ↔ ddlExecuteByCtl = true ∧
      (n.command.hasDb = false ∨ ∃ db, n.currentDb s = .name db ∧ ∀ t ∈ items list, sameName db t = false) := by
  have hlisted (db : List UInt8) : (!isIgnoreDb list db) = true ↔ ∀ t ∈ items list, sameName db t = false := by
    rw [Bool.not_eq_true', ← Bool.not_eq_true, isIgnoreDb_iff]
    simp
  rw [← currentDb_eq_omitted_iff n s, Names.isDdlByCtl]
  cases ddlExecuteByCtl with
  | false => simp
  | true =>
    cases n.currentDb s with
    | omitted => simp [isIgnoreDb]
    | nullDeref => simp
    | name db => simp [hlisted]

end TSpider.Ddl

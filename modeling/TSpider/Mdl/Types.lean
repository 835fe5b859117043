import Mathlib.Logic.Embedding.Basic
import TSpider.Lib.BitSet
import TSpider.Mdl.Key

/-!
# Types of metadata locks

Which types exclude one another is kept in a matrix for each of the two kinds of locks: a request waits for granted tickets of
the types in its row.
-/

namespace TSpider.Mdl
open Lib

inductive MdlType
  | userXaSwitchS | userXaSwitchX | intentionExclusive | shared | sharedHighPrio | sharedRead | sharedWrite | sharedUpgradable
  | sharedReadOnly | sharedNoWrite | sharedNoReadWrite | exclusive
  deriving DecidableEq

inductive Duration
  | statement | transaction | explicit
  deriving DecidableEq

def Duration.order : Duration → List Duration
  | .statement => [.statement, .transaction, .explicit]
  | .transaction => [.transaction, .explicit, .statement]
  | .explicit => [.explicit, .statement, .transaction]

abbrev Bitmap := BitVec 16

def MdlType.code : MdlType → Fin 16
  | .userXaSwitchS => 0 | .userXaSwitchX => 1 | .intentionExclusive => 2 | .shared => 3 | .sharedHighPrio => 4
  | .sharedRead => 5 | .sharedWrite => 6 | .sharedUpgradable => 7 | .sharedReadOnly => 8 | .sharedNoWrite => 9
  | .sharedNoReadWrite => 10 | .exclusive => 11

theorem MdlType.code_injective : Function.Injective MdlType.code := by
  intro a b h
  cases a <;> cases b <;> first | rfl | exact absurd h (by decide)

def MdlType.embedding : MdlType ↪ Fin 16 := ⟨MdlType.code, MdlType.code_injective⟩

def bitmapOf (l : List MdlType) : Bitmap := BitSet.ofList MdlType.embedding l

inductive Strategy
  | scoped | object
  deriving DecidableEq

def Strategy.grantedTypes : Strategy → MdlType → List MdlType
  | .scoped, .intentionExclusive => [.exclusive, .shared]
  | .scoped, .shared => [.exclusive, .intentionExclusive]
  | .scoped, .exclusive => [.exclusive, .shared, .intentionExclusive]
  | .scoped, _ => []
  | .object, .userXaSwitchS => [.userXaSwitchX]
  | .object, .userXaSwitchX => [.userXaSwitchS, .userXaSwitchX]
  | .object, .intentionExclusive => []
  | .object, .shared => [.exclusive]
  | .object, .sharedHighPrio => [.exclusive]
  | .object, .sharedRead => [.exclusive, .sharedNoReadWrite]
  | .object, .sharedWrite => [.exclusive, .sharedNoReadWrite, .sharedNoWrite, .sharedReadOnly]
  | .object, .sharedUpgradable => [.exclusive, .sharedNoReadWrite, .sharedNoWrite, .sharedUpgradable]
  | .object, .sharedReadOnly => [.exclusive, .sharedNoReadWrite, .sharedWrite]
  | .object, .sharedNoWrite => [.exclusive, .sharedNoReadWrite, .sharedNoWrite, .sharedUpgradable, .sharedWrite]
  | .object, .sharedNoReadWrite =>
    [.exclusive, .sharedNoReadWrite, .sharedNoWrite, .sharedReadOnly, .sharedUpgradable, .sharedWrite, .sharedRead]
  | .object, .exclusive =>
    [.exclusive, .sharedNoReadWrite, .sharedNoWrite, .sharedReadOnly, .sharedUpgradable, .sharedWrite, .sharedRead,
      .sharedHighPrio, .shared]

def Strategy.grantedIncompatible (s : Strategy) (t : MdlType) : Bitmap := bitmapOf (s.grantedTypes t)

def Strategy.hasStrongerOrEqualType (s : Strategy) (own t : MdlType) : Bool :=
  s.grantedIncompatible t &&& ~~~s.grantedIncompatible own = 0

end TSpider.Mdl

import Mathlib.Data.Nat.Notation
import Mathlib.Logic.Embedding.Basic

/-!
# Sets as bit vectors

The elements of a finite type have a bit each; a set of them is the vector with their bits. `ofList` is the vector of the
elements of a list, and the operations of the bit vectors are those of the sets.
-/

namespace TSpider.Lib.BitSet

variable {α : Type*} {w : ℕ} (code : α ↪ Fin w)

def bit (a : α) : BitVec w := BitVec.twoPow w (code a)

def ofList (l : List α) : BitVec w := l.foldr (fun a b => bit code a ||| b) 0

end TSpider.Lib.BitSet

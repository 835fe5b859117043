import TSpider.Pool.Servers

/-!
# What a connection key identifies

`sameTarget_iff_apart` : when equal keys mean one target.
-/

namespace TSpider.Pool
open List

/-! ## The version -/

theorem decimal_digit {v d : Nat} (hd : d ∈ Nat.digits 10 v) : ((0x30 : UInt8) + UInt8.ofNat d).toNat = 48 + d := by
  have hlt := Nat.digits_lt_base (by decide : 1 < 10) hd
  interval_cases d <;> rfl

theorem decimal_value (v : Nat) : (decimal v).foldl (fun n b => 10 * n + (b.toNat - 48)) 0 = v := by
  unfold decimal
  split_ifs with hv
  · simp [hv]
  · rw [foldl_map, foldl_reverse]
    conv_rhs => rw [← Nat.ofDigits_digits 10 v, Nat.ofDigits_eq_foldr]
    refine foldr_ext _ _ _ fun d hd n => ?_
    rw [decimal_digit hd, Nat.cast_id]
    omega

theorem decimal_injective : Function.Injective decimal := fun v w h => by
  rw [← decimal_value v, h, decimal_value]

theorem hash_notMem_decimal (v : Nat) : 0x23 ∉ decimal v := by
  unfold decimal
  split_ifs
  · decide
  · intro h
    obtain ⟨d, hd, heq⟩ := mem_map.mp h
    have := decimal_digit (mem_reverse.mp hd)
    rw [heq] at this
    have hlt : (0x23 : UInt8).toNat = 35 := rfl
    omega

theorem updateConnKey_inj {n m : Text} {v w : Nat} (h : updateConnKey n v = updateConnKey m w) : n = m ∧ v = w := by
  have hsplit : n ++ 0x23 :: decimal v = m ++ 0x23 :: decimal w := tail_eq_of_cons_eq h
  -- a longer name would have the separator of the other key, and its version would have one
  have hlen : ∀ {n m : Text} {v w : Nat}, n ++ 0x23 :: decimal v = m ++ 0x23 :: decimal w → n.length ≤ m.length := by
    intro n m v w h
    by_contra hlt
    obtain ⟨rest, rfl⟩ : m <+: n := prefix_of_prefix_length_le (prefix_append _ _)
      (h ▸ prefix_append _ _) (by omega)
    rw [append_assoc, append_cancel_left_eq] at h
    cases rest with
    | nil => simp at hlt
    | cons b rest =>
      rw [cons_append] at h
      refine hash_notMem_decimal w ?_
      rw [← tail_eq_of_cons_eq h]
      simp
  obtain ⟨rfl, htail⟩ := append_inj hsplit (le_antisymm (hlen hsplit) (hlen hsplit.symm))
  exact ⟨rfl, decimal_injective (tail_eq_of_cons_eq htail)⟩

/-! ## Tables -/

/-- A table's link: its server, the version written into the key unless it is 0, and the other connection attributes. -/
structure Link (α : Type*) where
  server : Option Text
  written : Option Nat
  attributes : α

namespace Link
variable {α : Type*}

/-- The key as `spider_create_conn_keys` and `spider_update_conn_keys` leave it. -/
def connKey (t : Link α) : Text :=
  match t.server, t.written with
  | none, _ => createConnKey []
  | some name, none => createConnKey name
  | some name, some v => updateConnKey name v

def SameTarget (a b : Link α) : Prop :=
  match a.server, b.server with
  | some n, some m => n = m ∧ a.written.getD 0 = b.written.getD 0
  | none, none => a.attributes = b.attributes
  | _, _ => False

/-- Without servers the attributes are equal; no server's name is empty, or another one with a version. -/
def Apart (a b : Link α) : Prop :=
  match a.server, a.written, b.server, b.written with
  | none, _, none, _ => a.attributes = b.attributes
  | none, _, some m, none => m ≠ []
  | some n, none, none, _ => n ≠ []
  | some n, some v, some m, none => m ≠ n ++ 0x23 :: decimal v
  | some n, none, some m, some w => n ≠ m ++ 0x23 :: decimal w
  | _, _, _, _ => True

/-- **Equal keys mean one target** exactly if the tables are apart. -/
theorem sameTarget_iff_apart (a b : Link α) : (a.connKey = b.connKey → a.SameTarget b) ↔ a.Apart b := by
  obtain ⟨s, v, x⟩ := a
  obtain ⟨t, w, y⟩ := b
  cases s with
  | none => cases t <;> cases w <;> simp [connKey, SameTarget, Apart, createConnKey, updateConnKey]
  | some n =>
    cases t with
    | none => cases v <;> simp [connKey, SameTarget, Apart, createConnKey, updateConnKey]
    | some m =>
      cases v with
      | none =>
        cases w with
        | none => simp [connKey, SameTarget, Apart, createConnKey]
        | some w =>
          simp only [connKey, SameTarget, Apart, createConnKey, updateConnKey, List.cons.injEq, true_and]
          refine ⟨fun h heq => ?_, fun h heq => absurd heq h⟩
          simp [(h heq).1] at heq
      | some v =>
        cases w with
        | none =>
          simp only [connKey, SameTarget, Apart, createConnKey, updateConnKey, List.cons.injEq, true_and]
          refine ⟨fun h heq => ?_, fun h heq => absurd heq.symm h⟩
          simp [(h heq.symm).1] at heq
        | some w =>
          simp only [connKey, SameTarget, Apart, iff_true]
          exact updateConnKey_inj

/-- Two tables without a server on different hosts have the key `0`; version 5 of one server has the key of a server named
with `#5`. -/
theorem not_sameTarget :
    ((⟨none, none, 1⟩ : Link Nat).connKey = (⟨none, none, 2⟩ : Link Nat).connKey ∧
      ¬(⟨none, none, 1⟩ : Link Nat).SameTarget ⟨none, none, 2⟩) ∧
    (⟨some [0x61], some 5, 1⟩ : Link Nat).connKey = (⟨some [0x61, 0x23, 0x35], none, 1⟩ : Link Nat).connKey ∧
      ¬(⟨some [0x61], some 5, 1⟩ : Link Nat).SameTarget ⟨some [0x61, 0x23, 0x35], none, 1⟩ := by
  refine ⟨⟨rfl, ?_⟩, by simp [connKey, createConnKey, updateConnKey, decimal], ?_⟩ <;> simp [SameTarget]

end Link

end TSpider.Pool

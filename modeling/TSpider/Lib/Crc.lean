import Mathlib.Logic.Function.Iterate
import Mathlib.Data.BitVec

/-!
# CRC-32

The checksum of a byte string, computed from a register that takes the bytes one after another. It
can be computed in pieces (`crc32_append`). Each step of the register is injective, so two strings
that differ in one byte have different checksums (`crc32_byte_inj`).
-/

namespace TSpider.Lib.Crc

def poly : BitVec 32 := 0xEDB88320#32

variable (c : BitVec 32)

def bitStep : BitVec 32 :=
  if c.getLsbD 0 then (c >>> 1) ^^^ poly else c >>> 1

def byteStep (b : UInt8) : BitVec 32 :=
  bitStep^[8] (c ^^^ b.toBitVec.setWidth 32)

def crc32 (bs : List UInt8) : BitVec 32 := ~~~ (bs.foldl byteStep (~~~ c))

theorem crc32_append (a b : List UInt8) : crc32 (crc32 c a) b = crc32 c (a ++ b) := by
  simp [crc32, List.foldl_append]

theorem foldl_crc32 (pieces : List (List UInt8)) : pieces.foldl crc32 c = crc32 c pieces.flatten := by
  induction pieces generalizing c with
  | nil => simp [crc32]
  | cons p ps ih => rw [List.foldl_cons, ih, crc32_append, List.flatten_cons]

-- The bit that is shifted out comes back as the register's highest bit, since the polynomial has it.
theorem bitStep_high : (bitStep c).getLsbD 31 = c.getLsbD 0 := by
  unfold bitStep
  cases h : c.getLsbD 0 <;> simp [poly]

theorem bitStep_injective : Function.Injective bitStep := by
  intro c d h
  have hlow : c.getLsbD 0 = d.getLsbD 0 := by rw [← bitStep_high, h, bitStep_high]
  have hshift : c >>> 1 = d >>> 1 := by
    unfold bitStep at h
    rw [hlow] at h
    split at h
    · exact (BitVec.xor_left_inj _).mp h
    · exact h
  apply BitVec.eq_of_getLsbD_eq
  intro i hi
  cases i with
  | zero => exact hlow
  | succ i =>
    have hbit := congrArg (fun x => x.getLsbD i) hshift
    simpa [BitVec.getLsbD_ushiftRight, Nat.add_comm] using hbit

theorem byteStep_injective (b : UInt8) : Function.Injective (byteStep · b) := by
  intro c d h
  have hxor := bitStep_injective.iterate 8 h
  exact (BitVec.xor_left_inj _).mp hxor

theorem byteStep_byte_inj {c : BitVec 32} {a b : UInt8} (h : byteStep c a = byteStep c b) : a = b := by
  have hxor := bitStep_injective.iterate 8 h
  have hwide : a.toBitVec.setWidth 32 = b.toBitVec.setWidth 32 := (BitVec.xor_right_inj _).mp hxor
  have hnat := congrArg BitVec.toNat hwide
  exact UInt8.toBitVec_inj.mp (BitVec.eq_of_toNat_eq hnat)

theorem foldl_byteStep_injective (bs : List UInt8) : Function.Injective (bs.foldl byteStep) := by
  induction bs with
  | nil => exact fun _ _ h => h
  | cons b bs ih => exact fun c d h => byteStep_injective b (ih h)

theorem crc32_byte_inj {c : BitVec 32} {l r : List UInt8} {a b : UInt8}
    (h : crc32 c (l ++ a :: r) = crc32 c (l ++ b :: r)) : a = b := by
  simp only [crc32, List.foldl_append, List.foldl_cons, BitVec.not_inj] at h
  exact byteStep_byte_inj (foldl_byteStep_injective r h)

end TSpider.Lib.Crc

import Mathlib.Algebra.GroupWithZero.Nat
import Mathlib.Data.Nat.Basic
import Mathlib.Data.UInt
import Mathlib.Order.Basic

/-!
# Global transaction ids

The `gtrid` that `spider_internal_start_trx` gives to an internal XA transaction, for both values of
`spider_internal_xa_id_type`. With type 0 two numbers of any width stand side by side; no two ids are equal all the same,
because neither number ever gets shorter (`gtrids_nodup`).

`spider_db_append_xid_str` writes an xid into the `XA` statements for a shard, which reads it by the rules for hexadecimal
literals and for the format number (`xid_readBack_iff`).
-/

namespace TSpider.Xa

/-- What a call reads: `my_interval_timer`, `spider_xid_gtrid`, and the ids of the thread and of its query. -/
structure IdSource where
  timer : UInt64
  counter : UInt64
  threadId : UInt64
  queryId : UInt64

/-- `%llx`. -/
def hex (n : UInt64) : List Char := Nat.toDigits 16 n.toNat

/-- `%016llx`. -/
def paddedHex (n : UInt64) : List Char := (hex n).leftpad 16 '0'

def gtrid (idType : Nat) (c : IdSource) : List Char :=
  if idType = 0 then hex c.timer ++ hex c.counter else hex c.threadId ++ paddedHex c.queryId

/-- `b` is read after `a`. -/
def IdSource.Before (a b : IdSource) : Prop := a.timer ≤ b.timer ∧ a.counter < b.counter ∧ a.queryId < b.queryId

def hexValue (l : List Char) : Nat := l.foldl (fun n c => 16 * n + "0123456789abcdef".toList.idxOf c) 0

theorem hexValue_toDigits (n : Nat) : hexValue (Nat.toDigits 16 n) = n := by
  have hdigit : ∀ d < 16, "0123456789abcdef".toList.idxOf (Nat.digitChar d) = d := by decide
  induction n using Nat.strong_induction_on with
  | _ n ih =>
    rw [Nat.toDigits_eq_if (by decide)]
    split_ifs with hn
    · simpa [hexValue] using hdigit n hn
    · have hdiv := ih (n / 16) (by omega)
      unfold hexValue at hdiv ⊢
      rw [List.foldl_append, hdiv, List.foldl_cons, List.foldl_nil, hdigit _ (Nat.mod_lt n (by decide))]
      omega

theorem hexValue_zeros (k : Nat) (l : List Char) : hexValue (List.replicate k '0' ++ l) = hexValue l := by
  induction k with
  | zero => rfl
  | succ k ih => exact ih

theorem hex_injective : Function.Injective hex := by
  intro m n h
  have hvalue := congrArg hexValue h
  rwa [hex, hex, hexValue_toDigits, hexValue_toDigits, UInt64.toNat_inj] at hvalue

theorem paddedHex_injective : Function.Injective paddedHex := by
  intro m n h
  have hvalue := congrArg hexValue h
  rwa [paddedHex, paddedHex, List.leftpad, List.leftpad, hexValue_zeros, hexValue_zeros, hex, hex, hexValue_toDigits,
    hexValue_toDigits, UInt64.toNat_inj] at hvalue

theorem hex_length_le {m n : UInt64} (h : m.toNat ≤ n.toNat) : (hex m).length ≤ (hex n).length := by
  have hpos : 0 < (hex n).length := Nat.length_toDigits_pos
  refine (Nat.length_toDigits_le_iff (by decide) hpos).mpr (lt_of_le_of_lt h ?_)
  exact (Nat.length_toDigits_le_iff (by decide) hpos).mp le_rfl

theorem paddedHex_length (n : UInt64) : (paddedHex n).length = 16 := by
  have hle : (hex n).length ≤ 16 := (Nat.length_toDigits_le_iff (by decide) (by decide)).mpr n.toNat_lt
  rw [paddedHex, List.length_leftpad, max_eq_left hle]

theorem gtrid_ne {a b : IdSource} (h : a.Before b) (idType : Nat) : gtrid idType a ≠ gtrid idType b := by
  obtain ⟨htimer, hcounter, hquery⟩ := h
  intro heq
  unfold gtrid at heq
  split_ifs at heq
  · -- neither number is shorter in `b`, so both have the same length
    have hlen := congrArg List.length heq
    have hfirst := hex_length_le (UInt64.le_iff_toNat_le.mp htimer)
    have hsecond := hex_length_le (UInt64.lt_iff_toNat_lt.mp hcounter).le
    simp only [List.length_append] at hlen
    obtain ⟨-, hsame⟩ := List.append_inj heq (by omega)
    exact UInt64.ne_of_lt hcounter (hex_injective hsame)
  · obtain ⟨-, hsame⟩ := List.append_inj' heq ((paddedHex_length _).trans (paddedHex_length _).symm)
    exact UInt64.ne_of_lt hquery (paddedHex_injective hsame)

/-- **The ids of internal transactions are pairwise distinct**, with either type. -/
theorem gtrids_nodup (idType : Nat) (calls : List IdSource) (h : calls.Pairwise IdSource.Before) :
    (calls.map (gtrid idType)).Nodup :=
  List.pairwise_map.mpr (h.imp fun h => gtrid_ne h idType)

/-- Two calls in which the digits of the first timer go on as those of the counter. -/
theorem gtrids_nodup_two : [(⟨0x12, 0x3, 7, 1⟩ : IdSource), ⟨0x123, 0x4, 7, 2⟩].Pairwise IdSource.Before ∧
    ([⟨0x12, 0x3, 7, 1⟩, ⟨0x123, 0x4, 7, 2⟩].map (gtrid 0)).Nodup :=
  ⟨by unfold IdSource.Before; decide, gtrids_nodup 0 _ (by unfold IdSource.Before; decide)⟩

/-! ## The text of an xid -/

section XidText
open List

structure XidData where
  /-- The bits of the `long`. -/
  formatId : UInt64
  gtrid : List UInt8
  bqual : List UInt8
  deriving DecidableEq

def digUpper (d : Nat) : Char := "0123456789ABCDEF".toList.getD d '0'

def hexOf (bs : List UInt8) : List Char := bs.flatMap fun b => [digUpper (b.toNat / 16), digUpper (b.toNat % 16)]

def appendHexString (bs : List UInt8) : List Char := if bs = [] then ['\x27', '\x27'] else '0' :: 'x' :: hexOf bs

/-- `0x%lx` -/
def formatText (formatId : UInt64) : List Char := '0' :: 'x' :: hex formatId

def appendXidStr (x : XidData) : List Char :=
  appendHexString x.gtrid ++ ',' :: (appendHexString x.bqual ++ ',' :: formatText x.formatId)

/-- The text and its NUL are inside `format_id`. -/
def FormatFits (formatId : UInt64) : Prop := (formatText formatId).length + 1 ≤ 8 + 3

def isXdigit (c : Char) : Bool := c.toLower ∈ "0123456789abcdef".toList

/-- The bytes of a hexadecimal literal. -/
def literalBytes : List Char → List UInt8
  | a :: b :: ds => UInt8.ofNat (hexValue [a.toLower, b.toLower]) :: literalBytes ds
  | _ => []

/-- A literal or an empty text between quotes, and the rest; an odd number of digits gets a zero before them. -/
def textString : List Char → Option (List UInt8 × List Char)
  | '\x27' :: '\x27' :: s => some ([], s)
  | '0' :: 'x' :: s =>
    let ds := s.takeWhile isXdigit
    if ds = [] then none else some (literalBytes (if ds.length % 2 = 0 then ds else '0' :: ds), s.dropWhile isXdigit)
  | _ => none

/-- `strtol` of a literal. -/
def ulongNum : List Char → Option UInt64
  | '0' :: 'x' :: s =>
    if s = [] ∨ !s.all isXdigit then none else some (UInt64.ofNat (min (2 ^ 63 - 1) (hexValue (s.map Char.toLower))))
  | _ => none

def comma : List Char → Option (List Char)
  | ',' :: s => some s
  | _ => none

def readXid (s : List Char) : Option XidData := do
  let (gtrid, s) ← textString s
  let s ← comma s
  let (bqual, s) ← textString s
  let s ← comma s
  let formatId ← ulongNum s
  return ⟨formatId, gtrid, bqual⟩

theorem digUpper_spec : ∀ d < 16, isXdigit (digUpper d) = true ∧
    "0123456789abcdef".toList.idxOf (digUpper d).toLower = d := by
  decide

theorem literalBytes_hexOf (bs : List UInt8) : literalBytes (hexOf bs) = bs ∧ (hexOf bs).all isXdigit ∧
    (hexOf bs).length % 2 = 0 := by
  induction bs with
  | nil => exact ⟨rfl, rfl, rfl⟩
  | cons b bs ih =>
    obtain ⟨ih1, ih2, ih3⟩ := ih
    have hb := b.toNat_lt
    obtain ⟨hx1, hv1⟩ := digUpper_spec (b.toNat / 16) (by omega)
    obtain ⟨hx2, hv2⟩ := digUpper_spec (b.toNat % 16) (by omega)
    have hvalue : hexValue [(digUpper (b.toNat / 16)).toLower, (digUpper (b.toNat % 16)).toLower] = b.toNat := by
      rw [hexValue, foldl_cons, foldl_cons, foldl_nil, hv1, hv2]
      omega
    refine ⟨?_, ?_, ?_⟩
    · rw [hexOf, flatMap_cons, cons_append, singleton_append, literalBytes, hvalue, ← hexOf, ih1, UInt8.ofNat_toNat]
    · rw [hexOf, flatMap_cons, all_append, ← hexOf, ih2]
      simp [hx1, hx2]
    · rw [hexOf, flatMap_cons, length_append, ← hexOf]
      simp [ih3]

theorem textString_append (bs : List UInt8) (s : List Char) : textString (appendHexString bs ++ ',' :: s) =
    some (bs, ',' :: s) := by
  obtain ⟨hbytes, hdigits, heven⟩ := literalBytes_hexOf bs
  have hcomma : isXdigit ',' = false := by decide
  rw [all_eq_true] at hdigits
  unfold appendHexString
  split_ifs with hbs
  · rw [hbs]
    rfl
  · have hne : hexOf bs ≠ [] := by
      obtain ⟨b, bs, rfl⟩ := exists_cons_of_ne_nil hbs
      simp [hexOf]
    simp only [textString, cons_append, takeWhile_append_of_pos hdigits, dropWhile_append_of_pos hdigits, takeWhile_cons,
      dropWhile_cons, hcomma, Bool.false_eq_true, if_false, append_nil, hne, heven, if_true, hbytes]

theorem toDigits_lower (n : Nat) : ∀ c ∈ Nat.toDigits 16 n, c.toLower = c ∧ isXdigit c = true := by
  have hdigit : ∀ d < 16, (Nat.digitChar d).toLower = Nat.digitChar d ∧ isXdigit (Nat.digitChar d) = true := by decide
  induction n using Nat.strong_induction_on with
  | _ n ih =>
    rw [Nat.toDigits_eq_if (by decide)]
    split_ifs with hn
    · simpa using hdigit n hn
    · intro c hc
      rcases mem_append.mp hc with hc | hc
      · exact ih (n / 16) (by omega) c hc
      · rw [mem_singleton.mp hc]
        exact hdigit _ (Nat.mod_lt n (by decide))

theorem ulongNum_formatText (f : UInt64) : ulongNum (formatText f) = some (UInt64.ofNat (min (2 ^ 63 - 1) f.toNat)) := by
  have hlower : (hex f).map Char.toLower = hex f :=
    (map_congr_left fun c hc => (toDigits_lower f.toNat c hc).1).trans (map_id' _)
  have hdigits : (hex f).all isXdigit = true := all_eq_true.mpr fun c hc => (toDigits_lower f.toNat c hc).2
  have hne : hex f ≠ [] := ne_nil_of_length_pos Nat.length_toDigits_pos
  simp only [formatText, ulongNum, hne, hdigits, hlower, Bool.not_true, Bool.false_eq_true, or_self, if_false]
  rw [hex, hexValue_toDigits]

theorem formatFits_iff (f : UInt64) : FormatFits f ↔ f.toNat < 2 ^ 32 := by
  have hlen := Nat.length_toDigits_le_iff (b := 16) (n := f.toNat) (k := 8) (by decide) (by decide)
  rw [FormatFits, formatText, length_cons, length_cons, hex]
  omega

/-- **An xid is read back and its format number stays in its buffer** exactly if the number is below `2 ^ 32`. -/
theorem xid_readBack_iff (x : XidData) :
    (readXid (appendXidStr x) = some x ∧ FormatFits x.formatId) ↔ x.formatId.toNat < 2 ^ 32 := by
  have hread : readXid (appendXidStr x) = some ⟨UInt64.ofNat (min (2 ^ 63 - 1) x.formatId.toNat), x.gtrid, x.bqual⟩ := by
    simp [readXid, appendXidStr, textString_append, comma, ulongNum_formatText]
  rw [hread, formatFits_iff, and_iff_right_iff_imp]
  intro h
  rw [min_eq_right (by omega), UInt64.ofNat_toNat]

/-- Format number `2 ^ 32` takes nine digits, one more than there is room for, and -1 is read back differently. -/
theorem xid_not_readBack : ¬ FormatFits (2 ^ 32) ∧ readXid (appendXidStr ⟨-1, [1], []⟩) = some ⟨2 ^ 63 - 1, [1], []⟩ := by
  unfold FormatFits
  decide

end XidText
end TSpider.Xa

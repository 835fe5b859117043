import Mathlib.Data.List.Basic
import Mathlib.Tactic

/-!
# String literals: writing and reading

A string goes to a shard between single quotes, escaped by `escape_string_for_mysql`. The shard's lexer finds the end of the
literal in `get_text` and replaces the escapes in `my_unescape`. All three ask the character set for the length of the
character that starts at a byte, each with its own end of the text.

The first argument of each loop is the number of bytes of a multi-byte character that are still to be copied.
-/

namespace TSpider.Literal

def backslash : UInt8 := 0x5c

def quote : UInt8 := 0x27

/-! ## Character sets -/

/-- A character set: the length of its longest character, and `charlen`, the length of the character that starts a text, not
positive if none does (`MY_CS_ILSEQ`, `MY_CS_TOOSMALLN`). -/
structure Charset where
  mbmaxlen : Nat
  charlen : List UInt8 → Int
  charlen_le : ∀ s, charlen s ≤ s.length
  charlen_append : ∀ s t, 1 ≤ charlen s → charlen (s.take (charlen s).toNat ++ t) = charlen s

variable (cs : Charset)

def Charset.useMb : Bool := 1 < cs.mbmaxlen

/-- The length that the writer tests: `my_charlen`, or 1 in a single-byte set. -/
def Charset.writtenLength (s : List UInt8) : Int := if cs.useMb then cs.charlen s else 1

/-- The length that the reader tests: `my_ismbchar`, or 0 in a single-byte set. -/
def Charset.ismbchar (s : List UInt8) : Nat :=
  if cs.useMb && decide (1 < cs.charlen s) then (cs.charlen s).toNat else 0

/-! ## Writing -/

/-- The `switch` of `escape_string_for_mysql`: the letter after the backslash, if the byte is escaped. -/
def escapeLetter (c : UInt8) : Option UInt8 :=
  match c with
  | 0x00 => some 0x30
  | 0x0a => some 0x6e
  | 0x0d => some 0x72
  | 0x5c => some 0x5c
  | 0x27 => some 0x27
  | 0x22 => some 0x22
  | 0x1a => some 0x5a
  | _ => none

/-- The variable `escape` for the byte `c` of a character of length `l ≤ 1`; a byte that starts no character is escaped by
itself.
-/
def escapeByte (l : Int) (c : UInt8) : Option UInt8 :=
  if l < 1 then (if c = 0 then none else some c) else escapeLetter c

/-- The loop of `escape_string_for_mysql` with `room` bytes up to `to_end`; `none` is the overflow. -/
def escapeLoop (cs : Charset) : Nat → Nat → List UInt8 → Option (List UInt8)
  | _, _, [] => some []
  | k + 1, room, c :: s => (escapeLoop cs k room s).map (c :: ·)
  | 0, room, c :: s =>
    if 1 < cs.writtenLength (c :: s) then
      if room < (cs.writtenLength (c :: s)).toNat then none
      else (escapeLoop cs ((cs.writtenLength (c :: s)).toNat - 1)
        (room - (cs.writtenLength (c :: s)).toNat) s).map (c :: ·)
    else
      match escapeByte (cs.writtenLength (c :: s)) c with
      | some e => if room < 2 then none else (escapeLoop cs 0 (room - 2) s).map (backslash :: e :: ·)
      | none => if room < 1 then none else (escapeLoop cs 0 (room - 1) s).map (c :: ·)

/-- `escape_string_for_mysql`; a length 0 of the buffer means that it is big enough. -/
def escapeStringForMysql (toLength : Nat) (s : List UInt8) : Option (List UInt8) :=
  escapeLoop cs 0 (if toLength = 0 then 2 * s.length else toLength - 1) s

def literalValue (isLike : Bool) (value : List UInt8) : List UInt8 := value ++ if isLike then [0x25] else []

def appendColumnValue (isLike : Bool) (value : List UInt8) : Option (List UInt8) :=
  (escapeStringForMysql cs 0 (literalValue isLike value)).map fun text => quote :: text ++ [quote]

/-! ## Reading -/

/-- What `my_unescape` writes for the byte after a backslash. -/
def unescapeByte (d : UInt8) : List UInt8 :=
  match d with
  | 0x6e => [0x0a]
  | 0x74 => [0x09]
  | 0x72 => [0x0d]
  | 0x62 => [0x08]
  | 0x30 => [0x00]
  | 0x5a => [0x1a]
  | 0x5f => [backslash, 0x5f]
  | 0x25 => [backslash, 0x25]
  | d => [d]

/-- `my_unescape` with backslash escapes; `none` where it would run beyond the end, after a single separator. -/
def myUnescape (cs : Charset) (sep : UInt8) : Nat → List UInt8 → Option (List UInt8)
  | _, [] => some []
  | k + 1, c :: s => (myUnescape cs sep k s).map (c :: ·)
  | 0, c :: s =>
    if cs.ismbchar (c :: s) ≠ 0 then (myUnescape cs sep (cs.ismbchar (c :: s) - 1) s).map (c :: ·)
    else if c = backslash then
      match s with
      | [] => some [c]
      | d :: s' => (myUnescape cs sep 0 s').map (unescapeByte d ++ ·)
    else if c = sep then
      match s with
      | [] => none
      | _ :: s' => (myUnescape cs sep 0 s').map (c :: ·)
    else (myUnescape cs sep 0 s).map (c :: ·)

/-- What the loop of `get_text` has found: the text up to the separator, whether it has escapes, and the rest of the query. -/
structure Found where
  text : List UInt8
  escape : Bool
  rest : List UInt8
  deriving DecidableEq

def scanText (cs : Charset) (sep : UInt8) : Nat → List UInt8 → Option Found
  | _, [] => none
  | k + 1, c :: s => (scanText cs sep k s).map fun f => { f with text := c :: f.text }
  | 0, c :: s =>
    if cs.ismbchar (c :: s) ≠ 0 then
      (scanText cs sep (cs.ismbchar (c :: s) - 1) s).map fun f => { f with text := c :: f.text }
    else if c = backslash then
      match s with
      | [] => none
      | d :: s' => (scanText cs sep 0 s').map fun f => { f with text := c :: d :: f.text, escape := true }
    else if c = sep then
      match s with
      | [] => some ⟨[], false, []⟩
      | d :: s' =>
        if d = sep then (scanText cs sep 0 s').map fun f => { f with text := c :: d :: f.text, escape := true }
        else some ⟨[], false, d :: s'⟩
    else (scanText cs sep 0 s).map fun f => { f with text := c :: f.text }

/-! The loops at a multi-byte character, at an escape, and at any other byte but the separator. -/

section Loops

variable {cs : Charset} {sep c : UInt8} {s : List UInt8}

theorem myUnescape_multi (h : cs.ismbchar (c :: s) ≠ 0) :
    myUnescape cs sep 0 (c :: s) = (myUnescape cs sep (cs.ismbchar (c :: s) - 1) s).map (c :: ·) := by
  rw [myUnescape.eq_def]
  simp only [if_pos h]

theorem myUnescape_escape (d : UInt8) (h : cs.ismbchar (backslash :: d :: s) = 0) :
    myUnescape cs sep 0 (backslash :: d :: s) = (myUnescape cs sep 0 s).map (unescapeByte d ++ ·) := by
  rw [myUnescape.eq_def]
  simp only [h, ne_eq, not_true_eq_false, if_false, if_true]

theorem myUnescape_plain (h : cs.ismbchar (c :: s) = 0) (hb : c ≠ backslash) (hs : c ≠ sep) :
    myUnescape cs sep 0 (c :: s) = (myUnescape cs sep 0 s).map (c :: ·) := by
  rw [myUnescape.eq_def]
  simp only [h, ne_eq, not_true_eq_false, if_false, if_neg hb, if_neg hs]

theorem scanText_multi (h : cs.ismbchar (c :: s) ≠ 0) : scanText cs sep 0 (c :: s) =
    (scanText cs sep (cs.ismbchar (c :: s) - 1) s).map fun f => { f with text := c :: f.text } := by
  rw [scanText.eq_def]
  simp only [if_pos h]

theorem scanText_escape (d : UInt8) (h : cs.ismbchar (backslash :: d :: s) = 0) : scanText cs sep 0 (backslash :: d :: s) =
      (scanText cs sep 0 s).map fun f => { f with text := backslash :: d :: f.text, escape := true } := by
  rw [scanText.eq_def]
  simp only [h, ne_eq, not_true_eq_false, if_false, if_true]

theorem scanText_plain (h : cs.ismbchar (c :: s) = 0) (hb : c ≠ backslash) (hs : c ≠ sep) :
    scanText cs sep 0 (c :: s) = (scanText cs sep 0 s).map fun f => { f with text := c :: f.text } := by
  rw [scanText.eq_def]
  simp only [h, ne_eq, not_true_eq_false, if_false, if_neg hb, if_neg hs]

theorem scanText_close (h : cs.ismbchar (sep :: s) = 0) (hb : sep ≠ backslash) (hs : s.head? ≠ some sep) :
    scanText cs sep 0 (sep :: s) = some ⟨[], false, s⟩ := by
  rw [scanText.eq_def]
  simp only [h, ne_eq, not_true_eq_false, if_false, if_neg hb, if_true]
  cases s with
  | nil => rfl
  | cons d s => simp only [if_neg (show d ≠ sep by simpa using hs)]

end Loops

def getText (sep : UInt8) (s : List UInt8) : Option (List UInt8 × List UInt8) :=
  (scanText cs sep 0 s).bind fun f =>
    if f.escape then (myUnescape cs sep 0 f.text).map (·, f.rest) else some (f.text, f.rest)

def lexString : List UInt8 → Option (List UInt8 × List UInt8)
  | [] => none
  | c :: s => if c = quote then getText cs c s else none

/-- The literal for `value` is read, before any `rest` of the query, as that value and ends where it was ended. -/
def Denoted (isLike : Bool) (value rest : List UInt8) : Prop :=
  ∃ text, appendColumnValue cs isLike value = some text ∧
    lexString cs (text ++ rest) = some (literalValue isLike value, rest)

/-! ## The character sets of the server -/

/-- `IS_8BIT_CHAR`, `IS_MB2_CHAR`, `IS_MB3_CHAR` and `IS_MB4_CHAR` of `ctype-mb.ic`, false where the set has no such
characters. -/
structure CharTests where
  mbmaxlen : Nat
  is8bit : UInt8 → Bool
  isMb2 : UInt8 → UInt8 → Bool
  isMb3 : UInt8 → UInt8 → UInt8 → Bool
  isMb4 : UInt8 → UInt8 → UInt8 → UInt8 → Bool

def CharTests.isMb1 (t : CharTests) (a : UInt8) : Bool := a < 128 || t.is8bit a

def CharTests.charlen (t : CharTests) : List UInt8 → Int
  | [] => -101
  | a :: s =>
    if t.isMb1 a = true then 1
    else match s with
      | [] => -102
      | b :: s =>
        if t.isMb2 a b = true then 2
        else match s with
          | [] => -103
          | c :: s =>
            if t.isMb3 a b c = true then 3
            else match s with
              | [] => -104
              | d :: _ => if t.isMb4 a b c d = true then 4 else 0

theorem CharTests.charlen_le (t : CharTests) (s : List UInt8) : t.charlen s ≤ s.length := by
  fun_cases CharTests.charlen t s <;> simp <;> omega

theorem CharTests.charlen_append (t : CharTests) (s r : List UInt8) (h : 1 ≤ t.charlen s) :
    t.charlen (s.take (t.charlen s).toNat ++ r) = t.charlen s := by
  fun_cases CharTests.charlen t s <;> simp_all [CharTests.charlen]

def CharTests.charset (t : CharTests) : Charset := ⟨t.mbmaxlen, t.charlen, t.charlen_le, t.charlen_append⟩

/-- GBK (`ctype-gbk.c`): the second byte of a character may be a backslash. -/
def gbk : CharTests where
  mbmaxlen := 2
  is8bit _ := false
  isMb2 a b := (0x81 ≤ a && a ≤ 0xfe) && ((0x40 ≤ b && b ≤ 0x7e) || (0x80 ≤ b && b ≤ 0xfe))
  isMb3 _ _ _ := false
  isMb4 _ _ _ _ := false

end TSpider.Literal

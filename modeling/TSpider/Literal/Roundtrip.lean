import TSpider.Literal.Lexer

/-!
# A shard reads the value that was written

The reader takes the written text apart where the writer put it together: at a multi-byte character, at an escape, whose
backslash is a character of its own, at a plain byte (`scanText_escaped`, `myUnescape_escaped`). So the literal ends at its
closing quote and gives back the bytes, valid in the character set or not.

A byte that starts no character is escaped by itself, which the reader undoes unless the byte is one of the letters that
mean something after a backslash. `literals_denoted_iff` : this is the only condition; `literals_denoted` : the character sets
of the server meet it.
-/

namespace TSpider.Literal
open List Option

variable {cs : Charset} {c e : UInt8} {s t rest : List UInt8}

def Charset.Quoting (cs : Charset) : Prop :=
  ∀ c, c < 0x20 ∨ c = 0x7f ∨ c = 0x22 ∨ c = quote ∨ c = backslash → ∀ s, cs.charlen (c :: s) = 1

/-- The bytes after a backslash that `my_unescape` replaces: `n t r b 0 Z _ %`. -/
def escapeLetters : List UInt8 := [0x6e, 0x74, 0x72, 0x62, 0x30, 0x5a, 0x5f, 0x25]

/-- The writer takes none of these letters for a byte that starts no character. -/
def Charset.LettersAreChars (cs : Charset) : Prop := ∀ c ∈ escapeLetters, ∀ s, 1 ≤ cs.writtenLength (c :: s)

/-! ## The written text -/

def escaped (cs : Charset) : Nat → List UInt8 → List UInt8
  | _, [] => []
  | k + 1, c :: s => c :: escaped cs k s
  | 0, c :: s =>
    if 1 < cs.writtenLength (c :: s) then c :: escaped cs ((cs.writtenLength (c :: s)).toNat - 1) s
    else match escapeByte (cs.writtenLength (c :: s)) c with
      | some e => backslash :: e :: escaped cs 0 s
      | none => c :: escaped cs 0 s

theorem Charset.writtenLength_le (cs : Charset) (hs : s ≠ []) : cs.writtenLength s ≤ s.length := by
  unfold Charset.writtenLength
  have := length_pos_iff.mpr hs
  split_ifs
  · exact cs.charlen_le s
  · omega

theorem escapeLoop_eq : ∀ (s : List UInt8) (k room : Nat), 2 * (s.length - k) ≤ room →
    escapeLoop cs k room s = some (escaped cs k s)
  | [], _, _, _ => by simp [escapeLoop, escaped]
  | c :: s, k + 1, room, h => by
    rw [escapeLoop, escaped, escapeLoop_eq s k room (by simpa using h), map_some]
  | c :: s, 0, room, h => by
    have hle := cs.writtenLength_le (cons_ne_nil c s)
    simp only [length_cons, Nat.cast_add, Nat.cast_one, Nat.sub_zero] at hle h
    rw [escapeLoop, escaped]
    by_cases h1 : 1 < cs.writtenLength (c :: s)
    · rw [if_pos h1, if_pos h1, if_neg (by omega), escapeLoop_eq s _ _ (by omega), map_some]
    · rw [if_neg h1, if_neg h1]
      cases escapeByte (cs.writtenLength (c :: s)) c with
      | some e | none =>
        dsimp only
        rw [if_neg (by omega), escapeLoop_eq s 0 _ (by omega), map_some]

theorem appendColumnValue_eq (isLike : Bool) (value : List UInt8) :
    appendColumnValue cs isLike value = some (quote :: escaped cs 0 (literalValue isLike value) ++ [quote]) := by
  rw [appendColumnValue, escapeStringForMysql, if_pos rfl, escapeLoop_eq _ _ _ (by omega), map_some]

theorem escaped_copy : ∀ (k : Nat) (s : List UInt8), escaped cs k s = s.take k ++ escaped cs 0 (s.drop k)
  | 0, s => by simp
  | k + 1, [] => by simp [escaped]
  | k + 1, c :: s => by rw [escaped, escaped_copy k s]; simp

/-! ## The characters of the written text -/

theorem ismbchar_single (h : cs.writtenLength (c :: s) = 1) (t : List UInt8) : cs.ismbchar (c :: t) = 0 := by
  unfold Charset.writtenLength at h
  unfold Charset.ismbchar
  split_ifs at h with hmb
  · have := cs.charlen_append (c :: s) t (by omega)
    rw [h] at this
    simp only [Int.toNat_one, take_succ_cons, take_zero, cons_append, nil_append] at this
    simp [this]
  · simp [hmb]

theorem ismbchar_multi (h : 1 < cs.writtenLength (c :: s)) (t : List UInt8) :
    cs.ismbchar (c :: escaped cs ((cs.writtenLength (c :: s)).toNat - 1) s ++ t) = (cs.writtenLength (c :: s)).toNat := by
  unfold Charset.writtenLength at h ⊢
  split_ifs at h with hmb
  · rw [if_pos hmb, escaped_copy]
    have htake : (c :: s).take (cs.charlen (c :: s)).toNat = c :: s.take ((cs.charlen (c :: s)).toNat - 1) := by
      obtain ⟨n, hn⟩ : ∃ n, (cs.charlen (c :: s)).toNat = n + 1 := ⟨(cs.charlen (c :: s)).toNat - 1, by omega⟩
      simp [hn]
    have happ := cs.charlen_append (c :: s)
      (escaped cs 0 (s.drop ((cs.charlen (c :: s)).toNat - 1)) ++ t) (by omega)
    rw [htake, cons_append, ← append_assoc] at happ
    rw [cons_append]
    unfold Charset.ismbchar
    rw [happ, hmb, Bool.true_and, if_pos (by simpa using h)]
  · omega

theorem ismbchar_backslash (hq : cs.Quoting) (t : List UInt8) : cs.ismbchar (backslash :: t) = 0 := by
  simp [Charset.ismbchar, hq backslash (by simp) t]

theorem ismbchar_quote (hq : cs.Quoting) (t : List UInt8) : cs.ismbchar (quote :: t) = 0 := by
  simp [Charset.ismbchar, hq quote (by simp) t]

theorem plain_of_escapeByte_none (hq : cs.Quoting) (hl : ¬1 < cs.writtenLength (c :: s))
    (h : escapeByte (cs.writtenLength (c :: s)) c = none) : cs.writtenLength (c :: s) = 1 ∧ c ≠ backslash ∧ c ≠ quote := by
  unfold escapeByte at h
  split_ifs at h with h1 h0
  · -- a zero byte is a character
    have : cs.writtenLength (c :: s) = 1 := by
      unfold Charset.writtenLength
      split_ifs
      · exact hq c (.inl (by rw [h0]; decide)) s
      · rfl
    omega
  · refine ⟨by omega, ?_, ?_⟩ <;> · rintro rfl; simp [escapeLetter, backslash, quote] at h

theorem unescapeByte_escape (hletters : cs.LettersAreChars) (h : escapeByte (cs.writtenLength (c :: s)) c = some e) :
    unescapeByte e = [c] := by
  unfold escapeByte at h
  split_ifs at h with h1
  · cases h
    have hc : c ∉ escapeLetters := fun hc => absurd (hletters c hc s) (by omega)
    simp only [escapeLetters, mem_cons, not_mem_nil, or_false, not_or] at hc
    simp [unescapeByte, hc]
  · revert h
    fun_cases escapeLetter c <;> intro h <;> cases h <;> rfl

/-! ## Reading it back -/

def hasEscape (cs : Charset) : Nat → List UInt8 → Bool
  | _, [] => false
  | k + 1, _ :: s => hasEscape cs k s
  | 0, c :: s =>
    if 1 < cs.writtenLength (c :: s) then hasEscape cs ((cs.writtenLength (c :: s)).toNat - 1) s
    else match escapeByte (cs.writtenLength (c :: s)) c with
      | some _ => true
      | none => hasEscape cs 0 s

theorem escaped_of_not_hasEscape : ∀ (s : List UInt8) (k : Nat), hasEscape cs k s = false → escaped cs k s = s
  | [], _, _ => by simp [escaped]
  | c :: s, k + 1, h => by
    rw [hasEscape] at h
    rw [escaped, escaped_of_not_hasEscape s k h]
  | c :: s, 0, h => by
    rw [hasEscape] at h
    rw [escaped]
    split_ifs at h ⊢
    · rw [escaped_of_not_hasEscape s _ h]
    · split at h
      · cases h
      · rw [escaped_of_not_hasEscape s 0 h]

theorem scanText_escaped (hq : cs.Quoting) (hrest : rest.head? ≠ some quote) : ∀ (s : List UInt8) (k : Nat),
    k ≤ s.length →
    scanText cs quote k (escaped cs k s ++ quote :: rest) = some ⟨escaped cs k s, hasEscape cs k s, rest⟩
  | [], k, hk => by
    obtain rfl : k = 0 := by simpa using hk
    rw [escaped, hasEscape, nil_append, scanText_close (ismbchar_quote hq _) (by decide) hrest]
  | c :: s, k + 1, hk => by
    rw [escaped, cons_append, scanText, hasEscape, scanText_escaped hq hrest s k (by simpa using hk), map_some]
  | c :: s, 0, _ => by
    have hle := cs.writtenLength_le (cons_ne_nil c s)
    simp only [length_cons, Nat.cast_add, Nat.cast_one] at hle
    rw [escaped, hasEscape]
    split_ifs with h1
    · have hmb := ismbchar_multi h1 (quote :: rest)
      rw [cons_append] at hmb ⊢
      rw [scanText_multi (by rw [hmb]; omega), hmb, scanText_escaped hq hrest s _ (by omega), map_some]
    · split
      · rw [cons_append, cons_append, scanText_escape _ (ismbchar_backslash hq _),
          scanText_escaped hq hrest s 0 (Nat.zero_le _), map_some]
      · obtain ⟨hone, hb, hne⟩ := plain_of_escapeByte_none hq h1 ‹_›
        rw [cons_append, scanText_plain (ismbchar_single hone _) hb hne,
          scanText_escaped hq hrest s 0 (Nat.zero_le _), map_some]

theorem myUnescape_escaped (hq : cs.Quoting) (hletters : cs.LettersAreChars) : ∀ (s : List UInt8) (k : Nat),
    myUnescape cs quote k (escaped cs k s) = some s
  | [], _ => by simp [escaped, myUnescape]
  | c :: s, k + 1 => by
    rw [escaped, myUnescape, myUnescape_escaped hq hletters s k, map_some]
  | c :: s, 0 => by
    rw [escaped]
    split_ifs with h1
    · have hmb := ismbchar_multi h1 []
      rw [append_nil] at hmb
      rw [myUnescape_multi (by rw [hmb]; omega), hmb, myUnescape_escaped hq hletters s _, map_some]
    · split
      · rename_i e he
        rw [myUnescape_escape _ (ismbchar_backslash hq _), myUnescape_escaped hq hletters s 0, map_some,
          unescapeByte_escape hletters he, singleton_append]
      · obtain ⟨hone, hb, hne⟩ := plain_of_escapeByte_none hq h1 ‹_›
        rw [myUnescape_plain (ismbchar_single hone _) hb hne, myUnescape_escaped hq hletters s 0, map_some]

theorem getText_escaped (hq : cs.Quoting) (hletters : cs.LettersAreChars) (hrest : rest.head? ≠ some quote)
    (s : List UInt8) : getText cs quote (escaped cs 0 s ++ quote :: rest) = some (s, rest) := by
  rw [getText, scanText_escaped hq hrest s 0 (Nat.zero_le _), bind_some]
  split_ifs with h
  · rw [myUnescape_escaped hq hletters s 0, map_some]
  · rw [escaped_of_not_hasEscape s 0 (by simpa using h)]

/-! ## A letter that starts no character -/

theorem unescapeByte_letter (hc : c ∈ escapeLetters) (r : List UInt8) : (unescapeByte c ++ r).head? ≠ some c := by
  simp only [escapeLetters, mem_cons, not_mem_nil, or_false] at hc
  rcases hc with rfl | rfl | rfl | rfl | rfl | rfl | rfl | rfl <;> simp [unescapeByte, backslash]

theorem getText_letter (hq : cs.Quoting) {value r : List UInt8}
    (h : getText cs quote (backslash :: c :: t) = some (value, r)) : ∃ u, value = unescapeByte c ++ u := by
  rw [getText, scanText_escape _ (ismbchar_backslash hq _), Option.bind_map] at h
  obtain ⟨f, -, hf⟩ := Option.bind_eq_some_iff.mp h
  simp only [Function.comp_apply, if_true] at hf
  rw [myUnescape_escape _ (ismbchar_backslash hq _), Option.map_map] at hf
  obtain ⟨u, -, hu⟩ := Option.map_eq_some_iff.mp hf
  exact ⟨u, (congrArg Prod.fst hu).symm⟩

/-- Where quotes, backslash and control characters are single bytes, literals denote the local value exactly if the letters
with a meaning after a backslash are characters. -/
theorem literals_denoted_iff (cs : Charset) (hq : cs.Quoting) :
    (∀ isLike value rest, rest.head? ≠ some quote → Denoted cs isLike value rest) ↔ cs.LettersAreChars := by
  constructor
  · intro h c hc s
    by_contra hlt
    obtain ⟨text, htext, hread⟩ := h false (c :: s) [] (by simp)
    rw [appendColumnValue_eq] at htext
    cases htext
    simp only [literalValue, Bool.false_eq_true, if_false, append_nil] at hread
    have hne : c ≠ 0 := by rintro rfl; simp [escapeLetters] at hc
    have hesc : escapeByte (cs.writtenLength (c :: s)) c = some c := by
      rw [escapeByte, if_pos (by omega), if_neg hne]
    rw [escaped, if_neg (by omega), hesc, cons_append, cons_append, lexString, if_pos rfl] at hread
    obtain ⟨u, hu⟩ := getText_letter hq hread
    exact unescapeByte_letter hc u (by rw [← hu]; rfl)
  · intro hletters isLike value rest hrest
    refine ⟨_, appendColumnValue_eq isLike value, ?_⟩
    rw [cons_append, cons_append, append_assoc, lexString, if_pos rfl]
    exact getText_escaped hq hletters hrest _

/-! ## The character sets of the server -/

theorem CharTests.charlen_ascii (t : CharTests) (hc : c < 128) (s : List UInt8) : t.charlen (c :: s) = 1 := by
  simp [CharTests.charlen, CharTests.isMb1, hc]

theorem CharTests.quoting (t : CharTests) : t.charset.Quoting := by
  intro c hc s
  refine t.charlen_ascii ?_ s
  rcases hc with h | rfl | rfl | rfl | rfl
  · exact UInt8.lt_trans h (by decide)
  all_goals decide

theorem CharTests.lettersAreChars (t : CharTests) : t.charset.LettersAreChars := by
  intro c hc s
  have hascii : c < 128 := by
    simp only [escapeLetters, mem_cons, not_mem_nil, or_false] at hc
    rcases hc with rfl | rfl | rfl | rfl | rfl | rfl | rfl | rfl <;> decide
  unfold Charset.writtenLength
  split_ifs
  · exact (t.charlen_ascii hascii s).ge
  · exact le_rfl

/-- **String literals denote the local value** in every multi-byte character set of the server, valid there or not. -/
theorem literals_denoted (t : CharTests) (isLike : Bool) (value rest : List UInt8) (h : rest.head? ≠ some quote) :
    Denoted t.charset isLike value rest :=
  (literals_denoted_iff t.charset t.quoting).mpr t.lettersAreChars isLike value rest h

/-- No character of GBK, but one with a backslash between the bytes, and a closing parenthesis behind the literal. -/
theorem literals_denoted_gbk : Denoted gbk.charset false [0xbf, 0x27] [0x29] :=
  literals_denoted gbk false [0xbf, 0x27] [0x29] (by decide)

/-! ## The buffer -/

theorem length_escaped_le : ∀ (s : List UInt8) (k : Nat), (escaped cs k s).length ≤ 2 * s.length
  | [], _ => by simp [escaped]
  | c :: s, k + 1 => by
    have := length_escaped_le s k
    simp only [escaped, length_cons]
    omega
  | c :: s, 0 => by
    have hmulti := length_escaped_le s ((cs.writtenLength (c :: s)).toNat - 1)
    have hplain := length_escaped_le s 0
    rw [escaped]
    split_ifs
    · simp only [length_cons]
      omega
    · split <;> simp only [length_cons] <;> omega

/-- **A buffer of twice the length and one byte is enough**: whatever the bytes and the character set,
`escape_string_for_mysql` does not overflow it, writes what it writes without a bound, and has room for the end mark. -/
theorem escape_never_overflows (cs : Charset) (s : List UInt8) {toLength : Nat} (h : 2 * s.length + 1 ≤ toLength) :
    ∃ text, escapeStringForMysql cs toLength s = some text ∧ escapeStringForMysql cs 0 s = some text ∧
      text.length < toLength := by
  refine ⟨escaped cs 0 s, ?_, ?_, (length_escaped_le s 0).trans_lt h⟩
  · rw [escapeStringForMysql, if_neg (by omega), escapeLoop_eq _ _ _ (by omega)]
  · rw [escapeStringForMysql, if_pos rfl, escapeLoop_eq _ _ _ (by omega)]

theorem escape_never_overflows_gbk : ∃ text, escapeStringForMysql gbk.charset 5 [0xbf, 0x27] = some text ∧
    escapeStringForMysql gbk.charset 0 [0xbf, 0x27] = some text ∧ text.length < 5 :=
  escape_never_overflows gbk.charset [0xbf, 0x27] (by decide)

end TSpider.Literal

import TSpider.Ddl.Forward
import Mathlib.Data.Bool.AllAny

/-!
# How the control node splits the text

The settings are always read as they were written. The name in the `USE` is read back exactly if it is an identifier without
quotes (`Plain`), which the lengths of the parts show.
-/

namespace TSpider.Ddl
open List

/-! ## The settings -/

def Quiet (s : List UInt8) : Prop := ∀ c ∈ s, c ≠ 0x3b ∧ c ≠ 0x27

theorem quiet_of_word {c : UInt8} (h : isWord c = true) : c ≠ 0x3b ∧ c ≠ 0x27 := by
  constructor <;> (rintro rfl; exact absurd h (by decide))

theorem cut_append {s : List UInt8} (hs : Quiet s) (q : Bool) (t : List UInt8) :
    cut q (s ++ t) = (cut q t).map fun (stmt, rest) => (s ++ stmt, rest) := by
  induction s with
  | nil => simp
  | cons c s ih =>
    have hc := hs c (by simp)
    rw [cons_append, cut, if_neg (fun h => hc.1 h.1), if_neg hc.2, ih fun c' hc' => hs c' (by simp [hc'])]
    simp [Function.comp_def]

theorem cut_quiet {s : List UInt8} (hs : Quiet s) (t : List UInt8) : cut false (s ++ 0x3b :: t) = some (s, t) := by
  rw [cut_append hs, cut, if_pos ⟨rfl, rfl⟩]
  simp

theorem cut_string {s m : List UInt8} (hs : Quiet s) (hm : Quiet m) (t : List UInt8) :
    cut false (s ++ 0x27 :: (m ++ 0x27 :: 0x3b :: t)) = some (s ++ 0x27 :: (m ++ [0x27]), t) := by
  have hclose : cut true (0x27 :: 0x3b :: t) = some ([0x27], t) := by simp [cut]
  have hopen : cut false (0x27 :: (m ++ 0x27 :: 0x3b :: t)) = some (0x27 :: (m ++ [0x27]), t) := by
    rw [cut, if_neg (by decide), if_pos rfl, Bool.not_false, cut_append hm, hclose]
    rfl
  rw [cut_append hs, hopen]
  rfl

/-- The settings are read as the three statements they are, whatever follows. -/
theorem read_settings (n : Node) (s : Session) (withUse : Bool) (t : List UInt8) :
    n.read withUse (ascii "set names " ++ s.charset.csname ++ ascii ";" ++
      (ascii "set sql_mode='" ++ s.sqlMode ++ ascii "';") ++
        ascii "set tc_admin=1;" ++ t) = if withUse then (n.readUse t).map fun (db, rest) => ⟨s.settings, some db, rest⟩
      else some ⟨s.settings, none, t⟩ := by
  have hnames : Quiet (ascii "set names " ++ s.charset.csname) := by
    intro c hc
    rcases mem_append.mp hc with h | h
    · have hfixed : Quiet (ascii "set names ") := all_iff_forall_prop.mp rfl
      exact hfixed c h
    · exact quiet_of_word (s.charset.csname_word c h)
  have hmode : Quiet s.sqlMode := by
    intro c hc
    rcases s.sqlMode_word c hc with h | rfl
    · exact quiet_of_word h
    · decide
  have hset : Quiet (ascii "set sql_mode=") := all_iff_forall_prop.mp rfl
  have hadmin : Quiet (ascii "set tc_admin=1") := all_iff_forall_prop.mp rfl
  have htext : ascii "set names " ++ s.charset.csname ++ ascii ";" ++ (ascii "set sql_mode='" ++ s.sqlMode ++ ascii "';") ++
        ascii "set tc_admin=1;" ++ t =
      (ascii "set names " ++ s.charset.csname) ++ 0x3b :: (ascii "set sql_mode=" ++ 0x27 :: (s.sqlMode ++ 0x27 :: 0x3b ::
        (ascii "set tc_admin=1" ++ 0x3b :: t))) := by
    simp [ascii]
  have hmodeText : ascii "set sql_mode=" ++ 0x27 :: (s.sqlMode ++ [0x27]) = ascii "set sql_mode='" ++
    s.sqlMode ++ ascii "'" := by
    simp [ascii]
  rw [htext, Node.read, cut_quiet hnames]
  simp only [Option.bind_eq_bind, Option.bind_some, cut_string hset hmode, cut_quiet hadmin, hmodeText]
  cases withUse
  · rfl
  · cases n.readUse t <;> rfl

/-! ## The name of the database -/

section Ident
variable (cs : Charset)

@[simp] theorem identMap_semicolon : cs.identMap 0x3b = false := by simp [Charset.identMap]; decide

@[simp] theorem isSkip_semicolon : cs.isSkip 0x3b = false := by simp [Charset.isSkip]

/-- The text is made of identifier characters; the first argument counts the bytes left of a character. -/
def identText : Nat → List UInt8 → Bool
  | k, [] => k = 0
  | k + 1, _ :: s => identText k s
  | 0, c :: s => cs.identMap c && 0 < cs.width (c :: s) && identText (cs.width (c :: s) - 1) s

variable {cs}

theorem identText_le {k : Nat} {s : List UInt8} (h : identText cs k s = true) : k ≤ s.length := by
  induction s generalizing k with
  | nil => simpa [identText] using h
  | cons c s ih =>
    cases k with
    | zero => exact Nat.zero_le _
    | succ k =>
      have := ih (by simpa [identText] using h)
      simp only [length_cons]
      omega

theorem width_append {s : List UInt8} (h : 0 < cs.width s) (t : List UInt8) : cs.width (s ++ t) = cs.width s := by
  unfold Charset.width at h ⊢
  split_ifs at h ⊢
  · have hpos : 1 ≤ cs.charlen s := by omega
    have := cs.charlen_append s (s.drop (cs.charlen s).toNat ++ t) hpos
    rw [← append_assoc, take_append_drop] at this
    rw [this]
  · rfl

theorem width_of_append {s t : List UInt8} (h : 0 < cs.width (s ++ t)) (hle : cs.width (s ++ t) ≤ s.length) :
    cs.width (s ++ t) = cs.width s := by
  unfold Charset.width at h hle ⊢
  split_ifs at h hle ⊢
  · have hpos : 1 ≤ cs.charlen (s ++ t) := by omega
    have := cs.charlen_append (s ++ t) (s.drop (cs.charlen (s ++ t)).toNat) hpos
    rw [take_append_of_le_length hle, take_append_drop] at this
    rw [this]
  · rfl

theorem takeIdent_append (k : Nat) (s : List UInt8) : (takeIdent cs k s).1 ++ (takeIdent cs k s).2 = s := by
  induction s generalizing k with
  | nil => simp [takeIdent]
  | cons c s ih =>
    cases k with
    | zero =>
      rw [takeIdent]
      split_ifs
      · simp [ih]
      · rfl
    | succ k => simp [takeIdent, ih]

/-- A name is taken as a whole, and nothing else, exactly if it is made of identifier characters. -/
theorem takeIdent_eq_iff (k : Nat) (db r : List UInt8) :
    takeIdent cs k (db ++ 0x3b :: r) = (db, 0x3b :: r) ↔ identText cs k db = true := by
  induction db generalizing k with
  | nil => cases k <;> simp [takeIdent, identText]
  | cons c db ih =>
    cases k with
    | succ k =>
      rw [cons_append, takeIdent, identText, ← ih k]
      simp [Prod.ext_iff]
    | zero =>
      rw [cons_append, takeIdent, identText]
      constructor
      · intro h
        split_ifs at h with hc
        · obtain ⟨h₁, h₂⟩ := Prod.ext_iff.mp h
          have htail := (ih _).mp (Prod.ext (List.cons.inj h₁).2 h₂)
          have hlen := identText_le htail
          rw [← cons_append] at hc htail hlen
          have hwidth := width_of_append hc.2 (by simp only [length_cons]; omega)
          rw [hwidth] at htail
          rw [hwidth] at hc
          simp [hc.1, hc.2, htail]
        · simp at h
      · intro h
        simp only [Bool.and_eq_true, decide_eq_true_eq] at h
        obtain ⟨⟨hc, hpos⟩, htail⟩ := h
        have hwidth : cs.width (c :: (db ++ 0x3b :: r)) = cs.width (c :: db) := width_append hpos (0x3b :: r)
        rw [hwidth, if_pos ⟨hc, hpos⟩, (ih _).mpr htail]

theorem readDelimited_length (q : UInt8) (k : Nat) (s : List UInt8) :
    (readDelimited cs q k s).1.length + (readDelimited cs q k s).2.length ≤ s.length := by
  fun_induction readDelimited cs q k s <;> simp_all <;> omega

/-- Nothing but the start of a text is skipped. -/
theorem skip_suffix (g : Gap) (s u : List UInt8) (h : skip cs g s = some u) : u <:+ s := by
  fun_induction skip cs g s <;> simp_all
  all_goals first
    | exact List.IsSuffix.trans (by assumption) ⟨[_], rfl⟩
    | exact List.IsSuffix.trans (by assumption) ⟨[_, _], rfl⟩

theorem skip_eq_self {c : UInt8} (hskip : cs.isSkip c = false) (hc : c ≠ 0x23 ∧ c ≠ 0x2f ∧ c ≠ 0x2d) (s : List UInt8) :
    skip cs .space (c :: s) = some (c :: s) := by
  obtain ⟨hhash, hslash, hdash⟩ := hc
  cases s with
  | nil => simp [skip, hskip, hhash]
  | cons d s => simp [skip, hskip, hhash, hslash, hdash]

theorem not_comment_of_ident {c : UInt8} (h : cs.identMap c = true) : c ≠ 0x23 ∧ c ≠ 0x2f ∧ c ≠ 0x2d := by
  refine ⟨?_, ?_, ?_⟩ <;> (rintro rfl; simp [Charset.identMap] at h; exact absurd h (by decide))

theorem skip_ident {c : UInt8} (h : cs.identMap c = true) (s : List UInt8) : skip cs .space (c :: s) = some (c :: s) :=
  skip_eq_self (by simp [Charset.isSkip, h]) (not_comment_of_ident h) s

theorem skip_semicolon (s : List UInt8) : skip cs .space (0x3b :: s) = some (0x3b :: s) :=
  skip_eq_self (isSkip_semicolon cs) (by decide) s

/-! ### Numbers -/

theorem head_any_append {p : UInt8 → Bool} (hp : p 0x3b = false) (s r : List UInt8) :
    (s ++ 0x3b :: r).head?.any p = s.head?.any p := by
  cases s <;> simp [hp]

theorem dropWhile_append_semicolon {p : UInt8 → Bool} (hp : p 0x3b = false) (s r : List UInt8) :
    (s ++ 0x3b :: r).dropWhile p = s.dropWhile p ++ 0x3b :: r := by
  induction s with
  | nil => simp [hp]
  | cons c s ih =>
    rw [cons_append, dropWhile_cons, dropWhile_cons, ih]
    split_ifs <;> rfl

theorem identEnds_append (s r : List UInt8) : identEnds cs (s ++ 0x3b :: r) = identEnds cs s := by
  rw [identEnds, identEnds, head_any_append (identMap_semicolon cs)]

theorem isDigits_append {digit : UInt8 → Bool} (hdigit : digit 0x3b = false) (s r : List UInt8) :
    isDigits cs digit (s ++ 0x3b :: r) = isDigits cs digit s := by
  rw [isDigits, isDigits, head_any_append hdigit, dropWhile_append_semicolon hdigit, identEnds_append]

theorem isDecimal_append (s r : List UInt8) : isDecimal cs (s ++ 0x3b :: r) = isDecimal cs s := by
  have hdigit : isDigit 0x3b = false := by decide
  rw [isDecimal, isDecimal, dropWhile_append_semicolon hdigit]
  cases s.dropWhile isDigit with
  | nil => simp
  | cons c t =>
    simp only [cons_append, head_any_append hdigit]
    rw [head_any_append (by decide)]
    -- the sign of an exponent may be the last byte before the semicolon
    cases t with
    | nil => simp
    | cons d t => simp only [cons_append, tail_cons, head_any_append hdigit]

/-- The separator behind a name does not change whether it is a number. -/
theorem isNumber_append {db : List UInt8} (hdb : db ≠ []) (r : List UInt8) :
    isNumber cs (db ++ 0x3b :: r) = isNumber cs db := by
  match db with
  | [c] =>
    have hx : ¬ [c, 0x3b] = ascii "0x" := fun h => by simp [ascii] at h
    have hb : ¬ [c, 0x3b] = ascii "0b" := fun h => by simp [ascii] at h
    have hx' : ¬ [c] = ascii "0x" := fun h => by simp [ascii] at h
    have hb' : ¬ [c] = ascii "0b" := fun h => by simp [ascii] at h
    simp only [isNumber, cons_append, nil_append, take_succ_cons, take_zero, take_nil, hx, hb, hx', hb', if_false]
    exact isDecimal_append [c] r
  | c :: d :: s =>
    simp only [isNumber, cons_append, take_succ_cons, take_zero, drop_succ_cons, drop_zero]
    rw [isDigits_append (by decide), isDigits_append (by decide), ← cons_append, ← cons_append, isDecimal_append]

end Ident

/-! ## The `USE` -/

/-- A name that the lexer takes without quotes: characters of identifiers, not a number, not a keyword. -/
structure Plain (n : Node) (db : List UInt8) : Prop where
  ne_nil : db ≠ []
  ident : identText n.charset 0 db = true
  word : if db.head?.any isDigit then isNumber n.charset db = false else n.isKeyword db = false

theorem Plain.head_ident {n : Node} {c : UInt8} {s : List UInt8} (h : Plain n (c :: s)) : n.charset.identMap c = true := by
  have := h.ident
  simp only [identText, Bool.and_eq_true] at this
  exact this.1.1

theorem width_ascii (cs : Charset) {c : UInt8} (hc : c < 0x80) (s : List UInt8) : cs.width (c :: s) = 1 := by
  unfold Charset.width
  split_ifs
  · rw [cs.charlen_ascii c s hc]
    rfl
  · rfl

theorem not_quote_of_ident {cs : Charset} {c : UInt8} (h : cs.identMap c = true) : c ≠ 0x60 ∧ c ≠ 0x22 := by
  constructor <;> (rintro rfl; simp [Charset.identMap] at h; exact absurd h (by decide))

/-- A quoted name is shorter than its text. -/
theorem readIdent_length {n : Node} {c : UInt8} {s name rest : List UInt8} (h : n.readIdent (c :: s) = some (name, rest)) :
    name.length + rest.length ≤ (c :: s).length ∧
      (c = 0x60 ∨ (c = 0x22 ∧ n.ansiQuotes) → name.length + rest.length < (c :: s).length) := by
  have htake : (takeIdent n.charset 0 (c :: s)).1.length + (takeIdent n.charset 0 (c :: s)).2.length = (c :: s).length := by
    rw [← length_append, takeIdent_append]
  rw [Node.readIdent] at h
  split_ifs at h with hq hdigit
  · have hlen : (readDelimited n.charset c 0 s).1.length + _ ≤ s.length := readDelimited_length c 0 s
    rw [Option.some.inj h] at hlen
    have : name.length + rest.length < (c :: s).length := Nat.lt_succ_of_le hlen
    exact ⟨this.le, fun _ => this⟩
  · rw [Option.some.inj h] at htake
    exact ⟨htake.le, fun h' => absurd h' hq⟩
  · rw [Option.some.inj h] at htake
    exact ⟨htake.le, fun h' => absurd h' hq⟩

theorem letter_lt {c : UInt8} (h : c ∈ ascii "xXbBnN") : c < 0x80 :=
  have hall : ∀ c ∈ ascii "xXbBnN", c < 0x80 := all_iff_forall_prop.mp rfl
  hall c h

theorem Plain.not_string {n : Node} {c : UInt8} {s : List UInt8} (h : Plain n (c :: s)) (hc : c < 0x80)
    (hnext : s.head?.any (· = 0x27) = true) : False := by
  have hident := h.ident
  cases s with
  | nil => simp at hnext
  | cons d s =>
    obtain rfl : d = 0x27 := by simpa using hnext
    simp [identText, width_ascii n.charset hc, Charset.identMap] at hident
    exact absurd hident.2.1.1 (by decide)

/-- The unquoted name is read back exactly if it is a plain one. -/
theorem readIdent_eq_iff (n : Node) (db r : List UInt8) :
    n.readIdent (db ++ 0x3b :: r) = some (db, 0x3b :: r) ↔ Plain n db := by
  cases db with
  | nil =>
    refine ⟨fun h => ?_, fun h => absurd rfl h.ne_nil⟩
    have hempty : (takeIdent n.charset 0 (0x3b :: r)).1 = [] := by simp [takeIdent]
    simp [Node.readIdent, hempty, isDigit] at h
  | cons c s =>
    constructor
    · intro h
      have hlen := readIdent_length h
      have hquote : ¬ (c = 0x60 ∨ (c = 0x22 ∧ n.ansiQuotes)) := fun hq => by
        have := hlen.2 hq
        simp at this
      rw [cons_append, Node.readIdent, if_neg hquote] at h
      split_ifs at h with hdigit hnumber hstring hword
      · have hident := (takeIdent_eq_iff 0 (c :: s) r).mp (Option.some.inj h)
        refine ⟨by simp, hident, ?_⟩
        rw [← cons_append, isNumber_append (by simp)] at hnumber
        simp [hdigit, hnumber]
      · have htake := Option.some.inj h
        have hident := (takeIdent_eq_iff 0 (c :: s) r).mp htake
        refine ⟨by simp, hident, ?_⟩
        rw [htake] at hword
        simp only [not_or] at hword
        simp [hdigit, hword.2]
    · intro h
      have htake : takeIdent n.charset 0 (c :: (s ++ 0x3b :: r)) = (c :: s, 0x3b :: r) :=
        (takeIdent_eq_iff 0 (c :: s) r).mpr h.ident
      have hquote := not_quote_of_ident h.head_ident
      have hword := h.word
      rw [cons_append, Node.readIdent, if_neg (by simp [hquote])]
      by_cases hdigit : isDigit c = true
      · have hnumber : isNumber n.charset (c :: (s ++ 0x3b :: r)) = false := by
          rw [← cons_append, isNumber_append (by simp)]
          simpa [hdigit] using hword
        rw [if_pos hdigit, hnumber, if_neg (by decide), htake]
      · have hkeyword : n.isKeyword (c :: s) = false := by simpa [hdigit] using hword
        have hstring : ¬ (c ∈ ascii "xXbBnN" ∧ (s ++ 0x3b :: r).head?.any (· = 0x27)) := fun hc =>
          h.not_string (letter_lt hc.1) (by rw [← head_any_append (by decide) s r]; exact hc.2)
        rw [if_neg hdigit, if_neg hstring, htake, if_neg (by simp [hkeyword])]

/-- `USE` names the database, and the statement stands alone behind it, exactly if the name is plain. -/
theorem readUse_eq_iff (n : Node) (db query : List UInt8) :
    n.readUse (ascii "use " ++ db ++ ascii ";" ++ query) = some (db, query) ↔ Plain n db := by
  have hdrop : (ascii "use " ++ db ++ ascii ";" ++ query).dropPrefix? (ascii "use ") = some (db ++ 0x3b :: query) :=
    List.dropPrefix?_eq_some_iff.mpr ⟨ascii "use ", by simp [ascii], by simp⟩
  rw [Node.readUse, hdrop, Option.bind_some]
  constructor
  · intro h
    obtain ⟨t₁, hskip₁, h⟩ := Option.bind_eq_some_iff.mp h
    obtain ⟨⟨name, t₂⟩, hname, h⟩ := Option.bind_eq_some_iff.mp h
    obtain ⟨t₃, hskip₂, h⟩ := Option.bind_eq_some_iff.mp h
    obtain ⟨rfl, rfl⟩ : name = db ∧ t₃ = 0x3b :: query := by
      revert h
      split <;> simp
    -- the bytes of the name and of the rest are those of the text, so that nothing was skipped
    have hsuffix₁ := skip_suffix _ _ _ hskip₁
    have hsuffix₂ := skip_suffix _ _ _ hskip₂
    have hlen : name.length + t₂.length ≤ t₁.length := by
      cases t₁ with
      | nil => simp [Node.readIdent] at hname
      | cons c s => exact (readIdent_length hname).1
    have hlen₂ := hsuffix₂.length_le
    have ht₁ : t₁ = name ++ 0x3b :: query := hsuffix₁.eq_of_length_le (by
      simp only [length_append] at *
      omega)
    have ht₂ : 0x3b :: query = t₂ := hsuffix₂.eq_of_length_le (by
      rw [ht₁, length_append] at hlen
      omega)
    rw [ht₁, ← ht₂] at hname
    exact (readIdent_eq_iff n name query).mp hname
  · intro h
    have hskip : skip n.charset .space (db ++ 0x3b :: query) = some (db ++ 0x3b :: query) := by
      cases db with
      | nil => exact absurd rfl h.ne_nil
      | cons c s => exact skip_ident h.head_ident (s ++ 0x3b :: query)
    simp only [hskip, Option.bind_some, (readIdent_eq_iff n db query).mpr h, skip_semicolon]

/-! ## The answers -/

/-- No error is reported exactly if every statement of the text succeeded. -/
theorem execQuery_eq_false_iff (rs : List Reply) : execQuery rs = false ↔ rs ≠ [] ∧ ∀ r ∈ rs, r = .ok := by
  fun_induction execQuery rs <;> simp_all

/-! ## The statement that arrives -/

/-- The node finds the settings, the `USE` of the same database in the character set of names, and the user's statement. -/
def Forwarded (w : Words) (s : Session) (st : Statement) : Prop :=
  ∃ text, beforeQuery s st = some text ∧
    match st.useDb s with
    | .name db => (s.node w).read true text = some ⟨s.settings, some db, st.query⟩ ∧ s.charset.toSystem db = db
    | _ => (s.node w).read false text = some ⟨s.settings, none, st.query⟩

/-- The database that goes into the text, if any, has a name that needs no quotes and no conversion. -/
def Statement.Quoteless (w : Words) (s : Session) (st : Statement) : Prop :=
  match st.useDb s with
  | .omitted => True
  | .nullDeref => False
  | .name db => Plain (s.node w) db ∧ s.charset.toSystem db = db

theorem forwarded_name_iff {w : Words} {s : Session} {st : Statement} {db : List UInt8} (h : st.useDb s = .name db) :
    Forwarded w s st ↔ Plain (s.node w) db ∧ s.charset.toSystem db = db := by
  have hread : ((s.node w).readUse (ascii "use " ++ db ++ ascii ";" ++ st.query)).map
      (fun (db, rest) => (⟨s.settings, some db, rest⟩ : Reading)) = some ⟨s.settings, some db, st.query⟩ ↔
      (s.node w).readUse (ascii "use " ++ db ++ ascii ";" ++ st.query) = some (db, st.query) := by
    simp [Option.map_eq_some_iff]
  simp only [Forwarded, beforeQuery, h, Option.some.injEq, exists_eq_left']
  rw [append_assoc _ _ st.query, read_settings, if_pos rfl, hread, readUse_eq_iff]

/-- A forwarded statement arrives as written after a `USE` of its database, and success means that all of the text succeeded,
exactly if the database's name needs no quotes. -/
theorem forwarded_iff_quoteless (w : Words) (s : Session) (st : Statement) :
    (Forwarded w s st ∧ ∀ replies, execQuery replies = false → ∀ r ∈ replies, r = .ok) ↔ st.Quoteless w s := by
  have hreplies :=  fun replies h => ((execQuery_eq_false_iff replies).mp h).2
  rw [and_iff_left hreplies]
  cases h : st.useDb s with
  | omitted =>
    simp only [Forwarded, beforeQuery, Statement.Quoteless, h, Option.some.injEq, exists_eq_left', read_settings]
    simp
  | nullDeref => simp [Forwarded, beforeQuery, Statement.Quoteless, h]
  | name db =>
    rw [forwarded_name_iff h]
    simp [Statement.Quoteless, h]

def asciiSet : Charset where
  mbmaxlen := 1
  charlen s := if s = [] then 0 else 1
  charlen_le s := by cases s <;> simp
  charlen_append s t h := by cases s <;> simp_all
  csname := ascii "ascii"
  csname_word := all_iff_forall_prop.mp rfl
  identHigh _ := false
  spaceHigh _ := false
  cntrlHigh _ := false
  charlen_ascii c s _ := by simp
  toSystem db := db

def asciiSession : Session where
  charset := asciiSet
  sqlMode := []
  sqlMode_word := by simp
  db := none

def createIn : Statement where
  command := .createTable
  spheadDb := none
  tablesDb := ascii "a;drop database b"
  query := ascii "create table `a;drop database b`.t(x int)"

/-- A database whose name has a separator in it: the node drops another one. -/
theorem not_forwarded : ¬ Forwarded ⟨fun _ => false, fun _ => false⟩ asciiSession createIn ∧
      ((beforeQuery asciiSession createIn).bind fun text =>
          (asciiSession.node ⟨fun _ => false, fun _ => false⟩).read true text) =
        some ⟨asciiSession.settings, some (ascii "a"),
          ascii "drop database b;create table `a;drop database b`.t(x int)"⟩ := by
  have hread : ((beforeQuery asciiSession createIn).bind fun text =>
          (asciiSession.node ⟨fun _ => false, fun _ => false⟩).read true text) =
        some ⟨asciiSession.settings, some (ascii "a"),
          ascii "drop database b;create table `a;drop database b`.t(x int)"⟩ := by
    decide +kernel
  refine ⟨?_, hread⟩
  rintro ⟨text, htext, hforward, -⟩
  rw [htext, Option.bind_some, hforward] at hread
  exact absurd hread (by decide +kernel)

end TSpider.Ddl

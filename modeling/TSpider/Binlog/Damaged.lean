import TSpider.Binlog.Transparent

/-!
# Damaged events

A reader of the log recomputes the checksum of each event (`event_checksum_test`).
-/

namespace TSpider.Binlog
open Lib Lib.Crc List

/-- `event_checksum_test` with CRC-32, true if it fails; a format description event (15) is checked without
`LOG_EVENT_BINLOG_IN_USE_F`. -/
def eventChecksumTest (event : List UInt8) : Bool :=
  let buf := if event.getD 4 0 = 15 then dropInUse event else event
  korr (buf.drop (event.length - 4)) ≠ (crc32 0 (buf.take (event.length - 4))).toNat

theorem korr_byte_inj {l r : List UInt8} {a b : UInt8} (h : korr (l ++ a :: r) = korr (l ++ b :: r)) : a = b := by
  induction l with
  | nil => exact UInt8.toNat_inj.mp (Nat.add_right_cancel h)
  | cons c l ih => exact ih (by simp only [cons_append, korr] at h; omega)

theorem eventChecksumTest_eq_false {x : List UInt8} (h : x.getD 4 0 = 15 → dropInUse x = x) :
    eventChecksumTest x = false ↔ korr (x.drop (x.length - 4)) = (crc32 0 (x.take (x.length - 4))).toNat := by
  simp only [eventChecksumTest, ite_eq_right_iff.mpr h, decide_eq_false_iff_not, not_not]

theorem dropInUse_written {h : Header} (hu : h.inUse = false) (w : Writer) (type : UInt8) (n : ℕ) (r : List UInt8) :
    dropInUse (h.write w type n ++ r) = h.write w type n ++ r := by
  have hself := dropInUse_write hu w type n
  obtain ⟨l, hl, heq⟩ := rawHeader_split h.when type h.serverId (dataWritten w n) (h.endPos w n) h.flags
  rw [Header.write, heq, dropInUse_split hl] at hself
  rw [Header.write, heq, append_assoc, cons_append, dropInUse_split hl]
  simpa using hself

section Damage
variable {l r : List UInt8} {a b : UInt8} (hflag : dropInUse (l ++ a :: r) = l ++ a :: r)
  (htype : (l ++ a :: r).getD 4 0 ≠ 15)
include hflag htype

-- only a damaged type makes a format description event of another one
theorem dropInUse_damaged (hb : (l ++ b :: r).getD 4 0 = 15) : dropInUse (l ++ b :: r) = l ++ b :: r := by
  match l with
  | [] | [_] | [_, _] | [_, _, _] | _ :: _ :: _ :: _ :: _ :: _ => exact absurd hb htype
  | [_, _, _, _] => simpa [dropInUse] using hflag

/-- Two events that differ in at most one byte and both pass are equal. -/
theorem eq_of_passes (ha : eventChecksumTest (l ++ a :: r) = false)
    (hb : eventChecksumTest (l ++ b :: r) = false) : a = b := by
  rw [eventChecksumTest_eq_false fun h => absurd h htype] at ha
  rw [eventChecksumTest_eq_false (dropInUse_damaged hflag htype)] at hb
  simp only [length_append, length_cons] at ha hb
  rcases lt_or_ge l.length (l.length + (r.length + 1) - 4) with hlt | hge
  · -- the byte is before the checksum
    obtain ⟨k, hk⟩ : ∃ k, l.length + (r.length + 1) - 4 = l.length + (k + 1) := ⟨r.length - 4, by omega⟩
    simp only [hk, drop_length_add_append, take_length_add_append, drop_succ_cons, take_succ_cons] at ha hb
    exact crc32_byte_inj (BitVec.eq_of_toNat_eq (ha.symm.trans hb))
  · rw [drop_append_of_le_length hge, take_append_of_le_length hge] at ha hb
    exact korr_byte_inj (ha.trans hb.symm)

end Damage

/-- **The checksum finds every damaged byte**: an event passes the test as it was written, and fails with any one byte
changed, be it in the header, the data or the checksum. -/
theorem damage_detected (e : Event) (w : Writer) (hw : w.checksum = true) (hu : e.header.inUse = false) :
    eventChecksumTest (e.write w) = false ∧
      ∀ l r a b, e.write w = l ++ a :: r → a ≠ b → eventChecksumTest (l ++ b :: r) = true := by
  obtain ⟨pre, type, htype, hframe⟩ : ∃ pre type, type ≠ 15 ∧ e.write w = frame e.header w pre type e.payload := by
    cases e with
    | query e => exact ⟨e.pre, 2, by decide, e.writeWith_eq w 2 e.query⟩
    | rows e =>
      refine ⟨e.pre, e.type, ?_, e.writeWith_eq w e.type e.rows⟩
      unfold RowsEvent.type
      cases e.kind <;> cases e.extra.isSome <;> decide
  obtain ⟨x, hwrite, hflag⟩ : ∃ x, e.write w = x ++ store 4 (crc32 0 x).toNat ∧ dropInUse (e.write w) = e.write w := by
    rw [hframe, frame_eq_finish fun _ => hu, finish, if_pos hw, append_assoc]
    exact ⟨_, (append_assoc ..).symm, dropInUse_written hu ..⟩
  have hkind : (e.write w).getD 4 0 ≠ 15 := by rwa [hframe, frame_type]
  have hpass : eventChecksumTest (e.write w) = false := by
    rw [eventChecksumTest_eq_false fun h => absurd h hkind, hwrite, length_append, length_store,
      Nat.add_sub_cancel, drop_left,
      take_left, korr_store]
    exact Nat.mod_eq_of_lt (crc32 0 x).isLt
  refine ⟨hpass, fun l r a b heq hab => Bool.eq_true_of_not_eq_false fun hb => ?_⟩
  rw [heq] at hkind hflag hpass
  exact hab (eq_of_passes hflag hkind hpass hb)

theorem damage_detected_longName : eventChecksumTest ((Event.query longNameEvent).write ⟨256, true⟩) = false :=
  (damage_detected (.query longNameEvent) ⟨256, true⟩ rfl rfl).1

end TSpider.Binlog

import Mandelbot.Library.Varint

/-!
# Tagged records

The wire format of messages: records that start with a varint tag, whose low three bits say how
the payload is delimited. Groups are brackets around further records; their closing tag need not
repeat the number of the opening one.
-/

namespace Mandelbot.Wire

def wireType (w : BitVec 64) : ℕ := w.toNat % 8

/-- What may follow a tag of a wire type that is not a bracket. -/
inductive IsPayload : ℕ → Bytes → Prop
  | varint {ds : Bytes} : IsDigits ds → ds.length ≤ 10 → IsPayload 0 ds
  | fixed64 {bs : Bytes} : bs.length = 8 → IsPayload 1 bs
  | delimited {ds body : Bytes} {len : BitVec 64} :
      IsVarint ds len → (body.length : ℤ) = len.toInt → IsPayload 2 (ds ++ body)
  | fixed32 {bs : Bytes} : bs.length = 4 → IsPayload 5 bs

inductive IsRecords : Bytes → Prop
  | nil : IsRecords []
  | field {tag payload rest : Bytes} {w : BitVec 64} :
      IsVarint tag w → IsPayload (wireType w) payload → IsRecords rest →
        IsRecords (tag ++ (payload ++ rest))
  | group {start body stop rest : Bytes} {w w' : BitVec 64} :
      IsVarint start w → wireType w = 3 → IsRecords body → IsVarint stop w' → wireType w' = 4 →
        IsRecords rest → IsRecords (start ++ (body ++ (stop ++ rest)))

/-- One record under the tag `w`. -/
inductive IsRecord (w : BitVec 64) : Bytes → Prop
  | field {tag payload : Bytes} :
      IsVarint tag w → IsPayload (wireType w) payload → IsRecord w (tag ++ payload)
  | group {start body stop : Bytes} {w' : BitVec 64} :
      IsVarint start w → wireType w = 3 → IsRecords body → IsVarint stop w' → wireType w' = 4 →
        IsRecord w (start ++ (body ++ stop))

/-- Bytes that have opened `d` groups and closed none of them. -/
inductive Opened : ℕ → Bytes → Prop
  | none : Opened 0 []
  | group {d : ℕ} {p start body : Bytes} {w : BitVec 64} :
      Opened d p → IsVarint start w → wireType w = 3 → IsRecords body →
        Opened (d + 1) (p ++ (start ++ body))

/-- The bytes between two points of nesting depth `d` and `d'` next to each other. -/
inductive IsToken : ℕ → Bytes → ℕ → Prop
  | field {d : ℕ} {tag payload : Bytes} {w : BitVec 64} :
      IsVarint tag w → IsPayload (wireType w) payload → IsToken d (tag ++ payload) d
  | start {d : ℕ} {t : Bytes} {w : BitVec 64} :
      IsVarint t w → wireType w = 3 → IsToken d t (d + 1)
  | stop {d : ℕ} {t : Bytes} {w : BitVec 64} :
      IsVarint t w → wireType w = 4 → IsToken (d + 1) t d

variable {a b p r t : Bytes} {w w' : BitVec 64} {d d' : ℕ}

theorem IsRecords.append (ha : IsRecords a) (hb : IsRecords b) : IsRecords (a ++ b) := by
  induction ha with
  | nil => exact hb
  | field htag hpayload _ ih =>
      rw [List.append_assoc, List.append_assoc]
      exact .field htag hpayload ih
  | group hstart hw hbody hstop hw' _ _ ih =>
      simp only [List.append_assoc]
      exact .group hstart hw hbody hstop hw' ih

theorem IsRecord.records (h : IsRecord w r) : IsRecords r := by
  cases h with
  | field htag hpayload => simpa using IsRecords.field htag hpayload .nil
  | group hstart hw hbody hstop hw' => simpa using IsRecords.group hstart hw hbody hstop hw' .nil

theorem IsVarint.length_pos (h : IsVarint t w) : 0 < t.length := h.digits.length_pos

theorem IsToken.length_pos (h : IsToken d t d') : 0 < t.length := by
  cases h with
  | field htag _ =>
      have hpos := htag.length_pos
      rw [List.length_append]
      omega
  | start hstart _ => exact hstart.length_pos
  | stop hstop _ => exact hstop.length_pos

/-- A record starts with its tag. -/
theorem IsRecord.tag (h : IsRecord w r) : ∃ tag rest, r = tag ++ rest ∧ IsVarint tag w := by
  cases h with
  | field htag _ => exact ⟨_, _, rfl, htag⟩
  | group hstart _ _ _ _ => exact ⟨_, _, rfl, hstart⟩

theorem IsRecord.wireType_ne_four (h : IsRecord w r) : wireType w ≠ 4 := by
  cases h with
  | field _ hpayload =>
      intro hw
      rw [hw] at hpayload
      cases hpayload
  | group _ hw _ _ _ => omega

theorem Opened.eq_nil (h : Opened 0 p) : p = [] := by
  cases h
  rfl

theorem Opened.start (h : Opened d p) (hstart : IsVarint t w) (hw : wireType w = 3) :
    Opened (d + 1) (p ++ t) := by
  simpa using Opened.group h hstart hw .nil

/-- A record inside the innermost open group. -/
theorem Opened.record (h : Opened (d + 1) p) (hr : IsRecord w r) : Opened (d + 1) (p ++ r) := by
  cases h with
  | group hp hstart hw hbody =>
      rw [List.append_assoc, List.append_assoc]
      exact .group hp hstart hw (hbody.append hr.records)

/-- A token that leaves groups open. -/
theorem Opened.token (h : Opened d p) (ht : IsToken d t (d' + 1)) : Opened (d' + 1) (p ++ t) := by
  cases ht with
  | field htag hpayload => exact h.record (.field htag hpayload)
  | start hstart hw => exact h.start hstart hw
  | stop hstop hw' =>
      cases h with
      | group hp hstart hw hbody =>
          rw [List.append_assoc, List.append_assoc]
          exact hp.record (.group hstart hw hbody hstop hw')

/-- A token that leaves no group open completes a record. -/
theorem Opened.complete (h : Opened d p) (ht : IsToken d t 0) : ∃ w, IsRecord w (p ++ t) := by
  cases ht with
  | field htag hpayload =>
      rw [h.eq_nil, List.nil_append]
      exact ⟨_, .field htag hpayload⟩
  | stop hstop hw' =>
      cases h with
      | group hp hstart hw hbody =>
          rw [hp.eq_nil, List.nil_append, List.append_assoc]
          exact ⟨_, .group hstart hw hbody hstop hw'⟩

end Mandelbot.Wire

import Csptp.Builder.Records

/-! # The calls of the builder

A call that adds a TLV either records it behind the message or leaves everything in front of the unused
memory as it was. -/
namespace Csptp
open Octets Octets.Prog
set_option autoImplicit false

/-- The object, the length of the data and the octets of the message are as they were. -/
structure Unchanged (msg : PtpMsg) (buf : Buf) (res : PtpMsg × Buf) : Prop where
  object : res.1 = msg
  bufLen : res.2.len = buf.len
  octets : ∀ a, a < msg.len → res.2.mem a = buf.mem a

theorem unchanged_refl (msg : PtpMsg) (buf : Buf) : Unchanged msg buf (msg, buf) :=
  ⟨rfl, rfl, fun _ _ => rfl⟩

/-- One more TLV is recorded behind the message. -/
structure Appends (msg : PtpMsg) (buf : Buf) (r : TlvRec) (res : PtpMsg × Buf) : Prop where
  endPtr : msg.endPtr = some r.tlv
  few : msg.tlvs.length ≠ maxTlvs
  room : r.len ≤ msg.left
  result : res.1 =
    { msg with
      tlvs := msg.tlvs ++ [r], endPtr := some (r.tlv + r.len), left := msg.left - r.len,
      len := msg.len + r.len }
  recorded : Recorded res.2.mem r
  below : ∀ a, a < r.tlv → res.2.mem a = buf.mem a
  bufLen : msg.len + r.len ≤ buf.size → res.2.len = msg.len + r.len

section Calls
variable {msg : PtpMsg} {buf : Buf}

theorem appends_record {m : Mem} {r : TlvRec} (hend : msg.endPtr = some r.tlv)
    (hfew : msg.tlvs.length ≠ maxTlvs) (hroom : r.len ≤ msg.left) (hrec : Recorded m r)
    (hbelow : ∀ a, a < r.tlv → m a = buf.mem a) :
    Appends msg buf r (msg.record (buf.withMem m) r.tlv r.len r.id) where
  endPtr := hend
  few := hfew
  room := hroom
  result := rfl
  recorded := by rwa [PtpMsg.record, Buf.setLen_mem]
  below := by rwa [PtpMsg.record, Buf.setLen_mem]
  bufLen h := Buf.setLen_len h

theorem addTlv_true {id : TlvTypeId} (h : (msg.addTlv id buf).1 = true) :
    ∃ r, r.id = id ∧ Appends msg buf r (msg.addTlv id buf).2 := by
  rw [PtpMsg.addTlv] at h ⊢
  split at h
  · exact absurd h (by simp)
  · rename_i p hend
    split_ifs at h ⊢ with hfull hhdr hmin hroom
    dsimp only at h ⊢
    split at h
    · exact absurd h (by simp)
    · rename_i add hextra
      split_ifs at h with hsize
      rw [if_neg hsize]
      rw [run_bind, run_store] at hextra
      refine ⟨⟨p, minTlvSize id + add, id⟩, rfl, ?_⟩
      simp only [run_bind, run_store, run_addTlvExtra_mem]
      refine appends_record hend hfull (Nat.le_of_not_lt hsize) ?_ fun a ha => ?_
      · refine recorded_addTlv hextra (fun a ha => ?_) ?_
        · exact blit_of_not_mem (.inr (by rw [octets_length]; omega))
        · rw [show p + 2 = p + (octets id.code).length by rw [octets_length], blit_append]
          exact holds_blit _ _ _
      · have ha : a < p := ha
        rw [blit_of_not_mem (.inl (by omega)), blit_of_not_mem (.inl ha)]

theorem addTlv_false {id : TlvTypeId} (hend : msg.endPtr = some msg.len)
    (h : (msg.addTlv id buf).1 = false) : Unchanged msg buf (msg.addTlv id buf).2 := by
  rw [PtpMsg.addTlv, hend] at h ⊢
  dsimp only at h ⊢
  have hbelow (a : ℕ) (ha : a < msg.len) : blit buf.mem msg.len (octets id.code) a = buf.mem a :=
    blit_of_not_mem (.inl ha)
  split_ifs at h ⊢
  · exact unchanged_refl msg buf
  · exact unchanged_refl msg buf
  · exact unchanged_refl msg buf
  · exact unchanged_refl msg buf
  · simp only [run_bind, run_store, run_addTlvExtra_mem] at h ⊢
    split at h
    · exact ⟨rfl, rfl, hbelow⟩
    · split_ifs at h ⊢
      exact ⟨rfl, rfl, hbelow⟩

theorem addCSPTPReqTlv_true {flags : Octet} (h : (msg.addCSPTPReqTlv flags buf).1 = true) :
    ∃ r, Appends msg buf r (msg.addCSPTPReqTlv flags buf).2 := by
  rw [PtpMsg.addCSPTPReqTlv] at h ⊢
  split at h
  · exact absurd h (by simp)
  · rename_i p hend
    split_ifs at h ⊢ with hfull hroom
    refine ⟨⟨p, csptpReq, .csptpRequest⟩, ?_⟩
    refine appends_record hend hfull (Nat.le_of_not_lt hroom) (recorded_addCSPTPReqTlv _ _ _) fun a ha => ?_
    rw [run_storeRequest]
    exact blit_of_not_mem (.inl ha)

theorem addCSPTPReqTlv_false {flags : Octet} (h : (msg.addCSPTPReqTlv flags buf).1 = false) :
    (msg.addCSPTPReqTlv flags buf).2 = (msg, buf) := by
  rw [PtpMsg.addCSPTPReqTlv] at h ⊢
  split
  · rfl
  · rename_i p hend
    rw [hend] at h
    dsimp only at h ⊢
    split_ifs at h ⊢
    · rfl
    · rfl

end Calls

end Csptp

import Csptp.Client.Cycle

/-! # A prepared client

The sizes that `client_main_allocObjs` computes leave room for a PAD TLV behind every answer of a
service, and what it prepares stays as it is over all cycles. -/
namespace Csptp
open Octets Octets.Prog
set_option autoImplicit false

/-! ## Sizes -/

/-- The next multiple of 16 behind another ten octets. -/
theorem clientSmoothSize_spec {sz : ℕ} (h : sz < 2 ^ 63) :
    sz + 10 ≤ clientSmoothSize sz ∧ clientSmoothSize sz < sz + 26 ∧ clientSmoothSize sz % 16 = 0 := by
  have hand (n : ℕ) : n &&& 0xf = n % 16 := Nat.and_two_pow_sub_one_eq_mod n 4
  rw [clientSmoothSize, hand, hand]
  omega

theorem clientGetMsgSize_le (opt : ClientOpt) (type : Prot) : clientGetMsgSize opt type ≤ 150 := by
  have hmsg : PtpMsg.getPTPMsgSize + PtpMsg.getTlvSize .csptpResponse = 72 := rfl
  have halt : PtpMsg.getTlvSize .alternateTimeOffsetIndicator = 30 := rfl
  have hstatus : PtpMsg.getCSPTPStatusTlvSize type ≤ 48 := by cases type <;> decide
  rw [clientGetMsgSize, hmsg, halt]
  split_ifs <;> omega

theorem clientFlags (opt : ClientOpt) :
    ((clientSetTxParams opt).2 &&& flags0ReqStatusTlv = 0 ↔ opt.useCSPTPstatus = false) ∧
      ((clientSetTxParams opt).2 &&& flags0ReqAlternateTimeTlv = 0 ↔ opt.useAltTimeScale = false) ∧
      (clientSetTxParams opt).2 &&& (flags0ReqStatusTlv ||| flags0ReqAlternateTimeTlv) =
        (clientSetTxParams opt).2 := by
  rw [clientSetTxParams]
  dsimp only
  cases opt.useCSPTPstatus <;> cases opt.useAltTimeScale <;> decide

/-! ## What stays prepared -/

/-- The setting of a client for these options. -/
structure Setting.Prepared (opt : ClientOpt) (s : Setting) : Prop where
  type : s.type ≠ .invalidProto
  size : s.size = clientSmoothSize (clientGetMsgSize opt s.type)
  bufSize : s.bufSize = s.size
  tlvReqFlags0 : s.tlvReqFlags0 = (clientSetTxParams opt).2
  domainNumber : s.domainNumber = opt.domainNumber
  flagField2 : s.flagField2 = 0
  family : s.family = s.address.getSize

theorem Setting.Prepared.size_spec {opt : ClientOpt} {s : Setting} (h : s.Prepared opt) :
    82 ≤ s.size ∧ s.size ≤ 160 ∧ s.size % 2 = 0 := by
  have hle := clientGetMsgSize_le opt s.type
  have hge : 72 ≤ clientGetMsgSize opt s.type := by
    rw [clientGetMsgSize, Nat.add_assoc]
    exact Nat.le_add_right 72 _
  obtain ⟨hlow, hhigh, hmod⟩ :=
    clientSmoothSize_spec (show clientGetMsgSize opt s.type < 2 ^ 63 by omega)
  rw [h.size]
  omega

theorem Setting.Prepared.bufSize_lt {opt : ClientOpt} {s : Setting} (h : s.Prepared opt) :
    s.bufSize < 2 ^ 16 := by
  obtain ⟨-, hhigh, -⟩ := h.size_spec
  rw [h.bufSize]
  omega

theorem setIP_getSize (ip : OctetArray 16) (a : SockAddr) : (a.setIP ip).getSize = a.getSize := by
  cases a <;> rfl

theorem prepared_of_allocObjs {resolve : List Octet → Prot → Option (Prot × OctetArray 16)}
    {opt : ClientOpt} {contents : Mem} {st : ClientState}
    (h : clientAllocObjs resolve opt contents = some st) : st.setting.Prepared opt := by
  obtain ⟨⟨type, address⟩, haddr, h⟩ := Option.bind_eq_some_iff.mp h
  obtain ⟨rxAddress, hrx, h⟩ := Option.bind_eq_some_iff.mp h
  obtain ⟨buffer, hbuffer, rfl⟩ := Option.map_eq_some_iff.mp h
  have hfamily : rxAddress.getSize = address.getSize := by
    rw [clientCreateAddress] at haddr
    split at haddr
    · exact absurd haddr (by simp)
    · split at haddr
      · exact absurd haddr (by simp)
      · obtain ⟨⟨type', bin⟩, -, haddr⟩ := Option.bind_eq_some_iff.mp haddr
        obtain ⟨a, ha, haddr⟩ := Option.map_eq_some_iff.mp haddr
        obtain ⟨rfl, rfl⟩ := Prod.mk.inj haddr
        obtain rfl := Option.some.inj (ha.symm.trans hrx)
        exact (setIP_getSize bin a).symm
  refine ⟨?_, rfl, ?_, rfl, rfl, rfl, hfamily⟩
  · rintro rfl
    exact absurd hrx (by simp [addrAlloc])
  · rw [bufferAlloc] at hbuffer
    split at hbuffer
    · exact absurd hbuffer (by simp)
    · rw [← Option.some.inj hbuffer]
      rfl

/-- The states of a client between its calls. -/
inductive ClientReached (resolve : List Octet → Prot → Option (Prot × OctetArray 16))
    (opt : ClientOpt) : ClientState → Prop
  | start {contents : Mem} {st : ClientState} (h : clientAllocObjs resolve opt contents = some st) :
      ClientReached resolve opt st
  | cycle {st : ClientState} {sID : BitVec 16} {inp : FlowInput} {r : FlowResult}
      (hst : ClientReached resolve opt st)
      (h : st.flow opt.domainNumber opt.useTwoSteps sID inp = some r) : ClientReached resolve opt r.st

theorem ClientReached.prepared {resolve : List Octet → Prot → Option (Prot × OctetArray 16)}
    {opt : ClientOpt} {st : ClientState} (h : ClientReached resolve opt st) :
    st.setting.Prepared opt := by
  induction h with
  | start h => exact prepared_of_allocObjs h
  | cycle _ h ih =>
    rw [flow_keeps h]
    exact ih

end Csptp

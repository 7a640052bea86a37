import Csptp.Service.Reaction
import Csptp.Client.Send

/-! # No octet of an earlier message on the wire

The buffer of a service or a client is never cleared, but what leaves it does not depend on what it
held before. -/
namespace Csptp
open Octets Octets.Prog
set_option autoImplicit false

/-- The old buffer contents and the old message object do not show in what a service sends. -/
theorem sent_of_other_buffer (st : ServiceState) (message : PtpMsg) {buffer : Buf}
    (useTxTwoSteps : Bool) {inp : ServiceInput} (hsize : buffer.size = st.buffer.size)
    (hw : ∀ d now, inp.poll = .ready (some d) now → WellSized st.buffer.size d.octets) :
    ServiceState.sent useTxTwoSteps inp { st with message := message, buffer := buffer } =
      ServiceState.sent useTxTwoSteps inp st := by
  cases hpoll : inp.poll with
  | idle => rw [sent_of_idle useTxTwoSteps _ hpoll, sent_of_idle useTxTwoSteps _ hpoll]
  | ready arrival rxNow =>
    cases arrival with
    | none =>
      rw [sent_of_ready useTxTwoSteps _ hpoll, sent_of_ready useTxTwoSteps _ hpoll]
      rfl
    | some d =>
      have hst := sent_eq st useTxTwoSteps hpoll (hw d rxNow hpoll)
      have hst' := sent_eq { st with message := message, buffer := buffer } useTxTwoSteps hpoll (by
        rw [hsize]
        exact hw d rxNow hpoll)
      rw [hst, hst', hsize]

section Client
variable {st st' : ClientState} (hparams : st'.params = st.params)
  (hflags : st'.tlvReqFlags0 = st.tlvReqFlags0) (hsize : st'.size = st.size)
  (haddr : st'.address = st.address) (hbuf : st'.buffer.size = st.buffer.size)
include hparams hsize haddr hbuf

theorem sendFollowUp_congr (sequenceId : BitVec 16) (net : Bool) :
    (ClientState.sendFollowUp sequenceId net st').2.2 =
      (ClientState.sendFollowUp sequenceId net st).2.2 := by
  have h := ClientState.sendFollowUp_ends st sequenceId net st rfl
  have h' := ClientState.sendFollowUp_ends st' sequenceId net st' rfl
  rw [hbuf, hparams, hsize] at h'
  cases hc : reqFollowUp st.buffer.size st.params sequenceId st.size with
  | none =>
    rw [hc] at h h'
    rw [h.2, h'.2]
  | some octs =>
    rw [hc] at h h'
    rw [h.out, h'.out]
    exact congrArg (fun a => if net then [Datagram.mk a octs] else []) haddr

include hflags

theorem sendReqSync_congr (sequenceId : BitVec 16) (now : ClockReading) (net : Bool) :
    (ClientState.sendReqSync sequenceId now net st').2.2 =
      (ClientState.sendReqSync sequenceId now net st).2.2 := by
  have h := ClientState.sendReqSync_ends st sequenceId now net st rfl
  have h' := ClientState.sendReqSync_ends st' sequenceId now net st' rfl
  rw [hbuf, hparams, hsize, hflags] at h'
  cases hc : reqSync st.buffer.size st.params sequenceId now.toTimespec st.tlvReqFlags0 st.size with
  | none =>
    rw [hc] at h h'
    rw [h.2, h'.2]
  | some octs =>
    rw [hc] at h h'
    obtain ⟨ts1, -, hs⟩ := h
    obtain ⟨ts1', -, hs'⟩ := h'
    rw [hs.out, hs'.out]
    exact congrArg (fun a => if net then [Datagram.mk a octs] else []) haddr

end Client

/-- Two services that differ in their buffer contents and message objects send the same for the same
datagram, and two clients with the same parameters, flags, sizes and service address send the same
messages. -/
theorem no_stale_octets :
    (∀ (st : ServiceState) (message : PtpMsg) (buffer : Buf) (useTxTwoSteps : Bool)
      (inp : ServiceInput), buffer.size = st.buffer.size →
      (∀ d now, inp.poll = .ready (some d) now → WellSized st.buffer.size d.octets) →
      ServiceState.sent useTxTwoSteps inp { st with message := message, buffer := buffer } =
        ServiceState.sent useTxTwoSteps inp st) ∧
    ∀ (st st' : ClientState) (sequenceId : BitVec 16) (now : ClockReading) (net : Bool),
      st'.params = st.params → st'.tlvReqFlags0 = st.tlvReqFlags0 → st'.size = st.size →
      st'.address = st.address → st'.buffer.size = st.buffer.size →
      (ClientState.sendReqSync sequenceId now net st').2.2 =
          (ClientState.sendReqSync sequenceId now net st).2.2 ∧
        (ClientState.sendFollowUp sequenceId net st').2.2 =
          (ClientState.sendFollowUp sequenceId net st).2.2 := by
  refine ⟨fun st message buffer useTxTwoSteps inp hsize hw => ?_, ?_⟩
  · exact sent_of_other_buffer st message useTxTwoSteps hsize hw
  · intro st st' sequenceId now net hparams hflags hsize haddr hbuf
    exact ⟨sendReqSync_congr hparams hflags hsize haddr hbuf sequenceId now net,
      sendFollowUp_congr hparams hsize haddr hbuf sequenceId net⟩

section Sample

def otherBuffer : Buf :=
  { mem := fun o => BitVec.ofNat 8 o, size := 256, len := 3, len_le := by decide,
    size_lt := serviceSize_lt }

theorem no_stale_octets_sample :
    ServiceState.sent true (sampleInput sampleDatagram) { sampleService with buffer := otherBuffer } =
        ServiceState.sent true (sampleInput sampleDatagram) sampleService ∧
      (ClientState.sendReqSync 7 (sampleTime 10) true (sampleClient fun _ => 0xaa)).2.2 =
        (ClientState.sendReqSync 7 (sampleTime 10) true (sampleClient fun _ => 0x55)).2.2 := by
  have hw : WellSized sampleService.buffer.size sampleDatagram.octets := by decide +kernel
  constructor
  · refine no_stale_octets.1 sampleService sampleService.message otherBuffer true
      (sampleInput sampleDatagram) rfl fun d now hpoll => ?_
    cases hpoll
    exact hw
  · exact (no_stale_octets.2 (sampleClient fun _ => 0x55) (sampleClient fun _ => 0xaa) 7
      (sampleTime 10) true rfl rfl rfl rfl rfl).1

end Sample

end Csptp

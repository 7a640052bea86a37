import Csptp.Received
import Csptp.Service.Replies

/-! # The service as a function of the datagram

`reaction` says what the service sends back for the octets of a datagram. The state of the service
has no part in it except the clock description and the size of the buffer. -/
namespace Csptp
open Octets Octets.Prog
set_option autoImplicit false

/-- The request flags of a decoded message. -/
def Received.requestFlags (r : Received) : Option Octet := ((rcvReqSync r.tlvs none).run r.mem).1

theorem within_rcvReqSync {S : ℕ → Prop} {rs : List TlvRec}
    (hS : ∀ t ∈ rs, ∀ a, a < t.tlv + minTlvSize t.id → S a) (flags : Option Octet) :
    Within S (rcvReqSync rs flags) := by
  induction rs generalizing flags with
  | nil => exact within_pure _
  | cons t rs ih =>
    have hrest := ih fun u hu => hS u (List.mem_cons_of_mem _ hu)
    refine Within.ite (fun hid => ?_) fun _ => hrest _
    have hsize : minTlvSize t.id = 8 := by rw [hid]; rfl
    exact (within_load fun a _ ha => hS t List.mem_cons_self a (by omega)).bind fun v => hrest _

theorem rcvReqSync_congr {r : Received} {m : Mem} {len : ℕ}
    (ht : ∀ t ∈ r.tlvs, t.tlv + minTlvSize t.id ≤ len) (hm : ∀ o, o < len → m o = r.mem o) :
    ((rcvReqSync r.tlvs none).run m).1 = r.requestFlags := by
  have hin : Within (fun o => o < len) (rcvReqSync r.tlvs none) :=
    within_rcvReqSync (fun t hmem a ha => lt_of_lt_of_le ha (ht t hmem)) none
  exact (run_congr (hin m).touches hm).1.symm

def Tlv.requestFlag : Tlv → Option Octet
  | .request flags => flags.val.head?
  | _ => none

theorem rcvReqSync_records {m : Mem} {a : ℕ} {ts : List Tlv} (h : Holds m a (tlvsOctets .host ts))
    (flags : Option Octet) : ((rcvReqSync (records a ts) flags).run m).1 =
      (ts.filterMap Tlv.requestFlag).foldl (fun _ f => some f) flags := by
  induction ts generalizing a flags with
  | nil => rfl
  | cons t ts ih =>
    rw [tlvsOctets_cons, holds_append, Tlv.octets_length] at h
    obtain ⟨ht, hts⟩ := h
    have hrest := ih hts
    cases t with
    | request tlvRequestFlags =>
      rw [Tlv.octets, holds_append, Tlv.header_length, Tlv.body] at ht
      obtain ⟨f, rest, hcons⟩ := List.exists_cons_of_length_pos
        (show 0 < tlvRequestFlags.val.length by rw [tlvRequestFlags.property]; omega)
      have hhead : Tlv.requestFlag (.request tlvRequestFlags) = some f := by
        rw [Tlv.requestFlag, hcons]
        rfl
      have hload : ofOctets 8 (region m (a + 4) 1) = f := by
        rw [hcons, holds_cons] at ht
        exact ofOctets_region_octet (holds_cons.mpr ⟨ht.2.1, holds_nil _ _⟩)
      rw [List.filterMap_cons_some hhead, List.foldl_cons, ← hrest (some f), ← hload, records,
        rcvReqSync, if_pos (by rfl), run_bind, run_load]
    | altTime t => exact hrest flags
    | response t => exact hrest flags
    | status t => exact hrest flags
    | pad data => exact hrest flags

/-- What the service sends back for these octets. -/
def reaction (clk : IfClk) (useTxTwoSteps : Bool) (rxTs : Timespec) (inp : ServiceInput)
    (bufSize : ℕ) (octs : List Octet) : List (List Octet) :=
  match decode bufSize octs with
  | none => []
  | some r =>
    repliesTo bufSize clk useTxTwoSteps r.params rxTs inp r.requestFlags (octs.take bufSize).length

section OnePass
variable (st : ServiceState) (useTxTwoSteps : Bool) {inp : ServiceInput} {d : Datagram}
  {rxNow : ClockReading}

/-- A pass of the service sends what its reaction is, to where the datagram came from. -/
theorem sent_eq (hpoll : inp.poll = .ready (some d) rxNow) (hw : WellSized st.buffer.size d.octets) :
    st.sent useTxTwoSteps inp =
      if d.addr.getSize = st.address.getSize then
        (reaction st.clockInfo useTxTwoSteps rxNow.toTimespec inp st.buffer.size d.octets).map
          (⟨d.addr, ·⟩)
      else [] := by
  rw [sent_of_ready useTxTwoSteps st hpoll]
  set r := recv st.buffer st.address (some d) rxNow with hr
  cases hok : r.ok with
  | false =>
    have hflag : (ServiceState.receive (some d) rxNow st).1 = false := by
      rw [ServiceState.receive, ← hr, if_pos hok]
    rw [hflag, if_neg (by simp)]
    split
    · -- only an empty datagram fails here
      rename_i hfam
      have hempty : ¬ 0 < (d.octets.take st.buffer.size).length := by
        intro hpos
        rw [hr, recv_of_datagram hfam hpos] at hok
        simp at hok
      rw [reaction, decode_of_short (by rw [msgSize]; omega)]
      rfl
    · rfl
  | true =>
    obtain ⟨d', hd', hfam, -, haddr, hdata⟩ := recv_true hok
    cases Option.some.inj hd'
    rw [← hr] at haddr hdata
    have hsize : r.buf.size = st.buffer.size := by rw [hr, recv_size]
    have hlen : r.buf.len = (d.octets.take st.buffer.size).length := by
      rw [← hdata, Buf.data_length]
    rw [← hsize] at hdata hw
    rw [if_pos hfam, receive_of_ok hok, ← hr, reaction, ← hsize]
    cases hdec : decode r.buf.size d.octets with
    | none =>
      obtain ⟨hflag, -⟩ := parse_of_decode_none st.message st.params hdata hw hdec
      rw [hflag, if_neg (by simp)]
      rfl
    | some x =>
      obtain ⟨hflag, hparams, htlvs, hmem⟩ :=
        parse_of_decode_some st.message st.params hdata hw hdec
      have htlvs_in := decode_tlvs hw hdec
      rw [hsize, ← hlen] at htlvs_in
      have hscan := rcvReqSync_congr htlvs_in hmem
      rw [hflag, if_pos rfl, answer_out]
      simp only [hparams, htlvs, hscan, PtpMsg.parse_size, PtpMsg.parse_len, hsize, hlen, haddr]
      rw [hr, recv_ts]

end OnePass

/-! ## A sample service -/

section Sample

/-- A request for everything, with 144 octets. -/
def sampleDatagram : Datagram :=
  { addr := .in4 7 9, octets := wireOctets sampleParams 0 [.request (requestFlags 3)] 144 }

theorem serviceSize_lt : 256 < 2 ^ 64 := by norm_num

def sampleService : ServiceState :=
  { clockInfo := dummyClockInfo, params := .zero, address := .in4 ptpUdpPort 0, message := .detach,
    rxTs := ⟨0, 0⟩, t2 := ⟨0, 0⟩,
    buffer := { mem := fun _ => 0xaa, size := 256, len := 0, len_le := by decide,
                size_lt := serviceSize_lt } }

/-- The datagram arrives at second 10, the clock shows 11 when it is answered, and the network takes
everything. -/
def sampleInput (d : Datagram) : ServiceInput :=
  { poll := .ready (some d) (sampleTime 10), now := sampleTime 11, netRespSync := true,
    netFollowUp := true }

end Sample

end Csptp

import Csptp.Service.Main
import Csptp.Wire.RoundTrip

/-! # What the service answers

`respSync` and `followUp` say which octets the service sends, as functions of the clock description,
the request's parameters and flags, the two times, the size and the size of the buffer. The chains of
`main_service.c` follow them from any state of the message object and the buffer. -/
namespace Csptp
open Octets Octets.Prog
set_option autoImplicit false

/-! ## The TLVs of an answer -/

def responseTlv (clk : IfClk) (rxTs : Timespec) : Option Tlv :=
  rxTs.toTimestamp.map fun ts => .response {
    organizationId := clk.organizationId, organizationSubType := clk.organizationSubType,
    reqIngressTimestamp := ts, reqCorrectionField := 0 }

def IfClk.portAddress (clk : IfClk) : Option PortAddress :=
  match clk.networkProtocol with
  | .udpIPv4 => some (.ipv4 ⟨region clk.addressField 0 ipv4AddrLen, region_length _ _ _⟩)
  | .udpIPv6 => some (.ipv6 ⟨region clk.addressField 0 ipv6AddrLen, region_length _ _ _⟩)
  | .invalidProto => none

def IfClk.status (clk : IfClk) (a : PortAddress) : Status :=
  { organizationId := clk.organizationId, organizationSubType := clk.organizationSubType,
    grandmasterPriority1 := clk.priority1, grandmasterClockQuality := clk.clockQuality,
    grandmasterPriority2 := clk.priority2, stepsRemoved := 0,
    currentUtcOffset := clk.currentUtcOffset, grandmasterIdentity := clk.clockIdentity,
    parentAddress := a }

def statusTlv (clk : IfClk) : Option Tlv := clk.portAddress.map fun a => .status (clk.status a)

theorem IfClk.name_lt (clk : IfClk) (h : clk.displayName.length ≤ maxTzLen) :
    clk.displayName.length < 2 ^ 8 := by
  rw [maxTzLen] at h
  omega

theorem IfClk.fill_len (clk : IfClk) :
    (List.replicate (clk.displayName.length % 2) (0 : Octet)).length = clk.displayName.length % 2 :=
  List.length_replicate

def altTimeTlv (clk : IfClk) : Option Tlv :=
  (setUint48 clk.timeOfNextJump).bind fun jump =>
    if h : clk.displayName.length ≤ maxTzLen then some (.altTime {
      keyField := clk.keyField, currentOffset := clk.currentOffset,
      jumpSeconds := clk.jumpSeconds, timeOfNextJump := jump, displayName := clk.displayName,
      fill := List.replicate (clk.displayName.length % 2) 0,
      name_lt := clk.name_lt h, fill_len := clk.fill_len })
    else none

/-! ## Filling a TLV in place -/

/-- The fill routine leaves the body of a TLV behind the header's place, up to the fill octet of a
name, and nothing in front of it; or it returns false. -/
def Fills (fill : ℕ → Prog Bool) (need : ℕ) (t : Option Tlv) : Prop :=
  ∀ m p, match t with
    | none => ((fill p).run m).1 = false
    | some t => ∃ (u : Tlv) (m' : Mem), u.zeroFill = t ∧ u.Addable ∧ u.size ≤ makeEven need ∧
        (fill p).run m = (true, m') ∧ (∀ a, a < p → m' a = m a) ∧ Holds m' (p + 4) (u.body .host)

theorem run_fillResponse (clk : IfClk) (ts : Timestamp) (m : Mem) (p : ℕ) :
    (fillResponse clk (some ts) p).run m = (true, blit (blit (blit (blit (blit (blit m (p + 4)
      clk.organizationId.val) (p + 7) clk.organizationSubType.val) (p + 20) (octets 0#64))
      (p + 12) (octets ts.secondsField.low)) (p + 10) (octets ts.secondsField.high)) (p + 16)
      (octets ts.nanosecondsField)) := by
  simp only [fillResponse, storeTimestamp, storeUint48, run_bind, run_storeOctets, run_store,
    run_pure, Nat.add_assoc, Nat.reduceAdd]

theorem fillResponse_fills (clk : IfClk) (rxTs : Timespec) :
    Fills (fillResponse clk rxTs.toTimestamp) (PtpMsg.getTlvSize .csptpResponse)
      (responseTlv clk rxTs) := by
  intro m p
  rw [responseTlv]
  cases hts : rxTs.toTimestamp with
  | none => simp [fillResponse]
  | some ts =>
    have horg := clk.organizationId.property
    have hsub := clk.organizationSubType.property
    refine ⟨.response ⟨clk.organizationId, clk.organizationSubType, ts, 0⟩, _, rfl, trivial,
      show 28 ≤ 28 from le_refl _, run_fillResponse clk ts m p, fun a ha => ?_, ?_⟩
    · simp (disch := omega) only [blit_of_not_mem]
    · simp only [Tlv.body, Response.body, Timestamp.octets, holds_append, inOrder_length,
        List.length_append, horg, hsub, Nat.add_assoc, Nat.reduceAdd, Nat.reduceDiv]
      simp (disch := (simp only [octets_length, inOrder_length, horg, hsub]; omega)) only
        [holds_blit_of_disjoint]
      exact ⟨⟨⟨holds_blit _ _ _, holds_blit _ _ _⟩, ⟨holds_blit _ _ _, holds_blit _ _ _⟩,
        holds_blit _ _ _⟩, holds_blit _ _ _⟩

theorem portAddress_networkProtocol {clk : IfClk} {a : PortAddress} (h : clk.portAddress = some a) :
    a.networkProtocol = clk.networkProtocol := by
  rw [IfClk.portAddress] at h
  split at h
  · rw [← Option.some.inj h, ‹clk.networkProtocol = _›]
    rfl
  · rw [← Option.some.inj h, ‹clk.networkProtocol = _›]
    rfl
  · simp at h

/-- The stores go from field to field without a gap. -/
theorem run_fillStatus {clk : IfClk} {a : PortAddress} (h : clk.portAddress = some a) (m : Mem)
    (p : ℕ) :
    (fillStatus clk p).run m = (true, blit m (p + 4) ((clk.status a).body .host)) := by
  have horg := clk.organizationId.property
  have hsub := clk.organizationSubType.property
  have hident := clk.clockIdentity.property
  rw [IfClk.portAddress] at h
  cases hp : clk.networkProtocol with
  | invalidProto => simp [hp] at h
  | udpIPv4 =>
    simp only [hp, Option.some.injEq] at h
    simp only [fillStatus, hp, run_bind, run_storeOctets, run_store, run_pure]
    simp (disch := simp [horg, hsub, hident]) only [blit_append_of_eq]
    simp [Status.body, IfClk.status, ← h, octets_octet, inOrder, PortAddress.networkProtocol,
      PortAddress.addressField, adderSize, Prot.code]
  | udpIPv6 =>
    simp only [hp, Option.some.injEq] at h
    simp only [fillStatus, hp, run_bind, run_storeOctets, run_store, run_pure]
    simp (disch := simp [horg, hsub, hident]) only [blit_append_of_eq]
    simp [Status.body, IfClk.status, ← h, octets_octet, inOrder, PortAddress.networkProtocol,
      PortAddress.addressField, adderSize, Prot.code]

theorem fillStatus_fills (clk : IfClk) :
    Fills (fillStatus clk) (PtpMsg.getCSPTPStatusTlvSize clk.networkProtocol) (statusTlv clk) := by
  intro m p
  rw [statusTlv]
  cases ha : clk.portAddress with
  | none =>
    rw [IfClk.portAddress] at ha
    cases hp : clk.networkProtocol with
    | invalidProto => simp [fillStatus, hp]
    | udpIPv4 => simp [hp] at ha
    | udpIPv6 => simp [hp] at ha
  | some a =>
    refine ⟨.status (clk.status a), _, rfl, trivial, ?_, run_fillStatus ha m p,
      fun x hx => blit_of_not_mem (.inl (by omega)), holds_blit _ _ _⟩
    rw [← portAddress_networkProtocol ha]
    cases a <;> simp [Tlv.size, IfClk.status, PortAddress.networkProtocol, makeEven, minTlvSize,
      PtpMsg.getCSPTPStatusTlvSize, adderSize, ipv4AddrLen, ipv6AddrLen]

theorem run_fillAltTime {clk : IfClk} {jump : UInteger48} (hj : setUint48 clk.timeOfNextJump = some jump)
    (hl : clk.displayName.length ≤ maxTzLen) (m : Mem) (p : ℕ) :
    (fillAltTime clk p).run m = (true, blit (blit (blit (blit (blit (blit (blit m (p + 4)
      [clk.keyField]) (p + 5) (octets clk.currentOffset)) (p + 9) (octets clk.jumpSeconds))
      (p + 15) (octets jump.low)) (p + 13) (octets jump.high)) (p + 19)
      [BitVec.ofNat 8 clk.displayName.length]) (p + 20) clk.displayName) := by
  simp only [fillAltTime, hj, storeUint48, run_bind, run_store, octets_octet, Nat.add_assoc,
    Nat.reduceAdd]
  by_cases hnil : clk.displayName = []
  · simp [hnil, octets_octet]
  · have hmin : min clk.displayName.length (maxTzLen + 1) = clk.displayName.length :=
      Nat.min_eq_left (by omega)
    simp only [if_neg hnil, hmin, if_neg (show ¬ clk.displayName.length > maxTzLen by omega), run_bind,
      run_store, run_storeOctets, octets_octet, run_pure]

theorem fillAltTime_fills (clk : IfClk) :
    Fills (fillAltTime clk) (PtpMsg.getTlvSize .alternateTimeOffsetIndicator) (altTimeTlv clk) := by
  intro m p
  rw [altTimeTlv]
  cases hj : setUint48 clk.timeOfNextJump with
  | none => simp [fillAltTime, hj]
  | some jump =>
    rw [Option.bind_some]
    by_cases hl : clk.displayName.length ≤ maxTzLen
    · rw [dif_pos hl]
      have hten : clk.displayName.length ≤ 10 := hl
      have hrun := run_fillAltTime hj hl m p
      set m' := ((fillAltTime clk p).run m).2 with hm'
      -- whatever lies behind a name of odd length is its fill octet
      let u : AltTime := {
        keyField := clk.keyField, currentOffset := clk.currentOffset, jumpSeconds := clk.jumpSeconds,
        timeOfNextJump := jump, displayName := clk.displayName,
        fill := region m' (p + (4 + (16 + clk.displayName.length))) (clk.displayName.length % 2),
        name_lt := by omega, fill_len := region_length _ _ _ }
      refine ⟨.altTime u, m', rfl, hl, ?_, ?_, fun a ha => ?_, ?_⟩
      · simp only [Tlv.size, altTimeSize, u, PtpMsg.getTlvSize, minTlvSize, maxTzLen, makeEven, if_true]
        omega
      · rw [hm', hrun]
      · rw [hm', hrun]
        simp (disch := omega) only [blit_of_not_mem]
      · simp only [Tlv.body, AltTime.body, holds_append, List.length_append, inOrder_length,
          List.length_singleton, Nat.add_assoc, Nat.reduceAdd, Nat.reduceDiv]
        refine ⟨?_, holds_region _ _ _⟩
        rw [hm', hrun]
        simp (disch := (simp only [octets_length, inOrder_length, List.length_singleton]; omega)) only
          [holds_blit_of_disjoint]
        exact ⟨⟨⟨⟨⟨⟨holds_blit _ _ _, holds_blit _ _ _⟩, holds_blit _ _ _⟩, holds_blit _ _ _⟩,
          holds_blit _ _ _⟩, holds_blit _ _ _⟩, holds_blit _ _ _⟩
    · rw [dif_neg hl]
      have hnil : clk.displayName ≠ [] := fun h => hl (by simp [h])
      have hmin : min clk.displayName.length (maxTzLen + 1) > maxTzLen := by omega
      simp [fillAltTime, hj, hnil, hmin]

/-! ## The whole answer -/

/-- `nextTlv` has a place for this need behind these TLVs. -/
def RoomFor (bufSize : ℕ) (ts : List Tlv) (need : ℕ) : Prop :=
  ts.length ≠ maxTlvs ∧ makeEven need ≤ bufSize - (44 + tlvsSize ts)

instance (bufSize : ℕ) (ts : List Tlv) (need : ℕ) : Decidable (RoomFor bufSize ts need) :=
  inferInstanceAs (Decidable (_ ∧ _))

/-- One more TLV, if it exists and there is a place for it. -/
def addTo (bufSize need : ℕ) (t : Option Tlv) (ts : List Tlv) : Option (List Tlv) :=
  (if RoomFor bufSize ts need then t else none).bind fun t => some (ts ++ [t])

/-- The octets of an answer with these parameters. -/
def composed (bufSize : ℕ) (clk : IfClk) (params : PtpParams) (c : Octet) (rxTs t2 : Timespec)
    (tlvReqFlags0 : Octet) (size : ℕ) : Option (List Octet) :=
  t2.toTimestamp.bind fun ts2 => (startIn bufSize).bind fun ts =>
    (addTo bufSize (PtpMsg.getTlvSize .csptpResponse) (responseTlv clk rxTs) ts).bind fun ts =>
    (if tlvReqFlags0 &&& flags0ReqStatusTlv = 0 then some ts else
      addTo bufSize (PtpMsg.getCSPTPStatusTlvSize clk.networkProtocol) (statusTlv clk) ts).bind fun ts =>
    (if tlvReqFlags0 &&& flags0ReqAlternateTimeTlv = 0 then some ts else
      addTo bufSize (PtpMsg.getTlvSize .alternateTimeOffsetIndicator) (altTimeTlv clk) ts).bind fun ts =>
    finish bufSize { params with timestamp := ts2 } c size ts

/-- The Response Sync for a request with these parameters. -/
def respSync (bufSize : ℕ) (clk : IfClk) (params : PtpParams) (rxTs t2 : Timespec)
    (tlvReqFlags0 : Octet) (size : ℕ) : Option (List Octet) :=
  composed bufSize clk { params with type := .sync } 0 rxTs t2 tlvReqFlags0 size

/-- The Follow_Up behind it. -/
def followUp (bufSize : ℕ) (params : PtpParams) (t2 : Timespec) (size : ℕ) : Option (List Octet) :=
  t2.toTimestamp.bind fun ts2 => (startIn bufSize).bind fun ts =>
    finish bufSize { params with type := .followUp, timestamp := ts2 } 2 size ts

/-- The TLVs `ts` are in the message of this state, up to fill octets; nothing but the message and the
buffer has changed since `st₀`. -/
structure Drafted (st₀ : ServiceState) (c : Octet) (ts : List Tlv) (st : ServiceState) : Prop where
  built : ∃ us, us.map Tlv.zeroFill = ts ∧ Built st.message st.buffer st₀.params c us
  size : st.buffer.size = st₀.buffer.size
  rest : st = { st₀ with message := st.message, buffer := st.buffer }

/-- The body of `t` lies at the place of the next TLV. -/
structure Filled (st₀ : ServiceState) (c : Octet) (ts : List Tlv) (t : Tlv) (st : ServiceState) :
    Prop where
  built : ∃ us u buf, us.map Tlv.zeroFill = ts ∧ Tlv.zeroFill u = t ∧ u.Addable ∧
    us.length < maxTlvs ∧ st.message.len + u.size ≤ buf.size ∧
    Built st.message buf st₀.params c us ∧ st.buffer = buf.withMem st.buffer.mem ∧
    (∀ a, a < st.message.len → st.buffer.mem a = buf.mem a) ∧
    Holds st.buffer.mem (st.message.len + 4) (u.body .host)
  size : st.buffer.size = st₀.buffer.size
  rest : st = { st₀ with message := st.message, buffer := st.buffer }

section Chain
variable {st₀ : ServiceState} {c : Octet} {ts : List Tlv}

theorem fillNext_spec {need : ℕ} {fill : ℕ → Prog Bool} {t : Option Tlv} (hf : Fills fill need t)
    {st : ServiceState} (hst : Drafted st₀ c ts st) :
    Attempt.Steps (if RoomFor st₀.buffer.size ts need then t else none) (Filled st₀ c ts)
      (st.fillNext need fill) := by
  obtain ⟨us, hus, hb⟩ := hst.built
  have hlen : us.length = ts.length := by rw [← hus, List.length_map]
  have hsize : tlvsSize us = tlvsSize ts := by rw [← hus, tlvsSize_zeroFill]
  have hnext := hb.nextTlv need
  have hmsg := hb.len
  have hfits := hb.fits
  have hfew := hb.few
  rw [hst.size, hlen] at hnext
  rw [hst.size] at hfits
  by_cases hroom : RoomFor st₀.buffer.size ts need
  · rw [if_pos hroom]
    rw [RoomFor] at hroom
    rw [if_neg (by rw [hmsg, hsize]; omega)] at hnext
    have hfill := hf st.buffer.mem st.message.len
    rw [ServiceState.fillNext, hnext]
    cases t with
    | none => exact hfill
    | some t =>
      obtain ⟨u, m', hu, hadd, husz, hrun, hkeep, hbody⟩ := hfill
      refine ⟨{ st with buffer := st.buffer.withMem m' }, by simp only [hrun], ?_, hst.size, ?_⟩
      · have hfit : st.message.len + u.size ≤ st.buffer.size := by
          rw [hst.size]
          omega
        exact ⟨us, u, st.buffer, hus, hu, hadd, by omega, hfit, hb, rfl, hkeep, hbody⟩
      · rw [hst.rest]
  · rw [if_neg hroom]
    rw [RoomFor] at hroom
    rw [if_pos (by rw [hmsg, hsize]; omega)] at hnext
    rw [ServiceState.fillNext, hnext]
    rfl

theorem addTlv_does {t : Tlv} {id : TlvTypeId} (hid : t.id = id) :
    Attempt.Does (Filled st₀ c ts t) (Attempt.call (ServiceState.addTlv id) : Attempt _ Datagram)
      (some (ts ++ [t])) (Drafted st₀ c) := by
  refine Attempt.Does.call fun st hst => ?_
  obtain ⟨us, u, buf, hus, hu, hadd, hfew, hfit, hb, hbuf, hkeep, hbody⟩ := hst.built
  have huid : u.id = id := by rw [← hid, ← hu, Tlv.zeroFill_id]
  obtain ⟨msg', buf', hrun, hsize, hb'⟩ := hb.addTlv hadd hfew hfit hkeep hbody
  rw [← hbuf, huid] at hrun
  refine ⟨{ st with message := msg', buffer := buf' }, by simp only [ServiceState.addTlv, hrun],
    ⟨us ++ [u], ?_, hb'⟩, ?_, ?_⟩
  · rw [List.map_append, hus, List.map_singleton, hu]
  · have hst' := hst.size
    rw [hbuf, Buf.withMem_size] at hst'
    exact hsize.trans hst'
  · rw [hst.rest]

end Chain

section Units
variable (st₀ : ServiceState) {c : Octet} {ts : List Tlv}

theorem Drafted.clockInfo {st : ServiceState} (h : Drafted st₀ c ts st) :
    st.clockInfo = st₀.clockInfo ∧ st.rxTs = st₀.rxTs := by
  rw [h.rest]
  exact ⟨rfl, rfl⟩

theorem addRespTlv_does :
    Attempt.Does (Drafted st₀ c ts)
      ((Attempt.call ServiceState.addRespTlv).andThen
        (Attempt.call (ServiceState.addTlv .csptpResponse)) : Attempt _ Datagram)
      (addTo st₀.buffer.size (PtpMsg.getTlvSize .csptpResponse) (responseTlv st₀.clockInfo st₀.rxTs) ts)
      (Drafted st₀ c) := by
  refine Attempt.Does.andThen (Attempt.Does.call fun st hst => ?_) fun t ht => addTlv_does ?_
  · rw [ServiceState.addRespTlv, hst.clockInfo.1, hst.clockInfo.2]
    exact fillNext_spec (fillResponse_fills _ _) hst
  · rw [Option.ite_none_right_eq_some, responseTlv, Option.map_eq_some_iff] at ht
    obtain ⟨-, ts, -, rfl⟩ := ht
    rfl

theorem addStatusTlv_does :
    Attempt.Does (Drafted st₀ c ts) ServiceState.addStatusTlv
      (addTo st₀.buffer.size (PtpMsg.getCSPTPStatusTlvSize st₀.clockInfo.networkProtocol)
        (statusTlv st₀.clockInfo) ts) (Drafted st₀ c) := by
  refine Attempt.Does.andThen (Attempt.Does.call fun st hst => ?_) fun t ht => addTlv_does ?_
  · rw [hst.clockInfo.1]
    exact fillNext_spec (fillStatus_fills _) hst
  · rw [Option.ite_none_right_eq_some, statusTlv, Option.map_eq_some_iff] at ht
    obtain ⟨-, a, -, rfl⟩ := ht
    rfl

theorem addAltTimeTlv_does :
    Attempt.Does (Drafted st₀ c ts) ServiceState.addAltTimeTlv
      (addTo st₀.buffer.size (PtpMsg.getTlvSize .alternateTimeOffsetIndicator)
        (altTimeTlv st₀.clockInfo) ts) (Drafted st₀ c) := by
  refine Attempt.Does.andThen (Attempt.Does.call fun st hst => ?_) fun t ht => addTlv_does ?_
  · rw [hst.clockInfo.1]
    exact fillNext_spec (fillAltTime_fills _) hst
  · rw [Option.ite_none_right_eq_some, altTimeTlv, Option.bind_eq_some_iff] at ht
    obtain ⟨-, jump, -, hjump⟩ := ht
    split at hjump
    · rw [← Option.some.inj hjump]
      rfl
    · simp at hjump

end Units

/-- The octets went out as the answer from this state, or did not because the network refused. -/
structure Sent (st₀ : ServiceState) (net : Bool) (octs : List Octet)
    (r : Bool × ServiceState × List Datagram) : Prop where
  flag : r.1 = net
  out : r.2.2 = if net then [⟨st₀.address, octs⟩] else []
  size : r.2.1.buffer.size = st₀.buffer.size
  rest : r.2.1 = { st₀ with message := r.2.1.message, buffer := r.2.1.buffer }

section Sending
variable (st₀ : ServiceState) {c : Octet} {ts : List Tlv}

theorem stamp_does :
    Attempt.Does (· = st₀) (Attempt.call ServiceState.stamp : Attempt _ Datagram) st₀.t2.toTimestamp
      fun ts2 st => st = { st₀ with params := { st₀.params with timestamp := ts2 } } := by
  refine Attempt.Does.call fun st hst => ?_
  rw [hst, ServiceState.stamp]
  cases st₀.t2.toTimestamp with
  | none => rfl
  | some ts2 => exact ⟨_, rfl, rfl⟩

theorem init_does (hc : st₀.params.type.controlField = some c) :
    Attempt.Does (· = st₀) (Attempt.call ServiceState.init : Attempt _ Datagram) (startIn st₀.buffer.size)
      (Drafted st₀ c) := by
  refine Attempt.Does.call fun st hst => ?_
  have hstart := startIn_spec st₀.message st₀.buffer hc
  rw [hst, ServiceState.init]
  cases ho : startIn st₀.buffer.size with
  | none =>
    rw [ho] at hstart
    exact hstart
  | some ts =>
    rw [ho] at hstart
    obtain ⟨msg', buf', hrun, hsize, hb⟩ := hstart
    exact ⟨{ st₀ with message := msg', buffer := buf' }, by simp only [hrun],
      ⟨ts, startIn_zeroFill ho, hb⟩, hsize, rfl⟩

theorem finish_ends {size : ℕ} {net : Bool} :
    Attempt.Ends (Drafted st₀ c ts)
      ((Attempt.call (ServiceState.buildDone size)).andThen (ServiceState.socketSend net))
      (finish st₀.buffer.size st₀.params c size ts) (Sent st₀ net) := by
  intro st hst
  obtain ⟨us, hus, hb⟩ := hst.built
  have hdone := hb.finish_spec size
  rw [hst.size, ← finish_zeroFill, hus] at hdone
  cases ho : finish st₀.buffer.size st₀.params c size ts with
  | none =>
    rw [ho] at hdone
    have hfalse : ((Attempt.call (ServiceState.buildDone size) : Attempt _ Datagram) st).1 = false :=
      hdone
    rw [Attempt.andThen_of_false hfalse]
    exact ⟨hfalse, rfl⟩
  | some octs =>
    rw [ho] at hdone
    obtain ⟨msg', buf', hrun, hsize, hdata⟩ := hdone
    have hstep : (Attempt.call (ServiceState.buildDone size) : Attempt _ Datagram) st =
        (true, { st with message := msg', buffer := buf' }, []) := by
      simp only [Attempt.call, ServiceState.buildDone, hrun]
    have hsend : send buf' st.address net = if net then [⟨st₀.address, octs⟩] else [] := by
      rw [send, hdata, hst.rest]
    rw [Attempt.andThen_of_true hstep]
    refine ⟨rfl, hsend, hsize, ?_⟩
    change { st with message := msg', buffer := buf' } = _
    rw [hst.rest]
    rfl

theorem composeRespSync_ends (hc : st₀.params.type.controlField = some c) (size : ℕ)
    (tlvReqFlags0 : Octet) (net : Bool) :
    Attempt.Ends (· = st₀) (ServiceState.composeRespSync size tlvReqFlags0 net)
      (composed st₀.buffer.size st₀.clockInfo st₀.params c st₀.rxTs st₀.t2 tlvReqFlags0 size)
      fun octs r => ∃ ts2, st₀.t2.toTimestamp = some ts2 ∧
        Sent { st₀ with params := { st₀.params with timestamp := ts2 } } net octs r := by
  refine (stamp_does st₀).andThen fun ts2 hts2 => ?_
  set st₁ : ServiceState := { st₀ with params := { st₀.params with timestamp := ts2 } }
  refine (init_does st₁ hc).andThen fun ts _ => ?_
  refine (addRespTlv_does st₁).andThen fun ts _ => ?_
  refine ((addStatusTlv_does st₁).orElse fun _ h => h).andThen fun ts _ => ?_
  refine ((addAltTimeTlv_does st₁).orElse fun _ h => h).andThen fun ts _ => ?_
  exact (finish_ends st₁).imp _ fun octs r h => ⟨ts2, hts2, h⟩

theorem composeFollowUp_ends (hc : st₀.params.type.controlField = some c) (size : ℕ) (net : Bool) :
    Attempt.Ends (· = st₀) (ServiceState.composeFollowUp size net)
      (st₀.t2.toTimestamp.bind fun ts2 => (startIn st₀.buffer.size).bind fun ts =>
        finish st₀.buffer.size { st₀.params with timestamp := ts2 } c size ts)
      fun octs r => ∃ ts2, st₀.t2.toTimestamp = some ts2 ∧
        Sent { st₀ with params := { st₀.params with timestamp := ts2 } } net octs r := by
  refine (stamp_does st₀).andThen fun ts2 hts2 => ?_
  set st₁ : ServiceState := { st₀ with params := { st₀.params with timestamp := ts2 } }
  refine (init_does st₁ hc).andThen fun ts _ => ?_
  exact (finish_ends st₁).imp _ fun octs r h => ⟨ts2, hts2, h⟩

end Sending

/-! ## One pass -/

/-- The Follow_Up in two-step mode. -/
def followUpReply (bufSize : ℕ) (useTxTwoSteps : Bool) (params : PtpParams) (t2 : Timespec)
    (net : Bool) (size : ℕ) : List (List Octet) :=
  if useTxTwoSteps = false then []
  else match followUp bufSize params t2 size with
    | none => []
    | some octs => if net then [octs] else []

/-- What the service sends back for a request, in order. -/
def replies (bufSize : ℕ) (clk : IfClk) (useTxTwoSteps : Bool) (params : PtpParams) (rxTs : Timespec)
    (inp : ServiceInput) (tlvReqFlags0 : Octet) (size : ℕ) : List (List Octet) :=
  match respSync bufSize clk params rxTs inp.now.toTimespec tlvReqFlags0 size with
  | none => []
  | some octs =>
    if inp.netRespSync = false then []
    else octs :: followUpReply bufSize useTxTwoSteps params inp.now.toTimespec inp.netFollowUp size

/-- What the service sends back for an accepted message with these parameters, if it had request
flags. -/
def repliesTo (bufSize : ℕ) (clk : IfClk) (useTxTwoSteps : Bool) (params : PtpParams)
    (rxTs : Timespec) (inp : ServiceInput) (tlvReqFlags0 : Option Octet) (size : ℕ) :
    List (List Octet) :=
  if params.type = .sync then
    match tlvReqFlags0 with
    | none => []
    | some flags =>
      replies bufSize clk useTxTwoSteps { params with useTwoSteps := useTxTwoSteps } rxTs inp flags size
  else []

section RepliesTo
variable {bufSize size : ℕ} {clk : IfClk} {useTxTwoSteps : Bool} {params : PtpParams}
  {rxTs : Timespec} {inp : ServiceInput}

theorem repliesTo_sync (h : params.type = .sync) (flags : Octet) :
    repliesTo bufSize clk useTxTwoSteps params rxTs inp (some flags) size =
      replies bufSize clk useTxTwoSteps { params with useTwoSteps := useTxTwoSteps } rxTs inp flags
        size := if_pos h

theorem repliesTo_of_ne (h : params.type ≠ .sync) (tlvReqFlags0 : Option Octet) :
    repliesTo bufSize clk useTxTwoSteps params rxTs inp tlvReqFlags0 size = [] := if_neg h

@[simp] theorem repliesTo_none : repliesTo bufSize clk useTxTwoSteps params rxTs inp none size = [] :=
  ite_self _

theorem mem_repliesTo {tlvReqFlags0 : Option Octet} {octs : List Octet}
    (h : octs ∈ repliesTo bufSize clk useTxTwoSteps params rxTs inp tlvReqFlags0 size) :
    ∃ flags, tlvReqFlags0 = some flags ∧ params.type = .sync ∧
      octs ∈ replies bufSize clk useTxTwoSteps { params with useTwoSteps := useTxTwoSteps } rxTs inp
        flags size := by
  by_cases htype : params.type = .sync
  · cases tlvReqFlags0 with
    | none =>
      rw [repliesTo_none] at h
      exact absurd h List.not_mem_nil
    | some flags =>
      rw [repliesTo_sync htype] at h
      exact ⟨flags, rfl, htype, h⟩
  · rw [repliesTo_of_ne htype] at h
    exact absurd h List.not_mem_nil

end RepliesTo

section OnePass
variable (st : ServiceState) (size : ℕ) (net : Bool)

theorem sendRespSync_ends (tlvReqFlags0 : Octet) (now : ClockReading) :
    Attempt.Ends (· = st) (ServiceState.sendRespSync size tlvReqFlags0 now net)
      (respSync st.buffer.size st.clockInfo st.params st.rxTs now.toTimespec tlvReqFlags0 size)
      fun octs r => r.1 = net ∧ r.2.2 = (if net then [⟨st.address, octs⟩] else []) ∧
        r.2.1.buffer.size = st.buffer.size ∧ r.2.1.address = st.address ∧ r.2.1.t2 = now.toTimespec ∧
        ∃ ts, r.2.1.params = { st.params with type := .sync, timestamp := ts } := by
  intro s hs
  have h := (composeRespSync_ends (c := 0)
    { st with params := { st.params with type := .sync }, t2 := now.toTimespec } rfl size tlvReqFlags0
    net).imp (fun octs r => r.1 = net ∧ r.2.2 = (if net then [⟨st.address, octs⟩] else []) ∧
        r.2.1.buffer.size = st.buffer.size ∧ r.2.1.address = st.address ∧ r.2.1.t2 = now.toTimespec ∧
        ∃ ts, r.2.1.params = { st.params with type := .sync, timestamp := ts })
    fun octs r ⟨ts2, _, hr⟩ => ⟨hr.flag, hr.out, hr.size, by rw [hr.rest], by rw [hr.rest], ts2,
      by rw [hr.rest]⟩
  rw [hs]
  exact h _ rfl

theorem sendFollowUp_ends :
    Attempt.Ends (· = st) (ServiceState.sendFollowUp size net)
      (followUp st.buffer.size st.params st.t2 size)
      fun octs r => r.1 = net ∧ r.2.2 = if net then [⟨st.address, octs⟩] else [] := by
  intro s hs
  have h := (composeFollowUp_ends (c := 2) { st with params := { st.params with type := .followUp } } rfl
    size net).imp (fun octs r => r.1 = net ∧ r.2.2 = if net then [⟨st.address, octs⟩] else [])
    fun octs r ⟨ts2, _, hr⟩ => ⟨hr.flag, hr.out⟩
  rw [hs]
  exact h _ rfl

theorem followUpReply_out (useTxTwoSteps : Bool) :
    (Attempt.orElse (useTxTwoSteps = false) (ServiceState.sendFollowUp size net) st).2.2 =
      (followUpReply st.buffer.size useTxTwoSteps st.params st.t2 net size).map (⟨st.address, ·⟩) := by
  rw [Attempt.orElse, followUpReply]
  by_cases hmode : useTxTwoSteps = false
  · rw [if_pos hmode, if_pos hmode]
    rfl
  · have hfu := sendFollowUp_ends st size net st rfl
    rw [if_neg hmode, if_neg hmode]
    cases hf : followUp st.buffer.size st.params st.t2 size with
    | none =>
      rw [hf] at hfu
      exact hfu.2
    | some octs =>
      rw [hf] at hfu
      refine hfu.2.trans ?_
      cases net <;> rfl

/-- Whatever message object and buffer contents the service is in, it sends `replies`. -/
theorem answerRequest_out (useTxTwoSteps : Bool) (inp : ServiceInput) (tlvReqFlags0 : Octet) :
    ((ServiceState.answerRequest useTxTwoSteps inp size tlvReqFlags0) st).2.2 =
      (replies st.buffer.size st.clockInfo useTxTwoSteps st.params st.rxTs inp tlvReqFlags0 size).map
        (⟨st.address, ·⟩) := by
  have hresp := sendRespSync_ends st size inp.netRespSync tlvReqFlags0 inp.now st rfl
  rw [ServiceState.answerRequest, replies]
  cases hc : respSync st.buffer.size st.clockInfo st.params st.rxTs inp.now.toTimespec tlvReqFlags0
    size with
  | none =>
    rw [hc] at hresp
    rw [Attempt.andThen_of_false hresp.1]
    exact hresp.2
  | some resp =>
    rw [hc] at hresp
    obtain ⟨hflag, hout, hsize, haddr, ht2, ts, hparams⟩ := hresp
    cases hnet : inp.netRespSync with
    | false =>
      rw [hnet] at hflag hout
      rw [Attempt.andThen_of_false hflag]
      exact hout
    | true =>
      rw [hnet] at hflag hout hsize haddr ht2 hparams
      set st' := (ServiceState.sendRespSync size tlvReqFlags0 inp.now true st).2.1
      have hrun : ServiceState.sendRespSync size tlvReqFlags0 inp.now true st =
          (true, st', [⟨st.address, resp⟩]) := Prod.ext hflag (Prod.ext rfl hout)
      have hfu := followUpReply_out st' size inp.netFollowUp useTxTwoSteps
      rw [hsize, haddr, ht2, hparams] at hfu
      rw [Attempt.andThen_of_true hrun]
      exact congrArg (List.cons _) hfu

theorem answer_out (useTxTwoSteps : Bool) (inp : ServiceInput) (st : ServiceState) :
    (ServiceState.answer useTxTwoSteps inp st).2.2 =
      (repliesTo st.buffer.size st.clockInfo useTxTwoSteps st.params st.rxTs inp
        ((rcvReqSync st.message.tlvs none).run st.buffer.mem).1 st.buffer.len).map (⟨st.address, ·⟩) := by
  rw [ServiceState.answer]
  split
  · rename_i htype
    dsimp only
    cases ((rcvReqSync st.message.tlvs none).run st.buffer.mem).1 with
    | none => simp
    | some flags =>
      rw [repliesTo_sync htype]
      exact answerRequest_out
        { st with params := { st.params with useTwoSteps := useTxTwoSteps } } _ _ _ _
  · rename_i htype
    rw [repliesTo_of_ne htype]
    rfl

end OnePass

end Csptp

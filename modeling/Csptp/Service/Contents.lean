import Csptp.Service.Loops

/-! # What an answer says

With a valid clock description and times in range nothing but the size of the request decides whether
the service answers. The answer then carries the request's parameters, the receive time, the TLVs that
were asked for and the time of sending. -/
namespace Csptp
open Octets Octets.Prog
set_option autoImplicit false

/-! ## A valid clock description -/

/-- A clock description that fits into its TLVs. -/
structure IfClk.Valid (clk : IfClk) : Prop where
  networkProtocol : clk.networkProtocol ≠ .invalidProto
  displayName : clk.displayName.length ≤ maxTzLen
  timeOfNextJump : clk.timeOfNextJump.toNat < 2 ^ 48

/-- The values of an ALTERNATE_TIME_OFFSET_INDICATOR for this description. -/
def IfClk.altTime (clk : IfClk) (h : clk.displayName.length ≤ maxTzLen) (jump : UInteger48) : AltTime :=
  { keyField := clk.keyField, currentOffset := clk.currentOffset, jumpSeconds := clk.jumpSeconds,
    timeOfNextJump := jump, displayName := clk.displayName,
    fill := List.replicate (clk.displayName.length % 2) 0,
    name_lt := clk.name_lt h, fill_len := clk.fill_len }

/-- The values of a CSPTP_RESPONSE for a request that came in at this time. -/
def IfClk.response (clk : IfClk) (reqIngressTimestamp : Timestamp) : Response :=
  { organizationId := clk.organizationId, organizationSubType := clk.organizationSubType,
    reqIngressTimestamp := reqIngressTimestamp, reqCorrectionField := 0 }

theorem IfClk.Valid.portAddress {clk : IfClk} (h : clk.Valid) :
    ∃ a, clk.portAddress = some a ∧ a.networkProtocol = clk.networkProtocol := by
  cases ha : clk.portAddress with
  | some a => exact ⟨a, rfl, portAddress_networkProtocol ha⟩
  | none =>
    have hp := h.networkProtocol
    rw [IfClk.portAddress] at ha
    split at ha <;> simp_all

theorem IfClk.Valid.altTimeTlv {clk : IfClk} (h : clk.Valid) :
    ∃ jump, getUint48 jump = clk.timeOfNextJump ∧
      altTimeTlv clk = some (.altTime (clk.altTime h.displayName jump)) := by
  obtain ⟨jump, hset, hget⟩ := setUint48_of_lt h.timeOfNextJump
  refine ⟨jump, BitVec.eq_of_toNat_eq hget, ?_⟩
  rw [Csptp.altTimeTlv, hset, Option.bind_some, dif_pos h.displayName]
  rfl

/-! ## The TLVs of an answer -/

/-- The TLVs that the request flags ask for, behind the response. -/
def answerList (flags : Octet) (response status altTime : Tlv) : List Tlv :=
  [response] ++ (if flags &&& flags0ReqStatusTlv = 0 then [] else [status]) ++
    if flags &&& flags0ReqAlternateTimeTlv = 0 then [] else [altTime]

/-- The size of an answer without a PAD TLV. -/
def need (clk : IfClk) (flags : Octet) : ℕ :=
  72 + (if flags &&& flags0ReqStatusTlv = 0 then 0 else
      PtpMsg.getCSPTPStatusTlvSize clk.networkProtocol) +
    if flags &&& flags0ReqAlternateTimeTlv = 0 then 0 else altTimeSize clk.displayName.length

theorem need_even (clk : IfClk) (flags : Octet) : need clk flags % 2 = 0 := by
  have hstatus : PtpMsg.getCSPTPStatusTlvSize clk.networkProtocol % 2 = 0 := by
    cases clk.networkProtocol <;> rfl
  rw [need, altTimeSize]
  split_ifs <;> omega

section Tlvs
variable {clk : IfClk} {a : PortAddress} {rx : Timestamp} {jump : UInteger48}

theorem status_size (clk : IfClk) (ha : a.networkProtocol = clk.networkProtocol) :
    (Tlv.status (clk.status a)).size = PtpMsg.getCSPTPStatusTlvSize clk.networkProtocol := by
  rw [← ha]
  cases a <;> rfl

theorem tlvsSize_answerList (ha : a.networkProtocol = clk.networkProtocol)
    (hname : clk.displayName.length ≤ maxTzLen) (flags : Octet) :
    44 + tlvsSize (answerList flags (.response (clk.response rx)) (.status (clk.status a))
      (.altTime (clk.altTime hname jump))) = need clk flags := by
  have hstatus := status_size clk ha
  have hresponse : (Tlv.response (clk.response rx)).size = 28 := rfl
  have halt : (Tlv.altTime (clk.altTime hname jump)).size = altTimeSize clk.displayName.length := rfl
  rw [answerList, need]
  split_ifs <;>
    simp only [tlvsSize_append, tlvsSize_cons, tlvsSize_nil, hresponse, hstatus, halt] <;> omega

theorem addTo_of_room {bufSize n : ℕ} (t : Tlv) {ts : List Tlv} (h : RoomFor bufSize ts n) :
    addTo bufSize n (some t) ts = some (ts ++ [t]) := by
  rw [addTo, if_pos h, Option.bind_some]

/-- The service's buffer has room for every answer. -/
theorem answerTlvs_of_valid (hclk : clk.Valid) {rxTs : Timespec} (hrx : rxTs.toTimestamp = some rx)
    (ha : clk.portAddress = some a)
    (hj : altTimeTlv clk = some (.altTime (clk.altTime hclk.displayName jump))) (flags : Octet) :
    answerTlvs serviceBufSize clk rxTs flags = some (answerList flags (.response (clk.response rx))
      (.status (clk.status a)) (.altTime (clk.altTime hclk.displayName jump))) := by
  have hsize := status_size clk (portAddress_networkProtocol ha)
  have hstatus : PtpMsg.getCSPTPStatusTlvSize clk.networkProtocol ≤ 48 := by
    cases clk.networkProtocol <;> decide
  have hresponse : responseTlv clk rxTs = some (.response (clk.response rx)) := by
    rw [responseTlv, hrx]
    rfl
  have hr28 : (Tlv.response (clk.response rx)).size = 28 := rfl
  have hstart : startIn serviceBufSize = some [] := rfl
  have hfirst := addTo_of_room (.response (clk.response rx))
    (show RoomFor serviceBufSize [] (PtpMsg.getTlvSize .csptpResponse) by decide)
  rw [answerTlvs, hstart, Option.bind_some, hresponse, hfirst, Option.bind_some, statusTlv, ha,
    Option.map_some, hj, answerList, List.nil_append]
  have heven : makeEven (PtpMsg.getCSPTPStatusTlvSize clk.networkProtocol) ≤ 48 := by
    cases clk.networkProtocol <;> decide
  have halt : makeEven (PtpMsg.getTlvSize .alternateTimeOffsetIndicator) = 30 := rfl
  have hroom : RoomFor serviceBufSize [.response (clk.response rx)]
      (PtpMsg.getCSPTPStatusTlvSize clk.networkProtocol) :=
    ⟨by simp [maxTlvs], by rw [tlvsSize_cons, tlvsSize_nil, hr28, serviceBufSize]; omega⟩
  have hsecond := addTo_of_room (.status (clk.status a)) hroom
  rw [hsecond]
  by_cases h1 : flags &&& flags0ReqStatusTlv = 0
  · rw [if_pos h1, if_pos h1, Option.bind_some, List.append_nil,
      addTo_of_room _ ⟨by simp [maxTlvs], by
        rw [halt, tlvsSize_cons, tlvsSize_nil, hr28, serviceBufSize]; omega⟩]
    split <;> rfl
  · rw [if_neg h1, if_neg h1, Option.bind_some,
      addTo_of_room _ ⟨by simp [maxTlvs], by
        rw [halt, tlvsSize_append, tlvsSize_cons, tlvsSize_cons, tlvsSize_nil, hr28, hsize,
          serviceBufSize]
        omega⟩]
    split
    · rw [List.append_nil]
    · rfl

theorem answerList_zeroFill (hname : clk.displayName.length ≤ maxTzLen) (flags : Octet) :
    (answerList flags (.response (clk.response rx)) (.status (clk.status a))
      (.altTime (clk.altTime hname jump))).map Tlv.zeroFill =
      answerList flags (.response (clk.response rx)) (.status (clk.status a))
        (.altTime (clk.altTime hname jump)) := by
  rw [answerList]
  split_ifs <;> rfl

theorem answerList_addable (hname : clk.displayName.length ≤ maxTzLen) (flags : Octet) :
    AddableTlvs (answerList flags (.response (clk.response rx)) (.status (clk.status a))
      (.altTime (clk.altTime hname jump))) := by
  rw [answerList]
  refine ⟨by split_ifs <;> simp [maxTlvs], fun t ht => ?_⟩
  have ht' : t = .response (clk.response rx) ∨ t = .status (clk.status a) ∨
      t = .altTime (clk.altTime hname jump) := by
    split_ifs at ht <;> simp at ht <;> tauto
  rcases ht' with rfl | rfl | rfl
  · trivial
  · trivial
  · exact hname

end Tlvs

/-! ## When the service answers -/

/-- The sizes of a request that gets an answer. -/
def Answerable (clk : IfClk) (flags : Octet) (n : ℕ) : Prop :=
  n % 2 = 0 ∧ need clk flags ≤ n ∧ n - need clk flags ≠ 2

instance (clk : IfClk) (flags : Octet) (n : ℕ) : Decidable (Answerable clk flags n) :=
  inferInstanceAs (Decidable (_ ∧ _))

theorem Answerable.fits {clk : IfClk} {flags : Octet} {n : ℕ} (h : Answerable clk flags n) :
    n = need clk flags ∨ need clk flags + 4 ≤ n := by
  have hneed := need_even clk flags
  obtain ⟨heven, hge, hgap⟩ := h
  omega

theorem finishable_iff_answerable (clk : IfClk) (flags : Octet) {n : ℕ} (hn : 0 < n)
    (hle : n ≤ serviceBufSize) :
    Finishable (need clk flags) serviceBufSize n ↔ Answerable clk flags n := by
  have heven := need_even clk flags
  rw [Finishable, Answerable]
  constructor
  · rintro (h | ⟨h1, h2, h3⟩) <;> omega
  · rintro ⟨h1, h2, h3⟩
    omega

section Replies
variable {clk : IfClk} {params : PtpParams} {rxTs : Timespec} {flags : Octet} {n : ℕ}

theorem followUpReply_of_answerable {now : Timespec} {t2 : Timestamp} (ht2 : now.toTimestamp = some t2)
    (hans : Answerable clk flags n) (hle : n ≤ serviceBufSize) (useTxTwoSteps net : Bool) :
    followUpReply serviceBufSize useTxTwoSteps params now net n =
      if useTxTwoSteps = true ∧ net = true then
        [wireOctets { params with type := .followUp, timestamp := t2 } 2 [] n]
      else [] := by
  obtain ⟨heven, hge, -⟩ := hans
  have hneed : 72 ≤ need clk flags := by
    rw [need]
    omega
  have hfu : Finishable (44 + tlvsSize []) serviceBufSize n := by
    rw [Finishable, tlvsSize_nil]
    omega
  have hstart : startIn serviceBufSize = some [] := rfl
  have hocts : followUp serviceBufSize params now n =
      some (wireOctets { params with type := .followUp, timestamp := t2 } 2 [] n) := by
    rw [followUp, ht2, Option.bind_some, hstart, Option.bind_some, finish, if_pos hfu,
      finalSize_of_pos (by omega)]
  rw [followUpReply, hocts]
  cases useTxTwoSteps <;> cases net <;> rfl

/-- The octets of the Response Sync and of the Follow_Up for a valid clock description. -/
theorem replies_of_valid (params : PtpParams) (flags : Octet) (hclk : clk.Valid)
    (hrx : rxTs.Normal ∧ rxTs.InRange) (inp : ServiceInput) (hnow : inp.now.toTimespec.InRange)
    (useTxTwoSteps : Bool) (hn : 0 < n) (hle : n ≤ serviceBufSize) :
    ∃ rx t2 a jump, Timespec.ofTimestamp rx = rxTs ∧ Timespec.ofTimestamp t2 = inp.now.toTimespec ∧
      clk.portAddress = some a ∧ getUint48 jump = clk.timeOfNextJump ∧
      replies serviceBufSize clk useTxTwoSteps params rxTs inp flags n =
        if Answerable clk flags n ∧ inp.netRespSync = true then
          wireOctets { params with type := .sync, timestamp := t2 } 0
            (answerList flags (.response (clk.response rx)) (.status (clk.status a))
              (.altTime (clk.altTime hclk.displayName jump))) n ::
            if useTxTwoSteps = true ∧ inp.netFollowUp = true then
              [wireOctets { params with type := .followUp, timestamp := t2 } 2 [] n]
            else []
        else [] := by
  obtain ⟨rx, hrx, hofrx, -⟩ := Timespec.toTimestamp_of_inRange hrx.1 hrx.2
  obtain ⟨t2, ht2, hoft2, -⟩ := Timespec.toTimestamp_of_inRange inp.now.normal hnow
  obtain ⟨a, ha, hprot⟩ := hclk.portAddress
  obtain ⟨jump, hjump, halt⟩ := hclk.altTimeTlv
  refine ⟨rx, t2, a, jump, hofrx, hoft2, ha, hjump, ?_⟩
  have hfin := finishable_iff_answerable clk flags hn hle
  rw [replies, respSync_eq, ht2, Option.bind_some, answerTlvs_of_valid hclk hrx ha halt flags,
    Option.bind_some, finish, tlvsSize_answerList hprot hclk.displayName]
  by_cases hans : Answerable clk flags n
  · rw [if_pos (hfin.mpr hans), finalSize_of_pos hn]
    dsimp only
    rw [followUpReply_of_answerable ht2 hans hle]
    cases inp.netRespSync with
    | false => simp
    | true => simp [hans]
  · rw [if_neg (fun h => hans (hfin.mp h)), if_neg (fun h => hans h.1)]

theorem readsAs_response {a : PortAddress} (rx t2 : Timestamp) (jump : UInteger48)
    (ha : a.networkProtocol = clk.networkProtocol) (hname : clk.displayName.length ≤ maxTzLen)
    (hf : params.flagField2.toNat < 64) (hans : Answerable clk flags n) (hle : n ≤ serviceBufSize) :
    let ts := answerList flags (.response (clk.response rx)) (.status (clk.status a))
      (.altTime (clk.altTime hname jump))
    ReadsAs (wireOctets { params with type := .sync, timestamp := t2 } 0 ts n)
        { params with type := .sync, timestamp := t2 } ts ∧
      (wireOctets { params with type := .sync, timestamp := t2 } 0 ts n).length = n := by
  intro ts
  have hsize : 44 + tlvsSize ts = need clk flags := tlvsSize_answerList ha hname flags
  rw [serviceBufSize] at hle
  have hcases := hans.fits
  rw [← hsize] at hcases
  have hadd : AddableTlvs ts := answerList_addable hname flags
  refine ⟨?_, wireOctets_length hcases⟩
  have hread := readsAs_wireOctets { params with type := .sync, timestamp := t2 } (c := 0) hcases
    (by omega) rfl hf hadd.1 fun t ht => (hadd.2 t ht).lt_size
  rwa [answerList_zeroFill hname flags] at hread

theorem readsAs_followUp (t2 : Timestamp) (hf : params.flagField2.toNat < 64)
    (hans : Answerable clk flags n) (hle : n ≤ serviceBufSize) :
    ReadsAs (wireOctets { params with type := .followUp, timestamp := t2 } 2 [] n)
        { params with type := .followUp, timestamp := t2 } [] ∧
      (wireOctets { params with type := .followUp, timestamp := t2 } 2 [] n).length = n := by
  obtain ⟨-, hge, -⟩ := hans
  have hneed : 72 ≤ need clk flags := by
    rw [need]
    omega
  rw [serviceBufSize] at hle
  have hcases : n = 44 + tlvsSize [] ∨ 44 + tlvsSize [] + 4 ≤ n := by
    rw [tlvsSize_nil]
    omega
  exact ⟨readsAs_wireOctets _ hcases (by omega) rfl hf (Nat.zero_le _)
    fun t ht => absurd ht List.not_mem_nil, wireOctets_length hcases⟩

end Replies

/-! ## The answer to a request -/

end Csptp

import Csptp.Client.Numbers
import Csptp.Cmdl.Written
import Csptp.Resolve
import Csptp.Traffic.Answers

/-! # The client from its command line to the wire

`client_main` as a whole: in each datagram of a run every receiver reads what the command line says. -/
namespace Csptp
open Octets
set_option autoImplicit false

/-- `struct client_opt`, as `client_main_allocObjs` and the loop read it. -/
def ParsedClient.options (o : ParsedClient) : ClientOpt :=
  ⟨o.useTwoSteps, o.useCSPTPstatus, o.useAltTimeScale, o.domainNumber, o.type, o.ip.map CStr.text⟩

/-- `client_main`. It makes a call for each of these inputs, or none when its command line or its objects
fail. -/
def clientProgram (sys : CmdSystem) (resolve : Resolver) (args : List GetoptStep) (contents : Mem)
    (inps : List FlowInput) : Option (List FlowResult) := do
  match ← cmdClient sys args with
  | (.ok, some (o, _)) =>
    match clientAllocObjs resolve o.options contents with
    | some st => clientMain o.options inps st 1
    | none => some []
  | _ => some []

/-! ## One call -/

section Call
variable {opt : ClientOpt} {st : ClientState}

/-- The octets that a call can put on the network. -/
def callOctets (st : ClientState) (flags : Octet) (sID : BitVec 16) (ts1 : Timestamp) : List (List Octet) :=
  [wireOctets { st.params with type := .sync, sequenceId := sID, timestamp := ts1 } 0
      [.request (requestFlags flags)] st.size,
    wireOctets { st.params with type := .followUp, sequenceId := sID, timestamp := ⟨⟨0, 0⟩, 0⟩ } 2 [] st.size]

/-- A call puts the first ones of them on the network, and both only in two-step mode. -/
theorem transmit_sent (hp : st.setting.Prepared opt) (useTwoSteps : Bool) (sID : BitVec 16) (inp : FlowInput) :
    (ClientState.transmit useTwoSteps sID inp st).2.2 = [] ∨
      ∃ ts1 n, inp.now.toTimespec.toTimestamp = some ts1 ∧ n ≤ (if useTwoSteps then 2 else 1) ∧
        (ClientState.transmit useTwoSteps sID inp st).2.2 =
          ((callOctets st (clientSetTxParams opt).2 sID ts1).take n).map (⟨st.address, ·⟩) := by
  obtain ⟨hlow, -, heven⟩ := hp.size_spec
  have hroom : 56 ≤ st.size := le_trans (by omega) hlow
  have hbuf : st.buffer.size = st.size := hp.bufSize
  have hflags : st.tlvReqFlags0 = (clientSetTxParams opt).2 := hp.tlvReqFlags0
  have hfu := reqFollowUp_of_room st.params sID hroom heven
  obtain ⟨hout, -⟩ := ClientState.transmit_out st useTwoSteps sID inp
  rw [hout, hbuf, hflags, requests]
  cases hts1 : inp.now.toTimespec.toTimestamp with
  | none =>
    left
    rw [reqSync, hts1]
    rfl
  | some ts1 =>
    rw [reqSync_of_room st.params sID hts1 (clientSetTxParams opt).2 hroom heven]
    dsimp only
    cases inp.netReqSync with
    | false => exact .inl rfl
    | true =>
      right
      rw [if_neg (show ¬ (true = false) by simp), reqFollowUps, hfu]
      cases useTwoSteps with
      | false => exact ⟨ts1, 1, rfl, by decide, rfl⟩
      | true =>
        cases inp.netFollowUp with
        | false => exact ⟨ts1, 1, rfl, by decide, rfl⟩
        | true => exact ⟨ts1, 2, rfl, by decide, rfl⟩

/-- What every receiver reads in these octets. -/
theorem decode_call (hp : st.setting.Prepared opt) {sID : BitVec 16} {ts1 : Timestamp} {i : ℕ}
    {octs : List Octet} (h : (callOctets st (clientSetTxParams opt).2 sID ts1)[i]? = some octs) {size : ℕ}
    (hlow : 160 ≤ size) (hhigh : size < 2 ^ 16) : ∃ m, decode size octs = some m ∧
      m.params = { st.params with
        type := if i = 0 then .sync else .followUp
        sequenceId := sID
        timestamp := if i = 0 then ts1 else ⟨⟨0, 0⟩, 0⟩ } ∧
      m.requestFlags = if i = 0 then some (clientSetTxParams opt).2 else none := by
  obtain ⟨hmin, hmax, -⟩ := hp.size_spec
  have hroom : 56 ≤ st.size := le_trans (by omega) hmin
  have hle : st.size ≤ size := le_trans hmax hlow
  have hf : st.params.flagField2.toNat < 64 := by
    rw [show st.params.flagField2 = 0 from hp.flagField2]
    decide
  match i with
  | 0 =>
    cases h
    obtain ⟨-, -, m, hm, hparams, hflags⟩ := @decode_request
      { st.params with type := .sync, sequenceId := sID, timestamp := ts1 } (clientSetTxParams opt).2 st.size size
      hf (clientFlags opt).2.2 hroom hle hhigh
    exact ⟨m, hm, hparams, hflags⟩
  | 1 =>
    cases h
    have hcases : st.size = 44 + tlvsSize [] ∨ 44 + tlvsSize [] + 4 ≤ st.size := by
      rw [tlvsSize_nil]
      omega
    let params : PtpParams := { st.params with
      type := .followUp, sequenceId := sID, timestamp := ⟨⟨0, 0⟩, 0⟩ }
    have hlen : (wireOctets params 2 [] st.size).length = st.size := wireOctets_length hcases
    have hocts : wireOctets params 2 [] st.size =
        wireOctets params 2 [] (wireOctets params 2 [] st.size).length := by rw [hlen]
    rw [← hlen] at hcases hle
    obtain ⟨m, pads, hm, hparams, -, hpad, hrecords, hhost⟩ := @decode_finished size _ params 2 [] hocts hle hcases
      (by omega) rfl hf (Nat.zero_le _) (fun t ht => absurd ht List.not_mem_nil) (by omega)
    refine ⟨m, hm, hparams, ?_⟩
    rw [Received.requestFlags, hrecords, rcvReqSync_records hhost, List.map_nil, List.nil_append,
      requestFlag_of_pad hpad]
    rfl
  | i + 2 => exact absurd h (by simp [callOctets])

end Call

/-! ## A run -/

/-- Each call of a run is made in a state with the same setting. -/
theorem clientMain_calls {opt : ClientOpt} {inps : List FlowInput} {st : ClientState} {sequenceId : BitVec 16}
    {rs : List FlowResult} (h : clientMain opt inps st sequenceId = some rs) :
    rs.length = inps.length ∧ ∀ (k : ℕ) (r : FlowResult) (inp : FlowInput), rs[k]? = some r → inps[k]? = some inp →
      ∃ st' : ClientState, st'.setting = st.setting ∧
        st'.flow opt.domainNumber opt.useTwoSteps r.sequenceId inp = some r := by
  induction inps generalizing st sequenceId rs with
  | nil =>
    cases h
    exact ⟨rfl, fun k r inp hr => absurd hr (by simp)⟩
  | cons inp inps ih =>
    obtain ⟨r₀, rest, hr₀, hrest, rfl⟩ := clientMain_cons h
    obtain ⟨hlen, hcalls⟩ := ih hrest
    refine ⟨by rw [List.length_cons, hlen, List.length_cons], ?_⟩
    intro k r inp' hr hinp
    cases k with
    | zero =>
      cases hr
      cases hinp
      refine ⟨st, rfl, ?_⟩
      rw [(flow_cases hr₀).1]
      exact hr₀
    | succ k =>
      obtain ⟨st', hset, hflow⟩ := hcalls k r inp' hr hinp
      exact ⟨st', hset.trans (flow_keeps hr₀), hflow⟩

/-- With an address the objects can be made. -/
theorem allocObjs_some {resolve : Resolver} {opt : ClientOpt} {type : Prot} {address : SockAddr}
    (h : clientCreateAddress resolve opt = some (type, address)) (htype : type ≠ .invalidProto) (contents : Mem) :
    ∃ st, clientAllocObjs resolve opt contents = some st ∧ st.address = address ∧
      st.params = (clientSetTxParams opt).1 := by
  obtain ⟨rxAddress, hrx⟩ : ∃ rxAddress, addrAlloc type = some rxAddress := by
    cases type with
    | invalidProto => exact absurd rfl htype
    | udpIPv4 => exact ⟨_, rfl⟩
    | udpIPv6 => exact ⟨_, rfl⟩
  have hsize : clientSmoothSize (clientGetMsgSize opt type) ≠ 0 := by
    have hle := clientGetMsgSize_le opt type
    obtain ⟨hlow, -, -⟩ := clientSmoothSize_spec (show clientGetMsgSize opt type < 2 ^ 63 by omega)
    omega
  rw [clientAllocObjs, h, Option.bind_some]
  dsimp only
  rw [hrx, Option.bind_some, bufferAlloc, if_neg hsize]
  exact ⟨_, rfl, rfl, rfl⟩

/-! ## From the command line -/

namespace ClientSetting

/-- The flags of the request. -/
def tlvReqFlags0 (o : ClientSetting) : Octet :=
  (if o.useCSPTPstatus then flags0ReqStatusTlv else 0#8) |||
    (if o.useAltTimeScale then flags0ReqAlternateTimeTlv else 0#8)

/-- The `i`-th message of a call, which starts now, tells the setting. -/
structure IsToldBy (o : ClientSetting) (sequenceId : BitVec 16) (now : ClockReading) (i : ℕ) (m : Received) :
    Prop where
  type : m.params.type = if i = 0 then .sync else .followUp
  sequenceId : m.params.sequenceId = sequenceId
  domainNumber : m.params.domainNumber.toNat = o.domainNumber
  useTwoSteps : m.params.useTwoSteps = o.useTwoSteps
  correctionField : m.params.correctionField = 0
  timestamp : i = 0 → m.params.timestamp.time = some now.toTimespec
  requestFlags : m.requestFlags = if i = 0 then some o.tlvReqFlags0 else none

theorem domainNumber_eq {o : ClientSetting} {r : ParsedClient} (h : o.IsIn r) :
    ¬ (r.options.domainNumber < 128 ∨ r.options.domainNumber > 239) := by
  obtain ⟨hlow, hhigh⟩ := o.inRange
  have hdomain : r.options.domainNumber.toNat = o.domainNumber := h.domainNumber
  rw [BitVec.lt_def, gt_iff_lt, BitVec.lt_def, hdomain]
  simp only [BitVec.reduceToNat]
  omega

end ClientSetting

section Told
variable {o : ClientSetting} {opt : ClientOpt} {st : ClientState}

/-- The state has what was set. -/
structure Carries (o : ClientSetting) (opt : ClientOpt) (st : ClientState) : Prop where
  prepared : st.setting.Prepared opt
  domainNumber : opt.domainNumber.toNat = o.domainNumber
  useTwoSteps : st.setting.useTwoSteps = o.useTwoSteps
  correctionField : st.setting.correctionField = 0
  flags : (clientSetTxParams opt).2 = o.tlvReqFlags0

theorem told_of_call (h : Carries o opt st) {sID : BitVec 16} {now : ClockReading} {ts1 : Timestamp}
    (hts1 : now.toTimespec.toTimestamp = some ts1) {i : ℕ} {octs : List Octet}
    (hocts : (callOctets st (clientSetTxParams opt).2 sID ts1)[i]? = some octs) {size : ℕ} (hlow : 160 ≤ size)
    (hhigh : size < 2 ^ 16) : ∃ m, decode size octs = some m ∧ o.IsToldBy sID now i m := by
  obtain ⟨m, hm, hparams, hflags⟩ := decode_call h.prepared hocts hlow hhigh
  refine ⟨m, hm, ?_⟩
  have hdomain : st.params.domainNumber = opt.domainNumber := h.prepared.domainNumber
  exact {
    type := by rw [hparams]
    sequenceId := by rw [hparams]
    domainNumber := by rw [hparams]; exact (congrArg BitVec.toNat hdomain).trans h.domainNumber
    useTwoSteps := by rw [hparams]; exact h.useTwoSteps
    correctionField := by rw [hparams]; exact h.correctionField
    timestamp := by
      rintro rfl
      rw [hparams, if_pos rfl]
      exact time_of_toTimestamp now.normal hts1
    requestFlags := by rw [hflags, h.flags] }

/-- What a call sends, in which every receiver reads the setting. -/
theorem sent_told (h : Carries o opt st) (hopt : opt.useTwoSteps = o.useTwoSteps) {sID : BitVec 16}
    {inp : FlowInput} {r : FlowResult} (hflow : st.flow opt.domainNumber opt.useTwoSteps sID inp = some r) :
    r.sent.length ≤ (if o.useTwoSteps then 2 else 1) ∧
      (inp.netReqSync = true → inp.netFollowUp = true → inp.now.toTimespec.InRange →
        r.sent.length = if o.useTwoSteps then 2 else 1) ∧
      ∀ (i : ℕ) (d : Datagram), r.sent[i]? = some d → d.addr = st.address ∧
        ∀ size, 160 ≤ size → size < 2 ^ 16 → ∃ m, decode size d.octets = some m ∧ o.IsToldBy sID inp.now i m := by
  obtain ⟨-, hsent, -⟩ := flow_cases hflow
  rw [hsent, hopt]
  have hall : inp.netReqSync = true → inp.netFollowUp = true → inp.now.toTimespec.InRange →
      (ClientState.transmit o.useTwoSteps sID inp st).2.2.length = if o.useTwoSteps then 2 else 1 := by
    intro hsync hfollowUp hrange
    obtain ⟨ts1, hts1, -⟩ := Timespec.toTimestamp_of_inRange inp.now.normal hrange
    have htransmit := transmit_prepared h.prepared sID inp hts1 hsync hfollowUp
    rw [hopt] at htransmit
    rw [congrArg (fun r => r.2.2) htransmit]
    cases o.useTwoSteps <;> rfl
  rcases transmit_sent h.prepared o.useTwoSteps sID inp with hnil | ⟨ts1, n, hts1, hn, htake⟩
  · refine ⟨by rw [hnil]; exact Nat.zero_le _, hall, fun i d hd => ?_⟩
    rw [hnil] at hd
    exact absurd hd (by simp)
  · refine ⟨?_, hall, fun i d hd => ?_⟩
    · rw [htake, List.length_map, List.length_take]
      exact le_trans (min_le_left _ _) hn
    · rw [htake, List.getElem?_map, Option.map_eq_some_iff] at hd
      obtain ⟨octs, hocts, rfl⟩ := hd
      rw [List.getElem?_take, Option.ite_none_right_eq_some] at hocts
      exact ⟨rfl, fun size hlow hhigh => told_of_call h hts1 hocts.2 hlow hhigh⟩

end Told

/-- In every run of a client from the words of a setting, on messages that cover their header, each call sends
to the address of its service, and every receiver with enough room reads the setting in what it sends. -/
theorem client_on_the_wire {sys : CmdSystem} (hsys : HasMemory sys) {names : NameSystem} (hlawful : names.Lawful)
    (o : ClientSetting) {a : IPAddr} (haddress : names.address o.ip o.type = some a) (posixly : Bool)
    (program : List Octet) (contents : ℕ → Octet) (bin : OctetArray 16) (mem : Mem) :
    ∃ args, wordSteps posixly program o.words clientOptions contents = some args ∧
      ∀ inps rs, (∀ inp ∈ inps, ∀ poll ∈ inp.polls, ∀ size, poll.WellSized size) →
        clientProgram sys (names.resolve bin) args mem inps = some rs → rs.length = inps.length ∧
        ∀ (k : ℕ) (r : FlowResult) (inp : FlowInput), rs[k]? = some r → inps[k]? = some inp →
          r.sent.length ≤ (if o.useTwoSteps then 2 else 1) ∧
            (inp.netReqSync = true → inp.netFollowUp = true → inp.now.toTimespec.InRange →
              r.sent.length = if o.useTwoSteps then 2 else 1) ∧
            ∀ (i : ℕ) (d : Datagram), r.sent[i]? = some d → d.addr = a.sockAddr ∧
              ∀ size, 160 ≤ size → size < 2 ^ 16 →
                ∃ m, decode size d.octets = some m ∧ o.IsToldBy r.sequenceId inp.now i m := by
  obtain ⟨p, hp, hin⟩ := cmdClient_uses hsys o
  refine ⟨_, (words_run o posixly program contents).1, fun inps rs _ hrun => ?_⟩
  have hip : p.options.ip = some o.ip := hin.ip
  have htype : p.options.type = o.type := hin.type
  have hcreate : clientCreateAddress (names.resolve bin) p.options = some (a.type, a.sockAddr) := by
    rw [NameSystem.createAddress_eq hlawful, if_neg (ClientSetting.domainNumber_eq hin), hip, Option.bind_some,
      htype, haddress, Option.map_some]
  obtain ⟨st, hst, haddr, hparams⟩ := allocObjs_some hcreate a.type_ne mem
  have hmain : clientMain p.options inps st 1 = some rs := by
    rw [clientProgram, hp, Option.bind_eq_bind, Option.bind_some] at hrun
    dsimp only at hrun
    rw [hst] at hrun
    exact hrun
  have htwo : p.options.useTwoSteps = o.useTwoSteps := hin.useTwoSteps
  have hflags : (clientSetTxParams p.options).2 = o.tlvReqFlags0 := by
    have hstatus : p.options.useCSPTPstatus = o.useCSPTPstatus := hin.useCSPTPstatus
    have halt : p.options.useAltTimeScale = o.useAltTimeScale := hin.useAltTimeScale
    rw [clientSetTxParams, hstatus, halt]
    rfl
  have hcarries {st' : ClientState} (hset : st'.setting = st.setting) : Carries o p.options st' := by
    refine ⟨hset ▸ prepared_of_allocObjs hst, hin.domainNumber, ?_, ?_, hflags⟩
    · rw [hset, ClientState.setting, hparams]
      exact htwo
    · rw [hset, ClientState.setting, hparams]
      rfl
  obtain ⟨hlen, hcalls⟩ := clientMain_calls hmain
  refine ⟨hlen, fun k r inp hr hinp => ?_⟩
  obtain ⟨st', hset, hflow⟩ := hcalls k r inp hr hinp
  have haddr' : st'.address = a.sockAddr := (congrArg Setting.address hset).trans haddr
  rw [← haddr']
  exact sent_told (hcarries hset) htwo hflow

def sampleNumbered : ClientSetting :=
  { sampleSetting with type := .invalidProto, ip := NameSystem.sampleNumber, udp := .inr (.inr rfl) }

theorem client_on_the_wire_sample : ∃ args r,
    wordSteps true (chars "client") sampleNumbered.words clientOptions (fun _ => 0) = some args ∧
      clientProgram (sampleSystem true) (NameSystem.sampleNames.resolve in6addrAny) args (fun _ => 0xaa)
          [sampleSilent] = some [r] ∧
        ∃ d m, r.sent = [d] ∧ d.addr = .in6 ptpUdpPort 0 NameSystem.sampleLoopback 0 ∧
          decode 160 d.octets = some m ∧ m.params.domainNumber.toNat = 200 := by
  have hsys : HasMemory (sampleSystem true) := ⟨rfl, rfl, rfl, rfl⟩
  have haddress : NameSystem.sampleNames.address sampleNumbered.ip sampleNumbered.type =
    some (.v6 NameSystem.sampleLoopback) := rfl
  obtain ⟨args, hargs, hcalls⟩ := client_on_the_wire hsys NameSystem.sampleNames_lawful sampleNumbered haddress
    true (chars "client") (fun _ => 0) in6addrAny fun _ => 0xaa
  have hrun : (clientProgram (sampleSystem true) (NameSystem.sampleNames.resolve in6addrAny)
      (sampleNumbered.uses.map useStep) (fun _ => 0xaa) [sampleSilent]).map
        (fun rs => rs.map fun r => r.sent.length) = some [1] := by decide +kernel
  rw [Option.some.inj ((words_run sampleNumbered true (chars "client") fun _ => 0).1.symm.trans hargs)] at hrun
  obtain ⟨rs, hrs, hmap⟩ := Option.map_eq_some_iff.mp hrun
  obtain ⟨r, rest, rfl, hr, hnone⟩ := List.map_eq_cons_iff.mp hmap
  rw [List.map_eq_nil_iff] at hnone
  subst hnone
  obtain ⟨d, hd⟩ := List.length_eq_one_iff.mp hr
  have hidle : ∀ inp ∈ [sampleSilent], ∀ poll ∈ inp.polls, ∀ size, poll.WellSized size := by
    intro inp hinp poll hpoll size
    rw [List.mem_singleton.mp hinp] at hpoll
    rw [List.eq_of_mem_replicate hpoll]
    trivial
  obtain ⟨-, htold⟩ := hcalls _ _ hidle hrs
  obtain ⟨-, -, hsent⟩ := htold 0 r sampleSilent rfl rfl
  obtain ⟨haddr, hdecode⟩ := hsent 0 d (by rw [hd]; rfl)
  obtain ⟨m, hm, htells⟩ := hdecode 160 (by decide) (by decide)
  exact ⟨args, r, hargs, hrs, d, m, hd, haddr, hm, htells.domainNumber⟩

end Csptp

import Csptp.Cmdl.Returned
import Csptp.Descriptors
import Csptp.Service.Loops

/-! # The service from its command line to the wire

`service_main` as a whole: in every run each datagram gets the answer that the command line asks for, and
none of it depends on what came before, as long as all messages cover their header. -/
namespace Csptp
open Octets Octets.Prog
set_option autoImplicit false

/-! ## The command line -/

theorem validKeys_service : ValidKeys (baseOptions ++ serviceOptions : List (OptRec Unit)) := by
  have hvalid : ∀ c ∈ chars "yeilfrt6", ValidOption c := by simpa only [← isValid_iff] using by decide
  have hkeys : ((baseOptions ++ serviceOptions : List (OptRec Unit)).map OptRec.sKey).filter
      (fun c => 0 < c.toInt) = chars "yeilfrt6" := by
    decide
  intro a ha hpos
  refine hvalid a.sKey (hkeys ▸ List.mem_filter.mpr ⟨List.mem_map_of_mem ha, ?_⟩)
  exact decide_eq_true hpos

/-- The number of steps that an option of the service says. -/
def StepsSaid (us : List (Getopt.Use Octet)) (sk : Char) (useTwoSteps : Bool) : Prop :=
  ∃ i : ℤ, useTwoSteps = decide (i = 2) ∧ 1 ≤ i ∧ i ≤ 2 ∧
    (firstUse us sk).elim (i = 2) fun u => toInt64 (u.2.getD []) = some i

/-- The structure of the service has what the options say. -/
structure ServiceSays (us : List (Getopt.Use Octet)) (o : ParsedService) : Prop where
  useRxTwoSteps : StepsSaid us 'r' o.useRxTwoSteps
  useTxTwoSteps : StepsSaid us 't' o.useTxTwoSteps
  type : o.type = if (firstUse us '6').isSome then .udpIPv6 else .udpIPv4
  ifName : ∃ s, o.ifName = some s ∧ s.text = (firstUse us 'i').elim (chars "eth0") fun u => u.2.getD []

section Line
variable {us : List (Getopt.Use Octet)} {opt : Opt Unit} {sys : CmdSystem}

theorem steps_line {sk : Char} {cur : ℕ × ℕ} {key : String}
    (hrun : (cmdFresh serviceOptions).runTrue (us.map useCall) = some opt) (hsk : sk.toNat < 128)
    (htarget : (cmdFresh serviceOptions).target (.short sk.toNat) = some (cur, keyInt key sk 2 1 2)) :
    ∃ i, opt.getOptInt sk 2 = some i ∧ StepsSaid us sk (decide (i = 2)) := by
  obtain ⟨i, hi, hfirst⟩ := getOptInt_line (by simp [serviceOptions]) hrun hsk htarget (.inl rfl) 2
  refine ⟨i, hi, i, rfl, ?_⟩
  cases hu : firstUse us sk with
  | none =>
    rw [hu] at hfirst
    have hi' : i = 2 := hfirst
    exact ⟨by omega, by omega, hi'⟩
  | some u =>
    rw [hu] at hfirst
    obtain ⟨t, ht, hparse⟩ := hfirst
    obtain ⟨hlow, hhigh⟩ : 1 ≤ i ∧ i ≤ 2 := inLimits_of_parseInt hparse
    refine ⟨hlow, hhigh, ?_⟩
    rw [Option.elim_some, ht]
    exact toInt64_of_parseInt rfl hparse

/-- What `cmd_service` does when the line is without a file. -/
theorem cmdService_line (hsys : HasMemory sys) (hrun : (cmdFresh serviceOptions).runTrue (us.map useCall) = some opt)
    (hloop : cmdLoop (us.map useStep) (cmdFresh serviceOptions) = some (.ok, opt))
    (hfile : firstUse us 'f' = none) :
    ∃ o, cmdService sys (us.map useStep) = some (.ok, some (o, Memory.init)) ∧ ServiceSays us o := by
  have hrcs : serviceOptions ≠ [] := by simp [serviceOptions]
  have h6 : opt.getOptFalse '6' = _ := getOptFalse_line hrcs hrun (by decide) rfl rfl rfl
  obtain ⟨s, hs, hfirst⟩ := @getOptStr_line Unit _ _ _ _ 'i' _ _ hrcs hrun (by decide) rfl rfl
  obtain ⟨rx, hrx, hrxsaid⟩ := @steps_line _ _ 'r' _ "oneStepRx" hrun (by decide) rfl
  obtain ⟨tx, htx, htxsaid⟩ := @steps_line _ _ 't' _ "oneStepTx" hrun (by decide) rfl
  have hfree := ((idle_cmdFresh hrcs).run hrun).free
  have hname : ∃ s', s = some s' ∧ s'.text = (firstUse us 'i').elim (chars "eth0") fun u => u.2.getD [] := by
    cases hu : firstUse us 'i' with
    | none =>
      rw [hu] at hfirst
      exact ⟨_, hfirst, rfl⟩
    | some u =>
      rw [hu] at hfirst
      obtain ⟨t, s', ht, rfl, htext⟩ := hfirst
      exact ⟨s', rfl, by rw [htext, Option.elim_some, ht]; rfl⟩
  refine ⟨⟨rx = 2, tx = 2, if (firstUse us '6').isSome then .udpIPv6 else .udpIPv4, s⟩, ?_,
    ⟨hrxsaid, htxsaid, rfl, hname⟩⟩
  rw [cmdService, cmdBase_line hsys hloop (cmdConfig_line hrcs hrun hfile), Option.bind_eq_bind, Option.bind_some]
  dsimp only
  rw [hs, Option.bind_eq_bind, Option.bind_some, hrx, Option.bind_eq_bind, Option.bind_some, htx,
    Option.bind_eq_bind, Option.bind_some, h6, Option.bind_eq_bind, Option.bind_some, hfree]
  rfl

end Line

/-! ## What a pass keeps -/

namespace ServiceState

/-- The part of a service that its answers depend on. -/
def basis (st : ServiceState) : ℕ × IfClk × ℕ := (st.buffer.size, st.clockInfo, st.address.getSize)

theorem basis_of_size {st st' : ServiceState} (hsize : st'.buffer.size = st.buffer.size)
    (hclock : st'.clockInfo = st.clockInfo) (haddr : st'.address.getSize = st.address.getSize) :
    st'.basis = st.basis := by
  rw [basis, basis, hsize, hclock, haddr]

theorem basis_call {g : ServiceState → Bool × ServiceState} (h : ∀ st, (g st).2.basis = st.basis) :
    Attempt.Keeps basis (Attempt.call g : Attempt _ Datagram) := h

theorem fillNext_basis (need : ℕ) (fill : ℕ → Prog Bool) (st : ServiceState) :
    (st.fillNext need fill).2.basis = st.basis := by
  rw [fillNext]
  split <;> rfl

theorem stamp_basis (st : ServiceState) : st.stamp.2.basis = st.basis := by
  rw [stamp]
  split <;> rfl

theorem init_basis (st : ServiceState) : st.init.2.basis = st.basis := basis_of_size (init_size st) rfl rfl

theorem addTlv_basis (id : TlvTypeId) (st : ServiceState) : (addTlv id st).2.basis = st.basis :=
  basis_of_size (addTlv_size id st) rfl rfl

theorem finish_basis (size : ℕ) (net : Bool) :
    Attempt.Keeps basis ((Attempt.call (buildDone size)).andThen (socketSend net)) := by
  refine (basis_call fun st => ?_).andThen fun _ => rfl
  exact basis_of_size (PtpMsg.buildDone_size _ _ _) rfl rfl

theorem sendRespSync_basis (size : ℕ) (flags : Octet) (now : ClockReading) (net : Bool) :
    Attempt.Keeps basis (sendRespSync size flags now net) := by
  have hcompose : Attempt.Keeps basis (composeRespSync size flags net) := by
    refine (basis_call stamp_basis).andThen ((basis_call init_basis).andThen ?_)
    refine ((basis_call fun st => st.fillNext_basis _ _).andThen (basis_call (addTlv_basis _))).andThen ?_
    refine (((basis_call fun st => st.fillNext_basis _ _).andThen
      (basis_call (addTlv_basis _))).orElse).andThen ?_
    refine (((basis_call fun st => st.fillNext_basis _ _).andThen
      (basis_call (addTlv_basis _))).orElse).andThen ?_
    exact finish_basis size net
  exact fun st => hcompose { st with params := { st.params with type := .sync }, t2 := now.toTimespec }

theorem sendFollowUp_basis (size : ℕ) (net : Bool) : Attempt.Keeps basis (sendFollowUp size net) := by
  have hcompose : Attempt.Keeps basis (composeFollowUp size net) :=
    (basis_call stamp_basis).andThen ((basis_call init_basis).andThen (finish_basis size net))
  exact fun st => hcompose { st with params := { st.params with type := .followUp } }

theorem receive_basis (arrival : Option Datagram) (rxNow : ClockReading) (st : ServiceState) :
    (receive arrival rxNow st).2.basis = st.basis := by
  have hsize : (recv st.buffer st.address arrival rxNow).address.getSize = st.address.getSize := by
    cases arrival with
    | none => rfl
    | some d =>
      rw [recv]
      split
      · rename_i hfam
        split <;> exact hfam
      · rfl
  refine basis_of_size (receive_size arrival rxNow st) ?_ ?_
  · rw [receive]
    dsimp only
    split <;> rfl
  · rw [receive]
    dsimp only
    split <;> exact hsize

theorem mainFlow_basis (useTxTwoSteps : Bool) (inp : ServiceInput) :
    Attempt.Keeps basis (mainFlow useTxTwoSteps inp) := by
  have hanswer : Attempt.Keeps basis (answer useTxTwoSteps inp) := by
    intro st
    rw [answer]
    split
    · dsimp only
      split
      · rfl
      · exact ((sendRespSync_basis _ _ _ _).andThen (sendFollowUp_basis _ _).orElse) _
    · rfl
  intro st
  rw [mainFlow]
  split
  · rfl
  · exact ((basis_call (receive_basis _ _)).andThen hanswer) st

end ServiceState

/-! ## The program -/

/-- What the passes of the main loop send, one for each of these inputs. -/
def serviceMain (useTxTwoSteps : Bool) : List ServiceInput → ServiceState → List (List Datagram)
  | [], _ => []
  | inp :: inps, st =>
    let r := ServiceState.mainFlow useTxTwoSteps inp st
    r.2.2 :: serviceMain useTxTwoSteps inps r.2.1

/-- `service_main`, with as many passes as there are inputs. It makes none when its command line or its
objects fail. -/
def serviceProgram (sys : CmdSystem) (args : List GetoptStep) (contents : Mem) (inps : List ServiceInput) :
    Option (List (List Datagram)) := do
  match ← cmdService sys args with
  | (.ok, some (o, _)) =>
    match serviceAllocObjs o.type contents with
    | some st => some (serviceMain o.useTxTwoSteps inps st)
    | none => some []
  | _ => some []

/-- Each pass starts from what the passes before have kept. -/
theorem serviceMain_passes (useTxTwoSteps : Bool) (inps : List ServiceInput) (st : ServiceState) :
    (serviceMain useTxTwoSteps inps st).length = inps.length ∧
      ∀ (k : ℕ) (inp : ServiceInput), inps[k]? = some inp → ∃ st' : ServiceState, st'.basis = st.basis ∧
        (serviceMain useTxTwoSteps inps st)[k]? = some (st'.sent useTxTwoSteps inp) := by
  induction inps generalizing st with
  | nil => exact ⟨rfl, fun k inp h => absurd h (by simp)⟩
  | cons inp inps ih =>
    obtain ⟨hlen, hpasses⟩ := ih (ServiceState.mainFlow useTxTwoSteps inp st).2.1
    refine ⟨congrArg (· + 1) hlen, fun k inp' h => ?_⟩
    cases k with
    | zero =>
      cases Option.some.inj h
      exact ⟨st, rfl, rfl⟩
    | succ k =>
      obtain ⟨st', hbasis, hsent⟩ := hpasses k inp' h
      exact ⟨st', hbasis.trans (ServiceState.mainFlow_basis useTxTwoSteps inp st), hsent⟩

theorem serviceAllocObjs_basis {type : Prot} (htype : type = .udpIPv4 ∨ type = .udpIPv6) (contents : Mem) :
    ∃ st, serviceAllocObjs type contents = some st ∧
      st.basis = (serviceBufSize, dummyClockInfo, if type = .udpIPv4 then 16 else 28) := by
  rcases htype with rfl | rfl <;> exact ⟨_, rfl, rfl⟩

theorem SockAddr.getSize_eq_iff (a : SockAddr) {type : Prot} (htype : type = .udpIPv4 ∨ type = .udpIPv6) :
    a.getSize = (if type = .udpIPv4 then 16 else 28) ↔ a.type = type := by
  rcases htype with rfl | rfl <;> cases a <;> simp [SockAddr.getSize, SockAddr.type]

/-- What a pass sends, by the basis of its state. -/
theorem sent_of_basis {st : ServiceState} {type : Prot} (htype : type = .udpIPv4 ∨ type = .udpIPv6)
    (hbasis : st.basis = (serviceBufSize, dummyClockInfo, if type = .udpIPv4 then 16 else 28))
    (useTxTwoSteps : Bool) {inp : ServiceInput} (hw : inp.poll.WellSized serviceBufSize) :
    (∀ d rxNow, inp.poll = .ready (some d) rxNow →
      st.sent useTxTwoSteps inp = if d.addr.type = type then
        (reaction dummyClockInfo useTxTwoSteps rxNow.toTimespec inp serviceBufSize d.octets).map (⟨d.addr, ·⟩)
        else []) ∧
      ((∀ d rxNow, inp.poll ≠ .ready (some d) rxNow) → st.sent useTxTwoSteps inp = []) := by
  rw [ServiceState.basis, Prod.mk.injEq, Prod.mk.injEq] at hbasis
  obtain ⟨hsize, hclock, haddr⟩ := hbasis
  refine ⟨fun d rxNow hpoll => ?_, fun hnone => ?_⟩
  · rw [hpoll] at hw
    rw [sent_eq st useTxTwoSteps hpoll (hsize ▸ hw), hsize, hclock, haddr]
    by_cases hsame : d.addr.type = type
    · rw [if_pos hsame, if_pos ((d.addr.getSize_eq_iff htype).mpr hsame)]
    · rw [if_neg hsame, if_neg fun h => hsame ((d.addr.getSize_eq_iff htype).mp h)]
  · cases hpoll : inp.poll with
    | idle => exact sent_of_idle useTxTwoSteps st hpoll
    | ready arrival rxNow =>
      cases arrival with
      | some d => exact absurd hpoll (hnone d rxNow)
      | none =>
        rw [sent_of_ready useTxTwoSteps st hpoll]
        rfl

/-- From its command line the service answers each datagram of its own protocol as the settings say, whatever
messages that cover their header came before, and sends nothing else. -/
theorem service_on_the_wire {sys : CmdSystem} (hsys : HasMemory sys) {posixly : Bool}
    {words : List (List Octet)} {us : List (Getopt.Use Octet)}
    (htaken : Taken posixly (baseOptions ++ serviceOptions) words us) (hfile : firstUse us 'f' = none)
    (program : List Octet) (contents : ℕ → Octet) :
    ∃ args o, wordSteps posixly program words serviceOptions contents = some args ∧
      cmdService sys args = some (.ok, some (o, Memory.init)) ∧ ServiceSays us o ∧
        ∀ mem inps, (∀ inp ∈ inps, inp.poll.WellSized serviceBufSize) →
          ∃ sent, serviceProgram sys args mem inps = some sent ∧ sent.length = inps.length ∧
          ∀ (k : ℕ) (inp : ServiceInput) (out : List Datagram), inps[k]? = some inp → sent[k]? = some out →
            (∀ d rxNow, inp.poll = .ready (some d) rxNow →
              out = if d.addr.type = o.type then
                (reaction dummyClockInfo o.useTxTwoSteps rxNow.toTimespec inp serviceBufSize d.octets).map
                  (⟨d.addr, ·⟩)
                else []) ∧
              ((∀ d rxNow, inp.poll ≠ .ready (some d) rxNow) → out = []) := by
  have hrcs : serviceOptions ≠ [] := by simp [serviceOptions]
  obtain ⟨hline, hus, opt, hrun⟩ := (taken_iff hrcs validKeys_service).mp htaken
  obtain ⟨hsteps, hloop⟩ := @wordSteps_of_line _ _ _ _ _ program contents _ hrcs validKeys_service _ hline hus hrun
  obtain ⟨o, ho, hsaid⟩ := cmdService_line hsys hrun hloop hfile
  refine ⟨_, o, hsteps, ho, hsaid, fun mem inps hw => ?_⟩
  have htype : o.type = .udpIPv4 ∨ o.type = .udpIPv6 := by
    rw [hsaid.type]
    split
    · exact .inr rfl
    · exact .inl rfl
  -- The objects do not depend on the memory, up to octets that no answer reads.
  obtain ⟨st, hst, hbasis⟩ := serviceAllocObjs_basis htype mem
  obtain ⟨hlen, hpasses⟩ := serviceMain_passes o.useTxTwoSteps inps st
  refine ⟨serviceMain o.useTxTwoSteps inps st, ?_, hlen, fun k inp out hinp hout => ?_⟩
  · rw [serviceProgram, ho, Option.bind_eq_bind, Option.bind_some]
    dsimp only
    rw [hst]
  · obtain ⟨st', hbasis', hsent⟩ := hpasses k inp hinp
    rw [hout, Option.some_inj] at hsent
    rw [hsent]
    refine sent_of_basis htype (hbasis'.trans hbasis) o.useTxTwoSteps ?_
    exact hw inp (List.mem_of_getElem? hinp)

/-- The service is told to answer in one step. -/
def sampleStep : List (Getopt.Use Octet) := [(character 't', some (chars "1"))]

theorem taken_step (posixly : Bool) :
    Taken posixly (baseOptions ++ serviceOptions : List (OptRec Unit)) [chars "-t1"] sampleStep where
  line := by
    have hjoined : Getopt.Word (lineRules posixly (baseOptions ++ serviceOptions : List (OptRec Unit)))
        (chars "t1") [(character 't', some (chars "1"))] none := .joined (.inl rfl) (by decide)
    have ht1 : chars "t1" ≠ [dash] := by decide
    exact .word (by decide) ht1 hjoined .nil
  plain := by decide
  first := by
    intro u hu
    have hmem : u ∈ sampleStep := List.mem_of_find?_eq_some hu
    rw [sampleStep, List.mem_singleton] at hmem
    subst hmem
    exact ⟨_, rfl, takes_number (i := 1) rfl (by decide) (by decide) (by decide) (by decide)⟩

theorem service_on_the_wire_sample : ∃ args out,
    wordSteps true (chars "service") [chars "-t1"] serviceOptions (fun _ => 0) = some args ∧
      serviceProgram (sampleSystem true) args (fun _ => 0xaa) [sampleInput sampleDatagram] = some [out] ∧
        out.map Datagram.addr = [sampleDatagram.addr] := by
  have hsys : HasMemory (sampleSystem true) := ⟨rfl, rfl, rfl, rfl⟩
  obtain ⟨args, o, hargs, -, hsaid, hpasses⟩ := service_on_the_wire hsys (taken_step true) rfl (chars "service")
    fun _ => 0
  obtain ⟨sent, hsent, hlen, hout⟩ := hpasses (fun _ => 0xaa) [sampleInput sampleDatagram] (by
    intro inp hinp
    rw [List.mem_singleton.mp hinp]
    exact (by decide +kernel : WellSized serviceBufSize sampleDatagram.octets))
  obtain ⟨out, rfl⟩ := List.length_eq_one_iff.mp hlen
  refine ⟨args, out, hargs, hsent, ?_⟩
  have htype : o.type = .udpIPv4 := hsaid.type
  have hsteps : o.useTxTwoSteps = false := by
    obtain ⟨i, htwo, -, -, hi⟩ := hsaid.useTxTwoSteps
    have hi : toInt64 (chars "1") = some i := hi
    rw [show toInt64 (chars "1") = some 1 by decide, Option.some_inj] at hi
    rw [htwo, ← hi]
    rfl
  obtain ⟨hanswer, -⟩ := hout 0 _ out rfl rfl
  have hlength : (reaction dummyClockInfo false (sampleTime 10).toTimespec (sampleInput sampleDatagram)
      serviceBufSize sampleDatagram.octets).length = 1 := by decide +kernel
  obtain ⟨octs, hocts⟩ := List.length_eq_one_iff.mp hlength
  rw [hanswer sampleDatagram (sampleTime 10) rfl, htype, hsteps, hocts]
  rfl

end Csptp

import Csptp.Client.Listen
import Csptp.Client.Send

/-! # One call of the client

What `client_main_flow` keeps of the client's state, and what it comes to in terms of its two sends
and its loop. -/
namespace Csptp
open Octets Octets.Prog
set_option autoImplicit false

namespace ClientState

/-! ## What the sends keep -/

/-- The setting and the times of a state. -/
def kept (st : ClientState) : Setting × Times := (st.setting, st.times)

theorem kept_stamp (st : ClientState) : kept st.stamp.2 = kept st := by
  rw [stamp]
  cases st.t1.toTimestamp <;> rfl

theorem kept_init (st : ClientState) : kept st.init.2 = kept st := by
  simp only [init, kept, setting, times, PtpMsg.init_size]

theorem kept_addCSPTPReqTlv (st : ClientState) : kept st.addCSPTPReqTlv.2 = kept st := by
  simp only [addCSPTPReqTlv, kept, setting, times, PtpMsg.addCSPTPReqTlv_size]

theorem kept_buildDone (st : ClientState) : kept st.buildDone.2 = kept st := by
  simp only [buildDone, kept, setting, times, PtpMsg.buildDone_size]

theorem keeps_buildDone_send (net : Bool) :
    Attempt.Keeps kept ((Attempt.call buildDone).andThen (socketSend net)) :=
  Attempt.Keeps.andThen kept_buildDone fun _ => rfl

theorem keeps_composeReqSync (net : Bool) : Attempt.Keeps kept (composeReqSync net) :=
  Attempt.Keeps.andThen kept_stamp <| Attempt.Keeps.andThen kept_init <|
    Attempt.Keeps.andThen kept_addCSPTPReqTlv <| keeps_buildDone_send net

theorem keeps_composeFollowUp (net : Bool) : Attempt.Keeps kept (composeFollowUp net) :=
  Attempt.Keeps.andThen kept_init (keeps_buildDone_send net)

theorem kept_transmit (useTwoSteps : Bool) (sequenceId : BitVec 16) (inp : FlowInput)
    (st : ClientState) : kept (transmit useTwoSteps sequenceId inp st).2.1 =
      (st.setting, { st.times with t1 := inp.now.toTimespec }) := by
  have hsync : kept (sendReqSync sequenceId inp.now inp.netReqSync st).2.1 =
      (st.setting, { st.times with t1 := inp.now.toTimespec }) :=
    (keeps_composeReqSync inp.netReqSync _).trans rfl
  have hfollowUp : Attempt.Keeps kept (Attempt.orElse (useTwoSteps = false)
      (sendFollowUp sequenceId inp.netFollowUp)) := by
    refine Attempt.Keeps.orElse fun s => ?_
    exact (keeps_composeFollowUp inp.netFollowUp _).trans rfl
  rw [transmit, Attempt.andThen]
  split
  · exact (hfollowUp _).trans hsync
  · exact hsync

end ClientState

/-! ## The outcome of a call -/

section Flow
variable {domainNumber : Octet} {useTwoSteps : Bool} {sID : BitVec 16} {inp : FlowInput}
  {st : ClientState} {r : FlowResult}

/-- The start of the loop. -/
def Waiting.start (st : ClientState) : Waiting :=
  { loops := waitLoopPolls, timeouted := 0, wait := 3, st := st }

/-- The start of the loop of this call, after its sends. -/
def ClientState.waiting (useTwoSteps : Bool) (sID : BitVec 16) (inp : FlowInput) (st : ClientState) :
    Waiting := Waiting.start (ClientState.transmit useTwoSteps sID inp st).2.1

/-- A call either fails before its loop, or ends in it, or comes to its end. -/
theorem flow_cases (h : st.flow domainNumber useTwoSteps sID inp = some r) :
    r.sequenceId = sID ∧ r.sent = (ClientState.transmit useTwoSteps sID inp st).2.2 ∧
      (((ClientState.transmit useTwoSteps sID inp st).1 = false ∧ inp.polls = [] ∧ r.ret = false ∧
          r.sID = sID ∧ r.st = (ClientState.transmit useTwoSteps sID inp st).2.1) ∨
        ((ClientState.transmit useTwoSteps sID inp st).1 = true ∧
          ∃ x, Waiting.loop domainNumber sID inp.polls (st.waiting useTwoSteps sID inp) = some x ∧
            r.st.setting = (Waiting.state x).setting ∧ r.st.times = (Waiting.state x).times ∧
            match x with
            | .error _ => r.ret = false ∧ r.sID = sID
            | .ok w => r.ret = decide (w.wait = 0) ∧ r.sID = ClientState.nextSequenceId sID)) := by
  rw [ClientState.flow] at h
  dsimp only at h
  cases hflag : (ClientState.transmit useTwoSteps sID inp st).1 with
  | false =>
    rw [hflag, if_pos rfl, Option.ite_none_right_eq_some] at h
    obtain ⟨hpolls, h⟩ := h
    rw [← Option.some.inj h]
    exact ⟨rfl, rfl, .inl ⟨rfl, List.isEmpty_iff.mp hpolls, rfl, rfl, rfl⟩⟩
  | true =>
    rw [hflag, if_neg (by simp), Option.map_eq_some_iff] at h
    obtain ⟨x, hloop, h⟩ := h
    cases x with
    | error st' =>
      rw [← h]
      exact ⟨rfl, rfl, .inr ⟨rfl, .error st', hloop, rfl, rfl, rfl, rfl⟩⟩
    | ok w =>
      rw [← h]
      exact ⟨rfl, rfl, .inr ⟨rfl, .ok w, hloop, rfl, rfl, rfl, rfl⟩⟩

/-- The loop of a call, in terms of what its polls bring. -/
theorem waiting_view (domainNumber : Octet) (useTwoSteps : Bool) (sID : BitVec 16) (inp : FlowInput)
    (hw : ∀ poll ∈ inp.polls, poll.WellSized st.buffer.size) :
    (Waiting.loop domainNumber sID inp.polls (st.waiting useTwoSteps sID inp)).map Waiting.seen =
      View.listen (inp.polls.map (st.awaited domainNumber sID).hears)
        ⟨waitLoopPolls, 3, { st.times with t1 := inp.now.toTimespec }⟩ := by
  have hkept := ClientState.kept_transmit useTwoSteps sID inp st
  have hset : (st.waiting useTwoSteps sID inp).st.setting = st.setting := congrArg Prod.fst hkept
  have hstart : (st.waiting useTwoSteps sID inp).st.times =
      { st.times with t1 := inp.now.toTimespec } := congrArg Prod.snd hkept
  have hsize : (st.waiting useTwoSteps sID inp).st.buffer.size = st.buffer.size :=
    congrArg Setting.bufSize hset
  rw [loop_view domainNumber sID inp.polls _ (by rw [hsize]; exact hw),
    ClientState.awaited_of_setting hset, ← hstart]
  rfl

theorem flow_of_loop {x : Except ClientState Waiting}
    (hsent : (ClientState.transmit useTwoSteps sID inp st).1 = true)
    (hloop : Waiting.loop domainNumber sID inp.polls (st.waiting useTwoSteps sID inp) = some x) :
    ∃ r, st.flow domainNumber useTwoSteps sID inp = some r := by
  rw [ClientState.flow]
  dsimp only
  rw [hsent, if_neg (by simp)]
  exact ⟨_, congrArg (Option.map _) hloop⟩

theorem flow_keeps (h : st.flow domainNumber useTwoSteps sID inp = some r) :
    r.st.setting = st.setting := by
  have hsent : (ClientState.transmit useTwoSteps sID inp st).2.1.setting = st.setting :=
    congrArg Prod.fst (ClientState.kept_transmit useTwoSteps sID inp st)
  obtain ⟨-, -, ⟨-, -, -, -, hst⟩ | ⟨-, x, hloop, hset, -⟩⟩ := flow_cases h
  · rw [hst]
    exact hsent
  · exact (hset.trans (loop_keeps _ _ hloop)).trans hsent

end Flow

end Csptp

import Csptp.Exact
import Csptp.Client.Fresh

/-! # The offset that the client computes

A timestamp of the network may name a second that 64 bits of nanoseconds do not reach, and so may a
time close to the lowest number of nanoseconds while `getTs` multiplies its seconds. -/
namespace Csptp
open Octets Octets.Prog
set_option autoImplicit false

/-! ## The times of a call -/

theorem Timestamp.time_normal {ts : Timestamp} {t : Timespec} (h : ts.time = some t) : t.Normal := by
  rw [Timestamp.time, Option.ite_none_right_eq_some] at h
  obtain ⟨hlt, ht⟩ := h
  cases Option.some.inj ht
  exact ⟨Int.natCast_nonneg _, hlt⟩

/-- The last time of sending in these messages that can be converted. -/
def sendingTime (hs : List Heard) : Option Timespec :=
  ((hs.flatMap Heard.origins).filterMap Timestamp.time).getLast?

theorem foldl_last_eq {α : Type} (l : List α) (t : α) : l.foldl (fun _ x => x) t = l.getLast?.getD t := by
  induction l generalizing t with
  | nil => rfl
  | cons x l ih =>
    rw [List.foldl_cons, ih, List.getLast?_cons]
    rfl

theorem settle_origins (t : Timespec) (hs : List Heard) :
    settle t (hs.flatMap Heard.origins) = (sendingTime hs).getD t := by
  rw [settle_eq, foldl_last_eq, sendingTime]

theorem origin_of_sendingTime {hs : List Heard} {t : Timespec} (h : sendingTime hs = some t) :
    ∃ x ∈ hs, ∃ ts ∈ x.origins, ts.time = some t :=
  mem_filterMap_time.mp (List.mem_of_getLast? h)

theorem sendingTime_ne_none {hs : List Heard} {t : Timespec}
    (h : ∃ x ∈ hs, ∃ ts ∈ x.origins, ts.time = some t) : sendingTime hs ≠ none := by
  rw [sendingTime, Ne, List.getLast?_eq_none_iff]
  exact List.ne_nil_of_mem (mem_filterMap_time.mpr h)

/-! ## The offset -/

namespace ClientState

/-- The offset from the master that a completed call logs. -/
def offsetFromMaster (st : ClientState) : ℤ := (st.t2.getTs - st.t1.getTs).bmod (2 ^ 64)

/-- The offset is the difference of the two times, and no step on the way overflows. -/
def OffsetExact (st : ClientState) : Prop :=
  st.t1.GetTsExact ∧ st.t2.GetTsExact ∧ InInt64 (st.t2.getTs - st.t1.getTs) ∧
    st.offsetFromMaster = st.t2.exact - st.t1.exact

theorem offsetExact_iff {st : ClientState} (h1 : st.t1.Normal) (h2 : st.t2.Normal) :
    st.OffsetExact ↔
      st.t1.Countable ∧ st.t2.Countable ∧ InInt64 (st.t2.exact - st.t1.exact) := by
  constructor
  · rintro ⟨ht1, ht2, hdiff, -⟩
    rw [ht1.2.2, ht2.2.2] at hdiff
    exact ⟨(Timespec.getTsExact_iff h1).mp ht1, (Timespec.getTsExact_iff h2).mp ht2, hdiff⟩
  · rintro ⟨hc1, hc2, hdiff⟩
    have ht1 := (Timespec.getTsExact_iff h1).mpr hc1
    have ht2 := (Timespec.getTsExact_iff h2).mpr hc2
    have hget : st.t2.getTs - st.t1.getTs = st.t2.exact - st.t1.exact := by rw [ht1.2.2, ht2.2.2]
    refine ⟨ht1, ht2, by rw [hget]; exact hdiff, ?_⟩
    rw [offsetFromMaster, hget]
    exact bmod_of_inInt64 hdiff

end ClientState

/-- The offset of a call is the exact difference of a time of sending in these messages and of the clock
reading at its start. -/
structure OffsetOf (hs : List Heard) (now : ClockReading) (st : ClientState) : Prop where
  t1 : st.t1 = now.toTimespec
  t2 : ∃ h ∈ hs, ∃ ts ∈ h.origins, ts.time = some st.t2
  exact : st.OffsetExact

section Call
variable {domainNumber : Octet} {useTwoSteps : Bool} {sID : BitVec 16} {inp : FlowInput} {st : ClientState}
  {r : FlowResult}

theorem offsetOf_iff (hw : ∀ poll ∈ inp.polls, poll.WellSized st.buffer.size)
    (h : st.flow domainNumber useTwoSteps sID inp = some r) (hret : r.ret = true) :
    let hs := (st.awaited domainNumber sID).heardIn inp.polls
    OffsetOf hs inp.now r.st ↔ inp.now.Countable ∧
      ∃ t2, sendingTime hs = some t2 ∧ t2.Countable ∧ InInt64 (t2.exact - inp.now.exact) := by
  intro hs
  have htimes := (flow_heard hw h).2 hret
  rw [Times.hearAll_eq] at htimes
  have ht1 : r.st.t1 = inp.now.toTimespec := congrArg Times.t1 htimes
  have ht2 : r.st.t2 = (sendingTime hs).getD st.t2 := (congrArg Times.t2 htimes).trans (settle_origins _ _)
  have hexact {t2 : Timespec} (hlast : sendingTime hs = some t2) : r.st.OffsetExact ↔
      inp.now.Countable ∧ t2.Countable ∧ InInt64 (t2.exact - inp.now.exact) := by
    rw [hlast, Option.getD_some] at ht2
    obtain ⟨-, -, ts, -, hts⟩ := origin_of_sendingTime hlast
    rw [ClientState.offsetExact_iff (ht1 ▸ inp.now.normal) (ht2 ▸ Timestamp.time_normal hts), ht1, ht2]
  constructor
  · intro hoffset
    obtain ⟨t2, hlast⟩ := Option.ne_none_iff_exists'.mp (sendingTime_ne_none hoffset.t2)
    obtain ⟨hnow, hc, hdiff⟩ := (hexact hlast).mp hoffset.exact
    exact ⟨hnow, t2, hlast, hc, hdiff⟩
  · rintro ⟨hnow, t2, hlast, hc, hdiff⟩
    refine ⟨ht1, ?_, (hexact hlast).mpr ⟨hnow, hc, hdiff⟩⟩
    rw [ht2, hlast, Option.getD_some]
    exact origin_of_sendingTime hlast

end Call

theorem ofTimestamp_countable (ts : Timestamp) : (Timespec.ofTimestamp ts).Countable ↔
    (getUint48 ts.secondsField).toNat < 9223372036 ∨
      (getUint48 ts.secondsField).toNat = 9223372036 ∧ ts.nanosecondsField.toNat ≤ 854775807 := by
  rw [Timespec.Countable, Timespec.ofTimestamp]
  dsimp only
  omega

/-- A number of nanoseconds comes back without overflow unless it lies in the second above the lowest
number. -/
theorem setTs_countable {t : Timespec} {x : BitVec 64} :
    (t.setTs x.toInt).Countable ↔ -9223372036000000000 ≤ x.toInt := by
  obtain ⟨⟨h0, h1⟩, hexact⟩ := Timespec.setTs_spec t x.toInt
  have hlow := BitVec.le_toInt x
  have hhigh := @BitVec.toInt_lt 64 x
  generalize t.setTs x.toInt = u at *
  simp only [Timespec.Countable, Timespec.exact, nsecPerSec] at *
  omega

/-- Nanoseconds are exact exactly for these times: from the network up to the last second that 64 bits
hold, from a number of nanoseconds except in the second above the lowest one, and for the offset of a call
that is done when the clock reading at its start, the last time of sending that it has accepted and their
difference are within reach. -/
theorem nanoseconds_exact_iff (t : Timespec) (ts : Timestamp) (x : BitVec 64) (st : ClientState)
    (domainNumber : Octet) (useTwoSteps : Bool) (sID : BitVec 16) (inp : FlowInput) (r : FlowResult) :
    let hs := (st.awaited domainNumber sID).heardIn inp.polls
    ((t.fromTimestamp ts).1 = true → ((t.fromTimestamp ts).2.GetTsExact ↔
      (getUint48 ts.secondsField).toNat < 9223372036 ∨
        (getUint48 ts.secondsField).toNat = 9223372036 ∧ ts.nanosecondsField.toNat ≤ 854775807)) ∧
    ((t.setTs x.toInt).GetTsExact ∧ (t.setTs x.toInt).getTs = x.toInt ↔
      -9223372036000000000 ≤ x.toInt) ∧
    ((∀ poll ∈ inp.polls, poll.WellSized st.buffer.size) →
      st.flow domainNumber useTwoSteps sID inp = some r → r.ret = true →
        (OffsetOf hs inp.now r.st ↔ inp.now.Countable ∧
          ∃ t2, sendingTime hs = some t2 ∧ t2.Countable ∧ InInt64 (t2.exact - inp.now.exact))) := by
  refine ⟨fun hok => ?_, ?_, offsetOf_iff⟩
  · have hlt : (ts.nanosecondsField.toNat : ℤ) < nsecPerSec := by
      by_contra hge
      rw [Timespec.fromTimestamp_of_ge (by omega)] at hok
      exact absurd hok (by simp)
    rw [Timespec.fromTimestamp_of_lt hlt, ← ofTimestamp_countable]
    exact Timespec.getTsExact_iff ⟨Int.natCast_nonneg _, hlt⟩
  · obtain ⟨hnormal, hexact⟩ := Timespec.setTs_spec t x.toInt
    have hiff := (Timespec.getTsExact_iff hnormal).trans setTs_countable
    rw [← hiff]
    exact ⟨fun h => h.1, fun h => ⟨h, h.2.2.trans hexact⟩⟩

section Sample

def sampleOffsetOpt : ClientOpt :=
  { useTwoSteps := false, useCSPTPstatus := true, useAltTimeScale := true, domainNumber := 128,
    type := .udpIPv4, ip := some [] }

/-- Every name stands for the address of the sample messages. -/
def sampleOffsetResolve (_ip : List Octet) (_type : Prot) : Option (Prot × OctetArray 16) :=
  some (.udpIPv4, ⟨9 :: List.replicate 15 0, rfl⟩)

/-- The sample exchange with this time of sending in its Follow_Up. -/
def sampleOffsetFlow (ts : Timestamp) : FlowInput :=
  { now := sampleTime 9, netReqSync := true, netFollowUp := true,
    polls := [
      .ready (some { addr := .in4 ptpUdpPort 9, octets := wireOctets { PtpParams.zero with
        type := .followUp, domainNumber := 128, sequenceId := 7, useTwoSteps := true,
        timestamp := ts } 2 [] 160 }) (sampleTime 21),
      .ready (some (sampleMessage .sync 0 5 [sampleResponse])) (sampleTime 22)] }

def sampleOffset (ts : Timestamp) : Option (ClientState × FlowResult) :=
  (clientAllocObjs sampleOffsetResolve sampleOffsetOpt fun _ => 0xaa).bind fun st =>
    (st.flow 128 false 7 (sampleOffsetFlow ts)).map fun r => (st, r)

theorem sampleOffset_spec {ts : Timestamp} {x : ClientState × FlowResult}
    (h : sampleOffset ts = some x) : x.1.flow 128 false 7 (sampleOffsetFlow ts) = some x.2 := by
  obtain ⟨st, -, h⟩ := Option.bind_eq_some_iff.mp h
  obtain ⟨r, hr, rfl⟩ := Option.map_eq_some_iff.mp h
  exact hr

/-- Second 2 ^ 47 of a peer, the lowest number of nanoseconds, and an exchange with that second. -/
theorem nanoseconds_exact_fails :
    (∃ ts : Timestamp, ((⟨0, 0⟩ : Timespec).fromTimestamp ts).1 = true ∧
      ((⟨0, 0⟩ : Timespec).fromTimestamp ts).2.getTs ≠
        ((⟨0, 0⟩ : Timespec).fromTimestamp ts).2.exact) ∧
    (∃ x : BitVec 64, ¬ InInt64 (((⟨0, 0⟩ : Timespec).setTs x.toInt).tvSec * nsecPerSec)) ∧
    ∃ ts x, sampleOffset ts = some x ∧ x.2.ret = true ∧ x.2.st.t2 = Timespec.ofTimestamp ts ∧
      x.2.st.offsetFromMaster ≠ x.2.st.t2.exact - x.2.st.t1.exact := by
  refine ⟨⟨⟨⟨0x8000, 0⟩, 0⟩, by decide, by decide⟩, ⟨0x8000000000000000, by decide⟩, ?_⟩
  have hrun : (sampleOffset ⟨⟨0x8000, 0⟩, 0⟩).map (fun x => (x.2.ret, x.2.st.t1, x.2.st.t2)) =
      some (true, ⟨9, 5⟩, ⟨2 ^ 47, 0⟩) := by
    decide +kernel
  obtain ⟨x, hx, hrun⟩ := Option.map_eq_some_iff.mp hrun
  obtain ⟨hret, htimes⟩ := Prod.mk.inj hrun
  obtain ⟨ht1, ht2⟩ := Prod.mk.inj htimes
  refine ⟨_, x, hx, hret, ht2, ?_⟩
  rw [ClientState.offsetFromMaster, ht1, ht2]
  decide

/-- What the sample exchange brings. -/
def sampleOffsetHeard (x : ClientState × FlowResult) (ts : Timestamp) : Bool × List Heard :=
  (decide (∀ poll ∈ (sampleOffsetFlow ts).polls, poll.WellSized x.1.buffer.size),
    (x.1.awaited 128 7).heardIn (sampleOffsetFlow ts).polls)

/-- The same exchange with second 20. -/
theorem nanoseconds_exact_sample :
    ∃ x, sampleOffset ⟨⟨0, 20⟩, 5⟩ = some x ∧ x.2.ret = true ∧ x.2.st.OffsetExact ∧
      x.2.st.offsetFromMaster = 11000000000 := by
  have hrun : (sampleOffset ⟨⟨0, 20⟩, 5⟩).map
      (fun x => (x.2.ret, x.2.st.t1, x.2.st.t2, sampleOffsetHeard x ⟨⟨0, 20⟩, 5⟩)) =
        some (true, ⟨9, 5⟩, ⟨20, 5⟩, true, sampleHeard 5) := by
    decide +kernel
  obtain ⟨x, hx, hrun⟩ := Option.map_eq_some_iff.mp hrun
  obtain ⟨hret, hrun⟩ := Prod.mk.inj hrun
  obtain ⟨ht1, hrun⟩ := Prod.mk.inj hrun
  obtain ⟨ht2, hrun⟩ := Prod.mk.inj hrun
  obtain ⟨hw, hheard⟩ := Prod.mk.inj hrun
  have hoffset := ((nanoseconds_exact_iff ⟨0, 0⟩ ⟨⟨0, 20⟩, 5⟩ 0 _ _ _ _ _ _).2.2 (of_decide_eq_true hw)
    (sampleOffset_spec hx) hret).mpr (by
      rw [hheard]
      exact ⟨by decide, ⟨20, 5⟩, by decide +kernel, by decide, by decide⟩)
  refine ⟨x, hx, hret, hoffset.exact, ?_⟩
  rw [hoffset.exact.2.2.2, ht1, ht2]
  decide

end Sample

end Csptp

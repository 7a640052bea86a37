import Csptp.Client.Cycle

/-! # Whether the client's times are fresh

A call that returns true has heard what it waited for. Its times come from these messages, as far as
their timestamps can be converted: the loop goes on after a conversion that fails, with the time of
before. -/
namespace Csptp
open Octets Octets.Prog
set_option autoImplicit false

/-! ## Conversions -/

/-- The time that a timestamp stands for, if it stands for any. -/
def Timestamp.time (ts : Timestamp) : Option Timespec :=
  if (ts.nanosecondsField.toNat : ℤ) < nsecPerSec then some (Timespec.ofTimestamp ts) else none

theorem fromTimestamp_snd (t : Timespec) (ts : Timestamp) :
    (t.fromTimestamp ts).2 = ts.time.getD t := by
  unfold Timestamp.time
  split
  · rename_i hlt
    rw [Timespec.fromTimestamp_of_lt hlt]
    rfl
  · rename_i hge
    rw [Timespec.fromTimestamp_of_ge (by omega)]
    rfl

theorem settle_eq (t : Timespec) (tss : List Timestamp) :
    settle t tss = (tss.filterMap Timestamp.time).foldl (fun _ x => x) t := by
  induction tss generalizing t with
  | nil => rfl
  | cons ts tss ih =>
    have hcons : settle t (ts :: tss) = settle (t.fromTimestamp ts).2 tss := rfl
    rw [hcons, ih, fromTimestamp_snd, List.filterMap_cons]
    cases ts.time <;> rfl

theorem foldl_last_mem {α : Type} {l : List α} (h : l ≠ []) (t : α) :
    l.foldl (fun _ x => x) t ∈ l := by
  induction l generalizing t with
  | nil => exact absurd rfl h
  | cons x l ih =>
    rw [List.foldl_cons]
    cases l with
    | nil => exact List.mem_cons_self
    | cons y l => exact List.mem_cons_of_mem _ (ih (List.cons_ne_nil _ _) _)

theorem mem_filterMap_time {hs : List Heard} {f : Heard → List Timestamp} {t : Timespec} :
    t ∈ (hs.flatMap f).filterMap Timestamp.time ↔ ∃ h ∈ hs, ∃ ts ∈ f h, ts.time = some t := by
  simp only [List.mem_filterMap, List.mem_flatMap]
  constructor
  · rintro ⟨ts, ⟨h, hh, hts⟩, ht⟩
    exact ⟨h, hh, ts, hts, ht⟩
  · rintro ⟨h, hh, ts, hts, ht⟩
    exact ⟨ts, ⟨h, hh, hts⟩, ht⟩

/-- A time that was settled is one of those carried, exactly when one of them can be converted. -/
theorem settle_carried (t : Timespec) (hs : List Heard) (f : Heard → List Timestamp) :
    (∃ h ∈ hs, ∃ ts ∈ f h, ts.time = some (settle t (hs.flatMap f))) ↔
      ∃ h ∈ hs, ∃ ts ∈ f h, ts.time ≠ none := by
  constructor
  · rintro ⟨h, hh, ts, hts, ht⟩
    exact ⟨h, hh, ts, hts, by rw [ht]; simp⟩
  · rintro ⟨h, hh, ts, hts, ht⟩
    obtain ⟨x, hx⟩ := Option.ne_none_iff_exists'.mp ht
    have hmem : x ∈ (hs.flatMap f).filterMap Timestamp.time :=
      mem_filterMap_time.mpr ⟨h, hh, ts, hts, hx⟩
    apply mem_filterMap_time.mp
    rw [settle_eq]
    exact foldl_last_mem (List.ne_nil_of_mem hmem) t

/-! ## What was waited for -/

/-- The messages that a call needs: a Sync and a time of sending, and no Sync without a response. -/
structure Completes (hs : List Heard) : Prop where
  bare : ∀ h ∈ hs, h.bare = false
  sync : ∃ h ∈ hs, h.arrivals ≠ []
  origin : ∃ h ∈ hs, h.origins ≠ []

/-- Times of these messages. -/
structure Fresh (hs : List Heard) (t : Times) : Prop where
  heard : ∃ oneStep timestamp responses arrival, .sync oneStep timestamp responses arrival ∈ hs ∧
    responses ≠ [] ∧ (oneStep = true ∨ ∃ origin, .followUp origin ∈ hs)
  r1 : ∃ h ∈ hs, ∃ ts ∈ h.responses, ts.time = some t.r1
  t2 : ∃ h ∈ hs, ∃ ts ∈ h.origins, ts.time = some t.t2
  r2 : ∃ h ∈ hs, t.r2 ∈ h.arrivals

/-- A timestamp for `r1` and one for `t2` can be converted. -/
def Convertible (hs : List Heard) : Prop :=
  (∃ h ∈ hs, ∃ ts ∈ h.responses, ts.time ≠ none) ∧ ∃ h ∈ hs, ∃ ts ∈ h.origins, ts.time ≠ none

theorem Completes.heard {hs : List Heard} (h : Completes hs) :
    ∃ oneStep timestamp responses arrival, .sync oneStep timestamp responses arrival ∈ hs ∧
      responses ≠ [] ∧ (oneStep = true ∨ ∃ origin, .followUp origin ∈ hs) := by
  have hresponses {b : Bool} {ts : Timestamp} {rs : List Timestamp} {arrival : Timespec}
      (hmem : .sync b ts rs arrival ∈ hs) : rs ≠ [] := by
    have hbare := h.bare _ hmem
    simpa [Heard.bare] using hbare
  obtain ⟨x, hx, hsync⟩ := h.sync
  obtain ⟨y, hy, horigin⟩ := h.origin
  cases y with
  | sync oneStep timestamp responses arrival =>
    cases oneStep with
    | false => exact absurd rfl horigin
    | true => exact ⟨_, _, _, _, hy, hresponses hy, .inl rfl⟩
  | followUp origin =>
    cases x with
    | followUp ts => exact absurd rfl hsync
    | sync oneStep timestamp responses arrival =>
      exact ⟨_, _, _, _, hx, hresponses hx, .inr ⟨origin, hy⟩⟩

/-- After these messages the times are fresh exactly when timestamps can be converted. -/
theorem fresh_hearAll {hs : List Heard} (h : Completes hs) (t : Times) :
    Fresh hs (t.hearAll hs) ↔ Convertible hs := by
  have hr1 := settle_carried t.r1 hs Heard.responses
  have ht2 := settle_carried t.t2 hs Heard.origins
  rw [Times.hearAll_eq]
  constructor
  · intro hfresh
    exact ⟨hr1.mp hfresh.r1, ht2.mp hfresh.t2⟩
  · intro hconv
    have hr2 : ∃ x ∈ hs,
        (hs.flatMap Heard.arrivals).foldl (fun _ arrival => arrival) t.r2 ∈ x.arrivals := by
      obtain ⟨x, hx, hsync⟩ := h.sync
      obtain ⟨arrival, harrival⟩ := List.exists_mem_of_ne_nil _ hsync
      have hmem : arrival ∈ hs.flatMap Heard.arrivals := List.mem_flatMap.mpr ⟨x, hx, harrival⟩
      exact List.mem_flatMap.mp (foldl_last_mem (List.ne_nil_of_mem hmem) t.r2)
    exact ⟨h.heard, hr1.mpr hconv.1, ht2.mpr hconv.2, hr2⟩

/-! ## A call -/

/-- The messages that these polls bring. -/
def Awaited.heardIn (a : Awaited) (polls : List Poll) : List Heard := (polls.map a.hears).reduceOption

section Flow
variable {domainNumber : Octet} {useTwoSteps : Bool} {sID : BitVec 16} {inp : FlowInput}
  {st : ClientState} {r : FlowResult}

theorem flow_heard (hw : ∀ poll ∈ inp.polls, poll.WellSized st.buffer.size)
    (h : st.flow domainNumber useTwoSteps sID inp = some r) :
    let hs := (st.awaited domainNumber sID).heardIn inp.polls
    (r.ret = true ↔ Completes hs) ∧
      (r.ret = true → r.st.times = { st.times with t1 := inp.now.toTimespec }.hearAll hs) := by
  intro hs
  obtain ⟨-, -, ⟨-, hpolls, hret, -⟩ | ⟨-, x, hloop, -, htimes, hx⟩⟩ := flow_cases h
  · have hnil : hs = [] := by
      simp only [hs, hpolls]
      rfl
    rw [hret, hnil]
    exact ⟨⟨fun h => absurd h (by simp), fun h => absurd h.sync (by simp)⟩, fun h => absurd h (by simp)⟩
  · have hview := waiting_view domainNumber useTwoSteps sID inp hw
    rw [hloop, Option.map_some] at hview
    cases x with
    | error st' =>
      obtain ⟨y, hy, hbare⟩ := View.listen_error hview.symm
      rw [hx.1]
      refine ⟨⟨fun h => absurd h (by simp), fun h => ?_⟩, fun h => absurd h (by simp)⟩
      exact absurd (h.bare y hy) (by rw [hbare]; simp)
    | ok w =>
      obtain ⟨hall, htime, hwait⟩ := View.listen_ok hview.symm
      have hzero : w.wait = 0 ↔ (∃ h ∈ hs, h.arrivals ≠ []) ∧ ∃ h ∈ hs, h.origins ≠ [] := by
        rw [← foldl_keeps_eq_zero]
        exact Eq.congr hwait rfl
      rw [hx.1, decide_eq_true_iff, hzero]
      refine ⟨⟨fun h => ⟨hall, h.1, h.2⟩, fun h => ⟨h.sync, h.origin⟩⟩, fun _ => ?_⟩
      exact htimes.trans htime

/-- When a call returns true its times are fresh, if and only if a timestamp for `r1` and one for `t2`
among the messages that complete the call can be converted. -/
theorem client_fresh (hw : ∀ poll ∈ inp.polls, poll.WellSized st.buffer.size)
    (h : st.flow domainNumber useTwoSteps sID inp = some r) :
    let hs := (st.awaited domainNumber sID).heardIn inp.polls
    (r.ret = true → Fresh hs r.st.times) ↔ (Completes hs → Convertible hs) := by
  intro hs
  obtain ⟨hret, htimes⟩ := flow_heard hw h
  rw [hret] at htimes ⊢
  constructor
  · intro hfresh hc
    have hf := hfresh hc
    rw [htimes hc] at hf
    exact (fresh_hearAll hc _).mp hf
  · intro hconv hc
    rw [htimes hc]
    exact (fresh_hearAll hc _).mpr (hconv hc)

end Flow

section Sample

/-- A message from the service of the sample client, with this part of a second in its time. -/
def sampleMessage (type : MessageType) (controlField : Octet) (nsec : BitVec 32) (ts : List Tlv) :
    Datagram :=
  { addr := .in4 ptpUdpPort 9
    octets := wireOctets { PtpParams.zero with
      type := type, domainNumber := 128, sequenceId := 7, useTwoSteps := true,
      timestamp := ⟨⟨0, 20⟩, nsec⟩ } controlField ts 160 }

/-- The request came in at second 10. -/
theorem sampleId_length : ([1, 2, 3] : List Octet).length = 3 := rfl

theorem sampleSubType_length : ([4, 5, 6] : List Octet).length = 3 := rfl

def sampleResponse : Tlv :=
  .response { organizationId := ⟨[1, 2, 3], sampleId_length⟩,
              organizationSubType := ⟨[4, 5, 6], sampleSubType_length⟩,
              reqIngressTimestamp := ⟨⟨0, 10⟩, 5⟩, reqCorrectionField := 0 }

/-- The Follow_Up arrives at second 21 and the Response Sync at second 22. -/
def sampleFlow (nsec : BitVec 32) : FlowInput :=
  { now := sampleTime 9, netReqSync := true, netFollowUp := true,
    polls := [.ready (some (sampleMessage .followUp 2 nsec [])) (sampleTime 21),
      .ready (some (sampleMessage .sync 0 nsec [sampleResponse])) (sampleTime 22)] }

/-- A client with a time of sending from an earlier cycle. -/
def sampleStale : ClientState := { sampleClient (fun _ => 0xaa) with t2 := ⟨3, 5⟩ }

def sampleHeard (nsec : BitVec 32) : List Heard :=
  [.followUp ⟨⟨0, 20⟩, nsec⟩, .sync false ⟨⟨0, 20⟩, nsec⟩ [⟨⟨0, 10⟩, 5⟩] ⟨22, 5⟩]

/-- The Follow_Up with a billion nanoseconds is accepted and leaves the old `t2`. -/
theorem client_fresh_fails :
    (∀ poll ∈ (sampleFlow 1000000000).polls, poll.WellSized sampleStale.buffer.size) ∧
      ∃ r, sampleStale.flow 128 false 7 (sampleFlow 1000000000) = some r ∧ r.ret = true ∧
        r.st.t2 = sampleStale.t2 ∧
        ¬ Fresh ((sampleStale.awaited 128 7).heardIn (sampleFlow 1000000000).polls) r.st.times := by
  refine ⟨by decide +kernel, ?_⟩
  have hrun : ((sampleStale.flow 128 false 7 (sampleFlow 1000000000)).map fun r =>
      (r.ret, r.st.t2)) = some (true, sampleStale.t2) := by decide +kernel
  have hheard : (sampleStale.awaited 128 7).heardIn (sampleFlow 1000000000).polls =
      sampleHeard 1000000000 := by decide +kernel
  obtain ⟨r, hr, hrun⟩ := Option.map_eq_some_iff.mp hrun
  refine ⟨r, hr, congrArg Prod.fst hrun, congrArg Prod.snd hrun, fun hfresh => ?_⟩
  obtain ⟨h, hh, ts, hts, htime⟩ := hfresh.t2
  rw [hheard] at hh
  have hts' : ts = ⟨⟨0, 20⟩, 1000000000⟩ := by
    rcases List.mem_pair.mp hh with rfl | rfl
    · exact List.mem_singleton.mp hts
    · simp [Heard.origins] at hts
  rw [hts'] at htime
  exact absurd htime (by simp [Timestamp.time, nsecPerSec])

/-- The same call with five nanoseconds. -/
theorem client_fresh_sample :
    ∃ r, sampleStale.flow 128 false 7 (sampleFlow 5) = some r ∧ r.ret = true ∧
      Fresh ((sampleStale.awaited 128 7).heardIn (sampleFlow 5).polls) r.st.times := by
  have hw : ∀ poll ∈ (sampleFlow 5).polls, poll.WellSized sampleStale.buffer.size := by
    decide +kernel
  have hrun : (sampleStale.flow 128 false 7 (sampleFlow 5)).map FlowResult.ret = some true := by
    decide +kernel
  have hheard : (sampleStale.awaited 128 7).heardIn (sampleFlow 5).polls = sampleHeard 5 := by
    decide +kernel
  obtain ⟨r, hr, hret⟩ := Option.map_eq_some_iff.mp hrun
  refine ⟨r, hr, hret, (client_fresh hw hr).mpr (fun _ => ?_) hret⟩
  rw [hheard]
  exact ⟨⟨.sync false ⟨⟨0, 20⟩, 5⟩ [⟨⟨0, 10⟩, 5⟩] ⟨22, 5⟩, by simp [sampleHeard], ⟨⟨0, 10⟩, 5⟩,
      List.mem_cons_self, by decide⟩,
    ⟨.followUp ⟨⟨0, 20⟩, 5⟩, List.mem_cons_self, ⟨⟨0, 20⟩, 5⟩, List.mem_cons_self, by decide⟩⟩

end Sample

end Csptp

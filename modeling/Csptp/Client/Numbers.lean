import Csptp.Client.Leaving

/-! # The sequence numbers of the client

A call that comes to its end moves on to the next number. One that returns before, after its Request
Sync is on the wire, does not. -/
namespace Csptp
open Octets Octets.Prog
set_option autoImplicit false

/-! ## Counting without zero -/

namespace ClientState

theorem nextSequenceId_toNat {s : BitVec 16} (h : s ≠ 0) :
    (nextSequenceId s).toNat = s.toNat % 65535 + 1 := by
  have hpos : s.toNat ≠ 0 := fun h0 => h (BitVec.eq_of_toNat_eq h0)
  have hlt := s.isLt
  unfold nextSequenceId
  by_cases hmax : s = 0xffff#16
  · rw [if_pos hmax, hmax]
    rfl
  · have hne : s.toNat ≠ 65535 := fun h0 => hmax (BitVec.eq_of_toNat_eq h0)
    have hone : (1 : BitVec 16).toNat = 1 := rfl
    rw [if_neg hmax, BitVec.toNat_add, hone]
    omega

theorem nextSequenceId_ne_zero {s : BitVec 16} (h : s ≠ 0) : nextSequenceId s ≠ 0 := by
  intro h0
  have hnat := nextSequenceId_toNat h
  rw [h0] at hnat
  exact absurd hnat (by simp)

theorem nextSequenceId_ne {s : BitVec 16} (h : s ≠ 0) : nextSequenceId s ≠ s := by
  intro hself
  have hnat := nextSequenceId_toNat h
  have hlt := s.isLt
  rw [hself] at hnat
  omega

theorem iterate_nextSequenceId {s : BitVec 16} (h : s ≠ 0) (k : ℕ) :
    (nextSequenceId^[k] s).toNat = (s.toNat - 1 + k) % 65535 + 1 := by
  induction k generalizing s with
  | zero =>
    have hpos : s.toNat ≠ 0 := fun h0 => h (BitVec.eq_of_toNat_eq h0)
    have hlt := s.isLt
    rw [Function.iterate_zero_apply]
    omega
  | succ k ih =>
    rw [Function.iterate_succ_apply, ih (nextSequenceId_ne_zero h), nextSequenceId_toNat h]
    have hpos : s.toNat ≠ 0 := fun h0 => h (BitVec.eq_of_toNat_eq h0)
    omega

/-- Fewer than 65535 steps apart the numbers differ. -/
theorem iterate_nextSequenceId_ne {s : BitVec 16} (h : s ≠ 0) {i j : ℕ} (hij : i < j)
    (hj : j < i + 65535) : nextSequenceId^[j] s ≠ nextSequenceId^[i] s := by
  intro heq
  have hnat := congrArg BitVec.toNat heq
  rw [iterate_nextSequenceId h, iterate_nextSequenceId h] at hnat
  omega

end ClientState

/-! ## One call -/

/-- A pass that ends the call, as its Sync has no response. -/
def Waiting.bare (domainNumber : Octet) (sequenceId : BitVec 16) (pass : Waiting × Poll) : Bool :=
  (pass.1.st.hears domainNumber sequenceId pass.2).any Heard.bare

theorem exists_bare {domainNumber : Octet} {sequenceId : BitVec 16} {polls : List Poll} {w : Waiting}
    {st : ClientState} (h : Waiting.loop domainNumber sequenceId polls w = some (.error st)) :
    ∃ pass ∈ Waiting.passes domainNumber sequenceId polls w,
      Waiting.bare domainNumber sequenceId pass = true := by
  induction polls generalizing w with
  | nil =>
    rw [Waiting.loop, Option.ite_none_left_eq_some] at h
    exact absurd h.2 (by simp)
  | cons poll polls ih =>
    rw [Waiting.loop, Option.ite_none_right_eq_some] at h
    obtain ⟨hgo, h⟩ := h
    rw [Waiting.passes, if_pos hgo]
    have hview := body_view domainNumber sequenceId poll w
    cases hb : w.body domainNumber sequenceId poll with
    | error st' =>
      refine ⟨(w, poll), List.mem_cons_self, ?_⟩
      rw [hb] at hview
      rw [Waiting.bare]
      dsimp only
      cases hx : w.st.hears domainNumber sequenceId poll with
      | none => simp [hx, Waiting.seen, View.hear] at hview
      | some x =>
        rw [hx, View.hear] at hview
        split at hview
        · rename_i hbare
          exact hbare
        · simp [Waiting.seen] at hview
    | ok w' =>
      rw [hb] at h
      obtain ⟨pass, hpass, hbare⟩ := ih h
      exact ⟨pass, List.mem_cons_of_mem _ hpass, hbare⟩

/-- When the Request Sync of the call goes out then so does its Follow_Up, and no Sync without a
response is accepted. -/
def ClientState.Undisturbed (opt : ClientOpt) (st : ClientState) (sID : BitVec 16) (inp : FlowInput) :
    Prop :=
  (inp.netReqSync = true → opt.useTwoSteps = true → inp.netFollowUp = true) ∧
    ∀ pass ∈ Waiting.passes opt.domainNumber sID inp.polls (st.waiting opt.useTwoSteps sID inp),
      Waiting.bare opt.domainNumber sID pass = false

instance (opt : ClientOpt) (st : ClientState) (sID : BitVec 16) (inp : FlowInput) :
    Decidable (st.Undisturbed opt sID inp) := inferInstanceAs (Decidable (_ ∧ _))

section Flow
variable {opt : ClientOpt} {sID : BitVec 16} {inp : FlowInput} {st : ClientState} {r : FlowResult}

theorem flow_sID (h : st.flow opt.domainNumber opt.useTwoSteps sID inp = some r) :
    r.sID = sID ∨ r.sID = ClientState.nextSequenceId sID := by
  obtain ⟨-, -, ⟨-, -, -, hsID, -⟩ | ⟨-, x, -, -, -, hx⟩⟩ := flow_cases h
  · exact .inl hsID
  · cases x with
    | error st' => exact .inl hx.2
    | ok w => exact .inr hx.2

/-- An undisturbed call moves on exactly when it sent something. -/
theorem flow_moves (hu : st.Undisturbed opt sID inp)
    (h : st.flow opt.domainNumber opt.useTwoSteps sID inp = some r) :
    r.sID = if r.sent = [] then sID else ClientState.nextSequenceId sID := by
  obtain ⟨hout, hflag⟩ := ClientState.transmit_out st opt.useTwoSteps sID inp
  obtain ⟨-, hsent, ⟨hfalse, -, -, hsID, -⟩ | ⟨htrue, x, hloop, -, -, hx⟩⟩ := flow_cases h
  · have hnot := hflag.not.mp (by rw [hfalse]; simp)
    have hnil : r.sent = [] := by
      rw [hsent, hout, requests]
      split
      · rfl
      · rename_i octs hreq
        by_cases hnet : inp.netReqSync = true
        · exact absurd ⟨⟨octs, hreq⟩, hnet, hu.1 hnet⟩ hnot
        · rw [if_pos (by simpa using hnet)]
          rfl
    rw [if_pos hnil, hsID]
  · obtain ⟨⟨octs, hreq⟩, hnet, -⟩ := hflag.mp htrue
    have hne : r.sent ≠ [] := by
      rw [hsent, hout, requests, hreq]
      simp [hnet]
    rw [if_neg hne]
    cases x with
    | error st' =>
      obtain ⟨pass, hpass, hbare⟩ := exists_bare hloop
      exact absurd (hu.2 pass hpass) (by rw [hbare]; simp)
    | ok w => exact hx.2

end Flow

/-! ## A run of the client -/

/-- Every call of the run meets the condition, in the state and with the number it starts from. -/
def EveryCall (opt : ClientOpt) (P : ClientState → BitVec 16 → FlowInput → Prop) :
    List FlowInput → ClientState → BitVec 16 → Prop
  | [], _, _ => True
  | inp :: inps, st, sequenceId => P st sequenceId inp ∧
    ∀ r ∈ st.flow opt.domainNumber opt.useTwoSteps sequenceId inp, EveryCall opt P inps r.st r.sID

/-- The calls that put a Request Sync on the wire. -/
def transmitted (rs : List FlowResult) : List FlowResult := rs.filter fun r => r.sent ≠ []

section Run
variable {opt : ClientOpt} {inps : List FlowInput} {st : ClientState} {s : BitVec 16}
  {rs : List FlowResult}

theorem clientMain_cons {inp : FlowInput} (h : clientMain opt (inp :: inps) st s = some rs) :
    ∃ r rest, st.flow opt.domainNumber opt.useTwoSteps s inp = some r ∧
      clientMain opt inps r.st r.sID = some rest ∧ rs = r :: rest := by
  rw [clientMain] at h
  obtain ⟨r, hr, h⟩ := Option.bind_eq_some_iff.mp h
  obtain ⟨rest, hrest, rfl⟩ := Option.map_eq_some_iff.mp h
  exact ⟨r, rest, hr, hrest, rfl⟩

theorem sequenceId_ne_zero (h : clientMain opt inps st s = some rs) (hs : s ≠ 0) :
    ∀ r ∈ rs, r.sequenceId ≠ 0 := by
  induction inps generalizing st s rs with
  | nil =>
    cases h
    exact fun r hr => absurd hr List.not_mem_nil
  | cons inp inps ih =>
    obtain ⟨r, rest, hr, hrest, rfl⟩ := clientMain_cons h
    have hnext : r.sID ≠ 0 := by
      rcases flow_sID hr with hsID | hsID
      · rw [hsID]
        exact hs
      · rw [hsID]
        exact ClientState.nextSequenceId_ne_zero hs
    intro r' hr'
    rcases List.mem_cons.mp hr' with rfl | hr'
    · rw [(flow_cases hr).1]
      exact hs
    · exact ih hrest hnext r' hr'

theorem sequenceId_head {r : FlowResult} (h : clientMain opt inps st s = some rs)
    (hr : rs[0]? = some r) : r.sequenceId = s := by
  cases inps with
  | nil =>
    cases h
    exact absurd hr (by simp)
  | cons inp inps =>
    obtain ⟨r', rest, hr', -, rfl⟩ := clientMain_cons h
    obtain rfl := Option.some.inj hr
    exact (flow_cases hr').1

variable (hu : EveryCall opt (fun st => st.Undisturbed opt) inps st s)
include hu

theorem sequenceId_next (h : clientMain opt inps st s = some rs) {i : ℕ} {r r' : FlowResult}
    (hr : rs[i]? = some r) (hr' : rs[i + 1]? = some r') (hsent : r.sent ≠ []) :
    r'.sequenceId = ClientState.nextSequenceId r.sequenceId := by
  induction inps generalizing st s rs i with
  | nil =>
    cases h
    exact absurd hr (by simp)
  | cons inp inps ih =>
    obtain ⟨r₀, rest, hr₀, hrest, rfl⟩ := clientMain_cons h
    rw [List.getElem?_cons_succ] at hr'
    cases i with
    | zero =>
      obtain rfl := Option.some.inj hr
      have hmoves := flow_moves hu.1 hr₀
      rw [if_neg hsent] at hmoves
      rw [sequenceId_head hrest hr', hmoves, (flow_cases hr₀).1]
    | succ i => exact ih (hu.2 r₀ hr₀) hrest hr hr'

/-- The transmitted Request Syncs use one number after the other. -/
theorem sequenceId_transmitted (h : clientMain opt inps st s = some rs) {i : ℕ} {r : FlowResult}
    (hr : (transmitted rs)[i]? = some r) : r.sequenceId = ClientState.nextSequenceId^[i] s := by
  induction inps generalizing st s rs i with
  | nil =>
    cases h
    exact absurd hr (by simp [transmitted])
  | cons inp inps ih =>
    obtain ⟨r₀, rest, hr₀, hrest, rfl⟩ := clientMain_cons h
    have hmoves := flow_moves hu.1 hr₀
    by_cases hnil : r₀.sent = []
    · rw [if_pos hnil] at hmoves
      have hskip : transmitted (r₀ :: rest) = transmitted rest := by simp [transmitted, hnil]
      have hrec := ih (hu.2 r₀ hr₀) hrest (hskip ▸ hr)
      rwa [hmoves] at hrec
    · rw [if_neg hnil] at hmoves
      have hkeep : transmitted (r₀ :: rest) = r₀ :: transmitted rest := by simp [transmitted, hnil]
      rw [hkeep] at hr
      cases i with
      | zero =>
        obtain rfl := Option.some.inj hr
        exact (flow_cases hr₀).1
      | succ i =>
        have hrec := ih (hu.2 r₀ hr₀) hrest hr
        rwa [hmoves] at hrec

end Run

/-- No call uses zero. In a run of undisturbed calls the call after a transmitted Request Sync uses
another number, any two of 65535 consecutive ones differ, and a message with the number of the earlier
one is not accepted in the cycle of the later one. -/
theorem sequence_numbers {opt : ClientOpt} {inps : List FlowInput} {st : ClientState}
    {rs : List FlowResult} (h : clientMain opt inps st 1 = some rs) :
    (∀ r ∈ rs, 1 ≤ r.sequenceId.toNat ∧ r.sequenceId.toNat ≤ 65535) ∧
      (EveryCall opt (fun st => st.Undisturbed opt) inps st 1 →
        (∀ i r r', rs[i]? = some r → rs[i + 1]? = some r' → r.sent ≠ [] →
          r'.sequenceId ≠ r.sequenceId) ∧
        ∀ i j r r', i < j → j < i + 65535 → (transmitted rs)[i]? = some r →
          (transmitted rs)[j]? = some r' → r'.sequenceId ≠ r.sequenceId ∧
          ∀ (st' : ClientState) arrival rxNow p, (st'.receive opt.domainNumber r'.sequenceId arrival
            rxNow).1 = some p → p.sequenceId ≠ r.sequenceId) := by
  have hone : (1 : BitVec 16) ≠ 0 := by decide
  refine ⟨fun r hr => ?_, fun hu => ⟨fun i r r' hr hr' hsent => ?_, fun i j r r' hij hj hr hr' => ?_⟩⟩
  · have hne := sequenceId_ne_zero h hone r hr
    have hpos : r.sequenceId.toNat ≠ 0 := fun h0 => hne (BitVec.eq_of_toNat_eq h0)
    have hlt := r.sequenceId.isLt
    omega
  · rw [sequenceId_next hu h hr hr' hsent]
    exact ClientState.nextSequenceId_ne (sequenceId_ne_zero h hone r (List.mem_of_getElem? hr))
  · have hne : r'.sequenceId ≠ r.sequenceId := by
      rw [sequenceId_transmitted hu h hr, sequenceId_transmitted hu h hr']
      exact ClientState.iterate_nextSequenceId_ne hone hij hj
    refine ⟨hne, fun st' arrival rxNow p hp => ?_⟩
    rw [(receive_eq_some st' _ _ hp).1]
    exact hne

section Sample

def sampleOpt (useTwoSteps : Bool) : ClientOpt :=
  { useTwoSteps := useTwoSteps, useCSPTPstatus := true, useAltTimeScale := true, domainNumber := 128,
    type := .udpIPv4, ip := none }

/-- The Request Sync goes out, and the Follow_Up does not. -/
def sampleLost : FlowInput :=
  { now := sampleTime 9, netReqSync := true, netFollowUp := false, polls := [] }

/-- Two calls that lose their Follow_Up use the same number. -/
theorem sequence_numbers_fail :
    ∃ r r', clientMain (sampleOpt true) [sampleLost, sampleLost] (sampleClient fun _ => 0xaa) 1 =
        some [r, r'] ∧ r.sent ≠ [] ∧ r'.sent ≠ [] ∧ r'.sequenceId = r.sequenceId := by
  have hrun : (clientMain (sampleOpt true) [sampleLost, sampleLost] (sampleClient fun _ => 0xaa) 1).map
      (fun rs => rs.map fun r => (r.sequenceId, r.sent.length)) = some [(1, 1), (1, 1)] := by
    decide +kernel
  obtain ⟨rs, hrs, hmap⟩ := Option.map_eq_some_iff.mp hrun
  obtain ⟨r, rest, rfl, hr, hrest⟩ := List.map_eq_cons_iff.mp hmap
  obtain ⟨r', last, rfl, hr', hnone⟩ := List.map_eq_cons_iff.mp hrest
  rw [List.map_eq_nil_iff] at hnone
  rw [Prod.mk.injEq] at hr hr'
  refine ⟨r, r', by rw [hrs, hnone], ?_, ?_, hr'.1.trans hr.1.symm⟩
  · exact List.ne_nil_of_length_pos (by omega)
  · exact List.ne_nil_of_length_pos (by omega)

/-- In one-step mode, with nothing to receive. -/
def sampleSilent : FlowInput :=
  { now := sampleTime 9, netReqSync := true, netFollowUp := false, polls := List.replicate 50 .idle }

theorem sequence_numbers_sample :
    ∃ r r', clientMain (sampleOpt false) [sampleSilent, sampleSilent] (sampleClient fun _ => 0xaa) 1 =
        some [r, r'] ∧ r.sent ≠ [] ∧ r'.sequenceId ≠ r.sequenceId := by
  have hrun : (clientMain (sampleOpt false) [sampleSilent, sampleSilent] (sampleClient fun _ => 0xaa)
      1).map (fun rs => rs.map fun r => r.sent.length) = some [1, 1] := by decide +kernel
  obtain ⟨rs, hrs, hmap⟩ := Option.map_eq_some_iff.mp hrun
  have hidle {w : Waiting} {s : BitVec 16} : ∀ pass ∈ Waiting.passes 128 s sampleSilent.polls w,
      Waiting.bare 128 s pass = false := by
    intro pass hpass
    have hpoll := List.eq_of_mem_replicate (Waiting.poll_mem_of_passes 128 s hpass)
    rw [Waiting.bare, hpoll]
    rfl
  have hu : EveryCall (sampleOpt false) (fun st => st.Undisturbed (sampleOpt false))
      [sampleSilent, sampleSilent] (sampleClient fun _ => 0xaa) 1 := by
    refine ⟨⟨fun _ h => absurd h (by decide), hidle⟩, fun r _ => ?_⟩
    exact ⟨⟨fun _ h => absurd h (by decide), hidle⟩, fun _ _ => trivial⟩
  obtain ⟨r, rest, rfl, hr, hrest⟩ := List.map_eq_cons_iff.mp hmap
  obtain ⟨r', last, rfl, hr', hnone⟩ := List.map_eq_cons_iff.mp hrest
  rw [List.map_eq_nil_iff] at hnone
  have hsent : r.sent ≠ [] := List.ne_nil_of_length_pos (by omega)
  exact ⟨r, r', by rw [hrs, hnone], hsent, ((sequence_numbers hrs).2 hu).1 0 r r' rfl rfl hsent⟩

end Sample

end Csptp

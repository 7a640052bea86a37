import Csptp.Exact
import Csptp.Client.Fresh

/-! # The length of a cycle

A call that comes to its end subtracts the time of the polls that timed out from the time of a cycle and
sleeps for the rest. `t_sleep` looks at the seconds only, so the rest is lost when it is below a second. -/
namespace Csptp
open Octets
set_option autoImplicit false

/-! ## Sleeping -/

/-- The system is asked for exactly this time when it is above zero, and for nothing otherwise. -/
def Timespec.SleepsFor (t : Timespec) : Prop := t.sleep = if 0 < t.exact then some t else none

instance (t : Timespec) : Decidable t.SleepsFor := inferInstanceAs (Decidable (_ = _))

theorem Timespec.sleepsFor_iff {t : Timespec} (h : t.Normal) :
    t.SleepsFor ↔ t.exact ≤ 0 ∨ nsecPerSec ≤ t.exact := by
  obtain ⟨h0, h1⟩ := h
  have hexact : t.exact = t.tvSec * nsecPerSec + t.tvNsec := rfl
  rw [nsecPerSec] at *
  rw [SleepsFor, sleep]
  split_ifs with hsec hpos hpos
  · exact ⟨fun _ => .inr (by omega), fun _ => rfl⟩
  · exact ⟨fun hno => absurd hno (by simp), fun _ => by omega⟩
  · exact ⟨fun hno => absurd hno (by simp), fun _ => by omega⟩
  · exact ⟨fun _ => .inl (by omega), fun _ => rfl⟩

/-! ## The polls that time out -/

def Poll.timedOut : Poll → Bool
  | .idle => true
  | .ready _ _ => false

/-- How many of these polls time out. -/
def timeouts (polls : List Poll) : ℕ := polls.countP Poll.timedOut

section Loop
variable {domainNumber : Octet} {sequenceId : BitVec 16}

/-- A pass counts a poll that timed out, and takes it from the polls that are left. -/
theorem body_timeouted {poll : Poll} {w w' : Waiting} (hgo : w.GoesOn)
    (h : w.body domainNumber sequenceId poll = .ok w') :
    w'.timeouted = w.timeouted + timeouts [poll] ∧ w'.loops + w'.timeouted ≤ w.loops + w.timeouted := by
  have hloops : w.loops > 0 := hgo.1
  cases poll with
  | idle =>
    rw [Waiting.body] at h
    rw [← Except.ok.inj h]
    refine ⟨rfl, ?_⟩
    dsimp only
    omega
  | ready arrival rxNow =>
    have hnone : timeouts [.ready arrival rxNow] = 0 := rfl
    rw [hnone, Nat.add_zero]
    rw [Waiting.body] at h
    split at h
    · rw [← Except.ok.inj h]
      exact ⟨rfl, by dsimp only; omega⟩
    · split at h
      · rw [Waiting.onSync] at h
        dsimp only at h
        split at h
        · rw [← Except.ok.inj h]
          exact ⟨rfl, le_rfl⟩
        · exact absurd h (by simp)
      · rw [← Except.ok.inj h]
        exact ⟨rfl, le_rfl⟩
      · rw [← Except.ok.inj h]
        exact ⟨rfl, le_rfl⟩

theorem loop_timeouted {polls : List Poll} {w w' : Waiting}
    (h : Waiting.loop domainNumber sequenceId polls w = some (.ok w')) :
    w'.timeouted = w.timeouted + timeouts polls ∧
      w'.loops + w'.timeouted ≤ w.loops + w.timeouted := by
  induction polls generalizing w with
  | nil =>
    rw [Waiting.loop, Option.ite_none_left_eq_some] at h
    rw [← Except.ok.inj (Option.some.inj h.2)]
    exact ⟨rfl, le_rfl⟩
  | cons poll polls ih =>
    rw [Waiting.loop, Option.ite_none_right_eq_some] at h
    obtain ⟨hgo, h⟩ := h
    cases hb : w.body domainNumber sequenceId poll with
    | error st =>
      rw [hb, Option.ite_none_right_eq_some] at h
      exact absurd (Option.some.inj h.2) (by simp)
    | ok w₁ =>
      rw [hb] at h
      obtain ⟨hcount, hle⟩ := body_timeouted hgo hb
      obtain ⟨hrest, hle'⟩ := ih h
      have hcons : timeouts (poll :: polls) = timeouts [poll] + timeouts polls := by
        rw [timeouts, ← List.singleton_append, List.countP_append]
        rfl
      rw [hcons]
      omega

end Loop

/-! ## The time to the next cycle -/

/-- `(-timeouted) * POLL_MS`, computed with a 64-bit `size_t`, as the `int` that `addMilliseconds`
gets. -/
def negatedMs (timeouted : ℕ) : BitVec 32 :=
  ((-BitVec.ofNat 64 timeouted) * BitVec.ofInt 64 pollMs).setWidth 32

/-- The narrowing keeps the value. -/
theorem negatedMs_toInt {timeouted : ℕ} (h : timeouted ≤ waitLoopPolls) :
    (negatedMs timeouted).toInt = -timeouted * pollMs := by
  rw [waitLoopPolls] at h
  have hneg : (-BitVec.ofNat 64 timeouted) * BitVec.ofInt 64 pollMs =
      BitVec.ofInt 64 (-timeouted * pollMs) := by
    rw [BitVec.ofInt_mul, BitVec.ofInt_neg, BitVec.ofInt_natCast]
  have hnonneg : (0 : ℤ) ≤ -timeouted * pollMs % (2 ^ 64 : ℕ) := Int.emod_nonneg _ (by norm_num)
  rw [negatedMs, hneg, BitVec.toInt_setWidth, BitVec.toNat_ofInt, Int.toNat_of_nonneg hnonneg,
    ← Int.emod_bmod, Int.emod_emod_of_dvd _ (by norm_num), Int.emod_bmod]
  rw [pollMs]
  exact Int.bmod_eq_of_le (by norm_num; omega) (by norm_num; omega)

/-- The time of the polls that timed out and the time of the sleep make a cycle. -/
def Paced (timeouted : ℕ) (slept : Option Timespec) : Prop :=
  cycleTime.exact ≤ timeouted * (pollMs * nsecPerMsec) + slept.elim 0 Timespec.exact

instance (timeouted : ℕ) (slept : Option Timespec) : Decidable (Paced timeouted slept) :=
  inferInstanceAs (Decidable (_ ≤ _))

theorem paced_iff (timeouted : ℕ) :
    Paced timeouted (cycleTime.addMilliseconds (-timeouted * pollMs)).sleep ↔
      timeouted = 0 ∨ 20 ≤ timeouted := by
  obtain ⟨hnormal, hexact, -⟩ :=
    Timespec.addMilliseconds_spec (show cycleTime.Normal by decide) (-timeouted * pollMs)
  obtain ⟨h0, h1⟩ := hnormal
  set t := cycleTime.addMilliseconds (-timeouted * pollMs)
  have hcycle : cycleTime.exact = 1000000000 := rfl
  have ht : t.exact = t.tvSec * nsecPerSec + t.tvNsec := rfl
  rw [hcycle] at hexact
  rw [nsecPerSec] at ht h1
  rw [nsecPerMsec, pollMs] at hexact
  rw [Paced, Timespec.sleep, hcycle, nsecPerMsec, pollMs]
  split_ifs with hsec
  · rw [Option.elim_some]
    omega
  · rw [Option.elim_none]
    omega

section Flow
variable {domainNumber : Octet} {useTwoSteps : Bool} {sID : BitVec 16} {inp : FlowInput}
  {st : ClientState} {r : FlowResult}

theorem nextSequenceId_ne (sID : BitVec 16) : ClientState.nextSequenceId sID ≠ sID := by
  rw [ClientState.nextSequenceId]
  split
  · rename_i hlast
    rw [hlast]
    decide
  · bv_omega

/-- A call that comes to its end, which is one that leaves the next number, sleeps for what is left. -/
theorem flow_slept (h : st.flow domainNumber useTwoSteps sID inp = some r) (hend : r.sID ≠ sID) :
    timeouts inp.polls ≤ waitLoopPolls ∧
      r.slept = (cycleTime.addMilliseconds (negatedMs (timeouts inp.polls)).toInt).sleep := by
  rw [ClientState.flow] at h
  dsimp only at h
  split at h
  · rw [Option.ite_none_right_eq_some] at h
    rw [← Option.some.inj h.2] at hend
    exact absurd rfl hend
  · obtain ⟨x, hloop, hr⟩ := Option.map_eq_some_iff.mp h
    cases x with
    | error st' =>
      rw [← hr] at hend
      exact absurd rfl hend
    | ok w =>
      obtain ⟨hcount, hle⟩ := loop_timeouted hloop
      dsimp only at hcount hle
      rw [Nat.zero_add] at hcount
      have hfew : timeouts inp.polls ≤ waitLoopPolls := by omega
      refine ⟨hfew, ?_⟩
      rw [negatedMs_toInt hfew, ← hcount, ← hr]
      dsimp only
      rw [Timespec.fromTimespec_of_normal (show cycleTime.Normal by decide)]

end Flow

/-- A timestamp object sleeps for its time except for the times between zero and a second, and a call
that comes to its end fills its cycle exactly when no poll or at least twenty polls time out. -/
theorem cycle_pacing (calls : List TsCall) {domainNumber : Octet} {useTwoSteps : Bool}
    {sID : BitVec 16} {inp : FlowInput} {st : ClientState} {r : FlowResult}
    (h : st.flow domainNumber useTwoSteps sID inp = some r) (hend : r.sID ≠ sID) :
    ((tsRun calls).SleepsFor ↔ (tsRun calls).exact ≤ 0 ∨ nsecPerSec ≤ (tsRun calls).exact) ∧
      r.slept = (cycleTime.addMilliseconds (negatedMs (timeouts inp.polls)).toInt).sleep ∧
      (Paced (timeouts inp.polls) r.slept ↔
        timeouts inp.polls = 0 ∨ 20 ≤ timeouts inp.polls) := by
  obtain ⟨hfew, hslept⟩ := flow_slept h hend
  refine ⟨Timespec.sleepsFor_iff (tsRun_normal calls), hslept, ?_⟩
  rw [hslept, negatedMs_toInt hfew]
  exact paced_iff _

section Sample

/-- The sample exchange after some polls that time out. -/
def sampleLate (timeouted : ℕ) : FlowInput :=
  { sampleFlow 5 with polls := List.replicate timeouted .idle ++ (sampleFlow 5).polls }

/-- Half a second, and an exchange after a single poll that timed out: nobody sleeps. -/
theorem cycle_pacing_fails :
    ¬ (tsRun [.setTs 500000000]).SleepsFor ∧
      ∃ r, sampleStale.flow 128 false 7 (sampleLate 1) = some r ∧ r.ret = true ∧ r.sID ≠ 7 ∧
        r.slept = none ∧ ¬ Paced (timeouts (sampleLate 1).polls) r.slept := by
  refine ⟨by decide, ?_⟩
  have hrun : (sampleStale.flow 128 false 7 (sampleLate 1)).map (fun r => (r.ret, r.sID, r.slept)) =
      some (true, 8, none) := by decide +kernel
  obtain ⟨r, hr, hrun⟩ := Option.map_eq_some_iff.mp hrun
  obtain ⟨hret, hrest⟩ := Prod.mk.inj hrun
  obtain ⟨hsID, hslept⟩ := Prod.mk.inj hrest
  refine ⟨r, hr, hret, by rw [hsID]; decide, hslept, ?_⟩
  rw [hslept]
  decide +kernel

/-- Without a poll that timed out, and with twenty of them. -/
theorem cycle_pacing_sample :
    (∃ r, sampleStale.flow 128 false 7 (sampleLate 0) = some r ∧ Paced 0 r.slept) ∧
      ∃ r, sampleStale.flow 128 false 7 (sampleLate 20) = some r ∧ Paced 20 r.slept := by
  have hrun₀ : (sampleStale.flow 128 false 7 (sampleLate 0)).map FlowResult.sID = some 8 := by
    decide +kernel
  have hrun₂₀ : (sampleStale.flow 128 false 7 (sampleLate 20)).map FlowResult.sID = some 8 := by
    decide +kernel
  have hzero : timeouts (sampleLate 0).polls = 0 := by decide +kernel
  have htwenty : timeouts (sampleLate 20).polls = 20 := by decide +kernel
  obtain ⟨r₀, hr₀, hsID₀⟩ := Option.map_eq_some_iff.mp hrun₀
  obtain ⟨r₂₀, hr₂₀, hsID₂₀⟩ := Option.map_eq_some_iff.mp hrun₂₀
  have hpaced₀ := (cycle_pacing [] hr₀ (by rw [hsID₀]; decide)).2.2
  have hpaced₂₀ := (cycle_pacing [] hr₂₀ (by rw [hsID₂₀]; decide)).2.2
  rw [hzero] at hpaced₀
  rw [htwenty] at hpaced₂₀
  exact ⟨⟨r₀, hr₀, hpaced₀.mpr (.inl rfl)⟩, r₂₀, hr₂₀, hpaced₂₀.mpr (.inr le_rfl)⟩

end Sample

end Csptp

import Csptp.Client.Fresh

/-! # Whether the client stops waiting

A poll that brings nothing counts down, and a message that was waited for clears a bit of `wait`. A
message that is accepted once more does neither, so only repeated messages keep the client in its
loop. -/
namespace Csptp
open Octets Octets.Prog
set_option autoImplicit false

/-! ## The measure -/

def bitsLeft (wait : Octet) : ℕ := (wait.getLsbD 0).toNat + (wait.getLsbD 1).toNat

theorem bitsLeft_waitBits (a b : Bool) : bitsLeft (waitBits a b) = (!a).toNat + (!b).toNat := by
  cases a <;> cases b <;> rfl

/-- What is left to poll and to wait for. -/
def View.pending (v : View) : ℕ := v.loops + bitsLeft v.wait

/-- Only the two bits of the awaited messages are in use. -/
def View.Masked (v : View) : Prop := ∃ a b, v.wait = waitBits a b

/-- A message that clears no bit. -/
def View.repeats (v : View) : Option Heard → Bool
  | none => false
  | some h => v.wait &&& h.keeps = v.wait

theorem View.two_le_pending {v : View} (hm : v.Masked) (hgo : v.GoesOn) : 2 ≤ v.pending := by
  obtain ⟨a, b, hwait⟩ := hm
  obtain ⟨hloops, hbits⟩ := hgo
  have hpos : 1 ≤ bitsLeft v.wait := by
    rw [hwait] at hbits
    rw [hwait, bitsLeft_waitBits]
    cases a <;> cases b <;> revert hbits <;> decide
  unfold View.pending
  omega

theorem bitsLeft_and (a b c d : Bool) :
    bitsLeft (waitBits a b &&& waitBits c d) +
        (if waitBits a b &&& waitBits c d = waitBits a b then 0 else 1) ≤
      bitsLeft (waitBits a b) := by
  cases a <;> cases b <;> cases c <;> cases d <;> decide

/-- A pass that does not repeat lowers the measure. -/
theorem View.hear_pending {v v' : View} {x : Option Heard} (hm : v.Masked) (hgo : v.GoesOn)
    (h : v.hear x = .ok v') :
    v'.Masked ∧ v'.pending + 1 ≤ v.pending + if v.repeats x then 1 else 0 := by
  obtain ⟨a, b, hwait⟩ := hm
  cases x with
  | none =>
    cases h
    have hloops := hgo.1
    refine ⟨⟨a, b, hwait⟩, ?_⟩
    unfold View.pending View.repeats
    dsimp only
    omega
  | some x =>
    rw [View.hear] at h
    split at h
    · cases h
    · cases h
      have hand := bitsLeft_and a b (!x.arrivals.isEmpty) (!x.origins.isEmpty)
      rw [← x.keeps_eq, ← hwait] at hand
      refine ⟨⟨_, _, by rw [View.take, x.keeps_eq, hwait, waitBits_and]⟩, ?_⟩
      simp only [View.pending, View.take, View.repeats, decide_eq_true_eq]
      split_ifs at hand ⊢ <;> omega

/-! ## The passes of the loop -/

namespace Waiting
variable (domainNumber : Octet) (sequenceId : BitVec 16)

/-- The passes that the loop makes with these polls: the state it finds, and the poll. -/
def passes : List Poll → Waiting → List (Waiting × Poll)
  | [], _ => []
  | poll :: polls, w =>
    if w.GoesOn then
      (w, poll) :: match w.body domainNumber sequenceId poll with
        | .error _ => []
        | .ok w => passes polls w
    else []

/-- The message of this pass is accepted and clears no bit. -/
def repeated (pass : Waiting × Poll) : Bool :=
  pass.1.view.repeats (pass.1.st.hears domainNumber sequenceId pass.2)

/-- The loop is left when it has made `n` passes. -/
def LeftAfter (polls : ℕ → Poll) (w : Waiting) (n : ℕ) : Prop :=
  (loop domainNumber sequenceId ((List.range n).map polls) w).isSome

/-- The number of repeated messages in the first `n` passes. -/
def repeats (polls : ℕ → Poll) (w : Waiting) (n : ℕ) : ℕ :=
  (passes domainNumber sequenceId ((List.range n).map polls) w).countP (repeated domainNumber sequenceId)

theorem passes_length_le (polls : List Poll) (w : Waiting) :
    (passes domainNumber sequenceId polls w).length ≤ polls.length := by
  induction polls generalizing w with
  | nil => exact Nat.le_refl 0
  | cons poll polls ih =>
    rw [passes]
    split
    · rw [List.length_cons, List.length_cons]
      apply Nat.succ_le_succ
      split
      · exact Nat.zero_le _
      · exact ih _
    · exact Nat.zero_le _

theorem poll_mem_of_passes {polls : List Poll} {w : Waiting} {pass : Waiting × Poll}
    (h : pass ∈ passes domainNumber sequenceId polls w) : pass.2 ∈ polls := by
  induction polls generalizing w with
  | nil => exact absurd h List.not_mem_nil
  | cons poll polls ih =>
    rw [passes] at h
    split at h
    · rcases List.mem_cons.mp h with rfl | h
      · exact List.mem_cons_self
      · split at h
        · exact absurd h List.not_mem_nil
        · exact List.mem_cons_of_mem _ (ih h)
    · exact absurd h List.not_mem_nil

theorem passes_append {polls : List Poll} {w : Waiting}
    (h : (loop domainNumber sequenceId polls w).isSome) (more : List Poll) :
    passes domainNumber sequenceId (polls ++ more) w = passes domainNumber sequenceId polls w := by
  induction polls generalizing w with
  | nil =>
    have hstop : ¬ w.GoesOn := by
      intro hgo
      rw [loop, if_pos hgo] at h
      exact absurd h (by simp)
    cases more with
    | nil => rfl
    | cons poll more => simp only [List.nil_append, passes, if_neg hstop]
  | cons poll polls ih =>
    rw [List.cons_append, passes, passes]
    rw [loop] at h
    by_cases hgo : w.GoesOn
    · rw [if_pos hgo] at h ⊢
      rw [if_pos hgo]
      cases hb : w.body domainNumber sequenceId poll with
      | error st => rfl
      | ok w' =>
        rw [hb] at h
        exact congrArg ((w, poll) :: ·) (ih h)
    · rw [if_neg hgo, if_neg hgo]

theorem leaves_of_pending (polls : List Poll) {w : Waiting} (hm : w.view.Masked)
    (h : w.view.pending + (passes domainNumber sequenceId polls w).countP
      (repeated domainNumber sequenceId) ≤ polls.length + 1) :
    ∃ n ≤ polls.length, (loop domainNumber sequenceId (polls.take n) w).isSome := by
  induction polls generalizing w with
  | nil =>
    refine ⟨0, Nat.le_refl 0, ?_⟩
    rw [List.take_nil, loop]
    by_cases hgo : w.GoesOn
    · have htwo := View.two_le_pending hm hgo
      rw [List.length_nil] at h
      omega
    · rw [if_neg hgo]
      rfl
  | cons poll polls ih =>
    by_cases hgo : w.GoesOn
    · rw [passes, if_pos hgo, List.countP_cons] at h
      have hview := body_view domainNumber sequenceId poll w
      cases hb : w.body domainNumber sequenceId poll with
      | error st =>
        refine ⟨1, by simp, ?_⟩
        rw [List.take_succ_cons, List.take_zero, loop, if_pos hgo, hb]
        rfl
      | ok w' =>
        rw [hb] at h hview
        obtain ⟨hm', hstep⟩ := View.hear_pending hm hgo hview.symm
        obtain ⟨n, hn, hleft⟩ := ih hm' (by
          dsimp only [repeated] at h
          rw [List.length_cons] at h
          cases hrep : w.view.repeats (w.st.hears domainNumber sequenceId poll) <;>
            simp [hrep] at h hstep <;> omega)
        refine ⟨n + 1, by rw [List.length_cons]; omega, ?_⟩
        rw [List.take_succ_cons, loop, if_pos hgo, hb]
        exact hleft
    · refine ⟨0, Nat.zero_le _, ?_⟩
      rw [List.take_zero, loop, if_neg hgo]
      rfl

section Stream
variable (st : ClientState) (polls : ℕ → Poll)

theorem first_take {n m : ℕ} (h : n ≤ m) :
    ((List.range m).map polls).take n = (List.range n).map polls := by
  rw [← List.map_take, List.take_range, Nat.min_eq_left h]

/-- With `k` repeated messages the loop is left within `WAIT_LOOP + 1 + k` passes. -/
theorem left_within {k : ℕ} (h : ∀ n, repeats domainNumber sequenceId polls (start st) n ≤ k) :
    ∃ n ≤ waitLoopPolls + 1 + k, LeftAfter domainNumber sequenceId polls (start st) n := by
  have hm : (start st).view.Masked := ⟨false, false, rfl⟩
  have hpending : (start st).view.pending = waitLoopPolls + 2 :=
    congrArg (waitLoopPolls + ·) (bitsLeft_waitBits false false)
  have hcount := h (waitLoopPolls + 1 + k)
  obtain ⟨n, hn, hleft⟩ := leaves_of_pending domainNumber sequenceId
    ((List.range (waitLoopPolls + 1 + k)).map polls) hm (by
      rw [hpending, List.length_map, List.length_range]
      rw [repeats] at hcount
      omega)
  rw [List.length_map, List.length_range] at hn
  rw [first_take polls hn] at hleft
  exact ⟨n, hn, hleft⟩

theorem repeats_le_of_left {w : Waiting} {n : ℕ} (h : LeftAfter domainNumber sequenceId polls w n)
    (m : ℕ) : repeats domainNumber sequenceId polls w m ≤ n := by
  rw [repeats]
  apply Nat.le_trans List.countP_le_length
  by_cases hmn : m ≤ n
  · have hlen := passes_length_le domainNumber sequenceId ((List.range m).map polls) w
    rw [List.length_map, List.length_range] at hlen
    omega
  · have hsplit : (List.range m).map polls =
        (List.range n).map polls ++ ((List.range m).map polls).drop n := by
      rw [← first_take polls (Nat.le_of_not_le hmn), List.take_append_drop]
    have hlen := passes_length_le domainNumber sequenceId ((List.range n).map polls) w
    rw [List.length_map, List.length_range] at hlen
    rw [hsplit, passes_append domainNumber sequenceId h]
    exact hlen

end Stream

end Waiting

/-- The loop is left exactly when only finitely many messages are repeated: with none of them within
`WAIT_LOOP + 1` passes, and with `k` of them within `k` more. -/
theorem wait_loop_left (domainNumber : Octet) (sequenceId : BitVec 16) (st : ClientState)
    (polls : ℕ → Poll) :
    let repeats := Waiting.repeats domainNumber sequenceId polls (Waiting.start st)
    let LeftAfter := Waiting.LeftAfter domainNumber sequenceId polls (Waiting.start st)
    (∀ k, (∀ n, repeats n ≤ k) → ∃ n ≤ waitLoopPolls + 1 + k, LeftAfter n) ∧
      ((∃ n, LeftAfter n) ↔ ∃ k, ∀ n, repeats n ≤ k) := by
  intro repeats LeftAfter
  refine ⟨fun k hk => Waiting.left_within domainNumber sequenceId st polls hk, ?_, ?_⟩
  · rintro ⟨n, hleft⟩
    exact ⟨n, Waiting.repeats_le_of_left domainNumber sequenceId polls hleft⟩
  · rintro ⟨k, hk⟩
    obtain ⟨n, -, hleft⟩ := Waiting.left_within domainNumber sequenceId st polls hk
    exact ⟨n, hleft⟩

section Sample

/-- With nothing to receive the loop is left within 51 passes. -/
theorem wait_loop_left_sample : ∃ n ≤ 51, Waiting.LeftAfter 128 7 (fun _ => .idle)
    (Waiting.start sampleStale) n := by
  refine (wait_loop_left 128 7 sampleStale fun _ => .idle).1 0 fun n => ?_
  apply Nat.le_of_eq
  apply List.countP_eq_zero.mpr
  intro pass hpass
  obtain ⟨-, -, hidle⟩ := List.mem_map.mp (Waiting.poll_mem_of_passes 128 7 hpass)
  rw [Waiting.repeated, ← hidle]
  simp [ClientState.hears, View.repeats]

/-- The Response Sync of a service in two-step mode, over and over. -/
def sampleRepeat : Poll := .ready (some (sampleMessage .sync 0 5 [sampleResponse])) (sampleTime 22)

theorem listen_two_step {h : Heard} (hkeeps : h.keeps = 2) (hbare : h.bare = false) (n : ℕ) {v : View}
    (hloops : v.loops > 0) (hwait : v.wait = 3 ∨ v.wait = 2) :
    View.listen (List.replicate n (some h)) v = none := by
  have hgo : v.GoesOn := by
    rcases hwait with hwait | hwait <;> exact ⟨hloops, by rw [hwait]; decide⟩
  induction n generalizing v with
  | zero => rw [List.replicate_zero, View.listen, if_pos hgo]
  | succ n ih =>
    have htwo : (v.take h).wait = 2 := by
      rw [View.take, hkeeps]
      rcases hwait with hwait | hwait <;> rw [hwait] <;> rfl
    rw [List.replicate_succ, View.listen_cons hgo hbare]
    exact ih hloops (.inr htwo) ⟨hloops, by rw [htwo]; decide⟩

/-- The client never leaves its loop. -/
theorem wait_loop_left_fails : ¬ ∃ n, Waiting.LeftAfter 128 7 (fun _ => sampleRepeat)
    (sampleStale.waiting false 7 (sampleFlow 5)) n := by
  rintro ⟨n, hleft⟩
  have hkept := ClientState.kept_transmit false 7 (sampleFlow 5) sampleStale
  have hset : (sampleStale.waiting false 7 (sampleFlow 5)).st.setting = sampleStale.setting :=
    congrArg Prod.fst hkept
  have hsize := congrArg Setting.bufSize hset
  have hheard : (sampleStale.awaited 128 7).hears sampleRepeat =
      some (.sync false ⟨⟨0, 20⟩, 5⟩ [⟨⟨0, 10⟩, 5⟩] ⟨22, 5⟩) := by decide +kernel
  have hw : sampleRepeat.WellSized sampleStale.buffer.size := by decide +kernel
  have hview := loop_view 128 7 ((List.range n).map fun _ => sampleRepeat)
    (sampleStale.waiting false 7 (sampleFlow 5)) (by
      intro poll hpoll
      obtain ⟨-, -, rfl⟩ := List.mem_map.mp hpoll
      rw [show (sampleStale.waiting false 7 (sampleFlow 5)).st.buffer.size = sampleStale.buffer.size
        from hsize]
      exact hw)
  rw [ClientState.awaited_of_setting hset, List.map_map] at hview
  have hconst : (List.range n).map ((sampleStale.awaited 128 7).hears ∘ fun _ => sampleRepeat) =
      List.replicate n (some (.sync false ⟨⟨0, 20⟩, 5⟩ [⟨⟨0, 10⟩, 5⟩] ⟨22, 5⟩)) := by
    rw [← hheard]
    exact List.map_const.trans (by rw [List.length_range])
  rw [hconst, listen_two_step (by rfl) (by rfl) n (by decide) (.inl rfl), Option.map_eq_none_iff] at hview
  rw [Waiting.LeftAfter, hview] at hleft
  exact absurd hleft (by simp)

end Sample

end Csptp

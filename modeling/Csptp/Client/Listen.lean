import Mathlib.Data.List.ReduceOption
import Csptp.Client.Receive

/-! # The wait loop as a listener

A `View` is what counts of a waiting client: the polls that are left, the messages that it still waits
for and its times. `View.hear` is one pass of the loop in these terms, and `loop_view` connects it with
the loop of the source. -/
namespace Csptp
open Octets Octets.Prog
set_option autoImplicit false

/-- One conversion after the other into one object. -/
def settle (t : Timespec) (tss : List Timestamp) : Timespec :=
  tss.foldl (fun t ts => (t.fromTimestamp ts).2) t

theorem settle_append (t : Timespec) (tss uss : List Timestamp) :
    settle t (tss ++ uss) = settle (settle t tss) uss := List.foldl_append

/-! ## What a message changes -/

namespace Heard

/-- The timestamps that go to `t2`. -/
def origins : Heard → List Timestamp
  | .sync oneStep timestamp _ _ => if oneStep then [timestamp] else []
  | .followUp timestamp => [timestamp]

/-- The timestamps that go to `r1`. -/
def responses : Heard → List Timestamp
  | .sync _ _ responses _ => responses
  | .followUp _ => []

/-- The times that go to `r2`. -/
def arrivals : Heard → List Timespec
  | .sync _ _ _ arrival => [arrival]
  | .followUp _ => []

/-- The bits of `wait` that stay. -/
def keeps : Heard → Octet
  | .sync oneStep _ _ _ => if oneStep then 0 else 2
  | .followUp _ => 1

/-- A Sync without a response. -/
def bare : Heard → Bool
  | .sync _ _ responses _ => responses.isEmpty
  | .followUp _ => false

end Heard

def Times.hear (t : Times) (h : Heard) : Times :=
  { t1 := t.t1, r1 := settle t.r1 h.responses, t2 := settle t.t2 h.origins,
    r2 := h.arrivals.foldl (fun _ arrival => arrival) t.r2 }

structure View where
  loops : ℕ
  wait : Octet
  times : Times
deriving DecidableEq

namespace View

def GoesOn (v : View) : Prop := v.loops > 0 ∧ v.wait > 0

instance (v : View) : Decidable v.GoesOn := inferInstanceAs (Decidable (_ ∧ _))

def take (v : View) (h : Heard) : View :=
  { v with wait := v.wait &&& h.keeps, times := v.times.hear h }

/-- One pass; the error is the end of the call at a Sync without a response. -/
def hear (v : View) : Option Heard → Except Times View
  | none => .ok { v with loops := v.loops - 1 }
  | some h => if h.bare then .error (v.times.hear h) else .ok (v.take h)

def listen : List (Option Heard) → View → Option (Except Times View)
  | [], v => if v.GoesOn then none else some (.ok v)
  | x :: xs, v =>
    if v.GoesOn then
      match v.hear x with
      | .error t => if xs.isEmpty then some (.error t) else none
      | .ok v => listen xs v
    else none

end View

/-! ## The loop of the source -/

def Waiting.view (w : Waiting) : View := ⟨w.loops, w.wait, w.st.times⟩

/-- What an outcome of the loop comes to. -/
def Waiting.seen : Except ClientState Waiting → Except Times View
  | .error st => .error st.times
  | .ok w => .ok w.view

theorem and_two_and_one (wait : Octet) : wait &&& 2#8 &&& 1#8 = 0#8 := by
  rw [BitVec.and_assoc]
  exact BitVec.and_zero

theorem onSync_view (p : PtpParams) (w : Waiting) (rxNow : ClockReading)
    (hts : w.st.tmpTs = rxNow.toTimespec) (htype : p.type = .sync) :
    Waiting.seen (w.onSync p) = w.view.hear
      (some (heardAs p (responsesIn w.st.buffer.mem w.st.message.tlvs) rxNow.toTimespec)) := by
  have hassign : w.st.r2.assign w.st.tmpTs = rxNow.toTimespec := by
    rw [hts]
    exact Timespec.assign_of_normal rxNow.normal
  rw [Waiting.onSync, heardAs, if_pos htype, hassign]
  simp only [run_rcvRespSync, View.hear, Heard.bare, Bool.false_or]
  generalize responsesIn w.st.buffer.mem w.st.message.tlvs = rs
  cases hstep : p.useTwoSteps <;> cases rs
  all_goals
    simp [Waiting.seen, Waiting.view, View.take, Times.hear, ClientState.times, settle,
      Heard.origins, Heard.responses, Heard.arrivals, Heard.keeps, and_two_and_one]

/-- One pass of the loop, in the state it finds. -/
theorem body_view (domainNumber : Octet) (sequenceId : BitVec 16) (poll : Poll) (w : Waiting) :
    Waiting.seen (w.body domainNumber sequenceId poll) =
      w.view.hear (w.st.hears domainNumber sequenceId poll) := by
  cases poll with
  | idle => rfl
  | ready arrival rxNow =>
    obtain ⟨-, htimes, hts⟩ := receive_keeps w.st domainNumber sequenceId arrival rxNow
    rw [Waiting.body, ClientState.hears]
    cases hr : w.st.receive domainNumber sequenceId arrival rxNow with
    | mk o st =>
      rw [hr] at htimes hts
      cases o with
      | none =>
        simp only [Waiting.seen, Waiting.view, htimes]
        rfl
      | some p =>
        have hview : { w with st := st }.view = w.view := by
          simp only [Waiting.view, htimes]
        obtain ⟨-, -, htype⟩ := receive_eq_some w.st domainNumber sequenceId
          (show (w.st.receive domainNumber sequenceId arrival rxNow).1 = some p by rw [hr])
        rcases htype with htype | htype
        · have hsync := onSync_view p { w with st := st } rxNow hts htype
          rw [hview] at hsync
          simp only [htype]
          exact hsync
        · rw [Option.map_some, heardAs, if_neg (by rw [htype]; simp), ← hview]
          simp only [htype]
          rfl

/-- The client state in an outcome of the loop. -/
def Waiting.state : Except ClientState Waiting → ClientState
  | .error st => st
  | .ok w => w.st

theorem body_keeps (domainNumber : Octet) (sequenceId : BitVec 16) (poll : Poll) (w : Waiting) :
    (Waiting.state (w.body domainNumber sequenceId poll)).setting = w.st.setting := by
  cases poll with
  | idle => rfl
  | ready arrival rxNow =>
    obtain ⟨hset, -, -⟩ := receive_keeps w.st domainNumber sequenceId arrival rxNow
    rw [Waiting.body]
    cases hr : w.st.receive domainNumber sequenceId arrival rxNow with
    | mk o st =>
      rw [hr] at hset
      cases o with
      | none => exact hset
      | some p =>
        dsimp only
        split
        · rw [Waiting.onSync]
          dsimp only
          split_ifs <;> exact hset
        · exact hset
        · exact hset

section Loop
variable (domainNumber : Octet) (sequenceId : BitVec 16)

theorem loop_keeps {polls : List Poll} {w : Waiting} {x : Except ClientState Waiting}
    (h : Waiting.loop domainNumber sequenceId polls w = some x) :
    (Waiting.state x).setting = w.st.setting := by
  induction polls generalizing w with
  | nil =>
    rw [Waiting.loop, Option.ite_none_left_eq_some] at h
    rw [← Option.some.inj h.2]
    rfl
  | cons poll polls ih =>
    have hbody := body_keeps domainNumber sequenceId poll w
    rw [Waiting.loop, Option.ite_none_right_eq_some] at h
    cases hb : w.body domainNumber sequenceId poll with
    | error st =>
      rw [hb] at h hbody
      obtain ⟨-, h⟩ := h
      rw [Option.ite_none_right_eq_some] at h
      rw [← Option.some.inj h.2]
      exact hbody
    | ok w' =>
      rw [hb] at h hbody
      exact (ih h.2).trans hbody

/-- The loop of the source, on the octets of what arrives. -/
theorem loop_view (polls : List Poll) (w : Waiting)
    (hw : ∀ poll ∈ polls, poll.WellSized w.st.buffer.size) :
    (Waiting.loop domainNumber sequenceId polls w).map Waiting.seen =
      View.listen (polls.map (w.st.awaited domainNumber sequenceId).hears) w.view := by
  have hgoes (w : Waiting) : w.view.GoesOn ↔ w.GoesOn := Iff.rfl
  induction polls generalizing w with
  | nil =>
    rw [Waiting.loop, List.map_nil, View.listen]
    simp only [hgoes]
    split <;> rfl
  | cons poll polls ih =>
    have hpoll := hears_eq w.st domainNumber sequenceId (hw poll List.mem_cons_self)
    have hbody := body_view domainNumber sequenceId poll w
    have hset := body_keeps domainNumber sequenceId poll w
    rw [hpoll] at hbody
    rw [Waiting.loop, List.map_cons, View.listen, ← hbody]
    by_cases hgo : w.GoesOn
    · rw [if_pos hgo, if_pos ((hgoes w).mpr hgo)]
      cases hb : w.body domainNumber sequenceId poll with
      | error st =>
        simp only [Waiting.seen, List.isEmpty_map]
        split <;> rfl
      | ok w' =>
        rw [hb] at hset
        have hsize : w'.st.buffer.size = w.st.buffer.size := congrArg Setting.bufSize hset
        have hawait := ClientState.awaited_of_setting hset domainNumber sequenceId
        simp only [Waiting.seen]
        rw [ih w' (by rw [hsize]; exact fun p hp => hw p (List.mem_cons_of_mem _ hp))]
        rw [show w'.st.awaited domainNumber sequenceId = w.st.awaited domainNumber sequenceId from
          hawait]
    · rw [if_neg hgo, if_neg (fun h => hgo ((hgoes w).mp h))]
      rfl

end Loop

/-! ## What is still waited for -/

/-- The bits of `wait` once a Sync was heard, and a message with the time of sending. -/
def waitBits (heardSync heardOrigin : Bool) : Octet :=
  (if heardSync then 0 else 1) ||| (if heardOrigin then 0 else 2)

theorem waitBits_and (a b c d : Bool) : waitBits a b &&& waitBits c d = waitBits (a || c) (b || d) := by
  cases a <;> cases b <;> cases c <;> cases d <;> rfl

theorem waitBits_eq_zero {a b : Bool} : waitBits a b = 0 ↔ a = true ∧ b = true := by
  cases a <;> cases b <;> decide

theorem Heard.keeps_eq (h : Heard) : h.keeps = waitBits (!h.arrivals.isEmpty) (!h.origins.isEmpty) := by
  cases h with
  | sync oneStep timestamp responses arrival =>
    cases oneStep <;> simp [Heard.keeps, Heard.arrivals, Heard.origins, waitBits]
  | followUp timestamp => simp [Heard.keeps, Heard.arrivals, Heard.origins, waitBits]

theorem foldl_keeps (hs : List Heard) (a b : Bool) :
    hs.foldl (fun wait h => wait &&& h.keeps) (waitBits a b) =
      waitBits (a || hs.any fun h => !h.arrivals.isEmpty) (b || hs.any fun h => !h.origins.isEmpty) := by
  induction hs generalizing a b with
  | nil => simp
  | cons h hs ih =>
    rw [List.foldl_cons, Heard.keeps_eq, waitBits_and, ih]
    simp only [List.any_cons, Bool.or_assoc]

/-- The client has stopped waiting when a Sync and a message with the time of sending came in. -/
theorem foldl_keeps_eq_zero (hs : List Heard) :
    hs.foldl (fun wait h => wait &&& h.keeps) (3 : Octet) = 0 ↔
      (∃ h ∈ hs, h.arrivals ≠ []) ∧ ∃ h ∈ hs, h.origins ≠ [] := by
  rw [show (3 : Octet) = waitBits false false from rfl, foldl_keeps, waitBits_eq_zero]
  simp

/-! ## A whole listening -/

def Times.hearAll (t : Times) (hs : List Heard) : Times := hs.foldl Times.hear t

theorem Times.hearAll_eq (t : Times) (hs : List Heard) :
    t.hearAll hs =
      { t1 := t.t1
        r1 := settle t.r1 (hs.flatMap Heard.responses)
        t2 := settle t.t2 (hs.flatMap Heard.origins)
        r2 := (hs.flatMap Heard.arrivals).foldl (fun _ arrival => arrival) t.r2 } := by
  induction hs generalizing t with
  | nil => rfl
  | cons h hs ih =>
    simp only [hearAll, List.foldl_cons, List.flatMap_cons, settle_append, List.foldl_append] at ih ⊢
    rw [ih]
    rfl

namespace View
variable {v v' : View}

theorem listen_ok {xs : List (Option Heard)} (h : listen xs v = some (.ok v')) :
    (∀ x ∈ xs.reduceOption, x.bare = false) ∧ v'.times = v.times.hearAll xs.reduceOption ∧
      v'.wait = xs.reduceOption.foldl (fun wait x => wait &&& x.keeps) v.wait := by
  induction xs generalizing v with
  | nil =>
    rw [listen, Option.ite_none_left_eq_some] at h
    cases h.2
    exact ⟨fun x hx => absurd hx List.not_mem_nil, rfl, rfl⟩
  | cons x xs ih =>
    rw [listen, Option.ite_none_right_eq_some] at h
    obtain ⟨-, h⟩ := h
    cases x with
    | none =>
      rw [List.reduceOption_cons_of_none]
      exact ih (v := { v with loops := v.loops - 1 }) h
    | some x =>
      rw [hear] at h
      cases hbare : x.bare with
      | true => simp [hbare] at h
      | false =>
        simp only [hbare, Bool.false_eq_true, if_false] at h
        obtain ⟨hall, htimes, hwait⟩ := ih h
        rw [List.reduceOption_cons_of_some]
        refine ⟨?_, htimes, hwait⟩
        intro y hy
        rcases List.mem_cons.mp hy with rfl | hy
        · exact hbare
        · exact hall y hy

/-- Only a Sync without a response ends a listening before its time. -/
theorem listen_error {xs : List (Option Heard)} {t : Times} (h : listen xs v = some (.error t)) :
    ∃ x ∈ xs.reduceOption, x.bare = true := by
  induction xs generalizing v with
  | nil =>
    rw [listen, Option.ite_none_left_eq_some] at h
    exact absurd h.2 (by simp)
  | cons x xs ih =>
    rw [listen, Option.ite_none_right_eq_some] at h
    obtain ⟨-, h⟩ := h
    cases x with
    | none =>
      rw [List.reduceOption_cons_of_none]
      exact ih (v := { v with loops := v.loops - 1 }) h
    | some x =>
      rw [List.reduceOption_cons_of_some]
      rw [hear] at h
      cases hbare : x.bare with
      | true => exact ⟨x, List.mem_cons_self, hbare⟩
      | false =>
        simp only [hbare, Bool.false_eq_true, if_false] at h
        obtain ⟨y, hy, hybare⟩ := ih h
        exact ⟨y, List.mem_cons_of_mem _ hy, hybare⟩

/-- Polls that bring nothing only count. -/
theorem listen_nothing {xs ys : List (Option Heard)} (hx : ∀ x ∈ xs, x = none)
    (hlen : xs.length < v.loops) (hwait : v.wait > 0) :
    listen (xs ++ ys) v = listen ys { v with loops := v.loops - xs.length } := by
  induction xs generalizing v with
  | nil => rfl
  | cons x xs ih =>
    obtain rfl := hx x List.mem_cons_self
    rw [List.length_cons] at hlen ⊢
    rw [List.cons_append, listen, if_pos ⟨by omega, hwait⟩]
    have hrest := ih (v := { v with loops := v.loops - 1 })
      (fun x hx' => hx x (List.mem_cons_of_mem _ hx')) (by dsimp only; omega) hwait
    rw [Nat.sub_sub, Nat.add_comm 1] at hrest
    exact hrest

theorem listen_cons {x : Heard} {xs : List (Option Heard)} (hgo : v.GoesOn) (hbare : x.bare = false) :
    listen (some x :: xs) v = listen xs (v.take x) := by
  rw [listen, if_pos hgo, hear, if_neg (by rw [hbare]; simp)]

theorem listen_message {xs ys : List (Option Heard)} {h : Heard} (hx : ∀ x ∈ xs, x = none)
    (hlen : xs.length < v.loops) (hwait : v.wait > 0) (hbare : h.bare = false) :
    listen (xs ++ some h :: ys) v =
      listen ys (take { v with loops := v.loops - xs.length } h) := by
  rw [listen_nothing hx hlen hwait]
  exact listen_cons ⟨Nat.sub_pos_of_lt hlen, hwait⟩ hbare

end View

end Csptp

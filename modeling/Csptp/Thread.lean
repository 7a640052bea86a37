import Csptp.Runs

/-! # Threads (`thread.c`)

A worker and its owner share a thread object. Each access to the object is a step, and the owner calls
what it wants in any order until it frees the object. The worker clears `_run` before it sets `_ret`:
between these two stores the thread counts as finished, but its result is not there and its last access
is still to come. -/
namespace Csptp
open Runs
set_option autoImplicit false

/-! ## Worker and owner -/

/-- The steps of `_start` that are still to come begin with this one. -/
inductive Worker
  | call
  | wait
  | storeRun
  | storeRet
  | done
deriving DecidableEq

/-- What the owner is in the middle of. -/
inductive Owner
  | idle
  | join
  | free
  | release
  | gone
deriving DecidableEq

structure ThreadState where
  run : Bool
  ret : Bool
  worker : Worker
  owner : Owner
deriving DecidableEq

/-- `thread_create` -/
def threadCreate : ThreadState := { run := true, ret := false, worker := .call, owner := .idle }

inductive ThreadEvent
  /-- The worker reads the function and its cookie. -/
  | call
  | returned
  | storeRun
  | storeRet
  | isRun (ret : Bool)
  | joinWaits
  | join (ret : Bool)
  | retVal (ret : Bool)
  | freeWaits
  | freeJoined
  | released
deriving DecidableEq

/-- A step of either side. `thrd_join` waits for the end of the worker. -/
inductive ThreadStep (result : Bool) : ThreadState → ThreadEvent → ThreadState → Prop
  | call {s} (h : s.worker = .call) : ThreadStep result s .call { s with worker := .wait }
  | returned {s} (h : s.worker = .wait) :
      ThreadStep result s .returned { s with worker := .storeRun }
  | storeRun {s} (h : s.worker = .storeRun) :
      ThreadStep result s .storeRun { s with run := false, worker := .storeRet }
  | storeRet {s} (h : s.worker = .storeRet) :
      ThreadStep result s .storeRet { s with ret := result, worker := .done }
  | isRun {s} (h : s.owner = .idle) : ThreadStep result s (.isRun s.run) s
  | joinOver {s} (h : s.owner = .idle) (hrun : s.run = false) : ThreadStep result s (.join true) s
  | joinWaits {s} (h : s.owner = .idle) (hrun : s.run = true) :
      ThreadStep result s .joinWaits { s with owner := .join }
  | joinEnds {s} (h : s.owner = .join) (hdone : s.worker = .done) :
      ThreadStep result s (.join true) { s with owner := .idle }
  | retVal {s} (h : s.owner = .idle) : ThreadStep result s (.retVal s.ret) s
  | freeOver {s} (h : s.owner = .idle) (hrun : s.run = false) :
      ThreadStep result s .freeJoined { s with owner := .release }
  | freeWaits {s} (h : s.owner = .idle) (hrun : s.run = true) :
      ThreadStep result s .freeWaits { s with owner := .free }
  | freeEnds {s} (h : s.owner = .free) (hdone : s.worker = .done) :
      ThreadStep result s .freeJoined { s with owner := .release }
  | released {s} (h : s.owner = .release) :
      ThreadStep result s .released { s with owner := .gone }

/-- The runs of a thread whose function returns `result`, with all steps that meet a condition. -/
def ThreadRun (result : Bool) (meets : List ThreadEvent → ThreadState → ThreadEvent → Prop) :
    List ThreadEvent → ThreadState → Prop :=
  Run (· = threadCreate) fun past s e s' => ThreadStep result s e s' ∧ meets past s e

/-! ## What is asked of the runs -/

namespace ThreadEvent

/-- The owner has learned that the thread is over. -/
def EndSeen : ThreadEvent → Prop
  | isRun ret => ret = false
  | join ret => ret = true
  | _ => False

/-- The worker reads or writes the object. -/
def Access : ThreadEvent → Prop
  | call | storeRun | storeRet => True
  | _ => False

end ThreadEvent

/-- A result that is asked for after the end was seen is the one of the function, and the worker leaves
a released object alone. -/
structure Completion (result : Bool) (past : List ThreadEvent) (e : ThreadEvent) : Prop where
  retVal : ∀ ret, e = .retVal ret → (∃ x ∈ past, x.EndSeen) → ret = result
  access : e.Access → .released ∉ past

/-- Between the two stores of the worker the owner does not release the object, and after it has seen
the end it does not ask for a result of true. -/
def Apart (result : Bool) (past : List ThreadEvent) (s : ThreadState) : ThreadEvent → Prop
  | .retVal _ => s.worker = .storeRet → (∃ x ∈ past, x.EndSeen) → result = false
  | .released => s.worker ≠ .storeRet
  | _ => True

/-! ## The invariant -/

/-- The two stores of the worker are in the object, and what the owner has seen or done tells how far
the worker is. -/
structure Kept (result : Bool) (past : List ThreadEvent) (s : ThreadState) : Prop where
  run : s.run = true ↔ s.worker = .call ∨ s.worker = .wait ∨ s.worker = .storeRun
  ret : s.ret = (decide (s.worker = .done) && result)
  seen : (∃ x ∈ past, x.EndSeen) → s.run = false
  release : s.owner = .release → s.run = false
  gone : s.owner = .gone → s.worker = .done
  released : .released ∈ past → s.owner = .gone

section Runs
variable {result : Bool} {past : List ThreadEvent} {s s' : ThreadState} {e : ThreadEvent}

theorem kept_create : Kept result [] threadCreate := by
  constructor <;> simp [threadCreate]

theorem Kept.over (h : Kept result past s) (hrun : s.run = false) :
    s.worker = .storeRet ∨ s.worker = .done := by
  have hiff := h.run
  rw [hrun] at hiff
  cases hw : s.worker <;> simp_all

theorem Kept.stopped (h : Kept result past s) (hw : s.worker = .storeRet ∨ s.worker = .done) :
    s.run = false := by
  cases hr : s.run with
  | false => rfl
  | true =>
    have hrunning := h.run.mp hr
    rcases hw with hw | hw <;> simp [hw] at hrunning

theorem Kept.working (h : Kept result past s) (hw : s.worker ≠ .done) : .released ∉ past :=
  fun hmem => hw (h.gone (h.released hmem))

/-- An event that neither shows the end nor releases the object. -/
theorem Kept.quiet (h : Kept result past s) (he : ¬ e.EndSeen) (hreleased : e ≠ .released) :
    Kept result (past ++ [e]) s := by
  refine { h with seen := ?_, released := ?_ }
  · rintro ⟨x, hx, hseen⟩
    rcases List.mem_append.mp hx with hx | hx
    · exact h.seen ⟨x, hx, hseen⟩
    · rw [List.mem_singleton.mp hx] at hseen
      exact absurd hseen he
  · intro hmem
    rcases List.mem_append.mp hmem with hmem | hmem
    · exact h.released hmem
    · exact absurd (List.mem_singleton.mp hmem).symm hreleased

theorem Kept.shows (h : Kept result past s) (hrun : s.run = false) (hreleased : e ≠ .released) :
    Kept result (past ++ [e]) s := by
  refine { h with seen := fun _ => hrun, released := ?_ }
  intro hmem
  rcases List.mem_append.mp hmem with hmem | hmem
  · exact h.released hmem
  · exact absurd (List.mem_singleton.mp hmem).symm hreleased

theorem kept_step (h : Kept result past s) (hstep : ThreadStep result s e s')
    (hapart : Apart result past s e) : Kept result (past ++ [e]) s' := by
  cases hstep with
  | call hw =>
    have hrun : s.run = true := h.run.mpr (.inl hw)
    have hgone : s.owner ≠ .gone := fun ho => absurd (h.gone ho) (by rw [hw]; simp)
    refine Kept.quiet ⟨by simp [hrun], by simp [h.ret, hw], h.seen, h.release,
      fun ho => absurd ho hgone, h.released⟩ (fun hc => hc) (by simp)
  | returned hw =>
    have hrun : s.run = true := h.run.mpr (.inr (.inl hw))
    have hgone : s.owner ≠ .gone := fun ho => absurd (h.gone ho) (by rw [hw]; simp)
    refine Kept.quiet ⟨by simp [hrun], by simp [h.ret, hw], h.seen, h.release,
      fun ho => absurd ho hgone, h.released⟩ (fun hc => hc) (by simp)
  | storeRun hw =>
    have hgone : s.owner ≠ .gone := fun ho => absurd (h.gone ho) (by rw [hw]; simp)
    refine Kept.quiet ⟨by simp, by simp [h.ret, hw], fun _ => rfl, fun _ => rfl,
      fun ho => absurd ho hgone, h.released⟩ (fun hc => hc) (by simp)
  | storeRet hw =>
    have hrun := h.stopped (.inl hw)
    refine Kept.quiet ⟨by simp [hrun], by simp, fun _ => hrun, fun _ => hrun, fun _ => rfl,
      h.released⟩ (fun hc => hc) (by simp)
  | isRun ho =>
    cases hrun : s.run with
    | false => exact h.shows hrun (by simp)
    | true => exact h.quiet (by simp [ThreadEvent.EndSeen]) (by simp)
  | joinOver ho hrun => exact h.shows hrun (by simp)
  | joinWaits ho hrun =>
    refine Kept.quiet ⟨h.run, h.ret, h.seen, by simp, by simp, ?_⟩ (fun hc => hc) (by simp)
    intro hmem
    exact absurd (h.released hmem) (by rw [ho]; simp)
  | joinEnds ho hdone =>
    have hrun := h.stopped (.inr hdone)
    refine Kept.shows ⟨h.run, h.ret, h.seen, by simp, by simp, ?_⟩ hrun (by simp)
    intro hmem
    exact absurd (h.released hmem) (by rw [ho]; simp)
  | retVal ho => exact h.quiet (fun hc => hc) (by simp)
  | freeOver ho hrun =>
    refine Kept.quiet ⟨h.run, h.ret, h.seen, fun _ => hrun, by simp, ?_⟩ (fun hc => hc) (by simp)
    intro hmem
    exact absurd (h.released hmem) (by rw [ho]; simp)
  | freeWaits ho hrun =>
    refine Kept.quiet ⟨h.run, h.ret, h.seen, by simp, by simp, ?_⟩ (fun hc => hc) (by simp)
    intro hmem
    exact absurd (h.released hmem) (by rw [ho]; simp)
  | freeEnds ho hdone =>
    have hrun := h.stopped (.inr hdone)
    refine Kept.quiet ⟨h.run, h.ret, h.seen, fun _ => hrun, by simp, ?_⟩ (fun hc => hc) (by simp)
    intro hmem
    exact absurd (h.released hmem) (by rw [ho]; simp)
  | released ho =>
    have hrun := h.release ho
    have hdone : s.worker = .done := (h.over hrun).resolve_left hapart
    exact ⟨h.run, h.ret, fun _ => hrun, by simp, fun _ => hdone, fun _ => rfl⟩

theorem Kept.completion (h : Kept result past s) (hstep : ThreadStep result s e s')
    (hapart : Apart result past s e) : Completion result past e := by
  constructor
  · rintro ret rfl hseen
    cases hstep with
    | retVal ho =>
      rw [h.ret]
      rcases h.over (h.seen hseen) with hw | hw
      · rw [hapart hw hseen, Bool.and_false]
      · rw [hw, decide_eq_true rfl, Bool.true_and]
  · intro haccess
    apply h.working
    cases hstep with
    | call hw | storeRun hw | storeRet hw =>
      rw [hw]
      simp
    | _ => exact absurd haccess (fun hc => hc)

theorem ThreadRun.kept (h : ThreadRun result (Apart result) past s) : Kept result past s := by
  refine Run.invariant ?_ ?_ h
  · rintro s rfl
    exact kept_create
  · intro past s e s' hkept hstep
    exact kept_step hkept hstep.1 hstep.2

/-- In every interleaving in which the owner keeps out of the gap between the two stores of the worker,
a result that is asked for after the end was seen is the one of the function, and the worker leaves the
object alone after its release. -/
theorem thread_completion (h : ThreadRun result (Apart result) past s) :
    Each (Completion result) past := by
  refine Run.each (fun _ _ hrun => ThreadRun.kept hrun) ?_ h
  intro past s e s' hkept hstep
  exact hkept.completion hstep.1 hstep.2

/-- The condition is no stronger than it has to be: a step that does not meet it breaks what is asked,
or the second store of the worker does if it comes next. -/
theorem apart_iff (h : ThreadRun result (Apart result) past s) (hstep : ThreadStep result s e s') :
    Apart result past s e ↔ Completion result past e ∧
      (s'.worker = .storeRet → Completion result (past ++ [e]) .storeRet) := by
  have hkept := ThreadRun.kept h
  constructor
  · intro hapart
    have hnext := kept_step hkept hstep hapart
    refine ⟨hkept.completion hstep hapart, fun hw => ⟨fun ret heq => by simp at heq, fun _ => ?_⟩⟩
    apply hnext.working
    rw [hw]
    simp
  · rintro ⟨hnow, hlater⟩
    cases hstep with
    | retVal ho =>
      intro hw hseen
      have hret := hnow.retVal _ rfl hseen
      rw [hkept.ret, hw] at hret
      exact hret.symm
    | released ho =>
      intro hw
      have haccess := (hlater hw).access trivial
      exact haccess (List.mem_append_right _ (List.mem_singleton_self _))
    | _ => trivial

/-- How often the owner has waited for the thread. -/
structure Waited (past : List ThreadEvent) (s : ThreadState) : Prop where
  run : s.run = true → s.worker ≠ .storeRet ∧ s.worker ≠ .done
  once : past.countP (· ∈ [.joinWaits, .freeWaits]) ≤ 1
  idle : s.run = true → s.owner = .idle → past.countP (· ∈ [.joinWaits, .freeWaits]) = 0

/-- The owner waits for the thread at most once, so that no thread is joined twice. -/
theorem waits_once {meets : List ThreadEvent → ThreadState → ThreadEvent → Prop}
    (h : ThreadRun result meets past s) : Waited past s := by
  refine Run.invariant ?_ ?_ h
  · rintro s rfl
    constructor <;> simp [threadCreate]
  · intro past s e s' hw hstep
    obtain ⟨hrun, honce, hidle⟩ := hw
    cases hstep.1 with
    | joinWaits ho hr | freeWaits ho hr =>
      have hzero := hidle hr ho
      refine ⟨hrun, ?_, by simp⟩
      simp only [List.countP_append, hzero]
      decide
    | storeRun hs => exact ⟨by simp, by simpa using honce, by simp⟩
    | storeRet hs =>
      refine ⟨?_, by simpa using honce, by simpa using hidle⟩
      intro hr
      exact absurd hs (hrun hr).1
    | joinEnds ho hdone | freeEnds ho hdone =>
      refine ⟨hrun, by simpa using honce, ?_⟩
      intro hr
      exact absurd hdone (hrun hr).2
    | call hs | returned hs => exact ⟨by simp, by simpa using honce, by simpa using hidle⟩
    | freeOver ho hr | released ho => exact ⟨hrun, by simpa using honce, by simp⟩
    | isRun ho | joinOver ho hr | retVal ho =>
      exact ⟨hrun, by simpa using honce, by simpa using hidle⟩

theorem ThreadRun.next {meets : List ThreadEvent → ThreadState → ThreadEvent → Prop}
    (h : ThreadRun result meets past s) (hstep : ThreadStep result s e s') (hmeets : meets past s e) :
    ThreadRun result meets (past ++ [e]) s' := Run.step h ⟨hstep, hmeets⟩

end Runs

section Sample

theorem sampleThread_storeRun {result : Bool}
    {meets : List ThreadEvent → ThreadState → ThreadEvent → Prop}
    (h : ∀ past s e, e ∈ [.call, .returned, .storeRun] → meets past s e) :
    ThreadRun result meets [.call, .returned, .storeRun] ⟨false, false, .storeRet, .idle⟩ := by
  have hstart : ThreadRun result meets [] threadCreate := Run.start rfl
  have hcall := ThreadRun.next hstart (.call rfl) (h _ _ _ (by simp))
  have hreturned := ThreadRun.next hcall (.returned rfl) (h _ _ _ (by simp))
  exact ThreadRun.next hreturned (.storeRun rfl) (h _ _ _ (by simp))

/-- A function that returns true, but whose result is read as false after the end was seen, and an object
that is released before the last store to it. -/
theorem thread_completion_fails :
    (∃ s, ThreadRun true (fun _ _ _ => True)
        [.call, .returned, .storeRun, .isRun false, .retVal false] s) ∧
      ¬ Each (Completion true) [.call, .returned, .storeRun, .isRun false, .retVal false] ∧
    (∃ s, ThreadRun true (fun _ _ _ => True)
        [.call, .returned, .storeRun, .freeJoined, .released, .storeRet] s) ∧
      ¬ Each (Completion true) [.call, .returned, .storeRun, .freeJoined, .released, .storeRet] := by
  have hgap : ThreadRun true (fun _ _ _ => True) [.call, .returned, .storeRun]
      ⟨false, false, .storeRet, .idle⟩ := sampleThread_storeRun fun _ _ _ _ => trivial
  refine ⟨?_, fun heach => ?_, ?_, fun heach => ?_⟩
  · have hover := ThreadRun.next hgap (.isRun rfl) trivial
    exact ⟨_, ThreadRun.next hover (.retVal rfl) trivial⟩
  · have hlast := heach [.call, .returned, .storeRun, .isRun false] _ List.prefix_rfl
    exact absurd (hlast.retVal false rfl ⟨.isRun false, by simp, rfl⟩) (by simp)
  · have hjoined := ThreadRun.next hgap (.freeOver rfl rfl) trivial
    have hreleased := ThreadRun.next hjoined (.released rfl) trivial
    exact ⟨_, ThreadRun.next hreleased (.storeRet rfl) trivial⟩
  · have hlast := heach [.call, .returned, .storeRun, .freeJoined, .released] _ List.prefix_rfl
    exact hlast.access trivial (by simp)

/-- The owner looks after the second store. -/
theorem thread_completion_sample :
    Each (Completion true) [.call, .returned, .storeRun, .storeRet, .isRun false, .retVal true,
      .freeJoined, .released] := by
  have hgap : ThreadRun true (Apart true) [.call, .returned, .storeRun]
      ⟨false, false, .storeRet, .idle⟩ := sampleThread_storeRun fun past s e he => by
    simp only [List.mem_cons, List.not_mem_nil, or_false] at he
    rcases he with rfl | rfl | rfl <;> trivial
  have hdone := ThreadRun.next hgap (.storeRet rfl) trivial
  have hover := ThreadRun.next hdone (.isRun rfl) trivial
  have hret := ThreadRun.next hover (.retVal rfl) fun hw => absurd hw (by simp)
  have hjoined := ThreadRun.next hret (.freeOver rfl rfl) trivial
  exact thread_completion (ThreadRun.next hjoined (.released rfl) (by simp [Apart]))

end Sample

end Csptp

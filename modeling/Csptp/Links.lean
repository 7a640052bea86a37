import Csptp.Runs
import Mathlib.Algebra.BigOperators.Group.Finset.Basic
import Mathlib.Algebra.BigOperators.Group.Multiset.Basic
import Mathlib.Tactic.Abel

/-! # Hosts at a lossy link

Hosts take packets from a wire and give packets to it. On the wire packets are lost, duplicated and
reordered, and packets of strangers come up. What a host takes was given before, the packets taken and
lost are counted by what was given, and of many hosts each makes a run of its own. -/
namespace Links
set_option autoImplicit false

/-- Hosts with their steps, and what an event of theirs takes from the wire and gives to it. -/
structure Hosts (σ ε π : Type*) where
  start : σ → Prop
  step : σ → ε → σ → Prop
  takes : ε → List π
  gives : ε → List π

inductive Event (ε π : Type*)
  | host (e : ε)
  | lose (p : π)
  | copy (p : π)
  | stray (p : π)

structure State (σ π : Type*) where
  hosts : σ
  wire : Multiset π

namespace Event
variable {ε π : Type*}

def host? : Event ε π → Option ε
  | .host e => some e
  | _ => none

def isCopy : Event ε π → Bool
  | .copy _ => true
  | _ => false

/-- What comes up without a host. -/
def extra : Event ε π → List π
  | .copy p => [p]
  | .stray p => [p]
  | _ => []

/-- What goes without a host. -/
def lost : Event ε π → List π
  | .lose p => [p]
  | _ => []

end Event

/-! ## Runs -/

namespace Hosts
variable {σ ε π : Type*} (H : Hosts σ ε π) (Outside : π → Prop)

/-- The runs of the hosts alone. -/
def Local : List ε → σ → Prop := Runs.Run H.start fun _ => H.step

def taken : Event ε π → List π
  | .host e => H.takes e
  | .lose p => [p]
  | .copy p => [p]
  | .stray _ => []

def given : Event ε π → List π
  | .host e => H.gives e
  | .lose _ => []
  | .copy p => [p, p]
  | .stray p => [p]

/-- What an event does to the hosts. -/
def Moves (s : σ) : Event ε π → σ → Prop
  | .host e, t => H.step s e t
  | .stray p, t => t = s ∧ Outside p
  | _, t => t = s

structure Step (s : State σ π) (e : Event ε π) (s' : State σ π) : Prop where
  moves : H.Moves Outside s.hosts e s'.hosts
  wire : ∃ rest, s.wire = rest + H.taken e ∧ s'.wire = rest + H.given e

/-- At the start the wire is empty. -/
def Run : List (Event ε π) → State σ π → Prop :=
  Runs.Run (fun s => H.start s.hosts ∧ s.wire = 0) fun _ => H.Step Outside

variable {H Outside} {history : List (Event ε π)} {s : State σ π}

theorem Run.host (h : H.Run Outside history s) {e : ε} {t : σ} (hstep : H.step s.hosts e t)
    (rest : Multiset π) (hwire : s.wire = rest + H.takes e) :
    H.Run Outside (history ++ [.host e]) ⟨t, rest + H.gives e⟩ := h.step ⟨hstep, rest, hwire, rfl⟩

/-- A run stays one when strangers may do more. -/
theorem Run.mono {Outside' : π → Prop} (h : H.Run Outside history s) (hout : ∀ p, Outside p → Outside' p) :
    H.Run Outside' history s := by
  induction h with
  | start h => exact .start h
  | @step past t t' e _ h ih =>
    refine ih.step ⟨?_, h.wire⟩
    have hmoves := h.moves
    cases e with
    | stray p => exact ⟨hmoves.1, hout p hmoves.2⟩
    | host e | lose p | copy p => exact hmoves

/-- What was taken and what is on the wire is what was given. -/
theorem Run.ledger (h : H.Run Outside history s) :
    s.wire + (history.flatMap H.taken : List π) = (history.flatMap H.given : List π) := by
  induction h with
  | start h =>
    rw [h.2]
    rfl
  | step _ h ih =>
    obtain ⟨rest, hbefore, hafter⟩ := h.wire
    rw [hbefore] at ih
    rw [List.flatMap_append, List.flatMap_append, ← Multiset.coe_add, ← Multiset.coe_add, ← ih, hafter,
      List.flatMap_singleton, List.flatMap_singleton]
    abel

/-- The hosts make a run of their own. -/
theorem Run.hosts (h : H.Run Outside history s) : H.Local (history.filterMap Event.host?) s.hosts := by
  induction h with
  | start h => exact .start h.1
  | @step past t t' e _ h ih =>
    have hmoves := h.moves
    rw [List.filterMap_append]
    cases e with
    | host e => exact ih.step hmoves
    | lose p | copy p =>
      rw [show t'.hosts = t.hosts from hmoves, show List.filterMap Event.host? [_] = [] from rfl,
        List.append_nil]
      exact ih
    | stray p =>
      rw [hmoves.1, show List.filterMap Event.host? [_] = [] from rfl, List.append_nil]
      exact ih

/-- A packet on the wire or in the hands of a host comes from an earlier event of a host, or from a
stranger. -/
def Source (H : Hosts σ ε π) (Outside : π → Prop) (p : π) (e : Event ε π) : Prop :=
  (∃ x, e = .host x ∧ p ∈ H.gives x) ∨ e = .stray p ∧ Outside p

theorem Run.origin (h : H.Run Outside history s) {p : π} (hp : p ∈ s.wire) :
    ∃ past e, past ++ [e] <+: history ∧ H.Source Outside p e := by
  induction h with
  | start h =>
    rw [h.2] at hp
    exact absurd hp (Multiset.notMem_zero p)
  | @step past t t' e hrun h ih =>
    have hlater : p ∈ t.wire → ∃ before x, before ++ [x] <+: past ++ [e] ∧ H.Source Outside p x := by
      intro hin
      obtain ⟨before, x, hx, hsource⟩ := ih hin
      exact ⟨before, x, hx.trans (List.prefix_append _ _), hsource⟩
    obtain ⟨rest, hbefore, hafter⟩ := h.wire
    rw [hafter, Multiset.mem_add, Multiset.mem_coe] at hp
    rcases hp with hp | hp
    · exact hlater (by rw [hbefore]; exact Multiset.mem_add.mpr (.inl hp))
    · cases e with
      | host x => exact ⟨past, .host x, List.prefix_rfl, .inl ⟨x, rfl, hp⟩⟩
      | lose q => exact absurd hp List.not_mem_nil
      | copy q =>
        have hq : p = q := by simpa [given] using hp
        refine hlater ?_
        rw [hbefore, hq]
        exact Multiset.mem_add.mpr (.inr (Multiset.mem_coe.mpr (List.mem_singleton.mpr rfl)))
      | stray q =>
        have hq : p = q := List.mem_singleton.mp hp
        refine ⟨past, .stray q, List.prefix_rfl, .inr ⟨by rw [hq], ?_⟩⟩
        rw [hq]
        exact h.moves.2

/-- So does a packet that a host takes. -/
theorem Run.taken_origin (h : H.Run Outside history s) {past : List (Event ε π)} {x : ε}
    (hx : past ++ [.host x] <+: history) {p : π} (hp : p ∈ H.takes x) :
    ∃ before e, before ++ [e] <+: past ∧ H.Source Outside p e := by
  obtain ⟨t, t', hrun, hstep⟩ := Runs.Run.steps h past _ hx
  obtain ⟨rest, hbefore, -⟩ := hstep.wire
  refine Run.origin hrun ?_
  rw [hbefore]
  exact Multiset.mem_add.mpr (.inr (Multiset.mem_coe.mpr hp))

/-! ## What is in flight -/

/-- The packets that an event takes from the wire for good. -/
def gone (H : Hosts σ ε π) : Event ε π → List π
  | .host e => H.takes e
  | e => e.lost

/-- What the hosts give and hold in weight comes from what they take, and from a credit; each packet that
they take costs one. -/
structure Paid (H : Hosts σ ε π) (w : π → ℕ) (held : σ → ℕ) (credit : ε → ℕ) : Prop where
  start : ∀ t, H.start t → held t = 0
  step : ∀ past t e t', H.Local past t → H.step t e t' →
    ((H.gives e).map w).sum + (H.takes e).length + held t' ≤ ((H.takes e).map w).sum + held t + credit e

/-- The packets that were taken or lost, with the weight on the wire and that of the hosts, come from the
credits, the copies and the strangers. -/
theorem Run.load {w : π → ℕ} {held : σ → ℕ} {credit : ε → ℕ} (hpos : ∀ p, 1 ≤ w p)
    (hpaid : H.Paid w held credit) (h : H.Run Outside history s) :
    (history.flatMap H.gone).length + (s.wire.map w).sum + held s.hosts ≤
      ((history.filterMap Event.host?).map credit).sum + ((history.flatMap Event.extra).map w).sum := by
  induction h with
  | start h =>
    rw [h.2, hpaid.start _ h.1]
    exact Nat.le_refl _
  | @step past t t' e hrun h ih =>
    obtain ⟨rest, hbefore, hafter⟩ := h.wire
    have hmoves := h.moves
    rw [hbefore, Multiset.map_add, Multiset.sum_add, Multiset.map_coe, Multiset.sum_coe] at ih
    rw [hafter, Multiset.map_add, Multiset.sum_add, Multiset.map_coe, Multiset.sum_coe,
      List.flatMap_append, List.flatMap_append, List.filterMap_append, List.length_append,
      List.map_append, List.map_append, List.sum_append, List.sum_append, List.flatMap_singleton,
      List.flatMap_singleton]
    cases e with
    | host x =>
      have hx := hpaid.step _ _ _ _ (Run.hosts hrun) hmoves
      simp only [taken, given, gone, Event.extra, Event.host?, List.filterMap_cons, List.filterMap_nil,
        List.map_cons, List.map_nil, List.sum_cons, List.sum_nil] at ih ⊢
      omega
    | lose p =>
      have hp := hpos p
      rw [show t'.hosts = t.hosts from hmoves]
      simp only [taken, given, gone, Event.lost, Event.extra, Event.host?, List.filterMap_cons,
        List.filterMap_nil, List.map_cons, List.map_nil, List.sum_cons, List.sum_nil,
        List.length_singleton] at ih ⊢
      omega
    | copy p =>
      rw [show t'.hosts = t.hosts from hmoves]
      simp only [taken, given, gone, Event.lost, Event.extra, Event.host?, List.filterMap_cons,
        List.filterMap_nil, List.map_cons, List.map_nil, List.sum_cons, List.sum_nil,
        List.length_nil] at ih ⊢
      omega
    | stray p =>
      rw [hmoves.1]
      simp only [taken, given, gone, Event.lost, Event.extra, Event.host?, List.filterMap_cons,
        List.filterMap_nil, List.map_cons, List.map_nil, List.sum_cons, List.sum_nil,
        List.length_nil] at ih ⊢
      omega

/-- Nothing is taken more often than it was given. -/
theorem Run.taken_le (h : H.Run Outside history s) :
    (history.flatMap H.taken).Subperm (history.flatMap H.given) := by
  rw [← Multiset.coe_le, ← h.ledger]
  exact Multiset.le_add_left _ _

/-- Without copies the hosts take no more of a kind of packets than they give, when strangers have no
packets of the kind. -/
theorem Run.takes_le (h : H.Run Outside history s) (hcopy : ∀ e ∈ history, e.isCopy = false)
    {p : π → Bool} (hout : ∀ x, Outside x → p x = false) :
    ((history.filterMap Event.host?).flatMap H.takes).countP p ≤
      ((history.filterMap Event.host?).flatMap H.gives).countP p := by
  have hhosts (f : ε → List π) : (history.filterMap Event.host?).flatMap f =
      history.flatMap fun e => e.host?.toList.flatMap f := by
    rw [List.filterMap_eq_flatMap_toList, List.flatMap_assoc]
  rw [hhosts, hhosts]
  calc (history.flatMap fun e => e.host?.toList.flatMap H.takes).countP p
    _ ≤ (history.flatMap H.taken).countP p := by
      apply Runs.countP_flatMap_le
      intro e _
      cases e with
      | host x => exact (congrArg (List.countP p) (List.flatMap_singleton _ _)).le
      | _ => exact Nat.zero_le _
    _ ≤ (history.flatMap H.given).countP p := h.taken_le.countP_le p
    _ ≤ (history.flatMap fun e => e.host?.toList.flatMap H.gives).countP p := by
      apply Runs.countP_flatMap_le
      intro e he
      cases e with
      | host x => exact (congrArg (List.countP p) (List.flatMap_singleton _ _)).ge
      | lose x => exact Nat.le_refl _
      | copy x => exact absurd (hcopy _ he) (by simp [Event.isCopy])
      | stray x =>
        obtain ⟨before, after, hafter⟩ := List.append_of_mem he
        obtain ⟨t, t', -, hstep⟩ := Runs.Run.steps h before (.stray x) ⟨after, by rw [hafter]; simp⟩
        rw [given, List.countP_singleton, hout x hstep.moves.2]
        exact Nat.zero_le _

end Hosts

/-! ## Systems of hosts -/

namespace Hosts
variable {σ τ ε δ π ι : Type*}

/-- Two kinds of hosts at one wire. -/
def beside (A : Hosts σ ε π) (B : Hosts τ δ π) : Hosts (σ × τ) (ε ⊕ δ) π where
  start s := A.start s.1 ∧ B.start s.2
  step s e t := match e with
    | .inl e => A.step s.1 e t.1 ∧ t.2 = s.2
    | .inr e => B.step s.2 e t.2 ∧ t.1 = s.1
  takes := Sum.elim A.takes B.takes
  gives := Sum.elim A.gives B.gives

/-- A host for each index. -/
def all (M : ι → Hosts σ ε π) : Hosts (ι → σ) (ι × ε) π where
  start s := ∀ i, (M i).start (s i)
  step s e t := (M e.1).step (s e.1) e.2 (t e.1) ∧ ∀ j, j ≠ e.1 → t j = s j
  takes e := (M e.1).takes e.2
  gives e := (M e.1).gives e.2

section Beside
variable {A : Hosts σ ε π} {B : Hosts τ δ π} {history : List (ε ⊕ δ)} {s : σ × τ}

theorem Local.left (h : (A.beside B).Local history s) :
    A.Local (history.filterMap Sum.getLeft?) s.1 := by
  induction h with
  | start h => exact .start h.1
  | @step past t t' e _ h ih =>
    rw [List.filterMap_append]
    cases e with
    | inl e => exact ih.step h.1
    | inr e =>
      rw [show t'.1 = t.1 from h.2, show List.filterMap Sum.getLeft? [_] = [] from rfl, List.append_nil]
      exact ih

theorem Local.right (h : (A.beside B).Local history s) :
    B.Local (history.filterMap Sum.getRight?) s.2 := by
  induction h with
  | start h => exact .start h.2
  | @step past t t' e _ h ih =>
    rw [List.filterMap_append]
    cases e with
    | inl e =>
      rw [show t'.2 = t.2 from h.2, show List.filterMap Sum.getRight? [_] = [] from rfl, List.append_nil]
      exact ih
    | inr e => exact ih.step h.1

end Beside

section All
variable [DecidableEq ι] {M : ι → Hosts σ ε π} {history : List (ι × ε)} {s : ι → σ}

/-- The event of this host, if it is one. -/
def own (i : ι) (e : ι × ε) : Option ε := if e.1 = i then some e.2 else none

theorem Local.own (h : (all M).Local history s) (i : ι) :
    (M i).Local (history.filterMap (Hosts.own i)) (s i) := by
  induction h with
  | start h => exact .start (h i)
  | @step past t t' e _ h ih =>
    rw [List.filterMap_append]
    by_cases hi : e.1 = i
    · have hown : List.filterMap (Hosts.own i) [e] = [e.2] := by simp [Hosts.own, hi]
      rw [hown]
      exact ih.step (hi ▸ h.1)
    · have hown : List.filterMap (Hosts.own i) [e] = [] := by simp [Hosts.own, hi]
      rw [hown, List.append_nil, h.2 i (Ne.symm hi)]
      exact ih

end All

/-! ## Systems that pay -/

theorem Paid.beside {A : Hosts σ ε π} {B : Hosts τ δ π} {w : π → ℕ} {heldA : σ → ℕ} {heldB : τ → ℕ}
    {creditA : ε → ℕ} {creditB : δ → ℕ} (hA : A.Paid w heldA creditA) (hB : B.Paid w heldB creditB) :
    (A.beside B).Paid w (fun s => heldA s.1 + heldB s.2) (Sum.elim creditA creditB) where
  start t ht := by
    rw [hA.start _ ht.1, hB.start _ ht.2]
  step past t e t' hrun hstep := by
    cases e with
    | inl e =>
      have hpaid := hA.step _ _ _ _ hrun.left hstep.1
      rw [hstep.2]
      simp only [Hosts.beside, Sum.elim_inl]
      omega
    | inr e =>
      have hpaid := hB.step _ _ _ _ hrun.right hstep.1
      rw [hstep.2]
      simp only [Hosts.beside, Sum.elim_inr]
      omega

theorem Paid.all [Fintype ι] [DecidableEq ι] {M : ι → Hosts σ ε π} {w : π → ℕ} {held : σ → ℕ}
    {credit : ε → ℕ} (hM : ∀ i, (M i).Paid w held credit) :
    (Hosts.all M).Paid w (fun s => ∑ i, held (s i)) fun e => credit e.2 where
  start t ht := Finset.sum_eq_zero fun i _ => (hM i).start _ (ht i)
  step past t e t' hrun hstep := by
    have hpaid := (hM e.1).step _ _ _ _ (hrun.own e.1) hstep.1
    have hrest : ∑ i ∈ Finset.univ.erase e.1, held (t' i) = ∑ i ∈ Finset.univ.erase e.1, held (t i) :=
      Finset.sum_congr rfl fun i hi => by rw [hstep.2 i (Finset.ne_of_mem_erase hi)]
    rw [← Finset.add_sum_erase _ _ (Finset.mem_univ e.1), ← Finset.add_sum_erase _ _ (Finset.mem_univ e.1),
      hrest]
    simp only [Hosts.all]
    omega

end Hosts

end Links

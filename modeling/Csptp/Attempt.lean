import Mathlib.Logic.Basic

/-! # Calls that may fail

An `Attempt` takes a state and returns a flag, the next state and the list of what it sent. `andThen` is
the `&&` of C: the second call runs only when the first one returned true, and what the first one
changed stays changed when it did not. -/
set_option autoImplicit false

def Attempt (σ ω : Type) : Type := σ → Bool × σ × List ω

namespace Attempt
variable {σ ω : Type}

/-- A call that sends nothing. -/
def call (f : σ → Bool × σ) : Attempt σ ω := fun s => ((f s).1, (f s).2, [])

def andThen (p q : Attempt σ ω) : Attempt σ ω := fun s =>
  if (p s).1 then ((q (p s).2.1).1, (q (p s).2.1).2.1, (p s).2.2 ++ (q (p s).2.1).2.2) else p s

/-- `c || p` for a plain condition. -/
def orElse (c : Prop) [Decidable c] (p : Attempt σ ω) : Attempt σ ω := fun s =>
  if c then (true, s, []) else p s

theorem andThen_of_true {p q : Attempt σ ω} {s s' : σ} {out : List ω} (h : p s = (true, s', out)) :
    p.andThen q s = ((q s').1, (q s').2.1, out ++ (q s').2.2) := by
  simp [andThen, h]

theorem andThen_of_false {p q : Attempt σ ω} {s : σ} (h : (p s).1 = false) :
    p.andThen q s = p s := by
  simp [andThen, h]

/-- A call at the end sends nothing more. -/
theorem andThen_call_out (p : Attempt σ ω) (f : σ → Bool × σ) (s : σ) :
    (p.andThen (call f) s).2.2 = (p s).2.2 := by
  rw [andThen]
  split
  · exact List.append_nil _
  · rfl

/-! ## What a chain keeps -/

/-- The calls leave the value of `f` alone. -/
def Keeps {α : Type} (f : σ → α) (p : Attempt σ ω) : Prop := ∀ s, f (p s).2.1 = f s

theorem Keeps.andThen {α : Type} {f : σ → α} {p q : Attempt σ ω} (hp : Keeps f p) (hq : Keeps f q) :
    Keeps f (p.andThen q) := by
  intro s
  rw [Attempt.andThen]
  split
  · exact (hq _).trans (hp s)
  · exact hp s

theorem Keeps.orElse {α : Type} {f : σ → α} {p : Attempt σ ω} {c : Prop} [Decidable c] (hp : Keeps f p) :
    Keeps f (Attempt.orElse c p) := by
  intro s
  rw [Attempt.orElse]
  split
  · rfl
  · exact hp s

/-! ## Chains that follow a partial result

`o` is what a chain should come to. `Ends P p o K`: from a state of `P`, with `some a` the outcome
satisfies `K a`, and with `none` the chain returns false and sends nothing. `Does` is the case of
calls that succeed without sending, from where a chain goes on. -/

def Ends {α : Type} (P : σ → Prop) (p : Attempt σ ω) (o : Option α)
    (K : α → Bool × σ × List ω → Prop) : Prop :=
  ∀ s, P s → match o with
    | some a => K a (p s)
    | none => (p s).1 = false ∧ (p s).2.2 = []

def Does {α : Type} (P : σ → Prop) (p : Attempt σ ω) (o : Option α) (Q : α → σ → Prop) : Prop :=
  Ends P p o fun a r => ∃ s', r = (true, s', []) ∧ Q a s'

theorem Ends.imp {α : Type} {P : σ → Prop} {p : Attempt σ ω} {o : Option α}
    {K : α → Bool × σ × List ω → Prop} (h : Ends P p o K) (K' : α → Bool × σ × List ω → Prop)
    (hK : ∀ a r, K a r → K' a r) : Ends P p o K' := by
  intro s hs
  have hend := h s hs
  cases o with
  | none => exact hend
  | some a => exact hK a _ hend

theorem Does.andThen {α β : Type} {P : σ → Prop} {p q : Attempt σ ω} {o : Option α}
    {Q : α → σ → Prop} {f : α → Option β} {K : β → Bool × σ × List ω → Prop} (hp : Does P p o Q)
    (hq : ∀ a, o = some a → Ends (Q a) q (f a) K) : Ends P (p.andThen q) (o.bind f) K := by
  intro s hs
  have hstep := hp s hs
  cases o with
  | none =>
    rw [andThen_of_false hstep.1]
    exact hstep
  | some a =>
    obtain ⟨s', hrun, hQ⟩ := hstep
    rw [andThen_of_true hrun, List.nil_append]
    exact hq a rfl s' hQ

/-- The outcome of one call. -/
def Steps {α : Type} (o : Option α) (Q : α → σ → Prop) (r : Bool × σ) : Prop :=
  match o with
  | some a => ∃ s', r = (true, s') ∧ Q a s'
  | none => r.1 = false

theorem Does.call {α : Type} {P : σ → Prop} {f : σ → Bool × σ} {o : Option α} {Q : α → σ → Prop}
    (hf : ∀ s, P s → Steps o Q (f s)) : Does P (Attempt.call f : Attempt σ ω) o Q := by
  intro s hs
  have hstep := hf s hs
  cases o with
  | none => exact ⟨hstep, rfl⟩
  | some a =>
    obtain ⟨s', hrun, hQ⟩ := hstep
    exact ⟨s', by rw [Attempt.call, hrun], hQ⟩

theorem Does.orElse {α : Type} {P : σ → Prop} {p : Attempt σ ω} {c : Prop} [Decidable c] {o : Option α}
    {a : α} {Q : α → σ → Prop} (ha : ∀ s, P s → Q a s) (hp : Does P p o Q) :
    Does P (Attempt.orElse c p) (if c then some a else o) Q := by
  intro s hs
  rw [Attempt.orElse]
  by_cases hc : c
  · rw [if_pos hc, if_pos hc]
    exact ⟨s, rfl, ha s hs⟩
  · rw [if_neg hc, if_neg hc]
    exact hp s hs

end Attempt

import Mathlib.Data.List.Basic

/-! # Computations that leave a log

A computation may fail, and what it does on the way is written into a log. Without the log it is a
computation in `Option`. -/
set_option autoImplicit false

universe u

structure Logged (ε α : Type u) where
  run : Option (α × List ε)

namespace Logged
variable {ε α β : Type u}

def lift (m : Option α) : Logged ε α := ⟨m.map fun a => (a, [])⟩

/-- `e` is written before what `m` writes. -/
def tell (e : ε) (m : Logged ε α) : Logged ε α := ⟨m.run.map fun r => (r.1, e :: r.2)⟩

instance : Monad (Logged ε) where
  pure a := ⟨some (a, [])⟩
  bind m f := ⟨m.run.bind fun r => (f r.1).run.map fun r' => (r'.1, r.2 ++ r'.2)⟩

/-! ## Without the log -/

def erase (m : Logged ε α) : Option α := m.run.map Prod.fst

@[simp] theorem erase_pure (a : α) : erase (pure a : Logged ε α) = some a := rfl

@[simp] theorem erase_lift (m : Option α) : erase (lift m : Logged ε α) = m := by
  cases m <;> rfl

@[simp] theorem erase_tell (e : ε) (m : Logged ε α) : erase (tell e m) = erase m := by
  obtain ⟨run⟩ := m
  cases run <;> rfl

@[simp] theorem erase_bind (m : Logged ε α) (f : α → Logged ε β) :
    erase (m >>= f) = (erase m).bind fun a => erase (f a) := by
  obtain ⟨run⟩ := m
  cases run with
  | none => rfl
  | some r =>
    change ((f r.1).run.map fun r' => (r'.1, r.2 ++ r'.2)).map Prod.fst = erase (f r.1)
    rw [Option.map_map]
    rfl

@[simp] theorem erase_ite (c : Prop) [Decidable c] (m m' : Logged ε α) :
    erase (if c then m else m') = if c then erase m else erase m' := apply_ite _ _ _ _

/-! ## The log -/

/-- The computation returns `a` and leaves the log `l`. -/
def Yields (m : Logged ε α) (a : α) (l : List ε) : Prop := m.run = some (a, l)

theorem Yields.erase {m : Logged ε α} {a : α} {l : List ε} (h : m.Yields a l) : m.erase = some a := by
  rw [Logged.erase, h]
  rfl

theorem yields_pure {a b : α} {l : List ε} :
    (pure a : Logged ε α).Yields b l ↔ a = b ∧ l = [] := by
  simp [Yields, pure, eq_comm]

theorem yields_lift {m : Option α} {a : α} {l : List ε} :
    (lift m : Logged ε α).Yields a l ↔ m = some a ∧ l = [] := by
  cases m with
  | none => simp [Yields, lift]
  | some b => simp [Yields, lift, eq_comm]

theorem yields_tell {e : ε} {m : Logged ε α} {a : α} {l : List ε} :
    (tell e m).Yields a l ↔ ∃ l', m.Yields a l' ∧ e :: l' = l := by
  simp [Yields, tell]

theorem yields_bind {m : Logged ε α} {f : α → Logged ε β} {b : β} {l : List ε} :
    (m >>= f).Yields b l ↔ ∃ a l₁ l₂, m.Yields a l₁ ∧ (f a).Yields b l₂ ∧ l₁ ++ l₂ = l := by
  simp only [Yields, bind, Option.bind_eq_some_iff, Option.map_eq_some_iff, Prod.mk.injEq]
  constructor
  · rintro ⟨⟨a, l₁⟩, hm, ⟨b', l₂⟩, hf, rfl, rfl⟩
    exact ⟨a, l₁, l₂, hm, hf, rfl⟩
  · rintro ⟨a, l₁, l₂, hm, hf, rfl⟩
    exact ⟨(a, l₁), hm, (b, l₂), hf, rfl, rfl⟩

/-- Whatever the computation writes has the property. -/
def Only (P : ε → Prop) (m : Logged ε α) : Prop := ∀ a l, m.Yields a l → ∀ e ∈ l, P e

variable {P : ε → Prop}

theorem only_pure (a : α) : (pure a : Logged ε α).Only P := by
  intro b l h
  simp [(yields_pure.mp h).2]

theorem only_lift (m : Option α) : (lift m : Logged ε α).Only P := by
  intro a l h
  simp [(yields_lift.mp h).2]

theorem Only.tell {e : ε} {m : Logged ε α} (he : P e) (hm : m.Only P) : (tell e m).Only P := by
  intro a l h
  obtain ⟨l', hl', rfl⟩ := yields_tell.mp h
  exact List.forall_mem_cons.mpr ⟨he, hm a l' hl'⟩

theorem Only.bind {m : Logged ε α} {f : α → Logged ε β} (hm : m.Only P) (hf : ∀ a, (f a).Only P) :
    (m >>= f).Only P := by
  intro b l h
  obtain ⟨a, l₁, l₂, h₁, h₂, rfl⟩ := yields_bind.mp h
  exact List.forall_mem_append.mpr ⟨hm a l₁ h₁, hf a b l₂ h₂⟩

end Logged

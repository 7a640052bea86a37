import Mathlib.Data.List.Infix

/-! # Runs and their histories

A system takes steps, and each step leaves an event. Which steps it may take can depend on the events
so far, so that a run whose steps meet some condition is a run of another system. -/
namespace Runs
set_option autoImplicit false

variable {σ ε : Type*}

/-- The histories of a system and the states it is in after them. -/
inductive Run (start : σ → Prop) (step : List ε → σ → ε → σ → Prop) : List ε → σ → Prop
  | start {s : σ} (h : start s) : Run start step [] s
  | step {past : List ε} {s s' : σ} {e : ε} (hrun : Run start step past s) (h : step past s e s') :
      Run start step (past ++ [e]) s'

/-- Every event of a history has this property, given the events in front of it. -/
def Each (P : List ε → ε → Prop) (history : List ε) : Prop :=
  ∀ past e, past ++ [e] <+: history → P past e

theorem each_nil (P : List ε → ε → Prop) : Each P [] := by
  intro past e h
  have hlen := h.length_le
  simp at hlen

theorem each_concat {P : List ε → ε → Prop} {past : List ε} {e : ε} :
    Each P (past ++ [e]) ↔ Each P past ∧ P past e := by
  constructor
  · intro h
    exact ⟨fun l x hl => h l x (hl.trans (List.prefix_append _ _)), h past e List.prefix_rfl⟩
  · rintro ⟨hall, he⟩ l x hl
    rcases List.prefix_concat_iff.mp hl with heq | hl
    · obtain ⟨rfl, hx⟩ := List.append_inj' heq rfl
      rw [List.cons.inj hx |>.1]
      exact he
    · exact hall l x hl

/-- Events that each bring no more of one kind than of another do so together. -/
theorem countP_flatMap_le {α β : Type*} {history : List ε} {f : ε → List α} {g : ε → List β}
    {p : α → Bool} {q : β → Bool} (h : ∀ e ∈ history, (f e).countP p ≤ (g e).countP q) :
    (history.flatMap f).countP p ≤ (history.flatMap g).countP q := by
  induction history with
  | nil => exact Nat.le_refl _
  | cons e history ih =>
    rw [List.flatMap_cons, List.flatMap_cons, List.countP_append, List.countP_append]
    exact Nat.add_le_add (h e List.mem_cons_self) (ih fun x hx => h x (List.mem_cons_of_mem _ hx))

/-- An event of a part of a system is an event of the whole, after the same events of the part. -/
theorem prefix_of_filterMap {ε' : Type*} {f : ε → Option ε'} {history : List ε} {past : List ε'} {x : ε'}
    (h : past ++ [x] <+: history.filterMap f) :
    ∃ before e, before ++ [e] <+: history ∧ f e = some x ∧ before.filterMap f = past := by
  obtain ⟨later, h⟩ := h
  rw [List.append_assoc, eq_comm, List.filterMap_eq_append_iff] at h
  obtain ⟨l₁, l₂, rfl, rfl, h⟩ := h
  obtain ⟨skip, e, rest, rfl, hskip, he, -⟩ := List.filterMap_eq_cons_iff.mp h
  refine ⟨l₁ ++ skip, e, ⟨rest, by simp⟩, he, ?_⟩
  rw [List.filterMap_append, List.filterMap_eq_nil_iff.mpr hskip, List.append_nil]

namespace Run
variable {start : σ → Prop} {step : List ε → σ → ε → σ → Prop} {history : List ε} {s : σ}

/-- What holds at the start and is kept by every step holds after every run. -/
theorem invariant {inv : List ε → σ → Prop} (hstart : ∀ s, start s → inv [] s)
    (hstep : ∀ past s e s', inv past s → step past s e s' → inv (past ++ [e]) s')
    (h : Run start step history s) : inv history s := by
  induction h with
  | start h => exact hstart _ h
  | step _ h ih => exact hstep _ _ _ _ ih h

/-- What an invariant gives for each step holds for all events of every run. -/
theorem each {inv : List ε → σ → Prop} {P : List ε → ε → Prop}
    (hinv : ∀ past s, Run start step past s → inv past s)
    (hstep : ∀ past s e s', inv past s → step past s e s' → P past e)
    (h : Run start step history s) : Each P history := by
  induction h with
  | start h => exact each_nil P
  | step hrun h ih => exact each_concat.mpr ⟨ih, hstep _ _ _ _ (hinv _ _ hrun) h⟩

/-- The steps that a history tells of. -/
theorem steps (h : Run start step history s) :
    Each (fun past e => ∃ t t', Run start step past t ∧ step past t e t') history :=
  h.each (fun _ _ h => h) fun _ t _ t' hrun hstep => ⟨t, t', hrun, hstep⟩

theorem last {past : List ε} {e : ε} (h : Run start step (past ++ [e]) s) :
    ∃ t, Run start step past t ∧ step past t e s := by
  generalize hl : past ++ [e] = l at h
  cases h with
  | start h => simp at hl
  | step hrun hstep =>
    obtain ⟨rfl, he⟩ := List.append_inj' hl rfl
    cases he
    exact ⟨_, hrun, hstep⟩

end Run

end Runs

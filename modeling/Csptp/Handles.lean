import Csptp.Runs
import Mathlib.Data.Set.Insert
import Mathlib.Logic.Function.Basic

/-! # Handles of a system

A system opens handles for several owners, who use them and close them. When each owner opens only while it
has none, and uses and closes only the one it has, no owner ever touches a handle of another, and what is
open is what was open at the start and what the owners have. -/
namespace Handles
set_option autoImplicit false

variable {δ ι : Type*}

inductive Act (δ : Type*)
  | opens (d : δ)
  | uses (d : δ)
  | closes (d : δ)
deriving DecidableEq

/-! ## One owner -/

section Owner
variable [DecidableEq δ]

/-- What an owner has after an act that it may do. -/
def follow : Option δ → Act δ → Option (Option δ)
  | none, .opens d => some (some d)
  | some d, .uses d' => if d' = d then some (some d) else none
  | some d, .closes d' => if d' = d then some none else none
  | _, _ => none

def followAll (h : Option δ) (acts : List (Act δ)) : Option (Option δ) := acts.foldlM follow h

@[simp] theorem followAll_nil (h : Option δ) : followAll h [] = some h := rfl

@[simp] theorem followAll_cons (h : Option δ) (a : Act δ) (acts : List (Act δ)) :
    followAll h (a :: acts) = (follow h a).bind fun h' => followAll h' acts := rfl

theorem followAll_append (h : Option δ) (l l' : List (Act δ)) :
    followAll h (l ++ l') = (followAll h l).bind fun h' => followAll h' l' := by
  rw [followAll, List.foldlM_append]
  rfl

/-- A handle stays with its owner while it is used. -/
theorem followAll_uses {d : δ} {acts : List (Act δ)} (h : ∀ a ∈ acts, a = .uses d) :
    followAll (some d) acts = some (some d) := by
  induction acts with
  | nil => rfl
  | cons a acts ih =>
    obtain ⟨rfl, hrest⟩ := List.forall_mem_cons.mp h
    rw [followAll_cons, follow, if_pos rfl, Option.bind_some, ih hrest]

/-- A handle that is opened, used and closed is gone. -/
theorem followAll_session {d : δ} {acts : List (Act δ)} (h : ∀ a ∈ acts, a = .uses d) :
    followAll none (.opens d :: (acts ++ [.closes d])) = some none := by
  rw [followAll_cons, follow, Option.bind_some, followAll_append, followAll_uses h, Option.bind_some,
    followAll_cons, follow, if_pos rfl, Option.bind_some, followAll_nil]

theorem follow_cases {h h' : Option δ} {a : Act δ} (hf : follow h a = some h') :
    (∃ d, a = .opens d ∧ h = none ∧ h' = some d) ∨ (∃ d, a = .uses d ∧ h = some d ∧ h' = some d) ∨
      ∃ d, a = .closes d ∧ h = some d ∧ h' = none := by
  cases h with
  | none =>
    cases a with
    | opens d => exact .inl ⟨d, rfl, rfl, (Option.some.inj hf).symm⟩
    | uses d => exact absurd hf (by simp [follow])
    | closes d => exact absurd hf (by simp [follow])
  | some e =>
    cases a with
    | opens d => exact absurd hf (by simp [follow])
    | uses d =>
      rw [follow, Option.ite_none_right_eq_some] at hf
      obtain ⟨rfl, heq⟩ := hf
      exact .inr (.inl ⟨d, rfl, rfl, (Option.some.inj heq).symm⟩)
    | closes d =>
      rw [follow, Option.ite_none_right_eq_some] at hf
      obtain ⟨rfl, heq⟩ := hf
      exact .inr (.inr ⟨d, rfl, rfl, (Option.some.inj heq).symm⟩)

theorem follow_own {h h' : Option δ} {a : Act δ} {d : δ} (hf : follow h a = some h')
    (ha : a = .uses d ∨ a = .closes d) : h = some d := by
  rcases follow_cases hf with ⟨e, rfl, -⟩ | ⟨e, rfl, rfl, -⟩ | ⟨e, rfl, rfl, -⟩
  · simp at ha
  · simp at ha
    rw [ha]
  · simp at ha
    rw [ha]

end Owner

/-! ## The system -/

/-- What is open after an act. -/
def openNext (o : Set δ) : Act δ → Set δ
  | .opens d => insert d o
  | .uses _ => o
  | .closes d => o \ {d}

def openAfter (o : Set δ) (acts : List (Act δ)) : Set δ := acts.foldl openNext o

theorem openAfter_concat (o : Set δ) (acts : List (Act δ)) (a : Act δ) :
    openAfter o (acts ++ [a]) = openNext (openAfter o acts) a := by
  rw [openAfter, List.foldl_append]
  rfl

/-- The system opens only what is not open. -/
def Fresh (o : Set δ) : List (Act δ) → Prop :=
  Runs.Each fun past a => ∀ d, a = .opens d → d ∉ openAfter o past

/-- Of the open handles, each is from the start or has one owner. -/
structure Own (start : Set δ) (held : ι → Option δ) (o : Set δ) : Prop where
  opened : ∀ d, d ∈ o ↔ d ∈ start ∨ ∃ i, held i = some d
  new : ∀ i d, held i = some d → d ∉ start
  alone : ∀ i j d, held i = some d → held j = some d → i = j

section System
variable [DecidableEq δ] [DecidableEq ι] {start o : Set δ} {held : ι → Option δ} {log : List (ι × Act δ)}

omit [DecidableEq δ] [DecidableEq ι] in
theorem own_start : Own start (fun _ : ι => none) start where
  opened d := by simp
  new i d h := by simp at h
  alone i j d h := by simp at h

omit [DecidableEq δ] in
theorem Own.opens (h : Own start held o) {i : ι} {d : δ} (hnone : held i = none) (hd : d ∉ o) :
    Own start (Function.update held i (some d)) (insert d o) := by
  rw [h.opened, not_or, not_exists] at hd
  have hback {j : ι} {e : δ} (hj : Function.update held i (some d) j = some e) :
      j = i ∧ e = d ∨ j ≠ i ∧ held j = some e := by
    by_cases hji : j = i
    · rw [hji, Function.update_self] at hj
      exact .inl ⟨hji, (Option.some.inj hj).symm⟩
    · rw [Function.update_of_ne hji] at hj
      exact .inr ⟨hji, hj⟩
  refine ⟨fun e => ?_, fun j e hj => ?_, fun j k e hj hk => ?_⟩
  · rw [Set.mem_insert_iff, h.opened]
    constructor
    · rintro (rfl | he | ⟨j, hj⟩)
      · exact .inr ⟨i, Function.update_self _ _ _⟩
      · exact .inl he
      · have hne : j ≠ i := by
          rintro rfl
          rw [hnone] at hj
          cases hj
        exact .inr ⟨j, (Function.update_of_ne hne _ _).trans hj⟩
    · rintro (he | ⟨j, hj⟩)
      · exact .inr (.inl he)
      · rcases hback hj with ⟨-, rfl⟩ | ⟨-, hj⟩
        · exact .inl rfl
        · exact .inr (.inr ⟨j, hj⟩)
  · rcases hback hj with ⟨-, rfl⟩ | ⟨-, hj⟩
    · exact hd.1
    · exact h.new j e hj
  -- The new handle was not open, so nobody else has it.
  · rcases hback hj with ⟨hji, hed⟩ | ⟨-, hj⟩ <;> rcases hback hk with ⟨hki, hed'⟩ | ⟨-, hk⟩
    · rw [hji, hki]
    · exact absurd (hed ▸ hk) (hd.2 k)
    · exact absurd (hed' ▸ hj) (hd.2 j)
    · exact h.alone j k e hj hk

omit [DecidableEq δ] in
theorem Own.closes (h : Own start held o) {i : ι} {d : δ} (hheld : held i = some d) :
    Own start (Function.update held i none) (o \ {d}) := by
  have hback {j : ι} {e : δ} (hj : Function.update held i none j = some e) : j ≠ i ∧ held j = some e := by
    by_cases hji : j = i
    · rw [hji, Function.update_self] at hj
      cases hj
    · rw [Function.update_of_ne hji] at hj
      exact ⟨hji, hj⟩
  refine ⟨fun e => ?_, fun j e hj => h.new j e (hback hj).2,
    fun j k e hj hk => h.alone j k e (hback hj).2 (hback hk).2⟩
  rw [Set.mem_sdiff, Set.mem_singleton_iff, h.opened]
  constructor
  · rintro ⟨he | ⟨j, hj⟩, hne⟩
    · exact .inl he
    · have hji : j ≠ i := by
        rintro rfl
        rw [hheld] at hj
        exact hne (Option.some.inj hj).symm
      exact .inr ⟨j, (Function.update_of_ne hji _ _).trans hj⟩
  · rintro (he | ⟨j, hj⟩)
    · refine ⟨.inl he, ?_⟩
      rintro rfl
      exact h.new i e hheld he
    · obtain ⟨hji, hj⟩ := hback hj
      refine ⟨.inr ⟨j, hj⟩, ?_⟩
      rintro rfl
      exact hji (h.alone j i e hj hheld)

/-- An act of one owner. -/
theorem Own.next (h : Own start held o) {i : ι} {a : Act δ} {h' : Option δ} (hf : follow (held i) a = some h')
    (hfresh : ∀ d, a = .opens d → d ∉ o) : Own start (Function.update held i h') (openNext o a) := by
  rcases follow_cases hf with ⟨d, rfl, hnone, rfl⟩ | ⟨d, rfl, hheld, rfl⟩ | ⟨d, rfl, hheld, rfl⟩
  · exact h.opens hnone (hfresh d rfl)
  · rw [← hheld, Function.update_eq_self]
    exact h
  · exact h.closes hheld

/-- The acts of one owner. -/
def actsOf (i : ι) (log : List (ι × Act δ)) : List (Act δ) :=
  log.filterMap fun e => if e.1 = i then some e.2 else none

omit [DecidableEq δ] in
theorem actsOf_append (i : ι) (log log' : List (ι × Act δ)) :
    actsOf i (log ++ log') = actsOf i log ++ actsOf i log' := List.filterMap_append

omit [DecidableEq δ] in
theorem actsOf_map (i j : ι) (acts : List (Act δ)) :
    actsOf i (acts.map (Prod.mk j)) = if j = i then acts else [] := by
  rw [actsOf, List.filterMap_map]
  by_cases hji : j = i
  · simp [hji]
  · simp [hji]

/-- The owners follow their handles through a log. -/
def Followed (log : List (ι × Act δ)) (held : ι → Option δ) : Prop :=
  ∀ i, followAll none (actsOf i log) = some (held i)

theorem followed_concat {i : ι} {a : Act δ} (h : Followed (log ++ [(i, a)]) held) :
    ∃ h₀, Followed log (Function.update held i h₀) ∧ follow h₀ a = some (held i) := by
  have hi := h i
  rw [actsOf_append, followAll_append] at hi
  obtain ⟨h₀, hlog, hstep⟩ := Option.bind_eq_some_iff.mp hi
  refine ⟨h₀, fun j => ?_, ?_⟩
  · by_cases hji : j = i
    · rw [hji, Function.update_self, hlog]
    · have hj := h j
      rw [actsOf_append, show actsOf j [(i, a)] = [] from by simp [actsOf, Ne.symm hji], List.append_nil] at hj
      rw [Function.update_of_ne hji, hj]
  · rw [show actsOf i [(i, a)] = [a] from by simp [actsOf], followAll_cons] at hstep
    obtain ⟨h₁, hf, hnil⟩ := Option.bind_eq_some_iff.mp hstep
    rw [hf, ← followAll_nil h₁, hnil]

/-- What is open after a log. -/
theorem own_of_followed (h : Followed log held) (hfresh : Fresh start (log.map Prod.snd)) :
    Own start held (openAfter start (log.map Prod.snd)) := by
  induction log using List.reverseRecOn generalizing held with
  | nil =>
    have hnone : held = fun _ => none := funext fun i => (Option.some.inj (h i)).symm
    rw [hnone]
    exact own_start
  | append_singleton log e ih =>
    obtain ⟨i, a⟩ := e
    rw [List.map_append, List.map_singleton] at hfresh ⊢
    obtain ⟨hpast, hnew⟩ := Runs.each_concat.mp hfresh
    -- The last act is of one owner, and the others have what they had before it.
    obtain ⟨h₀, hlog, hf⟩ := followed_concat h
    rw [← Function.update_self i h₀ held] at hf
    have hnext := (ih hlog hpast).next hf hnew
    rw [Function.update_idem, Function.update_eq_self] at hnext
    rw [openAfter_concat]
    exact hnext

/-- The log before an act that an owner follows. -/
theorem followed_prefix {log' : List (ι × Act δ)} (h : Followed (log ++ log') held) :
    ∃ held', Followed log held' := by
  induction log' using List.reverseRecOn generalizing held with
  | nil => exact ⟨held, by rwa [List.append_nil] at h⟩
  | append_singleton log' e ih =>
    rw [← List.append_assoc] at h
    obtain ⟨h₀, hlog, -⟩ := followed_concat h
    exact ih hlog

end System

end Handles

import Csptp.Octets.Text

/-! # What a program touches

`Stays` is the part of `Safe` that is about accesses: sizes may wrap around. The loops over a text touch
what lies between where they begin and where they stop. -/
namespace Octets
namespace Prog
set_option autoImplicit false

/-- Every access of the program lies in `S`. -/
def Stays {α : Type} (S : ℕ → Prop) (p : Prog α) (m : Mem) : Prop := ∀ o, p.Touches m o → S o

section Steps
variable {α β : Type} {S S' : ℕ → Prop} {p q : Prog α} {f : α → Prog β} {m : Mem}

theorem Safe.stays (h : Safe S p m) : Stays S p m := h.touches

theorem Stays.mono (h : Stays S p m) (hS : ∀ o, S o → S' o) : Stays S' p m :=
  fun o ho => hS o (h o ho)

@[simp] theorem stays_pure (a : α) : Stays S (pure a : Prog α) m := (safe_pure a m).stays

theorem stays_bind : Stays S (p >>= f) m ↔ Stays S p m ∧ Stays S (f (p.run m).1) (p.run m).2 := by
  simp only [Stays, Touches, trace_bind, List.mem_append]
  exact ⟨fun h => ⟨fun o ho => h o (.inl ho), fun o ho => h o (.inr ho)⟩,
    fun h o ho => ho.elim (h.1 o) (h.2 o)⟩

theorem stays_ite {c : Prop} [Decidable c] :
    Stays S (if c then p else q) m ↔ if c then Stays S p m else Stays S q m := by
  split <;> rfl

@[simp] theorem stays_octetAt {o : ℕ} : Stays S (octetAt o) m ↔ S o := by
  simp [Stays, Touches, octetAt, trace]

@[simp] theorem stays_sub {a b : ℕ} : Stays S (sub a b p) m ↔ Stays S p m := by
  simp [Stays, Touches, trace]

@[simp] theorem stays_subSize (a b : ℕ) : Stays S (subSize a b) m := by
  simp [Stays, Touches, subSize, trace]

/-- Whether or not it wraps around. -/
theorem run_subSize_mod (a b : ℕ) (m : Mem) : (subSize a b).run m = ((a + 2 ^ 64 - b) % 2 ^ 64, m) := rfl

theorem stays_loadOctets {o n : ℕ} (h : ∀ a, o ≤ a → a < o + n → S a) : Stays S (loadOctets o n) m :=
  (safe_loadOctets.mpr h).stays

end Steps

section Loops
variable {p : Octet → Bool} {S : ℕ → Prop} {m : Mem}

/-- Going forwards, with the place where the loop stops. -/
theorem skipWhile_to {k n s : ℕ} (hk : k ≤ n) (hp : ∀ i < k, p (m (s + i)) = true)
    (hstop : k < n → p (m (s + k)) = false) : (skipWhile p n s).run m = ((s + k, n - k), m) ∧
      (Stays S (skipWhile p n s) m ↔ ∀ i ≤ k, i < n → S (s + i)) := by
  induction k generalizing n s with
  | zero =>
    cases n with
    | zero => exact ⟨rfl, fun _ i _ hi => absurd hi (by omega), fun _ => stays_pure _⟩
    | succ n =>
      have hs : ¬ p (m s) = true := by simpa using hstop (Nat.succ_pos n)
      constructor
      · rw [skipWhile, run_bind, run_octetAt, if_neg hs]
        rfl
      · rw [skipWhile, stays_bind, run_octetAt, if_neg hs, stays_octetAt]
        refine ⟨fun h i hi _ => ?_, fun h => ⟨h 0 le_rfl (Nat.succ_pos n), stays_pure _⟩⟩
        rw [Nat.le_zero.mp hi]
        exact h.1
  | succ k ih =>
    obtain ⟨n, rfl⟩ := Nat.exists_eq_add_of_le' (show 1 ≤ n by omega)
    have hnext (i : ℕ) : s + 1 + i = s + (i + 1) := by omega
    have hs : p (m s) = true := hp 0 (Nat.succ_pos k)
    obtain ⟨hrun, hstays⟩ := @ih n (s + 1) (by omega)
      (fun i hi => by rw [hnext]; exact hp _ (by omega)) (fun h => by rw [hnext]; exact hstop (by omega))
    constructor
    · rw [skipWhile, run_bind, run_octetAt, if_pos hs, run_sub, hrun, hnext, Nat.add_sub_add_right]
    · rw [skipWhile, stays_bind, run_octetAt, if_pos hs, stays_octetAt, stays_sub, hstays]
      refine ⟨fun h i hi hlt => ?_, fun h => ⟨h 0 (by omega) (by omega), fun i hi hlt => ?_⟩⟩
      · cases i with
        | zero => exact h.1
        | succ i =>
          rw [← hnext]
          exact h.2 i (by omega) (by omega)
      · rw [hnext]
        exact h _ (by omega) (by omega)

/-- Going backwards, with the place where the loop stops. -/
theorem stripWhile_to {t l s : ℕ} (ht : t ≤ l) (hp : ∀ i, t < i → i ≤ l → p (m (s + i)) = true)
    (hstop : 0 < t → p (m (s + t)) = false) : (stripWhile p s l).run m = (t, m) ∧
      (Stays S (stripWhile p s l) m ↔ ∀ i, t ≤ i → 0 < i → i ≤ l → S (s + i)) := by
  induction l with
  | zero =>
    rw [Nat.le_zero.mp ht]
    exact ⟨rfl, fun _ i _ h h' => absurd h (by omega), fun _ => stays_pure _⟩
  | succ l ih =>
    by_cases htl : t = l + 1
    · subst htl
      have hs : ¬ p (m (s + (l + 1))) = true := by simpa using hstop (Nat.succ_pos l)
      constructor
      · rw [stripWhile, run_bind, run_octetAt, if_neg hs, run_pure]
      · rw [stripWhile, stays_bind, run_octetAt, if_neg hs, stays_octetAt]
        refine ⟨fun h i hi _ hi' => ?_, fun h => ⟨h _ le_rfl (Nat.succ_pos l) le_rfl, stays_pure _⟩⟩
        rw [le_antisymm hi' hi]
        exact h.1
    · have hs : p (m (s + (l + 1))) = true := hp _ (by omega) le_rfl
      obtain ⟨hrun, hstays⟩ := ih (by omega) fun i hi hi' => hp i hi (by omega)
      constructor
      · rw [stripWhile, run_bind, run_octetAt, if_pos hs, run_sub, hrun]
      · rw [stripWhile, stays_bind, run_octetAt, if_pos hs, stays_octetAt, stays_sub, hstays]
        refine ⟨fun h i hi hpos hi' => ?_, fun h =>
          ⟨h _ (by omega) (Nat.succ_pos l) le_rfl, fun i hi hpos hi' => h i hi hpos (by omega)⟩⟩
        by_cases hil : i = l + 1
        · exact hil ▸ h.1
        · exact h.2 i hi hpos (by omega)

theorem stripWhile_reaches {l s i : ℕ} (hi : 0 < i) (hil : i ≤ l)
    (hp : ∀ j, i < j → j ≤ l → p (m (s + j)) = true) (h : Stays S (stripWhile p s l) m) : S (s + i) := by
  induction l with
  | zero => omega
  | succ l ih =>
    rw [stripWhile, stays_bind, run_octetAt, stays_octetAt] at h
    by_cases heq : i = l + 1
    · rw [heq]
      exact h.1
    · have hlast : p (m (s + (l + 1))) = true := hp _ (by omega) le_rfl
      rw [if_pos hlast, stays_sub] at h
      exact ih (by omega) (fun j hj hj' => hp j hj (by omega)) h.2

end Loops

/-! ## What a program gives -/

/-- Whatever the memory holds, the result has this property. -/
def Gives {α : Type} (P : α → Prop) (p : Prog α) : Prop := ∀ m, P (p.run m).1

section Giving
variable {α β : Type} {P : α → Prop} {p q : Prog α} {f : β → Prog α} {a : α}

theorem gives_pure (h : P a) : Gives P (pure a) := fun _ => h

theorem Gives.bind {r : Prog β} (hf : ∀ b, Gives P (f b)) : Gives P (r >>= f) := by
  intro m
  rw [run_bind]
  exact hf _ _

theorem Gives.ite {c : Prop} [Decidable c] (hp : Gives P p) (hq : Gives P q) :
    Gives P (if c then p else q) := by
  split
  · exact hp
  · exact hq

end Giving

/-! ## Programs that only read -/

/-- The program leaves every memory as it is. -/
structure Reads {α : Type} (p : Prog α) : Prop where
  keeps : ∀ m, (p.run m).2 = m

section Reading
variable {α β : Type} {p q : Prog α} {f : α → Prog β}

theorem reads_pure (a : α) : Reads (pure a : Prog α) := ⟨fun _ => rfl⟩

theorem Reads.bind (hp : Reads p) (hf : ∀ a, Reads (f a)) : Reads (p >>= f) := by
  constructor
  intro m
  rw [run_bind, (hf _).keeps, hp.keeps]

theorem Reads.ite {c : Prop} [Decidable c] (hp : Reads p) (hq : Reads q) :
    Reads (if c then p else q) := by
  split
  · exact hp
  · exact hq

theorem reads_octetAt (o : ℕ) : Reads (octetAt o) := ⟨fun _ => rfl⟩

theorem reads_subSize (a b : ℕ) : Reads (subSize a b) := ⟨fun _ => rfl⟩

theorem reads_loadOctets (o n : ℕ) : Reads (loadOctets o n) := ⟨fun m => by rw [run_loadOctets]⟩

theorem Reads.sub (hp : Reads p) (a b : ℕ) : Reads (Prog.sub a b p) := ⟨hp.keeps⟩

theorem reads_scan (r : Octet → Bool) (n s : ℕ) : Reads (scan r n s) := by
  induction n generalizing s with
  | zero => exact reads_pure _
  | succ n ih =>
    exact (reads_octetAt s).bind fun v => .ite (reads_pure _) (.ite (reads_pure _) (ih _))

theorem reads_strlen (n s : ℕ) : Reads (strlen n s) := by
  induction n generalizing s with
  | zero => exact reads_pure _
  | succ n ih =>
    exact (reads_octetAt s).bind fun v => .ite (reads_pure _) ((ih _).bind fun l => reads_pure _)

theorem reads_skipWhile (r : Octet → Bool) (n s : ℕ) : Reads (skipWhile r n s) := by
  induction n generalizing s with
  | zero => exact reads_pure _
  | succ n ih =>
    exact (reads_octetAt s).bind fun v => .ite ((ih _).sub _ _) (reads_pure _)

theorem reads_stripWhile (r : Octet → Bool) (s l : ℕ) : Reads (stripWhile r s l) := by
  induction l with
  | zero => exact reads_pure _
  | succ l ih =>
    exact (reads_octetAt _).bind fun v => .ite (ih.sub _ _) (reads_pure _)

end Reading

end Prog
end Octets

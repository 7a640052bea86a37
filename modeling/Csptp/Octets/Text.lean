import Mathlib.Data.List.DropRight
import Csptp.Octets.Program

/-! # Text in memory

Loops over the characters of a text, one octet at a time: the two scans of the C library, and the loops
that go forwards or backwards over characters of one kind. Each has a lemma about its result and one
about the octets that it reads. -/
namespace Octets
namespace Prog
set_option autoImplicit false

/-- Reads one octet. -/
def octetAt (o : ℕ) : Prog Octet := read o ret

/-- The position of the first `c` in front of a zero, among `n` octets from `s` on. -/
def strchr (c : Octet) : ℕ → ℕ → Prog (Option ℕ)
  | 0, _ => pure none
  | n + 1, s => do
    let v ← octetAt s
    if v = c then pure (some s) else if v = 0 then pure none else strchr c n (s + 1)

/-- The position of the first octet of a kind in front of a zero, among `n` octets from `s` on. -/
def scan (p : Octet → Bool) : ℕ → ℕ → Prog (Option ℕ)
  | 0, _ => pure none
  | n + 1, s => do
    let v ← octetAt s
    if p v then pure (some s) else if v = 0 then pure none else scan p n (s + 1)

def strpbrk (accept : List Octet) : ℕ → ℕ → Prog (Option ℕ) := scan fun v => v ∈ accept

/-- The number of octets in front of the first zero, among `n` octets from `s` on. -/
def strlen : ℕ → ℕ → Prog ℕ
  | 0, _ => pure 0
  | n + 1, s => do
    let v ← octetAt s
    if v = 0 then pure 0
    else do
      let l ← strlen n (s + 1)
      pure (l + 1)

/-- Goes forwards while octets are left and have the property. The result is where it stops, and how
many are left. -/
def skipWhile (p : Octet → Bool) : ℕ → ℕ → Prog (ℕ × ℕ)
  | 0, s => pure (s, 0)
  | n + 1, s => do
    let v ← octetAt s
    if p v then sub (n + 1) 1 (skipWhile p n (s + 1)) else pure (s, n + 1)

/-- Goes backwards from the last index while the octets have the property, but not past the first one. -/
def stripWhile (p : Octet → Bool) (s : ℕ) : ℕ → Prog ℕ
  | 0 => pure 0
  | l + 1 => do
    let v ← octetAt (s + (l + 1))
    if p v then sub (l + 1) 1 (stripWhile p s l) else pure (l + 1)

/-! ## Single steps -/

@[simp] theorem run_octetAt (o : ℕ) (m : Mem) : (octetAt o).run m = (m o, m) := rfl

@[simp] theorem run_sub {α : Type} (a b : ℕ) (k : Prog α) (m : Mem) : (sub a b k).run m = k.run m := rfl

@[simp] theorem safe_octetAt {S : ℕ → Prop} {o : ℕ} {m : Mem} : Safe S (octetAt o) m ↔ S o := by
  simp [Safe, octetAt, trace, Action.Ok]

@[simp] theorem safe_sub {α : Type} {S : ℕ → Prop} {a b : ℕ} {k : Prog α} {m : Mem} :
    Safe S (sub a b k) m ↔ b ≤ a ∧ Safe S k m := by
  simp [Safe, trace, Action.Ok]

theorem safe_ite {α : Type} {S : ℕ → Prop} {c : Prop} [Decidable c] {p q : Prog α} {m : Mem} :
    Safe S (if c then p else q) m ↔ if c then Safe S p m else Safe S q m := by
  split <;> rfl

/-! ## The scans of the C library -/

section Scans
variable {c : Octet} {S : ℕ → Prop} {m : Mem}

theorem strlen_spec {L : ℕ} : ∀ {n s : ℕ}, (∀ i < L, m (s + i) ≠ 0) → m (s + L) = 0 → L < n →
    (strlen n s).run m = (L, m) ∧
      ((∀ o, s ≤ o → o ≤ s + L → S o) → Safe S (strlen n s) m) := by
  induction L with
  | zero =>
    intro n s _ hzero hn
    obtain ⟨n, rfl⟩ := Nat.exists_eq_succ_of_ne_zero (Nat.ne_of_gt hn)
    rw [Nat.add_zero] at hzero
    constructor
    · rw [strlen, run_bind, run_octetAt, hzero, if_pos rfl]
      rfl
    · intro hS
      rw [strlen, safe_bind, run_octetAt, hzero, if_pos rfl, safe_octetAt]
      exact ⟨hS s le_rfl (by omega), safe_pure _ _⟩
  | succ L ih =>
    intro n s hne hzero hn
    obtain ⟨n, rfl⟩ := Nat.exists_eq_succ_of_ne_zero (Nat.ne_of_gt (Nat.zero_lt_of_lt hn))
    have hs : m s ≠ 0 := hne 0 (Nat.succ_pos L)
    have hnext (i : ℕ) : s + 1 + i = s + (i + 1) := by omega
    obtain ⟨hrun, hsafe⟩ := @ih n (s + 1) (fun i hi => by rw [hnext]; exact hne _ (by omega))
      (by rwa [hnext]) (by omega)
    constructor
    · rw [strlen, run_bind, run_octetAt, if_neg hs, run_bind, hrun, run_pure]
    · intro hS
      rw [strlen, safe_bind, run_octetAt, if_neg hs, safe_octetAt, safe_bind]
      exact ⟨hS s le_rfl (by omega), hsafe fun o ho ho' => hS o (by omega) (by omega), safe_pure _ _⟩

/-- The scan reads on as long as it finds neither such an octet nor a zero. -/
theorem scan_step {p : Octet → Bool} {n s : ℕ} (hs : p (m s) = false ∧ m s ≠ 0) :
    (scan p (n + 1) s).run m = (scan p n (s + 1)).run m ∧
      (Safe S (scan p (n + 1) s) m ↔ S s ∧ Safe S (scan p n (s + 1)) m) := by
  have hp : ¬ p (m s) = true := by simp [hs.1]
  constructor
  · rw [scan, run_bind, run_octetAt, if_neg hp, if_neg hs.2]
  · rw [scan, safe_bind, run_octetAt, if_neg hp, if_neg hs.2, safe_octetAt]

theorem scan_spec {p : Octet → Bool} {j : ℕ} : ∀ {n s : ℕ},
    (∀ i < j, p (m (s + i)) = false ∧ m (s + i) ≠ 0) → j < n →
    p (m (s + j)) = true ∨ m (s + j) = 0 →
    (scan p n s).run m = (if p (m (s + j)) then some (s + j) else none, m) ∧
      (Safe S (scan p n s) m ↔ ∀ o, s ≤ o → o ≤ s + j → S o) := by
  induction j with
  | zero =>
    intro n s _ hn hend
    obtain ⟨n, rfl⟩ := Nat.exists_eq_succ_of_ne_zero (Nat.ne_of_gt hn)
    rw [Nat.add_zero] at hend ⊢
    have hone : S s ↔ ∀ o, s ≤ o → o ≤ s → S o :=
      ⟨fun h o ho ho' => le_antisymm ho ho' ▸ h, fun h => h s le_rfl le_rfl⟩
    rw [scan, run_bind, run_octetAt, safe_bind, run_octetAt, safe_octetAt, ← hone]
    by_cases hc : p (m s) = true
    · rw [if_pos hc, if_pos hc]
      exact ⟨rfl, and_iff_left (safe_pure _ _)⟩
    · rw [if_neg hc, if_neg hc, if_pos (hend.resolve_left hc)]
      exact ⟨rfl, and_iff_left (safe_pure _ _)⟩
  | succ j ih =>
    intro n s hne hn hend
    obtain ⟨n, rfl⟩ := Nat.exists_eq_succ_of_ne_zero (Nat.ne_of_gt (Nat.zero_lt_of_lt hn))
    have hnext (i : ℕ) : s + (i + 1) = s + 1 + i := by omega
    rw [hnext] at hend ⊢
    obtain ⟨hrun, hsafe⟩ := @ih n (s + 1) (fun i hi => by rw [← hnext]; exact hne _ (by omega))
      (by omega) hend
    have hs : p (m s) = false ∧ m s ≠ 0 := hne 0 (Nat.succ_pos j)
    obtain ⟨hrun', hsafe'⟩ := @scan_step S m p n s hs
    rw [hrun', hsafe', hsafe]
    refine ⟨hrun, fun h o ho ho' => ?_, fun h =>
      ⟨h s le_rfl (by omega), fun o ho ho' => h o (by omega) ho'⟩⟩
    by_cases hos : o = s
    · exact hos ▸ h.1
    · exact h.2 o (by omega) ho'

theorem strchr_eq (c : Octet) (n s : ℕ) : strchr c n s = scan (fun v => v = c) n s := by
  induction n generalizing s with
  | zero => rfl
  | succ n ih =>
    unfold strchr scan
    simp only [ih, decide_eq_true_eq]

theorem strchr_spec {j n s : ℕ} (hne : ∀ i < j, m (s + i) ≠ c ∧ m (s + i) ≠ 0) (hj : j < n)
    (hend : m (s + j) = c ∨ m (s + j) = 0) :
    (strchr c n s).run m = (if m (s + j) = c then some (s + j) else none, m) ∧
      (Safe S (strchr c n s) m ↔ ∀ o, s ≤ o → o ≤ s + j → S o) := by
  have hscan := @scan_spec S m (fun v => v = c) j n s
    (fun i hi => ⟨by simpa using (hne i hi).1, (hne i hi).2⟩) hj (by simpa using hend)
  rw [strchr_eq]
  simpa only [decide_eq_true_eq] using hscan

end Scans

/-! ## Going over characters of one kind -/

section Kinds
variable {p : Octet → Bool} {S : ℕ → Prop} {m : Mem}

theorem skipWhile_spec (n s : ℕ) : ∃ k ≤ n, (skipWhile p n s).run m = ((s + k, n - k), m) ∧
    (region m s n).dropWhile p = region m (s + k) (n - k) ∧ (k < n → p (m (s + k)) = false) ∧
    ((∀ o, s ≤ o → o < s + n → S o) → Safe S (skipWhile p n s) m) := by
  induction n generalizing s with
  | zero => exact ⟨0, le_rfl, rfl, rfl, fun h => absurd h (lt_irrefl 0), fun _ => safe_pure _ _⟩
  | succ n ih =>
    by_cases hp : p (m s) = true
    · obtain ⟨k, hk, hrun, hdrop, hstop, hsafe⟩ := ih (s + 1)
      have hpos : s + (k + 1) = s + 1 + k := by omega
      refine ⟨k + 1, by omega, ?_, ?_, ?_, ?_⟩
      · rw [skipWhile, run_bind, run_octetAt, if_pos hp, run_sub, hrun, hpos, Nat.add_sub_add_right]
      · rw [region, List.dropWhile_cons_of_pos hp, hdrop, hpos, Nat.add_sub_add_right]
      · rw [hpos]
        exact fun h => hstop (by omega)
      · intro hS
        rw [skipWhile, safe_bind, run_octetAt, if_pos hp, safe_octetAt, safe_sub]
        exact ⟨hS s le_rfl (by omega), by omega, hsafe fun o ho ho' => hS o (by omega) (by omega)⟩
    · refine ⟨0, Nat.zero_le _, ?_, ?_, fun _ => by simpa using hp, ?_⟩
      · rw [skipWhile, run_bind, run_octetAt, if_neg hp]
        rfl
      · rw [region, List.dropWhile_cons_of_neg hp]
        rfl
      · intro hS
        rw [skipWhile, safe_bind, run_octetAt, if_neg hp, safe_octetAt]
        exact ⟨hS s le_rfl (by omega), safe_pure _ _⟩

theorem region_succ (m : Mem) (s l : ℕ) : region m s (l + 1) = region m s l ++ [m (s + l)] := by
  rw [region_add]
  rfl

theorem stripWhile_spec (s l : ℕ) : ∃ l' ≤ l, (stripWhile p s l).run m = (l', m) ∧
    (p (m s) = false → (region m s (l + 1)).rdropWhile p = region m s (l' + 1)) ∧
    ((∀ o, s < o → o ≤ s + l → S o) → Safe S (stripWhile p s l) m) := by
  induction l with
  | zero =>
    refine ⟨0, le_rfl, rfl, fun hp => ?_, fun _ => safe_pure _ _⟩
    have hone : region m s (0 + 1) = [m s] := rfl
    rw [hone, List.rdropWhile_singleton, hp]
    rfl
  | succ l ih =>
    by_cases hp : p (m (s + (l + 1))) = true
    · obtain ⟨l', hl', hrun, hdrop, hsafe⟩ := ih
      refine ⟨l', by omega, ?_, fun hs => ?_, fun hS => ?_⟩
      · rw [stripWhile, run_bind, run_octetAt, if_pos hp, run_sub, hrun]
      · rw [region_succ, List.rdropWhile_concat_pos _ _ _ hp, hdrop hs]
      · rw [stripWhile, safe_bind, run_octetAt, if_pos hp, safe_octetAt, safe_sub]
        exact ⟨hS _ (by omega) le_rfl, by omega, hsafe fun o ho ho' => hS o ho (by omega)⟩
    · refine ⟨l + 1, le_rfl, ?_, fun _ => ?_, fun hS => ?_⟩
      · rw [stripWhile, run_bind, run_octetAt, if_neg hp, run_pure]
      · rw [region_succ m s (l + 1), List.rdropWhile_concat_neg _ _ _ hp]
      · rw [stripWhile, safe_bind, run_octetAt, if_neg hp, safe_octetAt]
        exact ⟨hS _ (by omega) le_rfl, safe_pure _ _⟩

end Kinds

end Prog
end Octets

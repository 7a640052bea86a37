import Csptp.Octets.Memory

/-! # Programs over octet memory

A `Prog` reads and writes single octets and subtracts unsigned sizes. `run` executes it, `trace`
lists what it did: the offsets it touched and the operands of its subtractions. Two facts hold of
every program: it changes only what it touches (`run_frame`), and what it returns is determined by
what it touches (`run_congr`). `Safe S p m` bounds the trace; it splits over `bind`. -/
namespace Octets
set_option autoImplicit false

/-- A program that accesses memory one octet at a time. -/
inductive Prog (α : Type) : Type
  | ret (a : α)
  | read (o : ℕ) (k : Octet → Prog α)
  | write (o : ℕ) (v : Octet) (k : Prog α)
  /-- An unsigned subtraction `a - b`; its result goes to the continuation by other means. -/
  | sub (a b : ℕ) (k : Prog α)

namespace Prog

def bind {α β : Type} : Prog α → (α → Prog β) → Prog β
  | ret a, f => f a
  | read o k, f => read o fun v => (k v).bind f
  | write o v k, f => write o v (k.bind f)
  | sub a b k, f => sub a b (k.bind f)

instance : Monad Prog where
  pure := ret
  bind := bind

/-- The value a program returns and the memory it leaves. -/
def run {α : Type} : Prog α → Mem → α × Mem
  | ret a, m => (a, m)
  | read o k, m => (k (m o)).run m
  | write o v k, m => k.run (blit m o [v])
  | sub _ _ k, m => k.run m

/-- One recorded action. -/
inductive Action
  | octet (o : ℕ)
  | sub (a b : ℕ)
deriving DecidableEq

/-- What a program does on a memory, in order. -/
def trace {α : Type} : Prog α → Mem → List Action
  | ret _, _ => []
  | read o k, m => .octet o :: (k (m o)).trace m
  | write o v k, m => .octet o :: k.trace (blit m o [v])
  | sub a b k, m => .sub a b :: k.trace m

/-- The program reads or writes the octet at `o`. -/
def Touches {α : Type} (p : Prog α) (m : Mem) (o : ℕ) : Prop := .octet o ∈ p.trace m

/-! ## Running -/

@[simp] theorem run_ret {α : Type} (a : α) (m : Mem) : (ret a).run m = (a, m) := rfl

@[simp] theorem run_pure {α : Type} (a : α) (m : Mem) : (pure a : Prog α).run m = (a, m) := rfl

@[simp] theorem run_bind {α β : Type} (p : Prog α) (f : α → Prog β) (m : Mem) :
    (p >>= f).run m = (f (p.run m).1).run (p.run m).2 := by
  change (p.bind f).run m = _
  induction p generalizing m with
  | ret a => rfl
  | read o k ih => exact ih (m o) m
  | write o v k ih => exact ih _
  | sub a b k ih => exact ih m

@[simp] theorem run_ite {α : Type} (c : Prop) [Decidable c] (p q : Prog α) (m : Mem) :
    (if c then p else q).run m = if c then p.run m else q.run m := by
  split <;> rfl

theorem trace_bind {α β : Type} (p : Prog α) (f : α → Prog β) (m : Mem) :
    (p >>= f).trace m = p.trace m ++ (f (p.run m).1).trace (p.run m).2 := by
  change (p.bind f).trace m = _
  induction p generalizing m with
  | ret a => rfl
  | read o k ih => exact congrArg _ (ih (m o) m)
  | write o v k ih => exact congrArg _ (ih _)
  | sub a b k ih => exact congrArg _ (ih m)

/-! ## What a program touches is all that matters -/

theorem run_frame {α : Type} {p : Prog α} {m : Mem} {o : ℕ} (h : ¬ p.Touches m o) :
    (p.run m).2 o = m o := by
  induction p generalizing m with
  | ret a => rfl
  | read o' k ih => exact ih _ fun ht => h (List.mem_cons_of_mem _ ht)
  | write o' v k ih =>
    have hne : o ≠ o' := fun he => h (by simp [Touches, trace, he])
    have hk := ih (m := blit m o' [v]) fun ht => h (List.mem_cons_of_mem _ ht)
    exact hk.trans (blit_of_not_mem (by simp; omega))
  | sub a b k ih => exact ih fun ht => h (List.mem_cons_of_mem _ ht)

/-- On two memories that agree on a set which contains every touched offset, a program does the
same, returns the same and leaves memories that agree on the set. -/
theorem run_congr {α : Type} {S : ℕ → Prop} {p : Prog α} {m n : Mem}
    (ht : ∀ o, p.Touches m o → S o) (he : ∀ o, S o → m o = n o) :
    (p.run n).1 = (p.run m).1 ∧ p.trace n = p.trace m ∧
      ∀ o, S o → (p.run m).2 o = (p.run n).2 o := by
  induction p generalizing m n with
  | ret a => exact ⟨rfl, rfl, he⟩
  | read o k ih =>
    have ho : m o = n o := he o (ht o (List.mem_cons_self ..))
    have hk := ih (m o) (m := m) (n := n) (fun x hx => ht x (List.mem_cons_of_mem _ hx)) he
    simp only [run, trace, ← ho]
    exact ⟨hk.1, by rw [hk.2.1], hk.2.2⟩
  | write o v k ih =>
    have hk := ih (m := blit m o [v]) (n := blit n o [v])
      (fun x hx => ht x (List.mem_cons_of_mem _ hx)) (fun x hx => by
        unfold blit
        rw [he x hx])
    exact ⟨hk.1, congrArg (List.cons _) hk.2.1, hk.2.2⟩
  | sub a b k ih =>
    have hk := ih (m := m) (n := n) (fun x hx => ht x (List.mem_cons_of_mem _ hx)) he
    exact ⟨hk.1, congrArg (List.cons _) hk.2.1, hk.2.2⟩

/-! ## Bounds on what a program does -/

/-- An access lies in `S`; a subtraction does not go below zero. -/
def Action.Ok (S : ℕ → Prop) : Action → Prop
  | .octet o => S o
  | .sub a b => b ≤ a

instance (S : ℕ → Prop) [DecidablePred S] : DecidablePred (Action.Ok S)
  | .octet o => inferInstanceAs (Decidable (S o))
  | .sub a b => inferInstanceAs (Decidable (b ≤ a))

/-- Every access of the program lies in `S` and none of its subtractions wraps. -/
def Safe {α : Type} (S : ℕ → Prop) (p : Prog α) (m : Mem) : Prop := ∀ e ∈ p.trace m, e.Ok S

theorem Safe.touches {α : Type} {S : ℕ → Prop} {p : Prog α} {m : Mem} (h : Safe S p m) :
    ∀ o, p.Touches m o → S o := fun _ ho => h _ ho

theorem safe_pure {α : Type} {S : ℕ → Prop} (a : α) (m : Mem) : Safe S (pure a : Prog α) m := by
  intro e he
  exact absurd he (List.not_mem_nil)

theorem safe_bind {α β : Type} {S : ℕ → Prop} {p : Prog α} {f : α → Prog β} {m : Mem} :
    Safe S (p >>= f) m ↔ Safe S p m ∧ Safe S (f (p.run m).1) (p.run m).2 := by
  simp only [Safe, trace_bind, List.mem_append]
  exact ⟨fun h => ⟨fun e he => h e (.inl he), fun e he => h e (.inr he)⟩,
    fun h e he => he.elim (h.1 e) (h.2 e)⟩

/-! ## Octet lists and words -/

/-- Reads `n` octets. -/
def loadOctets : ℕ → ℕ → Prog (List Octet)
  | _, 0 => ret []
  | o, n + 1 => read o fun v => (loadOctets (o + 1) n).bind fun l => ret (v :: l)

/-- Writes a list of octets. -/
def storeOctets : ℕ → List Octet → Prog Unit
  | _, [] => ret ()
  | o, v :: l => write o v (storeOctets (o + 1) l)

/-- Reads a word in the host's order. -/
def load (w o : ℕ) : Prog (BitVec w) := do
  let l ← loadOctets o (w / 8)
  pure (ofOctets w l)

/-- Writes a word in the host's order. -/
def store {w : ℕ} (o : ℕ) (v : BitVec w) : Prog Unit := storeOctets o (octets v)

/-- Sets `n` octets to one value, as the C library's `memset` does. -/
def memset (o : ℕ) (v : Octet) (n : ℕ) : Prog Unit := storeOctets o (List.replicate n v)

/-- Reverses the octets of the word at `o` in place. -/
def swapAt (w o : ℕ) : Prog (BitVec w) := do
  let v ← load w o
  store o (swap v)
  pure (swap v)

/-- An unsigned 64-bit increment. -/
def succSize (a : ℕ) : ℕ := (a + 1) % 2 ^ 64

theorem succSize_of_lt {a : ℕ} (h : a + 1 < 2 ^ 64) : succSize a = a + 1 := Nat.mod_eq_of_lt h

/-- An unsigned 64-bit subtraction. -/
def subSize (a b : ℕ) : Prog ℕ := sub a b (ret ((a + 2 ^ 64 - b) % 2 ^ 64))

@[simp] theorem run_loadOctets (o n : ℕ) (m : Mem) : (loadOctets o n).run m = (region m o n, m) := by
  induction n generalizing o with
  | zero => rfl
  | succ n ih =>
    have hb := run_bind (loadOctets (o + 1) n) (fun l => ret (m o :: l)) m
    rw [ih] at hb
    exact hb

@[simp] theorem run_storeOctets (o : ℕ) (l : List Octet) (m : Mem) :
    (storeOctets o l).run m = ((), blit m o l) := by
  induction l generalizing o m with
  | nil => simp [storeOctets]
  | cons v l ih =>
    change (storeOctets (o + 1) l).run (blit m o [v]) = _
    rw [ih, show o + 1 = o + [v].length from rfl, blit_append, List.singleton_append]

@[simp] theorem run_load (w o : ℕ) (m : Mem) :
    (load w o).run m = (ofOctets w (region m o (w / 8)), m) := by
  simp [load]

@[simp] theorem run_store {w : ℕ} (o : ℕ) (v : BitVec w) (m : Mem) :
    (store o v).run m = ((), blit m o (octets v)) := by
  simp [store]

@[simp] theorem run_memset (o : ℕ) (v : Octet) (n : ℕ) (m : Mem) :
    (memset o v n).run m = ((), blit m o (List.replicate n v)) := by
  simp [memset]

theorem run_subSize {a b : ℕ} (hb : b ≤ a) (ha : a < 2 ^ 64) (m : Mem) :
    (subSize a b).run m = (a - b, m) := by
  have he : (a + 2 ^ 64 - b) % 2 ^ 64 = a - b := by
    rw [show a + 2 ^ 64 - b = (a - b) + 2 ^ 64 by omega, Nat.add_mod_right]
    exact Nat.mod_eq_of_lt (by omega)
  change ((a + 2 ^ 64 - b) % 2 ^ 64, m) = _
  rw [he]

theorem run_subSize_lt (a b : ℕ) (m : Mem) : ((subSize a b).run m).1 < 2 ^ 64 := by
  change (a + 2 ^ 64 - b) % 2 ^ 64 < _
  exact Nat.mod_lt _ (by norm_num)

theorem safe_loadOctets {S : ℕ → Prop} {o n : ℕ} {m : Mem} :
    Safe S (loadOctets o n) m ↔ ∀ a, o ≤ a → a < o + n → S a := by
  induction n generalizing o with
  | zero => exact ⟨fun _ a h h' => by omega, fun _ e he => absurd he List.not_mem_nil⟩
  | succ n ih =>
    have hsplit : Safe S (loadOctets o (n + 1)) m ↔ S o ∧ Safe S (loadOctets (o + 1) n) m := by
      have htr := trace_bind (loadOctets (o + 1) n) (fun l => ret (m o :: l)) m
      have he : (loadOctets o (n + 1)).trace m = .octet o :: (loadOctets (o + 1) n).trace m := by
        refine congrArg _ (htr.trans ?_)
        exact List.append_nil _
      simp only [Safe, he, List.forall_mem_cons, Action.Ok]
    rw [hsplit, ih]
    refine ⟨fun h a ha hb => ?_, fun h =>
      ⟨h o (le_refl o) (by omega), fun a ha hb => h a (by omega) (by omega)⟩⟩
    by_cases hao : a = o
    · exact hao ▸ h.1
    · exact h.2 a (by omega) (by omega)

theorem safe_storeOctets {S : ℕ → Prop} {o : ℕ} {l : List Octet} {m : Mem} :
    Safe S (storeOctets o l) m ↔ ∀ a, o ≤ a → a < o + l.length → S a := by
  induction l generalizing o m with
  | nil => exact ⟨fun _ a h h' => by simp at h'; omega, fun _ e he => absurd he List.not_mem_nil⟩
  | cons v l ih =>
    have hsplit : Safe S (storeOctets o (v :: l)) m ↔
        S o ∧ Safe S (storeOctets (o + 1) l) (blit m o [v]) := by
      simp only [Safe, storeOctets, trace, List.forall_mem_cons, Action.Ok]
    rw [hsplit, ih, List.length_cons]
    refine ⟨fun h a ha hb => ?_, fun h =>
      ⟨h o (le_refl o) (by omega), fun a ha hb => h a (by omega) (by omega)⟩⟩
    by_cases hao : a = o
    · exact hao ▸ h.1
    · exact h.2 a (by omega) (by omega)

@[simp] theorem safe_load {S : ℕ → Prop} {w o : ℕ} {m : Mem} :
    Safe S (load w o) m ↔ ∀ a, o ≤ a → a < o + w / 8 → S a := by
  rw [load, safe_bind, safe_loadOctets]
  exact and_iff_left (safe_pure _ _)

@[simp] theorem safe_store {S : ℕ → Prop} {w o : ℕ} {v : BitVec w} {m : Mem} :
    Safe S (store o v) m ↔ ∀ a, o ≤ a → a < o + w / 8 → S a := by
  rw [store, safe_storeOctets, octets_length]

@[simp] theorem safe_swapAt {S : ℕ → Prop} {w o : ℕ} {m : Mem} :
    Safe S (swapAt w o) m ↔ ∀ a, o ≤ a → a < o + w / 8 → S a := by
  rw [swapAt, safe_bind, safe_bind, safe_load, safe_store]
  exact ⟨fun h => h.1, fun h => ⟨h, h, safe_pure _ _⟩⟩

@[simp] theorem safe_subSize {S : ℕ → Prop} {a b : ℕ} {m : Mem} :
    Safe S (subSize a b) m ↔ b ≤ a := by
  simp [Safe, subSize, trace, Action.Ok]

/-! ## Programs that are safe on every memory -/

/-- The program is safe whatever the memory holds. -/
def Within {α : Type} (S : ℕ → Prop) (p : Prog α) : Prop := ∀ m, Safe S p m

theorem within_pure {α : Type} {S : ℕ → Prop} (a : α) : Within S (pure a : Prog α) :=
  fun m => safe_pure a m

theorem Within.bind {α β : Type} {S : ℕ → Prop} {p : Prog α} {f : α → Prog β} (hp : Within S p)
    (hf : ∀ a, Within S (f a)) : Within S (p >>= f) :=
  fun m => safe_bind.mpr ⟨hp m, hf _ _⟩

theorem Within.ite {α : Type} {S : ℕ → Prop} {c : Prop} [Decidable c] {p q : Prog α}
    (hp : c → Within S p) (hq : ¬ c → Within S q) : Within S (if c then p else q) := by
  split
  · exact hp ‹_›
  · exact hq ‹_›

theorem within_load {S : ℕ → Prop} {w o : ℕ} (h : ∀ a, o ≤ a → a < o + w / 8 → S a) :
    Within S (load w o) := fun _ => safe_load.mpr h

theorem within_loadOctets {S : ℕ → Prop} {o n : ℕ} (h : ∀ a, o ≤ a → a < o + n → S a) :
    Within S (loadOctets o n) := fun _ => safe_loadOctets.mpr h

theorem within_store {S : ℕ → Prop} {w o : ℕ} {v : BitVec w}
    (h : ∀ a, o ≤ a → a < o + w / 8 → S a) : Within S (store o v) := fun _ => safe_store.mpr h

theorem within_swapAt {S : ℕ → Prop} {w o : ℕ} (h : ∀ a, o ≤ a → a < o + w / 8 → S a) :
    Within S (swapAt w o) := fun _ => safe_swapAt.mpr h

/-! ## What programs return -/

/-- Whatever the memory holds, the result has the property. -/
structure Returns {α : Type} (P : α → Prop) (p : Prog α) : Prop where
  result : ∀ m, P (p.run m).1

theorem returns_pure {α : Type} {P : α → Prop} {a : α} (h : P a) : Returns P (pure a : Prog α) :=
  ⟨fun _ => h⟩

theorem Returns.bind {α β : Type} {P : α → Prop} {Q : β → Prop} {p : Prog α} {f : α → Prog β}
    (hp : Returns P p) (hf : ∀ a, P a → Returns Q (f a)) : Returns Q (p >>= f) := by
  constructor
  intro m
  rw [run_bind]
  exact (hf _ (hp.result m)).result _

/-- Nothing is known about the first result. -/
theorem returns_bind {α β : Type} {Q : β → Prop} {p : Prog α} {f : α → Prog β}
    (hf : ∀ a, Returns Q (f a)) : Returns Q (p >>= f) :=
  Returns.bind (P := fun _ => True) ⟨fun _ => trivial⟩ fun a _ => hf a

theorem Returns.ite {α : Type} {P : α → Prop} {c : Prop} [Decidable c] {p q : Prog α}
    (hp : c → Returns P p) (hq : ¬ c → Returns P q) : Returns P (if c then p else q) := by
  split
  · exact hp ‹_›
  · exact hq ‹_›

theorem returns_loadOctets (o n : ℕ) : Returns (fun l => l.length = n) (loadOctets o n) := by
  constructor
  intro m
  rw [run_loadOctets, region_length]

/-! ## Words whose octets are known -/

/-- What the swap leaves does not depend on the value. -/
theorem run_swapAt {w : ℕ} (hw : w % 8 = 0) (o : ℕ) (m : Mem) :
    (swapAt w o).run m = (swap (ofOctets w (region m o (w / 8))), reverseAt m o (w / 8)) := by
  have ho : octets (ofOctets w (region m o (w / 8))) = region m o (w / 8) :=
    octets_ofOctets _ (by rw [region_length]; omega)
  simp only [swapAt, run_bind, run_load, run_store, run_pure, octets_swap _ hw, ho, reverseAt]

theorem swap_region_of_net {w o : ℕ} {v : BitVec w} {m : Mem} (hw : w % 8 = 0)
    (h : Holds m o (inOrder .net v)) : swap (ofOctets w (region m o (w / 8))) = v := by
  rw [Holds, inOrder_length] at h
  rw [h, swap_ofOctets_net v hw]

theorem ofOctets_region_of_host {w o : ℕ} {v : BitVec w} {m : Mem} (hw : w % 8 = 0)
    (h : Holds m o (inOrder .host v)) : ofOctets w (region m o (w / 8)) = v := by
  rw [Holds, inOrder_length] at h
  rw [h, ofOctets_host v hw]

theorem ofOctets_region_octet {o : ℕ} {v : Octet} {m : Mem} (h : Holds m o [v]) :
    ofOctets 8 (region m o 1) = v := by
  have hr : region m o 1 = [v] := h
  rw [hr, ← octets_octet v, ofOctets_octets v rfl]

theorem blit_other {w o : ℕ} {b : ByteOrder} {v : BitVec w} {m : Mem} (h : Holds m o (inOrder b v)) :
    blit m o (inOrder b.other v) = reverseAt m o (w / 8) := by
  rw [Holds, inOrder_length] at h
  rw [reverseAt, h, inOrder_reverse]

end Prog
end Octets

import Csptp.Octets.Words

/-! # Octet memory

A memory gives an octet to every offset. `blit` overwrites a range with a list, `region` reads one
back, and `Holds m o l` says that the list `l` lies at offset `o`. A contiguous list splits into its
fields by `holds_append`, and `eq_blit` turns an equality of memories into one `Holds` fact and one
frame fact. -/
namespace Octets
set_option autoImplicit false

/-- The octet at each offset. -/
abbrev Mem := ℕ → Octet

/-- The `n` octets from offset `o` on. -/
def region (m : Mem) : ℕ → ℕ → List Octet
  | _, 0 => []
  | o, n + 1 => m o :: region m (o + 1) n

/-- The memory with the list `l` written at offset `o`. -/
def blit (m : Mem) (o : ℕ) (l : List Octet) : Mem := fun a =>
  if o ≤ a ∧ a < o + l.length then l.getD (a - o) 0 else m a

/-- The list `l` lies at offset `o`. -/
def Holds (m : Mem) (o : ℕ) (l : List Octet) : Prop := region m o l.length = l

/-! ## Regions -/

@[simp] theorem region_length (m : Mem) (o n : ℕ) : (region m o n).length = n := by
  induction n generalizing o with
  | zero => rfl
  | succ n ih => simp [region, ih]

@[simp] theorem region_zero (m : Mem) (o : ℕ) : region m o 0 = [] := rfl

theorem region_add (m : Mem) (o a b : ℕ) :
    region m o (a + b) = region m o a ++ region m (o + a) b := by
  induction a generalizing o with
  | zero => simp
  | succ a ih =>
    rw [show a + 1 + b = (a + b) + 1 by omega, region, region, ih, List.cons_append,
      show o + 1 + a = o + (a + 1) by omega]

theorem region_getElem (m : Mem) (o n i : ℕ) (h : i < (region m o n).length) :
    (region m o n)[i] = m (o + i) := by
  induction n generalizing o i with
  | zero => simp at h
  | succ n ih =>
    cases i with
    | zero => simp [region]
    | succ i =>
      simp only [region, List.getElem_cons_succ]
      rw [ih, show o + 1 + i = o + (i + 1) by omega]

theorem region_congr {m m' : Mem} {o n : ℕ} (h : ∀ a, o ≤ a → a < o + n → m a = m' a) :
    region m o n = region m' o n := by
  apply List.ext_getElem (by simp)
  intro i hi hi'
  rw [region_getElem, region_getElem]
  rw [region_length] at hi
  exact h _ (by omega) (by omega)

theorem region_eq_iff {m m' : Mem} {o n : ℕ} :
    region m o n = region m' o n ↔ ∀ a, o ≤ a → a < o + n → m a = m' a := by
  refine ⟨fun h a ha hb => ?_, region_congr⟩
  have hi : a - o < (region m o n).length := by simp; omega
  have hi' : a - o < (region m' o n).length := by simp; omega
  have he : (region m o n)[a - o] = (region m' o n)[a - o] := by simp only [h]
  rw [region_getElem, region_getElem, show o + (a - o) = a by omega] at he
  exact he

/-! ## Writing -/

theorem blit_of_mem {m : Mem} {o a : ℕ} {l : List Octet} (h : o ≤ a) (h' : a < o + l.length) :
    blit m o l a = l.getD (a - o) 0 := if_pos ⟨h, h'⟩

theorem blit_of_not_mem {m : Mem} {o a : ℕ} {l : List Octet} (h : a < o ∨ o + l.length ≤ a) :
    blit m o l a = m a := if_neg (by omega)

-- unification would compare two memories octet by octet
attribute [irreducible] blit

@[simp] theorem blit_nil (m : Mem) (o : ℕ) : blit m o [] = m := by
  funext a
  exact blit_of_not_mem (by simp; omega)

theorem region_blit_self (m : Mem) (o : ℕ) (l : List Octet) :
    region (blit m o l) o l.length = l := by
  apply List.ext_getElem (by simp)
  intro i hi hi'
  rw [region_getElem, blit_of_mem (by omega) (by omega), Nat.add_sub_cancel_left,
    List.getD_eq_getElem?_getD, List.getElem?_eq_getElem hi', Option.getD_some]

theorem region_blit_of_disjoint {m : Mem} {o o' n : ℕ} {l : List Octet}
    (h : o + l.length ≤ o' ∨ o' + n ≤ o) : region (blit m o l) o' n = region m o' n :=
  region_congr fun a ha hb => blit_of_not_mem (by omega)

/-- Only the octets of a range matter to a list written over all of it. -/
theorem blit_congr {m m' : Mem} {o : ℕ} {l : List Octet}
    (h : ∀ a, a < o ∨ o + l.length ≤ a → m a = m' a) : blit m o l = blit m' o l := by
  funext a
  by_cases ha : o ≤ a ∧ a < o + l.length
  · rw [blit_of_mem ha.1 ha.2, blit_of_mem ha.1 ha.2]
  · rw [blit_of_not_mem (by omega), blit_of_not_mem (by omega)]
    exact h a (by omega)

/-! ## Lists in memory -/

theorem holds_nil (m : Mem) (o : ℕ) : Holds m o [] := rfl

theorem holds_region (m : Mem) (o n : ℕ) : Holds m o (region m o n) := by
  rw [Holds, region_length]

theorem holds_blit (m : Mem) (o : ℕ) (l : List Octet) : Holds (blit m o l) o l :=
  region_blit_self m o l

theorem holds_append {m : Mem} {o : ℕ} {a b : List Octet} :
    Holds m o (a ++ b) ↔ Holds m o a ∧ Holds m (o + a.length) b := by
  unfold Holds
  rw [List.length_append, region_add]
  refine ⟨fun h => ?_, fun h => by rw [h.1, h.2]⟩
  exact List.append_inj h (by simp)

theorem holds_cons {m : Mem} {o : ℕ} {x : Octet} {l : List Octet} :
    Holds m o (x :: l) ↔ m o = x ∧ Holds m (o + 1) l := by
  simp [Holds, region]

theorem Holds.congr {m m' : Mem} {o : ℕ} {l : List Octet} (h : Holds m o l)
    (he : ∀ a, o ≤ a → a < o + l.length → m' a = m a) : Holds m' o l := by
  rw [Holds, region_congr he]
  exact h

theorem Holds.blit_of_disjoint {m : Mem} {o o' : ℕ} {l l' : List Octet} (h : Holds m o l)
    (hd : o' + l'.length ≤ o ∨ o + l.length ≤ o') : Holds (blit m o' l') o l := by
  rw [Holds, region_blit_of_disjoint hd]
  exact h

theorem holds_blit_of_disjoint {m : Mem} {o o' : ℕ} {l l' : List Octet}
    (hd : o' + l'.length ≤ o ∨ o + l.length ≤ o') : Holds (blit m o' l') o l ↔ Holds m o l := by
  rw [Holds, region_blit_of_disjoint hd, Holds]

/-- Writing what already lies there changes nothing. -/
theorem Holds.blit_eq {m : Mem} {o : ℕ} {l : List Octet} (h : Holds m o l) : blit m o l = m := by
  funext a
  by_cases ha : o ≤ a ∧ a < o + l.length
  · have hself := region_eq_iff.mp ((region_blit_self m o l).trans h.symm)
    exact hself a ha.1 ha.2
  · exact blit_of_not_mem (by omega)

/-- A memory is a known list over the rest of another one. -/
theorem eq_blit {m m' : Mem} {o : ℕ} {l : List Octet} (h : Holds m' o l)
    (hf : ∀ a, a < o ∨ o + l.length ≤ a → m' a = m a) : m' = blit m o l := by
  rw [← h.blit_eq]
  exact blit_congr hf

theorem blit_blit (m : Mem) (o : ℕ) {l l' : List Octet} (h : l.length = l'.length) :
    blit (blit m o l) o l' = blit m o l' :=
  blit_congr fun _ ha => blit_of_not_mem (by omega)

theorem blit_append (m : Mem) (o : ℕ) (a b : List Octet) :
    blit (blit m o a) (o + a.length) b = blit m o (a ++ b) := by
  apply eq_blit
  · rw [holds_append]
    exact ⟨(holds_blit m o a).blit_of_disjoint (by omega), holds_blit _ _ b⟩
  · intro x hx
    rw [List.length_append] at hx
    rw [blit_of_not_mem (by omega), blit_of_not_mem (by omega)]

theorem blit_append_of_eq {m : Mem} {o o' : ℕ} {a b : List Octet} (h : o' = o + a.length) :
    blit (blit m o a) o' b = blit m o (a ++ b) := by
  rw [h, blit_append]

/-! ## Reversing a field in place -/

/-- The memory with the `n` octets at `o` in reverse order. -/
def reverseAt (m : Mem) (o n : ℕ) : Mem := blit m o (region m o n).reverse

theorem reverseAt_of_not_mem {m : Mem} {o n a : ℕ} (h : a < o ∨ o + n ≤ a) :
    reverseAt m o n a = m a :=
  blit_of_not_mem (by rw [List.length_reverse, region_length]; exact h)

theorem reverseAt_of_mem {m : Mem} {o n a : ℕ} (h : o ≤ a) (h' : a < o + n) :
    reverseAt m o n a = m (o + (o + n - 1 - a)) := by
  have hlen : a - o < (region m o n).reverse.length := by
    rw [List.length_reverse, region_length]
    omega
  rw [reverseAt, blit_of_mem h (by rw [List.length_reverse, region_length]; exact h'),
    List.getD_eq_getElem?_getD, List.getElem?_eq_getElem hlen, Option.getD_some,
    List.getElem_reverse, region_getElem, region_length]
  congr 1
  omega

theorem region_reverseAt_of_disjoint {m : Mem} {o n o' n' : ℕ} (h : o + n ≤ o' ∨ o' + n' ≤ o) :
    region (reverseAt m o n) o' n' = region m o' n' :=
  region_congr fun _ _ _ => reverseAt_of_not_mem (by omega)

theorem region_reverseAt_self (m : Mem) (o n : ℕ) :
    region (reverseAt m o n) o n = (region m o n).reverse := by
  have h := region_blit_self m o (region m o n).reverse
  rwa [List.length_reverse, region_length] at h

theorem holds_reverseAt_of_disjoint {m : Mem} {o n o' : ℕ} {l : List Octet}
    (h : o + n ≤ o' ∨ o' + l.length ≤ o) : Holds (reverseAt m o n) o' l ↔ Holds m o' l := by
  rw [Holds, region_reverseAt_of_disjoint h, Holds]

theorem holds_reverseAt_self {m : Mem} {o n : ℕ} {l : List Octet} (h : l.length = n) :
    Holds (reverseAt m o n) o l ↔ Holds m o l.reverse := by
  rw [Holds, Holds, List.length_reverse, h, region_reverseAt_self]
  exact List.reverse_eq_iff

end Octets

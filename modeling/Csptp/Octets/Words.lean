import Mathlib.Tactic.Ring
import Mathlib.Tactic.Linarith

/-! # Machine words as octet lists

A word of `w` bits lies in memory as `w / 8` octets. `leVal` and `leOctets` read and write a number
lowest octet first; `octets` and `ofOctets` are the same for words, which is how a little-endian host
keeps them, and `swap` is the byte swap between that order and network order. -/
namespace Octets
set_option autoImplicit false

/-- One octet. -/
abbrev Octet := BitVec 8

/-! ## Numbers -/

/-- The value of an octet list, lowest octet first. -/
def leVal : List Octet → ℕ
  | [] => 0
  | b :: l => b.toNat + 256 * leVal l

/-- The `n` low octets of a number, lowest first. -/
def leOctets : ℕ → ℕ → List Octet
  | 0, _ => []
  | n + 1, v => BitVec.ofNat 8 v :: leOctets n (v / 256)

@[simp] theorem leOctets_length (n v : ℕ) : (leOctets n v).length = n := by
  induction n generalizing v with
  | zero => rfl
  | succ n ih => simp [leOctets, ih]

theorem leVal_lt (l : List Octet) : leVal l < 256 ^ l.length := by
  induction l with
  | nil => simp [leVal]
  | cons b l ih =>
    have hb : b.toNat < 256 := b.isLt
    simp only [leVal, List.length_cons, pow_succ]
    omega

theorem leVal_leOctets (n v : ℕ) : leVal (leOctets n v) = v % 256 ^ n := by
  induction n generalizing v with
  | zero => simp [leOctets, leVal, Nat.mod_one]
  | succ n ih =>
    have h8 : (BitVec.ofNat 8 v).toNat = v % 256 := by simp
    simp only [leOctets, leVal, h8, ih]
    rw [pow_succ, Nat.mul_comm (256 ^ n) 256, Nat.mod_mul]

theorem leOctets_leVal (l : List Octet) : leOctets l.length (leVal l) = l := by
  induction l with
  | nil => rfl
  | cons b l ih =>
    have hb : b.toNat < 256 := b.isLt
    have hhead : BitVec.ofNat 8 (b.toNat + 256 * leVal l) = b := by
      apply BitVec.eq_of_toNat_eq
      rw [BitVec.toNat_ofNat]
      omega
    have htail : (b.toNat + 256 * leVal l) / 256 = leVal l := by omega
    rw [List.length_cons, leVal, leOctets, hhead, htail, ih]

theorem leOctets_add (a b v : ℕ) : leOctets (a + b) v = leOctets a v ++ leOctets b (v / 256 ^ a) := by
  induction a generalizing v with
  | zero => simp [leOctets]
  | succ a ih =>
    rw [Nat.succ_add, leOctets, leOctets, ih, List.cons_append, Nat.div_div_eq_div_mul,
      ← pow_succ']

theorem leOctets_mod (n v : ℕ) : leOctets n (v % 256 ^ n) = leOctets n v := by
  rw [← leVal_leOctets]
  have h := leOctets_leVal (leOctets n v)
  rwa [leOctets_length] at h

/-! ## Numbers with the highest octet first -/

/-- The value of an octet list, highest octet first. -/
def beVal (l : List Octet) : ℕ := leVal l.reverse

/-- The `n` low octets of a number, highest first. -/
def beOctets (n v : ℕ) : List Octet := (leOctets n v).reverse

@[simp] theorem beOctets_length (n v : ℕ) : (beOctets n v).length = n := by
  rw [beOctets, List.length_reverse, leOctets_length]

theorem beOctets_mod (n v : ℕ) : beOctets n (v % 256 ^ n) = beOctets n v := by
  rw [beOctets, leOctets_mod, beOctets]

theorem beVal_beOctets (n v : ℕ) : beVal (beOctets n v) = v % 256 ^ n := by
  rw [beVal, beOctets, List.reverse_reverse, leVal_leOctets]

/-- The higher octets come first. -/
theorem beOctets_add (a b v : ℕ) : beOctets (a + b) v = beOctets a (v / 256 ^ b) ++ beOctets b v := by
  rw [Nat.add_comm a b, beOctets, leOctets_add, List.reverse_append, beOctets, beOctets]

/-! ## Words -/

/-- The octets of a word as a little-endian host keeps them. -/
def octets {w : ℕ} (v : BitVec w) : List Octet := leOctets (w / 8) v.toNat

/-- The word that a little-endian host reads from these octets. -/
def ofOctets (w : ℕ) (l : List Octet) : BitVec w := BitVec.ofNat w (leVal l)

/-- The byte swap of a word. -/
def swap {w : ℕ} (v : BitVec w) : BitVec w := ofOctets w (octets v).reverse

@[simp] theorem octets_length {w : ℕ} (v : BitVec w) : (octets v).length = w / 8 :=
  leOctets_length _ _

theorem two_pow_eq {w : ℕ} (h : w % 8 = 0) : 2 ^ w = 256 ^ (w / 8) := by
  have hw : w = 8 * (w / 8) := by omega
  conv_lhs => rw [hw, pow_mul]
  norm_num

theorem ofOctets_octets {w : ℕ} (v : BitVec w) (h : w % 8 = 0) : ofOctets w (octets v) = v := by
  apply BitVec.eq_of_toNat_eq
  rw [ofOctets, octets, leVal_leOctets, BitVec.toNat_ofNat, ← two_pow_eq h, Nat.mod_mod,
    Nat.mod_eq_of_lt v.isLt]

theorem octets_ofOctets {w : ℕ} (l : List Octet) (h : 8 * l.length = w) :
    octets (ofOctets w l) = l := by
  have hlt : leVal l < 2 ^ w := by
    have hw : w / 8 = l.length := by omega
    rw [two_pow_eq (by omega), hw]
    exact leVal_lt l
  rw [octets, ofOctets, BitVec.toNat_ofNat, Nat.mod_eq_of_lt hlt,
    show w / 8 = l.length by omega, leOctets_leVal]

theorem octets_swap {w : ℕ} (v : BitVec w) (h : w % 8 = 0) : octets (swap v) = (octets v).reverse :=
  octets_ofOctets _ (by rw [List.length_reverse, octets_length]; omega)

theorem swap_swap {w : ℕ} (v : BitVec w) (h : w % 8 = 0) : swap (swap v) = v := by
  rw [swap, octets_swap v h, List.reverse_reverse, ofOctets_octets v h]

/-! ## The two orders -/

/-- The order in which the octets of a word follow each other: the host's or the network's. -/
inductive ByteOrder
  | host
  | net
deriving DecidableEq, Repr

/-- The other order. -/
def ByteOrder.other : ByteOrder → ByteOrder
  | .host => .net
  | .net => .host

@[simp] theorem ByteOrder.other_host : ByteOrder.other .host = .net := rfl
@[simp] theorem ByteOrder.other_net : ByteOrder.other .net = .host := rfl
@[simp] theorem ByteOrder.other_other (o : ByteOrder) : o.other.other = o := by cases o <;> rfl

/-- The octets of a word in the given order; network order has the highest octet first. -/
def inOrder {w : ℕ} : ByteOrder → BitVec w → List Octet
  | .host, v => octets v
  | .net, v => (octets v).reverse

@[simp] theorem inOrder_length {w : ℕ} (o : ByteOrder) (v : BitVec w) :
    (inOrder o v).length = w / 8 := by
  cases o <;> simp [inOrder]

@[simp] theorem inOrder_reverse {w : ℕ} (o : ByteOrder) (v : BitVec w) :
    (inOrder o v).reverse = inOrder o.other v := by
  cases o <;> simp [inOrder]

theorem ofOctets_host {w : ℕ} (v : BitVec w) (h : w % 8 = 0) :
    ofOctets w (inOrder .host v) = v := ofOctets_octets v h

theorem swap_ofOctets_net {w : ℕ} (v : BitVec w) (h : w % 8 = 0) :
    swap (ofOctets w (inOrder .net v)) = v := by
  have hs : ofOctets w (inOrder .net v) = swap v := rfl
  rw [hs, swap_swap v h]

theorem octets_swap_net {w : ℕ} (v : BitVec w) (h : w % 8 = 0) :
    octets (swap v) = inOrder .net v := octets_swap v h

theorem octets_octet (b : Octet) : octets b = [b] := by
  simp [octets, leOctets]

end Octets

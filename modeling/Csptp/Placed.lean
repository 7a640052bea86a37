import Csptp.Received

/-! # The object of a buffer in memory

`struct buffer_t` holds the pointer to its block, then `_size` and `_len`. An allocator puts the object where
it likes, also behind the block, and there `_parse` reaches its words when the `messageLength` of a message
does not cover the header. Otherwise it leaves them alone (`parse_seated`). -/
namespace Csptp
open Octets Octets.Prog
set_option autoImplicit false

namespace Buf

/-- `_size` and `_len` as they lie in the object. -/
def words (b : Buf) : List Octet := octets (BitVec.ofNat 64 b.size) ++ octets (BitVec.ofNat 64 b.len)

/-- The buffer with its object this far from the start of the block, or with an object that does not lie
behind the block. -/
def seat (b : Buf) : Option ℕ → Buf
  | none => b
  | some obj => b.withMem (blit b.mem (obj + 8) b.words)

/-- What `getSize` and `getLen` find in the object; `none` is a length above the size. -/
def reread (b : Buf) : Option ℕ → Option Buf
  | none => some b
  | some obj =>
    let size := ofOctets 64 (region b.mem (obj + 8) 8)
    let len := ofOctets 64 (region b.mem (obj + 16) 8)
    if h : len.toNat ≤ size.toNat then
      some { mem := b.mem, size := size.toNat, len := len.toNat, len_le := h, size_lt := size.isLt }
    else none

@[simp] theorem seat_size (b : Buf) (obj : Option ℕ) : (b.seat obj).size = b.size := by
  cases obj <;> rfl

@[simp] theorem seat_len (b : Buf) (obj : Option ℕ) : (b.seat obj).len = b.len := by
  cases obj <;> rfl

/-- An object behind the block leaves the block as it is. -/
theorem seat_mem {b : Buf} {obj : Option ℕ} (hobj : ∀ o ∈ obj, b.size ≤ o) {a : ℕ} (ha : a < b.size) :
    (b.seat obj).mem a = b.mem a := by
  cases obj with
  | none => rfl
  | some o => exact blit_of_not_mem (.inl (by have := hobj o rfl; omega))

/-- The words are found again in every memory that has them still. -/
theorem reread_of_words {b : Buf} {obj : Option ℕ} {m : Mem} (h : ∀ o ∈ obj, Holds m (o + 8) b.words) :
    (b.withMem m).reread obj = some (b.withMem m) := by
  cases obj with
  | none => rfl
  | some o =>
    obtain ⟨hsize, hlen⟩ := holds_append.mp (h o rfl)
    have hlt : b.len < 2 ^ 64 := lt_of_le_of_lt b.len_le b.size_lt
    have hs : region m (o + 8) 8 = octets (BitVec.ofNat 64 b.size) := hsize
    have hl : region m (o + 16) 8 = octets (BitVec.ofNat 64 b.len) := hlen
    have hsize : (ofOctets 64 (region m (o + 8) 8)).toNat = b.size := by
      rw [hs, ofOctets_octets _ rfl, BitVec.toNat_ofNat, Nat.mod_eq_of_lt b.size_lt]
    have hlen : (ofOctets 64 (region m (o + 16) 8)).toNat = b.len := by
      rw [hl, ofOctets_octets _ rfl, BitVec.toNat_ofNat, Nat.mod_eq_of_lt hlt]
    simp only [reread, withMem_mem, hsize, hlen, b.len_le, dif_pos]
    rfl

end Buf

/-- What was received has the `messageLength` of the datagram. -/
theorem covers_of_wellSized {b : Buf} {octs : List Octet} (hdata : b.data = octs.take b.size)
    (hw : WellSized b.size octs) (hlong : msgSize ≤ b.len) : msgSize ≤ messageLength b.mem := by
  have hlen : b.len = (octs.take b.size).length := by rw [← hdata, Buf.data_length]
  have hcovers := hw (hlen ▸ hlong)
  rw [msgSize] at hlong
  rwa [messageLength, fresh_eq hdata (by omega), fresh_eq hdata (by omega)] at hcovers

/-- A message that covers its header, or that is too short to be decoded, leaves the object alone. -/
theorem parse_seated (self : PtpMsg) (params : PtpParams) {b : Buf} {obj : Option ℕ}
    (hobj : ∀ o ∈ obj, b.size ≤ o) (hw : msgSize ≤ b.len → msgSize ≤ messageLength b.mem) :
    (self.parse params (b.seat obj)).buf.reread obj = some (self.parse params (b.seat obj)).buf := by
  have hle := b.len_le
  have hsafe : Safe (fun o => o < b.len) (parseMsg b.len b.size) (b.seat obj).mem := by
    refine safe_parseMsg _ fun hlen => ?_
    rw [messageLength, Buf.seat_mem hobj (by rw [msgSize] at hlen; omega),
      Buf.seat_mem hobj (by rw [msgSize] at hlen; omega)]
    exact hw hlen
  have hbuf : (self.parse params (b.seat obj)).buf =
      (b.seat obj).withMem ((parseMsg b.len b.size).run (b.seat obj).mem).2 := by
    rw [PtpMsg.parse, Buf.seat_len, Buf.seat_size]
    cases ((parseMsg b.len b.size).run (b.seat obj).mem).1 <;> rfl
  rw [hbuf]
  refine Buf.reread_of_words fun o ho => ?_
  have hwords : (b.seat obj).words = b.words := by rw [Buf.words, Buf.words, Buf.seat_size, Buf.seat_len]
  rw [hwords]
  obtain rfl : obj = some o := ho
  refine (holds_blit b.mem (o + 8) b.words).congr fun a ha _ => run_frame fun ht => ?_
  have hin : a < b.len := hsafe.touches a ht
  have := hobj o rfl
  omega

end Csptp

import Csptp.Octets.Program

/-! # The buffer object (`buf.c`)

A buffer has its octets, a size and the length of the data in it. What lies behind the buffer in
memory is part of `mem` as well, with any contents: an offset past the size is an access outside the
allocation, which `Message/Bounds.lean` is about. A write there changes this memory only. In the source it
may hit other objects, the buffer's own among them (`Placed.lean`), so a result about a running program asks
for messages that cover their header. -/
namespace Csptp
open Octets
set_option autoImplicit false

structure Buf where
  mem : Mem
  size : ℕ
  len : ℕ
  len_le : len ≤ size
  size_lt : size < 2 ^ 64

namespace Buf

/-- The returned flag and the buffer afterwards. -/
def setLen (self : Buf) (len : ℕ) : Bool × Buf :=
  if h : len ≤ self.size then (true, { self with len := len, len_le := h }) else (false, self)

/-- The buffer with other contents. -/
def withMem (self : Buf) (m : Mem) : Buf := { self with mem := m }

/-- The data octets. -/
def data (self : Buf) : List Octet := region self.mem 0 self.len

@[simp] theorem withMem_mem (b : Buf) (m : Mem) : (b.withMem m).mem = m := rfl
@[simp] theorem withMem_size (b : Buf) (m : Mem) : (b.withMem m).size = b.size := rfl
@[simp] theorem withMem_len (b : Buf) (m : Mem) : (b.withMem m).len = b.len := rfl

@[simp] theorem setLen_mem (b : Buf) (n : ℕ) : (b.setLen n).2.mem = b.mem := by
  unfold setLen; split <;> rfl

@[simp] theorem setLen_size (b : Buf) (n : ℕ) : (b.setLen n).2.size = b.size := by
  unfold setLen; split <;> rfl

theorem setLen_len {b : Buf} {n : ℕ} (h : n ≤ b.size) : (b.setLen n).2.len = n := by
  simp [setLen, h]

@[simp] theorem data_length (b : Buf) : b.data.length = b.len := region_length _ _ _

end Buf

/-- `malloc` leaves the contents open. -/
def bufferAlloc (size : ℕ) (contents : Mem) (h : size < 2 ^ 64) : Option Buf :=
  if size = 0 then none
  else some { mem := contents, size := size, len := 0, len_le := Nat.zero_le _, size_lt := h }

end Csptp

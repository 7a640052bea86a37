import Csptp.Octets.Program

/-! # Timestamps (`time.c`)

A timestamp object holds a `struct timespec`; a PTP timestamp is 48 bits of seconds and 32 bits of
nanoseconds. Seconds and nanoseconds of a `timespec` are signed. A system clock reading is a
`timespec` whose nanoseconds are in range, which is what `clock_gettime` promises. -/
namespace Csptp
open Octets Octets.Prog
set_option autoImplicit false

def nsecPerSec : ℤ := 1000000000
def nsecPerMsec : ℤ := 1000000
def msecPerSec : ℤ := 1000
def uint48Max : BitVec 64 := 0xffffffffffff#64

structure Timespec where
  tvSec : ℤ
  tvNsec : ℤ
deriving DecidableEq, Repr

/-- The nanoseconds are in range. -/
def Timespec.Normal (t : Timespec) : Prop := 0 ≤ t.tvNsec ∧ t.tvNsec < nsecPerSec

instance (t : Timespec) : Decidable t.Normal := inferInstanceAs (Decidable (_ ∧ _))

/-- What `clock_gettime` stores. -/
structure ClockReading extends Timespec where
  normal : toTimespec.Normal

structure UInteger48 where
  high : BitVec 16
  low : BitVec 32
deriving DecidableEq, Repr

structure Timestamp where
  secondsField : UInteger48
  nanosecondsField : BitVec 32
deriving DecidableEq, Repr

/-! ## 48-bit numbers -/

def getUint48 (num : UInteger48) : BitVec 64 :=
  num.low.setWidth 64 ||| (num.high.setWidth 64 <<< 32)

/-- `none` where the source returns false and leaves the number alone. -/
def setUint48 (value : BitVec 64) : Option UInteger48 :=
  if value > uint48Max then none
  else some {
    low := (value &&& 0xffffffff#64).setWidth 32
    high := ((value >>> 32) &&& 0xffff#64).setWidth 16 }

theorem getUint48_toNat (num : UInteger48) :
    (getUint48 num).toNat = num.high.toNat * 2 ^ 32 + num.low.toNat := by
  have hl := num.low.isLt
  have hh := num.high.isLt
  have hsh : (num.high.setWidth 64 <<< 32).toNat = num.high.toNat <<< 32 := by
    rw [BitVec.toNat_shiftLeft, BitVec.toNat_setWidth, Nat.mod_eq_of_lt (by omega), Nat.shiftLeft_eq,
      Nat.mod_eq_of_lt (by omega), Nat.shiftLeft_eq]
  rw [getUint48, BitVec.toNat_or, hsh, BitVec.toNat_setWidth, Nat.mod_eq_of_lt (by omega),
    Nat.or_comm, ← Nat.shiftLeft_add_eq_or_of_lt hl, Nat.shiftLeft_eq]

theorem setUint48_of_lt {v : BitVec 64} (h : v.toNat < 2 ^ 48) :
    ∃ num, setUint48 v = some num ∧ (getUint48 num).toNat = v.toNat := by
  have hle : ¬ v > uint48Max := by
    rw [gt_iff_lt, BitVec.lt_def, uint48Max]
    simp only [BitVec.toNat_ofNat]
    omega
  refine ⟨_, if_neg hle, ?_⟩
  have hlow : (v &&& 0xffffffff#64).toNat = v.toNat % 2 ^ 32 := by
    rw [BitVec.toNat_and]
    exact Nat.and_two_pow_sub_one_eq_mod _ 32
  have hhigh : ((v >>> 32) &&& 0xffff#64).toNat = v.toNat / 2 ^ 32 % 2 ^ 16 := by
    rw [BitVec.toNat_and, BitVec.toNat_ushiftRight, Nat.shiftRight_eq_div_pow]
    exact Nat.and_two_pow_sub_one_eq_mod _ 16
  rw [getUint48_toNat]
  simp only [BitVec.toNat_setWidth, hlow, hhigh]
  omega

/-! ## Timestamp objects -/

namespace Timespec

def fromTimespec (self ts : Timespec) : Timespec :=
  if ts.tvNsec < nsecPerSec ∧ ts.tvNsec ≥ 0 then ts else self

/-- The returned flag and the object afterwards. -/
def fromTimestamp (self : Timespec) (ts : Timestamp) : Bool × Timespec :=
  if (ts.nanosecondsField.toNat : ℤ) ≥ nsecPerSec then (false, self)
  else (true, ⟨(getUint48 ts.secondsField).toNat, ts.nanosecondsField.toNat⟩)

/-- `none` where the source returns false; it leaves the destination alone then. -/
def toTimestamp (self : Timespec) : Option Timestamp :=
  if self.tvSec < 0 then none
  else if self.tvNsec ≥ nsecPerSec ∨ self.tvNsec < 0 then none
  else if self.tvSec > uint48Max.toNat then none
  else (setUint48 (BitVec.ofInt 64 self.tvSec)).map fun sec =>
    { secondsField := sec, nanosecondsField := BitVec.ofInt 32 self.tvNsec }

/-- In 64-bit signed arithmetic. -/
def getTs (self : Timespec) : ℤ :=
  (((self.tvSec * nsecPerSec).bmod (2 ^ 64)) + self.tvNsec).bmod (2 ^ 64)

def assign (self other : Timespec) : Timespec :=
  if other.tvNsec < nsecPerSec ∧ other.tvNsec ≥ 0 then other else self

/-- The duration that the system is asked to sleep for, if it is asked at all. -/
def sleep (self : Timespec) : Option Timespec := if self.tvSec > 0 then some self else none

/-- `lldiv` rounds towards zero. -/
def addMilliseconds (self : Timespec) (milliseconds : ℤ) : Timespec :=
  let sec := self.tvSec + milliseconds.tdiv msecPerSec
  let nsec := self.tvNsec + milliseconds.tmod msecPerSec * nsecPerMsec
  if nsec ≥ nsecPerSec then ⟨sec + 1, nsec - nsecPerSec⟩
  else if nsec < 0 then ⟨sec - 1, nsec + nsecPerSec⟩
  else ⟨sec, nsec⟩

/-- The seconds fit the 48-bit field of a PTP timestamp. -/
def InRange (t : Timespec) : Prop := 0 ≤ t.tvSec ∧ t.tvSec < 2 ^ 48

instance (t : Timespec) : Decidable t.InRange := inferInstanceAs (Decidable (_ ∧ _))

/-- The time that a PTP timestamp stands for. -/
def ofTimestamp (ts : Timestamp) : Timespec :=
  ⟨(getUint48 ts.secondsField).toNat, ts.nanosecondsField.toNat⟩

theorem fromTimespec_of_normal {self ts : Timespec} (h : ts.Normal) : self.fromTimespec ts = ts :=
  if_pos ⟨h.2, h.1⟩

theorem assign_of_normal {self other : Timespec} (h : other.Normal) : self.assign other = other :=
  if_pos ⟨h.2, h.1⟩

theorem fromTimestamp_of_lt {self : Timespec} {ts : Timestamp}
    (h : (ts.nanosecondsField.toNat : ℤ) < nsecPerSec) :
    self.fromTimestamp ts = (true, ofTimestamp ts) := if_neg (by omega)

theorem fromTimestamp_of_ge {self : Timespec} {ts : Timestamp}
    (h : nsecPerSec ≤ (ts.nanosecondsField.toNat : ℤ)) :
    self.fromTimestamp ts = (false, self) := if_pos h

/-- A time in range has a PTP timestamp, and that stands for the same time. -/
theorem toTimestamp_of_inRange {t : Timespec} (hn : t.Normal) (hr : t.InRange) :
    ∃ ts, t.toTimestamp = some ts ∧ ofTimestamp ts = t ∧
      (ts.nanosecondsField.toNat : ℤ) < nsecPerSec := by
  obtain ⟨hn0, hn1⟩ := hn
  obtain ⟨hs0, hs1⟩ := hr
  have hsec : (BitVec.ofInt 64 t.tvSec).toNat = t.tvSec.toNat := by
    rw [BitVec.toNat_ofInt]
    omega
  have hnsec : (BitVec.ofInt 32 t.tvNsec).toNat = t.tvNsec.toNat := by
    rw [nsecPerSec] at hn1
    rw [BitVec.toNat_ofInt]
    omega
  obtain ⟨num, hset, hget⟩ := setUint48_of_lt (v := BitVec.ofInt 64 t.tvSec) (by omega)
  have hmax : ¬ t.tvSec > uint48Max.toNat := by
    have hm : uint48Max.toNat = 2 ^ 48 - 1 := rfl
    rw [hm]
    omega
  refine ⟨⟨num, BitVec.ofInt 32 t.tvNsec⟩, ?_, ?_, ?_⟩
  · rw [toTimestamp, if_neg (by omega), if_neg (by omega), if_neg hmax, hset]
    rfl
  · simp only [ofTimestamp, hget, hsec, hnsec]
    rw [Int.toNat_of_nonneg hs0, Int.toNat_of_nonneg hn0]
  · simp only [hnsec]
    omega

end Timespec

/-! ## PTP timestamps in memory -/

/-- The ten octets of a PTP timestamp. -/
def Timestamp.octets (o : ByteOrder) (t : Timestamp) : List Octet :=
  inOrder o t.secondsField.high ++ inOrder o t.secondsField.low ++ inOrder o t.nanosecondsField

@[simp] theorem Timestamp.octets_length (o : ByteOrder) (t : Timestamp) :
    (t.octets o).length = 10 := by
  simp [Timestamp.octets]

def loadUint48 (p : ℕ) : Prog UInteger48 := do
  let high ← load 16 p
  let low ← load 32 (p + 2)
  pure ⟨high, low⟩

def loadTimestamp (p : ℕ) : Prog Timestamp := do
  let sec ← loadUint48 p
  let nsec ← load 32 (p + 6)
  pure ⟨sec, nsec⟩

def storeUint48 (p : ℕ) (num : UInteger48) : Prog Unit := do
  store (p + 2) num.low
  store p num.high

def storeTimestamp (p : ℕ) (ts : Timestamp) : Prog Unit := do
  storeUint48 p ts.secondsField
  store (p + 6) ts.nanosecondsField

/-- `set_uint48` on the number at `p`. -/
def setUint48At (p : ℕ) (value : BitVec 64) : Prog Bool :=
  if value > uint48Max then pure false
  else do
    store (p + 2) ((value &&& 0xffffffff#64).setWidth 32)
    store p (((value >>> 32) &&& 0xffff#64).setWidth 16)
    pure true

/-- `t_toTimestamp` with its destination at `p`. -/
def Timespec.toTimestampAt (self : Timespec) (p : ℕ) : Prog Bool :=
  if self.tvSec < 0 then pure false
  else if self.tvNsec ≥ nsecPerSec ∨ self.tvNsec < 0 then pure false
  else if self.tvSec > uint48Max.toNat then pure false
  else do
    let ok ← setUint48At p (BitVec.ofInt 64 self.tvSec)
    if ok then do
      store (p + 6) (BitVec.ofInt 32 self.tvNsec)
      pure true
    else pure false

def cpuToNet48 (p : ℕ) : Prog Unit := do
  let _ ← swapAt 32 (p + 2)
  let _ ← swapAt 16 p

def netToCpu48 (p : ℕ) : Prog Unit := do
  let _ ← swapAt 32 (p + 2)
  let _ ← swapAt 16 p

def netToCpuTs (p : ℕ) : Prog Unit := do
  netToCpu48 p
  let _ ← swapAt 32 (p + 6)

def cpuToNetTs (p : ℕ) : Prog Unit := do
  cpuToNet48 p
  let _ ← swapAt 32 (p + 6)

/-! ## A sample clock -/

def sampleTime (sec : ℤ) : ClockReading :=
  { tvSec := sec, tvNsec := 5, normal := by simp [Timespec.Normal, nsecPerSec] }

end Csptp

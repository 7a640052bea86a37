import Csptp.Time

/-! # Timestamps as integers (`time.c`)

A timestamp object stands for the number of nanoseconds `exact`. Every call keeps the nanoseconds in
range, sets or moves this number, and the comparisons decide it. `getTs` computes it in 64 bits, which
do not hold every time. -/
namespace Csptp
set_option autoImplicit false

/-! ## Setting and comparing -/

namespace Timespec

/-- `lldiv` rounds towards zero. -/
def setTs (_self : Timespec) (ts : ℤ) : Timespec :=
  let quot := ts.tdiv nsecPerSec
  let rem := ts.tmod nsecPerSec
  if rem < 0 then ⟨quot - 1, rem + nsecPerSec⟩ else ⟨quot, rem⟩

def eq (self other : Timespec) : Bool := self.tvSec = other.tvSec && self.tvNsec = other.tvNsec

def less (self other : Timespec) : Bool :=
  self.tvSec < other.tvSec || (self.tvSec = other.tvSec && self.tvNsec < other.tvNsec)

def lessEq (self other : Timespec) : Bool :=
  self.tvSec < other.tvSec || (self.tvSec = other.tvSec && self.tvNsec ≤ other.tvNsec)

/-- The nanoseconds that a time stands for. -/
def exact (t : Timespec) : ℤ := t.tvSec * nsecPerSec + t.tvNsec

/-! ## What the calls do to the number -/

theorem setTs_spec (t : Timespec) (ts : ℤ) : (t.setTs ts).Normal ∧ (t.setTs ts).exact = ts := by
  have hdiv := Int.mul_tdiv_add_tmod ts nsecPerSec
  have hlt := Int.tmod_lt_of_pos ts (show 0 < nsecPerSec by decide)
  have hneg := Int.lt_tmod_of_pos ts (show 0 < nsecPerSec by decide)
  rw [setTs, nsecPerSec] at *
  split
  · rename_i hrem
    refine ⟨⟨by dsimp only; omega, by dsimp only [nsecPerSec]; omega⟩, ?_⟩
    rw [exact, nsecPerSec]
    dsimp only
    omega
  · rename_i hrem
    refine ⟨⟨by dsimp only; omega, hlt⟩, ?_⟩
    rw [exact, nsecPerSec]
    dsimp only
    omega

/-- Milliseconds move the number, and the seconds go to their new value without leaving the interval
between the two. -/
theorem addMilliseconds_spec {t : Timespec} (h : t.Normal) (ms : ℤ) :
    (t.addMilliseconds ms).Normal ∧
      (t.addMilliseconds ms).exact = t.exact + ms * nsecPerMsec ∧
      min t.tvSec (t.addMilliseconds ms).tvSec ≤ t.tvSec + ms.tdiv msecPerSec ∧
      t.tvSec + ms.tdiv msecPerSec ≤ max t.tvSec (t.addMilliseconds ms).tvSec := by
  obtain ⟨hn0, hn1⟩ := h
  have hdiv := Int.mul_tdiv_add_tmod ms msecPerSec
  have hlt := Int.tmod_lt_of_pos ms (show 0 < msecPerSec by decide)
  have hneg := Int.lt_tmod_of_pos ms (show 0 < msecPerSec by decide)
  -- quotient and remainder have the sign of `ms`
  have hsign : 0 ≤ ms ∧ 0 ≤ ms.tdiv msecPerSec ∧ 0 ≤ ms.tmod msecPerSec ∨
      ms ≤ 0 ∧ ms.tdiv msecPerSec ≤ 0 ∧ ms.tmod msecPerSec ≤ 0 := by
    rcases Int.le_total 0 ms with hms | hms
    · exact .inl ⟨hms, Int.tdiv_nonneg hms (by decide), Int.tmod_nonneg _ hms⟩
    · have hquot := Int.tdiv_nonneg (show 0 ≤ -ms by omega) (show 0 ≤ msecPerSec by decide)
      have hrem := Int.tmod_nonneg msecPerSec (show 0 ≤ -ms by omega)
      rw [Int.neg_tdiv] at hquot
      rw [Int.neg_tmod] at hrem
      exact .inr ⟨hms, by omega, by omega⟩
  rw [addMilliseconds]
  generalize ms.tdiv msecPerSec = quot at *
  generalize ms.tmod msecPerSec = rem at *
  simp only [Normal, exact, nsecPerSec, nsecPerMsec, msecPerSec] at *
  by_cases hcarry : t.tvNsec + rem * 1000000 ≥ 1000000000
  · simp only [hcarry, if_true]
    omega
  · by_cases hborrow : t.tvNsec + rem * 1000000 < 0
    · simp only [hcarry, hborrow, if_true, if_false]
      omega
    · simp only [hcarry, hborrow, if_false]
      omega

section Compare
variable {t u : Timespec} (ht : t.Normal) (hu : u.Normal)
include ht hu

theorem eq_iff : t.eq u = true ↔ t.exact = u.exact := by
  obtain ⟨ht0, ht1⟩ := ht
  obtain ⟨hu0, hu1⟩ := hu
  simp only [eq, exact, nsecPerSec, Bool.and_eq_true, decide_eq_true_eq] at *
  omega

theorem less_iff : t.less u = true ↔ t.exact < u.exact := by
  obtain ⟨ht0, ht1⟩ := ht
  obtain ⟨hu0, hu1⟩ := hu
  simp only [less, exact, nsecPerSec, Bool.and_eq_true, Bool.or_eq_true, decide_eq_true_eq] at *
  omega

theorem lessEq_iff : t.lessEq u = true ↔ t.exact ≤ u.exact := by
  obtain ⟨ht0, ht1⟩ := ht
  obtain ⟨hu0, hu1⟩ := hu
  simp only [lessEq, exact, nsecPerSec, Bool.and_eq_true, Bool.or_eq_true, decide_eq_true_eq] at *
  omega

end Compare

end Timespec

/-! ## Runs of calls -/

/-- A call on a timestamp object; a pointer argument may be null. -/
inductive TsCall
  | setTs (ts : BitVec 64)
  | fromTimespec (ts : Option Timespec)
  | fromTimestamp (ts : Option Timestamp)
  | assign (other : Option Timespec)
  | addMilliseconds (milliseconds : BitVec 32)

namespace TsCall

def apply (t : Timespec) : TsCall → Timespec
  | setTs ts => t.setTs ts.toInt
  | fromTimespec ts => ts.elim t t.fromTimespec
  | fromTimestamp ts => ts.elim t fun ts => (t.fromTimestamp ts).2
  | assign other => other.elim t t.assign
  | addMilliseconds milliseconds => t.addMilliseconds milliseconds.toInt

/-- The number that the object should stand for after the call. -/
def value (old : ℤ) : TsCall → ℤ
  | setTs ts => ts.toInt
  | fromTimespec ts => (ts.filter (·.Normal)).elim old Timespec.exact
  | fromTimestamp ts => (ts.filter fun ts => (ts.nanosecondsField.toNat : ℤ) < nsecPerSec).elim old
      fun ts => (getUint48 ts.secondsField).toNat * nsecPerSec + ts.nanosecondsField.toNat
  | assign other => (other.filter (·.Normal)).elim old Timespec.exact
  | addMilliseconds milliseconds => old + milliseconds.toInt * nsecPerMsec

theorem copy_spec {t ts : Timespec} (h : t.Normal) {r : Timespec}
    (hr : r = if ts.tvNsec < nsecPerSec ∧ ts.tvNsec ≥ 0 then ts else t) :
    r.Normal ∧ r.exact = ((some ts).filter (·.Normal)).elim t.exact Timespec.exact := by
  by_cases hts : ts.Normal
  · rw [hr, if_pos ⟨hts.2, hts.1⟩, Option.filter_some, if_pos (decide_eq_true hts)]
    exact ⟨hts, rfl⟩
  · rw [hr, if_neg fun hc => hts ⟨hc.2, hc.1⟩, Option.filter_some, if_neg (by simpa using hts)]
    exact ⟨h, rfl⟩

/-- Every call keeps the nanoseconds in range and leaves the number that it should. -/
theorem apply_spec {t : Timespec} (h : t.Normal) (call : TsCall) :
    (call.apply t).Normal ∧ (call.apply t).exact = call.value t.exact := by
  cases call with
  | setTs ts => exact Timespec.setTs_spec t ts.toInt
  | fromTimespec ts =>
    cases ts with
    | none => exact ⟨h, rfl⟩
    | some ts => exact copy_spec h rfl
  | fromTimestamp ts =>
    cases ts with
    | none => exact ⟨h, rfl⟩
    | some ts =>
      rw [apply, value, Option.elim_some, Option.filter_some]
      by_cases hlt : (ts.nanosecondsField.toNat : ℤ) < nsecPerSec
      · rw [Timespec.fromTimestamp_of_lt hlt, if_pos (decide_eq_true hlt)]
        exact ⟨⟨Int.natCast_nonneg _, hlt⟩, rfl⟩
      · rw [Timespec.fromTimestamp_of_ge (by omega), if_neg (by simpa using hlt)]
        exact ⟨h, rfl⟩
  | assign other =>
    cases other with
    | none => exact ⟨h, rfl⟩
    | some other => exact copy_spec h rfl
  | addMilliseconds milliseconds =>
    obtain ⟨hnormal, hexact, -⟩ := Timespec.addMilliseconds_spec h milliseconds.toInt
    exact ⟨hnormal, hexact⟩

end TsCall

/-- `ts_alloc`, and then these calls. -/
def tsRun (calls : List TsCall) : Timespec := calls.foldl (fun t call => call.apply t) ⟨0, 0⟩

theorem foldl_apply_normal {t : Timespec} (h : t.Normal) (calls : List TsCall) :
    (calls.foldl (fun t call => call.apply t) t).Normal := by
  induction calls generalizing t with
  | nil => exact h
  | cons call calls ih => exact ih (TsCall.apply_spec h call).1

theorem tsRun_normal (calls : List TsCall) : (tsRun calls).Normal :=
  foldl_apply_normal (by decide) calls

/-- After any calls the nanoseconds are in range, a further call leaves the number that it should, and
the comparisons with any other timestamp compare the numbers. Where milliseconds are added the seconds
stay between their old and their new value. -/
theorem timestamps_exact (calls : List TsCall) :
    (tsRun calls).Normal ∧
      (∀ call, (tsRun (calls ++ [call])).exact = call.value (tsRun calls).exact) ∧
      (∀ others, ((tsRun calls).eq (tsRun others) = true ↔
          (tsRun calls).exact = (tsRun others).exact) ∧
        ((tsRun calls).less (tsRun others) = true ↔ (tsRun calls).exact < (tsRun others).exact) ∧
        ((tsRun calls).lessEq (tsRun others) = true ↔
          (tsRun calls).exact ≤ (tsRun others).exact)) ∧
      ∀ ms : BitVec 32,
        let t := tsRun calls
        let sum := t.tvSec + ms.toInt.tdiv msecPerSec
        let t' := tsRun (calls ++ [.addMilliseconds ms])
        min t.tvSec t'.tvSec ≤ sum ∧ sum ≤ max t.tvSec t'.tvSec := by
  have hn := tsRun_normal calls
  have happend (call : TsCall) : tsRun (calls ++ [call]) = call.apply (tsRun calls) := by
    rw [tsRun, List.foldl_append]
    rfl
  refine ⟨hn, fun call => ?_, fun others => ?_, fun ms => ?_⟩
  · rw [happend]
    exact (TsCall.apply_spec hn call).2
  · have hu := tsRun_normal others
    exact ⟨Timespec.eq_iff hn hu, Timespec.less_iff hn hu, Timespec.lessEq_iff hn hu⟩
  · rw [happend]
    exact (Timespec.addMilliseconds_spec hn ms.toInt).2.2

/-! ## Counting in 64 bits -/

def InInt64 (x : ℤ) : Prop := -2 ^ 63 ≤ x ∧ x < 2 ^ 63

instance (x : ℤ) : Decidable (InInt64 x) := inferInstanceAs (Decidable (_ ∧ _))

theorem bmod_of_inInt64 {x : ℤ} (h : InInt64 x) : x.bmod (2 ^ 64) = x := by
  obtain ⟨hlow, hhigh⟩ := h
  exact Int.bmod_eq_of_le (by norm_num; omega) (by norm_num; omega)

namespace Timespec

/-- `getTs` returns the number that the time stands for, and neither of its two steps overflows. -/
def GetTsExact (t : Timespec) : Prop :=
  InInt64 (t.tvSec * nsecPerSec) ∧ InInt64 t.exact ∧ t.getTs = t.exact

/-- The seconds are at most 9223372036 on either side of zero, and in the last of them the nanoseconds
are at most those of the highest number. -/
def Countable (t : Timespec) : Prop :=
  -9223372036 ≤ t.tvSec ∧ (t.tvSec < 9223372036 ∨ t.tvSec = 9223372036 ∧ t.tvNsec ≤ 854775807)

instance (t : Timespec) : Decidable t.Countable := inferInstanceAs (Decidable (_ ∧ _))

theorem getTsExact_iff {t : Timespec} (h : t.Normal) : t.GetTsExact ↔ t.Countable := by
  obtain ⟨h0, h1⟩ := h
  have hget : InInt64 (t.tvSec * nsecPerSec) → InInt64 t.exact → t.getTs = t.exact := by
    intro hsec hexact
    rw [getTs, bmod_of_inInt64 hsec]
    exact bmod_of_inInt64 hexact
  have hsteps : InInt64 (t.tvSec * nsecPerSec) ∧ InInt64 t.exact ↔ t.Countable := by
    simp only [InInt64, Countable, exact, nsecPerSec] at *
    omega
  rw [← hsteps]
  exact ⟨fun h => ⟨h.1, h.2.1⟩, fun h => ⟨h.1, h.2, hget h.1 h.2⟩⟩

end Timespec

end Csptp

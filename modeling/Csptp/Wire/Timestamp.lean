import Csptp.Wire.Scan

/-! # Timestamps on the wire

A PTP timestamp lies on the wire as a 48-bit and a 32-bit number, both with the highest octet first.
The program keeps the 48-bit number in two parts and swaps the three words one by one. -/
namespace Csptp
open Octets Octets.Prog
set_option autoImplicit false

/-! ## The three words and the two numbers -/

theorem Timestamp.octets_net (ts : Timestamp) :
    ts.octets .net =
      beOctets 6 (getUint48 ts.secondsField).toNat ++ beOctets 4 ts.nanosecondsField.toNat := by
  have hlow := ts.secondsField.low.isLt
  have hhigh : (getUint48 ts.secondsField).toNat / 256 ^ 4 = ts.secondsField.high.toNat := by
    rw [getUint48_toNat]
    omega
  have hmod : (getUint48 ts.secondsField).toNat % 256 ^ 4 = ts.secondsField.low.toNat := by
    rw [getUint48_toNat]
    omega
  rw [beOctets_add 2 4, hhigh, ← beOctets_mod 4, hmod, Timestamp.octets]
  rfl

theorem getUint48_injective {a b : UInteger48} (h : getUint48 a = getUint48 b) : a = b := by
  have hnat := congrArg BitVec.toNat h
  have ha := a.low.isLt
  have hb := b.low.isLt
  rw [getUint48_toNat, getUint48_toNat] at hnat
  have hhigh : a.high = b.high := BitVec.eq_of_toNat_eq (by omega)
  have hlow : a.low = b.low := BitVec.eq_of_toNat_eq (by omega)
  cases a
  cases b
  simp_all

/-- A time has at most one PTP timestamp. -/
theorem Timespec.ofTimestamp_injective {a b : Timestamp}
    (h : Timespec.ofTimestamp a = Timespec.ofTimestamp b) : a = b := by
  rw [ofTimestamp, ofTimestamp, Timespec.mk.injEq, Int.natCast_inj, Int.natCast_inj] at h
  have hsec := getUint48_injective (BitVec.eq_of_toNat_eq h.1)
  have hnsec := BitVec.eq_of_toNat_eq h.2
  cases a
  cases b
  simp_all

/-- Any ten octets are a timestamp in network order. -/
theorem exists_timestamp (m : Mem) (p : ℕ) : ∃ ts : Timestamp, region m p 10 = ts.octets .net := by
  refine ⟨⟨⟨netWord 16 m p, netWord 32 m (p + 2)⟩, netWord 32 m (p + 6)⟩, ?_⟩
  rw [Timestamp.octets, inOrder_netWord rfl, inOrder_netWord rfl, inOrder_netWord rfl,
    region_add m p 6 4, region_add m p 2 4]

/-! ## The operations on a timestamp in memory -/

theorem run_storeTimestamp (m : Mem) (p : ℕ) (ts : Timestamp) :
    (storeTimestamp p ts).run m = ((), blit m p (ts.octets .host)) := by
  refine Prod.ext rfl ?_
  simp only [storeTimestamp, storeUint48, run_bind, run_store]
  apply eq_blit
  · simp only [Timestamp.octets, holds_append, inOrder_length, List.length_append, Nat.reduceAdd,
      Nat.reduceDiv]
    refine ⟨⟨(holds_blit _ _ _).blit_of_disjoint (by simp), ?_⟩, holds_blit _ _ _⟩
    exact ((holds_blit _ _ _).blit_of_disjoint (by simp)).blit_of_disjoint (by simp)
  · intro a ha
    rw [Timestamp.octets_length] at ha
    rw [blit_of_not_mem (by simp; omega), blit_of_not_mem (by simp; omega),
      blit_of_not_mem (by simp; omega)]

theorem run_setUint48At (m : Mem) (p : ℕ) (value : BitVec 64) :
    (setUint48At p value).run m =
      match setUint48 value with
      | none => (false, m)
      | some num => (true, ((storeUint48 p num).run m).2) := by
  rw [setUint48At, setUint48]
  split <;> simp [storeUint48]

/-- `toTimestamp` stores the whole timestamp or nothing. -/
theorem run_toTimestampAt (self : Timespec) (p : ℕ) (m : Mem) :
    (self.toTimestampAt p).run m =
      match self.toTimestamp with
      | none => (false, m)
      | some ts => (true, blit m p (ts.octets .host)) := by
  rw [Timespec.toTimestampAt, Timespec.toTimestamp]
  split_ifs
  · rfl
  · rfl
  · rfl
  · simp only [run_bind, run_setUint48At]
    cases setUint48 (BitVec.ofInt 64 self.tvSec) with
    | none => rfl
    | some num =>
      have hstore := run_storeTimestamp m p ⟨num, BitVec.ofInt 32 self.tvNsec⟩
      simp only [storeTimestamp, run_bind] at hstore
      simp only [if_true, run_bind, run_pure, Option.map_some, hstore]

theorem reverse_timestamp {m : Mem} {p : ℕ} {o : ByteOrder} {ts : Timestamp}
    (h : Holds m p (ts.octets o)) :
    reverseAt (reverseAt (reverseAt m (p + 2) 4) p 2) (p + 6) 4 = blit m p (ts.octets o.other) := by
  simp only [Timestamp.octets, holds_append, inOrder_length, List.length_append, Nat.reduceAdd,
    Nat.reduceDiv] at h
  apply eq_blit
  · simp only [Timestamp.octets, holds_append, inOrder_length, List.length_append, Nat.reduceAdd,
      Nat.reduceDiv]
    simp (disch := first | (simp only [inOrder_length]; done) | (simp only [inOrder_length]; omega))
      only [holds_reverseAt_of_disjoint, holds_reverseAt_self, inOrder_reverse, ByteOrder.other_other]
    exact h
  · intro a ha
    rw [Timestamp.octets_length] at ha
    simp (disch := omega) only [reverseAt_of_not_mem]

theorem run_cpuToNetTs {m : Mem} {p : ℕ} {ts : Timestamp} (h : Holds m p (ts.octets .host)) :
    (cpuToNetTs p).run m = ((), blit m p (ts.octets .net)) := by
  refine Prod.ext rfl ?_
  simp only [cpuToNetTs, cpuToNet48, run_bind, run_pure, run_swapAt (w := 16) rfl,
    run_swapAt (w := 32) rfl, Nat.reduceDiv]
  exact reverse_timestamp h

theorem run_netToCpuTs {m : Mem} {p : ℕ} {ts : Timestamp} (h : Holds m p (ts.octets .net)) :
    (netToCpuTs p).run m = ((), blit m p (ts.octets .host)) := by
  refine Prod.ext rfl ?_
  simp only [netToCpuTs, netToCpu48, run_bind, run_pure, run_swapAt (w := 16) rfl,
    run_swapAt (w := 32) rfl, Nat.reduceDiv]
  exact reverse_timestamp h

theorem run_loadTimestamp_host {m : Mem} {p : ℕ} {ts : Timestamp} (h : Holds m p (ts.octets .host)) :
    (loadTimestamp p).run m = (ts, m) := by
  simp only [Timestamp.octets, holds_append, inOrder_length, List.length_append, Nat.reduceAdd,
    Nat.reduceDiv] at h
  have hhigh := ofOctets_region_of_host (w := 16) rfl h.1.1
  have hlow := ofOctets_region_of_host (w := 32) rfl h.1.2
  have hnsec := ofOctets_region_of_host (w := 32) rfl h.2
  simp only [loadTimestamp, loadUint48, run_bind, run_load, run_pure, hhigh, hlow, hnsec]

/-! ## Which times and which octets pass -/

theorem Timespec.toTimestamp_isSome (t : Timespec) :
    t.toTimestamp.isSome = true ↔ t.Normal ∧ t.InRange := by
  constructor
  · intro h
    have hmax : uint48Max.toNat = 2 ^ 48 - 1 := rfl
    rw [toTimestamp] at h
    split_ifs at h with h1 h2 h3
    · exact absurd h (by simp)
    · exact absurd h (by simp)
    · exact absurd h (by simp)
    · rw [hmax] at h3
      exact ⟨⟨by omega, by omega⟩, ⟨by omega, by omega⟩⟩
  · rintro ⟨hn, hr⟩
    obtain ⟨ts, hts, -, -⟩ := toTimestamp_of_inRange hn hr
    rw [hts]
    rfl

theorem Timespec.ofTimestamp_inRange (ts : Timestamp) : (ofTimestamp ts).InRange := by
  have hhigh := ts.secondsField.high.isLt
  have hlow := ts.secondsField.low.isLt
  rw [ofTimestamp, InRange, getUint48_toNat]
  dsimp only
  omega

theorem Timespec.toTimestamp_ofTimestamp {ts : Timestamp}
    (h : (ts.nanosecondsField.toNat : ℤ) < nsecPerSec) : (ofTimestamp ts).toTimestamp = some ts := by
  have hnormal : (ofTimestamp ts).Normal := ⟨Int.natCast_nonneg _, h⟩
  obtain ⟨ts', hsome, hof, -⟩ := toTimestamp_of_inRange hnormal (ofTimestamp_inRange ts)
  rw [hsome, ofTimestamp_injective hof]

/-- The numbers in the ten octets at `p`. -/
theorem wire_numbers {m : Mem} {p : ℕ} {ts : Timestamp} (h : region m p 10 = ts.octets .net) :
    beVal (region m p 6) = (getUint48 ts.secondsField).toNat ∧
      beVal (region m (p + 6) 4) = ts.nanosecondsField.toNat := by
  have hhigh := ts.secondsField.high.isLt
  have hlow := ts.secondsField.low.isLt
  have hnsec := ts.nanosecondsField.isLt
  have hsec : (getUint48 ts.secondsField).toNat < 256 ^ 6 := by
    rw [getUint48_toNat]
    omega
  rw [region_add m p 6 4, ts.octets_net] at h
  obtain ⟨h6, h4⟩ := List.append_inj h (by simp)
  rw [h6, h4, beVal_beOctets, beVal_beOctets, Nat.mod_eq_of_lt hsec, Nat.mod_eq_of_lt (by omega)]
  exact ⟨rfl, rfl⟩

/-- `toTimestamp` and `cpu_to_net_ts` leave the two numbers on the wire, for exactly the times that
these can hold. -/
theorem to_wire (t : Timespec) (p : ℕ) (m : Mem) :
    let r := (t.toTimestampAt p).run m
    (r.1 = true ↔ t.Normal ∧ t.InRange) ∧ (r.1 = false → r.2 = m) ∧
      (r.1 = true → ((cpuToNetTs p).run r.2).2 =
        blit m p (beOctets 6 t.tvSec.toNat ++ beOctets 4 t.tvNsec.toNat)) := by
  intro r
  have hr : r = (t.toTimestampAt p).run m := rfl
  have hiff := t.toTimestamp_isSome
  rw [run_toTimestampAt] at hr
  cases hts : t.toTimestamp with
  | none =>
    rw [hts] at hr hiff
    rw [hr]
    exact ⟨hiff, fun _ => rfl, fun h => absurd h (by simp)⟩
  | some ts =>
    rw [hts] at hr hiff
    rw [hr]
    refine ⟨hiff, fun h => absurd h (by simp), fun _ => ?_⟩
    obtain ⟨hnormal, hrange⟩ := hiff.mp rfl
    obtain ⟨ts', hts', hof, -⟩ := Timespec.toTimestamp_of_inRange hnormal hrange
    cases Option.some.inj (hts.symm.trans hts')
    rw [run_cpuToNetTs (holds_blit _ _ _), blit_blit _ _ (by simp), ts.octets_net, ← hof]
    rfl

/-- `net_to_cpu_ts` and `fromTimestamp` read the two numbers from any ten octets, unless the
nanoseconds make a second, and the way back leads to the same octets. -/
theorem from_wire (t : Timespec) (p : ℕ) (m : Mem) :
    let n := ((netToCpuTs p).run m).2
    let f := t.fromTimestamp ((loadTimestamp p).run n).1
    (f.1 = true ↔ beVal (region m (p + 6) 4) < 10 ^ 9) ∧ (f.1 = false → f.2 = t) ∧
      (f.1 = true → f.2 = ⟨beVal (region m p 6), beVal (region m (p + 6) 4)⟩ ∧
        ∀ q m', let w := (f.2.toTimestampAt q).run m'
          w.1 = true ∧ ((cpuToNetTs q).run w.2).2 = blit m' q (region m p 10)) := by
  obtain ⟨ts, hts⟩ := exists_timestamp m p
  obtain ⟨hsec, hnsec⟩ := wire_numbers hts
  have hnet : Holds m p (ts.octets .net) := by
    rw [← hts]
    exact holds_region m p 10
  intro n f
  have hf : f = t.fromTimestamp ts := by
    change t.fromTimestamp ((loadTimestamp p).run ((netToCpuTs p).run m).2).1 = _
    rw [run_netToCpuTs hnet, run_loadTimestamp_host (holds_blit _ _ _)]
  rw [hf, hsec, hnsec]
  by_cases hlt : (ts.nanosecondsField.toNat : ℤ) < nsecPerSec
  · have hlt' := hlt
    rw [nsecPerSec] at hlt'
    rw [Timespec.fromTimestamp_of_lt hlt]
    refine ⟨⟨fun _ => by omega, fun _ => rfl⟩, fun h => absurd h (by simp), fun _ => ⟨rfl, ?_⟩⟩
    intro q m'
    rw [run_toTimestampAt, Timespec.toTimestamp_ofTimestamp hlt, hts]
    refine ⟨rfl, ?_⟩
    rw [run_cpuToNetTs (holds_blit _ _ _), blit_blit _ _ (by simp)]
  · rw [Timespec.fromTimestamp_of_ge (by omega)]
    rw [nsecPerSec] at hlt
    exact ⟨⟨fun h => absurd h (by simp), fun h => by omega⟩, fun _ => rfl, fun h => absurd h (by simp)⟩

/-- Both directions of a timestamp between an object and the wire. -/
theorem wire_timestamps (t : Timespec) (p : ℕ) (m : Mem) :
    (let r := (t.toTimestampAt p).run m;
      (r.1 = true ↔ t.Normal ∧ 0 ≤ t.tvSec ∧ t.tvSec < 2 ^ 48) ∧ (r.1 = false → r.2 = m) ∧
        (r.1 = true → ((cpuToNetTs p).run r.2).2 =
          blit m p (beOctets 6 t.tvSec.toNat ++ beOctets 4 t.tvNsec.toNat))) ∧
      (∀ ts : Timestamp, ((cpuToNetTs p).run (blit m p (ts.octets .host))).2 =
        blit m p (beOctets 6 (getUint48 ts.secondsField).toNat ++
          beOctets 4 ts.nanosecondsField.toNat)) ∧
      (let f := t.fromTimestamp ((loadTimestamp p).run ((netToCpuTs p).run m).2).1;
        (f.1 = true ↔ beVal (region m (p + 6) 4) < 10 ^ 9) ∧ (f.1 = false → f.2 = t) ∧
          (f.1 = true → f.2 = ⟨beVal (region m p 6), beVal (region m (p + 6) 4)⟩ ∧
            ∀ q m', let w := (f.2.toTimestampAt q).run m'
              w.1 = true ∧ ((cpuToNetTs q).run w.2).2 = blit m' q (region m p 10))) := by
  refine ⟨to_wire t p m, fun ts => ?_, from_wire t p m⟩
  rw [run_cpuToNetTs (holds_blit _ _ _), blit_blit _ _ (by simp), ts.octets_net]

end Csptp

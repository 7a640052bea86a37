import Csptp.Builder.Runs

/-! # Converting once

As long as a message has a TLV, nothing is converted twice: its first TLV stops the loop. A message that
was finished with no TLV at all is still a draft, though its header is in network order. -/
namespace Csptp
open Octets Octets.Prog Runs
set_option autoImplicit false

/-- A draft whose header lies in host order, with what was put in since it was started. -/
structure Untouched (s : Build) (c : Octet) : Prop extends Draft s.msg s.buf where
  control : s.params.type.controlField = some c
  header : Holds s.buf.mem 0 (headerOctets .host s.params c 0)
  bufLen : s.buf.len = s.msg.len
  added : s.added = s.msg.tlvs.map fun r => region s.buf.mem r.tlv r.len
  gt : ∀ r ∈ s.msg.tlvs, tlvHdr < r.len

/-- The data is a message in network order, and whoever reads it gets the parameters and the TLVs that
were put in. -/
def Conveys (s : Build) (b : Buf) : Prop :=
  ∃ ts c, s.params.type.controlField = some c ∧ s.added = ts.map (Tlv.octets .host) ∧
    b.data = wireOctets s.params c ts b.len ∧ ReadsAs b.data s.params (ts.map Tlv.zeroFill)

theorem map_region_records {m : Mem} {a : ℕ} {ts : List Tlv} (h : Holds m a (tlvsOctets .host ts)) :
    (records a ts).map (fun r => region m r.tlv r.len) = ts.map (Tlv.octets .host) := by
  induction ts generalizing a with
  | nil => rfl
  | cons t ts ih =>
    rw [tlvsOctets_cons, holds_append, Tlv.octets_length] at h
    have hfirst : region m a t.size = t.octets .host := by
      have hholds := h.1
      rwa [Holds, Tlv.octets_length] at hholds
    rw [records, List.map_cons, List.map_cons, ih h.2, hfirst]

theorem exists_record {t : Tlv} {ts : List Tlv} (a : ℕ) (h : t ∈ ts) :
    ∃ p, ⟨p, t.size, t.id⟩ ∈ records a ts := by
  induction ts generalizing a with
  | nil => exact absurd h List.not_mem_nil
  | cons x ts ih =>
    rcases List.mem_cons.mp h with rfl | h
    · exact ⟨a, List.mem_cons_self⟩
    · obtain ⟨p, hp⟩ := ih (a + x.size) h
      exact ⟨p, List.mem_cons_of_mem _ hp⟩

section Step
variable {s s' : Build} {c : Octet}

theorem Untouched.same (h : Untouched s c) (hsame : Same s s') : Untouched s' c := by
  have hmin := h.msgSize_le
  rw [msgSize] at hmin
  have hdraft : Draft s'.msg s'.buf := hsame.msg ▸ h.congr hsame.size fun a _ ha => hsame.octets a ha
  refine ⟨hdraft, ?_, ?_, ?_, ?_, ?_⟩
  · rw [hsame.params]
    exact h.control
  · rw [hsame.params]
    refine h.header.congr fun a _ ha => hsame.octets a ?_
    rw [headerOctets_length] at ha
    omega
  · rw [hsame.bufLen, hsame.msg]
    exact h.bufLen
  · rw [hsame.added, hsame.msg, h.added]
    refine List.map_congr_left fun r hr => ?_
    obtain ⟨-, hhi, -⟩ := h.tiled.mem hr
    exact region_congr fun a _ ha => (hsame.octets a (by omega)).symm
  · rw [hsame.msg]
    exact h.gt

theorem Untouched.grown {r : TlvRec} (h : Untouched s c) (hgrown : Grown s s' r) : Untouched s' c := by
  have hmin := h.msgSize_le
  rw [msgSize] at hmin
  have hr : r.tlv = s.msg.len := hgrown.appends.tlv_eq h.toFullLayout
  have hbelow : ∀ a, a < s.msg.len → s'.buf.mem a = s.buf.mem a :=
    fun a ha => hgrown.appends.below a (by omega)
  have hlen : s'.msg.len = s.msg.len + r.len := congrArg PtpMsg.len hgrown.appends.result
  refine ⟨h.toDraft.appends hgrown.appends hgrown.size, ?_, ?_, ?_, ?_, ?_⟩
  · rw [hgrown.params]
    exact h.control
  · rw [hgrown.params]
    refine h.header.congr fun a _ ha => hbelow a ?_
    rw [headerOctets_length] at ha
    omega
  · have hroom := hgrown.appends.room
    have hleft := h.left
    rw [hlen]
    exact hgrown.appends.bufLen (by omega)
  · rw [hgrown.added, hgrown.tlvs, List.map_append, List.map_singleton, h.added]
    congr 1
    refine List.map_congr_left fun x hx => ?_
    obtain ⟨-, hhi, -⟩ := h.tiled.mem hx
    exact region_congr fun a _ ha => (hbelow a (by omega)).symm
  · rw [hgrown.tlvs]
    intro x hx
    rcases List.mem_append.mp hx with hx | hx
    · exact h.gt x hx
    · rw [List.mem_singleton.mp hx]
      exact hgrown.appends.recorded.gt

theorem init_untouched {params : PtpParams} {buf : Buf} (hinit : (s.msg.init params buf).1 = true) :
    ∃ c, Untouched ⟨(s.msg.init params buf).2.1, (s.msg.init params buf).2.2, params, [], false⟩ c := by
  obtain ⟨c, hbuilt⟩ := started_built hinit
  have htlvs : (s.msg.init params buf).2.1.tlvs = [] := hbuilt.tlvs
  refine ⟨c, init_draft hinit, hbuilt.control, (holds_append.mp hbuilt.holds).1, hbuilt.bufLen, ?_, ?_⟩
  · rw [htlvs]
    rfl
  · rw [htlvs]
    exact fun r hr => absurd hr List.not_mem_nil

/-- What is kept until a message is finished without a TLV. -/
def Guarded (s : Build) : Prop :=
  s.bare = true ∨ s.msg = .detach ∨ Stuck s.msg s.buf ∨ ∃ c, Untouched s c

theorem Guarded.same (h : Guarded s) (hsame : Same s s') : Guarded s' := by
  rcases h with hbare | hdetach | hstuck | ⟨c, huntouched⟩
  · exact .inl (hsame.bare.trans hbare)
  · exact .inr (.inl (hsame.msg.trans hdetach))
  · refine .inr (.inr (.inl ?_))
    exact hsame.msg ▸ hstuck.congr hsame.size fun a _ ha => hsame.octets a ha
  · exact .inr (.inr (.inr ⟨c, huntouched.same hsame⟩))

theorem Guarded.grown {r : TlvRec} (h : Guarded s) (hgrown : Grown s s' r) : Guarded s' := by
  rcases h with hbare | hdetach | hstuck | ⟨c, huntouched⟩
  · exact .inl (hgrown.bare.trans hbare)
  · exact absurd hdetach hgrown.attached
  · exact .inr (.inr (.inl (hstuck.appends hgrown.appends hgrown.size)))
  · exact .inr (.inr (.inr ⟨c, huntouched.grown hgrown⟩))

theorem Guarded.buildDone (h : Guarded s) (size : ℕ) : Guarded ((BuildCall.buildDone size).apply s) := by
  rcases h with hbare | hdetach | hstuck | ⟨c, huntouched⟩
  · left
    simp only [BuildCall.apply, hbare, Bool.true_or]
  · exact .inr (.inl (buildDone_detached hdetach size))
  · exact Guarded.same (.inr (.inr (.inl hstuck))) (hstuck.buildDone_same size)
  · rcases huntouched.toDraft.buildDone_cases size with hsame | hstuck | ⟨hbare, -⟩
    · exact .inr (.inr (.inr ⟨c, huntouched.same hsame⟩))
    · exact .inr (.inr (.inl hstuck))
    · exact .inl hbare

theorem Guarded.adds (h : Guarded s) (hend : s.msg = .detach ∨ s.msg.endPtr = some s.msg.len)
    {call : BuildCall} (hlegal : call.Legal s) (hadds : call.Adds) : Guarded (call.apply s) := by
  rcases adds_cases hend hlegal hadds with ⟨params, buf, hinit, happly⟩ | hsame | ⟨r, hgrown⟩
  · rw [happly]
    exact .inr (.inr (.inr (init_untouched hinit)))
  · exact h.same hsame
  · exact h.grown hgrown

/-- A draft with its header in host order conveys what was put in when it is finished. -/
theorem Untouched.conveys (h : Untouched s c) {size : ℕ}
    (hdone : (s.msg.buildDone size s.buf).1 = true) (hflags : s.params.flagField2.toNat < 64)
    (hle : finalSize s.msg.len size ≤ 65535) : Conveys s (s.msg.buildDone size s.buf).2.2 := by
  have hok := ((h.buildDone_iff size).mp hdone).1
  obtain ⟨ts, hfin⟩ := h.finishes hdone
  have htlvs := hfin.tlvs
  have hlen := hfin.len
  have hall : Holds s.buf.mem 0 (headerOctets .host s.params c 0 ++ tlvsOctets .host ts) := by
    rw [holds_append, headerOctets_length]
    exact ⟨h.header, hfin.host⟩
  have hfew : ts.length ≤ maxTlvs := by
    have hfew := h.few
    rwa [htlvs, records_length] at hfew
  have hbuilt : Built s.msg s.buf s.params c ts :=
    ⟨h.control, h.attached, hlen, h.endPtr, h.left_eq, htlvs, hfew, h.len_le, h.bufLen, hall⟩
  obtain ⟨msg', buf', hrun, -, hlen', hdata⟩ := hbuilt.buildDone hok
  have hcases := hfin.final_cases
  rw [hrun]
  refine ⟨ts, c, h.control, ?_, by rw [hdata, hlen'], ?_⟩
  · rw [h.added, htlvs]
    exact map_region_records hfin.host
  · rw [hdata]
    refine readsAs_wireOctets s.params (by omega) (by omega) h.control hflags hfew fun t ht => ?_
    obtain ⟨p, hp⟩ := exists_record 44 ht
    exact h.gt _ (htlvs ▸ hp)

end Step

theorem guarded_of_run {calls : List BuildCall} {s : Build}
    (h : BuildRun (fun _ call => call.Builds) calls s) : Phase s ∧ Guarded s := by
  refine @Run.invariant _ _ _ _ _ _ (fun _ s => Phase s ∧ Guarded s)
    (fun s hs => ⟨.detached hs.1, .inr (.inl hs.1)⟩) ?_ h
  rintro past s call s' ⟨hphase, hguarded⟩ ⟨hlegal, hbuilds, rfl⟩
  refine ⟨hphase.apply hlegal hbuilds.whole, ?_⟩
  cases call with
  | buildDone size => exact hguarded.buildDone size
  | parse params buf => exact hbuilds.elim
  | _ => exact hguarded.adds hphase.endPtr hlegal trivial

/-- In every run, each call of `_buildDone` that succeeds leaves what was put in, converted once, unless
the message was finished before with no TLV in it. -/
theorem conveys_of_run {calls : List BuildCall} {s : Build}
    (hrun : BuildRun (fun _ call => call.Builds) calls s) (hbare : s.bare = false)
    (hflags : s.params.flagField2.toNat < 64) {size : ℕ} (hle : finalSize s.msg.len size ≤ 65535)
    (hdone : (s.msg.buildDone size s.buf).1 = true) : Conveys s (s.msg.buildDone size s.buf).2.2 := by
  rcases (guarded_of_run hrun).2 with hbare' | hdetach | hstuck | ⟨c, huntouched⟩
  · rw [hbare] at hbare'
    exact absurd hbare' (by simp)
  · rw [hdetach] at hdone
    exact absurd hdone (by simp [PtpMsg.buildDone, PtpMsg.detach])
  · rw [hstuck.buildDone_eq] at hdone
    exact absurd hdone (by simp)
  · exact huntouched.conveys hdone hflags hle

section Sample

def sampleBare : Build := (BuildCall.buildDone 0).apply sampleStarted

/-- Without a TLV, the second call of `_buildDone` swaps the header back. -/
theorem conveys_of_run_fails :
    ∃ s, BuildRun (fun _ call => call.Builds) [.init sampleParams sampleBuf, .buildDone 0] s ∧
      s.params.flagField2.toNat < 64 ∧ finalSize s.msg.len 0 ≤ 65535 ∧
      (s.msg.buildDone 0 s.buf).1 = true ∧ ¬ Conveys s (s.msg.buildDone 0 s.buf).2.2 := by
  have hfresh : BuildRun (fun _ call => call.Builds) [] sampleFresh := Run.start ⟨rfl, rfl, rfl⟩
  have hstarted := hfresh.next (.init sampleParams sampleBuf) trivial trivial
  have hbare : BuildRun (fun _ call => call.Builds) _ sampleBare :=
    hstarted.next (.buildDone 0) trivial trivial
  refine ⟨sampleBare, hbare, by decide +kernel, by decide +kernel, by decide +kernel, ?_⟩
  rintro ⟨ts, c, -, -, -, hreads⟩
  have hparams := (hreads _ .detach .zero rfl).2.1
  exact absurd (congrArg PtpParams.correctionField hparams) (by decide +kernel)

theorem conveys_of_run_sample :
    ∃ calls s, BuildRun (fun _ call => call.Builds) calls s ∧ s.added.length = 1 ∧
      (s.msg.buildDone 96 s.buf).1 = true ∧ Conveys s (s.msg.buildDone 96 s.buf).2.2 := by
  have hfresh : BuildRun (fun _ call => call.Builds) [] sampleFresh := Run.start ⟨rfl, rfl, rfl⟩
  have hstarted := hfresh.next (.init sampleParams sampleBuf) trivial trivial
  have hasked : BuildRun (fun _ call => call.Builds) _ sampleAsked :=
    hstarted.next (.addCSPTPReqTlv 3) trivial trivial
  have hdone : (sampleAsked.msg.buildDone 96 sampleAsked.buf).1 = true := by decide +kernel
  exact ⟨_, sampleAsked, hasked, by decide +kernel, hdone, conveys_of_run hasked (by decide +kernel)
    (by decide +kernel) (by decide +kernel) hdone⟩

end Sample

end Csptp

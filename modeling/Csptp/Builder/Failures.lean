import Csptp.Builder.Runs

/-! # Calls that fail

Every check of `_init`, `_addTlv` and `_addCSPTPReqTlv` comes before the first lasting write. The
conversion loop of `_buildDone` does not look ahead: where it stops at a later record, the TLVs in front
of it have been converted. -/
namespace Csptp
open Octets Octets.Prog Runs
set_option autoImplicit false

theorem swap_code_of_both {m : Mem} {p : ℕ} {id : TlvTypeId} (hhost : Holds m p (inOrder .host id.code))
    (hnet : Holds m p (inOrder .net id.code)) : swap id.code = id.code := by
  have hword : ofOctets 16 (region m p (16 / 8)) = id.code := ofOctets_region_of_host rfl hhost
  have hswap : swap (ofOctets 16 (region m p (16 / 8))) = id.code := swap_region_of_net rfl hnet
  rwa [hword] at hswap

/-- A TLV in host order does not begin with its type in network order. -/
theorem HostTlv.not_net {m : Mem} {r : TlvRec} (h : HostTlv m r) :
    ¬ Holds m r.tlv (inOrder .net r.id.code) := by
  obtain ⟨t, hid, -, hholds⟩ := h
  rw [← hid]
  exact fun hnet => TlvTypeId.swap_code_ne t.id_valid (swap_code_of_both (holds_header hholds).1 hnet)

section BuildDone
variable {msg : PtpMsg} {buf : Buf} {size : ℕ}

theorem Draft.unchanged_iff (h : Draft msg buf) (hfalse : (msg.buildDone size buf).1 = false) :
    Unchanged msg buf (msg.buildDone size buf).2 ↔ ¬ StopsLate msg buf size := by
  refine ⟨fun hsame hlate => ?_, h.buildDone_unchanged hfalse⟩
  obtain ⟨-, r, rs, htlvs, hhost, hnet⟩ := h.buildDone_late hlate
  have hmem := h.tiled.mem (htlvs ▸ List.mem_cons_self (a := r))
  have hfour := hhost.four_le
  refine hhost.not_net (hnet.congr fun a _ ha => (hsame.octets a ?_).symm)
  rw [inOrder_length] at ha
  omega

theorem Stuck.not_stopsLate (h : Stuck msg buf) : ¬ StopsLate msg buf size := by
  rintro ⟨-, r, rs, htlvs, hhost, -⟩
  obtain ⟨x, xs, hx, -, -, -, hnet⟩ := h.swapped
  obtain ⟨rfl, -⟩ := List.cons.inj (htlvs.symm.trans hx)
  exact hhost.not_net hnet

end BuildDone

/-- The checks of the other calls come before the first lasting write. -/
theorem unchanged_of_adds {s : Build} (hphase : Phase s) {call : BuildCall} (hadds : call.Adds)
    (hfalse : (call.result s).1 = false) : Unchanged s.msg (call.buffer s) (call.result s).2 := by
  cases call with
  | init params buf =>
    rw [BuildCall.result, init_false hfalse]
    exact unchanged_refl s.msg buf
  | fill m => exact absurd hfalse (by simp [BuildCall.result])
  | addTlv id =>
    rcases hphase.endPtr with hdetach | hend
    · rw [BuildCall.result, hdetach]
      exact unchanged_refl _ s.buf
    · exact addTlv_false hend hfalse
  | addCSPTPReqTlv flags =>
    rw [BuildCall.result, addCSPTPReqTlv_false hfalse]
    exact unchanged_refl s.msg s.buf
  | buildDone size => exact hadds.elim
  | parse params buf => exact hadds.elim

theorem unchanged_of_buildDone {s : Build} (hphase : Phase s) {size : ℕ}
    (hfalse : (s.msg.buildDone size s.buf).1 = false) :
    Unchanged s.msg s.buf (s.msg.buildDone size s.buf).2 ↔ ¬ StopsLate s.msg s.buf size := by
  cases hphase with
  | detached h =>
    rw [h]
    refine iff_of_true (unchanged_refl _ s.buf) ?_
    rintro ⟨-, r, rs, htlvs, -⟩
    exact absurd htlvs (by simp [PtpMsg.detach])
  | draft h => exact h.unchanged_iff hfalse
  | stuck h =>
    rw [h.buildDone_eq]
    exact iff_of_true (unchanged_refl s.msg s.buf) h.not_stopsLate

/-- A call that fails changes nothing, unless it is one of `_buildDone` that stops late. -/
theorem failing_unchanged {calls : List BuildCall} {s : Build}
    (hrun : BuildRun (fun _ call => call.Builds) calls s) {call : BuildCall} (hcall : call.Builds)
    (hfalse : (call.result s).1 = false) :
    Unchanged s.msg (call.buffer s) (call.result s).2 ↔
      ¬ ∃ size, call = .buildDone size ∧ StopsLate s.msg s.buf size := by
  have hphase := phase_of_run (fun _ _ h => BuildCall.Builds.whole h) hrun
  cases call with
  | buildDone size =>
    refine (unchanged_of_buildDone hphase hfalse).trans (not_congr ⟨fun hlate => ⟨size, rfl, hlate⟩, ?_⟩)
    rintro ⟨n, hn, hlate⟩
    cases hn
    exact hlate
  | parse params buf => exact hcall.elim
  | _ =>
    refine iff_of_true (unchanged_of_adds hphase trivial hfalse) ?_
    rintro ⟨size, hsize, -⟩
    cases hsize

section Sample

/-- A request and a misfit behind it: the message is refused, and the request is in network order. -/
theorem failing_unchanged_fails :
    ∃ s, BuildRun (fun _ call => call.Builds) sampleCalls s ∧
      ((BuildCall.buildDone 0).result s).1 = false ∧
      ¬ Unchanged s.msg ((BuildCall.buildDone 0).buffer s) ((BuildCall.buildDone 0).result s).2 := by
  refine ⟨sampleMisfit, sampleMisfit_run fun _ _ => BuildCall.Adds.builds, by decide +kernel,
    fun hsame => ?_⟩
  have hoctet := hsame.octets 44 (by decide +kernel)
  exact absurd hoctet (by decide +kernel)

/-- An odd size is refused before anything is converted. -/
theorem failing_unchanged_sample :
    ∃ s, BuildRun (fun _ call => call.Builds) sampleCalls s ∧
      ((BuildCall.buildDone 73).result s).1 = false ∧
      (Unchanged s.msg ((BuildCall.buildDone 73).buffer s) ((BuildCall.buildDone 73).result s).2 ↔
        ¬ ∃ size, BuildCall.buildDone 73 = .buildDone size ∧ StopsLate s.msg s.buf size) := by
  have hrun : BuildRun (fun _ call => call.Builds) sampleCalls sampleMisfit :=
    sampleMisfit_run fun _ _ => BuildCall.Adds.builds
  have hfalse : ((BuildCall.buildDone 73).result sampleMisfit).1 = false := by decide +kernel
  exact ⟨sampleMisfit, hrun, hfalse, failing_unchanged hrun trivial hfalse⟩

end Sample

end Csptp

import Csptp.Runs
import Csptp.Wire.Restore

/-! # The layout of a message object

An object that is attached to a buffer keeps account of the buffer in four fields. Each call moves them
in its own way, and `_parse` computes them anew: it counts the whole message, but puts the pointer to
unused memory behind the TLVs that it knows. -/
namespace Csptp
open Octets Octets.Prog Runs
set_option autoImplicit false

/-! ## Layout -/

/-- The unused memory of a buffer of this size begins behind the message, and the TLVs lie one behind
the other between the header and its end. -/
structure Layout (msg : PtpMsg) (bufSize : ℕ) : Prop where
  endPtr : msg.endPtr = some msg.len
  left : msg.len + msg.left = bufSize
  few : msg.tlvs.length ≤ maxTlvs
  tiles : ∃ q, Tiles msg.tlvs msgSize q ∧ q ≤ msg.len

/-- The TLVs reach to the end of the message as long as there is a place for another one. -/
structure FullLayout (msg : PtpMsg) (bufSize : ℕ) : Prop extends Layout msg bufSize where
  full : msg.tlvs.length < maxTlvs → Tiles msg.tlvs msgSize msg.len

section Calls
variable {msg : PtpMsg} {buf : Buf}

/-! ## Calls that build -/

theorem init_layout {params : PtpParams} (h : (msg.init params buf).1 = true) :
    FullLayout (msg.init params buf).2.1 buf.size := by
  rw [PtpMsg.init] at h ⊢
  split at h
  · exact absurd h (by simp)
  · rename_i hsize
    rw [if_neg hsize]
    cases hc : params.type.controlField with
    | none => simp [hc] at h
    | some c =>
      refine ⟨⟨rfl, ?_, Nat.zero_le _, msgSize, rfl, le_rfl⟩, fun _ => rfl⟩
      dsimp only
      omega

theorem record_layout {h sz : ℕ} {id : TlvTypeId} (hl : FullLayout msg buf.size)
    (hend : msg.endPtr = some h) (hfew : msg.tlvs.length ≠ maxTlvs) (hmin : minTlvSize id ≤ sz)
    (hroom : sz ≤ msg.left) (b : Buf) : FullLayout (msg.record b h sz id).1 buf.size := by
  have hlt : msg.tlvs.length < maxTlvs := lt_of_le_of_ne hl.few hfew
  have hlen : h = msg.len := Option.some.inj (hend.symm.trans hl.endPtr)
  have hleft := hl.left
  have hnext : Tiles (msg.tlvs ++ [⟨h, sz, id⟩]) msgSize (msg.len + sz) :=
    (hl.full hlt).append hlen hmin
  refine ⟨⟨?_, ?_, ?_, msg.len + sz, hnext, le_rfl⟩, fun _ => hnext⟩
  · rw [hlen]
    rfl
  · dsimp only [PtpMsg.record]
    omega
  · dsimp only [PtpMsg.record]
    rw [List.length_append]
    exact hlt

theorem addTlv_layout {id : TlvTypeId} (hl : FullLayout msg buf.size) :
    FullLayout (msg.addTlv id buf).2.1 buf.size := by
  rw [PtpMsg.addTlv, hl.endPtr]
  dsimp only
  split_ifs with hfull hhdr hmin hroom
  · exact hl
  · exact hl
  · exact hl
  · exact hl
  · split
    · exact hl
    · rename_i add _
      split_ifs with hsize
      · exact hl
      · exact record_layout hl hl.endPtr hfull (Nat.le_add_right _ _) (by omega) _

theorem addCSPTPReqTlv_layout {flags : Octet} (hl : FullLayout msg buf.size) :
    FullLayout (msg.addCSPTPReqTlv flags buf).2.1 buf.size := by
  rw [PtpMsg.addCSPTPReqTlv, hl.endPtr]
  dsimp only
  split_ifs with hfull hroom
  · exact hl
  · exact hl
  · exact record_layout hl hl.endPtr hfull (show minTlvSize .csptpRequest ≤ csptpReq from le_rfl)
      (by omega) _

theorem recordPad_layout {padSz : ℕ} (hl : FullLayout msg buf.size) (hpad : tlvHdr ≤ padSz)
    (hroom : padSz ≤ msg.left) : FullLayout (msg.recordPad msg.len padSz) buf.size := by
  obtain ⟨q, htiles, hle⟩ := hl.tiles
  have hleft := hl.left
  have hfew := hl.few
  rw [PtpMsg.recordPad]
  by_cases hlt : msg.tlvs.length < maxTlvs
  · have hnext : Tiles (msg.tlvs ++ [⟨msg.len, padSz, .pad⟩]) msgSize (msg.len + padSz) :=
      (hl.full hlt).append rfl hpad
    simp only [if_pos hlt]
    refine ⟨⟨rfl, by dsimp only; omega, ?_, msg.len + padSz, hnext, le_rfl⟩, fun _ => hnext⟩
    dsimp only
    rw [List.length_append]
    exact hlt
  · simp only [if_neg hlt]
    refine ⟨⟨rfl, by dsimp only; omega, hfew, q, htiles, ?_⟩, fun h => absurd h hlt⟩
    dsimp only
    omega

theorem buildDone_layout {size : ℕ} (hl : FullLayout msg buf.size) :
    FullLayout (msg.buildDone size buf).2.1 buf.size := by
  rw [PtpMsg.buildDone, hl.endPtr]
  dsimp only
  by_cases hattached : msg.attached = false
  · rw [if_pos hattached]
    exact hl
  · rw [if_neg hattached]
    cases msg.buildSize size buf with
    | none => exact hl
    | some final =>
      dsimp only
      split_ifs with hpad hconv hrecord
      · exact hl
      · exact hl
      · rw [tlvHdr] at hpad hrecord
        exact recordPad_layout hl hrecord (by omega)
      · exact hl

end Calls

/-! ## Reading a message -/

/-- What `_parse` accepts, also with a length that does not cover the header. -/
def Accepted (b : Buf) : Prop :=
  msgSize ≤ b.len ∧ messageLength b.mem ≤ b.len ∧ HeaderValid b.mem

/-- At most four TLVs fill the message, and the last of them is not a PAD TLV without data. -/
structure WholeMessage (m : Mem) : Prop where
  header : msgSize ≤ messageLength m
  tiled : ∃ ts, Tiling m 44 (tlvArea m) maxTlvs ts ∧ tlvsSize ts = tlvArea m
  notBare : ¬ EndsInBarePad m

theorem parse_accepted (msg : PtpMsg) (prms : PtpParams) (b : Buf) :
    ((msg.parse prms b).ok = true ↔ Accepted b) ∧
      ((msg.parse prms b).ok = true → (msg.parse prms b).self.len = messageLength b.mem) := by
  have hfits := b.len_le
  have hreject (h : ¬ Accepted b) (hnone : ((parseMsg b.len b.size).run b.mem).1 = none) :
      ((msg.parse prms b).ok = true ↔ Accepted b) ∧
        ((msg.parse prms b).ok = true → (msg.parse prms b).self.len = messageLength b.mem) := by
    rw [PtpMsg.parse_of_none _ _ hnone]
    exact ⟨⟨fun hok => absurd hok (by simp), fun hacc => absurd hacc h⟩, fun hok => absurd hok (by simp)⟩
  by_cases hlen : b.len < msgSize
  · apply hreject fun h => absurd h.1 (by omega)
    rw [parseMsg, if_neg (by omega), if_pos hlen]
    rfl
  · by_cases hle : messageLength b.mem ≤ b.len
    · have hiff := (parseHeader_iff (headerReversed b.mem)).1
      have hrun := run_parseMsg (show msgSize ≤ b.len by omega) hle
      rw [headerValid_reversed] at hiff
      cases hheader : (parseHeader.run (headerReversed b.mem)).1 with
      | none =>
        rw [hheader] at hiff hrun
        exact hreject (fun h => absurd (hiff.mpr h.2.2) (by simp)) (congrArg Prod.fst hrun)
      | some type =>
        rw [hheader] at hiff hrun
        rw [PtpMsg.parse_of_some msg prms (congrArg Prod.fst hrun)]
        exact ⟨⟨fun _ => ⟨by omega, hle, hiff.mp rfl⟩, fun _ => rfl⟩, fun _ => rfl⟩
    · apply hreject fun h => hle h.2.1
      rw [parseMsg, if_neg (by omega), if_neg hlen, run_bind, run_netToCpuMsg_any, if_pos (by omega)]
      rfl

theorem tiles_records (a : ℕ) (ts : List Tlv) : Tiles (records a ts) a (a + tlvsSize ts) := by
  induction ts generalizing a with
  | nil => rfl
  | cons t ts ih =>
    have hrest := ih (a + t.size)
    rw [Nat.add_assoc, ← tlvsSize_cons] at hrest
    exact ⟨rfl, t.minTlvSize_le, hrest⟩

theorem full_of_whole {m : Mem} {ts : List Tlv} (h : WholeMessage m)
    (hscan : Scan m 44 (tlvArea m) maxTlvs ts) : tlvsSize ts = tlvArea m := by
  obtain ⟨us, hus, hfull⟩ := h.tiled
  have hlen := ((longest_iff hscan).mpr h.notBare).longest us hus
  have htake := tlvsSize_take hscan.holds hus.holds hlen le_rfl
  have hle := tlvsSize_take_le ts us.length
  rw [htake, List.take_length, hfull] at hle
  exact le_antisymm hscan.fits hle

theorem whole_of_full {m : Mem} {ts : List Tlv} (hmin : msgSize ≤ messageLength m)
    (hscan : Scan m 44 (tlvArea m) maxTlvs ts) (hfull : tlvsSize ts = tlvArea m) :
    WholeMessage m := by
  refine ⟨hmin, ⟨ts, hscan.toTiling, hfull⟩, ?_⟩
  apply (longest_iff hscan).mp
  refine ⟨hscan.toTiling, fun us hus => ?_⟩
  by_contra hlt
  obtain ⟨u, -, -, -, ⟨-, hle⟩, -⟩ := hscan.next hus (by omega)
  have hpos := u.four_le_size
  omega

/-- A message that was accepted leaves the layout exactly when it is whole. -/
theorem parse_layout_iff (msg : PtpMsg) (prms : PtpParams) {b : Buf} (h : Accepted b) :
    (Layout (msg.parse prms b).self b.size ↔ WholeMessage b.mem) ∧
      (WholeMessage b.mem → FullLayout (msg.parse prms b).self b.size) := by
  obtain ⟨hiff, hlen⟩ := parse_accepted msg prms b
  have hok := hiff.mpr h
  have hwhole (hw : WholeMessage b.mem) : FullLayout (msg.parse prms b).self b.size := by
    obtain ⟨type, ts, hscan, hself, -⟩ := (parse_any msg prms hw.header h.2.1).2 hok
    have hfull := full_of_whole hw hscan
    have hfits := b.len_le
    have hsize := b.size_lt
    have hmin := hw.header
    have hle := h.2.1
    have hend : 44 + tlvsSize ts = messageLength b.mem := by
      rw [hfull, tlvArea]
      rw [msgSize] at hmin
      omega
    have htiles : Tiles (records 44 ts) msgSize (messageLength b.mem) := by
      rw [← hend]
      exact tiles_records 44 ts
    rw [hself]
    refine ⟨⟨congrArg some hend, ?_, ?_, _, htiles, le_rfl⟩, fun _ => htiles⟩
    · have hleft : (parsedMsg b type ts).left = b.size - messageLength b.mem := by
        rw [parsedMsg, hfull, Nat.sub_self, Nat.zero_add]
        exact Nat.mod_eq_of_lt (by omega)
      rw [hleft]
      change messageLength b.mem + (b.size - messageLength b.mem) = b.size
      omega
    · rw [parsedMsg, records_length]
      exact hscan.few
  refine ⟨⟨fun hl => ?_, fun hw => (hwhole hw).toLayout⟩, hwhole⟩
  obtain ⟨q, htiles, hq⟩ := hl.tiles
  have hmin : msgSize ≤ messageLength b.mem := by
    rw [← hlen hok]
    exact htiles.le.trans hq
  obtain ⟨type, ts, hscan, hself, -⟩ := (parse_any msg prms hmin h.2.1).2 hok
  have hend := hl.endPtr
  rw [hself] at hend
  have hend : 44 + tlvsSize ts = messageLength b.mem := Option.some.inj hend
  refine whole_of_full hmin hscan ?_
  rw [tlvArea]
  omega

/-! ## Runs of calls -/

/-- A message object and the size of the buffer that it is attached to. -/
structure MsgObject where
  msg : PtpMsg
  bufSize : ℕ

/-- A call, with the buffer as it is then: what lies in it, and how much of it is data, is up to others. -/
inductive MsgCall
  | init (params : PtpParams) (buf : Buf)
  | addTlv (id : TlvTypeId) (buf : Buf)
  | addCSPTPReqTlv (flags : Octet) (buf : Buf)
  | buildDone (size : ℕ) (buf : Buf)
  | parse (params : PtpParams) (buf : Buf)

namespace MsgCall

/-- The buffer of a call that builds is the one that the object is attached to. -/
def OnAttached (s : MsgObject) : MsgCall → Prop
  | init _ _ | parse _ _ => True
  | addTlv _ buf | addCSPTPReqTlv _ buf | buildDone _ buf => buf.size = s.bufSize

def apply (s : MsgObject) : MsgCall → MsgObject
  | init params buf =>
    let r := s.msg.init params buf
    ⟨r.2.1, if r.1 then buf.size else s.bufSize⟩
  | addTlv id buf => ⟨(s.msg.addTlv id buf).2.1, s.bufSize⟩
  | addCSPTPReqTlv flags buf => ⟨(s.msg.addCSPTPReqTlv flags buf).2.1, s.bufSize⟩
  | buildDone size buf => ⟨(s.msg.buildDone size buf).2.1, s.bufSize⟩
  | parse params buf =>
    let r := s.msg.parse params buf
    ⟨r.self, if r.ok then buf.size else s.bufSize⟩

/-- What is accepted is whole. -/
def Whole : MsgCall → Prop
  | parse _ buf => Accepted buf → WholeMessage buf.mem
  | _ => True

end MsgCall

/-- The runs of calls on one object that all meet a condition. -/
def MsgRun (meets : MsgCall → Prop) : List MsgCall → MsgObject → Prop :=
  Run (· = ⟨.detach, 0⟩) fun _ s call s' => call.OnAttached s ∧ meets call ∧ s' = call.apply s

theorem MsgRun.next {meets : MsgCall → Prop} {calls : List MsgCall} {s : MsgObject} {call : MsgCall}
    (h : MsgRun meets calls s) (hon : call.OnAttached s) (hmeets : meets call) :
    MsgRun meets (calls ++ [call]) (call.apply s) := Run.step h ⟨hon, hmeets, rfl⟩

theorem init_false {msg : PtpMsg} {params : PtpParams} {buf : Buf}
    (h : (msg.init params buf).1 = false) : (msg.init params buf).2 = (msg, buf) := by
  rw [PtpMsg.init] at h ⊢
  split_ifs at h ⊢ with hsize
  · rfl
  · cases hc : params.type.controlField with
    | none => rfl
    | some c => simp [hc] at h

theorem parse_false {msg : PtpMsg} {prms : PtpParams} {b : Buf} (h : (msg.parse prms b).ok = false) :
    (msg.parse prms b).self = msg := by
  rw [PtpMsg.parse] at h ⊢
  cases hr : ((parseMsg b.len b.size).run b.mem).1 with
  | none => rfl
  | some r => simp [hr] at h

/-- A fresh object, or one with the full layout. -/
def MsgObject.Kept (s : MsgObject) : Prop := s.msg = .detach ∨ FullLayout s.msg s.bufSize

/-- A call that builds on the attached buffer, and on nothing when there is none. -/
theorem MsgObject.Kept.builds {s : MsgObject} (h : s.Kept) {msg : PtpMsg} {buf : Buf}
    (hon : buf.size = s.bufSize) (hdetach : s.msg = .detach → msg = .detach)
    (hfull : FullLayout s.msg buf.size → FullLayout msg buf.size) :
    (⟨msg, s.bufSize⟩ : MsgObject).Kept := by
  rw [hon] at hfull
  exact h.imp hdetach hfull

theorem MsgObject.Kept.apply {s : MsgObject} (h : s.Kept) {call : MsgCall} (hon : call.OnAttached s)
    (hwhole : call.Whole) : (call.apply s).Kept := by
  cases call with
  | init params buf =>
    cases hr : (s.msg.init params buf).1 with
    | false =>
      rw [MsgCall.apply, hr, init_false hr]
      exact h
    | true =>
      rw [MsgCall.apply, hr]
      exact .inr (init_layout hr)
  | addTlv id buf =>
    refine h.builds hon (fun hdetach => ?_) addTlv_layout
    rw [hdetach]
    rfl
  | addCSPTPReqTlv flags buf =>
    refine h.builds hon (fun hdetach => ?_) addCSPTPReqTlv_layout
    rw [hdetach]
    rfl
  | buildDone size buf =>
    refine h.builds hon (fun hdetach => ?_) buildDone_layout
    rw [hdetach]
    rfl
  | parse params buf =>
    cases hr : (s.msg.parse params buf).ok with
    | false =>
      rw [MsgCall.apply, hr, parse_false hr]
      exact h
    | true =>
      have hacc := (parse_accepted s.msg params buf).1.mp hr
      rw [MsgCall.apply, hr]
      exact .inr ((parse_layout_iff s.msg params hacc).2 (hwhole hacc))

/-- After any calls, if all messages that were accepted were whole, an attached object has its layout. -/
theorem layout_of_run {calls : List MsgCall} {s : MsgObject} (h : MsgRun MsgCall.Whole calls s)
    (hattached : s.msg.attached = true) : Layout s.msg s.bufSize := by
  have hkept : s.Kept := by
    refine @Run.invariant _ _ _ _ _ _ (fun _ s => s.Kept) ?_ ?_ h
    · rintro s rfl
      exact .inl rfl
    · rintro past s call s' hkept ⟨hon, hwhole, rfl⟩
      exact hkept.apply hon hwhole
  rcases hkept with hdetach | hfull
  · rw [hdetach] at hattached
    exact absurd hattached (by decide)
  · exact hfull.toLayout

section Sample

/-- One message with an unknown TLV is enough: the pointer is behind the header, and the length is that
of the message. -/
theorem layout_of_run_fails :
    ∃ calls s, MsgRun (fun _ => True) calls s ∧ s.msg.attached = true ∧
      s.msg.endPtr = some 44 ∧ s.msg.len = 56 ∧ s.bufSize = 64 ∧ s.msg.left = 20 ∧
      ¬ Layout s.msg s.bufSize := by
  have hstart : MsgRun (fun _ => True) [] ⟨.detach, 0⟩ := Run.start rfl
  have hrun : MsgRun (fun _ => True) [.parse .zero sampleUnknown] _ :=
    MsgRun.next hstart trivial trivial
  have hmsg : ((MsgCall.parse .zero sampleUnknown).apply ⟨.detach, 0⟩).msg =
      { attached := true, type := some .sync, len := 56, endPtr := some 44, left := 20, tlvs := [] } := by
    decide +kernel
  refine ⟨_, _, hrun, by rw [hmsg], by rw [hmsg], by rw [hmsg], by decide +kernel, by rw [hmsg], ?_⟩
  intro hl
  have hend := hl.endPtr
  rw [hmsg] at hend
  exact absurd hend (by decide)

theorem whole_sampleSync : WholeMessage (sampleSync [.request (requestFlags 3)]).mem := by
  have htiling : Tiling (sampleSync [.request (requestFlags 3)]).mem 44
      (tlvArea (sampleSync [.request (requestFlags 3)]).mem) maxTlvs [.request (requestFlags 3)] :=
    ⟨by unfold Holds; decide +kernel, by decide +kernel, by decide⟩
  refine ⟨by decide +kernel, ⟨_, htiling, by decide +kernel⟩, ?_⟩
  rintro ⟨ts, hts, hfull⟩
  have harea : tlvArea (sampleSync [.request (requestFlags 3)]).mem = 8 := by decide +kernel
  have hpad : tlvsSize [barePad] = 4 := rfl
  have hholds := hts.holds
  rw [tlvsSize_append, hpad, harea] at hfull
  rw [tlvsOctets_append, holds_append, tlvsOctets_length, show tlvsSize ts = 4 by omega] at hholds
  have hlast := hholds.2
  unfold Holds at hlast
  exact absurd hlast (by decide +kernel)

/-- A received request, and another one behind it. -/
theorem layout_of_run_sample :
    ∃ s, MsgRun MsgCall.Whole [.init sampleParams sampleBuf,
        .parse .zero (sampleSync [.request (requestFlags 3)]), .addCSPTPReqTlv 3 sampleBuf] s ∧
      s.msg.tlvs.length = 2 ∧ Layout s.msg s.bufSize := by
  have hstart : MsgRun MsgCall.Whole [] ⟨.detach, 0⟩ := Run.start rfl
  have hinit : MsgRun MsgCall.Whole [.init sampleParams sampleBuf] _ :=
    MsgRun.next hstart trivial trivial
  have hparse : MsgRun MsgCall.Whole [.init sampleParams sampleBuf,
      .parse .zero (sampleSync [.request (requestFlags 3)])] _ :=
    MsgRun.next hinit trivial fun _ => whole_sampleSync
  have hadd := @MsgRun.next _ _ _ (.addCSPTPReqTlv 3 sampleBuf) hparse
    (by unfold MsgCall.OnAttached; decide +kernel) trivial
  exact ⟨_, hadd, by decide +kernel, layout_of_run hadd (by decide +kernel)⟩

end Sample

end Csptp

import Csptp.Wire.Decode

/-! # Encode, then decode

`Adds` is any way of adding TLVs to a message: a request, or a place from `nextTlv`, a body written
there and `addTlv`. `encode_decode` follows `init`, such additions and `buildDone` to any buffer that
gets the same data, and through `parse` there. -/
namespace Csptp
open Octets Octets.Prog
set_option autoImplicit false

/-! ## Adding TLVs -/

/-- Successful additions of these TLVs, from one state of the object and its buffer to another. The
caller may ask for any size and write anything from the returned place on, as long as the body of the
TLV is there when it calls `addTlv`. -/
inductive Adds : List Tlv → PtpMsg → Buf → PtpMsg → Buf → Prop
  | nil (msg : PtpMsg) (buf : Buf) : Adds [] msg buf msg buf
  | request {ts : List Tlv} {msg msg' msg'' : PtpMsg} {buf buf' buf'' : Buf} (flags : Octet)
      (hadd : msg.addCSPTPReqTlv flags buf = (true, msg', buf')) (h : Adds ts msg' buf' msg'' buf'') :
      Adds (.request (requestFlags flags) :: ts) msg buf msg'' buf''
  | tlv {ts : List Tlv} {msg msg' msg'' : PtpMsg} {buf buf' buf'' : Buf} {t : Tlv} {need p : ℕ}
      {m : Mem} (ht : t.Addable) (hnext : msg.nextTlv need = some p)
      (hkeep : ∀ a, a < p → m a = buf.mem a) (hbody : Holds m (p + 4) (t.body .host))
      (hadd : msg.addTlv t.id (buf.withMem m) = (true, msg', buf')) (h : Adds ts msg' buf' msg'' buf'') :
      Adds (t :: ts) msg buf msg'' buf''

theorem Tlv.Addable.lt_size {t : Tlv} (h : t.Addable) : tlvHdr < t.size := by
  cases t with
  | altTime t => simp only [size, altTimeSize, tlvHdr]; omega
  | request flags => exact h.elim
  | response t => simp [size, tlvHdr]
  | status t => simp only [size, tlvHdr]; omega
  | pad data => exact h.elim

theorem Adds.lt_size {ts : List Tlv} {msg msg' : PtpMsg} {buf buf' : Buf}
    (h : Adds ts msg buf msg' buf') : ∀ t ∈ ts, tlvHdr < t.size := by
  induction h with
  | nil => exact fun t ht => absurd ht List.not_mem_nil
  | request flags hadd h ih =>
    intro t ht
    rcases List.mem_cons.mp ht with rfl | ht
    · simp [Tlv.size, tlvHdr]
    · exact ih t ht
  | tlv haddable hnext hkeep hbody hadd h ih =>
    intro t ht
    rcases List.mem_cons.mp ht with rfl | ht
    · exact haddable.lt_size
    · exact ih t ht

section Success
variable {msg msg' : PtpMsg} {buf buf' : Buf} {params : PtpParams} {c : Octet} {ts : List Tlv}

theorem init_true (hinit : msg.init params buf = (true, msg', buf')) :
    ∃ c, Built msg' buf' params c [] := by
  rw [PtpMsg.init] at hinit
  split at hinit
  · simp at hinit
  · cases hc : params.type.controlField with
    | none => simp [hc] at hinit
    | some c =>
      have hsize : 44 ≤ buf.size := by
        rw [msgSize] at *
        omega
      obtain ⟨msg'', buf'', he, -, hb⟩ := init_built msg hc hsize
      rw [PtpMsg.init, if_neg ‹_›] at he
      cases he.symm.trans hinit
      exact ⟨c, hb⟩

theorem Built.addCSPTPReqTlv_true {flags : Octet} (h : Built msg buf params c ts)
    (hadd : msg.addCSPTPReqTlv flags buf = (true, msg', buf')) :
    Built msg' buf' params c (ts ++ [.request (requestFlags flags)]) := by
  by_cases hroom : ts.length < maxTlvs ∧ msg.len + csptpReq ≤ buf.size
  · obtain ⟨msg'', buf'', he, -, hb⟩ := h.addCSPTPReqTlv flags hroom.1 hroom.2
    cases he.symm.trans hadd
    exact hb
  · rw [h.addCSPTPReqTlv_false flags hroom] at hadd
    simp at hadd

theorem Built.addTlv_true {m : Mem} {t : Tlv} (h : Built msg buf params c ts) (ht : t.Addable)
    (hkeep : ∀ a, a < msg.len → m a = buf.mem a) (hbody : Holds m (msg.len + 4) (t.body .host))
    (hadd : msg.addTlv t.id (buf.withMem m) = (true, msg', buf')) :
    Built msg' buf' params c (ts ++ [t]) := by
  by_cases hroom : ts.length < maxTlvs ∧ msg.len + t.size ≤ buf.size
  · obtain ⟨msg'', buf'', he, -, hb⟩ := h.addTlv ht hroom.1 hroom.2 hkeep hbody
    cases he.symm.trans hadd
    exact hb
  · have hfalse := h.addTlv_false ht hbody hroom
    rw [hadd] at hfalse
    simp at hfalse

theorem Adds.built {us : List Tlv} (hadds : Adds us msg buf msg' buf')
    (h : Built msg buf params c ts) : Built msg' buf' params c (ts ++ us) := by
  induction hadds generalizing ts with
  | nil => rwa [List.append_nil]
  | request flags hadd _ ih =>
    have hnext := ih (h.addCSPTPReqTlv_true hadd)
    rwa [List.append_assoc, List.singleton_append] at hnext
  | tlv haddable hplace hkeep hbody hadd _ ih =>
    rw [h.nextTlv] at hplace
    split at hplace
    · simp at hplace
    · have hp := Option.some.inj hplace
      rw [← hp] at hkeep hbody
      have hnext := ih (h.addTlv_true haddable hkeep hbody hadd)
      rwa [List.append_assoc, List.singleton_append] at hnext

theorem Built.buildDone_true {size : ℕ} (h : Built msg buf params c ts)
    (hdone : msg.buildDone size buf = (true, msg', buf')) :
    (buf'.len = 44 + tlvsSize ts ∨ 44 + tlvsSize ts + 4 ≤ buf'.len) ∧
      buf'.data = wireOctets params c ts buf'.len := by
  by_cases hok : Finishable msg.len buf.size size
  · obtain ⟨msg'', buf'', he, -, hlen, hdata⟩ := h.buildDone hok
    cases he.symm.trans hdone
    rw [Finishable] at hok
    have := h.len
    refine ⟨?_, by rw [hdata, hlen]⟩
    rw [hlen, finalSize]
    split_ifs <;> omega
  · have hfalse := h.buildDone_false hok
    rw [hdone] at hfalse
    simp at hfalse

end Success

/-! ## Decoding a finished message -/

/-- `_parse` on a finished message: the parameters and the TLVs come back, with at most a PAD TLV
behind them. -/
theorem parse_finished {rx : Buf} {params : PtpParams} {c : Octet} {ts : List Tlv} (self : PtpMsg)
    (prms : PtpParams) (hdata : rx.data = wireOctets params c ts rx.len)
    (hsize : rx.len = 44 + tlvsSize ts ∨ 44 + tlvsSize ts + 4 ≤ rx.len) (hlt : rx.len < 2 ^ 16)
    (hc : params.type.controlField = some c) (hf : params.flagField2.toNat < 64)
    (hfew : ts.length ≤ maxTlvs) (hts : ∀ t ∈ ts, tlvHdr < t.size) :
    (self.parse prms rx).ok = true ∧ (self.parse prms rx).params = params ∧
      ∃ pads, pads.length ≤ 1 ∧ (∀ t ∈ pads, t.id = .pad) ∧
        (self.parse prms rx).self.tlvs = records 44 (ts.map Tlv.zeroFill ++ pads) ∧
        Holds (self.parse prms rx).buf.mem 44 (tlvsOctets .host (ts.map Tlv.zeroFill ++ pads)) := by
  obtain ⟨pads, hone, hid, hlen, hwire⟩ := wireOctets_eq params c hsize hlt
  have hholds : Holds rx.mem 0 (wireOctets params c ts rx.len) := by
    rw [← hdata]
    exact holds_region _ _ _
  rw [hwire] at hholds
  obtain ⟨hok, hparams, htlvs, hhost⟩ := parse_wire self prms hholds hlen hlt (le_refl _) hc hf
  have hts' : ∀ t ∈ ts.map Tlv.zeroFill, tlvHdr < t.size := by
    intro t ht
    obtain ⟨u, hu, rfl⟩ := List.mem_map.mp ht
    rw [Tlv.zeroFill_size]
    exact hts u hu
  rw [recorded_append hts' (by rwa [List.length_map])] at htlvs hhost
  refine ⟨hok, hparams, _, ?_, ?_, htlvs, hhost⟩
  · rcases recorded_of_length_le_one (k := maxTlvs - (ts.map Tlv.zeroFill).length) hone with h | h
    · rw [h]
      exact Nat.zero_le _
    · rwa [h]
  · rcases recorded_of_length_le_one (k := maxTlvs - (ts.map Tlv.zeroFill).length) hone with h | h
    · rw [h]
      exact fun t ht => absurd ht List.not_mem_nil
    · rwa [h]

/-- Whoever gets these octets as a message reads these parameters and TLVs, with at most a PAD TLV
behind them. -/
def ReadsAs (octs : List Octet) (params : PtpParams) (ts : List Tlv) : Prop :=
  ∀ (rx : Buf) (self : PtpMsg) (prms : PtpParams), rx.data = octs →
    (self.parse prms rx).ok = true ∧ (self.parse prms rx).params = params ∧
      ∃ pads, pads.length ≤ 1 ∧ (∀ t ∈ pads, t.id = .pad) ∧
        (self.parse prms rx).self.tlvs = records 44 (ts ++ pads) ∧
        Holds (self.parse prms rx).buf.mem 44 (tlvsOctets .host (ts ++ pads))

theorem readsAs_wireOctets (params : PtpParams) {c : Octet} {ts : List Tlv} {size : ℕ}
    (hsize : size = 44 + tlvsSize ts ∨ 44 + tlvsSize ts + 4 ≤ size) (hlt : size < 2 ^ 16)
    (hc : params.type.controlField = some c) (hf : params.flagField2.toNat < 64)
    (hfew : ts.length ≤ maxTlvs) (hts : ∀ t ∈ ts, tlvHdr < t.size) :
    ReadsAs (wireOctets params c ts size) params (ts.map Tlv.zeroFill) := by
  intro rx self prms hrx
  have hlen : rx.len = size := by rw [← Buf.data_length, hrx, wireOctets_length hsize]
  exact parse_finished self prms (by rw [hrx, hlen]) (by rwa [hlen]) (by rwa [hlen]) hc hf hfew hts

/-- What was put into a message comes back out of it, at any receiver that gets its octets. -/
theorem encode_decode {msg msg₁ msg₂ msg₃ : PtpMsg} {buf buf₁ buf₂ buf₃ : Buf} {params : PtpParams}
    {ts : List Tlv} {size : ℕ} (hinit : msg.init params buf = (true, msg₁, buf₁))
    (hadds : Adds ts msg₁ buf₁ msg₂ buf₂) (hdone : msg₂.buildDone size buf₂ = (true, msg₃, buf₃))
    (hflags : params.flagField2.toNat < 64) (hlen : buf₃.len ≤ 65535) (rx : Buf)
    (hrx : rx.data = buf₃.data) (self : PtpMsg) (prms : PtpParams) :
    (self.parse prms rx).ok = true ∧ (self.parse prms rx).params = params ∧
      ∃ pads, pads.length ≤ 1 ∧ (∀ t ∈ pads, t.id = .pad) ∧
        (self.parse prms rx).self.tlvs = records 44 (ts.map Tlv.zeroFill ++ pads) ∧
        Holds (self.parse prms rx).buf.mem 44 (tlvsOctets .host (ts.map Tlv.zeroFill ++ pads)) := by
  obtain ⟨c, hb₁⟩ := init_true hinit
  have hb₂ := hadds.built hb₁
  rw [List.nil_append] at hb₂
  obtain ⟨hsize, hdata⟩ := hb₂.buildDone_true hdone
  have hrxlen : rx.len = buf₃.len := by rw [← Buf.data_length, hrx, Buf.data_length]
  refine parse_finished self prms ?_ (by rwa [hrxlen]) (by omega) hb₂.control hflags hb₂.few
    hadds.lt_size
  rw [hrx, hrxlen]
  exact hdata

/-! ## A sample run -/

section Sample

def sampleParams : PtpParams :=
  { type := .sync, domainNumber := 128, correctionField := 7, sequenceId := 21, flagField2 := 5,
    timestamp := ⟨⟨1, 2⟩, 3⟩, useTwoSteps := true }

/-- A time zone name of odd length, with a fill octet that is not zero. -/
def sampleZone : Tlv :=
  .altTime { keyField := 1, currentOffset := 10800, jumpSeconds := 1, timeOfNextJump := ⟨0, 175863⟩,
             displayName := [67, 69, 84], fill := [99], name_lt := by decide, fill_len := by decide }

def sampleBuf : Buf :=
  { mem := fun _ => 0xaa, size := 96, len := 0, len_le := by decide, size_lt := by norm_num }

def sampleInit : Bool × PtpMsg × Buf := PtpMsg.detach.init sampleParams sampleBuf

def sampleRequest : Bool × PtpMsg × Buf := sampleInit.2.1.addCSPTPReqTlv 3 sampleInit.2.2

def sampleFilled : Mem := blit sampleRequest.2.2.mem 56 (sampleZone.body .host)

def sampleAdded : Bool × PtpMsg × Buf :=
  sampleRequest.2.1.addTlv sampleZone.id (sampleRequest.2.2.withMem sampleFilled)

def sampleDone : Bool × PtpMsg × Buf := sampleAdded.2.1.buildDone 96 sampleAdded.2.2

theorem encode_decode_sample :
    (PtpMsg.detach.parse .zero sampleDone.2.2).ok = true ∧
      (PtpMsg.detach.parse .zero sampleDone.2.2).params = sampleParams ∧
      ∃ pads, pads.length ≤ 1 ∧ (∀ t ∈ pads, t.id = .pad) ∧
        (PtpMsg.detach.parse .zero sampleDone.2.2).self.tlvs =
          records 44 ([.request (requestFlags 3), sampleZone].map Tlv.zeroFill ++ pads) ∧
        Holds (PtpMsg.detach.parse .zero sampleDone.2.2).buf.mem 44
          (tlvsOctets .host ([.request (requestFlags 3), sampleZone].map Tlv.zeroFill ++ pads)) := by
  have hplace : sampleRequest.2.1.nextTlv 30 = some 52 := by decide +kernel
  have hadds : Adds [.request (requestFlags 3), sampleZone] sampleInit.2.1 sampleInit.2.2
      sampleAdded.2.1 sampleAdded.2.2 :=
    .request 3 (Prod.ext (by decide +kernel) rfl)
      (.tlv (by decide : 3 ≤ 10) hplace (fun a ha => blit_of_not_mem (.inl (by omega)))
        (holds_blit _ _ _) (Prod.ext (by decide +kernel) rfl) (.nil _ _))
  have hinit : PtpMsg.detach.init sampleParams sampleBuf = (true, sampleInit.2.1, sampleInit.2.2) :=
    Prod.ext (by decide +kernel) rfl
  have hdone : sampleAdded.2.1.buildDone 96 sampleAdded.2.2 = (true, sampleDone.2.1, sampleDone.2.2) :=
    Prod.ext (by decide +kernel) rfl
  exact encode_decode hinit hadds hdone (by decide) (by decide +kernel) sampleDone.2.2 rfl .detach .zero

end Sample

end Csptp

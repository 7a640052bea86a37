import Csptp.Builder.Runs

/-! # What the builder accepts and what it can send

`_addTlv` rounds the length of a name up in an octet, where 255 becomes zero, and takes the length of an
address from its protocol alone. `cpu_to_net_tlv` computes both anew, from `size_t` and from the length
that the caller wrote. -/
namespace Csptp
open Octets Octets.Prog Runs
set_option autoImplicit false

/-- The recorded length is the one that the contents declare. -/
def Declared (m : Mem) (r : TlvRec) : Prop :=
  match r.id with
  | .alternateTimeOffsetIndicator =>
    r.len = 20 + makeEven (m (r.tlv + 19)).toNat ∧ (m (r.tlv + 19)).toNat ≤ maxTzLen
  | .csptpStatus => r.len = 32 + (wordAt .host 16 m (r.tlv + 30)).toNat
  | .csptpRequest => r.len = csptpReq
  | .csptpResponse => r.len = 28
  | .pad | .invalidTlvId => False

/-- What the caller must not write, and what it has to. -/
def WellFilled (m : Mem) (r : TlvRec) : Prop :=
  match r.id with
  | .alternateTimeOffsetIndicator => (m (r.tlv + 19)).toNat ≠ 255
  | .csptpStatus => (wordAt .host 16 m (r.tlv + 30)).toNat =
      adderSize (Prot.ofCode (wordAt .host 16 m (r.tlv + 28)))
  | _ => True

/-- Every record has its declared length, and the message can be finished with every acceptable size,
where only the header, the recorded TLVs and the PAD TLV are written. -/
structure Sendable (msg : PtpMsg) (buf : Buf) : Prop where
  declared : ∀ r ∈ msg.tlvs, Declared buf.mem r
  done : ∀ size, Finishable msg.len buf.size size → (msg.buildDone size buf).1 = true
  frame : ∀ size, Finishable msg.len buf.size size → ∀ a, (msg.buildDone size buf).2.2.mem a ≠ buf.mem a →
    a < msgSize ∨ (∃ r ∈ msg.tlvs, r.tlv ≤ a ∧ a < r.tlv + r.len) ∨
      msg.len ≤ a ∧ a < finalSize msg.len size

/-! ## One record -/

section OneRecord
variable {m : Mem} {r : TlvRec}

theorem Misfit.not_wellFilled (h : Misfit m r) : ¬ WellFilled m r := by
  intro hfilled
  rw [WellFilled] at hfilled
  cases h with
  | name hid hlen hname =>
    rw [hid] at hfilled
    exact hfilled hname
  | address hid hproto hlen haddr =>
    rw [hid] at hfilled
    exact haddr hfilled

theorem Misfit.not_declared (h : Misfit m r) : ¬ Declared m r := by
  intro hdeclared
  rw [Declared] at hdeclared
  cases h with
  | name hid hlen hname =>
    rw [hid] at hdeclared
    have hle := hdeclared.2
    rw [hname, maxTzLen] at hle
    omega
  | address hid hproto hlen haddr =>
    rw [hid] at hdeclared
    have heq : r.len = 32 + (wordAt .host 16 m (r.tlv + 30)).toNat := hdeclared
    omega

theorem HostTlv.declared (h : HostTlv m r) (hnotPad : r.id ≠ .pad)
    (hname : r.id = .alternateTimeOffsetIndicator → r.len ≤ 20 + maxTzLen) : Declared m r := by
  obtain ⟨t, hid, hsize, hholds⟩ := h
  rw [Declared, ← hid, ← hsize]
  rw [← hid, ← hsize] at hname
  cases t with
  | altTime t =>
    have hlt := t.name_lt
    have hoctet : m (r.tlv + 19) = BitVec.ofNat 8 t.displayName.length :=
      (holds_cons.mp (holds_nameLen (Tlv.header_length _ _) hholds)).1
    have hlen : (m (r.tlv + 19)).toNat = t.displayName.length := by rw [hoctet, t.nameLen_toNat]
    have hle : altTimeSize t.displayName.length ≤ 20 + maxTzLen := hname rfl
    simp only [Tlv.id, Tlv.size, hlen, makeEven_of_lt (show t.displayName.length < 2 ^ 63 by omega)]
    refine ⟨rfl, ?_⟩
    rw [altTimeSize] at hle
    omega
  | request flags => rfl
  | response t => rfl
  | status t =>
    have hword : wordAt .host 16 m (r.tlv + 30) =
        BitVec.ofNat 16 (adderSize t.parentAddress.networkProtocol) :=
      ofOctets_region_of_host rfl (holds_networkProtocol (Tlv.header_length _ _) hholds).2
    simp only [Tlv.id, Tlv.size, hword, PortAddress.addressLength_toNat]
  | pad data => exact absurd hid.symm hnotPad

theorem HostTlv.wellFilled (h : HostTlv m r) (hdeclared : Declared m r) : WellFilled m r := by
  obtain ⟨t, hid, -, hholds⟩ := h
  rw [Declared, ← hid] at hdeclared
  rw [WellFilled, ← hid]
  cases t with
  | altTime t =>
    have hle : (m (r.tlv + 19)).toNat ≤ 10 := hdeclared.2
    show (m (r.tlv + 19)).toNat ≠ 255
    omega
  | status t =>
    obtain ⟨hproto, hlen⟩ := holds_networkProtocol (Tlv.header_length _ _) hholds
    have hproto : wordAt .host 16 m (r.tlv + 28) = t.parentAddress.networkProtocol.code :=
      ofOctets_region_of_host rfl hproto
    have hlen : wordAt .host 16 m (r.tlv + 30) =
        BitVec.ofNat 16 (adderSize t.parentAddress.networkProtocol) := ofOctets_region_of_host rfl hlen
    simp only [Tlv.id, hproto, hlen, PortAddress.addressLength_toNat, Prot.ofCode_code]
  | _ => trivial

end OneRecord

/-! ## Drafts -/

section Draft
variable {msg : PtpMsg} {buf : Buf}

/-- A draft that is finished was written in its header, its TLVs and its PAD TLV. -/
theorem Draft.frame (h : Draft msg buf) {size : ℕ} (hdone : (msg.buildDone size buf).1 = true) {a : ℕ}
    (ha : (msg.buildDone size buf).2.2.mem a ≠ buf.mem a) :
    a < msgSize ∨ (∃ r ∈ msg.tlvs, r.tlv ≤ a ∧ a < r.tlv + r.len) ∨
      msg.len ≤ a ∧ a < finalSize msg.len size := by
  obtain ⟨ts, hfin⟩ := h.finishes hdone
  by_cases hhdr : a < msgSize
  · exact .inl hhdr
  · by_cases hin : a < msg.len
    · exact .inr (.inl (h.tiled.covers (Nat.le_of_not_lt hhdr) hin))
    · by_cases hpad : a < finalSize msg.len size
      · exact .inr (.inr ⟨Nat.le_of_not_lt hin, hpad⟩)
      · exact absurd (hfin.behind a (Nat.le_of_not_lt hpad)) ha

/-- What `_addTlv` and `_addCSPTPReqTlv` see to in every record. -/
def Checked (r : TlvRec) : Prop :=
  r.id ≠ .pad ∧ (r.id = .alternateTimeOffsetIndicator → r.len ≤ 20 + maxTzLen)

theorem Draft.sendable_iff (h : Draft msg buf) (hchecked : ∀ r ∈ msg.tlvs, Checked r) :
    Sendable msg buf ↔ ∀ r ∈ msg.tlvs, WellFilled buf.mem r := by
  constructor
  · intro hsend r hr
    have hdeclared := hsend.declared r hr
    have hhost := (h.kinds r hr).resolve_right fun hmisfit => hmisfit.not_declared hdeclared
    exact hhost.wellFilled hdeclared
  · intro hfilled
    have hhost (r : TlvRec) (hr : r ∈ msg.tlvs) : HostTlv buf.mem r :=
      (h.kinds r hr).resolve_right fun hmisfit => hmisfit.not_wellFilled (hfilled r hr)
    have hdone (size : ℕ) (hok : Finishable msg.len buf.size size) :
        (msg.buildDone size buf).1 = true := (h.buildDone_iff size).mpr ⟨hok, hhost⟩
    exact ⟨fun r hr => (hhost r hr).declared (hchecked r hr).1 (hchecked r hr).2, hdone,
      fun size hok a ha => h.frame (hdone size hok) ha⟩

end Draft

/-! ## Every run -/

theorem checked_of_run {calls : List BuildCall} {s : Build}
    (h : BuildRun (fun _ call => call.Adds) calls s) :
    s.msg = .detach ∨ Draft s.msg s.buf ∧ ∀ r ∈ s.msg.tlvs, Checked r := by
  refine @Run.invariant _ _ _ _ _ _
    (fun _ s => s.msg = .detach ∨ Draft s.msg s.buf ∧ ∀ r ∈ s.msg.tlvs, Checked r)
    (fun s hs => .inl hs.1) ?_ h
  rintro past s call s' hinv ⟨hlegal, hadds, rfl⟩
  have hend : s.msg = .detach ∨ s.msg.endPtr = some s.msg.len := hinv.imp id fun h => h.1.endPtr
  rcases adds_cases hend hlegal hadds with ⟨params, buf, hinit, happly⟩ | hsame | ⟨r, hgrown⟩
  · rw [happly]
    obtain ⟨c, hbuilt⟩ := started_built hinit
    refine .inr ⟨init_draft hinit, fun r hr => ?_⟩
    rw [show (s.msg.init params buf).2.1.tlvs = [] from hbuilt.tlvs] at hr
    exact absurd hr List.not_mem_nil
  · rcases hinv with hdetach | ⟨hdraft, hall⟩
    · exact .inl (hsame.msg.trans hdetach)
    · rw [hsame.msg]
      exact .inr ⟨hdraft.congr hsame.size fun a _ ha => hsame.octets a ha, hall⟩
  · rcases hinv with hdetach | ⟨hdraft, hall⟩
    · exact absurd hdetach hgrown.attached
    · refine .inr ⟨hdraft.appends hgrown.appends hgrown.size, fun x hx => ?_⟩
      rw [hgrown.tlvs] at hx
      rcases List.mem_append.mp hx with hx | hx
      · exact hall x hx
      · rw [List.mem_singleton.mp hx]
        exact ⟨hgrown.appends.recorded.notPad, hgrown.appends.recorded.name⟩

/-- After any calls that start a message and add to it, what the builder took can be sent exactly if the
caller wrote no name length of 255 and every address length of the protocol's addresses. -/
theorem sendable_of_run {calls : List BuildCall} {s : Build}
    (h : BuildRun (fun _ call => call.Adds) calls s) (hattached : s.msg.attached = true) :
    Sendable s.msg s.buf ↔ ∀ r ∈ s.msg.tlvs, WellFilled s.buf.mem r := by
  rcases checked_of_run h with hdetach | ⟨hdraft, hchecked⟩
  · rw [hdetach] at hattached
    exact absurd hattached (by decide)
  · exact hdraft.sendable_iff hchecked

section Sample

/-- A name length of 255 is taken as an empty name, and the message cannot be finished. -/
theorem sendable_of_run_fails :
    ∃ s, BuildRun (fun _ call => call.Adds) sampleCalls s ∧ s.msg.attached = true ∧
      Finishable s.msg.len s.buf.size 0 ∧ (s.msg.buildDone 0 s.buf).1 = false ∧
      ¬ Sendable s.msg s.buf := by
  refine ⟨sampleMisfit, sampleMisfit_run fun _ _ => id, by decide +kernel, .inl rfl, by decide +kernel,
    fun hsend => ?_⟩
  exact absurd (hsend.done 0 (.inl rfl)) (by decide +kernel)

theorem sendable_of_run_sample :
    ∃ s, BuildRun (fun _ call => call.Adds) sampleCalls s ∧ s.msg.attached = true ∧
      (Sendable s.msg s.buf ↔ ∀ r ∈ s.msg.tlvs, WellFilled s.buf.mem r) := by
  have hrun : BuildRun (fun _ call => call.Adds) sampleCalls sampleMisfit := sampleMisfit_run fun _ _ => id
  have hattached : sampleMisfit.msg.attached = true := by decide +kernel
  exact ⟨sampleMisfit, hrun, hattached, sendable_of_run hrun hattached⟩

end Sample

end Csptp

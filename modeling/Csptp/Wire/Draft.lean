import Csptp.Wire.Header
import Csptp.Message.Bounds

/-! # A message under construction

`Built` connects a message object and its buffer with the parameters and TLVs that were put in so
far. `init` starts with no TLV, `addCSPTPReqTlv` and `addTlv` append one, and `buildDone` leaves the
octets of `wireOctets` as the data of the buffer, or refuses. -/
namespace Csptp
open Octets Octets.Prog
set_option autoImplicit false

/-! ## Lists of TLVs -/

def tlvsSize (ts : List Tlv) : ℕ := (ts.map Tlv.size).sum

def tlvsOctets (o : ByteOrder) (ts : List Tlv) : List Octet := ts.flatMap (Tlv.octets o)

/-- The records of TLVs that lie one behind the other from offset `a` on. -/
def records : ℕ → List Tlv → List TlvRec
  | _, [] => []
  | a, t :: ts => ⟨a, t.size, t.id⟩ :: records (a + t.size) ts

@[simp] theorem tlvsSize_nil : tlvsSize [] = 0 := rfl

@[simp] theorem tlvsSize_cons (t : Tlv) (ts : List Tlv) :
    tlvsSize (t :: ts) = t.size + tlvsSize ts := by simp [tlvsSize]

@[simp] theorem tlvsSize_append (ts us : List Tlv) :
    tlvsSize (ts ++ us) = tlvsSize ts + tlvsSize us := by simp [tlvsSize]

@[simp] theorem tlvsSize_zeroFill (ts : List Tlv) :
    tlvsSize (ts.map Tlv.zeroFill) = tlvsSize ts := by
  induction ts with
  | nil => rfl
  | cons t ts ih => rw [List.map_cons, tlvsSize_cons, tlvsSize_cons, ih, Tlv.zeroFill_size]

@[simp] theorem tlvsOctets_nil (o : ByteOrder) : tlvsOctets o [] = [] := rfl

theorem tlvsOctets_cons (o : ByteOrder) (t : Tlv) (ts : List Tlv) :
    tlvsOctets o (t :: ts) = t.octets o ++ tlvsOctets o ts := by simp [tlvsOctets]

theorem tlvsOctets_append (o : ByteOrder) (ts us : List Tlv) :
    tlvsOctets o (ts ++ us) = tlvsOctets o ts ++ tlvsOctets o us := by simp [tlvsOctets]

@[simp] theorem tlvsOctets_length (o : ByteOrder) (ts : List Tlv) :
    (tlvsOctets o ts).length = tlvsSize ts := by
  induction ts with
  | nil => rfl
  | cons t ts ih => rw [tlvsOctets_cons, List.length_append, Tlv.octets_length, tlvsSize_cons, ih]

@[simp] theorem records_length (a : ℕ) (ts : List Tlv) : (records a ts).length = ts.length := by
  induction ts generalizing a with
  | nil => rfl
  | cons t ts ih => simp [records, ih]

theorem records_append (a : ℕ) (ts us : List Tlv) :
    records a (ts ++ us) = records a ts ++ records (a + tlvsSize ts) us := by
  induction ts generalizing a with
  | nil => rfl
  | cons t ts ih =>
    rw [List.cons_append, records, records, ih, List.cons_append, tlvsSize_cons, Nat.add_assoc]

/-- The conversion loop of `_buildDone`, step by step over the records. -/
theorem run_cpuToNetTlvs {m : Mem} {a : ℕ} {ts : List Tlv} (h : Holds m a (tlvsOctets .host ts)) :
    (cpuToNetTlvs (records a ts)).run m =
      (true, blit m a (tlvsOctets .net (ts.map Tlv.zeroFill))) := by
  induction ts generalizing a m with
  | nil => simp [cpuToNetTlvs, records]
  | cons t ts ih =>
    rw [tlvsOctets_cons, holds_append, Tlv.octets_length] at h
    have hrest : Holds (blit m a (t.zeroFill.octets .net)) (a + t.size) (tlvsOctets .host ts) :=
      h.2.blit_of_disjoint (by rw [Tlv.octets_length, Tlv.zeroFill_size]; omega)
    simp only [records, cpuToNetTlvs, run_bind, run_cpuToNetTlv h.1, if_true, ih hrest]
    rw [List.map_cons, tlvsOctets_cons, ← blit_append, Tlv.octets_length, Tlv.zeroFill_size]

/-! ## The state of a message under construction -/

/-- The object and the buffer stand for these parameters and TLVs, all in host order. -/
structure Built (msg : PtpMsg) (buf : Buf) (params : PtpParams) (c : Octet) (ts : List Tlv) :
    Prop where
  control : params.type.controlField = some c
  attached : msg.attached = true
  len : msg.len = 44 + tlvsSize ts
  endPtr : msg.endPtr = some msg.len
  left : msg.left = buf.size - msg.len
  tlvs : msg.tlvs = records 44 ts
  few : ts.length ≤ maxTlvs
  fits : msg.len ≤ buf.size
  bufLen : buf.len = msg.len
  holds : Holds buf.mem 0 (headerOctets .host params c 0 ++ tlvsOctets .host ts)

theorem init_built (self : PtpMsg) {params : PtpParams} {c : Octet} {buf : Buf}
    (hc : params.type.controlField = some c) (hs : 44 ≤ buf.size) :
    ∃ self' buf', self.init params buf = (true, self', buf') ∧ buf'.size = buf.size ∧
      Built self' buf' params c [] := by
  have hs' : ¬ buf.size < msgSize := by rw [msgSize]; omega
  refine ⟨_, _, by simp only [PtpMsg.init, if_neg hs', hc]; rfl, by simp, ?_⟩
  constructor
  case control => exact hc
  case attached => rfl
  case len => rfl
  case endPtr => rfl
  case left => simp [msgSize]
  case tlvs => rfl
  case few => exact Nat.zero_le _
  case fits => simpa [msgSize] using hs
  case bufLen => exact Buf.setLen_len (by simpa [msgSize] using hs)
  case holds =>
    simp only [tlvsOctets_nil, List.append_nil, Buf.setLen_mem, Buf.withMem_mem, run_initHeader]
    exact holds_blit _ _ _

section Adding
variable {self : PtpMsg} {buf : Buf} {params : PtpParams} {c : Octet} {ts : List Tlv}

/-- One more TLV is recorded when its octets lie behind what was there. -/
theorem Built.record {m : Mem} (h : Built self buf params c ts) (t : Tlv)
    (hfew : ts.length < maxTlvs) (hfit : self.len + t.size ≤ buf.size)
    (hkeep : ∀ a, a < self.len → m a = buf.mem a) (ht : Holds m self.len (t.octets .host)) :
    Built (self.record (buf.withMem m) self.len t.size t.id).1
      (self.record (buf.withMem m) self.len t.size t.id).2 params c (ts ++ [t]) := by
  have hlen := h.len
  have hall : (headerOctets .host params c 0 ++ tlvsOctets .host ts).length = self.len := by
    rw [List.length_append, headerOctets_length, tlvsOctets_length, hlen]
  constructor
  case control => exact h.control
  case attached => exact h.attached
  case len => simp [PtpMsg.record, hlen]; omega
  case endPtr => rfl
  case left =>
    simp only [PtpMsg.record, h.left, Buf.setLen_size, Buf.withMem_size]
    omega
  case tlvs => simp [PtpMsg.record, h.tlvs, records_append, records, hlen]
  case few =>
    rw [List.length_append, List.length_singleton]
    omega
  case fits => simpa [PtpMsg.record] using hfit
  case bufLen => exact Buf.setLen_len hfit
  case holds =>
    rw [tlvsOctets_append, tlvsOctets_cons, tlvsOctets_nil, List.append_nil, ← List.append_assoc,
      holds_append, hall, Nat.zero_add]
    simp only [PtpMsg.record, Buf.setLen_mem, Buf.withMem_mem]
    exact ⟨h.holds.congr fun a _ ha => hkeep a (by omega), ht⟩

theorem Built.nextTlv (h : Built self buf params c ts) (need : ℕ) :
    self.nextTlv need =
      if makeEven need > buf.size - self.len ∨ ts.length = maxTlvs then none else some self.len := by
  rw [PtpMsg.nextTlv, h.left, h.endPtr, h.tlvs, records_length]

/-- The request flags that `_addCSPTPReqTlv` stores. -/
def requestFlags (flags : Octet) : OctetArray 4 :=
  ⟨[flags &&& (flags0ReqStatusTlv ||| flags0ReqAlternateTimeTlv), 0#8, 0#8, 0#8], rfl⟩

theorem run_storeRequest (m : Mem) (h : ℕ) (flags : Octet) :
    (storeRequest h flags).run m =
      ((), blit m h ((Tlv.request (requestFlags flags)).octets .host)) := by
  simp only [storeRequest, run_bind, run_store, octets_octet, Prod.mk.injEq, true_and]
  simp (disch := simp) only [blit_append_of_eq]
  rfl

theorem Built.addCSPTPReqTlv (h : Built self buf params c ts) (flags : Octet)
    (hfew : ts.length < maxTlvs) (hfit : self.len + csptpReq ≤ buf.size) :
    ∃ self' buf', self.addCSPTPReqTlv flags buf = (true, self', buf') ∧ buf'.size = buf.size ∧
      Built self' buf' params c (ts ++ [.request (requestFlags flags)]) := by
  have hlen : self.tlvs.length ≠ maxTlvs := by
    rw [h.tlvs, records_length]
    omega
  have hleft : ¬ self.left < csptpReq := by
    rw [h.left]
    omega
  refine ⟨_, _, by simp only [PtpMsg.addCSPTPReqTlv, h.endPtr, if_neg hlen, if_neg hleft,
    run_storeRequest]; rfl, by simp, ?_⟩
  refine h.record (.request (requestFlags flags)) hfew hfit (fun a ha => ?_) (holds_blit _ _ _)
  exact blit_of_not_mem (.inl ha)

theorem Built.addCSPTPReqTlv_false (h : Built self buf params c ts) (flags : Octet)
    (hno : ¬ (ts.length < maxTlvs ∧ self.len + csptpReq ≤ buf.size)) :
    self.addCSPTPReqTlv flags buf = (false, self, buf) := by
  have hfew := h.few
  have hfits := h.fits
  have hor : self.tlvs.length = maxTlvs ∨ self.left < csptpReq := by
    rw [h.tlvs, records_length, h.left]
    omega
  simp only [PtpMsg.addCSPTPReqTlv, h.endPtr]
  by_cases hl : self.tlvs.length = maxTlvs
  · rw [if_pos hl]
  · rw [if_neg hl, if_pos (hor.resolve_left hl)]

/-- The TLVs that `_addTlv` takes. -/
def Tlv.Addable : Tlv → Prop
  | .altTime t => t.displayName.length ≤ maxTzLen
  | .request _ => False
  | .response _ => True
  | .status _ => True
  | .pad _ => False

theorem run_addTlvExtra {m : Mem} {p : ℕ} {t : Tlv} (ht : t.Addable)
    (h : Holds m (p + 4) (t.body .host)) :
    (addTlvExtra t.id p).run m = (some (t.size - minTlvSize t.id), m) := by
  have hh : Holds m p (region m p 4 ++ t.body .host) :=
    holds_append.mpr ⟨holds_region m p 4, by rwa [region_length]⟩
  cases t with
  | altTime t =>
    have hname : t.displayName.length ≤ 10 := ht
    have hn := ofOctets_region_octet (holds_nameLen (region_length m p 4) hh)
    have heven : makeEven t.displayName.length % 2 ^ 8 =
        t.displayName.length + t.displayName.length % 2 := by
      rw [makeEven_of_lt (by omega)]
      omega
    have hle : ¬ t.displayName.length + t.displayName.length % 2 > maxTzLen := by
      rw [maxTzLen]
      omega
    simp only [addTlvExtra, Tlv.id, Tlv.size, altTimeSize, minTlvSize, run_bind, run_load,
      Nat.reduceDiv, hn, t.nameLen_toNat, heven, if_neg hle, run_pure, Nat.add_sub_cancel_left]
  | request flags => exact ht.elim
  | response t => rfl
  | status t =>
    have hp := ofOctets_region_of_host (w := 16) rfl
      (holds_networkProtocol (region_length m p 4) hh).1
    have hpos := t.parentAddress.adderSize_pos
    simp only [Nat.reduceDiv] at hp
    simp only [addTlvExtra, Tlv.id, Tlv.size, minTlvSize, run_bind, run_load, Nat.reduceDiv, hp,
      Prot.ofCode_code, if_neg (show ¬ adderSize t.parentAddress.networkProtocol = 0 by omega),
      run_pure, Nat.add_sub_cancel_left]
  | pad data => exact ht.elim

/-- `_addTlv` records the TLV whose body the caller wrote behind the header's place. -/
theorem Built.addTlv {m : Mem} (h : Built self buf params c ts) {t : Tlv} (ht : t.Addable)
    (hfew : ts.length < maxTlvs) (hfit : self.len + t.size ≤ buf.size)
    (hkeep : ∀ a, a < self.len → m a = buf.mem a) (hbody : Holds m (self.len + 4) (t.body .host)) :
    ∃ self' buf', self.addTlv t.id (buf.withMem m) = (true, self', buf') ∧ buf'.size = buf.size ∧
      Built self' buf' params c (ts ++ [t]) := by
  have hmin := t.minTlvSize_le
  have hpos := t.minTlvSize_pos
  have hsize := t.four_le_size
  have hlen : self.tlvs.length ≠ maxTlvs := by
    rw [h.tlvs, records_length]
    omega
  have hleft : self.left = buf.size - self.len := h.left
  have hbody' : Holds (blit m self.len (octets t.id.code)) (self.len + 4) (t.body .host) :=
    hbody.blit_of_disjoint (by rw [octets_length]; omega)
  have hextra := run_addTlvExtra ht hbody'
  have hsz : minTlvSize t.id + (t.size - minTlvSize t.id) = t.size := by omega
  refine ⟨_, _, by simp only [PtpMsg.addTlv, h.endPtr, if_neg hlen,
    if_neg (show ¬ self.left < tlvHdr by rw [hleft, tlvHdr]; omega), if_neg hpos,
    if_neg (show ¬ minTlvSize t.id > self.left by omega), run_bind, run_store, Buf.withMem_mem, hextra,
    hsz, if_neg (show ¬ t.size > self.left by omega)]; rfl, by simp, ?_⟩
  refine h.record t hfew hfit (fun a ha => ?_) ?_
  · rw [blit_of_not_mem (.inl (by omega)), blit_of_not_mem (.inl ha), hkeep a ha]
  · have hhdr : octets t.id.code ++ octets (BitVec.ofNat 16 (t.size - tlvHdr)) = t.header .host := rfl
    rw [show self.len + 2 = self.len + (octets t.id.code).length by rw [octets_length], blit_append,
      hhdr, Tlv.octets, holds_append, Tlv.header_length]
    exact ⟨holds_blit _ _ _, hbody.blit_of_disjoint (by rw [Tlv.header_length]; omega)⟩

theorem Built.addTlv_false {m : Mem} (h : Built self buf params c ts) {t : Tlv} (ht : t.Addable)
    (hbody : Holds m (self.len + 4) (t.body .host))
    (hno : ¬ (ts.length < maxTlvs ∧ self.len + t.size ≤ buf.size)) :
    (self.addTlv t.id (buf.withMem m)).1 = false := by
  have hfew := h.few
  have hfits := h.fits
  have hmin := t.minTlvSize_le
  have hor : self.tlvs.length = maxTlvs ∨ self.left < t.size := by
    rw [h.tlvs, records_length, h.left]
    omega
  have hbody' : Holds (blit m self.len (octets t.id.code)) (self.len + 4) (t.body .host) :=
    hbody.blit_of_disjoint (by rw [octets_length]; omega)
  have hextra := run_addTlvExtra ht hbody'
  have hsz : minTlvSize t.id + (t.size - minTlvSize t.id) = t.size := by omega
  simp only [PtpMsg.addTlv, h.endPtr, run_bind, run_store, Buf.withMem_mem, hextra, hsz]
  split_ifs with h1 h2 h3 h4 h5
  · rfl
  · rfl
  · rfl
  · rfl
  · rfl
  · omega

end Adding

/-! ## Finishing -/

/-- A PAD TLV of `padSz` octets. -/
def padOctets (padSz : ℕ) : List Octet :=
  inOrder .net TlvTypeId.pad.code ++ inOrder .net (BitVec.ofNat 16 (padSz - 4)) ++
    List.replicate (padSz - 4) 0#8

theorem padOctets_length {padSz : ℕ} (h : 4 ≤ padSz) : (padOctets padSz).length = padSz := by
  simp only [padOctets, List.length_append, inOrder_length, List.length_replicate]
  omega

theorem run_storePad (m : Mem) (h padSz : ℕ) :
    (storePad h padSz).run m = ((), blit m h (padOctets padSz)) := by
  simp only [storePad, run_bind, run_store, run_memset, octets_swap_net _ (show 16 % 8 = 0 from rfl),
    tlvHdr, Prod.mk.injEq, true_and]
  simp (disch := simp) only [blit_append_of_eq]
  rw [padOctets, List.append_assoc]
  rfl

/-- The size of a finished message when `size` was asked for. -/
def finalSize (len size : ℕ) : ℕ := if size = 0 then len else size

theorem finalSize_of_pos {len size : ℕ} (h : 0 < size) : finalSize len size = size :=
  if_neg (Nat.ne_of_gt h)

/-- The octets of a finished message with `size` octets in all. -/
def wireOctets (params : PtpParams) (c : Octet) (ts : List Tlv) (size : ℕ) : List Octet :=
  headerOctets .net params c (BitVec.ofNat 16 size) ++ tlvsOctets .net (ts.map Tlv.zeroFill) ++
    if size = 44 + tlvsSize ts then [] else padOctets (size - (44 + tlvsSize ts))

theorem wireOctets_zeroFill (params : PtpParams) (c : Octet) (ts : List Tlv) (size : ℕ) :
    wireOctets params c (ts.map Tlv.zeroFill) size = wireOctets params c ts size := by
  have hfill : (ts.map Tlv.zeroFill).map Tlv.zeroFill = ts.map Tlv.zeroFill := by
    rw [List.map_map]
    congr 1
    funext t
    exact t.zeroFill_zeroFill
  rw [wireOctets, wireOctets, hfill, tlvsSize_zeroFill]

theorem wireOctets_length {params : PtpParams} {c : Octet} {ts : List Tlv} {size : ℕ}
    (h : size = 44 + tlvsSize ts ∨ 44 + tlvsSize ts + 4 ≤ size) :
    (wireOctets params c ts size).length = size := by
  rw [wireOctets, List.length_append, List.length_append, headerOctets_length, tlvsOctets_length,
    tlvsSize_zeroFill]
  by_cases hs : size = 44 + tlvsSize ts
  · rw [if_pos hs, List.length_nil]
    omega
  · rw [if_neg hs, padOctets_length (by omega)]
    omega

/-- What `_buildDone` asks of the size: no change, or an even size with room for a PAD TLV. -/
def Finishable (len bufSize size : ℕ) : Prop :=
  size = 0 ∨ size % 2 = 0 ∧ size ≤ bufSize ∧ (size = len ∨ len + 4 ≤ size)

instance (len bufSize size : ℕ) : Decidable (Finishable len bufSize size) :=
  inferInstanceAs (Decidable (_ ∨ _))

section Finishing
variable {self : PtpMsg} {buf : Buf} {params : PtpParams} {c : Octet} {ts : List Tlv}

theorem buildSize_eq_some {size n : ℕ} (h : self.buildSize size buf = some n) :
    n = finalSize self.len size ∧
      (size = 0 ∨ size % 2 = 0 ∧ self.len ≤ size ∧ size ≤ buf.size) := by
  simp only [PtpMsg.buildSize, isOdd, decide_eq_true_eq] at h
  rw [finalSize]
  split_ifs at h with h0 h1 h2 h3
  · exact ⟨by rw [if_pos h0]; exact (Option.some.inj h).symm, .inl h0⟩
  · exact ⟨by rw [if_neg h0]; exact (Option.some.inj h).symm, .inr (by omega)⟩

theorem buildSize_eq_none {size : ℕ} (h : self.buildSize size buf = none) :
    ¬ (size = 0 ∨ size % 2 = 0 ∧ self.len ≤ size ∧ size ≤ buf.size) := by
  simp only [PtpMsg.buildSize, isOdd, decide_eq_true_eq] at h
  split_ifs at h <;> omega

/-- The object and the buffer when the TLVs have been converted: the header follows, and a PAD TLV fills
what is left. -/
def PtpMsg.finished (self : PtpMsg) (final : ℕ) (buf : Buf) : PtpMsg × Buf :=
  let m := ((cpuToNetMsg final).run buf.mem).2
  if final = self.len then (self, ((buf.withMem m).setLen final).2)
  else
    (self.recordPad self.len (final - self.len),
      ((buf.withMem (blit m self.len (padOctets (final - self.len)))).setLen final).2)

/-- `_buildDone` on an object whose unused memory begins behind the message. -/
theorem PtpMsg.buildDone_eq (hattached : self.attached = true) (hend : self.endPtr = some self.len)
    (hleft : self.left = buf.size - self.len) (size : ℕ) :
    self.buildDone size buf =
      if Finishable self.len buf.size size then
        if ((cpuToNetTlvs self.tlvs).run buf.mem).1 = true then
          (true, self.finished (finalSize self.len size)
            (buf.withMem ((cpuToNetTlvs self.tlvs).run buf.mem).2))
        else (false, self, buf.withMem ((cpuToNetTlvs self.tlvs).run buf.mem).2)
      else (false, self, buf) := by
  simp only [PtpMsg.buildDone, hend, hattached, Bool.true_eq_false, if_false]
  cases hb : self.buildSize size buf with
  | none =>
    have hnone := buildSize_eq_none hb
    rw [if_neg (by rw [Finishable]; omega)]
  | some n =>
    obtain ⟨hn, hsize⟩ := buildSize_eq_some hb
    rw [finalSize] at hn
    have hpad : (n - self.len > 0 ∧ (n - self.len < tlvHdr ∨ self.left < n - self.len)) ↔
        ¬ Finishable self.len buf.size size := by
      rw [Finishable, tlvHdr]
      split_ifs at hn <;> omega
    by_cases hok : Finishable self.len buf.size size
    · have hfinal : n = self.len ∨ n - self.len ≥ tlvHdr := by
        rw [Finishable] at hok
        rw [tlvHdr]
        split_ifs at hn <;> omega
      dsimp only
      rw [if_neg (by rw [hpad]; exact not_not.mpr hok), if_pos hok]
      cases hconv : ((cpuToNetTlvs self.tlvs).run buf.mem).1 with
      | false => rfl
      | true =>
        simp only [Bool.true_eq_false, if_false, if_true, PtpMsg.finished, finalSize, ← hn,
          Buf.withMem_mem, run_storePad]
        rcases hfinal with heq | hge
        · rw [if_neg (by rw [tlvHdr]; omega), if_pos heq]
          rfl
        · rw [if_pos hge, if_neg (by rw [tlvHdr] at hge; omega)]
          rfl
    · dsimp only
      rw [if_pos (hpad.mpr hok), if_neg hok]

theorem Built.buildDone_false (h : Built self buf params c ts) {size : ℕ}
    (hno : ¬ Finishable self.len buf.size size) : (self.buildDone size buf).1 = false := by
  rw [PtpMsg.buildDone_eq h.attached h.endPtr h.left, if_neg hno]

theorem finalSize_cases {bufSize len size : ℕ} (h : Finishable len bufSize size) :
    finalSize len size = len ∨ len + 4 ≤ finalSize len size := by
  rw [Finishable] at h
  rw [finalSize]
  split_ifs <;> omega

theorem finalSize_le {bufSize len size : ℕ} (h : Finishable len bufSize size) (hlen : len ≤ bufSize) :
    finalSize len size ≤ bufSize := by
  rw [Finishable] at h
  rw [finalSize]
  split_ifs <;> omega

/-- The header is still in host order when the TLVs have been converted. -/
theorem Built.converted (h : Built self buf params c ts) (final : ℕ) :
    ∃ m, (cpuToNetMsg final).run (blit buf.mem 44 (tlvsOctets .net (ts.map Tlv.zeroFill))) = ((), m) ∧
      Holds m 0 (headerOctets .net params c (BitVec.ofNat 16 final) ++
        tlvsOctets .net (ts.map Tlv.zeroFill)) := by
  have hhdr : Holds (blit buf.mem 44 (tlvsOctets .net (ts.map Tlv.zeroFill))) 0
      (headerOctets .host params c 0) :=
    (holds_append.mp h.holds).1.blit_of_disjoint (by rw [headerOctets_length]; omega)
  refine ⟨_, run_cpuToNetMsg hhdr final, ?_⟩
  rw [holds_append, headerOctets_length, Nat.zero_add]
  exact ⟨holds_blit _ _ _, (holds_blit _ _ _).blit_of_disjoint (by rw [headerOctets_length]; omega)⟩

theorem Built.buildDone (h : Built self buf params c ts) {size : ℕ}
    (hok : Finishable self.len buf.size size) :
    ∃ self' buf', self.buildDone size buf = (true, self', buf') ∧ buf'.size = buf.size ∧
      buf'.len = finalSize self.len size ∧
      buf'.data = wireOctets params c ts (finalSize self.len size) := by
  have hlen := h.len
  have hts := (holds_append.mp h.holds).2
  rw [headerOctets_length, Nat.zero_add] at hts
  have hcases := finalSize_cases hok
  have hle := finalSize_le hok h.fits
  have hrun := PtpMsg.buildDone_eq h.attached h.endPtr h.left size
  rw [if_pos hok, h.tlvs, run_cpuToNetTlvs hts, if_pos rfl] at hrun
  set final := finalSize self.len size with hfinal
  obtain ⟨m, hmsg, hall⟩ := h.converted final
  have hall_length : (headerOctets .net params c (BitVec.ofNat 16 final) ++
      tlvsOctets .net (ts.map Tlv.zeroFill)).length = self.len := by
    rw [List.length_append, headerOctets_length, tlvsOctets_length, tlvsSize_zeroFill, hlen]
  have hdata (b : Buf) (hb : b.len = final) (hh : Holds b.mem 0 (wireOctets params c ts final)) :
      b.data = wireOctets params c ts final := by
    rw [Buf.data, hb]
    rwa [Holds, wireOctets_length (by omega)] at hh
  rw [hrun]
  simp only [PtpMsg.finished, Buf.withMem_mem, hmsg]
  by_cases hp : final = self.len
  · rw [if_pos hp]
    refine ⟨_, _, rfl, by simp, Buf.setLen_len hle, hdata _ (Buf.setLen_len hle) ?_⟩
    rw [wireOctets, if_pos (by omega), List.append_nil, Buf.setLen_mem]
    exact hall
  · rw [if_neg hp]
    refine ⟨_, _, rfl, by simp, Buf.setLen_len hle, hdata _ (Buf.setLen_len hle) ?_⟩
    rw [wireOctets, if_neg (by omega), ← hlen, Buf.setLen_mem, holds_append, hall_length, Nat.zero_add]
    exact ⟨hall.blit_of_disjoint (by omega), holds_blit _ _ _⟩

end Finishing

/-! ## Outcomes

`startIn` and `finish` say whether `_init` and `_buildDone` succeed and, for the latter, which octets
they leave. -/

/-- An empty message, if the buffer can hold its header. -/
def startIn (bufSize : ℕ) : Option (List Tlv) := if 44 ≤ bufSize then some [] else none

/-- The octets of a finished message, if it can be finished with this size. -/
def finish (bufSize : ℕ) (params : PtpParams) (c : Octet) (size : ℕ) (ts : List Tlv) :
    Option (List Octet) :=
  if Finishable (44 + tlvsSize ts) bufSize size then
    some (wireOctets params c ts (finalSize (44 + tlvsSize ts) size))
  else none

theorem startIn_spec (self : PtpMsg) {params : PtpParams} {c : Octet} (buf : Buf)
    (hc : params.type.controlField = some c) :
    match startIn buf.size with
    | some ts => ∃ self' buf', self.init params buf = (true, self', buf') ∧ buf'.size = buf.size ∧
        Built self' buf' params c ts
    | none => (self.init params buf).1 = false := by
  rw [startIn]
  by_cases hs : 44 ≤ buf.size
  · rw [if_pos hs]
    exact init_built self hc hs
  · have hlt : buf.size < msgSize := by
      rw [msgSize]
      omega
    rw [if_neg hs, PtpMsg.init, if_pos hlt]

theorem startIn_eq_some {bufSize : ℕ} {ts : List Tlv} (h : startIn bufSize = some ts) : ts = [] := by
  rw [startIn, Option.ite_none_right_eq_some] at h
  exact (Option.some.inj h.2).symm

theorem startIn_zeroFill {bufSize : ℕ} {ts : List Tlv} (h : startIn bufSize = some ts) :
    ts.map Tlv.zeroFill = ts := by
  rw [startIn_eq_some h, List.map_nil]

theorem Built.finish_spec {self : PtpMsg} {buf : Buf} {params : PtpParams} {c : Octet} {ts : List Tlv}
    (h : Built self buf params c ts) (size : ℕ) :
    match finish buf.size params c size ts with
    | some octs => ∃ self' buf', self.buildDone size buf = (true, self', buf') ∧
        buf'.size = buf.size ∧ buf'.data = octs
    | none => (self.buildDone size buf).1 = false := by
  have hlen := h.len
  rw [finish, ← hlen]
  by_cases hok : Finishable self.len buf.size size
  · obtain ⟨self', buf', hrun, hsize, -, hdata⟩ := h.buildDone hok
    rw [if_pos hok]
    exact ⟨self', buf', hrun, hsize, hdata⟩
  · rw [if_neg hok]
    exact h.buildDone_false hok

theorem finish_zeroFill (bufSize : ℕ) (params : PtpParams) (c : Octet) (size : ℕ) (ts : List Tlv) :
    finish bufSize params c size (ts.map Tlv.zeroFill) = finish bufSize params c size ts := by
  rw [finish, finish, tlvsSize_zeroFill, wireOctets_zeroFill]

theorem finish_eq_some {bufSize size : ℕ} {params : PtpParams} {c : Octet} {ts : List Tlv}
    {octs : List Octet} (h : finish bufSize params c size ts = some octs) :
    Finishable (44 + tlvsSize ts) bufSize size ∧
      octs = wireOctets params c ts (finalSize (44 + tlvsSize ts) size) := by
  rw [finish] at h
  split at h
  · exact ⟨‹_›, (Option.some.inj h).symm⟩
  · simp at h

theorem finish_length {bufSize size : ℕ} {params : PtpParams} {c : Octet} {ts : List Tlv}
    {octs : List Octet} (h : finish bufSize params c size ts = some octs) (hs : 0 < size) :
    octs.length = size := by
  obtain ⟨hok, rfl⟩ := finish_eq_some h
  rw [wireOctets_length (finalSize_cases hok), finalSize_of_pos hs]

end Csptp

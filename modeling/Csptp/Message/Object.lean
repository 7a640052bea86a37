import Csptp.Message.Convert

/-! # The message object (`msg.c`)

Each operation gets the buffer that the object is attached to, or is being attached to, and returns
the source's result flag, the object and the buffer. Pointer arguments are values here, so the null
checks on arguments have no counterpart. -/
namespace Csptp
open Octets Octets.Prog
set_option autoImplicit false

/-! ## Starting a message -/

def initHeader (params : PtpParams) (controlField : Octet) : Prog Unit := do
  memset 0 0 msgSize
  store 0 (params.type.code ||| (majorSdoId <<< 4))
  store 1 versionOctet
  store 4 params.domainNumber
  store 5 minorSdoId
  store 6 (unicastFlag ||| (if params.useTwoSteps then twoStepsFlag else 0#8))
  store 7 params.flagField2
  store 8 params.correctionField
  store 30 params.sequenceId
  store 32 controlField
  store 33 logIntervalUnicast
  storeTimestamp 34 params.timestamp

def PtpMsg.init (self : PtpMsg) (params : PtpParams) (buf : Buf) : Bool × PtpMsg × Buf :=
  if buf.size < msgSize then (false, self, buf)
  else match params.type.controlField with
    | none => (false, self, buf)
    | some controlField =>
      let buf' := buf.withMem ((initHeader params controlField).run buf.mem).2
      (true,
        { attached := true, type := some params.type, len := msgSize, endPtr := some msgSize,
          left := buf.size - msgSize, tlvs := [] },
        (buf'.setLen msgSize).2)

/-! ## Adding TLVs -/

/-- The place for a TLV of the needed size; `none` is the null pointer. -/
def PtpMsg.nextTlv (self : PtpMsg) (need : ℕ) : Option ℕ :=
  if makeEven need > self.left ∨ self.tlvs.length = maxTlvs then none else self.endPtr

/-- The object and the buffer with one more TLV recorded at `h`. -/
def PtpMsg.record (self : PtpMsg) (buf : Buf) (h sz : ℕ) (id : TlvTypeId) : PtpMsg × Buf :=
  ({ self with
      tlvs := self.tlvs ++ [⟨h, sz, id⟩], endPtr := some (h + sz), left := self.left - sz,
      len := self.len + sz },
    (buf.setLen (self.len + sz)).2)

/-- The switch of `_addTlv`: what the TLV at `h` needs beyond its minimum size. -/
def addTlvExtra (id : TlvTypeId) (h : ℕ) : Prog (Option ℕ) :=
  match id with
  | .alternateTimeOffsetIndicator => do
    let nameLen ← load 8 (h + 19)
    -- an octet in the source
    let l := makeEven nameLen.toNat % 2 ^ 8
    pure (if l > maxTzLen then none else some l)
  | .csptpStatus => do
    let networkProtocol ← load 16 (h + 28)
    let add := adderSize (Prot.ofCode networkProtocol)
    pure (if add = 0 then none else some add)
  | .csptpResponse => pure (some 0)
  | .csptpRequest => pure none
  | .pad => pure none
  | .invalidTlvId => pure none

def PtpMsg.addTlv (self : PtpMsg) (id : TlvTypeId) (buf : Buf) : Bool × PtpMsg × Buf :=
  match self.endPtr with
  | none => (false, self, buf)
  | some h =>
    if self.tlvs.length = maxTlvs then (false, self, buf)
    else if self.left < tlvHdr then (false, self, buf)
    else if minTlvSize id = 0 then (false, self, buf)
    else if minTlvSize id > self.left then (false, self, buf)
    else
      let r := (do
        store h id.code
        addTlvExtra id h : Prog (Option ℕ)).run buf.mem
      match r.1 with
      | none => (false, self, buf.withMem r.2)
      | some add =>
        let sz := minTlvSize id + add
        if sz > self.left then (false, self, buf.withMem r.2)
        else
          let buf' := buf.withMem ((store (h + 2) (BitVec.ofNat 16 (sz - tlvHdr))).run r.2).2
          (true, self.record buf' h sz id)

def storeRequest (h : ℕ) (flags : Octet) : Prog Unit := do
  store h TlvTypeId.csptpRequest.code
  store (h + 2) (BitVec.ofNat 16 (csptpReq - tlvHdr))
  store (h + 4) (flags &&& (flags0ReqStatusTlv ||| flags0ReqAlternateTimeTlv))
  store (h + 5) 0#8
  store (h + 6) 0#8
  store (h + 7) 0#8

def PtpMsg.addCSPTPReqTlv (self : PtpMsg) (flags : Octet) (buf : Buf) : Bool × PtpMsg × Buf :=
  match self.endPtr with
  | none => (false, self, buf)
  | some h =>
    if self.tlvs.length = maxTlvs then (false, self, buf)
    else if self.left < csptpReq then (false, self, buf)
    else
      let buf' := buf.withMem ((storeRequest h flags).run buf.mem).2
      (true, self.record buf' h csptpReq .csptpRequest)

/-! ## Finishing a message -/

/-- The conversion loop of `_buildDone`. -/
def cpuToNetTlvs : List TlvRec → Prog Bool
  | [] => pure true
  | r :: rs => do
    let ok ← cpuToNetTlv r.id r.tlv r.len
    if ok then cpuToNetTlvs rs else pure false

def storePad (h padSz : ℕ) : Prog Unit := do
  store h (swap TlvTypeId.pad.code)
  store (h + 2) (swap (BitVec.ofNat 16 (padSz - tlvHdr)))
  memset (h + 4) 0 (padSz - tlvHdr)

/-- The object after a PAD TLV of `padSz` octets at `h`; the record is left out when the table is
full. -/
def PtpMsg.recordPad (self : PtpMsg) (h padSz : ℕ) : PtpMsg :=
  { self with
    tlvs := if self.tlvs.length < maxTlvs then self.tlvs ++ [⟨h, padSz, .pad⟩] else self.tlvs
    endPtr := some (h + padSz), len := self.len + padSz, left := self.left - padSz }

/-- The checks of `_buildDone` on the requested size; the result is the final size. -/
def PtpMsg.buildSize (self : PtpMsg) (size : ℕ) (buf : Buf) : Option ℕ :=
  if size = 0 then some self.len
  else if isOdd size then none
  else if size < self.len then none
  else if size > buf.size then none
  else some size

def PtpMsg.buildDone (self : PtpMsg) (size : ℕ) (buf : Buf) : Bool × PtpMsg × Buf :=
  match self.endPtr with
  | none => (false, self, buf)
  | some h =>
    if self.attached = false then (false, self, buf)
    else match self.buildSize size buf with
      | none => (false, self, buf)
      | some size =>
        let padSz := size - self.len
        if padSz > 0 ∧ (padSz < tlvHdr ∨ self.left < padSz) then (false, self, buf)
        else
          let r := (cpuToNetTlvs self.tlvs).run buf.mem
          if r.1 = false then (false, self, buf.withMem r.2)
          else
            let m := ((cpuToNetMsg size).run r.2).2
            if padSz ≥ tlvHdr then
              (true, self.recordPad h padSz,
                ((buf.withMem ((storePad h padSz).run m).2).setLen size).2)
            else (true, self, ((buf.withMem m).setLen size).2)

/-! ## Reading a message -/

/-- The TLV loop of `_parse` with `k` free records: the records, the TLV pointer and the size left. -/
def parseTlvs : ℕ → ℕ → ℕ → List TlvRec → Prog (List TlvRec × ℕ × ℕ)
  | 0, tlvPtr, size, tlvs => pure (tlvs, tlvPtr, size)
  | k + 1, tlvPtr, size, tlvs =>
    if size > tlvHdr then do
      let r ← netToCpuTlv tlvPtr size
      if r.1 = .invalidTlvId then pure (tlvs, tlvPtr, size)
      else do
        let rest ← subSize size r.2
        parseTlvs k (tlvPtr + r.2) rest (tlvs ++ [⟨tlvPtr, r.2, r.1⟩])
    else pure (tlvs, tlvPtr, size)

/-- The checks of `_parse` on fields with one allowed value, and the type they leave. -/
def parseHeader : Prog (Option MessageType) := do
  let first ← load 8 0
  match MessageType.ofLow (first &&& 0xf#8) with
  | none => pure none
  | some type => do
    let controlField ← load 8 32
    if some controlField ≠ type.controlField then pure none
    else do
      let logMessageInterval ← load 8 33
      if logMessageInterval ≠ logIntervalUnicast then pure none
      else do
        let versionPTP ← load 8 1
        if versionPTP ≠ versionOctet then pure none
        else do
          let first ← load 8 0
          if first >>> 4 ≠ majorSdoId then pure none
          else do
            let clockIdentity ← loadOctets 20 8
            let portNumber ← load 16 28
            if clockIdentity ≠ List.replicate 8 0#8 ∨ portNumber ≠ 0 then pure none
            else do
              let minor ← load 8 5
              if minor ≠ minorSdoId then pure none
              else do
                let flags0 ← load 8 6
                if flags0 &&& ~~~twoStepsFlag ≠ unicastFlag then pure none
                else do
                  let flags1 ← load 8 7
                  if flags1 &&& 0xc0#8 ≠ 0 then pure none
                  else pure (some type)

/-- The parameters that `_parse` stores. -/
def parseParams (type : MessageType) : Prog PtpParams := do
  let flags0 ← load 8 6
  let flagField2 ← load 8 7
  let correctionField ← load 64 8
  let domainNumber ← load 8 4
  let sequenceId ← load 16 30
  let timestamp ← loadTimestamp 34
  pure {
    type := type
    useTwoSteps := flags0 &&& twoStepsFlag = twoStepsFlag
    flagField2 := flagField2
    correctionField := correctionField
    domainNumber := domainNumber
    sequenceId := sequenceId
    timestamp := timestamp }

/-- `_parse` on `len` data octets in a buffer of `bufSize`; `none` where it returns false. -/
def parseMsg (len bufSize : ℕ) : Prog (Option (PtpMsg × PtpParams)) :=
  if len > bufSize then pure none
  else if len < msgSize then pure none
  else do
    let msgLen ← netToCpuMsg
    if msgLen > len then pure none
    else do
      let size ← subSize msgLen msgSize
      let header ← parseHeader
      match header with
      | none => pure none
      | some type => do
        let t ← parseTlvs maxTlvs msgSize size []
        let params ← parseParams type
        pure (some (
          { attached := true, type := some type, len := msgLen, endPtr := some t.2.1,
            left := (t.2.2 + bufSize - msgLen) % 2 ^ 64, tlvs := t.1 }, params))

/-- What a call of `_parse` returns and leaves. -/
structure ParseResult where
  ok : Bool
  self : PtpMsg
  params : PtpParams
  buf : Buf

/-- Where the TLV loop runs behind the block, `getLen` and `getSize` give afterwards what they gave before;
`Buf.reread` gives what the object in memory then has. -/
def PtpMsg.parse (self : PtpMsg) (params : PtpParams) (buf : Buf) : ParseResult :=
  let r := (parseMsg buf.len buf.size).run buf.mem
  match r.1 with
  | none => { ok := false, self := self, params := params, buf := buf.withMem r.2 }
  | some (self', params') =>
    { ok := true, self := self', params := params', buf := buf.withMem r.2 }

theorem PtpMsg.parse_of_some (self : PtpMsg) (params : PtpParams) {buf : Buf}
    {r : PtpMsg × PtpParams} (h : ((parseMsg buf.len buf.size).run buf.mem).1 = some r) :
    self.parse params buf =
      ⟨true, r.1, r.2, buf.withMem ((parseMsg buf.len buf.size).run buf.mem).2⟩ := by
  simp [parse, h]

theorem PtpMsg.parse_of_none (self : PtpMsg) (params : PtpParams) {buf : Buf}
    (h : ((parseMsg buf.len buf.size).run buf.mem).1 = none) :
    self.parse params buf =
      ⟨false, self, params, buf.withMem ((parseMsg buf.len buf.size).run buf.mem).2⟩ := by
  simp [parse, h]

@[simp] theorem PtpMsg.parse_len (self : PtpMsg) (params : PtpParams) (buf : Buf) :
    (self.parse params buf).buf.len = buf.len := by
  rw [parse]
  cases ((parseMsg buf.len buf.size).run buf.mem).1 <;> rfl

@[simp] theorem PtpMsg.parse_size (self : PtpMsg) (params : PtpParams) (buf : Buf) :
    (self.parse params buf).buf.size = buf.size := by
  rw [parse]
  cases ((parseMsg buf.len buf.size).run buf.mem).1 <;> rfl

/-! ## The size of the buffer stays -/

section Size
variable (self : PtpMsg) (buf : Buf)

@[simp] theorem PtpMsg.init_size (params : PtpParams) :
    (self.init params buf).2.2.size = buf.size := by
  rw [init]
  split
  · rfl
  · split <;> simp

@[simp] theorem PtpMsg.addTlv_size (id : TlvTypeId) : (self.addTlv id buf).2.2.size = buf.size := by
  rw [addTlv]
  split
  · rfl
  · split_ifs
    · rfl
    · rfl
    · rfl
    · rfl
    · dsimp only
      split
      · rfl
      · split_ifs <;> simp [record]

@[simp] theorem PtpMsg.addCSPTPReqTlv_size (flags : Octet) :
    (self.addCSPTPReqTlv flags buf).2.2.size = buf.size := by
  rw [addCSPTPReqTlv]
  split
  · rfl
  · split_ifs <;> simp [record]

@[simp] theorem PtpMsg.buildDone_size (size : ℕ) : (self.buildDone size buf).2.2.size = buf.size := by
  rw [buildDone]
  split
  · rfl
  · split_ifs
    · rfl
    · split
      · rfl
      · dsimp only
        split_ifs <;> simp

end Size

end Csptp

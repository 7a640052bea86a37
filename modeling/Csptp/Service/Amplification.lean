import Csptp.Placed
import Csptp.Service.Reaction

/-! # What a service sends for what it receives

A pass answers with the length that it reads in the buffer's object after `_parse`. So its answers are as long
as what came in unless `_parse` has changed this length, and it does so for some messages whose
`messageLength` does not cover the header. -/
namespace Csptp
open Octets Octets.Prog
set_option autoImplicit false

/-! ## A pass with its object in memory -/

/-- What one pass sends when the object of its buffer lies at `obj`, behind the start of the block. Its words
are read again once, after `_parse`. -/
def ServiceState.sentAt (obj : Option ℕ) (useTxTwoSteps : Bool) (inp : ServiceInput) (st : ServiceState) :
    List Datagram :=
  match inp.poll with
  | .idle => []
  | .ready arrival rxNow =>
    let r := recv st.buffer st.address arrival rxNow
    let p := st.message.parse st.params (r.buf.seat obj)
    if r.ok = false ∨ p.ok = false then []
    else match p.buf.reread obj with
    -- `buildDone` refuses a length above the size
    | none => []
    | some buffer => (answer useTxTwoSteps inp { st with
        address := r.address, rxTs := r.ts, message := p.self, params := p.params, buffer := buffer }).2.2

/-- With an object that lies elsewhere it is the pass of `mainFlow`. -/
theorem sentAt_none (useTxTwoSteps : Bool) (inp : ServiceInput) (st : ServiceState) :
    st.sentAt none useTxTwoSteps inp = st.sent useTxTwoSteps inp := by
  cases hpoll : inp.poll with
  | idle => rw [ServiceState.sentAt, hpoll, sent_of_idle useTxTwoSteps st hpoll]
  | ready arrival rxNow =>
    rw [ServiceState.sentAt, hpoll, sent_of_ready useTxTwoSteps st hpoll]
    by_cases hok : (recv st.buffer st.address arrival rxNow).ok = true
    · rw [receive_of_ok hok]
      dsimp only [Buf.seat, Buf.reread]
      cases (st.message.parse st.params (recv st.buffer st.address arrival rxNow).buf).ok <;> simp [hok]
    · simp [ServiceState.receive, hok]

/-! ## The size of the answers -/

/-- The answers to an arrival have the length that `recv` delivered and go back to where it came from, there
is one of them or, in two-step mode, two, the second only after the first, and there is none when a check
fails. -/
def Modest (obj : Option ℕ) (st : ServiceState) (useTxTwoSteps : Bool) (arrival : Option Datagram)
    (rxNow now : ClockReading) (netRespSync netFollowUp : Bool) : Prop :=
  let out := st.sentAt obj useTxTwoSteps ⟨.ready arrival rxNow, now, netRespSync, netFollowUp⟩
  let r := recv st.buffer st.address arrival rxNow
  let p := st.message.parse st.params (r.buf.seat obj)
  (∀ s ∈ out, ∃ d, arrival = some d ∧ s.addr = d.addr ∧ s.octets.length = r.buf.len ∧
      r.buf.len ≤ d.octets.length) ∧
    out.length ≤ (if useTxTwoSteps then 2 else 1) ∧ (netRespSync = false → out = []) ∧
    (r.ok = false ∨ p.ok = false ∨ p.params.type ≠ .sync ∨
      ((rcvReqSync p.self.tlvs none).run p.buf.mem).1 = none → out = [])

section Pass
variable {obj : Option ℕ} {st : ServiceState} {useTxTwoSteps : Bool} {arrival : Option Datagram}
  {rxNow now : ClockReading} {netRespSync netFollowUp : Bool}

/-- A pass that refuses what came in sends nothing. -/
theorem modest_of_refused (h : (recv st.buffer st.address arrival rxNow).ok = false ∨
      (st.message.parse st.params ((recv st.buffer st.address arrival rxNow).buf.seat obj)).ok = false) :
    Modest obj st useTxTwoSteps arrival rxNow now netRespSync netFollowUp := by
  have hout : st.sentAt obj useTxTwoSteps ⟨.ready arrival rxNow, now, netRespSync, netFollowUp⟩ = [] := if_pos h
  rw [Modest, hout]
  exact ⟨fun s hs => absurd hs List.not_mem_nil, Nat.zero_le _, fun _ => rfl, fun _ => rfl⟩

/-- A pass that finds the words of the object as they were answers at the length that came in. -/
theorem modest_of_reread {d : Datagram} (hok : (recv st.buffer st.address (some d) rxNow).ok = true)
    (hparse : (st.message.parse st.params ((recv st.buffer st.address (some d) rxNow).buf.seat obj)).ok = true)
    (hreread : (st.message.parse st.params
        ((recv st.buffer st.address (some d) rxNow).buf.seat obj)).buf.reread obj =
      some (st.message.parse st.params ((recv st.buffer st.address (some d) rxNow).buf.seat obj)).buf) :
    Modest obj st useTxTwoSteps (some d) rxNow now netRespSync netFollowUp := by
  obtain ⟨d', hd, -, hpos, haddr, hdata⟩ := recv_true hok
  cases Option.some.inj hd
  set r := recv st.buffer st.address (some d) rxNow with hr
  set p := st.message.parse st.params (r.buf.seat obj) with hp
  have hlen : r.buf.len = (d.octets.take st.buffer.size).length := by rw [← hdata, Buf.data_length]
  have hplen : p.buf.len = r.buf.len := by rw [hp, PtpMsg.parse_len, Buf.seat_len]
  set st' : ServiceState := { st with
    address := r.address, rxTs := r.ts, message := p.self, params := p.params, buffer := p.buf } with hst'
  set inp : ServiceInput := ⟨.ready (some d) rxNow, now, netRespSync, netFollowUp⟩ with hinp
  have hout : st.sentAt obj useTxTwoSteps inp = (ServiceState.answer useTxTwoSteps inp st').2.2 := by
    rw [ServiceState.sentAt, hinp]
    dsimp only
    rw [← hr, ← hp, if_neg (by rw [hok, hparse]; simp), hreread]
  obtain ⟨hall, hcount, hnet, hnone⟩ := answer_shape st' useTxTwoSteps inp (by
    rw [hst', hplen, hlen]
    exact hpos)
  rw [Modest, ← hr, ← hp, ← hinp, hout]
  refine ⟨fun s hs => ⟨d, rfl, (hall s hs).1.trans haddr, (hall s hs).2.trans hplen, ?_⟩, hcount, hnet,
    fun h => hnone ?_⟩
  · rw [hlen, List.length_take]
    exact Nat.min_le_right _ _
  · simpa [hok, hparse] using h

theorem modest_of_wellSized (hobj : ∀ o ∈ obj, st.buffer.size ≤ o)
    (hw : ∀ d ∈ arrival, WellSized st.buffer.size d.octets) :
    Modest obj st useTxTwoSteps arrival rxNow now netRespSync netFollowUp := by
  cases hok : (recv st.buffer st.address arrival rxNow).ok with
  | false => exact modest_of_refused (.inl hok)
  | true =>
    obtain ⟨d, rfl, -, -, -, hdata⟩ := recv_true hok
    have hsize : (recv st.buffer st.address (some d) rxNow).buf.size = st.buffer.size := recv_size _ _ _ _
    rw [← hsize] at hdata hobj hw
    have hreread := parse_seated st.message st.params hobj (covers_of_wellSized hdata (hw d rfl))
    cases hparse : (st.message.parse st.params
        ((recv st.buffer st.address (some d) rxNow).buf.seat obj)).ok with
    | false => exact modest_of_refused (.inr hparse)
    | true => exact modest_of_reread hok hparse hreread

end Pass

/-! ## A message that is too short for its header -/

/-- The octets have this `messageLength`, if there are enough of them to decode at all. -/
def Names (size l : ℕ) (octs : List Octet) : Prop :=
  msgSize ≤ (octs.take size).length → messageLength (fresh size octs) = l

/-- A request of 56 octets for everything, and a PAD whose length leads from its header, at offset 52, to
the last octet of `_size` in an object that lies 272 octets behind the start of the block. -/
def shortRequest (messageLength : Octet) : Datagram :=
  { addr := .in4 7 9
    octets := [0x30, 0x12, 0, messageLength, 0, 0, 4, 0] ++ List.replicate 24 0 ++ [0, 0x7f] ++
      List.replicate 10 0 ++ [0xff, 0x00, 0, 4, 3, 0, 0, 0, 0x80, 0x08, 0, 231] }

theorem shortRequest_length (messageLength : Octet) : (shortRequest messageLength).octets.length = 56 := rfl

/-- What `recv` and `_parse` make of it. -/
def shortReceived (l : ℕ) : RecvResult :=
  recv sampleService.buffer sampleService.address (some (shortRequest (BitVec.ofNat 8 l))) (sampleTime 10)

def shortParsed (l : ℕ) : ParseResult :=
  sampleService.message.parse sampleService.params ((shortReceived l).buf.seat (some 272))

/-- The length moves into the last octet of `_size` and leaves a zero. -/
theorem shortParsed_spec : ∀ l < msgSize, (shortReceived l).ok = true ∧ (shortParsed l).ok = true ∧
    (shortParsed l).params = .zero ∧ ((shortParsed l).buf.reread (some 272)).map (fun b =>
      (b.size, b.len, ((rcvReqSync (shortParsed l).self.tlvs none).run b.mem).1)) =
        some (256 + 56 * 2 ^ 56, 0, some 3) := by
  decide +kernel

/-- For the length zero `buildDone` takes the size that the TLVs of the answer need. -/
theorem respSync_of_zero : (respSync (256 + 56 * 2 ^ 56) dummyClockInfo .zero (sampleTime 10).toTimespec
    (sampleTime 11).toTimespec 3 0).map List.length = some 132 := by
  decide +kernel

theorem shortRequest_sent {l : ℕ} (hl : l < msgSize) :
    (sampleService.sentAt (some 272) false (sampleInput (shortRequest (BitVec.ofNat 8 l)))).map
      (·.octets.length) = [132] := by
  obtain ⟨hrecv, hok, hparams, hwords⟩ := shortParsed_spec l hl
  obtain ⟨b, hb, hwords⟩ := Option.map_eq_some_iff.mp hwords
  obtain ⟨hsize, hrest⟩ := Prod.mk.inj hwords
  obtain ⟨hlen, hflags⟩ := Prod.mk.inj hrest
  obtain ⟨octs, hocts, hlength⟩ := Option.map_eq_some_iff.mp respSync_of_zero
  have hreplies (inp : ServiceInput) (hnow : inp.now = sampleTime 11) (hnet : inp.netRespSync = true) :
      repliesTo (256 + 56 * 2 ^ 56) dummyClockInfo false .zero (sampleTime 10).toTimespec inp (some 3) 0 =
        [octs] := by
    have hparams : ({ PtpParams.zero with useTwoSteps := false } : PtpParams) = .zero := rfl
    rw [repliesTo_sync rfl, replies, hnow, hparams, hocts, hnet]
    rfl
  rw [ServiceState.sentAt, sampleInput]
  dsimp only
  rw [← shortReceived, ← shortParsed, if_neg (by rw [hrecv, hok]; simp), hb]
  dsimp only
  rw [answer_out, hparams, hflags, hsize, hlen, shortReceived, recv_ts]
  change List.map _ (List.map _ (repliesTo _ dummyClockInfo _ _ _ _ _ _)) = _
  rw [hreplies _ rfl rfl]
  exact congrArg (fun n => [n]) hlength

theorem shortRequest_names {l : ℕ} (hl : l < msgSize) :
    Names sampleService.buffer.size l (shortRequest (BitVec.ofNat 8 l)).octets := by
  have hall : ∀ l < msgSize,
      messageLength (fresh sampleService.buffer.size (shortRequest (BitVec.ofNat 8 l)).octets) = l := by
    decide +kernel
  exact fun _ => hall l hl

theorem shortRequest_not_modest {l : ℕ} (hl : l < msgSize) :
    ¬ Modest (some 272) sampleService false (some (shortRequest (BitVec.ofNat 8 l))) (sampleTime 10)
      (sampleTime 11) true true := by
  rintro ⟨hall, -⟩
  have hsent := shortRequest_sent hl
  rw [List.map_eq_singleton_iff] at hsent
  obtain ⟨s, hs, hlen⟩ := hsent
  obtain ⟨d, hd, -, hsame, hle⟩ := hall s (hs ▸ List.mem_singleton_self s)
  rw [← Option.some.inj hd, shortRequest_length, ← hsame, hlen] at hle
  exact absurd hle (by decide)

/-- For every `messageLength`: all passes on messages with it are modest, wherever the object of the buffer
lies, exactly when it covers the header. -/
theorem no_amplification (l : ℕ) :
    (∀ (obj : Option ℕ) (st : ServiceState) (useTxTwoSteps : Bool) (arrival : Option Datagram)
      (rxNow now : ClockReading) (netRespSync netFollowUp : Bool), (∀ o ∈ obj, st.buffer.size ≤ o) →
        (∀ d ∈ arrival, Names st.buffer.size l d.octets) →
          Modest obj st useTxTwoSteps arrival rxNow now netRespSync netFollowUp) ↔ msgSize ≤ l := by
  constructor
  · intro h
    by_contra hlt
    have hl : l < msgSize := by omega
    refine shortRequest_not_modest hl (h _ _ _ _ _ _ _ _ (fun o ho => ?_) fun d hd => ?_)
    · exact Option.some.inj ho ▸ (by decide)
    · exact Option.some.inj hd ▸ shortRequest_names hl
  · intro hl obj st useTxTwoSteps arrival rxNow now netRespSync netFollowUp hobj hnames
    refine modest_of_wellSized hobj fun d hd hlong => ?_
    rw [hnames d hd hlong]
    exact hl

/-- The first pass of a service answers these 56 octets with 132. -/
theorem no_amplification_fails :
    serviceAllocObjs .udpIPv4 (fun _ => 0xaa) = some sampleService ∧
      (shortRequest 43).octets.length = 56 ∧
      (sampleService.sentAt (some 272) false (sampleInput (shortRequest 43))).map (·.octets.length) = [132] ∧
      ¬ Modest (some 272) sampleService false (some (shortRequest 43)) (sampleTime 10) (sampleTime 11)
        true true :=
  ⟨rfl, rfl, shortRequest_sent (l := 43) (by decide), shortRequest_not_modest (l := 43) (by decide)⟩

end Csptp

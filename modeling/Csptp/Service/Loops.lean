import Csptp.Service.Reaction
import Mathlib.Algebra.Order.BigOperators.Group.List
import Mathlib.Algebra.Group.Action.Defs

/-! # Replies get no replies

A Response Sync carries no request and a Follow_Up is no Sync, so a service that gets one of them sends
nothing. In a network of services each datagram from outside then leads to at most three deliveries.
-/
namespace Csptp
open Octets Octets.Prog
set_option autoImplicit false

/-! ## The TLVs of a reply -/

theorem Tlv.Addable.id_ne {t : Tlv} (h : t.Addable) : t.id ≠ .csptpRequest := by
  cases t with
  | request flags => exact h.elim
  | _ => simp [Tlv.id]

theorem responseTlv_addable {clk : IfClk} {rxTs : Timespec} {t : Tlv}
    (h : responseTlv clk rxTs = some t) : t.Addable := by
  obtain ⟨ts, -, rfl⟩ := Option.map_eq_some_iff.mp h
  trivial

theorem statusTlv_addable {clk : IfClk} {t : Tlv} (h : statusTlv clk = some t) : t.Addable := by
  obtain ⟨a, -, rfl⟩ := Option.map_eq_some_iff.mp h
  trivial

theorem altTimeTlv_addable {clk : IfClk} {t : Tlv} (h : altTimeTlv clk = some t) : t.Addable := by
  obtain ⟨jump, -, h⟩ := Option.bind_eq_some_iff.mp h
  split at h
  · rw [← Option.some.inj h]
    assumption
  · simp at h

/-- The TLVs so far can be in a message. -/
def AddableTlvs (ts : List Tlv) : Prop := ts.length ≤ maxTlvs ∧ ∀ t ∈ ts, t.Addable

theorem addTo_addable {bufSize need : ℕ} {t : Option Tlv} {ts us : List Tlv} (hts : AddableTlvs ts)
    (ht : ∀ x, t = some x → x.Addable) (h : addTo bufSize need t ts = some us) : AddableTlvs us := by
  obtain ⟨x, hx, hus⟩ := Option.bind_eq_some_iff.mp h
  obtain ⟨hroom, hx⟩ := Option.ite_none_right_eq_some.mp hx
  rw [← Option.some.inj hus]
  have hfew := hts.1
  have hroom := hroom.1
  refine ⟨by rw [List.length_append, List.length_singleton]; omega, fun y hy => ?_⟩
  rcases List.mem_append.mp hy with hy | hy
  · exact hts.2 y hy
  · rw [List.mem_singleton.mp hy]
    exact ht x hx

theorem answerTlvs_addable {bufSize : ℕ} {clk : IfClk} {rxTs : Timespec} {flags : Octet}
    {ts : List Tlv} (h : answerTlvs bufSize clk rxTs flags = some ts) : AddableTlvs ts := by
  obtain ⟨ts₀, h₀, h⟩ := Option.bind_eq_some_iff.mp h
  obtain ⟨ts₁, h₁, h⟩ := Option.bind_eq_some_iff.mp h
  obtain ⟨ts₂, h₂, h₃⟩ := Option.bind_eq_some_iff.mp h
  have hts₀ : AddableTlvs ts₀ := by
    rw [startIn, Option.ite_none_right_eq_some] at h₀
    rw [← Option.some.inj h₀.2]
    exact ⟨Nat.zero_le _, fun t ht => absurd ht List.not_mem_nil⟩
  have hts₁ := addTo_addable hts₀ (fun _ => responseTlv_addable) h₁
  have hts₂ : AddableTlvs ts₂ := by
    split at h₂
    · rwa [← Option.some.inj h₂]
    · exact addTo_addable hts₁ (fun _ => statusTlv_addable) h₂
  split at h₃
  · rwa [← Option.some.inj h₃]
  · exact addTo_addable hts₂ (fun _ => altTimeTlv_addable) h₃

/-! ## A reply at a service -/

theorem mem_records {a : ℕ} {ts : List Tlv} {r : TlvRec} (h : r ∈ records a ts) :
    ∃ t ∈ ts, r.id = t.id := by
  induction ts generalizing a with
  | nil => exact absurd h List.not_mem_nil
  | cons t ts ih =>
    rcases List.mem_cons.mp h with rfl | h
    · exact ⟨t, List.mem_cons_self, rfl⟩
    · obtain ⟨u, hu, hid⟩ := ih h
      exact ⟨u, List.mem_cons_of_mem _ hu, hid⟩

theorem rcvReqSync_of_no_request {rs : List TlvRec} (h : ∀ r ∈ rs, r.id ≠ .csptpRequest)
    (flags : Option Octet) (m : Mem) : ((rcvReqSync rs flags).run m).1 = flags := by
  induction rs with
  | nil => rfl
  | cons r rs ih =>
    rw [rcvReqSync, if_neg (h r List.mem_cons_self)]
    exact ih fun x hx => h x (List.mem_cons_of_mem _ hx)

section Finished
variable {bufSize size : ℕ} {params : PtpParams} {c : Octet} {ts : List Tlv} {octs : List Octet}

/-- A finished message that is a Follow_Up or has no request gets no reaction. -/
theorem reaction_of_finish (h : finish bufSize params c size ts = some octs) (hpos : 0 < size)
    (hlt : size < 2 ^ 16) (hc : params.type.controlField = some c)
    (hf : params.flagField2.toNat < 64) (hts : AddableTlvs ts) {rxSize : ℕ}
    (hfit : octs.length ≤ rxSize) (hrx : rxSize < 2 ^ 64) :
    WellSized rxSize octs ∧ ∀ (clk : IfClk) (useTxTwoSteps : Bool) (rxTs : Timespec)
      (inp : ServiceInput), reaction clk useTxTwoSteps rxTs inp rxSize octs = [] := by
  have hlen := finish_length h hpos
  obtain ⟨hok, hocts⟩ := finish_eq_some h
  rw [finalSize_of_pos hpos, ← hlen] at hocts
  have hcases := finalSize_cases hok
  rw [finalSize_of_pos hpos, ← hlen] at hcases
  obtain ⟨r, pads, hdec, -, -, hpad, htlvs, -⟩ := decode_finished hocts hfit hcases (by omega) hc hf
    hts.1 (fun t ht => (hts.2 t ht).lt_size) hrx
  refine ⟨wellSized_finished hocts hfit hcases (by omega), fun clk useTxTwoSteps rxTs inp => ?_⟩
  have hnone : r.requestFlags = none := by
    refine rcvReqSync_of_no_request (fun x hx => ?_) _ _
    rw [htlvs] at hx
    obtain ⟨t, ht, hid⟩ := mem_records hx
    rw [hid]
    rcases List.mem_append.mp ht with ht | ht
    · obtain ⟨u, hu, rfl⟩ := List.mem_map.mp ht
      rw [Tlv.zeroFill_id]
      exact (hts.2 u hu).id_ne
    · rw [hpad t ht]
      decide
  rw [reaction, hdec]
  dsimp only
  rw [hnone, repliesTo_none]

end Finished

/-- Nothing that a service sends back is answered by a service. -/
theorem reaction_of_reply {bufSize size : ℕ} {clk : IfClk} {useTxTwoSteps : Bool}
    {params : PtpParams} {rxTs : Timespec} {inp : ServiceInput} {flags : Octet} {octs : List Octet}
    (h : octs ∈ replies bufSize clk useTxTwoSteps params rxTs inp flags size) (hpos : 0 < size)
    (hlt : size < 2 ^ 16) (hf : params.flagField2.toNat < 64) {rxSize : ℕ}
    (hfit : octs.length ≤ rxSize) (hrx : rxSize < 2 ^ 64) :
    WellSized rxSize octs ∧ ∀ (clk : IfClk) (useTxTwoSteps : Bool) (rxTs : Timespec)
      (inp : ServiceInput), reaction clk useTxTwoSteps rxTs inp rxSize octs = [] := by
  rcases mem_replies h with h | h
  · obtain ⟨ts2, ts, -, hts, hfin⟩ := respSync_eq_some h
    exact reaction_of_finish hfin hpos hlt rfl hf (answerTlvs_addable hts) hfit hrx
  · obtain ⟨ts2, -, hfin⟩ := followUp_eq_some h
    exact reaction_of_finish hfin hpos hlt rfl hf
      ⟨Nat.zero_le _, fun t ht => absurd ht List.not_mem_nil⟩ hfit hrx

theorem mem_sent {st : ServiceState} {useTxTwoSteps : Bool} {inp : ServiceInput} {s : Datagram}
    (h : s ∈ st.sent useTxTwoSteps inp) :
    ∃ params rxTs flags size, 0 < size ∧ size ≤ st.buffer.size ∧ params.flagField2.toNat < 64 ∧
      s.octets ∈ replies st.buffer.size st.clockInfo useTxTwoSteps params rxTs inp flags size := by
  cases hpoll : inp.poll with
  | idle =>
    rw [sent_of_idle useTxTwoSteps st hpoll] at h
    exact absurd h List.not_mem_nil
  | ready arrival rxNow =>
    rw [sent_of_ready useTxTwoSteps st hpoll] at h
    split at h
    · rename_i hflag
      cases hok : (recv st.buffer st.address arrival rxNow).ok with
      | false => simp [ServiceState.receive, hok] at hflag
      | true =>
        obtain ⟨d, -, -, hpos, -, hdata⟩ := recv_true hok
        rw [receive_of_ok hok] at h hflag
        set r := recv st.buffer st.address arrival rxNow with hr
        rw [answer_out] at h
        obtain ⟨octs, hmem, rfl⟩ := List.mem_map.mp h
        obtain ⟨flags, -, -, hmem⟩ := mem_repliesTo hmem
        simp only [PtpMsg.parse_size, PtpMsg.parse_len, hr, recv_size] at hmem
        rw [← hr] at hmem
        refine ⟨_, _, _, _, ?_, ?_, ?_, hmem⟩
        · rwa [← Buf.data_length, hdata]
        · rw [← Buf.data_length, hdata, List.length_take]
          exact Nat.min_le_left _ _
        · exact parse_flagField2_lt hflag
    · exact absurd h List.not_mem_nil

/-! ## The size of a service's buffer -/

namespace ServiceState

theorem keeps_call {g : ServiceState → Bool × ServiceState}
    (h : ∀ st, (g st).2.buffer.size = st.buffer.size) :
    Attempt.Keeps (fun st : ServiceState => st.buffer.size) (Attempt.call g : Attempt _ Datagram) := h

theorem fillNext_size (need : ℕ) (fill : ℕ → Prog Bool) (st : ServiceState) :
    (st.fillNext need fill).2.buffer.size = st.buffer.size := by
  rw [fillNext]
  split <;> rfl

theorem addTlv_size (id : TlvTypeId) (st : ServiceState) :
    (addTlv id st).2.buffer.size = st.buffer.size := PtpMsg.addTlv_size _ _ _

theorem stamp_size (st : ServiceState) : st.stamp.2.buffer.size = st.buffer.size := by
  rw [stamp]
  split <;> rfl

theorem init_size (st : ServiceState) : st.init.2.buffer.size = st.buffer.size :=
  PtpMsg.init_size _ _ _

theorem finish_keeps (size : ℕ) (net : Bool) :
    Attempt.Keeps (fun st : ServiceState => st.buffer.size)
      ((Attempt.call (buildDone size)).andThen (socketSend net)) :=
  (keeps_call fun _ => PtpMsg.buildDone_size _ _ _).andThen fun _ => rfl

theorem sendRespSync_keeps (size : ℕ) (flags : Octet) (now : ClockReading) (net : Bool) :
    Attempt.Keeps (fun st : ServiceState => st.buffer.size) (sendRespSync size flags now net) := by
  have hcompose : Attempt.Keeps (fun st : ServiceState => st.buffer.size)
      (composeRespSync size flags net) := by
    refine (keeps_call stamp_size).andThen ((keeps_call init_size).andThen ?_)
    refine ((keeps_call fun st => st.fillNext_size _ _).andThen (keeps_call (addTlv_size _))).andThen ?_
    refine (((keeps_call fun st => st.fillNext_size _ _).andThen
      (keeps_call (addTlv_size _))).orElse).andThen ?_
    refine (((keeps_call fun st => st.fillNext_size _ _).andThen
      (keeps_call (addTlv_size _))).orElse).andThen ?_
    exact finish_keeps size net
  exact fun st => hcompose { st with params := { st.params with type := .sync }, t2 := now.toTimespec }

theorem sendFollowUp_keeps (size : ℕ) (net : Bool) :
    Attempt.Keeps (fun st : ServiceState => st.buffer.size) (sendFollowUp size net) := by
  have hcompose : Attempt.Keeps (fun st : ServiceState => st.buffer.size) (composeFollowUp size net) :=
    (keeps_call stamp_size).andThen ((keeps_call init_size).andThen (finish_keeps size net))
  exact fun st => hcompose { st with params := { st.params with type := .followUp } }

theorem receive_size (arrival : Option Datagram) (rxNow : ClockReading) (st : ServiceState) :
    (receive arrival rxNow st).2.buffer.size = st.buffer.size := by
  rw [receive]
  dsimp only
  split <;> simp

theorem answer_keeps (useTxTwoSteps : Bool) (inp : ServiceInput) :
    Attempt.Keeps (fun st : ServiceState => st.buffer.size) (answer useTxTwoSteps inp) := by
  intro st
  rw [answer]
  split
  · dsimp only
    split
    · rfl
    · exact ((sendRespSync_keeps _ _ _ _).andThen (sendFollowUp_keeps _ _).orElse) _
  · rfl

theorem mainFlow_keeps (useTxTwoSteps : Bool) (inp : ServiceInput) :
    Attempt.Keeps (fun st : ServiceState => st.buffer.size) (mainFlow useTxTwoSteps inp) := by
  intro st
  rw [mainFlow]
  split
  · rfl
  · exact ((keeps_call (receive_size _ _)).andThen (answer_keeps useTxTwoSteps inp)) st

end ServiceState

/-! ## A network of services

Only the octets of a datagram are in flight. Any service may get them, with any source address. -/

/-- The size that `service_main_allocObjs` gives the buffer. -/
def serviceBufSize : ℕ := 256

structure Network (ι : Type) where
  services : ι → ServiceState
  inFlight : List (List Octet)
  size : ∀ i, (services i).buffer.size = serviceBufSize

namespace Network
variable {ι : Type} [DecidableEq ι]

/-- Service `i` makes one pass; `rest` is in flight beside what it sends. -/
def pass (net : Network ι) (i : ι) (useTxTwoSteps : Bool) (inp : ServiceInput)
    (rest : List (List Octet)) : Network ι where
  services := Function.update net.services i
    (ServiceState.mainFlow useTxTwoSteps inp (net.services i)).2.1
  inFlight := rest ++ ((net.services i).sent useTxTwoSteps inp).map Datagram.octets
  size := by
    intro j
    by_cases hj : j = i
    · subst hj
      rw [Function.update_self]
      exact (ServiceState.mainFlow_keeps useTxTwoSteps inp _).trans (net.size j)
    · rw [Function.update_of_ne hj]
      exact net.size j

/-- One step, with the number of datagrams that a service received in it. -/
inductive Step (net : Network ι) : ℕ → Network ι → Prop
  | quiet (i : ι) (useTxTwoSteps : Bool) (inp : ServiceInput)
      (hquiet : ∀ d now, inp.poll ≠ .ready (some d) now) :
      Step net 0 (net.pass i useTxTwoSteps inp net.inFlight)
  | deliver (i : ι) (useTxTwoSteps : Bool) (inp : ServiceInput) (src : SockAddr) (now : ClockReading)
      {octs : List Octet} {front back : List (List Octet)} (hin : net.inFlight = front ++ octs :: back)
      (hpoll : inp.poll = .ready (some ⟨src, octs⟩) now) :
      Step net 1 (net.pass i useTxTwoSteps inp (front ++ back))
  | lose {octs : List Octet} {front back : List (List Octet)}
      (hin : net.inFlight = front ++ octs :: back) : Step net 0 { net with inFlight := front ++ back }

/-- Any number of steps. -/
inductive Run : Network ι → ℕ → Network ι → Prop
  | refl (net : Network ι) : Run net 0 net
  | step {net net' net'' : Network ι} {n k : ℕ} (h : Run net n net') (hs : Step net' k net'') :
      Run net (n + k) net''

end Network

/-- No service of a network reacts to these octets, whatever its state. -/
def Inert (octs : List Octet) : Prop :=
  ∀ (st : ServiceState) (useTxTwoSteps : Bool) (inp : ServiceInput) (src : SockAddr)
    (now : ClockReading), st.buffer.size = serviceBufSize → inp.poll = .ready (some ⟨src, octs⟩) now →
    st.sent useTxTwoSteps inp = []

theorem inert_of_mem_sent {st : ServiceState} {useTxTwoSteps : Bool} {inp : ServiceInput}
    {s : Datagram} (hsize : st.buffer.size = serviceBufSize) (h : s ∈ st.sent useTxTwoSteps inp) :
    Inert s.octets := by
  obtain ⟨params, rxTs, flags, size, hpos, hle, hf, hmem⟩ := mem_sent h
  have hlen := replies_length hpos hmem
  rw [hsize, serviceBufSize] at hle
  intro st' useTxTwoSteps' inp' src now hsize' hpoll
  rw [serviceBufSize] at hsize'
  have hfit : s.octets.length ≤ st'.buffer.size := by omega
  obtain ⟨hw, hnone⟩ := reaction_of_reply hmem hpos (by omega) hf hfit st'.buffer.size_lt
  rw [sent_eq st' useTxTwoSteps' hpoll hw, hnone]
  split <;> rfl

theorem sent_length_le (st : ServiceState) (useTxTwoSteps : Bool) (inp : ServiceInput) :
    (st.sent useTxTwoSteps inp).length ≤ 2 := by
  have htwo : (if useTxTwoSteps then 2 else 1) ≤ 2 := by split <;> omega
  cases hpoll : inp.poll with
  | idle =>
    rw [sent_of_idle useTxTwoSteps st hpoll]
    exact Nat.zero_le _
  | ready arrival rxNow =>
    rw [sent_of_ready useTxTwoSteps st hpoll]
    split
    · rw [answer_out, List.length_map]
      exact (repliesTo_count _ _ _ _ _ _ useTxTwoSteps inp).1.trans htwo
    · exact Nat.zero_le _

/-! ## The end of every exchange -/

section Weight
open Classical

/-- How many deliveries a datagram in flight can lead to. -/
noncomputable def weight (octs : List Octet) : ℕ := if Inert octs then 1 else 3

noncomputable def Network.weight {ι : Type} (net : Network ι) : ℕ := (net.inFlight.map Csptp.weight).sum

theorem weight_le (octs : List Octet) : weight octs ≤ 3 := by
  rw [weight]
  split <;> omega

theorem weight_sent {st : ServiceState} (hsize : st.buffer.size = serviceBufSize)
    (useTxTwoSteps : Bool) {inp : ServiceInput} {src : SockAddr} {now : ClockReading}
    {octs : List Octet} (hpoll : inp.poll = .ready (some ⟨src, octs⟩) now) :
    (((st.sent useTxTwoSteps inp).map Datagram.octets).map weight).sum + 1 ≤ weight octs := by
  have hone : ∀ w ∈ ((st.sent useTxTwoSteps inp).map Datagram.octets).map weight, w = 1 := by
    intro w hw
    obtain ⟨o, ho, rfl⟩ := List.mem_map.mp hw
    obtain ⟨s, hs, rfl⟩ := List.mem_map.mp ho
    exact if_pos (inert_of_mem_sent hsize hs)
  have hsum := List.sum_eq_card_nsmul _ 1 hone
  rw [smul_eq_mul, mul_one, List.length_map, List.length_map] at hsum
  rw [hsum, weight]
  split
  · rename_i hinert
    rw [hinert st useTxTwoSteps inp src now hsize hpoll]
    exact le_refl _
  · have := sent_length_le st useTxTwoSteps inp
    omega

theorem sent_of_quiet (st : ServiceState) (useTxTwoSteps : Bool) {inp : ServiceInput}
    (hquiet : ∀ d now, inp.poll ≠ .ready (some d) now) : st.sent useTxTwoSteps inp = [] := by
  cases hpoll : inp.poll with
  | idle => exact sent_of_idle useTxTwoSteps st hpoll
  | ready arrival now =>
    cases arrival with
    | none =>
      rw [sent_of_ready useTxTwoSteps st hpoll]
      rfl
    | some d => exact absurd hpoll (hquiet d now)

/-- Each delivery takes at least one from the weight of a network, and no step adds to it. -/
theorem Network.Step.weight_le {ι : Type} [DecidableEq ι] {net net' : Network ι} {n : ℕ}
    (h : net.Step n net') : n + net'.weight ≤ net.weight := by
  cases h with
  | quiet i useTxTwoSteps inp hquiet =>
    rw [Network.weight, Network.pass, sent_of_quiet _ _ hquiet, List.map_nil, List.append_nil,
      Nat.zero_add]
    exact le_refl _
  | deliver i useTxTwoSteps inp src now hin hpoll =>
    have hsent := weight_sent (net.size i) useTxTwoSteps hpoll
    simp only [Network.weight, Network.pass, hin, List.map_append, List.map_cons, List.sum_append,
      List.sum_cons] at hsent ⊢
    omega
  | lose hin =>
    simp only [Network.weight, hin, List.map_append, List.map_cons, List.sum_append, List.sum_cons]
    omega

theorem Network.Run.weight_le {ι : Type} [DecidableEq ι] {net net' : Network ι} {n : ℕ}
    (h : net.Run n net') : n + net'.weight ≤ net.weight := by
  induction h with
  | refl => exact (Nat.zero_add _).le
  | step h hs ih =>
    have hstep := hs.weight_le
    omega

theorem Network.weight_bound {ι : Type} (net : Network ι) : net.weight ≤ 3 * net.inFlight.length := by
  have hle := List.sum_le_card_nsmul (net.inFlight.map Csptp.weight) 3 fun w hw => by
    obtain ⟨o, -, rfl⟩ := List.mem_map.mp hw
    exact Csptp.weight_le o
  rw [List.length_map, smul_eq_mul, Nat.mul_comm] at hle
  exact hle

end Weight

/-- No service reacts to what a service sends. So in a network of services the number of deliveries
is bounded by what was in flight when the clients stopped. -/
theorem no_reply_loop :
    (∀ (st st' : ServiceState) (useTxTwoSteps useTxTwoSteps' : Bool) (inp inp' : ServiceInput)
      (s : Datagram) (src : SockAddr) (now : ClockReading), st.buffer.size = serviceBufSize →
      st'.buffer.size = serviceBufSize → s ∈ st.sent useTxTwoSteps inp →
      inp'.poll = .ready (some ⟨src, s.octets⟩) now → st'.sent useTxTwoSteps' inp' = []) ∧
    ∀ (ι : Type) [DecidableEq ι] (net net' : Network ι) (n : ℕ), net.Run n net' →
      n ≤ 3 * net.inFlight.length := by
  refine ⟨fun st st' useTxTwoSteps useTxTwoSteps' inp inp' s src now hsize hsize' hs hpoll => ?_,
    fun ι _ net net' n h => ?_⟩
  · exact inert_of_mem_sent hsize hs st' useTxTwoSteps' inp' src now hsize' hpoll
  · have hrun := h.weight_le
    have hbound := net.weight_bound
    omega

section Sample

/-- The answer of the sample service to its request. -/
def sampleReply : Datagram :=
  (sampleService.sent false (sampleInput sampleDatagram)).headD sampleDatagram

def sampleNetwork : Network Unit :=
  { services := fun _ => sampleService, inFlight := [sampleDatagram.octets], size := fun _ => rfl }

theorem no_reply_loop_sample :
    sampleService.sent true (sampleInput sampleReply) = [] ∧ 1 ≤ 3 * sampleNetwork.inFlight.length := by
  constructor
  · have hmem : sampleReply ∈ sampleService.sent false (sampleInput sampleDatagram) := by decide +kernel
    generalize sampleReply = s at hmem
    exact no_reply_loop.1 sampleService sampleService false true (sampleInput sampleDatagram)
      (sampleInput s) s s.addr (sampleTime 10) rfl rfl hmem rfl
  · have hin : sampleNetwork.inFlight = [] ++ sampleDatagram.octets :: [] := rfl
    have hpoll : (sampleInput sampleDatagram).poll =
        .ready (some ⟨sampleDatagram.addr, sampleDatagram.octets⟩) (sampleTime 10) := rfl
    have hstep := Network.Step.deliver () false _ _ _ hin hpoll
    exact no_reply_loop.2 Unit sampleNetwork _ 1 (.step (.refl _) hstep)

end Sample

end Csptp

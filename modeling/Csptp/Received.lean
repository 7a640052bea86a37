import Csptp.Wire.RoundTrip
import Csptp.Socket

/-! # What a receiver makes of a datagram

`decode` is `_parse` on the octets of a datagram in a fresh buffer. A receiver with an old buffer comes
to the same result (`parse_decode`), as long as the `messageLength` covers the header: neither the
octets behind the received data nor the message object of before play a part. -/
namespace Csptp
open Octets Octets.Prog
set_option autoImplicit false

/-- The parameters, the records and the octets in host order. -/
structure Received where
  params : PtpParams
  tlvs : List TlvRec
  mem : Mem

/-- The octets that a buffer of `size` octets takes, with zeros behind them. -/
def fresh (size : ℕ) (octs : List Octet) : Mem := blit (fun _ => 0) 0 (octs.take size)

def decode (size : ℕ) (octs : List Octet) : Option Received :=
  let r := (parseMsg (octs.take size).length size).run (fresh size octs)
  r.1.map fun x => { params := x.2, tlvs := x.1.tlvs, mem := r.2 }

/-- The `messageLength` field is not below 44, if there are enough octets to decode at all. -/
def WellSized (size : ℕ) (octs : List Octet) : Prop :=
  msgSize ≤ (octs.take size).length → msgSize ≤ messageLength (fresh size octs)

instance (size : ℕ) (octs : List Octet) : Decidable (WellSized size octs) :=
  inferInstanceAs (Decidable (_ → _))

/-- What is received, if anything, has a `messageLength` that covers the header. -/
def Poll.WellSized (bufSize : ℕ) : Poll → Prop
  | .ready (some d) _ => Csptp.WellSized bufSize d.octets
  | _ => True

instance (bufSize : ℕ) : (poll : Poll) → Decidable (poll.WellSized bufSize)
  | .idle => inferInstanceAs (Decidable True)
  | .ready none _ => inferInstanceAs (Decidable True)
  | .ready (some d) _ => inferInstanceAs (Decidable (Csptp.WellSized bufSize d.octets))

theorem fresh_eq {size : ℕ} {octs : List Octet} {buf : Buf} (hdata : buf.data = octs.take size)
    {o : ℕ} (ho : o < (octs.take size).length) : fresh size octs o = buf.mem o := by
  have hlen : buf.len = (octs.take size).length := by rw [← hdata, Buf.data_length]
  have hregion : region (fresh size octs) 0 buf.len = region buf.mem 0 buf.len := by
    rw [fresh, ← hdata]
    have hself := region_blit_self (fun _ => 0) 0 buf.data
    rw [Buf.data_length] at hself
    exact hself
  exact region_eq_iff.mp hregion o (Nat.zero_le _) (by omega)

section Decoding
variable {buf : Buf} {octs : List Octet}

/-- The run of `_parse` on a received datagram and on a fresh buffer. -/
theorem parseMsg_fresh (hdata : buf.data = octs.take buf.size) (hw : WellSized buf.size octs) :
    ((parseMsg buf.len buf.size).run buf.mem).1 =
        ((parseMsg (octs.take buf.size).length buf.size).run (fresh buf.size octs)).1 ∧
      ∀ o, o < buf.len → ((parseMsg buf.len buf.size).run buf.mem).2 o =
        ((parseMsg (octs.take buf.size).length buf.size).run (fresh buf.size octs)).2 o := by
  have hlen : buf.len = (octs.take buf.size).length := by rw [← hdata, Buf.data_length]
  obtain ⟨hres, hmem⟩ := parseMsg_congr buf.size hw fun o ho => fresh_eq hdata ho
  rw [hlen]
  exact ⟨hres, fun o ho => (hmem o ho).symm⟩

theorem parse_of_decode_none (self : PtpMsg) (prms : PtpParams) (hdata : buf.data = octs.take buf.size)
    (hw : WellSized buf.size octs) (h : decode buf.size octs = none) :
    (self.parse prms buf).ok = false ∧ (self.parse prms buf).self = self := by
  have hnone : ((parseMsg buf.len buf.size).run buf.mem).1 = none := by
    rw [(parseMsg_fresh hdata hw).1]
    exact Option.map_eq_none_iff.mp h
  rw [PtpMsg.parse_of_none _ _ hnone]
  exact ⟨rfl, rfl⟩

theorem parse_of_decode_some (self : PtpMsg) (prms : PtpParams) {r : Received}
    (hdata : buf.data = octs.take buf.size) (hw : WellSized buf.size octs)
    (h : decode buf.size octs = some r) :
    (self.parse prms buf).ok = true ∧ (self.parse prms buf).params = r.params ∧
      (self.parse prms buf).self.tlvs = r.tlvs ∧
      ∀ o, o < buf.len → (self.parse prms buf).buf.mem o = r.mem o := by
  obtain ⟨hres, hmem⟩ := parseMsg_fresh hdata hw
  obtain ⟨x, hx, rfl⟩ := Option.map_eq_some_iff.mp h
  rw [← hres] at hx
  rw [PtpMsg.parse_of_some _ _ hx]
  exact ⟨rfl, rfl, rfl, hmem⟩

theorem decode_of_short {size : ℕ} (h : (octs.take size).length < msgSize) :
    decode size octs = none := by
  have hrun : parseMsg (octs.take size).length size = pure none := by
    rw [parseMsg, if_pos h, ite_self]
  rw [decode, hrun]
  rfl

/-- The decoded records lie inside the received octets, with the fields of their types. -/
theorem decode_tlvs {size : ℕ} {r : Received} (hw : WellSized size octs)
    (h : decode size octs = some r) :
    ∀ t ∈ r.tlvs, t.tlv + minTlvSize t.id ≤ (octs.take size).length := by
  obtain ⟨x, hx, rfl⟩ := Option.map_eq_some_iff.mp h
  have hlen : msgSize ≤ (octs.take size).length := by
    by_contra hshort
    rw [parseMsg] at hx
    split at hx
    · simp at hx
    · rw [if_pos (by omega)] at hx
      simp at hx
  obtain ⟨-, -, -, hle, -, -, -, q, -, htiles, hq, -⟩ := parseMsg_layout (hw hlen) hx
  intro t ht
  have hmem := htiles.mem ht
  omega

end Decoding

/-! ## Known octets -/

section Finished
variable {size : ℕ} {octs : List Octet} {params : PtpParams} {c : Octet} {ts : List Tlv}
  (hocts : octs = wireOctets params c ts octs.length) (hfit : octs.length ≤ size)
  (hsize : octs.length = 44 + tlvsSize ts ∨ 44 + tlvsSize ts + 4 ≤ octs.length)
  (hlt : octs.length < 2 ^ 16)
include hocts hfit hsize hlt

theorem wellSized_finished : WellSized size octs := by
  have htake : octs.take size = octs := List.take_of_length_le hfit
  intro _
  have hholds : Holds (fresh size octs) 0 (wireOctets params c ts octs.length) := by
    rw [← hocts, fresh, htake]
    exact holds_blit _ _ _
  rw [wireOctets, List.append_assoc] at hholds
  have hlen := run_netToCpuMsg (holds_append.mp hholds).1
  have hresult := netToCpuMsg_result (fresh size octs)
  rw [hlen, BitVec.toNat_ofNat, Nat.mod_eq_of_lt hlt] at hresult
  rw [← hresult, msgSize]
  omega

theorem decode_finished (hc : params.type.controlField = some c) (hf : params.flagField2.toNat < 64)
    (hfew : ts.length ≤ maxTlvs) (hts : ∀ t ∈ ts, tlvHdr < t.size) (hlts : size < 2 ^ 64) :
    ∃ r pads, decode size octs = some r ∧ r.params = params ∧ pads.length ≤ 1 ∧
      (∀ t ∈ pads, Tlv.id t = .pad) ∧ r.tlvs = records 44 (ts.map Tlv.zeroFill ++ pads) ∧
      Holds r.mem 44 (tlvsOctets .host (ts.map Tlv.zeroFill ++ pads)) := by
  have htake : octs.take size = octs := List.take_of_length_le hfit
  let rx : Buf := { mem := fresh size octs, size := size, len := octs.length, len_le := hfit,
                    size_lt := hlts }
  have hdata : rx.data = octs := by
    have hself := region_blit_self (fun _ => 0) 0 octs
    rw [Buf.data]
    simp only [rx, fresh, htake]
    exact hself
  obtain ⟨hok, hparams, pads, hone, hid, htlvs, hhost⟩ := parse_finished .detach .zero
    (show rx.data = wireOctets params c ts rx.len from hdata.trans hocts) hsize hlt hc hf hfew hts
  cases hrun : ((parseMsg octs.length size).run (fresh size octs)).1 with
  | none =>
    rw [PtpMsg.parse_of_none _ _ hrun] at hok
    simp at hok
  | some x =>
    rw [PtpMsg.parse_of_some _ _ hrun] at hparams htlvs hhost
    refine ⟨⟨x.2, x.1.tlvs, ((parseMsg octs.length size).run (fresh size octs)).2⟩, pads, ?_, hparams,
      hone, hid, htlvs, hhost⟩
    simp only [decode, htake, hrun, Option.map_some]

end Finished

end Csptp

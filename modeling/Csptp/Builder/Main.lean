import Csptp.Builder.Calls

/-! # Building, call after call

The object has no mark for a finished message. What keeps `_buildDone` from converting TLVs a second
time is that `cpu_to_net_tlv` does not find the type of the first one any more: it is swapped. So a
message is either a draft, whose TLVs all lie in host order or are misfits, or it is stuck. -/
namespace Csptp
open Octets Octets.Prog Runs
set_option autoImplicit false

/-! ## Drafts -/

structure Draft (msg : PtpMsg) (buf : Buf) : Prop extends FullLayout msg buf.size where
  attached : msg.attached = true
  tiled : Tiles msg.tlvs msgSize msg.len
  kinds : Kinds buf.mem msg.tlvs
  /-- However many TLVs follow, the octet that a misfit zeroes lies behind them. -/
  short : ∀ r ∈ msg.tlvs, Misfit buf.mem r →
    msg.len + 48 * (maxTlvs - msg.tlvs.length) ≤ r.tlv + 48 * maxTlvs

section Draft
variable {msg : PtpMsg} {buf buf' : Buf}

theorem FullLayout.left_eq (h : FullLayout msg buf.size) : msg.left = buf.size - msg.len := by
  have hleft := h.left
  omega

theorem FullLayout.len_le (h : FullLayout msg buf.size) : msg.len ≤ buf.size := by
  have hleft := h.left
  omega

theorem FullLayout.msgSize_le (h : FullLayout msg buf.size) : msgSize ≤ msg.len := by
  obtain ⟨q, htiles, hq⟩ := h.tiles
  exact htiles.le.trans hq

theorem Appends.layout {r : TlvRec} {res : PtpMsg × Buf} (hl : FullLayout msg buf.size)
    (h : Appends msg buf r res) (hsize : res.2.size = buf.size) : FullLayout res.1 res.2.size := by
  rw [hsize, h.result]
  exact record_layout hl h.endPtr h.few h.recorded.least h.room buf

theorem Appends.tlv_eq {r : TlvRec} {res : PtpMsg × Buf} (hl : FullLayout msg buf.size)
    (h : Appends msg buf r res) : r.tlv = msg.len := Option.some.inj (h.endPtr.symm.trans hl.endPtr)

/-- Only the octets between the header and the end of the message matter. -/
theorem Draft.congr (h : Draft msg buf) (hsize : buf'.size = buf.size)
    (hsame : ∀ a, msgSize ≤ a → a < msg.len → buf'.mem a = buf.mem a) : Draft msg buf' := by
  refine ⟨by rw [hsize]; exact h.toFullLayout, h.attached, h.tiled, h.kinds.congr h.tiled hsame, ?_⟩
  intro r hr hmisfit
  obtain ⟨hlo, hhi, -⟩ := h.tiled.mem hr
  exact h.short r hr (hmisfit.congr fun a ha ha' => (hsame a (by omega) (by omega)).symm)

theorem Draft.appends {r : TlvRec} {res : PtpMsg × Buf} (h : Draft msg buf)
    (happ : Appends msg buf r res) (hsize : res.2.size = buf.size) : Draft res.1 res.2 := by
  have hlt : msg.tlvs.length < maxTlvs := lt_of_le_of_ne h.few happ.few
  have hr := happ.tlv_eq h.toFullLayout
  have hle := happ.recorded.le
  have hbefore : Draft msg res.2 := h.congr hsize fun a _ ha => happ.below a (by omega)
  refine ⟨happ.layout h.toFullLayout hsize, ?_, ?_, ?_, ?_⟩
  all_goals rw [happ.result]
  · exact h.attached
  · exact h.tiled.append hr happ.recorded.least
  · intro x hx
    rcases List.mem_append.mp hx with hx | hx
    · exact hbefore.kinds x hx
    · rw [List.mem_singleton.mp hx]
      exact happ.recorded.kind
  · intro x hx hmisfit
    dsimp only
    rw [List.length_append, List.length_singleton]
    rcases List.mem_append.mp hx with hx | hx
    · have hshort := hbefore.short x hx hmisfit
      omega
    · rw [List.mem_singleton.mp hx, hr]
      omega

end Draft

/-! ## Stuck messages -/

/-- The first TLV is in network order already. -/
structure Stuck (msg : PtpMsg) (buf : Buf) : Prop extends FullLayout msg buf.size where
  attached : msg.attached = true
  swapped : ∃ r rs, msg.tlvs = r :: rs ∧ msgSize ≤ r.tlv ∧ r.tlv + 2 ≤ msg.len ∧
    r.id ≠ .invalidTlvId ∧ Holds buf.mem r.tlv (inOrder .net r.id.code)

theorem TlvTypeId.swap_code_ne {id : TlvTypeId} (h : id ≠ .invalidTlvId) : swap id.code ≠ id.code := by
  cases id
  case invalidTlvId => exact absurd rfl h
  all_goals decide

section Stuck
variable {msg : PtpMsg} {buf buf' : Buf}

theorem Stuck.congr (h : Stuck msg buf) (hsize : buf'.size = buf.size)
    (hsame : ∀ a, msgSize ≤ a → a < msg.len → buf'.mem a = buf.mem a) : Stuck msg buf' := by
  obtain ⟨r, rs, htlvs, hlo, hhi, hid, hholds⟩ := h.swapped
  refine ⟨by rw [hsize]; exact h.toFullLayout, h.attached, r, rs, htlvs, hlo, hhi, hid, ?_⟩
  refine hholds.congr fun a ha ha' => hsame a (by omega) ?_
  rw [inOrder_length] at ha'
  omega

theorem Stuck.appends {r : TlvRec} {res : PtpMsg × Buf} (h : Stuck msg buf)
    (happ : Appends msg buf r res) (hsize : res.2.size = buf.size) : Stuck res.1 res.2 := by
  have hr := happ.tlv_eq h.toFullLayout
  have hbefore : Stuck msg res.2 := h.congr hsize fun a _ ha => happ.below a (by omega)
  obtain ⟨x, rs, htlvs, hlo, hhi, hid, hholds⟩ := hbefore.swapped
  refine ⟨happ.layout h.toFullLayout hsize, ?_, x, rs ++ [r], ?_, hlo, ?_, hid, hholds⟩
  all_goals rw [happ.result]
  · exact h.attached
  · rw [htlvs, List.cons_append]
  · dsimp only
    omega

/-- The type is not found, so nothing is converted. -/
theorem Stuck.run_cpuToNetTlvs (h : Stuck msg buf) :
    (cpuToNetTlvs msg.tlvs).run buf.mem = (false, buf.mem) := by
  obtain ⟨r, rs, htlvs, -, -, hid, hholds⟩ := h.swapped
  have hword : wordAt .host 16 buf.mem r.tlv ≠ r.id.code := by
    intro hword
    have hswap : swap (wordAt .host 16 buf.mem r.tlv) = r.id.code := swap_region_of_net rfl hholds
    rw [hword] at hswap
    exact TlvTypeId.swap_code_ne hid hswap
  rw [htlvs, cpuToNetTlvs, run_bind, run_cpuToNetTlv_other hword]
  rfl

theorem Stuck.buildDone_eq (h : Stuck msg buf) (size : ℕ) :
    msg.buildDone size buf = (false, msg, buf) := by
  rw [PtpMsg.buildDone_eq h.attached h.endPtr h.left_eq, h.run_cpuToNetTlvs]
  split_ifs with hok hfalse
  · exact absurd hfalse (by simp)
  · rfl
  · rfl

end Stuck

/-! ## Finishing a draft -/

section Finishing
variable {msg : PtpMsg} {buf : Buf}

/-- The header gets its length, the TLVs stay, and a PAD TLV lies behind them. -/
structure Completed (msg : PtpMsg) (buf : Buf) (final : ℕ) (b : Buf) : Prop where
  len : b.len = final
  size : b.size = buf.size
  header : Holds b.mem 2 (inOrder .net (BitVec.ofNat 16 final))
  frame : ∀ a, msgSize ≤ a → a < msg.len ∨ final ≤ a → b.mem a = buf.mem a
  pad : final ≠ msg.len → Holds b.mem msg.len (padOctets (final - msg.len))

theorem completed_finished {final : ℕ} (hmin : msgSize ≤ msg.len)
    (hcases : final = msg.len ∨ msg.len + 4 ≤ final) (hfit : final ≤ buf.size) :
    Completed msg buf final (msg.finished final buf).2 := by
  obtain ⟨m, hrun, hheader, hframe⟩ := run_cpuToNetMsg_any buf.mem final
  rw [msgSize] at hmin
  rw [PtpMsg.finished, hrun]
  by_cases heq : final = msg.len
  · rw [if_pos heq]
    refine ⟨Buf.setLen_len hfit, by simp, ?_, fun a ha _ => ?_, fun hne => absurd heq hne⟩
    · rwa [Buf.setLen_mem]
    · rw [Buf.setLen_mem]
      exact hframe a ha
  · rw [if_neg heq]
    have hlen : (padOctets (final - msg.len)).length = final - msg.len := padOctets_length (by omega)
    refine ⟨Buf.setLen_len hfit, by simp, ?_, fun a ha hout => ?_, fun _ => ?_⟩
    · rw [Buf.setLen_mem]
      exact hheader.blit_of_disjoint (by rw [inOrder_length]; omega)
    · rw [Buf.setLen_mem]
      exact (blit_of_not_mem (by omega)).trans (hframe a ha)
    · rw [Buf.setLen_mem]
      exact holds_blit _ _ _

/-- A draft is finished exactly if all its records are those of TLVs, and the size is in order. -/
theorem Draft.buildDone_iff (h : Draft msg buf) (size : ℕ) :
    (msg.buildDone size buf).1 = true ↔
      Finishable msg.len buf.size size ∧ ∀ r ∈ msg.tlvs, HostTlv buf.mem r := by
  have hiff := (cpuToNetTlvs_spec h.tiled h.kinds).1
  rw [PtpMsg.buildDone_eq h.attached h.endPtr h.left_eq]
  by_cases hok : Finishable msg.len buf.size size
  · rw [if_pos hok, ← hiff, and_iff_right hok]
    split_ifs with hconv
    · exact iff_of_true rfl hconv
    · exact iff_of_false (by simp) hconv
  · rw [if_neg hok]
    exact iff_of_false (by simp) fun hboth => hok hboth.1

theorem PtpMsg.finished_fst (msg : PtpMsg) (final : ℕ) (b : Buf) :
    (msg.finished final b).1 = if final = msg.len then msg else msg.recordPad msg.len (final - msg.len) := by
  rw [finished]
  split <;> rfl

/-- What is left of a draft with these TLVs when it has been finished. -/
structure Finishes (msg : PtpMsg) (buf : Buf) (ts : List Tlv) (final : ℕ) (res : PtpMsg × Buf) :
    Prop where
  layout : FullLayout res.1 res.2.size
  attached : res.1.attached = true
  tlvs : msg.tlvs = records 44 ts
  len : msg.len = 44 + tlvsSize ts
  host : Holds buf.mem 44 (tlvsOctets .host ts)
  final_cases : final = msg.len ∨ msg.len + 4 ≤ final
  object : res.1 = if final = msg.len then msg else msg.recordPad msg.len (final - msg.len)
  bufLen : res.2.len = final
  header : Holds res.2.mem 2 (inOrder .net (BitVec.ofNat 16 final))
  net : Holds res.2.mem 44 (tlvsOctets .net (ts.map Tlv.zeroFill))
  pad : final ≠ msg.len → Holds res.2.mem msg.len (padOctets (final - msg.len))
  behind : ∀ a, final ≤ a → res.2.mem a = buf.mem a

theorem Draft.finishes (h : Draft msg buf) {size : ℕ} (hdone : (msg.buildDone size buf).1 = true) :
    ∃ ts, Finishes msg buf ts (finalSize msg.len size) (msg.buildDone size buf).2 := by
  obtain ⟨hok, hall⟩ := (h.buildDone_iff size).mp hdone
  obtain ⟨ts, htlvs, hlen, hholds⟩ := exists_tlvs h.tiled hall
  rw [msgSize] at htlvs hlen hholds
  have hlayout : FullLayout (msg.buildDone size buf).2.1 (msg.buildDone size buf).2.2.size := by
    rw [PtpMsg.buildDone_size]
    exact buildDone_layout h.toFullLayout
  have hcases := finalSize_cases hok
  rw [PtpMsg.buildDone_eq h.attached h.endPtr h.left_eq, if_pos hok, htlvs,
    run_cpuToNetTlvs hholds, if_pos rfl] at hlayout ⊢
  set b := buf.withMem (blit buf.mem 44 (tlvsOctets .net (ts.map Tlv.zeroFill))) with hb
  set final := finalSize msg.len size
  have hcompleted : Completed msg b final (msg.finished final b).2 :=
    completed_finished h.msgSize_le hcases (finalSize_le hok h.len_le)
  have hobject := msg.finished_fst final b
  have hsize : (tlvsOctets .net (ts.map Tlv.zeroFill)).length = tlvsSize ts := by
    rw [tlvsOctets_length, tlvsSize_zeroFill]
  refine ⟨ts, hlayout, ?_, htlvs, hlen, hholds, hcases, hobject, hcompleted.len, hcompleted.header, ?_,
    hcompleted.pad, fun a ha => ?_⟩
  · rw [hobject]
    split
    · exact h.attached
    · exact h.attached
  · exact (holds_blit buf.mem 44 _).congr fun a ha ha' => hcompleted.frame a ha (.inl (by omega))
  · exact (hcompleted.frame a (by rw [msgSize]; omega) (.inr ha)).trans (blit_of_not_mem (by omega))

section Finished
variable {ts : List Tlv} {final : ℕ} {res : PtpMsg × Buf}

theorem Finishes.tlvs_prefix (h : Finishes msg buf ts final res) : msg.tlvs <+: res.1.tlvs := by
  rw [h.object]
  split
  · exact List.prefix_rfl
  · rw [PtpMsg.recordPad]
    dsimp only
    split
    · exact List.prefix_append _ _
    · exact List.prefix_rfl

theorem Finishes.len_eq (h : Finishes msg buf ts final res) : res.1.len = final := by
  have hcases := h.final_cases
  rw [h.object]
  split
  · exact Eq.symm ‹_›
  · simp only [PtpMsg.recordPad]
    omega

/-- The first TLV is in network order. -/
theorem Finishes.stuck_tlv {t : Tlv} (h : Finishes msg buf (t :: ts) final res) : Stuck res.1 res.2 := by
  have hfour := t.four_le_size
  have hlen := h.len
  have hcases := h.final_cases
  have hnet := h.net
  obtain ⟨more, hmore⟩ := h.tlvs_prefix
  rw [tlvsSize_cons] at hlen
  rw [List.map_cons, tlvsOctets_cons, holds_append, Tlv.octets] at hnet
  have hid := (holds_header hnet.1).1
  rw [Tlv.zeroFill_id] at hid
  refine ⟨h.layout, h.attached, ⟨44, t.size, t.id⟩, records (44 + t.size) ts ++ more, ?_, le_rfl, ?_,
    t.id_valid, hid⟩
  · rw [← hmore, h.tlvs]
    rfl
  · rw [h.len_eq]
    dsimp only
    omega

/-- The PAD TLV is the first one, and it was written in network order. -/
theorem Finishes.stuck_pad (h : Finishes msg buf [] final res) (hne : final ≠ msg.len) :
    Stuck res.1 res.2 := by
  have hlen := h.len
  have hcases := h.final_cases
  have hpad := h.pad hne
  rw [tlvsSize_nil] at hlen
  rw [padOctets, holds_append, holds_append] at hpad
  refine ⟨h.layout, h.attached, ⟨msg.len, final - msg.len, .pad⟩, [], ?_, hlen.ge, ?_, by simp, hpad.1.1⟩
  · rw [h.object, if_neg hne, PtpMsg.recordPad, h.tlvs]
    rfl
  · rw [h.len_eq]
    dsimp only
    omega

theorem Finishes.draft (h : Finishes msg buf [] msg.len res) : res.1.tlvs = [] ∧ Draft res.1 res.2 := by
  have hobject : res.1 = msg := by rw [h.object, if_pos rfl]
  have hnil : res.1.tlvs = [] := by
    rw [hobject, h.tlvs]
    rfl
  refine ⟨hnil, h.layout, h.attached, ?_, ?_, ?_⟩
  all_goals rw [hnil]
  · rw [hobject]
    exact h.len.symm
  · exact fun r hr => absurd hr List.not_mem_nil
  · exact fun r hr => absurd hr List.not_mem_nil

end Finished

/-- A finished message is stuck, unless it has no TLV at all. -/
theorem Draft.buildDone_true (h : Draft msg buf) {size : ℕ} (hdone : (msg.buildDone size buf).1 = true) :
    Stuck (msg.buildDone size buf).2.1 (msg.buildDone size buf).2.2 ∨
      (msg.buildDone size buf).2.1.tlvs = [] ∧
        Draft (msg.buildDone size buf).2.1 (msg.buildDone size buf).2.2 := by
  obtain ⟨ts, hfin⟩ := h.finishes hdone
  cases ts with
  | cons t ts => exact .inl hfin.stuck_tlv
  | nil =>
    by_cases hsame : finalSize msg.len size = msg.len
    · rw [hsame] at hfin
      exact .inr hfin.draft
    · exact .inl (hfin.stuck_pad hsame)

/-- The size is acceptable and the first TLV can be converted, but one of the later ones cannot. -/
def StopsLate (msg : PtpMsg) (buf : Buf) (size : ℕ) : Prop :=
  Finishable msg.len buf.size size ∧ ∃ r rs, msg.tlvs = r :: rs ∧ HostTlv buf.mem r ∧
    ∃ x ∈ rs, Misfit buf.mem x

theorem Draft.buildDone_late (h : Draft msg buf) {size : ℕ} (hlate : StopsLate msg buf size) :
    (msg.buildDone size buf).2.1 = msg ∧ ∃ r rs, msg.tlvs = r :: rs ∧ HostTlv buf.mem r ∧
      Holds (msg.buildDone size buf).2.2.mem r.tlv (inOrder .net r.id.code) := by
  obtain ⟨hok, r, rs, htlvs, hhost, x, hx, hmisfit⟩ := hlate
  have htiled := h.tiled
  have hkinds := h.kinds
  rw [htlvs] at htiled hkinds
  have hstop : ((cpuToNetTlvs (r :: rs)).run buf.mem).1 ≠ true := by
    intro hall
    have hx' := (cpuToNetTlvs_spec htiled hkinds).1.mp hall x (List.mem_cons_of_mem _ hx)
    exact hx'.not_misfit hmisfit
  rw [PtpMsg.buildDone_eq h.attached h.endPtr h.left_eq, if_pos hok, htlvs, if_neg hstop]
  exact ⟨rfl, r, rs, rfl, hhost, cpuToNetTlvs_host htiled hkinds hhost⟩

/-- Where the first record is a misfit, only a zero far behind the message may have been written. -/
theorem Draft.buildDone_unchanged (h : Draft msg buf) {size : ℕ}
    (hfalse : (msg.buildDone size buf).1 = false) (hnot : ¬ StopsLate msg buf size) :
    Unchanged msg buf (msg.buildDone size buf).2 := by
  have hiff := h.buildDone_iff size
  rw [hfalse] at hiff
  rw [PtpMsg.buildDone_eq h.attached h.endPtr h.left_eq] at hfalse ⊢
  by_cases hok : Finishable msg.len buf.size size
  · rw [if_pos hok] at hfalse ⊢
    split_ifs at hfalse ⊢
    cases htlvs : msg.tlvs with
    | nil => exact absurd (hiff.mpr ⟨hok, by simp [htlvs]⟩) (by simp)
    | cons r rs =>
      have hkinds := h.kinds
      rw [htlvs] at hkinds
      rcases hkinds r List.mem_cons_self with hhost | hmisfit
      · refine absurd (hiff.mpr ⟨hok, ?_⟩) (by simp)
        rw [htlvs, List.forall_mem_cons]
        refine ⟨hhost, fun x hx => (hkinds x (List.mem_cons_of_mem _ hx)).resolve_right fun hmisfit => ?_⟩
        exact hnot ⟨hok, r, rs, htlvs, hhost, x, hx, hmisfit⟩
      · refine ⟨rfl, rfl, fun a ha => cpuToNetTlvs_misfit rs hmisfit ?_⟩
        have hshort := h.short r (htlvs ▸ List.mem_cons_self) hmisfit
        rw [htlvs, List.length_cons, maxTlvs] at hshort
        omega
  · rw [if_neg hok]
    exact unchanged_refl msg buf

end Finishing

end Csptp

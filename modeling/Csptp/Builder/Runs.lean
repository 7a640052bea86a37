import Csptp.Builder.Main

/-! # Runs of the builder

A run starts with a fresh object. Between the calls the caller writes what it likes into the unused
memory. Every message of a run is a draft or stuck, also when messages are read into the object in
between, as long as those are whole. -/
namespace Csptp
open Octets Octets.Prog Runs
set_option autoImplicit false

/-! ## Calls and runs -/

/-- A message object and the buffer that it is attached to. The code knows nothing of the rest: what
the message was started with, the octets of the TLVs that were added since, and whether it was finished
without a TLV. -/
structure Build where
  msg : PtpMsg
  buf : Buf
  params : PtpParams
  added : List (List Octet)
  bare : Bool

/-- A call of the object, or octets that the caller writes. -/
inductive BuildCall
  | init (params : PtpParams) (buf : Buf)
  | fill (m : Mem)
  | addTlv (id : TlvTypeId)
  | addCSPTPReqTlv (flags : Octet)
  | buildDone (size : ℕ)
  | parse (params : PtpParams) (buf : Buf)

/-- The octets under the last record. -/
def lastTlv (res : PtpMsg × Buf) : List Octet :=
  match res.1.tlvs.getLast? with
  | some r => region res.2.mem r.tlv r.len
  | none => []

namespace BuildCall

/-- The buffer that the call gets. -/
def buffer (s : Build) : BuildCall → Buf
  | init _ buf | parse _ buf => buf
  | fill _ | addTlv _ | addCSPTPReqTlv _ | buildDone _ => s.buf

/-- What the call returns, and the object and its buffer afterwards. -/
def result (s : Build) : BuildCall → Bool × PtpMsg × Buf
  | init params buf => s.msg.init params buf
  | fill m => (true, s.msg, s.buf.withMem m)
  | addTlv id => s.msg.addTlv id s.buf
  | addCSPTPReqTlv flags => s.msg.addCSPTPReqTlv flags s.buf
  | buildDone size => s.msg.buildDone size s.buf
  | parse params buf =>
    let r := s.msg.parse params buf
    (r.ok, r.self, r.buf)

/-- A buffer that `_init` or `_parse` refuses is not attached. -/
def apply (s : Build) (call : BuildCall) : Build :=
  let r := call.result s
  match call with
  | init params _ => if r.1 then ⟨r.2.1, r.2.2, params, [], false⟩ else { s with msg := r.2.1 }
  | fill _ => { s with buf := r.2.2 }
  | addTlv _ | addCSPTPReqTlv _ =>
    { s with
      msg := r.2.1, buf := r.2.2, added := if r.1 then s.added ++ [lastTlv r.2] else s.added }
  | buildDone _ =>
    { s with msg := r.2.1, buf := r.2.2, bare := s.bare || (r.1 && r.2.1.tlvs.isEmpty) }
  | parse _ _ => { s with msg := r.2.1, buf := if r.1 then r.2.2 else s.buf }

/-- The caller writes only into the unused memory. -/
def Legal (s : Build) : BuildCall → Prop
  | fill m => ∀ p, s.msg.endPtr = some p → ∀ a, a < p → m a = s.buf.mem a
  | _ => True

/-- What is accepted is whole. -/
def Whole : BuildCall → Prop
  | parse _ buf => Accepted buf → WholeMessage buf.mem
  | _ => True

/-- The call starts a message or adds to it. -/
def Adds : BuildCall → Prop
  | buildDone _ | parse _ _ => False
  | _ => True

/-- The call is one of the builder. -/
def Builds : BuildCall → Prop
  | parse _ _ => False
  | _ => True

theorem Adds.builds {call : BuildCall} (h : call.Adds) : call.Builds := by
  cases call with
  | parse params buf => exact h.elim
  | _ => trivial

theorem Builds.whole {call : BuildCall} (h : call.Builds) : call.Whole := by
  cases call with
  | parse params buf => exact h.elim
  | _ => trivial

end BuildCall

/-- A fresh object. -/
def Build.Fresh (s : Build) : Prop := s.msg = .detach ∧ s.added = [] ∧ s.bare = false

/-- The runs of calls that all meet a condition. -/
def BuildRun (meets : Build → BuildCall → Prop) : List BuildCall → Build → Prop :=
  Run Build.Fresh fun _ s call s' => call.Legal s ∧ meets s call ∧ s' = call.apply s

theorem BuildRun.next {meets : Build → BuildCall → Prop} {calls : List BuildCall} {s : Build}
    (h : BuildRun meets calls s) (call : BuildCall) (hlegal : call.Legal s) (hmeets : meets s call) :
    BuildRun meets (calls ++ [call]) (call.apply s) := Run.step h ⟨hlegal, hmeets, rfl⟩

/-! ## What a call does -/

/-- Nothing that counts has changed. -/
structure Same (s s' : Build) : Prop where
  msg : s'.msg = s.msg
  size : s'.buf.size = s.buf.size
  bufLen : s'.buf.len = s.buf.len
  octets : ∀ a, a < s.msg.len → s'.buf.mem a = s.buf.mem a
  params : s'.params = s.params
  added : s'.added = s.added
  bare : s'.bare = s.bare

/-- One TLV was added. -/
structure Grown (s s' : Build) (r : TlvRec) : Prop where
  appends : Appends s.msg s.buf r (s'.msg, s'.buf)
  size : s'.buf.size = s.buf.size
  params : s'.params = s.params
  added : s'.added = s.added ++ [region s'.buf.mem r.tlv r.len]
  bare : s'.bare = s.bare

section Step
variable {s : Build}

theorem Appends.lastTlv_eq {msg : PtpMsg} {buf : Buf} {r : TlvRec} {res : PtpMsg × Buf}
    (h : Appends msg buf r res) : lastTlv res = region res.2.mem r.tlv r.len := by
  rw [lastTlv, h.result, List.getLast?_concat]

/-- A call that starts a message or adds to it has one of three effects. -/
theorem adds_cases (hend : s.msg = .detach ∨ s.msg.endPtr = some s.msg.len) {call : BuildCall}
    (hlegal : call.Legal s) (hadds : call.Adds) :
    (∃ params buf, (s.msg.init params buf).1 = true ∧
      call.apply s = ⟨(s.msg.init params buf).2.1, (s.msg.init params buf).2.2, params, [], false⟩) ∨
      Same s (call.apply s) ∨ ∃ r, Grown s (call.apply s) r := by
  cases call with
  | init params buf =>
    rw [BuildCall.apply, BuildCall.result]
    cases hr : (s.msg.init params buf).1 with
    | false =>
      have hsame := congrArg Prod.fst (init_false hr)
      exact .inr (.inl ⟨hsame, rfl, rfl, fun _ _ => rfl, rfl, rfl, rfl⟩)
    | true => exact .inl ⟨params, buf, hr, rfl⟩
  | fill m =>
    refine .inr (.inl ⟨rfl, rfl, rfl, fun a ha => ?_, rfl, rfl, rfl⟩)
    rcases hend with hdetach | hend
    · rw [hdetach] at ha
      exact absurd ha (Nat.not_lt_zero a)
    · exact hlegal _ hend a ha
  | addTlv id =>
    have hsize := s.msg.addTlv_size s.buf id
    cases hr : (s.msg.addTlv id s.buf).1 with
    | false =>
      have hsame : Unchanged s.msg s.buf (s.msg.addTlv id s.buf).2 := by
        rcases hend with hdetach | hend
        · rw [hdetach]
          exact unchanged_refl _ _
        · exact addTlv_false hend hr
      exact .inr (.inl ⟨hsame.object, hsize, hsame.bufLen, hsame.octets, rfl,
        by simp only [BuildCall.apply, BuildCall.result, hr, Bool.false_eq_true, if_false], rfl⟩)
    | true =>
      obtain ⟨r, -, happ⟩ := addTlv_true hr
      refine .inr (.inr ⟨r, happ, hsize, rfl, ?_, rfl⟩)
      simp only [BuildCall.apply, BuildCall.result, hr, if_true, happ.lastTlv_eq]
  | addCSPTPReqTlv flags =>
    have hsize := s.msg.addCSPTPReqTlv_size s.buf flags
    cases hr : (s.msg.addCSPTPReqTlv flags s.buf).1 with
    | false =>
      have hsame : Unchanged s.msg s.buf (s.msg.addCSPTPReqTlv flags s.buf).2 := by
        rw [addCSPTPReqTlv_false hr]
        exact unchanged_refl _ _
      exact .inr (.inl ⟨hsame.object, hsize, hsame.bufLen, hsame.octets, rfl,
        by simp only [BuildCall.apply, BuildCall.result, hr, Bool.false_eq_true, if_false], rfl⟩)
    | true =>
      obtain ⟨r, happ⟩ := addCSPTPReqTlv_true hr
      refine .inr (.inr ⟨r, happ, hsize, rfl, ?_, rfl⟩)
      simp only [BuildCall.apply, BuildCall.result, hr, if_true, happ.lastTlv_eq]
  | buildDone size => exact hadds.elim
  | parse params buf => exact hadds.elim

end Step

/-! ## What every run keeps -/

/-- Detached, a draft or stuck. -/
inductive Phase (s : Build) : Prop
  | detached (h : s.msg = .detach)
  | draft (h : Draft s.msg s.buf)
  | stuck (h : Stuck s.msg s.buf)

theorem started_built {msg : PtpMsg} {params : PtpParams} {buf : Buf}
    (h : (msg.init params buf).1 = true) :
    ∃ c, Built (msg.init params buf).2.1 (msg.init params buf).2.2 params c [] :=
  init_true (Prod.ext h rfl)

theorem init_draft {msg : PtpMsg} {params : PtpParams} {buf : Buf}
    (h : (msg.init params buf).1 = true) :
    Draft (msg.init params buf).2.1 (msg.init params buf).2.2 := by
  have hlayout := init_layout h
  obtain ⟨c, hbuilt⟩ := started_built h
  have htlvs : (msg.init params buf).2.1.tlvs = [] := hbuilt.tlvs
  rw [← msg.init_size buf params] at hlayout
  refine ⟨hlayout, hbuilt.attached, ?_, ?_, ?_⟩
  all_goals rw [htlvs]
  · exact hbuilt.len.symm
  · exact fun r hr => absurd hr List.not_mem_nil
  · exact fun r hr => absurd hr List.not_mem_nil

theorem hostTlv_of_records {m : Mem} {a : ℕ} {ts : List Tlv} (h : Holds m a (tlvsOctets .host ts))
    {r : TlvRec} (hr : r ∈ records a ts) : HostTlv m r := by
  induction ts generalizing a with
  | nil => exact absurd hr List.not_mem_nil
  | cons t ts ih =>
    rw [tlvsOctets_cons, holds_append, Tlv.octets_length] at h
    rcases List.mem_cons.mp hr with rfl | hr
    · exact ⟨t, rfl, rfl, h.1⟩
    · exact ih h.2 hr

theorem parse_draft {msg : PtpMsg} {params : PtpParams} {buf : Buf}
    (hok : (msg.parse params buf).ok = true) (hwhole : Accepted buf → WholeMessage buf.mem) :
    Draft (msg.parse params buf).self (msg.parse params buf).buf := by
  have hacc := (parse_accepted msg params buf).1.mp hok
  have hw := hwhole hacc
  have hlayout := (parse_layout_iff msg params hacc).2 hw
  obtain ⟨type, ts, hscan, hself, hbuf⟩ := (parse_any msg params hw.header hacc.2.1).2 hok
  have hend : 44 + tlvsSize ts = messageLength buf.mem := by
    have hptr := hlayout.endPtr
    rw [hself] at hptr
    exact Option.some.inj hptr
  have hhost (r : TlvRec) (hr : r ∈ records 44 ts) : HostTlv (parsedMem buf.mem ts) r :=
    hostTlv_of_records (holds_parsedMem buf.mem ts) hr
  rw [hself] at hlayout ⊢
  rw [hbuf]
  refine ⟨hlayout, rfl, ?_, fun r hr => .inl (hhost r hr), fun r hr hmisfit => ?_⟩
  · have htiles := tiles_records 44 ts
    rwa [hend] at htiles
  · exact absurd hmisfit (hhost r hr).not_misfit

section Step
variable {s : Build}

theorem Phase.endPtr (h : Phase s) : s.msg = .detach ∨ s.msg.endPtr = some s.msg.len := by
  cases h with
  | detached h => exact .inl h
  | draft h => exact .inr h.endPtr
  | stuck h => exact .inr h.endPtr

theorem Phase.same {s' : Build} (h : Phase s) (hsame : Same s s') : Phase s' := by
  cases h with
  | detached h => exact .detached (hsame.msg.trans h)
  | draft h => exact .draft (hsame.msg ▸ h.congr hsame.size fun a _ ha => hsame.octets a ha)
  | stuck h => exact .stuck (hsame.msg ▸ h.congr hsame.size fun a _ ha => hsame.octets a ha)

theorem Grown.attached {s' : Build} {r : TlvRec} (h : Grown s s' r) : s.msg ≠ .detach := by
  intro hdetach
  have hend := h.appends.endPtr
  rw [hdetach] at hend
  exact absurd hend (by simp [PtpMsg.detach])

theorem Grown.tlvs {s' : Build} {r : TlvRec} (h : Grown s s' r) : s'.msg.tlvs = s.msg.tlvs ++ [r] :=
  congrArg PtpMsg.tlvs h.appends.result

theorem Phase.grown {s' : Build} {r : TlvRec} (h : Phase s) (hgrown : Grown s s' r) : Phase s' := by
  cases h with
  | detached h => exact absurd h hgrown.attached
  | draft h => exact .draft (h.appends hgrown.appends hgrown.size)
  | stuck h => exact .stuck (h.appends hgrown.appends hgrown.size)

theorem Phase.adds (h : Phase s) {call : BuildCall} (hlegal : call.Legal s) (hadds : call.Adds) :
    Phase (call.apply s) := by
  rcases adds_cases h.endPtr hlegal hadds with ⟨params, buf, hinit, happly⟩ | hsame | ⟨r, hgrown⟩
  · rw [happly]
    exact .draft (init_draft hinit)
  · exact h.same hsame
  · exact h.grown hgrown

/-- A draft that is asked to be finished changes in nothing that counts, is stuck then, or was finished
without a TLV. -/
theorem Draft.buildDone_cases (h : Draft s.msg s.buf) (size : ℕ) :
    Same s ((BuildCall.buildDone size).apply s) ∨
      Stuck ((BuildCall.buildDone size).apply s).msg ((BuildCall.buildDone size).apply s).buf ∨
      ((BuildCall.buildDone size).apply s).bare = true ∧
        Draft ((BuildCall.buildDone size).apply s).msg ((BuildCall.buildDone size).apply s).buf := by
  cases hdone : (s.msg.buildDone size s.buf).1 with
  | true =>
    rcases h.buildDone_true hdone with hstuck | ⟨hnil, hdraft⟩
    · exact .inr (.inl hstuck)
    · refine .inr (.inr ⟨?_, hdraft⟩)
      simp only [BuildCall.apply, BuildCall.result, hdone, hnil]
      exact Bool.or_true _
  | false =>
    by_cases hlate : StopsLate s.msg s.buf size
    · obtain ⟨hmsg, r, rs, htlvs, hhost, hnet⟩ := h.buildDone_late hlate
      have hmem := h.tiled.mem (htlvs ▸ List.mem_cons_self (a := r))
      have hfour := hhost.four_le
      obtain ⟨t, hid, -⟩ := hhost
      refine .inr (.inl ⟨?_, ?_, r, rs, ?_, hmem.1, ?_, hid ▸ t.id_valid, hnet⟩)
      all_goals simp only [BuildCall.apply, BuildCall.result, hmsg, PtpMsg.buildDone_size]
      · exact h.toFullLayout
      · exact h.attached
      · exact htlvs
      · omega
    · have hsame := h.buildDone_unchanged hdone hlate
      refine .inl ⟨hsame.object, s.msg.buildDone_size s.buf size, hsame.bufLen, hsame.octets, rfl, rfl, ?_⟩
      simp only [BuildCall.apply, BuildCall.result, hdone]
      exact Bool.or_false _

theorem Stuck.buildDone_same (h : Stuck s.msg s.buf) (size : ℕ) :
    Same s ((BuildCall.buildDone size).apply s) := by
  simp only [BuildCall.apply, BuildCall.result, h.buildDone_eq]
  exact ⟨rfl, rfl, rfl, fun _ _ => rfl, rfl, rfl, Bool.or_false _⟩

theorem buildDone_detached (h : s.msg = .detach) (size : ℕ) :
    ((BuildCall.buildDone size).apply s).msg = .detach := by
  rw [BuildCall.apply, BuildCall.result, h]
  rfl

theorem Phase.buildDone (h : Phase s) (size : ℕ) : Phase ((BuildCall.buildDone size).apply s) := by
  cases h with
  | detached h => exact .detached (buildDone_detached h size)
  | draft h =>
    rcases h.buildDone_cases size with hsame | hstuck | ⟨-, hdraft⟩
    · exact Phase.same (.draft h) hsame
    · exact .stuck hstuck
    · exact .draft hdraft
  | stuck h => exact Phase.same (.stuck h) (h.buildDone_same size)

/-- Every call keeps a message a draft or stuck. -/
theorem Phase.apply (h : Phase s) {call : BuildCall} (hlegal : call.Legal s) (hwhole : call.Whole) :
    Phase (call.apply s) := by
  cases call with
  | buildDone size => exact h.buildDone size
  | parse params buf =>
    cases hr : (s.msg.parse params buf).ok with
    | false =>
      simp only [BuildCall.apply, BuildCall.result, hr, parse_false hr]
      exact h
    | true =>
      simp only [BuildCall.apply, BuildCall.result, hr, if_true]
      exact .draft (parse_draft hr hwhole)
  | _ => exact h.adds hlegal trivial

theorem phase_of_run {meets : Build → BuildCall → Prop} (hmeets : ∀ s call, meets s call → call.Whole)
    {calls : List BuildCall} (h : BuildRun meets calls s) : Phase s := by
  refine @Run.invariant _ _ _ _ _ _ (fun _ s => Phase s) (fun s hs => .detached hs.1) ?_ h
  rintro past s call s' hphase ⟨hlegal, hm, rfl⟩
  exact hphase.apply hlegal (hmeets s call hm)

end Step

/-! ## A sample run -/

section Sample

def sampleFresh : Build :=
  { msg := .detach, buf := sampleBuf, params := sampleParams, added := [], bare := false }

def sampleStarted : Build := (BuildCall.init sampleParams sampleBuf).apply sampleFresh

def sampleAsked : Build := (BuildCall.addCSPTPReqTlv 3).apply sampleStarted

/-- The caller has written a name length of 255. -/
def sampleNamed : Build := (BuildCall.fill (blit sampleAsked.buf.mem 71 [255])).apply sampleAsked

def sampleMisfit : Build := (BuildCall.addTlv .alternateTimeOffsetIndicator).apply sampleNamed

def sampleCalls : List BuildCall :=
  [.init sampleParams sampleBuf, .addCSPTPReqTlv 3, .fill (blit sampleAsked.buf.mem 71 [255]),
    .addTlv .alternateTimeOffsetIndicator]

theorem sampleMisfit_run {meets : Build → BuildCall → Prop}
    (hmeets : ∀ s (call : BuildCall), call.Adds → meets s call) :
    BuildRun meets sampleCalls sampleMisfit := by
  have hfresh : BuildRun meets [] sampleFresh := Run.start ⟨rfl, rfl, rfl⟩
  have hstarted := hfresh.next (.init sampleParams sampleBuf) trivial (hmeets _ _ trivial)
  have hasked := hstarted.next (.addCSPTPReqTlv 3) trivial (hmeets _ _ trivial)
  have hnamed := hasked.next (.fill (blit sampleAsked.buf.mem 71 [255])) (fun p hp a ha => by
    have hend : sampleAsked.msg.endPtr = some 52 := by decide +kernel
    obtain rfl := Option.some.inj (hend.symm.trans hp)
    exact blit_of_not_mem (.inl (by omega))) (hmeets _ _ trivial)
  exact hnamed.next (.addTlv .alternateTimeOffsetIndicator) trivial (hmeets _ _ trivial)

end Sample

end Csptp

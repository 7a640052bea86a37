import Csptp.Store.Fetch

/-! # Where the timestamps of fetches come from

Every node can be traced to the last update that stored into it. A fetch that reads the node of its own
address therefore returns what was stored for it, whatever other threads do in between. -/
namespace Csptp
open Linked Octets Runs ListMgr
set_option autoImplicit false

/-! ## The origin of the data -/

section Origin
variable {n : ℕ} {past : List (StoreEvent n)} {e : StoreEvent n} {d : Ptr} {data data' : NodeIPData n}

/-- The last update that stored into the node stored its address and its sequence number, and its
timestamp, unless that was cleared. -/
def Traced (past : List (StoreEvent n)) (d : Ptr) (data : NodeIPData n) : Prop :=
  ∃ before t behind, past = before ++ .update data.ip data.sequenceId t (some d) :: behind ∧ t.Normal ∧
    (∀ e ∈ behind, ¬ e.Sets d) ∧ (data.ts = t ∨ data.ts = ⟨0, 0⟩ ∧ ∃ e ∈ behind, e.Clears d)

theorem Traced.normal (h : Traced past d data) : data.ts.Normal := by
  obtain ⟨before, t, behind, -, ht, -, hts | ⟨hts, -⟩⟩ := h
  · rwa [hts]
  · rw [hts]
    exact zero_normal

theorem Traced.storedBy (h : Traced past d data) : StoredBy past data.ip data.sequenceId data.ts := by
  obtain ⟨before, t, behind, hpast, -, hsets, hts⟩ := h
  refine ⟨d, before, t, behind, hpast, hts.imp_right ?_⟩
  rintro ⟨hzero, e, he, hclears⟩
  obtain ⟨kept, rest, rfl⟩ := List.append_of_mem he
  exact ⟨hzero, kept, e, rest, rfl, hclears, fun e' he' => hsets e' (List.mem_append_left _ he')⟩

theorem Traced.later (h : Traced past d data) (hsets : ¬ e.Sets d) (hip : data'.ip = data.ip)
    (hid : data'.sequenceId = data.sequenceId)
    (hts : data'.ts = data.ts ∨ data'.ts = ⟨0, 0⟩ ∧ e.Clears d) : Traced (past ++ [e]) d data' := by
  obtain ⟨before, t, behind, rfl, ht, hbehind, hstored⟩ := h
  have hsetsAll : ∀ e' ∈ behind ++ [e], ¬ e'.Sets d := by
    intro e' he'
    rcases List.mem_append.mp he' with he' | he'
    · exact hbehind e' he'
    · rwa [List.mem_singleton.mp he']
  refine ⟨before, t, behind ++ [e], by simp [hip, hid], ht, hsetsAll, ?_⟩
  rcases hts with hsame | ⟨hzero, hclears⟩
  · rw [hsame]
    refine hstored.imp_right fun ⟨hzero, e', he', hclears⟩ => ⟨hzero, e', ?_, hclears⟩
    exact List.mem_append_left _ he'
  · exact .inr ⟨hzero, e, by simp, hclears⟩

theorem DataEffect.traced {ι : Type} {L L' : Shelf ι (NodeIPData n)} (h : DataEffect e L L')
    (htraced : ∀ d data, Held L d data → Traced past d data) (hheld : Held L' d data') :
    Traced (past ++ [e]) d data' := by
  rcases h.source d data' hheld with ⟨rfl, hnormal⟩ | ⟨hsets, data, hold, hip, hid, hts⟩
  · exact ⟨past, data'.ts, [], rfl, hnormal, by simp, .inl rfl⟩
  · exact (htraced d data hold).later hsets hip hid hts

theorem StoredBy.later {ip : OctetArray n} {sID : BitVec 16} {ts : Timespec}
    (h : StoredBy past ip sID ts) : StoredBy (past ++ [e]) ip sID ts := by
  obtain ⟨d, before, t, behind, rfl, hts⟩ := h
  refine ⟨d, before, t, behind ++ [e], by simp, hts.imp_right ?_⟩
  rintro ⟨hzero, kept, e', rest, rfl, hclears, hkept⟩
  exact ⟨hzero, kept, e', rest ++ [e], by simp, hclears, hkept⟩

theorem ReadSince.later {j : ℕ} {c : FetchCall} (h : ReadSince past j c d) (hsets : ¬ e.Sets d) :
    ReadSince (past ++ [e]) j c d := by
  obtain ⟨before, ts, behind, rfl, hbehind⟩ := h
  refine ⟨before, ts, behind ++ [e], by simp, fun e' he' => ?_⟩
  rcases List.mem_append.mp he' with he' | he'
  · exact hbehind e' he'
  · rwa [List.mem_singleton.mp he']

end Origin

/-! ## The invariant -/

/-- What holds of a fetch after each of its steps. -/
def Fetching.Intact {type : Prot} {ι : Type} (past : List (StoreEvent type.addrLen))
    (L : Shelf ι (NodeIPData type.addrLen)) (j : ℕ) : Fetching → Prop
  | .idle => True
  | .found _ d | .matched _ d => ∃ data, Held L d data
  | .got c d ts => ((∃ data, Held L d data) ∧ ∀ data, Held L d data → data.ip = c.addr.ip type) ∧
      ReadSince past j c d ∧ StoredBy past (c.addr.ip type) c.sID ts
  | .ended c ts => StoredBy past (c.addr.ip type) c.sID ts

section Invariant
variable {type : Prot} {size : ℕ} {listOf : OctetArray type.addrLen → Fin size}
  {past : List (StoreEvent type.addrLen)} {x x' : Sharing type size} {e : StoreEvent type.addrLen}

/-- The invariant of the runs. -/
structure Sharing.Intact (listOf : OctetArray type.addrLen → Fin size)
    (past : List (StoreEvent type.addrLen)) (x : Sharing type size) : Prop where
  valid : Store.Valid listOf x.store
  placed : ∀ cookie i l cleaner, x.cleaning = some ⟨cookie, i :: l, cleaner⟩ →
    Placed i x.store.mgr.nodes cleaner
  traced : ∀ d data, Held x.store.mgr.nodes d data → Traced past d data
  fetches : ∀ j, (x.fetches j).Intact past x.store.mgr.nodes j

/-- A fetch is not disturbed by steps of others that store into no node that it is about to clear. -/
theorem Fetching.Intact.later {ι : Type} {L L' : Shelf ι (NodeIPData type.addrLen)} {j : ℕ}
    {phase : Fetching} (heffect : DataEffect e L L')
    (hsets : ∀ c d ts, phase = .got c d ts → ¬ e.Sets d) (h : phase.Intact past L j) :
    phase.Intact (past ++ [e]) L' j := by
  cases phase with
  | idle => trivial
  | found c d | matched c d =>
    obtain ⟨data, hheld⟩ := h
    exact heffect.kept d data hheld
  | got c d ts =>
    obtain ⟨⟨⟨data, hheld⟩, hip⟩, hread, hstored⟩ := h
    have hnot := hsets c d ts rfl
    refine ⟨⟨heffect.kept d data hheld, fun data' hheld' => ?_⟩, hread.later hnot, hstored.later⟩
    rcases heffect.source d data' hheld' with ⟨rfl, -⟩ | ⟨-, data, hold, hsame, -⟩
    · exact absurd rfl hnot
    · exact hsame.trans (hip data hold)
  | ended c ts => exact StoredBy.later h

theorem Sharing.Intact.later (h : x.Intact listOf past) {s' : Store type size}
    {cleaning' : Option (StoreCleaning type size)} (hvalid : Store.Valid listOf s')
    (hplaced : ∀ cookie i l cleaner, cleaning' = some ⟨cookie, i :: l, cleaner⟩ →
      Placed i s'.mgr.nodes cleaner)
    (heffect : DataEffect e x.store.mgr.nodes s'.mgr.nodes)
    (hsets : ∀ j c d ts, x.fetches j = .got c d ts → ¬ e.Sets d) :
    Sharing.Intact listOf (past ++ [e]) ⟨s', x.fetches, cleaning'⟩ :=
  ⟨hvalid, hplaced, fun _ _ hheld => heffect.traced h.traced hheld,
    fun j => (h.fetches j).later heffect (hsets j)⟩

theorem Sharing.Intact.unchanged (h : x.Intact listOf past)
    {cleaning' : Option (StoreCleaning type size)}
    (hplaced : ∀ cookie i l cleaner, cleaning' = some ⟨cookie, i :: l, cleaner⟩ →
      Placed i x.store.mgr.nodes cleaner)
    (hsets : ∀ d, ¬ e.Sets d) :
    Sharing.Intact listOf (past ++ [e]) ⟨x.store, x.fetches, cleaning'⟩ :=
  h.later h.valid hplaced (.of_same hsets fun _ => Iff.rfl) fun _ _ d _ _ => hsets d

theorem Sharing.Intact.next (h : x.Intact listOf past) {j : ℕ} {phase : Fetching}
    (hphase : phase.Intact past x.store.mgr.nodes j) : (x.next j phase).Intact listOf past := by
  refine ⟨h.valid, h.placed, h.traced, fun j' => ?_⟩
  by_cases hj : j' = j
  · subst hj
    simpa [Sharing.next] using hphase
  · simpa [Sharing.next, hj] using h.fetches j'

theorem Sharing.Intact.held (h : x.Intact listOf past) {j : ℕ} {d : Ptr}
    (hphase : (x.fetches j).node = some d) :
    ∃ data nxt, Held x.store.mgr.nodes d data ∧ x.store.mgr.heap d = some ⟨nxt, data⟩ := by
  have hfetch := h.fetches j
  obtain ⟨data, k, hk⟩ : ∃ data, Held x.store.mgr.nodes d data := by
    cases hj : x.fetches j <;> rw [hj] at hfetch hphase <;> cases hphase
    · exact hfetch
    · exact hfetch
    · exact hfetch.1.1
  obtain ⟨nxt, hnode⟩ := h.valid.sound.shape.chains.node_of_mem hk
  exact ⟨data, nxt, ⟨k, hk⟩, hnode⟩

/-- What the thread holds after it has read a timestamp that was stored for its call. -/
theorem Sharing.Intact.read (h : x.Intact listOf past) {j : ℕ} {c : FetchCall} {d : Ptr}
    {stored : Timespec} (hphase : x.fetches j = .matched c d) (hts : x.store.mgr.readTs d = some stored)
    (hsame : ∀ node, x.store.mgr.heap d = some node →
      node.data.ip = c.addr.ip type ∧ node.data.sequenceId = c.sID) :
    Fetching.Intact (past ++ [.readTs j c d (c.ts.fromTimespec stored)]) x.store.mgr.nodes j
      (if c.clear then .got c d (c.ts.fromTimespec stored) else .ended c (c.ts.fromTimespec stored)) := by
  obtain ⟨data, nxt, hheld, hnode⟩ := h.held (congrArg Fetching.node hphase)
  obtain rfl : data.ts = stored := by simpa [ListMgr.readTs, hnode] using hts
  obtain ⟨hip, hid⟩ : data.ip = c.addr.ip type ∧ data.sequenceId = c.sID := hsame _ hnode
  have htraced := h.traced d data hheld
  rw [Timespec.fromTimespec_of_normal htraced.normal]
  have hstored := htraced.storedBy.later (e := .readTs j c d data.ts)
  rw [hip, hid] at hstored
  cases c.clear with
  | false => exact hstored
  | true =>
    refine ⟨⟨⟨data, hheld⟩, fun data' hheld' => ?_⟩, ⟨past, _, [], rfl, by simp⟩, hstored⟩
    obtain ⟨k', hk'⟩ := hheld'
    obtain ⟨nxt', hnode'⟩ := h.valid.sound.shape.chains.node_of_mem hk'
    exact (hsame _ hnode').1

/-- A node is cleared by the thread that has read it. -/
theorem Sharing.Intact.clear (h : x.Intact listOf past) {j : ℕ} {c : FetchCall} {d : Ptr}
    {ts : Timespec} {node : Node Ptr (NodeIPData type.addrLen)}
    {mgr' : ListMgr (Fin size) (NodeIPData type.addrLen)} (hphase : x.fetches j = .got c d ts)
    (hnode : x.store.mgr.heap d = some node) (hclear : x.store.mgr.clearTs d = some mgr') :
    Sharing.Intact listOf (past ++ [.clear j c d node.data])
      (Sharing.next { x with store := { x.store with mgr := mgr' } } j (.ended c ts)) := by
  obtain ⟨data, nxt, hheld, hcell⟩ := h.held (congrArg Fetching.node hphase)
  obtain rfl : (⟨nxt, data⟩ : Node _ _) = node := Option.some.inj (hcell.symm.trans hnode)
  obtain ⟨hvalid, heffect, haddrs⟩ := h.valid.clear_data hheld hclear j c
  have hplaced : ∀ cookie i l cleaner, x.cleaning = some ⟨cookie, i :: l, cleaner⟩ →
      Placed i mgr'.nodes cleaner := by
    intro cookie i l cleaner hcleaning
    refine (h.placed cookie i l cleaner hcleaning).mono ?_
    rw [haddrs]
    exact List.Subset.refl _
  have hfetch := h.fetches j
  rw [hphase] at hfetch
  have hlater := h.later hvalid hplaced heffect fun _ _ d _ _ hsets => hsets
  exact hlater.next hfetch.2.2.later

theorem Sharing.Intact.step (h : x.Intact listOf past) (hstep : SharedStep x e x')
    (hmeets : Undisturbed past x e) : x'.Intact listOf (past ++ [e]) := by
  cases hstep with
  | update haddr hts hfresh hcall =>
    obtain ⟨hvalid, heffect, hsub⟩ := h.valid.update_data haddr hts hfresh hcall
    refine h.later hvalid (fun cookie i l cleaner hcleaning => ?_) heffect fun j c d ts hphase hsets => ?_
    · exact (h.placed cookie i l cleaner hcleaning).mono (hsub i).subset
    · exact hmeets d hsets j c ts hphase
  | @lookUp j c node s' hphase haddr hcall =>
    obtain ⟨node', hcall', hnode⟩ := h.valid.lookUp_eq haddr c.sID
    obtain ⟨rfl, rfl⟩ := Prod.mk.inj (Option.some.inj (hcall.symm.trans hcall'))
    refine (h.unchanged (e := .lookUp j) h.placed fun d hsets => hsets).next ?_
    cases node with
    | none => trivial
    | some d =>
      obtain ⟨data, hmem, -⟩ := hnode
      exact ⟨data, _, hmem⟩
  | @readId j c d sequenceId hphase hid =>
    refine (h.unchanged (e := .readId j) h.placed fun d hsets => hsets).next ?_
    have hfetch := h.fetches j
    rw [hphase] at hfetch
    split_ifs
    · trivial
    · exact hfetch
  | @readTs j c d stored hphase hts =>
    refine (h.unchanged (e := .readTs j c d (c.ts.fromTimespec stored)) h.placed
      fun d hsets => hsets).next ?_
    exact h.read hphase hts hmeets
  | clear hphase hnode hcall => exact h.clear hphase hnode hcall
  | @returned j c ts hphase =>
    exact (h.unchanged (e := .returned j c ts) h.placed fun d hsets => hsets).next trivial
  | cleanupStarts hidle =>
    refine h.unchanged (fun cookie i l cleaner hcleaning => ?_) fun d hsets => hsets
    obtain ⟨-, -, rfl⟩ := StoreCleaning.mk.inj (Option.some.inj hcleaning)
    trivial
  | @cleanupSection cookie i l cleaner cleaner' cleanup mgr' hcleaning hcleanup hgoing hsection =>
    obtain ⟨hvalid, heffect, hplaced⟩ :=
      h.valid.clean_data hcleanup (h.placed _ _ _ _ hcleaning) hgoing hsection
    refine h.later hvalid (fun cookie₁ i₁ l₁ cleaner₁ hcleaning₁ => ?_) heffect
      fun _ _ d _ _ hsets => hsets
    obtain ⟨-, hlists, rfl⟩ := StoreCleaning.mk.inj (Option.some.inj hcleaning₁)
    obtain ⟨rfl, -⟩ := List.cons.inj hlists
    exact hplaced
  | cleanupNext hcleaning =>
    refine h.unchanged (fun cookie i l cleaner hnext => ?_) fun d hsets => hsets
    obtain ⟨-, -, rfl⟩ := StoreCleaning.mk.inj (Option.some.inj hnext)
    trivial
  | cleanupEnds hcleaning =>
    refine h.unchanged (fun cookie i l cleaner hnone => ?_) fun d hsets => hsets
    cases hnone

theorem Sharing.Intact.right (h : x.Intact listOf past) (hstep : SharedStep x e x') :
    FetchRight type past e := by
  cases hstep with
  | @returned j c ts hphase =>
    have hfetch := h.fetches j
    rw [hphase] at hfetch
    exact hfetch
  | @clear j c d ts node mgr' hphase hnode hcall =>
    obtain ⟨data, nxt, hheld, hcell⟩ := h.held (congrArg Fetching.node hphase)
    obtain rfl : (⟨nxt, data⟩ : Node _ _) = node := Option.some.inj (hcell.symm.trans hnode)
    have hfetch := h.fetches j
    rw [hphase] at hfetch
    exact ⟨hfetch.1.2 data hheld, hfetch.2.1⟩
  | _ => trivial

end Invariant

/-! ## Runs -/

section Runs
variable {type : Prot} {bits : ℕ}

theorem Sharing.intact_start (hbits : bits ≤ 30) {x : Sharing type (1 <<< bits)}
    (hstore : storeAlloc type bits = some x.store) (hidle : ∀ j, x.fetches j = .idle)
    (hcleaning : x.cleaning = none) : ∃ listOf, x.Intact listOf [] := by
  obtain ⟨listOf, H⟩ := Store.models_alloc hbits hstore
  have hmgr := Store.storeAlloc_mgr hbits hstore
  refine ⟨listOf, H.toValid, fun cookie i l cleaner hgoing => ?_, ?_, fun j => ?_⟩
  · rw [hcleaning] at hgoing
    cases hgoing
  · rintro d data ⟨k, hk⟩
    rw [hmgr, Store.nodes_alloc] at hk
    cases hk
  · rw [hidle j]
    trivial

theorem SharedRun.intact (hbits : bits ≤ 30) {past : List (StoreEvent type.addrLen)}
    {x : Sharing type (1 <<< bits)} (h : SharedRun type bits Undisturbed past x) :
    ∃ listOf, x.Intact listOf past := by
  induction h with
  | start hstart => exact Sharing.intact_start hbits hstart.1 hstart.2.1 hstart.2.2
  | step hrun hstep ih =>
    obtain ⟨listOf, hintact⟩ := ih
    exact ⟨listOf, hintact.step hstep.1 hstep.2⟩

/-- In a run in which a fetch reads the node of its address and its sequence number, and no update stores
into a node between its read and its clear, every fetch is right and uses memory that is in use. -/
theorem store_fetch_concurrent (hbits : bits ≤ 30) {past : List (StoreEvent type.addrLen)}
    {x : Sharing type (1 <<< bits)} (h : SharedRun type bits Undisturbed past x) :
    Each (FetchRight type) past ∧
      ∀ j d, (x.fetches j).node = some d → (x.store.mgr.heap d).isSome := by
  constructor
  · refine Run.each (fun past x hrun => SharedRun.intact hbits hrun) ?_ h
    rintro past x e x' ⟨listOf, hintact⟩ ⟨hstep, -⟩
    exact hintact.right hstep
  · intro j d hphase
    obtain ⟨listOf, hintact⟩ := SharedRun.intact hbits h
    obtain ⟨data, nxt, -, hnode⟩ := hintact.held hphase
    rw [hnode]
    rfl

end Runs

section Samples

abbrev sampleStart : Sharing .udpIPv4 (1 <<< 0) :=
  ⟨⟨0#32, .hash0, ListMgr.alloc⟩, fun _ => .idle, none⟩

def sampleIp (addr : BitVec 32) : OctetArray Prot.udpIPv4.addrLen :=
  (sampleStoreAddr addr).ip .udpIPv4

theorem addr_isType (addr : BitVec 32) : (sampleStoreAddr addr).IsType .udpIPv4 := trivial

def sampleFetch : FetchCall := ⟨sampleStoreAddr 0x0100000a#32, ⟨1, 1⟩, 3, true⟩

theorem SharedStep.put {x : Sharing .udpIPv4 (1 <<< 0)} (addr : BitVec 32) (ts : Timespec)
    (sID : BitVec 16) (now : ℤ) {fresh : Option Ptr} {done : Bool} {s' : Store .udpIPv4 (1 <<< 0)}
    (hts : ts.Normal) (hfresh : x.store.mgr.Unused fresh)
    (h : x.store.update (sampleStoreAddr addr) ts sID now fresh = some (done, s')) :
    SharedStep x (.update (sampleIp addr) sID ts (x.store.target (sampleStoreAddr addr)
      (Store.updateCookie ts sID (sampleIp addr) now) fresh)) { x with store := s' } :=
  .update (addr_isType addr) hts hfresh h

theorem SharedStep.starts {x : Sharing .udpIPv4 (1 <<< 0)} (timeGap : BitVec 32) (now : ℤ)
    (h : x.cleaning = none) : SharedStep x .cleanup
      { x with cleaning := some ⟨Store.cleanupCookie timeGap now, List.finRange (1 <<< 0), .head 0⟩ } :=
  .cleanupStarts h

theorem SharedRun.next {type : Prot} {bits : ℕ} {meets : List (StoreEvent type.addrLen) →
      Sharing type (1 <<< bits) → StoreEvent type.addrLen → Prop}
    {past : List (StoreEvent type.addrLen)} {x x' : Sharing type (1 <<< bits)}
    {e : StoreEvent type.addrLen} (h : SharedRun type bits meets past x) (hstep : SharedStep x e x')
    (hmeets : meets past x e) : SharedRun type bits meets (past ++ [e]) x' := Run.step h ⟨hstep, hmeets⟩

/-- A clean up that starts while a thread fetches, and two fetches one after the other. -/
theorem store_fetch_concurrent_sample : ∃ past x, SharedRun .udpIPv4 0 Undisturbed past x ∧
    past.getLast? = some (.returned 0 sampleFetch ⟨0, 0⟩) ∧ Each (FetchRight .udpIPv4) past := by
  have h₀ : SharedRun .udpIPv4 0 Undisturbed [] sampleStart := Run.start ⟨rfl, fun _ => rfl, rfl⟩
  have h₁ := h₀.next (.put 0x0100000a#32 ⟨5, 7⟩ 3 100 (by decide) (unused_some (a := 10) rfl) rfl)
    (fun _ _ _ _ _ => nofun)
  have h₂ := h₁.next (.lookUp (j := 0) (c := sampleFetch) rfl (addr_isType _) rfl) trivial
  have h₃ := h₂.next (.starts 50 120 rfl) trivial
  have h₄ := h₃.next (.readId (j := 0) rfl rfl) trivial
  have h₅ := h₄.next (.readTs (j := 0) rfl rfl) (by
    rintro node ⟨⟩
    exact ⟨rfl, rfl⟩)
  have h₆ := h₅.next (.cleanupSection rfl rfl (by simp) rfl) trivial
  have h₇ := h₆.next (.clear (j := 0) rfl rfl rfl) trivial
  have h₈ := h₇.next (.returned (j := 0) rfl) trivial
  have h₉ := h₈.next (.lookUp (j := 0) (c := sampleFetch) rfl (addr_isType _) rfl) trivial
  have h₁₀ := h₉.next (.readId (j := 0) rfl rfl) trivial
  have h₁₁ := h₁₀.next (.readTs (j := 0) rfl rfl) (by
    rintro node ⟨⟩
    exact ⟨rfl, rfl⟩)
  have h₁₂ := h₁₁.next (.clear (j := 0) rfl rfl rfl) trivial
  have h₁₃ := h₁₂.next (.returned (j := 0) rfl) trivial
  exact ⟨_, _, h₁₃, rfl, (store_fetch_concurrent (by decide) h₁₃).1⟩

/-! ## Runs that go wrong -/

/-- The clean up and an update for another address come between the steps of a fetch. -/
def recycledRun : List (StoreEvent Prot.udpIPv4.addrLen) :=
  [.update (sampleIp 0x0100000a#32) 3 ⟨5, 7⟩ (some 10), .lookUp 0, .cleanup, .cleanup,
    .update (sampleIp 0x0200000a#32) 3 ⟨6, 8⟩ (some 10), .readId 0, .readTs 0 sampleFetch 10 ⟨6, 8⟩,
    .clear 0 sampleFetch 10 ⟨⟨6, 8⟩, 160, 3, sampleIp 0x0200000a#32⟩, .returned 0 sampleFetch ⟨6, 8⟩]

theorem recycledRun_run : ∃ x, SharedRun .udpIPv4 0 (fun _ _ _ => True) recycledRun x := by
  have h₀ : SharedRun .udpIPv4 0 (fun _ _ _ => True) [] sampleStart :=
    Run.start ⟨rfl, fun _ => rfl, rfl⟩
  have h₁ := h₀.next (.put 0x0100000a#32 ⟨5, 7⟩ 3 100 (by decide) (unused_some (a := 10) rfl) rfl) trivial
  have h₂ := h₁.next (.lookUp (j := 0) (c := sampleFetch) rfl (addr_isType _) rfl) trivial
  have h₃ := h₂.next (.starts 50 160 rfl) trivial
  have h₄ := h₃.next (.cleanupSection rfl rfl (by simp) rfl) trivial
  have h₅ := h₄.next (.put 0x0200000a#32 ⟨6, 8⟩ 3 160 (by decide) unused_none rfl) trivial
  have h₆ := h₅.next (.readId (j := 0) rfl rfl) trivial
  have h₇ := h₆.next (.readTs (j := 0) rfl rfl) trivial
  have h₈ := h₇.next (.clear (j := 0) rfl rfl rfl) trivial
  have h₉ := h₈.next (.returned (j := 0) rfl) trivial
  exact ⟨_, h₉⟩

/-- An update for the address of a fetch comes between its read and its clear. -/
def overtakenRun : List (StoreEvent Prot.udpIPv4.addrLen) :=
  [.update (sampleIp 0x0100000a#32) 3 ⟨5, 7⟩ (some 10), .lookUp 0, .readId 0,
    .readTs 0 sampleFetch 10 ⟨5, 7⟩, .update (sampleIp 0x0100000a#32) 4 ⟨6, 8⟩ (some 10),
    .clear 0 sampleFetch 10 ⟨⟨6, 8⟩, 101, 4, sampleIp 0x0100000a#32⟩]

theorem overtakenRun_run : ∃ x, SharedRun .udpIPv4 0 (fun _ _ _ => True) overtakenRun x := by
  have h₀ : SharedRun .udpIPv4 0 (fun _ _ _ => True) [] sampleStart :=
    Run.start ⟨rfl, fun _ => rfl, rfl⟩
  have h₁ := h₀.next (.put 0x0100000a#32 ⟨5, 7⟩ 3 100 (by decide) (unused_some (a := 10) rfl) rfl) trivial
  have h₂ := h₁.next (.lookUp (j := 0) (c := sampleFetch) rfl (addr_isType _) rfl) trivial
  have h₃ := h₂.next (.readId (j := 0) rfl rfl) trivial
  have h₄ := h₃.next (.readTs (j := 0) rfl rfl) trivial
  have h₅ := h₄.next (.put 0x0100000a#32 ⟨6, 8⟩ 4 101 (by decide) unused_none rfl) trivial
  have h₆ := h₅.next (.clear (j := 0) rfl rfl rfl) trivial
  exact ⟨_, h₆⟩

/-- An update that stores into the node ends what a read knows of it. -/
theorem ReadSince.not_sets {n : ℕ} {past : List (StoreEvent n)} {e : StoreEvent n} {j : ℕ} {c : FetchCall}
    {d : Ptr} (h : ReadSince (past ++ [e]) j c d) : ¬ e.Sets d := by
  obtain ⟨before, ts, behind, hpast, hbehind⟩ := h
  rcases List.eq_nil_or_concat behind with rfl | ⟨rest, e', rfl⟩
  · obtain ⟨-, he⟩ := List.append_inj' hpast rfl
    rw [(List.cons.inj he).1]
    exact fun hsets => hsets
  · have hlast : past ++ [e] = (before ++ .readTs j c d ts :: rest) ++ [e'] := by simpa using hpast
    obtain ⟨-, he⟩ := List.append_inj' hlast rfl
    rw [(List.cons.inj he).1]
    exact hbehind e' (by simp)

/-- Without these conditions a fetch returns the timestamp of another address, and erases a timestamp
that was stored after the one it has read. -/
theorem fetch_disturbed :
    (¬ ∀ past x, SharedRun .udpIPv4 0 (fun _ _ _ => True) past x → ∀ before j c ts,
      before ++ [.returned j c ts] <+: past →
        StoredBy before (c.addr.ip .udpIPv4) c.sID ts) ∧
    ¬ ∀ past x, SharedRun .udpIPv4 0 (fun _ _ _ => True) past x → ∀ before j c d data,
      before ++ [.clear j c d data] <+: past → ReadSince before j c d := by
  constructor
  · intro hall
    obtain ⟨x, hrun⟩ := recycledRun_run
    obtain ⟨d, before, t, behind, hpast, hts⟩ := hall _ x hrun recycledRun.dropLast 0 sampleFetch ⟨6, 8⟩
      List.prefix_rfl
    have hmem : StoreEvent.update (sampleFetch.addr.ip .udpIPv4) sampleFetch.sID t (some d) ∈
        recycledRun.dropLast := by
      rw [hpast]
      simp
    have hother : sampleFetch.addr.ip .udpIPv4 ≠ sampleIp 0x0200000a#32 := by decide
    obtain rfl : t = ⟨5, 7⟩ := by
      simp only [recycledRun, List.dropLast, List.mem_cons, StoreEvent.update.injEq, hother, reduceCtorEq,
        Option.some.injEq, false_and, or_false, List.not_mem_nil] at hmem
      exact hmem.2.2.1
    rcases hts with hts | ⟨hzero, -⟩
    · exact absurd hts (by decide)
    · exact absurd hzero (by decide)
  · intro hall
    obtain ⟨x, hrun⟩ := overtakenRun_run
    have hread : ReadSince (overtakenRun.dropLast.dropLast ++
        [.update (sampleIp 0x0100000a#32) 4 ⟨6, 8⟩ (some 10)]) 0 sampleFetch 10 :=
      hall _ x hrun overtakenRun.dropLast 0 sampleFetch 10 _ List.prefix_rfl
    exact hread.not_sets rfl

end Samples

end Csptp

import Csptp.Exact
import Csptp.Traffic.Trips

/-! # The offset between two clocks

When the clocks run at the same pace, the four times of a call bound the offset of the service's clock
from the client's. An answer to an earlier call with the same number would break the bounds, so the
number has to be used once. The two-way bound needs that no packet was duplicated too, as a service
answers each copy of a request. -/
namespace Csptp
open Octets Links
set_option autoImplicit false

/-! ## Readings -/

namespace Site
variable {κ ι : Type}

/-- The clock that is read in an event, and what it shows. -/
def reading : Event (PartyEvent κ ι) Packet → Option ((κ ⊕ ι) × ClockReading)
  | .host (.inl (k, .hear _ (.ready _ now))) => some (.inl k, now)
  | .host (.inl (k, .reply inp (_ :: _))) => some (.inl k, inp.now)
  | .host (.inr (i, .call _ now _ _ _)) => some (.inr i, now)
  | .host (.inr (i, .pass _ (.ready _ now))) => some (.inr i, now)
  | _ => none

/-- Every clock is ahead of the true time by a constant, and the readings come one after the other in
true time. -/
def Steady (ahead : κ ⊕ ι → ℤ) (history : History κ ι) : Prop :=
  (history.filterMap reading).Pairwise fun x y => x.2.exact - ahead x.1 ≤ y.2.exact - ahead y.1

theorem Steady.sublist {ahead : κ ⊕ ι → ℤ} {history past : History κ ι} (h : Steady ahead history)
    (hsub : past.Sublist history) : Steady ahead past := List.Pairwise.sublist (hsub.filterMap _) h

theorem Trip.readings {i : ι} {k : κ} {sID : BitVec 16} {t1 rx tx arrival : ClockReading}
    {trip : History κ ι} (h : Trip i k sID t1 rx tx arrival trip) : trip.filterMap reading =
      [(.inr i, t1), (.inl k, rx), (.inl k, tx), (.inr i, arrival)] := by
  cases h with
  | @mk netReqSync netFollowUp requests sent request reply inp hrequest hasks hpoll hnow hreply =>
    obtain ⟨p, ps, rfl⟩ := List.exists_cons_of_ne_nil (List.ne_nil_of_mem hreply)
    rw [hpoll, ← hnow]
    rfl

theorem Trip.call_mem {i : ι} {k : κ} {sID : BitVec 16} {t1 rx tx arrival : ClockReading}
    {trip : History κ ι} (h : Trip i k sID t1 rx tx arrival trip) :
    ∃ b1 b2 requests, .host (.inr (i, .call sID t1 b1 b2 requests)) ∈ trip := by
  cases h with
  | mk => exact ⟨_, _, _, List.mem_cons_self⟩

theorem Trip.reply_mem {i : ι} {k : κ} {sID : BitVec 16} {t1 rx tx arrival : ClockReading}
    {trip : History κ ι} (h : Trip i k sID t1 rx tx arrival trip) :
    ∃ b1 b2 requests request inp sent, request ∈ requests ∧
      .host (.inr (i, .call sID t1 b1 b2 requests)) ∈ trip ∧ .host (.inl (k, .reply inp sent)) ∈ trip ∧
      inp.poll = .ready (some ⟨request.src, request.octets⟩) rx ∧ inp.now = tx ∧
      Csptp.asks sID request.octets = true := by
  cases h with
  | mk hrequest hasks hpoll hnow hreply =>
    exact ⟨_, _, _, _, _, _, hrequest, List.mem_cons_self,
      List.mem_cons_of_mem _ (List.mem_cons_of_mem _ List.mem_cons_self), hpoll, hnow, hasks⟩

theorem Trip.pass_eq {i : ι} {k : κ} {sID : BitVec 16} {t1 rx tx arrival : ClockReading}
    {front : History κ ι} {pass : Event (PartyEvent κ ι) Packet}
    (h : Trip i k sID t1 rx tx arrival (front ++ [pass])) :
    ∃ dst d, pass = .host (.inr (i, .pass dst (.ready (some d) arrival))) := by
  generalize htrip : front ++ [pass] = trip at h
  cases h with
  | @mk netReqSync netFollowUp requests sent request reply inp =>
    have hlast := congrArg List.getLast? htrip
    rw [List.getLast?_append, List.getLast?_singleton] at hlast
    exact ⟨reply.dst, ⟨reply.src, reply.octets⟩, Option.some.inj hlast⟩

/-- The readings of a trip in their order. -/
theorem Trip.ordered {ahead : κ ⊕ ι → ℤ} {i : ι} {k : κ} {sID : BitVec 16}
    {t1 rx tx arrival : ClockReading} {trip history : History κ ι}
    (h : Trip i k sID t1 rx tx arrival trip) (hsub : trip.Sublist history) (hsteady : Steady ahead history) :
    t1.exact - ahead (.inr i) ≤ rx.exact - ahead (.inl k) ∧ rx.exact ≤ tx.exact ∧
      tx.exact - ahead (.inl k) ≤ arrival.exact - ahead (.inr i) := by
  have htrip := hsteady.sublist hsub
  rw [Steady, h.readings] at htrip
  simp only [List.pairwise_cons, List.mem_cons, List.not_mem_nil, or_false, forall_eq_or_imp,
    forall_eq] at htrip
  omega

/-! ## Numbers that are used once -/

end Site

/-- A call under this number. -/
def ClientEvent.uses (sID : BitVec 16) : ClientEvent → Bool
  | .call sID' _ _ _ _ => sID' = sID
  | _ => false

namespace Site
variable {κ ι : Type} [DecidableEq ι]

/-- The client makes at most one call under this number. -/
def UsedOnce (i : ι) (sID : BitVec 16) (history : History κ ι) : Prop :=
  (history.filterMap (ofClient i)).countP (ClientEvent.uses sID) ≤ 1

theorem eq_of_countP_le_one {α : Type*} {l : List α} {p : α → Bool} (h : l.countP p ≤ 1) {x y : α}
    (hx : x ∈ l) (hy : y ∈ l) (hpx : p x = true) (hpy : p y = true) : x = y := by
  rw [List.countP_eq_length_filter] at h
  have hxf : x ∈ l.filter p := List.mem_filter.mpr ⟨hx, hpx⟩
  have hyf : y ∈ l.filter p := List.mem_filter.mpr ⟨hy, hpy⟩
  obtain ⟨z, hz⟩ := List.length_eq_one_iff.mp
    (le_antisymm h (List.length_pos_iff_exists_mem.mpr ⟨x, hxf⟩))
  rw [hz] at hxf hyf
  rw [List.mem_singleton.mp hxf, List.mem_singleton.mp hyf]

theorem UsedOnce.now_eq {i : ι} {sID : BitVec 16} {history : History κ ι} (h : UsedOnce i sID history)
    {now now' : ClockReading} {b1 b2 b1' b2' : Bool} {sent sent' : List Packet}
    (hmem : .host (.inr (i, .call sID now b1 b2 sent)) ∈ history)
    (hmem' : .host (.inr (i, .call sID now' b1' b2' sent')) ∈ history) : now = now' := by
  have hown {e : ClientEvent} (he : .host (.inr (i, e)) ∈ history) : e ∈ history.filterMap (ofClient i) :=
    List.mem_filterMap.mpr ⟨_, he, ofClient_eq_some.mpr rfl⟩
  have heq := eq_of_countP_le_one h (hown hmem) (hown hmem') (by simp [ClientEvent.uses])
    (by simp [ClientEvent.uses])
  exact (ClientEvent.call.inj heq).2.1

theorem ArrivedIn.now_eq {i : ι} {k : κ} {sID : BitVec 16} {past : History κ ι}
    {now t1 rx tx arrival : ClockReading} {b1 b2 : Bool} {requests : List Packet}
    (h : ArrivedIn i k sID past (.host (.inr (i, .call sID now b1 b2 requests))) t1 rx tx arrival)
    (honce : UsedOnce i sID past) : t1 = now := by
  obtain ⟨front, pass, htrip, hsub, hcall⟩ := h
  obtain ⟨b1', b2', requests', hmem⟩ := htrip.call_mem
  exact honce.now_eq (hsub.subset hmem) (hcall.subset List.mem_cons_self)

end Site

/-! ## One-way bounds -/

namespace Site
variable {κ ι : Type} [DecidableEq κ] [DecidableEq ι] {site : Site κ ι} {history : History κ ι}
  {s : Links.State (Parties κ ι) Packet}

/-- The offset of the service's clock lies between what the way back and what the way there show. The
logged offset is no less than it, and more by no more than a call takes. -/
theorem Run.offset_bounds (h : site.Run history s) {i : ι} {k : κ} (htarget : site.Targets i k)
    {past : History κ ι} {r : FlowResult} (hret : past ++ [.host (.inr (i, .ret r))] <+: history)
    (htrue : r.ret = true) {ahead : κ ⊕ ι → ℤ} (hsteady : Steady ahead past)
    (honce : UsedOnce i r.sequenceId past) :
    let offset := ahead (.inl k) - ahead (.inr i)
    r.st.r1.exact - r.st.r2.exact ≤ offset ∧ offset ≤ r.st.r1.exact - r.st.t1.exact ∧
      offset ≤ r.st.t2.exact - r.st.t1.exact ∧
      ∃ (now : ClockReading) (netReqSync netFollowUp : Bool) (requests : List Packet) (dst : SockAddr)
        (d : Datagram) (arrival : ClockReading), now.toTimespec = r.st.t1 ∧
        [.host (.inr (i, .call r.sequenceId now netReqSync netFollowUp requests)),
          .host (.inr (i, .pass dst (.ready (some d) arrival)))].Sublist past ∧
        r.st.t2.exact - r.st.t1.exact - offset ≤ arrival.exact - now.exact := by
  intro offset
  obtain ⟨now, netReqSync, netFollowUp, requests, hcall, ht1, ⟨t1, rx, tx, arrival, harrived, hr1, hr2⟩,
    t1', rx', tx', arrival', harrived', ht2⟩ := h.times_of_trips htarget hret htrue
  have hfirst := harrived.now_eq honce
  have hsecond := harrived'.now_eq honce
  obtain ⟨front, pass, htrip, hsub, -⟩ := harrived
  obtain ⟨front', pass', htrip', hsub', hin⟩ := harrived'
  obtain ⟨hthere, hstay, hback⟩ := htrip.ordered hsub hsteady
  obtain ⟨hthere', hstay', hback'⟩ := htrip'.ordered hsub' hsteady
  obtain ⟨dst, d, rfl⟩ := htrip'.pass_eq
  rw [hfirst] at hthere
  rw [hsecond] at hthere'
  have e1 : r.st.t1.exact = now.exact := congrArg Timespec.exact ht1
  have e2 : r.st.r1.exact = rx.exact := congrArg Timespec.exact hr1
  have e3 : r.st.t2.exact = tx'.exact := congrArg Timespec.exact ht2
  have e4 : r.st.r2.exact = arrival.exact := congrArg Timespec.exact hr2
  refine ⟨by omega, by omega, by omega, now, netReqSync, netFollowUp, requests, dst, d, arrival', ht1.symm,
    hin, by omega⟩

theorem sample_steady (req req' resp fu : Packet) :
    Steady (fun _ => 0) (sampleEvents req req' resp fu) := by
  rw [Steady, show (sampleEvents req req' resp fu).filterMap reading = [(.inr (), sampleTime 9),
    (.inl (), sampleTime 10), (.inl (), sampleTime 11), (.inr (), sampleTime 21),
    (.inr (), sampleTime 22)] from rfl]
  decide

theorem sample_usedOnce (req req' resp fu : Packet) : UsedOnce () 1 (sampleEvents req req' resp fu) :=
  Nat.le_refl 1

theorem Run.offset_bounds_sample : ∃ (history : History Unit Unit)
    (s : Links.State (Parties Unit Unit) Packet) (r : FlowResult), sampleSite.Run history s ∧
      r.ret = true ∧ .host (.inr ((), .ret r)) ∈ history ∧ r.st.r1.exact - r.st.r2.exact ≤ 0 ∧
      0 ≤ r.st.r1.exact - r.st.t1.exact ∧ 0 ≤ r.st.t2.exact - r.st.t1.exact := by
  obtain ⟨req, req', resp, fu, r, s, hs, htrue, hnumber⟩ := sample_run
  obtain ⟨hback, hthere, hmixed, -⟩ := Run.offset_bounds hs sample_targets List.prefix_rfl htrue
    (sample_steady req req' resp fu) (by rw [hnumber]; exact sample_usedOnce req req' resp fu)
  exact ⟨_, s, r, hs, htrue, by simp, hback, hthere, hmixed⟩

end Site

/-! ## One reply to a request -/

def ServiceEvent.heard : ServiceEvent → Option Poll
  | .hear _ poll => some poll
  | .reply _ _ => none

def ServiceEvent.replied : ServiceEvent → Option Poll
  | .hear _ _ => none
  | .reply inp _ => some inp.poll

/-- A service answers its polls one by one. -/
theorem replied_prefix {type : Prot} {address : SockAddr} {useTxTwoSteps : Bool}
    {events : List ServiceEvent} {side : ServiceSide}
    (h : (serviceHost type address useTxTwoSteps).Local events side) :
    match side with
    | .listening _ => events.filterMap ServiceEvent.heard = events.filterMap ServiceEvent.replied
    | .answering _ poll =>
      events.filterMap ServiceEvent.heard = events.filterMap ServiceEvent.replied ++ [poll] := by
  induction h with
  | start h =>
    obtain ⟨contents, st, -, rfl⟩ := h
    rfl
  | step _ hstep ih =>
    cases hstep with
    | hear hdst =>
      dsimp only at ih ⊢
      rw [List.filterMap_append, List.filterMap_append, ih]
      simp [ServiceEvent.heard, ServiceEvent.replied]
    | reply =>
      dsimp only at ih ⊢
      rw [List.filterMap_append, List.filterMap_append, ih]
      simp [ServiceEvent.heard, ServiceEvent.replied]

/-- A poll that brings a Request Sync with this number from this address. -/
def Poll.asks (address : SockAddr) (sID : BitVec 16) : Poll → Bool
  | .ready (some d) _ => d.addr = address && Csptp.asks sID d.octets
  | _ => false

def Packet.asks (address : SockAddr) (sID : BitVec 16) (p : Packet) : Bool :=
  p.src = address && Csptp.asks sID p.octets

theorem Poll.asks_packets (address : SockAddr) (sID : BitVec 16) (dst : SockAddr) (poll : Poll) :
    (poll.packets dst).countP (Packet.asks address sID) = [poll].countP (Poll.asks address sID) := by
  rcases poll with _ | ⟨_ | d, now⟩
  · rfl
  · rfl
  · rw [Poll.packets, List.countP_singleton, List.countP_singleton, Packet.asks, Poll.asks]

namespace Site
variable {κ ι : Type} [DecidableEq κ] [DecidableEq ι] {site : Site κ ι} {history : History κ ι}
  {s : Links.State (Parties κ ι) Packet}

/-- A client asks no more often under a number than it makes calls under it, and nobody else asks from
its address. -/
theorem Run.asked_le (h : site.Run history s) (i : ι) (sID : BitVec 16) :
    ((history.filterMap Event.host?).flatMap site.hosts.gives).countP (Packet.asks (site.clientAddr i) sID) ≤
      (history.filterMap (ofClient i)).countP (ClientEvent.uses sID) := by
  have hgives : (history.filterMap Event.host?).flatMap site.hosts.gives =
      history.flatMap fun e => e.host?.toList.flatMap site.hosts.gives := by
    rw [List.filterMap_eq_flatMap_toList, List.flatMap_assoc]
  rw [hgives, List.filterMap_eq_flatMap_toList]
  apply Runs.countP_flatMap_le
  intro e he
  obtain ⟨past, later, hlater⟩ := List.append_of_mem he
  have hat : past ++ [e] <+: history := ⟨later, by rw [hlater]; simp⟩
  have hzero {ps : List Packet} {address : SockAddr} (hps : ∀ p ∈ ps, p.src = address)
      (hne : (site.clientAddr i).eq address = false) :
      ps.countP (Packet.asks (site.clientAddr i) sID) = 0 := by
    refine List.countP_eq_zero.mpr fun p hp => ?_
    rw [Packet.asks, hps p hp]
    intro hasks
    rw [Bool.and_eq_true, decide_eq_true_iff] at hasks
    rw [hasks.1, SockAddr.eq_self] at hne
    exact absurd hne (by simp)
  rcases e with (⟨k, e⟩ | ⟨j, e⟩) | p | p | p
  · cases e with
    | hear dst poll => exact Nat.zero_le _
    | reply inp sent =>
      obtain ⟨st, -, hsent, -⟩ := h.replied hat
      have hsrc : ∀ p ∈ sent, p.src = site.serviceAddr k := by
        intro p hp
        rw [hsent] at hp
        obtain ⟨d, -, rfl⟩ := List.mem_map.mp hp
        rfl
      refine (le_of_eq ?_).trans (Nat.zero_le _)
      exact (congrArg (List.countP _) (List.flatMap_singleton _ _)).trans
        (hzero hsrc (by rw [SockAddr.eq_comm]; exact site.apart k i))
  · cases e with
    | call n now netReqSync netFollowUp sent =>
      obtain ⟨contents, st₀, st, -, -, hprep, hsent⟩ := h.requested hat
      have hgiven : (Event.host? (.host (.inr (j, ClientEvent.call n now netReqSync netFollowUp sent)) :
          Event (PartyEvent κ ι) Packet)).toList.flatMap site.hosts.gives = sent :=
        List.flatMap_singleton _ _
      rw [hgiven]
      by_cases hj : j = i
      · subst hj
        have hasked := requests_ask hprep sID n ⟨now, netReqSync, netFollowUp, []⟩
        have hmap : Packet.asks (site.clientAddr j) sID ∘ (⟨site.clientAddr j, st.address, ·⟩) = asks sID := by
          funext octs
          simp [Packet.asks]
        rw [ofClient_eq_some.mpr rfl, Option.toList_some, List.countP_singleton, hsent, List.countP_map,
          hmap]
        simpa [ClientEvent.uses] using hasked
      · have hsrc : ∀ p ∈ sent, p.src = site.clientAddr j := by
          intro p hp
          rw [hsent] at hp
          obtain ⟨octs, -, rfl⟩ := List.mem_map.mp hp
          rfl
        have hne : (site.clientAddr i).eq (site.clientAddr j) = false := by
          by_contra heq
          exact hj (site.clients_apart i j (by simpa using heq)).symm
        rw [hzero hsrc hne]
        exact Nat.zero_le _
    | pass dst poll => exact Nat.zero_le _
    | ret r => exact Nat.zero_le _
  · exact Nat.zero_le _
  · exact Nat.zero_le _
  · exact Nat.zero_le _

/-- Without copies a service replies at most once to a number that is used once. -/
theorem Run.replied_once (h : site.Run history s) (hcopy : ∀ e ∈ history, e.isCopy = false) {i : ι}
    {sID : BitVec 16} (honce : UsedOnce i sID history) (k : κ) :
    ((history.filterMap (ofService k)).filterMap ServiceEvent.replied).countP
      (Poll.asks (site.clientAddr i) sID) ≤ 1 := by
  have hprefix : (history.filterMap (ofService k)).filterMap ServiceEvent.replied <+:
      (history.filterMap (ofService k)).filterMap ServiceEvent.heard := by
    have hlocal := replied_prefix (h.toOpen.service k)
    split at hlocal
    · rw [hlocal]
    · rw [hlocal]
      exact List.prefix_append _ _
  have hheard : ((history.filterMap (ofService k)).filterMap ServiceEvent.heard).countP
      (Poll.asks (site.clientAddr i) sID) ≤
        ((history.filterMap Event.host?).flatMap site.hosts.takes).countP
          (Packet.asks (site.clientAddr i) sID) := by
    rw [List.filterMap_filterMap, List.filterMap_eq_flatMap_toList, List.filterMap_eq_flatMap_toList,
      List.flatMap_assoc]
    apply Runs.countP_flatMap_le
    intro e _
    rcases e with (⟨k', e⟩ | ⟨i, e⟩) | p | p | p
    · by_cases hk : k' = k
      · subst hk
        rw [ofService_eq_some.mpr rfl]
        cases e with
        | hear dst poll =>
          refine le_of_le_of_eq ?_ (congrArg (List.countP _) (List.flatMap_singleton _ _)).symm
          exact (Poll.asks_packets _ _ dst poll).ge
        | reply inp sent => exact Nat.zero_le _
      · have hnone : ofService k (.host (.inl (k', e)) : Event (PartyEvent κ ι) Packet) = none := by
          simp [ofService, Event.host?, Hosts.own, hk]
        rw [hnone]
        exact Nat.zero_le _
    · exact Nat.zero_le _
    · exact Nat.zero_le _
    · exact Nat.zero_le _
    · exact Nat.zero_le _
  have hout : ∀ p, site.Stranger p → Packet.asks (site.clientAddr i) sID p = false := by
    intro p hp
    rw [Packet.asks, Bool.and_eq_false_iff]
    refine .inl (decide_eq_false fun heq => ?_)
    have hne := hp.2.1 i
    rw [heq, SockAddr.eq_self] at hne
    exact absurd hne (by simp)
  calc ((history.filterMap (ofService k)).filterMap ServiceEvent.replied).countP _
    _ ≤ ((history.filterMap (ofService k)).filterMap ServiceEvent.heard).countP _ :=
      hprefix.sublist.countP_le
    _ ≤ _ := hheard
    _ ≤ _ := Hosts.Run.takes_le h hcopy hout
    _ ≤ _ := h.asked_le i sID
    _ ≤ 1 := honce

/-- Without copies all trips under a number that is used once go through one reply. -/
theorem Run.one_reply (h : site.Run history s) (hcopy : ∀ e ∈ history, e.isCopy = false) {i : ι} {k : κ}
    {sID : BitVec 16} (honce : UsedOnce i sID history) {t1 rx tx arrival t1' rx' tx' arrival' : ClockReading}
    {trip trip' : History κ ι} (htrip : Trip i k sID t1 rx tx arrival trip) (hsub : trip.Sublist history)
    (htrip' : Trip i k sID t1' rx' tx' arrival' trip') (hsub' : trip'.Sublist history) : tx = tx' := by
  have hasked {t1 rx tx arrival : ClockReading} {trip : History κ ι}
      (ht : Trip i k sID t1 rx tx arrival trip) (hin : trip.Sublist history) :
      ∃ inp sent, ServiceEvent.reply inp sent ∈ history.filterMap (ofService k) ∧
        inp.poll.asks (site.clientAddr i) sID = true ∧ inp.now = tx := by
    obtain ⟨b1, b2, requests, request, inp, sent, hrequest, hcall, hreply, hpoll, hnow, hasks⟩ := ht.reply_mem
    refine ⟨inp, sent, List.mem_filterMap.mpr ⟨_, hin.subset hreply, ofService_eq_some.mpr rfl⟩, ?_, hnow⟩
    obtain ⟨past, later, hlater⟩ := List.append_of_mem (hin.subset hcall)
    obtain ⟨contents, st₀, st, -, -, -, hsent⟩ := h.requested
      (show past ++ [.host (.inr (i, .call sID t1 b1 b2 requests))] <+: history from
        ⟨later, by rw [hlater]; simp⟩)
    rw [hsent] at hrequest
    obtain ⟨octs, -, rfl⟩ := List.mem_map.mp hrequest
    rw [hpoll, Poll.asks, decide_eq_true rfl, hasks]
    rfl
  obtain ⟨inp, sent, hmem, hq, rfl⟩ := hasked htrip hsub
  obtain ⟨inp', sent', hmem', hq', rfl⟩ := hasked htrip' hsub'
  have hone : (history.filterMap (ofService k)).countP
      (fun e => (e.replied.map (Poll.asks (site.clientAddr i) sID)).getD false) ≤ 1 := by
    have hle := h.replied_once hcopy honce k
    rw [List.countP_filterMap] at hle
    exact hle
  have heq := eq_of_countP_le_one hone hmem hmem' hq hq'
  rw [(ServiceEvent.reply.inj heq).1]

/-- Without copies the time of sending lies behind that of the request's arrival, and the way back bounds
the offset through it too: the offset of four times is off by at most half of what the way took. -/
theorem Run.two_way_bounds (h : site.Run history s) (hcopy : ∀ e ∈ history, e.isCopy = false) {i : ι}
    {k : κ} (htarget : site.Targets i k) {past : History κ ι} {r : FlowResult}
    (hret : past ++ [.host (.inr (i, .ret r))] <+: history) (htrue : r.ret = true) {ahead : κ ⊕ ι → ℤ}
    (hsteady : Steady ahead past) (honce : UsedOnce i r.sequenceId past) :
    let offset := ahead (.inl k) - ahead (.inr i)
    let there := r.st.r1.exact - r.st.t1.exact
    let back := r.st.r2.exact - r.st.t2.exact
    r.st.r1.exact ≤ r.st.t2.exact ∧ -back ≤ offset ∧ offset ≤ there ∧
      |2 * offset - (there - back)| ≤ there + back := by
  intro offset there back
  have hpast : past <+: history := (List.prefix_append _ _).trans hret
  obtain ⟨s', hrun⟩ : ∃ s', site.Run past s' := by
    obtain ⟨t, -, hrun, -⟩ := Runs.Run.steps h past _ hret
    exact ⟨t, hrun⟩
  obtain ⟨now, netReqSync, netFollowUp, requests, hcall, ht1, ⟨t1, rx, tx, arrival, harrived, hr1, hr2⟩,
    t1', rx', tx', arrival', harrived', ht2⟩ := h.times_of_trips htarget hret htrue
  have hfirst := harrived.now_eq honce
  obtain ⟨front, pass, htrip, hsub, -⟩ := harrived
  obtain ⟨front', pass', htrip', hsub', -⟩ := harrived'
  have hsame : tx = tx' := hrun.one_reply (fun e he => hcopy e (hpast.subset he)) honce htrip hsub htrip' hsub'
  obtain ⟨hthere, hstay, hback⟩ := htrip.ordered hsub hsteady
  rw [hfirst] at hthere
  rw [← hsame] at ht2
  have e1 : r.st.t1.exact = now.exact := congrArg Timespec.exact ht1
  have e2 : r.st.r1.exact = rx.exact := congrArg Timespec.exact hr1
  have e3 : r.st.t2.exact = tx.exact := congrArg Timespec.exact ht2
  have e4 : r.st.r2.exact = arrival.exact := congrArg Timespec.exact hr2
  have hlow : -back ≤ offset := by omega
  have hhigh : offset ≤ there := by omega
  exact ⟨by omega, hlow, hhigh, abs_le.mpr ⟨by omega, by omega⟩⟩

theorem Run.two_way_bounds_sample : ∃ (history : History Unit Unit)
    (s : Links.State (Parties Unit Unit) Packet) (r : FlowResult), sampleSite.Run history s ∧
      r.ret = true ∧ .host (.inr ((), .ret r)) ∈ history ∧ r.st.r1.exact ≤ r.st.t2.exact ∧
      |2 * 0 - ((r.st.r1.exact - r.st.t1.exact) - (r.st.r2.exact - r.st.t2.exact))| ≤
        (r.st.r1.exact - r.st.t1.exact) + (r.st.r2.exact - r.st.t2.exact) := by
  obtain ⟨req, req', resp, fu, r, s, hs, htrue, hnumber⟩ := sample_run
  have hcopy : ∀ e ∈ sampleEvents req req' resp fu ++ [.host (.inr ((), .ret r))], e.isCopy = false :=
    fun e he => by
      simp only [sampleEvents, callEvents, List.cons_append, List.nil_append, List.mem_cons,
        List.not_mem_nil, or_false] at he
      rcases he with rfl | rfl | rfl | rfl | rfl | rfl <;> rfl
  obtain ⟨hstay, -, -, hbounds⟩ := Run.two_way_bounds hs hcopy sample_targets List.prefix_rfl htrue
    (sample_steady req req' resp fu) (by rw [hnumber]; exact sample_usedOnce req req' resp fu)
  exact ⟨_, s, r, hs, htrue, by simp, hstay, hbounds⟩

end Site

end Csptp

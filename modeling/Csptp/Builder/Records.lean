import Csptp.Wire.Layout

/-! # What the builder records

`_addTlv` computes the length of a TLV from what the caller has written behind the message. Nearly always
the record is that of a TLV in host order; `Misfit` are the two other kinds, which `cpu_to_net_tlv` refuses
later. -/
namespace Csptp
open Octets Octets.Prog
set_option autoImplicit false

/-- The octets of the record are those of a TLV in host order. -/
def HostTlv (m : Mem) (r : TlvRec) : Prop :=
  ∃ t : Tlv, t.id = r.id ∧ t.size = r.len ∧ Holds m r.tlv (t.octets .host)

/-- A name of 255 octets has the even length 256, which is zero in an octet; and an address may have
another length than its protocol says. -/
inductive Misfit (m : Mem) (r : TlvRec) : Prop
  | name (hid : r.id = .alternateTimeOffsetIndicator) (hlen : r.len = 20)
      (hname : (m (r.tlv + 19)).toNat = 255)
  | address (hid : r.id = .csptpStatus)
      (hproto : adderSize (Prot.ofCode (wordAt .host 16 m (r.tlv + 28))) ≠ 0)
      (hlen : r.len = 32 + adderSize (Prot.ofCode (wordAt .host 16 m (r.tlv + 28))))
      (haddr : (wordAt .host 16 m (r.tlv + 30)).toNat ≠
        adderSize (Prot.ofCode (wordAt .host 16 m (r.tlv + 28))))

section Frame
variable {m m' : Mem} {r : TlvRec}

theorem wordAt_congr {o : ByteOrder} {w p : ℕ} (h : ∀ a, p ≤ a → a < p + w / 8 → m' a = m a) :
    wordAt o w m' p = wordAt o w m p := by
  cases o <;> simp only [wordAt, netWord, region_congr h]

theorem HostTlv.congr (h : HostTlv m r) (hsame : ∀ a, r.tlv ≤ a → a < r.tlv + r.len → m' a = m a) :
    HostTlv m' r := by
  obtain ⟨t, hid, hsize, hholds⟩ := h
  refine ⟨t, hid, hsize, hholds.congr fun a ha hb => hsame a ha ?_⟩
  rwa [Tlv.octets_length, hsize] at hb

theorem Misfit.congr (h : Misfit m r) (hsame : ∀ a, r.tlv ≤ a → a < r.tlv + r.len → m' a = m a) :
    Misfit m' r := by
  cases h with
  | name hid hlen hname => exact .name hid hlen (by rw [hsame _ (by omega) (by omega), hname])
  | address hid hproto hlen haddr =>
    have hp : wordAt .host 16 m' (r.tlv + 28) = wordAt .host 16 m (r.tlv + 28) :=
      wordAt_congr fun a _ _ => hsame a (by omega) (by omega)
    have ha : wordAt .host 16 m' (r.tlv + 30) = wordAt .host 16 m (r.tlv + 30) :=
      wordAt_congr fun a _ _ => hsame a (by omega) (by omega)
    exact .address hid (by rwa [hp]) (by rwa [hp]) (by rwa [hp, ha])

end Frame

/-! ## Converting a record -/

theorem run_cpuToNetTlv_host {m : Mem} {r : TlvRec} (h : HostTlv m r) :
    ∃ t : Tlv, t.id = r.id ∧ t.size = r.len ∧ Holds m r.tlv (t.octets .host) ∧
      (cpuToNetTlv r.id r.tlv r.len).run m = (true, blit m r.tlv (t.zeroFill.octets .net)) := by
  obtain ⟨t, hid, hsize, hholds⟩ := h
  refine ⟨t, hid, hsize, hholds, ?_⟩
  rw [← hid, ← hsize]
  exact run_cpuToNetTlv hholds

theorem run_cpuToNetTlv_of_body {m m' : Mem} {id : TlvTypeId} {p len : ℕ}
    (h : (cpuToNetBody id p len (minTlvSize id)).run m = (false, m')) :
    (cpuToNetTlv id p len).run m = (false, m) ∨ (cpuToNetTlv id p len).run m = (false, m') := by
  simp only [cpuToNetTlv, run_ite, run_bind, run_load, run_pure, h, Bool.false_eq_true, if_false]
  split_ifs
  · exact .inl rfl
  · exact .inl rfl
  · exact .inr rfl

/-- A record that does not fit is refused; a zero may have been written far behind it. -/
theorem run_cpuToNetTlv_misfit {m : Mem} {r : TlvRec} (h : Misfit m r) :
    ∃ m', (cpuToNetTlv r.id r.tlv r.len).run m = (false, m') ∧ ∀ a, a ≠ r.tlv + 275 → m' a = m a := by
  cases h with
  | name hid hlen hname =>
    have hn : ofOctets 8 (region m (r.tlv + 19) (8 / 8)) = m (r.tlv + 19) := ofOctets_region_octet rfl
    have hbody : (cpuToNetBody r.id r.tlv r.len (minTlvSize r.id)).run m =
        (false, blit m (r.tlv + 275) (octets 0#8)) := by
      rw [hid, hlen]
      simp only [cpuToNetBody, cpuToNetAltTime, run_bind, run_load, hn, hname, run_ite, run_pure,
        run_store]
      rfl
    rcases run_cpuToNetTlv_of_body hbody with hrun | hrun
    · exact ⟨m, hrun, fun _ _ => rfl⟩
    · exact ⟨_, hrun, fun a ha => blit_of_not_mem (by rw [octets_length]; omega)⟩
  | address hid hproto hlen haddr =>
    have hbody : (cpuToNetBody r.id r.tlv r.len (minTlvSize r.id)).run m = (false, m) := by
      rw [hid]
      have hp : ofOctets 16 (region m (r.tlv + 28) (16 / 8)) = wordAt .host 16 m (r.tlv + 28) := rfl
      have ha : ofOctets 16 (region m (r.tlv + 30) (16 / 8)) = wordAt .host 16 m (r.tlv + 30) := rfl
      simp only [cpuToNetBody, cpuToNetStatus, run_bind, run_load, hp, ha, run_pure,
        Ne.symm haddr, ne_eq, not_false_eq_true, true_or, or_true, if_true]
    exact ⟨m, (run_cpuToNetTlv_of_body hbody).elim id id, fun _ _ => rfl⟩

theorem HostTlv.not_misfit {m : Mem} {r : TlvRec} (h : HostTlv m r) : ¬ Misfit m r := by
  intro hmisfit
  obtain ⟨t, -, -, -, hrun⟩ := run_cpuToNetTlv_host h
  obtain ⟨m', hfalse, -⟩ := run_cpuToNetTlv_misfit hmisfit
  exact absurd (congrArg Prod.fst (hrun.symm.trans hfalse)) (by simp)

/-- A record whose type does not lie in memory is refused at once. -/
theorem run_cpuToNetTlv_other {m : Mem} {r : TlvRec} (h : wordAt .host 16 m r.tlv ≠ r.id.code) :
    (cpuToNetTlv r.id r.tlv r.len).run m = (false, m) := by
  have hn : ofOctets 16 (region m r.tlv 2) = wordAt .host 16 m r.tlv := rfl
  simp only [cpuToNetTlv, run_bind, run_load, Nat.reduceDiv, hn, run_ite, run_pure, h, ne_eq,
    not_false_eq_true, true_or, if_true]
  split_ifs <;> rfl

/-! ## Recording a TLV -/

theorem run_addTlvExtra_mem (id : TlvTypeId) (h : ℕ) (m : Mem) : ((addTlvExtra id h).run m).2 = m := by
  cases id <;> simp [addTlvExtra]

theorem Prot.adderSize_le (p : Prot) : adderSize p ≤ 16 := by
  cases p <;> decide

theorem hostTlv_of_body {m : Mem} {h : ℕ} {t : Tlv}
    (hheader : Holds m h (inOrder .host t.id.code ++ inOrder .host (BitVec.ofNat 16 (t.size - 4))))
    (hbody : Holds m (h + 4) (t.body .host)) : HostTlv m ⟨h, t.size, t.id⟩ := by
  refine ⟨t, rfl, rfl, ?_⟩
  rw [Tlv.octets, holds_append, Tlv.header_length]
  exact ⟨hheader, hbody⟩

/-- What a call that adds a TLV leaves under its record. -/
structure Recorded (m : Mem) (r : TlvRec) : Prop where
  kind : HostTlv m r ∨ Misfit m r
  least : minTlvSize r.id ≤ r.len
  gt : tlvHdr < r.len
  le : r.len ≤ 48
  name : r.id = .alternateTimeOffsetIndicator → r.len ≤ 20 + maxTzLen
  notPad : r.id ≠ .pad

section AddTlv
variable {m m' : Mem} {h add : ℕ}

/-- The length of the name is rounded up in an octet, so that 255 counts as zero. -/
theorem recorded_altTime
    (hextra : ((addTlvExtra .alternateTimeOffsetIndicator h).run m).1 = some add)
    (hkeep : ∀ a, h + 4 ≤ a → m' a = m a)
    (hheader : Holds m' h (inOrder .host TlvTypeId.alternateTimeOffsetIndicator.code ++
      inOrder .host (BitVec.ofNat 16 (20 + add - 4)))) :
    Recorded m' ⟨h, 20 + add, .alternateTimeOffsetIndicator⟩ := by
  have hn : ofOctets 8 (region m (h + 19) 1) = m (h + 19) := ofOctets_region_octet rfl
  have hlt := (m (h + 19)).isLt
  simp only [addTlvExtra, run_bind, run_load, Nat.reduceDiv, hn, run_pure,
    makeEven_of_lt (show (m (h + 19)).toNat < 2 ^ 63 by omega)] at hextra
  split_ifs at hextra with hlong
  obtain rfl := Option.some.inj hextra
  rw [maxTzLen] at hlong
  refine ⟨?_, Nat.le_add_right _ _, ?_, ?_, fun _ => ?_, by simp⟩
  · by_cases hname : (m (h + 19)).toNat = 255
    · have hoctet : (m' (h + 19)).toNat = 255 := by rw [hkeep _ (by omega), hname]
      refine .inr (.name rfl ?_ hoctet)
      rw [hname]
      rfl
    · obtain ⟨t, hlen, hbody⟩ := exists_altTime_any .host m' h
      rw [hkeep _ (by omega)] at hlen
      have hsize : (Tlv.altTime t).size =
          20 + ((m (h + 19)).toNat + (m (h + 19)).toNat % 2) % 2 ^ 8 := by
        simp only [Tlv.size, altTimeSize, hlen]
        omega
      rw [← hsize] at hheader ⊢
      exact .inl (hostTlv_of_body (t := .altTime t) hheader hbody)
  all_goals
    simp only [tlvHdr, maxTzLen]
    omega

/-- The length of the address is taken from its protocol alone. -/
theorem recorded_status (hextra : ((addTlvExtra .csptpStatus h).run m).1 = some add)
    (hkeep : ∀ a, h + 4 ≤ a → m' a = m a)
    (hheader : Holds m' h (inOrder .host TlvTypeId.csptpStatus.code ++
      inOrder .host (BitVec.ofNat 16 (32 + add - 4)))) :
    Recorded m' ⟨h, 32 + add, .csptpStatus⟩ := by
  have hp : wordAt .host 16 m' (h + 28) = wordAt .host 16 m (h + 28) :=
    wordAt_congr fun a _ _ => hkeep a (by omega)
  have hn : ofOctets 16 (region m (h + 28) 2) = wordAt .host 16 m (h + 28) := rfl
  simp only [addTlvExtra, run_bind, run_load, Nat.reduceDiv, hn, run_pure] at hextra
  split_ifs at hextra with hproto
  obtain rfl := Option.some.inj hextra
  rw [← hp] at hproto hheader ⊢
  have hadder := Prot.adderSize_le (.ofCode (wordAt .host 16 m' (h + 28)))
  refine ⟨?_, Nat.le_add_right _ _, ?_, ?_, fun hid => absurd hid (by simp), by simp⟩
  · by_cases haddr : (wordAt .host 16 m' (h + 30)).toNat =
      adderSize (Prot.ofCode (wordAt .host 16 m' (h + 28)))
    · obtain ⟨t, hsize, hbody⟩ := exists_status_any (o := .host) hproto haddr
      rw [← hsize] at hheader ⊢
      exact .inl (hostTlv_of_body (t := .status t) hheader hbody)
    · exact .inr (.address rfl hproto rfl haddr)
  all_goals
    simp only [tlvHdr]
    omega

/-- Whatever the caller has written: what `_addTlv` accepts is a TLV or a misfit. -/
theorem recorded_addTlv {id : TlvTypeId} (hextra : ((addTlvExtra id h).run m).1 = some add)
    (hkeep : ∀ a, h + 4 ≤ a → m' a = m a)
    (hheader : Holds m' h (inOrder .host id.code ++
      inOrder .host (BitVec.ofNat 16 (minTlvSize id + add - 4)))) :
    Recorded m' ⟨h, minTlvSize id + add, id⟩ := by
  cases id with
  | alternateTimeOffsetIndicator => exact recorded_altTime hextra hkeep hheader
  | csptpStatus => exact recorded_status hextra hkeep hheader
  | csptpResponse =>
    obtain rfl : 0 = add := Option.some.inj hextra
    obtain ⟨t, hbody⟩ := exists_response_any .host m' h
    exact ⟨.inl (hostTlv_of_body (t := .response t) hheader hbody), le_rfl,
      show tlvHdr < 28 by decide, show 28 ≤ 48 by decide, fun hid => absurd hid (by simp), by simp⟩
  | csptpRequest | pad | invalidTlvId => simp [addTlvExtra] at hextra

end AddTlv

theorem recorded_addCSPTPReqTlv (m : Mem) (h : ℕ) (flags : Octet) :
    Recorded ((storeRequest h flags).run m).2 ⟨h, csptpReq, .csptpRequest⟩ := by
  rw [run_storeRequest]
  exact ⟨.inl ⟨_, rfl, rfl, holds_blit _ _ _⟩, le_rfl, show tlvHdr < csptpReq by decide,
    show csptpReq ≤ 48 by decide, fun hid => absurd hid (by simp), by simp⟩

/-! ## The conversion loop -/

/-- Every record is that of a TLV in host order, or a misfit. -/
def Kinds (m : Mem) (rs : List TlvRec) : Prop := ∀ r ∈ rs, HostTlv m r ∨ Misfit m r

theorem Kinds.congr {m m' : Mem} {rs : List TlvRec} {a b : ℕ} (h : Kinds m rs) (ht : Tiles rs a b)
    (hsame : ∀ x, a ≤ x → x < b → m' x = m x) : Kinds m' rs := by
  intro r hr
  obtain ⟨hlo, hhi, -⟩ := ht.mem hr
  have hin (x : ℕ) (hx : r.tlv ≤ x) (hx' : x < r.tlv + r.len) : m' x = m x :=
    hsame x (by omega) (by omega)
  exact (h r hr).imp (·.congr hin) (·.congr hin)

theorem HostTlv.four_le {m : Mem} {r : TlvRec} (h : HostTlv m r) : 4 ≤ r.len := by
  obtain ⟨t, -, hsize, -⟩ := h
  rw [← hsize]
  exact t.four_le_size

/-- The loop changes nothing in front of the records, and converts them all exactly when they all are
TLVs. -/
theorem cpuToNetTlvs_spec {m : Mem} {rs : List TlvRec} {a b : ℕ} (ht : Tiles rs a b)
    (hk : Kinds m rs) :
    (((cpuToNetTlvs rs).run m).1 = true ↔ ∀ r ∈ rs, HostTlv m r) ∧
      ∀ x, x < a → ((cpuToNetTlvs rs).run m).2 x = m x := by
  induction rs generalizing m a with
  | nil => exact ⟨⟨fun _ r hr => absurd hr List.not_mem_nil, fun _ => rfl⟩, fun _ _ => rfl⟩
  | cons r rs ih =>
    obtain ⟨rfl, -, hrest⟩ := ht
    rw [cpuToNetTlvs, run_bind, List.forall_mem_cons]
    rcases hk r List.mem_cons_self with hhost | hmisfit
    · obtain ⟨t, -, hsize, -, hrun⟩ := run_cpuToNetTlv_host hhost
      have hlen : (t.zeroFill.octets .net).length = r.len := by
        rw [Tlv.octets_length, Tlv.zeroFill_size, hsize]
      have hframe (x : ℕ) (hx : x < r.tlv ∨ r.tlv + r.len ≤ x) :
          blit m r.tlv (t.zeroFill.octets .net) x = m x := blit_of_not_mem (by omega)
      have hk' : Kinds m rs := fun x hx => hk x (List.mem_cons_of_mem _ hx)
      have hback : ∀ x, r.tlv + r.len ≤ x → x < b → m x = blit m r.tlv (t.zeroFill.octets .net) x :=
        fun x hx _ => (hframe x (.inr hx)).symm
      obtain ⟨htrue, hbelow⟩ := ih hrest (hk'.congr hrest fun x hx _ => hframe x (.inr hx))
      rw [hrun, if_pos rfl, htrue]
      refine ⟨?_, fun x hx => (hbelow x (by omega)).trans (hframe x (.inl hx))⟩
      rw [and_iff_right hhost]
      refine forall₂_congr fun y hy => ?_
      obtain ⟨hlo, hhi, -⟩ := hrest.mem hy
      exact ⟨fun h => h.congr fun x _ _ => hback x (by omega) (by omega),
        fun h => h.congr fun x _ _ => hframe x (.inr (by omega))⟩
    · obtain ⟨m', hrun, hframe⟩ := run_cpuToNetTlv_misfit hmisfit
      rw [hrun, if_neg (by simp)]
      exact ⟨⟨fun h => absurd h (by simp), fun h => absurd hmisfit h.1.not_misfit⟩,
        fun x hx => hframe x (by omega)⟩

/-- What is behind a TLV does not undo its conversion. -/
theorem cpuToNetTlvs_host {m : Mem} {r : TlvRec} {rs : List TlvRec} {a b : ℕ} (ht : Tiles (r :: rs) a b)
    (hk : Kinds m (r :: rs)) (h : HostTlv m r) :
    Holds ((cpuToNetTlvs (r :: rs)).run m).2 r.tlv (inOrder .net r.id.code) := by
  obtain ⟨t, hid, hsize, -, hrun⟩ := run_cpuToNetTlv_host h
  obtain ⟨rfl, -, hrest⟩ := ht
  have hfour := h.four_le
  have hk' : Kinds (blit m r.tlv (t.zeroFill.octets .net)) rs := by
    refine Kinds.congr (fun x hx => hk x (List.mem_cons_of_mem _ hx)) hrest fun x hx _ => ?_
    exact blit_of_not_mem (.inr (by rw [Tlv.octets_length, Tlv.zeroFill_size, hsize]; omega))
  have hnet : Holds (blit m r.tlv (t.zeroFill.octets .net)) r.tlv (inOrder .net r.id.code) := by
    rw [← hid, ← t.zeroFill_id]
    exact (holds_header (holds_blit m r.tlv (t.zeroFill.octets .net))).1
  rw [cpuToNetTlvs, run_bind, hrun, if_pos rfl]
  refine hnet.congr fun x _ hx => (cpuToNetTlvs_spec hrest hk').2 x ?_
  rw [inOrder_length] at hx
  omega

theorem cpuToNetTlvs_misfit {m : Mem} {r : TlvRec} (rs : List TlvRec) (h : Misfit m r) {x : ℕ}
    (hx : x ≠ r.tlv + 275) : ((cpuToNetTlvs (r :: rs)).run m).2 x = m x := by
  obtain ⟨m', hrun, hframe⟩ := run_cpuToNetTlv_misfit h
  rw [cpuToNetTlvs, run_bind, hrun, if_neg (by simp)]
  exact hframe x hx

/-- When all are TLVs, their values lie one behind the other. -/
theorem exists_tlvs {m : Mem} {rs : List TlvRec} {a b : ℕ} (ht : Tiles rs a b)
    (h : ∀ r ∈ rs, HostTlv m r) :
    ∃ ts, rs = records a ts ∧ b = a + tlvsSize ts ∧ Holds m a (tlvsOctets .host ts) := by
  induction rs generalizing a with
  | nil => exact ⟨[], rfl, ht.symm, rfl⟩
  | cons r rs ih =>
    obtain ⟨rfl, -, hrest⟩ := ht
    obtain ⟨t, hid, hsize, hholds⟩ := h r List.mem_cons_self
    obtain ⟨ts, hrs, hb, hts⟩ := ih hrest fun x hx => h x (List.mem_cons_of_mem _ hx)
    refine ⟨t :: ts, ?_, ?_, ?_⟩
    · rw [records, hid, hsize, ← hrs]
    · rw [tlvsSize_cons, hb, hsize, Nat.add_assoc]
    · rw [tlvsOctets_cons, holds_append, Tlv.octets_length, hsize]
      exact ⟨hholds, hts⟩

end Csptp

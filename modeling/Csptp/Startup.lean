import Csptp.Client.Main
import Mathlib.Data.List.Perm.Basic
import Mathlib.Data.List.Nodup

/-! # Start-up (`main_client.c`, `main_service.c`)

`allocObjs` fills the pointers of a state one by one and stops at the first failure. What a state holds
before is left open, and an object is what one call of a constructor gave. -/
namespace Csptp.Startup
open Octets
set_option autoImplicit false

/-! ## Pointers and objects -/

/-- A pointer that is not null: from before the call, or to the n-th object that the call made. -/
inductive Obj
  | prior (n : ℕ)
  | made (n : ℕ)
deriving DecidableEq

/-- The pointers of a state, and how many objects were made. -/
structure Start (ι : Type) where
  objs : ι → Option Obj
  made : ℕ

/-- What a constructor returns, when so many objects were made, and the objects that it freed itself. -/
structure Made where
  ptr : Option Obj
  made : ℕ
  freed : List Obj

/-- A constructor that needs memory for one object. -/
def make (memory : Bool) (n : ℕ) : Made := if memory then ⟨some (.made n), n + 1, []⟩ else ⟨none, n, []⟩

/-- An object is made, and freed again when it can not be used. -/
def makeReady (memory ready : Bool) (n : ℕ) : Made :=
  if memory then
    if ready then ⟨some (.made n), n + 1, []⟩ else ⟨none, n + 1, [.made n]⟩
  else ⟨none, n, []⟩

section Macros
variable {ι : Type} [DecidableEq ι]

/-- `INIT(a)` -/
def init (a : ι) : Attempt (Start ι) Obj := Attempt.call fun st =>
  (true, { st with objs := Function.update st.objs a none })

/-- `ALLOC(a, f)` -/
def alloc (a : ι) (f : ℕ → Made) : Attempt (Start ι) Obj := fun st =>
  let r := f st.made
  (r.ptr.isSome, { objs := Function.update st.objs a r.ptr, made := r.made }, r.freed)

omit [DecidableEq ι] in
/-- `FREE(a)`: the method of the object that the pointer points to frees it. -/
def free (a : ι) (st : Start ι) : List Obj := (st.objs a).toList

end Macros

/-! ## The client -/

inductive ClientObj
  | address
  | rxAddress
  | socket
  | message
  | buffer
  | tmpTs
  | t1
  | r1
  | t2
  | r2
deriving DecidableEq

/-- What the system answers: whether there is memory for each object, what a name resolves to, and whether
an address and a socket can be used. -/
structure ClientSystem where
  memory : ClientObj → Bool
  resolve : List Octet → Prot → Option (Prot × OctetArray 16)
  setIP : Bool
  socketInit : Bool

/-- `client_main_create_address`, with its object. -/
def clientCreateAddress (sys : ClientSystem) (opt : ClientOpt) (n : ℕ) : Made :=
  match Csptp.clientCreateAddress sys.resolve opt with
  | none => ⟨none, n, []⟩
  | some _ => makeReady (sys.memory .address) sys.setIP n

/-- The type that `client_main_create_address` stores. -/
def clientType (sys : ClientSystem) (opt : ClientOpt) : Prot :=
  ((opt.ip.bind fun ip => sys.resolve ip opt.type).map Prod.fst).getD opt.type

def clientAllocObjs (sys : ClientSystem) (opt : ClientOpt) : Attempt (Start ClientObj) Obj :=
  let type := clientType sys opt
  let size := clientGetMsgSize opt type
  (init .socket).andThen <| (init .message).andThen <| (init .buffer).andThen <|
  (init .tmpTs).andThen <| (init .t1).andThen <| (init .r1).andThen <| (init .t2).andThen <|
  (init .r2).andThen <|
  (alloc .address (clientCreateAddress sys opt)).andThen <|
  (alloc .rxAddress (make ((addrAlloc type).isSome && sys.memory .rxAddress))).andThen <|
  (alloc .socket (makeReady (sys.memory .socket) sys.socketInit)).andThen <|
  (alloc .message (make (sys.memory .message))).andThen <|
  (Attempt.call fun st => (decide (size ≠ 0), st)).andThen <|
  (alloc .buffer (make (decide (clientSmoothSize size ≠ 0) && sys.memory .buffer))).andThen <|
  (alloc .tmpTs (make (sys.memory .tmpTs))).andThen <|
  (alloc .t1 (make (sys.memory .t1))).andThen <|
  (alloc .r1 (make (sys.memory .r1))).andThen <|
  (alloc .t2 (make (sys.memory .t2))).andThen <|
  alloc .r2 (make (sys.memory .r2))

/-- The objects that `client_main_clean` frees, in this order. -/
def clientClean (st : Start ClientObj) : List Obj :=
  free .address st ++ free .rxAddress st ++ free .socket st ++ free .message st ++ free .buffer st ++
    free .tmpTs st ++ free .t1 st ++ free .r1 st ++ free .t2 st ++ free .r2 st

/-! ## The service -/

inductive ServiceObj
  | address
  | socket
  | message
  | rxTs
  | t2
  | buffer
deriving DecidableEq

structure ServiceSystem where
  memory : ServiceObj → Bool
  socketInit : Bool

/-- What `service_main_allocObjs` reads of its options. -/
structure ServiceOpt where
  useRxTwoSteps : Bool
  type : Prot

def serviceAllocObjs (sys : ServiceSystem) (opt : ServiceOpt) : Attempt (Start ServiceObj) Obj :=
  (init .address).andThen <| (init .socket).andThen <| (init .message).andThen <|
  (init .rxTs).andThen <| (init .t2).andThen <| (init .buffer).andThen <|
  (Attempt.call fun st => (!(opt.useRxTwoSteps && !opt.useRxTwoSteps), st)).andThen <|
  (alloc .address (make ((addrAlloc opt.type).isSome && sys.memory .address))).andThen <|
  (alloc .socket (makeReady (sys.memory .socket) sys.socketInit)).andThen <|
  (alloc .message (make (sys.memory .message))).andThen <|
  (alloc .rxTs (make (sys.memory .rxTs))).andThen <|
  (alloc .t2 (make (sys.memory .t2))).andThen <|
  alloc .buffer (make (sys.memory .buffer))

/-- The objects that `service_main_clean` frees, in this order. -/
def serviceClean (st : Start ServiceObj) : List Obj :=
  free .address st ++ free .socket st ++ free .message st ++ free .rxTs st ++ free .t2 st ++
    free .buffer st

/-! ## Every object is freed once -/

/-- The objects that were made. -/
def objects (n : ℕ) : List Obj := (List.range n).map .made

/-- All objects that were made are freed once, by the call itself or by the clean function behind it, and
no pointer from before the call is followed. -/
def CleansUp {ι : Type} (clean : Start ι → List Obj) (r : Bool × Start ι × List Obj) : Prop :=
  (r.2.2 ++ clean r.2.1).Perm (objects r.2.1.made)

/-- A constructor frees what it makes, or returns it. -/
def Fair (f : ℕ → Made) : Prop := ∀ n, ((f n).freed ++ (f n).ptr.toList ++ objects n).Perm (objects (f n).made)

theorem objects_succ (n : ℕ) : ([Obj.made n] ++ objects n).Perm (objects (n + 1)) := by
  rw [objects, objects, List.range_succ, List.map_append]
  exact List.perm_append_comm

theorem fair_make (memory : Bool) : Fair (make memory) := by
  intro n
  cases memory with
  | false => exact .refl _
  | true => exact objects_succ n

theorem fair_makeReady (memory ready : Bool) : Fair (makeReady memory ready) := by
  intro n
  cases memory with
  | false => exact .refl _
  | true => cases ready <;> exact objects_succ n

theorem fair_clientCreateAddress (sys : ClientSystem) (opt : ClientOpt) :
    Fair (clientCreateAddress sys opt) := by
  intro n
  rw [clientCreateAddress]
  split
  · exact .refl _
  · exact fair_makeReady _ _ n

section Chain
variable {ι : Type} [DecidableEq ι] {fields pending : List ι} {rest : Attempt (Start ι) Obj}
  {f : ℕ → Made} {a : ι}

omit [DecidableEq ι] in
/-- What a clean function with these fields frees. -/
def cleanAll (fields : List ι) (st : Start ι) : List Obj := fields.flatMap fun a => free a st

/-- So far every object is freed or held, and the pending fields are null. -/
structure Holds (fields pending : List ι) (st : Start ι) (freed : List Obj) : Prop where
  objects : (freed ++ cleanAll fields st).Perm (objects st.made)
  null : ∀ a ∈ pending, st.objs a = none

/-- From a state that holds its objects, the chain and the clean function free them all. -/
def Safe (fields pending : List ι) (rest : Attempt (Start ι) Obj) : Prop :=
  ∀ st freed, Holds fields pending st freed →
    (freed ++ ((rest st).2.2 ++ cleanAll fields (rest st).2.1)).Perm (objects (rest st).2.1.made)

/-- A pointer that was null is freed when it no longer is. -/
theorem cleanAll_update {st : Start ι} (hfields : fields.Nodup) (ha : a ∈ fields)
    (hnull : st.objs a = none) (p : Option Obj) (n : ℕ) :
    (cleanAll fields ⟨Function.update st.objs a p, n⟩).Perm (p.toList ++ cleanAll fields st) := by
  induction fields with
  | nil => exact absurd ha List.not_mem_nil
  | cons b fields ih =>
    obtain ⟨hb, hfields⟩ := List.nodup_cons.mp hfields
    simp only [cleanAll, List.flatMap_cons, free] at ih ⊢
    by_cases hab : b = a
    · subst hab
      have hsame : (fields.flatMap fun c => (Function.update st.objs b p c).toList) =
          fields.flatMap fun c => (st.objs c).toList := by
        refine List.flatMap_congr fun c hc => ?_
        rw [Function.update_of_ne]
        rintro rfl
        exact hb hc
      rw [Function.update_self, hnull, hsame]
      exact .refl _
    · have ha : a ∈ fields := (List.mem_cons.mp ha).resolve_left (Ne.symm hab)
      rw [Function.update_of_ne hab]
      refine ((ih hfields ha).append_left _).trans ?_
      rw [← List.append_assoc, ← List.append_assoc]
      exact List.perm_append_comm.append_right _

/-- One `ALLOC` of a pending field. -/
theorem holds_alloc {st : Start ι} {freed : List Obj} (hfields : fields.Nodup) (ha : a ∈ fields)
    (hpending : a ∉ pending) (hf : Fair f) (h : Holds fields (a :: pending) st freed) :
    Holds fields pending (alloc a f st).2.1 (freed ++ (alloc a f st).2.2) := by
  have hnull := h.null a List.mem_cons_self
  refine ⟨?_, fun b hb => ?_⟩
  · have hclean := cleanAll_update hfields ha hnull (f st.made).ptr (f st.made).made
    have hmid : (freed ++ (f st.made).freed ++ ((f st.made).ptr.toList ++ cleanAll fields st)).Perm
        ((f st.made).freed ++ (f st.made).ptr.toList ++ (freed ++ cleanAll fields st)) := by
      simp only [List.append_assoc]
      refine (List.perm_append_comm_assoc _ _ _).trans (.append_left _ ?_)
      exact List.perm_append_comm_assoc _ _ _
    exact ((hclean.append_left _).trans hmid).trans ((h.objects.append_left _).trans (hf st.made))
  · have hne : b ≠ a := by
      rintro rfl
      exact hpending hb
    exact (Function.update_of_ne hne _ _).trans (h.null b (List.mem_cons_of_mem _ hb))

theorem safe_alloc (hfields : fields.Nodup) (ha : a ∈ fields) (hpending : a ∉ pending) (hf : Fair f)
    (hrest : Safe fields pending rest) : Safe fields (a :: pending) ((alloc a f).andThen rest) := by
  intro st freed h
  have hnext := holds_alloc hfields ha hpending hf h
  rw [Attempt.andThen]
  split
  · have hrest := hrest _ _ hnext
    simpa only [List.append_assoc] using hrest
  · simpa only [List.append_assoc] using hnext.objects

/-- The last `ALLOC`. -/
theorem safe_last (hfields : fields.Nodup) (ha : a ∈ fields) (hf : Fair f) :
    Safe fields [a] (alloc a f) := by
  intro st freed h
  have hlast := (holds_alloc hfields ha List.not_mem_nil hf h).objects
  rwa [List.append_assoc] at hlast

omit [DecidableEq ι] in
/-- A check that leaves the state alone. -/
theorem safe_check {c : Start ι → Bool} (hrest : Safe fields pending rest) :
    Safe fields pending ((Attempt.call fun st => (c st, st)).andThen rest) := by
  intro st freed h
  rw [Attempt.andThen]
  split
  · exact hrest st freed h
  · exact h.objects

theorem init_then (a : ι) (rest : Attempt (Start ι) Obj) (st : Start ι) :
    (init a).andThen rest st = rest { st with objs := Function.update st.objs a none } := by
  simp [Attempt.andThen, init, Attempt.call]

theorem alloc_objs (st : Start ι) : (alloc a f st).2.1.objs = Function.update st.objs a (f st.made).ptr := rfl

/-- `ALLOC` forgets what the pointer was before. -/
theorem alloc_forget (st : Start ι) (p : Option Obj) :
    alloc a f { st with objs := Function.update st.objs a p } = alloc a f st := by
  simp [alloc]

theorem alloc_then_forget (st : Start ι) (p : Option Obj) :
    (alloc a f).andThen rest { st with objs := Function.update st.objs a p } =
      (alloc a f).andThen rest st := by
  rw [Attempt.andThen, Attempt.andThen, alloc_forget]

theorem alloc_then_of_some {st : Start ι} {o : Obj} (h : (f st.made).ptr = some o) :
    ((alloc a f).andThen rest st).2.1 = (rest (alloc a f st).2.1).2.1 ∧
      ((alloc a f).andThen rest st).2.2 = (f st.made).freed ++ (rest (alloc a f st).2.1).2.2 := by
  have hok : (alloc a f st).1 = true := by rw [alloc, h]; rfl
  rw [Attempt.andThen, if_pos hok]
  exact ⟨rfl, rfl⟩

theorem alloc_then_of_none {st : Start ι} (h : (f st.made).ptr = none) :
    (alloc a f).andThen rest st = alloc a f st :=
  Attempt.andThen_of_false (by rw [alloc, h]; rfl)

end Chain

/-! ## Both sides -/

/-- A state with any pointers, and nothing made yet. -/
def Start.before {ι : Type} (prior : ι → Option ℕ) : Start ι := ⟨fun a => (prior a).map .prior, 0⟩

def clientFields : List ClientObj :=
  [.address, .rxAddress, .socket, .message, .buffer, .tmpTs, .t1, .r1, .t2, .r2]

def serviceFields : List ServiceObj := [.address, .socket, .message, .rxTs, .t2, .buffer]

theorem clientClean_eq (st : Start ClientObj) : clientClean st = cleanAll clientFields st := by
  simp [clientClean, cleanAll, clientFields]

theorem serviceClean_eq (st : Start ServiceObj) : serviceClean st = cleanAll serviceFields st := by
  simp [serviceClean, cleanAll, serviceFields]

theorem holds_null {ι : Type} (fields : List ι) : Holds fields fields ⟨fun _ => none, 0⟩ [] := by
  refine ⟨?_, fun _ _ => rfl⟩
  have hnil : cleanAll fields ⟨fun _ => none, 0⟩ = [] := List.flatMap_eq_nil_iff.mpr fun _ _ => rfl
  rw [hnil]
  exact .refl _

/-- The service initialises all its pointers. -/
theorem service_cleansUp (sys : ServiceSystem) (opt : ServiceOpt) (prior : ServiceObj → Option ℕ) :
    CleansUp serviceClean (serviceAllocObjs sys opt (.before prior)) := by
  have hfields : serviceFields.Nodup := by decide
  rw [CleansUp, serviceClean_eq, serviceAllocObjs]
  simp only [init_then]
  rw [show (⟨_, _⟩ : Start ServiceObj) = ⟨fun _ => none, 0⟩ by
    rw [Start.mk.injEq]
    refine ⟨funext fun a => ?_, rfl⟩
    cases a <;> rfl]
  refine safe_check ?_ _ [] (holds_null serviceFields)
  refine safe_alloc hfields (by decide) (by decide) (fair_make _) ?_
  refine safe_alloc hfields (by decide) (by decide) (fair_makeReady _ _) ?_
  refine safe_alloc hfields (by decide) (by decide) (fair_make _) ?_
  refine safe_alloc hfields (by decide) (by decide) (fair_make _) ?_
  refine safe_alloc hfields (by decide) (by decide) (fair_make _) ?_
  exact safe_last hfields (by decide) (fair_make _)

/-- The client can make its address: its domain and the name of its server are good, and the system gives
what is needed. -/
structure AddressMade (sys : ClientSystem) (opt : ClientOpt) : Prop where
  domain : 128 ≤ opt.domainNumber.toNat ∧ opt.domainNumber.toNat ≤ 239
  resolves : ∃ ip t bin, opt.ip = some ip ∧ sys.resolve ip opt.type = some (t, bin) ∧ t ≠ .invalidProto
  memory : sys.memory .address = true
  setIP : sys.setIP = true

theorem addressMade_iff (sys : ClientSystem) (opt : ClientOpt) :
    AddressMade sys opt ↔ (clientCreateAddress sys opt 0).ptr.isSome := by
  have hdomain : ¬ (opt.domainNumber < 128 ∨ opt.domainNumber > 239) ↔
      128 ≤ opt.domainNumber.toNat ∧ opt.domainNumber.toNat ≤ 239 := by
    rw [gt_iff_lt, BitVec.lt_def, BitVec.lt_def]
    simp
  have hready (b : Bool) (m n : ℕ) : (makeReady b (sys.setIP) n).ptr.isSome ↔ b = true ∧ sys.setIP = true := by
    cases b <;> cases sys.setIP <;> simp [makeReady]
  have haddr (t : Prot) : t ≠ .invalidProto ↔ (addrAlloc t).isSome := by cases t <;> simp [addrAlloc]
  rw [clientCreateAddress, Csptp.clientCreateAddress]
  constructor
  · rintro ⟨hd, ⟨ip, t, bin, hip, hres, ht⟩, hm, hs⟩
    obtain ⟨a, ha⟩ := Option.isSome_iff_exists.mp ((haddr t).mp ht)
    rw [if_neg (hdomain.mpr hd), hip]
    dsimp only
    rw [hres, Option.bind_some, ha]
    exact (hready _ 0 0).mpr ⟨hm, hs⟩
  · intro h
    by_cases hd : opt.domainNumber < 128 ∨ opt.domainNumber > 239
    · rw [if_pos hd] at h
      cases h
    · rw [if_neg hd] at h
      cases hip : opt.ip with
      | none =>
        rw [hip] at h
        cases h
      | some ip =>
        rw [hip] at h
        dsimp only at h
        cases hres : sys.resolve ip opt.type with
        | none =>
          rw [hres] at h
          cases h
        | some r =>
          obtain ⟨t, bin⟩ := r
          rw [hres, Option.bind_some] at h
          cases ha : addrAlloc t with
          | none =>
            rw [ha] at h
            cases h
          | some a =>
            rw [ha] at h
            obtain ⟨hm, hs⟩ := (hready _ 0 0).mp h
            exact ⟨hdomain.mp hd, ⟨ip, t, bin, hip, hres, (haddr t).mpr (by rw [ha]; rfl)⟩, hm, hs⟩

/-- From `RxAddress` on, the chain of the client frees its objects. -/
theorem client_safe (sys : ClientSystem) (opt : ClientOpt) : ∃ g rest,
    clientAllocObjs sys opt = ((init .socket).andThen <| (init .message).andThen <| (init .buffer).andThen <|
      (init .tmpTs).andThen <| (init .t1).andThen <| (init .r1).andThen <| (init .t2).andThen <|
      (init .r2).andThen <| (alloc .address (clientCreateAddress sys opt)).andThen <|
      (alloc .rxAddress g).andThen rest) ∧
    Safe clientFields clientFields.tail ((alloc .rxAddress g).andThen rest) := by
  have hfields : clientFields.Nodup := by decide
  refine ⟨_, _, rfl, ?_⟩
  refine safe_alloc hfields (by decide) (by decide) (fair_make _) ?_
  refine safe_alloc hfields (by decide) (by decide) (fair_makeReady _ _) ?_
  refine safe_alloc hfields (by decide) (by decide) (fair_make _) ?_
  refine safe_check ?_
  refine safe_alloc hfields (by decide) (by decide) (fair_make _) ?_
  refine safe_alloc hfields (by decide) (by decide) (fair_make _) ?_
  refine safe_alloc hfields (by decide) (by decide) (fair_make _) ?_
  refine safe_alloc hfields (by decide) (by decide) (fair_make _) ?_
  refine safe_alloc hfields (by decide) (by decide) (fair_make _) ?_
  exact safe_last hfields (by decide) (fair_make _)

/-- The client does not initialise the pointer to the address of received messages. -/
theorem client_cleansUp_iff (sys : ClientSystem) (opt : ClientOpt) (prior : ClientObj → Option ℕ) :
    CleansUp clientClean (clientAllocObjs sys opt (.before prior)) ↔
      AddressMade sys opt ∨ prior .rxAddress = none := by
  have hfields : clientFields.Nodup := by decide
  obtain ⟨g, rest, hchain, hsafe⟩ := client_safe sys opt
  rw [CleansUp, clientClean_eq, addressMade_iff, hchain]
  simp only [init_then]
  -- Where the call makes its first object, two pointers are what they were before.
  generalize hst : (⟨_, _⟩ : Start ClientObj) = st
  have hrx : st.objs .rxAddress = (prior .rxAddress).map .prior := by rw [← hst]; rfl
  have hothers : ∀ a, a ≠ .address → a ≠ .rxAddress → st.objs a = none := by
    intro a haddr hrx
    rw [← hst]
    cases a <;> first | rfl | exact absurd rfl haddr | exact absurd rfl hrx
  have hmade : st.made = 0 := by rw [← hst]; rfl
  let st₀ : Start ClientObj := ⟨fun _ => none, 0⟩
  have hnext : Holds clientFields clientFields.tail (alloc .address (clientCreateAddress sys opt) st₀).2.1
      ([] ++ (alloc .address (clientCreateAddress sys opt) st₀).2.2) :=
    holds_alloc hfields (by decide) (by decide) (fair_clientCreateAddress sys opt) (holds_null clientFields)
  cases hptr : (clientCreateAddress sys opt 0).ptr with
  | some o =>
    refine iff_of_true ?_ (.inl rfl)
    have hsame : { (alloc .address (clientCreateAddress sys opt) st).2.1 with
        objs := Function.update (alloc .address (clientCreateAddress sys opt) st).2.1.objs .rxAddress none } =
          (alloc .address (clientCreateAddress sys opt) st₀).2.1 := by
      rw [Start.mk.injEq]
      refine ⟨funext fun a => ?_, ?_⟩
      · by_cases hrx : a = .rxAddress
        · subst hrx
          rw [Function.update_self]
          rfl
        · rw [Function.update_of_ne hrx, alloc_objs, alloc_objs, hmade]
          by_cases haddr : a = .address
          · subst haddr
            rw [Function.update_self, Function.update_self]
          · rw [Function.update_of_ne haddr, Function.update_of_ne haddr, hothers a haddr hrx]
      · rw [alloc, alloc, hmade]
    have hsome : (clientCreateAddress sys opt st.made).ptr = some o := by rw [hmade, hptr]
    obtain ⟨hobjs, hfreed⟩ := @alloc_then_of_some _ _ ((alloc .rxAddress g).andThen rest) _
      ClientObj.address st o hsome
    rw [hobjs, hfreed, ← alloc_then_forget _ none, hsame, List.append_assoc, hmade]
    exact hsafe _ _ hnext
  | none =>
    rw [alloc_then_of_none (by rw [hmade, hptr]), alloc, hmade, hptr]
    have hclean (n : ℕ) : cleanAll clientFields ⟨Function.update st.objs .address none, n⟩ =
        ((prior .rxAddress).map Obj.prior).toList := by
      simp [cleanAll, clientFields, free, hrx, hothers]
    have hfair := fair_clientCreateAddress sys opt 0
    rw [hptr, Option.toList_none, List.append_nil, objects, List.range_zero, List.map_nil,
      List.append_nil] at hfair
    dsimp only
    rw [hclean]
    cases hold : prior .rxAddress with
    | none => exact iff_of_true (by simpa using hfair) (.inr rfl)
    | some p =>
      refine iff_of_false (fun h => ?_) (by simp)
      have hlength := h.length_eq
      rw [List.length_append, hfair.length_eq] at hlength
      simp at hlength

/-- After a failed start the clean functions free every object once and follow no pointer from before, on
the side of the service always, and on that of the client if and only if it can make its address or the
pointer that it does not initialise was null. -/
theorem failed_start_cleans_up (csys : ClientSystem) (copt : ClientOpt) (cprior : ClientObj → Option ℕ)
    (ssys : ServiceSystem) (sopt : ServiceOpt) (sprior : ServiceObj → Option ℕ) :
    (CleansUp clientClean (clientAllocObjs csys copt (.before cprior)) ↔
      AddressMade csys copt ∨ cprior .rxAddress = none) ∧
    CleansUp serviceClean (serviceAllocObjs ssys sopt (.before sprior)) :=
  ⟨client_cleansUp_iff csys copt cprior, service_cleansUp ssys sopt sprior⟩

section Sample

theorem zeroAddress_length : (List.replicate 16 0#8).length = 16 := rfl

/-- A system that gives everything. -/
def sampleSystem : ClientSystem :=
  ⟨fun _ => true, fun _ t => some (t, ⟨List.replicate 16 0#8, zeroAddress_length⟩), true, true⟩

/-- There is no name of a server. -/
def sampleOptions : ClientOpt := ⟨false, false, false, 128, .udpIPv4, none⟩

/-- The clean function follows a pointer that was never stored. -/
theorem failed_start_cleans_up_fails :
    ¬ CleansUp clientClean (clientAllocObjs sampleSystem sampleOptions (.before fun _ => some 7)) := by
  intro h
  have hlength := h.length_eq
  exact absurd hlength (by decide)

end Sample

end Csptp.Startup

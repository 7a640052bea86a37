import Csptp.Client.Main

/-! # Addresses from names (`sock.c`)

`addressStringToBinary` reads its string as a number first, and asks the system for the name then. What
`inet_pton` and `getaddrinfo` answer is given from outside. The address that the client makes of it is the
one of the number, or the first IP address of the name. -/
namespace Csptp
open Octets
set_option autoImplicit false

/-! ## The search -/

/-- `AF_INET`, `AF_INET6` and `AF_UNSPEC`. -/
inductive AddrFamily
  | inet
  | inet6
  | unspec
deriving DecidableEq

/-- An entry of the list that `getaddrinfo` makes. -/
inductive AddrInfo
  | in4 (sinAddr : BitVec 32)
  | in6 (sin6Addr : OctetArray 16)
  | other
deriving DecidableEq

/-- What the system answers. `getaddrinfo` gives no list when it fails. -/
structure NameSystem where
  inetPton4 : List Octet → Option (BitVec 32)
  inetPton6 : List Octet → Option (OctetArray 16)
  getaddrinfo : List Octet → AddrFamily → Option (List AddrInfo)

/-- `INADDR_ANY`, in network order. -/
def inaddrAny : BitVec 32 := swap 0#32

def in6addrAny : OctetArray 16 := ⟨List.replicate 16 0, rfl⟩

/-- The octets of an IPv4 address at the front of the array; what is behind them stays. -/
def store4 (addr : OctetArray 16) (sinAddr : BitVec 32) : OctetArray 16 :=
  ⟨octets sinAddr ++ addr.val.drop 4, by rw [List.length_append, octets_length, List.length_drop, addr.2]⟩

namespace NameSystem
variable (names : NameSystem)

/-- The type and the octets, when `inet_pton` reads the string. -/
def tryInetPton (ip : List Octet) (type : Prot) (addr : OctetArray 16) : Option (Prot × OctetArray 16) :=
  match type with
  | .udpIPv4 => (names.inetPton4 ip).map fun a => (.udpIPv4, store4 addr a)
  | .udpIPv6 => (names.inetPton6 ip).map fun a => (.udpIPv6, a)
  | .invalidProto =>
    -- IPv6 always has colons, and IPv4 never has any.
    if ip.contains 0x3a#8 = false then (names.inetPton4 ip).map fun a => (.udpIPv4, store4 addr a)
    else (names.inetPton6 ip).map fun a => (.udpIPv6, a)

def domain : Prot → AddrFamily
  | .udpIPv4 => .inet
  | .udpIPv6 => .inet6
  | .invalidProto => .unspec

/-- The body of the loop over the entries: whether it goes on, the type and the octets. -/
def nextInfo (s : Prot × OctetArray 16) : AddrInfo → Bool × Prot × OctetArray 16
  | .in4 a => (false, if a ≠ inaddrAny then (.udpIPv4, store4 s.2 a) else s)
  | .in6 a => (false, if a ≠ in6addrAny then (.udpIPv6, a) else s)
  | .other => (true, s)

def searchInfo : List AddrInfo → Prot × OctetArray 16 → Prot × OctetArray 16
  | [], s => s
  | r :: res, s => if (nextInfo s r).1 then searchInfo res (nextInfo s r).2 else (nextInfo s r).2

/-- `addressStringToBinary` leaves the type alone when it returns false. -/
def addressStringToBinary (str : Option (List Octet)) (type : Prot) (addr : OctetArray 16) :
    Option (Prot × OctetArray 16) := do
  let ip ← str
  match names.tryInetPton ip type addr with
  | some r => some r
  | none =>
    let res ← names.getaddrinfo ip (domain type)
    let r := searchInfo res (.invalidProto, addr)
    if r.1 ≠ .invalidProto then some r else none

/-- What `client_main_create_address` gets, with these octets in its array before. -/
def resolve (bin : OctetArray 16) (ip : List Octet) (type : Prot) : Option (Prot × OctetArray 16) :=
  names.addressStringToBinary (some ip) type bin

end NameSystem

/-! ## Addresses -/

inductive IPAddr
  | v4 (a : BitVec 32)
  | v6 (a : OctetArray 16)
deriving DecidableEq

namespace IPAddr

def type : IPAddr → Prot
  | .v4 _ => .udpIPv4
  | .v6 _ => .udpIPv6

def isAny : IPAddr → Bool
  | .v4 a => a = inaddrAny
  | .v6 a => a = in6addrAny

/-- The socket address with the port of PTP. -/
def sockAddr : IPAddr → SockAddr
  | .v4 a => .in4 ptpUdpPort a
  | .v6 a => .in6 ptpUdpPort 0 a 0

/-- The octets, in an array that holds others. -/
def store (addr : OctetArray 16) : IPAddr → OctetArray 16
  | .v4 a => store4 addr a
  | .v6 a => a

theorem type_ne (a : IPAddr) : a.type ≠ .invalidProto := by
  cases a <;> simp [type]

end IPAddr

def AddrInfo.ip : AddrInfo → Option IPAddr
  | .in4 a => some (.v4 a)
  | .in6 a => some (.v6 a)
  | .other => none

namespace NameSystem

/-- The address that a string is the text of. -/
def number (names : NameSystem) (ip : List Octet) : Prot → Option IPAddr
  | .udpIPv4 => (names.inetPton4 ip).map .v4
  | .udpIPv6 => (names.inetPton6 ip).map .v6
  | .invalidProto => ((names.inetPton4 ip).map .v4).or ((names.inetPton6 ip).map .v6)

/-- The first IP address of a name. A name that there is none for has the wildcard. -/
def named (names : NameSystem) (ip : List Octet) (type : Prot) : Option IPAddr :=
  (names.getaddrinfo ip (domain type)).bind fun res => (res.findSome? AddrInfo.ip).filter fun a => !a.isAny

def address (names : NameSystem) (ip : List Octet) (type : Prot) : Option IPAddr :=
  (names.number ip type).or (names.named ip type)

/-- As documented, an IPv6 address is written with colons and an IPv4 address without, and a name is
looked up in the family that is asked for. -/
structure Lawful (names : NameSystem) : Prop where
  inetPton4 : ∀ ip a, names.inetPton4 ip = some a → 0x3a#8 ∉ ip
  inetPton6 : ∀ ip a, names.inetPton6 ip = some a → 0x3a#8 ∈ ip
  inet : ∀ ip res, names.getaddrinfo ip .inet = some res → ∀ r ∈ res, ∀ a ∈ r.ip, a.type = .udpIPv4
  inet6 : ∀ ip res, names.getaddrinfo ip .inet6 = some res → ∀ r ∈ res, ∀ a ∈ r.ip, a.type = .udpIPv6

/-! ## The search finds the address -/

section Search
variable {names : NameSystem} (hlawful : names.Lawful) {ip : List Octet} {type : Prot}
  (addr : OctetArray 16)

include hlawful in
/-- The colon tells which of the two families can read the string. -/
theorem tryInetPton_eq :
    names.tryInetPton ip type addr = (names.number ip type).map fun a => (a.type, a.store addr) := by
  cases type with
  | udpIPv4 =>
    rw [tryInetPton, number, Option.map_map]
    rfl
  | udpIPv6 =>
    rw [tryInetPton, number, Option.map_map]
    rfl
  | invalidProto =>
    rw [tryInetPton, number]
    by_cases hcolon : 0x3a#8 ∈ ip
    · have hnone : names.inetPton4 ip = none := by
        cases h : names.inetPton4 ip with
        | none => rfl
        | some a => exact absurd hcolon (hlawful.inetPton4 ip a h)
      rw [if_neg (by simpa using hcolon), hnone, Option.map_none, Option.none_or, Option.map_map]
      rfl
    · have hnone : names.inetPton6 ip = none := by
        cases h : names.inetPton6 ip with
        | none => rfl
        | some a => exact absurd (hlawful.inetPton6 ip a h) hcolon
      rw [if_pos (by simpa using hcolon), hnone, Option.map_none, Option.or_none, Option.map_map]
      rfl

theorem nextInfo_some {r : AddrInfo} {a : IPAddr} (h : r.ip = some a) (s : Prot × OctetArray 16) :
    nextInfo s r = (false, if a.isAny then s else (a.type, a.store s.2)) := by
  cases r with
  | other => simp [AddrInfo.ip] at h
  | in4 sinAddr =>
    cases h
    rw [nextInfo, ite_not]
    have hisAny : (IPAddr.v4 sinAddr).isAny = decide (sinAddr = inaddrAny) := rfl
    rw [hisAny]
    by_cases hany : sinAddr = inaddrAny
    · rw [if_pos hany, if_pos (decide_eq_true hany)]
    · rw [if_neg hany, if_neg (by simpa using hany)]
      rfl
  | in6 sin6Addr =>
    cases h
    rw [nextInfo, ite_not]
    have hisAny : (IPAddr.v6 sin6Addr).isAny = decide (sin6Addr = in6addrAny) := rfl
    rw [hisAny]
    by_cases hany : sin6Addr = in6addrAny
    · rw [if_pos hany, if_pos (decide_eq_true hany)]
    · rw [if_neg hany, if_neg (by simpa using hany)]
      rfl

theorem nextInfo_none {r : AddrInfo} (h : r.ip = none) (s : Prot × OctetArray 16) : nextInfo s r = (true, s) := by
  cases r with
  | other => rfl
  | in4 sinAddr => simp [AddrInfo.ip] at h
  | in6 sin6Addr => simp [AddrInfo.ip] at h

theorem searchInfo_eq (res : List AddrInfo) (s : Prot × OctetArray 16) : searchInfo res s =
    (((res.findSome? AddrInfo.ip).filter fun a => !a.isAny).map fun a => (a.type, a.store s.2)).getD s := by
  induction res with
  | nil => rfl
  | cons r res ih =>
    rw [searchInfo, List.findSome?_cons]
    cases hip : r.ip with
    | none => rw [nextInfo_none hip, if_pos rfl, ih]
    | some a =>
      rw [nextInfo_some hip, if_neg (by simp), Option.filter_some]
      cases a.isAny <;> rfl

include hlawful in
theorem resolve_eq :
    names.resolve addr ip type = (names.address ip type).map fun a => (a.type, a.store addr) := by
  rw [resolve, addressStringToBinary, Option.bind_eq_bind, Option.bind_some, tryInetPton_eq hlawful, address]
  cases names.number ip type with
  | some a => rfl
  | none =>
    rw [Option.map_none, Option.none_or, named]
    dsimp only
    cases names.getaddrinfo ip (domain type) with
    | none => rfl
    | some res =>
      rw [Option.bind_eq_bind, Option.bind_some, Option.bind_some, searchInfo_eq]
      cases (res.findSome? AddrInfo.ip).filter fun a => !a.isAny with
      | none => rfl
      | some a => exact if_pos a.type_ne

theorem ip_of_named {a : IPAddr} (h : names.named ip type = some a) :
    ∃ res, names.getaddrinfo ip (domain type) = some res ∧ (∃ r ∈ res, r.ip = some a) ∧ a.isAny = false := by
  obtain ⟨res, hres, h⟩ := Option.bind_eq_some_iff.mp h
  obtain ⟨hfound, hany⟩ := Option.filter_eq_some_iff.mp h
  obtain ⟨r, hr, hip⟩ := List.exists_of_findSome?_eq_some hfound
  exact ⟨res, hres, ⟨r, hr, hip⟩, by simpa using hany⟩

include hlawful in
/-- The type is the one that was asked for. -/
theorem type_of_address {a : IPAddr} (h : names.address ip type = some a) (htype : type ≠ .invalidProto) :
    a.type = type := by
  rw [address, Option.or_eq_some_iff] at h
  rcases h with h | ⟨-, h⟩
  · cases type with
    | invalidProto => exact absurd rfl htype
    | udpIPv4 =>
      obtain ⟨b, -, rfl⟩ := Option.map_eq_some_iff.mp h
      rfl
    | udpIPv6 =>
      obtain ⟨b, -, rfl⟩ := Option.map_eq_some_iff.mp h
      rfl
  · obtain ⟨res, hres, ⟨r, hr, hip⟩, -⟩ := ip_of_named h
    cases type with
    | invalidProto => exact absurd rfl htype
    | udpIPv4 => exact hlawful.inet ip res hres r hr a hip
    | udpIPv6 => exact hlawful.inet6 ip res hres r hr a hip

end Search

/-! ## The address of the service -/

/-- `setIP` reads what was stored. -/
theorem setIP_store (addr : OctetArray 16) (a : IPAddr) :
    (addrAlloc a.type).map (fun address => address.setIP (a.store addr)) = some a.sockAddr := by
  cases a with
  | v4 a =>
    have htake : (octets a ++ addr.val.drop 4).take ipv4AddrLen = octets a :=
      List.take_left' (octets_length a)
    rw [IPAddr.type, addrAlloc, Option.map_some, IPAddr.store, store4, SockAddr.setIP]
    dsimp only
    rw [htake, ofOctets_octets a (by decide)]
    rfl
  | v6 a => rfl

theorem createAddress_eq {names : NameSystem} (hlawful : names.Lawful) (opt : ClientOpt) (bin : OctetArray 16) :
    clientCreateAddress (names.resolve bin) opt =
      if opt.domainNumber < 128 ∨ opt.domainNumber > 239 then none
      else opt.ip.bind fun ip => (names.address ip opt.type).map fun a => (a.type, a.sockAddr) := by
  rw [clientCreateAddress]
  split
  · rfl
  · cases opt.ip with
    | none => rfl
    | some ip =>
      dsimp only
      rw [resolve_eq hlawful, Option.bind_some]
      cases names.address ip opt.type with
      | none => rfl
      | some a =>
        obtain ⟨address, haddress, hset⟩ := Option.map_eq_some_iff.mp (setIP_store bin a)
        rw [Option.map_some, Option.bind_some, Option.map_some]
        dsimp only
        rw [haddress, Option.map_some, hset]

/-- The client gets the address that its string is the text of, or else the first one of the name, with the
port of PTP; what its array held before does not matter. The type is the one that its options ask for, if
they do, and a wildcard has to be written out. -/
theorem client_address {names : NameSystem} (hlawful : names.Lawful) (opt : ClientOpt) (bin : OctetArray 16) :
    clientCreateAddress (names.resolve bin) opt =
        (if opt.domainNumber < 128 ∨ opt.domainNumber > 239 then none
          else opt.ip.bind fun ip => (names.address ip opt.type).map fun a => (a.type, a.sockAddr)) ∧
      ∀ ip ∈ opt.ip, ∀ a ∈ names.address ip opt.type,
        (opt.type ≠ .invalidProto → a.type = opt.type) ∧
          (a.isAny = true → names.number ip opt.type = some a) := by
  refine ⟨createAddress_eq hlawful opt bin, ?_⟩
  intro ip _ a ha
  refine ⟨type_of_address hlawful ha, fun hany => ?_⟩
  rw [address, Option.mem_def, Option.or_eq_some_iff] at ha
  rcases ha with ha | ⟨-, ha⟩
  · exact ha
  · obtain ⟨-, -, -, hnot⟩ := ip_of_named ha
    exact absurd (hnot.symm.trans hany) (by simp)

/-- `::1` -/
def sampleNumber : List Octet := [0x3a, 0x3a, 0x31]

def sampleLoopback : OctetArray 16 := ⟨List.replicate 15 0 ++ [1], rfl⟩

def sampleNames : NameSystem where
  inetPton4 _ := none
  inetPton6 ip := if ip = sampleNumber then some sampleLoopback else none
  getaddrinfo _ _ := none

theorem sampleNames_lawful : sampleNames.Lawful where
  inetPton4 _ _ h := absurd h (by simp [sampleNames])
  inetPton6 ip a h := by
    obtain ⟨rfl, -⟩ := Option.ite_none_right_eq_some.mp h
    exact List.mem_cons_self
  inet _ _ h := absurd h (by simp [sampleNames])
  inet6 _ _ h := absurd h (by simp [sampleNames])

theorem client_address_sample : clientCreateAddress (sampleNames.resolve in6addrAny)
    ⟨false, false, false, 128, .invalidProto, some sampleNumber⟩ =
      some (.udpIPv6, .in6 ptpUdpPort 0 sampleLoopback 0) := by
  have haddress : sampleNames.address sampleNumber .invalidProto = some (.v6 sampleLoopback) := rfl
  rw [(client_address sampleNames_lawful _ _).1, if_neg (by decide), Option.bind_some]
  dsimp only
  rw [haddress]
  rfl

end NameSystem

end Csptp

import Csptp.Attempt
import Csptp.Handles
import Csptp.Opt.Literals
import Csptp.Socket

/-! # Descriptors (`sock.c`, `phc.c`, `if.c`)

Sockets, clocks and interfaces open descriptors of the system, use them and close them. What the system
answers is given from outside. In every run of calls on any number of objects each one touches no descriptor
but its own, and no descriptor stays open when it is lost. -/
namespace Csptp
open Octets Handles
set_option autoImplicit false

/-- A method of an object, with what it does to descriptors. -/
abbrev Method (σ : Type) : Type := Attempt σ (Act ℤ)

/-- The descriptor in the member `_fd`. -/
def heldFd (fd : ℤ) : Option ℤ := if 0 ≤ fd then some fd else none

theorem heldFd_of_neg {fd : ℤ} (h : ¬ fd ≥ 0) : heldFd fd = none := if_neg h

theorem heldFd_of_not_lt {fd : ℤ} (h : ¬ fd < 0) : heldFd fd = some fd := if_pos (not_lt.mp h)

theorem followAll_ready {fd : ℤ} (hfd : ¬ fd < 0) {acts : List (Act ℤ)} (h : ∀ a ∈ acts, a = .uses fd) :
    followAll none (.opens fd :: acts) = some (heldFd fd) := by
  rw [followAll_cons, follow, Option.bind_some, followAll_uses h, heldFd_of_not_lt hfd]

theorem followAll_used {fd : ℤ} (hfd : ¬ fd < 0) : followAll (heldFd fd) [.uses fd] = some (heldFd fd) := by
  rw [heldFd_of_not_lt hfd]
  exact followAll_uses (by simp)

theorem followAll_closed (fd : ℤ) : followAll (heldFd fd) (if fd ≥ 0 then [.closes fd] else []) = some none := by
  split
  · rename_i hfd
    rw [heldFd, if_pos hfd, followAll_cons, follow, if_pos rfl, Option.bind_some, followAll_nil]
  · rename_i hfd
    rw [heldFd_of_neg hfd, followAll_nil]

/-! ## Clock ids

The system finds the descriptor of a clock in the upper bits of its id. -/

/-- `fd_to_clockid` -/
def fdToClockid (fd : ℤ) : BitVec 32 := (~~~(BitVec.ofInt 32 fd) <<< 3) ||| 3#32

/-- `CLOCK_INVALID` -/
def clockInvalid : BitVec 32 := BitVec.ofInt 32 (-1)

/-- The descriptor that the system reads from a clock id. -/
def clockidToFd (clkId : BitVec 32) : ℤ := (~~~(clkId.sshiftRight 3)).toInt

/-- No descriptor has the id that the check of `init` looks for. -/
theorem fdToClockid_ne (fd : ℤ) : fdToClockid fd ≠ clockInvalid := by
  intro h
  have hbit := congrArg (fun x : BitVec 32 => x.getLsbD 2) h
  simp [fdToClockid, clockInvalid] at hbit

theorem clockid_bits {x : BitVec 32} (h : x.toNat < 2 ^ 28) :
    ~~~(((~~~x <<< 3) ||| 3#32).sshiftRight 3) = x := by
  have hhigh {i : ℕ} (hi : 28 ≤ i) : x.getLsbD i = false :=
    Nat.testBit_lt_two_pow (lt_of_lt_of_le h (Nat.pow_le_pow_right (by decide) hi))
  have hthree {i : ℕ} (hi : 2 ≤ i) : (3#32).getLsbD i = false :=
    Nat.testBit_lt_two_pow
      (lt_of_lt_of_le (by decide : (3#32).toNat < 2 ^ 2) (Nat.pow_le_pow_right (by decide) hi))
  apply BitVec.eq_of_getLsbD_eq
  intro i hi
  rw [BitVec.getLsbD_not, BitVec.getLsbD_sshiftRight, BitVec.getLsbD_or, hthree (by omega),
    BitVec.getLsbD_shiftLeft, BitVec.msb_eq_getLsbD_last, BitVec.getLsbD_or, hthree (by omega),
    BitVec.getLsbD_shiftLeft, BitVec.getLsbD_not, BitVec.getLsbD_not, hhigh (by omega : 28 ≤ 32 - 1 - 3),
    Nat.add_sub_cancel_left]
  -- The sign bit of the id is the complement of a bit that no descriptor has.
  by_cases hlast : 3 + i < 32
  · simp [hi, hlast]
  · rw [hhigh (by omega)]
    simp [hi, hlast]

theorem clockidToFd_fdToClockid {fd : ℤ} (h : 0 ≤ fd) (hbelow : fd < 2 ^ 28) :
    clockidToFd (fdToClockid fd) = fd := by
  obtain ⟨n, rfl⟩ := Int.eq_ofNat_of_zero_le h
  have hn : (BitVec.ofInt 32 (n : ℤ)).toNat = n := by
    rw [BitVec.ofInt_natCast, BitVec.toNat_ofNat]
    omega
  rw [clockidToFd, fdToClockid, clockid_bits (by omega), BitVec.toInt_eq_toNat_of_lt (by omega), hn]

/-- Above that the id leads elsewhere. -/
example : clockidToFd (fdToClockid (2 ^ 28)) = 2 ^ 28 - 2 ^ 29 := by decide

/-! ## Sockets -/

/-- `struct sock_t` -/
structure Sock where
  fd : ℤ
  type : Prot
deriving DecidableEq

/-- What the system answers when a socket is set up. -/
structure SockSystem where
  socket : ℤ
  setsockopt : Bool
  bind : Bool

/-- The member `_type` of an address. -/
def SockAddr.type : SockAddr → Prot
  | .in4 _ _ => .udpIPv4
  | .in6 _ _ _ _ => .udpIPv6

namespace Sock

/-- `sock_alloc` -/
def alloc : Sock := ⟨-1, .invalidProto⟩

/-- The system gives the descriptor up in any case. -/
def close (ok : Bool) : Method Sock := fun s =>
  if s.fd ≥ 0 then (ok, { s with fd := -1 }, [.closes s.fd]) else (false, s, [])

def init (sys : SockSystem) (type : Prot) : Method Sock := fun s =>
  if s.fd ≥ 0 then (false, s, [])
  else if type = .invalidProto then (false, s, [])
  else if sys.socket < 0 then (false, s, [])
  else if sys.setsockopt = false then (false, s, [.opens sys.socket, .uses sys.socket, .closes sys.socket])
  else (true, ⟨sys.socket, type⟩, [.opens sys.socket, .uses sys.socket])

def initSrv (sys : SockSystem) (address : Option SockAddr) : Method Sock := fun s =>
  if s.fd ≥ 0 then (false, s, [])
  else match address with
  | none => (false, s, [])
  | some address =>
    if sys.socket < 0 then (false, s, [])
    else if sys.setsockopt = false then (false, s, [.opens sys.socket, .uses sys.socket, .closes sys.socket])
    else if sys.bind = false then
      (false, s, [.opens sys.socket, .uses sys.socket, .uses sys.socket, .closes sys.socket])
    else (true, ⟨sys.socket, address.type⟩, [.opens sys.socket, .uses sys.socket, .uses sys.socket])

/-- `ret` is what `sendto` returns. The comparison is one of 64-bit words. -/
def send (ret : ℤ) (buffer : Option Buf) (address : Option SockAddr) : Method Sock := fun s =>
  if s.fd < 0 then (false, s, [])
  else match address, buffer with
  | some _, some buffer => (ret % 2 ^ 64 = buffer.len, s, [.uses s.fd])
  | _, _ => (false, s, [])

/-- The system looks at no descriptor when it is given a negative one. -/
def poll (timeout ret : ℤ) (pollin : Bool) : Method Sock := fun s =>
  if timeout = 0 then (false, s, [])
  else (ret > 0 && pollin, s, if s.fd < 0 then [] else [.uses s.fd])

/-- `ret` is what `recvfrom` returns, and `size` the size of the address that it stores. -/
def recv (ret : ℤ) (size : ℕ) (buffer : Option Buf) (address : Option SockAddr) : Method Sock := fun s =>
  if s.fd < 0 then (false, s, [])
  else match address, buffer with
  | some address, some _ => (ret > 0 && address.getSize = size, s, [.uses s.fd])
  | _, _ => (false, s, [])

/-- `s_free` closes the socket. -/
def free (s : Sock) : List (Act ℤ) := (close true s).2.2

/-- The methods of a socket. -/
inductive Calls : Method Sock → Prop
  | close (ok : Bool) : Calls (close ok)
  | init (sys : SockSystem) (type : Prot) : Calls (init sys type)
  | initSrv (sys : SockSystem) (address : Option SockAddr) : Calls (initSrv sys address)
  | send (ret : ℤ) (buffer : Option Buf) (address : Option SockAddr) : Calls (send ret buffer address)
  | poll (timeout ret : ℤ) (pollin : Bool) : Calls (poll timeout ret pollin)
  | recv (ret : ℤ) (size : ℕ) (buffer : Option Buf) (address : Option SockAddr) :
    Calls (recv ret size buffer address)

theorem follows_close (ok : Bool) (s : Sock) :
    followAll (heldFd s.fd) (close ok s).2.2 = some (heldFd (close ok s).2.1.fd) := by
  rw [close]
  split
  · rename_i hfd
    rw [heldFd, if_pos hfd, followAll_cons, follow, if_pos rfl]
    rfl
  · rfl

theorem follows_init (sys : SockSystem) (type : Prot) (s : Sock) :
    followAll (heldFd s.fd) (init sys type s).2.2 = some (heldFd (init sys type s).2.1.fd) := by
  rw [init]
  split
  · rfl
  · rename_i hfd
    rw [heldFd_of_neg hfd]
    split_ifs with htype hsocket hset
    · rw [heldFd_of_neg hfd]
      rfl
    · rw [heldFd_of_neg hfd]
      rfl
    · rw [heldFd_of_neg hfd]
      exact @followAll_session _ _ _ [.uses sys.socket] (by simp)
    · exact followAll_ready hsocket (by simp)

theorem follows_initSrv (sys : SockSystem) (address : Option SockAddr) (s : Sock) :
    followAll (heldFd s.fd) (initSrv sys address s).2.2 = some (heldFd (initSrv sys address s).2.1.fd) := by
  unfold initSrv
  split
  · rfl
  · rename_i hfd
    rw [heldFd_of_neg hfd]
    cases address with
    | none =>
      dsimp only
      rw [heldFd_of_neg hfd]
      rfl
    | some address =>
      dsimp only
      split_ifs with hsocket hset hbind
      · rw [heldFd_of_neg hfd]
        rfl
      · rw [heldFd_of_neg hfd]
        exact @followAll_session _ _ _ [.uses sys.socket] (by simp)
      · rw [heldFd_of_neg hfd]
        exact @followAll_session _ _ _ [.uses sys.socket, .uses sys.socket] (by simp)
      · exact followAll_ready hsocket (by simp)

/-- Every method follows the descriptor of its socket. -/
theorem follows {m : Method Sock} (hm : Calls m) (s : Sock) :
    followAll (heldFd s.fd) (m s).2.2 = some (heldFd (m s).2.1.fd) := by
  cases hm with
  | close ok => exact follows_close ok s
  | init sys type => exact follows_init sys type s
  | initSrv sys address => exact follows_initSrv sys address s
  | send ret buffer address =>
    unfold send
    split
    · rfl
    · rename_i hfd
      cases address <;> cases buffer <;> first | rfl | exact followAll_used hfd
  | poll timeout ret pollin =>
    rw [poll]
    split
    · rfl
    · dsimp only
      split_ifs with hfd
      · rfl
      · exact followAll_used hfd
  | recv ret size buffer address =>
    unfold recv
    split
    · rfl
    · rename_i hfd
      cases address <;> cases buffer <;> first | rfl | exact followAll_used hfd

end Sock

/-! ## Clocks -/

/-- `struct phc_t` -/
structure Phc where
  fd : ℤ
  ptpIndex : ℤ
  device : Option (List Octet)
  clkId : BitVec 32

/-- What is asked of a clock: `clock_gettime`, `clock_settime`, and `clock_adjtime` with the modes that the
source sets. -/
inductive ClockRequest
  | getTime
  | setTime (ts : Timespec)
  | setOffset (ts : Timespec)
  | offset (ns : ℤ)
  | read
  | frequency (freq : ℤ)

/-- What the system answers for a clock. A file has its kind when it is there: whether it is one for
characters. `sscanf` reads the index of a device. -/
structure PhcSystem where
  realpath : List Octet → Option (List Octet)
  stat : List Octet → Option Bool
  openDev : List Octet → Bool → ℤ
  clock : BitVec 32 → ClockRequest → Bool
  strdup : Bool
  sscanf : List Octet → Option ℤ

/-- `PATH_MAX` -/
def pathMax : ℕ := 4096

namespace Phc

/-- `phc_alloc` -/
def alloc : Phc := ⟨-1, -1, none, clockInvalid⟩

def isCharFile (sys : PhcSystem) (file : List Octet) : Option (List Octet) :=
  (sys.realpath file).bind fun a => if sys.stat file = some true then some a else none

def init (sys : PhcSystem) (dev : List Octet) (rd : Bool) : Method Phc := fun p =>
  let fd := sys.openDev dev rd
  if fd < 0 then (false, p, [])
  else
    let cid := fdToClockid fd
    if cid = clockInvalid then (false, p, [.opens fd, .closes fd])
    else if sys.clock cid .getTime = false then (false, p, [.opens fd, .uses (clockidToFd cid), .closes fd])
    else (true, { p with fd := fd, clkId := cid, device := if sys.strdup then some dev else none },
      [.opens fd, .uses (clockidToFd cid)])

def initDone (sys : PhcSystem) (dev : List Octet) : Method Phc := Attempt.call fun p =>
  (true, match sys.sscanf dev with
    | some d => { p with ptpIndex := d }
    | none => p)

/-- A name without a slash is looked for among the devices too. -/
def initDev (sys : PhcSystem) (dev : Option (List Octet)) (rd : Bool) : Method Phc := fun p =>
  match dev with
  | none => (false, p, [])
  | some dev =>
    if p.fd ≥ 0 then (false, p, [])
    else match isCharFile sys dev with
    | some a => (init sys a rd).andThen (initDone sys a) p
    | none =>
      if dev.contains 0x2f#8 = false then
        match isCharFile sys ((chars "/dev/" ++ dev).take (pathMax - 1)) with
        | some a => (init sys a rd).andThen (initDone sys a) p
        | none => (false, p, [])
      else (false, p, [])

def initIndex (sys : PhcSystem) (idx : ℤ) (rd : Bool) : Method Phc := fun p =>
  if idx < 0 then (false, p, [])
  else if p.fd ≥ 0 then (false, p, [])
  else (init sys (chars "/dev/ptp" ++ decimal idx.toNat) rd).andThen
    (Attempt.call fun p => (true, { p with ptpIndex := idx })) p

/-- A request of a clock, which goes by its id. -/
def clockCall (sys : PhcSystem) (request : ClockRequest) : Method Phc := fun p =>
  if p.fd < 0 then (false, p, [])
  else (sys.clock p.clkId request, p, [.uses (clockidToFd p.clkId)])

def getTime (sys : PhcSystem) : Method Phc := clockCall sys .getTime

def setTime (sys : PhcSystem) (ts : Timespec) : Method Phc := clockCall sys (.setTime ts)

def offsetClock (sys : PhcSystem) (ts : Timespec) : Method Phc := clockCall sys (.setOffset ts)

def setPhase (sys : PhcSystem) (ts : Timespec) : Method Phc := clockCall sys (.offset ts.getTs)

def getFreq (sys : PhcSystem) : Method Phc := clockCall sys .read

/-- `freq` is the frequency in the unit of the system. -/
def setFreq (sys : PhcSystem) (freq : ℤ) : Method Phc := clockCall sys (.frequency freq)

/-- `p_free` -/
def free (p : Phc) : List (Act ℤ) := if p.fd ≥ 0 then [.closes p.fd] else []

/-- The methods of a clock. -/
inductive Calls : Method Phc → Prop
  | initDev (sys : PhcSystem) (dev : Option (List Octet)) (rd : Bool) : Calls (initDev sys dev rd)
  | initIndex (sys : PhcSystem) (idx : ℤ) (rd : Bool) : Calls (initIndex sys idx rd)
  | getTime (sys : PhcSystem) : Calls (getTime sys)
  | setTime (sys : PhcSystem) (ts : Timespec) : Calls (setTime sys ts)
  | offsetClock (sys : PhcSystem) (ts : Timespec) : Calls (offsetClock sys ts)
  | setPhase (sys : PhcSystem) (ts : Timespec) : Calls (setPhase sys ts)
  | getFreq (sys : PhcSystem) : Calls (getFreq sys)
  | setFreq (sys : PhcSystem) (freq : ℤ) : Calls (setFreq sys freq)

/-- The id of an open clock is the one of its descriptor. -/
def Kept (p : Phc) : Prop := 0 ≤ p.fd → clockidToFd p.clkId = p.fd

/-- The method follows the descriptor of its clock, when the system gives small ones. -/
def Follows (m : Method Phc) : Prop := ∀ p : Phc, p.Kept → (∀ fd, .opens fd ∈ (m p).2.2 → fd < 2 ^ 28) →
  followAll (heldFd p.fd) (m p).2.2 = some (heldFd (m p).2.1.fd) ∧ (m p).2.1.Kept

theorem init_cases {sys : PhcSystem} {dev : List Octet} {rd : Bool} {p : Phc}
    (hbelow : ∀ fd, .opens fd ∈ (init sys dev rd p).2.2 → fd < 2 ^ 28) :
    ((init sys dev rd p).1 = false ∧ (init sys dev rd p).2.1 = p ∧
        followAll none (init sys dev rd p).2.2 = some none) ∨
      followAll none (init sys dev rd p).2.2 = some (heldFd (init sys dev rd p).2.1.fd) ∧
        (init sys dev rd p).2.1.Kept := by
  rw [init] at hbelow ⊢
  dsimp only at hbelow ⊢
  by_cases hopen : sys.openDev dev rd < 0
  · rw [if_pos hopen]
    exact .inl ⟨rfl, rfl, rfl⟩
  rw [if_neg hopen, if_neg (fdToClockid_ne _)] at hbelow ⊢
  -- In both branches that are left the first act opens the descriptor.
  have hsmall : sys.openDev dev rd < 2 ^ 28 := by
    refine hbelow _ ?_
    split <;> exact List.mem_cons_self
  rw [clockidToFd_fdToClockid (not_lt.mp hopen) hsmall]
  split
  · exact .inl ⟨rfl, rfl, @followAll_session _ _ _ [.uses _] (by simp)⟩
  · exact .inr ⟨followAll_ready hopen (by simp), fun _ => clockidToFd_fdToClockid (not_lt.mp hopen) hsmall⟩

/-- After a setup the index may be set. -/
theorem follows_init {sys : PhcSystem} {dev : List Octet} {rd : Bool} {next : Phc → Bool × Phc}
    (hnext : ∀ p, (next p).2.fd = p.fd ∧ (next p).2.clkId = p.clkId) {p : Phc} (hfd : ¬ p.fd ≥ 0)
    (hbelow : ∀ fd, .opens fd ∈ ((init sys dev rd).andThen (Attempt.call next) p).2.2 → fd < 2 ^ 28) :
    followAll (heldFd p.fd) ((init sys dev rd).andThen (Attempt.call next) p).2.2 =
        some (heldFd ((init sys dev rd).andThen (Attempt.call next) p).2.1.fd) ∧
      ((init sys dev rd).andThen (Attempt.call next) p).2.1.Kept := by
  rw [Attempt.andThen_call_out] at hbelow ⊢
  rw [heldFd_of_neg hfd]
  rcases init_cases hbelow with ⟨hfalse, hsame, hacts⟩ | ⟨hacts, hkept⟩
  · rw [Attempt.andThen_of_false hfalse, hacts, hsame, heldFd_of_neg hfd]
    exact ⟨rfl, fun h => absurd h hfd⟩
  · rw [hacts, Attempt.andThen]
    split
    · obtain ⟨hfd', hclk⟩ := hnext (init sys dev rd p).2.1
      refine ⟨?_, fun h => ?_⟩
      · exact congrArg (some <| heldFd ·) hfd'.symm
      · change clockidToFd (next (init sys dev rd p).2.1).2.clkId = (next (init sys dev rd p).2.1).2.fd
        rw [hclk, hfd']
        exact hkept (hfd' ▸ h)
    · exact ⟨rfl, hkept⟩

theorem initDone_keeps (sys : PhcSystem) (dev : List Octet) (p : Phc) :
    (initDone sys dev p).2.1.fd = p.fd ∧ (initDone sys dev p).2.1.clkId = p.clkId := by
  rw [initDone, Attempt.call]
  dsimp only
  split <;> exact ⟨rfl, rfl⟩

theorem follows_initDev (sys : PhcSystem) (dev : Option (List Octet)) (rd : Bool) : Follows (initDev sys dev rd) := by
  intro p hkept hbelow
  unfold initDev at hbelow ⊢
  cases dev with
  | none => exact ⟨rfl, hkept⟩
  | some dev =>
    dsimp only at hbelow ⊢
    by_cases hfd : p.fd ≥ 0
    · rw [if_pos hfd]
      exact ⟨rfl, hkept⟩
    rw [if_neg hfd] at hbelow ⊢
    cases hfile : isCharFile sys dev with
    | some a =>
      rw [hfile] at hbelow
      exact follows_init (initDone_keeps sys a) hfd hbelow
    | none =>
      rw [hfile] at hbelow
      dsimp only at hbelow ⊢
      by_cases hslash : dev.contains 0x2f#8 = false
      · rw [if_pos hslash] at hbelow ⊢
        cases hdev : isCharFile sys ((chars "/dev/" ++ dev).take (pathMax - 1)) with
        | some a =>
          rw [hdev] at hbelow
          exact follows_init (initDone_keeps sys a) hfd hbelow
        | none => exact ⟨rfl, hkept⟩
      · rw [if_neg hslash]
        exact ⟨rfl, hkept⟩

theorem follows_initIndex (sys : PhcSystem) (idx : ℤ) (rd : Bool) : Follows (initIndex sys idx rd) := by
  intro p hkept hbelow
  rw [initIndex] at hbelow ⊢
  by_cases hidx : idx < 0
  · rw [if_pos hidx]
    exact ⟨rfl, hkept⟩
  by_cases hfd : p.fd ≥ 0
  · rw [if_neg hidx, if_pos hfd]
    exact ⟨rfl, hkept⟩
  rw [if_neg hidx, if_neg hfd] at hbelow ⊢
  exact follows_init (fun _ => ⟨rfl, rfl⟩) hfd hbelow

/-- The id leads to the descriptor of the clock. -/
theorem follows_clockCall (sys : PhcSystem) (request : ClockRequest) : Follows (clockCall sys request) := by
  intro p hkept _
  rw [clockCall]
  split
  · exact ⟨rfl, hkept⟩
  · rename_i hfd
    refine ⟨?_, hkept⟩
    dsimp only
    rw [hkept (not_lt.mp hfd)]
    exact followAll_used hfd

theorem follows {m : Method Phc} (hm : Calls m) : Follows m := by
  cases hm with
  | initDev sys dev rd => exact follows_initDev sys dev rd
  | initIndex sys idx rd => exact follows_initIndex sys idx rd
  | getTime sys => exact follows_clockCall sys _
  | setTime sys ts => exact follows_clockCall sys _
  | offsetClock sys ts => exact follows_clockCall sys _
  | setPhase sys ts => exact follows_clockCall sys _
  | getFreq sys => exact follows_clockCall sys _
  | setFreq sys freq => exact follows_clockCall sys _

end Phc

/-! ## Interfaces

An interface needs a descriptor only while it is set up. -/

/-- `struct if_t` -/
structure NetIf where
  init : Bool
  ifName : Option (List Octet)
  ifIndex : ℤ
  ptpIndex : ℤ
  ipv4 : BitVec 32
  ipv6 : OctetArray 16
  haveIpv6 : Bool
  mac : OctetArray 6
  clockID : OctetArray 8

/-- `struct hwtstamp_config` -/
structure HwtstampConfig where
  txType : ℤ
  rxFilter : ℤ
deriving DecidableEq

def hwtstampTxOn : ℤ := 1
def hwtstampTxOnestepSync : ℤ := 2
def hwtstampTxOnestepP2p : ℤ := 3
def hwtstampFilterPtpV2L4Sync : ℤ := 7

/-- Filters that let the Sync messages of PTP over UDP pass: all, and those of the second version for this
layer and for every layer. -/
def hwtstampFilters : List ℤ := [1, 6, 7, 8, 12, 13, 14]

/-- What the system answers when an interface is set up. -/
structure IfSystem where
  socket : ℤ
  ifIndexOf : Option ℤ
  ifNameOf : Option (List Octet)
  hwAddr : Option (OctetArray 6)
  ifAddr : Option (BitVec 32)
  tsInfo : Option ℤ
  getHwtstamp : Option HwtstampConfig
  setHwtstamp : HwtstampConfig → Bool
  memory : Bool
  ifAddrs : Option (List (List Octet × Option (OctetArray 16)))

/-- `IFNAMSIZ` -/
def ifNamSiz : ℕ := 16

namespace HwtstampConfig

/-- The mode of sending is the one that the steps need. -/
def haveTx (cfg : HwtstampConfig) (useTwoSteps : Bool) : Bool :=
  if useTwoSteps then cfg.txType = hwtstampTxOn
  else cfg.txType = hwtstampTxOnestepSync || cfg.txType = hwtstampTxOnestepP2p

def haveRx (cfg : HwtstampConfig) : Bool := hwtstampFilters.contains cfg.rxFilter

/-- What is asked of the device in its place. -/
def wanted (cfg : HwtstampConfig) (useTwoSteps : Bool) : HwtstampConfig where
  txType := if cfg.haveTx useTwoSteps then cfg.txType
    else if useTwoSteps then hwtstampTxOn else hwtstampTxOnestepSync
  rxFilter := if cfg.haveRx then cfg.rxFilter else hwtstampFilterPtpV2L4Sync

end HwtstampConfig

namespace NetIf

/-- `if_alloc`, with what was in the memory. -/
def alloc (contents : NetIf) : NetIf :=
  { contents with init := false, haveIpv6 := false, ifName := none, ifIndex := -1, ptpIndex := -1 }

/-- The identity of IEEE EUI-48 as one of EUI-64. -/
def setClockID (n : NetIf) : NetIf :=
  { n with clockID := ⟨n.mac.val.take 3 ++ [0xff, 0xfe] ++ n.mac.val.drop 3, by simp [n.mac.2]⟩ }

/-- An `ioctl` on the descriptor, of which something is stored. -/
def ioctl {α : Type} (answer : Option α) (fd : ℤ) (store : α → NetIf → NetIf) : Method NetIf := fun n =>
  match answer with
  | none => (false, n, [.uses fd])
  | some a => (true, store a n, [.uses fd])

def setHWTS (sys : IfSystem) (fd : ℤ) (useTwoSteps : Bool) : Method NetIf := fun n =>
  match sys.getHwtstamp with
  | none => (false, n, [.uses fd])
  | some cfg =>
    if cfg.haveTx useTwoSteps && cfg.haveRx then (true, n, [.uses fd])
    else (sys.setHwtstamp (cfg.wanted useTwoSteps), n, [.uses fd, .uses fd])

def initPtp (sys : IfSystem) (fd : ℤ) (useTwoSteps : Bool) : Method NetIf :=
  (ioctl sys.hwAddr fd fun mac n => { n with mac := mac }).andThen <|
    (ioctl sys.ifAddr fd fun ipv4 n => { n with ipv4 := ipv4 }).andThen <|
      (ioctl sys.tsInfo fd fun _ n => n).andThen <|
        (setHWTS sys fd useTwoSteps).andThen <|
          Attempt.call fun n => (true, { n with ptpIndex := sys.tsInfo.getD (-1) })

/-- A setup has a socket for as long as it takes. -/
def withSocket (fd : ℤ) (body : ℤ → Method NetIf) : Method NetIf := fun n =>
  if fd < 0 then (false, n, [])
  else ((body fd n).1, (body fd n).2.1, .opens fd :: ((body fd n).2.2 ++ [.closes fd]))

def intIfName (sys : IfSystem) (ifName : Option (List Octet)) (useTwoSteps : Bool) : Method NetIf := fun n =>
  match ifName with
  | none => (false, n, [])
  | some ifName =>
    if ifName = [] then (false, n, [])
    else if n.init then (false, n, [])
    else if ifName.length > ifNamSiz then (false, n, [])
    else withSocket sys.socket (fun fd =>
      (ioctl sys.ifIndexOf fd fun ifIndex n => { n with ifIndex := ifIndex }).andThen <|
        (initPtp sys fd useTwoSteps).andThen <| Attempt.call fun n =>
          if sys.memory then (true, { setClockID { n with ifName := some ifName } with init := true })
          else (false, { n with ifName := none })) n

def intIfIndex (sys : IfSystem) (ifIndex : ℤ) (useTwoSteps : Bool) : Method NetIf := fun n =>
  if ifIndex < 0 then (false, n, [])
  else if n.init then (false, n, [])
  else withSocket sys.socket (fun fd =>
    (ioctl sys.ifNameOf fd fun _ n => n).andThen <|
      (initPtp sys fd useTwoSteps).andThen <| Attempt.call fun n =>
        if sys.memory then
          (true, { setClockID { n with ifName := sys.ifNameOf, ifIndex := ifIndex } with init := true })
        else (false, { n with ifName := none })) n

/-- The first IPv6 address that the system has for the name. It is asked for once. -/
def getIPv6 (sys : IfSystem) : Method NetIf := fun n =>
  if n.init = false then (false, n, [])
  else if n.haveIpv6 then (true, n, [])
  else match sys.ifAddrs with
  | none => (false, n, [])
  | some l =>
    match l.findSome? fun ifa => if some ifa.1 = n.ifName then ifa.2 else none with
    | none => (false, n, [])
    | some ipv6 => (true, { n with ipv6 := ipv6, haveIpv6 := true }, [])

/-- The caller gives the descriptor. -/
def bind (setsockopt : Bool) (fd : ℤ) : Method NetIf := fun n =>
  if n.init = false then (false, n, [])
  else if fd < 0 then (false, n, [])
  else (setsockopt, n, [.uses fd])

/-- The methods of an interface on descriptors of its own. -/
inductive Calls : Method NetIf → Prop
  | intIfName (sys : IfSystem) (ifName : Option (List Octet)) (useTwoSteps : Bool) :
    Calls (intIfName sys ifName useTwoSteps)
  | intIfIndex (sys : IfSystem) (ifIndex : ℤ) (useTwoSteps : Bool) : Calls (intIfIndex sys ifIndex useTwoSteps)
  | getIPv6 (sys : IfSystem) : Calls (getIPv6 sys)

/-- The method does nothing but use this descriptor. -/
def UsesOnly (fd : ℤ) (m : Method NetIf) : Prop := ∀ n, ∀ a ∈ (m n).2.2, a = .uses fd

theorem UsesOnly.andThen {fd : ℤ} {m m' : Method NetIf} (h : UsesOnly fd m) (h' : UsesOnly fd m') :
    UsesOnly fd (m.andThen m') := by
  intro n a ha
  rw [Attempt.andThen] at ha
  split at ha
  · rcases List.mem_append.mp ha with ha | ha
    · exact h n a ha
    · exact h' _ a ha
  · exact h n a ha

theorem usesOnly_call (fd : ℤ) (f : NetIf → Bool × NetIf) : UsesOnly fd (Attempt.call f) := by
  intro n a ha
  exact absurd ha List.not_mem_nil

theorem usesOnly_ioctl {α : Type} (answer : Option α) (fd : ℤ) (store : α → NetIf → NetIf) :
    UsesOnly fd (ioctl answer fd store) := by
  intro n a ha
  cases answer <;> exact List.mem_singleton.mp ha

theorem usesOnly_setHWTS (sys : IfSystem) (fd : ℤ) (useTwoSteps : Bool) :
    UsesOnly fd (setHWTS sys fd useTwoSteps) := by
  intro n a ha
  unfold setHWTS at ha
  cases hcfg : sys.getHwtstamp with
  | none =>
    rw [hcfg] at ha
    exact List.mem_singleton.mp ha
  | some cfg =>
    rw [hcfg] at ha
    dsimp only at ha
    split at ha
    · exact List.mem_singleton.mp ha
    · simpa using ha

theorem usesOnly_initPtp (sys : IfSystem) (fd : ℤ) (useTwoSteps : Bool) :
    UsesOnly fd (initPtp sys fd useTwoSteps) :=
  (usesOnly_ioctl _ fd _).andThen <| (usesOnly_ioctl _ fd _).andThen <| (usesOnly_ioctl _ fd _).andThen <|
    (usesOnly_setHWTS sys fd useTwoSteps).andThen (usesOnly_call fd _)

theorem follows_withSocket {fd : ℤ} {body : ℤ → Method NetIf} (h : ∀ fd, UsesOnly fd (body fd)) (n : NetIf) :
    followAll none (withSocket fd body n).2.2 = some none := by
  rw [withSocket]
  split
  · rfl
  · exact followAll_session (h fd n)

/-- No interface keeps a descriptor. -/
theorem follows {m : Method NetIf} (hm : Calls m) (n : NetIf) : followAll none (m n).2.2 = some none := by
  cases hm with
  | intIfName sys ifName useTwoSteps =>
    cases ifName with
    | none => rfl
    | some ifName =>
      unfold intIfName
      dsimp only
      by_cases hempty : ifName = []
      · rw [if_pos hempty, followAll_nil]
      by_cases hinit : n.init = true
      · rw [if_neg hempty, if_pos hinit, followAll_nil]
      by_cases hlong : ifName.length > ifNamSiz
      · rw [if_neg hempty, if_neg hinit, if_pos hlong, followAll_nil]
      rw [if_neg hempty, if_neg hinit, if_neg hlong]
      exact follows_withSocket (fun fd =>
        (usesOnly_ioctl _ fd _).andThen ((usesOnly_initPtp sys fd useTwoSteps).andThen (usesOnly_call fd _))) n
  | intIfIndex sys ifIndex useTwoSteps =>
    unfold intIfIndex
    by_cases hindex : ifIndex < 0
    · rw [if_pos hindex, followAll_nil]
    by_cases hinit : n.init = true
    · rw [if_neg hindex, if_pos hinit, followAll_nil]
    rw [if_neg hindex, if_neg hinit]
    exact follows_withSocket (fun fd =>
      (usesOnly_ioctl _ fd _).andThen ((usesOnly_initPtp sys fd useTwoSteps).andThen (usesOnly_call fd _))) n
  | getIPv6 sys =>
    unfold getIPv6
    by_cases hinit : n.init = false
    · rw [if_pos hinit, followAll_nil]
    by_cases hhave : n.haveIpv6 = true
    · rw [if_neg hinit, if_pos hhave, followAll_nil]
    rw [if_neg hinit, if_neg hhave]
    cases sys.ifAddrs with
    | none => rfl
    | some l =>
      dsimp only
      split <;> rfl

/-- On the descriptor of a socket it acts for this socket. -/
theorem follows_bind (setsockopt : Bool) (fd : ℤ) (n : NetIf) :
    followAll (heldFd fd) (bind setsockopt fd n).2.2 = some (heldFd fd) := by
  rw [bind]
  split
  · rfl
  · split
    · rfl
    · exact followAll_used ‹_›

end NetIf

/-! ## Runs -/

inductive SysObj
  | sock (s : Sock)
  | phc (p : Phc)
  | netIf (n : NetIf)

namespace SysObj

/-- The descriptor that an object has. -/
def held : SysObj → Option ℤ
  | .sock s => heldFd s.fd
  | .phc p => heldFd p.fd
  | .netIf _ => none

def Kept : SysObj → Prop
  | .phc p => p.Kept
  | _ => True

end SysObj

/-- A step of the place of an object: it is made when there is none, a method is called, or it is freed. A
socket is also bound, by any interface. -/
inductive ObjStep : Option SysObj → List (Act ℤ) → Option SysObj → Prop
  | sockAlloc : ObjStep none [] (some (.sock .alloc))
  | phcAlloc : ObjStep none [] (some (.phc .alloc))
  | ifAlloc (contents : NetIf) : ObjStep none [] (some (.netIf (.alloc contents)))
  | sock {m : Method Sock} (hm : Sock.Calls m) (s : Sock) :
    ObjStep (some (.sock s)) (m s).2.2 (some (.sock (m s).2.1))
  | phc {m : Method Phc} (hm : Phc.Calls m) (p : Phc) :
    ObjStep (some (.phc p)) (m p).2.2 (some (.phc (m p).2.1))
  | netIf {m : Method NetIf} (hm : NetIf.Calls m) (n : NetIf) :
    ObjStep (some (.netIf n)) (m n).2.2 (some (.netIf (m n).2.1))
  | bound (n : NetIf) (setsockopt : Bool) (s : Sock) :
    ObjStep (some (.sock s)) (NetIf.bind setsockopt s.fd n).2.2 (some (.sock s))
  | sockFree (s : Sock) : ObjStep (some (.sock s)) s.free none
  | phcFree (p : Phc) : ObjStep (some (.phc p)) p.free none
  | ifFree (n : NetIf) : ObjStep (some (.netIf n)) [] none

/-- A place may hold this. -/
def PlaceKept (o : Option SysObj) : Prop := ∀ x ∈ o, x.Kept

theorem ObjStep.follows {o o' : Option SysObj} {acts : List (Act ℤ)} (h : ObjStep o acts o') (hkept : PlaceKept o)
    (hbelow : ∀ fd, .opens fd ∈ acts → fd < 2 ^ 28) :
    followAll (o.bind SysObj.held) acts = some (o'.bind SysObj.held) ∧ PlaceKept o' := by
  cases h with
  | sockAlloc => exact ⟨rfl, fun x hx => Option.some.inj hx ▸ trivial⟩
  | phcAlloc => exact ⟨rfl, fun x hx => Option.some.inj hx ▸ fun hfd => absurd hfd (by decide)⟩
  | ifAlloc contents => exact ⟨rfl, fun x hx => Option.some.inj hx ▸ trivial⟩
  | sock hm s => exact ⟨Sock.follows hm s, fun x hx => Option.some.inj hx ▸ trivial⟩
  | phc hm p =>
    obtain ⟨hacts, hkept'⟩ := Phc.follows hm p (hkept _ rfl) hbelow
    exact ⟨hacts, fun x hx => Option.some.inj hx ▸ hkept'⟩
  | netIf hm n => exact ⟨NetIf.follows hm n, fun x hx => Option.some.inj hx ▸ trivial⟩
  | bound n setsockopt s => exact ⟨NetIf.follows_bind setsockopt s.fd n, hkept⟩
  | sockFree s =>
    refine ⟨?_, fun x hx => absurd hx (by simp)⟩
    have hfree : s.free = if s.fd ≥ 0 then [.closes s.fd] else [] := by
      rw [Sock.free, Sock.close]
      split <;> rfl
    rw [hfree]
    exact followAll_closed s.fd
  | phcFree p => exact ⟨followAll_closed p.fd, fun x hx => absurd hx (by simp)⟩
  | ifFree n => exact ⟨rfl, fun x hx => absurd hx (by simp)⟩

section Process
variable {ι : Type} [DecidableEq ι]

/-- The objects of a process take steps in any order. -/
def ProcessStep (_ : List (ι × List (Act ℤ))) (objs : ι → Option SysObj) (e : ι × List (Act ℤ))
    (objs' : ι → Option SysObj) : Prop :=
  ∃ o', ObjStep (objs e.1) e.2 o' ∧ objs' = Function.update objs e.1 o'

/-- The runs from a process without objects. -/
def ProcessRun : List (ι × List (Act ℤ)) → (ι → Option SysObj) → Prop :=
  Runs.Run (fun objs => objs = fun _ => none) ProcessStep

theorem ProcessRun.next {past : List (ι × List (Act ℤ))} {objs : ι → Option SysObj} (h : ProcessRun past objs)
    (i : ι) {o o' : Option SysObj} {acts : List (Act ℤ)} (ho : objs i = o) (hstep : ObjStep o acts o') :
    ProcessRun (past ++ [(i, acts)]) (Function.update objs i o') :=
  Runs.Run.step h ⟨o', ho ▸ hstep, rfl⟩

/-- What is done to descriptors in a run, and for which object. -/
def actLog (history : List (ι × List (Act ℤ))) : List (ι × Act ℤ) :=
  history.flatMap fun e => e.2.map (Prod.mk e.1)

/-- The object has opened this descriptor and not closed it. -/
def HoldsFd (log : List (ι × Act ℤ)) (i : ι) (fd : ℤ) : Prop := followAll none (actsOf i log) = some (some fd)

/-- The objects follow their descriptors, if the system has given small ones. -/
def RunKept (history : List (ι × List (Act ℤ))) (objs : ι → Option SysObj) : Prop :=
  (∀ i fd, (i, .opens fd) ∈ actLog history → fd < 2 ^ 28) →
    Followed (actLog history) (fun i => (objs i).bind SysObj.held) ∧ ∀ i, PlaceKept (objs i)

theorem runKept_start : RunKept (ι := ι) [] fun _ => none :=
  fun _ => ⟨fun _ => rfl, fun _ x hx => absurd hx (by simp)⟩

theorem runKept_next {past : List (ι × List (Act ℤ))} {objs : ι → Option SysObj} (h : RunKept past objs) {i : ι}
    {acts : List (Act ℤ)} {o' : Option SysObj} (hstep : ObjStep (objs i) acts o') :
    RunKept (past ++ [(i, acts)]) (Function.update objs i o') := by
  intro hbelow
  have hlog : actLog (past ++ [(i, acts)]) = actLog past ++ acts.map (Prod.mk i) := by
    simp [actLog]
  rw [hlog] at hbelow ⊢
  obtain ⟨hfollowed, hkept⟩ := h fun j fd h => hbelow j fd (List.mem_append_left _ h)
  obtain ⟨hacts, hkept'⟩ := hstep.follows (hkept i) fun fd h =>
    hbelow i fd (List.mem_append_right _ (List.mem_map_of_mem h))
  refine ⟨fun j => ?_, fun j => ?_⟩
  · rw [actsOf_append, actsOf_map, followAll_append, hfollowed j, Option.bind_some]
    by_cases hji : i = j
    · subst hji
      rw [if_pos rfl]
      dsimp only
      rw [Function.update_self]
      exact hacts
    · rw [if_neg hji, followAll_nil]
      dsimp only
      rw [Function.update_of_ne (Ne.symm hji)]
  · by_cases hji : j = i
    · rw [hji, Function.update_self]
      exact hkept'
    · rw [Function.update_of_ne hji]
      exact hkept j

theorem runKept_run {history : List (ι × List (Act ℤ))} {objs : ι → Option SysObj}
    (hrun : ProcessRun history objs) : RunKept history objs := by
  refine Runs.Run.invariant ?_ ?_ hrun
  · rintro _ rfl
    exact runKept_start
  · rintro past objs ⟨i, acts⟩ _ hinv ⟨o', hstep, rfl⟩
    exact runKept_next hinv hstep

/-- In every run of any sockets, clocks and interfaces each of them uses and closes only descriptors that are
open, that it has opened itself and not closed since, and that no other object has. What is open is what was
open at the start and what the objects have; so nothing is left open when they are freed. -/
theorem descriptors_own {history : List (ι × List (Act ℤ))} {objs : ι → Option SysObj}
    (hrun : ProcessRun history objs) {start : Set ℤ} (hfresh : Fresh start ((actLog history).map Prod.snd))
    (hbelow : ∀ i fd, (i, .opens fd) ∈ actLog history → fd < 2 ^ 28) :
    (∀ past i a, past ++ [(i, a)] <+: actLog history → ∀ fd, a = .uses fd ∨ a = .closes fd →
      fd ∈ openAfter start (past.map Prod.snd) ∧ fd ∉ start ∧ HoldsFd past i fd ∧
        ∀ j, HoldsFd past j fd → j = i) ∧
      (∀ fd, fd ∈ openAfter start ((actLog history).map Prod.snd) ↔
        fd ∈ start ∨ ∃ i, (objs i).bind SysObj.held = some fd) ∧
      ((∀ i, objs i = none) → openAfter start ((actLog history).map Prod.snd) = start) := by
  obtain ⟨hfollowed, -⟩ := runKept_run hrun hbelow
  have hown := own_of_followed hfollowed hfresh
  refine ⟨?_, hown.opened, fun hfreed => ?_⟩
  · rintro past i a ⟨later, hlog⟩ fd ha
    rw [← hlog] at hfollowed hfresh
    -- The owner may do the act, so it has what the act is on.
    obtain ⟨held, hheld⟩ := followed_prefix hfollowed
    obtain ⟨h₀, hpast, hf⟩ := followed_concat hheld
    have hfd := follow_own hf ha
    rw [List.map_append, List.map_append] at hfresh
    have hfresh' : Fresh start (past.map Prod.snd) := fun l x hl =>
      hfresh l x (hl.trans ((List.prefix_append _ _).trans (List.prefix_append _ _)))
    obtain ⟨hopened, hnew, halone⟩ := own_of_followed hpast hfresh'
    have hi : Function.update held i h₀ i = some fd := by rw [Function.update_self, hfd]
    refine ⟨(hopened fd).mpr (.inr ⟨i, hi⟩), hnew i fd hi, ?_, fun j hj => ?_⟩
    · rw [HoldsFd, hpast i, hi]
    · rw [HoldsFd, hpast j] at hj
      exact halone j i fd (Option.some.inj hj) hi
  · ext fd
    rw [hown.opened]
    simp [hfreed]

end Process

def sampleSock : Sock := ⟨3, .udpIPv4⟩

def samplePhcSystem : PhcSystem :=
  ⟨fun _ => none, fun _ => none, fun _ _ => 4, fun _ _ => true, false, fun _ => none⟩

def samplePhc : Phc := ⟨4, 0, none, fdToClockid 4⟩

/-- The acts of a socket and of a clock. -/
def sampleActs : List (Bool × List (Act ℤ)) :=
  [(false, []), (false, [.opens 3, .uses 3]), (true, []), (true, [.opens 4, .uses 4]), (false, [.uses 3]),
    (true, [.uses 4]), (false, [.closes 3]), (true, [.closes 4])]

theorem descriptors_own_sample : ∃ objs, ProcessRun sampleActs objs ∧ (∀ i, objs i = none) ∧
    openAfter {0, 1, 2} ((actLog sampleActs).map Prod.snd) = {0, 1, 2} := by
  have hstart : ProcessRun (ι := Bool) [] fun _ => none := .start rfl
  have hinit : ObjStep (some (.sock .alloc)) [.opens 3, .uses 3] (some (.sock sampleSock)) :=
    .sock (.init ⟨3, true, true⟩ .udpIPv4) .alloc
  have hopen : ObjStep (some (.phc .alloc)) [.opens 4, .uses 4] (some (.phc samplePhc)) :=
    .phc (.initIndex samplePhcSystem 0 false) .alloc
  have hpoll : ObjStep (some (.sock sampleSock)) [.uses 3] (some (.sock sampleSock)) :=
    .sock (.poll 5 0 false) sampleSock
  have htime : ObjStep (some (.phc samplePhc)) [.uses 4] (some (.phc samplePhc)) :=
    .phc (.getTime samplePhcSystem) samplePhc
  have hset := ((hstart.next false rfl .sockAlloc).next false rfl hinit).next true rfl .phcAlloc
  have hused := ((hset.next true rfl hopen).next false rfl hpoll).next true rfl htime
  have hrun := (hused.next false rfl (.sockFree sampleSock)).next true rfl (.phcFree samplePhc)
  have hfresh : Fresh {0, 1, 2} ((actLog sampleActs).map Prod.snd) := by
    have hlog : (actLog sampleActs).map Prod.snd = [] ++ [.opens 3] ++ [.uses 3] ++ [.opens 4] ++ [.uses 4] ++
      [.uses 3] ++ [.uses 4] ++ [.closes 3] ++ [.closes (4 : ℤ)] := rfl
    rw [hlog]
    simp only [Fresh, Runs.each_concat, Runs.each_nil, true_and]
    simp [openAfter, openNext]
  have hbelow : ∀ i fd, (i, .opens fd) ∈ actLog sampleActs → fd < 2 ^ 28 := by
    intro i fd h
    simp [actLog, sampleActs] at h
    rcases h with ⟨-, rfl⟩ | ⟨-, rfl⟩ <;> decide
  refine ⟨_, hrun, ?_, (descriptors_own hrun hfresh hbelow).2.2 ?_⟩ <;>
  · intro i
    cases i <;> rfl

end Csptp

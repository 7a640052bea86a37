import Csptp.Time
import Csptp.Message.Types

/-! # Addresses, datagrams and the socket (`sock.c`)

What the system does is given from outside: whether a poll finds input, which datagram then arrives,
what the clock shows and whether a send succeeds. -/
namespace Csptp
open Octets
set_option autoImplicit false

/-- A socket address of either family, with words as they lie in it. -/
inductive SockAddr
  | in4 (sinPort : BitVec 16) (sinAddr : BitVec 32)
  | in6 (sin6Port : BitVec 16) (sin6Flowinfo : BitVec 32) (sin6Addr : OctetArray 16)
      (sin6ScopeId : BitVec 32)
deriving DecidableEq

namespace SockAddr

def getSize : SockAddr → ℕ
  | .in4 _ _ => 16
  | .in6 _ _ _ _ => 28

/-- The port and the IP address decide; flow information and scope do not. -/
def eq : SockAddr → SockAddr → Bool
  | .in4 port addr, .in4 port' addr' => port = port' && addr = addr'
  | .in6 port _ addr _, .in6 port' _ addr' _ => port = port' && addr = addr'
  | _, _ => false

theorem getSize_of_eq {a b : SockAddr} (h : a.eq b = true) : b.getSize = a.getSize := by
  cases a <;> cases b <;> first | rfl | exact absurd h (by simp [eq])

theorem eq_self (a : SockAddr) : a.eq a = true := by
  cases a <;> simp [eq]

end SockAddr

/-- `ptp_udp_port`, in network order. -/
def ptpUdpPort : BitVec 16 := swap 320#16

def addrAlloc : Prot → Option SockAddr
  | .udpIPv4 => some (.in4 ptpUdpPort 0)
  | .udpIPv6 => some (.in6 ptpUdpPort 0 ⟨List.replicate 16 0#8, rfl⟩ 0)
  | .invalidProto => none

/-- A datagram on the way to a socket or from it; `addr` is the other side. -/
structure Datagram where
  addr : SockAddr
  octets : List Octet
deriving DecidableEq

/-- What a call of `poll` finds: nothing in time, or input. After input `recvfrom` may still fail,
and then there is no datagram. -/
inductive Poll
  | idle
  | ready (arrival : Option Datagram) (now : ClockReading)

/-- What a call of `recv` returns and leaves. -/
structure RecvResult where
  ok : Bool
  buf : Buf
  address : SockAddr
  ts : Timespec

/-- The clock is read first. A datagram that is longer than the buffer is cut off. A source address
of another family leaves a part of itself in the address object, but nothing reads the address after
a failed call. -/
def recv (buf : Buf) (address : SockAddr) (arrival : Option Datagram) (now : ClockReading) :
    RecvResult :=
  match arrival with
  | none => { ok := false, buf := buf, address := address, ts := now.toTimespec }
  | some d =>
    let l := d.octets.take buf.size
    let buf' := buf.withMem (blit buf.mem 0 l)
    if d.addr.getSize = address.getSize then
      if l.length > 0 then
        { ok := true, buf := (buf'.setLen l.length).2, address := d.addr, ts := now.toTimespec }
      else { ok := false, buf := buf', address := d.addr, ts := now.toTimespec }
    else { ok := false, buf := buf', address := address, ts := now.toTimespec }

/-- The datagrams that a send puts on the wire: the data of the buffer, unless `sendto` fails. -/
def send (buf : Buf) (address : SockAddr) (net : Bool) : List Datagram :=
  if net then [⟨address, buf.data⟩] else []

@[simp] theorem recv_ts (buf : Buf) (address : SockAddr) (arrival : Option Datagram)
    (now : ClockReading) : (recv buf address arrival now).ts = now.toTimespec := by
  cases arrival with
  | none => rfl
  | some d =>
    simp only [recv]
    split_ifs <;> rfl

@[simp] theorem recv_size (buf : Buf) (address : SockAddr) (arrival : Option Datagram)
    (now : ClockReading) : (recv buf address arrival now).buf.size = buf.size := by
  cases arrival with
  | none => rfl
  | some d =>
    simp only [recv]
    split_ifs <;> simp

/-- A successful receive leaves the datagram's octets as data and its source as address. -/
theorem recv_true {buf : Buf} {address : SockAddr} {arrival : Option Datagram} {now : ClockReading}
    (h : (recv buf address arrival now).ok = true) :
    ∃ d, arrival = some d ∧ d.addr.getSize = address.getSize ∧ 0 < (d.octets.take buf.size).length ∧
      (recv buf address arrival now).address = d.addr ∧
      (recv buf address arrival now).buf.data = d.octets.take buf.size := by
  cases arrival with
  | none => simp [recv] at h
  | some d =>
    simp only [recv] at h ⊢
    split_ifs at h ⊢ with h1 h2
    refine ⟨d, rfl, h1, h2, rfl, ?_⟩
    have hlen : (d.octets.take buf.size).length ≤ buf.size := by
      rw [List.length_take]
      exact Nat.min_le_left _ _
    have hset := Buf.setLen_len (b := buf.withMem (blit buf.mem 0 (d.octets.take buf.size))) hlen
    simp only [Buf.data, hset, Buf.setLen_mem, Buf.withMem_mem]
    exact region_blit_self _ _ _

theorem recv_of_datagram {buf : Buf} {address : SockAddr} {d : Datagram} {now : ClockReading}
    (hs : d.addr.getSize = address.getSize) (hl : 0 < (d.octets.take buf.size).length) :
    (recv buf address (some d) now).ok = true := by
  simp only [recv, if_pos hs, if_pos hl]

end Csptp

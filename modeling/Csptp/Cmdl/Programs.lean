import Csptp.Cmdl.Main
import Csptp.Message.Types

/-! # The options of the programs (`cmdl_client.c`, `cmdl_service.c`)

The structure that is returned is filled from an option object, which is then freed. It comes with the
memory after that. -/
namespace Csptp
open Octets
set_option autoImplicit false

/-! ## The client -/

def clientOptions : List (OptRec Unit) :=
  [keyBool "oneStep" 't' false, keyBool "reqStatTLV" 's' false, keyBool "reqAltTLV" 'a' false,
    keyStr "serviceAddress" 'd' (programStr 4 "") 0, keyBool "ipv4" '4' false, keyBool "ipv6" '6' false,
    keyInt "domainNumber" 'n' 128 128 239]

/-- `struct client_opt`, with its pointers. -/
structure ParsedClient where
  useTwoSteps : Bool
  useCSPTPstatus : Bool
  useAltTimeScale : Bool
  domainNumber : BitVec 8
  type : Prot
  ifName : Option CStr
  ip : Option CStr
deriving DecidableEq

/-- The structure from the object, when not both protocols are forced. -/
def clientOpt (opt : Opt Unit) (h4 h6 : Bool) : Option (ParsedClient × Memory) := do
  let ifName ← opt.getOptStr 'i'
  let useTwoSteps ← opt.getOptTrue 't'
  let useCSPTPstatus ← opt.getOptFalse 's'
  let useAltTimeScale ← opt.getOptFalse 'a'
  let ip ← opt.getOptStr 'd'
  let domainNumber ← opt.getOptInt 'n' 128
  let h ← opt.free
  let type := if h4 then Prot.udpIPv4 else if h6 then .udpIPv6 else .invalidProto
  some (⟨useTwoSteps, useCSPTPstatus, useAltTimeScale, BitVec.ofInt 8 domainNumber, type, ifName, ip⟩, h)

def cmdClient (sys : CmdSystem) (args : List GetoptStep) : Option (CmdRet × Option (ParsedClient × Memory)) := do
  match ← cmdBase sys clientOptions args with
  | (.ok, some opt) => do
    let h4 ← opt.getOptFalse '4'
    let h6 ← opt.getOptFalse '6'
    if h4 && h6 then do
      let _ ← opt.free
      some (.err, none)
    else do
      let o ← clientOpt opt h4 h6
      some (.ok, some o)
  | (ret, _) => some (ret, none)

/-! ## The service -/

/-- The short key of an option that has none. -/
def noKey : Char := Char.ofNat 0

def serviceOptions : List (OptRec Unit) :=
  [keyInt "oneStepRx" 'r' 2 1 2, keyInt "oneStepTx" 't' 2 1 2, keyInt "priority1" noKey 128 0 255,
    keyInt "priority2" noKey 128 0 255, keyInt "clockClass" noKey 248 0 255,
    keyInt "clockAccuracy" noKey 0xfe 0 0xfe, keyInt "offsetScaledLogVariance" noKey 0xffff 0 0xffff,
    keyBool "ipv6" '6' false]

/-- The members of `struct service_opt` that `cmd_service` sets, with their pointers. -/
structure ParsedService where
  useRxTwoSteps : Bool
  useTxTwoSteps : Bool
  type : Prot
  ifName : Option CStr
deriving DecidableEq

def cmdService (sys : CmdSystem) (args : List GetoptStep) :
    Option (CmdRet × Option (ParsedService × Memory)) := do
  match ← cmdBase sys serviceOptions args with
  | (.ok, some opt) => do
    let ifName ← opt.getOptStr 'i'
    let rx ← opt.getOptInt 'r' 2
    let tx ← opt.getOptInt 't' 2
    let h6 ← opt.getOptFalse '6'
    let h ← opt.free
    some (.ok, some (⟨rx = 2, tx = 2, if h6 then .udpIPv6 else .udpIPv4, ifName⟩, h))
  | (ret, _) => some (ret, none)

end Csptp

import WalletMpc.Decimals
import WalletMpc.Hexadecimals
import WalletMpc.Readers

namespace SocketAddrs
open Readers
set_option autoImplicit true

structure Ipv4Addr where
  octets : UInt8 × UInt8 × UInt8 × UInt8
  deriving DecidableEq

structure Ipv6Addr where
  segments : List UInt16
  deriving DecidableEq

/-- A host of a socket address; the scope is part of an IPv6 one. -/
inductive Host where
  | v4 (ip : Ipv4Addr)
  | v6 (ip : Ipv6Addr) (scopeId : UInt32)
  deriving DecidableEq

structure SocketAddr where
  host : Host
  port : UInt16
  deriving DecidableEq

/-- A decimal number below a bound; in an octet there are no more than three digits, and no zero
before another digit. -/
def readDecimal (bound : Nat) (octet : Bool) : Reader Nat :=
  run Char.isDigit fun digits => (Decimals.parse digits).filter fun n =>
    n < bound && (!octet || digits.length ≤ 3 && (digits.head? ≠ some '0' || digits.length = 1))

def readHexadecimal : Reader UInt16 :=
  run (fun c => (Hexadecimals.digit c).isSome) fun digits =>
    if digits.length = 0 ∨ 4 < digits.length then none
    else some (UInt16.ofNat (digits.foldl (fun n c => 16 * n + (Hexadecimals.digit c).getD 0) 0))

def separated (first : Bool) (sep : Char) (r : Reader α) : Reader α :=
  if first then r else given sep >>= fun _ => r

def readIpv4Addr : Reader Ipv4Addr := do
  let a ← readDecimal 256 true
  given '.'
  let b ← readDecimal 256 true
  given '.'
  let c ← readDecimal 256 true
  given '.'
  let d ← readDecimal 256 true
  return ⟨UInt8.ofNat a, UInt8.ofNat b, UInt8.ofNat c, UInt8.ofNat d⟩

def Ipv4Addr.groups (ip : Ipv4Addr) : List UInt16 :=
  let (a, b, c, d) := ip.octets
  [a.toUInt16 <<< 8 ||| b.toUInt16, c.toUInt16 <<< 8 ||| d.toUInt16]

/-- The groups up to a limit, and whether the last two are an IPv4 address. -/
def readGroups : Nat → Bool → Reader (List UInt16 × Bool)
  | 0, _ => pure ([], false)
  | limit + 1, first => do
    match ← attempt (if 0 < limit then separated first ':' readIpv4Addr else failure) with
    | some ip => return (ip.groups, true)
    | none =>
      match ← attempt (separated first ':' readHexadecimal) with
      | none => return ([], false)
      | some group =>
        let (groups, ipv4) ← readGroups limit false
        return (group :: groups, ipv4)

def readIpv6Addr : Reader Ipv6Addr := do
  let (head, ipv4) ← readGroups 8 true
  if head.length = 8 then return ⟨head⟩
  else if ipv4 then failure
  else
    given ':'
    given ':'
    let (tail, _) ← readGroups (8 - (head.length + 1)) true
    return ⟨head ++ List.replicate (8 - head.length - tail.length) 0 ++ tail⟩

def readScopeId : Reader UInt32 := do
  given '%'
  let n ← readDecimal (2 ^ 32) false
  return UInt32.ofNat n

def readPort : Reader UInt16 := do
  let n ← readDecimal 65536 false
  return UInt16.ofNat n

/-- What stands between the brackets of an IPv6 address, with the opening one. -/
def readBracketed : Reader Host := do
  given '['
  let ip ← readIpv6Addr
  let scopeId ← attempt readScopeId
  return .v6 ip (scopeId.getD 0)

def readSocketAddrV4 : Reader SocketAddr := do
  let ip ← readIpv4Addr
  given ':'
  let port ← readPort
  return ⟨.v4 ip, port⟩

def readSocketAddrV6 : Reader SocketAddr := do
  let host ← readBracketed
  given ']'
  given ':'
  let port ← readPort
  return ⟨host, port⟩

/-- `str::parse::<SocketAddr>`. -/
def SocketAddr.parse (s : String) : Option SocketAddr :=
  whole (either readSocketAddrV4 readSocketAddrV6) s.toList

/-- The hosts that may stand before the port: an IPv4 address, or an IPv6 one in brackets. -/
def Host.parse (s : String) : Option Host :=
  whole (either (readIpv4Addr >>= fun ip => pure (.v4 ip))
    (readBracketed >>= fun host => given ']' >>= fun _ => pure host)) s.toList

example : SocketAddr.parse "127.0.0.1:50051" = some ⟨.v4 ⟨127, 0, 0, 1⟩, 50051⟩ := rfl

end SocketAddrs

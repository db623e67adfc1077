import LedgerExport.Engine.Host
import LedgerExport.Engine.Path

/-! # The address of the engine

A server and a port make the address `http://SERVER:PORT/`. The server is free text: it may bring
user information, a port or a path of its own, so what the parts of the address are is only known
once it has been read.
-/
namespace LedgerExport.Engine

inductive EndpointFault where
  | emptyHost | invalidPort
  | host (fault : HostFault)
  deriving Repr, DecidableEq

def EndpointFault.message : EndpointFault → Text
  | .emptyHost => "empty host".toList
  | .invalidPort => "invalid port number".toList
  | .host .empty => "empty host".toList
  | .host .invalidIpv4 => "invalid IPv4 address".toList
  | .host .invalidIpv6 => "invalid IPv6 address".toList
  | .host .invalidDomain => "invalid international domain name".toList

structure Endpoint where
  host : Host
  port : Nat
  path : Text
  query : Option Text
  fragment : Option Text
  deriving Repr, DecidableEq

namespace Endpoint

def defaultPort : Nat := 80

def endsAuthority (c : Char) : Bool := c == '/' || c == '?' || c == '#' || c == '\\'

/-- Tabs and line ends in an address count for nothing. -/
def isIgnored (c : Char) : Bool := c == '\t' || c == '\n' || c == '\r'

def afterLastAt (t : Text) : Text :=
  match t with
  | [] => []
  | c :: cs => if cs.contains '@' then afterLastAt cs else if c = '@' then cs else c :: cs

/-- The host, up to the first colon that stands outside square brackets. -/
def hostPart : Bool → Text → Text
  | _, [] => []
  | inside, c :: cs =>
    if c = ':' && !inside then []
    else c :: hostPart (if c = '[' then true else if c = ']' then false else inside) cs

/-- The port behind the colon; no digits at all leave the default. -/
def readPort (t : Text) : Except EndpointFault Nat :=
  match t with
  | [] => .ok defaultPort
  | _ =>
    if t.all Char.isDigit && Text.digitsValue t ≤ 65535 then .ok (Text.digitsValue t)
    else .error .invalidPort

def readTail (t : Text) : Text × Option Text × Option Text :=
  let front := t.takeWhile (· != '#')
  let path := front.takeWhile (· != '?')
  (readPath path, (front.drop path.length).tail?.map (escapeBytes isQueryChar),
    (t.drop front.length).tail?.map (escapeBytes isFragmentChar))

def readAuthority (host : Text → Except HostFault Host) (t : Text) :
    Except EndpointFault (Host × Nat) := do
  let address := afterLastAt t
  let name := hostPart false address
  if name.isEmpty then throw .emptyHost
  let host ← (host name).mapError .host
  let port ← readPort ((address.drop name.length).drop 1)
  return (host, port)

def readAddress (host : Text → Except HostFault Host) (t : Text) :
    Except EndpointFault Endpoint := do
  let authority := t.takeWhile fun c => !endsAuthority c
  let (host, port) ← readAuthority host authority
  let (path, query, fragment) := readTail (t.drop authority.length)
  return { host, port, path, query, fragment }

/-- The text of the address, before it is read. -/
def address (server : Text) (port : UInt16) : Text :=
  server ++ ':' :: Text.decimal port.toNat ++ ['/']

/-- Reads the address that a server and a port make, with a given way to read hosts. -/
def readWith (host : Text → Except HostFault Host) (server : Text) (port : UInt16) :
    Except EndpointFault Endpoint :=
  readAddress host (((address server port).filter fun c => !isIgnored c).dropWhile isSlash)

def read (server : Text) (port : UInt16) : Except EndpointFault Endpoint :=
  readWith Host.parse server port

end Endpoint

end LedgerExport.Engine

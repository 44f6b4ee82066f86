import SolidPod.Error
import SolidPod.Foundation.Outbound

/-!
# IP addresses and the HTTP client

Addresses of both families by their octets and segments, the predicates of the standard
library on them, and the texts they are shown with; then URLs, responses and the client
that the fetchers are built on. The URL library and what the client shows its errors with
are parameters; the network is the oracle of `Outbound`.
-/

namespace SolidPod

open Foundation Str

namespace Http

structure Ipv4Addr where
  a : UInt8
  b : UInt8
  c : UInt8
  d : UInt8
  deriving DecidableEq

structure Ipv6Addr where
  s0 : UInt16
  s1 : UInt16
  s2 : UInt16
  s3 : UInt16
  s4 : UInt16
  s5 : UInt16
  s6 : UInt16
  s7 : UInt16
  deriving DecidableEq

inductive IpAddr where
  | v4 (ip : Ipv4Addr)
  | v6 (ip : Ipv6Addr)
  deriving DecidableEq

namespace Ipv4Addr

def isUnspecified (ip : Ipv4Addr) : Bool := ip == ⟨0, 0, 0, 0⟩

def isBroadcast (ip : Ipv4Addr) : Bool := ip == ⟨255, 255, 255, 255⟩

def isDocumentation (ip : Ipv4Addr) : Bool :=
  (ip.a == 192 && ip.b == 0 && ip.c == 2) || (ip.a == 198 && ip.b == 51 && ip.c == 100) ||
    (ip.a == 203 && ip.b == 0 && ip.c == 113)

def isLoopback (ip : Ipv4Addr) : Bool := ip.a == 127

def isLinkLocal (ip : Ipv4Addr) : Bool := ip.a == 169 && ip.b == 254

def isMulticast (ip : Ipv4Addr) : Bool := 224 ≤ ip.a && ip.a ≤ 239

def isPrivate (ip : Ipv4Addr) : Bool :=
  ip.a == 10 || (ip.a == 172 && (16 ≤ ip.b && ip.b ≤ 31)) || (ip.a == 192 && ip.b == 168)

def display (ip : Ipv4Addr) : Str :=
  join "." ([ip.a, ip.b, ip.c, ip.d].map fun o => decimal o.toNat)

end Ipv4Addr

namespace Ipv6Addr

def segments (ip : Ipv6Addr) : List UInt16 :=
  [ip.s0, ip.s1, ip.s2, ip.s3, ip.s4, ip.s5, ip.s6, ip.s7]

def isUnspecified (ip : Ipv6Addr) : Bool := ip == ⟨0, 0, 0, 0, 0, 0, 0, 0⟩

def isLoopback (ip : Ipv6Addr) : Bool := ip == ⟨0, 0, 0, 0, 0, 0, 0, 1⟩

def isMulticast (ip : Ipv6Addr) : Bool := ip.s0 &&& 0xff00 == 0xff00

def toIpv4Mapped (ip : Ipv6Addr) : Option Ipv4Addr :=
  if ip.s0 = 0 ∧ ip.s1 = 0 ∧ ip.s2 = 0 ∧ ip.s3 = 0 ∧ ip.s4 = 0 ∧ ip.s5 = 0xffff then
    some ⟨(ip.s6 >>> 8).toUInt8, ip.s6.toUInt8, (ip.s7 >>> 8).toUInt8, ip.s7.toUInt8⟩
  else none

/-- A run of zero segments. -/
structure Span where
  start : Nat
  len : Nat

/-- The first of the longest runs of zeros. -/
def longestZeros : List UInt16 → (i : Nat) → (longest current : Span) → Span
  | [], _, longest, _ => longest
  | s :: rest, i, longest, current =>
    if s = 0 then
      let current : Span := ⟨if current.len = 0 then i else current.start, current.len + 1⟩
      longestZeros rest (i + 1) (if longest.len < current.len then current else longest) current
    else longestZeros rest (i + 1) longest ⟨0, 0⟩

def showSegments (l : List UInt16) : Str := join ":" (l.map fun s => Nat.toDigits 16 s.toNat)

/-- The text of a URL's host; the brackets are not part of it. -/
def urlText (ip : Ipv6Addr) : Str :=
  let zeros := longestZeros ip.segments 0 ⟨0, 0⟩ ⟨0, 0⟩
  if zeros.len > 1 then
    showSegments (ip.segments.take zeros.start) ++ "::" ++
      showSegments (ip.segments.drop (zeros.start + zeros.len))
  else showSegments ip.segments

def display (ip : Ipv6Addr) : Str :=
  match ip.toIpv4Mapped with
  | some v4 => "::ffff:" ++ v4.display
  | none => ip.urlText

end Ipv6Addr

def IpAddr.display : IpAddr → Str
  | .v4 ip => ip.display
  | .v6 ip => ip.display

example : Ipv6Addr.urlText ⟨0x2001, 0xdb8, 0, 0, 1, 0, 0, 1⟩ = "2001:db8::1:0:0:1".toList := by
  decide

/-! ## Requests and responses -/

open Program

abbrev Host := Outbound.Host Str IpAddr

def hostStr : Host → Str
  | .literal (.v4 ip) => ip.display
  | .literal (.v6 ip) => '[' :: ip.urlText ++ [']']
  | .name domain => domain

structure Url where
  scheme : Str
  host : Option Host
  path : Str
  text : Str
  deriving DecidableEq

/-- A body is bytes, unless reading it failed. -/
structure Response where
  status : Nat
  contentType : Option Str
  body : Except Str Bytes

def Response.isSuccess (r : Response) : Bool := 200 ≤ r.status && r.status < 300

def Response.json {α : Type} (r : Response) (parse : Bytes → Except Str α) : Except Str α :=
  match r.body with
  | .ok body => parse body
  | .error e => .error e

abbrev Net := Outbound.Net Str IpAddr Url Response Str
abbrev Client := Outbound.Client Str IpAddr
abbrev ClientError := Outbound.ClientError Str

/-- The components that fetch from outside. -/
inductive Fetcher where
  | oidc
  | didNostr
  | webId
  | clientStore
  deriving DecidableEq

abbrev Hop := Outbound.Hop Fetcher Str IpAddr
abbrev Log := Outbound.Log Fetcher Str IpAddr
abbrev Fetch (ε α : Type) := Program Log ε α

/-- The libraries: URLs, texts of errors and of status codes, and a body as text. The builder
of a client fails when it has nothing to encrypt with. -/
structure Web where
  parse : Str → Except Str Url
  join : Url → Str → Except Str Url
  setPath : Url → Str → Url
  showError : ClientError → Str
  showStatus : Nat → Str
  text : Option Str → Bytes → Str
  builderError : Option Str

/-- The client connects for web URLs only. -/
def target (url : Url) : Option Host :=
  if url.scheme = "http".toList ∨ url.scheme = "https".toList then url.host else none

def Response.text (web : Web) (r : Response) : Except Str Str := r.body.map (web.text r.contentType)

/-- What a client follows when its builder is not told otherwise. -/
def defaultRedirects : Nat := 10

def Web.build (web : Web) (client : Client) : Except Str Client :=
  match web.builderError with
  | some e => .error e
  | none => .ok client

/-- A request for a URL that is given as text. -/
def send (web : Web) (net : Net) (caller : Fetcher) (checked : Host) (client : Client)
    (url : Str) : Fetch ClientError Response :=
  match web.parse url with
  | .error _ => .fail .badUrl
  | .ok u => client.get net target caller checked u

/-- A request of an unpinned client. -/
theorem keeps_send {web : Web} {net : Net} {permits : Fetcher → Host → IpAddr → Prop}
    {caller : Fetcher} {checked : Host} {client : Client} (hclient : client.overrides = [])
    (hchecked : ∀ ip, checked = .literal ip → permits caller checked ip) (url : Str) :
    Keeps (Outbound.Log.Guarded net permits) (send web net caller checked client url)
      (fun _ => True) := by
  have hhop (turn : Nat) (host : Host) : Outbound.Hop.Guarded net
      (⟨caller, checked, client, turn, host⟩ : Hop) (permits caller) := by
    apply Outbound.Hop.guarded_of_unpinned net hclient
    exact hchecked
  unfold send
  cases web.parse url with
  | error e => exact Keeps.fail _
  | ok u => exact Outbound.Log.keeps_get hhop target u

end Http

end SolidPod

import SolidPod.Foundation.Utf8
import SolidPod.Wac.Document

/-!
# The `acl:origin` gate

Origins are canonical `scheme://host[:port]` texts; an authorisation declares
patterns for them. The gate looks at the patterns of the whole document. URL
parsing is the URL library's, so it is a parameter.
-/

namespace SolidPod

namespace Wac

open Foundation Str

/-- What the gate reads of a parsed URL; `port` is absent when it is the
default one. -/
structure Url where
  scheme : Str
  hostStr : Option Str
  port : Option Nat
  deriving DecidableEq

abbrev UrlParse := Str → Option Url

structure Origin where
  serialised : Str
  deriving DecidableEq

def Origin.fromUrl (url : Url) : Option Origin :=
  url.hostStr.map fun host =>
    let base := toAsciiLowercase url.scheme ++ "://" ++ toAsciiLowercase host
    match url.port with
    | none => ⟨base⟩
    | some p => ⟨base ++ ':' :: Nat.toDigits 10 p⟩

def Origin.parse (urlParse : UrlParse) (s : Str) : Option Origin :=
  let trimmed := trim s
  if trimmed.isEmpty then none else (urlParse trimmed).bind Origin.fromUrl

inductive OriginPattern where
  | exact (o : Origin)
  | wildcard (scheme suffix : Str)
  | any
  deriving DecidableEq

def OriginPattern.parseWildcard (scheme suffixPart : Str) : Option OriginPattern :=
  if suffixPart.isEmpty then none
  else if suffixPart.any isWhitespace || suffixPart.contains '*' then none
  else if suffixPart.contains '/' then none
  else some (.wildcard scheme (toAsciiLowercase suffixPart))

def OriginPattern.parse (urlParse : UrlParse) (s : Str) : Option OriginPattern :=
  let trimmed := trim s
  if trimmed.isEmpty then none
  else if trimmed == "*" then some .any
  else
    match stripPrefix "https://*." trimmed with
    | some rest => parseWildcard "https" rest
    | none =>
      match stripPrefix "http://*." trimmed with
      | some rest => parseWildcard "http" rest
      | none =>
        if endsWith "/" trimmed then none
        else
          (Origin.parse urlParse trimmed).bind fun origin =>
            if origin.serialised == toAsciiLowercase trimmed then some (.exact origin) else none

/-- The text before the first `:`, or all of it. -/
def beforeColon (s : Str) : Str := ((splitOnce ':' s).map Prod.fst).getD s

/-- The text around the first `://`. -/
def splitScheme : Str → Option (Str × Str)
  | [] => none
  | c :: cs =>
    match stripPrefix "://" (c :: cs) with
    | some rest => some ([], rest)
    | none => (splitScheme cs).map fun r => (c :: r.1, r.2)

def OriginPattern.matches : OriginPattern → Origin → Bool
  | .any, _ => true
  | .exact expected, origin => expected == origin
  | .wildcard scheme suffix, origin =>
    match splitScheme origin.serialised with
    | none => false
    | some (reqScheme, reqRest) =>
      if reqScheme != scheme then false
      else
        let needle := '.' :: beforeColon suffix
        let reqHost := beforeColon reqRest
        endsWith needle reqHost && decide (byteLen reqHost > byteLen needle)

/-- The patterns an authorisation declares; malformed entries are dropped. -/
def extractOriginPatterns (urlParse : UrlParse) (auth : AclAuthorization) : List OriginPattern :=
  (getIds auth.origin).filterMap (OriginPattern.parse urlParse)

inductive OriginDecision where
  | noPolicySet
  | permitted
  | rejectedMismatch
  | rejectedNoOrigin
  deriving DecidableEq

def OriginPattern.key : OriginPattern → Str
  | .any => "*"
  | .exact o => "exact:" ++ o.serialised
  | .wildcard scheme suffix => "wild:" ++ scheme ++ "://*." ++ suffix

/-- One pattern of the scan: a pattern whose key was seen is skipped. The state
is the keys seen, whether there was any pattern, and whether one matched. -/
def checkPattern (requestOrigin : Option Origin) (st : List Str × Bool × Bool)
    (p : OriginPattern) : List Str × Bool × Bool :=
  let (seen, _, matched) := st
  if seen.contains p.key then st
  else
    (p.key :: seen, true,
      matched || (requestOrigin.map fun req => p.matches req).getD false)

def checkOrigin (urlParse : UrlParse) (acl : AclDocument) (requestOrigin : Option Origin) :
    OriginDecision :=
  match acl.graph with
  | none => .noPolicySet
  | some graph =>
    let (_, anyPatterns, matched) :=
      (graph.flatMap (extractOriginPatterns urlParse)).foldl (checkPattern requestOrigin)
        ([], false, false)
    if !anyPatterns then .noPolicySet
    else if matched then .permitted
    else if requestOrigin.isNone then .rejectedNoOrigin
    else .rejectedMismatch

end Wac

end SolidPod

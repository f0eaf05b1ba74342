import Kindred.Net.ClientIp

/-! The guard of outbound requests: which hosts and addresses are never connected to. -/

namespace Kindred.Net

/-- What `.` of a pattern does not match. -/
def isLineEnd (c : Char) : Bool := c ∈ ['\n', '\r', '\u2028', '\u2029']

def lowered (cs : List Char) : List Char := (Rest.lower (.ofList cs)).toList

/-- `replace(/^\[|\]$/g, '')` -/
def stripBrackets (cs : List Char) : List Char :=
  let cs := if cs.head? = some '[' then cs.tail else cs
  if cs.getLast? = some ']' then cs.dropLast else cs

/-- `replace(/%.*$/, '')` -/
def stripZone : List Char → List Char
  | [] => []
  | c :: cs => if c = '%' ∧ cs.all (!isLineEnd ·) then [] else c :: stripZone cs

def normalizeHostname (host : List Char) : List Char :=
  lowered ((stripBrackets host).reverse.dropWhile (· = '.')).reverse

/-- `.*` and a suffix. -/
def endsWith (suffix : String) (cs : List Char) : Bool :=
  suffix.toList.isSuffixOf cs && (cs.take (cs.length - suffix.length)).all (!isLineEnd ·)

def isBlockedHostname (host : List Char) : Bool :=
  let host := (normalizeHostname host).map Char.toLower
  host == "localhost".toList || endsWith ".localhost" host || endsWith ".local" host ||
    endsWith ".internal" host || host == "metadata".toList ||
    host == "metadata.google.internal".toList

/-- `^(\d{1,3})\.(\d{1,3})\.(\d{1,3})\.(\d{1,3})$` -/
def quad (cs : List Char) : Option (List ℕ) :=
  let parts := cs.splitOn '.'
  if parts.length = 4 ∧ parts.all fun p => p != [] && p.length ≤ 3 && p.all Char.isDigit then
    some (parts.map (number 10))
  else none

def isPrivateIpv4 (host : List Char) : Bool :=
  match quad host with
  | some [a, b, c, _] =>
    if a = 10 ∨ a = 127 ∨ a = 0 then true
    else if a = 169 ∧ b = 254 then true
    else if a = 172 ∧ 16 ≤ b ∧ b ≤ 31 then true
    else if a = 192 ∧ b = 168 then true
    else if a = 100 ∧ 64 ≤ b ∧ b ≤ 127 then true
    else if a = 192 ∧ b = 0 ∧ (c = 0 ∨ c = 2) then true
    else if a = 198 ∧ (b = 18 ∨ b = 19) then true
    else if a = 198 ∧ b = 51 ∧ c = 100 then true
    else if a = 203 ∧ b = 0 ∧ c = 113 then true
    else false
  | _ => false

def doubleColons : List Char → ℕ
  | ':' :: ':' :: cs => doubleColons cs + 1
  | _ :: cs => doubleColons cs
  | [] => 0

def ipv6First16Bits (addr : List Char) : Option ℕ :=
  let host := stripBrackets (stripZone (lowered addr))
  if ':' ∉ host then none
  else if 1 < doubleColons host then none
  else
    let head := ((cutDouble host).map Prod.fst).getD host
    if head = [] then some 0
    else
      let first := head.takeWhile (· ≠ ':')
      if isV6Seg first ∧ first.all fun c => !c.isUpper then some (number 16 first) else none

def isIpv6LinkLocal (addr : List Char) : Bool :=
  match ipv6First16Bits addr with
  | none => false
  | some first => first &&& 0xffc0 == 0xfe80

/-- What follows a prefix, in either case. -/
def after (start : String) (cs : List Char) : Option (List Char) :=
  if (cs.take start.length).map Char.toLower = start.toList then some (cs.drop start.length)
  else none

def mappedIpv4 (host : List Char) : Option (List Char) :=
  let tails := [after "::ffff:" host, after "::" host].reduceOption
  match tails.find? fun tail => (quad tail).isSome with
  | some dottedTail => some dottedTail
  | none =>
    match (after "::ffff:" host).map (List.splitOn ':') with
    | some [hi, lo] =>
      if isV6Seg hi ∧ isV6Seg lo then
        let hi := number 16 hi
        let lo := number 16 lo
        some (dotted [hi >>> 8, hi &&& 0xff, lo >>> 8, lo &&& 0xff])
      else none
    | _ => none

/-- `^f[…][0-9a-f]{2}:` -/
def startsWithF (second : List Char) : List Char → Bool
  | 'f' :: c :: d :: e :: ':' :: _ =>
    second.contains c && isHex d && !d.isUpper && isHex e && !e.isUpper
  | _ => false

/-- What `new URL` reads. The port is absent where it is the protocol's own. -/
structure Url where
  protocol : String
  username : String
  password : String
  port : Option ℕ
  hostname : List Char

def isSafeOutboundUrl (url : Option Url) : Bool :=
  match url with
  | none => false
  | some u =>
    if u.protocol ≠ "https:" then false
    else if u.username ≠ "" ∨ u.password ≠ "" then false
    else if u.port.any fun port => !(0 < port && port ≤ 65535) then false
    else
      let host := normalizeHostname u.hostname
      if host = [] then false
      else if isBlockedHostname host then false
      else if isPrivateIpv4 host then false
      else if (mappedIpv4 host).any isPrivateIpv4 then false
      else if host = "::1".toList ∨ host = "::".toList ∨
          startsWithF ['c', 'd'] (host.map Char.toLower) ∨ isIpv6LinkLocal host then false
      else if startsWithF ['f'] (host.map Char.toLower) then false
      else true

def isBlockedIpv4 (host : List Char) : Bool :=
  if isPrivateIpv4 host then true
  else
    match quad host with
    | none => false
    | some m => 224 ≤ m.getD 0 0

def isBlockedIpv6 (addr : List Char) : Bool :=
  let host := stripZone (lowered addr)
  if host = "::1".toList ∨ host = "::".toList then true
  else if startsWithF ['c', 'd'] host then true
  else if isIpv6LinkLocal host then true
  else if startsWithF ['f'] host then true
  else
    match mappedIpv4 host with
    | some mapped => isBlockedIpv4 mapped
    | none => false

def isBlockedIpAddress (address : List Char) (family : ℕ) : Bool :=
  if family = 6 ∨ ':' ∈ address then isBlockedIpv6 address else isBlockedIpv4 address

end Kindred.Net

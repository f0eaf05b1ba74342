import Kindred.Net.HostGuard

/-! The addresses behind the texts: what a text spells, and the networks that the guard names. -/

namespace Kindred.Net

structure Ipv4 where
  a : ℕ
  b : ℕ
  c : ℕ
  d : ℕ
  bound : a < 256 ∧ b < 256 ∧ c < 256 ∧ d < 256
  deriving DecidableEq

structure Ipv6 where
  groups : List ℕ
  length : groups.length = 8
  bound : ∀ g ∈ groups, g < 65536
  deriving DecidableEq

inductive Address where
  | v4 (ip : Ipv4)
  | v6 (ip : Ipv6)
  deriving DecidableEq

def Ipv4.octets (ip : Ipv4) : List ℕ := [ip.a, ip.b, ip.c, ip.d]

def groupsOf (cs : List Char) : List ℕ :=
  if cs = [] then []
  else
    let parts := cs.splitOn ':'
    if parts.all isV6Seg then parts.map (number 16)
    else
      let o := octets (parts.getLastD [])
      parts.dropLast.map (number 16) ++
        [o.getD 0 0 * 256 + o.getD 1 0, o.getD 2 0 * 256 + o.getD 3 0]

def bodyGroups (cs : List Char) : List ℕ :=
  match cutDouble cs with
  | none => groupsOf cs
  | some (head, tail) =>
    let a := groupsOf head
    let b := groupsOf tail
    a ++ List.replicate (8 - a.length - b.length) 0 ++ b

/-- `isIP` takes the text, and reads it as the address. -/
def Spells (cs : List Char) : Address → Prop
  | .v4 ip => isV4 cs = true ∧ octets cs = ip.octets
  | .v6 ip => isV6 cs = true ∧ bodyGroups (cs.takeWhile (· != '%')) = ip.groups

instance (cs : List Char) (address : Address) : Decidable (Spells cs address) := by
  cases address <;> unfold Spells <;> infer_instance

def Address.family : Address → ℕ
  | .v4 _ => 4
  | .v6 _ => 6

/-- The host that `new URL` writes for an address, whatever the URL spelled. -/
def Address.urlHost : Address → List Char
  | .v4 ip => dotted ip.octets
  | .v6 ip => ['['] ++ canonicalIpv6 ip.groups ++ [']']

def Ipv4.value (ip : Ipv4) : ℕ := ((ip.a * 256 + ip.b) * 256 + ip.c) * 256 + ip.d

/-- In the network `base/len`. -/
def Ipv4.within (ip : Ipv4) (base : Ipv4) (len : ℕ) : Prop :=
  ip.value / 2 ^ (32 - len) = base.value / 2 ^ (32 - len)

instance (ip base : Ipv4) (len : ℕ) : Decidable (ip.within base len) := by
  unfold Ipv4.within; infer_instance

def namedNetworks : List (Ipv4 × ℕ) := [
  (⟨10, 0, 0, 0, by decide⟩, 8), (⟨127, 0, 0, 0, by decide⟩, 8), (⟨0, 0, 0, 0, by decide⟩, 8),
  (⟨169, 254, 0, 0, by decide⟩, 16), (⟨172, 16, 0, 0, by decide⟩, 12),
  (⟨192, 168, 0, 0, by decide⟩, 16), (⟨100, 64, 0, 0, by decide⟩, 10),
  (⟨192, 0, 0, 0, by decide⟩, 24), (⟨192, 0, 2, 0, by decide⟩, 24),
  (⟨198, 18, 0, 0, by decide⟩, 15), (⟨198, 51, 100, 0, by decide⟩, 24),
  (⟨203, 0, 113, 0, by decide⟩, 24), (⟨224, 0, 0, 0, by decide⟩, 4),
  (⟨240, 0, 0, 0, by decide⟩, 4)]

def Ipv4.Named (ip : Ipv4) : Prop := ∃ n ∈ namedNetworks, ip.within n.1 n.2

instance (ip : Ipv4) : Decidable ip.Named := by unfold Ipv4.Named; infer_instance

def Ipv6.embedded (ip : Ipv6) : Option (List ℕ) :=
  if ip.groups.take 5 = [0, 0, 0, 0, 0] ∧
      (ip.groups.getD 5 0 = 0 ∨ ip.groups.getD 5 0 = 0xffff) then
    let x := ip.groups.getD 6 0
    let y := ip.groups.getD 7 0
    some [x / 256, x % 256, y / 256, y % 256]
  else none

def Ipv6.Embeds (ip : Ipv6) (v4 : Ipv4) : Prop := ip.embedded = some v4.octets

def Ipv6.Named (ip : Ipv6) : Prop :=
  let first := ip.groups.getD 0 0
  ip.groups = [0, 0, 0, 0, 0, 0, 0, 0] ∨ ip.groups = [0, 0, 0, 0, 0, 0, 0, 1] ∨
    first / 2 ^ 9 = 0xfc00 / 2 ^ 9 ∨ first / 2 ^ 6 = 0xfe80 / 2 ^ 6 ∨ first / 2 ^ 8 = 0xff00 / 2 ^ 8

def Address.InRange : Address → Prop
  | .v4 ip => ip.Named
  | .v6 ip => ip.Named ∨ ∃ v4, ip.Embeds v4 ∧ v4.Named

def Url.IsPlain (u : Url) : Prop :=
  u.protocol = "https:" ∧ u.username = "" ∧ u.password = "" ∧
    ∀ p, u.port = some p → 0 < p ∧ p ≤ 65535

/-- The guard judges the address, not its spellings: all verdicts are one, and
against it where the address is of a named network. -/
def Judges (address : Address) : Prop :=
  ∃ blocked : Bool,
    (∀ cs, Spells cs address → isBlockedIpAddress cs address.family = blocked) ∧
    (∀ u : Url, u.IsPlain → u.hostname = address.urlHost → isSafeOutboundUrl (some u) = !blocked) ∧
    (address.InRange → blocked = true)

def Spared : Address → Prop
  | .v4 ip => ip.a < 224
  | .v6 ip => ∀ v4, ip.Embeds v4 → ¬v4.Named

end Kindred.Net

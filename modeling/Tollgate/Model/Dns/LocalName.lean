import Tollgate.Model.Policy.HostPattern

/-! # Names only the local network's resolver can answer

Bare device names, names under the suffixes routers and home networks use, and the reverse zones of
private and link-local addresses. They are never sent to the public upstreams.
-/

namespace Tollgate.Dns

/-- Suffixes of names only a local resolver knows. -/
def localSuffixes : List String :=
  ["lan", "home.arpa", "internal", "localdomain", "fritz.box", "intranet", "corp", "private"]

/-- Reverse zones of 10/8, 172.16/12, 192.168/16, 169.254/16, fc00::/7 and fe80::/10. -/
def localReverseZones : List String :=
  ["10.in-addr.arpa", "16.172.in-addr.arpa", "17.172.in-addr.arpa", "18.172.in-addr.arpa",
    "19.172.in-addr.arpa", "20.172.in-addr.arpa", "21.172.in-addr.arpa", "22.172.in-addr.arpa",
    "23.172.in-addr.arpa", "24.172.in-addr.arpa", "25.172.in-addr.arpa", "26.172.in-addr.arpa",
    "27.172.in-addr.arpa", "28.172.in-addr.arpa", "29.172.in-addr.arpa", "30.172.in-addr.arpa",
    "31.172.in-addr.arpa", "168.192.in-addr.arpa", "254.169.in-addr.arpa", "c.f.ip6.arpa",
    "d.f.ip6.arpa", "8.e.f.ip6.arpa", "9.e.f.ip6.arpa", "a.e.f.ip6.arpa", "b.e.f.ip6.arpa"]

/-- Whether the name is the suffix or ends in it behind a dot, ignoring ASCII letter case. -/
def under (name suffix : Text) : Bool :=
  let name := name.asBytes
  let suffix := suffix.asBytes
  if name.length < suffix.length then false
  else
    let start := name.length - suffix.length
    eqIgnoreCase (name.drop start) suffix && (start == 0 || name[start - 1]? == some (Text.byte '.'))

/-- Whether the name, with or without the final dot, is answered only by the local network's
resolver. -/
def isLocalName (name : Text) : Bool :=
  let name := name.stripDot
  if name.isEmpty then false
  else
    !name.contains '.' || (localSuffixes ++ localReverseZones).any fun suffix => under name suffix.toList

end Tollgate.Dns

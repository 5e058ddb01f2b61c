import Tollgate.Model.Core.Text

/-! # Host patterns of the allowlist

`example.com` matches exactly that host; `*.example.com` matches `example.com` and every subdomain.
Matching compares bytes and ignores ASCII case and one trailing dot.
-/

namespace Tollgate

/-- `eq_ignore_ascii_case` of byte slices. -/
def eqIgnoreCase (left right : Bytes) : Bool := left.map lowerByte == right.map lowerByte

/-- A lowercase name without `*.` or a trailing dot, and whether it stood behind `*.`. -/
structure HostPattern where
  name : Text
  wildcard : Bool
deriving DecidableEq, Repr

def HostPattern.matches (pattern : HostPattern) (host : Text) : Bool :=
  let host := host.stripDot.asBytes
  let name := pattern.name.asBytes
  if host.length = name.length then eqIgnoreCase host name
  else if !pattern.wildcard || host.length ≤ name.length then false
  else
    let split := host.length - name.length
    host[split - 1]? == some (Text.byte '.') && eqIgnoreCase (host.drop split) name

end Tollgate

import Tollgate.Model.Core.IpAddr
import Tollgate.Model.Filter.DomainSet
import Tollgate.Model.Policy.Policy

/-! # Which hosts the proxy blocks

Clients that use the proxy send it a name instead of looking it up, so the proxy asks the DNS blocklist
itself. A block is counted and recorded, which no decision reads and is left out.
-/

namespace Tollgate.Mitm

/-- What the proxy's connections share, as far as blocking reads it. -/
structure ProxyContext where
  domains : Option DomainSet
  policy : Policy

/-- The DNS blocklist that blocks a host, if one does. -/
def domainBlockedBy (context : ProxyContext) (host : Text) : Option (Option DomainSet) :=
  let host := Text.stripDot host
  let bare := ((Text.stripPrefix host ['[']).bind fun h => Text.stripSuffix h [']']).getD host
  if bare.isEmpty ∨ IpAddr.isIpAddr bare then some none
  else
    match context.domains with
    | none => some none
    | some domains => do
        let blocked ← domains.isBlocked bare
        if !blocked ∨ context.policy.isAllowlisted bare then some none else some (some domains)

end Tollgate.Mitm

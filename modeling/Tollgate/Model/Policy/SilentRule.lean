import Tollgate.Model.Policy.PinBook

/-! # The documented rule for silent refusals

The rule is stated over the whole history of calls, newest first, and reads nothing of the counts
the policy keeps: only which hosts had a live pin at a call, and which calls made a host a pin. A
refusal is noted, it may complete a burst, and it counts when no burst is near. What counted for a
host since it was last cleared, set against the handshakes clients completed with our certificate,
decides whether one more refusal makes the host a pin.
-/

namespace Tollgate.SilentRule

open Machine

variable (saved : HostMap ℕ)

/-- The host had a live pin when the call after this history was made. -/
def hasLivePin (past : List Call) (host : Text) (now : ℕ) : Bool :=
  ((afterCalls saved past).pins.lookup host).any fun time => pinIsLive time now

/-- The newest call is a silent refusal of a host that had no live pin. -/
def noted : List Call → Option (Text × ℕ)
  | [] => none
  | call :: past =>
      match call.op with
      | .recordSilentRefusal host now =>
          if lookupKey host = [] ∨ hasLivePin saved past (lookupKey host) now.toNat then none
          else some (lookupKey host, now.toNat)
      | _ => none

def isNetworkChange : List Call → Bool
  | [] => false
  | call :: _ =>
      match call.op with
      | .onNetworkChange _ => true
      | _ => false

/-- The refusals noted since the last network change. -/
def notedSince (history : List Call) : List (Text × ℕ) := since isNetworkChange (noted saved) history

/-- The different hosts noted in the burst window, since the last network change. -/
def notedHosts (history : List Call) (now : ℕ) : Finset Text :=
  (((notedSince saved history).filter fun refusal => now - refusal.2 ≤ silentBurstSecs).map Prod.fst).toFinset

/-- The newest call is a refusal that, counting it, completes a burst; its time. -/
def burst (history : List Call) : Option ℕ :=
  match noted saved history with
  | some (_, now) => if silentBurstHosts ≤ (notedHosts saved history now).card then some now else none
  | none => none

/-- The times of the bursts so far. -/
def bursts (history : List Call) : List ℕ := since (fun _ => false) (burst saved) history

/-- The newest call is a noted refusal, not a burst, and no burst happened shortly before. -/
def counted (history : List Call) : Option (Text × ℕ) :=
  match noted saved history with
  | some (host, now) =>
      if (bursts saved history).any fun time => now < time + silentSuppressSecs then none else some (host, now)
  | none => none

/-- The newest call clears what counted for a host: it is a burst or a network change, it forgets
the host, or it makes it a pin. -/
def clears (host : Text) : List Call → Bool
  | [] => false
  | call :: past =>
      (burst saved (call :: past)).isSome || ((afterCalls saved past).learned call).any (fun made => made.1 = host) ||
        match call.op with
        | .onNetworkChange _ => true
        | .forgetPins hosts => host ∈ hosts.map lookupKey
        | _ => false

/-- The newest call is a completed handshake for a host. -/
def handshake (host : Text) : List Call → Option ℕ
  | [] => none
  | call :: _ =>
      match call.op with
      | .recordInterceptedHandshake name now =>
          if lookupKey name = host ∧ host ≠ [] then some now.toNat else none
      | _ => none

/-- The times of the handshakes completed for a host. -/
def handshakes (host : Text) (history : List Call) : List ℕ := since (fun _ => false) (handshake host) history

/-- Those at most so many seconds before `now`. -/
def lately (maxAge now : ℕ) (times : List ℕ) : List ℕ := times.filter fun time => now - time ≤ maxAge

/-- The newest call is a counted refusal of a host. -/
def countedOf (host : Text) (history : List Call) : Option ℕ :=
  match counted saved history with
  | some (name, now) => if name = host then some now else none
  | none => none

/-- The newest call is one with no handshake of the host shortly before it. -/
def quietOf (host : Text) (history : List Call) : Option ℕ :=
  (countedOf saved host history).filter fun now => lately rejectionWindowSecs now (handshakes host history) = []

/-- The refusals of a host that counted since it was last cleared. -/
def countedSince (host : Text) (history : List Call) : List ℕ := since (clears saved host) (countedOf saved host) history

/-- Those of them made with no handshake of the host shortly before. -/
def quietSince (host : Text) (history : List Call) : List ℕ := since (clears saved host) (quietOf saved host) history

/-- The rule for a silent refusal of a host at `now`, after a history of calls: it counts, and either
no client trusts us and the quiet refusals fall in enough different seconds, or one does and the
refusals flood the host. Both counts include this refusal. -/
def MakesPin (past : List Call) (call : Call) : Prop :=
  ∃ host now, counted saved (call :: past) = some (host, now) ∧
    ((lately rejectionWindowSecs now (handshakes host past) = [] ∧
      silentRefusals ≤ (lately rejectionWindowSecs now (now :: quietSince saved host past)).toFinset.card) ∨
    (lately rejectionWindowSecs now (handshakes host past) ≠ [] ∧
      silentFloodSeconds ≤ (lately silentFloodSecs now (now :: countedSince saved host past)).toFinset.card ∧
      silentFloodRatio * (lately silentFloodSecs now (handshakes host past)).length ≤
        (lately silentFloodSecs now (now :: countedSince saved host past)).length))

/-- The host keys of the calls that name one host. -/
def hostKeys (calls : List Call) : Finset Text :=
  (calls.filterMap fun call =>
    match call.op with
    | .recordClientRejection host _ | .recordSilentRefusal host _ | .recordInterceptedHandshake host _
    | .learnUpstreamUntrusted host _ => some (lookupKey host)
    | _ => none).toFinset

end Tollgate.SilentRule

namespace Tollgate.AlertRule

/-- The newest call makes the host a pin in any way, or forgets it. -/
def settles (saved : HostMap ℕ) (host : Text) : List Call → Bool
  | [] => false
  | call :: past =>
      ((afterCalls saved past).learned call).any (fun made => made.1 = host) ||
        match call.op with
        | .forgetPins hosts => host ∈ hosts.map lookupKey
        | _ => false

end Tollgate.AlertRule

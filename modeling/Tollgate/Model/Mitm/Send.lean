import Tollgate.Model.Mitm.Pool
import Tollgate.Model.Mitm.Requests

/-! # Sending one request

`send` checks a connection out, hands the request to it, and may do so once more. Here it is followed for
one request to any target: a step is one section of `checkout` under the lock of the entries, which finds the
target's entry in any state, or the end of an await with any outcome. `turns` and `handed` record how often
the body of the retry loop began and which connections the request was handed to; no step reads them.
-/

namespace Tollgate.Mitm

inductive UpstreamError where
  | connect (message : Text)
  | timeout
  | serverName (name : Text)
  | exhausted
  | http (message : Text)
  /-- The server rejected the empty client certificate. -/
  | clientCertificate (error : UpstreamError)
deriving DecidableEq, Repr

def Unreachable.error : Unreachable → UpstreamError
  | .timeout => .timeout
  | .connect message => .connect message

/-- Where `checkout` got a connection from. -/
inductive Checkout where
  | pooled
  /-- Opened for this request; `certRejection` if the server may still reject the empty certificate. -/
  | new (certRejection : Bool)
deriving DecidableEq, Repr

/-- A connection that the request was handed to. -/
structure HandOver where
  protocol : Protocol
  checkout : Checkout
  /-- The request as it was handed over. -/
  request : Request Body
  /-- The connection gave the request back as unsent. -/
  gaveBack : Bool
  /-- The connection may have sent some of it. -/
  wrote : Bool
deriving DecidableEq

def Sender.protocol : Sender → Protocol
  | .http1 _ => .http1
  | .http2 => .http2

/-- The request as it is handed to a connection. -/
def rewrite (parse : Text → Option Uri) (target : Target) (request : Request Body) : Protocol → Request Body
  | .http1 => forHttp1 parse request target
  | .http2 => forHttp2 parse request target

namespace Send

/-- Where `send` stands. -/
inductive Phase where
  | looking (ask : Ask)
  /-- Waits for a slot or a notification. -/
  | waiting (ask : Ask)
  | locking (ask : Ask) (protocol : Option Protocol)
  | relooking (ask : Ask) (protocol : Option Protocol)
  /-- About to take a global permit under the dial lock. -/
  | choosing (ask : Ask)
  /-- Waits for a global permit without the dial lock. -/
  | exhausted (ask : Ask)
  | connecting
  | sending (checkout : Checkout)
  /-- It returned, or was dropped by its caller. -/
  | done (result : Option (Except UpstreamError Unit))
deriving DecidableEq

/-- How a step goes. -/
inductive Choice where
  /-- A section that finds the entry in a state, at a time, with its connections in view. -/
  | look (host : Host) (now : ℕ) (view : View)
  | granted
  | notified
  | locked
  /-- Whether a global permit is free. -/
  | global (free : Bool)
  /-- A global permit was awaited. -/
  | freed
  /-- No permit or no connection. -/
  | failed (error : UpstreamError)
  | connected (protocol : Protocol) (certRejection : Bool)
  | responded
  /-- The exchange failed: the message if it is given back, whether some of it was written, and whether
  a fatal alert was read. -/
  | refused (error : Text) (message : Option (Request Body)) (wrote alert : Bool)
  | cancelled
deriving DecidableEq

end Send

structure Send where
  request : Request Body
  freshOnly : Bool
  replay : Option (Request Unit)
  turns : ℕ
  handed : List HandOver
  phase : Send.Phase
deriving DecidableEq

namespace Send

def start (request : Request Body) : Send :=
  ⟨request, false, replayable request, 1, [], .looking ⟨false, none, false⟩⟩

def go (send : Send) (phase : Phase) : Send := { send with phase := phase }

/-- `checkout` returned a connection. -/
def hand (parse : Text → Option Uri) (target : Target) (send : Send) (protocol : Protocol) (checkout : Checkout) : Send :=
  let request := rewrite parse target send.request protocol
  { send with
    handed := send.handed ++ [⟨protocol, checkout, request, false, true⟩]
    phase := .sending checkout }

/-- The body of the retry loop begins again, with a connection of its own. -/
def retry (send : Send) (request : Request Body) (replay : Option (Request Unit)) : Send :=
  { send with
    request := request
    freshOnly := true
    replay := replay
    turns := send.turns + 1
    phase := .looking ⟨true, none, false⟩ }

/-- The error of the last attempt. -/
def errorOf (checkout : Checkout) (error : Text) (alert : Bool) : UpstreamError :=
  if checkout = .new true ∧ alert = true then .clientCertificate (.http error) else .http error

/-- What is recorded of an exchange that failed. -/
def record (send : Send) (message : Option (Request Body)) (wrote : Bool) : Send :=
  { send with handed := send.handed.modifyLast fun hand => { hand with gaveBack := message.isSome, wrote := wrote } }

/-- The exchange failed. -/
def refuse (send : Send) (checkout : Checkout) (error : Text) (message : Option (Request Body)) (alert : Bool) : Send :=
  match checkout, message, send.replay with
  | .pooled, some unsent, replay => send.retry unsent replay
  | .pooled, none, some copy => send.retry { copy with body := .empty } none
  | checkout, _, _ => send.go (.done (some (.error (errorOf checkout error alert))))

/-- The first look of `checkout`. -/
def look (parse : Text → Option Uri) (options : PoolOptions) (target : Target) (send : Send) (ask : Ask) (host : Host)
    (now : ℕ) (view : View) : Send :=
  let (reused, host) := host.pooled ask.freshOnly now options.idleSecs view
  match reused, host.protocol with
  | some sender, _ => send.hand parse target sender.protocol .pooled
  | none, some .http1 => send.go (.waiting ask)
  | none, protocol => send.go (.locking { ask with dialsBefore := some (ask.dialsBefore.getD host.dials) } protocol)

/-- The look under the dial lock. -/
def relook (parse : Text → Option Uri) (options : PoolOptions) (target : Target) (send : Send) (ask : Ask)
    (protocol : Option Protocol) (host : Host) (now : ℕ) (view : View) : Send :=
  let (reused, host) := host.pooled ask.freshOnly now options.idleSecs view
  match reused, host.lastDial with
  | some sender, _ => send.hand parse target sender.protocol .pooled
  | none, lastDial =>
      match if some host.dials ≠ ask.dialsBefore then lastDial else none with
      | some unreachable => send.go (.done (some (.error unreachable.error)))
      | none =>
          if protocol = none ∧ host.protocol = some .http1 then send.go (.looking ask) else send.go (.choosing ask)

/-- One step, if the choice is possible in the phase. -/
def step (parse : Text → Option Uri) (options : PoolOptions) (target : Target) (send : Send) (choice : Choice) :
    Option Send :=
  match send.phase, choice with
  | .looking ask, .look host now view => some (send.look parse options target ask host now view)
  | .waiting _, .granted => some (send.go .connecting)
  | .waiting ask, .notified => if ask.freshOnly then none else some (send.go (.looking ask))
  | .locking ask protocol, .locked => some (send.go (.relooking ask protocol))
  | .relooking ask protocol, .look host now view => some (send.relook parse options target ask protocol host now view)
  | .choosing ask, .global free => some (send.go (if ask.global || free then .connecting else .exhausted ask))
  | .exhausted ask, .freed => some (send.go (.looking { ask with global := true }))
  | .exhausted _, .failed error | .connecting, .failed error => some (send.go (.done (some (.error error))))
  | .connecting, .connected protocol certRejection =>
      if target.tls ∨ (protocol = .http1 ∧ certRejection = false) then
        some (send.hand parse target protocol (.new certRejection))
      else none
  | .sending _, .responded => some (send.go (.done (some (.ok ()))))
  | .sending checkout, .refused error message wrote alert =>
      some ((send.record message wrote).refuse checkout error message alert)
  | .waiting _, .cancelled | .locking _ _, .cancelled | .exhausted _, .cancelled | .connecting, .cancelled
  | .sending _, .cancelled => some (send.go (.done none))
  | _, _ => none

/-- The call after a history of choices, newest first, if they were possible. -/
def after (parse : Text → Option Uri) (options : PoolOptions) (target : Target) (request : Request Body)
    (history : List Choice) : Option Send :=
  Machine.run (step parse options target) (start request) history

/-- The HTTP library gives a message back only if none of it was written, and then the one it was given. -/
def TakesUnsent (send : Send) : Choice → Prop
  | .refused _ (some message) wrote _ => wrote = false ∧ ∀ hand ∈ send.handed.getLast?, message = hand.request
  | _ => True

instance (send : Send) : (choice : Choice) → Decidable (send.TakesUnsent choice)
  | .refused _ (some _) _ _ => inferInstanceAs (Decidable (_ ∧ _))
  | .refused _ none _ _ | .look .. | .granted | .notified | .locked | .global _ | .freed | .failed _ | .connected ..
  | .responded | .cancelled => isTrue trivial

end Send

end Tollgate.Mitm

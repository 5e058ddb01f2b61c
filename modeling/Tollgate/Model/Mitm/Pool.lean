import Tollgate.Machine.Runs
import Tollgate.Model.Core.Text

/-! # The upstream pool, for one TLS origin

Requests look at the origin's entry, wait for one of its slots or for the dial lock, dial, send, and give
their connection back, all at once. Each request is in a phase, and a step is one section under the lock
of the entries, one operation on a semaphore, or the end of an await. An entry is known by its number,
which stands for its slots, its dial lock and its counter: requests keep these after the entry was
reaped. Dials and resets are counted in 64 bits, which no run brings to overflow. Of other origins only what
they leave of the global permits is seen, as the choice of a step, and so are the clock, the network and the
moment a notification arrives.
-/

namespace Tollgate.Mitm

inductive Protocol where
  | http1
  | http2
deriving DecidableEq, Repr

/-- How a dial failed that could not reach the origin. -/
inductive Unreachable where
  | timeout
  | connect (message : Text)
deriving DecidableEq, Repr

/-- A connection to send on. HTTP/1.1 connections are known by their number; an HTTP/2 connection is shared, and
which one it is is not recorded. -/
inductive Sender where
  | http1 (connection : ℕ)
  | http2
deriving DecidableEq, Repr

structure PoolOptions where
  maxH1PerHost : ℕ
  idleSecs : ℕ

def h2StreamWindow : ℕ := 128 * 1024
def h2ConnectionWindow : ℕ := 256 * 1024

/-- Stalled streams that could hold half the window of their connection. -/
def maxStalledStreams : ℕ := (h2ConnectionWindow / 2 + h2StreamWindow - 1) / h2StreamWindow

/-- What the pooled connections show when they are looked at. -/
structure View where
  h2Ready : Bool
  stalled : ℕ
  /-- The HTTP/1.1 connections that are ready. -/
  ready : List ℕ
deriving DecidableEq, Repr

/-- The entry of the origin. -/
structure Host where
  entry : ℕ
  protocol : Option Protocol
  h2 : Bool
  /-- Idle HTTP/1.1 connections and when they became idle, the newest first. -/
  idle : List (ℕ × ℕ)
  dials : ℕ
  lastDial : Option Unreachable
  active : ℕ
  lastUsed : ℕ
deriving DecidableEq, Repr

namespace Host

/-- `Host::new` with `tls` set: the protocol is unknown until a handshake has negotiated it. -/
def new (entry now : ℕ) : Host := ⟨entry, none, false, [], 0, none, 0, now⟩

/-- Pops idle connections until one is ready and not too old. -/
def popIdle (now idleSecs : ℕ) (ready : List ℕ) : List (ℕ × ℕ) → Option ℕ × List (ℕ × ℕ)
  | [] => (none, [])
  | (connection, since) :: rest =>
      if connection ∈ ready ∧ now - since < idleSecs then (some connection, rest) else popIdle now idleSecs ready rest

def reuse (host : Host) (now idleSecs : ℕ) (view : View) : Option Sender × Host :=
  let idleTooLong := host.active = 0 ∧ now - host.lastUsed ≥ idleSecs
  if host.h2 ∧ view.h2Ready ∧ ¬idleTooLong ∧ view.stalled < maxStalledStreams then (some .http2, host)
  else
    let (found, rest) := popIdle now idleSecs view.ready host.idle
    (found.map .http1, { host with h2 := false, idle := rest })

/-- A pooled connection, unless `fresh_only`. -/
def pooled (host : Host) (freshOnly : Bool) (now idleSecs : ℕ) (view : View) : Option Sender × Host :=
  if freshOnly then (none, host) else host.reuse now idleSecs view

def clear (host : Host) : Host := { host with h2 := false, idle := [], lastDial := none }

/-- What `reap` keeps of the pooled connections. -/
def expire (host : Host) (now idleSecs : ℕ) (closed : List ℕ) (h2Closed : Bool) : Host :=
  let h2Idle := host.active = 0 ∧ now - host.lastUsed ≥ idleSecs
  { host with
    idle := host.idle.filter fun pooled => decide (now - pooled.2 < idleSecs) && !closed.contains pooled.1
    h2 := host.h2 && !(h2Closed || decide h2Idle) }

end Host

/-- The variables of `checkout` that outlive a turn of its loop. -/
structure Ask where
  freshOnly : Bool
  dialsBefore : Option ℕ
  /-- Whether it has a global permit. -/
  global : Bool
deriving DecidableEq, Repr

/-- Where a request stands. -/
inductive Phase where
  | looking (ask : Ask)
  /-- Waits for a slot or a notification. -/
  | waiting (ask : Ask) (entry : ℕ)
  /-- The semaphore has given it a slot. -/
  | granted (ask : Ask) (entry : ℕ)
  /-- Waits for the dial lock. -/
  | locking (ask : Ask) (protocol : Option Protocol) (entry : ℕ)
  | relooking (ask : Ask) (protocol : Option Protocol) (entry : ℕ)
  /-- About to take a global permit under the dial lock. -/
  | choosing (ask : Ask) (entry : ℕ)
  /-- Waits for a global permit without the dial lock. -/
  | exhausted (ask : Ask) (entry : ℕ)
  /-- About to try for a slot under the dial lock. -/
  | taking (entry : ℕ)
  /-- Has a slot and waits for a global permit. -/
  | queued (entry : ℕ)
  | handshaking (slot dialing : Bool) (entry : ℕ)
  | settingHttp1 (connection : ℕ) (dialing : Bool) (entry : ℕ)
  | startingHttp1 (connection : ℕ) (dialing : Bool) (entry : ℕ)
  | startingHttp2 (dialing : Bool) (entry : ℕ)
  | settingHttp2 (dialing : Bool) (entry : ℕ)
  /-- About to record how its dial went. -/
  | recording (sender : Option Sender) (unreachable : Option Unreachable) (entry : ℕ)
  | sending (sender : Sender) (pooled : Bool)
  /-- Its response is streaming and counted in the counter of an entry. -/
  | streaming (sender : Sender) (counter : Option ℕ)
  | givingBack (connection : ℕ)
  | done
deriving DecidableEq, Repr

namespace Phase

/-- The entry whose dial lock the request keeps a reference to. -/
def entry : Phase → Option ℕ
  | waiting _ entry | granted _ entry | locking _ _ entry | relooking _ _ entry | choosing _ entry
  | exhausted _ entry | taking entry | queued entry | handshaking _ _ entry | settingHttp1 _ _ entry
  | startingHttp1 _ _ entry | startingHttp2 _ entry | settingHttp2 _ entry | recording _ _ entry => some entry
  | looking _ | sending .. | streaming .. | givingBack _ | done => none

/-- The entries whose slots the request keeps a reference to, with a permit or without. -/
def slots : Phase → Option ℕ
  | waiting _ entry | granted _ entry | locking _ _ entry | relooking _ _ entry | choosing _ entry
  | exhausted _ entry | taking entry | queued entry | handshaking true _ entry => some entry
  | _ => none

/-- The slot that the request holds. -/
def held : Phase → List ℕ
  | granted _ entry | queued entry | handshaking true _ entry => [entry]
  | _ => []

/-- Whether the request holds the dial lock of an entry. -/
def dials (lock : ℕ) : Phase → Bool
  | relooking _ _ entry | choosing _ entry | taking entry | handshaking _ true entry | settingHttp1 _ true entry
  | startingHttp1 _ true entry | startingHttp2 true entry | settingHttp2 true entry | recording _ _ entry => entry == lock
  | _ => false

/-- Whether the request dials without a slot. -/
def slotless : Phase → Bool
  | handshaking false _ _ => true
  | _ => false

/-- `checkout` goes on with the slot it was given. -/
def connect (ask : Ask) (entry : ℕ) : Phase := if ask.global then handshaking true false entry else queued entry

/-- `connect` returns a connection. -/
def connected (dialing : Bool) (entry : ℕ) (sender : Sender) : Phase :=
  if dialing then recording (some sender) none entry else sending sender false

/-- `connect` returns an error. -/
def failed (dialing : Bool) (entry : ℕ) (unreachable : Option Unreachable) : Phase :=
  if dialing then recording none unreachable entry else done

end Phase

/-- How a step of a request goes. -/
inductive Choice where
  /-- The next operation. -/
  | go
  /-- A section that looks at the pooled connections. -/
  | look (now : ℕ) (view : View)
  /-- The semaphore of the entry's slots gives one. -/
  | granted
  | notified
  | locked
  /-- Whether a global permit is free. -/
  | global (free : Bool)
  /-- A global permit was awaited. -/
  | freed
  /-- The TLS handshake ends with an application protocol. -/
  | negotiated (protocol : Protocol)
  | started
  | failed (unreachable : Option Unreachable)
  | responded
  | refused (retry : Bool)
  | finished
  | give (now : ℕ)
  | cancelled
deriving DecidableEq, Repr

/-- An HTTP/1.1 connection: whether it is open, and the entry whose slot its task holds. -/
structure Connection where
  slot : Option ℕ
  live : Bool
deriving DecidableEq, Repr

structure Pool where
  host : Option Host
  /-- The free slots of every entry there was. -/
  slots : List ℕ
  calls : List Phase
  connections : List Connection
  resets : ℕ
  resetsSeen : ℕ
deriving DecidableEq, Repr

namespace Pool

def new : Pool := ⟨none, [], [], [], 0, 0⟩

/-- The number of open HTTP/1.1 connections. -/
def live (pool : Pool) : ℕ := pool.connections.countP Connection.live

/-- The lock of the entries is taken: pooled connections are dropped if there was a reset. -/
def hosts (pool : Pool) : Pool :=
  if pool.resetsSeen ≠ pool.resets then
    { pool with host := pool.host.map Host.clear, resetsSeen := pool.resets }
  else pool

/-- Makes sure that there is an entry. -/
def insert (options : PoolOptions) (now : ℕ) (pool : Pool) : Pool :=
  if pool.host.isSome then pool
  else { pool with
    host := some (.new pool.slots.length now)
    slots := pool.slots ++ [options.maxH1PerHost] }

def setCall (pool : Pool) (call : ℕ) (phase : Phase) : Pool := { pool with calls := pool.calls.set call phase }

/-- Changes the entry, if there is one. -/
def update (pool : Pool) (change : Host → Host) : Pool := { pool with host := pool.host.map change }

/-- Takes a slot of an entry. -/
def acquire (pool : Pool) (entry : ℕ) : Option Pool :=
  match pool.slots[entry]? with
  | some (free + 1) => some { pool with slots := pool.slots.set entry free }
  | _ => none

/-- Gives back a slot of an entry. -/
def release (pool : Pool) (entry : ℕ) : Pool := { pool with slots := pool.slots.modify entry (· + 1) }

/-- The slots that a request holds are dropped with it. -/
def releaseAll (pool : Pool) (entries : List ℕ) : Pool := entries.foldl release pool

/-- A request goes on without the slot it held. -/
def leave (pool : Pool) (call : ℕ) (phase after : Phase) : Pool := (pool.releaseAll phase.held).setCall call after

/-- A request opens an HTTP/1.1 connection, which takes over its slot. -/
def connect (pool : Pool) (call : ℕ) (slot : Option ℕ) (after : Phase) : Pool :=
  { pool with connections := pool.connections ++ [⟨slot, true⟩], calls := pool.calls.set call after }

def close (pool : Pool) (connection : ℕ) : Pool :=
  { pool with connections := pool.connections.modify connection fun one => { one with live := false } }

/-- The first look of `checkout`. -/
def look (options : PoolOptions) (pool : Pool) (call : ℕ) (ask : Ask) (now : ℕ) (view : View) : Option Pool := do
  let pool := pool.hosts.insert options now
  let host ← pool.host
  let (reused, host) := host.pooled ask.freshOnly now options.idleSecs view
  let pool := { pool with host := some { host with lastUsed := now } }
  match reused, host.protocol with
  | some sender, _ => some (pool.setCall call (.sending sender true))
  | none, some .http1 => some (pool.setCall call (.waiting ask host.entry))
  | none, protocol =>
      let ask := { ask with dialsBefore := some (ask.dialsBefore.getD host.dials) }
      some (pool.setCall call (.locking ask protocol host.entry))

/-- The look under the dial lock. -/
def relook (options : PoolOptions) (pool : Pool) (call : ℕ) (ask : Ask) (protocol : Option Protocol) (entry now : ℕ)
    (view : View) : Option Pool := do
  let pool := pool.hosts.insert options now
  let host ← pool.host
  let (reused, host) := host.pooled ask.freshOnly now options.idleSecs view
  let pool := { pool with host := some host }
  match reused with
  | some sender =>
      some ({ pool with host := some { host with lastUsed := now } }.setCall call (.sending sender true))
  | none =>
      if some host.dials ≠ ask.dialsBefore ∧ host.lastDial.isSome then some (pool.setCall call .done)
      else if protocol = none ∧ host.protocol = some .http1 then some (pool.setCall call (.looking ask))
      else some (pool.setCall call (.choosing ask entry))

/-- A response arrived: it is counted, in the entry's counter if there is an entry. -/
def respond (pool : Pool) (call : ℕ) (sender : Sender) : Pool :=
  let pool := pool.hosts
  (pool.update fun host => { host with active := host.active + 1 }).setCall call
    (.streaming sender (pool.host.map Host.entry))

/-- A response is done: an HTTP/1.1 connection is to be given back. -/
def finish (pool : Pool) (call : ℕ) (sender : Sender) (counter : Option ℕ) : Pool :=
  let counted (host : Host) : Host := if counter = some host.entry then { host with active := host.active - 1 } else host
  (pool.update counted).setCall call <|
    match sender with
    | .http1 connection => .givingBack connection
    | .http2 => .done

/-- The end of the request at an await: what it holds is dropped. -/
def cancel (pool : Pool) (call : ℕ) : Phase → Option Pool
  | .startingHttp1 connection _ _ => some ((pool.close connection).setCall call .done)
  | .looking _ | .relooking .. | .choosing .. | .taking _ | .settingHttp1 .. | .settingHttp2 .. | .recording ..
  | .streaming .. | .givingBack _ | .done => none
  | phase => some (pool.leave call phase .done)

/-- One step of a request apart from cancelling it, if the choice is possible in its phase. -/
def advance (options : PoolOptions) (pool : Pool) (call : ℕ) : Phase → Choice → Option Pool
  | .looking ask, .look now view => pool.look options call ask now view
  | .waiting ask entry, .granted => (pool.acquire entry).map fun pool => pool.setCall call (.granted ask entry)
  | .waiting ask _, .notified => if ask.freshOnly then none else some (pool.setCall call (.looking ask))
  | .granted ask entry, .notified =>
      if ask.freshOnly then none else some (pool.leave call (.granted ask entry) (.looking ask))
  | .granted ask entry, .go => some (pool.setCall call (.connect ask entry))
  | .locking ask protocol entry, .locked =>
      if pool.calls.any (Phase.dials entry) then none else some (pool.setCall call (.relooking ask protocol entry))
  | .relooking ask protocol entry, .look now view => pool.relook options call ask protocol entry now view
  | .choosing ask entry, .global free =>
      some (pool.setCall call (if ask.global || free then .taking entry else .exhausted ask entry))
  | .exhausted ask _, .freed => some (pool.setCall call (.looking { ask with global := true }))
  | .taking entry, .go =>
      match pool.acquire entry with
      | some pool => some (pool.setCall call (.handshaking true true entry))
      | none => some (pool.setCall call (.handshaking false true entry))
  | .queued entry, .freed => some (pool.setCall call (.handshaking true false entry))
  | .handshaking slot dialing entry, .negotiated .http1 =>
      some (pool.connect call (if slot then some entry else none) (.settingHttp1 pool.connections.length dialing entry))
  | .handshaking slot dialing entry, .negotiated .http2 =>
      some (pool.leave call (.handshaking slot dialing entry) (.startingHttp2 dialing entry))
  | .settingHttp1 connection dialing entry, .go =>
      some ((pool.hosts.update fun host => { host with protocol := some .http1 }).setCall call
        (.startingHttp1 connection dialing entry))
  | .startingHttp1 connection dialing entry, .started =>
      some (pool.setCall call (.connected dialing entry (.http1 connection)))
  | .startingHttp2 dialing entry, .started => some (pool.setCall call (.settingHttp2 dialing entry))
  | .settingHttp2 dialing entry, .go =>
      some ((pool.hosts.update fun host => { host with protocol := some .http2, h2 := true }).setCall call
        (.connected dialing entry .http2))
  | .exhausted _ _, .failed _ | .givingBack _, .failed _ => some (pool.setCall call .done)
  | .queued entry, .failed _ => some (pool.leave call (.queued entry) .done)
  | .handshaking slot dialing entry, .failed unreachable =>
      some (pool.leave call (.handshaking slot dialing entry) (.failed dialing entry unreachable))
  | .startingHttp2 dialing entry, .failed unreachable =>
      some (pool.setCall call (.failed dialing entry unreachable))
  | .startingHttp1 connection dialing entry, .failed unreachable =>
      some ((pool.close connection).setCall call (.failed dialing entry unreachable))
  | .recording sender unreachable _, .go =>
      some ((pool.hosts.update fun host => { host with dials := host.dials + 1, lastDial := unreachable }).setCall call
        (match sender with
        | some sender => .sending sender false
        | none => .done))
  | .sending sender _, .responded => some (pool.respond call sender)
  | .sending _ pooled, .refused retry =>
      some (pool.setCall call (if pooled && retry then .looking ⟨true, none, false⟩ else .done))
  | .streaming sender counter, .finished => some (pool.finish call sender counter)
  | .givingBack connection, .give now =>
      some ((pool.hosts.update fun host => { host with idle := (connection, now) :: host.idle }).setCall call .done)
  | phase, .cancelled => pool.cancel call phase
  | _, _ => none

/-- Whether `reap` may forget the entry: nothing is pooled or counted, all slots are free, and nobody
else refers to its slots or its dial lock. -/
def unused (options : PoolOptions) (pool : Pool) (host : Host) : Bool :=
  host.idle.isEmpty && !host.h2 && host.active == 0 && pool.slots[host.entry]? == some options.maxH1PerHost &&
    pool.calls.all (fun phase => phase.slots != some host.entry) &&
    pool.connections.all (fun connection => connection.slot != some host.entry) &&
    pool.calls.all fun phase => phase.entry != some host.entry

def reap (options : PoolOptions) (pool : Pool) (now : ℕ) (closed : List ℕ) (h2Closed : Bool) : Pool :=
  let pool := pool.hosts.update fun host => host.expire now options.idleSecs closed h2Closed
  { pool with host := pool.host.filter fun host => !pool.unused options host }

/-- `evict_one` closes the oldest idle HTTP/1.1 connection, which is one of this origin. -/
def evictHttp1 (pool : Pool) (place : ℕ) : Option Pool := do
  let pool := pool.hosts
  let host ← pool.host
  let (_, since) ← host.idle[place]?
  if host.idle.all fun other => decide (since ≤ other.2) then
    some { pool with host := some { host with idle := host.idle.eraseIdx place } }
  else none

/-- `evict_one` finds no idle HTTP/1.1 connection and drops the HTTP/2 connection of this origin. -/
def evictHttp2 (pool : Pool) : Option Pool := do
  let pool := pool.hosts
  let host ← pool.host
  if host.idle.isEmpty && host.h2 && host.active == 0 then
    some { pool with host := some { host with h2 := false } }
  else none

/-- The task of a connection that is closed ends and drops its slot. -/
def endTask (pool : Pool) (connection : ℕ) : Option Pool :=
  match pool.connections[connection]? with
  | some ⟨slot, false⟩ =>
      let pool := { pool with connections := pool.connections.set connection ⟨none, false⟩ }
      some (pool.releaseAll slot.toList)
  | _ => none

inductive Event where
  /-- `send` is called. -/
  | send
  | step (call : ℕ) (choice : Choice)
  /-- A connection closes. -/
  | close (connection : ℕ)
  | endTask (connection : ℕ)
  | reap (now : ℕ) (closed : List ℕ) (h2Closed : Bool)
  | evictHttp1 (place : ℕ)
  | evictHttp2
  /-- `reset_upstream_connections` is called. -/
  | reset
deriving DecidableEq, Repr

/-- One step of the pool, if the event is possible. -/
def step (options : PoolOptions) (pool : Pool) : Event → Option Pool
  | .send => some { pool with calls := pool.calls ++ [.looking ⟨false, none, false⟩] }
  | .step call choice => pool.calls[call]?.bind fun phase => pool.advance options call phase choice
  | .close connection => some (pool.close connection)
  | .endTask connection => pool.endTask connection
  | .reap now closed h2Closed => some (pool.reap options now closed h2Closed)
  | .evictHttp1 place => pool.evictHttp1 place
  | .evictHttp2 => pool.evictHttp2
  | .reset => some { pool with resets := pool.resets + 1 }

/-- The pool after a history of events, newest first, if they were possible. -/
def after (options : PoolOptions) (history : List Event) : Option Pool := Machine.run (step options) new history

/-- No dial that could not take a slot ends with HTTP/1.1. -/
def DialsWithSlot (pool : Pool) : Event → Prop
  | .step call (.negotiated .http1) => ∀ dialing entry, pool.calls[call]? ≠ some (.handshaking false dialing entry)
  | _ => True

/-- `DialsWithSlot` as a test. -/
def dialsWithSlot (pool : Pool) : Event → Bool
  | .step call (.negotiated .http1) => !pool.calls[call]?.any Phase.slotless
  | _ => true

theorem dialsWithSlot_iff (pool : Pool) (event : Event) : pool.dialsWithSlot event = true ↔ pool.DialsWithSlot event := by
  unfold dialsWithSlot DialsWithSlot
  split
  · next call =>
    cases found : pool.calls[call]? with
    | none => simp
    | some phase =>
      rw [Option.any_some, Bool.not_eq_true']
      unfold Phase.slotless
      split
      · next dialing entry => simp
      · next other => simpa using fun dialing entry same => other dialing entry same
  · simp

instance (pool : Pool) (event : Event) : Decidable (pool.DialsWithSlot event) :=
  decidable_of_iff _ (pool.dialsWithSlot_iff event)

end Pool

end Tollgate.Mitm

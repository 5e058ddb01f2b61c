import Tollgate.Model.Mitm.Pool
import Tollgate.ToMathlib.Retain

/-! # Who has a connection of the pool

An HTTP/1.1 connection that is open is idle in the entry or belongs to the request that dialed it, took it
from the entry, or still reads its response. `Handed` says what a step of a request does to both: it goes on
with what it had, opens a connection, or takes and gives connections under the lock of the entries, which
first drops the idle ones if there was a reset.
-/

namespace Tollgate.Mitm

open List

/-- The HTTP/1.1 connection of a sender. -/
def Sender.owns : Sender → List ℕ
  | http1 connection => [connection]
  | http2 => []

/-- The HTTP/1.1 connection that a request has for itself. -/
def Phase.owns : Phase → List ℕ
  | settingHttp1 connection _ _ | startingHttp1 connection _ _ | givingBack connection => [connection]
  | recording sender _ _ => sender.elim [] Sender.owns
  | sending sender _ | streaming sender _ => sender.owns
  | _ => []

theorem Phase.owns_done : Phase.done.owns = [] := rfl

theorem Phase.owns_connect (ask : Ask) (entry : ℕ) : (Phase.connect ask entry).owns = [] := by
  unfold connect
  split <;> rfl

theorem Phase.owns_connected (dialing : Bool) (entry : ℕ) (sender : Sender) :
    (Phase.connected dialing entry sender).owns = sender.owns := by
  cases dialing <;> rfl

theorem Phase.owns_failed (dialing : Bool) (entry : ℕ) (unreachable : Option Unreachable) :
    (Phase.failed dialing entry unreachable).owns = [] := by
  cases dialing <;> rfl

namespace Host

/-- The connections that are idle. -/
def idles (host : Host) : List ℕ := host.idle.map Prod.fst

theorem popIdle_sublist (now idleSecs : ℕ) (ready : List ℕ) (idle : List (ℕ × ℕ)) :
    (popIdle now idleSecs ready idle).1.toList ++ (popIdle now idleSecs ready idle).2.map Prod.fst <+ idle.map Prod.fst := by
  induction idle with
  | nil => exact Sublist.refl _
  | cons first rest ih =>
    obtain ⟨connection, since⟩ := first
    rw [popIdle]
    split
    · exact Sublist.refl _
    · exact ih.cons connection

/-- What is taken from an entry was idle, and is not any more. -/
theorem pooled_sublist (host : Host) (freshOnly : Bool) (now idleSecs : ℕ) (view : View) :
    (host.pooled freshOnly now idleSecs view).1.elim [] Sender.owns ++
      (host.pooled freshOnly now idleSecs view).2.idles <+ host.idles := by
  unfold pooled
  split
  · exact Sublist.refl _
  · simp only [reuse]
    split
    · exact Sublist.refl _
    · have popped := popIdle_sublist now idleSecs view.ready host.idle
      generalize popIdle now idleSecs view.ready host.idle = result at popped
      obtain ⟨found, rest⟩ := result
      cases found with
      | none => exact popped
      | some connection => exact popped

end Host

namespace Pool

variable {options : PoolOptions} {pool next : Pool} {call : ℕ} {phase after : Phase} {choice : Choice}

/-- The connections that are idle in the entry. -/
def idles (pool : Pool) : List ℕ := pool.host.elim [] Host.idles

/-- In how many places a connection is. -/
def places (pool : Pool) (connection : ℕ) : ℕ :=
  pool.idles.count connection + (pool.calls.flatMap Phase.owns).count connection

theorem idles_hosts (pool : Pool) : pool.hosts.idles = if pool.resetsSeen = pool.resets then pool.idles else [] := by
  by_cases seen : pool.resetsSeen = pool.resets
  · rw [hosts, if_neg (not_not_intro seen), if_pos seen]
  · rw [hosts, if_pos seen, if_neg seen, idles]
    cases pool.host <;> rfl

theorem hosts_rest (pool : Pool) : pool.hosts.calls = pool.calls ∧ pool.hosts.connections = pool.connections ∧
    pool.hosts.resets = pool.resets ∧ pool.hosts.resetsSeen = pool.resets := by
  unfold hosts
  split
  · exact ⟨rfl, rfl, rfl, rfl⟩
  · next seen => exact ⟨rfl, rfl, rfl, not_not.mp seen⟩

theorem count_idles_hosts_le (pool : Pool) (connection : ℕ) :
    pool.hosts.idles.count connection ≤ pool.idles.count connection := by
  rw [idles_hosts]
  split
  · exact Nat.le_refl _
  · exact Nat.zero_le _

theorem releaseAll_eq (pool : Pool) (released : List ℕ) :
    ∃ slots, pool.releaseAll released = { pool with slots := slots } := by
  induction released generalizing pool with
  | nil => exact ⟨pool.slots, rfl⟩
  | cons first rest ih => exact ih (pool.release first)

/-- What a step of a request does to the connections. -/
inductive Handed (pool : Pool) (call : ℕ) (phase : Phase) (next : Pool) : Prop where
  /-- The request goes on with what it had. -/
  | keeps (after : Phase) (calls : next.calls = pool.calls.set call after) (idles : next.idles = pool.idles)
      (resets : next.resets = pool.resets ∧ next.resetsSeen = pool.resetsSeen)
      (length : next.connections.length = pool.connections.length) (owns : after.owns <+ phase.owns)
  /-- The request opens a connection. -/
  | opens (after : Phase) (calls : next.calls = pool.calls.set call after) (idles : next.idles = pool.idles)
      (resets : next.resets = pool.resets ∧ next.resetsSeen = pool.resetsSeen)
      (length : next.connections.length = pool.connections.length + 1) (owns : after.owns = [pool.connections.length])
  /-- The request takes or gives a connection, under the lock of the entries. -/
  | locks (after : Phase) (calls : next.calls = pool.calls.set call after)
      (resets : next.resets = pool.resets ∧ next.resetsSeen = pool.resets)
      (length : next.connections.length = pool.connections.length)
      (owns : ∀ connection, next.idles.count connection + after.owns.count connection ≤
        pool.hosts.idles.count connection + phase.owns.count connection)

theorem handed_setCall (owns : after.owns <+ phase.owns) : Handed pool call phase (pool.setCall call after) :=
  .keeps after rfl rfl ⟨rfl, rfl⟩ rfl owns

theorem handed_close (connection : ℕ) (owns : after.owns <+ phase.owns) :
    Handed pool call phase ((pool.close connection).setCall call after) :=
  .keeps after rfl rfl ⟨rfl, rfl⟩ (length_modify ..) owns

theorem handed_leave (owns : after.owns <+ phase.owns) : Handed pool call phase (pool.leave call phase after) := by
  obtain ⟨slots, released⟩ := pool.releaseAll_eq phase.held
  rw [leave, released]
  exact .keeps after rfl rfl ⟨rfl, rfl⟩ rfl owns

theorem handed_acquire {entry : ℕ} (stepped : pool.acquire entry = some next) (owns : after.owns <+ phase.owns) :
    Handed pool call phase (next.setCall call after) := by
  unfold acquire at stepped
  split at stepped
  · cases stepped
    exact .keeps after rfl rfl ⟨rfl, rfl⟩ rfl owns
  · cases stepped

/-- A change of the entry under the lock. -/
theorem handed_update {change : Host → Host} (owns : ∀ host connection, (change host).idles.count connection +
      after.owns.count connection ≤ host.idles.count connection + phase.owns.count connection)
    (none : ∀ connection, after.owns.count connection ≤ phase.owns.count connection) :
    Handed pool call phase ((pool.hosts.update change).setCall call after) := by
  obtain ⟨calls, connections, resets, seen⟩ := pool.hosts_rest
  refine .locks after ?_ ⟨resets, seen⟩ ?_ ?_
  · exact congrArg (·.set call after) calls
  · exact congrArg length connections
  · intro connection
    cases found : pool.hosts.host with
    | none => simpa [idles, setCall, update, found] using none connection
    | some host => simpa [idles, setCall, update, found] using owns host connection

/-- A change of the entry that leaves the idle connections alone. -/
theorem handed_update_same {change : Host → Host} (same : ∀ host, (change host).idle = host.idle)
    (owns : after.owns = phase.owns) : Handed pool call phase ((pool.hosts.update change).setCall call after) := by
  refine handed_update ?_ ?_
  · intro host connection
    rw [Host.idles, same, owns, Host.idles]
  · intro connection
    rw [owns]

theorem insert_rest (pool : Pool) (options : PoolOptions) (now : ℕ) : (pool.insert options now).idles = pool.idles ∧
    (pool.insert options now).calls = pool.calls ∧ (pool.insert options now).connections = pool.connections ∧
    (pool.insert options now).resets = pool.resets ∧ (pool.insert options now).resetsSeen = pool.resetsSeen := by
  unfold insert
  split
  · exact ⟨rfl, rfl, rfl, rfl, rfl⟩
  · next empty =>
    have none := Option.not_isSome_iff_eq_none.mp empty
    refine ⟨?_, rfl, rfl, rfl, rfl⟩
    rw [idles, idles, none]
    rfl

/-- A request looked at the entry, took a connection or not, and the entry is put back without it. -/
theorem handed_look {host changed : Host} {now : ℕ} {reused : Option Sender}
    (found : (pool.hosts.insert options now).host = some host) (free : phase.owns = [])
    (taken : reused.elim [] Sender.owns ++ changed.idles <+ host.idles) (owns : after.owns <+ reused.elim [] Sender.owns) :
    Handed pool call phase ({ pool.hosts.insert options now with host := some changed }.setCall call after) := by
  obtain ⟨calls, connections, resets, seen⟩ := pool.hosts_rest
  obtain ⟨idles, calls', connections', resets', seen'⟩ := pool.hosts.insert_rest options now
  refine .locks after ?_ ⟨resets'.trans resets, seen'.trans seen⟩ ?_ ?_
  · exact congrArg (·.set call after) (calls'.trans calls)
  · exact congrArg length (connections'.trans connections)
  · intro connection
    have before : host.idles = pool.hosts.idles := by
      rw [← idles, Pool.idles, found]
      rfl
    have fewer := taken.count_le connection
    have part := owns.count_le connection
    rw [count_append] at fewer
    rw [free, count_nil, ← before]
    change changed.idles.count connection + _ ≤ _
    omega

theorem handed_of_look {ask : Ask} {now : ℕ} {view : View} (stepped : pool.look options call ask now view = some next) :
    Handed pool call (.looking ask) next := by
  obtain ⟨host, found, stepped⟩ := Option.bind_eq_some_iff.mp stepped
  have taken := host.pooled_sublist ask.freshOnly now options.idleSecs view
  generalize host.pooled ask.freshOnly now options.idleSecs view = pooled at taken stepped
  obtain ⟨reused, changed⟩ := pooled
  have taken : reused.elim [] Sender.owns ++ { changed with lastUsed := now }.idles <+ host.idles := taken
  simp only at stepped
  split at stepped
  · cases stepped
    exact handed_look found rfl taken (Sublist.refl _)
  · cases stepped
    exact handed_look found rfl taken (Sublist.refl _)
  · cases stepped
    exact handed_look found rfl taken (Sublist.refl _)

theorem handed_of_relook {ask : Ask} {protocol : Option Protocol} {entry now : ℕ} {view : View}
    (stepped : pool.relook options call ask protocol entry now view = some next) :
    Handed pool call (.relooking ask protocol entry) next := by
  obtain ⟨host, found, stepped⟩ := Option.bind_eq_some_iff.mp stepped
  have taken := host.pooled_sublist ask.freshOnly now options.idleSecs view
  generalize host.pooled ask.freshOnly now options.idleSecs view = pooled at taken stepped
  obtain ⟨reused, changed⟩ := pooled
  simp only at stepped
  split at stepped
  · cases stepped
    exact handed_look found rfl taken (Sublist.refl _)
  · split at stepped
    · cases stepped
      exact handed_look found rfl taken (Sublist.refl _)
    · split at stepped
      · cases stepped
        exact handed_look found rfl taken (Sublist.refl _)
      · cases stepped
        exact handed_look found rfl taken (Sublist.refl _)

theorem handed_of_cancel (stepped : pool.cancel call phase = some next) : Handed pool call phase next := by
  unfold cancel at stepped
  split at stepped
  · cases stepped
    exact handed_close _ (nil_sublist _)
  all_goals cases stepped
  exact handed_leave (nil_sublist _)

theorem handed_of_advance (stepped : pool.advance options call phase choice = some next) :
    Handed pool call phase next := by
  cases phase with
  | looking ask =>
    cases choice with
    | look now view => exact handed_of_look stepped
    | _ => cases stepped
  | waiting ask entry =>
    cases choice with
    | granted =>
      obtain ⟨taken, acquired, rfl⟩ := Option.map_eq_some_iff.mp stepped
      exact handed_acquire acquired (Sublist.refl _)
    | notified =>
      obtain ⟨-, stepped⟩ := Option.ite_none_left_eq_some.mp stepped
      cases stepped
      exact handed_setCall (Sublist.refl _)
    | cancelled => exact handed_of_cancel stepped
    | _ => cases stepped
  | granted ask entry =>
    cases choice with
    | notified =>
      obtain ⟨-, stepped⟩ := Option.ite_none_left_eq_some.mp stepped
      cases stepped
      exact handed_leave (Sublist.refl _)
    | go =>
      cases stepped
      apply handed_setCall
      rw [Phase.owns_connect]
      exact nil_sublist _
    | cancelled => exact handed_of_cancel stepped
    | _ => cases stepped
  | locking ask protocol entry =>
    cases choice with
    | locked =>
      obtain ⟨-, stepped⟩ := Option.ite_none_left_eq_some.mp stepped
      cases stepped
      exact handed_setCall (Sublist.refl _)
    | cancelled => exact handed_of_cancel stepped
    | _ => cases stepped
  | relooking ask protocol entry =>
    cases choice with
    | look now view => exact handed_of_relook stepped
    | _ => cases stepped
  | choosing ask entry =>
    cases choice with
    | global free =>
      cases stepped
      apply handed_setCall
      split <;> exact Sublist.refl _
    | _ => cases stepped
  | exhausted ask entry =>
    cases choice with
    | freed | failed =>
      cases stepped
      exact handed_setCall (Sublist.refl _)
    | cancelled => exact handed_of_cancel stepped
    | _ => cases stepped
  | taking entry =>
    cases choice with
    | go =>
      simp only [advance] at stepped
      split at stepped
      · next taken acquired =>
        cases stepped
        exact handed_acquire acquired (Sublist.refl _)
      · cases stepped
        exact handed_setCall (Sublist.refl _)
    | _ => cases stepped
  | queued entry =>
    cases choice with
    | freed =>
      cases stepped
      exact handed_setCall (Sublist.refl _)
    | failed =>
      cases stepped
      exact handed_leave (Sublist.refl _)
    | cancelled => exact handed_of_cancel stepped
    | _ => cases stepped
  | handshaking slot dialing entry =>
    cases choice with
    | negotiated protocol =>
      cases protocol with
      | http1 =>
        cases stepped
        refine .opens (.settingHttp1 pool.connections.length dialing entry) rfl rfl ⟨rfl, rfl⟩ ?_ rfl
        exact length_append
      | http2 =>
        cases stepped
        exact handed_leave (Sublist.refl _)
    | failed unreachable =>
      cases stepped
      apply handed_leave
      rw [Phase.owns_failed]
      exact nil_sublist _
    | cancelled => exact handed_of_cancel stepped
    | _ => cases stepped
  | settingHttp1 connection dialing entry =>
    cases choice with
    | go =>
      cases stepped
      exact handed_update_same (fun _ => rfl) rfl
    | _ => cases stepped
  | startingHttp1 connection dialing entry =>
    cases choice with
    | started =>
      cases stepped
      apply handed_setCall
      rw [Phase.owns_connected]
      exact Sublist.refl _
    | failed unreachable =>
      cases stepped
      apply handed_close
      rw [Phase.owns_failed]
      exact nil_sublist _
    | cancelled => exact handed_of_cancel stepped
    | _ => cases stepped
  | startingHttp2 dialing entry =>
    cases choice with
    | started =>
      cases stepped
      exact handed_setCall (Sublist.refl _)
    | failed unreachable =>
      cases stepped
      apply handed_setCall
      rw [Phase.owns_failed]
      exact nil_sublist _
    | cancelled => exact handed_of_cancel stepped
    | _ => cases stepped
  | settingHttp2 dialing entry =>
    cases choice with
    | go =>
      cases stepped
      exact handed_update_same (fun _ => rfl) (Phase.owns_connected ..)
    | _ => cases stepped
  | recording sender unreachable entry =>
    cases choice with
    | go =>
      cases stepped
      refine handed_update_same (fun _ => rfl) ?_
      cases sender <;> rfl
    | _ => cases stepped
  | sending sender pooled =>
    cases choice with
    | responded =>
      cases stepped
      exact handed_update_same (fun _ => rfl) rfl
    | refused retry =>
      cases stepped
      apply handed_setCall
      split <;> exact nil_sublist _
    | cancelled => exact handed_of_cancel stepped
    | _ => cases stepped
  | streaming sender counter =>
    cases choice with
    | finished =>
      cases stepped
      refine .keeps _ rfl ?_ ⟨rfl, rfl⟩ rfl ?_
      · cases found : pool.host with
        | none => simp [idles, finish, setCall, update, found]
        | some host =>
          simp only [idles, finish, setCall, update, found, Option.map_some, Option.elim_some, Host.idles]
          split <;> rfl
      · cases sender <;> exact Sublist.refl _
    | _ => cases stepped
  | givingBack connection =>
    cases choice with
    | give now =>
      cases stepped
      refine handed_update ?_ ?_
      · intro host other
        simp only [Host.idles, map_cons, count_cons, Phase.owns, count_nil]
        omega
      · intro other
        exact Nat.zero_le _
    | failed =>
      cases stepped
      exact handed_setCall (nil_sublist _)
    | _ => cases stepped
  | done => cases choice <;> cases stepped

end Pool

end Tollgate.Mitm

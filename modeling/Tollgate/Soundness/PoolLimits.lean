import Tollgate.Proofs.Mitm.Slots

/-! # The limit of HTTP/1.1 connections to an origin

However requests, closing connections, the reaper, evictions and resets interleave, the open HTTP/1.1
connections to an origin are within the limit as long as no dial that could not take a slot ends with
HTTP/1.1. An origin that changes from HTTP/2 to HTTP/1.1 while requests wait to dial shows that the
condition is needed.
-/

namespace Tollgate.Mitm

open List Pool

/-- The default limit, and an idle time. -/
def sixPerHost : PoolOptions := ⟨6, 60⟩

/-- In every run in which dials without a slot do not end with HTTP/1.1, the limit holds. -/
theorem http1_connections_within_limit (options : PoolOptions) (history : List Event) (pool : Pool)
    (ran : Pool.after options history = some pool)
    (along : Machine.Along (Pool.step options) Pool.new DialsWithSlot history) :
    pool.live ≤ options.maxH1PerHost :=
  (counted_after ran).live_le (slotted_after along ran)

/-- A request takes these steps, in this order. -/
def takes (call : ℕ) (choices : List Choice) : List Event := (choices.map (Event.step call)).reverse

/-- Nothing that is pooled can be used. -/
def unusable : View := ⟨false, 0, []⟩

/-- Dials under the lock, up to the end of the TLS handshake. -/
def dialing (protocol : Protocol) : List Choice :=
  [.locked, .look 2 unusable, .global true, .go, .negotiated protocol]

/-- A first request finds that the origin speaks HTTP/2, and its connection is lost. -/
def first : List Event :=
  takes 0 ([.look 1 unusable] ++ dialing .http2 ++ [.started, .go, .go, .responded, .finished]) ++ [.send]

/-- Requests that find the entry without a connection and wait to dial. -/
def arrive (count : ℕ) : List Event :=
  ((range count).map fun call => takes (call + 1) [.look 2 unusable] ++ [.send]).reverse.flatten

/-- They dial in turn, and the origin now speaks HTTP/1.1. -/
def dialInTurn (count : ℕ) : List Event :=
  ((range count).map fun call => takes (call + 1) (dialing .http1 ++ [.go, .started, .go])).reverse.flatten

theorem http1_connections_within_limit_sample :
    ∃ pool, Pool.after sixPerHost (dialInTurn 6 ++ arrive 6 ++ first) = some pool ∧ pool.live = 6 ∧ pool.live ≤ 6 := by
  obtain ⟨pool, ran, live⟩ : ∃ pool, Pool.after sixPerHost (dialInTurn 6 ++ arrive 6 ++ first) = some pool ∧
      pool.live = 6 := by
    refine ⟨(Pool.after sixPerHost (dialInTurn 6 ++ arrive 6 ++ first)).getD .new, ?_⟩
    decide
  exact ⟨pool, ran, live, http1_connections_within_limit sixPerHost _ pool ran (by decide)⟩

theorem http1_connections_above_limit :
    ∃ pool, Pool.after sixPerHost (dialInTurn 7 ++ arrive 7 ++ first) = some pool ∧
      sixPerHost.maxH1PerHost < pool.live := by
  refine ⟨(Pool.after sixPerHost (dialInTurn 7 ++ arrive 7 ++ first)).getD .new, ?_⟩
  decide

end Tollgate.Mitm

import Tollgate.Model.Dns.Answer
import Tollgate.ToMathlib.Lru

/-! # The answer cache

Upstream answers as wire bytes, keyed by question and aged with the clock that the caller passes in.
An answer is kept for its smallest record TTL within limits, and is removed when it is found expired.
-/

namespace Tollgate.Dns

/-- Most answers kept; the least recently used one is dropped first. -/
def cacheCapacity : ℕ := 2000

/-- Shortest time an answer is kept, in seconds, even when its records say less. -/
def minCacheTtl : UInt32 := 10

/-- Longest time an answer is kept, in seconds, even when its records say more. -/
def maxCacheTtl : UInt32 := 3600

structure CacheEntry where
  answer : UpstreamAnswer
  storedAt : UInt64
  lifetime : UInt32
deriving DecidableEq, Repr

structure AnswerCache where
  entries : Lru Bytes CacheEntry
  maxTtl : UInt32

namespace AnswerCache

/-- A cache of at most `capacity` answers kept for at most `maxTtl` seconds. -/
def withLimits (capacity : ℕ) (maxTtl : UInt32) : AnswerCache :=
  ⟨.new (max capacity 1) (by omega), max maxTtl minCacheTtl⟩

def new : AnswerCache := withLimits cacheCapacity maxCacheTtl

/-- How long an answer with this smallest TTL is kept. -/
def lifetime (cache : AnswerCache) (ttl : UInt32) : UInt32 := max minCacheTtl (min ttl cache.maxTtl)

/-- Keeps an answer for its smallest record TTL, clamped to the limits of the cache. -/
def insert (cache : AnswerCache) (key : Bytes) (answer : UpstreamAnswer) (now : UInt64) : Option AnswerCache := do
  let ttl ← answer.minTtl
  some { cache with entries := cache.entries.put key ⟨answer, now, cache.lifetime ttl⟩ }

/-- The live answer for a key and the whole seconds since it was stored. An expired answer is
removed. -/
def get (cache : AnswerCache) (key : Bytes) (now : UInt64) : Option (UpstreamAnswer × UInt32) × AnswerCache :=
  match cache.entries.peek key with
  | none => (none, cache)
  | some entry =>
      let elapsed := now.toNat - entry.storedAt.toNat
      if elapsed ≥ entry.lifetime.toNat then (none, { cache with entries := cache.entries.pop key })
      else
        (some (entry.answer, UInt32.ofNat elapsed), { cache with entries := (cache.entries.get key).2 })

end AnswerCache

end Tollgate.Dns

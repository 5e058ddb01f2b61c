import Tollgate.Model.Mitm.Pool
import Tollgate.ToMathlib.Retain

/-! # The slots of the origin's entry

A slot is free, held by a request, or held by the task of a connection, and a step hands slots from one
to the other. An entry is forgotten only when nobody refers to it, so all slots that are held belong to
the entry that is there, and no more than the limit of them are held at any time.
-/

namespace Tollgate.Mitm

open List

/-- The entries whose slots a connection holds. -/
def Connection.held (connection : Connection) : List ℕ := connection.slot.toList

theorem Phase.mem_entry_of_held {phase : Phase} {entry : ℕ} (member : entry ∈ phase.held) : entry ∈ phase.entry := by
  unfold held at member
  split at member
  · obtain rfl := mem_singleton.mp member
    rfl
  · obtain rfl := mem_singleton.mp member
    rfl
  · obtain rfl := mem_singleton.mp member
    rfl
  · cases member

namespace Host

theorem reuse_entry (host : Host) (now idleSecs : ℕ) (view : View) :
    (host.reuse now idleSecs view).2.entry = host.entry := by
  simp only [reuse]
  split <;> rfl

theorem pooled_entry (host : Host) (freshOnly : Bool) (now idleSecs : ℕ) (view : View) :
    (host.pooled freshOnly now idleSecs view).2.entry = host.entry := by
  unfold pooled
  split
  · rfl
  · exact reuse_entry host now idleSecs view

end Host

namespace Pool

variable {options : PoolOptions} {pool next : Pool} {call : ℕ} {phase : Phase} {choice : Choice}

/-- The number of the entry, if there is one. -/
def entry (pool : Pool) : Option ℕ := pool.host.map Host.entry

/-- How many slots of an entry are held. -/
def held (pool : Pool) (entry : ℕ) : ℕ :=
  (pool.calls.flatMap Phase.held).count entry + (pool.connections.flatMap Connection.held).count entry

theorem update_entry {f : Host → Host} (same : ∀ host, (f host).entry = host.entry) (pool : Pool) :
    (pool.update f).entry = pool.entry := by
  simp only [entry, update, Option.map_map]
  congr 1
  exact funext same

/-- The requests and the connections are as before, and so is the entry, unless it is new. -/
structure Kept (options : PoolOptions) (pool next : Pool) : Prop where
  calls : next.calls = pool.calls
  connections : next.connections = pool.connections
  entry : (next.entry = pool.entry ∧ next.slots = pool.slots) ∨
    (pool.entry = none ∧ next.entry = some pool.slots.length ∧ next.slots = pool.slots ++ [options.maxH1PerHost])

theorem Kept.refl (pool : Pool) : Kept options pool pool := ⟨rfl, rfl, .inl ⟨rfl, rfl⟩⟩

/-- A change of the entry that leaves its number alone. -/
theorem Kept.of_entry {later : Pool} (kept : Kept options pool next) (calls : later.calls = next.calls)
    (connections : later.connections = next.connections) (entry : later.entry = next.entry)
    (slots : later.slots = next.slots) : Kept options pool later := by
  refine ⟨calls.trans kept.calls, connections.trans kept.connections, ?_⟩
  rw [entry, slots]
  exact kept.entry

theorem kept_hosts (pool : Pool) : Kept options pool pool.hosts := by
  unfold hosts
  split
  · exact (Kept.refl pool).of_entry rfl rfl (update_entry (f := Host.clear) (fun _ => rfl) pool) rfl
  · exact .refl pool

theorem kept_update {change : Host → Host} (same : ∀ host, (change host).entry = host.entry) (pool : Pool) :
    Kept options pool (pool.hosts.update change) :=
  (kept_hosts pool).of_entry rfl rfl (update_entry same pool.hosts) rfl

theorem kept_insert (pool : Pool) (now : ℕ) : Kept options pool (pool.hosts.insert options now) := by
  have first : Kept options pool pool.hosts := kept_hosts pool
  unfold insert
  split
  · exact first
  · next empty =>
    have none := Option.not_isSome_iff_eq_none.mp empty
    have before : pool.hosts.entry = .none := by rw [entry, none, Option.map_none]
    rcases first.entry with ⟨same, slots⟩ | ⟨-, made, -⟩
    · refine ⟨first.calls, first.connections, .inr ⟨same.symm.trans before, ?_, ?_⟩⟩
      · rw [← slots]
        rfl
      · rw [← slots]
    · rw [before] at made
      cases made

/-- Puts back the entry that was looked at. -/
theorem Kept.set_host {host changed : Host} (kept : Kept options pool next) (found : next.host = some host)
    (same : changed.entry = host.entry) : Kept options pool { next with host := some changed } := by
  refine kept.of_entry rfl rfl ?_ rfl
  rw [Pool.entry, Pool.entry, found, Option.map_some, Option.map_some, same]

theorem kept_evictHttp1 {place : ℕ} (stepped : pool.evictHttp1 place = some next) : Kept options pool next := by
  obtain ⟨host, found, stepped⟩ := Option.bind_eq_some_iff.mp stepped
  obtain ⟨pooled, -, stepped⟩ := Option.bind_eq_some_iff.mp stepped
  simp only at stepped
  split at stepped
  · cases stepped
    exact (kept_hosts pool).set_host found rfl
  · cases stepped

theorem kept_evictHttp2 (stepped : pool.evictHttp2 = some next) : Kept options pool next := by
  obtain ⟨host, found, stepped⟩ := Option.bind_eq_some_iff.mp stepped
  split at stepped
  · cases stepped
    exact (kept_hosts pool).set_host found rfl
  · cases stepped

/-- What a step of a request does to the slots. -/
inductive Moved (options : PoolOptions) (pool : Pool) (call : ℕ) (phase : Phase) (choice : Choice) : Pool → Prop where
  | keeps {next : Pool} {after : Phase} (kept : Kept options pool next) (held : after.held = phase.held)
      (entry : ∀ entry ∈ after.entry, entry ∈ next.entry ∨ entry ∈ phase.entry) :
      Moved options pool call phase choice (next.setCall call after)
  | takes {after : Phase} {entry free : ℕ} (found : pool.slots[entry]? = some (free + 1)) (before : phase.held = [])
      (held : after.held = [entry]) (same : after.entry = phase.entry) :
      Moved options pool call phase choice ({ pool with slots := pool.slots.set entry free }.setCall call after)
  | leaves {after : Phase} (held : after.held = []) (entry : ∀ entry ∈ after.entry, entry ∈ phase.entry) :
      Moved options pool call phase choice (pool.leave call phase after)
  | connects {after : Phase} {slot : Option ℕ} (handed : slot.toList = phase.held) (held : after.held = [])
      (same : after.entry = phase.entry)
      (negotiated : choice = .negotiated .http1 ∧ ∃ slot dialing entry, phase = .handshaking slot dialing entry) : Moved options pool call phase choice (pool.connect call slot after)
  | closes {after : Phase} (connection : ℕ) (before : phase.held = []) (held : after.held = [])
      (entry : ∀ entry ∈ after.entry, entry ∈ phase.entry) :
      Moved options pool call phase choice ((pool.close connection).setCall call after)

theorem moved_of_look {ask : Ask} {now : ℕ} {view : View} (stepped : pool.look options call ask now view = some next) :
    Moved options pool call (.looking ask) choice next := by
  obtain ⟨host, found, stepped⟩ := Option.bind_eq_some_iff.mp stepped
  have same := host.pooled_entry ask.freshOnly now options.idleSecs view
  generalize host.pooled ask.freshOnly now options.idleSecs view = pooled at same stepped
  obtain ⟨reused, changed⟩ := pooled
  have kept := (kept_insert pool now).set_host found (show ({ changed with lastUsed := now } : Host).entry = _ from same)
  simp only at stepped
  split at stepped
  · cases stepped
    exact .keeps kept rfl nofun
  · cases stepped
    refine .keeps kept rfl ?_
    rintro _ ⟨⟩
    exact .inl rfl
  · cases stepped
    refine .keeps kept rfl ?_
    rintro _ ⟨⟩
    exact .inl rfl

theorem moved_of_relook {ask : Ask} {protocol : Option Protocol} {entry now : ℕ} {view : View}
    (stepped : pool.relook options call ask protocol entry now view = some next) :
    Moved options pool call (.relooking ask protocol entry) choice next := by
  obtain ⟨host, found, stepped⟩ := Option.bind_eq_some_iff.mp stepped
  have same := host.pooled_entry ask.freshOnly now options.idleSecs view
  generalize host.pooled ask.freshOnly now options.idleSecs view = pooled at same stepped
  obtain ⟨reused, changed⟩ := pooled
  have kept := (kept_insert pool now).set_host found same
  simp only at stepped
  split at stepped
  · cases stepped
    exact .keeps ((kept_insert pool now).set_host found same) rfl nofun
  · split at stepped
    · cases stepped
      exact .keeps kept rfl nofun
    · split at stepped
      · cases stepped
        exact .keeps kept rfl nofun
      · cases stepped
        exact .keeps kept rfl fun _ member => .inr member

theorem moved_of_acquire {after : Phase} {entry : ℕ} (stepped : pool.acquire entry = some next)
    (before : phase.held = []) (held : after.held = [entry]) (same : after.entry = phase.entry) :
    Moved options pool call phase choice (next.setCall call after) := by
  unfold acquire at stepped
  split at stepped
  · next free found =>
    cases stepped
    exact .takes found before held same
  · cases stepped

theorem moved_of_cancel (stepped : pool.cancel call phase = some next) : Moved options pool call phase choice next := by
  unfold cancel at stepped
  split at stepped
  · cases stepped
    exact .closes _ rfl rfl nofun
  all_goals cases stepped
  exact .leaves rfl nofun

theorem held_connect (ask : Ask) (entry : ℕ) : (Phase.connect ask entry).held = [entry] := by
  unfold Phase.connect
  split <;> rfl

theorem entry_connect (ask : Ask) (entry : ℕ) : (Phase.connect ask entry).entry = some entry := by
  unfold Phase.connect
  split <;> rfl

theorem held_connected (dialing : Bool) (entry : ℕ) (sender : Sender) :
    (Phase.connected dialing entry sender).held = [] := by
  cases dialing <;> rfl

theorem entry_connected {dialing : Bool} {entry : ℕ} {sender : Sender} :
    ∀ other ∈ (Phase.connected dialing entry sender).entry, other ∈ some entry := by
  cases dialing
  · nofun
  · exact fun _ member => member

theorem held_failed (dialing : Bool) (entry : ℕ) (unreachable : Option Unreachable) :
    (Phase.failed dialing entry unreachable).held = [] := by
  cases dialing <;> rfl

theorem entry_failed {dialing : Bool} {entry : ℕ} {unreachable : Option Unreachable} :
    ∀ other ∈ (Phase.failed dialing entry unreachable).entry, other ∈ some entry := by
  cases dialing
  · nofun
  · exact fun _ member => member

/-- A request goes on with what it holds. -/
theorem Moved.of_held {after : Phase} (held : after.held = phase.held)
    (entry : ∀ entry ∈ after.entry, entry ∈ phase.entry) : Moved options pool call phase choice (pool.setCall call after) :=
  .keeps (.refl pool) held fun other member => .inr (entry other member)

theorem moved_of_advance (stepped : pool.advance options call phase choice = some next) :
    Moved options pool call phase choice next := by
  cases phase with
  | looking ask =>
    cases choice with
    | look now view => exact moved_of_look stepped
    | _ => cases stepped
  | waiting ask entry =>
    cases choice with
    | granted =>
      obtain ⟨taken, acquired, rfl⟩ := Option.map_eq_some_iff.mp stepped
      exact moved_of_acquire acquired rfl rfl rfl
    | notified =>
      simp only [advance] at stepped
      split at stepped
      · cases stepped
      · cases stepped
        exact .of_held rfl nofun
    | cancelled => exact moved_of_cancel stepped
    | _ => cases stepped
  | granted ask entry =>
    cases choice with
    | notified =>
      simp only [advance] at stepped
      split at stepped
      · cases stepped
      · cases stepped
        exact .leaves rfl nofun
    | go =>
      cases stepped
      refine .of_held (held_connect ask entry) ?_
      rw [entry_connect]
      exact fun _ member => member
    | cancelled => exact moved_of_cancel stepped
    | _ => cases stepped
  | locking ask protocol entry =>
    cases choice with
    | locked =>
      simp only [advance] at stepped
      split at stepped
      · cases stepped
      · cases stepped
        exact .of_held rfl fun _ member => member
    | cancelled => exact moved_of_cancel stepped
    | _ => cases stepped
  | relooking ask protocol entry =>
    cases choice with
    | look now view => exact moved_of_relook stepped
    | _ => cases stepped
  | choosing ask entry =>
    cases choice with
    | global free =>
      cases stepped
      split
      · exact .of_held rfl fun _ member => member
      · exact .of_held rfl fun _ member => member
    | _ => cases stepped
  | exhausted ask entry =>
    cases choice with
    | freed | failed =>
      cases stepped
      exact .of_held rfl nofun
    | cancelled => exact moved_of_cancel stepped
    | _ => cases stepped
  | taking entry =>
    cases choice with
    | go =>
      simp only [advance] at stepped
      split at stepped
      · next taken acquired =>
        cases stepped
        exact moved_of_acquire acquired rfl rfl rfl
      · cases stepped
        exact .of_held rfl fun _ member => member
    | _ => cases stepped
  | queued entry =>
    cases choice with
    | freed =>
      cases stepped
      exact .of_held rfl fun _ member => member
    | failed =>
      cases stepped
      exact .leaves rfl nofun
    | cancelled => exact moved_of_cancel stepped
    | _ => cases stepped
  | handshaking slot dialing entry =>
    cases choice with
    | negotiated protocol =>
      cases protocol with
      | http1 =>
        cases stepped
        refine .connects ?_ rfl rfl ⟨rfl, slot, dialing, entry, rfl⟩
        cases slot <;> rfl
      | http2 =>
        cases stepped
        exact .leaves rfl fun _ member => member
    | failed unreachable =>
      cases stepped
      exact .leaves (held_failed ..) entry_failed
    | cancelled => exact moved_of_cancel stepped
    | _ => cases stepped
  | settingHttp1 connection dialing entry =>
    cases choice with
    | go =>
      cases stepped
      refine .keeps (kept_update ?_ pool) rfl ?_
      · exact fun _ => rfl
      · exact fun _ member => .inr member
    | _ => cases stepped
  | startingHttp1 connection dialing entry =>
    cases choice with
    | started =>
      cases stepped
      exact .of_held (held_connected ..) entry_connected
    | failed unreachable =>
      cases stepped
      exact .closes connection rfl (held_failed ..) entry_failed
    | cancelled => exact moved_of_cancel stepped
    | _ => cases stepped
  | startingHttp2 dialing entry =>
    cases choice with
    | started =>
      cases stepped
      exact .of_held rfl fun _ member => member
    | failed unreachable =>
      cases stepped
      exact .of_held (held_failed ..) entry_failed
    | cancelled => exact moved_of_cancel stepped
    | _ => cases stepped
  | settingHttp2 dialing entry =>
    cases choice with
    | go =>
      cases stepped
      refine .keeps (kept_update ?_ pool) (held_connected ..) ?_
      · exact fun _ => rfl
      · exact fun other member => .inr (entry_connected other member)
    | _ => cases stepped
  | recording sender unreachable entry =>
    cases choice with
    | go =>
      cases stepped
      refine .keeps (kept_update ?_ pool) ?_ ?_
      · exact fun _ => rfl
      · cases sender <;> rfl
      · cases sender <;> nofun
    | _ => cases stepped
  | sending sender pooled =>
    cases choice with
    | responded =>
      cases stepped
      refine .keeps (kept_update ?_ pool) rfl nofun
      exact fun _ => rfl
    | refused retry =>
      cases stepped
      split
      · exact .of_held rfl nofun
      · exact .of_held rfl nofun
    | cancelled => exact moved_of_cancel stepped
    | _ => cases stepped
  | streaming sender counter =>
    cases choice with
    | finished =>
      cases stepped
      refine .keeps ((Kept.refl pool).of_entry rfl rfl (update_entry ?_ pool) rfl) ?_ ?_
      · intro host
        split <;> rfl
      · cases sender <;> rfl
      · cases sender <;> nofun
    | _ => cases stepped
  | givingBack connection =>
    cases choice with
    | give now =>
      cases stepped
      refine .keeps (kept_update ?_ pool) rfl nofun
      exact fun _ => rfl
    | failed =>
      cases stepped
      exact .of_held rfl nofun
    | _ => cases stepped
  | done => cases choice <;> cases stepped

/-- Every slot that is held is one of the entry that is there, and the slots of an entry that are free
and held are as many as the limit. -/
structure Counted (options : PoolOptions) (pool : Pool) : Prop where
  known : ∀ entry ∈ pool.entry, entry < pool.slots.length
  calls : ∀ phase ∈ pool.calls, ∀ entry ∈ phase.entry, entry ∈ pool.entry
  connections : ∀ connection ∈ pool.connections, ∀ entry ∈ connection.slot, entry ∈ pool.entry
  free : ∀ entry free, pool.slots[entry]? = some free → free + pool.held entry = options.maxH1PerHost

theorem counted_new : (new).Counted options := ⟨nofun, nofun, nofun, nofun⟩

theorem Counted.held_eq_zero (counted : pool.Counted options) {entry : ℕ} (other : entry ∉ pool.entry) :
    pool.held entry = 0 := by
  have calls : entry ∉ pool.calls.flatMap Phase.held := by
    intro member
    obtain ⟨phase, inside, held⟩ := mem_flatMap.mp member
    exact other (counted.calls phase inside entry (Phase.mem_entry_of_held held))
  have connections : entry ∉ pool.connections.flatMap Connection.held := by
    intro member
    obtain ⟨connection, inside, held⟩ := mem_flatMap.mp member
    exact other (counted.connections connection inside entry (Option.mem_toList.mp held))
  rw [held, count_eq_zero.mpr calls, count_eq_zero.mpr connections]

theorem Kept.held (kept : Kept options pool next) (entry : ℕ) : next.held entry = pool.held entry := by
  rw [Pool.held, Pool.held, kept.calls, kept.connections]

theorem Counted.kept (counted : pool.Counted options) (kept : Kept options pool next) : next.Counted options := by
  rcases kept.entry with ⟨same, slots⟩ | ⟨none, made, slots⟩
  · refine ⟨?_, ?_, ?_, ?_⟩
    · rw [same, slots]
      exact counted.known
    · rw [same, kept.calls]
      exact counted.calls
    · rw [same, kept.connections]
      exact counted.connections
    · intro entry free found
      rw [kept.held]
      exact counted.free entry free (slots ▸ found)
  · have nobody : ∀ entry, entry ∉ pool.entry := by
      rw [none]
      exact fun _ => nofun
    refine ⟨?_, ?_, ?_, ?_⟩
    · rw [made, slots, length_append]
      rintro _ ⟨⟩
      exact Nat.lt_succ_self _
    · rw [kept.calls]
      exact fun phase member entry refers => (nobody entry (counted.calls phase member entry refers)).elim
    · rw [kept.connections]
      exact fun connection member entry refers => (nobody entry (counted.connections connection member entry refers)).elim
    · intro entry free found
      rw [slots, getElem?_append] at found
      split at found
      · rw [kept.held]
        exact counted.free entry free found
      · have limit : options.maxH1PerHost = free := by
          rw [getElem?_singleton] at found
          split at found
          · exact Option.some.inj found
          · cases found
        rw [kept.held, counted.held_eq_zero (nobody entry), limit, Nat.add_zero]

theorem mem_setCall {after other : Phase} (member : other ∈ (pool.setCall call after).calls) :
    other ∈ pool.calls ∨ other = after :=
  mem_or_eq_of_mem_set member

/-- What a request holds in its next phase is traded for what it held. -/
theorem held_setCall (after : Phase) (found : pool.calls[call]? = some phase) (entry : ℕ) :
    (pool.setCall call after).held entry + phase.held.count entry = pool.held entry + after.held.count entry := by
  have traded := count_flatMap_set Phase.held found after entry
  simp only [held, setCall]
  omega

theorem release_slots (pool : Pool) (released entry : ℕ) :
    (pool.release released).slots[entry]? = (pool.slots[entry]?).map (· + [released].count entry) := by
  rw [release, getElem?_modify]
  by_cases same : released = entry
  · simp [same]
  · simp [same]

theorem releaseAll_slots (pool : Pool) (released : List ℕ) (entry : ℕ) :
    (pool.releaseAll released).slots[entry]? = (pool.slots[entry]?).map (· + released.count entry) := by
  induction released generalizing pool with
  | nil => simp [releaseAll]
  | cons first rest ih =>
    have again := ih (pool.release first)
    rw [release_slots] at again
    rw [releaseAll, foldl_cons]
    refine again.trans ?_
    rw [Option.map_map, count_cons]
    congr 1
    funext free
    simp [count_cons]
    omega

theorem releaseAll_rest (pool : Pool) (released : List ℕ) :
    (pool.releaseAll released).calls = pool.calls ∧ (pool.releaseAll released).connections = pool.connections ∧
      (pool.releaseAll released).host = pool.host ∧ (pool.releaseAll released).slots.length = pool.slots.length := by
  induction released generalizing pool with
  | nil => exact ⟨rfl, rfl, rfl, rfl⟩
  | cons first rest ih =>
    obtain ⟨calls, connections, host, length⟩ := ih (pool.release first)
    refine ⟨calls, connections, host, length.trans ?_⟩
    exact length_modify ..

/-- Slots that change hands are still counted. -/
theorem Counted.traded (counted : pool.Counted options) (entry : next.entry = pool.entry)
    (length : next.slots.length = pool.slots.length)
    (calls : ∀ phase ∈ next.calls, phase ∈ pool.calls ∨ ∀ entry ∈ phase.entry, entry ∈ pool.entry)
    (connections : ∀ connection ∈ next.connections, ∀ entry ∈ connection.slot, entry ∈ pool.entry)
    (balance : ∀ entry free, next.slots[entry]? = some free →
      ∃ before, pool.slots[entry]? = some before ∧ free + next.held entry = before + pool.held entry) :
    next.Counted options := by
  refine ⟨?_, ?_, ?_, ?_⟩
  · rw [entry, length]
    exact counted.known
  · rw [entry]
    intro phase member
    rcases calls phase member with old | refers
    · exact counted.calls phase old
    · exact refers
  · rw [entry]
    exact connections
  · intro entry free found
    obtain ⟨before, known, same⟩ := balance entry free found
    rw [same]
    exact counted.free entry before known

section Step

variable {after : Phase}

theorem Counted.setCall (counted : pool.Counted options) (found : pool.calls[call]? = some phase)
    (held : after.held = phase.held) (entry : ∀ entry ∈ after.entry, entry ∈ pool.entry) :
    (pool.setCall call after).Counted options := by
  refine counted.traded rfl rfl ?_ ?_ ?_
  · intro other member
    rcases mem_setCall member with old | rfl
    · exact .inl old
    · exact .inr entry
  · exact counted.connections
  · intro entry free known
    have traded := held_setCall after found entry
    rw [held] at traded
    exact ⟨free, known, by omega⟩

theorem Counted.take (counted : pool.Counted options) (found : pool.calls[call]? = some phase) {entry free : ℕ}
    (slot : pool.slots[entry]? = some (free + 1)) (before : phase.held = []) (held : after.held = [entry])
    (same : after.entry = phase.entry) :
    ({ pool with slots := pool.slots.set entry free }.setCall call after).Counted options := by
  refine counted.traded rfl (length_set ..) ?_ ?_ ?_
  · intro other member
    rcases mem_setCall member with old | rfl
    · exact .inl old
    · rw [same]
      exact .inr (counted.calls phase (mem_of_getElem? found))
  · exact counted.connections
  · intro other left known
    have traded := held_setCall after found other
    rw [before, held, count_nil, Nat.add_zero] at traded
    by_cases own : entry = other
    · subst own
      obtain ⟨bound, -⟩ := List.getElem?_eq_some_iff.mp slot
      have now : left = free := by
        rw [Pool.setCall, getElem?_set_self bound] at known
        exact (Option.some.inj known).symm
      rw [count_singleton_self] at traded
      refine ⟨free + 1, slot, ?_⟩
      change left + (pool.setCall call after).held entry = _
      omega
    · have other_slot : pool.slots[other]? = some left := by
        rw [Pool.setCall, getElem?_set_ne own] at known
        exact known
      rw [count_eq_zero.mpr (by simpa using Ne.symm own)] at traded
      refine ⟨left, other_slot, ?_⟩
      change left + (pool.setCall call after).held other = _
      omega

theorem Counted.leave (counted : pool.Counted options) (found : pool.calls[call]? = some phase)
    (held : after.held = []) (entry : ∀ entry ∈ after.entry, entry ∈ phase.entry) :
    (pool.leave call phase after).Counted options := by
  obtain ⟨calls, connections, host, length⟩ := pool.releaseAll_rest phase.held
  have inside := counted.calls phase (mem_of_getElem? found)
  apply counted.traded
  · exact congrArg (Option.map Host.entry) host
  · exact length
  · intro other member
    rcases mem_setCall member with old | rfl
    · exact .inl (calls ▸ old)
    · exact .inr fun own refers => inside own (entry own refers)
  · intro connection member
    exact counted.connections connection (connections ▸ member)
  · intro other free known
    have slots := pool.releaseAll_slots phase.held other
    obtain ⟨before, was, rfl⟩ := Option.map_eq_some_iff.mp (slots.symm.trans known)
    have traded := held_setCall after found other
    have same : (pool.leave call phase after).held other = (pool.setCall call after).held other := by
      simp only [Pool.held, Pool.leave, Pool.setCall, calls, connections]
    rw [held, count_nil, Nat.add_zero] at traded
    exact ⟨before, was, by omega⟩

theorem Counted.connect (counted : pool.Counted options) (found : pool.calls[call]? = some phase) {slot : Option ℕ}
    (handed : slot.toList = phase.held) (held : after.held = []) (same : after.entry = phase.entry) :
    (pool.connect call slot after).Counted options := by
  have inside := counted.calls phase (mem_of_getElem? found)
  refine counted.traded rfl rfl ?_ ?_ ?_
  · intro other member
    rcases mem_or_eq_of_mem_set member with old | rfl
    · exact .inl old
    · rw [same]
      exact .inr inside
  · intro connection member entry refers
    rcases mem_append.mp member with old | new
    · exact counted.connections connection old entry refers
    · obtain rfl := mem_singleton.mp new
      apply inside
      apply Phase.mem_entry_of_held
      rw [← handed]
      exact Option.mem_toList.mpr refers
  · intro other free known
    have traded := held_setCall after found other
    rw [held, count_nil, Nat.add_zero] at traded
    refine ⟨free, known, ?_⟩
    have more : (pool.connect call slot after).held other = (pool.setCall call after).held other + phase.held.count other := by
      simp only [Pool.held, Pool.connect, Pool.setCall, flatMap_append, count_append, flatMap_singleton, Connection.held,
        handed]
      omega
    omega

end Step

/-- Closing a connection leaves its slot with its task. -/
theorem Counted.close (counted : pool.Counted options) (connection : ℕ) : (pool.close connection).Counted options := by
  have same : (pool.close connection).connections.flatMap Connection.held = pool.connections.flatMap Connection.held := by
    apply flatMap_modify
    exact fun _ => rfl
  refine counted.traded rfl rfl (fun _ member => .inl member) ?_ ?_
  · intro other member
    rcases mem_of_mem_modify member with old | ⟨old, inside, rfl⟩
    · exact counted.connections other old
    · exact counted.connections old inside
  · intro entry free known
    refine ⟨free, known, ?_⟩
    rw [Pool.held, Pool.held, same]
    rfl

theorem Moved.counted (moved : Moved options pool call phase choice next) (found : pool.calls[call]? = some phase)
    (counted : pool.Counted options) : next.Counted options := by
  have inside := counted.calls phase (mem_of_getElem? found)
  cases moved with
  | keeps kept held entry =>
    have still : ∀ entry ∈ pool.entry, entry ∈ _ := fun entry member => (kept.entry.elim (fun same => same.1.symm ▸ member)
      fun new => nomatch new.1 ▸ member)
    refine (counted.kept kept).setCall (kept.calls ▸ found) held fun other member => ?_
    rcases entry other member with new | old
    · exact new
    · exact still other (inside other old)
  | takes slot before held same => exact counted.take found slot before held same
  | leaves held entry => exact counted.leave found held entry
  | connects handed held same => exact counted.connect found handed held same
  | closes connection before held entry =>
    refine (counted.close connection).setCall found (held.trans before.symm) ?_
    exact fun other member => inside other (entry other member)

theorem Counted.endTask (counted : pool.Counted options) {connection : ℕ} (stepped : pool.endTask connection = some next) :
    next.Counted options := by
  unfold Pool.endTask at stepped
  split at stepped
  · next slot found =>
    cases stepped
    obtain ⟨calls, connections, host, length⟩ :=
      releaseAll_rest { pool with connections := pool.connections.set connection ⟨none, false⟩ } slot.toList
    refine counted.traded (congrArg (Option.map Host.entry) host) length (fun _ member => .inl (calls ▸ member)) ?_ ?_
    · rw [connections]
      intro other member
      rcases mem_or_eq_of_mem_set member with old | rfl
      · exact counted.connections other old
      · exact nofun
    · intro entry free known
      have slots := releaseAll_slots { pool with connections := pool.connections.set connection ⟨none, false⟩ } slot.toList entry
      obtain ⟨before, was, rfl⟩ := Option.map_eq_some_iff.mp (slots.symm.trans known)
      have traded := count_flatMap_set Connection.held found ⟨none, false⟩ entry
      refine ⟨before, was, ?_⟩
      simp only [Pool.held, calls, connections]
      simp only [Connection.held, Option.toList_none, count_nil, Nat.add_zero] at traded
      omega
  · cases stepped

/-- An entry that nobody refers to can be forgotten. -/
theorem Counted.forget (counted : pool.Counted options) (calls : ∀ phase ∈ pool.calls, phase.entry = none ∨ phase.entry ≠ pool.entry)
    (connections : ∀ connection ∈ pool.connections, connection.slot = none ∨ connection.slot ≠ pool.entry) :
    ({ pool with host := none } : Pool).Counted options := by
  refine ⟨nofun, ?_, ?_, counted.free⟩
  · intro phase member entry refers
    have inside := counted.calls phase member entry refers
    rcases calls phase member with none | other
    · exact nomatch none.symm.trans refers
    · exact (other (refers.trans inside.symm)).elim
  · intro connection member entry refers
    have inside := counted.connections connection member entry refers
    rcases connections connection member with none | other
    · exact nomatch none.symm.trans refers
    · exact (other (refers.trans inside.symm)).elim

theorem Counted.reap (counted : pool.Counted options) (now : ℕ) (closed : List ℕ) (h2Closed : Bool) :
    (pool.reap options now closed h2Closed).Counted options := by
  have keeps : Kept options pool (pool.hosts.update fun host => host.expire now options.idleSecs closed h2Closed) := by
    apply kept_update
    exact fun _ => rfl
  have expired := counted.kept keeps
  simp only [Pool.reap]
  generalize (pool.hosts.update fun host => host.expire now options.idleSecs closed h2Closed) = kept at expired
  cases there : kept.host with
  | none =>
    rw [Option.filter_none]
    exact (show ({ kept with host := none } : Pool) = kept from there ▸ rfl) ▸ expired
  | some host =>
    rw [Option.filter_some]
    split
    · exact (show ({ kept with host := some host } : Pool) = kept from there ▸ rfl) ▸ expired
    · next gone =>
      have entry : kept.entry = some host.entry := congrArg (Option.map Host.entry) there
      have unused : kept.unused options host = true := by simpa using gone
      simp only [Pool.unused, Bool.and_eq_true, all_eq_true, bne_iff_ne] at unused
      obtain ⟨⟨-, connections⟩, calls⟩ := unused
      apply expired.forget
      · rw [entry]
        exact fun phase member => .inr (calls phase member)
      · rw [entry]
        exact fun connection member => .inr (connections connection member)

theorem Counted.step (counted : pool.Counted options) {event : Event} (stepped : pool.step options event = some next) :
    next.Counted options := by
  cases event with
  | send =>
    cases stepped
    refine counted.traded rfl rfl ?_ counted.connections ?_
    · intro phase member
      rcases mem_append.mp member with old | new
      · exact .inl old
      · obtain rfl := mem_singleton.mp new
        exact .inr nofun
    · intro entry free known
      refine ⟨free, known, ?_⟩
      simp only [Pool.held, flatMap_append, flatMap_singleton, Phase.held, append_nil]
  | step call choice =>
    obtain ⟨phase, found, stepped⟩ := Option.bind_eq_some_iff.mp stepped
    exact (moved_of_advance stepped).counted found counted
  | close connection =>
    cases stepped
    exact counted.close connection
  | endTask connection => exact counted.endTask stepped
  | reap now closed h2Closed =>
    cases stepped
    exact counted.reap now closed h2Closed
  | evictHttp1 place => exact counted.kept (kept_evictHttp1 stepped)
  | evictHttp2 => exact counted.kept (kept_evictHttp2 stepped)
  | reset =>
    cases stepped
    exact counted.kept ((Kept.refl pool).of_entry rfl rfl rfl rfl)

theorem counted_after {history : List Event} (ran : Pool.after options history = some pool) : pool.Counted options :=
  Machine.run_invariant (Counted options) counted_new (fun _ _ _ counted _ stepped => counted.step stepped)
    (Machine.along_of_forall_mem fun _ _ _ => trivial) ran

/-- Every open connection has a slot. -/
def Slotted (pool : Pool) : Prop := ∀ connection ∈ pool.connections, connection.live = true → connection.slot.isSome

theorem Slotted.of_connections (slotted : pool.Slotted) (same : next.connections = pool.connections) : next.Slotted := by
  unfold Slotted
  rw [same]
  exact slotted

theorem Slotted.close (slotted : pool.Slotted) (connection : ℕ) : (pool.close connection).Slotted := by
  intro other member open'
  rcases mem_of_mem_modify member with old | ⟨old, -, rfl⟩
  · exact slotted other old open'
  · cases open'

/-- A new connection has the slot of its dial, which has one. -/
theorem Moved.slotted (moved : Moved options pool call phase choice next)
    (dials : choice = .negotiated .http1 → ∀ dialing entry, phase ≠ .handshaking false dialing entry)
    (slotted : pool.Slotted) : next.Slotted := by
  cases moved with
  | keeps kept => exact slotted.of_connections kept.connections
  | takes => exact slotted
  | leaves => exact slotted.of_connections (releaseAll_rest pool phase.held).2.1
  | @connects after taken handed held same negotiated =>
    obtain ⟨chosen, slot, dialing, entry, rfl⟩ := negotiated
    cases slot with
    | false => exact (dials chosen dialing entry rfl).elim
    | true =>
      intro connection member _
      rcases mem_append.mp member with old | new
      · exact slotted connection old ‹_›
      · obtain rfl := mem_singleton.mp new
        have mine : entry ∈ taken.toList := by
          rw [handed]
          exact mem_singleton_self entry
        exact Option.isSome_of_mem (Option.mem_toList.mp mine)
  | closes connection => exact (slotted.close connection).of_connections rfl

theorem Slotted.step (slotted : pool.Slotted) {event : Event} (dials : pool.DialsWithSlot event)
    (stepped : pool.step options event = some next) : next.Slotted := by
  cases event with
  | step call choice =>
    obtain ⟨phase, found, stepped⟩ := Option.bind_eq_some_iff.mp stepped
    refine (moved_of_advance stepped).slotted ?_ slotted
    rintro rfl dialing entry rfl
    exact dials dialing entry found
  | send | reset =>
    cases stepped
    exact slotted
  | close connection =>
    cases stepped
    exact slotted.close connection
  | endTask connection =>
    simp only [Pool.step, Pool.endTask] at stepped
    split at stepped
    · cases stepped
      refine Slotted.of_connections ?_ (releaseAll_rest _ _).2.1
      intro other member open'
      rcases mem_or_eq_of_mem_set member with old | rfl
      · exact slotted other old open'
      · cases open'
    · cases stepped
  | reap now closed h2Closed =>
    cases stepped
    have kept : Kept options pool pool.hosts := kept_hosts pool
    exact slotted.of_connections kept.connections
  | evictHttp1 place =>
    have kept : Kept options pool next := kept_evictHttp1 stepped
    exact slotted.of_connections kept.connections
  | evictHttp2 =>
    have kept : Kept options pool next := kept_evictHttp2 stepped
    exact slotted.of_connections kept.connections

theorem slotted_after {history : List Event} (along : Machine.Along (Pool.step options) new DialsWithSlot history)
    (ran : Pool.after options history = some pool) : pool.Slotted := by
  have initial : new.Slotted := by
    intro connection member
    cases member
  exact Machine.run_invariant Slotted initial (fun _ _ _ slotted dials stepped => slotted.step dials stepped) along ran

/-- Connections that all have a slot are within the limit. -/
theorem Counted.live_le (counted : pool.Counted options) (slotted : pool.Slotted) : pool.live ≤ options.maxH1PerHost := by
  cases there : pool.entry with
  | none =>
    have closed : pool.live = 0 := by
      apply countP_eq_zero.mpr
      intro connection member open'
      obtain ⟨entry, slot⟩ := Option.isSome_iff_exists.mp (slotted connection member open')
      have inside := counted.connections connection member entry slot
      rw [there] at inside
      cases inside
    rw [closed]
    exact Nat.zero_le _
  | some entry =>
    have known := counted.known entry there
    have free := counted.free entry _ (getElem?_eq_getElem known)
    have each : ∀ connection ∈ pool.connections, connection.live = true → entry ∈ connection.held := by
      intro connection member open'
      obtain ⟨own, slot⟩ := Option.isSome_iff_exists.mp (slotted connection member open')
      have inside := counted.connections connection member own slot
      rw [there] at inside
      obtain rfl := Option.some.inj inside
      exact Option.mem_toList.mpr slot
    calc pool.live ≤ (pool.connections.flatMap Connection.held).count entry := countP_le_count_flatMap each
      _ ≤ pool.held entry := Nat.le_add_left _ _
      _ ≤ options.maxH1PerHost := by omega

end Pool

end Tollgate.Mitm

import Tollgate.Model.Engine.Resolving

/-! # Permits of the DNS over HTTPS client

What one step of a resolve, of a query, of a lookup and of a call does to the permits: those that are free
and those that the caller has are as many as before. None returns busy if a permit is free whenever one is
tried for, which a lookup does only with a turn and with at most one permit for its other query. `Moved` says
once what a step of a call can do.
-/

namespace Tollgate

namespace Doh

namespace Resolve

variable {inner next : Inner} {resolve after : Resolve} {choice : Choice}

/-- The call has not returned busy and will not return it as the last error. -/
def Unbusy : Resolve → Prop
  | asking _ last _ => last ≠ .busy
  | returned result => result ≠ .error .busy
  | entering _ | ordering .. | probing .. => True

theorem held_le (resolve : Resolve) : resolve.held ≤ 1 := by
  cases resolve with
  | ordering | probing | asking => exact le_refl 1
  | entering | returned => exact Nat.zero_le _

theorem probe_inFlight (inner : Inner) (index : ℕ) : (inner.probe index).inFlight = inner.inFlight := by
  rw [Inner.probe]
  split <;> rfl

/-- The next look at an upstream keeps the permit. -/
theorem order_spec (inner : Inner) (query : Bytes) (now : ℕ) (up down : List ℕ) :
    (order inner query now up down).1.inFlight = inner.inFlight ∧ (order inner query now up down).2.held = 1 ∧
      (order inner query now up down).2.Unbusy := by
  rw [order]
  split
  · exact ⟨rfl, rfl, nofun⟩
  · split
    · exact ⟨rfl, rfl, trivial⟩
    · exact ⟨rfl, rfl, trivial⟩
    · exact ⟨rfl, rfl, trivial⟩

theorem enter_spec (inner : Inner) (query : Bytes) (now : ℕ) :
    (enter inner query now).1.inFlight + (enter inner query now).2.held = inner.inFlight ∧
      (0 < inner.inFlight → (enter inner query now).2.Unbusy) := by
  rw [enter]
  split
  · exact ⟨rfl, fun _ => nofun⟩
  · split
    · next none => exact ⟨rfl, fun room => absurd none (Nat.ne_of_gt room)⟩
    · next some => exact ⟨Nat.sub_add_cancel (Nat.pos_of_ne_zero some), fun _ => trivial⟩

theorem step_spec (stepped : resolve.step inner choice = some (next, after)) :
    next.inFlight + after.held = inner.inFlight + resolve.held ∧
      ((resolve.held = 0 → 0 < inner.inFlight) → resolve.Unbusy → after.Unbusy) := by
  rw [step.eq_def] at stepped
  split at stepped
  · next query now =>
    obtain ⟨free, unbusy⟩ := enter_spec inner query now
    rw [Option.some.inj stepped] at free unbusy
    exact ⟨free, fun room _ => unbusy (room rfl)⟩
  · next query now up down _ =>
    obtain ⟨free, has, unbusy⟩ := order_spec inner query now up down
    rw [Option.some.inj stepped] at free has unbusy
    refine ⟨?_, fun _ _ => unbusy⟩
    rw [free, has]
    rfl
  · next query now up down _ =>
    cases stepped
    exact ⟨congrArg (· + 1) (probe_inFlight ..), fun _ _ => trivial⟩
  · next query last _ =>
    cases stepped
    refine ⟨rfl, fun _ unbusy same => unbusy ?_⟩
    cases same
    rfl
  · cases stepped
    exact ⟨rfl, fun _ _ => nofun⟩
  · next query last first order error =>
    obtain ⟨upstream, same⟩ := Option.ite_none_right_eq_some.mp stepped
    cases same
    refine ⟨rfl, fun _ _ => ?_⟩
    rintro rfl
    cases upstream
  · cases stepped

end Resolve

end Doh

namespace Lookup

variable {libraries : LookupLibraries} {host : Text}

namespace Query

variable {inner next : Doh.Inner} {rtype : RecordType} {query after : Query} {choice : Doh.Resolve.Choice}

def Unbusy (query : Query) : Prop := ∀ resolve ∈ query.resolves, resolve.Unbusy

theorem held_le (query : Query) : query.held ≤ 1 := by
  cases query with
  | resolving resolve => exact resolve.held_le
  | starting | finished => exact Nat.zero_le _

theorem unbusy_resolving {resolve : Doh.Resolve} : (resolving resolve).Unbusy ↔ resolve.Unbusy := by
  simp [Unbusy, resolves]

theorem unbusy_finished (found : Option (List Address × UInt32)) : (finished found).Unbusy := fun _ => nofun

theorem step_spec (stepped : query.step libraries inner host rtype choice = some (next, after)) :
    next.inFlight + after.held = inner.inFlight + query.held ∧
      ((query.held = 0 → 0 < inner.inFlight) → query.Unbusy → after.Unbusy) := by
  rw [step.eq_def] at stepped
  split at stepped
  · split at stepped
    · cases stepped
      exact ⟨rfl, fun _ _ => unbusy_finished _⟩
    · cases stepped
      exact ⟨rfl, fun _ _ => unbusy_resolving.mpr trivial⟩
  · split at stepped
    · cases stepped
      exact ⟨rfl, fun _ _ => unbusy_finished _⟩
    · cases stepped
      exact ⟨rfl, fun _ _ => unbusy_finished _⟩
  · obtain ⟨⟨inner', resolve'⟩, went, same⟩ := Option.map_eq_some_iff.mp stepped
    cases same
    obtain ⟨free, unbusy⟩ := Doh.Resolve.step_spec went
    exact ⟨free, fun room fine => unbusy_resolving.mpr (unbusy room (unbusy_resolving.mp fine))⟩
  · cases stepped

end Query

namespace LookUp

variable {resources next : Resources} {lookUp after : LookUp} {choice : Choice}

/-- No query has returned busy, and a lookup that is dropped has at most the permits of two queries. -/
def Fine : LookUp → Prop
  | running _ a aaaa => a.Unbusy ∧ aaaa.Unbusy
  | dropping permits => permits ≤ 2
  | queued | kept _ | returned _ | dropped => True

theorem Fine.held_le (fine : lookUp.Fine) : lookUp.held ≤ 2 * lookUp.turns := by
  cases lookUp with
  | running now a aaaa =>
    change a.held + aaaa.held ≤ 1 + 1
    exact Nat.add_le_add a.held_le aaaa.held_le
  | dropping permits => exact fine
  | queued | kept | returned | dropped => exact Nat.zero_le _

theorem Fine.unbusy (fine : lookUp.Fine) : ∀ resolve ∈ lookUp.resolves, resolve.Unbusy := by
  intro resolve member
  cases lookUp with
  | running now a aaaa =>
    rcases List.mem_append.mp member with first | second
    · exact fine.1 resolve first
    · exact fine.2 resolve second
  | queued | kept | returned | dropping | dropped => cases member

theorem step_spec (stepped : lookUp.step libraries resources host choice = some (next, after)) :
    next.inner.inFlight + after.held = resources.inner.inFlight + lookUp.held ∧
      next.turns + after.turns = resources.turns + lookUp.turns ∧
      ((lookUp.held ≤ 1 → lookUp.turns = 1 → 0 < resources.inner.inFlight) → lookUp.Fine → after.Fine) := by
  rw [step.eq_def] at stepped
  split at stepped
  · split at stepped
    · cases stepped
    · next some =>
      cases stepped
      refine ⟨rfl, Nat.sub_add_cancel (Nat.pos_of_ne_zero some), fun _ _ => ⟨?_, ?_⟩⟩
      · exact fun _ => nofun
      · exact fun _ => nofun
  · cases stepped
    exact ⟨rfl, rfl, fun _ _ => trivial⟩
  · next now a aaaa choice =>
    obtain ⟨⟨inner, query⟩, went, same⟩ := Option.map_eq_some_iff.mp stepped
    cases same
    obtain ⟨free, unbusy⟩ := Query.step_spec went
    refine ⟨?_, rfl, fun room fine => ⟨unbusy (fun none => ?_) fine.1, fine.2⟩⟩
    · change inner.inFlight + (query.held + aaaa.held) = resources.inner.inFlight + (a.held + aaaa.held)
      omega
    · have most := aaaa.held_le
      apply room _ rfl
      change a.held + aaaa.held ≤ 1
      omega
  · next now a aaaa choice =>
    obtain ⟨⟨inner, query⟩, went, same⟩ := Option.map_eq_some_iff.mp stepped
    cases same
    obtain ⟨free, unbusy⟩ := Query.step_spec went
    refine ⟨?_, rfl, fun room fine => ⟨fine.1, unbusy (fun none => ?_) fine.2⟩⟩
    · change inner.inFlight + (a.held + query.held) = resources.inner.inFlight + (a.held + aaaa.held)
      omega
    · have most := a.held_le
      apply room _ rfl
      change a.held + aaaa.held ≤ 1
      omega
  · rw [finish.eq_def] at stepped
    split at stepped
    · cases stepped
      exact ⟨rfl, rfl, fun _ _ => trivial⟩
    · cases stepped
  · next now a aaaa =>
    obtain ⟨-, same⟩ := Option.ite_none_right_eq_some.mp stepped
    cases same
    exact ⟨rfl, rfl, fun _ _ => Nat.add_le_add a.held_le aaaa.held_le⟩
  · cases stepped
    exact ⟨rfl, rfl, fun _ _ => trivial⟩
  · next permits _ =>
    cases stepped
    refine ⟨?_, rfl, fun _ fine => Nat.le_of_succ_le fine⟩
    change resources.inner.inFlight + 1 + permits = resources.inner.inFlight + (permits + 1)
    omega
  · cases stepped
    exact ⟨rfl, rfl, fun _ _ => trivial⟩
  · cases stepped

end LookUp

namespace Phase

def turns (phase : Phase) : ℕ := phase.lookUp.elim 0 LookUp.turns

/-- The in-flight permits that the call has. -/
def held (phase : Phase) : ℕ := phase.lookUp.elim 0 LookUp.held

def Fine (phase : Phase) : Prop := ∀ lookUp ∈ phase.lookUp, lookUp.Fine

theorem Fine.held_le {phase : Phase} (fine : phase.Fine) : phase.held ≤ 2 * phase.turns := by
  cases phase with
  | looking id channel lookUp => exact (fine lookUp rfl).held_le
  | checking | entering | leaving | closing | waiting | returned | cancelled => exact Nat.zero_le _

end Phase

namespace HostResolver

variable {hosts next : HostResolver} {index : ℕ} {phase after : Phase} {choice : Choice}

/-- What a step of a call can do, with what it found. -/
inductive Moved (libraries : LookupLibraries) (hosts : HostResolver) (index : ℕ) (host : Text) :
    Phase → HostResolver → Phase → Prop
  | checks (found : Option (List Address)) (cache : Lru Text HostEntry) :
      Moved libraries hosts index host .checking
        { hosts with resources := { hosts.resources with cache := cache } } (found.elim .entering .returned)
  | joins {id : UInt64} {channel : ℕ} : hosts.lookups.get host = some (id, channel) →
      Moved libraries hosts index host .entering hosts (.waiting channel)
  | leads : hosts.lookups.get host = none →
      Moved libraries hosts index host .entering
        { hosts with
          lookups := (hosts.lookups.insert host hosts.channels.length).1
          channels := hosts.channels ++ [⟨index, none, true⟩] }
        (.looking (hosts.lookups.lastId + 1) hosts.channels.length .queued)
  | works (id : UInt64) (channel : ℕ) {lookUp later : LookUp} {resources : Resources} {choice : Choice} :
      lookUp.step libraries hosts.resources host choice = some (resources, later) →
      Moved libraries hosts index host (.looking id channel lookUp) { hosts with resources := resources }
        (.looking id channel later)
  | sends (id : UInt64) (channel : ℕ) (addresses : List Address) :
      Moved libraries hosts index host (.looking id channel (.returned addresses)) (hosts.send channel addresses)
        (.leaving id channel addresses)
  | abandons (id : UInt64) (channel : ℕ) :
      Moved libraries hosts index host (.looking id channel .dropped) (hosts.dropGuard host id) (.closing channel none)
  | leaves (id : UInt64) (channel : ℕ) (addresses : List Address) :
      Moved libraries hosts index host (.leaving id channel addresses) (hosts.dropGuard host id)
        (.closing channel (some addresses))
  | closes (channel : ℕ) (result : Option (List Address)) :
      Moved libraries hosts index host (.closing channel result) (hosts.dropSender channel) (.ended result)
  | wakes {channel : ℕ} {phase : Phase} : hosts.wake channel = some phase →
      Moved libraries hosts index host (.waiting channel) hosts phase
  | quits (channel : ℕ) : Moved libraries hosts index host (.waiting channel) hosts .cancelled

theorem moved_join :
    Moved libraries hosts index host .entering (hosts.join index host).1 (hosts.join index host).2 := by
  rw [join]
  split
  · next id channel there => exact .joins there
  · next absent => exact .leads absent

theorem moved_of_advance (advanced : hosts.advance libraries index host phase choice = some (next, after)) :
    Moved libraries hosts index host phase next after := by
  rw [advance.eq_def] at advanced
  split at advanced
  · cases advanced
    exact .checks ..
  · have joined := @moved_join libraries host hosts index
    rw [Option.some.inj advanced] at joined
    exact joined
  · cases advanced
    exact .sends ..
  · cases advanced
    exact .abandons ..
  · obtain ⟨⟨resources, later⟩, went, same⟩ := Option.map_eq_some_iff.mp advanced
    cases same
    exact .works _ _ went
  · cases advanced
    exact .leaves ..
  · cases advanced
    exact .closes ..
  · obtain ⟨later, woke, same⟩ := Option.map_eq_some_iff.mp advanced
    cases same
    exact .wakes woke
  · cases advanced
    exact .quits _
  · cases advanced

/-- A waiter that wakes has the value that was sent, or the sender was dropped without one. -/
theorem wake_cases {channel : ℕ} (woke : hosts.wake channel = some phase) :
    ∃ there, hosts.channels[channel]? = some there ∧
      ((∃ addresses, there.value = some addresses ∧ phase = .returned addresses) ∨
        (there.value = none ∧ there.sender = false ∧ phase = .checking)) := by
  obtain ⟨there, found, rest⟩ := Option.bind_eq_some_iff.mp woke
  refine ⟨there, found, ?_⟩
  split at rest
  · next addresses sent =>
    cases rest
    exact .inl ⟨addresses, sent, rfl⟩
  · next unsent =>
    obtain ⟨gone, same⟩ := Option.ite_none_left_eq_some.mp rest
    cases same
    exact .inr ⟨unsent, Bool.eq_false_iff.mpr gone, rfl⟩

/-- The permits and the turns that are free and those of the call are as many as before. -/
theorem Moved.spec (moved : Moved libraries hosts index host phase next after) :
    next.resources.inner.inFlight + after.held = hosts.resources.inner.inFlight + phase.held ∧
      next.resources.turns + after.turns = hosts.resources.turns + phase.turns ∧
      ((phase.held ≤ 1 → phase.turns = 1 → 0 < hosts.resources.inner.inFlight) → phase.Fine → after.Fine) := by
  cases moved with
  | checks found cache => cases found <;> exact ⟨rfl, rfl, fun _ _ _ => nofun⟩
  | joins | sends | abandons | leaves | quits => exact ⟨rfl, rfl, fun _ _ _ => nofun⟩
  | leads =>
    refine ⟨rfl, rfl, fun _ _ lookUp same => ?_⟩
    cases same
    trivial
  | works id channel went =>
    obtain ⟨free, turns, fine⟩ := LookUp.step_spec went
    refine ⟨free, turns, fun room before lookUp same => ?_⟩
    cases same
    exact fine room (before _ rfl)
  | closes channel result => cases result <;> exact ⟨rfl, rfl, fun _ _ _ => nofun⟩
  | wakes woke =>
    obtain ⟨there, -, ⟨addresses, -, rfl⟩ | ⟨-, -, rfl⟩⟩ := wake_cases woke <;>
      exact ⟨rfl, rfl, fun _ _ _ => nofun⟩

end HostResolver

end Lookup

end Tollgate

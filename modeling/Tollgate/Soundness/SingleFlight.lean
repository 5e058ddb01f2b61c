import Tollgate.Proofs.Engine.Resolving
import Tollgate.ToMathlib.Retain

/-! # Lookups of host names are single-flight

The lookups in progress are exactly those whose leading call still has its guard, one for each name. Every
channel tells how its leading call stands: nothing was sent while the call looks the name up, what was sent is
what it returns, and the sender is dropped after the guard. So a call that waits has a leader, or can go on:
with what the leader found, or from the start if the leader was cancelled.
-/

namespace Tollgate.Lookup

variable {libraries : LookupLibraries} {hosts next : HostResolver} {calls : List Call} {index : ℕ} {call : Call}
  {host : Text} {phase after : Phase}

namespace Lookups

theorem get_insert (lookups : Lookups) (host : Text) (channel : ℕ) :
    (lookups.insert host channel).1.get host = some (lookups.lastId + 1, channel) := AList.lookup_insert _

theorem get_insert_ne {lookups : Lookups} {other : Text} (different : other ≠ host) (channel : ℕ) :
    (lookups.insert host channel).1.get other = lookups.get other := AList.lookup_insert_ne different

theorem get_finish {lookups : Lookups} {id : UInt64} {channel : ℕ} (there : lookups.get host = some (id, channel)) :
    (lookups.finish host id).get host = none := by
  have own : (lookups.get host).any (fun entry => decide (entry.1 = id)) = true := by
    rw [there]
    exact decide_eq_true rfl
  rw [finish, if_pos own]
  exact AList.lookup_erase _ _

theorem get_finish_ne {lookups : Lookups} {other : Text} (different : other ≠ host) (id : UInt64) :
    (lookups.finish host id).get other = lookups.get other := by
  rw [finish]
  split
  · exact AList.lookup_erase_ne different
  · rfl

end Lookups

theorem Phase.sends_of_guards {id : UInt64} {channel : ℕ} (guards : phase.guards = some (id, channel)) :
    phase.sends = some channel := by
  cases phase with
  | looking | leaving =>
    cases guards
    rfl
  | checking | entering | closing | waiting | returned | cancelled => cases guards

theorem Phase.guards_of_looks (looks : phase.looks = true) : ∃ entry, phase.guards = some entry := by
  cases phase with
  | looking id channel lookUp => exact ⟨(id, channel), rfl⟩
  | checking | entering | leaving | closing | waiting | returned | cancelled => cases looks

/-- How a channel stands when its leading call is in a phase. -/
def Channel.Tells (channel : Channel) (index : ℕ) : Phase → Prop
  | .looking _ own _ => own = index ∧ channel.value = none ∧ channel.sender = true
  | .leaving _ own addresses => own = index ∧ channel.value = some addresses ∧ channel.sender = true
  | .closing own result => own = index ∧ channel.value = result ∧ channel.sender = true
  | .returned addresses => channel.value = some addresses ∧ channel.sender = false
  | .cancelled => channel.value = none ∧ channel.sender = false
  | .checking | .entering | .waiting _ => False

/-- The entries of the lookups in progress are those of the calls that have a guard. -/
structure Entries (hosts : HostResolver) (calls : List Call) : Prop where
  entry : ∀ host entry, hosts.lookups.get host = some entry →
    ∃ (place : ℕ) (call : Call), calls[place]? = some call ∧ call.host = host ∧ call.phase.guards = some entry
  guard : ∀ (place : ℕ) (call : Call) entry, calls[place]? = some call → call.phase.guards = some entry →
    hosts.lookups.get call.host = some entry

/-- Every channel has a leading call that it tells about, every sender's channel is led by its call, and
every call that waits does so for a channel of its name. -/
structure Channels (hosts : HostResolver) (calls : List Call) : Prop where
  led : ∀ (place : ℕ) (call : Call) channel, calls[place]? = some call → call.phase.sends = some channel →
    ∃ there : Channel, hosts.channels[channel]? = some there ∧ there.leader = place
  told : ∀ (channel : ℕ) (there : Channel), hosts.channels[channel]? = some there →
    ∃ leader : Call, calls[there.leader]? = some leader ∧ there.Tells channel leader.phase
  waits : ∀ (place : ℕ) (call : Call) channel, calls[place]? = some call → call.phase = .waiting channel →
    ∃ (there : Channel) (leader : Call), hosts.channels[channel]? = some there ∧
      calls[there.leader]? = some leader ∧ leader.host = call.host

/-- Two calls with a guard for one name are one call. -/
theorem Entries.alone (entries : Entries hosts calls) (channels : Channels hosts calls) {first second : ℕ}
    {one other : Call} {left right : UInt64 × ℕ} (foundOne : calls[first]? = some one)
    (foundOther : calls[second]? = some other) (same : one.host = other.host) (guardsOne : one.phase.guards = some left)
    (guardsOther : other.phase.guards = some right) : first = second := by
  have entryOne := entries.guard first one left foundOne guardsOne
  have entryOther := entries.guard second other right foundOther guardsOther
  rw [same] at entryOne
  obtain rfl := Option.some.inj (entryOne.symm.trans entryOther)
  obtain ⟨there, found, leads⟩ := channels.led first one left.2 foundOne (Phase.sends_of_guards guardsOne)
  obtain ⟨again, foundAgain, leadsAgain⟩ :=
    channels.led second other left.2 foundOther (Phase.sends_of_guards guardsOther)
  obtain rfl := Option.some.inj (found.symm.trans foundAgain)
  exact leads.symm.trans leadsAgain

/-- A step that changes neither the lookups in progress nor the guard. -/
theorem Entries.same (entries : Entries hosts calls) (found : calls[index]? = some call)
    (lookups : next.lookups = hosts.lookups) (guards : after.guards = call.phase.guards) :
    Entries next (calls.set index ⟨call.host, after⟩) := by
  refine ⟨fun host entry there => ?_, fun place other entry stands has => ?_⟩
  · rw [lookups] at there
    obtain ⟨place, other, stands, name, has⟩ := entries.entry host entry there
    by_cases own : index = place
    · subst own
      obtain rfl := Option.some.inj (found.symm.trans stands)
      exact ⟨index, _, List.getElem?_set_of_some found _, name, guards.trans has⟩
    · exact ⟨place, other, by rw [List.getElem?_set_ne own, stands], name, has⟩
  · rw [lookups]
    rcases List.getElem?_set_cases stands with ⟨rfl, rfl⟩ | ⟨-, old⟩
    · exact entries.guard place call entry found (guards.symm.trans has)
    · exact entries.guard place other entry old has

/-- A step that sets the entry of its name to the one of its guard, when no other call has a guard for it. -/
theorem Entries.update (entries : Entries hosts calls) (found : calls[index]? = some call)
    (own : next.lookups.get call.host = after.guards)
    (others : ∀ host, host ≠ call.host → next.lookups.get host = hosts.lookups.get host)
    (alone : ∀ (place : ℕ) (other : Call) entry, calls[place]? = some other → other.host = call.host →
      other.phase.guards = some entry → place = index) : Entries next (calls.set index ⟨call.host, after⟩) := by
  refine ⟨fun host entry there => ?_, fun place other entry stands has => ?_⟩
  · by_cases name : host = call.host
    · subst name
      exact ⟨index, _, List.getElem?_set_of_some found _, rfl, own.symm.trans there⟩
    · rw [others host name] at there
      obtain ⟨place, other, stands, rfl, has⟩ := entries.entry host entry there
      have elsewhere : index ≠ place := by
        rintro rfl
        obtain rfl := Option.some.inj (found.symm.trans stands)
        exact name rfl
      exact ⟨place, other, by rw [List.getElem?_set_ne elsewhere, stands], rfl, has⟩
  · rcases List.getElem?_set_cases stands with ⟨rfl, rfl⟩ | ⟨different, old⟩
    · exact own.trans has
    · rw [others other.host fun name => different (alone place other entry old name has)]
      exact entries.guard place other entry old has

/-- A step keeps the name of every call. -/
theorem host_set (found : calls[index]? = some call) (after : Phase) {place : ℕ} {leader : Call}
    (stands : calls[place]? = some leader) :
    ∃ later : Call, (calls.set index ⟨call.host, after⟩)[place]? = some later ∧ later.host = leader.host := by
  by_cases own : index = place
  · subst own
    obtain rfl := Option.some.inj (found.symm.trans stands)
    exact ⟨_, List.getElem?_set_of_some found _, rfl⟩
  · exact ⟨leader, by rw [List.getElem?_set_ne own, stands], rfl⟩

/-- A step of a call that no channel tells about, to a phase without a sender. -/
theorem Channels.idle (channels : Channels hosts calls) (found : calls[index]? = some call)
    (same : next.channels = hosts.channels) (untold : ∀ (there : Channel) channel, ¬there.Tells channel call.phase)
    (sends : after.sends = none)
    (waits : ∀ channel, after = .waiting channel → ∃ (there : Channel) (leader : Call),
      hosts.channels[channel]? = some there ∧ calls[there.leader]? = some leader ∧ leader.host = call.host) :
    Channels next (calls.set index ⟨call.host, after⟩) := by
  rw [← same] at waits
  refine ⟨fun place other channel stands has => ?_, fun channel there stands => ?_,
    fun place other channel stands is => ?_⟩
  · rcases List.getElem?_set_cases stands with ⟨rfl, rfl⟩ | ⟨-, old⟩
    · cases sends.symm.trans has
    · rw [same]
      exact channels.led place other channel old has
  · rw [same] at stands
    obtain ⟨leader, leads, tells⟩ := channels.told channel there stands
    have elsewhere : index ≠ there.leader := by
      rintro own
      rw [← own] at leads
      obtain rfl := Option.some.inj (found.symm.trans leads)
      exact untold there channel tells
    exact ⟨leader, by rw [List.getElem?_set_ne elsewhere, leads], tells⟩
  · have before : ∃ (there : Channel) (leader : Call), next.channels[channel]? = some there ∧
        calls[there.leader]? = some leader ∧ leader.host = other.host := by
      rcases List.getElem?_set_cases stands with ⟨rfl, rfl⟩ | ⟨-, old⟩
      · exact waits channel is
      · rw [same]
        exact channels.waits place other channel old is
    obtain ⟨there, leader, here, leads, name⟩ := before
    obtain ⟨later, stays, kept⟩ := host_set found after leads
    exact ⟨there, later, here, stays, kept.trans name⟩

/-- A call begins to lead a lookup on a new channel. -/
theorem Channels.lead (channels : Channels hosts calls) (found : calls[index]? = some call)
    (new : next.channels = hosts.channels ++ [⟨index, none, true⟩])
    (untold : ∀ (there : Channel) channel, ¬there.Tells channel call.phase) {id : UInt64} {lookUp : LookUp}
    (looking : after = .looking id hosts.channels.length lookUp) :
    Channels next (calls.set index ⟨call.host, after⟩) := by
  subst looking
  have fresh : next.channels[hosts.channels.length]? = some ⟨index, none, true⟩ := by
    rw [new]
    exact List.getElem?_concat_length
  have old : ∀ {channel : ℕ} {there : Channel}, hosts.channels[channel]? = some there →
      next.channels[channel]? = some there := by
    intro channel there stands
    rw [new]
    exact List.getElem?_concat_of_some stands _
  refine ⟨fun place other channel stands has => ?_, fun channel there stands => ?_,
    fun place other channel stands is => ?_⟩
  · rcases List.getElem?_set_cases stands with ⟨rfl, rfl⟩ | ⟨-, before⟩
    · cases has
      exact ⟨_, fresh, rfl⟩
    · obtain ⟨there, here, leads⟩ := channels.led place other channel before has
      exact ⟨there, old here, leads⟩
  · rw [new] at stands
    rcases List.getElem?_concat_cases stands with ⟨rfl, rfl⟩ | before
    · exact ⟨_, List.getElem?_set_of_some found _, rfl, rfl, rfl⟩
    · obtain ⟨leader, leads, tells⟩ := channels.told channel there before
      have elsewhere : index ≠ there.leader := by
        rintro own
        rw [← own] at leads
        obtain rfl := Option.some.inj (found.symm.trans leads)
        exact untold there channel tells
      exact ⟨leader, by rw [List.getElem?_set_ne elsewhere, leads], tells⟩
  · rcases List.getElem?_set_cases stands with ⟨rfl, rfl⟩ | ⟨-, before⟩
    · cases is
    · obtain ⟨there, leader, here, leads, name⟩ := channels.waits place other channel before is
      obtain ⟨later, stays, kept⟩ := host_set found (.looking id hosts.channels.length lookUp) leads
      exact ⟨there, later, old here, stays, kept.trans name⟩

/-- A step of a call that leads a channel, which then tells about its next phase. -/
theorem Channels.own (channels : Channels hosts calls) (found : calls[index]? = some call) {channel : ℕ}
    (sends : call.phase.sends = some channel)
    (tells : ∀ there : Channel, there.Tells channel call.phase → ∃ later : Channel,
      (hosts.channels[channel]? = some there → next.channels[channel]? = some later) ∧ later.leader = there.leader ∧
        later.Tells channel after)
    (others : ∀ other, other ≠ channel → next.channels[other]? = hosts.channels[other]?)
    (keeps : ∀ other, after.sends = some other → other = channel) (busy : ∀ other, after ≠ .waiting other) :
    Channels next (calls.set index ⟨call.host, after⟩) := by
  obtain ⟨there, here, leads⟩ := channels.led index call channel found sends
  obtain ⟨leader, stands, told⟩ := channels.told channel there here
  rw [leads, found] at stands
  obtain rfl := Option.some.inj stands
  obtain ⟨later, changed, leader, tellsLater⟩ := tells there told
  have now := changed here
  rw [leads] at leader
  -- A channel has the same leader as before.
  have moved : ∀ {other : ℕ} {before : Channel}, hosts.channels[other]? = some before →
      ∃ after : Channel, next.channels[other]? = some after ∧ after.leader = before.leader := by
    intro other before was
    by_cases own : other = channel
    · subst own
      obtain rfl := Option.some.inj (here.symm.trans was)
      exact ⟨later, now, leader.trans leads.symm⟩
    · exact ⟨before, by rw [others other own, was], rfl⟩
  refine ⟨fun place other name stands has => ?_, fun other before was => ?_, fun place other name stands is => ?_⟩
  · rcases List.getElem?_set_cases stands with ⟨rfl, rfl⟩ | ⟨-, old⟩
    · obtain rfl := keeps name has
      exact ⟨later, now, leader⟩
    · obtain ⟨was, whose, led⟩ := channels.led place other name old has
      obtain ⟨after, is, same⟩ := moved whose
      exact ⟨after, is, same.trans led⟩
  · by_cases own : other = channel
    · subst own
      obtain rfl := Option.some.inj (now.symm.trans was)
      exact ⟨_, by rw [leader, List.getElem?_set_of_some found], tellsLater⟩
    · rw [others other own] at was
      obtain ⟨whose, led, told⟩ := channels.told other before was
      have elsewhere : index ≠ before.leader := by
        rintro same
        rw [← same] at led
        obtain rfl := Option.some.inj (found.symm.trans led)
        have only : call.phase.sends = some other → False := by
          intro both
          exact own (Option.some.inj (both.symm.trans sends))
        cases phased : call.phase with
        | looking | leaving | closing =>
          rw [phased] at told only
          exact only (congrArg some told.1)
        | checking | entering | waiting | returned | cancelled =>
          rw [phased] at sends
          cases sends
      exact ⟨whose, by rw [List.getElem?_set_ne elsewhere, led], told⟩
  · rcases List.getElem?_set_cases stands with ⟨rfl, rfl⟩ | ⟨-, old⟩
    · exact absurd is (busy name)
    · obtain ⟨was, whose, there, leads, same⟩ := channels.waits place other name old is
      obtain ⟨after, is, kept⟩ := moved there
      obtain ⟨final, stays, named⟩ := host_set found _ leads
      exact ⟨after, final, is, by rw [kept, stays], named.trans same⟩

/-- A step of a call that keeps its sender and leaves the channels alone. -/
theorem Channels.stays (channels : Channels hosts calls) (found : calls[index]? = some call)
    (same : next.channels = hosts.channels) {channel : ℕ} (before : call.phase.sends = some channel)
    (later : after.sends = some channel)
    (tells : ∀ there : Channel, there.Tells channel call.phase → there.Tells channel after) :
    Channels next (calls.set index ⟨call.host, after⟩) := by
  apply channels.own found before
  · intro there told
    refine ⟨there, fun here => ?_, rfl, tells there told⟩
    rw [same]
    exact here
  · intro other _
    rw [same]
  · intro other has
    exact Option.some.inj (has.symm.trans later)
  · rintro other rfl
    cases later

/-- Another call begins. -/
theorem Entries.concat (entries : Entries hosts calls) (unguarded : call.phase.guards = none) :
    Entries hosts (calls ++ [call]) := by
  refine ⟨fun host entry there => ?_, fun place other entry stands has => ?_⟩
  · obtain ⟨place, other, stands, name, has⟩ := entries.entry host entry there
    exact ⟨place, other, List.getElem?_concat_of_some stands _, name, has⟩
  · rcases List.getElem?_concat_cases stands with ⟨-, rfl⟩ | old
    · cases unguarded.symm.trans has
    · exact entries.guard place other entry old has

theorem Channels.concat (channels : Channels hosts calls) (silent : call.phase.sends = none)
    (busy : ∀ channel, call.phase ≠ .waiting channel) : Channels hosts (calls ++ [call]) := by
  refine ⟨fun place other channel stands has => ?_, fun channel there stands => ?_,
    fun place other channel stands is => ?_⟩
  · rcases List.getElem?_concat_cases stands with ⟨-, rfl⟩ | old
    · cases silent.symm.trans has
    · exact channels.led place other channel old has
  · obtain ⟨leader, leads, tells⟩ := channels.told channel there stands
    exact ⟨leader, List.getElem?_concat_of_some leads _, tells⟩
  · rcases List.getElem?_concat_cases stands with ⟨-, rfl⟩ | old
    · exact absurd is (busy channel)
    · obtain ⟨there, leader, here, leads, name⟩ := channels.waits place other channel old is
      exact ⟨there, leader, here, List.getElem?_concat_of_some leads _, name⟩

/-- Only the guard of a call removes an entry, and it is the call's own. -/
theorem Entries.removed (entries : Entries hosts calls) (found : calls[index]? = some call)
    (moved : HostResolver.Moved libraries hosts index call.host call.phase next after) {entry : UInt64 × ℕ}
    (there : hosts.lookups.get host = some entry) (gone : next.lookups.get host ≠ some entry) :
    call.host = host ∧ call.phase.guards = some entry ∧ next.lookups.get host = none := by
  have dropped : ∀ {id : UInt64} {channel : ℕ}, call.phase.guards = some (id, channel) →
      (hosts.lookups.finish call.host id).get host ≠ some entry →
      call.host = host ∧ call.phase.guards = some entry ∧ (hosts.lookups.finish call.host id).get host = none := by
    intro id channel guards missing
    have own := entries.guard index call (id, channel) found guards
    by_cases name : host = call.host
    · subst name
      exact ⟨rfl, guards.trans (own.symm.trans there), Lookups.get_finish own⟩
    · rw [Lookups.get_finish_ne name] at missing
      exact absurd there missing
  generalize phased : call.phase = phase at moved dropped ⊢
  cases moved with
  | checks | joins | works | sends | closes | wakes | quits => exact absurd there gone
  | leads absent =>
    by_cases name : host = call.host
    · subst name
      cases absent.symm.trans there
    · rw [Lookups.get_insert_ne name] at gone
      exact absurd there gone
  | abandons id channel => exact dropped rfl gone
  | leaves id channel addresses => exact dropped rfl gone

theorem Entries.moved (entries : Entries hosts calls) (channels : Channels hosts calls)
    (found : calls[index]? = some call)
    (moved : HostResolver.Moved libraries hosts index call.host call.phase next after) :
    Entries next (calls.set index ⟨call.host, after⟩) := by
  have dropped : ∀ {id : UInt64} {channel : ℕ} {result : Option (List Address)},
      call.phase.guards = some (id, channel) →
      Entries (hosts.dropGuard call.host id) (calls.set index ⟨call.host, .closing channel result⟩) := by
    intro id channel result guards
    apply entries.update found
    · exact Lookups.get_finish (entries.guard index call _ found guards)
    · exact fun other different => Lookups.get_finish_ne different id
    · exact fun place other entry stands name has => entries.alone channels stands found name has guards
  generalize phased : call.phase = phase at moved dropped
  cases moved with
  | checks result cache =>
    refine entries.same found rfl ?_
    rw [phased]
    cases result <;> rfl
  | joins | works | sends | quits =>
    refine entries.same found rfl ?_
    rw [phased]
    rfl
  | leads absent =>
    apply entries.update found
    · exact Lookups.get_insert ..
    · exact fun other different => Lookups.get_insert_ne different _
    · intro place other entry stands name has
      have there := entries.guard place other entry stands has
      rw [name, absent] at there
      cases there
  | abandons id channel => exact dropped rfl
  | leaves id channel addresses => exact dropped rfl
  | closes channel result =>
    refine entries.same found rfl ?_
    rw [phased]
    cases result <;> rfl
  | wakes woke =>
    refine entries.same found rfl ?_
    obtain ⟨there, -, ⟨addresses, -, rfl⟩ | ⟨-, -, rfl⟩⟩ := HostResolver.wake_cases woke
    · rw [phased]
      rfl
    · rw [phased]
      rfl

theorem Channels.moved (entries : Entries hosts calls) (channels : Channels hosts calls)
    (found : calls[index]? = some call)
    (moved : HostResolver.Moved libraries hosts index call.host call.phase next after) :
    Channels next (calls.set index ⟨call.host, after⟩) := by
  generalize phased : call.phase = phase at moved
  cases moved with
  | checks result cache =>
    refine channels.idle found rfl ?_ ?_ ?_
    · rw [phased]
      exact fun _ _ => id
    · cases result <;> rfl
    · cases result <;> exact fun _ => nofun
  | @joins number channel there =>
    refine channels.idle found rfl ?_ ?_ ?_
    · rw [phased]
      exact fun _ _ => id
    · rfl
    · intro other same
      cases same
      obtain ⟨place, leader, stands, name, guards⟩ := entries.entry call.host _ there
      obtain ⟨channel', here, leads⟩ := channels.led place leader channel stands (Phase.sends_of_guards guards)
      exact ⟨channel', leader, here, by rw [leads, stands], name⟩
  | leads absent =>
    refine channels.lead found rfl ?_ rfl
    rw [phased]
    exact fun _ _ => id
  | works | abandons | leaves =>
    refine channels.stays found rfl (phased ▸ rfl) rfl ?_
    rw [phased]
    exact fun _ => id
  | sends id channel addresses =>
    apply channels.own found
    · rw [phased]
      rfl
    · intro there tells
      rw [phased] at tells
      refine ⟨{ there with value := some addresses }, fun here => ?_, rfl, rfl, rfl, tells.2.2⟩
      change (hosts.channels.modify channel _)[channel]? = _
      rw [List.getElem?_modify_eq, here]
      rfl
    · intro other different
      exact List.getElem?_modify_ne _ _ different.symm
    · rintro other ⟨⟩
      rfl
    · exact fun _ => nofun
  | closes channel result =>
    apply channels.own found
    · rw [phased]
      rfl
    · intro there tells
      rw [phased] at tells
      refine ⟨{ there with sender := false }, fun here => ?_, rfl, ?_⟩
      · change (hosts.channels.modify channel _)[channel]? = _
        rw [List.getElem?_modify_eq, here]
        rfl
      · cases result with
        | none => exact ⟨tells.2.1, rfl⟩
        | some addresses => exact ⟨tells.2.1, rfl⟩
    · intro other different
      exact List.getElem?_modify_ne _ _ different.symm
    · cases result <;> exact fun _ => nofun
    · cases result <;> exact fun _ => nofun
  | wakes woke =>
    refine channels.idle found rfl ?_ ?_ ?_
    · rw [phased]
      exact fun _ _ => id
    · obtain ⟨there, -, ⟨addresses, -, rfl⟩ | ⟨-, -, rfl⟩⟩ := HostResolver.wake_cases woke <;> rfl
    · obtain ⟨there, -, ⟨addresses, -, rfl⟩ | ⟨-, -, rfl⟩⟩ := HostResolver.wake_cases woke <;> exact fun _ => nofun
  | quits channel =>
    refine channels.idle found rfl ?_ ?_ ?_
    · rw [phased]
      exact fun _ _ => id
    · rfl
    · exact fun _ => nofun

end Tollgate.Lookup

namespace Tollgate.Forwarding.World

open Lookup

variable {libraries : LookupLibraries} {options : EngineOptions} {world next : World} {event : Event}

theorem forward_keeps {forwarder : Forwarder} {choice : ForwardChoice}
    (stepped : world.forward forwarder choice = some next) : next.hosts = world.hosts ∧ next.calls = world.calls := by
  rw [forward.eq_def] at stepped
  split at stepped
  · obtain ⟨-, same⟩ := Option.ite_none_left_eq_some.mp stepped
    cases same
    exact ⟨rfl, rfl⟩
  · cases stepped
    exact ⟨rfl, rfl⟩
  · split at stepped
    · cases stepped
    · cases stepped
      exact ⟨rfl, rfl⟩
  · obtain ⟨-, same⟩ := Option.ite_none_right_eq_some.mp stepped
    cases same
    exact ⟨rfl, rfl⟩
  · cases stepped
    exact ⟨rfl, rfl⟩
  · cases stepped

/-- A call begins without a guard or a sender, and does not wait. -/
theorem begin_idle (libraries : LookupLibraries) (host : Text) : (Call.begin libraries host).phase.guards = none ∧
    (Call.begin libraries host).phase.sends = none ∧
      ∀ channel, (Call.begin libraries host).phase ≠ .waiting channel := by
  rw [Call.begin]
  split
  · exact ⟨rfl, rfl, fun _ => nofun⟩
  · split
    · exact ⟨rfl, rfl, fun _ => nofun⟩
    · exact ⟨rfl, rfl, fun _ => nofun⟩

/-- What an event does to the lookups: nothing, a new call, or a step of a call. -/
theorem step_calls (stepped : world.step libraries event = some next) :
    (next.hosts.lookups = world.hosts.lookups ∧ next.hosts.channels = world.hosts.channels ∧ next.calls = world.calls) ∨
      (∃ host, next.hosts = world.hosts ∧ next.calls = world.calls ++ [.begin libraries host]) ∨
      ∃ (index : ℕ) (choice : Choice) (call : Call) (phase : Phase), event = .call index choice ∧
        world.calls[index]? = some call ∧ next.calls = world.calls.set index ⟨call.host, phase⟩ ∧
        HostResolver.Moved libraries world.hosts index call.host call.phase next.hosts phase := by
  cases event with
  | mark upstream downUntil =>
    cases stepped
    exact .inl ⟨rfl, rfl, rfl⟩
  | reset upstream =>
    cases stepped
    exact .inl ⟨rfl, rfl, rfl⟩
  | probed upstream =>
    obtain ⟨-, same⟩ := Option.ite_none_right_eq_some.mp stepped
    cases same
    exact .inl ⟨rfl, rfl, rfl⟩
  | arrive query =>
    cases stepped
    exact .inl ⟨rfl, rfl, rfl⟩
  | forward choice =>
    obtain ⟨hosts, calls⟩ := forward_keeps stepped
    exact .inl ⟨by rw [hosts], by rw [hosts], calls⟩
  | task index choice =>
    obtain ⟨task, -, rest⟩ := Option.bind_eq_some_iff.mp stepped
    obtain ⟨⟨inner, free, after⟩, -, same⟩ := Option.bind_eq_some_iff.mp rest
    cases same
    exact .inl ⟨rfl, rfl, rfl⟩
  | resolve host =>
    cases stepped
    exact .inr (.inl ⟨host, rfl, rfl⟩)
  | call index choice =>
    obtain ⟨call, found, rest⟩ := Option.bind_eq_some_iff.mp stepped
    obtain ⟨⟨hosts, phase⟩, went, same⟩ := Option.bind_eq_some_iff.mp rest
    cases same
    exact .inr (.inr ⟨index, choice, call, phase, rfl, found, rfl, HostResolver.moved_of_advance went⟩)

/-- What holds of the lookups in every state that is reached. -/
structure Single (world : World) : Prop where
  entries : Entries world.hosts world.calls
  channels : Channels world.hosts world.calls

theorem single_start (options : EngineOptions) (upstreams : ℕ) : (start options upstreams).Single :=
  ⟨⟨fun _ _ => nofun, fun _ _ _ => nofun⟩, ⟨fun _ _ _ => nofun, fun _ _ => nofun, fun _ _ _ => nofun⟩⟩

theorem Single.step (single : world.Single) (stepped : world.step libraries event = some next) : next.Single := by
  obtain ⟨entries, channels⟩ := single
  rcases step_calls stepped with
    ⟨lookups, there, calls⟩ | ⟨host, hosts, calls⟩ | ⟨index, _, call, phase, _, found, calls, moved⟩
  · refine ⟨?_, ?_⟩
    · rw [calls]
      exact ⟨lookups ▸ entries.entry, lookups ▸ entries.guard⟩
    · rw [calls]
      exact ⟨there ▸ channels.led, there ▸ channels.told, there ▸ channels.waits⟩
  · obtain ⟨unguarded, silent, busy⟩ := begin_idle libraries host
    refine ⟨?_, ?_⟩
    · rw [hosts, calls]
      exact entries.concat unguarded
    · rw [hosts, calls]
      exact channels.concat silent busy
  · refine ⟨?_, ?_⟩
    · rw [calls]
      exact entries.moved channels found moved
    · rw [calls]
      exact channels.moved entries found moved

theorem single_after {upstreams : ℕ} {history : List Event}
    (ran : after libraries options upstreams history = some world) : world.Single := by
  refine Machine.run_invariant Single (single_start options upstreams) ?_
    (Machine.along_of_forall_mem fun _ _ _ => trivial) ran
  intro before event next single _ stepped
  exact single.step stepped

/-- A call that waits has a leader that is not done, or can go on. -/
theorem Single.waits (single : world.Single) {place channel : ℕ} {call : Call} (now : UInt64)
    (found : world.calls[place]? = some call) (waiting : call.phase = .waiting channel) :
    (∃ leader ∈ world.calls, leader.host = call.host ∧ leader.phase.sends = some channel) ∨
      (world.step libraries (.call place (.go now))).isSome = true := by
  obtain ⟨there, leader, here, leads, name⟩ := single.channels.waits place call channel found waiting
  obtain ⟨again, leadsAgain, tells⟩ := single.channels.told channel there here
  obtain rfl := Option.some.inj (leads.symm.trans leadsAgain)
  have steps : ∀ {phase : Phase}, world.hosts.wake channel = some phase →
      (world.step libraries (.call place (.go now))).isSome = true := by
    intro phase woke
    simp [World.step, found, waiting, HostResolver.advance, woke]
  cases phased : leader.phase with
  | looking | leaving | closing =>
    rw [phased] at tells
    refine .inl ⟨leader, List.mem_of_getElem? leads, name, ?_⟩
    rw [phased]
    exact congrArg some tells.1
  | returned addresses =>
    rw [phased] at tells
    refine .inr (@steps (.returned addresses) ?_)
    simp [HostResolver.wake, here, tells.1]
  | cancelled =>
    rw [phased] at tells
    refine .inr (@steps .checking ?_)
    simp [HostResolver.wake, here, tells.1, tells.2]
  | checking | entering | waiting =>
    rw [phased] at tells
    exact tells.elim

/-- A call that waited returns what its leader found, or starts over if the leader was cancelled. -/
theorem Single.woken (single : world.Single) {place channel : ℕ} {call : Call} {now : UInt64}
    (found : world.calls[place]? = some call) (waiting : call.phase = .waiting channel)
    (stepped : world.step libraries (.call place (.go now)) = some next) :
    ∃ (there : Channel) (leader : Call), world.hosts.channels[channel]? = some there ∧
      world.calls[there.leader]? = some leader ∧ leader.host = call.host ∧
      ((∃ addresses, leader.phase.found = some addresses ∧ next.calls[place]? = some ⟨call.host, .returned addresses⟩) ∨
        (leader.phase = .cancelled ∧ next.calls[place]? = some ⟨call.host, .checking⟩)) := by
  obtain ⟨there, leader, here, leads, name⟩ := single.channels.waits place call channel found waiting
  obtain ⟨again, leadsAgain, tells⟩ := single.channels.told channel there here
  obtain rfl := Option.some.inj (leads.symm.trans leadsAgain)
  refine ⟨there, leader, here, leads, name, ?_⟩
  obtain ⟨same, got, rest⟩ := Option.bind_eq_some_iff.mp stepped
  obtain rfl := Option.some.inj (found.symm.trans got)
  obtain ⟨⟨hosts, phase⟩, went, equal⟩ := Option.bind_eq_some_iff.mp rest
  rw [waiting] at went
  obtain ⟨woken, woke, both⟩ := Option.map_eq_some_iff.mp went
  cases both
  cases equal
  have now : (world.calls.set place ⟨call.host, phase⟩)[place]? = some ⟨call.host, phase⟩ :=
    List.getElem?_set_of_some found _
  obtain ⟨again, hereAgain, ⟨addresses, sent, rfl⟩ | ⟨unsent, gone, rfl⟩⟩ := HostResolver.wake_cases woke
  · obtain rfl := Option.some.inj (here.symm.trans hereAgain)
    refine .inl ⟨addresses, ?_, now⟩
    cases phased : leader.phase with
    | leaving | closing =>
      rw [phased] at tells
      exact tells.2.1.symm.trans sent
    | returned =>
      rw [phased] at tells
      exact tells.1.symm.trans sent
    | looking =>
      rw [phased] at tells
      cases tells.2.1.symm.trans sent
    | cancelled =>
      rw [phased] at tells
      cases tells.1.symm.trans sent
    | checking | entering | waiting =>
      rw [phased] at tells
      exact tells.elim
  · obtain rfl := Option.some.inj (here.symm.trans hereAgain)
    refine .inr ⟨?_, now⟩
    cases phased : leader.phase with
    | cancelled => rfl
    | looking | leaving | closing =>
      rw [phased] at tells
      cases tells.2.2.symm.trans gone
    | returned =>
      rw [phased] at tells
      cases tells.1.symm.trans unsent
    | checking | entering | waiting =>
      rw [phased] at tells
      exact tells.elim

/-- In every state that any interleaving of calls, each cancelled at any await, reaches: at most one call runs
`look_up` for a name; every lookup in progress belongs to a call that has yet to drop its guard, and a call that
waits has a leader or can go on; a step removes the entry of its own lookup only; and a call that joined returns
what its leader found, or starts over if the leader was cancelled. -/
theorem lookups_single_flight (libraries : LookupLibraries) (options : EngineOptions) (upstreams : ℕ)
    (history : List Event) (world : World) (ran : after libraries options upstreams history = some world) :
    (∀ (first second : ℕ) (one other : Call), world.calls[first]? = some one → world.calls[second]? = some other →
      one.host = other.host → one.phase.looks = true → other.phase.looks = true → first = second) ∧
    (∀ host entry, world.hosts.lookups.get host = some entry →
      ∃ call ∈ world.calls, call.host = host ∧ call.phase.guards = some entry) ∧
    (∀ (place channel : ℕ) (call : Call) (now : UInt64), world.calls[place]? = some call →
      call.phase = .waiting channel →
        (∃ leader ∈ world.calls, leader.host = call.host ∧ leader.phase.sends = some channel) ∨
          (world.step libraries (.call place (.go now))).isSome = true) ∧
    (∀ event next host entry, world.step libraries event = some next → world.hosts.lookups.get host = some entry →
      next.hosts.lookups.get host ≠ some entry → ∃ (place : ℕ) (choice : Choice) (call : Call),
        event = .call place choice ∧ world.calls[place]? = some call ∧ call.host = host ∧
          call.phase.guards = some entry ∧ next.hosts.lookups.get host = none) ∧
    (∀ (place channel : ℕ) (call : Call) (now : UInt64) (next : World), world.calls[place]? = some call →
      call.phase = .waiting channel → world.step libraries (.call place (.go now)) = some next →
        ∃ (there : Channel) (leader : Call), world.hosts.channels[channel]? = some there ∧
          world.calls[there.leader]? = some leader ∧ leader.host = call.host ∧
          ((∃ addresses, leader.phase.found = some addresses ∧
              next.calls[place]? = some ⟨call.host, .returned addresses⟩) ∨
            (leader.phase = .cancelled ∧ next.calls[place]? = some ⟨call.host, .checking⟩))) := by
  have single := single_after ran
  refine ⟨?_, ?_, ?_, ?_, ?_⟩
  · intro first second one other foundOne foundOther same looksOne looksOther
    obtain ⟨left, guardsOne⟩ := Phase.guards_of_looks looksOne
    obtain ⟨right, guardsOther⟩ := Phase.guards_of_looks looksOther
    exact single.entries.alone single.channels foundOne foundOther same guardsOne guardsOther
  · intro host entry there
    obtain ⟨place, call, found, name, guards⟩ := single.entries.entry host entry there
    exact ⟨call, List.mem_of_getElem? found, name, guards⟩
  · intro place channel call now found waiting
    exact single.waits now found waiting
  · intro event next host entry stepped there gone
    rcases step_calls stepped with ⟨same, -, -⟩ | ⟨_, same, -⟩ | ⟨index, choice, call, phase, rfl, found, -, moved⟩
    · exact absurd (same ▸ there) gone
    · exact absurd (same ▸ there) gone
    · obtain ⟨name, guards, none⟩ := single.entries.removed found moved there gone
      exact ⟨index, choice, call, rfl, found, name, guards, none⟩
  · intro place channel call now next found waiting stepped
    exact single.woken found waiting stepped

/-- No name is an address or can be asked for. -/
def emptyLibraries : LookupLibraries := ⟨fun _ => none, fun _ _ => none, fun _ => none⟩

/-- The leader is cancelled while another call for the name waits. -/
def leaderQuits : List Event :=
  [.call 0 (.go 9), .call 0 (.go 9), .call 0 .cancelled, .call 1 (.go 9), .call 1 (.go 9), .resolve "a.b.".toList,
    .call 0 (.go 9), .call 0 (.go 9), .resolve "a.b".toList]

theorem lookups_single_flight_sample :
    ∃ (world next : World) (call : Call), after emptyLibraries .default 1 leaderQuits = some world ∧
      world.calls[1]? = some call ∧ call.phase = .waiting 0 ∧
      world.step emptyLibraries (.call 1 (.go 9)) = some next ∧ ∃ (there : Channel) (leader : Call),
        world.hosts.channels[0]? = some there ∧ world.calls[there.leader]? = some leader ∧ leader.host = call.host ∧
          ((∃ addresses, leader.phase.found = some addresses ∧
              next.calls[1]? = some ⟨call.host, .returned addresses⟩) ∨
            (leader.phase = .cancelled ∧ next.calls[1]? = some ⟨call.host, .checking⟩)) := by
  obtain ⟨world, ran⟩ : ∃ world, after emptyLibraries .default 1 leaderQuits = some world := ⟨_, rfl⟩
  obtain ⟨call, found, waiting⟩ : ∃ call : Call, world.calls[1]? = some call ∧ call.phase = .waiting 0 := by
    obtain rfl := Option.some.inj ran
    exact ⟨_, rfl, rfl⟩
  obtain ⟨next, stepped⟩ : ∃ next, world.step emptyLibraries (.call 1 (.go 9)) = some next := by
    obtain rfl := Option.some.inj ran
    exact ⟨_, rfl⟩
  have woken := (lookups_single_flight emptyLibraries .default 1 leaderQuits world ran).2.2.2.2
  exact ⟨world, next, call, ran, found, waiting, stepped, woken 1 0 call 9 next found waiting stepped⟩

end Tollgate.Forwarding.World

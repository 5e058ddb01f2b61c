import Tollgate.Proofs.Policy.BookStep

/-! # Provenance behind the pin book

Two invariants tie the lists of fresh pins to the provenance of each pin. `Unlisted` needs no clock:
a pin that a client taught, or that was saved, is in neither list. `Tracked` assumes a clock that
does not go back: the lists hold exactly the fresh pins of their kind, with the time of each.
-/

namespace Tollgate

namespace Book

variable {book : Book} {entries : List LearnedAt} {host key : Text} {time now maxAge : ℕ}

theorem mem_fresh : (host, time) ∈ fresh entries now maxAge ↔ (host, time) ∈ entries ∧ within time now maxAge := by
  simp [fresh]

theorem mem_stale :
    (host, time) ∈ stale entries now maxAge ↔ (host, time) ∈ entries ∧ within time now maxAge = false := by
  simp [stale]

theorem mem_others : (host, time) ∈ others entries key ↔ (host, time) ∈ entries ∧ host ≠ key := by
  simp [others]

theorem lookup_expire :
    (book.expire now).pins.lookup host = (book.pins.lookup host).filter fun time => pinIsLive time now :=
  AList.lookup_retain ..

theorem lookup_takeBack (pins : HostMap ℕ) (learned : LearnedAt) (host : Text) :
    (Learning.takeBack pins learned).lookup host = (pins.lookup host).filter fun time => (host, time) ≠ learned := by
  obtain ⟨key, learnedAt⟩ := learned
  unfold Learning.takeBack
  rcases eq_or_ne host key with rfl | other
  · split
    · next same => simp [same, Option.filter]
    · next different =>
      cases stored : pins.lookup host with
      | none => rfl
      | some time =>
        have otherTime : time ≠ learnedAt := fun equal => different (equal ▸ stored)
        simp [otherTime, Option.filter]
  · have kept : (pins.lookup host).filter (fun time => (host, time) ≠ (key, learnedAt)) = pins.lookup host := by
      cases pins.lookup host <;> simp [other]
    rw [kept]
    split
    · exact AList.lookup_erase_ne other
    · rfl

/-- Taking entries back removes exactly the pins that are among them with their time. -/
theorem lookup_foldl_takeBack (pins : HostMap ℕ) (entries : List LearnedAt) (host : Text) :
    (entries.foldl Learning.takeBack pins).lookup host =
      (pins.lookup host).filter fun time => (host, time) ∉ entries := by
  induction entries generalizing pins with
  | nil => cases stored : pins.lookup host <;> simp [stored, Option.filter]
  | cons learned rest ih =>
    rw [List.foldl_cons, ih, lookup_takeBack]
    cases pins.lookup host with
    | none => rfl
    | some time => by_cases same : (host, time) = learned <;> simp [same, Option.filter]

theorem lookup_foldl_takeBack_eq_some {pins : HostMap ℕ} :
    (entries.foldl Learning.takeBack pins).lookup host = some time ↔
      pins.lookup host = some time ∧ (host, time) ∉ entries := by
  rw [lookup_foldl_takeBack, Option.filter_eq_some_iff, decide_eq_true_eq]

theorem lookup_foldl_takeBack_of_pinned {pins : HostMap ℕ} (pinned : pins.lookup host = some time)
    (entries : List LearnedAt) :
    (entries.foldl Learning.takeBack pins).lookup host = if (host, time) ∈ entries then none else some time := by
  rw [lookup_foldl_takeBack, pinned]
  split
  · next taken => simp [Option.filter, taken]
  · next kept => simp [Option.filter, kept]

theorem lookup_takeFresh_eq_some :
    (book.takeFresh now).pins.lookup host = some time ↔
      (book.pins.lookup host = some time ∧ (host, time) ∉ fresh book.upstream now upstreamRecentSecs) ∧
        (host, time) ∉ fresh book.silent now silentRecentSecs := by
  rw [takeFresh, lookup_foldl_takeBack_eq_some, lookup_foldl_takeBack_eq_some]

theorem foldl_forget (keys : List Text) (book : Book) :
    (∀ host, (keys.foldl forget book).pins.lookup host = if host ∈ keys then none else book.pins.lookup host) ∧
      (∀ host time, (host, time) ∈ (keys.foldl forget book).upstream ↔ (host, time) ∈ book.upstream ∧ host ∉ keys) ∧
      ∀ host time, (host, time) ∈ (keys.foldl forget book).silent ↔ (host, time) ∈ book.silent ∧ host ∉ keys := by
  induction keys generalizing book with
  | nil => simp
  | cons key rest ih =>
    obtain ⟨pins, upstream, silent⟩ := ih (book.forget key)
    refine ⟨fun host => ?_, fun host time => ?_, fun host time => ?_⟩
    · rw [List.foldl_cons, pins]
      rcases eq_or_ne host key with rfl | other
      · simp [forget]
      · simp [forget, other]
    · rw [List.foldl_cons, upstream, forget, mem_others, List.mem_cons, not_or, and_assoc]
    · rw [List.foldl_cons, silent, forget, mem_others, List.mem_cons, not_or, and_assoc]

/-- A call that takes nothing back keeps every live pin. -/
theorem lookup_live {action : Action} (enabled : action.Enabled book) (pinned : book.pins.lookup host = some time)
    (live : pinIsLive time now = true)
    (calm : action = .idle ∨ action = .expire now ∨ ∃ origin key, action = .learn origin key now) :
    (book.act action).pins.lookup host = some time := by
  have alive : (book.expire now).pins.lookup host = some time := by
    rw [lookup_expire]
    exact Option.filter_eq_some_iff.mpr ⟨pinned, live⟩
  rcases calm with rfl | rfl | ⟨origin, key, rfl⟩
  · exact pinned
  · exact alive
  · have other : host ≠ key := by
      rintro rfl
      exact enabled.1 (AList.lookup_isSome.mp (by rw [alive]; rfl))
    cases origin <;> exact (AList.lookup_insert_ne other).trans alive

/-- Where the entries of the upstream list come from. -/
theorem mem_upstream_act {action : Action} (member : (host, time) ∈ (book.act action).upstream) :
    ((host, time) ∈ book.upstream ∧ ∀ origin now, action = .learn origin host now → origin = .upstream) ∨
      action = .learn .upstream host time := by
  cases action with
  | idle => exact .inl ⟨member, nofun⟩
  | expire now => exact .inl ⟨member, nofun⟩
  | upstreamBurst now => exact .inl ⟨(mem_fresh.mp (mem_stale.mp member).1).1, nofun⟩
  | silentBurst now => exact .inl ⟨member, nofun⟩
  | networkChange now => contradiction
  | forget keys => exact .inl ⟨(((foldl_forget keys book).2.1 host time).mp member).1, nofun⟩
  | learn origin key now =>
    cases origin with
    | client =>
      obtain ⟨kept, other⟩ := mem_others.mp member
      exact .inl ⟨kept, fun _ _ same => absurd (Action.learn.inj same).2.1.symm other⟩
    | silent =>
      obtain ⟨kept, other⟩ := mem_others.mp member
      exact .inl ⟨kept, fun _ _ same => absurd (Action.learn.inj same).2.1.symm other⟩
    | upstream =>
      rcases List.mem_append.mp member with kept | new
      · exact .inl ⟨(mem_fresh.mp kept).1, fun _ _ same => (Action.learn.inj same).1.symm⟩
      · cases List.mem_singleton.mp new
        exact .inr rfl

/-- Where the entries of the silent list come from. -/
theorem mem_silent_act {action : Action} (member : (host, time) ∈ (book.act action).silent) :
    ((host, time) ∈ book.silent ∧ ∀ origin now, action = .learn origin host now → origin ≠ .client) ∨
      action = .learn .silent host time := by
  cases action with
  | idle => exact .inl ⟨member, nofun⟩
  | expire now => exact .inl ⟨member, nofun⟩
  | upstreamBurst now => exact .inl ⟨member, nofun⟩
  | silentBurst now => exact .inl ⟨(mem_stale.mp member).1, nofun⟩
  | networkChange now => contradiction
  | forget keys => exact .inl ⟨(((foldl_forget keys book).2.2 host time).mp member).1, nofun⟩
  | learn origin key now =>
    cases origin with
    | client =>
      obtain ⟨kept, other⟩ := mem_others.mp member
      exact .inl ⟨kept, fun _ _ same => absurd (Action.learn.inj same).2.1.symm other⟩
    | upstream => exact .inl ⟨member, fun _ _ same => by rw [← (Action.learn.inj same).1]; nofun⟩
    | silent =>
      rcases List.mem_append.mp member with kept | new
      · exact .inl ⟨(mem_fresh.mp kept).1, fun _ _ same => by rw [← (Action.learn.inj same).1]; nofun⟩
      · cases List.mem_singleton.mp new
        exact .inr rfl

end Book

/-- A pin that no list can take back: it was saved, or a client taught it. -/
def Kept (latest : Text → Option (Origin × ℕ)) (host : Text) : Prop :=
  ∀ origin time, latest host = some (origin, time) → origin = .client

/-- Hosts with such a pin have no entry in the lists. -/
def Unlisted (book : Book) (latest : Text → Option (Origin × ℕ)) : Prop :=
  ∀ host, Kept latest host → ∀ time, (host, time) ∉ book.upstream ∧ (host, time) ∉ book.silent

variable {book : Book} {latest : Text → Option (Origin × ℕ)} {action : Action} {host : Text} {time : ℕ}

theorem note_of_ne (other : ∀ origin now, action ≠ .learn origin host now) :
    action.note latest host = latest host := by
  cases action with
  | learn origin key now =>
    have different : host ≠ key := fun same => other origin now (same ▸ rfl)
    exact Function.update_of_ne different ..
  | _ => rfl

theorem note_learn (origin : Origin) (host : Text) (now : ℕ) :
    (Action.learn origin host now).note latest host = some (origin, now) := Function.update_self ..

/-- One action keeps the lists free of such hosts. -/
theorem Unlisted.act (unlisted : Unlisted book latest) (action : Action) :
    Unlisted (book.act action) (action.note latest) := by
  intro host kept time
  have before : ∀ origin now, action = .learn origin host now → origin = .client := by
    rintro origin now rfl
    exact kept origin now (note_learn origin host now)
  have earlier : (∀ origin now, action ≠ .learn origin host now) → Kept latest host := by
    intro other origin time found
    exact kept origin time ((note_of_ne other).trans found)
  constructor
  · intro member
    rcases Book.mem_upstream_act member with ⟨old, only⟩ | rfl
    · refine (unlisted host (earlier ?_) time).1 old
      intro origin now same
      exact absurd ((only origin now same).symm.trans (before origin now same)) nofun
    · exact absurd (before .upstream time rfl) nofun
  · intro member
    rcases Book.mem_silent_act member with ⟨old, only⟩ | rfl
    · exact (unlisted host (earlier fun origin now same => only origin now same (before origin now same)) time).2 old
    · exact absurd (before .silent time rfl) nofun

/-- A pin in neither list survives every action but a forgetting of its host, as long as it is live. -/
theorem Book.lookup_act_of_unlisted (pinned : book.pins.lookup host = some time)
    (upstream : (host, time) ∉ book.upstream) (silent : (host, time) ∉ book.silent)
    (enabled : action.Enabled book) :
    (book.act action).pins.lookup host = some time ∨ (∃ keys, action = .forget keys ∧ host ∈ keys) ∨
      ∃ now, action.now? = some now ∧ pinIsLive time now = false ∧ action ≠ .networkChange now := by
  have expired (now : ℕ) : (book.expire now).pins.lookup host = some time ∨ pinIsLive time now = false := by
    rw [lookup_expire, pinned]
    cases live : pinIsLive time now <;> simp [Option.filter, live]
  cases action with
  | idle => exact .inl pinned
  | expire now => exact (expired now).imp_right fun dead => .inr ⟨now, rfl, dead, nofun⟩
  | learn origin key now =>
    rcases expired now with alive | dead
    · have other : host ≠ key := by
        rintro rfl
        exact enabled.1 (AList.lookup_isSome.mp (by rw [alive]; rfl))
      refine .inl ?_
      cases origin <;> exact (AList.lookup_insert_ne other).trans alive
    · exact .inr (.inr ⟨now, rfl, dead, nofun⟩)
  | upstreamBurst now =>
    rcases expired now with alive | dead
    · have absent : (host, time) ∉ (book.expire now).window now :=
        fun member => upstream (mem_fresh.mp (mem_fresh.mp member).1).1
      exact .inl (lookup_foldl_takeBack_eq_some.mpr ⟨alive, absent⟩)
    · exact .inr (.inr ⟨now, rfl, dead, nofun⟩)
  | silentBurst now =>
    rcases expired now with alive | dead
    · exact .inl (lookup_foldl_takeBack_eq_some.mpr ⟨alive, fun member => silent (mem_fresh.mp member).1⟩)
    · exact .inr (.inr ⟨now, rfl, dead, nofun⟩)
  | networkChange now =>
    refine .inl (lookup_takeFresh_eq_some.mpr ⟨⟨pinned, ?_⟩, ?_⟩)
    · exact fun member => upstream (mem_fresh.mp member).1
    · exact fun member => silent (mem_fresh.mp member).1
  | forget keys =>
    by_cases named : host ∈ keys
    · exact .inr (.inl ⟨keys, rfl, named⟩)
    · exact .inl (((foldl_forget keys book).1 host).trans ((if_neg named).trans pinned))

end Tollgate

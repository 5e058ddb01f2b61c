import Tollgate.Proofs.Policy.PinBook

/-! # The lists of fresh pins under a clock that does not go back

`Tracked` says that the upstream list and the silent list hold the pins of their kind, each with the
time it was learned, for as long as the list can take them back. An entry may outlive its pin only
when the pin expired, which keeps a later pin of the same host from having its time. Expiry and
learning keep the relation; everything else only removes pins and entries.
-/

namespace Tollgate

variable {book : Book} {latest : Text → Option (Origin × ℕ)} {host key : Text} {time now last maxAge : ℕ}

/-- A recorded time that is not ahead of the clock is only tested for its age. -/
theorem within_of_le (past : time ≤ now) (fits : now < 2 ^ 64) : within time now maxAge = decide (now - time ≤ maxAge) := by
  have ahead : time ≤ saturatingAdd 64 now clockToleranceSecs := by
    unfold saturatingAdd
    omega
  rw [within, decide_eq_true ahead, Bool.true_and]

theorem add_pinLifetime_le (past : time ≤ now) (fits : now < 2 ^ 64) (dead : pinIsLive time now = false) :
    time + pinLifetimeSecs ≤ now := by
  rw [pinIsLive, within_of_le past fits, decide_eq_false_iff_not] at dead
  have positive : 0 < pinLifetimeSecs := by decide
  omega

namespace Book

variable {origin : Origin}

theorem learn_pins : (book.learn origin key now).pins = book.pins.insert key now := by cases origin <;> rfl

theorem mem_learn_upstream (other : host ≠ key) :
    (host, time) ∈ (book.learn origin key now).upstream ↔
      (host, time) ∈ book.upstream ∧ (origin = .upstream → within time now upstreamRecentSecs) := by
  cases origin <;> simp [learn, mem_others, mem_fresh, other]

theorem mem_learn_silent (other : host ≠ key) :
    (host, time) ∈ (book.learn origin key now).silent ↔
      (host, time) ∈ book.silent ∧ (origin = .silent → within time now silentRecentSecs) := by
  cases origin <;> simp [learn, mem_others, mem_fresh, other]

/-- Only the learning of a host itself can leave an entry of it in the upstream list. -/
theorem origin_of_mem_upstream (member : (key, time) ∈ (book.learn origin key now).upstream) : origin = .upstream := by
  cases origin with
  | upstream => rfl
  | _ => exact absurd rfl (mem_others.mp member).2

/-- An upstream failure leaves the silent list alone. -/
theorem origin_of_mem_silent (member : (key, time) ∈ (book.learn origin key now).silent) :
    origin = .silent ∨ (origin = .upstream ∧ (key, time) ∈ book.silent) := by
  cases origin with
  | silent => exact .inl rfl
  | upstream => exact .inr ⟨rfl, member⟩
  | client => exact absurd rfl (mem_others.mp member).2

end Book

/-- The lists hold the fresh pins of their kind. -/
structure Tracked (book : Book) (latest : Text → Option (Origin × ℕ)) (last : ℕ) : Prop where
  past : ∀ {host origin time}, latest host = some (origin, time) → time ≤ last
  agree : ∀ {host origin time learnedAt}, book.pins.lookup host = some learnedAt →
    latest host = some (origin, time) → time = learnedAt
  upstream : ∀ {host time}, (host, time) ∈ book.upstream → book.pins.lookup host = some time →
    latest host = some (.upstream, time)
  silent : ∀ {host time}, (host, time) ∈ book.silent → book.pins.lookup host = some time →
    latest host = some (.silent, time)
  upstream_mem : ∀ {host time}, book.pins.lookup host = some time → latest host = some (.upstream, time) →
    last - time ≤ upstreamRecentSecs → (host, time) ∈ book.upstream
  silent_mem : ∀ {host time}, book.pins.lookup host = some time → latest host = some (.silent, time) →
    last - time ≤ silentRecentSecs → (host, time) ∈ book.silent
  silent_gone : ∀ {host time}, (host, time) ∈ book.silent → book.pins.lookup host = some time ∨
    time + pinLifetimeSecs ≤ last

namespace Tracked

theorem start (saved : HostMap ℕ) (last : ℕ) : Tracked ⟨saved, [], []⟩ (fun _ => none) last := by
  constructor <;> simp

theorem mono (tracked : Tracked book latest last) (later : last ≤ now) : Tracked book latest now where
  past found := (tracked.past found).trans later
  agree := tracked.agree
  upstream := tracked.upstream
  silent := tracked.silent
  upstream_mem pinned found young := tracked.upstream_mem pinned found (by omega)
  silent_mem pinned found young := tracked.silent_mem pinned found (by omega)
  silent_gone member := (tracked.silent_gone member).imp_right (·.trans later)

/-- Removing pins and entries keeps the lists exact when no fresh entry of a pin that stays is
removed, and no pin of a silent entry that stays. -/
theorem shrink (tracked : Tracked book latest last) {smaller : Book}
    (pins : ∀ {host time}, smaller.pins.lookup host = some time → book.pins.lookup host = some time)
    (upstream_sub : ∀ {learned}, learned ∈ smaller.upstream → learned ∈ book.upstream)
    (silent_sub : ∀ {learned}, learned ∈ smaller.silent → learned ∈ book.silent)
    (upstream_stays : ∀ {host time}, smaller.pins.lookup host = some time → time ≤ last →
      last - time ≤ upstreamRecentSecs → (host, time) ∈ book.upstream → (host, time) ∈ smaller.upstream)
    (silent_stays : ∀ {host time}, smaller.pins.lookup host = some time → time ≤ last →
      last - time ≤ silentRecentSecs → (host, time) ∈ book.silent → (host, time) ∈ smaller.silent)
    (pin_stays : ∀ {host time}, (host, time) ∈ smaller.silent → book.pins.lookup host = some time →
      smaller.pins.lookup host = some time) : Tracked smaller latest last where
  past := tracked.past
  agree pinned := tracked.agree (pins pinned)
  upstream member pinned := tracked.upstream (upstream_sub member) (pins pinned)
  silent member pinned := tracked.silent (silent_sub member) (pins pinned)
  upstream_mem pinned found young :=
    upstream_stays pinned (tracked.past found) young (tracked.upstream_mem (pins pinned) found young)
  silent_mem pinned found young :=
    silent_stays pinned (tracked.past found) young (tracked.silent_mem (pins pinned) found young)
  silent_gone member := (tracked.silent_gone (silent_sub member)).imp_left (pin_stays member)

theorem expire (tracked : Tracked book latest last) (later : last ≤ now) (fits : now < 2 ^ 64) :
    Tracked (book.expire now) latest now := by
  have pins : ∀ {host time}, (book.expire now).pins.lookup host = some time → book.pins.lookup host = some time := by
    intro host time pinned
    rw [Book.lookup_expire] at pinned
    exact (Option.filter_eq_some_iff.mp pinned).1
  refine ⟨fun found => (tracked.past found).trans later, fun pinned => tracked.agree (pins pinned),
    fun member pinned => tracked.upstream member (pins pinned),
    fun member pinned => tracked.silent member (pins pinned),
    fun pinned found young => tracked.upstream_mem (pins pinned) found (by omega),
    fun pinned found young => tracked.silent_mem (pins pinned) found (by omega), ?_⟩
  intro host time member
  rcases tracked.silent_gone member with pinned | gone
  · cases live : pinIsLive time now with
    | true =>
      rw [Book.lookup_expire]
      exact .inl (Option.filter_eq_some_iff.mpr ⟨pinned, live⟩)
    | false =>
      have past := (tracked.past (tracked.silent member pinned)).trans later
      exact .inr (add_pinLifetime_le past fits live)
  · exact .inr (gone.trans later)

/-- An entry of one list never names the pin of an entry of the other. -/
theorem disjoint (tracked : Tracked book latest last) (silent : (host, time) ∈ book.silent)
    (pinned : book.pins.lookup host = some time) : (host, time) ∉ book.upstream := by
  intro member
  have both := (tracked.upstream member pinned).symm.trans (tracked.silent silent pinned)
  exact absurd (congrArg Prod.fst (Option.some.inj both)) nofun

/-- The entries a list would take back are the pins of its kind that are young enough. -/
theorem mem_fresh_upstream (tracked : Tracked book latest now) (fits : now < 2 ^ 64)
    (pinned : book.pins.lookup host = some time) (short : maxAge ≤ upstreamRecentSecs) :
    (host, time) ∈ Book.fresh book.upstream now maxAge ↔
      latest host = some (.upstream, time) ∧ now - time ≤ maxAge := by
  rw [Book.mem_fresh]
  constructor
  · rintro ⟨member, young⟩
    have found := tracked.upstream member pinned
    rw [within_of_le (tracked.past found) fits, decide_eq_true_eq] at young
    exact ⟨found, young⟩
  · rintro ⟨found, young⟩
    refine ⟨tracked.upstream_mem pinned found (young.trans short), ?_⟩
    exact (within_of_le (tracked.past found) fits).trans (decide_eq_true young)

theorem mem_fresh_silent (tracked : Tracked book latest now) (fits : now < 2 ^ 64)
    (pinned : book.pins.lookup host = some time) (short : maxAge ≤ silentRecentSecs) :
    (host, time) ∈ Book.fresh book.silent now maxAge ↔
      latest host = some (.silent, time) ∧ now - time ≤ maxAge := by
  rw [Book.mem_fresh]
  constructor
  · rintro ⟨member, young⟩
    have found := tracked.silent member pinned
    rw [within_of_le (tracked.past found) fits, decide_eq_true_eq] at young
    exact ⟨found, young⟩
  · rintro ⟨found, young⟩
    refine ⟨tracked.silent_mem pinned found (young.trans short), ?_⟩
    exact (within_of_le (tracked.past found) fits).trans (decide_eq_true young)

theorem mem_window (tracked : Tracked book latest now) (fits : now < 2 ^ 64)
    (pinned : book.pins.lookup host = some time) :
    (host, time) ∈ book.window now ↔ latest host = some (.upstream, time) ∧ now - time ≤ upstreamBurstSecs := by
  have short : upstreamBurstSecs ≤ upstreamRecentSecs := by decide
  rw [Book.window, Book.mem_fresh, tracked.mem_fresh_upstream fits pinned le_rfl]
  constructor
  · rintro ⟨⟨found, -⟩, young⟩
    rw [within_of_le (tracked.past found) fits, decide_eq_true_eq] at young
    exact ⟨found, young⟩
  · rintro ⟨found, young⟩
    refine ⟨⟨found, young.trans short⟩, ?_⟩
    exact (within_of_le (tracked.past found) fits).trans (decide_eq_true young)

/-- A network change takes back exactly the fresh pins of both kinds. -/
theorem lookup_takeFresh (tracked : Tracked book latest now) (fits : now < 2 ^ 64)
    (pinned : book.pins.lookup host = some time) :
    (book.takeFresh now).pins.lookup host =
      if (latest host = some (.upstream, time) ∧ now - time ≤ upstreamRecentSecs) ∨
        (latest host = some (.silent, time) ∧ now - time ≤ silentRecentSecs) then none else some time := by
  have upstream := tracked.mem_fresh_upstream fits pinned le_rfl
  have silent := tracked.mem_fresh_silent fits pinned le_rfl
  simp only [← upstream, ← silent]
  have first := Book.lookup_foldl_takeBack_of_pinned pinned (Book.fresh book.upstream now upstreamRecentSecs)
  unfold Book.takeFresh
  dsimp only
  split
  · next taken =>
    rw [Book.lookup_foldl_takeBack, first]
    rcases taken with inUpstream | inSilent
    · rw [if_pos inUpstream, Option.filter_none]
    · split
      · rfl
      · simp [Option.filter, inSilent]
  · next kept =>
    obtain ⟨outUpstream, outSilent⟩ := not_or.mp kept
    rw [if_neg outUpstream] at first
    rw [Book.lookup_foldl_takeBack_of_pinned first, if_neg outSilent]

/-- A burst of upstream failures takes back exactly the pins of its window. -/
theorem lookup_takeUpstream (tracked : Tracked book latest now) (fits : now < 2 ^ 64)
    (pinned : book.pins.lookup host = some time) :
    (book.takeUpstream now).pins.lookup host =
      if latest host = some (.upstream, time) ∧ now - time ≤ upstreamBurstSecs then none else some time := by
  have taken := Book.lookup_foldl_takeBack_of_pinned pinned (book.window now)
  simp only [tracked.mem_window fits pinned] at taken
  exact taken

/-- A burst of silent refusals takes back exactly the pins of its window. -/
theorem lookup_takeSilent (tracked : Tracked book latest now) (fits : now < 2 ^ 64)
    (pinned : book.pins.lookup host = some time) :
    (book.takeSilent now).pins.lookup host =
      if latest host = some (.silent, time) ∧ now - time ≤ silentBurstSecs then none else some time := by
  have short : silentBurstSecs ≤ silentRecentSecs := by decide
  have taken := Book.lookup_foldl_takeBack_of_pinned pinned (Book.fresh book.silent now silentBurstSecs)
  simp only [tracked.mem_fresh_silent fits pinned short] at taken
  exact taken

theorem takeUpstream (tracked : Tracked book latest now) (fits : now < 2 ^ 64) :
    Tracked (book.takeUpstream now) latest now := by
  apply tracked.shrink
  · intro host time pinned
    exact (Book.lookup_foldl_takeBack_eq_some.mp pinned).1
  · intro learned member
    exact (Book.mem_fresh.mp (Book.mem_stale.mp member).1).1
  · exact id
  · intro host time pinned past young member
    have recent := Book.mem_fresh.mpr ⟨member, (within_of_le past fits).trans (decide_eq_true young)⟩
    refine Book.mem_stale.mpr ⟨recent, Bool.eq_false_iff.mpr fun inWindow => ?_⟩
    exact (Book.lookup_foldl_takeBack_eq_some.mp pinned).2 (Book.mem_fresh.mpr ⟨recent, inWindow⟩)
  · exact fun _ _ _ member => member
  · intro host time member pinned
    refine Book.lookup_foldl_takeBack_eq_some.mpr ⟨pinned, fun taken => ?_⟩
    exact tracked.disjoint member pinned (Book.mem_fresh.mp (Book.mem_fresh.mp taken).1).1

theorem takeSilent (tracked : Tracked book latest now) : Tracked (book.takeSilent now) latest now := by
  apply tracked.shrink
  · intro host time pinned
    exact (Book.lookup_foldl_takeBack_eq_some.mp pinned).1
  · exact id
  · intro learned member
    exact (Book.mem_stale.mp member).1
  · exact fun _ _ _ member => member
  · intro host time pinned _ _ member
    refine Book.mem_stale.mpr ⟨member, Bool.eq_false_iff.mpr fun inWindow => ?_⟩
    exact (Book.lookup_foldl_takeBack_eq_some.mp pinned).2 (Book.mem_fresh.mpr ⟨member, inWindow⟩)
  · intro host time member pinned
    refine Book.lookup_foldl_takeBack_eq_some.mpr ⟨pinned, fun taken => ?_⟩
    exact absurd (Book.mem_fresh.mp taken).2 (by simp [(Book.mem_stale.mp member).2])

theorem takeFresh (tracked : Tracked book latest now) (fits : now < 2 ^ 64) :
    Tracked (book.takeFresh now) latest now := by
  apply tracked.shrink
  · exact fun pinned => (Book.lookup_takeFresh_eq_some.mp pinned).1.1
  · exact nofun
  · exact nofun
  · intro host time pinned past young member
    have recent := Book.mem_fresh.mpr ⟨member, (within_of_le past fits).trans (decide_eq_true young)⟩
    exact absurd recent (Book.lookup_takeFresh_eq_some.mp pinned).1.2
  · intro host time pinned past young member
    have recent := Book.mem_fresh.mpr ⟨member, (within_of_le past fits).trans (decide_eq_true young)⟩
    exact absurd recent (Book.lookup_takeFresh_eq_some.mp pinned).2
  · exact nofun

theorem forget (tracked : Tracked book latest last) (keys : List Text) :
    Tracked (keys.foldl Book.forget book) latest last := by
  obtain ⟨pins, upstream, silent⟩ := Book.foldl_forget keys book
  have kept {host : Text} {time : ℕ} (pinned : (keys.foldl Book.forget book).pins.lookup host = some time) :
      host ∉ keys ∧ book.pins.lookup host = some time := by
    rw [pins] at pinned
    split at pinned
    · contradiction
    · exact ⟨‹_›, pinned⟩
  apply tracked.shrink
  · exact fun pinned => (kept pinned).2
  · exact fun member => ((upstream _ _).mp member).1
  · exact fun member => ((silent _ _).mp member).1
  · exact fun pinned _ _ member => (upstream _ _).mpr ⟨member, (kept pinned).1⟩
  · exact fun pinned _ _ member => (silent _ _).mpr ⟨member, (kept pinned).1⟩
  · intro host time member pinned
    rw [pins, if_neg ((silent _ _).mp member).2, pinned]

theorem learn (tracked : Tracked book latest now) (fits : now < 2 ^ 64) (free : key ∉ book.pins)
    (origin : Origin) :
    Tracked (book.learn origin key now) (Function.update latest key (some (origin, now))) now := by
  have pinsSelf {learnedAt : ℕ} (pinned : (book.learn origin key now).pins.lookup key = some learnedAt) :
      now = learnedAt := by
    rw [Book.learn_pins, AList.lookup_insert] at pinned
    exact Option.some.inj pinned
  have pinsOther {host : Text} (other : host ≠ key) :
      (book.learn origin key now).pins.lookup host = book.pins.lookup host := by
    rw [Book.learn_pins, AList.lookup_insert_ne other]
  have latestSelf : Function.update latest key (some (origin, now)) key = some (origin, now) :=
    Function.update_self ..
  have latestOther {host : Text} (other : host ≠ key) :
      Function.update latest key (some (origin, now)) host = latest host := Function.update_of_ne other ..
  have gone {time : ℕ} (member : (key, time) ∈ book.silent) : time + pinLifetimeSecs ≤ now := by
    rcases tracked.silent_gone member with pinned | gone
    · exact absurd (AList.lookup_isSome.mp (by rw [pinned]; rfl)) free
    · exact gone
  have positive : 0 < pinLifetimeSecs := by decide
  constructor
  · intro host other time found
    rcases eq_or_ne host key with rfl | different
    · rw [latestSelf] at found
      cases found
      exact le_rfl
    · exact tracked.past ((latestOther different).symm.trans found)
  · intro host other time learnedAt pinned found
    rcases eq_or_ne host key with rfl | different
    · rw [latestSelf] at found
      cases found
      exact pinsSelf pinned
    · exact tracked.agree ((pinsOther different).symm.trans pinned) ((latestOther different).symm.trans found)
  · intro host time member pinned
    rcases eq_or_ne host key with rfl | different
    · obtain rfl := pinsSelf pinned
      rw [latestSelf, Book.origin_of_mem_upstream member]
    · rw [latestOther different]
      exact tracked.upstream ((Book.mem_learn_upstream different).mp member).1
        ((pinsOther different).symm.trans pinned)
  · intro host time member pinned
    rcases eq_or_ne host key with rfl | different
    · obtain rfl := pinsSelf pinned
      rcases Book.origin_of_mem_silent member with rfl | ⟨-, old⟩
      · exact latestSelf
      · have impossible := gone old
        omega
    · rw [latestOther different]
      exact tracked.silent ((Book.mem_learn_silent different).mp member).1 ((pinsOther different).symm.trans pinned)
  · intro host time pinned found young
    rcases eq_or_ne host key with rfl | different
    · rw [latestSelf] at found
      cases found
      exact List.mem_append_right _ (List.mem_singleton_self _)
    · rw [latestOther different] at found
      rw [pinsOther different] at pinned
      refine (Book.mem_learn_upstream different).mpr ⟨tracked.upstream_mem pinned found young, fun _ => ?_⟩
      exact (within_of_le (tracked.past found) fits).trans (decide_eq_true young)
  · intro host time pinned found young
    rcases eq_or_ne host key with rfl | different
    · rw [latestSelf] at found
      cases found
      exact List.mem_append_right _ (List.mem_singleton_self _)
    · rw [latestOther different] at found
      rw [pinsOther different] at pinned
      refine (Book.mem_learn_silent different).mpr ⟨tracked.silent_mem pinned found young, fun _ => ?_⟩
      exact (within_of_le (tracked.past found) fits).trans (decide_eq_true young)
  · intro host time member
    rcases eq_or_ne host key with rfl | different
    · rcases Book.origin_of_mem_silent member with rfl | ⟨-, old⟩
      · rcases List.mem_append.mp member with old | new
        · exact .inr (gone (Book.mem_fresh.mp old).1)
        · cases List.mem_singleton.mp new
          exact .inl (by rw [Book.learn_pins, AList.lookup_insert])
      · exact .inr (gone old)
    · rw [pinsOther different]
      exact tracked.silent_gone ((Book.mem_learn_silent different).mp member).1

/-- An enabled action at a time that is not earlier keeps the lists exact. -/
theorem act {action : Action} (tracked : Tracked book latest last) (enabled : action.Enabled book)
    (ordered : ∀ now, action.now? = some now → last ≤ now ∧ now < 2 ^ 64) :
    Tracked (book.act action) (action.note latest) (action.now?.getD last) := by
  cases action with
  | idle => exact tracked
  | forget keys => exact tracked.forget keys
  | expire now =>
    obtain ⟨later, fits⟩ := ordered now rfl
    exact tracked.expire later fits
  | learn origin key now =>
    obtain ⟨later, fits⟩ := ordered now rfl
    exact (tracked.expire later fits).learn fits enabled.1 origin
  | upstreamBurst now =>
    obtain ⟨later, fits⟩ := ordered now rfl
    exact (tracked.expire later fits).takeUpstream fits
  | silentBurst now =>
    obtain ⟨later, fits⟩ := ordered now rfl
    exact (tracked.expire later fits).takeSilent
  | networkChange now =>
    obtain ⟨later, fits⟩ := ordered now rfl
    exact (tracked.mono later).takeFresh fits

end Tracked

end Tollgate

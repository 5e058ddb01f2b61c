import Mathlib.Data.List.ModifyLast
import Tollgate.Model.Mitm.Send

/-! # Requests that are not sent twice

A turn of the retry loop hands the request to one connection. The first turn may get a pooled connection
and only then is there a second turn, which asks for a new one; `checkout` gives no pooled connection to a
request that asks for a new one. A second turn needs the message back or a copy, and there is a copy only of
a request that is safe to repeat.
-/

namespace Tollgate.Mitm

open List

/-- GET, HEAD or OPTIONS with an empty body. -/
def Request.Safe (request : Request Body) : Prop :=
  (request.method = .get ∨ request.method = .head ∨ request.method = .options) ∧
    (request.body.endStream = true ∨ request.body.exact = some 0)

theorem safe_of_replayable {request : Request Body} {copy : Request Unit} (found : replayable request = some copy) :
    request.Safe := by
  have empty : ∀ {body : Body}, ¬(!body.endStream && body.exact != some 0) = true →
      body.endStream = true ∨ body.exact = some 0 := by
    intro body
    cases body.endStream <;> simp
  unfold replayable at found
  cases method : request.method with
  | other name =>
    rw [method] at found
    cases found
  | get | head | options =>
    rw [method] at found
    dsimp only at found
    split at found
    · cases found
    · next full =>
      refine ⟨?_, empty full⟩
      rw [method]
      simp

namespace Send

variable {parse : Text → Option Uri} {options : PoolOptions} {target : Target} {request : Request Body}
  {send next : Send} {choice : Choice}

/-- What a phase of `checkout` was asked for. -/
def Phase.ask : Phase → Option Ask
  | looking ask | waiting ask | locking ask _ | relooking ask _ | choosing ask | exhausted ask => some ask
  | connecting | sending _ | done _ => none

/-- The request is not with a connection. -/
def Phase.Keeps : Phase → Prop
  | sending _ | done _ => False
  | _ => True

/-- What a step can do. -/
inductive Moved (parse : Text → Option Uri) (target : Target) (send : Send) : Choice → Send → Prop where
  /-- `checkout` goes on. -/
  | goes {choice : Choice} {phase : Phase} (keeps : send.phase.Keeps) (still : phase.Keeps)
      (same : ∀ later ∈ phase.ask, ∃ ask ∈ send.phase.ask, later.freshOnly = ask.freshOnly) :
      Moved parse target send choice (send.go phase)
  | reuses {choice : Choice} {ask : Ask} (asked : send.phase.ask = some ask) (pooled : ask.freshOnly = false)
      (protocol : Protocol) : Moved parse target send choice (send.hand parse target protocol .pooled)
  | connects {choice : Choice} (connecting : send.phase = .connecting) (protocol : Protocol) (certRejection : Bool) :
      Moved parse target send choice (send.hand parse target protocol (.new certRejection))
  | ends {choice : Choice} (result : Option (Except UpstreamError Unit)) :
      Moved parse target send choice (send.go (.done result))
  | refuses {checkout : Checkout} (sending : send.phase = .sending checkout) (error : Text)
      (message : Option (Request Body)) (wrote alert : Bool) :
      Moved parse target send (.refused error message wrote alert)
        ((send.record message wrote).refuse checkout error message alert)

/-- A pooled connection is found only by a request that does not ask for a new one. -/
theorem freshOnly_of_pooled {host next : Host} {freshOnly : Bool} {now idleSecs : ℕ} {view : View} {sender : Sender}
    (found : host.pooled freshOnly now idleSecs view = (some sender, next)) : freshOnly = false := by
  cases freshOnly with
  | false => rfl
  | true => cases found

theorem moved_look {ask : Ask} (looking : send.phase = .looking ask) (host : Host) (now : ℕ) (view : View) :
    Moved parse target send choice (send.look parse options target ask host now view) := by
  have asked : send.phase.ask = some ask := congrArg Phase.ask looking
  have keeps : send.phase.Keeps := looking ▸ trivial
  unfold look
  split
  next reused after found =>
  split
  · exact .reuses asked (freshOnly_of_pooled found) _
  · refine .goes keeps trivial ?_
    rintro later ⟨⟩
    exact ⟨ask, asked, rfl⟩
  · refine .goes keeps trivial ?_
    rintro later ⟨⟩
    exact ⟨ask, asked, rfl⟩

theorem moved_relook {ask : Ask} {protocol : Option Protocol} (relooking : send.phase = .relooking ask protocol)
    (host : Host) (now : ℕ) (view : View) :
    Moved parse target send choice (send.relook parse options target ask protocol host now view) := by
  have asked : send.phase.ask = some ask := congrArg Phase.ask relooking
  have keeps : send.phase.Keeps := relooking ▸ trivial
  unfold relook
  split
  next reused after found =>
  split
  · exact .reuses asked (freshOnly_of_pooled found) _
  · split
    · exact .ends _
    · split
      · refine .goes keeps trivial ?_
        rintro later ⟨⟩
        exact ⟨ask, asked, rfl⟩
      · refine .goes keeps trivial ?_
        rintro later ⟨⟩
        exact ⟨ask, asked, rfl⟩

theorem moved_of_step (stepped : send.step parse options target choice = some next) :
    Moved parse target send choice next := by
  unfold step at stepped
  split at stepped
  · next ask host now view looking =>
    obtain rfl := Option.some.inj stepped
    exact moved_look looking host now view
  · next ask waiting =>
    obtain rfl := Option.some.inj stepped
    exact .goes (waiting ▸ trivial) trivial nofun
  · next ask waiting =>
    split at stepped
    · cases stepped
    · obtain rfl := Option.some.inj stepped
      refine .goes (waiting ▸ trivial) trivial ?_
      rintro later ⟨⟩
      exact ⟨ask, congrArg Phase.ask waiting, rfl⟩
  · next ask protocol locking =>
    obtain rfl := Option.some.inj stepped
    refine .goes (locking ▸ trivial) trivial ?_
    rintro later ⟨⟩
    exact ⟨ask, congrArg Phase.ask locking, rfl⟩
  · next ask protocol host now view relooking =>
    obtain rfl := Option.some.inj stepped
    exact moved_relook relooking host now view
  · next ask free choosing =>
    obtain rfl := Option.some.inj stepped
    split
    · exact .goes (choosing ▸ trivial) trivial nofun
    · refine .goes (choosing ▸ trivial) trivial ?_
      rintro later ⟨⟩
      exact ⟨ask, congrArg Phase.ask choosing, rfl⟩
  · next ask exhausted =>
    obtain rfl := Option.some.inj stepped
    refine .goes (exhausted ▸ trivial) trivial ?_
    rintro later ⟨⟩
    exact ⟨ask, congrArg Phase.ask exhausted, rfl⟩
  · obtain rfl := Option.some.inj stepped
    exact .ends _
  · obtain rfl := Option.some.inj stepped
    exact .ends _
  · next protocol certRejection connecting =>
    split at stepped
    · obtain rfl := Option.some.inj stepped
      exact .connects connecting protocol certRejection
    · cases stepped
  · obtain rfl := Option.some.inj stepped
    exact .ends _
  · next checkout error message wrote alert sending =>
    obtain rfl := Option.some.inj stepped
    exact .refuses sending error message wrote alert
  · cases stepped
    exact .ends none
  · cases stepped
    exact .ends none
  · cases stepped
    exact .ends none
  · cases stepped
    exact .ends none
  · cases stepped
    exact .ends none
  · cases stepped

/-- Where the request was handed before the current turn and in it. -/
structure Turns (send : Send) (request : Request Body) (before : List HandOver) (current : Option HandOver) : Prop where
  handed : send.handed = before ++ current.toList
  first : send.freshOnly = false → send.turns = 1 ∧ before = []
  /-- The second turn follows a pooled connection that gave the request back or may be repeated. -/
  second : send.freshOnly = true → send.turns = 2 ∧
    (∃ hand : HandOver, before = [hand] ∧ hand.checkout = .pooled ∧ (request.Safe ∨ hand.gaveBack = true)) ∧
    ∀ hand ∈ current, hand.checkout ≠ .pooled
  keeps : send.phase.Keeps → current = none
  sending : ∀ checkout, send.phase = .sending checkout → ∃ hand ∈ current, hand.checkout = checkout

/-- What holds of a call of `send` at every moment. -/
structure Kept (request : Request Body) (send : Send) : Prop where
  asks : ∀ ask ∈ send.phase.ask, ask.freshOnly = send.freshOnly
  replay : ∀ copy ∈ send.replay, request.Safe
  turns : ∃ before current, send.Turns request before current

theorem kept_start (request : Request Body) : (start request).Kept request := by
  refine ⟨?_, fun copy found => safe_of_replayable found, [], none, rfl, fun _ => ⟨rfl, rfl⟩, nofun, fun _ => rfl, nofun⟩
  rintro ask ⟨⟩
  rfl

/-- A step that hands the request to nobody. -/
theorem Turns.go {before : List HandOver} {current : Option HandOver} (turns : send.Turns request before current)
    {phase : Phase} (still : phase.Keeps → current = none) (quiet : ∀ checkout, phase ≠ .sending checkout) :
    (send.go phase).Turns request before current :=
  ⟨turns.handed, turns.first, turns.second, still, fun checkout same => absurd same (quiet checkout)⟩

theorem Turns.hand {before : List HandOver} (turns : send.Turns request before none) (protocol : Protocol)
    {checkout : Checkout} (fresh : send.freshOnly = true → checkout ≠ .pooled) :
    (send.hand parse target protocol checkout).Turns request before
      (some ⟨protocol, checkout, rewrite parse target send.request protocol, false, true⟩) := by
  refine ⟨?_, turns.first, fun second => ?_, nofun, ?_⟩
  · have handed := turns.handed
    rw [Option.toList_none, append_nil] at handed
    exact congrArg (· ++ _) handed
  · obtain ⟨two, earlier, -⟩ := turns.second second
    refine ⟨two, earlier, ?_⟩
    rintro hand ⟨⟩
    exact fresh second
  · rintro other ⟨⟩
    exact ⟨_, rfl, rfl⟩

theorem Turns.record {before : List HandOver} {hand : HandOver} (turns : send.Turns request before (some hand))
    (message : Option (Request Body)) (wrote : Bool) :
    (send.record message wrote).Turns request before
      (some { hand with gaveBack := message.isSome, wrote := wrote }) := by
  refine ⟨?_, turns.first, fun second => ?_, fun keeps => ?_, fun checkout sending => ?_⟩
  · have handed := turns.handed
    change modifyLast _ send.handed = _
    rw [handed, Option.toList_some, modifyLast_concat, Option.toList_some]
  · obtain ⟨two, earlier, new⟩ := turns.second second
    refine ⟨two, earlier, ?_⟩
    rintro other ⟨⟩
    exact new hand rfl
  · exact absurd (turns.keeps keeps) nofun
  · obtain ⟨other, ⟨⟩, same⟩ := turns.sending checkout sending
    exact ⟨_, rfl, same⟩

/-- The body of the loop begins again only after a pooled connection. -/
theorem Turns.retry {before : List HandOver} {hand : HandOver} (turns : send.Turns request before (some hand))
    (pooled : hand.checkout = .pooled) (allowed : request.Safe ∨ hand.gaveBack = true) (again : Request Body)
    (replay : Option (Request Unit)) : (send.retry again replay).Turns request [hand] none := by
  have fresh : send.freshOnly = false := by
    by_contra second
    exact (turns.second (Bool.not_eq_false _ ▸ second)).2.2 hand rfl pooled
  obtain ⟨one, none⟩ := turns.first fresh
  refine ⟨?_, nofun, fun _ => ⟨?_, ⟨hand, rfl, pooled, allowed⟩, ?_⟩, fun _ => rfl, ?_⟩
  · have handed := turns.handed
    rw [none] at handed
    exact handed
  · exact congrArg (· + 1) one
  · rintro other ⟨⟩
  · rintro checkout ⟨⟩

theorem Kept.refuse (kept : send.Kept request) {checkout : Checkout} (sending : send.phase = .sending checkout)
    (error : Text) (message : Option (Request Body)) (wrote alert : Bool) :
    ((send.record message wrote).refuse checkout error message alert).Kept request := by
  obtain ⟨before, current, turns⟩ := kept.turns
  obtain ⟨hand, rfl, used⟩ := turns.sending checkout sending
  have recorded := turns.record message wrote
  have asks : ∀ {again replay}, ∀ ask ∈ ((send.record message wrote).retry again replay).phase.ask,
      ask.freshOnly = true := by
    rintro again replay ask ⟨⟩
    rfl
  unfold Send.refuse
  split
  · exact ⟨asks, kept.replay, _, _, recorded.retry used (.inr rfl) _ _⟩
  · next copy found =>
    exact ⟨asks, nofun, _, _, recorded.retry used (.inl (kept.replay copy found)) _ none⟩
  · exact ⟨nofun, kept.replay, _, _, recorded.go nofun nofun⟩

theorem Kept.step (kept : send.Kept request) (stepped : send.step parse options target choice = some next) :
    next.Kept request := by
  obtain ⟨before, current, turns⟩ := kept.turns
  cases moved_of_step stepped with
  | @goes _ phase keeps still same =>
    refine ⟨fun later found => ?_, kept.replay, before, current, turns.go (fun _ => turns.keeps keeps) ?_⟩
    · obtain ⟨ask, asked, equal⟩ := same later found
      exact equal.trans (kept.asks ask asked)
    · rintro checkout rfl
      exact still
  | @reuses _ ask asked pooled protocol =>
    have keeps : send.phase.Keeps := by
      cases phase : send.phase with
      | sending checkout | done result =>
        rw [phase] at asked
        cases asked
      | _ => trivial
    obtain rfl := turns.keeps keeps
    have fresh : send.freshOnly = false := (kept.asks ask asked).symm.trans pooled
    exact ⟨nofun, kept.replay, _, _, turns.hand protocol fun second => absurd (fresh.symm.trans second) nofun⟩
  | connects connecting protocol certRejection =>
    have keeps : send.phase.Keeps := connecting ▸ trivial
    obtain rfl := turns.keeps keeps
    exact ⟨nofun, kept.replay, _, _, turns.hand protocol nofun⟩
  | ends result => exact ⟨nofun, kept.replay, before, current, turns.go nofun nofun⟩
  | @refuses checkout sending error message wrote alert => exact kept.refuse sending error message wrote alert

theorem kept_after {history : List Choice} (ran : after parse options target request history = some send) :
    send.Kept request :=
  Machine.run_invariant (Kept request) (kept_start request) (fun _ _ _ kept _ stepped => kept.step stepped)
    (Machine.along_of_forall_mem fun _ _ _ => trivial) ran

theorem refuse_handed (send : Send) (checkout : Checkout) (error : Text) (message : Option (Request Body))
    (alert : Bool) : (send.refuse checkout error message alert).handed = send.handed := by
  unfold refuse
  split <;> rfl

/-- A message that was given back was not written. -/
def Unwritten (send : Send) : Prop := ∀ hand ∈ send.handed, hand.gaveBack = true → hand.wrote = false

theorem Unwritten.hand (unwritten : send.Unwritten) (protocol : Protocol) (checkout : Checkout) :
    (send.hand parse target protocol checkout).Unwritten := by
  intro hand member gave
  rcases mem_append.mp member with old | new
  · exact unwritten hand old gave
  · obtain rfl := mem_singleton.mp new
    cases gave

theorem Unwritten.step (unwritten : send.Unwritten) (kept : send.Kept request) (takes : send.TakesUnsent choice)
    (stepped : send.step parse options target choice = some next) : next.Unwritten := by
  cases moved_of_step stepped with
  | goes keeps still same | ends result => exact unwritten
  | reuses asked pooled protocol => exact unwritten.hand protocol _
  | connects connecting protocol certRejection => exact unwritten.hand protocol _
  | @refuses checkout sending error message wrote alert =>
    obtain ⟨before, current, turns⟩ := kept.turns
    obtain ⟨last, rfl, -⟩ := turns.sending checkout sending
    intro hand member gave
    rw [refuse_handed, (turns.record message wrote).handed] at member
    rcases mem_append.mp member with old | new
    · refine unwritten hand ?_ gave
      rw [turns.handed]
      exact mem_append_left _ old
    · obtain rfl := mem_singleton.mp new
      cases message with
      | none => cases gave
      | some unsent => exact takes.1

/-- What both kinds of steps keep, for runs in which the library keeps its word. -/
theorem unwritten_after {history : List Choice} (ran : after parse options target request history = some send)
    (along : Machine.Along (step parse options target) (start request) TakesUnsent history) : send.Unwritten := by
  have both : send.Kept request ∧ send.Unwritten := by
    have initial : (start request).Unwritten := fun hand member => absurd member not_mem_nil
    refine Machine.run_invariant (fun send => Kept request send ∧ Unwritten send) ⟨kept_start request, initial⟩ ?_ along
      ran
    rintro before choice after ⟨kept, unwritten⟩ takes stepped
    exact ⟨kept.step stepped, unwritten.step kept takes stepped⟩
  exact both.2

/-- At every moment of a call of `send`: the loop body began at most twice, and the request was handed to at
most two connections. A first connection that was opened for the request ends the loop. The second was opened
for the request, follows a pooled one, and for a request that is not safe to repeat follows one that gave the
request back. If messages are given back only unwritten, at most one connection has sent any of such a
request. -/
theorem send_repeats_safely (parse : Text → Option Uri) (options : PoolOptions) (target : Target)
    (request : Request Body) (history : List Choice) (send : Send)
    (ran : after parse options target request history = some send) :
    send.turns ≤ 2 ∧ send.handed.length ≤ 2 ∧
      (∀ first ∈ send.handed.head?, first.checkout ≠ .pooled → send.turns = 1) ∧
      (∀ first second rest, send.handed = first :: second :: rest →
        first.checkout = .pooled ∧ second.checkout ≠ .pooled ∧ (¬request.Safe → first.gaveBack = true)) ∧
      (Machine.Along (step parse options target) (start request) TakesUnsent history → ¬request.Safe →
        send.handed.countP HandOver.wrote ≤ 1) := by
  have kept := kept_after ran
  obtain ⟨before, current, turns⟩ := kept.turns
  have few : current.toList.length ≤ 1 := by cases current <;> simp
  cases fresh : send.freshOnly with
  | false =>
    obtain ⟨one, rfl⟩ := turns.first fresh
    have handed : send.handed = current.toList := turns.handed
    refine ⟨by omega, ?_, fun _ _ _ => one, fun first second rest two => ?_, fun _ _ => ?_⟩
    · rw [handed]
      omega
    · rw [← handed, two, length_cons, length_cons] at few
      omega
    · rw [← handed] at few
      exact countP_le_length.trans few
  | true =>
    obtain ⟨two, ⟨hand, rfl, pooled, allowed⟩, new⟩ := turns.second fresh
    have handed : send.handed = hand :: current.toList := turns.handed
    refine ⟨by omega, ?_, ?_, ?_, ?_⟩
    · rw [handed, length_cons]
      omega
    · intro first found opened
      rw [handed] at found
      obtain rfl := Option.some.inj found
      exact absurd pooled opened
    · intro first second rest both
      obtain ⟨rfl, later⟩ := List.cons.inj (both.symm.trans handed)
      have there : second ∈ current := by
        apply Option.mem_toList.mp
        rw [← later]
        exact mem_cons_self
      exact ⟨pooled, new second there, fun risky => allowed.resolve_left risky⟩
    · intro along risky
      have unwritten := unwritten_after ran along hand (by rw [handed]; exact mem_cons_self) (allowed.resolve_left risky)
      rw [handed, countP_cons_of_neg (by simp [unwritten])]
      exact countP_le_length.trans few

/-- A purchase. -/
def purchase : Request Body :=
  ⟨.other "POST".toList, ⟨none, none, some "/buy".toList⟩, .http11, ⟨[]⟩, ⟨false, some 3, [1, 2, 3]⟩⟩

def securely : Target := ⟨true, "a.example".toList, 443, "a.example".toList⟩

/-- An idle HTTP/1.1 connection is in the entry. -/
def idleHost : Host := ⟨0, some .http1, false, [(0, 5)], 1, none, 0, 5⟩

/-- The pooled connection gives the purchase back, and a new one answers it. -/
def secondTry : List Choice :=
  [.responded, .connected .http1 false, .granted, .look idleHost 7 ⟨false, 0, [0]⟩,
    .refused "closed".toList (some (forHttp1 (fun _ => none) purchase securely)) false false,
    .look idleHost 6 ⟨false, 0, [0]⟩]

theorem send_repeats_safely_sample :
    ∃ send, after (fun _ => none) ⟨6, 60⟩ securely purchase secondTry = some send ∧ send.handed.length = 2 ∧
      send.turns = 2 ∧ ¬purchase.Safe ∧ send.handed.countP HandOver.wrote ≤ 1 := by
  obtain ⟨send, ran, two, turns⟩ : ∃ send, after (fun _ => none) ⟨6, 60⟩ securely purchase secondTry = some send ∧
      send.handed.length = 2 ∧ send.turns = 2 := by
    refine ⟨(after (fun _ => none) ⟨6, 60⟩ securely purchase secondTry).getD (start purchase), ?_⟩
    decide
  have risky : ¬purchase.Safe := by
    rintro ⟨method | method | method, -⟩ <;> cases method
  exact ⟨send, ran, two, turns, risky,
    (send_repeats_safely (fun _ => none) ⟨6, 60⟩ securely purchase secondTry send ran).2.2.2.2 (by decide) risky⟩

end Send

end Tollgate.Mitm

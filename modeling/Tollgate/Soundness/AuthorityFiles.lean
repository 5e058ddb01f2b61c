import Tollgate.Model.Engine.Authority
import Tollgate.Soundness.WholeFiles

/-! # The stored certificate has its key

Whatever fails, whoever is killed and whenever the power is lost, a certificate in the data directory has the
key of its pair next to it. So a load sees no certificate or a pair that was generated, and a pair that a call
returned stays in place: every later call returns the same one, until a power loss.
-/

namespace Tollgate.Authority

open List
open Files (Writer)

/-- A certificate is there only with the key of its pair. -/
def Matches (made : Pair → Prop) (contents : Files.Contents) : Prop :=
  ∀ cert, contents .caCert = some cert → ∃ pair, made pair ∧ pair.cert = cert ∧ contents .caKey = some pair.key

theorem Matches.of_same {made : Pair → Prop} {before after : Files.Contents} (matched : Matches made before)
    (certs : after .caCert = before .caCert) (keys : after .caKey = before .caKey) : Matches made after := by
  intro cert here
  rw [certs] at here
  rw [keys]
  exact matched cert here

theorem Matches.of_none {made : Pair → Prop} {contents : Files.Contents} (absent : contents .caCert = none) :
    Matches made contents := by
  intro cert here
  cases absent.symm.trans here

namespace World

variable {valid : Bytes → Bytes → Bool} {made : Pair → Prop} {world next : World} {index : ℕ} {call : Call}
  {phase : Phase} {event : Event} {files : Files.World}

/-- A writer of one of the files, for the process. -/
structure Writes (pid : ℕ) (file : Files.FileName) (bytes : Bytes) (writer : Writer) : Prop where
  file : writer.file = file
  bytes : writer.bytes = bytes
  pid : writer.pid = pid

/-- What a call knows of the files. -/
def Knows (made : Pair → Prop) (pid : ℕ) (files : Files.World) (generates : Bool) : Phase → Prop
  | .loadingKey none => generates → files.read .caCert = none
  | .loadingKey (some cert) => files.read .caCert = some cert
  | .generating => generates ∧ files.read .caCert = none
  | .writingKey pair number => generates ∧ made pair ∧ files.read .caCert = none ∧
      ∃ writer : Writer, files.writers[number]? = some writer ∧ Writes pid .caKey pair.key writer ∧
        (writer.phase = .returned true → files.read .caKey = some pair.key)
  | .writingCert pair number => generates ∧ made pair ∧ files.read .caKey = some pair.key ∧
      ∃ writer : Writer, files.writers[number]? = some writer ∧ Writes pid .caCert pair.cert writer ∧
        files.read .caCert = if writer.phase = .returned true then some pair.cert else none
  | .returned pair _ => made pair ∧ files.read .caCert = some pair.cert ∧
      files.read .caKey = some pair.key
  | .invalid => False
  | .locking | .loadingCert | .missing | .failed | .killed => True

/-- Certificates have their keys, one call at a time has the lock, and each call is right about the files. -/
structure Sound (made : Pair → Prop) (world : World) : Prop where
  files : world.files.Sound
  matched : ∀ contents ∈ world.files.store.possible, Matches made contents
  held : ∀ index : ℕ, ∀ call : Call, world.calls[index]? = some call → call.generates → call.phase.locked →
    world.holder = some index
  known : ∀ index : ℕ, ∀ call : Call, world.calls[index]? = some call → Knows made world.pid world.files call.generates call.phase

/-- What a call knows stays while the files and its writer do. -/
theorem Knows.of_same {generates : Bool} {pid : ℕ} {before after : Files.World} (knows : Knows made pid before generates phase)
    (certs : after.read .caCert = before.read .caCert) (keys : after.read .caKey = before.read .caKey)
    (writers : ∀ number : ℕ, ∀ writer : Writer, before.writers[number]? = some writer → writer.pid = pid →
      writer.file = .caCert ∨ writer.file = .caKey → after.writers[number]? = some writer) :
    Knows made pid after generates phase := by
  cases phase with
  | loadingKey cert =>
    cases cert with
    | none => exact fun locked => certs.trans (knows locked)
    | some cert => exact certs.trans knows
  | generating => exact ⟨knows.1, certs.trans knows.2⟩
  | writingKey pair number =>
    obtain ⟨locked, known, absent, writer, there, written, put⟩ := knows
    exact ⟨locked, known, certs.trans absent, writer, writers number writer there written.pid (.inr written.file),
      written, fun ended => keys.trans (put ended)⟩
  | writingCert pair number =>
    obtain ⟨locked, known, stored, writer, there, written, put⟩ := knows
    exact ⟨locked, known, keys.trans stored, writer, writers number writer there written.pid (.inl written.file),
      written, certs.trans put⟩
  | returned pair created => exact ⟨knows.1, certs.trans knows.2.1, keys.trans knows.2.2⟩
  | invalid => exact knows
  | locking | loadingCert | missing | failed | killed => trivial

/-- The call that has the lock is the only one that writes, so while there is no certificate the other calls know
nothing. -/
theorem Sound.idle (sound : world.Sound made) (found : world.calls[index]? = some call)
    (generates : call.generates) (locked : call.phase.locked) (absent : world.files.read .caCert = none) {other : ℕ}
    {second : Call} (different : other ≠ index) (also : world.calls[other]? = some second) (pid : ℕ)
    (files : Files.World) : Knows made pid files second.generates second.phase := by
  have free : second.generates → ¬second.phase.locked := fun generates' locked' =>
    different (Option.some.inj ((sound.held other second also generates' locked').symm.trans
      (sound.held index call found generates locked)))
  have knows := sound.known other second also
  cases second with
  | mk generates' phase =>
    cases phase with
    | loadingKey cert =>
      cases cert with
      | none => exact fun locks => (free locks rfl).elim
      | some cert => cases absent.symm.trans knows
    | generating => exact (free knows.1 rfl).elim
    | writingKey pair number => exact (free knows.1 rfl).elim
    | writingCert pair number => exact (free knows.1 rfl).elim
    | returned pair created => cases absent.symm.trans knows.2.1
    | invalid => exact knows
    | locking | loadingCert | missing | failed | killed => trivial

/-- The files hold what is possible. -/
theorem Sound.matched_now (sound : world.Sound made) : Matches made world.files.read :=
  sound.matched _ world.files.read_mem_possible

/-- A call goes on to a phase whose knowledge it has, and takes the lock at most for itself. -/
theorem Sound.goes (sound : world.Sound made) (found : world.calls[index]? = some call)
    (knows : Knows made world.pid world.files call.generates phase) (locks : call.generates → phase.locked → call.phase.locked) :
    (world.setPhase index call phase).Sound made where
  files := sound.files
  matched := sound.matched
  held other second also generates locked := by
    rcases getElem?_set_cases also with ⟨rfl, rfl⟩ | ⟨-, also⟩
    · exact sound.held other call found generates (locks generates locked)
    · exact sound.held other second also generates locked
  known other second also := by
    rcases getElem?_set_cases also with ⟨-, rfl⟩ | ⟨-, also⟩
    · exact knows
    · exact sound.known other second also

/-- A call ends. -/
theorem Sound.leaves (sound : world.Sound made) (found : world.calls[index]? = some call)
    (knows : Knows made world.pid world.files call.generates phase) (locked : call.phase.locked) (ends : phase.locked = false) :
    (world.leave index call phase).Sound made := by
  have went := sound.goes found knows fun _ locks => by cases ends.symm.trans locks
  refine ⟨went.files, went.matched, fun other second also generates locks => ?_, went.known⟩
  rcases getElem?_set_cases also with ⟨rfl, rfl⟩ | ⟨different, old⟩
  · cases ends.symm.trans locks
  · have here := sound.held other second old generates locks
    simp only [leave]
    split
    · next own =>
      exact (different (Option.some.inj (here.symm.trans (sound.held index call found own locked)))).elim
    · exact here

theorem Sound.matched_step (sound : world.Sound made) {event : Files.Event}
    (stepped : world.files.step event = some files) (powered : event.keepsPower) (now : Matches made files.read) :
    ∀ contents ∈ files.store.possible, Matches made contents := by
  intro contents possible
  rcases sound.files.possible_step stepped powered possible with rfl | old
  · exact now
  · exact sound.matched contents old

/-- A call starts to write a file. -/
theorem Sound.creates (sound : world.Sound made) (found : world.calls[index]? = some call) {phase : ℕ → Phase}
    {file : Files.FileName} {bytes : Bytes} (locked : call.phase.locked)
    (knows : ∀ files : Files.World, files.read = world.files.read →
      files.writers[world.files.writers.length]? = some ⟨world.pid, file, bytes, .naming⟩ →
        Knows made world.pid files call.generates (phase world.files.writers.length))
    (stepped : world.create index call phase file bytes = some next) : next.Sound made := by
  obtain ⟨files, begun, rfl⟩ := Option.map_eq_some_iff.mp stepped
  obtain rfl := Option.some.inj begun
  refine ⟨Files.World.sound_write sound.files _ _ _, sound.matched, fun other second also generates locks => ?_,
    fun other second also => ?_⟩
  · rcases getElem?_set_cases also with ⟨rfl, rfl⟩ | ⟨-, also⟩
    · exact sound.held other call found generates locked
    · exact sound.held other second also generates locks
  · rcases getElem?_set_cases also with ⟨-, rfl⟩ | ⟨-, also⟩
    · exact knows _ rfl getElem?_concat_length
    · exact (sound.known other second also).of_same rfl rfl fun _ _ there _ _ => getElem?_concat_of_some there _

/-- A call that has the lock writes while there is no certificate. -/
theorem Sound.writes (sound : world.Sound made) (found : world.calls[index]? = some call)
    (generates : call.generates) (locked : call.phase.locked) (absent : world.files.read .caCert = none)
    {event : Files.Event} (stepped : world.files.step event = some files) (powered : event.keepsPower)
    (now : Matches made files.read) (knows : Knows made world.pid files call.generates call.phase) :
    Sound made { world with files := files } := by
  refine ⟨Files.World.sound_step sound.files stepped, sound.matched_step stepped powered now, sound.held,
    fun other second also => ?_⟩
  by_cases same : other = index
  · subst same
    obtain rfl := Option.some.inj (found.symm.trans also)
    exact knows
  · exact sound.idle found generates locked absent same also _ _

theorem Sound.writes_key (sound : world.Sound made) (found : world.calls[index]? = some call) {pair : Pair}
    {number : ℕ} (before : call.phase = .writingKey pair number) {choice : Files.Choice}
    (stepped : world.files.step (.step number choice) = some files) : Sound made { world with files := files } := by
  have knows := sound.known index call found
  rw [before] at knows
  obtain ⟨generates, known, absent, writer, there, written, -⟩ := knows
  have locked : call.phase.locked := by
    rw [before]
    rfl
  obtain ⟨phase, after, ⟨undone, reads⟩ | ⟨rfl, reads⟩⟩ := sound.files.written_step there stepped
  · refine sound.writes found generates locked absent stepped trivial ?_ ?_
    · rw [reads]
      exact sound.matched_now
    · rw [before]
      exact ⟨generates, known, reads ▸ absent, _, after, ⟨written.file, written.bytes, written.pid⟩,
        fun ended => (undone ended).elim⟩
  · rw [written.file, written.bytes] at reads
    have certs : files.read .caCert = none := by
      rw [reads, Function.update_of_ne (by decide)]
      exact absent
    refine sound.writes found generates locked absent stepped trivial (.of_none certs) ?_
    rw [before]
    refine ⟨generates, known, certs, _, after, ⟨written.file, written.bytes, written.pid⟩, fun _ => ?_⟩
    rw [reads, Function.update_self]

theorem Sound.writes_cert (sound : world.Sound made) (found : world.calls[index]? = some call) {pair : Pair}
    {number : ℕ} (before : call.phase = .writingCert pair number) {choice : Files.Choice}
    (stepped : world.files.step (.step number choice) = some files) : Sound made { world with files := files } := by
  have knows := sound.known index call found
  rw [before] at knows
  obtain ⟨generates, known, stored, writer, there, written, put⟩ := knows
  have locked : call.phase.locked := by
    rw [before]
    rfl
  have absent : world.files.read .caCert = none := by
    rw [put, if_neg (Files.World.not_returned_of_step there stepped true)]
  obtain ⟨phase, after, ⟨undone, reads⟩ | ⟨rfl, reads⟩⟩ := sound.files.written_step there stepped
  · refine sound.writes found generates locked absent stepped trivial ?_ ?_
    · rw [reads]
      exact sound.matched_now
    · rw [before]
      refine ⟨generates, known, reads ▸ stored, _, after, ⟨written.file, written.bytes, written.pid⟩, ?_⟩
      rw [reads, if_neg undone]
      exact absent
  · rw [written.file, written.bytes] at reads
    have certs : files.read .caCert = some pair.cert := by rw [reads, Function.update_self]
    have keys : files.read .caKey = some pair.key := by
      rw [reads, Function.update_of_ne (by decide)]
      exact stored
    refine sound.writes found generates locked absent stepped trivial (fun cert here => ?_) ?_
    · exact ⟨pair, known, Option.some.inj (certs.symm.trans here), keys⟩
    · rw [before]
      refine ⟨generates, known, keys, _, after, ⟨written.file, written.bytes, written.pid⟩, ?_⟩
      rw [if_pos rfl]
      exact certs

/-- Both files were read: the pair in place is one that was generated, or there is no certificate. -/
theorem Sound.settles (sound : world.Sound made) (trusted : ∀ pair, made pair → valid pair.cert pair.key)
    (found : world.calls[index]? = some call) {cert : Option Bytes} (before : call.phase = .loadingKey cert) :
    (world.settle valid index call cert (world.files.read .caKey)).Sound made := by
  have knows := sound.known index call found
  have locked : call.phase.locked := by
    rw [before]
    rfl
  rw [before] at knows
  cases cert with
  | none =>
    simp only [settle]
    split
    · next generates => exact sound.goes found ⟨generates, knows generates⟩ fun _ _ => locked
    · exact sound.leaves found trivial locked rfl
  | some cert =>
    obtain ⟨pair, known, rfl, stored⟩ := sound.matched_now cert knows
    rw [stored]
    simp only [settle, trusted pair known, if_true]
    exact sound.leaves found ⟨known, knows, stored⟩ locked rfl

/-- `write_private` of a call has returned. -/
theorem Sound.finishes (sound : world.Sound made) (found : world.calls[index]? = some call)
    (locked : call.phase.locked) {number : ℕ} {writer : Writer} {go : Option World}
    (there : world.files.writers[number]? = some writer)
    (goes : writer.phase = .returned true → go = some next → next.Sound made)
    (stepped : world.written index call number go = some next) : next.Sound made := by
  unfold written at stepped
  rw [there, Option.map_some] at stepped
  split at stepped
  · next ended => exact goes (Option.some.inj ended) stepped
  · obtain rfl := Option.some.inj stepped
    exact sound.leaves found trivial locked rfl
  · cases stepped

theorem Sound.finishes_key (sound : world.Sound made) (found : world.calls[index]? = some call) {pair : Pair}
    {number : ℕ} (before : call.phase = .writingKey pair number)
    (stepped : world.written index call number
      (world.create index call (.writingCert pair) .caCert pair.cert) = some next) : next.Sound made := by
  have knows := sound.known index call found
  have locked : call.phase.locked := by
    rw [before]
    rfl
  rw [before] at knows
  obtain ⟨generates, known, absent, writer, there, written, put⟩ := knows
  refine sound.finishes found locked there (fun ended created => ?_) stepped
  refine sound.creates found locked (fun files reads new => ?_) created
  refine ⟨generates, known, reads ▸ put ended, _, new, ⟨rfl, rfl, rfl⟩, ?_⟩
  rw [reads, absent]
  rfl

theorem Sound.finishes_cert (sound : world.Sound made) (found : world.calls[index]? = some call) {pair : Pair}
    {number : ℕ} (before : call.phase = .writingCert pair number)
    (stepped : world.written index call number (some (world.leave index call (.returned pair true))) = some next) :
    next.Sound made := by
  have knows := sound.known index call found
  have locked : call.phase.locked := by
    rw [before]
    rfl
  rw [before] at knows
  obtain ⟨generates, known, stored, writer, there, written, put⟩ := knows
  refine sound.finishes found locked there (fun ended left => ?_) stepped
  obtain rfl := Option.some.inj left
  rw [if_pos ended] at put
  exact sound.leaves found ⟨known, put, stored⟩ locked rfl

theorem Sound.locks (sound : world.Sound made) (found : world.calls[index]? = some call)
    (free : world.holder = none) :
    Sound made { world.setPhase index call .loadingCert with holder := some index } := by
  refine ⟨sound.files, sound.matched, fun other second also generates locked => ?_, fun other second also => ?_⟩
  · rcases getElem?_set_cases also with ⟨rfl, -⟩ | ⟨-, also⟩
    · rfl
    · cases free.symm.trans (sound.held other second also generates locked)
  · rcases getElem?_set_cases also with ⟨-, rfl⟩ | ⟨-, also⟩
    · trivial
    · exact sound.known other second also

theorem Sound.advance (sound : world.Sound made) (trusted : ∀ pair, made pair → valid pair.cert pair.key)
    (generated : ∀ pair ∈ event.pair?, made pair) (found : world.calls[index]? = some call)
    (stepped : world.advance valid index call call.phase event = some next) : next.Sound made := by
  generalize before : call.phase = phase at stepped
  have knows := sound.known index call found
  rw [before] at knows
  cases phase with
  | locking =>
    cases event with
    | lock =>
      obtain ⟨free, stepped⟩ := Option.ite_none_right_eq_some.mp stepped
      obtain rfl := Option.some.inj stepped
      exact sound.locks found free
    | _ => cases stepped
  | loadingCert =>
    cases event with
    | readCert other ok =>
      obtain rfl := Option.some.inj stepped
      have locked : call.phase.locked := by
        rw [before]
        rfl
      split
      · refine sound.goes found ?_ fun _ _ => locked
        cases here : world.files.read .caCert with
        | none => exact fun _ => here
        | some cert => exact here
      · exact sound.leaves found trivial locked rfl
    | _ => cases stepped
  | loadingKey cert =>
    cases event with
    | readKey other ok =>
      obtain rfl := Option.some.inj stepped
      split
      · exact sound.settles trusted found before
      · exact sound.leaves found trivial (by rw [before]; rfl) rfl
    | _ => cases stepped
  | generating =>
    cases event with
    | generate other pair =>
      have locked : call.phase.locked := by
        rw [before]
        rfl
      cases pair with
      | none =>
        obtain rfl := Option.some.inj stepped
        exact sound.leaves found trivial locked rfl
      | some pair =>
        refine sound.creates found locked (fun files reads new => ?_) stepped
        refine ⟨knows.1, generated pair rfl, reads ▸ knows.2, _, new, ⟨rfl, rfl, rfl⟩, fun ended => ?_⟩
        cases ended
    | _ => cases stepped
  | writingKey pair number =>
    cases event with
    | write other choice =>
      obtain ⟨files, advanced, rfl⟩ := Option.map_eq_some_iff.mp stepped
      exact sound.writes_key found before advanced
    | finish => exact sound.finishes_key found before stepped
    | _ => cases stepped
  | writingCert pair number =>
    cases event with
    | write other choice =>
      obtain ⟨files, advanced, rfl⟩ := Option.map_eq_some_iff.mp stepped
      exact sound.writes_cert found before advanced
    | finish => exact sound.finishes_cert found before stepped
    | _ => cases stepped
  | returned | missing | invalid | failed | killed => cases event <;> cases stepped

theorem Sound.calls (sound : world.Sound made) (generates : Bool) :
    Sound made { world with
      calls := world.calls ++ [⟨generates, if generates then .locking else .loadingCert⟩] } := by
  refine ⟨sound.files, sound.matched, fun other second also generates' locked => ?_, fun other second also => ?_⟩
  · rcases getElem?_concat_cases also with ⟨-, rfl⟩ | also
    · obtain rfl : generates = true := generates'
      cases locked
    · exact sound.held other second also generates' locked
  · rcases getElem?_concat_cases also with ⟨-, rfl⟩ | also
    · cases generates <;> trivial
    · exact sound.known other second also

theorem kill_locked (phase : Phase) : phase.kill.locked = false := by
  cases phase <;> rfl

/-- What ended calls know stays, and calls without the lock live in other processes. -/
theorem Knows.kill {pid other : ℕ} {before after : Files.World}
    (knows : Knows made pid before call.generates call.phase) (reads : after.read = before.read) :
    Knows made other after call.kill.generates call.kill.phase := by
  obtain ⟨generates, phase⟩ := call
  have certs : after.read .caCert = before.read .caCert := by rw [reads]
  have keys : after.read .caKey = before.read .caKey := by rw [reads]
  cases generates with
  | true =>
    cases phase with
    | returned pair created => exact ⟨knows.1, certs.trans knows.2.1, keys.trans knows.2.2⟩
    | invalid => exact knows
    | locking | loadingCert | loadingKey | generating | writingKey | writingCert | missing | failed | killed => trivial
  | false =>
    cases phase with
    | loadingKey cert =>
      cases cert with
      | none => exact fun locks => by cases locks
      | some cert => exact certs.trans knows
    | generating => cases knows.1
    | writingKey => cases knows.1
    | writingCert => cases knows.1
    | returned pair created => exact ⟨knows.1, certs.trans knows.2.1, keys.trans knows.2.2⟩
    | invalid => exact knows
    | locking | loadingCert | missing | failed | killed => trivial

theorem Sound.kill (sound : world.Sound made) (pid : ℕ) (stepped : world.files.step (.kill world.pid) = some files) :
    Sound made ⟨pid, files, none, world.calls.map Call.kill⟩ := by
  have reads : files.read = world.files.read := by
    obtain rfl := Option.some.inj stepped
    rfl
  refine ⟨Files.World.sound_step sound.files stepped, sound.matched_step stepped trivial ?_,
    fun other second also generates locked => ?_, fun other second also => ?_⟩
  · rw [reads]
    exact sound.matched_now
  · rw [getElem?_map] at also
    obtain ⟨before, -, rfl⟩ := Option.map_eq_some_iff.mp also
    obtain ⟨generates', phase⟩ := before
    cases generates' with
    | true => cases (kill_locked phase).symm.trans locked
    | false => cases generates
  · rw [getElem?_map] at also
    obtain ⟨before, there, rfl⟩ := Option.map_eq_some_iff.mp also
    exact (sound.known other before there).kill reads

/-- After a power loss the files are as they were at some moment. -/
theorem Sound.lose (sound : world.Sound made) (pid : ℕ) {back : ℕ} {contents : ℕ → Bytes}
    (stepped : world.files.step (.lose back contents) = some files) : Sound made ⟨pid, files, none, []⟩ := by
  refine ⟨Files.World.sound_step sound.files stepped, fun held possible => ?_, fun other second also => ?_,
    fun other second also => ?_⟩
  · have moves := sound.files.moves stepped
    simp only [Files.World.label] at moves
    generalize files.store = store at moves possible
    cases moves with
    | lose earlier before =>
      obtain rfl := Set.mem_singleton_iff.mp possible
      exact sound.matched _ before
  · simp at also
  · simp at also

theorem Sound.others (sound : world.Sound made) {event : Files.Event} (foreign : world.Foreign event)
    (stepped : world.files.step event = some files) : Sound made { world with files := files } := by
  have powered : event.keepsPower := by
    cases event with
    | lose => exact foreign
    | write | step | kill => trivial
  have certs : files.read .caCert = world.files.read .caCert :=
    sound.files.read_of_other stepped powered fun index choice equal writer there => by
      subst equal
      exact (foreign writer there).1
  have keys : files.read .caKey = world.files.read .caKey :=
    sound.files.read_of_other stepped powered fun index choice equal writer there => by
      subst equal
      exact (foreign writer there).2
  refine ⟨Files.World.sound_step sound.files stepped,
    sound.matched_step stepped powered (sound.matched_now.of_same certs keys), sound.held, fun other second also => ?_⟩
  refine (sound.known other second also).of_same certs keys fun number writer there pid file => ?_
  refine Files.World.writer_of_other stepped powered there ?_ ?_
  · rintro choice rfl
    obtain ⟨noCert, noKey⟩ := foreign writer there
    exact file.elim noCert noKey
  · rintro killed rfl
    exact fun same => foreign (same.symm.trans pid)

theorem Sound.step (sound : world.Sound made) (trusted : ∀ pair, made pair → valid pair.cert pair.key)
    (generated : ∀ pair ∈ event.pair?, made pair) (stepped : world.step valid event = some next) :
    next.Sound made := by
  cases event with
  | call generates =>
    obtain rfl := Option.some.inj stepped
    exact sound.calls generates
  | lock index | readCert index ok | readKey index ok | generate index pair | write index choice | finish index =>
    obtain ⟨call, found, advanced⟩ := Option.bind_eq_some_iff.mp stepped
    exact sound.advance trusted generated found advanced
  | kill pid =>
    obtain rfl := Option.some.inj stepped
    exact sound.kill pid rfl
  | lose back contents pid =>
    obtain rfl := Option.some.inj stepped
    exact sound.lose pid rfl
  | file event =>
    obtain ⟨foreign, stepped⟩ := Option.ite_none_right_eq_some.mp stepped
    obtain ⟨files, advanced, rfl⟩ := Option.map_eq_some_iff.mp stepped
    exact sound.others foreign advanced

theorem sound_start (made : Pair → Prop) (pid : ℕ) : (start pid).Sound made where
  files := Files.World.sound_start
  matched := by
    intro contents possible
    change contents ∈ Files.World.start.store.possible at possible
    rw [Files.World.store_start] at possible
    obtain rfl := Set.mem_singleton_iff.mp possible
    exact .of_none rfl
  held _ _ found := by simp [start] at found
  known _ _ found := by simp [start] at found

theorem sound_after {pid : ℕ} {history : List Event} (trusted : ∀ pair, made pair → valid pair.cert pair.key)
    (generated : ∀ event ∈ history, ∀ pair ∈ event.pair?, made pair)
    (ran : after valid pid history = some world) : world.Sound made := by
  have along : Machine.Along (step valid) (start pid) (fun _ event => ∀ pair ∈ event.pair?, made pair) history :=
    Machine.along_of_forall_mem fun event member _ => generated event member
  exact Machine.run_invariant (Sound made) (sound_start made pid)
    (fun _ _ _ sound made stepped => sound.step trusted made stepped) along ran

/-- Now and after any power loss, a certificate has the key of the generated pair that it is of. No call finds a
pair that is no authority, and all pairs that calls returned are one pair, which is in place. -/
theorem stored_certificate_has_its_key (pid : ℕ) (history : List Event)
    (trusted : ∀ event ∈ history, ∀ pair ∈ event.pair?, valid pair.cert pair.key)
    (ran : after valid pid history = some world) :
    (∀ contents ∈ world.files.store.possible,
        Matches (fun pair => ∃ event ∈ history, event.pair? = some pair) contents) ∧
      (∀ call ∈ world.calls, call.phase ≠ .invalid) ∧
      ∀ call ∈ world.calls, ∀ pair created, call.phase = .returned pair created →
        world.files.read .caCert = some pair.cert ∧ world.files.read .caKey = some pair.key := by
  have sound : world.Sound fun pair => ∃ event ∈ history, event.pair? = some pair :=
    sound_after (fun pair ⟨event, member, generated⟩ => trusted event member pair generated)
      (fun event member pair generated => ⟨event, member, generated⟩) ran
  refine ⟨sound.matched, fun call member bad => ?_, fun call member pair created returned => ?_⟩
  · obtain ⟨index, found⟩ := mem_iff_getElem?.mp member
    have knows := sound.known index call found
    rw [bad] at knows
    exact knows
  · obtain ⟨index, found⟩ := mem_iff_getElem?.mp member
    have knows := sound.known index call found
    rw [returned] at knows
    exact knows.2

/-- A call is killed after it has put its key into place, and the next process generates a pair; newest first. -/
def killedHistory : List Event :=
  [.finish 1, .write 1 .go, .write 1 .go, .write 1 .go, .write 1 (.wrote 1), .write 1 .go, .write 1 .go, .write 1 .go,
    .finish 1, .write 1 .go, .write 1 .go, .write 1 .go, .write 1 (.wrote 1), .write 1 .go, .write 1 .go, .write 1 .go,
    .generate 1 (some ⟨[3], [4]⟩), .readKey 1 true, .readCert 1 true, .lock 1, .call true, .kill 2,
    .finish 0, .write 0 .go, .write 0 .go, .write 0 .go, .write 0 (.wrote 1), .write 0 .go, .write 0 .go, .write 0 .go,
    .generate 0 (some ⟨[1], [2]⟩), .readKey 0 true, .readCert 0 true, .lock 0, .call true]

/-- The two pairs. -/
def eitherPair (cert key : Bytes) : Bool := cert == [1] && key == [2] || cert == [3] && key == [4]

theorem stored_certificate_has_its_key_sample :
    ∃ world, after eitherPair 1 killedHistory = some world ∧
      world.calls.map Call.phase = [.killed, .returned ⟨[3], [4]⟩ true] ∧
      (∀ contents ∈ world.files.store.possible,
        Matches (fun pair => ∃ event ∈ killedHistory, event.pair? = some pair) contents) ∧
      (∀ call ∈ world.calls, call.phase ≠ .invalid) ∧
      world.files.read .caCert = some [3] ∧ world.files.read .caKey = some [4] := by
  have ends : (after eitherPair 1 killedHistory).map (fun world => world.calls.map Call.phase) =
      some [.killed, .returned ⟨[3], [4]⟩ true] := by decide
  obtain ⟨world, ran, phases⟩ := Option.map_eq_some_iff.mp ends
  obtain ⟨matched, valid, placed⟩ := stored_certificate_has_its_key 1 killedHistory (by decide) ran
  obtain ⟨call, member, returned⟩ : ∃ call ∈ world.calls, call.phase = .returned ⟨[3], [4]⟩ true := by
    rw [← mem_map, phases]
    decide
  exact ⟨world, ran, phases, matched, valid, placed call member _ _ returned⟩

end World

end Tollgate.Authority

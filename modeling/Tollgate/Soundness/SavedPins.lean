import Tollgate.Model.Engine.PinsFile
import Tollgate.Soundness.WholeFiles

/-! # Saved pins never go back

A save takes the text of the pins while it holds the lock, so the versions that saves write never decrease,
and a save that wrote the file wrote a version at least as new as the pins were when it was called. This holds
however saves, changes of the pins and other writers interleave, and whichever writes fail.
-/

namespace Tollgate.PinsFile.World

open List
open Files (Writer)

variable {world next : World} {index : ℕ} {save : Save} {pid : ℕ} {files : Files.World} {json : Bytes}
  {history : List Event}

/-- What a step does. -/
inductive Moved (world : World) : World → Prop where
  | changes (json : Bytes) : Moved world { world with past := world.past ++ [world.json], json := json }
  | asks (always : Bool) : Moved world { world with saves := world.saves ++ [⟨always, world.version, .locking⟩] }
  | locks {index : ℕ} {save : Save} (found : world.saves[index]? = some save) (free : world.holder = none) :
      Moved world { world.setSave index save .reading with holder := some index }
  | begins {index : ℕ} {save : Save} (found : world.saves[index]? = some save) (before : save.phase = .reading) :
      Moved world
        { world.setSave index save (.writing world.version world.files.writers.length) with
          files := { world.files with
            writers := world.files.writers ++ [⟨world.pid, .learnedPins, world.json, .naming⟩] } }
  | skips {index : ℕ} {save : Save} (found : world.saves[index]? = some save) (before : save.phase = .reading)
      (same : world.json = world.saved) :
      Moved world
        { world.setSave index save .unchanged with holder := none, stored := world.stored.map fun _ => world.version }
  | writes {index version number : ℕ} {save : Save} {writer : Writer} {choice : Files.Choice} {files : Files.World}
      (found : world.saves[index]? = some save) (before : save.phase = .writing version number)
      (there : world.files.writers[number]? = some writer)
      (stepped : world.files.step (.step number choice) = some files) :
      Moved world
        { world with
          files := files
          stored := if files.writers[number]?.map Writer.phase = some (.returned true) then some version
            else world.stored }
  | finishes {index version number : ℕ} {save : Save} {writer : Writer} (found : world.saves[index]? = some save)
      (before : save.phase = .writing version number) (there : world.files.writers[number]? = some writer)
      (ended : writer.phase = .returned true) :
      Moved world { world.setSave index save .wrote with saved := writer.bytes, holder := none }
  | fails {index version number : ℕ} {save : Save} {writer : Writer} (found : world.saves[index]? = some save)
      (before : save.phase = .writing version number) (there : world.files.writers[number]? = some writer)
      (ended : writer.phase = .returned false) :
      Moved world { world.setSave index save .failed with holder := none }
  | others {event : Files.Event} {files : Files.World} (foreign : world.Foreign event)
      (stepped : world.files.step event = some files) : Moved world { world with files := files }

theorem moved_of_read (found : world.saves[index]? = some save) (before : save.phase = .reading)
    (stepped : world.read index save = some next) : Moved world next := by
  unfold read at stepped
  split at stepped
  · obtain ⟨files, begun, rfl⟩ := Option.map_eq_some_iff.mp stepped
    obtain rfl := Option.some.inj begun
    exact .begins found before
  · next quiet =>
    obtain rfl := Option.some.inj stepped
    simp only [Bool.or_eq_true, bne_iff_ne, ne_eq, not_or, not_not] at quiet
    exact .skips found before quiet.2

theorem moved_of_step {event : Event} (stepped : world.step event = some next) : Moved world next := by
  cases event with
  | change json =>
    obtain rfl := Option.some.inj stepped
    exact .changes json
  | save always =>
    obtain rfl := Option.some.inj stepped
    exact .asks always
  | lock index =>
    obtain ⟨save, found, stepped⟩ := Option.bind_eq_some_iff.mp stepped
    obtain ⟨⟨-, free⟩, stepped⟩ := Option.ite_none_right_eq_some.mp stepped
    obtain rfl := Option.some.inj stepped
    exact .locks found free
  | read index =>
    obtain ⟨save, found, stepped⟩ := Option.bind_eq_some_iff.mp stepped
    obtain ⟨before, stepped⟩ := Option.ite_none_right_eq_some.mp stepped
    exact moved_of_read found before stepped
  | write index choice =>
    obtain ⟨save, found, stepped⟩ := Option.bind_eq_some_iff.mp stepped
    cases before : save.phase with
    | writing version number =>
      simp only [before] at stepped
      obtain ⟨files, advanced, rfl⟩ := Option.map_eq_some_iff.mp stepped
      obtain ⟨writer, there, -⟩ := Option.bind_eq_some_iff.mp advanced
      exact .writes found before there advanced
    | locking | reading | unchanged | wrote | failed =>
      simp only [before] at stepped
      cases stepped
  | finish index =>
    obtain ⟨save, found, stepped⟩ := Option.bind_eq_some_iff.mp stepped
    cases before : save.phase with
    | writing version number =>
      simp only [before] at stepped
      obtain ⟨writer, there, stepped⟩ := Option.bind_eq_some_iff.mp stepped
      unfold finish at stepped
      split at stepped
      · next ended =>
        obtain rfl := Option.some.inj stepped
        exact .finishes found before there ended
      · next ended =>
        obtain rfl := Option.some.inj stepped
        exact .fails found before there ended
      · cases stepped
    | locking | reading | unchanged | wrote | failed =>
      simp only [before] at stepped
      cases stepped
  | file event =>
    obtain ⟨foreign, stepped⟩ := Option.ite_none_right_eq_some.mp stepped
    obtain ⟨files, advanced, rfl⟩ := Option.map_eq_some_iff.mp stepped
    exact .others foreign advanced

/-- A save that writes a version, and its writer. -/
structure Writes (world : World) (save : Save) (version : ℕ) (writer : Writer) : Prop where
  file : writer.file = .learnedPins
  pid : writer.pid = world.pid
  text : world.versions[version]? = some writer.bytes
  asked : save.asked ≤ version
  newest : ∀ stored, world.stored = some stored → stored ≤ version
  later : ∀ other ∈ world.saves, other.phase.stored → other.asked ≤ version
  put : writer.phase = .returned true → world.stored = some version

/-- Saves take turns, what they write is newer than what the file holds, and the text saved last is the file's
or is being written. -/
structure Sound (world : World) : Prop where
  files : world.files.Sound
  asked : ∀ save ∈ world.saves, save.asked ≤ world.version
  held : ∀ index : ℕ, ∀ save : Save, world.saves[index]? = some save → save.phase.locked → world.holder = some index
  writing : ∀ index : ℕ, ∀ save : Save, ∀ version number : ℕ, world.saves[index]? = some save →
    save.phase = .writing version number →
      ∃ writer, world.files.writers[number]? = some writer ∧ world.Writes save version writer
  stored : ∀ version, world.stored = some version →
    version ≤ world.version ∧ world.files.read .learnedPins = world.versions[version]?
  saved : ∀ version, world.stored = some version → world.versions[version]? = some world.saved ∨
    ∃ index number : ℕ, ∃ save : Save, ∃ writer : Writer, world.saves[index]? = some save ∧
      save.phase = .writing version number ∧ world.files.writers[number]? = some writer ∧ writer.phase = .returned true
  done : ∀ save ∈ world.saves, save.phase.stored → ∀ version, world.stored = some version → save.asked ≤ version
  wrote : ∀ save ∈ world.saves, save.phase = .wrote → world.stored.isSome

theorem locked_of_writing {phase : Phase} {version number : ℕ} (writes : phase = .writing version number) :
    phase.locked := by
  rw [writes]
  rfl

/-- One save at most has the lock. -/
theorem Sound.only (sound : world.Sound) {other : ℕ} {second : Save} (found : world.saves[index]? = some save)
    (locked : save.phase.locked) (also : world.saves[other]? = some second) (locks : second.phase.locked) :
    other = index :=
  Option.some.inj ((sound.held other second also locks).symm.trans (sound.held index save found locked))

theorem Sound.own (sound : world.Sound) {other : ℕ} {second : Save} (found : world.saves[index]? = some save)
    (locked : save.phase.locked) (also : world.saves[other]? = some second) (locks : second.phase.locked) :
    second = save := by
  obtain rfl := sound.only found locked also locks
  exact Option.some.inj (also.symm.trans found)

/-- When the save that has the lock gives it up, none has it. -/
theorem Sound.unlocked (sound : world.Sound) {other : ℕ} {second : Save} {phase : Phase}
    (found : world.saves[index]? = some save) (locked : save.phase.locked)
    (also : (world.saves.set index { save with phase := phase })[other]? = some second)
    (locks : second.phase.locked) : phase.locked := by
  rcases getElem?_set_cases also with ⟨-, rfl⟩ | ⟨different, also⟩
  · exact locks
  · exact (different (sound.only found locked also locks)).elim

/-- Without a write that ended, the file holds what was saved last. -/
theorem Sound.saved_of_reading (sound : world.Sound) (found : world.saves[index]? = some save)
    (before : save.phase = .reading) {version : ℕ} (stored : world.stored = some version) :
    world.versions[version]? = some world.saved := by
  rcases sound.saved version stored with same | ⟨other, number, second, writer, also, writes, -⟩
  · exact same
  · obtain rfl := sound.own found (by rw [before]; rfl) also (locked_of_writing writes)
    cases before.symm.trans writes

theorem versions_version (world : World) : world.versions[world.version]? = some world.json :=
  getElem?_concat_length

theorem le_version_of_text {version : ℕ} {text : Bytes} (here : world.versions[version]? = some text) :
    version ≤ world.version := by
  obtain ⟨inside, -⟩ := List.getElem?_eq_some_iff.mp here
  rw [versions, length_append, length_singleton] at inside
  exact Nat.le_of_lt_succ inside

/-- Older versions keep their texts. -/
theorem versions_change (world : World) (json : Bytes) {version : ℕ} (old : version ≤ world.version) :
    (versions { world with past := world.past ++ [world.json], json := json })[version]? = world.versions[version]? := by
  refine getElem?_append_left ?_
  rw [length_append, length_singleton]
  exact Nat.lt_succ_of_le old

theorem Sound.asked_set (sound : world.Sound) (found : world.saves[index]? = some save) (phase : Phase) :
    ∀ second ∈ world.saves.set index { save with phase := phase }, second.asked ≤ world.version := by
  intro second there
  rcases mem_or_eq_of_mem_set there with there | rfl
  · exact sound.asked second there
  · exact sound.asked save (mem_of_getElem? found)

theorem mem_of_stored {phase : Phase} (fresh : phase.stored = false) {second : Save}
    (there : second ∈ world.saves.set index { save with phase := phase }) (done : second.phase.stored) :
    second ∈ world.saves := by
  rcases mem_or_eq_of_mem_set there with there | rfl
  · exact there
  · cases fresh.symm.trans done

theorem stored_of_wrote {phase : Phase} (wrote : phase = .wrote) : phase.stored := by
  rw [wrote]
  rfl

theorem Sound.changes (sound : world.Sound) (json : Bytes) :
    Sound { world with past := world.past ++ [world.json], json := json } where
  files := sound.files
  asked save member := (sound.asked save member).trans (by simp [version])
  held := sound.held
  writing index save version number found before := by
    obtain ⟨writer, there, file, pid, text, asked, newest, later, put⟩ :=
      sound.writing index save version number found before
    refine ⟨writer, there, file, pid, ?_, asked, newest, later, put⟩
    rw [versions_change world json (le_version_of_text text)]
    exact text
  stored version here := by
    obtain ⟨old, reads⟩ := sound.stored version here
    refine ⟨old.trans (by simp [World.version]), ?_⟩
    rw [versions_change world json old]
    exact reads
  saved version here := by
    rw [versions_change world json (sound.stored version here).1]
    exact sound.saved version here
  done := sound.done
  wrote := sound.wrote

theorem Sound.asks (sound : world.Sound) (always : Bool) :
    Sound { world with saves := world.saves ++ [⟨always, world.version, .locking⟩] } := by
  have old : ∀ save ∈ world.saves ++ [(⟨always, world.version, .locking⟩ : Save)],
      save ∈ world.saves ∨ save = ⟨always, world.version, .locking⟩ := fun save member => by
    rcases mem_append.mp member with member | new
    · exact .inl member
    · exact .inr (mem_singleton.mp new)
  refine ⟨sound.files, fun save member => ?_, fun index save found locked => ?_,
    fun index save version number found before => ?_, sound.stored, fun version here => ?_,
    fun save member done => ?_, fun save member done => ?_⟩
  · rcases old save member with member | rfl
    · exact sound.asked save member
    · exact Nat.le_refl _
  · rcases getElem?_concat_cases found with ⟨-, rfl⟩ | found
    · cases locked
    · exact sound.held index save found locked
  · rcases getElem?_concat_cases found with ⟨-, rfl⟩ | found
    · cases before
    · obtain ⟨writer, there, file, pid, text, asked, newest, later, put⟩ :=
        sound.writing index save version number found before
      refine ⟨writer, there, file, pid, text, asked, newest, fun other member done => ?_, put⟩
      rcases old other member with member | rfl
      · exact later other member done
      · cases done
  · rcases sound.saved version here with same | ⟨index, number, save, writer, found, writes⟩
    · exact .inl same
    · exact .inr ⟨index, number, save, writer, getElem?_concat_of_some found _, writes⟩
  · rcases old save member with member | rfl
    · exact sound.done save member done
    · cases done
  · rcases old save member with member | rfl
    · exact sound.wrote save member done
    · cases done

theorem Sound.locks (sound : world.Sound) (found : world.saves[index]? = some save) (free : world.holder = none) :
    Sound { world.setSave index save .reading with holder := some index } := by
  have unlocked : ∀ other : ℕ, ∀ second : Save, world.saves[other]? = some second → ¬second.phase.locked :=
    fun other second also locked => by cases free.symm.trans (sound.held other second also locked)
  refine ⟨sound.files, sound.asked_set found _, fun other second also locked => ?_,
    fun other second version number also before => ?_, sound.stored, fun version here => ?_,
    fun second there done => ?_, fun second there done => ?_⟩
  · rcases getElem?_set_cases also with ⟨rfl, -⟩ | ⟨-, also⟩
    · rfl
    · exact (unlocked other second also locked).elim
  · rcases getElem?_set_cases also with ⟨-, rfl⟩ | ⟨-, also⟩
    · cases before
    · exact (unlocked other second also (locked_of_writing before)).elim
  · rcases sound.saved version here with same | ⟨other, number, second, writer, also, writes, -⟩
    · exact .inl same
    · exact (unlocked other second also (locked_of_writing writes)).elim
  · exact sound.done second (mem_of_stored rfl there done) done
  · exact sound.wrote second (mem_of_stored rfl there (stored_of_wrote done)) done

theorem Sound.begins (sound : world.Sound) (found : world.saves[index]? = some save)
    (before : save.phase = .reading) :
    Sound { world.setSave index save (.writing world.version world.files.writers.length) with
      files := { world.files with
        writers := world.files.writers ++ [⟨world.pid, .learnedPins, world.json, .naming⟩] } } := by
  have locked : save.phase.locked := by
    rw [before]
    rfl
  have member := mem_of_getElem? found
  refine ⟨Files.World.sound_write sound.files _ _ _, sound.asked_set found _, fun other second also locks => ?_,
    fun other second version number also writes => ?_, sound.stored, fun version here => ?_,
    fun second there done => ?_, fun second there done => ?_⟩
  · rcases getElem?_set_cases also with ⟨rfl, -⟩ | ⟨-, also⟩
    · exact sound.held other save found locked
    · exact sound.held other second also locks
  · rcases getElem?_set_cases also with ⟨rfl, rfl⟩ | ⟨different, also⟩
    · obtain ⟨rfl, rfl⟩ := Phase.writing.inj writes
      refine ⟨_, getElem?_concat_length, rfl, rfl, world.versions_version, sound.asked save member,
        fun stored here => (sound.stored stored here).1, fun second there _ => sound.asked_set found _ second there, ?_⟩
      intro ended
      cases ended
    · exact (different (sound.only found locked also (locked_of_writing writes))).elim
  · exact .inl (sound.saved_of_reading found before here)
  · exact sound.done second (mem_of_stored rfl there done) done
  · exact sound.wrote second (mem_of_stored rfl there (stored_of_wrote done)) done

theorem Sound.skips (sound : world.Sound) (found : world.saves[index]? = some save)
    (before : save.phase = .reading) (same : world.json = world.saved) :
    Sound { world.setSave index save .unchanged with
      holder := none, stored := world.stored.map fun _ => world.version } := by
  have locked : save.phase.locked := by
    rw [before]
    rfl
  refine ⟨sound.files, sound.asked_set found _, fun other second also locks => ?_,
    fun other second version number also writes => ?_, fun version here => ?_, fun version here => ?_,
    fun second there done version here => ?_, fun second there done => ?_⟩
  · cases sound.unlocked found locked also locks
  · cases sound.unlocked found locked also (locked_of_writing writes)
  · obtain ⟨stored, there, rfl⟩ := Option.map_eq_some_iff.mp here
    refine ⟨Nat.le_refl _, (sound.stored stored there).2.trans ?_⟩
    rw [sound.saved_of_reading found before there, ← same]
    exact world.versions_version.symm
  · obtain ⟨stored, there, rfl⟩ := Option.map_eq_some_iff.mp here
    refine .inl (world.versions_version.trans ?_)
    rw [same]
    rfl
  · obtain ⟨stored, -, rfl⟩ := Option.map_eq_some_iff.mp here
    exact sound.asked_set found _ second there
  · rcases mem_or_eq_of_mem_set there with there | rfl
    · exact (Option.isSome_map ..).trans (sound.wrote second there done)
    · cases done

theorem Sound.writes (sound : world.Sound) {version number : ℕ} {writer : Writer} {choice : Files.Choice}
    (found : world.saves[index]? = some save) (before : save.phase = .writing version number)
    (there : world.files.writers[number]? = some writer)
    (stepped : world.files.step (.step number choice) = some files) :
    Sound { world with
      files := files
      stored := if files.writers[number]?.map Writer.phase = some (.returned true) then some version
        else world.stored } := by
  obtain ⟨same, found', written⟩ := sound.writing index save version number found before
  obtain rfl := Option.some.inj (there.symm.trans found')
  obtain ⟨file, pid, text, asked, newest, later, -⟩ := written
  have locked := locked_of_writing before
  obtain ⟨phase, after, ⟨undone, reads⟩ | ⟨rfl, reads⟩⟩ := sound.files.written_step there stepped
  · -- The file is not in place yet.
    rw [after, Option.map_some, if_neg fun ended => undone (Option.some.inj ended)]
    refine ⟨Files.World.sound_step sound.files stepped, sound.asked, sound.held,
      fun other second version' number' also writes => ?_, fun version here => ?_, fun version' here => ?_,
      sound.done, sound.wrote⟩
    · obtain rfl := sound.own found locked also (locked_of_writing writes)
      obtain ⟨rfl, rfl⟩ := Phase.writing.inj (before.symm.trans writes)
      exact ⟨_, after, file, pid, text, asked, newest, later, fun ended => (undone ended).elim⟩
    · rw [reads]
      exact sound.stored version here
    · rcases sound.saved version' here with same | ⟨other, number', second, writer', also, writes, there', ended⟩
      · exact .inl same
      · obtain rfl := sound.own found locked also (locked_of_writing writes)
        obtain ⟨rfl, rfl⟩ := Phase.writing.inj (before.symm.trans writes)
        obtain rfl := Option.some.inj (there.symm.trans there')
        exact (Files.World.not_returned_of_step there stepped true ended).elim
  · rw [after, Option.map_some, if_pos rfl]
    refine ⟨Files.World.sound_step sound.files stepped, sound.asked, sound.held,
      fun other second version' number' also writes => ?_, fun version' here => ?_, fun version' here => ?_,
      fun second member done version' here => ?_, fun _ _ _ => rfl⟩
    · obtain rfl := sound.own found locked also (locked_of_writing writes)
      obtain ⟨rfl, rfl⟩ := Phase.writing.inj (before.symm.trans writes)
      exact ⟨_, after, file, pid, text, asked, fun stored here => (Option.some.inj here).ge, later, fun _ => rfl⟩
    · obtain rfl := Option.some.inj here
      refine ⟨le_version_of_text text, ?_⟩
      rw [reads, file, Function.update_self]
      exact text.symm
    · obtain rfl := Option.some.inj here
      exact .inr ⟨index, number, save, _, found, before, after, rfl⟩
    · obtain rfl := Option.some.inj here
      exact later second member done

theorem Sound.finishes (sound : world.Sound) {version number : ℕ} {writer : Writer}
    (found : world.saves[index]? = some save) (before : save.phase = .writing version number)
    (there : world.files.writers[number]? = some writer) (ended : writer.phase = .returned true) :
    Sound { world.setSave index save .wrote with saved := writer.bytes, holder := none } := by
  obtain ⟨same, found', written⟩ := sound.writing index save version number found before
  obtain rfl := Option.some.inj (there.symm.trans found')
  have stored := written.put ended
  have locked := locked_of_writing before
  refine ⟨sound.files, sound.asked_set found _, fun other second also locks => ?_,
    fun other second version' number' also writes => ?_, sound.stored, fun version' here => ?_,
    fun second there done version' here => ?_, fun _ _ _ => Option.isSome_of_eq_some stored⟩
  · cases sound.unlocked found locked also locks
  · cases sound.unlocked found locked also (locked_of_writing writes)
  · obtain rfl := Option.some.inj (stored.symm.trans here)
    exact .inl written.text
  · obtain rfl := Option.some.inj (stored.symm.trans here)
    rcases mem_or_eq_of_mem_set there with there | rfl
    · exact written.later second there done
    · exact written.asked

theorem Sound.fails (sound : world.Sound) {version number : ℕ} {writer : Writer}
    (found : world.saves[index]? = some save) (before : save.phase = .writing version number)
    (there : world.files.writers[number]? = some writer) (ended : writer.phase = .returned false) :
    Sound { world.setSave index save .failed with holder := none } := by
  have locked := locked_of_writing before
  refine ⟨sound.files, sound.asked_set found _, fun other second also locks => ?_,
    fun other second version' number' also writes => ?_, sound.stored, fun version' here => ?_,
    fun second there done => ?_, fun second there done => ?_⟩
  · cases sound.unlocked found locked also locks
  · cases sound.unlocked found locked also (locked_of_writing writes)
  · rcases sound.saved version' here with same | ⟨other, number', second, writer', also, writes, there', returned⟩
    · exact .inl same
    · obtain rfl := sound.own found locked also (locked_of_writing writes)
      obtain ⟨rfl, rfl⟩ := Phase.writing.inj (before.symm.trans writes)
      obtain rfl := Option.some.inj (there.symm.trans there')
      cases ended.symm.trans returned
  · exact sound.done second (mem_of_stored rfl there done) done
  · exact sound.wrote second (mem_of_stored rfl there (stored_of_wrote done)) done

theorem Foreign.powered {event : Files.Event} (foreign : world.Foreign event) : event.keepsPower := by
  cases event with
  | lose => exact foreign
  | write | step | kill => trivial

/-- What others do leaves the writers of the saves. -/
theorem Foreign.keeps {event : Files.Event} (foreign : world.Foreign event)
    (stepped : world.files.step event = some files) {number : ℕ} {writer : Writer}
    (there : world.files.writers[number]? = some writer) (file : writer.file = .learnedPins)
    (pid : writer.pid = world.pid) : files.writers[number]? = some writer := by
  refine Files.World.writer_of_other stepped foreign.powered there ?_ ?_
  · rintro choice rfl
    exact foreign writer there file
  · rintro killed rfl
    exact fun same => foreign (same.symm.trans pid)

theorem Sound.others (sound : world.Sound) {event : Files.Event} (foreign : world.Foreign event)
    (stepped : world.files.step event = some files) : Sound { world with files := files } := by
  refine ⟨Files.World.sound_step sound.files stepped, sound.asked, sound.held,
    fun index save version number found before => ?_, fun version here => ?_, fun version here => ?_,
    sound.done, sound.wrote⟩
  · obtain ⟨writer, there, written⟩ := sound.writing index save version number found before
    exact ⟨writer, foreign.keeps stepped there written.file written.pid, written.file, written.pid, written.text,
      written.asked, written.newest, written.later, written.put⟩
  · have reads := sound.files.read_of_other stepped foreign.powered fun index choice equal writer there => by
      subst equal
      exact foreign writer there
    rw [reads]
    exact sound.stored version here
  · rcases sound.saved version here with same | ⟨index, number, save, writer, found, before, there, ended⟩
    · exact .inl same
    · obtain ⟨same, found', written⟩ := sound.writing index save version number found before
      obtain rfl := Option.some.inj (there.symm.trans found')
      exact .inr ⟨index, number, save, writer, found, before,
        foreign.keeps stepped there written.file written.pid, ended⟩

theorem Sound.moved (sound : world.Sound) (moved : Moved world next) : next.Sound := by
  cases moved with
  | changes json => exact sound.changes json
  | asks always => exact sound.asks always
  | locks found free => exact sound.locks found free
  | begins found before => exact sound.begins found before
  | skips found before same => exact sound.skips found before same
  | writes found before there stepped => exact sound.writes found before there stepped
  | finishes found before there ended => exact sound.finishes found before there ended
  | fails found before there ended => exact sound.fails found before there ended
  | others foreign stepped => exact sound.others foreign stepped

/-- A step puts no older version into the file. -/
theorem Sound.stored_le (sound : world.Sound) (moved : Moved world next) {version : ℕ}
    (stored : world.stored = some version) : ∃ later, next.stored = some later ∧ version ≤ later := by
  cases moved with
  | changes | asks | locks | begins | finishes | fails | others => exact ⟨version, stored, Nat.le_refl _⟩
  | skips =>
    refine ⟨world.version, ?_, (sound.stored version stored).1⟩
    simp only [stored, Option.map_some]
  | @writes index written number save writer choice files found before there stepped =>
    simp only
    split
    · obtain ⟨_, -, written⟩ := sound.writing index save _ number found before
      exact ⟨_, rfl, written.newest version stored⟩
    · exact ⟨version, stored, Nat.le_refl _⟩

theorem sound_new (files : Files.World) (known : files.Sound) : (new pid files json).Sound where
  files := known
  asked _ member := (not_mem_nil member).elim
  held _ _ found := by simp [new] at found
  writing _ _ _ _ found := by simp [new] at found
  stored _ here := by cases here
  saved _ here := by cases here
  done _ member := (not_mem_nil member).elim
  wrote _ member := (not_mem_nil member).elim

theorem sound_after (known : files.Sound) (ran : after pid files json history = some world) : world.Sound :=
  Machine.run_invariant Sound (sound_new files known) (fun _ _ _ sound _ stepped => sound.moved (moved_of_step stepped))
    (Machine.along_of_forall_mem fun _ _ _ => trivial) ran

theorem stored_after (known : files.Sound) {later : List Event} {version : ℕ}
    (ran : after pid files json history = some world) (stored : world.stored = some version)
    (reached : after pid files json (later ++ history) = some next) :
    ∃ newer, next.stored = some newer ∧ version ≤ newer := by
  induction later generalizing next with
  | nil =>
    obtain rfl := Option.some.inj (ran.symm.trans reached)
    exact ⟨version, stored, Nat.le_refl _⟩
  | cons event past ih =>
    obtain ⟨before, earlier, stepped⟩ := Machine.run_cons.mp reached
    obtain ⟨middle, here, old⟩ := ih earlier
    obtain ⟨newer, there, grown⟩ := (sound_after known earlier).stored_le (moved_of_step stepped) here
    exact ⟨newer, there, old.trans grown⟩

/-- The file holds the version that was stored, which is at least as new as the pins were when a save was called
that has written or had nothing to write, and it never goes back. -/
theorem saved_pins_never_go_back (past : List Files.Event) (ready : Files.World.after past = some files)
    (ran : after pid files json history = some world) :
    (∀ save ∈ world.saves, save.phase = .wrote → world.stored.isSome) ∧
      ∀ version, world.stored = some version →
        (∃ text, world.versions[version]? = some text ∧ world.files.read .learnedPins = some text) ∧
        (∀ save ∈ world.saves, save.phase.stored → save.asked ≤ version) ∧
        ∀ later next, after pid files json (later ++ history) = some next →
          ∃ newer, next.stored = some newer ∧ version ≤ newer := by
  have known := Files.World.sound_of_after ready
  have sound := sound_after known ran
  refine ⟨sound.wrote, fun version stored => ⟨?_, fun save member done => sound.done save member done version stored,
    fun later next reached => stored_after known ran stored reached⟩⟩
  obtain ⟨old, reads⟩ := sound.stored version stored
  have inside : version < world.versions.length := by
    rw [versions, length_append, length_singleton]
    exact Nat.lt_succ_of_le old
  exact ⟨_, getElem?_eq_getElem inside, reads.trans (getElem?_eq_getElem inside)⟩

/-- Pins change, a save begins, pins change again, and the save writes; newest first. -/
def saveHistory : List Event :=
  [.finish 0, .write 0 .go, .write 0 .go, .write 0 .go, .write 0 (.wrote 1), .write 0 .go, .write 0 .go, .write 0 .go,
    .change [3], .read 0, .lock 0, .save true, .change [2]]

theorem saved_pins_never_go_back_sample :
    ∃ world, after 1 .start [1] saveHistory = some world ∧ world.stored = some 1 ∧
      ∃ text, world.versions[1]? = some text ∧ world.files.read .learnedPins = some text := by
  have stores : (after 1 .start [1] saveHistory).bind World.stored = some 1 := by decide
  obtain ⟨world, ran, stored⟩ := Option.bind_eq_some_iff.mp stores
  have holds := (saved_pins_never_go_back [] rfl ran).2 1 stored
  exact ⟨world, ran, stored, holds.1⟩

end Tollgate.PinsFile.World

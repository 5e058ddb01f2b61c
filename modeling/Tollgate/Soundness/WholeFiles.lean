import Tollgate.Proofs.Core.Files

/-! # Files in the data directory change whole

However writers interleave, fail, are killed or lose the power, the data directory is a store whose files
change whole: a write that returns without an error puts all of its bytes at its rename, every other step
leaves what readers see, and a power loss brings back what the files held at some moment. A file that was
seen in place holds the bytes of one write, and they stay while a reader has it open.
-/

namespace Tollgate.Files.World

open Machine List

variable {world next : World} {index : ℕ} {writer : Writer} {history : List Event}

theorem sound_of_after (reached : after history = some world) : world.Sound :=
  run_invariant Sound sound_start (fun _ _ _ sound _ => sound_step sound)
    (along_of_forall_mem fun _ _ _ => trivial) reached

/-- A step leaves what a directory holds. -/
theorem Sound.contents_moved (sound : world.Sound) (found : world.writers[index]? = some writer)
    (moved : Moved world index writer next) {directory : AList fun _ : Name => ℕ}
    (member : directory ∈ world.disk.directories) : next.contents directory = world.contents directory := by
  funext file
  simp only [contents]
  cases here : directory.lookup (.file file) with
  | none => rfl
  | some inode =>
    have links : world.disk.Links (.file file) inode := ⟨directory, member, here⟩
    simp only [Option.bind_some]
    rw [moved.inodes.2 inode (sound.known _ _ links) (sound.not_open found links)]

/-- A step makes possible what the files hold after it. -/
theorem Sound.possible_moved (sound : world.Sound) (found : world.writers[index]? = some writer)
    (moved : Moved world index writer next) : next.store.possible = insert next.read world.store.possible := by
  have now : next.read = next.contents next.disk.directory := rfl
  ext held
  rcases moved.directories with same | grown
  · have stays : held ∈ next.store.possible ↔ held ∈ world.store.possible := by
      simp only [store, Set.mem_ofPred_eq, same]
      constructor
      · rintro ⟨directory, member, rfl⟩
        exact ⟨directory, member, sound.contents_moved found moved member⟩
      · rintro ⟨directory, member, rfl⟩
        exact ⟨directory, member, (sound.contents_moved found moved member).symm⟩
    rw [stays, Set.mem_insert_iff]
    refine ⟨.inr, fun either => either.elim (fun equal => ?_) id⟩
    have member : next.disk.directory ∈ world.disk.directories := by
      rw [← same]
      exact mem_cons_self
    rw [equal, now, sound.contents_moved found moved member]
    exact ⟨_, member, rfl⟩
  · simp only [store, Set.mem_ofPred_eq, grown, mem_cons, Set.mem_insert_iff]
    constructor
    · rintro ⟨directory, rfl | member, rfl⟩
      · exact .inl rfl
      · exact .inr ⟨directory, member, sound.contents_moved found moved member⟩
    · rintro (rfl | ⟨directory, member, rfl⟩)
      · exact ⟨_, .inl rfl, rfl⟩
      · exact ⟨directory, .inr member, (sound.contents_moved found moved member).symm⟩

theorem read_mem_possible (world : World) : world.read ∈ world.store.possible :=
  ⟨world.disk.directory, mem_cons_self, rfl⟩

/-- A rename puts the writer's bytes. -/
theorem Sound.read_replaced (sound : world.Sound) (found : world.writers[index]? = some writer) {number inode : ℕ}
    (before : writer.phase = .replacing number inode)
    (renamed : world.disk.rename (writer.temp number) (.file writer.file) = some next.disk) :
    next.read = Function.update world.read writer.file (some writer.bytes) := by
  obtain ⟨renames, looked, same, directory, -⟩ := Disk.rename_eq_some renamed
  obtain ⟨named, wrote, -⟩ := sound.held_in found before rfl rfl
  obtain rfl := Option.some.inj (looked.symm.trans named)
  funext file
  simp only [read, Disk.read, directory, same]
  by_cases own : file = writer.file
  · subst own
    rw [AList.lookup_insert, Function.update_self, Option.bind_some]
    exact congrArg (Option.map Inode.content) wrote
  · rw [AList.lookup_insert_ne (by simpa using own), AList.lookup_erase_ne (by simp [Writer.temp]),
      Function.update_of_ne own]
    rfl

/-- A step puts the writer's bytes as the writer returns, or leaves what readers see. -/
theorem Sound.read_moved (sound : world.Sound) (found : world.writers[index]? = some writer)
    (moved : Moved world index writer next) :
    next.read = world.read ∧ (∀ after : Writer, next.writers[index]? = some after → after.phase ≠ .returned true) ∨
      next.read = Function.update world.read writer.file (some writer.bytes) ∧
        next.writers[index]? = some { writer with phase := .returned true } := by
  rcases moved.places found with ⟨places, undone⟩ | ⟨number, inode, before, renamed, returned⟩
  · have stays : next.contents world.disk.directory = world.read :=
      sound.contents_moved found moved mem_cons_self
    refine .inl ⟨?_, undone⟩
    rw [← stays]
    funext file
    simp only [read, Disk.read, contents, places]
  · exact .inr ⟨sound.read_replaced found before renamed, returned⟩

/-- What readers see of a file that no step is about. -/
theorem Sound.read_of_other (sound : world.Sound) {event : Event} (stepped : world.step event = some next)
    (powered : event.keepsPower) {file : FileName}
    (other : ∀ index choice, event = .step index choice → ∀ writer ∈ world.writers[index]?, writer.file ≠ file) :
    next.read file = world.read file := by
  cases event with
  | write pid file bytes =>
    obtain rfl := Option.some.inj stepped
    rfl
  | step index choice =>
    obtain ⟨writer, found, advanced⟩ := Option.bind_eq_some_iff.mp stepped
    rcases sound.read_moved found (moved_of_advance advanced) with ⟨same, -⟩ | ⟨put, -⟩
    · rw [same]
    · rw [put]
      exact Function.update_of_ne (other index choice rfl writer found).symm _ _
  | kill pid =>
    obtain rfl := Option.some.inj stepped
    rfl
  | lose back contents => exact powered.elim

/-- A writer that has returned takes no step. -/
theorem not_returned_of_step {choice : Choice} (found : world.writers[index]? = some writer)
    (stepped : world.step (.step index choice) = some next) (ok : Bool) : writer.phase ≠ .returned ok := by
  intro ended
  obtain ⟨same, found', advanced⟩ := Option.bind_eq_some_iff.mp stepped
  obtain rfl := Option.some.inj (found.symm.trans found')
  rw [ended] at advanced
  cases choice <;> cases advanced

/-- What a writer's step does to the writer and to what readers see. -/
theorem Sound.written_step (sound : world.Sound) {choice : Choice} (found : world.writers[index]? = some writer)
    (stepped : world.step (.step index choice) = some next) :
    ∃ phase : Phase, next.writers[index]? = some { writer with phase := phase } ∧
      (phase ≠ .returned true ∧ next.read = world.read ∨
        phase = .returned true ∧ next.read = Function.update world.read writer.file (some writer.bytes)) := by
  obtain ⟨same, found', advanced⟩ := Option.bind_eq_some_iff.mp stepped
  obtain rfl := Option.some.inj (found.symm.trans found')
  have moved := moved_of_advance advanced
  obtain ⟨phase, writers, -⟩ := moved.shape
  have here : next.writers[index]? = some { writer with phase := phase } := by
    rw [writers]
    exact getElem?_set_of_some found _
  refine ⟨phase, here, ?_⟩
  rcases sound.read_moved found moved with ⟨reads, undone⟩ | ⟨reads, returned⟩
  · exact .inl ⟨undone _ here, reads⟩
  · exact .inr ⟨congrArg Writer.phase (Option.some.inj (here.symm.trans returned)), reads⟩

/-- A writer that an event is not about is left alone. -/
theorem writer_of_other {event : Event} (stepped : world.step event = some next) (powered : event.keepsPower)
    (found : world.writers[index]? = some writer) (other : ∀ choice, event ≠ .step index choice)
    (lives : ∀ pid, event = .kill pid → writer.pid ≠ pid) : next.writers[index]? = some writer := by
  cases event with
  | write pid file bytes =>
    obtain rfl := Option.some.inj stepped
    exact getElem?_concat_of_some found _
  | step moving choice =>
    obtain ⟨mover, found', advanced⟩ := Option.bind_eq_some_iff.mp stepped
    obtain ⟨phase, writers, -⟩ := (moved_of_advance advanced).shape
    rw [writers, getElem?_set_ne]
    · exact found
    · rintro rfl
      exact other choice rfl
  | kill pid =>
    obtain rfl := Option.some.inj stepped
    rw [getElem?_map, found, Option.map_some, if_neg (lives pid rfl)]
  | lose back contents => exact powered.elim

theorem Sound.moves_step (sound : world.Sound) (found : world.writers[index]? = some writer)
    (moved : Moved world index writer next) (choice : Choice) :
    world.store.Moves (label (.step index choice) next) next.store := by
  have possible := sound.possible_moved found moved
  rcases sound.read_moved found moved with ⟨reads, undone⟩ | ⟨reads, returned⟩
  · have same : next.store = world.store := by
      refine Store.ext reads ?_
      rw [possible, reads]
      exact Set.insert_eq_of_mem world.read_mem_possible
    have stay : label (.step index choice) next = .stay := by
      cases here : next.writers[index]? with
      | none => simp only [label, here, Option.map_none, Option.getD_none]
      | some after =>
        simp only [label, here, Option.map_some, Option.getD_some]
        exact if_neg (undone after here)
    rw [same, stay]
    exact .stay
  · have puts : label (.step index choice) next = .put writer.file writer.bytes := by
      simp only [label, returned, Option.map_some, Option.getD_some]
      exact if_pos rfl
    have same : next.store = ⟨Function.update world.read writer.file (some writer.bytes),
        insert (Function.update world.read writer.file (some writer.bytes)) world.store.possible⟩ := by
      refine Store.ext reads ?_
      rw [possible, reads]
    rw [same, puts]
    exact .put writer.file writer.bytes

/-- Files in place were synced, so a power loss brings back a directory with the files it had. -/
theorem Sound.moves_lose (sound : world.Sound) (back : ℕ) (contents : ℕ → Bytes) :
    world.store.Moves .lose
      (store ⟨world.disk.lose back contents, fun _ _ => 0, world.writers.map Writer.kill⟩) := by
  generalize lost : (⟨world.disk.lose back contents, fun _ _ => 0, world.writers.map Writer.kill⟩ : World) = next
  have member := world.disk.directory_lose_mem back contents
  have holds : next.contents (world.disk.lose back contents).directory =
      world.contents (world.disk.lose back contents).directory := by
    subst lost
    funext file
    simp only [World.contents]
    cases here : (world.disk.lose back contents).directory.lookup (.file file) with
    | none => rfl
    | some inode =>
      obtain ⟨left, -, -, bytes⟩ := sound.whole file inode ⟨_, member, here⟩
      simp only [Option.bind_some, bytes, Disk.lose_synced bytes]
  have same : next.store = ⟨world.contents (world.disk.lose back contents).directory,
      {world.contents (world.disk.lose back contents).directory}⟩ := by
    subst lost
    refine Store.ext holds ?_
    ext held
    constructor
    · rintro ⟨directory, here, rfl⟩
      obtain rfl := mem_singleton.mp here
      exact holds
    · rintro rfl
      exact ⟨_, mem_singleton.mpr rfl, holds.symm⟩
  rw [same]
  exact .lose _ ⟨_, member, rfl⟩

/-- A step makes nothing possible but what the files hold after it. -/
theorem Sound.possible_step (sound : world.Sound) {event : Event} (stepped : world.step event = some next)
    (powered : event.keepsPower) : next.store.possible ⊆ insert next.read world.store.possible := by
  cases event with
  | write pid file bytes =>
    obtain rfl := Option.some.inj stepped
    exact Set.subset_insert _ _
  | step index choice =>
    obtain ⟨writer, found, advanced⟩ := Option.bind_eq_some_iff.mp stepped
    exact (sound.possible_moved found (moved_of_advance advanced)).subset
  | kill pid =>
    obtain rfl := Option.some.inj stepped
    exact Set.subset_insert _ _
  | lose back contents => exact powered.elim

theorem Sound.moves (sound : world.Sound) {event : Event} (stepped : world.step event = some next) :
    world.store.Moves (label event next) next.store := by
  cases event with
  | write pid file bytes =>
    obtain rfl := Option.some.inj stepped
    exact .stay
  | step index choice =>
    obtain ⟨writer, found, advanced⟩ := Option.bind_eq_some_iff.mp stepped
    exact sound.moves_step found (moved_of_advance advanced) choice
  | kill pid =>
    obtain rfl := Option.some.inj stepped
    exact .stay
  | lose back contents =>
    obtain rfl := Option.some.inj stepped
    exact sound.moves_lose back contents

theorem store_start : start.store = .empty := by
  refine Store.ext rfl ?_
  ext held
  constructor
  · rintro ⟨directory, member, rfl⟩
    obtain rfl := mem_singleton.mp member
    rfl
  · rintro rfl
    exact ⟨_, mem_cons_self, rfl⟩

/-- Every run of the writers is a run of the store, with a put for each write that returned without an error. -/
theorem writes_are_atomic (reached : after history = some world) :
    Path Store.Moves .empty (labels history) world.store := by
  rw [← store_start]
  exact path_of_run store Sound sound_start (fun _ _ _ => sound_step) (fun _ _ _ sound => sound.moves) reached

/-- A writer that puts a key into place, and another that is killed as it writes the next one; newest first. -/
def keyHistory : List Event :=
  [.kill 2, .step 1 (.wrote 1), .step 1 .go, .step 1 .go, .step 1 .go, .write 2 .caKey [8, 9], .step 0 .go,
    .step 0 .go, .step 0 .go, .step 0 (.wrote 1), .step 0 .go, .step 0 .go, .step 0 .go, .write 1 .caKey [7]]

theorem keyHistory_possible : (after keyHistory).isSome := by
  decide

theorem writes_are_atomic_sample :
    ∃ world, after keyHistory = some world ∧ Path Store.Moves .empty (labels keyHistory) world.store := by
  obtain ⟨world, reached⟩ := Option.isSome_iff_exists.mp keyHistory_possible
  exact ⟨world, reached, writes_are_atomic reached⟩

/-- The bytes of a writer are those of a write. -/
theorem written_of_after (reached : after history = some world) (member : writer ∈ world.writers) :
    ∃ pid, Event.write pid writer.file writer.bytes ∈ history := by
  induction history generalizing world writer with
  | nil =>
    obtain rfl := Option.some.inj reached
    cases member
  | cons event past ih =>
    obtain ⟨before, earlier, stepped⟩ := run_cons.mp reached
    cases event with
    | write pid file bytes =>
      obtain rfl := Option.some.inj stepped
      rcases mem_append.mp member with old | new
      · obtain ⟨pid, written⟩ := ih earlier old
        exact ⟨pid, mem_cons_of_mem _ written⟩
      · obtain rfl := mem_singleton.mp new
        exact ⟨pid, mem_cons_self⟩
    | step index choice =>
      obtain ⟨mover, found, advanced⟩ := Option.bind_eq_some_iff.mp stepped
      obtain ⟨phase, writers, -⟩ := (moved_of_advance advanced).shape
      rw [writers] at member
      rcases mem_or_eq_of_mem_set member with old | rfl
      · obtain ⟨pid, written⟩ := ih earlier old
        exact ⟨pid, mem_cons_of_mem _ written⟩
      · obtain ⟨pid, written⟩ := ih earlier (mem_of_getElem? found)
        exact ⟨pid, mem_cons_of_mem _ written⟩
    | kill pid =>
      obtain rfl := Option.some.inj stepped
      obtain ⟨old, there, rfl⟩ := mem_map.mp member
      obtain ⟨pid, written⟩ := ih earlier there
      split
      · exact ⟨pid, mem_cons_of_mem _ written⟩
      · exact ⟨pid, mem_cons_of_mem _ written⟩
    | lose back contents =>
      obtain rfl := Option.some.inj stepped
      obtain ⟨old, there, rfl⟩ := mem_map.mp member
      obtain ⟨pid, written⟩ := ih earlier there
      exact ⟨pid, mem_cons_of_mem _ written⟩

/-- A file that was put into place, its bytes, and that the name is still in place. -/
structure InPlace (file : FileName) (inode : ℕ) (bytes : Bytes) (world : World) : Prop where
  linked : world.disk.Links (.file file) inode
  holds : world.disk.inodes[inode]? = some ⟨bytes, true⟩
  named : (world.disk.directory.lookup (.file file)).isSome

theorem Sound.inPlace_moved (sound : world.Sound) (found : world.writers[index]? = some writer)
    (moved : Moved world index writer next) {file : FileName} {inode : ℕ} {bytes : Bytes}
    (place : InPlace file inode bytes world) : InPlace file inode bytes next := by
  obtain ⟨linked, holds, named⟩ := place
  refine ⟨?_, ?_, ?_⟩
  · obtain ⟨directory, member, here⟩ := linked
    rcases moved.directories with same | grown
    · exact ⟨directory, same ▸ member, here⟩
    · exact ⟨directory, grown ▸ mem_cons_of_mem _ member, here⟩
  · rw [moved.inodes.2 inode (sound.known _ _ linked) (sound.not_open found linked)]
    exact holds
  · rcases moved.places found with ⟨places, -⟩ | ⟨number, inode, before, renamed, -⟩
    · rw [places]
      exact named
    · obtain ⟨renames, -, -, directory, -⟩ := Disk.rename_eq_some renamed
      rw [directory]
      by_cases own : file = writer.file
      · subst own
        rw [AList.lookup_insert]
        rfl
      · rw [AList.lookup_insert_ne (by simpa using own), AList.lookup_erase_ne (by simp [Writer.temp])]
        exact named

theorem Sound.inPlace_step (sound : world.Sound) {event : Event} (powered : event.keepsPower)
    (stepped : world.step event = some next) {file : FileName} {inode : ℕ} {bytes : Bytes}
    (place : InPlace file inode bytes world) : InPlace file inode bytes next := by
  cases event with
  | write pid other written =>
    obtain rfl := Option.some.inj stepped
    exact ⟨place.linked, place.holds, place.named⟩
  | step index choice =>
    obtain ⟨writer, found, advanced⟩ := Option.bind_eq_some_iff.mp stepped
    exact sound.inPlace_moved found (moved_of_advance advanced) place
  | kill pid =>
    obtain rfl := Option.some.inj stepped
    exact ⟨place.linked, place.holds, place.named⟩
  | lose back contents => exact powered.elim

theorem inPlace_of_after {later : List Event} (powered : ∀ event ∈ later, event.keepsPower)
    (reached : after history = some world) (ran : after (later ++ history) = some next) {file : FileName}
    {inode : ℕ} {bytes : Bytes} (place : InPlace file inode bytes world) : InPlace file inode bytes next := by
  induction later generalizing next with
  | nil =>
    obtain rfl := Option.some.inj (reached.symm.trans ran)
    exact place
  | cons event past ih =>
    obtain ⟨here, earlier⟩ := forall_mem_cons.mp powered
    obtain ⟨before, ranBefore, stepped⟩ := run_cons.mp ran
    exact (sound_of_after ranBefore).inPlace_step here stepped (ih earlier ranBefore)

/-- A file that a reader finds holds all the bytes of one write of this file, and until the power is lost it keeps
them, whoever replaces it, and some file stays in its place. -/
theorem found_files_are_whole_and_stay (reached : after history = some world) {file : FileName} {inode : ℕ}
    (found : world.disk.directory.lookup (.file file) = some inode) :
    ∃ pid bytes, Event.write pid file bytes ∈ history ∧ world.read file = some bytes ∧
      ∀ later next, (∀ event ∈ later, event.keepsPower) → after (later ++ history) = some next →
        next.disk.inodes[inode]? = some ⟨bytes, true⟩ ∧ (next.disk.directory.lookup (.file file)).isSome := by
  have sound := sound_of_after reached
  obtain ⟨writer, member, rfl, holds⟩ := sound.whole file inode (Disk.links_now found)
  obtain ⟨pid, written⟩ := written_of_after reached member
  refine ⟨pid, writer.bytes, written, ?_, fun later next powered ran => ?_⟩
  · simp only [read, Disk.read, found, Option.bind_some, holds, Option.map_some]
  · have place := inPlace_of_after powered reached ran ⟨Disk.links_now found, holds, by rw [found]; rfl⟩
    exact ⟨place.holds, place.named⟩

/-- The key is replaced by another. -/
def replacedKey : List Event :=
  [.step 2 .go, .step 2 .go, .step 2 .go, .step 2 (.wrote 1), .step 2 .go, .step 2 .go, .step 2 .go,
    .write 1 .caKey [5]]

/-- A reader that has opened the first key keeps it when the key is replaced. -/
theorem found_files_are_whole_and_stay_sample :
    ∃ world next pid, after keyHistory = some world ∧ after (replacedKey ++ keyHistory) = some next ∧
      world.disk.directory.lookup (.file .caKey) = some 0 ∧ Event.write pid .caKey [7] ∈ keyHistory ∧
      next.read .caKey = some [5] ∧ next.disk.inodes[0]? = some ⟨[7], true⟩ ∧
      (next.disk.directory.lookup (.file .caKey)).isSome := by
  have there : ((after keyHistory).map fun world => (world.disk.directory.lookup (.file .caKey), world.read .caKey)) =
      some (some 0, some [7]) := by decide
  have replaced : ((after (replacedKey ++ keyHistory)).map fun next => next.read .caKey) = some (some [5]) := by decide
  obtain ⟨world, reached, state⟩ := Option.map_eq_some_iff.mp there
  obtain ⟨next, ran, newer⟩ := Option.map_eq_some_iff.mp replaced
  obtain ⟨found, first⟩ := Prod.mk.inj state
  obtain ⟨pid, bytes, written, reads, stays⟩ := found_files_are_whole_and_stay reached found
  obtain rfl := Option.some.inj (first.symm.trans reads)
  have powered : ∀ event ∈ replacedKey, event.keepsPower := by simp [replacedKey, Event.keepsPower]
  obtain ⟨holds, named⟩ := stays replacedKey next powered ran
  exact ⟨world, next, pid, reached, ran, found, written, newer, holds, named⟩

end Tollgate.Files.World

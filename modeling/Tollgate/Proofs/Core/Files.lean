import Tollgate.Model.Core.Files

/-! # What a writer does to the data directory

A temporary file belongs to one writer: its name has a number that no other writer of the process has, and
the name still refers to the file that the writer opened. So a rename puts the writer's own file into place,
and that file holds all of the writer's bytes, synced, and is closed. Nothing else puts a file into place,
and no file that was put into place is open, so its bytes never change.
-/

namespace Tollgate.Files

open Machine List

namespace Phase

theorem number_of_inode (phase : Phase) {inode : ℕ} (opened : phase.inode = some inode) :
    ∃ number, phase.number = some number := by
  cases phase with
  | writing number | syncing number | replacing number => exact ⟨number, rfl⟩
  | naming | clearing | opening | cleaning | returned | killed => cases opened

theorem kill_number (phase : Phase) : phase.kill.number = none := by
  cases phase <;> rfl

theorem kill_inode (phase : Phase) : phase.kill.inode = none := by
  cases phase <;> rfl

end Phase

namespace World

variable {world next : World} {index : ℕ} {writer : Writer} {phase : Phase} {choice : Choice}

/-- What a step of a writer does. -/
inductive Moved (world : World) (index : ℕ) (writer : Writer) : World → Prop where
  | numbers (phase : Phase) (before : writer.phase = .naming)
      (number : phase.number = some (world.counter writer.pid writer.file.crate)) (closed : phase.inode = none) :
      Moved world index writer
        { world.move index writer world.disk phase with
          counter := Function.update world.counter writer.pid
            (Function.update (world.counter writer.pid) writer.file.crate
              (world.counter writer.pid writer.file.crate + 1)) }
  /-- The writer closes its file, or gives up. -/
  | leaves (phase : Phase) (number : phase.number = none ∨ phase.number = writer.phase.number)
      (closed : phase.inode = none) (undone : phase ≠ .returned true) :
      Moved world index writer (world.move index writer world.disk phase)
  | removes (number : ℕ) (phase : Phase) (before : writer.phase.number = some number)
      (after : phase.number = none ∨ phase.number = writer.phase.number) (closed : phase.inode = none)
      (undone : phase ≠ .returned true) :
      Moved world index writer (world.move index writer (world.disk.remove (writer.temp number)) phase)
  | creates (number inode : ℕ) (disk : Disk Name UInt8) (before : writer.phase = .opening number)
      (created : world.disk.createNew (writer.temp number) = some (disk, inode)) :
      Moved world index writer (world.move index writer disk (.writing number inode writer.bytes))
  | appends (number inode : ℕ) (rest : Bytes) (count : ℕ) (before : writer.phase = .writing number inode rest) :
      Moved world index writer
        (world.move index writer (world.disk.append inode (rest.take count)) (.writing number inode (rest.drop count)))
  | finishes (number inode : ℕ) (before : writer.phase = .writing number inode []) :
      Moved world index writer (world.move index writer world.disk (.syncing number inode))
  | syncs (number inode : ℕ) (before : writer.phase = .syncing number inode) :
      Moved world index writer (world.move index writer (world.disk.sync inode) (.replacing number inode))
  | replaces (number inode : ℕ) (disk : Disk Name UInt8) (before : writer.phase = .replacing number inode)
      (renamed : world.disk.rename (writer.temp number) (.file writer.file) = some disk) :
      Moved world index writer (world.move index writer disk (.returned true))

theorem moved_of_create {number : ℕ} (before : writer.phase = .opening number) :
    Moved world index writer (world.create index writer number) := by
  unfold create
  split
  · next disk inode created => exact .creates number inode disk before created
  · refine .leaves _ ?_ ?_ ?_
    · rw [before]
      cases writer.file.crate
      · exact .inl rfl
      · exact .inr rfl
    · cases writer.file.crate <;> rfl
    · cases writer.file.crate <;> simp

theorem moved_of_advance (stepped : world.advance index writer writer.phase choice = some next) :
    Moved world index writer next := by
  generalize before : writer.phase = phase at stepped
  cases phase with
  | naming =>
    cases choice with
    | go =>
      obtain rfl := Option.some.inj stepped
      refine .numbers _ before ?_ ?_ <;> cases writer.file.crate <;> rfl
    | wrote | failed => cases stepped
  | clearing number =>
    cases choice with
    | go =>
      obtain rfl := Option.some.inj stepped
      refine .removes number _ ?_ (.inr ?_) rfl (by simp) <;> rw [before] <;> rfl
    | failed =>
      obtain rfl := Option.some.inj stepped
      exact .leaves _ (.inr (by rw [before]; rfl)) rfl (by simp)
    | wrote => cases stepped
  | opening number =>
    cases choice with
    | go =>
      obtain rfl := Option.some.inj stepped
      exact moved_of_create before
    | failed =>
      obtain rfl := Option.some.inj stepped
      refine .leaves _ ?_ ?_ ?_
      · rw [before]
        cases writer.file.crate
        · exact .inl rfl
        · exact .inr rfl
      · cases writer.file.crate <;> rfl
      · cases writer.file.crate <;> simp
    | wrote => cases stepped
  | writing number inode rest =>
    cases choice with
    | wrote count =>
      obtain rfl := Option.some.inj stepped
      exact .appends number inode rest count before
    | go =>
      cases rest with
      | nil =>
        obtain rfl := Option.some.inj stepped
        exact .finishes number inode before
      | cons byte rest => cases stepped
    | failed =>
      obtain rfl := Option.some.inj stepped
      exact .leaves _ (.inr (by rw [before]; rfl)) rfl (by simp)
  | syncing number inode =>
    cases choice with
    | go =>
      obtain rfl := Option.some.inj stepped
      exact .syncs number inode before
    | failed =>
      obtain rfl := Option.some.inj stepped
      exact .leaves _ (.inr (by rw [before]; rfl)) rfl (by simp)
    | wrote => cases stepped
  | replacing number inode =>
    cases choice with
    | go =>
      simp only [advance] at stepped
      split at stepped
      · next disk renamed =>
        obtain rfl := Option.some.inj stepped
        exact .replaces number inode disk before renamed
      · obtain rfl := Option.some.inj stepped
        exact .leaves _ (.inr (by rw [before]; rfl)) rfl (by simp)
    | failed =>
      obtain rfl := Option.some.inj stepped
      exact .leaves _ (.inr (by rw [before]; rfl)) rfl (by simp)
    | wrote => cases stepped
  | cleaning number =>
    cases choice with
    | go =>
      obtain rfl := Option.some.inj stepped
      exact .removes number _ (by rw [before]; rfl) (.inl rfl) rfl (by simp)
    | failed =>
      obtain rfl := Option.some.inj stepped
      exact .leaves _ (.inl rfl) rfl (by simp)
    | wrote => cases stepped
  | returned ok => cases choice <;> cases stepped
  | killed => cases choice <;> cases stepped

/-- What a writer has written of its bytes. -/
def Wrote (disk : Disk Name UInt8) (bytes : Bytes) : Phase → Prop
  | .writing _ inode rest => ∃ file, disk.inodes[inode]? = some file ∧ file.content ++ rest = bytes
  | .syncing _ inode => ∃ file, disk.inodes[inode]? = some file ∧ file.content = bytes
  | .replacing _ inode => disk.inodes[inode]? = some ⟨bytes, true⟩
  | _ => True

theorem Wrote.of_same {before after : Disk Name UInt8} {bytes : Bytes} {phase : Phase} {inode : ℕ}
    (wrote : Wrote before bytes phase) (opened : phase.inode = some inode)
    (same : after.inodes[inode]? = before.inodes[inode]?) : Wrote after bytes phase := by
  cases phase with
  | writing number own rest | syncing number own | replacing number own =>
    obtain rfl := Option.some.inj opened
    simp only [Wrote] at wrote ⊢
    rw [same]
    exact wrote
  | naming | clearing | opening | cleaning | returned | killed => trivial

/-- What a writer has open is its own: the name of its temporary file refers to it, and no file that readers
see does. -/
structure Holds (world : World) (writer : Writer) (number inode : ℕ) : Prop where
  named : world.disk.directory.lookup (writer.temp number) = some inode
  wrote : Wrote world.disk writer.bytes writer.phase
  hidden : ∀ file, ¬world.disk.Links (.file file) inode

/-- Files that readers see are whole, and what a writer has open is its own. -/
structure Sound (world : World) : Prop where
  known : ∀ name inode, world.disk.Links name inode → inode < world.disk.inodes.length
  whole : ∀ file inode, world.disk.Links (.file file) inode →
    ∃ writer ∈ world.writers, writer.file = file ∧ world.disk.inodes[inode]? = some ⟨writer.bytes, true⟩
  below : ∀ index : ℕ, ∀ writer : Writer, ∀ number : ℕ, world.writers[index]? = some writer →
    writer.phase.number = some number → number < world.counter writer.pid writer.file.crate
  apart : ∀ first second : ℕ, ∀ left right : Writer, ∀ number : ℕ, world.writers[first]? = some left →
    world.writers[second]? = some right → left.pid = right.pid → left.file.crate = right.file.crate →
      left.phase.number = some number → right.phase.number = some number → first = second
  held : ∀ index : ℕ, ∀ writer : Writer, ∀ number inode : ℕ, world.writers[index]? = some writer →
    writer.phase.number = some number → writer.phase.inode = some inode → world.Holds writer number inode
  alone : ∀ first second : ℕ, ∀ left right : Writer, ∀ inode : ℕ, world.writers[first]? = some left →
    world.writers[second]? = some right → left.phase.inode = some inode → right.phase.inode = some inode →
      first = second

/-- What a writer has open, by the phase it is in. -/
theorem Sound.held_in (sound : world.Sound) (found : world.writers[index]? = some writer)
    (before : writer.phase = phase) {number inode : ℕ} (has : phase.number = some number)
    (opened : phase.inode = some inode) :
    world.disk.directory.lookup (writer.temp number) = some inode ∧ Wrote world.disk writer.bytes phase ∧
      ∀ file, ¬world.disk.Links (.file file) inode := by
  subst before
  obtain ⟨named, wrote, hidden⟩ := sound.held index writer number inode found has opened
  exact ⟨named, wrote, hidden⟩

theorem not_links_empty {name : Name} {inode : ℕ} : ¬(Disk.empty : Disk Name UInt8).Links name inode := by
  rintro ⟨directory, member, found⟩
  obtain rfl := mem_singleton.mp member
  cases found

theorem start_writers {index : ℕ} {writer : Writer} : start.writers[index]? ≠ some writer := by
  simp [start]

theorem sound_start : start.Sound where
  known _ _ links := (not_links_empty links).elim
  whole _ _ links := (not_links_empty links).elim
  below _ _ _ found := (start_writers found).elim
  apart _ _ _ _ _ found := (start_writers found).elim
  held _ _ _ _ found := (start_writers found).elim
  alone _ _ _ _ _ found := (start_writers found).elim

/-- A step of a writer changes that writer only; it keeps its number and its file, gives them up, or gets new ones. -/
theorem Moved.shape (moved : Moved world index writer next) :
    ∃ phase : Phase, next.writers = world.writers.set index { writer with phase := phase } ∧
      (∀ pid crate, world.counter pid crate ≤ next.counter pid crate) ∧
      (phase.number = none ∨ phase.number = writer.phase.number ∨
        phase.number = some (world.counter writer.pid writer.file.crate) ∧
          world.counter writer.pid writer.file.crate < next.counter writer.pid writer.file.crate) ∧
      (phase.inode = none ∨ phase.inode = writer.phase.inode ∨ phase.inode = some world.disk.inodes.length) := by
  cases moved with
  | numbers phase before number closed =>
    refine ⟨phase, rfl, fun pid crate => ?_, .inr (.inr ⟨number, ?_⟩), .inl closed⟩
    · by_cases same : pid = writer.pid
      · subst same
        by_cases here : crate = writer.file.crate
        · subst here
          simp
        · simp [here]
      · simp [same]
    · simp
  | leaves phase number closed undone =>
    exact ⟨phase, rfl, fun _ _ => Nat.le_refl _, number.imp_right .inl, .inl closed⟩
  | removes number phase before after closed undone =>
    exact ⟨phase, rfl, fun _ _ => Nat.le_refl _, after.imp_right .inl, .inl closed⟩
  | creates number inode disk before created =>
    obtain ⟨-, new, -⟩ := Disk.createNew_eq_some created
    exact ⟨_, rfl, fun _ _ => Nat.le_refl _, .inr (.inl (by rw [before]; rfl)), .inr (.inr (congrArg some new))⟩
  | appends number inode rest count before =>
    exact ⟨_, rfl, fun _ _ => Nat.le_refl _, .inr (.inl (by rw [before]; rfl)), .inr (.inl (by rw [before]; rfl))⟩
  | finishes number inode before =>
    exact ⟨_, rfl, fun _ _ => Nat.le_refl _, .inr (.inl (by rw [before]; rfl)), .inr (.inl (by rw [before]; rfl))⟩
  | syncs number inode before =>
    exact ⟨_, rfl, fun _ _ => Nat.le_refl _, .inr (.inl (by rw [before]; rfl)), .inr (.inl (by rw [before]; rfl))⟩
  | replaces number inode disk before renamed =>
    exact ⟨_, rfl, fun _ _ => Nat.le_refl _, .inl rfl, .inl rfl⟩

/-- A step changes no file but the writer's. -/
theorem Moved.inodes (moved : Moved world index writer next) :
    world.disk.inodes.length ≤ next.disk.inodes.length ∧
      ∀ inode < world.disk.inodes.length, writer.phase.inode ≠ some inode →
        next.disk.inodes[inode]? = world.disk.inodes[inode]? := by
  cases moved with
  | numbers | leaves | finishes | removes => exact ⟨Nat.le_refl _, fun _ _ _ => rfl⟩
  | creates number inode disk before created =>
    obtain ⟨-, -, grown, -⟩ := Disk.createNew_eq_some created
    simp only [move]
    rw [grown]
    refine ⟨by simp, fun other inside _ => ?_⟩
    exact getElem?_append_left inside
  | appends number inode rest count before =>
    refine ⟨(length_modify ..).ge, fun other inside different => ?_⟩
    refine getElem?_modify_ne _ _ ?_
    rintro rfl
    exact different (by rw [before]; rfl)
  | syncs number inode before =>
    refine ⟨(length_modify ..).ge, fun other inside different => ?_⟩
    refine getElem?_modify_ne _ _ ?_
    rintro rfl
    exact different (by rw [before]; rfl)
  | replaces number inode disk before renamed =>
    obtain ⟨-, -, same, -⟩ := Disk.rename_eq_some renamed
    simp only [move]
    rw [same]
    exact ⟨Nat.le_refl _, fun _ _ _ => rfl⟩

/-- A step touches no temporary name but the writer's. -/
theorem Moved.lookup (moved : Moved world index writer next) {file : FileName} {pid number : ℕ}
    (other : ∀ own, writer.phase.number = some own → writer.temp own ≠ .temp file pid number) :
    next.disk.directory.lookup (.temp file pid number) = world.disk.directory.lookup (.temp file pid number) := by
  cases moved with
  | numbers | leaves | finishes | appends | syncs => rfl
  | removes own phase before =>
    exact AList.lookup_erase_ne (other own before).symm
  | creates own inode disk before created =>
    obtain ⟨-, -, -, directory, -⟩ := Disk.createNew_eq_some created
    have different := other own (by rw [before]; rfl)
    simp only [move]
    rw [directory, AList.lookup_insert_ne different.symm]
  | replaces own inode disk before renamed =>
    obtain ⟨_, -, -, directory, -⟩ := Disk.rename_eq_some renamed
    have different := other own (by rw [before]; rfl)
    simp only [move]
    rw [directory, AList.lookup_insert_ne (by simp), AList.lookup_erase_ne different.symm]

/-- What a step links: a new file under the writer's temporary name, or the writer's file in place. -/
theorem Moved.links (moved : Moved world index writer next) (found : world.writers[index]? = some writer)
    (sound : world.Sound) {name : Name} {inode : ℕ} (links : next.disk.Links name inode) :
    world.disk.Links name inode ∨ (∃ number, name = writer.temp number) ∧ inode = world.disk.inodes.length ∧
        inode < next.disk.inodes.length ∨
      name = .file writer.file ∧ writer.phase.inode = some inode ∧
        world.disk.inodes[inode]? = some ⟨writer.bytes, true⟩ ∧ next.disk.inodes = world.disk.inodes := by
  cases moved with
  | numbers | leaves | finishes | appends | syncs => exact .inl links
  | removes => exact .inl (Disk.links_remove links)
  | creates number new disk before created =>
    obtain ⟨-, rfl, grown, -, linked⟩ := Disk.createNew_eq_some created
    rcases linked name inode links with ⟨rfl, rfl⟩ | old
    · refine .inr (.inl ⟨⟨number, rfl⟩, rfl, ?_⟩)
      simp only [move]
      rw [grown]
      simp
    · exact .inl old
  | replaces number own disk before renamed =>
    obtain ⟨moved, looked, same, -, linked⟩ := Disk.rename_eq_some renamed
    obtain ⟨named, wrote, -⟩ := sound.held_in found before rfl rfl
    obtain rfl := Option.some.inj (looked.symm.trans named)
    rcases linked name inode links with ⟨rfl, rfl⟩ | old
    · exact .inr (.inr ⟨rfl, by rw [before]; rfl, wrote, same⟩)
    · exact .inl old

/-- A number in use after a step was in use before it, or is the next one of the counter. -/
theorem Moved.number_cases (moved : Moved world index writer next) (found : world.writers[index]? = some writer)
    {other number : ℕ} {left : Writer} (here : next.writers[other]? = some left)
    (has : left.phase.number = some number) :
    ∃ before, world.writers[other]? = some before ∧ before.pid = left.pid ∧ before.file = left.file ∧
      (before.phase.number = some number ∨
        other = index ∧ number = world.counter left.pid left.file.crate ∧
          number < next.counter left.pid left.file.crate) := by
  obtain ⟨phase, writers, -, numbers, -⟩ := moved.shape
  rw [writers] at here
  rcases getElem?_set_cases here with ⟨rfl, rfl⟩ | ⟨-, old⟩
  · refine ⟨writer, found, rfl, rfl, ?_⟩
    rcases numbers with closed | same | ⟨new, grown⟩
    · cases closed.symm.trans has
    · exact .inl (same.symm.trans has)
    · obtain rfl := Option.some.inj (new.symm.trans has)
      exact .inr ⟨rfl, rfl, grown⟩
  · exact ⟨left, old, rfl, rfl, .inl has⟩

/-- A file that a writer has after a step it had before, or it is the next one of the disk. -/
theorem Moved.inode_cases (moved : Moved world index writer next) (found : world.writers[index]? = some writer)
    {other inode : ℕ} {left : Writer} (here : next.writers[other]? = some left)
    (opened : left.phase.inode = some inode) :
    ∃ before, world.writers[other]? = some before ∧
      (before.phase.inode = some inode ∨ other = index ∧ inode = world.disk.inodes.length) := by
  obtain ⟨phase, writers, -, -, inodes⟩ := moved.shape
  rw [writers] at here
  rcases getElem?_set_cases here with ⟨rfl, rfl⟩ | ⟨-, old⟩
  · refine ⟨writer, found, ?_⟩
    rcases inodes with closed | same | new
    · cases closed.symm.trans opened
    · exact .inl (same.symm.trans opened)
    · exact .inr ⟨rfl, (Option.some.inj (new.symm.trans opened)).symm⟩
  · exact ⟨left, old, .inl opened⟩

/-- A writer's file and bytes stay. -/
theorem Moved.keeps (moved : Moved world index writer next) (found : world.writers[index]? = some writer)
    {left : Writer} (member : left ∈ world.writers) :
    ∃ after ∈ next.writers, after.file = left.file ∧ after.bytes = left.bytes := by
  obtain ⟨phase, writers, -⟩ := moved.shape
  obtain ⟨other, here⟩ := mem_iff_getElem?.mp member
  rw [writers]
  by_cases same : index = other
  · subst same
    obtain rfl := Option.some.inj (found.symm.trans here)
    exact ⟨_, mem_of_getElem? (getElem?_set_of_some found _), rfl, rfl⟩
  · refine ⟨left, mem_of_getElem? (i := other) ?_, rfl, rfl⟩
    rw [getElem?_set_ne same]
    exact here

theorem Sound.inode_lt (sound : world.Sound) (found : world.writers[index]? = some writer) {inode : ℕ}
    (opened : writer.phase.inode = some inode) : inode < world.disk.inodes.length := by
  obtain ⟨number, has⟩ := writer.phase.number_of_inode opened
  exact sound.known _ _ (Disk.links_now (sound.held index writer number inode found has opened).named)

/-- What readers see is not what a writer has open. -/
theorem Sound.not_open (sound : world.Sound) (found : world.writers[index]? = some writer) {file : FileName}
    {inode : ℕ} (links : world.disk.Links (.file file) inode) : writer.phase.inode ≠ some inode := by
  intro opened
  obtain ⟨number, has⟩ := writer.phase.number_of_inode opened
  exact (sound.held index writer number inode found has opened).hidden file links

theorem Sound.known_moved (sound : world.Sound) (found : world.writers[index]? = some writer)
    (moved : Moved world index writer next) {name : Name} {inode : ℕ} (links : next.disk.Links name inode) :
    inode < next.disk.inodes.length := by
  rcases moved.links found sound links with old | ⟨-, -, inside⟩ | ⟨-, -, here, same⟩
  · exact (sound.known name inode old).trans_le moved.inodes.1
  · exact inside
  · rw [same]
    exact (List.getElem?_eq_some_iff.mp here).1

theorem Sound.whole_moved (sound : world.Sound) (found : world.writers[index]? = some writer)
    (moved : Moved world index writer next) {file : FileName} {inode : ℕ}
    (links : next.disk.Links (.file file) inode) :
    ∃ after ∈ next.writers, after.file = file ∧ next.disk.inodes[inode]? = some ⟨after.bytes, true⟩ := by
  rcases moved.links found sound links with old | ⟨⟨number, named⟩, -⟩ | ⟨named, -, here, same⟩
  · obtain ⟨left, member, rfl, here⟩ := sound.whole file inode old
    obtain ⟨after, stays, files, bytes⟩ := moved.keeps found member
    refine ⟨after, stays, files, ?_⟩
    rw [moved.inodes.2 inode (sound.known _ _ old) (sound.not_open found old), here, bytes]
  · cases named
  · obtain ⟨after, stays, files, bytes⟩ := moved.keeps found (mem_of_getElem? found)
    cases named
    refine ⟨after, stays, files, ?_⟩
    rw [same, here, bytes]

theorem Sound.below_moved (sound : world.Sound) (found : world.writers[index]? = some writer)
    (moved : Moved world index writer next) {other number : ℕ} {left : Writer}
    (here : next.writers[other]? = some left) (has : left.phase.number = some number) :
    number < next.counter left.pid left.file.crate := by
  obtain ⟨before, old, pid, file, numbers⟩ := moved.number_cases found here has
  rcases numbers with same | ⟨-, -, inside⟩
  · obtain ⟨_, -, counters, -⟩ := moved.shape
    have bound := sound.below other before number old same
    rw [pid, file] at bound
    exact bound.trans_le (counters _ _)
  · exact inside

theorem Sound.apart_moved (sound : world.Sound) (found : world.writers[index]? = some writer)
    (moved : Moved world index writer next) {first second number : ℕ} {left right : Writer}
    (hereLeft : next.writers[first]? = some left) (hereRight : next.writers[second]? = some right)
    (pids : left.pid = right.pid) (crates : left.file.crate = right.file.crate)
    (hasLeft : left.phase.number = some number) (hasRight : right.phase.number = some number) :
    first = second := by
  obtain ⟨leftBefore, leftOld, leftPid, leftFile, lefts⟩ := moved.number_cases found hereLeft hasLeft
  obtain ⟨rightBefore, rightOld, rightPid, rightFile, rights⟩ := moved.number_cases found hereRight hasRight
  rcases lefts with leftSame | ⟨leftIndex, leftNew, -⟩
  · rcases rights with rightSame | ⟨-, rightNew, -⟩
    · refine sound.apart first second leftBefore rightBefore number leftOld rightOld ?_ ?_ leftSame rightSame
      · rw [leftPid, rightPid, pids]
      · rw [leftFile, rightFile, crates]
    · have bound := sound.below first leftBefore number leftOld leftSame
      rw [leftPid, leftFile, pids, crates, ← rightNew] at bound
      exact (Nat.lt_irrefl number bound).elim
  · rcases rights with rightSame | ⟨rightIndex, -⟩
    · have bound := sound.below second rightBefore number rightOld rightSame
      rw [rightPid, rightFile, ← pids, ← crates, ← leftNew] at bound
      exact (Nat.lt_irrefl number bound).elim
    · rw [leftIndex, rightIndex]

theorem Sound.alone_moved (sound : world.Sound) (found : world.writers[index]? = some writer)
    (moved : Moved world index writer next) {first second inode : ℕ} {left right : Writer}
    (hereLeft : next.writers[first]? = some left) (hereRight : next.writers[second]? = some right)
    (openLeft : left.phase.inode = some inode) (openRight : right.phase.inode = some inode) : first = second := by
  obtain ⟨leftBefore, leftOld, lefts⟩ := moved.inode_cases found hereLeft openLeft
  obtain ⟨rightBefore, rightOld, rights⟩ := moved.inode_cases found hereRight openRight
  rcases lefts with leftSame | ⟨leftIndex, leftNew⟩
  · rcases rights with rightSame | ⟨-, rightNew⟩
    · exact sound.alone first second leftBefore rightBefore inode leftOld rightOld leftSame rightSame
    · exact ((sound.inode_lt leftOld leftSame).ne rightNew).elim
  · rcases rights with rightSame | ⟨rightIndex, -⟩
    · exact ((sound.inode_lt rightOld rightSame).ne leftNew).elim
    · rw [leftIndex, rightIndex]

/-- What another writer has open is still its own after a step. -/
theorem Sound.holds_other (sound : world.Sound) (found : world.writers[index]? = some writer)
    (moved : Moved world index writer next) {other number inode : ℕ} {left : Writer} (different : other ≠ index)
    (here : world.writers[other]? = some left) (has : left.phase.number = some number)
    (opened : left.phase.inode = some inode) : next.Holds left number inode := by
  have holds := sound.held other left number inode here has opened
  have notOurs : writer.phase.inode ≠ some inode := fun ours =>
    different (sound.alone other index left writer inode here found opened ours)
  refine ⟨?_, ?_, fun file links => ?_⟩
  · refine (moved.lookup fun own used same => ?_).trans holds.named
    obtain ⟨files, pids, numbers⟩ := Name.temp.inj same
    refine different (sound.apart other index left writer number here found pids.symm ?_ has ?_)
    · rw [files]
    · rw [used, numbers]
  · refine holds.wrote.of_same opened ?_
    exact moved.inodes.2 inode (sound.inode_lt here opened) notOurs
  · rcases moved.links found sound links with old | ⟨⟨_, named⟩, -⟩ | ⟨-, ours, -⟩
    · exact holds.hidden file old
    · cases named
    · exact notOurs ours

/-- What the writer itself has open after a step is its own. -/
theorem Sound.holds_own (sound : world.Sound) (found : world.writers[index]? = some writer)
    (moved : Moved world index writer next) {number inode : ℕ} {after : Writer}
    (here : next.writers[index]? = some after) (has : after.phase.number = some number)
    (opened : after.phase.inode = some inode) : next.Holds after number inode := by
  cases moved with
  | numbers phase before counted closed =>
    obtain rfl := Option.some.inj ((getElem?_set_of_some found _).symm.trans here)
    cases closed.symm.trans opened
  | leaves phase counted closed undone =>
    obtain rfl := Option.some.inj ((getElem?_set_of_some found _).symm.trans here)
    cases closed.symm.trans opened
  | removes own phase before counted closed undone =>
    obtain rfl := Option.some.inj ((getElem?_set_of_some found _).symm.trans here)
    cases closed.symm.trans opened
  | creates own new disk before created =>
    obtain rfl := Option.some.inj ((getElem?_set_of_some found _).symm.trans here)
    cases has
    cases opened
    obtain ⟨-, rfl, grown, directory, linked⟩ := Disk.createNew_eq_some created
    refine ⟨?_, ⟨⟨[], false⟩, ?_, nil_append _⟩, fun file links => ?_⟩
    · simp only [move]
      rw [directory]
      exact AList.lookup_insert _
    · simp only [move]
      rw [grown]
      exact getElem?_concat_length
    · rcases linked _ _ links with ⟨named, -⟩ | old
      · cases named
      · exact Nat.lt_irrefl _ (sound.known _ _ old)
  | appends own held rest count before =>
    obtain rfl := Option.some.inj ((getElem?_set_of_some found _).symm.trans here)
    cases has
    cases opened
    obtain ⟨named, ⟨file, there, bytes⟩, hidden⟩ := sound.held_in found before rfl rfl
    refine ⟨named, ⟨⟨file.content ++ rest.take count, false⟩, ?_, ?_⟩, hidden⟩
    · simp [move, Disk.append, there]
    · rw [append_assoc, take_append_drop]
      exact bytes
  | finishes own held before =>
    obtain rfl := Option.some.inj ((getElem?_set_of_some found _).symm.trans here)
    cases has
    cases opened
    obtain ⟨named, ⟨file, there, bytes⟩, hidden⟩ := sound.held_in found before rfl rfl
    exact ⟨named, ⟨file, there, (append_nil _).symm.trans bytes⟩, hidden⟩
  | syncs own held before =>
    obtain rfl := Option.some.inj ((getElem?_set_of_some found _).symm.trans here)
    cases has
    cases opened
    obtain ⟨named, ⟨file, there, bytes⟩, hidden⟩ := sound.held_in found before rfl rfl
    refine ⟨named, ?_, hidden⟩
    simp [move, Wrote, Disk.sync, there, bytes]
  | replaces own held disk before renamed =>
    obtain rfl := Option.some.inj ((getElem?_set_of_some found _).symm.trans here)
    cases opened

theorem Sound.moved (sound : world.Sound) (found : world.writers[index]? = some writer)
    (moved : Moved world index writer next) : next.Sound where
  known _ _ := sound.known_moved found moved
  whole _ _ := sound.whole_moved found moved
  below _ _ _ := sound.below_moved found moved
  apart _ _ _ _ _ := sound.apart_moved found moved
  alone _ _ _ _ _ := sound.alone_moved found moved
  held other left number inode here has opened := by
    by_cases same : other = index
    · subst same
      exact sound.holds_own found moved here has opened
    · obtain ⟨phase, writers, -⟩ := moved.shape
      rw [writers, getElem?_set_ne (Ne.symm same)] at here
      exact sound.holds_other found moved same here has opened

/-- An event that leaves the disk, starts writers and ends writers, keeps files whole. -/
theorem Sound.keeps (sound : world.Sound) (disk : next.disk = world.disk)
    (before : ∀ other : ℕ, ∀ left : Writer, ∀ number : ℕ, next.writers[other]? = some left →
      left.phase.number = some number → world.writers[other]? = some left ∧ next.counter left.pid = world.counter left.pid)
    (stays : ∀ left ∈ world.writers, ∃ after ∈ next.writers, after.file = left.file ∧ after.bytes = left.bytes) :
    next.Sound where
  known name inode links := by
    rw [disk] at links ⊢
    exact sound.known name inode links
  whole file inode links := by
    rw [disk] at links ⊢
    obtain ⟨left, member, rfl, here⟩ := sound.whole file inode links
    obtain ⟨after, there, files, bytes⟩ := stays left member
    exact ⟨after, there, files, by rw [here, bytes]⟩
  below other left number here has := by
    obtain ⟨old, counters⟩ := before other left number here has
    rw [counters]
    exact sound.below other left number old has
  apart first second left right number hereLeft hereRight pids crates hasLeft hasRight :=
    sound.apart first second left right number (before _ _ _ hereLeft hasLeft).1 (before _ _ _ hereRight hasRight).1
      pids crates hasLeft hasRight
  held other left number inode here has opened := by
    have holds := sound.held other left number inode (before _ _ _ here has).1 has opened
    refine ⟨?_, ?_, ?_⟩
    · rw [disk]
      exact holds.named
    · rw [disk]
      exact holds.wrote
    · rw [disk]
      exact holds.hidden
  alone first second left right inode hereLeft hereRight openLeft openRight := by
    obtain ⟨_, hasLeft⟩ := left.phase.number_of_inode openLeft
    obtain ⟨_, hasRight⟩ := right.phase.number_of_inode openRight
    exact sound.alone first second left right inode (before _ _ _ hereLeft hasLeft).1 (before _ _ _ hereRight hasRight).1
      openLeft openRight

theorem sound_write (sound : world.Sound) (pid : ℕ) (file : FileName) (bytes : Bytes) :
    Sound { world with writers := world.writers ++ [⟨pid, file, bytes, .naming⟩] } := by
  refine sound.keeps rfl (fun other left number here has => ?_) fun left member => ?_
  · rcases getElem?_concat_cases here with ⟨-, rfl⟩ | old
    · cases has
    · exact ⟨old, rfl⟩
  · exact ⟨left, mem_append_left _ member, rfl, rfl⟩

theorem sound_kill (sound : world.Sound) (pid : ℕ) :
    Sound { world with
      counter := Function.update world.counter pid fun _ => 0
      writers := world.writers.map fun writer => if writer.pid = pid then writer.kill else writer } := by
  refine sound.keeps rfl (fun other left number here has => ?_) fun left member => ?_
  · rw [getElem?_map] at here
    obtain ⟨before, old, rfl⟩ := Option.map_eq_some_iff.mp here
    by_cases same : before.pid = pid
    · rw [if_pos same] at has
      cases before.phase.kill_number.symm.trans has
    · rw [if_neg same]
      exact ⟨old, Function.update_of_ne same _ _⟩
  · refine ⟨_, mem_map_of_mem member, ?_⟩
    split
    · exact ⟨rfl, rfl⟩
    · exact ⟨rfl, rfl⟩

/-- A power loss ends every writer, and spares what was synced. -/
theorem sound_lose (sound : world.Sound) (back : ℕ) (contents : ℕ → Bytes) :
    Sound ⟨world.disk.lose back contents, fun _ _ => 0, world.writers.map Writer.kill⟩ := by
  have ended : ∀ other : ℕ, ∀ left : Writer, (world.writers.map Writer.kill)[other]? = some left →
      left.phase.number = none ∧ left.phase.inode = none := by
    intro other left here
    rw [getElem?_map] at here
    obtain ⟨before, -, rfl⟩ := Option.map_eq_some_iff.mp here
    exact ⟨before.phase.kill_number, before.phase.kill_inode⟩
  refine ⟨fun name inode links => ?_, fun file inode links => ?_, fun other left number here has => ?_,
    fun first second left right number here _ _ _ has => ?_, fun other left number inode here has => ?_,
    fun first second left right inode here _ opened => ?_⟩
  · exact (sound.known name inode (Disk.links_lose links)).trans_eq length_mapIdx.symm
  · obtain ⟨left, member, rfl, here⟩ := sound.whole file inode (Disk.links_lose links)
    exact ⟨left.kill, mem_map_of_mem member, rfl, Disk.lose_synced here⟩
  · cases (ended other left here).1.symm.trans has
  · cases (ended first left here).1.symm.trans has
  · cases (ended other left here).1.symm.trans has
  · cases (ended first left here).2.symm.trans opened

/-- A step leaves the directory, or makes a new one. -/
theorem Moved.directories (moved : Moved world index writer next) :
    next.disk.directories = world.disk.directories ∨
      next.disk.directories = next.disk.directory :: world.disk.directories := by
  cases moved with
  | numbers | leaves | finishes | appends | syncs => exact .inl rfl
  | removes => exact .inr rfl
  | creates number inode disk before created => exact .inr (Disk.directories_createNew created)
  | replaces number inode disk before renamed => exact .inr (Disk.directories_rename renamed)

/-- A step puts the writer's file into place as the writer returns, or leaves the files in place. -/
theorem Moved.places (moved : Moved world index writer next) (found : world.writers[index]? = some writer) :
    (∀ file, next.disk.directory.lookup (.file file) = world.disk.directory.lookup (.file file)) ∧
        (∀ after : Writer, next.writers[index]? = some after → after.phase ≠ .returned true) ∨
      ∃ number inode, writer.phase = .replacing number inode ∧
        world.disk.rename (writer.temp number) (.file writer.file) = some next.disk ∧
        next.writers[index]? = some { writer with phase := .returned true } := by
  have sets := fun phase : Phase => getElem?_set_of_some found { writer with phase := phase }
  cases moved with
  | numbers phase before number closed =>
    refine .inl ⟨fun _ => rfl, fun after here done => ?_⟩
    obtain rfl := Option.some.inj ((sets phase).symm.trans here)
    obtain rfl : phase = .returned true := done
    cases number
  | leaves phase number closed undone =>
    refine .inl ⟨fun _ => rfl, fun after here => ?_⟩
    obtain rfl := Option.some.inj ((sets phase).symm.trans here)
    exact undone
  | removes number phase before after closed undone =>
    refine .inl ⟨fun file => AList.lookup_erase_ne (by simp [Writer.temp]), fun after here => ?_⟩
    obtain rfl := Option.some.inj ((sets phase).symm.trans here)
    exact undone
  | creates number inode disk before created =>
    obtain ⟨-, -, -, directory, -⟩ := Disk.createNew_eq_some created
    refine .inl ⟨fun file => ?_, fun after here => ?_⟩
    · simp only [move]
      rw [directory]
      exact AList.lookup_insert_ne (by simp [Writer.temp])
    · obtain rfl := Option.some.inj ((sets _).symm.trans here)
      simp
  | appends number inode rest count before =>
    refine .inl ⟨fun _ => rfl, fun after here => ?_⟩
    obtain rfl := Option.some.inj ((sets _).symm.trans here)
    simp
  | finishes number inode before =>
    refine .inl ⟨fun _ => rfl, fun after here => ?_⟩
    obtain rfl := Option.some.inj ((sets _).symm.trans here)
    simp
  | syncs number inode before =>
    refine .inl ⟨fun _ => rfl, fun after here => ?_⟩
    obtain rfl := Option.some.inj ((sets _).symm.trans here)
    simp
  | replaces number inode disk before renamed =>
    exact .inr ⟨number, inode, before, renamed, sets _⟩

theorem sound_step {event : Event} (sound : world.Sound) (stepped : world.step event = some next) : next.Sound := by
  cases event with
  | write pid file bytes =>
    obtain rfl := Option.some.inj stepped
    exact sound_write sound pid file bytes
  | step index choice =>
    obtain ⟨writer, found, advanced⟩ := Option.bind_eq_some_iff.mp stepped
    exact sound.moved found (moved_of_advance advanced)
  | kill pid =>
    obtain rfl := Option.some.inj stepped
    exact sound_kill sound pid
  | lose back contents =>
    obtain rfl := Option.some.inj stepped
    exact sound_lose sound back contents

end World

end Tollgate.Files

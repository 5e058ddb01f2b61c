import Mathlib.Data.List.AList
import Tollgate.ToMathlib.Retain

/-! # A disk with one directory

Names refer to files, and a file that is open stays the same whatever happens to its name. Bytes are safe
once the file was synced; a change of the directory takes effect at once, but a power loss may bring back the
directory of any earlier moment since the last one, and leaves any bytes in files that were not synced.
`Links` is what a name refers to, now or after a power loss.
-/

namespace Tollgate.Machine

/-- A file: its bytes, and whether they are safe. -/
structure Inode (β : Type*) where
  content : List β
  synced : Bool
deriving DecidableEq, Repr

/-- The files there were, the directory, and the directories it was before. -/
structure Disk (ν β : Type*) where
  inodes : List (Inode β)
  directory : AList fun _ : ν => ℕ
  earlier : List (AList fun _ : ν => ℕ)

namespace Disk

variable {ν β : Type*}

def empty : Disk ν β := ⟨[], ∅, []⟩

/-- The directories that may be there after a power loss. -/
def directories (disk : Disk ν β) : List (AList fun _ : ν => ℕ) := disk.directory :: disk.earlier

variable [DecidableEq ν]

/-- What a name refers to, now or after a power loss. -/
def Links (disk : Disk ν β) (name : ν) (inode : ℕ) : Prop :=
  ∃ directory ∈ disk.directories, directory.lookup name = some inode

/-- The bytes under a name. -/
def read (disk : Disk ν β) (name : ν) : Option (List β) :=
  (disk.directory.lookup name).bind fun inode => disk.inodes[inode]?.map Inode.content

/-- Changes the directory. -/
def change (disk : Disk ν β) (directory : AList fun _ : ν => ℕ) : Disk ν β :=
  { disk with directory := directory, earlier := disk.directories }

/-- Creates an empty file under a name that is free. -/
def createNew (disk : Disk ν β) (name : ν) : Option (Disk ν β × ℕ) :=
  match disk.directory.lookup name with
  | some _ => none
  | none =>
      let grown : Disk ν β := { disk with inodes := disk.inodes ++ [⟨[], false⟩] }
      some (grown.change (disk.directory.insert name disk.inodes.length), disk.inodes.length)

def remove (disk : Disk ν β) (name : ν) : Disk ν β := disk.change (disk.directory.erase name)

def append (disk : Disk ν β) (inode : ℕ) (bytes : List β) : Disk ν β :=
  { disk with inodes := disk.inodes.modify inode fun file => ⟨file.content ++ bytes, false⟩ }

def sync (disk : Disk ν β) (inode : ℕ) : Disk ν β :=
  { disk with inodes := disk.inodes.modify inode fun file => { file with synced := true } }

/-- Renames a file, over what the new name referred to. -/
def rename (disk : Disk ν β) (old new : ν) : Option (Disk ν β) :=
  (disk.directory.lookup old).map fun inode => disk.change ((disk.directory.erase old).insert new inode)

/-- The power is lost: an earlier directory may be back, and files that were not synced hold anything. -/
def lose (disk : Disk ν β) (back : ℕ) (contents : ℕ → List β) : Disk ν β where
  inodes := disk.inodes.mapIdx fun inode file => if file.synced then file else ⟨contents inode, false⟩
  directory := disk.directories[back]?.getD disk.directory
  earlier := []

variable {disk next : Disk ν β} {name other : ν} {inode file : ℕ}

theorem links_now (found : disk.directory.lookup name = some inode) : disk.Links name inode :=
  ⟨disk.directory, List.mem_cons_self, found⟩

theorem links_change {directory : AList fun _ : ν => ℕ} (links : (disk.change directory).Links name inode) :
    directory.lookup name = some inode ∨ disk.Links name inode := by
  obtain ⟨state, member, found⟩ := links
  rcases List.mem_cons.mp member with rfl | old
  · exact .inl found
  · exact .inr ⟨state, old, found⟩

theorem createNew_eq_some (created : disk.createNew name = some (next, inode)) :
    disk.directory.lookup name = none ∧ inode = disk.inodes.length ∧
      next.inodes = disk.inodes ++ [⟨[], false⟩] ∧ next.directory = disk.directory.insert name inode ∧
      ∀ other file, next.Links other file → (other = name ∧ file = inode) ∨ disk.Links other file := by
  unfold createNew at created
  split at created
  · cases created
  · next free =>
    cases created
    refine ⟨free, rfl, rfl, rfl, fun other file links => ?_⟩
    rcases links_change links with here | old
    · rw [AList.lookup_insert_eq_ite] at here
      split at here
      · next same => exact .inl ⟨same, (Option.some.inj here).symm⟩
      · exact .inr (links_now here)
    · exact .inr old

theorem directories_createNew (created : disk.createNew name = some (next, inode)) :
    next.directories = next.directory :: disk.directories := by
  unfold createNew at created
  split at created
  · cases created
  · cases created
    rfl

theorem links_remove (links : (disk.remove name).Links other file) : disk.Links other file := by
  rcases links_change links with here | old
  · rw [AList.lookup_erase_eq_ite] at here
    split at here
    · cases here
    · exact links_now here
  · exact old

theorem rename_eq_some {old new : ν} (renamed : disk.rename old new = some next) :
    ∃ inode, disk.directory.lookup old = some inode ∧ next.inodes = disk.inodes ∧
      next.directory = (disk.directory.erase old).insert new inode ∧
      ∀ other file, next.Links other file → (other = new ∧ file = inode) ∨ disk.Links other file := by
  obtain ⟨inode, found, rfl⟩ := Option.map_eq_some_iff.mp renamed
  refine ⟨inode, found, rfl, rfl, fun other file links => ?_⟩
  rcases links_change links with here | old
  · rw [AList.lookup_insert_eq_ite] at here
    split at here
    · next same => exact .inl ⟨same, (Option.some.inj here).symm⟩
    · rw [AList.lookup_erase_eq_ite] at here
      split at here
      · cases here
      · exact .inr (links_now here)
  · exact .inr old

theorem directories_rename {old new : ν} (renamed : disk.rename old new = some next) :
    next.directories = next.directory :: disk.directories := by
  obtain ⟨inode, -, rfl⟩ := Option.map_eq_some_iff.mp renamed
  rfl

omit [DecidableEq ν] in
theorem directory_lose_mem (back : ℕ) (contents : ℕ → List β) :
    (disk.lose back contents).directory ∈ disk.directories := by
  cases here : disk.directories[back]? with
  | none =>
    simp only [lose, here, Option.getD_none]
    exact List.mem_cons_self
  | some directory =>
    simp only [lose, here, Option.getD_some]
    exact List.mem_of_getElem? here

theorem links_lose {back : ℕ} {contents : ℕ → List β} (links : (disk.lose back contents).Links name inode) :
    disk.Links name inode := by
  obtain ⟨state, member, found⟩ := links
  obtain rfl := List.mem_singleton.mp member
  exact ⟨_, directory_lose_mem back contents, found⟩

omit [DecidableEq ν] in
/-- Bytes that are safe survive a power loss. -/
theorem lose_synced {back : ℕ} {contents : ℕ → List β} {bytes : List β}
    (safe : disk.inodes[inode]? = some ⟨bytes, true⟩) :
    (disk.lose back contents).inodes[inode]? = some ⟨bytes, true⟩ := by
  simp [lose, safe]

end Disk

end Tollgate.Machine

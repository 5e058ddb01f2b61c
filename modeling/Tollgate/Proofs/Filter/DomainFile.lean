import Tollgate.Model.Filter.DomainSet
import Tollgate.Proofs.Filter.PatternLookup
import Tollgate.Proofs.Filter.StoredNames
import Mathlib.Tactic.IntervalCases

/-! # Reading back a written blocklist file

`encode` writes the sections behind a header, and `new` accepts what it wrote: every count and
length is read back from its place, the checksum is the one of the body, the hashes are sorted and
each pattern line parses to the pattern it was written from.
-/

namespace Tollgate

open Endian

namespace DomainSet

/-- The sections of a file. -/
structure Contents where
  block : List ℕ
  allow : List ℕ
  important : List ℕ
  allowPatterns : Bytes
  blockPatterns : Bytes

/-- All hashes of a file, as written. -/
def Contents.hashBytes (contents : Contents) : Bytes :=
  (contents.block ++ contents.allow ++ contents.important).flatMap (leBytes 8)

/-- The fields of a file, in order. -/
def Contents.parts (contents : Contents) (sum : ℕ) : List Bytes :=
  [magic, leBytes 4 version, leBytes 4 contents.block.length, leBytes 4 contents.allow.length,
    leBytes 4 contents.important.length, leBytes 4 contents.allowPatterns.length, leBytes 8 sum,
    leBytes 4 contents.blockPatterns.length, leBytes 4 0, contents.hashBytes, contents.allowPatterns,
    contents.blockPatterns]

def Contents.body (contents : Contents) : Bytes :=
  contents.hashBytes ++ contents.allowPatterns ++ contents.blockPatterns

/-- The file with the checksum of its body. -/
def Contents.file (contents : Contents) : Bytes := (contents.parts (checksum contents.body).toNat).flatten

/-- What the written form of the file can hold. -/
structure Contents.Fits (contents : Contents) : Prop where
  block : contents.block.length < 2 ^ 32
  allow : contents.allow.length < 2 ^ 32
  important : contents.important.length < 2 ^ 32
  allowPatterns : contents.allowPatterns.length < 2 ^ 32
  blockPatterns : contents.blockPatterns.length < 2 ^ 32

variable {contents : Contents}

private theorem parts_front (sum : ℕ) (i : ℕ) (bound : i ≤ 9) :
    ((contents.parts sum).take i).flatten.length = if i ≤ 6 then 4 * i else 4 * i + 4 := by
  interval_cases i <;> simp [Contents.parts]

theorem Contents.drop_header (contents : Contents) (sum : ℕ) :
    (contents.parts sum).flatten.drop headerLen = contents.body := by
  have front : ((contents.parts sum).take 9).flatten.length = headerLen := parts_front sum 9 le_rfl
  conv_lhs => rw [← List.take_append_drop 9 (contents.parts sum), List.flatten_append]
  rw [List.drop_left' front]
  simp [parts, body]

/-- Overwriting the checksum field. -/
theorem Contents.seal (contents : Contents) (sum : ℕ) :
    (contents.parts 0).flatten.take 24 ++ leBytes 8 sum ++ (contents.parts 0).flatten.drop 32 =
      (contents.parts sum).flatten := by
  have front : ((contents.parts 0).take 6).flatten.length = 24 := parts_front 0 6 (by omega)
  have field : ((contents.parts 0).take 7).flatten.length = 32 := parts_front 0 7 (by omega)
  have kept : (contents.parts 0).flatten.take 24 = ((contents.parts 0).take 6).flatten := by
    conv_lhs => rw [← List.take_append_drop 6 (contents.parts 0), List.flatten_append]
    exact List.take_left' front
  have rest : (contents.parts 0).flatten.drop 32 = ((contents.parts 0).drop 7).flatten := by
    conv_lhs => rw [← List.take_append_drop 7 (contents.parts 0), List.flatten_append]
    exact List.drop_left' field
  rw [kept, rest]
  simp [parts]

end DomainSet

/-- The sections that `encode` writes. -/
def DomainRules.contents (rules : DomainRules) : DomainSet.Contents where
  block := sortedHashes rules.block rules.exactBlock
  allow := sortedHashes rules.allow rules.exactAllow
  important := sortedHashes rules.important []
  allowPatterns := (patternSection rules.wildcardAllow rules.exactWildcardAllow).asBytes
  blockPatterns := (patternSection rules.wildcardBlock rules.exactWildcardBlock).asBytes

theorem DomainRules.encode_eq (rules : DomainRules) (fits : rules.contents.Fits) :
    rules.encode = some rules.contents.file := by
  have unsealed : rules.encodeUnsealed = some (rules.contents.parts 0).flatten := by
    have block : expectU32 (sortedHashes rules.block rules.exactBlock).length = some _ := if_pos fits.block
    have allow : expectU32 (sortedHashes rules.allow rules.exactAllow).length = some _ := if_pos fits.allow
    have important : expectU32 (sortedHashes rules.important []).length = some _ := if_pos fits.important
    have allowLength : expectU32 (patternSection rules.wildcardAllow rules.exactWildcardAllow).asBytes.length = some _ :=
      if_pos fits.allowPatterns
    have blockLength : expectU32 (patternSection rules.wildcardBlock rules.exactWildcardBlock).asBytes.length = some _ :=
      if_pos fits.blockPatterns
    simp only [encodeUnsealed, List.mapM_cons, List.mapM_nil, block, allow, important, allowLength, blockLength,
      Option.pure_def, Option.bind_eq_bind, Option.bind_some]
    rfl
  rw [encode, unsealed]
  simp only [Option.bind_eq_bind, Option.bind_some, DomainSet.Contents.drop_header,
    DomainSet.Contents.seal]
  rfl

/-- A file is written only if its counts fit. -/
theorem DomainRules.fits_of_encode {rules : DomainRules} {bytes : Bytes} (written : rules.encode = some bytes) :
    rules.contents.Fits := by
  simp only [encode, encodeUnsealed, List.mapM_cons, List.mapM_nil, Option.pure_def, Option.bind_eq_bind,
    Option.bind_eq_some_iff, expectU32_eq_some_iff] at written
  obtain ⟨_, ⟨_, ⟨_, ⟨block, _⟩, _, ⟨_, ⟨allow, _⟩, _, ⟨_, ⟨important, _⟩, _⟩, _⟩, _⟩, _, ⟨allowLength, _⟩, _,
    ⟨blockLength, _⟩, _⟩, _⟩ := written
  exact ⟨block, allow, important, allowLength, blockLength⟩

namespace DomainSet

variable {contents : Contents}

/-- A field of the file, read at its offset. -/
private theorem slice_field {i first last : ℕ} {part : Bytes} (sum : ℕ)
    (at_ : (contents.parts sum)[i]? = some part) (bound : i ≤ 9)
    (offset : (if i ≤ 6 then 4 * i else 4 * i + 4) = first) (stop : first + part.length = last) :
    slice (contents.parts sum).flatten first last = some part :=
  slice_flatten at_ ((parts_front sum i bound).trans offset) stop

private theorem readU32_field {i first n : ℕ} (sum : ℕ) (at_ : (contents.parts sum)[i]? = some (leBytes 4 n))
    (bound : i ≤ 9) (offset : (if i ≤ 6 then 4 * i else 4 * i + 4) = first) (fits : n < 2 ^ 32) :
    readU32 (contents.parts sum).flatten first = some n := by
  rw [readU32, slice_field sum at_ bound offset (by rw [length_leBytes]), Option.map_some,
    ofLe_leBytes_of_lt (by simpa using fits)]

@[simp] theorem Contents.hashBytes_length (contents : Contents) :
    contents.hashBytes.length = 8 * (contents.block.length + contents.allow.length + contents.important.length) := by
  simp [hashBytes, List.length_flatMap]
  omega

/-- The set that a file with these sections holds. -/
def Contents.loaded (contents : Contents) (wildcardAllow wildcardBlock : PatternSet) : DomainSet where
  data := contents.file
  hashesAt := headerLen
  block := (0, contents.block.length)
  allow := (contents.block.length, contents.block.length + contents.allow.length)
  important := (contents.block.length + contents.allow.length,
    contents.block.length + contents.allow.length + contents.important.length)
  wildcardAllow := wildcardAllow
  wildcardBlock := wildcardBlock

private theorem asChunks_flatMap (hashes : List ℕ) :
    asChunks (hashes.flatMap (leBytes 8)) = hashes.map (leBytes 8) := by
  induction hashes with
  | nil => rfl
  | cons hash rest ih =>
    have split : leBytes 8 hash ++ rest.flatMap (leBytes 8) = (hash :: rest).flatMap (leBytes 8) := rfl
    rw [← split, List.map_cons, ← ih]
    simp [leBytes, asChunks]

theorem increasing_iff (hashes : List ℕ) : increasing hashes = true ↔ hashes.Pairwise (· < ·) := by
  rw [← List.isChain_iff_pairwise]
  induction hashes with
  | nil => simp [increasing]
  | cons first rest ih =>
    cases rest with
    | nil => simp [increasing]
    | cons second rest => simp [increasing, ih]

/-- Hashes as a section holds them. -/
structure Sorted (hashes : List ℕ) : Prop where
  increasing : hashes.Pairwise (· < ·)
  small : ∀ hash ∈ hashes, hash < 2 ^ 64

theorem read_hashes {hashes : List ℕ} (small : ∀ hash ∈ hashes, hash < 2 ^ 64) :
    (hashes.map (leBytes 8)).map ofLe = hashes := by
  rw [List.map_map]
  conv_rhs => rw [← List.map_id hashes]
  apply List.map_congr_left
  intro hash member
  exact ofLe_leBytes_of_lt (by simpa using small hash member)

theorem Contents.file_length (contents : Contents) : contents.file.length = headerLen +
    8 * (contents.block.length + contents.allow.length + contents.important.length) +
    contents.allowPatterns.length + contents.blockPatterns.length := by
  have split := List.take_append_drop 9 (contents.parts (checksum contents.body).toNat)
  have front : ((contents.parts (checksum contents.body).toNat).take 9).flatten.length = headerLen :=
    parts_front _ 9 le_rfl
  rw [file, ← split, List.flatten_append, List.length_append, front]
  simp [parts, Nat.add_assoc]

private theorem readHeader_file (fits : contents.Fits) :
    readHeader contents.file version = some (.ok (headerLen, contents.blockPatterns.length)) := by
  have padding : readU32 contents.file 36 = some 0 :=
    readU32_field (i := 8) _ rfl (by omega) rfl (by omega)
  have blockLength : readU32 contents.file 32 = some contents.blockPatterns.length :=
    readU32_field (i := 7) _ rfl (by omega) rfl fits.blockPatterns
  have length := contents.file_length
  rw [readHeader, if_neg (by decide), if_neg (by omega), padding, blockLength]
  rfl

section Width

variable [Width]

theorem hashes_eq {set : DomainSet} (small : set.hashesAt + 8 * set.important.2 < 2 ^ 64) :
    set.hashes = (slice set.data set.hashesAt (set.hashesAt + 8 * set.important.2)).map asChunks := by
  rw [hashes, Width.mul_of_lt (by omega), Option.bind_eq_bind, Option.bind_some, Width.add_of_lt small,
    Option.bind_some]

theorem hashes_loaded (fits : contents.Fits) (wildcardAllow wildcardBlock : PatternSet) :
    (contents.loaded wildcardAllow wildcardBlock).hashes =
      some ((contents.block ++ contents.allow ++ contents.important).map (leBytes 8)) := by
  have read : slice contents.file headerLen (headerLen + contents.hashBytes.length) = some contents.hashBytes :=
    slice_field (i := 9) _ rfl le_rfl rfl rfl
  obtain ⟨block, allow, important, -, -⟩ := fits
  rw [Contents.hashBytes_length] at read
  rw [hashes_eq (by simp only [Contents.loaded, headerLen]; omega), Contents.loaded]
  dsimp only
  rw [read, Option.map_some, Contents.hashBytes, asChunks_flatMap]

/-- The hashes of a set, and where each section of them stands. -/
structure Sections (set : DomainSet) (contents : Contents) : Prop where
  hashes : set.hashes = some ((contents.block ++ contents.allow ++ contents.important).map (leBytes 8))
  block : set.block = (0, contents.block.length)
  allow : set.allow = (contents.block.length, contents.block.length + contents.allow.length)
  important : set.important = (contents.block.length + contents.allow.length,
    contents.block.length + contents.allow.length + contents.important.length)

namespace Sections

variable {set : DomainSet}

theorem read_block (sections : Sections set contents) :
    set.sectionHashes set.block = some (contents.block.map (leBytes 8)) := by
  rw [sectionHashes, sections.hashes, sections.block, List.map_append, List.map_append, List.append_assoc]
  have read := slice_append [] (contents.block.map (leBytes 8))
    (contents.allow.map (leBytes 8) ++ contents.important.map (leBytes 8))
  simpa using read

theorem read_allow (sections : Sections set contents) :
    set.sectionHashes set.allow = some (contents.allow.map (leBytes 8)) := by
  rw [sectionHashes, sections.hashes, sections.allow, List.map_append, List.map_append]
  have read := slice_append (contents.block.map (leBytes 8)) (contents.allow.map (leBytes 8))
    (contents.important.map (leBytes 8))
  simpa using read

theorem read_important (sections : Sections set contents) :
    set.sectionHashes set.important = some (contents.important.map (leBytes 8)) := by
  rw [sectionHashes, sections.hashes, sections.important, List.map_append, List.map_append]
  have read := slice_append (contents.block.map (leBytes 8) ++ contents.allow.map (leBytes 8))
    (contents.important.map (leBytes 8)) []
  simpa using read

end Sections

variable {wildcardAllow wildcardBlock : PatternSet}

theorem sections_loaded (fits : contents.Fits) : Sections (contents.loaded wildcardAllow wildcardBlock) contents :=
  ⟨hashes_loaded fits .., rfl, rfl, rfl⟩

/-- The check of a set whose sections are known. -/
theorem Sections.checkSorted_eq {set : DomainSet} (sections : Sections set contents)
    (block : ∀ hash ∈ contents.block, hash < 2 ^ 64) (allow : ∀ hash ∈ contents.allow, hash < 2 ^ 64)
    (important : ∀ hash ∈ contents.important, hash < 2 ^ 64) :
    checkSorted set = some (if increasing contents.block && (increasing contents.allow && increasing contents.important)
      then .ok set else .error .unsorted) := by
  simp only [checkSorted, List.allM_cons, List.allM_nil, sections.read_block, sections.read_allow,
    sections.read_important, Option.map_some, read_hashes block, read_hashes allow, read_hashes important]
  cases increasing contents.block <;> cases increasing contents.allow <;>
    cases increasing contents.important <;> rfl

private theorem checkSorted_loaded (fits : contents.Fits) (block : Sorted contents.block) (allow : Sorted contents.allow)
    (important : Sorted contents.important) :
    checkSorted (contents.loaded wildcardAllow wildcardBlock) =
      some (.ok (contents.loaded wildcardAllow wildcardBlock)) := by
  rw [(sections_loaded fits).checkSorted_eq block.small allow.small important.small,
    (increasing_iff _).mpr block.increasing, (increasing_iff _).mpr allow.increasing,
    (increasing_iff _).mpr important.increasing]
  rfl

/-- The loader behind a header whose numbers were read. -/
theorem readSections_eq {bytes stored : Bytes} {start block allow important allowLength blockLength : ℕ}
    (readAllowLength : readU32 bytes 20 = some allowLength) (readBlock : readU32 bytes 8 = some block)
    (readAllow : readU32 bytes 12 = some allow) (readImportant : readU32 bytes 16 = some important)
    (readStored : slice bytes 24 32 = some stored) (inside : start ≤ bytes.length) {allowAt blockAt expected : ℕ}
    (hashed : start + 8 * (block + allow + important) = allowAt) (patterns : allowAt + allowLength = blockAt)
    (whole : blockAt + blockLength = expected) (small : expected < 2 ^ 64) :
    readSections bytes start blockLength =
      if bytes.length ≠ expected then some (.error (.lengthMismatch expected bytes.length))
      else if (checksum (bytes.drop start)).toNat ≠ ofLe stored then some (.error .badChecksum)
      else readPatterns bytes start (0, block) (block, block + allow) (block + allow, block + allow + important)
        allowAt blockAt := by
  have total : [block, allow, important].foldlM Width.add 0 = some (block + allow + important) := by
    rw [Width.foldlM_add _ (by simp; omega)]
    simp [Nat.add_assoc]
  have allowEnd : Width.add block allow = some (block + allow) := Width.add_of_lt (by omega)
  have importantEnd : Width.add (block + allow) important = some (block + allow + important) :=
    Width.add_of_lt (by omega)
  have hashesLength : Width.mul 8 (block + allow + important) = some (8 * (block + allow + important)) :=
    Width.mul_of_lt (by omega)
  have sums : Width.add start (8 * (block + allow + important)) = some allowAt ∧
      Width.add allowAt allowLength = some blockAt ∧ Width.add blockAt blockLength = some expected := by
    subst hashed patterns whole
    exact ⟨Width.add_of_lt (by omega), Width.add_of_lt (by omega), Width.add_of_lt small⟩
  obtain ⟨allowSum, blockSum, expectedSum⟩ := sums
  rw [readSections]
  simp only [readAllowLength, readBlock, readAllow, readImportant, readStored, slice_from inside, total, allowEnd,
    importantEnd, hashesLength, allowSum, blockSum, expectedSum, Option.bind_eq_bind, Option.bind_some]

private theorem readSections_file (fits : contents.Fits) (block : Sorted contents.block)
    (allow : Sorted contents.allow) (important : Sorted contents.important)
    (allowRead : parsePatterns contents.allowPatterns = some (some wildcardAllow))
    (blockRead : parsePatterns contents.blockPatterns = some (some wildcardBlock)) :
    readSections contents.file headerLen contents.blockPatterns.length =
      some (.ok (contents.loaded wildcardAllow wildcardBlock)) := by
  have allowLength : readU32 contents.file 20 = some contents.allowPatterns.length :=
    readU32_field (i := 5) _ rfl (by omega) rfl fits.allowPatterns
  have blockCount : readU32 contents.file 8 = some contents.block.length :=
    readU32_field (i := 2) _ rfl (by omega) rfl fits.block
  have allowCount : readU32 contents.file 12 = some contents.allow.length :=
    readU32_field (i := 3) _ rfl (by omega) rfl fits.allow
  have importantCount : readU32 contents.file 16 = some contents.important.length :=
    readU32_field (i := 4) _ rfl (by omega) rfl fits.important
  have stored : slice contents.file 24 32 = some (leBytes 8 (checksum contents.body).toNat) :=
    slice_field (i := 6) _ rfl (by omega) rfl (by rw [length_leBytes])
  have length := contents.file_length
  have hashed := contents.hashBytes_length
  have allowBytes : slice contents.file
      (headerLen + 8 * (contents.block.length + contents.allow.length + contents.important.length))
      (headerLen + 8 * (contents.block.length + contents.allow.length + contents.important.length) +
        contents.allowPatterns.length) = some contents.allowPatterns :=
    slice_flatten (i := 10) rfl (by simp [Contents.parts, headerLen]; omega) rfl
  have blockBytes : slice contents.file
      (headerLen + 8 * (contents.block.length + contents.allow.length + contents.important.length) +
        contents.allowPatterns.length) contents.file.length = some contents.blockPatterns :=
    slice_flatten (i := 11) rfl (by simp [Contents.parts, headerLen]; omega) length.symm
  have sums : (checksum (contents.file.drop headerLen)).toNat =
      ofLe (leBytes 8 (checksum contents.body).toNat) := by
    rw [Contents.file, contents.drop_header, ofLe_leBytes_of_lt]
    exact UInt64.toNat_lt _
  have small : contents.file.length < 2 ^ 64 := by
    obtain ⟨block, allow, important, allowPatterns, blockPatterns⟩ := fits
    rw [length, headerLen]
    omega
  rw [readSections_eq allowLength blockCount allowCount importantCount stored (by omega) rfl rfl length.symm small,
    if_neg (not_not.mpr rfl), if_neg (not_not.mpr sums), readPatterns, allowBytes, blockBytes]
  simp only [Option.bind_eq_bind, Option.bind_some, allowRead, blockRead]
  exact checkSorted_loaded fits block allow important

/-- A written file is accepted and holds its sections. -/
theorem new_file (fits : contents.Fits) (block : Sorted contents.block) (allow : Sorted contents.allow)
    (important : Sorted contents.important)
    (allowRead : parsePatterns contents.allowPatterns = some (some wildcardAllow))
    (blockRead : parsePatterns contents.blockPatterns = some (some wildcardBlock)) :
    new contents.file = some (.ok (contents.loaded wildcardAllow wildcardBlock)) := by
  have start : slice contents.file 0 4 = some magic := slice_field (i := 0) _ rfl (by omega) rfl rfl
  have current : readU32 contents.file 4 = some version :=
    readU32_field (i := 1) _ rfl (by omega) rfl (by decide)
  have long : ¬ contents.file.length < headerLenV1 := by
    rw [contents.file_length, headerLen, headerLenV1]
    omega
  rw [new, if_neg long, start, Checked.some_bind, if_neg (not_not.mpr rfl), current, Checked.some_bind,
    if_neg (by decide), readHeader_file fits, Checked.some_bind]
  exact readSections_file fits block allow important allowRead blockRead

end Width

end DomainSet

/-- The patterns of a wildcard section, `||` ones marked. -/
def patternEntries (parents host : List Text) : List (Bool × Text) :=
  parents.map (true, ·) ++ host.map (false, ·)

/-- The line of a pattern, without its end. -/
def patternLine (entry : Bool × Text) : Text := if entry.1 then '|' :: '|' :: entry.2 else '|' :: entry.2

private theorem flatMap_newline {lines : List Text} (nonempty : lines ≠ []) :
    (lines.flatMap fun line => line ++ ['\n']) = ['\n'].intercalate lines ++ ['\n'] := by
  induction lines with
  | nil => contradiction
  | cons line rest ih =>
    cases rest with
    | nil => simp
    | cons next rest =>
      rw [List.flatMap_cons, ih (by simp), List.intercalate_cons_cons]
      simp

theorem patternSection_eq (parents host : List Text) : patternSection parents host =
    ((patternEntries parents host).map patternLine).flatMap fun line => line ++ ['\n'] := by
  simp [patternSection, patternEntries, patternLine, List.flatMap_append, List.flatMap_map]

theorem parse_patternLine {entry : Bool × Text} (valid : isValidPattern entry.2 = true) :
    ∃ parsed, Pattern.parse (patternLine entry) = some parsed ∧
      (parsed.parents, parsed.glob) = (entry.1, entry.2.asBytes) := by
  obtain ⟨_ | _, pattern⟩ := entry
  · have anchor : Text.stripPrefix ('|' :: pattern) ['|', '|'] = none := by
      cases pattern with
      | nil => rfl
      | cons c rest =>
        have different : (c == '|') = false :=
          beq_false_of_ne ((isValidPattern_stored valid).stored c (by simp)).ne_bar
        simp [Text.stripPrefix, List.dropPrefix?, different]
    have stripped : Text.stripPrefix ('|' :: pattern) ['|'] = some pattern := Text.stripPrefix_eq_some_iff.mpr rfl
    refine ⟨⟨pattern.asBytes, false, pattern, valid, rfl⟩, ?_, rfl⟩
    simp only [patternLine, Bool.false_eq_true, if_false, Pattern.parse, anchor, stripped, Option.map_some,
      Option.bind_eq_bind, Option.bind_some]
    exact dif_pos valid
  · have stripped : Text.stripPrefix ('|' :: '|' :: pattern) ['|', '|'] = some pattern :=
      Text.stripPrefix_eq_some_iff.mpr rfl
    refine ⟨⟨pattern.asBytes, true, pattern, valid, rfl⟩, ?_, rfl⟩
    simp only [patternLine, if_true, Pattern.parse, stripped, Option.bind_eq_bind, Option.bind_some]
    exact dif_pos valid

private theorem mapM_parse_lines {entries : List (Bool × Text)}
    (valid : ∀ entry ∈ entries, isValidPattern entry.2 = true) :
    ∃ patterns : List Pattern, (entries.map patternLine).mapM Pattern.parse = some patterns ∧
      patterns.map (fun pattern => (pattern.parents, pattern.glob)) =
        entries.map fun entry => (entry.1, entry.2.asBytes) := by
  induction entries with
  | nil => exact ⟨[], rfl, rfl⟩
  | cons entry rest ih =>
    obtain ⟨head, tail⟩ := List.forall_mem_cons.mp valid
    obtain ⟨patterns, parsed, same⟩ := ih tail
    obtain ⟨first, here, equal⟩ := parse_patternLine head
    refine ⟨first :: patterns, ?_, ?_⟩
    · rw [List.map_cons, List.mapM_cons, here, parsed]
      rfl
    · rw [List.map_cons, List.map_cons, same, equal]

/-- A written wildcard section is read back as its patterns. -/
theorem parsePatterns_section [Width] {parents host : List Text}
    (valid : ∀ entry ∈ patternEntries parents host, isValidPattern entry.2 = true) :
    ∃ patterns : List Pattern,
      parsePatterns (patternSection parents host).asBytes = (PatternSet.new patterns).map some ∧
      patterns.map (fun pattern => (pattern.parents, pattern.glob)) =
        (patternEntries parents host).map fun entry => (entry.1, entry.2.asBytes) := by
  obtain ⟨patterns, parsed, same⟩ := mapM_parse_lines valid
  refine ⟨patterns, ?_, same⟩
  rw [parsePatterns, Text.fromUtf8_asBytes, patternSection_eq]
  by_cases empty : (patternEntries parents host).map patternLine = []
  · rw [empty] at parsed ⊢
    obtain rfl := Option.some.inj parsed
    rfl
  · have plain : ∀ line ∈ (patternEntries parents host).map patternLine, '\n' ∉ line := by
      intro line member newline
      obtain ⟨entry, inside, rfl⟩ := List.mem_map.mp member
      have chars : '\n' ∈ entry.2 := by
        rw [patternLine] at newline
        split at newline <;> simpa using newline
      exact ((isValidPattern_stored (valid entry inside)).stored _ chars).ne_newline rfl
    have stripped : Text.stripSuffix (['\n'].intercalate ((patternEntries parents host).map patternLine) ++ ['\n'])
        ['\n'] = some (['\n'].intercalate ((patternEntries parents host).map patternLine)) :=
      Text.stripSuffix_eq_some_iff.mpr rfl
    simp only [flatMap_newline empty, stripped, List.splitOn_intercalate '\n' plain empty, parsed]

end Tollgate

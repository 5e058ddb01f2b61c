import Tollgate.Proofs.Filter.DomainLookup

/-! # Loading any file

The counts and lengths of a header are justified by one equation: together they make up the length of
the file. With it every section is in range, the bytes behind the header are the five sections in order,
and every index built from a section fits. A file that loads therefore answers every lookup. No sum reaches
`2 ^ 64`, so this is so at every width.
-/

namespace Tollgate

open Endian

/-- The parts of a split text are no longer than the text. -/
private theorem lines_le (lines : List Text) :
    (lines.map fun line => line.asBytes.length).sum ≤ (Text.asBytes (['\n'].intercalate lines)).length := by
  induction lines with
  | nil => exact Nat.zero_le _
  | cons line rest ih =>
    cases rest with
    | nil => simp
    | cons second rest =>
      rw [List.intercalate_cons_cons, Text.asBytes_append, Text.asBytes_append, List.map_cons, List.sum_cons]
      simp only [List.length_append]
      omega

private theorem parse_glob_le {line : Text} {pattern : Pattern} (parsed : Pattern.parse line = some pattern) :
    pattern.glob.length ≤ line.asBytes.length := by
  have shorter {front glob : Text} {parents : Bool} (split : line = front ++ glob)
      (accepted : (if valid : isValidPattern glob = true then
        some (⟨glob.asBytes, parents, glob, valid, rfl⟩ : Pattern) else none) = some pattern) :
      pattern.glob.length ≤ line.asBytes.length := by
    split at accepted
    · obtain rfl := Option.some.inj accepted
      rw [split, Text.asBytes_append, List.length_append]
      exact Nat.le_add_left ..
    · contradiction
  unfold Pattern.parse at parsed
  dsimp only at parsed
  split at parsed
  · next glob start => exact shorter (Text.stripPrefix_eq_some_iff.mp start) parsed
  · obtain ⟨⟨parents, glob⟩, stripped, parsed⟩ := Option.bind_eq_some_iff.mp parsed
    obtain ⟨rest, start, same⟩ := Option.map_eq_some_iff.mp stripped
    obtain ⟨rfl, rfl⟩ := Prod.mk.inj same
    exact shorter (Text.stripPrefix_eq_some_iff.mp start) parsed

private theorem mapM_glob_le {lines : List Text} {patterns : List Pattern}
    (parsed : lines.mapM Pattern.parse = some patterns) :
    (patterns.map fun pattern => pattern.glob.length).sum ≤ (lines.map fun line => line.asBytes.length).sum := by
  induction lines generalizing patterns with
  | nil =>
    obtain rfl := Option.some.inj parsed
    exact Nat.le_refl _
  | cons line rest ih =>
    rw [List.mapM_cons] at parsed
    obtain ⟨first, here, parsed⟩ := Option.bind_eq_some_iff.mp parsed
    obtain ⟨others, later, parsed⟩ := Option.bind_eq_some_iff.mp parsed
    obtain rfl := Option.some.inj parsed
    exact Nat.add_le_add (parse_glob_le here) (ih later)

/-- The patterns of a section are no longer than the section. -/
theorem section_glob_le {bytes : Bytes} {text body : Text} {patterns : List Pattern}
    (decoded : Text.fromUtf8 bytes = some text) (stripped : text.stripSuffix ['\n'] = some body)
    (parsed : (body.splitOn '\n').mapM Pattern.parse = some patterns) :
    (patterns.map fun pattern => pattern.glob.length).sum ≤ bytes.length := by
  have whole : (Text.asBytes (['\n'].intercalate (body.splitOn '\n'))).length ≤ bytes.length := by
    rw [List.intercalate_splitOn, ← Text.asBytes_of_fromUtf8 decoded, Text.stripSuffix_eq_some_iff.mp stripped,
      Text.asBytes_append, List.length_append]
    exact Nat.le_add_right ..
  exact ((mapM_glob_le parsed).trans (lines_le _)).trans whole

/-- A wildcard section of any bytes is refused or gives an index of its patterns. -/
theorem parsePatterns_spec [Width] {bytes : Bytes} (short : bytes.length < 2 ^ 32) :
    parsePatterns bytes = some none ∨
      ∃ patterns index, parsePatterns bytes = some (some index) ∧ PatternSet.new patterns = some index := by
  unfold parsePatterns
  split
  · exact .inl rfl
  · next text decoded =>
    split
    · split
      · exact .inr ⟨[], _, rfl, rfl⟩
      · exact .inl rfl
    · next body stripped =>
      split
      · exact .inl rfl
      · next patterns parsed =>
        have bound := section_glob_le decoded stripped parsed
        obtain ⟨index, built⟩ := Option.isSome_iff_exists.mp (PatternSet.new_isSome (bound.trans_lt short))
        exact .inr ⟨patterns, index, by rw [built]; rfl, built⟩

theorem readU32_spec {bytes : Bytes} {position : ℕ} (inside : position + 4 ≤ bytes.length) :
    ∃ n, readU32 bytes position = some n ∧ n < 2 ^ 32 := by
  rw [readU32, slice_isSome (Nat.le_add_right ..) inside]
  refine ⟨_, rfl, ?_⟩
  have bound := ofLe_lt ((bytes.take (position + 4)).drop position)
  rw [List.length_drop, List.length_take, Nat.min_eq_left inside, Nat.add_sub_cancel_left] at bound
  exact bound.trans_eq (by norm_num)

namespace DomainSet

/-- Chunks of eight bytes are the encodings of their numbers. -/
private theorem asChunks_eq (count : ℕ) (bytes : Bytes) (width : bytes.length = 8 * count) :
    ∃ hashes : List ℕ, hashes.length = count ∧ (∀ hash ∈ hashes, hash < 2 ^ 64) ∧
      bytes = hashes.flatMap (leBytes 8) ∧ asChunks bytes = hashes.map (leBytes 8) := by
  induction count generalizing bytes with
  | zero =>
    obtain rfl := List.eq_nil_of_length_eq_zero width
    exact ⟨[], rfl, by simp, rfl, rfl⟩
  | succ count ih =>
    match bytes, width with
    | a :: b :: c :: d :: e :: f :: g :: h :: rest, width =>
      simp only [List.length_cons] at width
      obtain ⟨hashes, length, small, bytes, chunks⟩ := ih rest (by omega)
      have first : leBytes 8 (ofLe [a, b, c, d, e, f, g, h]) = [a, b, c, d, e, f, g, h] :=
        leBytes_ofLe [a, b, c, d, e, f, g, h]
      have bound := ofLe_lt [a, b, c, d, e, f, g, h]
      refine ⟨ofLe [a, b, c, d, e, f, g, h] :: hashes, by rw [List.length_cons, length], ?_, ?_, ?_⟩
      · refine List.forall_mem_cons.mpr ⟨bound.trans_eq (by norm_num), small⟩
      · rw [List.flatMap_cons, first, ← bytes]
        rfl
      · rw [asChunks, chunks, List.map_cons, first]

/-- A set that reads its file as these sections, which are all that stands behind the header. -/
structure Reads [Width] (set : DomainSet) (contents : Contents) : Prop extends Sections set contents where
  header : set.hashesAt = headerLenV1 ∨ set.hashesAt = headerLen
  inside : set.hashesAt ≤ set.data.length
  body : set.data.drop set.hashesAt = contents.body
  blockSorted : Sorted contents.block
  allowSorted : Sorted contents.allow
  importantSorted : Sorted contents.important
  wildcardAllow : parsePatterns contents.allowPatterns = some (some set.wildcardAllow)
  wildcardBlock : parsePatterns contents.blockPatterns = some (some set.wildcardBlock)
  fits : contents.Fits

private theorem exists_split {α : Type*} {xs : List α} {first second : ℕ} (length : xs.length = first + second) :
    ∃ front back, xs = front ++ back ∧ front.length = first ∧ back.length = second :=
  ⟨xs.take first, xs.drop first, (List.take_append_drop ..).symm, by rw [List.length_take]; omega,
    by rw [List.length_drop]; omega⟩

/-- What a header describes when its numbers make up the length of the file. -/
private structure Described (bytes : Bytes) (start allowAt blockAt : ℕ) (contents : Contents) : Prop where
  body : bytes.drop start = contents.body
  small : ∀ hash ∈ contents.block ++ contents.allow ++ contents.important, hash < 2 ^ 64
  hashes : slice bytes start allowAt = some contents.hashBytes
  chunks : asChunks contents.hashBytes = (contents.block ++ contents.allow ++ contents.important).map (leBytes 8)
  allowPatterns : slice bytes allowAt blockAt = some contents.allowPatterns
  blockPatterns : slice bytes blockAt bytes.length = some contents.blockPatterns

private theorem exists_contents {bytes : Bytes} {start block allow important allowLength blockLength : ℕ}
    (whole : bytes.length = start + 8 * (block + allow + important) + allowLength + blockLength) :
    ∃ contents : Contents, contents.block.length = block ∧ contents.allow.length = allow ∧
      contents.important.length = important ∧ contents.allowPatterns.length = allowLength ∧
      contents.blockPatterns.length = blockLength ∧
      Described bytes start (start + 8 * (block + allow + important))
        (start + 8 * (block + allow + important) + allowLength) contents := by
  obtain ⟨front, blockPatterns, rfl, width, blockWidth⟩ := exists_split whole
  obtain ⟨front, allowPatterns, rfl, width, allowWidth⟩ := exists_split width
  obtain ⟨front, hashBytes, rfl, startWidth, hashWidth⟩ := exists_split width
  obtain ⟨hashes, count, small, rfl, chunks⟩ := asChunks_eq _ hashBytes hashWidth
  obtain ⟨hashes, third, rfl, count, importantCount⟩ := exists_split count
  obtain ⟨first, second, rfl, blockCount, allowCount⟩ := exists_split count
  refine ⟨⟨first, second, third, allowPatterns, blockPatterns⟩, blockCount, allowCount, importantCount, allowWidth,
    blockWidth, ?_, small, ?_, chunks, ?_, ?_⟩
  · rw [List.append_assoc front, List.append_assoc front, List.drop_left' startWidth]
    rfl
  · have read := slice_append front ((first ++ second ++ third).flatMap (leBytes 8)) (allowPatterns ++ blockPatterns)
    rw [hashWidth, startWidth, ← List.append_assoc] at read
    exact read
  · have read := slice_append (front ++ (first ++ second ++ third).flatMap (leBytes 8)) allowPatterns blockPatterns
    rw [width, allowWidth] at read
    exact read
  · have read := slice_append (front ++ (first ++ second ++ third).flatMap (leBytes 8) ++ allowPatterns) blockPatterns []
    rw [List.append_nil, ← List.length_append, List.length_append, width, allowWidth] at read
    exact read

private theorem Described.sections [Width] {bytes : Bytes} {start allowAt blockAt : ℕ} {contents : Contents}
    (described : Described bytes start allowAt blockAt contents)
    (hashed : start + 8 * (contents.block.length + contents.allow.length + contents.important.length) = allowAt)
    (small : allowAt < 2 ^ 64) (wildcardAllow wildcardBlock : PatternSet) :
    Sections ⟨bytes, start, (0, contents.block.length),
      (contents.block.length, contents.block.length + contents.allow.length),
      (contents.block.length + contents.allow.length,
        contents.block.length + contents.allow.length + contents.important.length),
      wildcardAllow, wildcardBlock⟩ contents := by
  refine ⟨?_, rfl, rfl, rfl⟩
  rw [hashes_eq (by dsimp only; omega)]
  dsimp only
  rw [hashed, described.hashes, Option.map_some, described.chunks]

/-- The part of the loader behind the header never panics. -/
theorem readSections_spec [Width] {bytes : Bytes} {start blockLength : ℕ} (known : start = headerLenV1 ∨ start = headerLen)
    (inside : start ≤ bytes.length) (short : blockLength < 2 ^ 32) :
    (∃ reason, readSections bytes start blockLength = some (.error reason)) ∨
      ∃ set contents, readSections bytes start blockLength = some (.ok set) ∧ set.data = bytes ∧ Reads set contents := by
  have older : headerLenV1 = 32 := rfl
  have newer : headerLen = 40 := rfl
  have least : 32 ≤ bytes.length := by
    rcases known with rfl | rfl <;> omega
  obtain ⟨allowLength, readAllowLength, allowShort⟩ := @readU32_spec bytes 20 (by omega)
  obtain ⟨blockCount, readBlock, blockFew⟩ := @readU32_spec bytes 8 (by omega)
  obtain ⟨allowCount, readAllow, allowFew⟩ := @readU32_spec bytes 12 (by omega)
  obtain ⟨importantCount, readImportant, importantFew⟩ := @readU32_spec bytes 16 (by omega)
  have most : start ≤ 40 := by
    rcases known with rfl | rfl <;> omega
  rw [readSections_eq readAllowLength readBlock readAllow readImportant (slice_isSome (by omega) least) inside rfl rfl
    rfl (by omega)]
  split
  · exact .inl ⟨_, rfl⟩
  · next whole =>
    rw [ne_eq, not_not] at whole
    split
    · exact .inl ⟨_, rfl⟩
    · obtain ⟨contents, rfl, rfl, rfl, rfl, rfl, described⟩ := exists_contents whole
      simp only [readPatterns, described.allowPatterns, described.blockPatterns, Option.bind_eq_bind, Option.bind_some]
      have allowSpec := parsePatterns_spec allowShort
      have blockSpec := parsePatterns_spec short
      rcases allowSpec with refused | ⟨_, wildcardAllow, allowRead, -⟩
      · rcases blockSpec with other | ⟨_, _, other, -⟩ <;> exact .inl ⟨_, by rw [refused, other]; rfl⟩
      · rcases blockSpec with refused | ⟨_, wildcardBlock, blockRead, -⟩
        · exact .inl ⟨_, by rw [allowRead, refused]; rfl⟩
        · simp only [allowRead, blockRead, Option.bind_some]
          have sections := described.sections rfl (by omega) wildcardAllow wildcardBlock
          have small := described.small
          simp only [List.mem_append, or_imp, forall_and] at small
          rw [sections.checkSorted_eq small.1.1 small.1.2 small.2]
          split
          · next increasing =>
            simp only [Bool.and_eq_true, increasing_iff] at increasing
            exact .inr ⟨_, contents, rfl, rfl, sections, known, inside, described.body, ⟨increasing.1, small.1.1⟩,
              ⟨increasing.2.1, small.1.2⟩, ⟨increasing.2.2, small.2⟩, allowRead, blockRead,
              ⟨blockFew, allowFew, importantFew, allowShort, short⟩⟩
          · exact .inl ⟨_, rfl⟩

/-- Loading never panics, and a file that loads reads as its sections. -/
theorem new_spec [Width] (bytes : Bytes) : (∃ reason, new bytes = some (.error reason)) ∨
    ∃ set contents, new bytes = some (.ok set) ∧ set.data = bytes ∧ Reads set contents := by
  unfold new
  split
  · exact .inl ⟨_, rfl⟩
  · next long =>
    have older : headerLenV1 = 32 := rfl
    rw [not_lt] at long
    obtain ⟨version, readVersion, -⟩ := @readU32_spec bytes 4 (by omega)
    rw [slice_isSome (by omega) (by omega), Option.bind_eq_bind, Option.bind_some]
    split
    · exact .inl ⟨_, rfl⟩
    · simp only [readVersion, Option.bind_eq_bind, Option.bind_some]
      split
      · exact .inl ⟨_, rfl⟩
      · unfold readHeader
        split
        · exact readSections_spec (.inl rfl) long (by norm_num)
        · split
          · exact .inl ⟨_, rfl⟩
          · next longer =>
            have newer : headerLen = 40 := rfl
            rw [not_lt, newer] at longer
            obtain ⟨padding, readPadding, -⟩ := @readU32_spec bytes 36 (by omega)
            obtain ⟨blockLength, readLength, short⟩ := @readU32_spec bytes 32 (by omega)
            simp only [readPadding, readLength, Option.bind_eq_bind, Option.bind_some]
            split
            · exact .inl ⟨_, rfl⟩
            · exact readSections_spec (.inr rfl) longer short

namespace Reads

variable [Width] {set : DomainSet} {contents : Contents}

/-- The index of a section that was read returns for every host. -/
theorem matchesHost_isSome {bytes : Bytes} {index : PatternSet} (short : bytes.length < 2 ^ 32)
    (read : parsePatterns bytes = some (some index)) {host : Bytes} (fits : Width.fits host.length = true) :
    (index.matchesHost host).isSome := by
  rcases parsePatterns_spec short with refused | ⟨patterns, built, other, new⟩
  · cases refused.symm.trans read
  · obtain rfl := Option.some.inj (Option.some.inj (other.symm.trans read))
    obtain ⟨found, ran, -⟩ := PatternSet.matchesHost_decides new fits
    exact Option.isSome_of_eq_some ran

/-- A lookup in a set that was loaded returns, whatever the host. -/
theorem isBlocked_isSome (reads : Reads set contents) {host : Text} (fits : Width.fits host.len = true) :
    (set.isBlocked host).isSome := by
  have shorter : Width.fits host.stripDot.asBytes.length = true := Width.fits_of_le (Text.len_stripDot_le host) fits
  obtain ⟨blocks, ranBlocks⟩ := Option.isSome_iff_exists.mp
    (matchesHost_isSome reads.fits.blockPatterns reads.wildcardBlock shorter)
  obtain ⟨allows, ranAllows⟩ := Option.isSome_iff_exists.mp
    (matchesHost_isSome reads.fits.allowPatterns reads.wildcardAllow shorter)
  unfold isBlocked
  simp only [suffixHashes_eq shorter, (reads.holds_block reads.blockSorted).covered, (reads.holds_allow reads.allowSorted).covered,
    (reads.holds_important reads.importantSorted).covered, (reads.holds_block reads.blockSorted).exactly,
    (reads.holds_allow reads.allowSorted).exactly, ranBlocks, ranAllows, orElse_some, Option.bind_eq_bind,
    Option.bind_some, Option.map_some]
  split
  · rfl
  · split
    · rfl
    · split
      · rfl
      · split <;> rfl

end Reads

end DomainSet

end Tollgate

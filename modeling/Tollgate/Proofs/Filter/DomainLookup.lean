import Tollgate.Model.Filter.Decision
import Tollgate.Proofs.Filter.DomainFile
import Tollgate.Proofs.Filter.RuleSets

/-! # A lookup decides what the rules say

Without hash collisions a section contains the hash of a name exactly if it holds the name. A
lookup hashes the host and each of its parents, so leaving out names whose parent is stored too
changes nothing, and its early exits agree with the order in which rules win.
-/

namespace Tollgate

open Endian Text

theorem fnv1a64From_lower (hash : UInt64) (bytes : Bytes) :
    fnv1a64From hash (bytes.map lowerByte) = fnv1a64From hash bytes := by
  rw [fnv1a64From, fnv1a64From, List.foldl_map]
  simp only [lowerByte_idem]

theorem exactHash_eq (name : Bytes) : exactHash name = fnv1a64 (exactTag ++ name) := by
  rw [exactHash, fnv1a64, fnv1a64, fnv1a64From, fnv1a64From, fnv1a64From, List.foldl_append]

theorem mem_sortedHashes_iff {names exact : List Text} {hash : UInt64} :
    hash.toNat ∈ sortedHashes names exact ↔
      (∃ name ∈ names, fnv1a64 name.asBytes = hash) ∨ ∃ name ∈ exact, fnv1a64 (exactTag ++ name.asBytes) = hash := by
  simp only [sortedHashes, Finset.mem_sort, List.mem_toFinset, List.mem_append, List.mem_map, UInt64.toNat_inj,
    exactHash_eq]

namespace DomainSet

theorem sorted_sortedHashes (names exact : List Text) : Sorted (sortedHashes names exact) := by
  constructor
  · exact (Finset.sortedLT_sort _).pairwise
  · intro hash member
    simp only [sortedHashes, Finset.mem_sort, List.mem_toFinset, List.mem_append, List.mem_map] at member
    rcases member with ⟨name, _, rfl⟩ | ⟨name, _, rfl⟩ <;> exact UInt64.toNat_lt _

/-- A range of the file that holds these hashes. -/
structure Holds [Width] (set : DomainSet) (range : ℕ × ℕ) (hashes : List ℕ) : Prop where
  read : set.sectionHashes range = some (hashes.map (leBytes 8))
  sorted : Sorted hashes
  empty : range.2 ≤ range.1 → hashes = []

private theorem nil_of_range {hashes : List ℕ} {first : ℕ} (empty : first + hashes.length ≤ first) : hashes = [] :=
  List.eq_nil_of_length_eq_zero (by omega)

section Width

variable [Width] {set : DomainSet} {range : ℕ × ℕ} {hashes : List ℕ}

theorem Holds.contains (holds : Holds set range hashes) (hash : UInt64) :
    set.contains range hash = some (decide (hash.toNat ∈ hashes)) := by
  have entries : (hashes.map (leBytes 8)).Pairwise (fun a b => ofLe a < ofLe b) := by
    rw [← List.pairwise_map (f := ofLe) (R := (· < ·)), read_hashes holds.sorted.small]
    exact holds.sorted.increasing
  rw [DomainSet.contains, holds.read]
  simp only [Option.bind_eq_bind, Option.bind_some, Option.some.injEq]
  apply Bool.eq_iff_iff.mpr
  rw [List.binarySearchBy_isSome_iff entries, decide_eq_true_iff, ← List.mem_map, read_hashes holds.sorted.small]

theorem Holds.covered (holds : Holds set range hashes) (probes : List UInt64) :
    set.covered probes range = some (probes.any fun probe => decide (probe.toNat ∈ hashes)) := by
  rw [DomainSet.covered]
  split
  · next none =>
    rw [holds.empty none]
    simp
  · have total : set.contains range = fun probe => pure (decide (probe.toNat ∈ hashes)) :=
      funext holds.contains
    rw [total, List.anyM_pure]
    rfl

theorem Holds.exactly (holds : Holds set range hashes) (exact : UInt64) :
    set.exactly exact range = some (decide (exact.toNat ∈ hashes)) := by
  rw [DomainSet.exactly]
  split
  · next none =>
    rw [holds.empty none]
    simp
  · exact holds.contains exact

variable {contents : Contents} {wildcardAllow wildcardBlock : PatternSet}

theorem Sections.holds_block (sections : Sections set contents) (sorted : Sorted contents.block) :
    Holds set set.block contents.block := by
  refine ⟨sections.read_block, sorted, fun empty => ?_⟩
  rw [sections.block] at empty
  exact List.eq_nil_of_length_eq_zero (Nat.le_zero.mp empty)

theorem Sections.holds_allow (sections : Sections set contents) (sorted : Sorted contents.allow) :
    Holds set set.allow contents.allow := by
  refine ⟨sections.read_allow, sorted, fun empty => ?_⟩
  rw [sections.allow] at empty
  exact nil_of_range empty

theorem Sections.holds_important (sections : Sections set contents) (sorted : Sorted contents.important) :
    Holds set set.important contents.important := by
  refine ⟨sections.read_important, sorted, fun empty => ?_⟩
  rw [sections.important] at empty
  exact nil_of_range empty

end Width

/-- The hashes of the host and of each parent that still has a dot, at most `limit` of them. -/
def tailHashes : ℕ → Bytes → List UInt64
  | 0, _ => []
  | limit + 1, rest =>
      if dotByte ∈ rest then fnv1a64 rest :: tailHashes limit (rest.dropWhile (· != dotByte)).tail
      else []

theorem dropWhile_of_findIdx? {rest : Bytes} {dot : ℕ} (found : rest.findIdx? (· == dotByte) = some dot) :
    dotByte ∈ rest ∧ dot + 1 ≤ rest.length ∧ (rest.dropWhile (· != dotByte)).tail = rest.drop (dot + 1) := by
  induction rest generalizing dot with
  | nil => cases found
  | cons byte rest ih =>
    rw [List.findIdx?_cons] at found
    by_cases here : byte = dotByte
    · subst here
      obtain rfl : 0 = dot := by simpa using found
      exact ⟨by simp, by simp, by simp⟩
    · obtain ⟨place, later, rfl⟩ : ∃ place, rest.findIdx? (· == dotByte) = some place ∧ place + 1 = dot := by
        simpa [here] using found
      obtain ⟨member, inside, dropped⟩ := ih later
      refine ⟨List.mem_cons_of_mem _ member, by rw [List.length_cons]; omega, ?_⟩
      rw [List.dropWhile_cons_of_pos (by simpa using here), dropped, List.drop_succ_cons]

/-- The loop writes the hashes of the suffixes behind those already there. -/
theorem suffixLoop_spec [Width] {host : Bytes} (fits : Width.fits host.length = true) {fuel n start : ℕ} {hashes : List UInt64}
    (array : hashes.length = 127) (within : n ≤ 127) (enough : 127 - n < fuel) (inside : start ≤ host.length) :
    ∃ final count, suffixLoop host fuel hashes n start = some (final, count) ∧ count ≤ final.length ∧
      final.take count = hashes.take n ++ tailHashes (127 - n) (host.drop start) := by
  induction fuel generalizing n start hashes with
  | zero => omega
  | succ fuel ih =>
    unfold suffixLoop
    split
    · next room =>
      obtain ⟨limit, left⟩ : ∃ limit, 127 - n = limit + 1 := ⟨126 - n, by omega⟩
      rw [slice_from inside, Checked.some_bind, left, tailHashes]
      cases found : (host.drop start).findIdx? (· == dotByte) with
      | none =>
        have plain : dotByte ∉ host.drop start := by
          intro member
          simpa using List.findIdx?_eq_none_iff.mp found _ member
        rw [if_neg plain, List.append_nil]
        exact ⟨hashes, n, rfl, by omega, rfl⟩
      | some dot =>
        obtain ⟨member, short, dropped⟩ := dropWhile_of_findIdx? found
        rw [List.length_drop] at short
        have count : Width.add n 1 = some (n + 1) := Width.add_of_lt (by omega)
        have skip : Width.add dot 1 = some (dot + 1) := Width.add_of_le fits (by omega)
        have next : Width.add start (dot + 1) = some (start + (dot + 1)) :=
          Width.add_of_le fits (by omega)
        obtain ⟨final, total, ran, bound, wrote⟩ :=
          @ih (n + 1) (start + (dot + 1)) (hashes.set n (fnv1a64 (host.drop start))) (by rw [List.length_set, array])
            (by omega) (by omega) (by omega)
        refine ⟨final, total, ?_, bound, ?_⟩
        · simp only [count, skip, next, Option.bind_eq_bind, Option.bind_some]
          exact ran
        · have remaining : 127 - (n + 1) = limit := by omega
          rw [wrote, if_pos member, dropped, List.drop_drop, remaining, List.take_add_one,
            List.getElem?_set_self room, List.take_set_of_le le_rfl, Option.toList_some, List.append_assoc,
            List.singleton_append]
    · next full =>
      have none : 127 - n = 0 := by omega
      rw [none, tailHashes, List.append_nil]
      exact ⟨hashes, n, rfl, by omega, rfl⟩

theorem suffixHashes_eq [Width] {host : Bytes} (fits : Width.fits host.length = true) :
    suffixHashes host = some (tailHashes 127 host) := by
  have array : (List.replicate 127 (0 : UInt64)).length = 127 := List.length_replicate
  obtain ⟨final, count, ran, bound, wrote⟩ :=
    @suffixLoop_spec _ host fits 128 0 0 _ array (Nat.zero_le _) (by omega) (Nat.zero_le _)
  rw [suffixHashes, ran, Checked.some_bind]
  rw [List.take_zero, List.nil_append, List.drop_zero] at wrote
  dsimp only
  rw [slice_isSome (Nat.zero_le _) bound, List.drop_zero, wrote]

/-- The hashes a lookup computes, for a host with few dots. -/
theorem mem_tailHashes_iff {limit : ℕ} {host : Bytes} (few : (host.tailsAfter dotByte).length ≤ limit)
    {hash : UInt64} : hash ∈ tailHashes limit host ↔
      ∃ tail, List.Under dotByte tail host ∧ dotByte ∈ tail ∧ hash = fnv1a64 tail := by
  induction limit generalizing host with
  | zero =>
    have plain : dotByte ∉ host := by
      intro dot
      obtain ⟨front, rest, rfl⟩ := List.append_of_mem dot
      have member : rest ∈ (front ++ dotByte :: rest).tailsAfter dotByte := List.mem_tailsAfter_iff.mpr ⟨front, rfl⟩
      exact absurd (List.length_pos_of_mem member) (by omega)
    refine ⟨fun member => absurd member (by simp [tailHashes]), ?_⟩
    rintro ⟨tail, under, dot, _⟩
    exact absurd (under.suffix.subset dot) plain
  | succ limit ih =>
    rw [tailHashes]
    by_cases dot : dotByte ∈ host
    · obtain ⟨front, rest, rfl, first⟩ := List.eq_append_cons_of_mem dot
      have next : ((front ++ dotByte :: rest).dropWhile (· != dotByte)).tail = rest := by
        rw [List.dropWhile_append_of_pos]
        · simp
        · intro b member
          have different : b ≠ dotByte := fun same => first (same ▸ member)
          simpa using different
      rw [List.tailsAfter_append_of_notMem first, List.length_cons] at few
      have split : ∀ tail, List.Under dotByte tail (front ++ dotByte :: rest) ↔
          tail = front ++ dotByte :: rest ∨ List.Under dotByte tail rest := by
        intro tail
        simp only [List.under_iff_mem, List.tailsAfter_append_of_notMem first, List.mem_cons]
      rw [if_pos dot, next, List.mem_cons, ih (by omega)]
      simp only [split]
      constructor
      · rintro (rfl | ⟨tail, under, inside, rfl⟩)
        · exact ⟨_, .inl rfl, dot, rfl⟩
        · exact ⟨tail, .inr under, inside, rfl⟩
      · rintro ⟨tail, rfl | under, inside, rfl⟩
        · exact .inl rfl
        · exact .inr ⟨tail, under, inside, rfl⟩
    · rw [if_neg dot]
      refine ⟨fun member => absurd member (by simp), ?_⟩
      rintro ⟨tail, under, inside, _⟩
      exact absurd (under.suffix.subset inside) dot

end DomainSet

/-- What a lookup of a DNS name works on. -/
structure Lookup (host : Text) : Prop where
  stored : Stored (lookupName host)
  lower : host.stripDot.asBytes.map lowerByte = (lookupName host).asBytes
  few : (host.stripDot.asBytes.tailsAfter dotByte).length ≤ 127

private theorem ascii_of_alphanum {c : Char} (alphanum : c.isAlphanum = true) : Ascii c := by
  rw [isAlphanum_iff] at alphanum
  change c.toNat < 128
  omega

theorem stored_of_alphanum {c : Char} (alphanum : c.isAlphanum = true) : StoredChar c.toLower := by
  rcases toLower_of_alphanum alphanum with lower | digit
  · exact .inl lower
  · exact .inr (.inl digit)

theorem isDnsName_lookup {host : Text} (dns : isDnsName host = true) : Lookup host := by
  simp only [isDnsName, Bool.and_eq_true, decide_eq_true_eq, List.all_eq_true, Bool.or_eq_true, beq_iff_eq,
    Bool.not_eq_true'] at dns
  obtain ⟨short, labels⟩ := dns
  have chars : ∀ c ∈ host.stripDot, c = '.' ∨ (Ascii c ∧ StoredChar c.toLower) := by
    refine List.forall_of_splitOn fun label inside c member => ?_
    rcases (labels label inside).2 c member with (alphanum | rfl) | rfl
    · exact ⟨ascii_of_alphanum alphanum, stored_of_alphanum alphanum⟩
    · exact ⟨by decide, .inr (.inr (.inl rfl))⟩
    · exact ⟨by decide, .inr (.inr (.inr (.inl rfl)))⟩
  have ascii : ∀ c ∈ host.stripDot, Ascii c := by
    intro c member
    rcases chars c member with rfl | both
    · decide
    · exact both.1
  have stored : Stored (lookupName host) := by
    intro c member
    obtain ⟨original, inside, rfl⟩ := List.mem_map.mp member
    rcases chars original inside with rfl | both
    · exact .inr (.inr (.inr (.inr (.inr rfl))))
    · exact both.2
  refine ⟨stored, ?_, ?_⟩
  · rw [stored.asBytes_eq, asBytes_of_ascii ascii, lookupName, toAsciiLowercase, List.map_map, List.map_map]
    apply List.map_congr_left
    intro c member
    exact (byte_toLower (ascii c member)).symm
  · have nonempty : ∀ label ∈ host.stripDot.splitOn '.', label ≠ [] := by
      intro label inside
      simpa using (labels label inside).1
    have few := List.two_mul_tailsAfter_lt nonempty
    have only : ∀ c ∈ host.stripDot, byte c = byte '.' → c = '.' :=
      fun c member same => byte_inj (ascii c member) (by decide) same
    have same : (host.stripDot.map byte).tailsAfter dotByte = (host.stripDot.tailsAfter '.').map (List.map byte) :=
      List.tailsAfter_map only
    rw [len_of_ascii ascii] at short
    rw [asBytes_of_ascii ascii, same, List.length_map]
    omega

/-- A DNS name has no more than one trailing dot, and is not only a dot. -/
theorem isDnsName_bare {host : Text} (dns : isDnsName host = true) :
    host.stripDot.stripDot = host.stripDot ∧ host.stripDot ≠ [] := by
  simp only [isDnsName, Bool.and_eq_true, List.all_eq_true, Bool.not_eq_true'] at dns
  have parts : ∀ label ∈ host.stripDot.splitOn '.', label ≠ [] := by
    intro label member
    simpa using (dns.2 label member).1
  refine ⟨stripDot_of_getLast? (List.getLast?_ne_of_splitOn parts), ?_⟩
  intro empty
  rw [empty] at parts
  exact parts [] (by simp) rfl

theorem lowerByte_eq_dot {b : UInt8} (dot : lowerByte b = dotByte) : b = dotByte := by
  have code := congrArg UInt8.toNat dot
  rw [toNat_lowerByte] at code
  apply UInt8.toNat_inj.mp
  change _ = 46 at code
  change _ = 46
  split at code <;> omega

/-- The tails of the host, lowercased, are the name and its parents. -/
theorem Lookup.under_iff {host : Text} (lookup : Lookup host) {part : Text} :
    List.Under '.' part (lookupName host) ↔
      ∃ tail, List.Under dotByte tail host.stripDot.asBytes ∧ tail.map lowerByte = part.asBytes := by
  have bytes : List.Under dotByte part.asBytes (host.stripDot.asBytes.map lowerByte) ↔ _ :=
    List.under_map_iff fun _ _ same => lowerByte_eq_dot same
  rw [lookup.lower, under_asBytes_iff lookup.stored] at bytes
  constructor
  · intro under
    obtain ⟨tail, inside, same⟩ := bytes.mp ⟨part, under, rfl⟩
    exact ⟨tail, inside, same.symm⟩
  · rintro ⟨tail, inside, same⟩
    obtain ⟨other, under, equal⟩ := bytes.mpr ⟨tail, inside, same.symm⟩
    exact asBytes_injective equal ▸ under

/-- Each tail of the host is, lowercased, the name or one of its parents. -/
theorem Lookup.exists_part {host : Text} (lookup : Lookup host) {tail : Bytes}
    (under : List.Under dotByte tail host.stripDot.asBytes) :
    ∃ part : Text, List.Under '.' part (lookupName host) ∧ tail.map lowerByte = part.asBytes := by
  have mapped : List.Under dotByte (tail.map lowerByte) (host.stripDot.asBytes.map lowerByte) := under.map lowerByte
  rw [lookup.lower] at mapped
  exact (under_asBytes_iff lookup.stored).mp mapped

theorem byte_dot_mem_iff {text : Text} (stored : Stored text) : dotByte ∈ text.asBytes ↔ '.' ∈ text := by
  rw [stored.asBytes_eq]
  constructor
  · intro member
    obtain ⟨c, inside, same⟩ := List.mem_map.mp member
    have dot : c = '.' := byte_inj (stored c inside).ascii (by decide) same
    exact dot ▸ inside
  · exact fun inside => List.mem_map.mpr ⟨'.', inside, rfl⟩

theorem dot_mem_of_lower {bytes : Bytes} : dotByte ∈ bytes.map lowerByte ↔ dotByte ∈ bytes := by
  constructor
  · intro member
    obtain ⟨b, inside, same⟩ := List.mem_map.mp member
    exact lowerByte_eq_dot same ▸ inside
  · exact fun inside => List.mem_map.mpr ⟨dotByte, inside, rfl⟩

/-- A tagged name is not a name. -/
theorem tagged_ne {part name : Text} (stored : Stored part) : exactTag ++ name.asBytes ≠ part.asBytes := by
  intro same
  have member : byte '|' ∈ part.asBytes := same ▸ List.mem_cons_self ..
  rw [stored.asBytes_eq] at member
  obtain ⟨c, inside, equal⟩ := List.mem_map.mp member
  exact (stored c inside).ne_bar (byte_inj (stored c inside).ascii (by decide) equal)

/-- No entry of one section collides with a probe. -/
def SectionFree (names exact : List Text) (name : Text) : Prop :=
  ∀ entry ∈ names.map asBytes ++ exact.map (fun host => exactTag ++ host.asBytes), ∀ probe ∈ probes name,
    fnv1a64 entry = fnv1a64 probe → entry = probe

variable {names exact : List Text} {host : Text}

theorem fnv1a64_lower (bytes : Bytes) : fnv1a64 (bytes.map lowerByte) = fnv1a64 bytes := fnv1a64From_lower ..

/-- A section covers a host exactly if it holds the name or a parent. -/
theorem Lookup.covered_iff (lookup : Lookup host) (stored : ∀ name ∈ names, StoredName name)
    (free : SectionFree names exact (lookupName host)) :
    ((DomainSet.tailHashes 127 host.stripDot.asBytes).any
        fun probe => decide (probe.toNat ∈ sortedHashes names exact)) = true ↔
      ∃ rule ∈ names, List.Under '.' rule (lookupName host) := by
  simp only [List.any_eq_true, decide_eq_true_eq, DomainSet.mem_tailHashes_iff lookup.few, mem_sortedHashes_iff]
  constructor
  · rintro ⟨_, ⟨tail, under, dot, rfl⟩, stored⟩
    obtain ⟨part, inside, same⟩ := lookup.exists_part under
    have partStored : Stored part := lookup.stored.sublist inside.suffix.sublist
    have probe : part.asBytes ∈ probes (lookupName host) := by
      refine List.mem_append_left _ (List.mem_map.mpr ⟨part, List.mem_filter.mpr ⟨?_, ?_⟩, rfl⟩)
      · exact List.mem_cons.mpr (List.under_iff_mem.mp inside)
      · rw [decide_eq_true_iff, ← byte_dot_mem_iff partStored, ← same]
        exact dot_mem_of_lower.mpr dot
    rw [← fnv1a64_lower tail, same] at stored
    rcases stored with ⟨rule, member, equal⟩ | ⟨rule, member, equal⟩
    · have entry : rule.asBytes ∈ names.map asBytes ++ exact.map (fun host => exactTag ++ host.asBytes) :=
        List.mem_append_left _ (List.mem_map_of_mem member)
      obtain rfl := asBytes_injective (free _ entry _ probe equal)
      exact ⟨rule, member, inside⟩
    · have entry : exactTag ++ rule.asBytes ∈ names.map asBytes ++ exact.map (fun host => exactTag ++ host.asBytes) :=
        List.mem_append_right _ (List.mem_map.mpr ⟨rule, member, rfl⟩)
      exact absurd (free _ entry _ probe equal) (tagged_ne partStored)
  · rintro ⟨rule, member, under⟩
    obtain ⟨tail, inside, same⟩ := lookup.under_iff.mp under
    refine ⟨_, ⟨tail, inside, ?_, rfl⟩, .inl ⟨rule, member, ?_⟩⟩
    · rw [← dot_mem_of_lower, same, byte_dot_mem_iff (stored rule member).stored]
      exact (stored rule member).dot
    · rw [← same, fnv1a64_lower]

/-- A section holds the tagged host exactly if it has an entry for that host only. -/
theorem Lookup.exactly_iff (lookup : Lookup host) (stored : ∀ name ∈ names, StoredName name)
    (free : SectionFree names exact (lookupName host)) :
    decide ((exactHash host.stripDot.asBytes).toNat ∈ sortedHashes names exact) = true ↔ lookupName host ∈ exact := by
  have hash : exactHash host.stripDot.asBytes = fnv1a64 (exactTag ++ (lookupName host).asBytes) := by
    rw [exactHash_eq, ← fnv1a64_lower, List.map_append, lookup.lower]
    rfl
  have probe : exactTag ++ (lookupName host).asBytes ∈ probes (lookupName host) := by simp [probes]
  rw [decide_eq_true_iff, hash, mem_sortedHashes_iff]
  constructor
  · rintro (⟨rule, member, equal⟩ | ⟨rule, member, equal⟩)
    · have entry : rule.asBytes ∈ names.map asBytes ++ exact.map (fun host => exactTag ++ host.asBytes) :=
        List.mem_append_left _ (List.mem_map_of_mem member)
      exact absurd (free _ entry _ probe equal).symm (tagged_ne (stored rule member).stored)
    · have entry : exactTag ++ rule.asBytes ∈ names.map asBytes ++ exact.map (fun host => exactTag ++ host.asBytes) :=
        List.mem_append_right _ (List.mem_map.mpr ⟨rule, member, rfl⟩)
      have same := free _ entry _ probe equal
      obtain rfl := asBytes_injective (List.append_cancel_left same)
      exact member
  · exact fun member => .inr ⟨_, member, rfl⟩

/-- What a pattern covers, over the host and its parents. -/
theorem Pattern.covers_iff (pattern : Pattern) (bytes : Bytes) : pattern.Covers bytes ↔
    ∃ tail, (tail = bytes ∨ pattern.parents = true ∧ List.Under dotByte tail bytes) ∧
      GlobMatches pattern.glob tail := by
  constructor
  · rintro (whole | ⟨subtree, front, name, rfl, matched⟩)
    · exact ⟨bytes, .inl rfl, whole⟩
    · exact ⟨name, .inr ⟨subtree, .of_append_cons ..⟩, matched⟩
  · rintro ⟨tail, rfl | ⟨subtree, rfl | ⟨front, rfl⟩⟩, matched⟩
    · exact .inl matched
    · exact .inl matched
    · exact .inr ⟨subtree, front, tail, rfl, matched⟩

/-- What a stored pattern says about a name. -/
def EntryApplies (entry : Bool × Text) (name : Text) : Prop :=
  ∃ part, (part = name ∨ entry.1 = true ∧ List.Under '.' part name) ∧ Glob.Matches '*' entry.2 part

theorem globMatches_lower {glob : Text} {tail : Bytes} {part : Text} (stored : Stored glob) (inName : Stored part)
    (same : tail.map lowerByte = part.asBytes) :
    GlobMatches glob.asBytes tail ↔ Glob.Matches '*' glob part := by
  rw [← globMatches_stored stored inName, GlobMatches, GlobMatches, same, inName.lower_eq]

/-- The patterns of a section cover a host exactly if one of them applies to the name. -/
theorem Lookup.patterns_iff (lookup : Lookup host) {patterns : List Pattern} {entries : List (Bool × Text)}
    (same : patterns.map (fun pattern => (pattern.parents, pattern.glob)) =
      entries.map fun entry => (entry.1, entry.2.asBytes))
    (valid : ∀ entry ∈ entries, isValidPattern entry.2 = true) :
    (∃ pattern ∈ patterns, pattern.Covers host.stripDot.asBytes) ↔
      ∃ entry ∈ entries, EntryApplies entry (lookupName host) := by
  have each : ∀ pattern : Pattern, ∀ entry ∈ entries, (pattern.parents, pattern.glob) = (entry.1, entry.2.asBytes) →
      (pattern.Covers host.stripDot.asBytes ↔ EntryApplies entry (lookupName host)) := by
    intro pattern entry member equal
    obtain ⟨parents, glob⟩ := Prod.mk.inj equal
    have stored := (isValidPattern_stored (valid entry member)).stored
    rw [pattern.covers_iff, parents, glob]
    constructor
    · rintro ⟨tail, place, matched⟩
      have under : List.Under dotByte tail host.stripDot.asBytes := by
        rcases place with rfl | ⟨_, under⟩
        · exact .refl ..
        · exact under
      obtain ⟨part, inside, lower⟩ := lookup.exists_part under
      refine ⟨part, ?_, (globMatches_lower stored (lookup.stored.sublist inside.suffix.sublist) lower).mp matched⟩
      rcases place with rfl | ⟨subtree, _⟩
      · rw [lookup.lower] at lower
        exact .inl (asBytes_injective lower).symm
      · exact .inr ⟨subtree, inside⟩
    · rintro ⟨part, place, matched⟩
      have under : List.Under '.' part (lookupName host) := by
        rcases place with rfl | ⟨_, under⟩
        · exact .refl ..
        · exact under
      have inName : Stored part := lookup.stored.sublist under.suffix.sublist
      rcases place with rfl | ⟨subtree, _⟩
      · exact ⟨_, .inl rfl, (globMatches_lower stored inName lookup.lower).mpr matched⟩
      · obtain ⟨tail, inside, lower⟩ := lookup.under_iff.mp under
        exact ⟨tail, .inr ⟨subtree, inside⟩, (globMatches_lower stored inName lower).mpr matched⟩
  constructor
  · rintro ⟨pattern, member, covers⟩
    have listed : (pattern.parents, pattern.glob) ∈ entries.map fun entry => (entry.1, entry.2.asBytes) :=
      same ▸ List.mem_map.mpr ⟨pattern, member, rfl⟩
    obtain ⟨entry, inside, equal⟩ := List.mem_map.mp listed
    exact ⟨entry, inside, (each pattern entry inside equal.symm).mp covers⟩
  · rintro ⟨entry, inside, applies⟩
    have listed : (entry.1, entry.2.asBytes) ∈ patterns.map fun pattern => (pattern.parents, pattern.glob) :=
      same ▸ List.mem_map.mpr ⟨entry, inside, rfl⟩
    obtain ⟨pattern, member, equal⟩ := List.mem_map.mp listed
    exact ⟨pattern, member, (each pattern entry inside equal).mpr applies⟩

end Tollgate

import Tollgate.Model.Filter.PatternSet
import Tollgate.Proofs.Filter.GlobScan
import Tollgate.Proofs.Filter.TrieWalk

/-! # The wildcard index finds every match

A name that matches a pattern starts with its head and ends with its tail, so the candidates that
a trie walk visits include every pattern that can match. Filing by tail, head or neither therefore
loses nothing, and since each candidate is still tried in full, it invents nothing either.
-/

namespace Tollgate

/-- What a pattern says: its glob matches the host or, for `||` patterns, the name after a dot. -/
def Pattern.Covers (pattern : Pattern) (host : Bytes) : Prop :=
  GlobMatches pattern.glob host ∨
    pattern.parents = true ∧ ∃ front name, host = front ++ dotByte :: name ∧ GlobMatches pattern.glob name

private theorem drop_after_dot (front name : Bytes) : (front ++ dotByte :: name).drop (front.length + 1) = name := by
  rw [List.drop_append, List.drop_of_length_le (by omega)]
  simp

/-- The slices after the dots are the names after the dots. -/
theorem parents_eq [Width] {host : Bytes} (fits : Width.fits host.length = true) :
    parents host = some (host.tailsAfter dotByte) := by
  have walk : ∀ front rest : Bytes, front ++ rest = host →
      ((rest.zipIdx front.length).filter fun place => place.1 == dotByte).mapM (fun place => do
        let after ← Width.add place.2 1
        slice host after host.length) = some (rest.tailsAfter dotByte) := by
    intro front rest
    induction rest generalizing front with
    | nil =>
      intro _
      rfl
    | cons byte rest ih =>
      intro whole
      have later := ih (front ++ [byte]) (by rw [List.append_assoc, List.singleton_append, whole])
      rw [List.length_append, List.length_singleton] at later
      rw [List.zipIdx_cons, List.filter_cons, List.tailsAfter]
      by_cases dot : byte = dotByte
      · have inside : front.length + 1 ≤ host.length := by
          rw [← whole, List.length_append, List.length_cons]
          omega
        have here : host.drop (front.length + 1) = rest := by rw [← whole, dot, drop_after_dot]
        rw [if_pos (by rw [dot, beq_self_eq_true]), if_pos dot, List.mapM_cons, Width.add_of_le fits inside, later]
        simp [slice_from inside, here]
      · rw [if_neg (by simpa using dot), if_neg dot]
        exact later
  exact walk [] host rfl

theorem length_of_mem_tailsAfter {host name : Bytes} (member : name ∈ host.tailsAfter dotByte) :
    name.length + 1 ≤ host.length := by
  obtain ⟨front, rfl⟩ := List.mem_tailsAfter_iff.mp member
  simp only [List.length_append, List.length_cons]
  omega

/-- A stored pattern is short. -/
theorem Pattern.glob_fits [Width] (pattern : Pattern) : Width.fits pattern.glob.length = true := by
  obtain ⟨text, valid, same⟩ := pattern.stored
  have short : text.len ≤ 253 := by
    simp only [isValidPattern, Bool.and_eq_true, decide_eq_true_eq] at valid
    exact valid.1.1.1.1
  rw [same]
  exact Width.fits_of_lt (Nat.lt_of_le_of_lt short (by decide))

/-- Trying a pattern returns what the pattern says. -/
theorem Pattern.scan_decides [Width] (pattern : Pattern) {host : Bytes} (fits : Width.fits host.length = true) :
    ∃ found, pattern.scan host = some found ∧ (found = true ↔ pattern.Covers host) := by
  have tried : ∀ name ∈ host.tailsAfter dotByte,
      globScan pattern.glob name = some (globMatches pattern.glob name) := by
    intro name member
    have shorter := length_of_mem_tailsAfter member
    exact globScan_eq pattern.glob_fits (Width.fits_of_le (by omega) fits)
  obtain ⟨parent, ran, decides⟩ := anyM_decides fun name member => Option.isSome_of_eq_some (tried name member)
  refine ⟨globMatches pattern.glob host || (pattern.parents && parent), ?_, ?_⟩
  · rw [scan, globScan_eq pattern.glob_fits fits, parents_eq fits]
    cases pattern.parents <;> simp [ran]
  · simp only [Pattern.Covers, Bool.or_eq_true, Bool.and_eq_true, decides, globMatches_iff]
    constructor
    · rintro (whole | ⟨subtree, name, member, matched⟩)
      · exact .inl whole
      · obtain ⟨front, split⟩ := List.mem_tailsAfter_iff.mp member
        rw [tried name member] at matched
        exact .inr ⟨subtree, front, name, split, (globMatches_iff _ _).mp (Option.some.inj matched)⟩
    · rintro (whole | ⟨subtree, front, name, split, matched⟩)
      · exact .inl whole
      · have member := List.mem_tailsAfter_iff.mpr ⟨front, split⟩
        exact .inr ⟨subtree, name, member, by rw [tried name member, (globMatches_iff _ _).mpr matched]⟩

theorem Pattern.matchesHost_iff (pattern : Pattern) (host : Bytes) :
    pattern.matchesHost host = true ↔ pattern.Covers host := by
  obtain ⟨found, ran, decides⟩ := @scan_decides _ pattern host rfl
  rw [matchesHost, ran]
  exact decides

theorem Pattern.scan_eq [Width] (pattern : Pattern) {host : Bytes} (fits : Width.fits host.length = true) :
    pattern.scan host = some (pattern.matchesHost host) := by
  obtain ⟨found, ran, decides⟩ := pattern.scan_decides fits
  rw [ran, Bool.eq_iff_iff.mpr (decides.trans (pattern.matchesHost_iff host).symm)]

theorem Pattern.head_isPrefix {pattern : Pattern} {text : Bytes} (matched : GlobMatches pattern.glob text) :
    pattern.head <+: text.map lowerByte := by
  have plain : starByte ∉ pattern.head := by
    intro member
    simpa using List.mem_takeWhile_imp member
  have split := List.takeWhile_append_dropWhile (p := (· != starByte)) (l := pattern.glob)
  rw [GlobMatches, ← split] at matched
  obtain ⟨rest, equal, _⟩ := (Glob.Matches.head_iff plain).mp matched
  exact ⟨rest, equal.symm⟩

theorem Pattern.tail_isSuffix {pattern : Pattern} {text : Bytes} (matched : GlobMatches pattern.glob text) :
    pattern.tail <:+ text.map lowerByte := by
  have plain : starByte ∉ pattern.tail := by
    intro member
    simpa using List.mem_rtakeWhile_imp member
  obtain ⟨front, split⟩ : pattern.tail <:+ pattern.glob := List.rtakeWhile_suffix ..
  rw [GlobMatches, ← split] at matched
  exact Glob.Matches.tail_suffix plain matched

namespace PatternSet

/-- Whether a pattern is filed under its tail. -/
def byTail (pattern : Pattern) : Bool := !pattern.tail.isEmpty && pattern.head.length ≤ pattern.tail.length

/-- Whether a pattern is filed under its head. -/
def byHead (pattern : Pattern) : Bool := !byTail pattern && !pattern.head.isEmpty

/-- What the loop of `new` has collected from numbered patterns. -/
def collected (numbered : List (Pattern × ℕ)) : Filed where
  heads := (numbered.filter fun entry => byHead entry.1).map fun entry => (entry.1.head, entry.2)
  tails := (numbered.filter fun entry => byTail entry.1).map fun entry => (entry.1.tail.reverse, entry.2)
  unkeyed := (numbered.filter fun entry => !byTail entry.1 && !byHead entry.1).map Prod.snd

private theorem file_collected (before : List (Pattern × ℕ)) (numbered : Pattern × ℕ) :
    file (collected before) numbered =
      if numbered.2 < 2 ^ 32 then some (collected (before ++ [numbered])) else none := by
  rw [file, expectU32]
  by_cases fits : numbered.2 < 2 ^ 32
  · rw [if_pos fits, if_pos fits]
    simp only [Option.bind_eq_bind, Option.bind_some]
    change (if byTail numbered.1 = true then _ else _) = _
    by_cases tail : byTail numbered.1 = true
    · simp [collected, tail, byHead]
    · by_cases head : numbered.1.head.isEmpty = true
      · simp [collected, tail, byHead, head]
      · simp [collected, tail, byHead, head]
  · rw [if_neg fits, if_neg fits]
    rfl

private theorem fold_file (before numbered : List (Pattern × ℕ)) :
    numbered.foldlM file (collected before) =
      if ∀ entry ∈ numbered, entry.2 < 2 ^ 32 then some (collected (before ++ numbered)) else none := by
  induction numbered generalizing before with
  | nil => simp
  | cons entry rest ih =>
    rw [List.foldlM_cons, file_collected]
    by_cases fits : entry.2 < 2 ^ 32
    · rw [if_pos fits]
      simp only [Option.bind_eq_bind, Option.bind_some, ih, List.append_assoc, List.singleton_append,
        List.forall_mem_cons, fits, true_and]
    · have outside : ¬ ∀ other ∈ entry :: rest, other.2 < 2 ^ 32 := fun all => fits (all entry (by simp))
      rw [if_neg fits, if_neg outside]
      rfl

private theorem tails_nonempty (numbered : List (Pattern × ℕ)) : ∀ entry ∈ (collected numbered).tails, entry.1 ≠ [] := by
  intro entry member
  obtain ⟨source, inside, rfl⟩ := List.mem_map.mp member
  have filed := (List.mem_filter.mp inside).2
  simp only [byTail, Bool.and_eq_true, Bool.not_eq_true', List.isEmpty_eq_false_iff] at filed
  simpa using filed.1

private theorem heads_nonempty (numbered : List (Pattern × ℕ)) : ∀ entry ∈ (collected numbered).heads, entry.1 ≠ [] := by
  intro entry member
  obtain ⟨source, inside, rfl⟩ := List.mem_map.mp member
  have filed := (List.mem_filter.mp inside).2
  simp only [byHead, Bool.and_eq_true, Bool.not_eq_true', List.isEmpty_eq_false_iff] at filed
  exact filed.2

section Lookup

variable [Width]

/-- What `new` returns, in terms of the two tries it builds. -/
theorem new_eq_some_iff {patterns : List Pattern} {set : PatternSet} :
    new patterns = some set ↔ patterns.length ≤ 2 ^ 32 ∧ set.patterns = patterns ∧
      Trie.new (collected patterns.zipIdx).heads = some set.heads ∧
      Trie.new (collected patterns.zipIdx).tails = some set.tails ∧
      set.unkeyed = (collected patterns.zipIdx).unkeyed := by
  have numbers : (∀ entry ∈ patterns.zipIdx, entry.2 < 2 ^ 32) ↔ patterns.length ≤ 2 ^ 32 := by
    constructor
    · intro all
      by_contra large
      have inside : 2 ^ 32 < patterns.length := not_le.mp large
      have member : (patterns[2 ^ 32], 2 ^ 32) ∈ patterns.zipIdx := by
        rw [List.mem_zipIdx_iff_getElem?]
        exact List.getElem?_eq_getElem inside
      exact lt_irrefl _ (all _ member)
    · intro small entry member
      have bound := List.snd_lt_of_mem_zipIdx member
      omega
  have start : (⟨[], [], []⟩ : Filed) = collected [] := rfl
  rw [new, start, fold_file, List.nil_append]
  by_cases small : patterns.length ≤ 2 ^ 32
  · rw [if_pos (numbers.mpr small)]
    simp only [Option.bind_eq_bind, Option.bind_some, Option.bind_eq_some_iff, Option.some.injEq]
    constructor
    · rintro ⟨heads, builtHeads, tails, builtTails, rfl⟩
      exact ⟨small, rfl, builtHeads, builtTails, rfl⟩
    · rintro ⟨_, rfl, builtHeads, builtTails, equal⟩
      exact ⟨_, builtHeads, _, builtTails, by rw [← equal]⟩
  · rw [if_neg (fun all => small (numbers.mp all))]
    exact ⟨fun built => (nomatch built), fun built => absurd built.1 small⟩

variable {patterns : List Pattern} {set : PatternSet} {host : Bytes}

/-- A trie lookup tries the patterns of its kind whose key starts the text. -/
private theorem any_decides (kind accepts : Pattern → Bool) (key : Pattern → Bytes) {entries : List Entry}
    {trie : Trie} {f : ℕ → Option Bool} (text : Bytes)
    (filed : entries = (patterns.zipIdx.filter fun entry => kind entry.1).map fun entry => (key entry.1, entry.2))
    (nonempty : ∀ entry ∈ entries, entry.1 ≠ []) (built : Trie.new entries = some trie)
    (tried : ∀ id pattern, patterns[id]? = some pattern → f id = some (accepts pattern)) :
    ∃ found, trie.any text f = some found ∧
      (found = true ↔ ∃ pattern ∈ patterns, kind pattern = true ∧ key pattern <+: text ∧ accepts pattern = true) := by
  have members : ∀ id, id ∈ Trie.candidates entries text ↔
      ∃ pattern, patterns[id]? = some pattern ∧ kind pattern = true ∧ key pattern <+: text := by
    intro id
    simp only [Trie.mem_candidates_iff, filed, List.mem_map, List.mem_filter, Prod.mk.injEq]
    constructor
    · rintro ⟨_, ⟨entry, ⟨inside, kept⟩, rfl, rfl⟩, starts⟩
      exact ⟨entry.1, List.mem_zipIdx_iff_getElem?.mp inside, kept, starts⟩
    · rintro ⟨pattern, at_, kept, starts⟩
      exact ⟨_, ⟨(pattern, id), ⟨List.mem_zipIdx_iff_getElem?.mpr at_, kept⟩, rfl, rfl⟩, starts⟩
  have total : ∀ id ∈ Trie.candidates entries text, (f id).isSome = true := by
    intro id member
    obtain ⟨pattern, at_, _⟩ := (members id).mp member
    rw [tried id pattern at_]
    rfl
  obtain ⟨found, ran, decides⟩ := anyM_decides total
  refine ⟨found, (Trie.any_of_new nonempty built text f).trans ran, decides.trans ?_⟩
  constructor
  · rintro ⟨id, member, accepted⟩
    obtain ⟨pattern, at_, kept, starts⟩ := (members id).mp member
    rw [tried id pattern at_] at accepted
    exact ⟨pattern, List.mem_of_getElem? at_, kept, starts, Option.some.inj accepted⟩
  · rintro ⟨pattern, inside, kept, starts, accepted⟩
    obtain ⟨id, at_⟩ := List.mem_iff_getElem?.mp inside
    exact ⟨id, (members id).mpr ⟨pattern, at_, kept, starts⟩, by rw [tried id pattern at_, accepted]⟩

private theorem tryPattern_eq {id : ℕ} {pattern : Pattern} (fits : Width.fits host.length = true)
    (at_ : set.patterns[id]? = some pattern) : set.tryPattern host id = some (pattern.matchesHost host) := by
  rw [tryPattern, at_]
  exact pattern.scan_eq fits

private theorem tryHead_eq {name : Bytes} {start id : ℕ} {pattern : Pattern} (fits : Width.fits name.length = true)
    (at_ : set.patterns[id]? = some pattern) :
    set.tryHead name start id = some ((start == 0 || pattern.parents) && globMatches pattern.glob name) := by
  rw [tryHead, at_, Option.bind_eq_bind, Option.bind_some, globScan_eq pattern.glob_fits fits]
  cases start == 0 || pattern.parents <;> rfl

/-- The tail lookup finds every match of a pattern filed under its tail. -/
private theorem tails_decide (built : new patterns = some set) (fits : Width.fits host.length = true) :
    ∃ found, set.tails.any (host.reverse.map lowerByte) (set.tryPattern host) = some found ∧
      (found = true ↔ ∃ pattern ∈ patterns, byTail pattern = true ∧ pattern.Covers host) := by
  obtain ⟨_, rfl, _, tails, _⟩ := new_eq_some_iff.mp built
  obtain ⟨found, ran, decides⟩ := any_decides byTail (·.matchesHost host) (·.tail.reverse)
    (host.reverse.map lowerByte) rfl (tails_nonempty _) tails (fun _ _ at_ => tryPattern_eq fits at_)
  refine ⟨found, ran, decides.trans ?_⟩
  constructor
  · rintro ⟨pattern, inside, kept, _, accepted⟩
    exact ⟨pattern, inside, kept, (pattern.matchesHost_iff host).mp accepted⟩
  · rintro ⟨pattern, inside, kept, covers⟩
    refine ⟨pattern, inside, kept, ?_, (pattern.matchesHost_iff host).mpr covers⟩
    rw [List.map_reverse, List.reverse_prefix]
    rcases covers with whole | ⟨_, front, name, rfl, matched⟩
    · exact pattern.tail_isSuffix whole
    · have inName := pattern.tail_isSuffix matched
      rw [List.map_append, List.map_cons]
      exact inName.trans ((List.suffix_cons ..).trans (List.suffix_append ..))

/-- The head lookups start at the host and behind each of its dots. -/
private theorem labelStarts_eq (fits : Width.fits host.length = true) :
    ∃ starts, labelStarts host = some starts ∧ ∀ start, start ∈ starts ↔
      start = 0 ∨ ∃ front name, host = front ++ dotByte :: name ∧ start = front.length + 1 := by
  have read : ((host.tailsAfter dotByte).mapM fun name => Width.sub host.length name.length) =
      some ((host.tailsAfter dotByte).map fun name => host.length - name.length) := by
    apply mapM_total
    intro name member
    have shorter := length_of_mem_tailsAfter member
    exact if_pos (by omega)
  refine ⟨0 :: (host.tailsAfter dotByte).map fun name => host.length - name.length, ?_, fun start => ?_⟩
  · rw [labelStarts, parents_eq fits, Option.bind_eq_bind, Option.bind_some, read]
    rfl
  · simp only [List.mem_cons, List.mem_map, List.mem_tailsAfter_iff]
    constructor
    · rintro (rfl | ⟨name, ⟨front, rfl⟩, rfl⟩)
      · exact .inl rfl
      · refine .inr ⟨front, name, rfl, ?_⟩
        simp only [List.length_append, List.length_cons]
        omega
    · rintro (rfl | ⟨front, name, rfl, rfl⟩)
      · exact .inl rfl
      · refine .inr ⟨name, ⟨front, rfl⟩, ?_⟩
        simp only [List.length_append, List.length_cons]
        omega

private theorem headMatchesAt_decides (built : new patterns = some set) (fits : Width.fits host.length = true)
    {start : ℕ} (inside : start ≤ host.length) : ∃ found, set.headMatchesAt host start = some found ∧
      (found = true ↔ ∃ pattern ∈ patterns, byHead pattern = true ∧ pattern.head <+: (host.drop start).map lowerByte ∧
        ((start == 0 || pattern.parents) && globMatches pattern.glob (host.drop start)) = true) := by
  obtain ⟨_, rfl, heads, _, _⟩ := new_eq_some_iff.mp built
  have shorter : Width.fits (host.drop start).length = true :=
    Width.fits_of_le (by rw [List.length_drop]; omega) fits
  rw [headMatchesAt, slice_from inside, Option.bind_eq_bind, Option.bind_some]
  exact any_decides byHead
    (fun pattern => (start == 0 || pattern.parents) && globMatches pattern.glob (host.drop start))
    (·.head) _ rfl (heads_nonempty _) heads (fun _ _ at_ => tryHead_eq shorter at_)

/-- The head lookups find every match of a pattern filed under its head. -/
private theorem heads_decide (built : new patterns = some set) (fits : Width.fits host.length = true) :
    ∃ found, (labelStarts host >>= fun starts => starts.anyM (set.headMatchesAt host)) = some found ∧
      (found = true ↔ ∃ pattern ∈ patterns, byHead pattern = true ∧ pattern.Covers host) := by
  obtain ⟨starts, cut, mem_starts_iff⟩ := labelStarts_eq fits
  rw [cut, Option.bind_eq_bind, Option.bind_some]
  have within : ∀ start ∈ starts, start ≤ host.length := by
    intro start member
    rcases (mem_starts_iff start).mp member with rfl | ⟨front, name, rfl, rfl⟩
    · exact Nat.zero_le _
    · simp only [List.length_append, List.length_cons]
      omega
  have each := fun start member => headMatchesAt_decides built fits (within start member)
  have total : ∀ start ∈ starts, (set.headMatchesAt host start).isSome = true := by
    intro start member
    obtain ⟨found, ran, _⟩ := each start member
    exact Option.isSome_of_eq_some ran
  obtain ⟨found, ran, decides⟩ := anyM_decides total
  refine ⟨found, ran, decides.trans ?_⟩
  constructor
  · rintro ⟨start, inside, accepted⟩
    obtain ⟨_, ran, decides⟩ := each start inside
    obtain rfl := Option.some.inj (ran.symm.trans accepted)
    obtain ⟨pattern, member, kept, _, matched⟩ := decides.mp rfl
    simp only [Bool.and_eq_true, Bool.or_eq_true, beq_iff_eq, globMatches_iff] at matched
    refine ⟨pattern, member, kept, ?_⟩
    rcases (mem_starts_iff start).mp inside with rfl | ⟨front, name, rfl, rfl⟩
    · exact .inl matched.2
    · rw [drop_after_dot] at matched
      rcases matched.1 with zero | subtree
      · contradiction
      · exact .inr ⟨subtree, front, name, rfl, matched.2⟩
  · rintro ⟨pattern, member, kept, covers⟩
    obtain ⟨start, inside, allowed, matched⟩ : ∃ start ∈ starts,
        (start = 0 ∨ pattern.parents = true) ∧ GlobMatches pattern.glob (host.drop start) := by
      rcases covers with whole | ⟨subtree, front, name, rfl, matched⟩
      · exact ⟨0, (mem_starts_iff 0).mpr (.inl rfl), .inl rfl, whole⟩
      · exact ⟨_, (mem_starts_iff _).mpr (.inr ⟨front, name, rfl, rfl⟩), .inr subtree,
          by rwa [drop_after_dot]⟩
    obtain ⟨_, ran, decides⟩ := each start inside
    refine ⟨start, inside, ran.trans (congrArg some (decides.mpr ⟨pattern, member, kept, ?_, ?_⟩))⟩
    · exact pattern.head_isPrefix matched
    · simpa [globMatches_iff] using ⟨allowed, matched⟩

/-- Patterns with neither key are all tried. -/
private theorem unkeyed_decide (built : new patterns = some set) (fits : Width.fits host.length = true) :
    ∃ found, set.unkeyed.anyM (set.tryPattern host) = some found ∧
      (found = true ↔ ∃ pattern ∈ patterns, (byTail pattern = false ∧ byHead pattern = false) ∧
        pattern.Covers host) := by
  obtain ⟨_, rfl, _, _, unkeyed⟩ := new_eq_some_iff.mp built
  have members : ∀ id, id ∈ set.unkeyed ↔
      ∃ pattern, set.patterns[id]? = some pattern ∧ byTail pattern = false ∧ byHead pattern = false := by
    intro id
    simp only [unkeyed, collected, List.mem_map, List.mem_filter, Bool.and_eq_true, Bool.not_eq_true']
    constructor
    · rintro ⟨entry, ⟨inside, kept⟩, rfl⟩
      exact ⟨entry.1, List.mem_zipIdx_iff_getElem?.mp inside, kept⟩
    · rintro ⟨pattern, at_, kept⟩
      exact ⟨(pattern, id), ⟨List.mem_zipIdx_iff_getElem?.mpr at_, kept⟩, rfl⟩
  have total : ∀ id ∈ set.unkeyed, (set.tryPattern host id).isSome = true := by
    intro id member
    obtain ⟨pattern, at_, _⟩ := (members id).mp member
    rw [tryPattern_eq fits at_]
    rfl
  obtain ⟨found, ran, decides⟩ := anyM_decides total
  refine ⟨found, ran, decides.trans ?_⟩
  constructor
  · rintro ⟨id, member, accepted⟩
    obtain ⟨pattern, at_, kept⟩ := (members id).mp member
    rw [tryPattern_eq fits at_] at accepted
    exact ⟨pattern, List.mem_of_getElem? at_, kept, (pattern.matchesHost_iff host).mp (Option.some.inj accepted)⟩
  · rintro ⟨pattern, inside, kept, covers⟩
    obtain ⟨id, at_⟩ := List.mem_iff_getElem?.mp inside
    exact ⟨id, (members id).mpr ⟨pattern, at_, kept⟩,
      (tryPattern_eq fits at_).trans (congrArg some ((pattern.matchesHost_iff host).mpr covers))⟩

private theorem heads_empty (built : new patterns = some set) (none : set.heads.isEmpty = true) :
    ∀ pattern ∈ patterns, byHead pattern = false := by
  obtain ⟨_, rfl, heads, _, _⟩ := new_eq_some_iff.mp built
  intro pattern inside
  by_contra kept
  rw [Bool.not_eq_false] at kept
  obtain ⟨id, at_⟩ := List.mem_iff_getElem?.mp inside
  have member : (pattern.head, id) ∈ (collected set.patterns.zipIdx).heads :=
    List.mem_map.mpr ⟨(pattern, id), List.mem_filter.mpr ⟨List.mem_zipIdx_iff_getElem?.mpr at_, kept⟩, rfl⟩
  obtain ⟨nodes, complete⟩ := Trie.new_complete (List.ne_nil_of_mem member) heads
  rw [Trie.isEmpty, complete.table, List.isEmpty_iff_length_eq_zero, Trie.setRoot_length,
    List.length_replicate] at none
  contradiction

/-- A set that was built never panics and finds exactly the hosts its patterns cover. -/
theorem matchesHost_decides (built : new patterns = some set) (fits : Width.fits host.length = true) :
    ∃ found, set.matchesHost host = some found ∧
      (found = true ↔ ∃ pattern ∈ patterns, pattern.Covers host) := by
  obtain ⟨tailFound, tailsRan, tails⟩ := tails_decide built fits
  obtain ⟨headFound, headsRan, heads⟩ := heads_decide built fits
  obtain ⟨restFound, restRan, rest⟩ := unkeyed_decide built fits
  have headsRan : set.headMatches host = some headFound := by
    rw [headMatches]
    split
    · next none =>
      have nothing : headFound = false := by
        by_contra found
        obtain ⟨pattern, inside, kept, _⟩ := heads.mp (Bool.not_eq_false _ ▸ found)
        rw [heads_empty built none pattern inside] at kept
        contradiction
      rw [nothing]
    · exact headsRan
  refine ⟨tailFound || headFound || restFound, ?_, ?_⟩
  · rw [matchesHost, tailsRan]
    simp only [Option.bind_eq_bind, Option.bind_some, headsRan, restRan]
    cases tailFound <;> cases headFound <;> rfl
  · simp only [Bool.or_eq_true, tails, heads, rest]
    constructor
    · rintro ((⟨pattern, inside, _, covers⟩ | ⟨pattern, inside, _, covers⟩) | ⟨pattern, inside, _, covers⟩) <;>
        exact ⟨pattern, inside, covers⟩
    · rintro ⟨pattern, inside, covers⟩
      by_cases tail : byTail pattern = true
      · exact .inl (.inl ⟨pattern, inside, tail, covers⟩)
      by_cases head : byHead pattern = true
      · exact .inl (.inr ⟨pattern, inside, head, covers⟩)
      · exact .inr ⟨pattern, inside, ⟨Bool.not_eq_true _ ▸ tail, Bool.not_eq_true _ ▸ head⟩, covers⟩

end Lookup

private theorem edgeBound_le (kind : Pattern → Bool) {key : Pattern → Bytes}
    (shorter : ∀ pattern, (key pattern).length ≤ pattern.glob.length) (numbered : List (Pattern × ℕ)) :
    Trie.edgeBound ((numbered.filter fun entry => kind entry.1).map fun entry => (key entry.1, entry.2)) ≤
      ((numbered.map Prod.fst).map fun pattern => pattern.glob.length).sum := by
  induction numbered with
  | nil => simp [Trie.edgeBound]
  | cons entry rest ih =>
    have here := shorter entry.1
    simp only [Trie.edgeBound, List.filter_cons] at ih ⊢
    split <;> simp only [List.map_cons, List.sum_cons] <;> omega

private theorem glob_nonempty (pattern : Pattern) : 1 ≤ pattern.glob.length := by
  obtain ⟨text, valid, same⟩ := pattern.stored
  cases text with
  | nil => simp [isValidPattern] at valid
  | cons c rest =>
    rw [same, Text.asBytes, List.flatMap_cons, List.length_append]
    have size := String.length_utf8EncodeChar c
    have positive := c.utf8Size_pos
    omega

theorem heads_edgeBound_le (patterns : List Pattern) :
    Trie.edgeBound (collected patterns.zipIdx).heads ≤ (patterns.map fun pattern => pattern.glob.length).sum := by
  have shorter : ∀ pattern : Pattern, pattern.head.length ≤ pattern.glob.length :=
    fun pattern => (List.takeWhile_prefix _).length_le
  have bound := edgeBound_le byHead shorter patterns.zipIdx
  rwa [List.zipIdx_map_fst] at bound

theorem tails_edgeBound_le (patterns : List Pattern) :
    Trie.edgeBound (collected patterns.zipIdx).tails ≤ (patterns.map fun pattern => pattern.glob.length).sum := by
  have shorter : ∀ pattern : Pattern, pattern.tail.reverse.length ≤ pattern.glob.length := by
    intro pattern
    rw [List.length_reverse]
    exact (List.rtakeWhile_suffix _ _).length_le
  have bound := edgeBound_le byTail shorter patterns.zipIdx
  rwa [List.zipIdx_map_fst] at bound

/-- Building returns while the globs hold fewer than `2 ^ 32` bytes. -/
theorem new_isSome [Width] {patterns : List Pattern}
    (small : (patterns.map fun pattern => pattern.glob.length).sum < 2 ^ 32) :
    (new patterns).isSome = true := by
  have headsBuilt := Trie.new_isSome (heads_nonempty _) ((heads_edgeBound_le patterns).trans_lt small)
  have tailsBuilt := Trie.new_isSome (tails_nonempty _) ((tails_edgeBound_le patterns).trans_lt small)
  obtain ⟨heads, headsBuilt⟩ := Option.isSome_iff_exists.mp headsBuilt
  obtain ⟨tails, tailsBuilt⟩ := Option.isSome_iff_exists.mp tailsBuilt
  have count : patterns.length ≤ (patterns.map fun pattern => pattern.glob.length).sum := by
    have each := List.length_le_sum_of_one_le (patterns.map fun pattern => pattern.glob.length) (by
      intro length member
      obtain ⟨pattern, _, rfl⟩ := List.mem_map.mp member
      exact glob_nonempty pattern)
    simpa using each
  have built : new patterns = some ⟨patterns, heads, tails, _⟩ :=
    new_eq_some_iff.mpr ⟨by omega, rfl, headsBuilt, tailsBuilt, rfl⟩
  rw [built]
  rfl

end PatternSet

end Tollgate

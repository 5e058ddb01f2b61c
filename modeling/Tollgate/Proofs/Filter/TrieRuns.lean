import Tollgate.Model.Filter.Trie
import Mathlib.Data.List.Lex

/-! # Runs of sorted strings

A node of the trie is a run of entries whose strings agree up to its depth and are sorted from
there on. Its own entries are the ones that end at the node, its children split the others by
their next byte, and both keep the sorted order. `reached` lists the ids whose string starts a
text, as seen from a node; one step along the text splits it into the node's own ids and what the
child of the next byte reaches.
-/

namespace Tollgate.Trie

/-- The entries of a node are at least as long as its path and sorted by what follows the path. -/
structure SortedRun (node : Node) : Prop where
  long : ∀ entry ∈ node.1, node.2 ≤ entry.1.length
  sorted : node.1.Pairwise (fun a b => a.1.drop node.2 ≤ b.1.drop node.2)

private theorem takeWhile_eq_filter {α : Type*} {p : α → Bool} {xs : List α}
    (closed : xs.Pairwise (fun a b => p b = true → p a = true)) :
    xs.takeWhile p = xs.filter p ∧ xs.dropWhile p = xs.filter (fun x => !p x) := by
  induction xs with
  | nil => simp
  | cons x xs ih =>
    obtain ⟨head, tail⟩ := List.pairwise_cons.mp closed
    obtain ⟨taken, dropped⟩ := ih tail
    by_cases holds : p x = true
    · simp [holds, taken, dropped]
    · have none : ∀ y ∈ xs, p y = false := fun y member =>
        Bool.eq_false_iff.mpr (fun later => holds (head y member later))
      have noneKept : xs.filter p = [] := List.filter_eq_nil_iff.mpr (fun y member => by simp [none y member])
      have allKept : xs.filter (fun y => !p y) = xs :=
        List.filter_eq_self.mpr (fun y member => by simp [none y member])
      simp [holds, noneKept, allKept]

variable {node : Node}

private theorem SortedRun.ends_first (run : SortedRun node) :
    node.1.Pairwise (fun a b => (b.1.length == node.2) = true → (a.1.length == node.2) = true) := by
  refine run.sorted.imp_of_mem ?_
  intro a b memberA _ ordered ends
  simp only [beq_iff_eq] at ends ⊢
  rw [List.drop_eq_nil_of_le (le_of_eq ends)] at ordered
  have exhausted : a.1.drop node.2 = [] := List.le_nil.mp ordered
  have short := List.drop_eq_nil_iff.mp exhausted
  have long := run.long a memberA
  omega

theorem SortedRun.ownRun_eq (run : SortedRun node) :
    ownRun node = node.1.filter (fun entry => entry.1.length == node.2) :=
  (takeWhile_eq_filter run.ends_first).1

theorem SortedRun.restRun_eq (run : SortedRun node) :
    restRun node = node.1.filter (fun entry => !(entry.1.length == node.2)) :=
  (takeWhile_eq_filter run.ends_first).2

theorem SortedRun.restRun_long (run : SortedRun node) : ∀ entry ∈ restRun node, node.2 < entry.1.length := by
  intro entry member
  rw [run.restRun_eq] at member
  obtain ⟨inRun, notEnd⟩ := List.mem_filter.mp member
  have long := run.long entry inRun
  simp only [Bool.not_eq_true', beq_eq_false_iff_ne] at notEnd
  omega

private theorem drop_eq_cons {key : Bytes} {depth : ℕ} (long : depth < key.length) :
    key.drop depth = key[depth] :: key.drop (depth + 1) := List.drop_eq_getElem_cons long

theorem SortedRun.restRun_sorted (run : SortedRun node) :
    (restRun node).Pairwise (fun a b => a.1.drop node.2 ≤ b.1.drop node.2) := by
  rw [run.restRun_eq]
  exact run.sorted.filter _

/-- Cutting a run loses no entry, and every part agrees on the byte it is filed under. -/
theorem childRuns_spec {depth : ℕ} {run : List Entry} (long : ∀ entry ∈ run, depth < entry.1.length) :
    ∃ groups, childRuns depth run = some groups ∧ groups.flatMap Prod.snd = run ∧
      ∀ group ∈ groups, group.2 ≠ [] ∧ ∀ entry ∈ group.2, entry.1[depth]? = some group.1 := by
  induction run with
  | nil => exact ⟨[], rfl, rfl, by simp⟩
  | cons entry rest ih =>
    obtain ⟨headLong, tailLong⟩ := List.forall_mem_cons.mp long
    obtain ⟨groups, cut, joined, agree⟩ := ih tailLong
    have byte : entry.1[depth]? = some entry.1[depth] := List.getElem?_eq_getElem headLong
    rw [childRuns, byte, cut]
    simp only [Option.bind_eq_bind, Option.bind_some]
    cases groups with
    | nil =>
      refine ⟨_, rfl, ?_, ?_⟩
      · simpa using joined
      · exact List.forall_mem_singleton.mpr ⟨by simp, List.forall_mem_singleton.mpr byte⟩
    | cons first more =>
      obtain ⟨firstAgree, moreAgree⟩ := List.forall_mem_cons.mp agree
      dsimp only
      split
      · next same =>
        refine ⟨_, rfl, ?_, ?_⟩
        · simpa using joined
        · refine List.forall_mem_cons.mpr ⟨⟨by simp, ?_⟩, moreAgree⟩
          exact List.forall_mem_cons.mpr ⟨by rw [byte, same], firstAgree.2⟩
      · refine ⟨_, rfl, ?_, ?_⟩
        · simpa using joined
        · exact List.forall_mem_cons.mpr ⟨⟨by simp, List.forall_mem_singleton.mpr byte⟩, agree⟩

/-- The parts of a sorted run come in strictly increasing byte order. -/
theorem childRuns_increasing {depth : ℕ} {run : List Entry} (long : ∀ entry ∈ run, depth < entry.1.length)
    (sorted : run.Pairwise (fun a b => a.1.drop depth ≤ b.1.drop depth))
    {groups : List (UInt8 × List Entry)} (cut : childRuns depth run = some groups) :
    (groups.map Prod.fst).Pairwise (fun a b => a.toNat < b.toNat) := by
  induction run generalizing groups with
  | nil =>
    obtain rfl := Option.some.inj cut
    exact .nil
  | cons entry rest ih =>
    obtain ⟨headLong, tailLong⟩ := List.forall_mem_cons.mp long
    obtain ⟨headSorted, tailSorted⟩ := List.pairwise_cons.mp sorted
    obtain ⟨tailGroups, tailCut, joined, agree⟩ := childRuns_spec tailLong
    have increasing := ih tailLong tailSorted tailCut
    have byte : entry.1[depth]? = some entry.1[depth] := List.getElem?_eq_getElem headLong
    rw [childRuns, byte, tailCut] at cut
    simp only [Option.bind_eq_bind, Option.bind_some] at cut
    cases tailGroups with
    | nil =>
      obtain rfl := Option.some.inj cut
      exact List.pairwise_singleton ..
    | cons first more =>
      dsimp only at cut
      split at cut
      · obtain rfl := Option.some.inj cut
        exact increasing
      · next different =>
        obtain rfl := Option.some.inj cut
        obtain ⟨nonempty, sameByte⟩ := agree first (List.mem_cons_self ..)
        obtain ⟨other, otherMem⟩ := List.exists_mem_of_ne_nil _ nonempty
        have inRest : other ∈ rest := joined ▸ List.mem_flatMap.mpr ⟨first, List.mem_cons_self .., otherMem⟩
        have ordered := headSorted other inRest
        have otherLong := tailLong other inRest
        obtain ⟨_, otherByte⟩ := List.getElem?_eq_some_iff.mp (sameByte other otherMem)
        rw [drop_eq_cons headLong, drop_eq_cons otherLong, List.cons_le_cons_iff, otherByte] at ordered
        have less : entry.1[depth].toNat < first.1.toNat := by
          rcases ordered with less | ⟨equal, _⟩
          · exact UInt8.lt_iff_toNat_lt.mp less
          · exact absurd equal.symm different
        refine List.pairwise_cons.mpr ⟨?_, increasing⟩
        intro later member
        rcases List.mem_cons.mp member with rfl | member
        · exact less
        · exact less.trans ((List.pairwise_cons.mp increasing).1 later member)

/-- The children of a node with the bytes that lead to them. -/
def kids (node : Node) : List (UInt8 × List Entry) := (childRuns node.2 (restRun node)).getD []

def kidBytes (node : Node) : Bytes := (kids node).map Prod.fst

def kidNodes (node : Node) : List Node := (kids node).map fun child => (child.2, node.2 + 1)

def ownIds (node : Node) : List ℕ := (ownRun node).map Prod.snd

@[simp] theorem kidNodes_length (node : Node) : (kidNodes node).length = (kidBytes node).length := by
  simp [kidNodes, kidBytes]

theorem SortedRun.childRuns_eq (run : SortedRun node) :
    childRuns node.2 (restRun node) = some (kids node) := by
  obtain ⟨groups, cut, _⟩ := childRuns_spec run.restRun_long
  simp [kids, cut]

theorem SortedRun.kids_join (run : SortedRun node) : (kids node).flatMap Prod.snd = restRun node := by
  obtain ⟨groups, cut, joined, _⟩ := childRuns_spec run.restRun_long
  simpa [kids, cut] using joined

theorem SortedRun.kids_agree (run : SortedRun node) :
    ∀ child ∈ kids node, child.2 ≠ [] ∧ ∀ entry ∈ child.2, entry.1[node.2]? = some child.1 := by
  obtain ⟨groups, cut, _, agree⟩ := childRuns_spec run.restRun_long
  simpa [kids, cut] using agree

theorem SortedRun.kidBytes_increasing (run : SortedRun node) :
    (kidBytes node).Pairwise (fun a b => a.toNat < b.toNat) :=
  childRuns_increasing run.restRun_long run.restRun_sorted run.childRuns_eq

theorem SortedRun.kid_sublist (run : SortedRun node) {child : UInt8 × List Entry} (member : child ∈ kids node) :
    child.2.Sublist (restRun node) := by
  rw [← run.kids_join, List.flatMap_def]
  exact List.sublist_flatten_of_mem (List.mem_map_of_mem (f := Prod.snd) member)

/-- The children of a sorted run are sorted runs one level deeper. -/
theorem SortedRun.kid (run : SortedRun node) {child : UInt8 × List Entry} (member : child ∈ kids node) :
    SortedRun (child.2, node.2 + 1) := by
  have inRest := run.kid_sublist member
  have agree := (run.kids_agree child member).2
  refine ⟨fun entry inChild => run.restRun_long entry (inRest.subset inChild), ?_⟩
  refine (run.restRun_sorted.sublist inRest).imp_of_mem ?_
  intro a b memberA memberB ordered
  have longA := run.restRun_long a (inRest.subset memberA)
  have longB := run.restRun_long b (inRest.subset memberB)
  obtain ⟨_, byteA⟩ := List.getElem?_eq_some_iff.mp (agree a memberA)
  obtain ⟨_, byteB⟩ := List.getElem?_eq_some_iff.mp (agree b memberB)
  rw [drop_eq_cons longA, drop_eq_cons longB, List.cons_le_cons_iff, byteA, byteB] at ordered
  rcases ordered with less | ⟨_, rest⟩
  · exact absurd (UInt8.lt_iff_toNat_lt.mp less) (lt_irrefl _)
  · exact rest

theorem SortedRun.kidNode (run : SortedRun node) {child : Node} (member : child ∈ kidNodes node) :
    SortedRun child := by
  obtain ⟨group, inKids, rfl⟩ := List.mem_map.mp member
  exact run.kid inKids

/-- The ids, seen from a node, whose strings start the text. -/
def reached (node : Node) (text : Bytes) : List ℕ :=
  (node.1.filter fun entry => (entry.1.drop node.2).isPrefixOf text).map Prod.snd

theorem SortedRun.reached_nil (run : SortedRun node) : reached node [] = ownIds node := by
  rw [reached, ownIds, run.ownRun_eq]
  congr 1
  apply List.filter_congr
  intro entry member
  have long := run.long entry member
  apply Bool.eq_iff_iff.mpr
  simp only [List.isPrefixOf_iff_prefix, List.prefix_nil, List.drop_eq_nil_iff, beq_iff_eq]
  omega

private theorem filter_prefix_split {entries : List Entry} {depth : ℕ} {byte : UInt8} {text : Bytes}
    (long : ∀ entry ∈ entries, depth < entry.1.length) :
    (entries.filter fun entry => (entry.1.drop depth).isPrefixOf (byte :: text)) =
      (entries.filter fun entry => entry.1[depth]? == some byte).filter
        fun entry => (entry.1.drop (depth + 1)).isPrefixOf text := by
  rw [List.filter_filter]
  apply List.filter_congr
  intro entry member
  have inside := long entry member
  rw [drop_eq_cons inside, List.getElem?_eq_getElem inside]
  apply Bool.eq_iff_iff.mpr
  simp only [List.isPrefixOf_iff_prefix, List.cons_prefix_cons, Bool.and_eq_true, beq_iff_eq,
    Option.some.injEq]
  exact and_comm

private theorem filter_append_of_separated {node : Node} (run : SortedRun node) (text : Bytes) :
    (node.1.filter fun entry => (entry.1.drop node.2).isPrefixOf text) =
      ownRun node ++ (restRun node).filter fun entry => (entry.1.drop node.2).isPrefixOf text := by
  conv_lhs => rw [← List.takeWhile_append_dropWhile (p := fun entry : Entry => entry.1.length == node.2)
    (l := node.1)]
  rw [List.filter_append]
  congr 1
  apply List.filter_eq_self.mpr
  intro entry member
  change entry ∈ ownRun node at member
  rw [run.ownRun_eq] at member
  have ends := (List.mem_filter.mp member).2
  simp only [beq_iff_eq] at ends
  rw [List.drop_eq_nil_of_le (le_of_eq ends)]
  rfl

private theorem filter_byte_eq {groups : List (UInt8 × List Entry)} {depth : ℕ} {byte : UInt8}
    (increasing : (groups.map Prod.fst).Pairwise (fun a b => a.toNat < b.toNat))
    (agree : ∀ group ∈ groups, ∀ entry ∈ group.2, entry.1[depth]? = some group.1) :
    ((groups.flatMap Prod.snd).filter fun entry => entry.1[depth]? == some byte) =
      ((groups.find? fun group => group.1 == byte).map Prod.snd).getD [] := by
  induction groups with
  | nil => rfl
  | cons group more ih =>
    obtain ⟨headAgree, tailAgree⟩ := List.forall_mem_cons.mp agree
    obtain ⟨headLess, tailIncreasing⟩ := List.pairwise_cons.mp increasing
    rw [List.flatMap_cons, List.filter_append, ih tailIncreasing tailAgree, List.find?_cons]
    by_cases same : group.1 = byte
    · have own : (group.2.filter fun entry => entry.1[depth]? == some byte) = group.2 :=
        List.filter_eq_self.mpr (fun entry member => by simp [headAgree entry member, same])
      have later : more.find? (fun group => group.1 == byte) = none := by
        apply List.find?_eq_none.mpr
        intro other member equal
        have less := headLess other.1 (List.mem_map_of_mem (f := Prod.fst) member)
        rw [same, beq_iff_eq.mp equal] at less
        exact lt_irrefl _ less
      simp [own, later, same]
    · have own : (group.2.filter fun entry => entry.1[depth]? == some byte) = [] :=
        List.filter_eq_nil_iff.mpr (fun entry member => by simp [headAgree entry member, same])
      have skipped : (group.1 == byte) = false := beq_false_of_ne same
      rw [own, skipped]
      rfl

/-- One byte of text leads from a node's own ids to what the child of that byte reaches. -/
theorem SortedRun.reached_cons (run : SortedRun node) (byte : UInt8) (text : Bytes) :
    reached node (byte :: text) = ownIds node ++
      (((kids node).find? fun child => child.1 == byte).map
        fun child => reached (child.2, node.2 + 1) text).getD [] := by
  rw [reached, filter_append_of_separated run, List.map_append, ownIds,
    filter_prefix_split run.restRun_long, ← run.kids_join,
    filter_byte_eq run.kidBytes_increasing (fun child member => (run.kids_agree child member).2)]
  congr 1
  cases (kids node).find? fun child => child.1 == byte with
  | none => rfl
  | some child => rfl

end Tollgate.Trie

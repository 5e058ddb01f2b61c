import Tollgate.Proofs.Filter.TrieLayout
import Mathlib.Algebra.BigOperators.Group.List.Basic

/-! # Walking a built trie

Building never panics while the strings hold fewer than `2 ^ 32` bytes, and `any` on a built trie
calls its function on exactly the ids whose string starts the text, in sorted order, with every
array access in range.
-/

namespace Tollgate.Trie

/-- Bytes of a run that its subtree may still need edges for. -/
def slack (node : Node) : ℕ := (node.1.map fun entry => entry.1.length - node.2).sum

def load (nodes : List Node) : ℕ := (nodes.map slack).sum

private theorem group_slack {depth : ℕ} {run : List Entry} (nonempty : run ≠ [])
    (long : ∀ entry ∈ run, depth < entry.1.length) :
    slack (run, depth + 1) + 1 ≤ slack (run, depth) := by
  have each : slack (run, depth + 1) + run.length = slack (run, depth) := by
    simp only [slack]
    clear nonempty
    induction run with
    | nil => rfl
    | cons entry rest ih =>
      obtain ⟨head, tail⟩ := List.forall_mem_cons.mp long
      have rest := ih tail
      simp only [List.map_cons, List.sum_cons, List.length_cons]
      omega
  have positive := List.length_pos_of_ne_nil nonempty
  omega

/-- Each child takes one edge out of its parent's slack. -/
theorem SortedRun.kids_load {node : Node} (run : SortedRun node) :
    (kidBytes node).length + load (kidNodes node) ≤ slack node := by
  have groups : ∀ groups : List (UInt8 × List Entry),
      (∀ group ∈ groups, group.2 ≠ [] ∧ ∀ entry ∈ group.2, node.2 < entry.1.length) →
      groups.length + load (groups.map fun child => (child.2, node.2 + 1)) ≤
        slack (groups.flatMap Prod.snd, node.2) := by
    intro groups good
    induction groups with
    | nil => simp [load]
    | cons group more ih =>
      obtain ⟨head, tail⟩ := List.forall_mem_cons.mp good
      have one := group_slack head.1 head.2
      have rest := ih tail
      simp only [load, slack, List.map_cons, List.sum_cons, List.flatMap_cons, List.map_append,
        List.sum_append, List.length_cons] at one rest ⊢
      omega
  have bound := groups (kids node) (fun child member => ⟨(run.kids_agree child member).1,
    fun entry inChild => run.restRun_long entry ((run.kid_sublist member).subset inChild)⟩)
  have smaller : slack (restRun node, node.2) ≤ slack node := by
    have split : node.1 = ownRun node ++ restRun node := (List.takeWhile_append_dropWhile ..).symm
    simp only [slack]
    conv_rhs => rw [split, List.map_append, List.sum_append]
    exact Nat.le_add_left ..
  rw [run.kids_join] at bound
  have length : (kidBytes node).length = (kids node).length := by simp [kidBytes]
  rw [length]
  exact bound.trans smaller

private theorem SortedRun.kids_entries {node : Node} (run : SortedRun node) :
    (ownIds node).length + ((kidNodes node).map fun child => child.1.length).sum = node.1.length := by
  have joined := congrArg List.length run.kids_join
  have split : node.1 = ownRun node ++ restRun node := (List.takeWhile_append_dropWhile ..).symm
  have total := congrArg List.length split
  rw [List.length_flatMap] at joined
  simp only [List.length_append] at total
  simp only [ownIds, kidNodes, List.length_map, List.map_map, Function.comp_def]
  omega

variable {root node : Node} {nodes written pending : List Node} {numbered fuel : ℕ} {trie : Trie}

/-- Fuel for every pending byte and node, and small counts, are enough to finish the queue. -/
theorem build_fits [Width] (layout : Layout root written pending numbered trie)
    (enough : load pending + pending.length ≤ fuel) (shallow : ∀ node ∈ pending, node.2 + fuel < 2 ^ 64)
    (edges : trie.edgeBytes.length + load pending < 2 ^ 32)
    (ids : trie.ids.length + (pending.map fun node => node.1.length).sum < 2 ^ 32) :
    ∃ final, build fuel written.isEmpty pending numbered trie = some final ∧
      final.edgeBytes.length < 2 ^ 32 ∧ final.ids.length < 2 ^ 32 := by
  induction fuel generalizing written pending numbered trie with
  | zero =>
    cases pending with
    | nil => exact ⟨trie, rfl, by simpa [load] using edges, by simpa using ids⟩
    | cons node pending => simp at enough
  | succ fuel ih =>
    cases pending with
    | nil => exact ⟨trie, rfl, by simpa [load] using edges, by simpa using ids⟩
    | cons node pending =>
      have run := layout.sorted node (by simp)
      have slackBound := run.kids_load
      have entries := run.kids_entries
      have count := layout.count
      obtain ⟨here, later⟩ := List.forall_mem_cons.mp shallow
      simp only [load, List.map_cons, List.sum_cons, List.length_cons] at enough edges ids slackBound
      have next : (written ++ [node]).isEmpty = false := by simp
      have deeper : ∀ other ∈ pending ++ kidNodes node, other.2 + fuel < 2 ^ 64 := by
        intro other member
        rcases List.mem_append.mp member with old | new
        · have bound := later other old
          omega
        · obtain ⟨child, -, rfl⟩ := List.mem_map.mp new
          dsimp only
          omega
      obtain ⟨final, built, bounds⟩ := ih layout.step
        (by simp only [load, List.map_append, List.sum_append, List.length_append, kidNodes_length]; omega) deeper
        (by simp only [writeNode, load, List.map_append, List.sum_append, List.length_append]; omega)
        (by simp only [writeNode, List.map_append, List.sum_append, List.length_append]; omega)
      rw [next] at built
      refine ⟨final, (build_succ layout).mpr ⟨⟨by omega, by omega, ?_, Width.fits_of_lt (by omega)⟩, built⟩, bounds⟩
      intro n member
      have bound := (List.mem_range'_1.mp member).2
      omega

/-- The arrays of a finished trie, in terms of its nodes in order. -/
structure Complete (root : Node) (nodes : List Node) (trie : Trie) : Prop where
  order : nodes = root :: nodes.flatMap kidNodes
  small : trie.edgeBytes.length < 2 ^ 32
  sorted : ∀ node ∈ nodes, SortedRun node
  table : trie.root = setRoot (List.replicate 256 0) ((kidBytes root).zip (List.range' 1 (kidBytes root).length))
  edgeStart : trie.edgeStart = starts kidBytes nodes ++ [(nodes.flatMap kidBytes).length]
  edgeBytes : trie.edgeBytes = nodes.flatMap kidBytes
  edgeNodes : trie.edgeNodes = List.range' 1 trie.edgeBytes.length
  idStart : trie.idStart = starts ownIds nodes ++ [(nodes.flatMap ownIds).length]
  ids : trie.ids = nodes.flatMap ownIds

private theorem flatMap_split {β : Type*} (part : Node → List β) {i : ℕ} (at_ : nodes[i]? = some node) :
    nodes.flatMap part = (nodes.take i).flatMap part ++ part node ++ (nodes.drop (i + 1)).flatMap part := by
  obtain ⟨bound, same⟩ := List.getElem?_eq_some_iff.mp at_
  conv_lhs => rw [← List.take_append_drop i nodes, List.drop_eq_getElem_cons bound, same]
  rw [List.flatMap_append, List.flatMap_cons, List.append_assoc]

private theorem slice_part {β : Type*} (part : Node → List β) {i : ℕ} (at_ : nodes[i]? = some node) :
    slice (nodes.flatMap part) ((nodes.take i).flatMap part).length
      ((nodes.take (i + 1)).flatMap part).length = some (part node) := by
  have next : ((nodes.take (i + 1)).flatMap part).length =
      ((nodes.take i).flatMap part).length + (part node).length := by
    rw [List.take_add_one, at_, Option.toList_some, List.flatMap_append, List.flatMap_singleton,
      List.length_append]
  rw [next, flatMap_split part at_]
  exact slice_append ..

theorem flatMap_lengths (nodes : List Node) :
    (nodes.flatMap kidNodes).length = (nodes.flatMap kidBytes).length := by
  simp [List.length_flatMap]

theorem Complete.count (complete : Complete root nodes trie) : nodes.length = trie.edgeBytes.length + 1 := by
  rw [complete.edgeBytes, ← flatMap_lengths, ← List.length_cons (a := root), ← complete.order]

/-- The child behind the `k`-th edge of a node. -/
private theorem Complete.child (complete : Complete root nodes trie) {i k : ℕ}
    (at_ : nodes[i]? = some node) (edge : k < (kidBytes node).length) :
    nodes[((nodes.take i).flatMap kidBytes).length + k + 1]? = (kidNodes node)[k]? := by
  rw [← flatMap_lengths]
  generalize offset : ((nodes.take i).flatMap kidNodes).length = start
  have within : ∀ position, nodes[position + 1]? = (nodes.flatMap kidNodes)[position]? := by
    intro position
    conv_lhs => rw [complete.order]
    rw [List.getElem?_cons_succ]
  rw [within, flatMap_split kidNodes at_, List.append_assoc, List.getElem?_append_right (by omega), offset,
    Nat.add_sub_cancel_left, List.getElem?_append_left (by simpa using edge)]

private theorem Complete.edgeNode (complete : Complete root nodes trie) {i k : ℕ}
    (at_ : nodes[i]? = some node) (edge : k < (kidBytes node).length) :
    trie.edgeNodes[((nodes.take i).flatMap kidBytes).length + k]? =
      some (((nodes.take i).flatMap kidBytes).length + k + 1) := by
  have total := congrArg List.length (flatMap_split kidBytes at_)
  simp only [List.length_append] at total
  rw [complete.edgeNodes, complete.edgeBytes, List.getElem?_range' (by omega)]
  simp [Nat.add_comm]

theorem SortedRun.find_kid {node : Node} (run : SortedRun node) {child : UInt8 × List Entry}
    (member : child ∈ kids node) : (kids node).find? (fun other => other.1 == child.1) = some child := by
  have distinct : ((kids node).map Prod.fst).Nodup := by
    refine List.Pairwise.imp ?_ run.kidBytes_increasing
    rintro a _ less rfl
    exact lt_irrefl _ less
  cases found : (kids node).find? (fun other => other.1 == child.1) with
  | none => exact absurd (List.find?_eq_none.mp found child member) (by simp)
  | some other =>
    have same : other.1 = child.1 := by simpa using List.find?_some found
    have inKids := List.mem_of_find?_eq_some found
    rw [List.inj_on_of_nodup_map distinct inKids member same]

section Calls

variable {m : Type → Type} [Monad m]

private theorem anyM_append [LawfulMonad m] (f : ℕ → m Bool) (first second : List ℕ) :
    (first ++ second).anyM f = first.anyM f >>= fun found => if found then pure true else second.anyM f := by
  induction first with
  | nil => simp [List.anyM]
  | cons id rest ih =>
    simp only [List.cons_append, List.anyM_cons, ih, bind_assoc]
    refine bind_congr fun found => ?_
    cases found <;> simp

variable [MonadLiftT Option m] [LawfulMonadLiftT Option m]

/-- An access that is in range. -/
private theorem liftM_some {α : Type} (a : α) : (liftM (some a) : m α) = pure a := liftM_pure a

variable [Width] [LawfulMonad m]

/-- A walk from a node calls `f` on exactly the ids the node reaches along the text. -/
theorem Complete.walk_eq (complete : Complete root nodes trie) (f : ℕ → m Bool) (text : Bytes)
    {i : ℕ} (at_ : nodes[i]? = some node) : walk trie f text i = (reached node text).anyM f := by
  have count := complete.count
  have small := complete.small
  induction text generalizing i node with
  | nil =>
    have inside := (List.getElem?_eq_some_iff.mp at_).1
    have run := complete.sorted node (List.mem_of_getElem? at_)
    rw [walk, Width.add_of_lt (by omega), run.reached_nil]
    simp only [liftM_some, pure_bind, complete.idStart, starts_getElem? ownIds inside.le,
      starts_getElem? ownIds inside, complete.ids, slice_part ownIds at_]
    refine Eq.trans (bind_congr fun found => ?_) (bind_pure _)
    cases found <;> rfl
  | cons byte rest ih =>
    have inside := (List.getElem?_eq_some_iff.mp at_).1
    have run := complete.sorted node (List.mem_of_getElem? at_)
    rw [walk, Width.add_of_lt (by omega), run.reached_cons, anyM_append]
    simp only [liftM_some, pure_bind, complete.idStart, starts_getElem? ownIds inside.le,
      starts_getElem? ownIds inside, complete.ids, slice_part ownIds at_]
    refine bind_congr fun found => ?_
    congr 1
    simp only [complete.edgeStart, starts_getElem? kidBytes inside.le, starts_getElem? kidBytes inside,
      liftM_some, pure_bind, complete.edgeBytes, slice_part kidBytes at_]
    cases search : (kidBytes node).binarySearchBy (fun edge => compare edge.toNat byte.toNat) with
    | none =>
      have absent : (kids node).find? (fun child => child.1 == byte) = none := by
        apply List.find?_eq_none.mpr
        intro child member same
        have present := (List.binarySearchBy_isSome_iff run.kidBytes_increasing byte.toNat).mpr
          ⟨child.1, List.mem_map_of_mem member, by rw [beq_iff_eq.mp same]⟩
        rw [search] at present
        contradiction
      rw [absent]
      rfl
    | some k =>
      obtain ⟨edge, atEdge, same⟩ := (List.binarySearchBy_eq_some_iff run.kidBytes_increasing _ _).mp search
      obtain rfl := UInt8.toNat_inj.mp same
      have bound := (List.getElem?_eq_some_iff.mp atEdge).1
      rw [kidBytes, List.getElem?_map] at atEdge
      obtain ⟨child, atChild, rfl⟩ := Option.map_eq_some_iff.mp atEdge
      have next := complete.child at_ bound
      rw [kidNodes, List.getElem?_map, atChild, Option.map_some] at next
      have place := (List.getElem?_eq_some_iff.mp (complete.edgeNode at_ bound)).1
      rw [complete.edgeNodes, List.length_range'] at place
      have sum : Width.add ((nodes.take i).flatMap kidBytes).length k = some _ := Width.add_of_lt (by omega)
      simp only [sum, complete.edgeNode at_ bound, liftM_some, pure_bind,
        run.find_kid (List.mem_of_getElem? atChild), Option.map_some, Option.getD_some]
      exact ih next

end Calls

@[simp] theorem setRoot_length (table : List ℕ) (children : List (UInt8 × ℕ)) :
    (setRoot table children).length = table.length := by
  induction children generalizing table with
  | nil => rfl
  | cons child rest ih => exact (ih _).trans (List.length_set ..)

private theorem setRoot_getElem? {table : List ℕ} {bytes : Bytes} {first : ℕ}
    (increasing : bytes.Pairwise (fun a b => a.toNat < b.toNat)) (size : table.length = 256) (byte : UInt8) :
    (setRoot table (bytes.zip (List.range' first bytes.length)))[byte.toNat]? =
      ((bytes.idxOf? byte).map (first + ·)).or table[byte.toNat]? := by
  induction bytes generalizing table first with
  | nil => rfl
  | cons head rest ih =>
    obtain ⟨less, tail⟩ := List.pairwise_cons.mp increasing
    have bound : head.toNat < table.length := by
      have small : head.toNat < 256 := head.toNat_lt
      omega
    rw [List.length_cons, List.range'_succ, List.zip_cons_cons, setRoot, List.foldl_cons]
    change (setRoot _ _)[byte.toNat]? = _
    rw [ih tail (by simpa using size), List.idxOf?_cons]
    by_cases same : head = byte
    · subst same
      have absent : rest.idxOf? head = none := by
        rw [List.idxOf?_eq_none_iff]
        intro member
        exact lt_irrefl _ (less head member)
      simp [absent, bound]
    · have different : (head == byte) = false := beq_false_of_ne same
      have apart : head.toNat ≠ byte.toNat := fun equal => same (UInt8.toNat_inj.mp equal)
      rw [different, List.getElem?_set_ne apart, if_neg Bool.false_ne_true, Option.map_map]
      congr 2
      funext position
      exact Nat.add_right_comm ..

/-- The root table leads to the child of a byte, or to 0 if there is none. -/
private theorem Complete.root_getElem? (complete : Complete root nodes trie) (byte : UInt8) :
    trie.root[byte.toNat]? = some (((kidBytes root).idxOf? byte).elim 0 (1 + ·)) := by
  have isRoot : nodes[0]? = some root := by
    rw [complete.order]
    rfl
  have run := complete.sorted root (List.mem_of_getElem? isRoot)
  have small : byte.toNat < 256 := byte.toNat_lt
  rw [complete.table, setRoot_getElem? run.kidBytes_increasing (List.length_replicate ..),
    List.getElem?_replicate_of_lt small]
  cases (kidBytes root).idxOf? byte <;> rfl

/-- Looking a text up calls `f` on the ids whose string starts it, in sorted order. -/
theorem Complete.any_eq [Width] {m : Type → Type} [Monad m] [LawfulMonad m] [MonadLiftT Option m]
    [LawfulMonadLiftT Option m] {entries : List Entry} (complete : Complete (entries, 0) nodes trie)
    (nonempty : ∀ entry ∈ entries, entry.1 ≠ []) (text : Bytes) (f : ℕ → m Bool) :
    any trie text f = ((entries.filter fun entry => entry.1.isPrefixOf text).map Prod.snd).anyM f := by
  have isRoot : nodes[0]? = some (entries, 0) := by
    rw [complete.order]
    rfl
  have run := complete.sorted _ (List.mem_of_getElem? isRoot)
  have own : ownIds (entries, 0) = [] := by
    rw [ownIds, run.ownRun_eq, List.filter_eq_nil_iff.mpr]
    · rfl
    · intro entry member
      simpa using nonempty entry member
  change _ = (reached (entries, 0) text).anyM f
  cases text with
  | nil =>
    rw [run.reached_nil, own]
    rfl
  | cons byte rest =>
    rw [run.reached_cons, own, List.nil_append, any, complete.root_getElem?]
    cases search : (kidBytes (entries, 0)).idxOf? byte with
    | none =>
      have absent : (kids (entries, 0)).find? (fun child => child.1 == byte) = none := by
        apply List.find?_eq_none.mpr
        intro child member same
        exact List.idxOf?_eq_none_iff.mp search (beq_iff_eq.mp same ▸ List.mem_map_of_mem member)
      rw [absent]
      rfl
    | some k =>
      obtain ⟨bound, atEdge, _⟩ := List.idxOf?_eq_some_iff.mp search
      have atEdge := List.getElem?_eq_some_iff.mpr ⟨bound, atEdge⟩
      rw [kidBytes, List.getElem?_map] at atEdge
      obtain ⟨child, atChild, rfl⟩ := Option.map_eq_some_iff.mp atEdge
      have next := complete.child isRoot bound
      rw [kidNodes, List.getElem?_map, atChild, Option.map_some] at next
      rw [run.find_kid (List.mem_of_getElem? atChild)]
      have position : 1 + k ≠ 0 := by omega
      change (if 1 + k = 0 then pure false else walk trie f rest (1 + k)) = _
      rw [if_neg position]
      apply complete.walk_eq f rest
      simpa [Nat.add_comm] using next

/-- Every access of a walk is in range, and the edges of each node are in order. -/
structure InRange (trie : Trie) : Prop where
  table : ∀ byte : UInt8, ∃ child, trie.root[byte.toNat]? = some child ∧ child + 1 < trie.edgeStart.length
  nodes : trie.idStart.length = trie.edgeStart.length
  children : ∀ child ∈ trie.edgeNodes, child + 1 < trie.edgeStart.length
  edges : trie.edgeNodes.length = trie.edgeBytes.length
  ids : ∀ node first last, trie.idStart[node]? = some first → trie.idStart[node + 1]? = some last →
    (slice trie.ids first last).isSome
  bytes : ∀ node start stop, trie.edgeStart[node]? = some start → trie.edgeStart[node + 1]? = some stop →
    ∃ edges, slice trie.edgeBytes start stop = some edges ∧ edges.Pairwise fun a b => a.toNat < b.toNat

/-- The slice of an array that belongs to a node. -/
private theorem slice_of_starts {β : Type*} (part : Node → List β) {i first last : ℕ}
    (atFirst : (starts part nodes ++ [(nodes.flatMap part).length])[i]? = some first)
    (atLast : (starts part nodes ++ [(nodes.flatMap part).length])[i + 1]? = some last) :
    ∃ node ∈ nodes, slice (nodes.flatMap part) first last = some (part node) := by
  have inside : i < nodes.length := by
    have bound := (List.getElem?_eq_some_iff.mp atLast).1
    rw [List.length_append, starts_length, List.length_singleton] at bound
    omega
  rw [starts_getElem? part inside.le, Option.some.injEq] at atFirst
  rw [starts_getElem? part inside, Option.some.injEq] at atLast
  subst atFirst atLast
  exact ⟨nodes[i], List.getElem_mem inside, slice_part part (List.getElem?_eq_getElem inside)⟩

theorem Complete.inRange (complete : Complete root nodes trie) : InRange trie := by
  have count := complete.count
  have edgeStart : trie.edgeStart.length = nodes.length + 1 := by
    rw [complete.edgeStart, List.length_append, starts_length, List.length_singleton]
  have idStart : trie.idStart.length = nodes.length + 1 := by
    rw [complete.idStart, List.length_append, starts_length, List.length_singleton]
  have firstEdges : (kidBytes root).length ≤ trie.edgeBytes.length := by
    rw [complete.edgeBytes, complete.order, List.flatMap_cons, List.length_append]
    exact Nat.le_add_right ..
  refine ⟨fun byte => ?_, idStart.trans edgeStart.symm, fun child member => ?_, ?_, ?_, ?_⟩
  · refine ⟨_, complete.root_getElem? byte, ?_⟩
    cases found : (kidBytes root).idxOf? byte with
    | none =>
      rw [Option.elim_none]
      omega
    | some k =>
      obtain ⟨bound, -⟩ := List.idxOf?_eq_some_iff.mp found
      rw [Option.elim_some]
      omega
  · rw [complete.edgeNodes] at member
    have bound := (List.mem_range'_1.mp member).2
    omega
  · rw [complete.edgeNodes, List.length_range']
  · intro node first last atFirst atLast
    rw [complete.idStart] at atFirst atLast
    obtain ⟨own, -, cut⟩ := slice_of_starts ownIds atFirst atLast
    rw [complete.ids, cut]
    rfl
  · intro node start stop atStart atStop
    rw [complete.edgeStart] at atStart atStop
    obtain ⟨own, member, cut⟩ := slice_of_starts kidBytes atStart atStop
    rw [complete.edgeBytes]
    exact ⟨_, cut, (complete.sorted own member).kidBytes_increasing⟩

private theorem sorted_entries (entries : List Entry) :
    SortedRun (entries.insertionSort entryLe, 0) := by
  refine ⟨fun _ _ => Nat.zero_le _, ?_⟩
  have total : ∀ a b : Entry, entryLe a b ∨ entryLe b a := by
    intro a b
    simp only [entryLe]
    by_cases less : a.1 < b.1
    · exact .inl (.inl less)
    by_cases greater : b.1 < a.1
    · exact .inr (.inl greater)
    have same : a.1 = b.1 := List.le_antisymm (List.not_lt.mp greater) (List.not_lt.mp less)
    rcases le_total a.2 b.2 with ids | ids
    · exact .inl (.inr ⟨same, ids⟩)
    · exact .inr (.inr ⟨same.symm, ids⟩)
  have transitive : ∀ a b c : Entry, entryLe a b → entryLe b c → entryLe a c := by
    intro a b c first second
    rcases first with less | ⟨same, ids⟩
    · rcases second with less' | ⟨same', _⟩
      · exact .inl (List.lt_trans less less')
      · exact .inl (same' ▸ less)
    · rcases second with less' | ⟨same', ids'⟩
      · exact .inl (same ▸ less')
      · exact .inr ⟨same.trans same', ids.trans ids'⟩
  have : Std.Total entryLe := ⟨total⟩
  have : IsTrans Entry entryLe := ⟨transitive⟩
  refine (List.pairwise_insertionSort entryLe entries).imp ?_
  intro a b ordered
  simp only [List.drop_zero]
  rcases ordered with less | ⟨same, _⟩
  · exact List.le_of_lt less
  · exact same ▸ List.le_refl _

private theorem initial_layout (root : Node) (run : SortedRun root) :
    Layout root [] [root] 1 ⟨List.replicate 256 0, [], [], [], [], []⟩ where
  queue := rfl
  sorted := by simpa using run
  count := rfl
  table := rfl
  edgeStart := rfl
  edgeBytes := rfl
  edgeNodes := rfl
  idStart := rfl
  ids := rfl

/-- Whatever `new` returns for some entries holds them all, sorted. -/
theorem new_complete [Width] {entries : List Entry} (some_ : entries ≠ []) (built : new entries = some trie) :
    ∃ nodes, Complete (entries.insertionSort entryLe, 0) nodes trie := by
  rw [new, if_neg (by simpa using some_)] at built
  simp only [Option.bind_eq_bind, Option.bind_eq_some_iff] at built
  obtain ⟨edges, -, _, -, arrays, queue, edgeEnd, edgeFits, idEnd, idFits, result⟩ := built
  obtain rfl := Option.some.inj result
  obtain ⟨nodes, _, layout⟩ := build_layout (initial_layout _ (sorted_entries entries)) queue
  obtain ⟨small, rfl⟩ := expectU32_eq_some_iff.mp edgeFits
  obtain ⟨_, rfl⟩ := expectU32_eq_some_iff.mp idFits
  have order := layout.queue
  rw [List.append_nil] at order
  have written : nodes.isEmpty = false := by
    rw [order]
    rfl
  refine ⟨nodes, order, small, ?_, ?_, ?_, layout.edgeBytes, layout.edgeNodes, ?_, layout.ids⟩
  · simpa using layout.sorted
  · rw [layout.table, rootTable, written, if_neg Bool.false_ne_true]
  · rw [layout.edgeStart, layout.edgeBytes]
  · rw [layout.idStart, layout.ids]

/-- The ids whose string starts the text, in sorted order. -/
def candidates (entries : List Entry) (text : Bytes) : List ℕ :=
  ((entries.insertionSort entryLe).filter fun entry => entry.1.isPrefixOf text).map Prod.snd

/-- Strings that start one text are sorted by length. -/
theorem candidates_increasing (entries : List Entry) (text : Bytes) :
    ((entries.insertionSort entryLe).filter fun entry => entry.1.isPrefixOf text).Pairwise
      fun a b => a.1.length ≤ b.1.length := by
  apply List.pairwise_filter.mpr
  refine (sorted_entries entries).sorted.imp ?_
  intro a b ordered startsA startsB
  rw [List.isPrefixOf_iff_prefix] at startsA startsB
  by_contra longer
  have inner := List.prefix_of_prefix_length_le startsB startsA (Nat.le_of_not_ge longer)
  have same : a.1 = b.1 := List.le_antisymm ordered inner.le
  rw [same] at longer
  exact longer le_rfl

theorem mem_candidates_iff {entries : List Entry} {text : Bytes} {id : ℕ} :
    id ∈ candidates entries text ↔ ∃ key, (key, id) ∈ entries ∧ key <+: text := by
  simp only [candidates, List.mem_map, List.mem_filter, (List.perm_insertionSort entryLe entries).mem_iff,
    List.isPrefixOf_iff_prefix]
  constructor
  · rintro ⟨⟨key, _⟩, ⟨inside, starts⟩, rfl⟩
    exact ⟨key, inside, starts⟩
  · rintro ⟨key, inside, starts⟩
    exact ⟨(key, id), ⟨inside, starts⟩, rfl⟩

/-- A lookup in a built trie calls the closure on exactly the ids whose string starts the text. -/
theorem any_of_new [Width] {m : Type → Type} [Monad m] [LawfulMonad m] [MonadLiftT Option m]
    [LawfulMonadLiftT Option m] {entries : List Entry} (nonempty : ∀ entry ∈ entries, entry.1 ≠ []) (built : new entries = some trie)
    (text : Bytes) (f : ℕ → m Bool) : any trie text f = (candidates entries text).anyM f := by
  by_cases none : entries = []
  · subst none
    obtain rfl := Option.some.inj built
    cases text <;> rfl
  · obtain ⟨nodes, complete⟩ := new_complete none built
    apply complete.any_eq
    intro entry member
    exact nonempty entry ((List.perm_insertionSort entryLe entries).mem_iff.mp member)

/-- The number of bytes in all strings, a bound on the edges. -/
def edgeBound (entries : List Entry) : ℕ := (entries.map fun entry => entry.1.length).sum

/-- Building returns while the strings hold fewer than `2 ^ 32` bytes. -/
theorem new_isSome [Width] {entries : List Entry} (nonempty : ∀ entry ∈ entries, entry.1 ≠ [])
    (small : edgeBound entries < 2 ^ 32) : (new entries).isSome = true := by
  by_cases none : entries = []
  · rw [none]
    rfl
  have sorted := List.perm_insertionSort entryLe entries
  have start := initial_layout (entries.insertionSort entryLe, 0) (sorted_entries entries)
  rw [new, if_neg (by simpa using none)]
  generalize entries.insertionSort entryLe = inOrder at sorted start ⊢
  have bytes : edgeBound inOrder = edgeBound entries := (sorted.map _).sum_nat
  have count : inOrder.length ≤ edgeBound inOrder := by
    have each := List.length_le_sum_of_one_le (inOrder.map fun entry => entry.1.length) (by
      intro length member
      obtain ⟨entry, inside, rfl⟩ := List.mem_map.mp member
      exact List.length_pos_of_ne_nil (nonempty entry (sorted.mem_iff.mp inside)))
    simpa [edgeBound] using each
  have loaded : load [(inOrder, 0)] = edgeBound inOrder := by simp [load, slack, edgeBound]
  have enough : load [(inOrder, 0)] + [(inOrder, 0)].length ≤ edgeBound inOrder + 1 := by
    rw [loaded, List.length_singleton]
  obtain ⟨final, built, edges, ids⟩ := build_fits start enough (by simp; omega)
    (by simp only [List.length_nil, loaded]; omega) (by simp; omega)
  have sum : (inOrder.map fun entry => entry.1.length).foldlM Width.add 0 = some (edgeBound inOrder) := by
    rw [Width.foldlM_add _ (by rw [Nat.zero_add]; change edgeBound inOrder < _; omega), Nat.zero_add]
    rfl
  have spare : Width.add (edgeBound inOrder) 2 = some (edgeBound inOrder + 2) := Width.add_of_lt (by omega)
  rw [List.isEmpty_nil] at built
  simp only [sum, spare, built, Option.bind_eq_bind, Option.bind_some, expectU32, if_pos edges, if_pos ids,
    Option.isSome_some]

end Tollgate.Trie

import Tollgate.Proofs.Filter.TrieRuns

/-! # The arrays of a built trie

Nodes are written in queue order, so the list of written nodes is its root followed by the children
of all its elements: the child behind edge `i` is node `i + 1`. `Layout` relates the arrays to that
list after any number of rounds; at the end of the queue it determines them completely, and a walk
along a text visits exactly the ids that the root reaches.
-/

namespace Tollgate.Trie

/-- Where the part of each node starts in the concatenation of all parts. -/
def starts {β : Type*} (part : Node → List β) (nodes : List Node) : List ℕ :=
  (List.range nodes.length).map fun i => ((nodes.take i).flatMap part).length

theorem starts_length {β : Type*} (part : Node → List β) (nodes : List Node) :
    (starts part nodes).length = nodes.length := by
  rw [starts, List.length_map, List.length_range]

theorem starts_concat {β : Type*} (part : Node → List β) (nodes : List Node) (node : Node) :
    starts part (nodes ++ [node]) = starts part nodes ++ [(nodes.flatMap part).length] := by
  rw [starts, starts, List.length_append, List.length_singleton, List.range_succ, List.map_append]
  congr 1
  · apply List.map_congr_left
    intro i member
    rw [List.take_append_of_le_length (List.mem_range.mp member).le]
  · simp

theorem starts_getElem? {β : Type*} (part : Node → List β) {nodes : List Node} {i : ℕ}
    (inside : i ≤ nodes.length) :
    (starts part nodes ++ [(nodes.flatMap part).length])[i]? = some ((nodes.take i).flatMap part).length := by
  rcases Nat.lt_or_eq_of_le inside with less | rfl
  · rw [List.getElem?_append_left (by simpa [starts] using less)]
    simp [starts, less]
  · rw [List.getElem?_append_right (by simp [starts])]
    simp [starts]

/-- The table of the root's children before and after the root is written. -/
def rootTable (root : Node) (nodes : List Node) : List ℕ :=
  if nodes.isEmpty then List.replicate 256 0
  else setRoot (List.replicate 256 0) ((kidBytes root).zip (List.range' 1 (kidBytes root).length))

/-- What the arrays hold once `written` is written and `pending` is queued. -/
structure Layout (root : Node) (written pending : List Node) (numbered : ℕ) (trie : Trie) : Prop where
  queue : written ++ pending = root :: written.flatMap kidNodes
  sorted : ∀ node ∈ written ++ pending, SortedRun node
  count : numbered = trie.edgeBytes.length + 1
  table : trie.root = rootTable root written
  edgeStart : trie.edgeStart = starts kidBytes written
  edgeBytes : trie.edgeBytes = written.flatMap kidBytes
  edgeNodes : trie.edgeNodes = List.range' 1 trie.edgeBytes.length
  idStart : trie.idStart = starts ownIds written
  ids : trie.ids = written.flatMap ownIds

theorem mapM_expectU32 {numbers others : List ℕ} :
    numbers.mapM expectU32 = some others ↔ (∀ n ∈ numbers, n < 2 ^ 32) ∧ others = numbers := by
  induction numbers generalizing others with
  | nil => simp [eq_comm]
  | cons n rest ih =>
    simp only [List.mapM_cons, Option.bind_eq_bind, Option.bind_eq_some_iff, expectU32_eq_some_iff, ih,
      List.forall_mem_cons]
    constructor
    · rintro ⟨_, ⟨head, rfl⟩, _, ⟨tail, rfl⟩, same⟩
      exact ⟨⟨head, tail⟩, (Option.some.inj same).symm⟩
    · rintro ⟨⟨head, tail⟩, rfl⟩
      exact ⟨n, ⟨head, rfl⟩, rest, ⟨tail, rfl⟩, rfl⟩

/-- The arrays after one more node is written. -/
def writeNode (trie : Trie) (written : List Node) (node : Node) : Trie where
  root := if written.isEmpty then
      setRoot trie.root ((kidBytes node).zip (List.range' (trie.edgeBytes.length + 1) (kidBytes node).length))
    else trie.root
  edgeStart := trie.edgeStart ++ [trie.edgeBytes.length]
  edgeBytes := trie.edgeBytes ++ kidBytes node
  edgeNodes := trie.edgeNodes ++ List.range' (trie.edgeBytes.length + 1) (kidBytes node).length
  idStart := trie.idStart ++ [trie.ids.length]
  ids := trie.ids ++ ownIds node

variable {root node : Node} {written pending : List Node} {numbered : ℕ} {trie : Trie}

theorem Layout.step (layout : Layout root written (node :: pending) numbered trie) :
    Layout root (written ++ [node]) (pending ++ kidNodes node) (numbered + (kidBytes node).length)
      (writeNode trie written node) where
  queue := by
    have queue := layout.queue
    rw [List.flatMap_append, List.flatMap_singleton, ← List.cons_append, ← queue]
    simp
  sorted := by
    intro other member
    have here := layout.sorted node (by simp)
    simp only [List.append_assoc, List.mem_append, List.mem_singleton] at member
    rcases member with earlier | rfl | later | child
    · exact layout.sorted other (by simp [earlier])
    · exact here
    · exact layout.sorted other (by simp [later])
    · exact here.kidNode child
  count := by
    have count := layout.count
    simp only [writeNode, List.length_append]
    omega
  table := by
    have isRoot : written.isEmpty = true → node = root := by
      intro first
      have queue := layout.queue
      rw [List.isEmpty_iff.mp first] at queue
      exact (List.cons.inj queue).1
    rw [writeNode, rootTable]
    have nonempty : (written ++ [node]).isEmpty = false := by simp
    rw [nonempty, if_neg Bool.false_ne_true]
    dsimp only
    split
    · next first =>
      have none : trie.edgeBytes.length = 0 := by
        rw [layout.edgeBytes, List.isEmpty_iff.mp first]
        rfl
      rw [layout.table, rootTable, if_pos first, isRoot first, none]
    · next later => rw [layout.table, rootTable, if_neg later]
  edgeStart := by rw [writeNode, layout.edgeStart, starts_concat, ← layout.edgeBytes]
  edgeBytes := by rw [writeNode, layout.edgeBytes, List.flatMap_append, List.flatMap_singleton]
  edgeNodes := by
    rw [writeNode, layout.edgeNodes, List.length_append, Nat.add_comm trie.edgeBytes.length 1]
    exact List.range'_append_1
  idStart := by rw [writeNode, layout.idStart, starts_concat, ← layout.ids]
  ids := by rw [writeNode, layout.ids, List.flatMap_append, List.flatMap_singleton]

variable [Width] {fuel : ℕ} {final : Trie}

/-- A round of `build` writes one node, if its numbers fit. -/
theorem build_succ (layout : Layout root written (node :: pending) numbered trie) :
    build (fuel + 1) written.isEmpty (node :: pending) numbered trie = some final ↔
      (trie.edgeBytes.length < 2 ^ 32 ∧ trie.ids.length < 2 ^ 32 ∧
        (∀ n ∈ List.range' numbered (kidBytes node).length, n < 2 ^ 32) ∧ Width.fits (node.2 + 1) = true) ∧
      build fuel false (pending ++ kidNodes node) (numbered + (kidBytes node).length)
        (writeNode trie written node) = some final := by
  have children := (layout.sorted node (by simp)).childRuns_eq
  have length : (kids node).length = (kidBytes node).length := by simp [kidBytes]
  have count := layout.count
  rw [build, children]
  simp only [Option.bind_eq_bind, Option.bind_some, Option.bind_eq_some_iff, length, mapM_expectU32,
    expectU32_eq_some_iff]
  subst count
  constructor
  · rintro ⟨_, ⟨edges, rfl⟩, _, ⟨ids, rfl⟩, _, ⟨numbers, rfl⟩, depth, deep, total, sum, built⟩
    obtain ⟨fits, rfl⟩ := Width.add_eq_some_iff.mp deep
    obtain ⟨-, rfl⟩ := Width.add_eq_some_iff.mp sum
    exact ⟨⟨edges, ids, numbers, fits⟩, built⟩
  · rintro ⟨⟨edges, ids, numbers, fits⟩, built⟩
    have few : trie.edgeBytes.length + 1 + (kidBytes node).length ≤ 2 ^ 32 := by
      by_contra many
      have last := numbers (trie.edgeBytes.length + (kidBytes node).length) (List.mem_range'_1.mpr (by omega))
      omega
    exact ⟨_, ⟨edges, rfl⟩, _, ⟨ids, rfl⟩, _, ⟨numbers, rfl⟩, _, Width.add_eq_some_iff.mpr ⟨fits, rfl⟩, _,
      Width.add_of_lt (by omega), built⟩

/-- A finished queue has written a complete layout. -/
theorem build_layout (layout : Layout root written pending numbered trie)
    (built : build fuel written.isEmpty pending numbered trie = some final) :
    ∃ nodes count, Layout root nodes [] count final := by
  induction fuel generalizing written pending numbered trie with
  | zero =>
    cases pending with
    | nil =>
      obtain rfl := Option.some.inj built
      exact ⟨written, numbered, layout⟩
    | cons node pending => contradiction
  | succ fuel ih =>
    cases pending with
    | nil =>
      obtain rfl := Option.some.inj built
      exact ⟨written, numbered, layout⟩
    | cons node pending =>
      have next : (written ++ [node]).isEmpty = false := by simp
      obtain ⟨-, built⟩ := (build_succ layout).mp built
      rw [← next] at built
      exact ih layout.step built

end Tollgate.Trie

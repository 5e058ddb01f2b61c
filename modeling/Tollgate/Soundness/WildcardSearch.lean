import Tollgate.Proofs.Filter.GlobScan
import Tollgate.Proofs.Filter.TrieWalk

/-! # The two searches behind wildcard patterns

A pattern is found by its literal head or tail in an array trie, and is then matched by a scan that
remembers one `*`. The trie offers exactly the strings that start the text, shortest first, to a
closure that may keep a state; the scan decides the glob within a number of rounds that is quadratic
at most. Both results are about any input, so nothing depends on how patterns are filed.
-/

namespace Tollgate

/-- A built trie offers exactly the stored prefixes of a text, shortest first, until one is accepted,
and every access on the way is in range. -/
theorem trie_offers_prefixes (entries : List Entry) (filled : entries ≠ []) (nonempty : ∀ entry ∈ entries, entry.1 ≠ [])
    (small : (entries.map fun entry => entry.1.length).sum < 2 ^ 32) :
    ∃ trie, Trie.new entries = some trie ∧ trie.InRange ∧
      ∀ text : Bytes, ∃ found : List Entry,
        found.Perm (entries.filter fun entry => entry.1.isPrefixOf text) ∧
        found.Pairwise (fun a b => a.1.length ≤ b.1.length) ∧
        ∀ (m : Type → Type) [Monad m] [LawfulMonad m] [MonadLiftT Option m] [LawfulMonadLiftT Option m]
          (f : ℕ → m Bool), trie.any text f = (found.map Prod.snd).anyM f := by
  obtain ⟨trie, built⟩ := Option.isSome_iff_exists.mp (Trie.new_isSome nonempty small)
  obtain ⟨nodes, complete⟩ := Trie.new_complete filled built
  refine ⟨trie, built, complete.inRange, fun text => ?_⟩
  refine ⟨(entries.insertionSort entryLe).filter fun entry => entry.1.isPrefixOf text, ?_,
    Trie.candidates_increasing entries text, fun m _ _ _ _ f => Trie.any_of_new nonempty built text f⟩
  exact (List.perm_insertionSort entryLe entries).filter _

theorem trie_offers_prefixes_sample :
    ∃ trie, Trie.new [([97, 98], 2), ([97], 1), ([98], 3)] = some trie ∧ trie.InRange ∧
      ∃ found : List Entry, found.Perm [([97, 98], 2), ([97], 1)] ∧
        found.Pairwise (fun a b => a.1.length ≤ b.1.length) ∧
        trie.any [97, 98, 99] (fun id => some (id == 2)) = (found.map Prod.snd).anyM fun id => some (id == 2) := by
  obtain ⟨trie, built, ranged, finds⟩ := trie_offers_prefixes [([97, 98], 2), ([97], 1), ([98], 3)] (by decide)
    (by decide) (by decide)
  obtain ⟨found, same, ordered, calls⟩ := finds [97, 98, 99]
  exact ⟨trie, built, ranged, found, same, ordered, calls Option _⟩

/-- The scan decides whether the text matches the glob, and its loop tests its condition at most
`(|text| + 2) * (|glob| + 1)` times. -/
theorem glob_scan_exact (glob text : Bytes) :
    (globMatches glob text = true ↔ GlobMatches glob text) ∧
      ∀ rounds, (text.length + 2) * (glob.length + 1) ≤ rounds →
        globLoop glob text rounds 0 0 none = some (globMatches glob text) := by
  refine ⟨globMatches_iff glob text, fun rounds enough => ?_⟩
  obtain ⟨result, ended, decides⟩ := @globLoop_start _ glob text rfl rfl rounds enough
  rw [ended, Bool.eq_iff_iff.mpr (decides.trans (globMatches_iff glob text).symm)]

end Tollgate

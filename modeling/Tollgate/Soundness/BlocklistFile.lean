import Tollgate.Proofs.Filter.AnyFile

/-! # Any blocklist file

Whatever bytes a file holds, loading it returns, with every index in range and every sum in 64 bits. A
file that loads is its header and five sections one after the other, a hash is found in a section exactly
if it is there, and every lookup returns.
-/

namespace Tollgate.DomainSet

/-- Any file is refused or loads without a panic, and what loads is searchable. -/
theorem any_file_loads_safely (bytes : Bytes) :
    (∃ reason, @fromBytes .u64 bytes = some (.error reason)) ∨
      ∃ set contents, @fromBytes .u64 bytes = some (.ok set) ∧ set.data = bytes ∧ @Reads .u64 set contents ∧
        (∀ hash : UInt64,
          @contains .u64 set set.block hash = some (decide (hash.toNat ∈ contents.block)) ∧
          @contains .u64 set set.allow hash = some (decide (hash.toNat ∈ contents.allow)) ∧
          @contains .u64 set set.important hash = some (decide (hash.toNat ∈ contents.important))) ∧
        ∀ host : Text, host.len < 2 ^ 64 → ∃ blocked, @isBlocked .u64 set host = some blocked := by
  let _ : Width := .u64
  rcases new_spec bytes with refused | ⟨set, contents, loaded, data, reads⟩
  · exact .inl refused
  · refine .inr ⟨set, contents, loaded, data, reads, ?_, ?_⟩
    · intro hash
      exact ⟨(reads.holds_block reads.blockSorted).contains hash, (reads.holds_allow reads.allowSorted).contains hash,
        (reads.holds_important reads.importantSorted).contains hash⟩
    · intro host short
      exact Option.isSome_iff_exists.mp (reads.isBlocked_isSome (decide_eq_true short))

/-- The hash of one blocked name. -/
def sampleHash : Bytes := Endian.leBytes 8 (fnv1a64 (Text.asBytes "ads.example".toList)).toNat

/-- A version 1 file that blocks one name. -/
def sampleFile : Bytes :=
  magic ++ [1, 1, 0, 0, 0].flatMap (Endian.leBytes 4) ++ Endian.leBytes 8 (checksum sampleHash).toNat ++ sampleHash

theorem any_file_loads_safely_sample :
    ∃ set, @fromBytes .u64 sampleFile = some (.ok set) ∧
      ∃ blocked, @isBlocked .u64 set "www.ads.example".toList = some blocked := by
  have accepted : (@fromBytes .u64 sampleFile).any Except.isOk = true := by decide
  rcases any_file_loads_safely sampleFile with ⟨reason, refused⟩ | ⟨set, contents, loaded, -, -, -, lookups⟩
  · rw [refused] at accepted
    cases accepted
  · exact ⟨set, loaded, lookups _ (by decide)⟩

end Tollgate.DomainSet

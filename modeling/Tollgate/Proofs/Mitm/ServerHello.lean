import Tollgate.Model.Mitm.TlsFormat

/-! # Reading a `ServerHello`

The reader of extensions accepts exactly the encodings of lists of extensions, and finds the last
`supported_versions` and whether there is a `pre_shared_key`. So what it says of a message body says which
`ServerHello` the body reads as.
-/

namespace Tollgate.Mitm

open List

/-- The version that a list of extensions selects, starting from what was found before. -/
def selects (found : Bool) (extensions : List Extension) : Bool :=
  extensions.foldl (fun found extension =>
    if extension.kind = supportedVersions then extension.data == [3, 4] else found) found

theorem selects_cons (found : Bool) (extension : Extension) (extensions : List Extension) :
    selects found (extension :: extensions) =
      selects (if extension.kind = supportedVersions then extension.data == [3, 4] else found) extensions := rfl

theorem selects_eq (found : Bool) (extensions : List Extension) :
    selects found extensions =
      (((extensions.filter (·.kind = supportedVersions)).getLast?).map fun last => last.data == [3, 4]).getD found := by
  induction extensions using List.reverseRecOn with
  | nil => rfl
  | append_singleton front last ih =>
    rw [selects, foldl_append, foldl_cons, foldl_nil, ← selects, ih, filter_append]
    by_cases same : last.kind = supportedVersions
    · simp [same]
    · simp [same]

/-- An extension at the front of the bytes. -/
theorem slices_iff {rest : Bytes} {kind len data : Bytes} :
    (slice rest 0 2 = some kind ∧ slice rest 2 4 = some len ∧ slice rest 4 (4 + Endian.ofBe len) = some data) ↔
      ∃ extension : Extension, rest = extension.encode ++ rest.drop (4 + Endian.ofBe len) ∧
        kind = [extension.kindHigh, extension.kindLow] ∧ len = [extension.high, extension.low] ∧
        data = extension.data := by
  constructor
  · rintro ⟨first, second, third⟩
    match rest with
    | [] | [_] | [_, _] | [_, _, _] => cases second
    | a :: b :: c :: d :: tail =>
      obtain rfl : [a, b] = kind := Option.some.inj first
      obtain rfl : [c, d] = len := Option.some.inj second
      unfold slice at third
      split at third
      · next inside =>
        obtain rfl := Option.some.inj third
        have bound : Endian.ofBe [c, d] ≤ tail.length := by
          have total := inside.2
          simp only [length_cons] at total
          omega
        have body : ((a :: b :: c :: d :: tail).take (4 + Endian.ofBe [c, d])).drop 4 = tail.take (Endian.ofBe [c, d]) := by
          rw [Nat.add_comm]
          rfl
        refine ⟨⟨a, b, c, d, tail.take (Endian.ofBe [c, d]), by rw [length_take]; omega⟩, ?_, rfl, rfl, body⟩
        have left : (a :: b :: c :: d :: tail).drop (4 + Endian.ofBe [c, d]) = tail.drop (Endian.ofBe [c, d]) := by
          rw [Nat.add_comm]
          rfl
        rw [left]
        change _ = [a, b, c, d] ++ tail.take _ ++ tail.drop _
        rw [append_assoc, take_append_drop]
        rfl
      · cases third
  · rintro ⟨extension, split, rfl, rfl, rfl⟩
    generalize drop _ rest = after at split
    subst split
    refine ⟨rfl, rfl, ?_⟩
    have at_ := slice_append [extension.kindHigh, extension.kindLow, extension.high, extension.low] extension.data after
    rw [← extension.sized]
    exact at_

/-- The reader of extensions reads lists of extensions. -/
theorem readExtensions_spec {fuel : ℕ} {rest : Bytes} {tls13 resumed selected resumes : Bool}
    (read : readExtensions fuel rest tls13 resumed = some (selected, resumes)) :
    ∃ extensions : List Extension, rest = extensions.flatMap Extension.encode ∧ selected = selects tls13 extensions ∧
      resumes = (resumed || extensions.any (·.kind = preSharedKey)) := by
  induction fuel generalizing rest tls13 resumed with
  | zero =>
    cases rest with
    | nil =>
      cases read
      exact ⟨[], rfl, rfl, by simp⟩
    | cons first more => cases read
  | succ fuel ih =>
    cases rest with
    | nil =>
      cases read
      exact ⟨[], rfl, rfl, by simp⟩
    | cons first more =>
      obtain ⟨kind, isKind, read⟩ := Option.bind_eq_some_iff.mp read
      obtain ⟨len, isLen, read⟩ := Option.bind_eq_some_iff.mp read
      obtain ⟨data, isData, read⟩ := Option.bind_eq_some_iff.mp read
      obtain ⟨extension, split, rfl, rfl, rfl⟩ := slices_iff.mp ⟨isKind, isLen, isData⟩
      dsimp only at read
      have step : ∀ {tls13' resumed' : Bool},
          readExtensions fuel ((first :: more).drop (4 + Endian.ofBe [extension.high, extension.low])) tls13' resumed' =
            some (selected, resumes) →
          tls13' = (if extension.kind = supportedVersions then extension.data == [3, 4] else tls13) →
          resumed' = (resumed || decide (extension.kind = preSharedKey)) →
          ∃ extensions : List Extension, first :: more = extensions.flatMap Extension.encode ∧
            selected = selects tls13 extensions ∧ resumes = (resumed || extensions.any (·.kind = preSharedKey)) := by
        rintro tls13' resumed' later rfl rfl
        obtain ⟨extensions, rest, selected, resumes⟩ := ih later
        refine ⟨extension :: extensions, ?_, selected, ?_⟩
        · rw [flatMap_cons, ← rest]
          exact split
        · rw [resumes, any_cons, Bool.or_assoc]
      have apart : extension.kind = supportedVersions → extension.kind ≠ preSharedKey := by
        intro same
        rw [same]
        decide
      change (if extension.kind = supportedVersions then _ else if extension.kind = preSharedKey then _ else _) = _ at read
      split at read
      · next versions =>
        refine step read (if_pos versions).symm ?_
        rw [decide_eq_false (apart versions), Bool.or_false]
      · next other =>
        split at read
        · next shared =>
          refine step read (if_neg other).symm ?_
          rw [decide_eq_true shared, Bool.or_true]
        · next unshared =>
          refine step read (if_neg other).symm ?_
          rw [decide_eq_false unshared, Bool.or_false]

theorem readExtensions_step {fuel : ℕ} {rest kind len data : Bytes} (isKind : slice rest 0 2 = some kind)
    (isLen : slice rest 2 4 = some len) (isData : slice rest 4 (4 + Endian.ofBe len) = some data)
    (tls13 resumed : Bool) :
    readExtensions (fuel + 1) rest tls13 resumed =
      if Endian.ofBe kind = supportedVersions then
        readExtensions fuel (rest.drop (4 + Endian.ofBe len)) (data == [3, 4]) resumed
      else if Endian.ofBe kind = preSharedKey then readExtensions fuel (rest.drop (4 + Endian.ofBe len)) tls13 true
      else readExtensions fuel (rest.drop (4 + Endian.ofBe len)) tls13 resumed := by
  cases rest with
  | nil => cases isKind
  | cons first more =>
    change (slice (first :: more) 0 2).bind _ = _
    rw [isKind, Option.bind_some]
    change (slice (first :: more) 2 4).bind _ = _
    rw [isLen, Option.bind_some]
    change (slice (first :: more) 4 (4 + Endian.ofBe len)).bind _ = _
    rw [isData, Option.bind_some]

/-- A list of extensions is read, whatever was found before it. -/
theorem readExtensions_encode {fuel : ℕ} (extensions : List Extension) (tls13 resumed : Bool)
    (enough : (extensions.flatMap Extension.encode).length ≤ fuel) :
    readExtensions fuel (extensions.flatMap Extension.encode) tls13 resumed =
      some (selects tls13 extensions, resumed || extensions.any (·.kind = preSharedKey)) := by
  induction extensions generalizing fuel tls13 resumed with
  | nil => cases fuel <;> simp [readExtensions, selects]
  | cons extension extensions ih =>
    rw [flatMap_cons] at enough ⊢
    have length : (extension.encode ++ extensions.flatMap Extension.encode).length =
        4 + extension.data.length + (extensions.flatMap Extension.encode).length := by
      rw [length_append, Extension.encode, length_append]
      rfl
    cases fuel with
    | zero => omega
    | succ fuel =>
      have left : (extension.encode ++ extensions.flatMap Extension.encode).drop
          (4 + Endian.ofBe [extension.high, extension.low]) = extensions.flatMap Extension.encode := by
        rw [← extension.sized, Extension.encode]
        exact drop_left' (by rw [length_append]; rfl)
      obtain ⟨isKind, isLen, isData⟩ := slices_iff.mpr ⟨extension, by rw [left], rfl, rfl, rfl⟩
      have later : ∀ tls13' resumed', readExtensions fuel (extensions.flatMap Extension.encode) tls13' resumed' =
          some (selects tls13' extensions, resumed' || extensions.any (·.kind = preSharedKey)) :=
        fun tls13' resumed' => ih tls13' resumed' (by omega)
      rw [readExtensions_step isKind isLen isData, left, any_cons]
      change (if extension.kind = supportedVersions then _ else if extension.kind = preSharedKey then _ else _) = _
      rw [later, later, later, selects_cons]
      by_cases versions : extension.kind = supportedVersions
      · have other : extension.kind ≠ preSharedKey := by
          rw [versions]
          decide
        rw [if_pos versions, if_pos versions, decide_eq_false other, Bool.false_or]
      · rw [if_neg versions, if_neg versions]
        by_cases shared : extension.kind = preSharedKey
        · rw [if_pos shared, decide_eq_true shared, Bool.true_or, Bool.or_true]
        · rw [if_neg shared, decide_eq_false shared, Bool.false_or]

namespace ServerHello

/-- What a `ServerHello` that can be read starts. -/
def starts (hello : ServerHello) : Progress :=
  match selects false hello.extensions, hello.extensions.any (·.kind = preSharedKey) with
  | true, false => .tls13
  | true, true => .noCertificate
  | false, _ => .tls12

theorem selects_iff (hello : ServerHello) : selects false hello.extensions = true ↔ hello.SelectsTls13 := by
  rw [selects_eq, SelectsTls13, version]
  cases (hello.extensions.filter (·.kind = supportedVersions)).getLast? with
  | none => exact ⟨nofun, nofun⟩
  | some last =>
    rw [Option.map_some, Option.map_some, Option.getD_some, beq_iff_eq]
    exact ⟨congrArg some, Option.some.inj⟩

theorem hasPreSharedKey_iff (hello : ServerHello) :
    hello.extensions.any (·.kind = preSharedKey) = true ↔ hello.HasPreSharedKey := by
  simp [HasPreSharedKey]

theorem starts_tls13 {hello : ServerHello} (starts : hello.starts = .tls13) :
    hello.SelectsTls13 ∧ ¬hello.HasPreSharedKey := by
  rw [← selects_iff, ← hasPreSharedKey_iff]
  unfold ServerHello.starts at starts
  split at starts
  · next selected plain => exact ⟨selected, by rw [plain]; exact Bool.false_ne_true⟩
  · cases starts
  · cases starts

theorem starts_tls12 {hello : ServerHello} (starts : hello.starts = .tls12) : ¬hello.SelectsTls13 := by
  rw [← selects_iff]
  unfold ServerHello.starts at starts
  split at starts
  · cases starts
  · cases starts
  · next unselected => rw [unselected]; exact Bool.false_ne_true

theorem starts_ne_hello (hello : ServerHello) : hello.starts ≠ .hello := by
  unfold starts
  split <;> nofun

theorem starts_ne_certificateSent (hello : ServerHello) : hello.starts ≠ .certificateSent := by
  unfold starts
  split <;> nofun

end ServerHello

/-- The fields of a `ServerHello` before its extensions. -/
theorem body_split {body : Bytes} {sessionIdLength : UInt8} (there : body[34]? = some sessionIdLength) :
    body = body.take 2 ++ (body.take 34).drop 2 ++ [sessionIdLength] ++ (body.drop 35).take sessionIdLength.toNat ++
      (body.drop (35 + sessionIdLength.toNat)).take 3 ++ body.drop (35 + sessionIdLength.toNat + 3) := by
  obtain ⟨bound, same⟩ := List.getElem?_eq_some_iff.mp there
  have front : body.take 2 ++ (body.take 34).drop 2 = body.take 34 := by
    have split := take_append_drop 2 (body.take 34)
    rwa [take_take] at split
  have middle : body.take 34 ++ [sessionIdLength] = body.take 35 := by
    rw [← same, take_succ_eq_append_getElem bound]
  have id : body.take 35 ++ (body.drop 35).take sessionIdLength.toNat = body.take (35 + sessionIdLength.toNat) :=
    (take_add ..).symm
  have choices : body.take (35 + sessionIdLength.toNat) ++ (body.drop (35 + sessionIdLength.toNat)).take 3 =
      body.take (35 + sessionIdLength.toNat + 3) := (take_add ..).symm
  rw [front, middle, id, choices, take_append_drop]

theorem slice_to_end {body rest : Bytes} {start : ℕ} (found : slice body start body.length = some rest) :
    start ≤ body.length ∧ rest = body.drop start := by
  unfold slice at found
  split at found
  · next inside =>
    rw [take_length] at found
    exact ⟨inside.1, (Option.some.inj found).symm⟩
  · cases found

/-- A block of extensions at the front of the bytes. -/
theorem block_of_slices {rest len inside : Bytes} (isLen : slice rest 0 2 = some len)
    (isBlock : slice rest 2 (2 + Endian.ofBe len) = some inside) {extensions : List Extension}
    (read : inside = extensions.flatMap Extension.encode) :
    ∃ (block : ExtensionBlock) (extra : Bytes), block.extensions = extensions ∧ rest = block.encode ++ extra := by
  match rest with
  | [] | [_] => cases isLen
  | a :: b :: tail =>
    obtain rfl : [a, b] = len := Option.some.inj isLen
    unfold slice at isBlock
    split at isBlock
    · next bounds =>
      have body : ((a :: b :: tail).take (2 + Endian.ofBe [a, b])).drop 2 = tail.take (Endian.ofBe [a, b]) := by
        rw [Nat.add_comm]
        rfl
      have same : tail.take (Endian.ofBe [a, b]) = extensions.flatMap Extension.encode :=
        (body.symm.trans (Option.some.inj isBlock)).trans read
      have bound : Endian.ofBe [a, b] ≤ tail.length := by
        have total := bounds.2
        simp only [length_cons] at total
        omega
      refine ⟨⟨a, b, extensions, by rw [← same, length_take]; omega⟩, tail.drop (Endian.ofBe [a, b]), rfl, ?_⟩
      change _ = [a, b] ++ extensions.flatMap Extension.encode ++ _
      rw [← same, append_assoc, take_append_drop]
      rfl
    · cases isBlock

/-- The fields of a message body that is long enough, with the extensions that were read after them. -/
def ServerHello.cut (body : Bytes) (sessionIdLength : UInt8) (long : 35 + sessionIdLength.toNat + 3 ≤ body.length)
    (block : Option ExtensionBlock) : ServerHello where
  legacyVersion := body.take 2
  random := (body.take 34).drop 2
  sessionIdLength := sessionIdLength
  sessionId := (body.drop 35).take sessionIdLength.toNat
  choices := (body.drop (35 + sessionIdLength.toNat)).take 3
  block := block
  version_sized := by rw [length_take]; omega
  random_sized := by rw [length_drop, length_take]; omega
  sessionId_sized := by rw [length_take, length_drop]; omega
  choices_sized := by rw [length_take, length_drop]; omega

/-- What was read of a message body: it asks to try again, or it is a `ServerHello`. -/
theorem of_readServerHello {body : Bytes} {progress : Progress} (read : readServerHello body = some progress) :
    (slice body 2 34 = some helloRetryRequest ∧ progress = .hello) ∨
      ∃ hello : ServerHello, hello.Reads body ∧ hello.random ≠ helloRetryRequest ∧ progress = hello.starts := by
  obtain ⟨random, isRandom, read⟩ := Option.bind_eq_some_iff.mp read
  dsimp only at read
  split at read
  · next retry =>
    rw [retry] at isRandom
    exact .inl ⟨isRandom, (Option.some.inj read).symm⟩
  · next new =>
    obtain ⟨sessionIdLength, there, read⟩ := Option.bind_eq_some_iff.mp read
    obtain ⟨rest, isRest, read⟩ := Option.bind_eq_some_iff.mp read
    obtain ⟨long, rfl⟩ := slice_to_end isRest
    obtain rfl : (body.take 34).drop 2 = random := by
      unfold slice at isRandom
      split at isRandom
      · exact Option.some.inj isRandom
      · cases isRandom
    have split := body_split there
    refine .inr ?_
    split at read
    · next empty =>
      refine ⟨.cut body sessionIdLength long none, ⟨[], ?_, fun _ => rfl⟩, new, (Option.some.inj read).symm⟩
      rw [isEmpty_iff.mp empty] at split
      rw [append_nil]
      exact split
    · obtain ⟨len, isLen, read⟩ := Option.bind_eq_some_iff.mp read
      obtain ⟨inside, isBlock, read⟩ := Option.bind_eq_some_iff.mp read
      obtain ⟨⟨tls13, resumed⟩, isRead, read⟩ := Option.bind_eq_some_iff.mp read
      obtain ⟨extensions, encoded, rfl, rfl⟩ := readExtensions_spec isRead
      obtain ⟨block, extra, rfl, whole⟩ := block_of_slices isLen isBlock encoded
      refine ⟨.cut body sessionIdLength long (some block), ⟨extra, ?_, nofun⟩, new, ?_⟩
      · rw [whole, ← append_assoc] at split
        exact split
      · have found : (ServerHello.cut body sessionIdLength long (some block)).extensions = block.extensions := rfl
        unfold ServerHello.starts
        rw [found]
        rw [Bool.false_or] at read
        dsimp only at read
        cases selected : selects false block.extensions with
        | false =>
          rw [selected] at read
          exact (Option.some.inj read).symm
        | true =>
          cases shared : block.extensions.any (·.kind = preSharedKey) with
          | false =>
            rw [selected, shared] at read
            exact (Option.some.inj read).symm
          | true =>
            rw [selected, shared] at read
            exact (Option.some.inj read).symm

/-- A message body that reads as a `ServerHello` is read. -/
theorem readServerHello_of_reads {body : Bytes} {hello : ServerHello} (reads : hello.Reads body)
    (new : hello.random ≠ helloRetryRequest) : readServerHello body = some hello.starts := by
  obtain ⟨extra, rfl, bare⟩ := reads
  generalize after : (hello.block.map ExtensionBlock.encode).getD [] ++ extra = rest
  have whole : hello.encode ++ extra = hello.legacyVersion ++ hello.random ++ [hello.sessionIdLength] ++
      hello.sessionId ++ hello.choices ++ rest := by
    rw [← after, ← append_assoc]
    rfl
  have isRandom : slice (hello.encode ++ extra) 2 34 = some hello.random := by
    have found := slice_append hello.legacyVersion hello.random
      ([hello.sessionIdLength] ++ hello.sessionId ++ hello.choices ++ rest)
    rw [hello.version_sized, hello.random_sized] at found
    rw [whole, ← found]
    simp only [append_assoc]
  have there : (hello.encode ++ extra)[34]? = some hello.sessionIdLength := by
    have length : (hello.legacyVersion ++ hello.random).length = 34 := by
      rw [length_append, hello.version_sized, hello.random_sized]
    rw [whole, append_assoc, append_assoc, append_assoc, getElem?_append_right (by omega), length]
    rfl
  have isRest : slice (hello.encode ++ extra) (35 + hello.sessionIdLength.toNat + 3) (hello.encode ++ extra).length =
      some rest := by
    have front : (hello.legacyVersion ++ hello.random ++ [hello.sessionIdLength] ++ hello.sessionId ++
        hello.choices).length = 35 + hello.sessionIdLength.toNat + 3 := by
      simp only [length_append, hello.version_sized, hello.random_sized, hello.sessionId_sized, hello.choices_sized,
        length_singleton]
    have found := slice_append (hello.legacyVersion ++ hello.random ++ [hello.sessionIdLength] ++ hello.sessionId ++
        hello.choices) rest []
    rw [append_nil, ← length_append, front] at found
    rw [whole]
    exact found
  unfold readServerHello
  rw [isRandom, Checked.some_bind, if_neg new, there, Checked.some_bind, isRest, Checked.some_bind]
  cases block : hello.block with
  | none =>
    rw [block] at after
    obtain rfl : rest = [] := after.symm.trans (bare block)
    have none : hello.extensions = [] := by rw [ServerHello.extensions, block]; rfl
    rw [ServerHello.starts, none]
    rfl
  | some found =>
    rw [block] at after
    have same : hello.extensions = found.extensions := by rw [ServerHello.extensions, block]; rfl
    have encoded : rest = [found.high, found.low] ++ found.extensions.flatMap Extension.encode ++ extra := after.symm
    have isBlock : slice rest 2 (2 + Endian.ofBe [found.high, found.low]) =
        some (found.extensions.flatMap Extension.encode) := by
      rw [encoded, ← found.sized]
      exact slice_append [found.high, found.low] _ extra
    have isLen : slice rest 0 2 = some [found.high, found.low] := by
      rw [encoded]
      rfl
    have nonempty : ¬rest.isEmpty = true := by
      rw [encoded]
      exact Bool.false_ne_true
    rw [if_neg nonempty, isLen, Checked.some_bind, isBlock, Checked.some_bind,
      readExtensions_encode found.extensions false false (le_refl _), Checked.some_bind, Bool.false_or,
      ServerHello.starts, same]
    cases selects false found.extensions <;> cases found.extensions.any (·.kind = preSharedKey) <;> rfl

end Tollgate.Mitm

import Tollgate.Model.Mitm.Requests
import Tollgate.ToMathlib.Separated

/-! # The headers that are forwarded over HTTP/1.1

A header named in `Connection` is removed exactly if a value that is plain text names it: a value with a byte
that is not plain text is passed over as a whole, so what only it names is forwarded. Everything else is as it
should be for every header map: no header for one hop remains, `Host` is the target's authority, the cookies
are joined, and all other headers keep their values.
-/

namespace Tollgate.Mitm

open List

/-- Blanks around a name in a list of names. -/
def isBlank (b : UInt8) : Bool := b == 32 || b == 9

def trimBlank (bytes : Bytes) : Bytes := (bytes.dropWhile isBlank).rdropWhile isBlank

/-- The names that stand in a value between commas, whatever else stands there. -/
def HeaderValue.names (value : HeaderValue) : List HeaderName :=
  (value.bytes.splitOn (Text.byte ',')).filterMap fun part => HeaderName.fromBytes (trimBlank part)

/-- A header is named in a `Connection` header. -/
def HeaderMap.Names (headers : HeaderMap) (name : HeaderName) : Prop :=
  ∃ value ∈ headers.getAll .connection, name ∈ value.names

/-- A header is named in a `Connection` header whose bytes are all tabs or printable ASCII. -/
def HeaderMap.NamesInText (headers : HeaderMap) (name : HeaderName) : Prop :=
  ∃ value ∈ headers.getAll .connection, value.bytes.all HeaderValue.isVisible = true ∧ name ∈ value.names

/-- The headers that should be forwarded: nothing that is for one hop or named in `Connection`, the authority
as `Host`, the cookies in one header, and the rest as it was. -/
structure Forwards (headers forwarded : HeaderMap) (authority : Text) : Prop where
  hops : ∀ name ∈ hopByHop, forwarded.getAll name = []
  named : ∀ name, name ≠ .host → headers.Names name → forwarded.getAll name = []
  host : ∃ host : HeaderValue, forwarded.getAll .host = [host] ∧ host.bytes = authority.asBytes
  cookies : (forwarded.getAll .cookie = [] ∧ (headers.getAll .cookie = [] ∨ headers.Names .cookie)) ∨
    ∃ value, forwarded.getAll .cookie = [value] ∧ value.bytes =
      intercalate ("; ".toList.map Text.byte) ((headers.getAll .cookie).map HeaderValue.bytes)
  rest : ∀ name, name ∉ hopByHop → ¬headers.Names name → name ≠ .host → name ≠ .cookie →
    forwarded.getAll name = headers.getAll name

section Text

/-- The character of a byte of plain text. -/
private def charOf (b : UInt8) : Char := Char.ofNat b.toNat

private theorem toNat_charOf (b : UInt8) : (charOf b).toNat = b.toNat := by
  have small : b.toNat < 256 := b.toNat_lt
  have valid : b.toNat.isValidChar := .inl (by omega)
  rw [charOf, Char.ofNat, dif_pos valid]
  rfl

private theorem charOf_comma {b : UInt8} (same : charOf b = charOf (Text.byte ',')) : b = Text.byte ',' := by
  apply UInt8.toNat_inj.mp
  rw [← toNat_charOf, same, toNat_charOf]

private theorem visible_bounds {b : UInt8} (visible : HeaderValue.isVisible b = true) :
    (32 ≤ b.toNat ∧ b.toNat < 127) ∨ b.toNat = 9 := by
  rw [HeaderValue.isVisible, Bool.or_eq_true, Bool.and_eq_true, decide_eq_true_iff, decide_eq_true_iff, beq_iff_eq,
    UInt8.le_iff_toNat_le, UInt8.lt_iff_toNat_lt] at visible
  rcases visible with inside | rfl
  · exact .inl inside
  · exact .inr rfl

private theorem isWhitespace_charOf {b : UInt8} (visible : HeaderValue.isVisible b = true) :
    Text.isWhitespace (charOf b) = isBlank b := by
  have bounds := visible_bounds visible
  have blank : isBlank b = (b.toNat == 32 || b.toNat == 9) := by
    rw [isBlank, Bool.eq_iff_iff, Bool.or_eq_true, Bool.or_eq_true, beq_iff_eq, beq_iff_eq, beq_iff_eq, beq_iff_eq,
      ← UInt8.toNat_inj, ← UInt8.toNat_inj]
    rfl
  rw [blank, Text.isWhitespace, toNat_charOf, Bool.eq_iff_iff]
  simp only [Bool.or_eq_true, Bool.and_eq_true, decide_eq_true_iff, beq_iff_eq]
  omega

private theorem dropWhile_congr {α : Type*} {p q : α → Bool} {whole : List α} (same : ∀ x ∈ whole, p x = q x) :
    whole.dropWhile p = whole.dropWhile q := by
  induction whole with
  | nil => rfl
  | cons x rest ih =>
    obtain ⟨head, tail⟩ := forall_mem_cons.mp same
    rw [dropWhile_cons, dropWhile_cons, head, ih tail]

private theorem trim_charOf {bytes : Bytes} (visible : ∀ b ∈ bytes, HeaderValue.isVisible b = true) :
    Text.trim (bytes.map charOf) = (trimBlank bytes).map charOf := by
  have agree : ∀ {part : Bytes}, part ⊆ bytes → ∀ b ∈ part, (Text.isWhitespace ∘ charOf) b = isBlank b :=
    fun inside b member => isWhitespace_charOf (visible b (inside member))
  have front : bytes.dropWhile (Text.isWhitespace ∘ charOf) = bytes.dropWhile isBlank :=
    dropWhile_congr (agree (Subset.refl _))
  have back : (bytes.dropWhile isBlank).reverse ⊆ bytes :=
    fun b member => (dropWhile_sublist _).mem (mem_reverse.mp member)
  rw [Text.trim, trimBlank, dropWhile_map, front, rdropWhile, rdropWhile, ← map_reverse, dropWhile_map,
    dropWhile_congr (agree back), map_reverse]

private theorem asBytes_charOf {bytes : Bytes} (visible : ∀ b ∈ bytes, HeaderValue.isVisible b = true) :
    Text.asBytes (bytes.map charOf) = bytes := by
  have ascii : ∀ b ∈ bytes, Text.Ascii (charOf b) := by
    intro b member
    have bounds := visible_bounds (visible b member)
    change (charOf b).toNat < 128
    rw [toNat_charOf]
    omega
  rw [Text.asBytes_of_ascii (forall_mem_map.mpr ascii), map_map]
  refine (map_congr_left fun b member => ?_).trans (map_id _)
  apply UInt8.toNat_inj.mp
  exact (Text.byte_toNat (ascii b member)).trans (toNat_charOf b)

end Text

theorem trimBlank_subset (bytes : Bytes) : trimBlank bytes ⊆ bytes :=
  fun _ member => (dropWhile_sublist _).mem (( rdropWhile_prefix _ _).sublist.mem member)

/-- The names found in a value that is plain text are those that stand in it. -/
theorem HeaderValue.names_of_toStr {value : HeaderValue} {text : Text} (plain : value.toStr = some text) :
    ((text.splitOn ',').filterMap fun name => HeaderName.fromBytes (Text.asBytes (Text.trim name))) = value.names := by
  unfold toStr at plain
  split at plain
  · next visible =>
    obtain rfl := Option.some.inj plain
    have bytes := List.all_eq_true.mp visible
    have comma : (',' : Char) = charOf (Text.byte ',') := rfl
    have inside : ∀ part ∈ value.bytes.splitOn (Text.byte ','), ∀ b ∈ part, isVisible b = true :=
      forall_splitOn fun b member => .inr (bytes b member)
    have split : (value.bytes.map charOf).splitOn ',' =
        (value.bytes.splitOn (Text.byte ',')).map (List.map charOf) := by
      rw [comma]
      exact splitOn_map fun _ _ same => charOf_comma same
    change ((value.bytes.map charOf).splitOn ',').filterMap _ = _
    rw [split, filterMap_map]
    apply filterMap_congr
    intro part member
    have visible := inside part member
    change HeaderName.fromBytes (Text.asBytes (Text.trim (part.map charOf))) = _
    rw [trim_charOf visible, asBytes_charOf fun b found => visible b (trimBlank_subset part found)]
  · cases plain

theorem HeaderValue.toStr_isSome (value : HeaderValue) :
    value.toStr.isSome = value.bytes.all HeaderValue.isVisible := by
  unfold toStr
  split <;> simp_all

/-- What is found in the `Connection` headers is what a value that is plain text names. -/
theorem mem_listed_iff {headers : HeaderMap} {name : HeaderName} :
    name ∈ listed headers ↔ headers.NamesInText name := by
  constructor
  · intro found
    obtain ⟨part, member, read⟩ := mem_filterMap.mp found
    obtain ⟨text, strings, inside⟩ := mem_flatMap.mp member
    obtain ⟨value, there, plain⟩ := mem_filterMap.mp strings
    refine ⟨value, there, ?_, ?_⟩
    · rw [← HeaderValue.toStr_isSome, plain, Option.isSome_some]
    · rw [← HeaderValue.names_of_toStr plain]
      exact mem_filterMap.mpr ⟨part, inside, read⟩
  · rintro ⟨value, there, visible, named⟩
    rw [← HeaderValue.toStr_isSome] at visible
    obtain ⟨text, string⟩ := Option.isSome_iff_exists.mp visible
    rw [← HeaderValue.names_of_toStr string] at named
    obtain ⟨part, inside, read⟩ := mem_filterMap.mp named
    exact mem_filterMap.mpr ⟨part, mem_flatMap.mpr ⟨text, mem_filterMap.mpr ⟨value, there, string⟩, inside⟩, read⟩

theorem names_of_mem_listed {headers : HeaderMap} {name : HeaderName} (found : name ∈ listed headers) :
    headers.Names name := by
  obtain ⟨value, there, -, named⟩ := mem_listed_iff.mp found
  exact ⟨value, there, named⟩

theorem getAll_stripHopByHop (headers : HeaderMap) (name : HeaderName) :
    (stripHopByHop headers).getAll name =
      if name ∈ hopByHop ∨ name ∈ listed headers then [] else headers.getAll name := by
  rw [stripHopByHop, Multimap.getAll_foldl_remove, Multimap.getAll_foldl_remove]
  split_ifs <;> simp_all

/-- Joining valid values with a valid separator gives a valid value. -/
private theorem all_intercalate {p : UInt8 → Bool} {sep : Bytes} (between : sep.all p = true) {parts : List Bytes}
    (inside : ∀ part ∈ parts, part.all p = true) : (intercalate sep parts).all p = true := by
  induction parts with
  | nil => rfl
  | cons part rest ih =>
    obtain ⟨head, tail⟩ := forall_mem_cons.mp inside
    cases rest with
    | nil => simpa [intercalate] using head
    | cons next rest => rw [intercalate_cons_cons, all_append, all_append, head, between, ih tail]; rfl

theorem getAll_joinCookies_of_ne (headers : HeaderMap) {name : HeaderName} (other : name ≠ .cookie) :
    (joinCookies headers).getAll name = headers.getAll name := by
  unfold joinCookies
  dsimp only
  split
  · rfl
  · split
    · exact Multimap.getAll_insert_of_ne _ other _
    · rfl

/-- The cookies become one, which holds all of them. -/
theorem getAll_joinCookies_cookie (headers : HeaderMap) :
    (headers.getAll .cookie = [] ∧ (joinCookies headers).getAll .cookie = []) ∨
      ∃ value, (joinCookies headers).getAll .cookie = [value] ∧
        value.bytes = intercalate ("; ".toList.map Text.byte) ((headers.getAll .cookie).map HeaderValue.bytes) := by
  have joins : ((intercalate ("; ".toList.map Text.byte) ((headers.getAll .cookie).map HeaderValue.bytes)).all
      HeaderValue.isValid) = true := by
    refine all_intercalate (by decide) ?_
    exact forall_mem_map.mpr fun value _ => value.valid
  unfold joinCookies HeaderValue.fromBytes
  dsimp only
  rw [dif_pos joins]
  split
  · next few =>
    rw [length_map] at few
    rcases found : headers.getAll .cookie with _ | ⟨value, _ | ⟨second, rest⟩⟩
    · exact .inl ⟨rfl, rfl⟩
    · refine .inr ⟨value, rfl, ?_⟩
      simp [intercalate]
    · rw [found, length_cons, length_cons] at few
      omega
  · exact .inr ⟨_, Multimap.getAll_insert_self .., rfl⟩

section Forwarded

variable (parse : Text → Option Uri) (request : Request Body) (target : Target) {host : HeaderValue}

theorem getAll_forHttp1_host (valid : HeaderValue.fromStr target.authority = some host) :
    (forHttp1 parse request target).headers.getAll .host = [host] := by
  unfold forHttp1
  dsimp only
  rw [valid]
  exact Multimap.getAll_insert_self ..

theorem getAll_forHttp1_of_ne {name : HeaderName} (other : name ≠ .host) :
    (forHttp1 parse request target).headers.getAll name = (joinCookies (stripHopByHop request.headers)).getAll name := by
  unfold forHttp1
  dsimp only
  split
  · exact Multimap.getAll_insert_of_ne _ other _
  · rfl

/-- A header that is gone does not come back, unless it is `Host`. -/
theorem getAll_forHttp1_gone {name : HeaderName} (other : name ≠ .host)
    (gone : (stripHopByHop request.headers).getAll name = []) :
    (forHttp1 parse request target).headers.getAll name = [] := by
  rw [getAll_forHttp1_of_ne parse request target other]
  by_cases cookie : name = .cookie
  · subst cookie
    rw [joinCookies, gone]
    exact gone
  · rw [getAll_joinCookies_of_ne _ cookie, gone]

theorem getAll_forHttp1_removed {name : HeaderName} (other : name ≠ .host)
    (removed : name ∈ hopByHop ∨ name ∈ listed request.headers) :
    (forHttp1 parse request target).headers.getAll name = [] := by
  apply getAll_forHttp1_gone parse request target other
  rw [getAll_stripHopByHop, if_pos removed]

/-- A header that is not in the request is not added, unless it is `Host`. -/
theorem getAll_forHttp1_nil {name : HeaderName} (other : name ≠ .host) (absent : request.headers.getAll name = []) :
    (forHttp1 parse request target).headers.getAll name = [] := by
  have gone : (stripHopByHop request.headers).getAll name = [] := by
    rw [getAll_stripHopByHop, absent, ite_self]
  exact getAll_forHttp1_gone parse request target other gone

theorem getAll_forHttp1_cookie (kept : HeaderName.cookie ∉ listed request.headers) :
    (request.headers.getAll .cookie = [] ∧ (forHttp1 parse request target).headers.getAll .cookie = []) ∨
      ∃ value, (forHttp1 parse request target).headers.getAll .cookie = [value] ∧ value.bytes =
        intercalate ("; ".toList.map Text.byte) ((request.headers.getAll .cookie).map HeaderValue.bytes) := by
  have same : (stripHopByHop request.headers).getAll .cookie = request.headers.getAll .cookie := by
    rw [getAll_stripHopByHop, if_neg]
    rintro (hop | named)
    · exact absurd hop (by decide)
    · exact kept named
  have joined := getAll_joinCookies_cookie (stripHopByHop request.headers)
  rw [getAll_forHttp1_of_ne parse request target (by decide)]
  rwa [same] at joined

theorem getAll_forHttp1_kept {name : HeaderName} (hop : name ∉ hopByHop) (unlisted : name ∉ listed request.headers)
    (host : name ≠ .host) (cookie : name ≠ .cookie) :
    (forHttp1 parse request target).headers.getAll name = request.headers.getAll name := by
  rw [getAll_forHttp1_of_ne parse request target host, getAll_joinCookies_of_ne _ cookie, getAll_stripHopByHop, if_neg]
  rintro (member | found)
  · exact hop member
  · exact unlisted found

/-- A header that is not removed is still there, the cookies included. -/
theorem getAll_forHttp1_ne_nil {name : HeaderName} (hop : name ∉ hopByHop) (unlisted : name ∉ listed request.headers)
    (host : name ≠ .host) (present : request.headers.getAll name ≠ []) :
    (forHttp1 parse request target).headers.getAll name ≠ [] := by
  by_cases cookie : name = .cookie
  · subst cookie
    rcases getAll_forHttp1_cookie parse request target unlisted with ⟨absent, -⟩ | ⟨value, joined, -⟩
    · exact absurd absent present
    · simp [joined]
  · rwa [getAll_forHttp1_kept parse request target hop unlisted host cookie]

/-- What is forwarded is as it should be as soon as what `Connection` names is gone. -/
theorem forwards_of_named (valid : HeaderValue.fromStr target.authority = some host)
    (named : ∀ name, name ≠ .host → request.headers.Names name →
      (forHttp1 parse request target).headers.getAll name = []) :
    Forwards request.headers (forHttp1 parse request target).headers target.authority := by
  refine ⟨?_, named, ⟨host, getAll_forHttp1_host parse request target valid, ?_⟩, ?_, ?_⟩
  · intro name hop
    refine getAll_forHttp1_removed parse request target ?_ (.inl hop)
    rintro rfl
    exact absurd hop (by decide)
  · unfold HeaderValue.fromStr HeaderValue.fromBytes at valid
    split at valid
    · exact (congrArg HeaderValue.bytes (Option.some.inj valid)).symm
    · cases valid
  · by_cases found : HeaderName.cookie ∈ listed request.headers
    · refine .inl ⟨getAll_forHttp1_removed parse request target (by decide) (.inr found), ?_⟩
      exact .inr (names_of_mem_listed found)
    · rcases getAll_forHttp1_cookie parse request target found with ⟨absent, none⟩ | joined
      · exact .inl ⟨none, .inl absent⟩
      · exact .inr joined
  · intro name hop unnamed host cookie
    exact getAll_forHttp1_kept parse request target hop (fun found => unnamed (names_of_mem_listed found)) host cookie

/-- The headers forwarded over HTTP/1.1 are as they should be exactly if each header present that a `Connection`
value names, other than `Host` and those for one hop, is also named in a `Connection` value that is plain text. -/
theorem forwarded_headers_exact (valid : HeaderValue.fromStr target.authority = some host) :
    Forwards request.headers (forHttp1 parse request target).headers target.authority ↔
      ∀ name, request.headers.getAll name ≠ [] → name ≠ .host → name ∉ hopByHop → request.headers.Names name →
        request.headers.NamesInText name := by
  constructor
  · intro forwards name present other hop named
    by_contra unread
    have unlisted : name ∉ listed request.headers := fun found => unread (mem_listed_iff.mp found)
    exact getAll_forHttp1_ne_nil parse request target hop unlisted other present (forwards.named name other named)
  · intro plain
    apply forwards_of_named parse request target valid
    intro name other named
    by_cases removed : name ∈ hopByHop ∨ name ∈ listed request.headers
    · exact getAll_forHttp1_removed parse request target other removed
    · obtain ⟨hop, unlisted⟩ := not_or.mp removed
      by_contra kept
      have present : request.headers.getAll name ≠ [] := by
        intro absent
        exact kept (getAll_forHttp1_nil parse request target other absent)
      exact unlisted (mem_listed_iff.mpr (plain name present other hop named))

end Forwarded

/-- A request to a plain origin with the given headers. -/
def plainRequest (headers : List (HeaderName × HeaderValue)) : Request Body :=
  ⟨.get, ⟨none, none, some "/".toList⟩, .http11, ⟨headers⟩, .empty⟩

def plainTarget : Target := ⟨false, "a.example".toList, 80, "a.example".toList⟩

def plainHost : HeaderValue := ⟨"a.example".toList.map Text.byte, by decide⟩

/-- A header of the client's own. -/
def HeaderName.xHop : HeaderName := ⟨"x-hop".toList.map Text.byte, by decide⟩

def HeaderValue.one : HeaderValue := ⟨"1".toList.map Text.byte, by decide⟩

/-- A list of names that is plain text, and the same list with one more byte. -/
def HeaderValue.hops : HeaderValue := ⟨"close, X-Hop".toList.map Text.byte, by decide⟩

def HeaderValue.mixedHops : HeaderValue := ⟨"close, X-Hop, ".toList.map Text.byte ++ [255], by decide⟩

/-- A request with both lists, so that what the longer one names is also named in plain text. -/
def hopsRequest : Request Body := plainRequest [(.connection, .mixedHops), (.connection, .hops), (.xHop, .one)]

theorem forwarded_headers_exact_sample :
    hopsRequest.headers.getAll .xHop = [.one] ∧
      Forwards hopsRequest.headers (forHttp1 (fun _ => none) hopsRequest plainTarget).headers plainTarget.authority ∧
      (forHttp1 (fun _ => none) hopsRequest plainTarget).headers.getAll .xHop = [] := by
  have valid : HeaderValue.fromStr plainTarget.authority = some plainHost := by decide
  have both : hopsRequest.headers.getAll .connection = [.mixedHops, .hops] := by decide
  have same : HeaderValue.mixedHops.names = HeaderValue.hops.names := by decide
  have forwards := (forwarded_headers_exact (fun _ => none) hopsRequest plainTarget valid).mpr (by
    rintro name - - - ⟨value, there, named⟩
    rw [both] at there
    refine ⟨.hops, by decide, by decide, ?_⟩
    rcases mem_pair.mp there with rfl | rfl
    · rwa [← same]
    · exact named)
  refine ⟨by decide, forwards, ?_⟩
  exact forwards.named .xHop (by decide) ⟨.hops, by decide, by decide⟩

/-- A `Connection` header with one byte that is not plain text names a header that is forwarded. -/
theorem named_header_forwarded :
    (plainRequest [(.connection, .mixedHops), (.xHop, .one)]).headers.Names .xHop ∧
      (forHttp1 (fun _ => none) (plainRequest [(.connection, .mixedHops), (.xHop, .one)]) plainTarget).headers.getAll
        .xHop = [.one] :=
  ⟨⟨.mixedHops, by decide, by decide⟩, by decide⟩

end Tollgate.Mitm

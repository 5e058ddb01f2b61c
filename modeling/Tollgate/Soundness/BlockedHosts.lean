import Tollgate.Model.Dns.Reference
import Tollgate.Model.Mitm.Filtering
import Tollgate.Proofs.Dns.CacheHits
import Tollgate.Proofs.Policy.Allowlist

/-! # The proxy and the DNS responder block the same hosts

A client that uses the proxy does not look names up, so the proxy asks the blocklist and the allowlist
itself. It decides what the responder decides for an address query of the same name, except for the local
names on the blocklist that the allowlist does not cover: the proxy does not know of local names, and the
responder never blocks one.
-/

namespace Tollgate.Mitm

open Dns List Text

variable {host : Text} {handler : DnsHandler} {policy : Policy} {patterns : List HostPattern}

theorem stripPrefix_none (dns : isDnsName host = true) : stripPrefix host.stripDot ['['] = none := by
  rw [Option.eq_none_iff_forall_ne_some]
  intro rest found
  have bracket := stripPrefix_eq_some_iff.mp found
  have stored := (isDnsName_lookup dns).stored '[' (by rw [lookupName, bracket]; exact mem_cons_self ..)
  simp [StoredChar] at stored

theorem lookupKey_eq (dns : isDnsName host = true) : lookupKey host.stripDot = lookupName host := by
  rw [lookupKey, (isDnsName_bare dns).1, stripPrefix_none dns]
  rfl

/-- Both allowlists cover the same hosts. -/
theorem isAllowlisted_eq (dns : isDnsName host = true) (stored : ∀ pattern ∈ patterns, Stored pattern.name)
    (given : policy.allowlist = .new patterns) :
    policy.isAllowlisted host.stripDot = patterns.any fun pattern => pattern.matches (host.stripDot ++ ['.']) := by
  have name : lookupName (host.stripDot ++ ['.']) = lookupName host := by rw [lookupName, stripDot_append, lookupName]
  have nonempty : (lookupName host).isEmpty = false := by
    simpa [lookupName, toAsciiLowercase] using (isDnsName_bare dns).2
  rw [Policy.isAllowlisted, lookupKey_eq dns, nonempty, Bool.not_false, Bool.true_and, given, Bool.eq_iff_iff,
    Policy.PatternSet.matches_new_iff, any_eq_true]
  constructor
  · rintro ⟨pattern, member, covers⟩
    exact ⟨pattern, member, (HostPattern.matches_iff (stored pattern member)).mpr (name ▸ covers)⟩
  · rintro ⟨pattern, member, matched⟩
    exact ⟨pattern, member, name ▸ (HostPattern.matches_iff (stored pattern member)).mp matched⟩

/-- The proxy finds the blocklist exactly if the responder finds the name blocked. -/
theorem domainBlockedBy_eq (dns : isDnsName host = true) (address : IpAddr.isIpAddr host.stripDot = false)
    (stored : ∀ pattern ∈ patterns, Stored pattern.name) (given : policy.allowlist = .new patterns)
    (same : handler.allowlist = patterns) :
    domainBlockedBy ⟨handler.blocklist, policy⟩ host =
      (handler.isBlocked (host.stripDot ++ ['.'])).map fun blocked => if blocked then handler.blocklist else none := by
  have unbracketed : ((stripPrefix host.stripDot ['[']).bind fun rest => stripSuffix rest [']']) = none := by
    rw [stripPrefix_none dns, Option.bind_none]
  have plain : ¬ (host.stripDot.isEmpty = true ∨ IpAddr.isIpAddr host.stripDot = true) := by
    simp [address, (isDnsName_bare dns).2]
  unfold domainBlockedBy DnsHandler.isBlocked
  dsimp only
  rw [unbracketed, Option.getD_none, if_neg plain, isAllowlisted_eq dns stored given, same]
  cases handler.blocklist with
  | none => rfl
  | some set =>
    have found : set.isBlocked host.stripDot = set.isBlocked (host.stripDot ++ ['.']) := by
      rw [DomainSet.isBlocked, DomainSet.isBlocked, (isDnsName_bare dns).1, stripDot_append]
    dsimp only
    rw [found]
    cases set.isBlocked (host.stripDot ++ ['.']) with
    | none => rfl
    | some blocked =>
      cases blocked <;> cases patterns.any fun pattern => pattern.matches (host.stripDot ++ ['.']) <;> rfl

/-- The packet asks the tunnel's resolver for the IPv4 address of a host. -/
structure AddressQuery (libraries : Libraries) (packet : Bytes) (host : Text) (datagram : UdpDatagram)
    (message : Message) : Prop where
  parsed : parseUdp libraries.packets packet = some datagram
  asks : DnsHandler.isQuery datagram = some true
  accepted : (libraries.decoder datagram.payload).isSome
  holds : ∃ trailing, datagram.payload = message.encode ++ trailing
  standard : message.opcode = 0
  qtype : message.question.qtype = typeA
  qclass : message.question.qclass = classIn
  name : message.question.Asks host

variable {libraries : Libraries} {packet : Bytes} {datagram : UdpDatagram} {message : Message}

/-- What is read of such a query. -/
theorem AddressQuery.read (asked : AddressQuery libraries packet host datagram message)
    (faithful : libraries.decoder.Faithful) (prints : libraries.decoder.Prints) (dns : isDnsName host = true)
    (plain : startsPlainly host = true) :
    ∃ read, readQuery libraries.decoder datagram.payload = some (.ok read) ∧ read.Of datagram.payload message ∧
      read.question = ⟨host.stripDot ++ ['.'], typeA⟩ := by
  obtain ⟨decoded, accepted⟩ := Option.isSome_iff_exists.mp asked.accepted
  obtain ⟨trailing, holds⟩ := asked.holds
  have unique (other : Message) (prefixed : HasAt datagram.payload 0 other.encode) : other = message := by
    obtain ⟨rest, same⟩ := prefixed
    exact (readable_message (same.trans holds)).1
  have prefixed : HasAt datagram.payload 0 message.encode := ⟨trailing, holds.symm⟩
  obtain ⟨-, -, -, one, -, -, -, stands, -⟩ := Message.hasAt_encode_iff.mp prefixed
  have ends : questionEnd datagram.payload = some (Dns.headerLen + message.question.encode.length) :=
    questionEnd_eq_some_iff.mpr ⟨one, message.question, stands, rfl⟩
  have standard : decoded.opCode = 0 := by
    obtain ⟨after, split⟩ := stands
    obtain ⟨other, rest, whole, reports⟩ := faithful.reports accepted one.take_drop split.symm
    rw [reports.opCode, unique other ⟨rest, whole.symm⟩, asked.standard]
  obtain ⟨read, other, readable, of⟩ := readQuery_of_decoded faithful accepted standard ends
  obtain rfl := unique other of.prefixed
  refine ⟨read, readable, of, ?_⟩
  have names := prints accepted holds dns plain asked.name
  obtain ⟨question, rest, queries, name, -⟩ := map_eq_cons_iff.mp names
  have first := readQuery_question accepted readable
  rw [queries, getElem?_cons_zero] at first
  obtain rfl := Option.some.inj first
  rw [← name, ← asked.qtype, ← of.queryType]

/-- The responder finds a name blocked that the blocklist blocks and no pattern of the allowlist covers. -/
theorem isBlocked_eq_true_iff (stored : ∀ pattern ∈ handler.allowlist, Stored pattern.name) :
    handler.isBlocked (host.stripDot ++ ['.']) = some true ↔
      (∃ set ∈ handler.blocklist, set.isBlocked host = some true) ∧
        ∀ pattern ∈ handler.allowlist, pattern.matches host = false := by
  have covered : (handler.allowlist.any fun pattern => pattern.matches (host.stripDot ++ ['.'])) =
      handler.allowlist.any fun pattern => pattern.matches host := by
    rw [Bool.eq_iff_iff, any_eq_true, any_eq_true]
    refine exists_congr fun pattern => and_congr_right fun member => ?_
    rw [HostPattern.matches_iff (stored pattern member), HostPattern.matches_iff (stored pattern member), lookupName,
      stripDot_append, lookupName]
  unfold DnsHandler.isBlocked
  rw [covered]
  cases handler.blocklist with
  | none => simp
  | some set =>
    have found : set.isBlocked (host.stripDot ++ ['.']) = set.isBlocked host := by
      rw [DomainSet.isBlocked, DomainSet.isBlocked, stripDot_append]
    simp [found, Option.bind_eq_some_iff]

theorem answer_blocked {query : Bytes} {read : QueryRead} {now : UInt64} {client server : SocketAddr} {payload : Bytes}
    (address : read.question.queryType = typeA) (distant : isLocalName read.question.name = false)
    (blocked : handler.isBlocked read.question.name = some true) (written : read.requester.blocked = some payload) :
    handler.answer client server query read now = some (handler, .reply payload) := by
  unfold DnsHandler.answer
  dsimp only
  rw [if_neg (by rw [address]; decide), if_neg (by rw [distant]; decide), blocked, written]
  rfl

theorem answer_forwards {query : Bytes} {read : QueryRead} {now : UInt64} {key : Bytes} (client server : SocketAddr)
    (address : read.question.queryType = typeA) (distant : isLocalName read.question.name = false)
    (unblocked : handler.isBlocked read.question.name = some false) (keyed : questionKey query read.stop = some key)
    (miss : handler.hit query read now = none) :
    ∃ next job, handler.answer client server query read now = some (next, .forward job) := by
  unfold DnsHandler.hit at miss
  unfold DnsHandler.answer
  dsimp only
  rw [if_neg (by rw [address]; decide)] at miss ⊢
  rw [if_neg (by rw [distant]; decide), unblocked, keyed]
  simp only [keyed, distant, unblocked, Option.bind_eq_bind, Option.bind_some, Bool.false_eq_true, if_false, if_true]
    at miss ⊢
  rw [miss]
  exact ⟨_, _, rfl⟩

theorem answer_local {query : Bytes} {read : QueryRead} {now : UInt64} {key : Bytes} (client server : SocketAddr)
    (address : read.question.queryType = typeA) (nearby : isLocalName read.question.name = true)
    (keyed : questionKey query read.stop = some key) (miss : handler.hit query read now = none) :
    ∃ next job, handler.answer client server query read now = some (next, .localJob job) := by
  unfold DnsHandler.hit at miss
  unfold DnsHandler.answer
  dsimp only
  rw [if_neg (by rw [address]; decide)] at miss ⊢
  simp only [keyed, nearby, Option.bind_eq_bind, Option.bind_some, if_true] at miss ⊢
  rw [miss]
  exact ⟨_, _, rfl⟩

/-- The responder sends a reply that is not from its cache exactly if the name is blocked and not local. -/
theorem AddressQuery.replied_iff (asked : AddressQuery libraries packet host datagram message) {read : QueryRead}
    (readable : readQuery libraries.decoder datagram.payload = some (.ok read)) (of : read.Of datagram.payload message)
    (address : read.question.queryType = typeA) {blocked : Bool} {payload written : Bytes} {now : UInt64}
    (found : handler.isBlocked read.question.name = some blocked) (answered : read.requester.blocked = some payload)
    (packed : replyPacket libraries.packets datagram.destination datagram.source payload = some written) :
    (handler.hit datagram.payload read now = none ∧
        ∃ next, handler.handlePacket libraries packet now = some (next, .reply written)) ↔
      blocked = true ∧ isLocalName read.question.name = false := by
  have handled {next : DnsHandler} {reaction : Reaction}
      (answered : handler.answer datagram.source datagram.destination datagram.payload read now = some (next, reaction)) :
      handler.respond libraries.decoder datagram.source datagram.destination datagram.payload now =
        some (next, reaction) := by
    simp only [DnsHandler.respond, readable, Option.bind_eq_bind, Option.bind_some, answered]
  constructor
  · rintro ⟨miss, next, replied⟩
    simp only [DnsHandler.handlePacket, asked.parsed, asked.asks, Option.bind_eq_bind, Option.bind_some, if_true]
      at replied
    cases nearby : isLocalName read.question.name with
    | true =>
      obtain ⟨after, job, given⟩ := answer_local datagram.source datagram.destination address nearby of.key miss
      rw [handled given] at replied
      cases replied
    | false =>
      cases blocked with
      | true => exact ⟨rfl, rfl⟩
      | false =>
        obtain ⟨after, job, forwarded⟩ :=
          answer_forwards datagram.source datagram.destination address nearby found of.key miss
        rw [handled forwarded] at replied
        cases replied
  · rintro ⟨rfl, distant⟩
    have replied := handled (answer_blocked address distant found answered)
    refine ⟨?_, handler, ?_⟩
    · unfold DnsHandler.hit
      rw [of.key, if_neg (by rw [address]; decide)]
      simp [distant, found]
    · simp only [DnsHandler.handlePacket, asked.parsed, asked.asks, replied, Option.bind_eq_bind, Option.bind_some,
        if_true, packed]

/-- The proxy finds a blocklist that blocks a host exactly if the responder sends the blocked reply, and not an
answer from its cache, to an address query for the host; except for exactly those hosts that are local names
on the blocklist and not covered by the allowlist. -/
theorem same_hosts_blocked (libraries : Libraries) (faithful : libraries.decoder.Faithful)
    (prints : libraries.decoder.Prints) (writes : libraries.packets.Writes) (texts : List Text)
    (patterns : List HostPattern) (valid : Policy.parsePatterns texts = .ok patterns) (policy : Policy)
    (given : policy.allowlist = .new patterns) (handler : DnsHandler) (same : handler.allowlist = patterns)
    (loaded : ∀ set ∈ handler.blocklist, set.Loaded) (host : Text) (dns : isDnsName host = true)
    (plain : startsPlainly host = true) (address : IpAddr.isIpAddr host.stripDot = false) (packet : Bytes)
    (datagram : UdpDatagram) (message : Message) (asked : AddressQuery libraries packet host datagram message)
    (now : UInt64) :
    ∃ read payload written blocker, readQuery libraries.decoder datagram.payload = some (.ok read) ∧
      read.requester.blocked = some payload ∧
      replyPacket libraries.packets datagram.destination datagram.source payload = some written ∧
      domainBlockedBy ⟨handler.blocklist, policy⟩ host = some blocker ∧
      ((blocker.isSome ↔ handler.hit datagram.payload read now = none ∧
          ∃ next, handler.handlePacket libraries packet now = some (next, .reply written)) ↔
        ¬(isLocalName host = true ∧ (∃ set ∈ handler.blocklist, set.isBlocked host = some true) ∧
          ∀ pattern ∈ patterns, pattern.matches host = false)) := by
  obtain ⟨read, readable, of, question⟩ := asked.read faithful prints dns plain
  obtain ⟨payload, reply, blockedReply, suits⟩ := Requester.blocked_suits of.requester.question
  obtain ⟨written, packed⟩ :=
    Message.Answers.packet writes (of.requester.answers suits) (parseUdp_family asked.parsed)
  have name : read.question.name = host.stripDot ++ ['.'] := by rw [question]
  have nearby : isLocalName read.question.name = isLocalName host := by
    rw [name, isLocalName, isLocalName, stripDot_append]
  have stored := parsePatterns_stored valid
  obtain ⟨blocked, found⟩ := Option.isSome_iff_exists.mp (DnsHandler.isBlocked_isSome loaded (host.stripDot ++ ['.']))
  have decided := domainBlockedBy_eq dns address stored given same
  have listed : handler.isBlocked (host.stripDot ++ ['.']) = some true ↔ _ := isBlocked_eq_true_iff (same ▸ stored)
  rw [same, found, Option.some_inj] at listed
  rw [found] at decided
  have proxy : (if blocked then handler.blocklist else none).isSome ↔ blocked = true := by
    cases blocked with
    | false => simp
    | true =>
      obtain ⟨⟨set, there, -⟩, -⟩ := listed.mp rfl
      simp [Option.mem_def.mp there]
  refine ⟨read, payload, written, _, readable, blockedReply, packed, decided, ?_⟩
  rw [← name] at found
  rw [proxy, asked.replied_iff readable of (by rw [question]) found blockedReply packed, nearby, ← listed]
  cases blocked <;> cases isLocalName host <;> simp

theorem toAscii_eq {question : Question} (asks : question.Asks host) : question.toAscii = host.stripDot ++ ['.'] := by
  rw [← flatMap_splitOn '.' host.stripDot, ← asks, flatMap_map]
  rfl

/-- The reference decoder prints names as assumed. -/
theorem knowing_prints (known : List Message) : (Decoder.knowing known).Prints := by
  intro msg decoded accepted message trailing host holds _ _ asks
  obtain ⟨other, rfl, rfl⟩ := Decoder.knowing_eq_some accepted
  obtain rfl := (readable_message ((append_nil _).trans holds)).1
  rw [← toAscii_eq asks]
  rfl

/-- A file that blocks one name and its subdomains. -/
def oneBlockFile (name : Text) : Bytes :=
  let hash := Endian.leBytes 8 (fnv1a64 name.asBytes).toNat
  magic ++ Endian.leBytes 4 2 ++ Endian.leBytes 4 1 ++ Endian.leBytes 4 0 ++ Endian.leBytes 4 0 ++ Endian.leBytes 4 0 ++
    Endian.leBytes 8 (checksum hash).toNat ++ Endian.leBytes 4 0 ++ Endian.leBytes 4 0 ++ hash

def oneBlockSet (name : Text) : DomainSet := ⟨oneBlockFile name, 40, (0, 1), (1, 1), (1, 1), .empty, .empty⟩

/-- A query for the address of a host. -/
def hostQuery (labels : List Label) (short : (encodeLabels labels).length < 255) : Message where
  id := 7
  flags := 1
  codes := 0
  question := ⟨labels, short, typeA, classIn⟩
  answers := []
  authorities := []
  additionals := []
  few := Message.few_nil

/-- `Ads.test`. -/
def adsQuery : Message :=
  hostQuery [⟨[65, 100, 115], by decide, by decide⟩, testLabel] (by decide)

/-- `nas.lan`. -/
def nasQuery : Message :=
  hostQuery nasLan nasLan_short

def hostLibraries : Libraries := .knowing [adsQuery, nasQuery]

/-- The packet of a query to the tunnel's resolver, from port 5000 of 198.18.0.2. -/
def hostPacket (query : Message) : Bytes := (writeIpv4 0xc6120002 tunnelDnsV4 64 5000 53 query.encode).getD []

def hostDatagram (query : Message) : UdpDatagram := ⟨⟨.v4 0xc6120002, 5000⟩, ⟨.v4 tunnelDnsV4, 53⟩, query.encode⟩

theorem adsQuery_asks :
    AddressQuery hostLibraries (hostPacket adsQuery) "Ads.test.".toList (hostDatagram adsQuery) adsQuery :=
  ⟨by decide, by decide, by decide, ⟨[], (append_nil _).symm⟩, by decide, rfl, rfl, by decide⟩

theorem nasQuery_asks :
    AddressQuery hostLibraries (hostPacket nasQuery) "nas.lan".toList (hostDatagram nasQuery) nasQuery :=
  ⟨by decide, by decide, by decide, ⟨[], (append_nil _).symm⟩, by decide, rfl, rfl, by decide⟩

/-- A policy whose allowlist has these patterns. -/
def allowing (patterns : List HostPattern) : Policy := ⟨true, .new [], .new patterns, .start ∅⟩

theorem same_hosts_blocked_sample :
    let set := oneBlockSet "ads.test".toList
    let handler : DnsHandler := (DnsHandler.new (some set)).setAllowlist [⟨"ok.test".toList, true⟩]
    (domainBlockedBy ⟨some set, allowing [⟨"ok.test".toList, true⟩]⟩ "Ads.test.".toList).map Option.isSome = some true ∧
      ∃ next written, handler.handlePacket hostLibraries (hostPacket adsQuery) 10 = some (next, .reply written) := by
  intro set handler
  have blocks : (domainBlockedBy ⟨some set, allowing [⟨"ok.test".toList, true⟩]⟩ "Ads.test.".toList).map Option.isSome =
      some true := by decide +kernel
  have distant : isLocalName "Ads.test.".toList = false := by decide
  obtain ⟨read, payload, written, blocker, -, -, -, found, agree⟩ :=
    same_hosts_blocked hostLibraries (Decoder.knowing_faithful _) (knowing_prints _) PacketLibrary.plain_writes
      ["*.OK.test.".toList] [⟨"ok.test".toList, true⟩] (by decide) (allowing [⟨"ok.test".toList, true⟩]) rfl
      handler rfl (fun other same => Option.some.inj same ▸ ⟨oneBlockFile "ads.test".toList, rfl⟩) "Ads.test.".toList
      (by decide) (by decide) (by decide) (hostPacket adsQuery) (hostDatagram adsQuery) adsQuery
      adsQuery_asks 10
  refine ⟨blocks, ?_⟩
  change domainBlockedBy ⟨some set, _⟩ _ = _ at found
  rw [found] at blocks
  obtain ⟨-, next, replied⟩ := (agree.mpr fun listed => Bool.false_ne_true (distant.symm.trans listed.1)).mp (Option.some.inj blocks)
  exact ⟨next, written, replied⟩

/-- The proxy blocks a listed local name, for which the responder asks the local network. -/
theorem listed_local_name_differs :
    let set := oneBlockSet "nas.lan".toList
    set.Loaded ∧ isDnsName "nas.lan".toList = true ∧ IpAddr.isIpAddr (Text.stripDot "nas.lan".toList) = false ∧
      isLocalName "nas.lan".toList = true ∧
      AddressQuery hostLibraries (hostPacket nasQuery) "nas.lan".toList (hostDatagram nasQuery) nasQuery ∧
      (domainBlockedBy ⟨some set, allowing []⟩ "nas.lan".toList).map Option.isSome = some true ∧
      ((DnsHandler.new (some set)).handlePacket hostLibraries (hostPacket nasQuery) 10).map
        (fun handled => match handled.2 with | .localJob _ => true | _ => false) = some true := by
  intro set
  refine ⟨⟨oneBlockFile "nas.lan".toList, rfl⟩, ?_, ?_, ?_, nasQuery_asks, ?_, ?_⟩ <;> decide +kernel

end Tollgate.Mitm

import Tollgate.Model.Core.Checked
import Tollgate.Model.Core.Text
import Tollgate.ToMathlib.Endian

/-! # Whether the certificate was written to the client

The proxy follows the TLS records it writes to a client, and the handshake messages among them that are in
the clear, to tell when the record with its certificate has been written in full. Bytes come in as they are
written, in pieces of any size. `header` holds the bytes of the header of the record being written; a loop
of the source that consumes bytes has their number as fuel, and `none` says that the fuel ran out.
-/

namespace Tollgate.Mitm

/-- Content types of a record. -/
inductive ContentType where
  | changeCipherSpec
  | alert
  | handshake
  | applicationData
  | other
deriving DecidableEq, Repr

def ContentType.ofByte (b : UInt8) : ContentType :=
  if b = 20 then changeCipherSpec
  else if b = 21 then alert
  else if b = 22 then handshake
  else if b = 23 then applicationData
  else other

/-- Types of a handshake message. -/
def serverHelloType : UInt8 := 2
def certificateType : UInt8 := 11

/-- Types of an extension. -/
def preSharedKey : ℕ := 41
def supportedVersions : ℕ := 43

/-- The `random` of a `ServerHello` that asks the client to try again. -/
def helloRetryRequest : Bytes :=
  [0xcf, 0x21, 0xad, 0x74, 0xe5, 0x9a, 0x61, 0x11, 0xbe, 0x1d, 0x8c, 0x02, 0x1e, 0x65, 0xb8, 0x91,
    0xc2, 0xa2, 0x11, 0x16, 0x7a, 0xbb, 0x8c, 0x5e, 0x07, 0x9e, 0x09, 0xe2, 0xc8, 0xa8, 0x33, 0x9c]

def maxHandshakeBytes : ℕ := 16 * 1024

/-- How far the handshake has been written. -/
inductive Progress where
  /-- No `ServerHello` yet, or only one that asks to try again. -/
  | hello
  | tls13
  | tls12
  | certificateSent
  | noCertificate
deriving DecidableEq, Repr

namespace Progress

def watching : Progress → Bool
  | certificateSent | noCertificate => false
  | hello | tls13 | tls12 => true

/-- Handshake messages are still parsed. -/
def parses : Progress → Bool
  | hello | tls12 => true
  | tls13 | certificateSent | noCertificate => false

end Progress

/-- The extensions of a `ServerHello`: whether it selects TLS 1.3 and whether it resumes a session. -/
def readExtensions : ℕ → Bytes → Bool → Bool → Option (Bool × Bool)
  | _, [], tls13, resumed => some (tls13, resumed)
  | 0, _ :: _, _, _ => none
  | fuel + 1, first :: more, tls13, resumed => do
      let rest := first :: more
      let kind ← slice rest 0 2
      let len ← slice rest 2 4
      let data ← slice rest 4 (4 + Endian.ofBe len)
      let rest := rest.drop (4 + Endian.ofBe len)
      if Endian.ofBe kind = supportedVersions then readExtensions fuel rest (data == [3, 4]) resumed
      else if Endian.ofBe kind = preSharedKey then readExtensions fuel rest tls13 true
      else readExtensions fuel rest tls13 resumed

/-- What a `ServerHello` starts, if it can be read. -/
def readServerHello (body : Bytes) : Option Progress := do
  let random ← slice body 2 34
  if random = helloRetryRequest then some .hello
  else
    let sessionIdLen ← body[34]?
    let rest ← slice body (35 + sessionIdLen.toNat + 3) body.length
    if rest.isEmpty then some .tls12
    else
      let extensionsLen ← slice rest 0 2
      let rest ← slice rest 2 (2 + Endian.ofBe extensionsLen)
      let (tls13, resumed) ← readExtensions rest.length rest false false
      match tls13, resumed with
      | true, false => some .tls13
      | true, true => some .noCertificate
      | false, _ => some .tls12

def serverHello (body : Bytes) : Progress := (readServerHello body).getD .noCertificate

/-- The progress that a handshake message makes. -/
def message (progress : Progress) (kind : UInt8) (body : Bytes) : Progress :=
  match progress with
  | .hello => if kind = serverHelloType then serverHello body else .noCertificate
  | .tls12 => if kind = certificateType then .certificateSent else .noCertificate
  | _ => .noCertificate

/-- Parses complete messages; what is left is not drained when parsing ends for good. -/
def messages : ℕ → Progress → Bytes → Progress × Option Bytes
  | fuel + 1, progress, kind :: a :: b :: c :: tail =>
      let len := Endian.ofBe [a, b, c]
      if len ≤ tail.length then
        let progress := message progress kind (tail.take len)
        if progress.parses then messages fuel progress (tail.drop len) else (progress, none)
      else (progress, some (kind :: a :: b :: c :: tail))
  | _, progress, rest => (progress, some rest)

/-- The records written to the client so far. -/
structure Records where
  progress : Progress
  header : Bytes
  /-- Bytes of the record still to come after its header. -/
  remaining : ℕ
  /-- Handshake bytes not yet parsed into messages. -/
  handshake : Bytes
deriving DecidableEq, Repr

namespace Records

def new : Records := ⟨.hello, [], 0, []⟩

def watching (records : Records) : Bool := records.progress.watching

def contentType (records : Records) : ContentType := .ofByte (records.header.headD 0)

def handshakeMessages (records : Records) : Records :=
  match messages records.handshake.length records.progress records.handshake with
  | (progress, none) => { records with progress := progress }
  | (progress, some rest) =>
      { records with
        handshake := rest
        progress := if maxHandshakeBytes < rest.length then .noCertificate else progress }

/-- The record with this header has been written in full. -/
def recordWritten (records : Records) : Records :=
  let done := { records with header := [] }
  match records.contentType, records.progress with
  | .handshake, .hello | .handshake, .tls12 => done.handshakeMessages
  -- TLS 1.3 sends one for compatibility.
  | .changeCipherSpec, .hello | .changeCipherSpec, .tls13 => done
  | .applicationData, .tls13 => { done with progress := .certificateSent }
  | _, _ => { done with progress := .noCertificate }

/-- The record is done if nothing of it is still to come. -/
def settle (records : Records) : Records := if records.remaining = 0 then records.recordWritten else records

/-- The loop of `written`. -/
def follow : ℕ → Records → Bytes → Option Records
  | fuel, records, bytes =>
      if bytes.isEmpty || !records.watching then some records
      else
        match fuel with
        | 0 => none
        | fuel + 1 =>
            if records.header.length < 5 then
              let n := min (5 - records.header.length) bytes.length
              let records := { records with header := records.header ++ bytes.take n }
              if records.header.length = 5 then
                follow fuel { records with remaining := Endian.ofBe (records.header.drop 3) }.settle (bytes.drop n)
              else follow fuel records (bytes.drop n)
            else
              let n := min records.remaining bytes.length
              let handshake :=
                if records.contentType = .handshake ∧ records.progress.parses then records.handshake ++ bytes.take n
                else records.handshake
              follow fuel { records with handshake := handshake, remaining := records.remaining - n }.settle
                (bytes.drop n)

/-- Nothing is kept once the watch is over. -/
def clear (records : Records) : Records := if records.watching then records else { records with handshake := [] }

/-- Follows the next bytes that were written. -/
def written (records : Records) (bytes : Bytes) : Option Records :=
  (records.follow bytes.length bytes).map clear

end Records

/-- How a read or a write of the stream went. -/
inductive Poll where
  | pending
  | failed
  | ready (n : ℕ)
deriving DecidableEq, Repr

structure FlightWatch where
  records : Records
  /-- A read found nothing after the certificate had been written. -/
  waited : Bool
deriving DecidableEq, Repr

namespace FlightWatch

def new : FlightWatch := ⟨.new, false⟩

def pollRead (watch : FlightWatch) (result : Poll) : FlightWatch :=
  if result = .pending ∧ watch.records.progress = .certificateSent then { watch with waited := true } else watch

def pollWrite (watch : FlightWatch) (buf : Bytes) : Poll → Option FlightWatch
  | .ready n =>
      if watch.records.watching then do
        let front ← slice buf 0 n
        let records ← watch.records.written front
        some { watch with records := records }
      else some watch
  | .pending | .failed => some watch

/-- The loop of `poll_write_vectored` over the buffers, with the number of bytes still to be found in them. -/
def vectored : List Bytes → ℕ → Records → Option Records
  | [], _, records => some records
  | buf :: bufs, n, records =>
      if n = 0 || !records.watching then some records
      else do
        let written := min n buf.length
        let records ← records.written (buf.take written)
        vectored bufs (n - written) records

def pollWriteVectored (watch : FlightWatch) (bufs : List Bytes) : Poll → Option FlightWatch
  | .ready n => do
      let records ← vectored bufs n watch.records
      some { watch with records := records }
  | .pending | .failed => some watch

/-- A call on the stream. -/
inductive Call where
  | read (result : Poll)
  | write (buf : Bytes) (result : Poll)
  | writeVectored (bufs : List Bytes) (result : Poll)
deriving DecidableEq, Repr

def call (watch : FlightWatch) : Call → Option FlightWatch
  | .read result => some (watch.pollRead result)
  | .write buf result => watch.pollWrite buf result
  | .writeVectored bufs result => watch.pollWriteVectored bufs result

/-- The watch after calls on the stream, in order. -/
def run (calls : List Call) : Option FlightWatch := calls.foldlM call new

end FlightWatch

end Tollgate.Mitm

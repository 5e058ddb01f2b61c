import Tollgate.Model.Mitm.Flight

/-! # Records, handshake messages and `ServerHello`

What the bytes that are followed stand for. A record, a handshake message and an extension each begin with
their type and the length of what they hold, so each carries that the length is right. A `ServerHello` is
followed by its extensions or by nothing; bytes after its extensions are not part of it.
-/

namespace Tollgate.Mitm

/-- A TLS record. -/
structure Record where
  kind : UInt8
  major : UInt8
  minor : UInt8
  high : UInt8
  low : UInt8
  payload : Bytes
  sized : payload.length = Endian.ofBe [high, low]
deriving DecidableEq

namespace Record

def contentType (record : Record) : ContentType := .ofByte record.kind

def header (record : Record) : Bytes := [record.kind, record.major, record.minor, record.high, record.low]

def encode (record : Record) : Bytes := record.header ++ record.payload

/-- The handshake bytes among some records. -/
def handshakeBytes (records : List Record) : Bytes :=
  (records.filter (·.contentType = .handshake)).flatMap payload

end Record

/-- A handshake message. -/
structure Handshake where
  kind : UInt8
  high : UInt8
  middle : UInt8
  low : UInt8
  body : Bytes
  sized : body.length = Endian.ofBe [high, middle, low]
deriving DecidableEq

def Handshake.encode (message : Handshake) : Bytes :=
  [message.kind, message.high, message.middle, message.low] ++ message.body

/-- An extension of a `ServerHello`. -/
structure Extension where
  kindHigh : UInt8
  kindLow : UInt8
  high : UInt8
  low : UInt8
  data : Bytes
  sized : data.length = Endian.ofBe [high, low]
deriving DecidableEq

namespace Extension

def kind (extension : Extension) : ℕ := Endian.ofBe [extension.kindHigh, extension.kindLow]

def encode (extension : Extension) : Bytes :=
  [extension.kindHigh, extension.kindLow, extension.high, extension.low] ++ extension.data

end Extension

/-- The extensions with their length before them. -/
structure ExtensionBlock where
  high : UInt8
  low : UInt8
  extensions : List Extension
  sized : (extensions.flatMap Extension.encode).length = Endian.ofBe [high, low]
deriving DecidableEq

def ExtensionBlock.encode (block : ExtensionBlock) : Bytes :=
  [block.high, block.low] ++ block.extensions.flatMap Extension.encode

structure ServerHello where
  legacyVersion : Bytes
  random : Bytes
  sessionIdLength : UInt8
  sessionId : Bytes
  /-- The cipher suite and the compression method. -/
  choices : Bytes
  block : Option ExtensionBlock
  version_sized : legacyVersion.length = 2
  random_sized : random.length = 32
  sessionId_sized : sessionId.length = sessionIdLength.toNat
  choices_sized : choices.length = 3
deriving DecidableEq

namespace ServerHello

def encode (hello : ServerHello) : Bytes :=
  hello.legacyVersion ++ hello.random ++ [hello.sessionIdLength] ++ hello.sessionId ++ hello.choices ++
    (hello.block.map ExtensionBlock.encode).getD []

def extensions (hello : ServerHello) : List Extension := (hello.block.map ExtensionBlock.extensions).getD []

/-- The version in `supported_versions`, the last one if there are several. -/
def version (hello : ServerHello) : Option Bytes :=
  ((hello.extensions.filter (·.kind = supportedVersions)).getLast?).map Extension.data

/-- The version selected is TLS 1.3. -/
def SelectsTls13 (hello : ServerHello) : Prop := hello.version = some [3, 4]

def HasPreSharedKey (hello : ServerHello) : Prop := ∃ extension ∈ hello.extensions, extension.kind = preSharedKey

/-- A message body that reads as a `ServerHello`. -/
def Reads (body : Bytes) (hello : ServerHello) : Prop :=
  ∃ extra, body = hello.encode ++ extra ∧ (hello.block = none → extra = [])

end ServerHello

namespace Handshake

/-- A `ServerHello` that asks the client to try again. -/
def IsRetry (message : Handshake) : Prop :=
  message.kind = serverHelloType ∧ slice message.body 2 34 = some helloRetryRequest

/-- A `ServerHello` that can be read. -/
def IsHello (message : Handshake) (hello : ServerHello) : Prop :=
  message.kind = serverHelloType ∧ hello.Reads message.body ∧ hello.random ≠ helloRetryRequest

def IsCertificate (message : Handshake) : Prop := message.kind = certificateType

end Handshake

end Tollgate.Mitm

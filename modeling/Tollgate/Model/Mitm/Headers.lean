import Tollgate.Model.Core.Text
import Tollgate.ToMathlib.Multimap

/-! # Headers of a request

The HTTP library keeps header names in lower case and as tokens, and header values without control
characters, so both carry that here. Its map keeps the values of a name in order. What the proxy does to the
headers before it forwards a request over HTTP/1.1 is to drop those that are for one hop, also the ones that
`Connection` names, and to join the cookies.
-/

namespace Tollgate.Mitm

/-- Characters of a token. -/
def isToken (b : UInt8) : Bool :=
  (48 ≤ b && b ≤ 57) || (65 ≤ b && b ≤ 90) || (97 ≤ b && b ≤ 122) || "!#$%&'*+-.^_`|~".toList.any fun c => Text.byte c == b

namespace HeaderName

def maxLen : ℕ := 65535

/-- A token in lower case that is not too long. -/
def Valid (bytes : Bytes) : Prop :=
  bytes ≠ [] ∧ bytes.length ≤ maxLen ∧ bytes.all (fun b => isToken b && lowerByte b == b) = true

instance (bytes : Bytes) : Decidable (Valid bytes) := inferInstanceAs (Decidable (_ ∧ _ ∧ _))

end HeaderName

structure HeaderName where
  bytes : Bytes
  valid : HeaderName.Valid bytes
deriving DecidableEq

namespace HeaderName

/-- Letter case does not matter in a name. -/
def fromBytes (bytes : Bytes) : Option HeaderName :=
  if valid : Valid (bytes.map lowerByte) then some ⟨bytes.map lowerByte, valid⟩ else none

def connection : HeaderName := ⟨"connection".toList.map Text.byte, by decide⟩
def proxyConnection : HeaderName := ⟨"proxy-connection".toList.map Text.byte, by decide⟩
def keepAlive : HeaderName := ⟨"keep-alive".toList.map Text.byte, by decide⟩
def transferEncoding : HeaderName := ⟨"transfer-encoding".toList.map Text.byte, by decide⟩
def te : HeaderName := ⟨"te".toList.map Text.byte, by decide⟩
def trailer : HeaderName := ⟨"trailer".toList.map Text.byte, by decide⟩
def upgrade : HeaderName := ⟨"upgrade".toList.map Text.byte, by decide⟩
def proxyAuthorization : HeaderName := ⟨"proxy-authorization".toList.map Text.byte, by decide⟩
def proxyAuthenticate : HeaderName := ⟨"proxy-authenticate".toList.map Text.byte, by decide⟩
def host : HeaderName := ⟨"host".toList.map Text.byte, by decide⟩
def cookie : HeaderName := ⟨"cookie".toList.map Text.byte, by decide⟩

end HeaderName

namespace HeaderValue

/-- A byte that is no control character, or a tab. -/
def isValid (b : UInt8) : Bool := (32 ≤ b && b != 127) || b == 9

/-- A byte of plain text. -/
def isVisible (b : UInt8) : Bool := (32 ≤ b && b < 127) || b == 9

end HeaderValue

structure HeaderValue where
  bytes : Bytes
  valid : bytes.all HeaderValue.isValid = true
deriving DecidableEq

namespace HeaderValue

def fromBytes (bytes : Bytes) : Option HeaderValue :=
  if valid : bytes.all isValid = true then some ⟨bytes, valid⟩ else none

def fromStr (text : Text) : Option HeaderValue := fromBytes text.asBytes

/-- The value as a string, if it is plain text. -/
def toStr (value : HeaderValue) : Option Text :=
  if value.bytes.all isVisible then some (value.bytes.map fun b => Char.ofNat b.toNat) else none

end HeaderValue

abbrev HeaderMap := Multimap HeaderName HeaderValue

/-- Headers that describe one hop. -/
def hopByHop : List HeaderName :=
  [.connection, .proxyConnection, .keepAlive, .transferEncoding, .te, .trailer, .upgrade, .proxyAuthorization,
    .proxyAuthenticate]

/-- The headers that `Connection` names. -/
def listed (headers : HeaderMap) : List HeaderName :=
  (((headers.getAll .connection).filterMap HeaderValue.toStr).flatMap fun value => value.splitOn ',').filterMap
    fun name => HeaderName.fromBytes (Text.asBytes (Text.trim name))

def stripHopByHop (headers : HeaderMap) : HeaderMap :=
  hopByHop.foldl Multimap.remove ((listed headers).foldl Multimap.remove headers)

/-- HTTP/1.1 servers expect one `Cookie` header. -/
def joinCookies (headers : HeaderMap) : HeaderMap :=
  let cookies := (headers.getAll .cookie).map HeaderValue.bytes
  if cookies.length < 2 then headers
  else
    match HeaderValue.fromBytes (List.intercalate ("; ".toList.map Text.byte) cookies) with
    | some value => headers.insert .cookie value
    | none => headers

end Tollgate.Mitm

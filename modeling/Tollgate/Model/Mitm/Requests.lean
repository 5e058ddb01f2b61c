import Tollgate.Model.Mitm.Headers

/-! # Requests to an upstream

A request is rewritten for the protocol of the connection it goes out on: origin form and one `Host` header
for HTTP/1.1, an absolute URI and no `Host` header for HTTP/2. The parser of URIs is the HTTP library's and
a parameter. Of a body is known whether it is at its end, its exact length if it has one, and its content.
-/

namespace Tollgate.Mitm

/-- Where a request goes. -/
structure Target where
  tls : Bool
  host : Text
  port : UInt16
  serverName : Text
deriving DecidableEq, Repr

/-- `host` or `host:port`, without the default port of the scheme. IPv6 addresses get brackets. -/
def authority (host : Text) (port defaultPort : UInt16) : Text :=
  let host := if ':' ∈ host ∧ host.head? ≠ some '[' then '[' :: host ++ [']'] else host
  if port = defaultPort then host else host ++ ':' :: Nat.toDigits 10 port.toNat

namespace Target

def authority (target : Target) : Text :=
  Mitm.authority target.serverName target.port (if target.tls then 443 else 80)

def scheme (target : Target) : Text := if target.tls then "https".toList else "http".toList

end Target

inductive Method where
  | get
  | head
  | options
  /-- Any other method. -/
  | other (name : Text)
deriving DecidableEq, Repr

inductive Version where
  | http09
  | http10
  | http11
  | http2
  | http3
deriving DecidableEq, Repr

structure Uri where
  scheme : Option Text
  authority : Option Text
  pathAndQuery : Option Text
deriving DecidableEq, Repr

structure Request (β : Type) where
  method : Method
  uri : Uri
  version : Version
  headers : HeaderMap
  body : β
deriving DecidableEq

/-- A body that is yet to be sent. -/
structure Body where
  endStream : Bool
  /-- The exact length, if it is known. -/
  exact : Option ℕ
  content : Bytes
deriving DecidableEq, Repr

def Body.empty : Body := ⟨true, some 0, []⟩

def pathAndQuery (uri : Uri) : Text := uri.pathAndQuery.getD ['/']

/-- Origin form, one `Host` header, one `Cookie` header. -/
def forHttp1 (parse : Text → Option Uri) (request : Request Body) (target : Target) : Request Body :=
  let uri := (parse (pathAndQuery request.uri)).getD request.uri
  let headers := joinCookies (stripHopByHop request.headers)
  let headers :=
    match HeaderValue.fromStr target.authority with
    | some host => headers.insert .host host
    | none => headers
  { request with uri := uri, version := .http11, headers := headers }

/-- Absolute URI, no `Host` header. `TE: trailers` is kept. -/
def forHttp2 (parse : Text → Option Uri) (request : Request Body) (target : Target) : Request Body :=
  let uri := target.scheme ++ "://".toList ++ target.authority ++ pathAndQuery request.uri
  let uri := (parse uri).getD request.uri
  let trailers := (request.headers.getAll .te).head?.any fun te =>
    te.bytes.map lowerByte == "trailers".toList.map Text.byte
  let headers := (stripHopByHop request.headers).remove .host
  let headers := if trailers then headers.insert .te ⟨"trailers".toList.map Text.byte, by decide⟩ else headers
  { request with uri := uri, version := .http2, headers := headers }

/-- A copy without its body of a request that may be sent twice. -/
def replayable (request : Request Body) : Option (Request Unit) :=
  match request.method with
  | .get | .head | .options =>
      if !request.body.endStream && request.body.exact != some 0 then none else some { request with body := () }
  | .other _ => none

end Tollgate.Mitm

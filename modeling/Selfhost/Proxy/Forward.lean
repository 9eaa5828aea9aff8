import Selfhost.Http.Request
import Selfhost.Http.Response
import Selfhost.Identity.Name
import Selfhost.Lib.Ip

/-!
# Forwarding a request

`forward` of `app/proxy/src/server.rs`, with `looks_like_upgrade` of `net/ws/src/handshake.rs`: the head that
an instance is sent and the body relayed after it. The connection of the client is what is buffered and what
is still to arrive on it before it closes.
-/

namespace Selfhost.Proxy

open Selfhost.Lib Selfhost.Http

/-- The entity tag and date of a file, and whether the client's copy is still current. -/
structure Validators where
  tag : Str
  lastModified : Option Str
  unchanged : Bool

/-- A file as it was opened for one request. -/
structure StaticFile where
  contentType : Str
  content : Bytes
  validators : Request → Validators

/-- What a request path names inside a root. -/
inductive Resolution where
  | file (file : StaticFile)
  | trailingSlash
  | rejected
  | notFound

/-- A head, and the window of the file that follows it. -/
structure FileResponse where
  response : Response
  offset : Nat
  length : Nat

def methodAllowed (m : Method) : Bool := m == .get || m == .head

/-- `set` with its error dropped: the old field is gone even when the new one is refused. -/
def trySet (hs : Headers) (name : String) (value : Str) : Headers :=
  match hs.set name.toList (utf8 value) with
  | .ok hs => hs
  | .error _ => hs.remove name.toList

def setLastModified (hs : Headers) (v : Validators) : Headers :=
  match v.lastModified with
  | some date => trySet hs "Last-Modified" date
  | none => hs

def buildResponse (r : Request) (contentType : Str) (total : Nat) (v : Validators) : FileResponse :=
  let headers := setLastModified
    (trySet (trySet (trySet .empty "Content-Type" contentType) "Accept-Ranges" "bytes".toList) "ETag" v.tag) v
  if v.unchanged then
    let headers := trySet (setLastModified (trySet .empty "ETag" v.tag) v) "Accept-Ranges" "bytes".toList
    ⟨⟨.notModified, headers, .empty⟩, 0, 0⟩
  else
    let sendBody := r.method.allowsResponseBody
    match evaluate (r.headers.getStr "range".toList) total with
    | .full => ⟨⟨.ok, headers, .streamed total⟩, 0, if sendBody then total else 0⟩
    | .window window =>
        ⟨⟨.partialContent, trySet headers "Content-Range" (window.contentRange total), .streamed window.len⟩,
          window.start, if sendBody then window.len else 0⟩
    | .unsatisfiable =>
        let headers := trySet (trySet .empty "Content-Range" ("bytes */".toList ++ natText total))
          "Accept-Ranges" "bytes".toList
        ⟨⟨.rangeNotSatisfiable, headers, .empty⟩, 0, 0⟩

/-- The same target with a slash appended to its path. -/
def withTrailingSlash (target : Str) : Str :=
  match splitOnce '?' target with
  | some (path, query) => path ++ '/' :: '?' :: query
  | none => target ++ ['/']

end Selfhost.Proxy

/-! # Forwarding a request -/

namespace Selfhost.Proxy

open Selfhost.Lib Selfhost.Http Selfhost.Names

/-- The bytes of a client that are buffered, and those still to arrive. -/
structure Wire where
  leftover : Bytes
  pending : Bytes
  deriving DecidableEq

def Wire.all (w : Wire) : Bytes := w.leftover ++ w.pending

/-- The largest body that is forwarded. -/
def maxForwardBodyBytes : Nat := 25 * 1024 * 1024

def personHeader : Str := "X-Selfhost-Person".toList

def upgradeField : Str := "upgrade".toList

/-! ## Upgrades -/

/-- `u8::is_ascii_whitespace`. -/
def isAsciiWhitespace (b : UInt8) : Bool := b == sp || b == htab || b == lf || b == 0x0C || b == cr

def lowerByte (b : UInt8) : UInt8 := if 0x41 ≤ b ∧ b ≤ 0x5A then b + 0x20 else b

/-- Whether a comma-separated list holds a token, in any case. -/
def hasToken (value : Option Bytes) (token : Str) : Bool :=
  value.any fun value => (value.splitOn 0x2C).any fun element =>
    ((element.dropWhile isAsciiWhitespace).rdropWhile isAsciiWhitespace).map lowerByte ==
      (utf8 token).map lowerByte

def looksLikeUpgrade (r : Request) : Bool :=
  r.method == .get && hasToken (r.headers.get upgradeField) "websocket".toList &&
    hasToken (r.headers.get Field.connection) "upgrade".toList &&
    r.headers.contains "sec-websocket-key".toList

/-! ## The head for an instance -/

def hopByHop : List Str :=
  [Field.connection, "keep-alive".toList, "proxy-authenticate".toList, "proxy-authorization".toList,
    "te".toList, "trailer".toList, Field.transferEncoding, upgradeField]

def isHopByHop (name : Str) : Bool := hopByHop.any fun candidate => eqIgnoreAsciiCase name candidate

/-- The fields of a client that are not passed on. A handshake keeps the two fields it is made of. -/
def isDropped (isUpgrade : Bool) (name : Str) : Bool :=
  (isHopByHop name && !(isUpgrade && (eqIgnoreAsciiCase name Field.connection ||
    eqIgnoreAsciiCase name upgradeField))) ||
    eqIgnoreAsciiCase name Field.contentLength || eqIgnoreAsciiCase name personHeader

variable {A : Alphabet}

def forwardHead (r : Request) (peer : IpAddr) (person : Option (Identity A)) : Bytes :=
  let isUpgrade := looksLikeUpgrade r
  utf8 r.method.asStr ++ utf8 " ".toList ++ utf8 r.target ++ utf8 " HTTP/1.1\r\n".toList ++
    (r.headers.fields.filter fun f => !isDropped isUpgrade f.name).flatMap (fun f =>
      utf8 f.name ++ utf8 ": ".toList ++ f.value ++ utf8 "\r\n".toList) ++
    utf8 ("X-Forwarded-For: ".toList ++ peer.display ++ "\r\n".toList) ++
    utf8 "X-Forwarded-Proto: https\r\n".toList ++
    (match person with
      | some person => utf8 (personHeader ++ ": ".toList ++ person.asStr ++ "\r\n".toList)
      | none => []) ++
    (if isUpgrade then [] else utf8 "Connection: close\r\n".toList) ++
    (match r.headers.getStr Field.contentLength with
      | some length => utf8 ("Content-Length: ".toList ++ length ++ "\r\n".toList)
      | none => []) ++
    utf8 "\r\n".toList

/-! ## The body -/

/-- `length` bytes of the client, what is buffered first; all there are when the client closes early. -/
def takeBody (length : Nat) (w : Wire) : Bytes × Wire :=
  let fromLeftover := min w.leftover.length length
  let remaining := length - fromLeftover
  (w.leftover.take fromLeftover ++ w.pending.take remaining,
    ⟨w.leftover.drop fromLeftover, w.pending.drop remaining⟩)

/-- The bytes of the client that are written to an instance or to the admin API, as `takeBody` takes them. -/
def relayBody (length : Nat) (w : Wire) : Bytes × Wire := takeBody length w

/-- What an instance's pool gave: no healthy instance, one that refuses the connection, or a connection. -/
inductive Lease where
  | none
  | unreachable
  | connected
  deriving DecidableEq, Repr

/-- What a forwarded request did: the bytes sent to the instance, and the client's connection after it. -/
structure Forwarded where
  sent : Bytes
  wire : Wire
  isUpgrade : Bool
  deriving DecidableEq

/-- Sends a request to an instance, or answers with a status and closes. -/
def forward (lease : Lease) (r : Request) (peer : IpAddr) (person : Option (Identity A)) (w : Wire) :
    Except Status Forwarded :=
  let oversized := match r.bodyLength with
    | .ok (.fixed length) => decide (maxForwardBodyBytes < length)
    | _ => false
  if oversized then .error .contentTooLarge
  else
    match lease with
    | .none | .unreachable => .error .badGateway
    | .connected =>
        let head := forwardHead r peer person
        match r.bodyLength with
        | .ok (.fixed length) =>
            if 0 < length then
              let (body, w) := relayBody length w
              .ok ⟨head ++ body, w, looksLikeUpgrade r⟩
            else .ok ⟨head, w, looksLikeUpgrade r⟩
        | _ => .ok ⟨head, w, looksLikeUpgrade r⟩

end Selfhost.Proxy

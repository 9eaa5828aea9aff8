import Selfhost.Proxy.Forward

/-!
# Answers that are written, and answers that are relayed

`write_response` and the handlers of `app/proxy/src/server.rs` that end a connection: the webhooks, the three
relays to the admin API, and the hand-over of an upgraded connection. What a server behind the proxy answers
is a parameter.
-/

namespace Selfhost.Proxy

open Selfhost.Lib Selfhost.Http Selfhost.Names

/-- Whether a connection may be reused after a response. -/
inductive Outcome where
  | reusable
  | mustClose
  | upgraded (id : Nat)
  deriving DecidableEq, Repr

/-- What a handler wrote to the client, the client's connection after it, and its outcome. -/
structure Answer where
  written : Bytes
  wire : Wire
  outcome : Outcome

/-! ## Writing a response -/

def securityHeaders : Bytes :=
  utf8 ("X-Content-Type-Options: nosniff\r\nX-Frame-Options: DENY\r\n".toList ++
    "Referrer-Policy: strict-origin-when-cross-origin\r\n".toList)

/-- Inserts the fields of every response before the blank line that ends the head. -/
def applySecurityHeaders (head : Bytes) : Bytes :=
  if crlf ++ crlf <:+ head then head.take (head.length - 2) ++ securityHeaders ++ head.drop (head.length - 2)
  else head

/-- A complete in-memory response. -/
def writeResponse (response : Response) (keepAlive : Bool) : Except HeaderError Bytes :=
  (response.writeHead keepAlive).map fun head =>
    applySecurityHeaders head ++
      match response.body with
      | .bytes content => content
      | _ => []

/-- Writes a response and keeps the connection. -/
def reply (response : Response) (keepAlive : Bool) (w : Wire) : Except HeaderError Answer :=
  (writeResponse response keepAlive).map fun written => ⟨written, w, .reusable⟩

/-- Writes a response and closes the connection. -/
def lastReply (response : Response) (w : Wire) : Except HeaderError Answer :=
  (writeResponse response false).map fun written => ⟨written, w, .mustClose⟩

def refuse (status : Status) (w : Wire) : Except HeaderError Answer := lastReply (.errorPage status) w

/-! ## Servers behind the proxy -/

/-- The answer to a handshake: no readable head, a refusal, or a switch of protocols. -/
inductive Handshake where
  | unreadable
  | refused (answer : Bytes)
  | switched (answer : Bytes) (id : Nat)

/-- What a server answers to the bytes it is sent. -/
structure Backend where
  answer : Bytes → Bytes
  handshake : Bytes → Handshake

/-- Relays a server's answer byte for byte and closes. -/
def relayAnswer (backend : Backend) (sent : Bytes) (w : Wire) : Except HeaderError Answer :=
  .ok ⟨backend.answer sent, w, .mustClose⟩

/-- Hands the connection over once the server switched protocols; it is then a pipe until it closes. -/
def spliceUpgrade (backend : Backend) (sent : Bytes) (w : Wire) : Except HeaderError Answer :=
  match backend.handshake sent with
  | .unreadable => refuse .badGateway w
  | .refused answer => .ok ⟨answer, w, .mustClose⟩
  | .switched answer id => .ok ⟨answer, ⟨[], []⟩, .upgraded id⟩

/-! ## Relays to the admin API -/

/-- What a relayed head states about the body after it. -/
inductive Framing where
  | length (n : Nat)
  | upgrade
  deriving DecidableEq, Repr

def relayedFields : List Str :=
  ["content-type".toList, "cookie".toList, "authorization".toList, "x-selfhost-console".toList]

def relayedForUpgrade : List Str :=
  ["sec-websocket-key".toList, "sec-websocket-version".toList, "sec-websocket-protocol".toList]

def relayedForBulk : List Str := ["range".toList, "if-none-match".toList, "if-modified-since".toList]

def relayedForDav : List Str :=
  ["destination".toList, "if".toList, "depth".toList, "overwrite".toList, "lock-token".toList,
    "timeout".toList, "range".toList, "if-match".toList, "if-none-match".toList, "if-modified-since".toList,
    "if-unmodified-since".toList, "if-range".toList, "x-expected-entity-length".toList]

def isOneOf (names : List Str) (name : Str) : Bool := names.any fun allowed => eqIgnoreAsciiCase name allowed

def isRelayed (upgrade : Bool) (name : Str) : Bool :=
  isOneOf relayedFields name ||
    (upgrade && (isOneOf relayedForUpgrade name || eqIgnoreAsciiCase name "origin".toList))

def bulkIsRelayed (name : Str) : Bool := isRelayed false name || isOneOf relayedForBulk name

def davIsRelayed (name : Str) : Bool := isRelayed false name || isOneOf relayedForDav name

/-- The head sent to the admin API: the fields that are relayed, and framing of its own. -/
def adminRequestHead (r : Request) (peer : IpAddr) (relayed : Str → Bool) (framing : Framing) : Bytes :=
  utf8 r.method.asStr ++ utf8 " ".toList ++ utf8 r.target ++ utf8 " HTTP/1.1\r\nHost: 127.0.0.1\r\n".toList ++
    (r.headers.fields.filter fun f => relayed f.name).flatMap (fun f =>
      utf8 f.name ++ utf8 ": ".toList ++ f.value ++ utf8 "\r\n".toList) ++
    utf8 ("X-Forwarded-For: ".toList ++ peer.display ++ "\r\n".toList) ++
    match framing with
    | .upgrade => utf8 "Upgrade: websocket\r\nConnection: Upgrade\r\n\r\n".toList
    | .length n => utf8 ("Content-Length: ".toList ++ natText n ++ "\r\nConnection: close\r\n\r\n".toList)

def consoleApiMaxBody : Nat := 64 * 1024

/-- Sends a request with `length` bytes of body to the admin API; a handshake has none. -/
def sendConsoleApi (admin : Option Backend) (r : Request) (peer : IpAddr) (length : Nat) (w : Wire) :
    Except HeaderError Answer :=
  let isUpgrade := looksLikeUpgrade r
  let taken := if isUpgrade then ([], w) else takeBody length w
  match admin with
  | none => refuse .badGateway taken.2
  | some backend =>
      let framing := if isUpgrade then Framing.upgrade else .length taken.1.length
      let sent := adminRequestHead r peer (isRelayed isUpgrade) framing ++ taken.1
      if isUpgrade then spliceUpgrade backend sent taken.2 else relayAnswer backend sent taken.2

/-- `/api/*`. -/
def relayConsoleApi (admin : Option Backend) (r : Request) (peer : IpAddr) (w : Wire) :
    Except HeaderError Answer :=
  match r.bodyLength with
  | .ok .none => sendConsoleApi admin r peer 0 w
  | .ok (.fixed length) =>
      if length = 0 then sendConsoleApi admin r peer 0 w
      else if looksLikeUpgrade r then refuse .badRequest w
      else if length ≤ consoleApiMaxBody then sendConsoleApi admin r peer length w
      else refuse .contentTooLarge w
  | _ => refuse .badRequest w

/-- The length a streaming relay declares; a chunked body is refused. -/
def declaredLength (r : Request) : Option Nat :=
  match r.bodyLength with
  | .ok .none => some 0
  | .ok (.fixed length) => some length
  | _ => none

/-- Streams `declared` bytes to the admin API and relays its answer. -/
def streamToAdmin (admin : Option Backend) (head : Bytes) (declared : Nat) (w : Wire) :
    Except HeaderError Answer :=
  match admin with
  | none => refuse .badGateway w
  | some backend =>
      let (body, w) := relayBody declared w
      relayAnswer backend (head ++ body) w

def bulkCarries (m : Method) : Bool := m == .get || m == .head || m == .put

def methodNotAllowed (allow : String) : Response :=
  let page := Response.errorPage .methodNotAllowed
  { page with headers := trySet page.headers "Allow" allow.toList }

/-- `/api/storage/blob/*`. -/
def relayConsoleBulk (admin : Option Backend) (r : Request) (peer : IpAddr) (w : Wire) :
    Except HeaderError Answer :=
  if !bulkCarries r.method then lastReply (methodNotAllowed "GET, HEAD, PUT") w
  else
    match declaredLength r with
    | none => refuse .badRequest w
    | some declared =>
        if 0 < declared ∧ r.method ≠ .put then refuse .badRequest w
        else streamToAdmin admin (adminRequestHead r peer bulkIsRelayed (.length declared)) declared w

def davVerbs : List Str :=
  ["OPTIONS".toList, "PROPFIND".toList, "PROPPATCH".toList, "MKCOL".toList, "GET".toList, "HEAD".toList,
    "PUT".toList, "DELETE".toList, "COPY".toList, "MOVE".toList, "LOCK".toList, "UNLOCK".toList]

inductive BodyPolicy where
  | forbidden
  | document
  | content
  deriving DecidableEq, Repr

def bodyPolicy (m : Method) : BodyPolicy :=
  if m.asStr = "PUT".toList then .content
  else if m.asStr ∈ ["PROPFIND".toList, "PROPPATCH".toList, "MKCOL".toList, "LOCK".toList] then .document
  else .forbidden

def maxDocumentBody : Nat := 256 * 1024

/-- `/dav/*`. -/
def relayConsoleDav (admin : Option Backend) (r : Request) (peer : IpAddr) (w : Wire) :
    Except HeaderError Answer :=
  if !davVerbs.contains r.method.asStr then
    lastReply (methodNotAllowed
      "OPTIONS, PROPFIND, PROPPATCH, MKCOL, GET, HEAD, PUT, DELETE, COPY, MOVE, LOCK, UNLOCK") w
  else if relayedForDav.any fun name => 1 < r.headers.count name then refuse .badRequest w
  else
    match declaredLength r with
    | none => refuse .badRequest w
    | some declared =>
        if bodyPolicy r.method = .forbidden ∧ 0 < declared then refuse .badRequest w
        else if bodyPolicy r.method = .document ∧ maxDocumentBody < declared then refuse .contentTooLarge w
        else streamToAdmin admin (adminRequestHead r peer davIsRelayed (.length declared)) declared w

/-! ## Webhooks -/

/-- What a push notification is checked against and starts. -/
structure Webhooks where
  secret : Str → Option Str
  appSecret : Option Str
  signatureMatches : Str → Bytes → Str → Bool
  deploy : Str → Option Status
  appEvent : Str → Bytes → Status

def webhookMaxBody : Nat := 1024 * 1024

/-- A token that is one plain file name. -/
def isPlainToken (token : Str) : Bool := !token.isEmpty && (utf8 token).length ≤ 128 && (utf8 token).all isMethodByte

def accepted (status : Status) : Response :=
  match Response.bytes status "application/json".toList (utf8 "\x7b\"accepted\":true\x7d".toList) with
  | .ok response => response
  | .error _ => .errorPage .internalServerError

/-- Reads the body of a push and checks its signature; every failure is one 404. -/
def readPush (hooks : Webhooks) (secret : Option Str) (r : Request) (w : Wire)
    (act : Bytes → Response) : Except HeaderError Answer :=
  match r.bodyLength with
  | .ok (.fixed length) =>
      if 0 < length ∧ length ≤ webhookMaxBody then
        let (body, w) := takeBody length w
        match secret with
        | none => refuse .notFound w
        | some secret =>
            let presented := (r.headers.getStr "x-hub-signature-256".toList).bind fun value =>
              if "sha256=".toList <+: value then some (value.drop 7) else none
            if presented.any fun hex => hooks.signatureMatches secret body hex then lastReply (act body) w
            else refuse .notFound w
      else refuse .badRequest w
  | _ => refuse .badRequest w

def webhookPrefix : Str := "/.selfhost/webhook/".toList

def appWebhookPath : Str := "/.selfhost/webhook/app".toList

def serveWebhook (hooks : Webhooks) (r : Request) (w : Wire) : Except HeaderError Answer :=
  let name := r.path.drop webhookPrefix.length
  if r.method ≠ .post then refuse .notFound w
  else if !isPlainToken name then refuse .notFound w
  else
    readPush hooks (hooks.secret name) r w fun _ =>
      match hooks.deploy name with
      | some status => accepted status
      | none => .errorPage .badGateway

def serveAppWebhook (hooks : Webhooks) (r : Request) (w : Wire) : Except HeaderError Answer :=
  if r.method ≠ .post then refuse .notFound w
  else
    readPush hooks hooks.appSecret r w fun body =>
      accepted (hooks.appEvent ((r.headers.getStr "x-github-event".toList).getD []) body)

end Selfhost.Proxy

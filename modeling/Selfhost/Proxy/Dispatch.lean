import Selfhost.Lib.Run
import Selfhost.Proxy.Relay

/-!
# Routing a request

`dispatch` of `app/proxy/src/server.rs`. The chain of its tests picks an `Exit`, which says what is answered;
`perform` then writes the answer and reads what the handler reads of the body. What the routing table, the
gate, the file system and the mail store say is a parameter.
-/

namespace Selfhost.Proxy

open Selfhost.Lib Selfhost.Http Selfhost.Names

variable {A : Alphabet}

/-! ## What a request is decided by -/

/-- The decisions of a site's configuration that routing asks for. -/
structure Site where
  permits : IpAddr → Bool
  canonical : Str
  canonicalRedirect : Bool
  requiresPass : Bool
  console : Bool
  hasPublicApi : Bool
  permitsPublicApiPath : Str → Bool
  routesToApp : Str → Bool

/-- A site with its document root and its instances. -/
structure SiteRuntime where
  site : Site
  staticRoot : Option (Str → Resolution)
  lease : Lease
  backend : Backend

inductive Verdict (A : Alphabet) where
  | opened (person : Identity A)
  | signIn
  | noGrant

/-- A one-time code that was redeemed. -/
structure Redeemed where
  pass : Str
  returnPath : Str

structure PassGate (A : Alphabet) where
  judge : Site → Option Str → Verdict A
  redeem : Site → Str → Option Redeemed

structure MailHandles where
  localDomains : List Str
  authenticate : Option Str → Option Str
  autodiscover : Str → Bytes → Bytes
  ews : Str → Bytes → Bytes
  eas : Str → Bytes → Bytes

structure Server (A : Alphabet) where
  route : Str → Option SiteRuntime
  httpsAuthority : Str → Str
  signInAuthority : Option Str
  passGate : Option (PassGate A)
  acmeChallenge : Str → Option Bytes
  paccDocument : Str → Option Str
  mail : Option MailHandles
  admin : Option Backend
  webhooks : Webhooks

/-! ## Exits -/

/-- What is done with a request. -/
inductive Exit (A : Alphabet) where
  /-- An in-memory response on a connection that is kept; the body is not read. -/
  | reply (response : Response)
  /-- A window of a file on a connection that is kept; the body is not read. -/
  | file (built : FileResponse) (content : Bytes)
  /-- A mail protocol that reads the body and answers it. -/
  | mail (contentType : Str) (answer : Bytes → Bytes)
  | refuse (status : Status)
  | webhook
  | appWebhook
  | consoleBulk
  | consoleApi
  | consoleDav
  | forward (runtime : SiteRuntime) (person : Option (Identity A))

def acmeChallengePrefix : Str := "/.well-known/acme-challenge/".toList

def paccPath : Str := "/.well-known/user-agent-configuration.json".toList

def autodiscoverPath : Str := "/autodiscover/autodiscover.xml".toList

def ewsPath : Str := "/EWS/Exchange.asmx".toList

def activesyncPath : Str := "/Microsoft-Server-ActiveSync".toList

def reservedPrefix : Str := "/.selfhost/".toList

def redeemPath : Str := "/.selfhost/pass".toList

def bulkPrefix : Str := "/api/storage/blob/".toList

def errorExit (status : Status) : Exit A := .reply (.errorPage status)

/-- A response, or the error page that stands in for one that could not be built. -/
def orPage (status : Status) : Except HeaderError Response → Response
  | .ok response => response
  | .error _ => .errorPage status

def serveAcmeChallenge (server : Server A) (r : Request) : Exit A :=
  let token := r.path.drop acmeChallengePrefix.length
  if isPlainToken token then
    match server.acmeChallenge token with
    | some content => .reply (orPage .internalServerError (Response.bytes .ok "text/plain".toList content))
    | none => errorExit .notFound
  else errorExit .notFound

def servePacc (document host : Str) (r : Request) (isTls : Bool) : Exit A :=
  if r.method ≠ .get ∧ r.method ≠ .head then errorExit .notFound
  else if isTls then
    .reply (orPage .internalServerError (Response.bytes .ok "application/json".toList (utf8 document)))
  else
    .reply (orPage .badRequest
      (Response.redirect .permanentRedirect ("https://".toList ++ host ++ paccPath)))

def autodiscoverHost (domain : Str) : Str := "autodiscover.".toList ++ domain

/-- The mail domain a host names, and whether it is the dedicated host of that domain. -/
def mailClientDomain (host : Str) (localDomains : List Str) : Option (Str × Bool) :=
  match localDomains.find? fun domain => autodiscoverHost domain = host with
  | some domain => some (domain, true)
  | none => (localDomains.find? fun domain => domain = host).map fun domain => (domain, false)

def serveAutodiscover (handles : MailHandles) (domain : Str) (r : Request) : Exit A :=
  if r.method ≠ .post then errorExit .methodNotAllowed
  else .mail "text/xml; charset=utf-8".toList (handles.autodiscover (autodiscoverHost domain))

/-- The answer to a request without valid credentials. -/
def unauthorized : Response :=
  let page := Response.errorPage .unauthorized
  { page with headers := trySet page.headers "WWW-Authenticate" "Basic realm=\"mail\"".toList }

/-- `serve_ews` and `serve_activesync`: a POST with credentials, its body read and answered. -/
def serveMailbox (handles : MailHandles) (contentType : Str) (answer : Str → Bytes → Bytes) (r : Request) :
    Exit A :=
  if r.method ≠ .post then errorExit .methodNotAllowed
  else
    match handles.authenticate (r.headers.getStr "authorization".toList) with
    | none => .reply unauthorized
    | some mailbox => .mail contentType (answer mailbox)

def serveEws (handles : MailHandles) (r : Request) : Exit A :=
  serveMailbox handles "text/xml; charset=utf-8".toList handles.ews r

def serveActivesync (handles : MailHandles) (r : Request) : Exit A :=
  serveMailbox handles "application/vnd.ms-sync.wbxml".toList handles.eas r

/-- The `code` parameter of a target. -/
def codeIn (target : Str) : Option Str :=
  (splitOnce '?' target).bind fun p => (p.2.splitOn '&').findSome? fun pair =>
    if "code=".toList <+: pair then some (pair.drop 5) else none

def setCookie (pass : Str) : Str :=
  "__Host-selfhost-pass=".toList ++ pass ++ "; Path=/; Max-Age=43200; Secure; HttpOnly; SameSite=Lax".toList

/-- Everything but the unreserved characters as `%` and two hexadecimal digits. -/
def percentEncode (text : Str) : Str :=
  (utf8 text).flatMap fun b =>
    if isMethodByte b || b == 0x2E || b == 0x7E then [Char.ofNat b.toNat]
    else '%' :: toAsciiUppercase (hexText (b.toNat / 16) ++ hexText (b.toNat % 16))

/-- Where a visitor who was turned away from `wanted` signs in. -/
def signInUrl (authority wanted : Str) : Str :=
  "https://".toList ++ authority ++ "/?return=".toList ++ percentEncode wanted

def redeemPass (server : Server A) (site : Site) (r : Request) (host : Str) : Response :=
  let notFound := Response.errorPage .notFound
  if r.path ≠ redeemPath ∨ r.method ≠ .get ∨ !site.requiresPass then notFound
  else
    match (codeIn r.target).bind fun code => server.passGate.bind fun gate => gate.redeem site code with
    | none => notFound
    | some redeemed =>
        match Response.redirect .found
          ("https://".toList ++ server.httpsAuthority host ++ redeemed.returnPath) with
        | .error _ => notFound
        | .ok response =>
            match response.headers.set "Set-Cookie".toList (utf8 (setCookie redeemed.pass)) with
            | .error _ => notFound
            | .ok headers => { response with headers := trySet headers "Cache-Control" "no-store".toList }

def serveStatic (runtime : SiteRuntime) (r : Request) : Exit A :=
  match runtime.staticRoot with
  | none => errorExit .notFound
  | some resolve =>
      if !methodAllowed r.method then .reply (methodNotAllowed "GET, HEAD")
      else
        match resolve r.path with
        | .file f => .file (buildResponse r f.contentType f.content.length (f.validators r)) f.content
        | .trailingSlash =>
            .reply (orPage .badRequest (Response.redirect .movedPermanently (withTrailingSlash r.target)))
        | .rejected | .notFound => errorExit .notFound

def isConsoleApi (path : Str) : Bool := path == "/api".toList || "/api/".toList.isPrefixOf path

def isConsoleBulk (path : Str) : Bool := bulkPrefix.isPrefixOf path

def isDavPath (path : Str) : Bool := path == "/dav".toList || "/dav/".toList.isPrefixOf path

/-- What is served on a site once the gates are passed. -/
def siteExit (runtime : SiteRuntime) (r : Request) (person : Option (Identity A)) : Exit A :=
  let site := runtime.site
  if site.console && isConsoleBulk r.path then .consoleBulk
  else if site.console && isConsoleApi r.path then .consoleApi
  else if site.hasPublicApi && (isConsoleBulk r.path || isConsoleApi r.path) then
    if !site.permitsPublicApiPath r.path then errorExit .notFound
    else if isConsoleBulk r.path then .consoleBulk
    else .consoleApi
  else if site.console && isDavPath r.path then .consoleDav
  else if site.routesToApp r.path then .forward runtime person
  else serveStatic runtime r

/-- The identity gate, and what is behind it. -/
def gatedExit (server : Server A) (runtime : SiteRuntime) (r : Request) (host : Str) : Exit A :=
  if !runtime.site.requiresPass then siteExit runtime r none
  else
    match server.passGate with
    | none => errorExit .forbidden
    | some gate =>
        match gate.judge runtime.site (r.headers.getStr "cookie".toList) with
        | .opened person => siteExit runtime r (some person)
        | .noGrant => errorExit .forbidden
        | .signIn =>
            let wanted := "https://".toList ++ server.httpsAuthority host ++ r.target
            match server.signInAuthority with
            | none => errorExit .forbidden
            | some authority =>
                .reply (orPage .forbidden (Response.redirect .found (signInUrl authority wanted)))

/-- What is done at a host of the routing table. -/
def routedExit (server : Server A) (runtime : SiteRuntime) (r : Request) (peer : IpAddr) (isTls : Bool)
    (host : Str) : Exit A :=
  let site := runtime.site
  if r.path = appWebhookPath then .appWebhook
  else if webhookPrefix <+: r.path then .webhook
  else if !isTls then
    if !site.permits peer then errorExit .notFound
    else
      .reply (orPage .badRequest (Response.redirect .permanentRedirect
        ("https://".toList ++ server.httpsAuthority host ++ r.target)))
  else if !site.permits peer then errorExit .notFound
  else if site.canonicalRedirect ∧ host ≠ site.canonical then
    .reply (orPage .badRequest (Response.redirect .movedPermanently
      ("https://".toList ++ server.httpsAuthority site.canonical ++ r.target)))
  else if reservedPrefix <+: r.path ∨ r.path = "/.selfhost".toList then
    .reply (redeemPass server site r host)
  else gatedExit server runtime r host

/-- The mail endpoints, which are served at hosts the routing table does not know. -/
def mailExit (server : Server A) (r : Request) (host : Str) : Option (Exit A) :=
  server.mail.bind fun handles =>
    (mailClientDomain host handles.localDomains).bind fun (domain, isAutodiscoverHost) =>
      if r.path = autodiscoverPath then some (serveAutodiscover handles domain r)
      else if isAutodiscoverHost ∧ r.path = ewsPath then some (serveEws handles r)
      else if isAutodiscoverHost ∧ r.path = activesyncPath then some (serveActivesync handles r)
      else none

/-- The automatic-configuration document of a mail domain. -/
def paccExit (server : Server A) (r : Request) (isTls : Bool) (host : Str) : Option (Exit A) :=
  if r.path = paccPath then (server.paccDocument host).map fun document => servePacc document host r isTls
  else none

def exitOf (server : Server A) (r : Request) (peer : IpAddr) (isTls : Bool) : Exit A :=
  match r.host with
  | none => .refuse .badRequest
  | some host =>
      if !isTls ∧ acmeChallengePrefix <+: r.path then serveAcmeChallenge server r
      else
        match paccExit server r isTls host with
        | some e => e
        | none =>
            match mailExit server r host with
            | some e => e
            | none =>
                match server.route host with
                | none => errorExit .notFound
                | some runtime => routedExit server runtime r peer isTls host

/-! ## Performing an exit -/

def mailClientMaxBody : Nat := 40 * 1024 * 1024

/-- The head of a file response and its window of the file. -/
def writeFile (built : FileResponse) (content : Bytes) (keepAlive : Bool) : Except HeaderError Bytes :=
  (built.response.writeHead keepAlive).map fun head =>
    applySecurityHeaders head ++ (content.drop built.offset).take built.length

def serveMail (contentType : Str) (answer : Bytes → Bytes) (r : Request) (keepAlive : Bool) (w : Wire) :
    Except HeaderError Answer :=
  match r.bodyLength with
  | .ok (.fixed length) =>
      if length ≤ mailClientMaxBody then
        let (body, w) := takeBody length w
        reply (orPage .internalServerError (Response.bytes .ok contentType (answer body))) keepAlive w
      else refuse .badRequest w
  | _ => refuse .badRequest w

def serveForward (runtime : SiteRuntime) (r : Request) (peer : IpAddr) (person : Option (Identity A))
    (w : Wire) : Except HeaderError Answer :=
  match forward runtime.lease r peer person w with
  | .error status => refuse status w
  | .ok f =>
      if f.isUpgrade then spliceUpgrade runtime.backend f.sent f.wire
      else relayAnswer runtime.backend f.sent f.wire

def perform (server : Server A) (r : Request) (peer : IpAddr) (keepAlive : Bool) (w : Wire) :
    Exit A → Except HeaderError Answer
  | .reply response => reply response keepAlive w
  | .file built content =>
      (writeFile built content keepAlive).map fun written => ⟨written, w, .reusable⟩
  | .mail contentType answer => serveMail contentType answer r keepAlive w
  | .refuse status => refuse status w
  | .webhook => serveWebhook server.webhooks r w
  | .appWebhook => serveAppWebhook server.webhooks r w
  | .consoleBulk => relayConsoleBulk server.admin r peer w
  | .consoleApi => relayConsoleApi server.admin r peer w
  | .consoleDav => relayConsoleDav server.admin r peer w
  | .forward runtime person => serveForward runtime r peer person w

def dispatch (server : Server A) (r : Request) (peer : IpAddr) (isTls keepAlive : Bool) (w : Wire) :
    Except HeaderError Answer :=
  perform server r peer keepAlive w (exitOf server r peer isTls)

end Selfhost.Proxy

/-! # The loop of a connection -/

namespace Selfhost.Proxy

open Selfhost.Lib Selfhost.Http Selfhost.Names

variable {A : Alphabet}

inductive HeadRead where
  | parsed (p : Parsed) (w : Wire)
  | closed
  | invalid (why : ParseError)
  deriving DecidableEq

/-- The most bytes one read takes. -/
def readChunk : Nat := 8 * 1024

def readMore : List Nat → Wire → HeadRead
  | [], _ => .closed
  | size :: sizes, w =>
      let read := min (min size readChunk) w.pending.length
      if read = 0 then .closed
      else
        let w : Wire := ⟨w.leftover ++ w.pending.take read, w.pending.drop read⟩
        match Request.parse w.leftover with
        | .ok p => .parsed p w
        | .error .incomplete => readMore sizes w
        | .error e => .invalid e

/-- Reads one head; a buffer that already holds one needs no read. -/
def readHead (sizes : List Nat) (w : Wire) : HeadRead :=
  if w.leftover = [] then readMore sizes w
  else
    match Request.parse w.leftover with
    | .ok p => .parsed p w
    | .error .incomplete => readMore sizes w
    | .error e => .invalid e

/-- A request that was served: the client's bytes from the first of its head on, and its head. -/
structure Served where
  input : Bytes
  parsed : Parsed
  deriving DecidableEq

/-- A connection: whether it is still open, the client's bytes that are left, and what was served on it. -/
structure Conn where
  isOpen : Bool
  wire : Wire
  served : List Served
  deriving DecidableEq

/-- One turn of the loop: the server as it then is, and how the bytes of the head arrive. -/
structure Turn (A : Alphabet) where
  server : Server A
  sizes : List Nat

def Wire.drain (w : Wire) (n : Nat) : Wire := ⟨w.leftover.drop n, w.pending⟩

def serveTurn (peer : IpAddr) (isTls : Bool) (c : Conn) (t : Turn A) : Option Conn :=
  if !c.isOpen then none
  else
    match readHead t.sizes c.wire with
    -- A clean close, and the 400 of a head that does not parse, end the connection.
    | .closed | .invalid _ => some { c with isOpen := false }
    | .parsed p w =>
        let served := c.served ++ [⟨w.all, p⟩]
        let keepAlive := p.request.wantsKeepAlive
        match dispatch t.server p.request peer isTls keepAlive (w.drain p.consumed) with
        | .error _ => some ⟨false, w.drain p.consumed, served⟩
        | .ok answer => some ⟨keepAlive && decide (answer.outcome = .reusable), answer.wire, served⟩

/-- A connection on which nothing was read yet. -/
def Conn.new (input : Bytes) : Conn := ⟨true, ⟨[], input⟩, []⟩

end Selfhost.Proxy

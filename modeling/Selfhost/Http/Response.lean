import Selfhost.Http.Request

/-!
# Responses

`foundation/http/src/response.rs`: a response, and the head it is written with. The framing fields are
derived from the status and the body when the head is written.
-/

namespace Selfhost.Http

open Selfhost.Lib

/-- A status code; `u16` in the source. -/
structure Status where
  code : Nat
  deriving DecidableEq, Repr

namespace Status

def switchingProtocols : Status := ⟨101⟩

def ok : Status := ⟨200⟩

def partialContent : Status := ⟨206⟩

def movedPermanently : Status := ⟨301⟩

def found : Status := ⟨302⟩

def notModified : Status := ⟨304⟩

def permanentRedirect : Status := ⟨308⟩

def badRequest : Status := ⟨400⟩

def unauthorized : Status := ⟨401⟩

def forbidden : Status := ⟨403⟩

def notFound : Status := ⟨404⟩

def methodNotAllowed : Status := ⟨405⟩

def contentTooLarge : Status := ⟨413⟩

def rangeNotSatisfiable : Status := ⟨416⟩

def internalServerError : Status := ⟨500⟩

def badGateway : Status := ⟨502⟩

/-- Whether a response of this status carries no body whatever its fields say. -/
def forbidsBody (s : Status) : Bool := (100 ≤ s.code && s.code ≤ 199) || s.code == 204 || s.code == 304

def reason (s : Status) : Str :=
  match s.code with
  | 101 => "Switching Protocols".toList
  | 200 => "OK".toList
  | 201 => "Created".toList
  | 204 => "No Content".toList
  | 206 => "Partial Content".toList
  | 207 => "Multi-Status".toList
  | 301 => "Moved Permanently".toList
  | 302 => "Found".toList
  | 304 => "Not Modified".toList
  | 308 => "Permanent Redirect".toList
  | 400 => "Bad Request".toList
  | 401 => "Unauthorized".toList
  | 403 => "Forbidden".toList
  | 404 => "Not Found".toList
  | 405 => "Method Not Allowed".toList
  | 409 => "Conflict".toList
  | 412 => "Precondition Failed".toList
  | 413 => "Content Too Large".toList
  | 414 => "URI Too Long".toList
  | 416 => "Range Not Satisfiable".toList
  | 423 => "Locked".toList
  | 429 => "Too Many Requests".toList
  | 431 => "Request Header Fields Too Large".toList
  | 500 => "Internal Server Error".toList
  | 501 => "Not Implemented".toList
  | 502 => "Bad Gateway".toList
  | 503 => "Service Unavailable".toList
  | 504 => "Gateway Timeout".toList
  | 507 => "Insufficient Storage".toList
  | _ => "Unknown".toList

end Status

/-- How a body is produced; a streamed one is written by the caller after the head. -/
inductive Body where
  | empty
  | bytes (content : Bytes)
  | streamed (length : Nat)
  deriving DecidableEq

def Body.len : Body → Nat
  | .empty => 0
  | .bytes content => content.length
  | .streamed length => length

structure Response where
  status : Status
  headers : Headers
  body : Body
  deriving DecidableEq

namespace Response

def empty (status : Status) : Response := ⟨status, .empty, .empty⟩

def bytes (status : Status) (contentType : Str) (content : Bytes) : Except HeaderError Response :=
  (Headers.empty.set "Content-Type".toList (utf8 contentType)).map fun headers => ⟨status, headers, .bytes content⟩

def html (status : Status) (markup : Str) : Except HeaderError Response :=
  Response.bytes status "text/html; charset=utf-8".toList (utf8 markup)

/-- The markup of an error page. -/
def errorMarkup (status : Status) : Str :=
  let title := natText status.code ++ ' ' :: status.reason
  "<!doctype html><meta charset=\"utf-8\"><title>".toList ++ title ++ "</title>".toList ++
    "<style>body\x7bfont:16px/1.6 system-ui,sans-serif;margin:4rem auto;max-width:32rem;padding:0 1.5rem\x7d".toList ++
    "h1\x7bfont-size:1.5rem;margin:0 0 .5rem\x7dp\x7bcolor:#666\x7d</style>".toList ++
    "<h1>".toList ++ title ++ "</h1><p>Nothing further to report.</p>".toList

def errorPage (status : Status) : Response :=
  match Response.html status (errorMarkup status) with
  | .ok response => response
  | .error _ => Response.empty status

def redirect (status : Status) (location : Str) : Except HeaderError Response :=
  (Headers.empty.set "Location".toList (utf8 location)).map fun headers => ⟨status, headers, .empty⟩

/-- The fields a head is written with: the response's own, and the framing fields derived from its status and
body. -/
def wireHeaders (r : Response) (keepAlive : Bool) : Except HeaderError Headers :=
  let headers := (r.headers.remove Field.contentLength).remove Field.transferEncoding
  let framed :=
    if r.status.forbidsBody then .ok headers
    else headers.set "Content-Length".toList (utf8 (natText r.body.len))
  framed.bind fun headers =>
    if r.status = .switchingProtocols then headers.set "Connection".toList (utf8 "Upgrade".toList)
    else headers.set "Connection".toList (utf8 (if keepAlive then "keep-alive".toList else "close".toList))

/-- `HTTP/1.1 SP code SP reason`, without its CRLF. -/
def statusLine (r : Response) : Bytes :=
  utf8 ("HTTP/1.1 ".toList ++ natText r.status.code ++ ' ' :: r.status.reason)

def writeHead (r : Response) (keepAlive : Bool) : Except HeaderError Bytes :=
  (r.wireHeaders keepAlive).map fun headers => r.statusLine ++ crlf ++ headers.write ++ crlf

end Response

end Selfhost.Http

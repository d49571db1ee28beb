import HydrogenHttpd.Base.Assoc
import HydrogenHttpd.Base.Numbers

/-!
# Requests and responses (`Http.hpp`)

The two records every handler passes around. A header map is an association
list in insertion order; the source's `unordered_map` leaves the order open,
and nothing below depends on it. `sharedBody` is the body a response shares
with the static cache, and the two body accessors prefer it over `body`
exactly as the source's do.
-/

namespace HydrogenHttpd.Ref

open Base

abbrev HeaderMap := List (Bytes × Bytes)

structure HttpRequest where
  method : Bytes := []
  target : Bytes := []
  version : Bytes := []
  headers : HeaderMap := []
  body : Bytes := []
  hasContentLength : Bool := false
  contentLength : Nat := 0
  deriving DecidableEq, Repr

structure HttpResponse where
  status : Int := 200
  reason : Bytes := bytes "OK"
  contentType : Bytes := bytes "text/plain; charset=utf-8"
  body : Bytes := []
  sharedBody : Option Bytes := none
  headOnly : Bool := false
  tls : Bool := false
  exposeServerHeader : Bool := false
  cacheControl : Bytes := bytes "no-store"
  extraHeaders : HeaderMap := []
  deriving DecidableEq, Repr

def HttpResponse.bodySize (res : HttpResponse) : Nat :=
  match res.sharedBody with
  | some shared => shared.length
  | none => res.body.length

def HttpResponse.bodyData (res : HttpResponse) : Bytes :=
  match res.sharedBody with
  | some shared => shared
  | none => res.body

/-- One `name: value` line. -/
def headerField (name value : Bytes) : Bytes := name ++ bytes ": " ++ value ++ crlf

def HttpResponse.headersToString (res : HttpResponse) : Bytes :=
  bytes "HTTP/1.1 " ++ signedDecimal res.status ++ [space] ++ res.reason ++ crlf
    ++ (if res.exposeServerHeader then headerField (bytes "Server") (bytes "HydrogenHttpd")
        else [])
    ++ headerField (bytes "Connection") (bytes "close")
    ++ headerField (bytes "Content-Length") (decimal res.bodySize)
    ++ headerField (bytes "Content-Type") res.contentType
    ++ (if res.cacheControl.isEmpty then []
        else headerField (bytes "Cache-Control") res.cacheControl)
    ++ headerField (bytes "X-Content-Type-Options") (bytes "nosniff")
    ++ headerField (bytes "X-Frame-Options") (bytes "DENY")
    ++ headerField (bytes "X-XSS-Protection") (bytes "0")
    ++ headerField (bytes "Referrer-Policy") (bytes "strict-origin-when-cross-origin")
    ++ headerField (bytes "Permissions-Policy")
        (bytes "geolocation=(), microphone=(), camera=(), payment=(), usb=(), interest-cohort=()")
    ++ headerField (bytes "Cross-Origin-Opener-Policy") (bytes "same-origin")
    ++ headerField (bytes "Cross-Origin-Resource-Policy") (bytes "same-origin")
    ++ headerField (bytes "Content-Security-Policy")
        (bytes ("default-src 'self'; object-src 'none'; frame-ancestors 'none'; " ++
          "base-uri 'self'; form-action 'self';"))
    ++ (if res.tls then headerField (bytes "Strict-Transport-Security")
          (bytes "max-age=31536000; includeSubDomains") else [])
    ++ res.extraHeaders.flatMap (fun h => headerField h.1 h.2)
    ++ crlf

def HttpResponse.toString (res : HttpResponse) : Bytes :=
  res.headersToString ++ (if res.headOnly then [] else res.bodyData)

end HydrogenHttpd.Ref

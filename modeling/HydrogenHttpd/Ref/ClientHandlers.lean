import HydrogenHttpd.Ref.AccessLog
import HydrogenHttpd.Ref.RateLimiter
import HydrogenHttpd.Ref.Server

/-!
# The handlers of the two listeners (`Server.cpp`)

`handlePlainClient` and `handleTlsClient` ask the rate limiter, have the request
handled, write the response and log it. They differ in the handshake and in what
they call the scheme. A `Client` answers what its connection does to a handler;
an exception on the way goes to the error log, and no response is logged then.
-/

namespace HydrogenHttpd.Ref

open Base

/-- `std::tm`, as far as `Logger::now` prints it. -/
structure LocalTime where
  year : Nat
  month : Nat
  day : Nat
  hour : Nat
  minute : Nat
  second : Nat
  deriving DecidableEq, Repr

def twoDigits (n : Nat) : Bytes := if n < 10 then 48 :: decimal n else decimal n

namespace Logger

/-- `now`, with the format "%Y-%m-%d %H:%M:%S". -/
def now (time : LocalTime) : Bytes :=
  decimal time.year ++ bytes "-" ++ twoDigits time.month ++ bytes "-" ++ twoDigits time.day ++
    bytes " " ++ twoDigits time.hour ++ bytes ":" ++ twoDigits time.minute ++ bytes ":" ++
    twoDigits time.second

end Logger

structure Client where
  /-- `socket.remote_endpoint()`, as a text. -/
  remoteEndpoint : Except Bytes Bytes
  handshake : Except Bytes Unit := .ok ()
  stream : Connection
  /-- How writing the response ends. -/
  written : Except Bytes Unit := .ok ()
  /-- The steady clock when the limiter is asked. -/
  limiterNow : Nat := 1
  /-- The clock when the response is logged. -/
  loggedAt : LocalTime

/-- What `writeHttpResponse` returns. -/
def responseBytes (response : HttpResponse) : Nat :=
  (writeHttpResponse response).1.length + (writeHttpResponse response).2.length

/-- The line in the `catch` clause of both handlers. -/
def clientError (scheme clientIp e : Bytes) : Bytes :=
  bytes "scheme=" ++ scheme ++ bytes " client=" ++ clientIp ++ bytes " error=\"" ++ e ++ bytes "\""

def tooManyRequests (config : ServerConfig) (tls : Bool) : HttpResponse :=
  (emptyResponse config tls).answer 429 "Too Many Requests" "429 Too Many Requests\n"

/-- What a handler does: the arguments of its call of `access` or the message to
the error log, the limiter and the world. -/
abbrev Handled := Except Bytes AccessEntry × RateLimiter × World

/-- Both handlers from the rate limiter on. -/
def serveClient (env : ServerEnv) (config : ServerConfig) (scheme : Bytes) (tls : Bool)
    (clientIp : Bytes) (client : Client) (limiter : RateLimiter) (w : World) : Handled :=
  let entry := fun (method target : Bytes) (status : Int) (response : HttpResponse) =>
    { now := Logger.now client.loggedAt
      ip := clientIp
      scheme := scheme
      method := method
      target := target
      status := status
      byteCount := responseBytes response : AccessEntry }
  let (allowed, limiter) :=
    if config.enableRateLimiter then
      limiter.allow env.hash (scheme ++ bytes ":" ++ clientIp) client.limiterNow
    else (true, limiter)
  if allowed = false then
    (client.written.map fun _ => entry (bytes "-") (bytes "-") 429 (tooManyRequests config tls),
      limiter, w)
  else
    match handleClientStream env config tls clientIp client.stream w with
    | (.error e, w) => (.error e, limiter, w)
    | (.ok out, w) =>
        (client.written.map fun _ => entry out.method out.target out.status out.response,
          limiter, w)

def handlePlainClient (env : ServerEnv) (config : ServerConfig) (client : Client)
    (limiter : RateLimiter) (w : World) : Handled :=
  match client.remoteEndpoint with
  | .error e => (.error (clientError (bytes "http") (bytes "unknown") e), limiter, w)
  | .ok clientIp =>
      let (result, limiter, w) :=
        serveClient env config (bytes "http") false clientIp client limiter w
      (result.mapError (clientError (bytes "http") clientIp), limiter, w)

def handleTlsClient (env : ServerEnv) (config : ServerConfig) (client : Client)
    (limiter : RateLimiter) (w : World) : Handled :=
  match client.remoteEndpoint with
  | .error e => (.error (clientError (bytes "https") (bytes "unknown") e), limiter, w)
  | .ok clientIp =>
      match client.handshake with
      | .error e => (.error (clientError (bytes "https") clientIp e), limiter, w)
      | .ok () =>
          let (result, limiter, w) :=
            serveClient env config (bytes "https") true clientIp client limiter w
          (result.mapError (clientError (bytes "https") clientIp), limiter, w)

end HydrogenHttpd.Ref

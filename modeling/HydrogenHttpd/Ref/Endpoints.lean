import HydrogenHttpd.Ref.AuthRuntimeStore
import HydrogenHttpd.Ref.Config
import HydrogenHttpd.Ref.FastCgiClient
import HydrogenHttpd.Ref.Http
import HydrogenHttpd.Ref.Multipart
import HydrogenHttpd.Ref.StaticFileCache
import HydrogenHttpd.Ref.StrictHttp

/-!
# The server's state and its guarded endpoints (`Server.cpp`)

A handler runs in a `World`, which it reads and leaves changed, and against a
`ServerEnv`, which answers what the world outside does meanwhile: clocks, the
file system, the FastCGI backend, and what other threads do to the token store.
Besides the state the source keeps, a world has the calls the request being
handled has made so far; they are how the results below speak about what a
response is made of.

`authorizeEndpoint` takes the store's mutex twice, and other threads may
refresh the store in between.
-/

namespace HydrogenHttpd.Ref

open Base

/-! ## The world a request is handled in -/

/-- A message to the error log or to the audit log. -/
inductive LogMessage where
  | error (message : Bytes)
  | audit (message : Bytes)
  deriving DecidableEq, Repr

/-- A call the results speak about. -/
inductive Call where
  /-- `Auth::authorize`, on the rules that are active in the store. -/
  | authorize (header : Bytes) (tokens : List AuthTokenRule) (legacy scope : Bytes) (now : Int)
  | adminStatusResponse
  /-- With what the spool file holds. -/
  | saveUploadsFromSpoolFile (spool : Option Bytes)
  | saveUploads (body : Bytes)
  | makeResponse (rawRequest : Bytes)
  /-- `staticCache_.get` -/
  | staticFile (path : Path)
  | handlePhpScript (path : Path)
  deriving DecidableEq, Repr

structure World where
  authStore : AuthRuntimeStore
  staticCache : StaticFileCache
  uploads : Uploads := {}
  /-- The files in the spool directory. -/
  spools : List (Path × Bytes) := []
  /-- How many authorizations there were. -/
  authorizations : Nat := 0
  logs : List LogMessage := []
  calls : List Call := []
  deriving DecidableEq, Repr

def World.call (w : World) (c : Call) : World := { w with calls := w.calls ++ [c] }

def World.log (w : World) (m : LogMessage) : World := { w with logs := w.logs ++ [m] }

/-- What is outside of the server while it authorizes once. -/
structure AuthMoment where
  /-- `authorizeEndpoint`'s own reading of the clock, in seconds. -/
  now : Int
  /-- The readings `refresh` makes, in nanoseconds and in seconds. -/
  steady : Int
  epoch : Int
  /-- The secrets file at each access of `refresh` in turn. -/
  secrets : Nat → (access : SecretsAccess) → SecretsAnswer access
  /-- What other threads do to the store between its two locks. -/
  others : AuthRuntimeStore → AuthRuntimeStore := id

/-- The figures of the status page that other components keep. -/
structure StatusFigures where
  uptime : Nat := 0
  queued : Nat := 0
  active : Nat := 0
  completed : Nat := 0
  rejected : Nat := 0
  bucketCount : Nat := 0
  droppedAccessLogs : Nat := 0
  deriving DecidableEq, Repr

/-- What a request meets outside of the server. -/
structure ServerEnv where
  version : Bytes := bytes "dev"
  files : Files
  /-- `std::hash<std::string>` -/
  hash : Bytes → Nat := fun key => key.length
  /-- The steady clock at the cache lookup. -/
  cacheNow : Int := 0
  authorization : Nat → AuthMoment
  upload : UploadEnv
  /-- `create_directories` on the spool directory, the clock its file is named
  after, and whether that file can be created and opened again. -/
  createSpoolDirectory : Except Bytes Unit := .ok ()
  spoolMicros : Nat := 0
  canCreateSpool : Bool := true
  canOpenSpool : Bool := true
  backend : FastCgiBackend
  figures : StatusFigures := {}

/-- The change the server's constructor makes to its configuration. -/
def canonicalRoots (files : Files) (config : ServerConfig) : Except Bytes ServerConfig :=
  match files.weaklyCanonical config.defaultRoot with
  | .error e => .error e
  | .ok defaultRoot =>
      match config.virtualHosts.mapM fun (host, root) =>
          (files.weaklyCanonical root).map fun root => (host, root) with
      | .error e => .error e
      | .ok virtualHosts =>
          .ok { config with defaultRoot := defaultRoot, virtualHosts := virtualHosts }

/-- Nothing but the roots changes. -/
theorem canonicalRoots_eq {files : Files} {loaded config : ServerConfig}
    (h : canonicalRoots files loaded = .ok config) :
    ∃ root hosts, config = { loaded with defaultRoot := root, virtualHosts := hosts } := by
  simp only [canonicalRoots] at h
  split at h
  · cases h
  · split at h
    · cases h
    · cases h
      exact ⟨_, _, rfl⟩

/-- The server's constructor, for the members a handler uses. -/
def World.initial (config : ServerConfig) (authStore : AuthRuntimeStore) : World :=
  { authStore := authStore
    staticCache := StaticFileCache.construct config.enableStaticCache config.staticCacheShards
      config.staticCacheMaxEntries config.staticCacheMaxBytes config.staticCacheMaxFileBytes
      config.staticCacheRevalidateMs }

/-! ## Responses -/

/-- The response every handler starts from. -/
def emptyResponse (config : ServerConfig) (tls : Bool) : HttpResponse :=
  { tls := tls, exposeServerHeader := config.exposeServerHeader }

/-- The three fields a refusal sets. -/
def HttpResponse.answer (res : HttpResponse) (status : Int) (reason body : String) :
    HttpResponse :=
  { res with status := status, reason := bytes reason, body := bytes body }

def HttpResponse.notFound (res : HttpResponse) : HttpResponse :=
  res.answer 404 "Not Found" "404 Not Found\n"
def HttpResponse.methodNotAllowed (res : HttpResponse) : HttpResponse :=
  res.answer 405 "Method Not Allowed" "405 Method Not Allowed\n"
def HttpResponse.badRequest (res : HttpResponse) : HttpResponse :=
  res.answer 400 "Bad Request" "400 Bad Request\n"
def HttpResponse.forbidden (res : HttpResponse) : HttpResponse :=
  res.answer 403 "Forbidden" "403 Forbidden\n"
def HttpResponse.payloadTooLarge (res : HttpResponse) : HttpResponse :=
  res.answer 413 "Payload Too Large" "413 Payload Too Large\n"
def HttpResponse.unsupportedMediaType (res : HttpResponse) : HttpResponse :=
  res.answer 415 "Unsupported Media Type" "415 Unsupported Media Type\n"

def unauthorizedResponse (config : ServerConfig) (tls invalidToken : Bool) : HttpResponse :=
  { (emptyResponse config tls).answer 401 "Unauthorized" "401 Unauthorized\n" with
    extraHeaders := [(bytes "WWW-Authenticate",
      if invalidToken then bytes "Bearer error=\"invalid_token\"" else bytes "Bearer")] }

def forbiddenResponse (config : ServerConfig) (tls : Bool) : HttpResponse :=
  (emptyResponse config tls).forbidden

/-! ## Authorization -/

/-- What `authorizeEndpoint` logs about the refresh. -/
def logReload (reload : AuthReloadResult) (w : World) : World :=
  let counts := bytes " generation=" ++ decimal reload.generation.toNat ++
    bytes " token_count=" ++ decimal reload.tokenCount
  match reload.code with
  | .Reloaded => w.log (.audit (bytes "event=auth_store_reloaded" ++ counts))
  | .Failed =>
      (w.log (.error (bytes "auth_store_reload_failed error=\"" ++ reload.message ++
        bytes "\""))).log (.audit (bytes "event=auth_store_reload_failed" ++ counts))
  | .NoChange => w

def authorizeEndpoint (env : ServerEnv) (config : ServerConfig) (req : HttpRequest)
    (requiredScope : Bytes) (w : World) : AuthDecision × World :=
  if config.enableEndpointAuth = false then
    ({ code := .Allowed, tokenName := bytes "auth-disabled" }, w)
  else
    let header := (req.headers.lookup (bytes "authorization")).getD []
    let moment := env.authorization w.authorizations
    let (reload, store) :=
      (w.authStore.refresh false moment.steady moment.epoch).replay moment.secrets
    let store := moment.others store
    let decision := store.decide header config.authBearerToken requiredScope moment.now
    let w := { w with authStore := store, authorizations := w.authorizations + 1 }
    let w := w.call (.authorize header store.activeTokens config.authBearerToken requiredScope
      moment.now)
    (decision, logReload reload w)

def auditEndpointEvent (event clientIp target requiredScope tokenName : Bytes) (status : Nat)
    (w : World) : World :=
  w.log (.audit (bytes "event=" ++ event ++ bytes " ip=" ++ clientIp ++
    bytes " target=\"" ++ target ++ bytes "\"" ++ bytes " required_scope=" ++ requiredScope ++
    bytes " token=\"" ++ tokenName ++ bytes "\"" ++ bytes " status=" ++ decimal status))

/-- What both endpoints of `handleClientStream` do with a denial. -/
def denyEndpoint (config : ServerConfig) (tls : Bool) (clientIp target requiredScope : Bytes)
    (decision : AuthDecision) (w : World) : HttpResponse × World :=
  match decision.code with
  | .Missing =>
      (unauthorizedResponse config tls false,
        auditEndpointEvent (bytes "auth_missing") clientIp target requiredScope (bytes "-") 401 w)
  | .InsufficientScope =>
      (forbiddenResponse config tls,
        auditEndpointEvent (bytes "auth_scope_denied") clientIp target requiredScope
          decision.tokenName 403 w)
  | .Expired =>
      (unauthorizedResponse config tls true,
        auditEndpointEvent (bytes "auth_expired") clientIp target requiredScope
          decision.tokenName 401 w)
  | _ =>
      (unauthorizedResponse config tls true,
        auditEndpointEvent (bytes "auth_invalid") clientIp target requiredScope
          (bytes "unknown") 401 w)

/-! ## The status page -/

def jsonNumber (key : String) (n : Int) : Bytes :=
  bytes "\"" ++ bytes key ++ bytes "\":" ++ signedDecimal n

def jsonBool (key : String) (b : Bool) : Bytes :=
  bytes "\"" ++ bytes key ++ bytes "\":" ++ (if b then bytes "true" else bytes "false")

def jsonText (key : String) (value : Bytes) : Bytes :=
  bytes "\"" ++ bytes key ++ bytes "\":\"" ++ value ++ bytes "\""

def adminStatusJson (env : ServerEnv) (config : ServerConfig) (w : World) : Bytes :=
  bytes "\x7b" ++ (bytes ",").intercalate
    [jsonText "service" (bytes "HydrogenHttpd"),
     jsonText "version" env.version,
     jsonNumber "uptime_seconds" env.figures.uptime,
     jsonNumber "worker_threads" config.workerThreads,
     jsonNumber "queued_tasks" env.figures.queued,
     jsonNumber "active_workers" env.figures.active,
     jsonNumber "completed_tasks" env.figures.completed,
     jsonNumber "rejected_tasks" env.figures.rejected,
     jsonNumber "max_pending_connections" config.maxPendingConnections,
     jsonBool "rate_limiter_enabled" config.enableRateLimiter,
     jsonNumber "rate_limiter_buckets" env.figures.bucketCount,
     jsonNumber "dropped_access_logs" env.figures.droppedAccessLogs,
     jsonNumber "static_cache_entries" w.staticCache.entries,
     jsonNumber "static_cache_bytes" w.staticCache.bytes,
     jsonNumber "static_cache_hits" w.staticCache.hits,
     jsonNumber "static_cache_misses" w.staticCache.misses,
     jsonNumber "static_cache_evictions" w.staticCache.evictions,
     jsonBool "tls_enabled" config.enableTls,
     jsonBool "uploads_enabled" config.enableUploads,
     jsonBool "php_enabled" config.enablePhp,
     jsonBool "endpoint_auth_enabled" config.enableEndpointAuth,
     jsonNumber "configured_token_rules" w.authStore.activeTokens.length,
     jsonNumber "auth_store_generation" w.authStore.generation.toNat,
     jsonNumber "auth_last_reload_epoch" w.authStore.lastSuccessfulReloadEpoch,
     jsonBool "auth_hot_reload_enabled" w.authStore.hotReload] ++ bytes "\x7d"

def adminStatusResponse (env : ServerEnv) (config : ServerConfig) (tls : Bool) (w : World) :
    HttpResponse × World :=
  ({ emptyResponse config tls with
      status := 200
      reason := bytes "OK"
      contentType := bytes "application/json; charset=utf-8"
      body := adminStatusJson env config w },
    w.call .adminStatusResponse)

end HydrogenHttpd.Ref

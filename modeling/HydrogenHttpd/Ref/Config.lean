import HydrogenHttpd.Ref.Auth
import HydrogenHttpd.Base.Assoc
import HydrogenHttpd.Base.Path

/-!
# The configuration file (`Config.cpp`)

The chain of `else if` that `load` runs for each line is a table here: a key
and what its value is read as. The seven readers are the seven ways the chain
converts a text, with the silent narrowing of its casts. The two keys that are
prefixes come after the table, as no key of the table starts with either.

The `throw`s behind the loop are a list of faults in the order of the code,
each with its message; the first that applies is thrown.
-/

namespace HydrogenHttpd.Ref

open Base

structure ServerConfig where
  port : Nat := 8080
  enableTls : Bool := false
  tlsPort : Nat := 8443
  publicHttpsPort : Nat := 443
  tlsCertFile : Path := Path.ofBytes (bytes "certs/server.crt")
  tlsKeyFile : Path := Path.ofBytes (bytes "certs/server.key")
  forceHttps : Bool := false
  httpsRedirectStatus : Int := 308
  exposeServerHeader : Bool := false
  defaultRoot : Path := Path.ofBytes (bytes "www")
  accessLog : Path := Path.ofBytes (bytes "logs/access.log")
  errorLog : Path := Path.ofBytes (bytes "logs/error.log")
  auditLog : Path := Path.ofBytes (bytes "logs/audit.log")
  auditRotateBytes : Nat := 10 * 1024 * 1024
  auditRotateKeep : Nat := 5
  authSecretsFile : Path := {}
  authHotReload : Bool := true
  authReloadIntervalSeconds : Nat := 0
  maxRequestBytes : Nat := 16 * 1024
  maxBodyBytes : Nat := 1024 * 1024
  maxHeaderLineBytes : Nat := 4096
  maxHeaders : Nat := 100
  maxUriBytes : Nat := 2048
  maxMethodBytes : Nat := 16
  enableRateLimiter : Bool := true
  rateLimitPerMinute : Nat := 120
  rateLimiterShards : Nat := 64
  readTimeoutSeconds : Nat := 5
  ioThreads : Nat := 2
  workerThreads : Nat := 0
  workerThreadMultiplier : Nat := 4
  maxPendingConnections : Nat := 4096
  listenBacklog : Int := 4096
  tcpNoDelay : Bool := true
  tcpKeepAlive : Bool := true
  socketReceiveBufferBytes : Int := 0
  socketSendBufferBytes : Int := 0
  asyncAccessLog : Bool := true
  enableAccessLog : Bool := true
  accessLogSampleRate : Nat := 1
  accessLogQueueCapacity : Nat := 65536
  accessLogFlushIntervalMs : Nat := 100
  enableStaticCache : Bool := true
  staticCacheShards : Nat := 32
  staticCacheMaxEntries : Nat := 4096
  staticCacheMaxBytes : Nat := 256 * 1024 * 1024
  staticCacheMaxFileBytes : Nat := 4 * 1024 * 1024
  staticCacheRevalidateMs : Nat := 1000
  staticCacheControl : Bytes := bytes "public, max-age=60"
  denyHiddenFiles : Bool := true
  allowDotWellKnown : Bool := true
  blockSensitiveFiles : Bool := true
  enableHtaccess : Bool := false
  htaccessFilename : Bytes := bytes ".htaccess"
  maxHtaccessDepth : Nat := 8
  enablePhp : Bool := false
  phpExtension : Bytes := bytes ".php"
  phpFastcgiHost : Bytes := bytes "127.0.0.1"
  phpFastcgiPort : Nat := 9000
  phpFastcgiConnectTimeoutSeconds : Nat := 3
  phpFastcgiReadTimeoutSeconds : Nat := 10
  enableSql : Bool := false
  sqliteDatabase : Path := Path.ofBytes (bytes "sql/hydrogen.db")
  enableUploads : Bool := false
  uploadEndpoint : Bytes := bytes "/__hydrogen/upload"
  uploadDirectory : Path := Path.ofBytes (bytes "uploads")
  uploadSpoolDirectory : Path := Path.ofBytes (bytes "tmp/uploads")
  maxMultipartParts : Nat := 16
  maxUploadFileBytes : Nat := 1024 * 1024
  maxUploadFieldBytes : Nat := 16 * 1024
  enableEndpointAuth : Bool := false
  authBearerToken : Bytes := []
  authTokens : List AuthTokenRule := []
  enableAdminStatus : Bool := false
  adminStatusEndpoint : Bytes := bytes "/__hydrogen/admin/status"
  virtualHosts : List (Bytes × Path) := []
  deriving DecidableEq, Repr

def ConfigLoader.parseBool (value : Bytes) : Bool :=
  let normalized := lowercase (trim value)
  normalized == bytes "1" || normalized == bytes "true" || normalized == bytes "yes" ||
    normalized == bytes "on"

/-! ## The keys -/

/-- What a key does with its value. A conversion that throws answers the name
of the function, which is the text of its exception. -/
abbrev Setting := Bytes → ServerConfig → Except Bytes ServerConfig

section Readers

variable (value : Bytes) (config : ServerConfig)

def boolKey (set : ServerConfig → Bool → ServerConfig) : Except Bytes ServerConfig :=
  .ok (set config (ConfigLoader.parseBool value))

def textKey (set : ServerConfig → Bytes → ServerConfig) : Except Bytes ServerConfig :=
  .ok (set config value)

def pathKey (set : ServerConfig → Path → ServerConfig) : Except Bytes ServerConfig :=
  .ok (set config (Path.ofBytes value))

/-- `std::stoi(value)` -/
def intKey (set : ServerConfig → Int → ServerConfig) : Except Bytes ServerConfig :=
  match stoi value with
  | none => .error (bytes "stoi")
  | some n => .ok (set config n)

/-- `static_cast<unsigned short>(std::stoi(value))` -/
def ushortKey (set : ServerConfig → Nat → ServerConfig) : Except Bytes ServerConfig :=
  intKey value config fun config n => set config (n % 2 ^ 16).toNat

/-- `static_cast<std::size_t>(std::stoull(value))` -/
def sizeKey (set : ServerConfig → Nat → ServerConfig) : Except Bytes ServerConfig :=
  match stoull value with
  | none => .error (bytes "stoull")
  | some n => .ok (set config n)

/-- `static_cast<unsigned int>(std::stoul(value))` -/
def uintKey (set : ServerConfig → Nat → ServerConfig) : Except Bytes ServerConfig :=
  match stoull value with
  | none => .error (bytes "stoul")
  | some n => .ok (set config (n % 2 ^ 32))

end Readers

def settings : List (String × Setting) :=
  [("port", fun v c => ushortKey v c fun c x => { c with port := x }),
   ("enable_tls", fun v c => boolKey v c fun c x => { c with enableTls := x }),
   ("tls_port", fun v c => ushortKey v c fun c x => { c with tlsPort := x }),
   ("public_https_port", fun v c => ushortKey v c fun c x => { c with publicHttpsPort := x }),
   ("tls_cert_file", fun v c => pathKey v c fun c x => { c with tlsCertFile := x }),
   ("tls_key_file", fun v c => pathKey v c fun c x => { c with tlsKeyFile := x }),
   ("force_https", fun v c => boolKey v c fun c x => { c with forceHttps := x }),
   ("https_redirect_status", fun v c => intKey v c fun c x => { c with httpsRedirectStatus := x }),
   ("expose_server_header", fun v c => boolKey v c fun c x => { c with exposeServerHeader := x }),
   ("default_root", fun v c => pathKey v c fun c x => { c with defaultRoot := x }),
   ("access_log", fun v c => pathKey v c fun c x => { c with accessLog := x }),
   ("error_log", fun v c => pathKey v c fun c x => { c with errorLog := x }),
   ("audit_log", fun v c => pathKey v c fun c x => { c with auditLog := x }),
   ("audit_rotate_bytes", fun v c => sizeKey v c fun c x => { c with auditRotateBytes := x }),
   ("audit_rotate_keep", fun v c => sizeKey v c fun c x => { c with auditRotateKeep := x }),
   ("auth_secrets_file", fun v c => pathKey v c fun c x => { c with authSecretsFile := x }),
   ("auth_hot_reload", fun v c => boolKey v c fun c x => { c with authHotReload := x }),
   ("auth_reload_interval_seconds",
     fun v c => uintKey v c fun c x => { c with authReloadIntervalSeconds := x }),
   ("max_request_bytes", fun v c => sizeKey v c fun c x => { c with maxRequestBytes := x }),
   ("max_body_bytes", fun v c => sizeKey v c fun c x => { c with maxBodyBytes := x }),
   ("max_header_line_bytes", fun v c => sizeKey v c fun c x => { c with maxHeaderLineBytes := x }),
   ("max_headers", fun v c => sizeKey v c fun c x => { c with maxHeaders := x }),
   ("max_uri_bytes", fun v c => sizeKey v c fun c x => { c with maxUriBytes := x }),
   ("max_method_bytes", fun v c => sizeKey v c fun c x => { c with maxMethodBytes := x }),
   ("enable_rate_limiter", fun v c => boolKey v c fun c x => { c with enableRateLimiter := x }),
   ("rate_limit_per_minute", fun v c => sizeKey v c fun c x => { c with rateLimitPerMinute := x }),
   ("rate_limiter_shards", fun v c => sizeKey v c fun c x => { c with rateLimiterShards := x }),
   ("read_timeout_seconds", fun v c => uintKey v c fun c x => { c with readTimeoutSeconds := x }),
   ("io_threads", fun v c => sizeKey v c fun c x => { c with ioThreads := x }),
   ("worker_threads", fun v c => sizeKey v c fun c x => { c with workerThreads := x }),
   ("worker_thread_multiplier",
     fun v c => sizeKey v c fun c x => { c with workerThreadMultiplier := x }),
   ("max_pending_connections",
     fun v c => sizeKey v c fun c x => { c with maxPendingConnections := x }),
   ("listen_backlog", fun v c => intKey v c fun c x => { c with listenBacklog := x }),
   ("tcp_no_delay", fun v c => boolKey v c fun c x => { c with tcpNoDelay := x }),
   ("tcp_keep_alive", fun v c => boolKey v c fun c x => { c with tcpKeepAlive := x }),
   ("socket_receive_buffer_bytes",
     fun v c => intKey v c fun c x => { c with socketReceiveBufferBytes := x }),
   ("socket_send_buffer_bytes",
     fun v c => intKey v c fun c x => { c with socketSendBufferBytes := x }),
   ("async_access_log", fun v c => boolKey v c fun c x => { c with asyncAccessLog := x }),
   ("enable_access_log", fun v c => boolKey v c fun c x => { c with enableAccessLog := x }),
   ("access_log_sample_rate",
     fun v c => sizeKey v c fun c x => { c with accessLogSampleRate := x }),
   ("access_log_queue_capacity",
     fun v c => sizeKey v c fun c x => { c with accessLogQueueCapacity := x }),
   ("access_log_flush_interval_ms",
     fun v c => uintKey v c fun c x => { c with accessLogFlushIntervalMs := x }),
   ("enable_static_cache", fun v c => boolKey v c fun c x => { c with enableStaticCache := x }),
   ("static_cache_shards", fun v c => sizeKey v c fun c x => { c with staticCacheShards := x }),
   ("static_cache_max_entries",
     fun v c => sizeKey v c fun c x => { c with staticCacheMaxEntries := x }),
   ("static_cache_max_bytes",
     fun v c => sizeKey v c fun c x => { c with staticCacheMaxBytes := x }),
   ("static_cache_max_file_bytes",
     fun v c => sizeKey v c fun c x => { c with staticCacheMaxFileBytes := x }),
   ("static_cache_revalidate_ms",
     fun v c => uintKey v c fun c x => { c with staticCacheRevalidateMs := x }),
   ("static_cache_control", fun v c => textKey v c fun c x => { c with staticCacheControl := x }),
   ("deny_hidden_files", fun v c => boolKey v c fun c x => { c with denyHiddenFiles := x }),
   ("allow_dot_well_known", fun v c => boolKey v c fun c x => { c with allowDotWellKnown := x }),
   ("block_sensitive_files", fun v c => boolKey v c fun c x => { c with blockSensitiveFiles := x }),
   ("enable_htaccess", fun v c => boolKey v c fun c x => { c with enableHtaccess := x }),
   ("htaccess_filename", fun v c => textKey v c fun c x => { c with htaccessFilename := x }),
   ("max_htaccess_depth", fun v c => sizeKey v c fun c x => { c with maxHtaccessDepth := x }),
   ("enable_php", fun v c => boolKey v c fun c x => { c with enablePhp := x }),
   ("php_extension", fun v c => textKey v c fun c x => { c with phpExtension := x }),
   ("php_fastcgi_host", fun v c => textKey v c fun c x => { c with phpFastcgiHost := x }),
   ("php_fastcgi_port", fun v c => ushortKey v c fun c x => { c with phpFastcgiPort := x }),
   ("php_fastcgi_connect_timeout_seconds",
     fun v c => uintKey v c fun c x => { c with phpFastcgiConnectTimeoutSeconds := x }),
   ("php_fastcgi_read_timeout_seconds",
     fun v c => uintKey v c fun c x => { c with phpFastcgiReadTimeoutSeconds := x }),
   ("enable_sql", fun v c => boolKey v c fun c x => { c with enableSql := x }),
   ("sqlite_database", fun v c => pathKey v c fun c x => { c with sqliteDatabase := x }),
   ("enable_uploads", fun v c => boolKey v c fun c x => { c with enableUploads := x }),
   ("upload_endpoint", fun v c => textKey v c fun c x => { c with uploadEndpoint := x }),
   ("upload_directory", fun v c => pathKey v c fun c x => { c with uploadDirectory := x }),
   ("upload_spool_directory",
     fun v c => pathKey v c fun c x => { c with uploadSpoolDirectory := x }),
   ("max_multipart_parts", fun v c => sizeKey v c fun c x => { c with maxMultipartParts := x }),
   ("max_upload_file_bytes", fun v c => sizeKey v c fun c x => { c with maxUploadFileBytes := x }),
   ("max_upload_field_bytes",
     fun v c => sizeKey v c fun c x => { c with maxUploadFieldBytes := x }),
   ("enable_endpoint_auth", fun v c => boolKey v c fun c x => { c with enableEndpointAuth := x }),
   ("auth_bearer_token", fun v c => textKey v c fun c x => { c with authBearerToken := x }),
   ("enable_admin_status", fun v c => boolKey v c fun c x => { c with enableAdminStatus := x }),
   ("admin_status_endpoint", fun v c => textKey v c fun c x => { c with adminStatusEndpoint := x })]

def applySetting (key value : Bytes) (config : ServerConfig) : Except Bytes ServerConfig :=
  match settings.find? fun row => bytes row.1 == key with
  | some (_, set) => set value config
  | none =>
      if (bytes "auth_token.").isPrefixOf key then
        (Auth.parseTokenRule (key.drop 11) value false).map fun rule =>
          { config with authTokens := config.authTokens ++ [rule] }
      else if (bytes "vhost.").isPrefixOf key then
        .ok { config with
              virtualHosts := put (key.drop 6) (Path.ofBytes value) config.virtualHosts }
      else .ok config

/-- One line of the file. -/
def configLine (line : Bytes) (config : ServerConfig) : Except Bytes ServerConfig :=
  let line := match find? [35] line with
    | none => line
    | some comment => line.take comment
  let line := trim line
  if line = [] then .ok config
  else
    match find? [61] line with
    | none => .ok config
    | some eq => applySetting (trim (line.take eq)) (trim (line.drop (eq + 1))) config

/-- The loop over the lines. -/
def configLoop : List Bytes → ServerConfig → Except Bytes ServerConfig
  | [], config => .ok config
  | line :: rest, config =>
      match configLine line config with
      | .error e => .error e
      | .ok config => configLoop rest config

/-! ## Behind the loop -/

/-- What `load` reads besides its own arguments. -/
structure ConfigEnv where
  /-- What a file holds, `none` when it cannot be opened. -/
  content : Path → Option Bytes
  currentPath : Path := { absolute := true }
  hardwareConcurrency : Nat := 1

/-- The lambda `resolvePath`. -/
def resolvePath (configBase value : Path) : Path :=
  if value.isEmpty = false ∧ value.absolute = false then (configBase / value).lexicallyNormal
  else value

def resolvePaths (configBase : Path) (config : ServerConfig) : ServerConfig :=
  { config with
    tlsCertFile := resolvePath configBase config.tlsCertFile
    tlsKeyFile := resolvePath configBase config.tlsKeyFile
    defaultRoot := resolvePath configBase config.defaultRoot
    accessLog := resolvePath configBase config.accessLog
    errorLog := resolvePath configBase config.errorLog
    auditLog := resolvePath configBase config.auditLog
    authSecretsFile := resolvePath configBase config.authSecretsFile
    sqliteDatabase := resolvePath configBase config.sqliteDatabase
    uploadDirectory := resolvePath configBase config.uploadDirectory
    uploadSpoolDirectory := resolvePath configBase config.uploadSpoolDirectory
    virtualHosts := config.virtualHosts.map fun host => (host.1, resolvePath configBase host.2) }

/-- The checks on the inline tokens; `names` are those of the tokens before. -/
def tokenFaults : List Bytes → List AuthTokenRule → List (Bool × Bytes)
  | _, [] => []
  | names, token :: rest =>
      [(token.name.isEmpty, bytes "auth_token name cannot be empty"),
       (token.plaintextToken.isEmpty && token.sha256Hex.isEmpty,
         bytes "auth_token value cannot be empty"),
       (token.scopes.isEmpty, bytes "auth_token scopes cannot be empty"),
       (names.contains token.name, bytes "duplicate auth_token name: " ++ token.name)]
        ++ tokenFaults (names ++ [token.name]) rest

def configFaults (config : ServerConfig) : List (Bool × Bytes) :=
  [(config.ioThreads == 0, bytes "io_threads must be greater than 0"),
   (config.workerThreadMultiplier == 0, bytes "worker_thread_multiplier must be greater than 0"),
   (config.maxPendingConnections == 0, bytes "max_pending_connections must be greater than 0"),
   (config.listenBacklog ≤ 0, bytes "listen_backlog must be greater than 0"),
   (config.rateLimiterShards == 0, bytes "rate_limiter_shards must be greater than 0"),
   (config.accessLogSampleRate == 0, bytes "access_log_sample_rate must be greater than 0"),
   (config.accessLogQueueCapacity == 0, bytes "access_log_queue_capacity must be greater than 0"),
   (config.staticCacheShards == 0, bytes "static_cache_shards must be greater than 0"),
   (config.enableStaticCache &&
       (config.staticCacheMaxEntries == 0 || config.staticCacheMaxBytes == 0),
     bytes "static cache limits must be greater than 0 when enabled"),
   (config.staticCacheMaxBytes < config.staticCacheMaxFileBytes,
     bytes "static_cache_max_file_bytes must be <= static_cache_max_bytes"),
   (config.maxHtaccessDepth == 0, bytes "max_htaccess_depth must be greater than 0"),
   (config.htaccessFilename.isEmpty, bytes "htaccess_filename cannot be empty"),
   (config.phpExtension.head? != some dot, bytes "php_extension must start with dot"),
   (config.phpFastcgiPort == 0, bytes "php_fastcgi_port must be greater than 0"),
   (config.maxRequestBytes < 1024, bytes "max_request_bytes is too small"),
   (64 * 1024 * 1024 < config.maxBodyBytes,
     bytes "max_body_bytes is too large for this baseline"),
   (config.maxHeaderLineBytes < 256, bytes "max_header_line_bytes is too small"),
   (config.maxHeaders == 0, bytes "max_headers must be greater than 0"),
   (config.maxUriBytes == 0, bytes "max_uri_bytes must be greater than 0"),
   (config.httpsRedirectStatus != 301 && config.httpsRedirectStatus != 308,
     bytes "https_redirect_status must be 301 or 308"),
   (config.uploadEndpoint.head? != some slash, bytes "upload_endpoint must start with /"),
   (config.maxMultipartParts == 0, bytes "max_multipart_parts must be greater than 0"),
   (config.enableUploads &&
       (config.maxUploadFileBytes == 0 || config.maxBodyBytes < config.maxUploadFileBytes),
     bytes "max_upload_file_bytes must be greater than 0 and <= max_body_bytes"),
   (config.enableUploads && config.maxBodyBytes < config.maxUploadFieldBytes,
     bytes "max_upload_field_bytes must be <= max_body_bytes"),
   (config.enableEndpointAuth && config.authBearerToken.isEmpty && config.authTokens.isEmpty &&
       config.authSecretsFile.isEmpty,
     bytes ("auth_bearer_token, auth_token.*, or auth_secrets_file is required " ++
       "when endpoint auth is enabled"))]
    ++ tokenFaults [] config.authTokens ++
  [(0 < config.auditRotateBytes && config.auditRotateKeep == 0,
     bytes "audit_rotate_keep must be greater than 0 when rotation is enabled"),
   (86400 < config.authReloadIntervalSeconds,
     bytes "auth_reload_interval_seconds is unreasonably large"),
   (config.adminStatusEndpoint.head? != some slash,
     bytes "admin_status_endpoint must start with /"),
   (config.enableAdminStatus && !config.enableEndpointAuth,
     bytes "enable_admin_status requires enable_endpoint_auth")]

/-- The default for `worker_threads = 0`; the product is a `size_t`. -/
def chooseWorkers (env : ConfigEnv) (config : ServerConfig) : ServerConfig :=
  if config.workerThreads = 0 then
    { config with
      workerThreads :=
        max 4 (max 1 env.hardwareConcurrency * config.workerThreadMultiplier % 2 ^ 64) }
  else config

def ConfigLoader.load (env : ConfigEnv) (path : Path) : Except Bytes ServerConfig :=
  match env.content path with
  | none => .error (bytes "Cannot open config file: " ++ path.toBytes)
  | some content =>
      match configLoop (getlines content) {} with
      | .error e => .error e
      | .ok config =>
          let absolutePath := if path.absolute then path else env.currentPath / path
          let config := resolvePaths absolutePath.parentPath config
          match (if config.authSecretsFile.isEmpty then .ok []
            else Auth.loadSecretsFile config.authSecretsFile.toBytes
              (env.content config.authSecretsFile)) with
          | .error e => .error e
          | .ok _ =>
              match (configFaults config).find? (·.1) with
              | some (_, message) => .error message
              | none => .ok (chooseWorkers env config)

/-- What the loader accepts has none of the faults it looks for. -/
theorem load_faultless {env : ConfigEnv} {path : Path} {config : ServerConfig}
    (h : ConfigLoader.load env path = .ok config) : ∀ f ∈ configFaults config, f.1 = false := by
  have hsame : ∀ c, configFaults (chooseWorkers env c) = configFaults c := by
    intro c
    rw [chooseWorkers]
    split <;> rfl
  simp only [ConfigLoader.load] at h
  split at h
  · cases h
  · split at h
    · cases h
    · split at h
      · cases h
      · split at h
        · cases h
        · next hnone =>
            cases h
            rw [hsame]
            exact fun f hf => by simpa using List.find?_eq_none.mp hnone f hf

/-- The loader refuses an admin endpoint without authorization. -/
theorem load_admin_needs_auth {env : ConfigEnv} {path : Path} {config : ServerConfig}
    (h : ConfigLoader.load env path = .ok config) (hadmin : config.enableAdminStatus = true) :
    config.enableEndpointAuth = true := by
  have hfault := load_faultless h
    (config.enableAdminStatus && !config.enableEndpointAuth,
      bytes "enable_admin_status requires enable_endpoint_auth")
    (by simp only [configFaults, List.mem_append, List.mem_cons, true_or, or_true])
  simpa [hadmin] using hfault

end HydrogenHttpd.Ref

import HydrogenHttpd.Base.Assoc
import HydrogenHttpd.Base.Bits
import HydrogenHttpd.Base.Bytes
import HydrogenHttpd.Base.Chunks
import HydrogenHttpd.Base.Delivery
import HydrogenHttpd.Base.FileSystem
import HydrogenHttpd.Base.FixedWindow
import HydrogenHttpd.Base.Holders
import HydrogenHttpd.Base.Interaction
import HydrogenHttpd.Base.Lines
import HydrogenHttpd.Base.Numbers
import HydrogenHttpd.Base.Path
import HydrogenHttpd.Base.Rotation
import HydrogenHttpd.Base.Text
import HydrogenHttpd.Base.Transitions
import HydrogenHttpd.Base.Words
import HydrogenHttpd.Spec.AccessRules
import HydrogenHttpd.Spec.Cgi
import HydrogenHttpd.Spec.FastCgi
import HydrogenHttpd.Spec.FormData
import HydrogenHttpd.Spec.HeaderBlock
import HydrogenHttpd.Spec.Json
import HydrogenHttpd.Spec.Percent
import HydrogenHttpd.Spec.Sha256
import HydrogenHttpd.Spec.Uri
import HydrogenHttpd.Ref.AccessLog
import HydrogenHttpd.Ref.AuditLog
import HydrogenHttpd.Ref.Auth
import HydrogenHttpd.Ref.AuthRuntimeStore
import HydrogenHttpd.Ref.CacheWorld
import HydrogenHttpd.Ref.ClientHandlers
import HydrogenHttpd.Ref.Config
import HydrogenHttpd.Ref.Endpoints
import HydrogenHttpd.Ref.FastCgiClient
import HydrogenHttpd.Ref.Htaccess
import HydrogenHttpd.Ref.Http
import HydrogenHttpd.Ref.Multipart
import HydrogenHttpd.Ref.RateLimiter
import HydrogenHttpd.Ref.RequestReader
import HydrogenHttpd.Ref.Security
import HydrogenHttpd.Ref.Server
import HydrogenHttpd.Ref.ServerLifetime
import HydrogenHttpd.Ref.Sha256
import HydrogenHttpd.Ref.SpoolProgram
import HydrogenHttpd.Ref.StaticFileCache
import HydrogenHttpd.Ref.StaticFileCacheSteps
import HydrogenHttpd.Ref.StrictHttp
import HydrogenHttpd.Ref.ThreadPool
import HydrogenHttpd.Ref.TokenTool
import HydrogenHttpd.Ref.UploadProgram
import HydrogenHttpd.Ref.UploadSpools
import HydrogenHttpd.Proofs.AcceptedRequests
import HydrogenHttpd.Proofs.AccessInheritance
import HydrogenHttpd.Proofs.AccessLines
import HydrogenHttpd.Proofs.AccessLogOrder
import HydrogenHttpd.Proofs.AccessLogRuns
import HydrogenHttpd.Proofs.AuditRotation
import HydrogenHttpd.Proofs.AuditedDecisions
import HydrogenHttpd.Proofs.AuthStore
import HydrogenHttpd.Proofs.AuthStoreChanges
import HydrogenHttpd.Proofs.BodyLimits
import HydrogenHttpd.Proofs.CacheAccounting
import HydrogenHttpd.Proofs.CacheBudget
import HydrogenHttpd.Proofs.CacheEviction
import HydrogenHttpd.Proofs.CacheRecency
import HydrogenHttpd.Proofs.CacheSections
import HydrogenHttpd.Proofs.CacheVersions
import HydrogenHttpd.Proofs.Calls
import HydrogenHttpd.Proofs.CgiReplies
import HydrogenHttpd.Proofs.CheckedConfig
import HydrogenHttpd.Proofs.ConditionalGet
import HydrogenHttpd.Proofs.ControlCharacters
import HydrogenHttpd.Proofs.DeclaredLength
import HydrogenHttpd.Proofs.DispositionParameters
import HydrogenHttpd.Proofs.DocumentRoots
import HydrogenHttpd.Proofs.EndpointGates
import HydrogenHttpd.Proofs.FastCgiReplies
import HydrogenHttpd.Proofs.FastCgiWire
import HydrogenHttpd.Proofs.HeadRequests
import HydrogenHttpd.Proofs.HeaderAgreement
import HydrogenHttpd.Proofs.HeaderScan
import HydrogenHttpd.Proofs.HttpsOnly
import HydrogenHttpd.Proofs.HttpsRedirects
import HydrogenHttpd.Proofs.LengthMeanings
import HydrogenHttpd.Proofs.MemoryUploads
import HydrogenHttpd.Proofs.NumericSettings
import HydrogenHttpd.Proofs.PercentDecoding
import HydrogenHttpd.Proofs.RateLimits
import HydrogenHttpd.Proofs.RequestReading
import HydrogenHttpd.Proofs.RequestRoundTrip
import HydrogenHttpd.Proofs.ResponseFields
import HydrogenHttpd.Proofs.ResponseFraming
import HydrogenHttpd.Proofs.ResponseSplitting
import HydrogenHttpd.Proofs.RuleFiles
import HydrogenHttpd.Proofs.SafeNames
import HydrogenHttpd.Proofs.SecretLines
import HydrogenHttpd.Proofs.SecretLogs
import HydrogenHttpd.Proofs.Segmentation
import HydrogenHttpd.Proofs.ServerShutdown
import HydrogenHttpd.Proofs.Sha256
import HydrogenHttpd.Proofs.ShortWrites
import HydrogenHttpd.Proofs.SpoolCleanUp
import HydrogenHttpd.Proofs.SpoolIsolation
import HydrogenHttpd.Proofs.StaticSafety
import HydrogenHttpd.Proofs.StoredNames
import HydrogenHttpd.Proofs.TargetQueries
import HydrogenHttpd.Proofs.ThreadPoolRuns
import HydrogenHttpd.Proofs.TokenEntries
import HydrogenHttpd.Proofs.TokenFiles
import HydrogenHttpd.Proofs.TokenOrder
import HydrogenHttpd.Proofs.UploadAgreement
import HydrogenHttpd.Proofs.UploadAnswers
import HydrogenHttpd.Proofs.UploadFidelity
import HydrogenHttpd.Proofs.UploadNames
import HydrogenHttpd.Proofs.UploadParts
import HydrogenHttpd.Proofs.UploadQuotas
import HydrogenHttpd.Proofs.UploadRuns
import HydrogenHttpd.Proofs.UploadTraces
import HydrogenHttpd.Proofs.UploadWire
import HydrogenHttpd.Proofs.VirtualHosts

import Bittery.Lib.Except
import Bittery.Lib.Runs
import Bittery.Lib.Snapshot
import Bittery.Lib.Table
import Bittery.Server.Accounts
import Bittery.Server.Attachments
import Bittery.Server.Db
import Bittery.Server.Error
import Bittery.Server.Idempotency
import Bittery.Server.IdempotencyFacts
import Bittery.Server.Items
import Bittery.Server.ItemsFacts
import Bittery.Server.Rotation.Departure
import Bittery.Server.Rotation.Membership
import Bittery.Server.Rotation.Plans
import Bittery.Server.Sync
import Bittery.Server.Vaults
import Bittery.Server.Rotation.PlansFacts
import Bittery.Server.Rotation.DepartureFacts
import Bittery.Server.History
import Bittery.Server.Keeps
import Bittery.Server.HistoryFacts
import Bittery.Server.Rotation.PlanSteps
import Bittery.Server.Rotation.PlanSafety
import Bittery.Server.Epochs
import Bittery.Client.DeltaSync
import Bittery.Client.DeltaSyncFacts
import Bittery.Client.Announcements
import Bittery.Server.EventFeed
import Bittery.Server.Bootstrap
import Bittery.Client.CatchUp
import Bittery.Client.CatchUpFacts
import Bittery.Client.Commands
import Bittery.Client.Requests
import Bittery.Client.Retries
import Bittery.Client.AccountVaultReplica
import Bittery.Client.Projections
import Bittery.Lib.Copies
import Bittery.Client.Hydration
import Bittery.Client.CrossAccountMove
import Bittery.Client.CrossAccountMoveFacts
import Bittery.Lib.Merge
import Bittery.Client.ItemSyncEngine
import Bittery.Client.ItemSyncMethods
import Bittery.Client.ItemSyncFacts
import Bittery.Client.OfflineRetries
import Bittery.Client.ItemSyncStretches
import Bittery.Client.QueueMerge
import Bittery.Server.VerificationCodes
import Bittery.Server.VerificationSafety
import Bittery.Crypto.Srp
import Bittery.Crypto.SrpAgreement
import Bittery.Server.Billing
import Bittery.Server.BillingFacts
import Bittery.Server.BillingOrder
import Bittery.Server.Admissions
import Bittery.Server.AdmissionsSafety
import Bittery.Server.Sessions
import Bittery.Server.SessionsSafety
import Bittery.Server.Rotation.KeysFacts
import Bittery.Server.Access
import Bittery.Server.KeyEpochs
import Bittery.Client.AccessLoss
import Bittery.Server.VaultMembership
import Bittery.Client.VaultCrypto
import Bittery.Client.VaultKeyRotation
import Bittery.Client.VaultSession
import Bittery.Client.VaultSessionFacts
import Bittery.Client.VaultSessionKeys
import Bittery.Server.ShareLinks
import Bittery.Server.ShareLinksSafety
import Bittery.Client.ServerRefreshSafety
import Bittery.Client.ServerRefreshes
import Bittery.Client.SessionRefresh
import Bittery.Client.SessionRefreshSafety
import Bittery.Client.SyncManager
import Bittery.Client.ExtensionSync
import Bittery.Client.SyncLifecycle
import Bittery.Client.ExtensionCursors
import Bittery.Lib.Async
import Bittery.Lib.AsyncCleanup
import Bittery.Lib.Calls
import Bittery.Client.AccountStore
import Bittery.Client.NativeView
import Bittery.Client.AccountLocks
import Bittery.Client.ItemCache
import Bittery.Client.ItemCacheWrites
import Bittery.Client.ItemCacheMerge
import Bittery.Client.ItemCacheGenerations
import Bittery.Client.ItemCachePromotion
import Bittery.Lib.Json
import Bittery.Server.Rotation.Sizes
import Bittery.Server.Rotation.Paging
import Bittery.Client.StagedClaims
import Bittery.Client.KeyHandles
import Bittery.Client.ReKeys
import Bittery.Client.ReKeyFacts
import Bittery.Client.RotationHandles
import Bittery.Client.CeremonyHandles
import Bittery.Client.LoneCalls
import Bittery.Client.LoneDrains
import Bittery.Lib.Base64
import Bittery.Server.Pagination
import Bittery.Client.AttachmentCrypto
import Bittery.Server.AttachmentUploads
import Bittery.Crypto.SrpSafety
import Bittery.Server.ItemRows
import Bittery.Server.AttachmentVaults
import Bittery.Server.ItemCiphertexts
import Bittery.Server.UploadQuota
import Bittery.Server.UploadQuotaSafety
import Bittery.Lib.Framing
import Bittery.Lib.Utf8
import Bittery.Crypto.Identity
import Bittery.Crypto.KeyDerivation
import Bittery.Crypto.AadContext
import Bittery.Lib.Base32
import Bittery.Crypto.SecretTexts
import Bittery.Server.RateLimits
import Bittery.Server.RateLimitsFacts
import Bittery.Lib.Labels
import Bittery.Client.Hostnames
import Bittery.Client.HostnameFacts
import Bittery.Client.SiteMatching
import Bittery.Client.PasskeyOrigins
import Bittery.Server.EmailIdentity
import Bittery.Server.TravelMode
import Bittery.Client.DesktopKeychain
import Bittery.Client.AccountSync
import Bittery.Lib.Ecma
import Bittery.Client.ChunkedSecrets
import Bittery.Client.ImportCsv
import Bittery.Client.ImportCsvFacts
import Bittery.Client.ImportCsvTables
import Bittery.Lib.Mac
import Bittery.Lib.Binary64
import Bittery.Lib.ShiftRegister
import Bittery.Crypto.TotpCodes
import Bittery.Client.Totp
import Bittery.Client.TotpFacts
import Bittery.Client.TotpAgreement
import Bittery.Client.ImportTotp
import Bittery.Client.ImportTotpFacts
import Bittery.Lib.Utf8Decoder
import Bittery.Lib.Split
import Bittery.Server.SyncEvents
import Bittery.Client.SyncStream
import Bittery.Client.SyncStreamFacts
import Bittery.Client.VaultStateManager
import Bittery.Crypto.SignIn
import Bittery.Server.ItemVersions

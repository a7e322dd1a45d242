import SshWarden.BindingRuns
import SshWarden.Policy
import SshWarden.Deadlock
import SshWarden.Credentials
import SshWarden.Reconnect
import SshWarden.PinThrottle
import SshWarden.PendingSync
import SshWarden.Freshness
import SshWarden.PidFile
import SshWarden.VaultSync
import SshWarden.AutoUnlockRace
import SshWarden.HubEvents
import SshWarden.BindingUpdates
import SshWarden.SyncViews
import SshWarden.LockRequests
import SshWarden.PendingSettled
import SshWarden.SecretFiles
import SshWarden.Approvals
import SshWarden.ConnectionState
import SshWarden.SnippetRoundTrip
import SshWarden.PinAgreement
import SshWarden.NativeRepair
import SshWarden.SignedData
import SshWarden.FrameSizes
import SshWarden.CacheEnvelope
import SshWarden.ReconnectCounts
import SshWarden.UserLines
import SshWarden.AnswerPaths
import SshWarden.FailedUnlocks
import SshWarden.SessionRuns
import SshWarden.LockedSecrets
import SshWarden.LogRotation
import SshWarden.ShellExports
import SshWarden.ServerNumbers
import SshWarden.PathSafety
import SshWarden.SelectorFiles
import SshWarden.BindingMethods
import SshWarden.IncludeRemoval
import SshWarden.FallbackRate
import SshWarden.LoginSync
import SshWarden.SizePrefix
import SshWarden.DeviceIds
import SshWarden.SelectorNames
import SshWarden.ConfigQuoting
import SshWarden.KeyApprovals
import SshWarden.MemoryEpochs
import SshWarden.ForgetFinal
import SshWarden.Consent
import SshWarden.AutoLock
import SshWarden.BindDialog
import SshWarden.ControlLock
import SshWarden.PinDialog
import SshWarden.WrittenCaches
import SshWarden.VaultAccount

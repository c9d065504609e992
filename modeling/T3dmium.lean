import T3dmium.RecordAuthenticity
import T3dmium.CapturedCredentials
import T3dmium.Hijack
import T3dmium.FailedRequest
import T3dmium.PullSync
import T3dmium.Convergence
import T3dmium.VersionDiscipline
import T3dmium.Isolation
import T3dmium.RequestAgreement
import T3dmium.Replay
import T3dmium.Threads
import T3dmium.SeriesValidation
import T3dmium.Responses
import T3dmium.DefaultDeny
import T3dmium.Attribution
import T3dmium.ExitStatus
import T3dmium.Rerun
import T3dmium.DryRun
import T3dmium.Recheck
import T3dmium.Batches
import T3dmium.Rebase
import T3dmium.StoredValues
import T3dmium.HostRules
import T3dmium.PairingDisclosure
import T3dmium.Framing
import T3dmium.Evidence
import T3dmium.CipherBlocks
import T3dmium.Deps
import T3dmium.HostSpelling
import T3dmium.OwnErrors
import T3dmium.Confinement
import T3dmium.PatchText
import T3dmium.SeriesLint
import T3dmium.CacheRuns
import T3dmium.Concealment
import T3dmium.GroupSync
import T3dmium.Kills
import T3dmium.CrashSync
import T3dmium.Lifecycle
import T3dmium.Fetch
import T3dmium.Verdict
import T3dmium.SeriesOrder
import T3dmium.CacheReplay
import T3dmium.Revalidation

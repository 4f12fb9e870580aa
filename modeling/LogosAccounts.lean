import LogosAccounts.BetterSign.Reference
import LogosAccounts.Functional.Except
import LogosAccounts.Module
import LogosAccounts.Proof.BinaryValues
import LogosAccounts.Proof.CacheJournal
import LogosAccounts.Proof.CallEvents
import LogosAccounts.Proof.ClosestParent
import LogosAccounts.Proof.Confinement
import LogosAccounts.Proof.Contents
import LogosAccounts.Proof.ExportImport
import LogosAccounts.Proof.FailedCalls
import LogosAccounts.Proof.GrantKeys
import LogosAccounts.Proof.GrantPaths
import LogosAccounts.Proof.GrantRun
import LogosAccounts.Proof.HexText
import LogosAccounts.Proof.HostContract
import LogosAccounts.Proof.HostStore
import LogosAccounts.Proof.ImportIdentity
import LogosAccounts.Proof.LinkedChain
import LogosAccounts.Proof.LockDirective
import LogosAccounts.Proof.LockScript
import LogosAccounts.Proof.NamedSigner
import LogosAccounts.Proof.PendingBound
import LogosAccounts.Proof.PendingHead
import LogosAccounts.Proof.PublishedKey
import LogosAccounts.Proof.Replay
import LogosAccounts.Proof.RequestLocks
import LogosAccounts.Proof.RequestValues
import LogosAccounts.Proof.SharedHandles
import LogosAccounts.Proof.SignedEntry
import LogosAccounts.Proof.SugarAndRaw
import LogosAccounts.Proof.VerifiedCache
import LogosAccounts.Proof.WireRoundTrip

import AuthHttpsig.Proof.BaseInjective
import AuthHttpsig.Proof.Replay
import AuthHttpsig.Proof.FetchRight
import AuthHttpsig.Proof.Generation
import AuthHttpsig.Proof.RotationRate
import AuthHttpsig.Proof.ConfigSafe
import AuthHttpsig.Proof.RedisWorld
import AuthHttpsig.Proof.AgentLines
import AuthHttpsig.Proof.BaseComplete
import AuthHttpsig.Proof.FailOpen
import AuthHttpsig.Proof.LocationDecision
import AuthHttpsig.Proof.CacheService
import AuthHttpsig.Proof.NonceReclaim
import AuthHttpsig.Proof.NonceLocations
import AuthHttpsig.Proof.RedisBackoff
import AuthHttpsig.Proof.AgentAuthority
import AuthHttpsig.Proof.ReplayKeys
import AuthHttpsig.Proof.InternalErrors
import AuthHttpsig.Proof.NonceMemo
import AuthHttpsig.Proof.SilentFailures
import AuthHttpsig.Proof.HostGate
import AuthHttpsig.Proof.QueryParam
import AuthHttpsig.Proof.CoveredComponents
import AuthHttpsig.Proof.KeyTrust
import AuthHttpsig.Proof.DirectoryTtl
import AuthHttpsig.Proof.RequestTarget
import AuthHttpsig.Proof.KeysLru
import AuthHttpsig.Proof.TreeLookup
import AuthHttpsig.Proof.BlockBalance

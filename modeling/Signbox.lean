import Signbox.Proof.Evaluate
import Signbox.Proof.DenyClosed
import Signbox.Proof.TwoPass
import Signbox.Proof.Widening
import Signbox.Guard.Window
import Signbox.Proof.Restrict
import Signbox.Proof.KillSwitch
import Signbox.Proof.Mediation
import Signbox.Proof.QuotaSafety
import Signbox.Proof.Rollback
import Signbox.Proof.Served
import Signbox.Proof.AuditTrail
import Signbox.Proof.Replay
import Signbox.Guard.HashChain
import Signbox.Proof.AuditLog
import Signbox.Proof.ContractSafety
import Signbox.Guard.Rounding
import Signbox.Guard.Walk
import Signbox.Proof.Authoring
import Signbox.Proof.LimitFields
import Signbox.Proof.OpenSave
import Signbox.Guard.Steps
import Signbox.Proof.Activation
import Signbox.Proof.AssetText
import Signbox.Proof.Deletion
import Signbox.Proof.Finality
import Signbox.Proof.OnboardPayload
import Signbox.Proof.SignedSource
import Signbox.Guard.Asking
import Signbox.Proof.Explain
import Signbox.Guard.Sealing
import Signbox.Proof.Base64
import Signbox.Proof.Keystore
import Signbox.Guard.Framing
import Signbox.Guard.Wiring
import Signbox.Proof.AuthorityCache
import Signbox.Proof.Connection
import Signbox.Proof.Freshness
import Signbox.Proof.Landed
import Signbox.Proof.Loadable
import Signbox.Proof.Rpc
import Signbox.Proof.Unlock
import Signbox.Guard.Memo
import Signbox.Proof.Enforced
import Signbox.Proof.Started

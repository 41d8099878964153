import Signbox.Spec.Text
import Mathlib.Logic.Function.Basic

/-!
# Onboarding

`onboarding/flow.ts`, and what it uses of `keystore/encryptedFile.ts`: an agent key is sealed in
a temporary container before the authority sees the request, and promoted to the keystore once
the request is confirmed and verified on the chain. `runOnboarding` is generic in the effects of
its dependencies, as in the source. `Host` gives them effects: files on a disk, calls whose
outcomes are given, and a record of every moment of the run.
-/

namespace Signbox

/-! ## Errors -/

/-- The codes of an `OnboardingError`. The flow raises five of them; `agentMissing` and `aborted`
are raised nowhere. -/
inductive OnboardingCode where
  | authorityMissing
  | agentExists
  | agentMissing
  | policyExists
  | timeout
  | verificationFailed
  | aborted
  deriving DecidableEq

/-- The code of a file-system error. -/
inductive Errno where
  | EEXIST
  | ENOENT
  | other (errno : ℕ)
  deriving DecidableEq

/-- What a run throws: an error of its own, one of the keystore or of the file system, or
whatever a dependency throws. -/
inductive Thrown where
  | onboarding (code : OnboardingCode) (message : JsString)
  | fileExists (message : JsString)
  | system (code : Errno)
  | other (message : JsString)
  deriving DecidableEq

/-! ## Dependencies -/

/-- Whether the key may leave the keystore again, as its metadata records it. -/
inductive ExportPolicy where
  | nonExportable
  | encryptedBackupOnly
  deriving DecidableEq

/-- What an onboarding is asked for: the account to create, its authority, and where the key is to
be kept. -/
structure OnboardingInput where
  chain : ChainContext
  authority : JsString
  agent : JsString
  permission : JsString
  exportPolicy : ExportPolicy
  keystorePath : JsString
  ramBytes : Option JsNumber

/-- One line of the summary that the authority is shown. -/
structure ActionSummary where
  contract : JsString
  action : JsString
  detail : JsString
  deriving DecidableEq

/-- The signing request, its summary, and where it can be approved. -/
structure BuiltRequest where
  esrUri : JsString
  summary : List ActionSummary
  companionUrl : Option JsString

/-- What the check of the landed state says, with a reason when it fails. -/
structure VerificationResult where
  ok : Bool
  reason : Option JsString

/-- A fresh key pair. -/
structure KeyPair where
  wif : JsString
  publicKey : JsString

/-- What a keystore says about its key without a passphrase. The container covers it, so it cannot
be changed unnoticed. -/
structure KeystoreMetadata where
  publicKey : JsString
  exportPolicy : ExportPolicy
  chain : ChainContext
  agent : JsString
  permission : JsString
  createdAt : JsString
  deriving DecidableEq

/-- What the request is built from. -/
structure BuildRequestArgs where
  input : OnboardingInput
  agentPublicKey : JsString
  emptyPolicyJson : JsString
  emptyPolicyHash : JsString

/-- What the landed state is checked against. -/
structure VerifyLandedArgs where
  input : OnboardingInput
  agentPublicKey : JsString
  emptyPolicyHash : JsString

/-- Chain-specific operations: what is read of the chain before, during and after an onboarding,
and the request itself. Each of them may throw. -/
structure OnboardingBackend (m : Type → Type) where
  authorityExists (authority : JsString) : m Bool
  agentAccountExists (agent : JsString) : m Bool
  policyRowExists (agent : JsString) : m Bool
  buildRequest (args : BuildRequestArgs) : m BuiltRequest
  /-- The id of the landed transaction, or none on deadline. -/
  waitForConfirmation (agent : JsString) (deadlineMs : ℤ) : m (Option JsString)
  verifyLanded (args : VerifyLandedArgs) : m VerificationResult

/-- The operations on keystore files that the flow is given: a temporary container is made,
promoted or destroyed. -/
structure KeystoreOps (m : Type → Type) where
  createTemp (path : JsString) (secret passphrase : List UInt8) (metadata : KeystoreMetadata) : m Unit
  promote (tempPath finalPath : JsString) : m Unit
  destroy (path : JsString) : m Unit

/-- All that the flow calls, over the effects of its host. The flow itself has no other effect. -/
structure OnboardingDeps (m : Type → Type) where
  backend : OnboardingBackend m
  generateKey : m KeyPair
  getPassphrase : m (List UInt8)
  keystore : KeystoreOps m
  present (request : BuiltRequest) : m Unit
  now : m ℤ
  /-- `new Date(now()).toISOString()`. -/
  isoNow : m JsString
  /-- The canonical text of a policy, and its hash. -/
  canonicalize (policy : Json) : m JsString
  canonicalSha256Hex (policy : Json) : m JsString
  sessionTimeoutMs : Option ℤ

/-- What a completed onboarding returns. -/
structure OnboardingResult where
  agent : JsString
  authority : JsString
  permission : JsString
  publicKey : JsString
  keystorePath : JsString
  exportPolicy : ExportPolicy
  txid : JsString

/-- How long the confirmation is waited for where nothing else is configured. -/
def DEFAULT_SESSION_TIMEOUT_MS : ℤ := 120000

/-- `emptyPolicy`, as a value. -/
def emptyPolicyValue (chainName chainId : JsString) : Json :=
  .obj .ordinary [(js "schemaVersion", .num (.finite (.ofNat 1))), (js "default", .str (js "deny")),
    (js "chain", .obj .ordinary [(js "name", .str chainName), (js "chainId", .str chainId)]),
    (js "rules", .arr [])]

/-! ## The flow -/

section Flow

variable {m : Type → Type} [Monad m] [MonadExceptOf Thrown m]

/-- The path of the container while the request is not confirmed. It lies next to the final one. -/
def tempPathOf (keystorePath : JsString) : JsString := keystorePath ++ js ".onboarding"

/-- Phase A: the preconditions. They are read before a key exists, so a failure leaves nothing
behind. -/
def checkPreconditions (input : OnboardingInput) (deps : OnboardingDeps m) : m Unit := do
  if !(← deps.backend.authorityExists input.authority) then
    throw (.onboarding .authorityMissing (js "authority account does not exist"))
  if ← deps.backend.agentAccountExists input.agent then
    throw (.onboarding .agentExists (js "agent account already exists"))
  if ← deps.backend.policyRowExists input.agent then
    throw (.onboarding .policyExists (js "a policy already exists for this agent"))

/-- Phase A': the key is sealed in the temporary container. From here on it is on disk, and the
request can be shown. -/
def sealKey (input : OnboardingInput) (deps : OnboardingDeps m) (key : KeyPair) : m Unit := do
  let passphrase ← deps.getPassphrase
  let createdAt ← deps.isoNow
  deps.keystore.createTemp (tempPathOf input.keystorePath) (utf8 key.wif) passphrase
    { publicKey := key.publicKey
      exportPolicy := input.exportPolicy
      chain := input.chain
      agent := input.agent
      permission := input.permission
      createdAt := createdAt }

/-- Phases B and C: the request is presented, confirmed and verified, and the key promoted.
Everything here is inside of the `try`. -/
def confirmKey (input : OnboardingInput) (deps : OnboardingDeps m) (key : KeyPair)
    (emptyPolicyJson emptyPolicyHash : JsString) : m OnboardingResult := do
  let request ← deps.backend.buildRequest ⟨input, key.publicKey, emptyPolicyJson, emptyPolicyHash⟩
  deps.present request
  let deadlineMs := (← deps.now) + deps.sessionTimeoutMs.getD DEFAULT_SESSION_TIMEOUT_MS
  match ← deps.backend.waitForConfirmation input.agent deadlineMs with
  | none => throw (.onboarding .timeout (js "onboarding was not confirmed in time"))
  | some txid =>
    let verified ← deps.backend.verifyLanded ⟨input, key.publicKey, emptyPolicyHash⟩
    if !verified.ok then
      throw (.onboarding .verificationFailed (js "on-chain result does not match the request" ++
        match verified.reason with
        | none => []
        | some reason => if reason = [] then [] else js ": " ++ reason))
    deps.keystore.promote (tempPathOf input.keystorePath) input.keystorePath
    return ⟨input.agent, input.authority, input.permission, key.publicKey, input.keystorePath,
      input.exportPolicy, txid⟩

/-- The flow: check, generate, seal, and have the request confirmed. What is thrown after sealing
destroys the temporary container and is thrown on. -/
def runOnboarding (input : OnboardingInput) (deps : OnboardingDeps m) : m OnboardingResult := do
  checkPreconditions input deps
  let key ← deps.generateKey
  let policy := emptyPolicyValue input.chain.chain input.chain.chainId
  let emptyPolicyJson ← deps.canonicalize policy
  let emptyPolicyHash ← deps.canonicalSha256Hex policy
  sealKey input deps key
  tryCatch (confirmKey input deps key emptyPolicyJson emptyPolicyHash) fun error => do
    -- any failure destroys the temporary container
    deps.keystore.destroy (tempPathOf input.keystorePath)
    throw error

end Flow

/-! ## The disk -/

/-- A file, by what is sealed in it. A key can be recovered from a container only. -/
inductive KeyFile where
  | container (secret passphrase : List UInt8) (metadata : KeystoreMetadata)
  | other (content : List UInt8)
  deriving DecidableEq

/-- The files, by their paths. -/
abbrev Disk := JsString → Option KeyFile

/-- The files, their states at every moment of the run so far, and how many moments went by
before the request was presented. -/
structure HostWorld where
  disk : Disk
  moments : List Disk
  presentedAt : Option ℕ

/-- Runs on the host: they change its world and may throw. -/
abbrev Host := EStateM Thrown HostWorld

namespace HostWorld

/-- A moment passes. -/
def tick (w : HostWorld) : HostWorld := { w with moments := w.moments ++ [w.disk] }

/-- The world with one file changed. -/
def setFile (w : HostWorld) (path : JsString) (file : Option KeyFile) : HostWorld :=
  { w with disk := Function.update w.disk path file }

/-- The world at the start of a run, with no moment recorded yet. -/
def start (disk : Disk) : HostWorld := ⟨disk, [], none⟩

end HostWorld

/-- A call with the given outcome. -/
def answer {α : Type} (outcome : Except Thrown α) : Host α := fun w =>
  match outcome with
  | .ok a => .ok a w.tick
  | .error e => .error e w.tick

/-- What `writeFileSync` does to a path that is free. -/
inductive WriteOutcome where
  | written
  | refused (errno : ℕ)
  /-- The file is created, and writing it fails. -/
  | torn (content : List UInt8) (errno : ℕ)

/-- `writeFileSync(path, …, { flag: "wx" })`. -/
def writeNew (outcome : WriteOutcome) (path : JsString) (file : KeyFile) : Host Unit := fun w =>
  match w.disk path, outcome with
  | some _, _ => .error (.system .EEXIST) w.tick
  | none, .written => .ok () (w.setFile path file).tick
  | none, .refused errno => .error (.system (.other errno)) w.tick
  | none, .torn content errno =>
    .error (.system (.other errno)) (w.setFile path (some (.other content))).tick

/-- `linkSync`; a fault is an error other than `EEXIST` and `ENOENT`. On success the file is found
under both paths. -/
def linkSync (fault : Option ℕ) (existing new : JsString) : Host Unit := fun w =>
  match w.disk existing, w.disk new, fault with
  | none, _, _ => .error (.system .ENOENT) w.tick
  | some _, some _, _ => .error (.system .EEXIST) w.tick
  | some _, none, some errno => .error (.system (.other errno)) w.tick
  | some file, none, none => .ok () (w.setFile new file).tick

/-- Removing a file, which fails where it is missing or the file system refuses. -/
def unlinkSync (fault : Option ℕ) (path : JsString) : Host Unit := fun w =>
  match w.disk path, fault with
  | none, _ => .error (.system .ENOENT) w.tick
  | some _, some errno => .error (.system (.other errno)) w.tick
  | some _, none => .ok () (w.setFile path none).tick

/-! ## The keystore -/

/-- The outcomes of every call of a run, and the window it is given. -/
structure Outcomes where
  sessionTimeoutMs : Option ℤ
  authorityExists : Except Thrown Bool
  agentAccountExists : Except Thrown Bool
  policyRowExists : Except Thrown Bool
  generateKey : Except Thrown KeyPair
  canonicalize : Except Thrown JsString
  canonicalSha256Hex : Except Thrown JsString
  getPassphrase : Except Thrown (List UInt8)
  isoNow : Except Thrown JsString
  deriveKey : Except Thrown Unit
  mkdir : Option Errno
  write : WriteOutcome
  buildRequest : Except Thrown BuiltRequest
  present : Except Thrown Unit
  now : Except Thrown ℤ
  waitForConfirmation : Except Thrown (Option JsString)
  verifyLanded : Except Thrown VerificationResult
  link : Option ℕ
  unlink : Option ℕ
  destroy : Option ℕ

section Keystore

variable (o : Outcomes)

/-- A path that is taken is an error of the keystore. -/
def orFileExists (path : JsString) (run : Host Unit) : Host Unit :=
  tryCatch run fun error =>
    if error = .system .EEXIST then throw (.fileExists (js "keystore already exists: " ++ path))
    else throw error

/-- Writing a new container, which never replaces a file that is there. A torn write leaves a file
that is no container. -/
def createKeystoreFile (path : JsString) (secret passphrase : List UInt8)
    (metadata : KeystoreMetadata) : Host Unit := do
  answer o.deriveKey
  orFileExists path do
    answer (match o.mkdir with | none => .ok () | some e => .error (.system e))
    writeNew o.write path (.container secret passphrase metadata)

/-- Linking the container under its final path and then removing the temporary one. The two are
separate calls, so a failure can fall between them. -/
def promoteKeystoreFile (tempPath finalPath : JsString) : Host Unit := do
  orFileExists finalPath (linkSync o.link tempPath finalPath)
  unlinkSync o.unlink tempPath

/-- Removing a container, where a missing one is no error. Any other failure is thrown in place of
the error that led here. -/
def destroyKeystoreFile (path : JsString) : Host Unit :=
  tryCatch (unlinkSync o.destroy path) fun error =>
    if error = .system .ENOENT then pure () else throw error

/-- The authority has the request from here on, also if presenting it fails. The moment is recorded
for what may land after it. -/
def present : Host Unit := fun w => answer o.present { w with presentedAt := some w.moments.length }

/-- The dependencies of a run whose calls have these outcomes. -/
def hostDeps : OnboardingDeps Host where
  backend :=
    { authorityExists := fun _ => answer o.authorityExists
      agentAccountExists := fun _ => answer o.agentAccountExists
      policyRowExists := fun _ => answer o.policyRowExists
      buildRequest := fun _ => answer o.buildRequest
      waitForConfirmation := fun _ _ => answer o.waitForConfirmation
      verifyLanded := fun _ => answer o.verifyLanded }
  generateKey := answer o.generateKey
  getPassphrase := answer o.getPassphrase
  keystore := ⟨createKeystoreFile o, promoteKeystoreFile o, destroyKeystoreFile o⟩
  present := fun _ => present o
  now := answer o.now
  isoNow := answer o.isoNow
  canonicalize := fun _ => answer o.canonicalize
  canonicalSha256Hex := fun _ => answer o.canonicalSha256Hex
  sessionTimeoutMs := o.sessionTimeoutMs

/-- A run on a disk. -/
def onboard (input : OnboardingInput) (disk : Disk) : EStateM.Result Thrown HostWorld OnboardingResult :=
  runOnboarding input (hostDeps o) (.start disk)

end Keystore

end Signbox

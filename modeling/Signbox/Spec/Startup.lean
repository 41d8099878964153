import Signbox.Spec.Daemon
import Signbox.Spec.Signer
import Signbox.Spec.Unlock

/-!
# Starting the daemon

`startDaemonFromConfig` of `cli/daemonRunner.ts`, with `readKeystoreMetadata` of
`keystore/encryptedFile.ts` and `verifyKeyBinding` of `keystore/encryptedFileBackend.ts`. The
keystores of a directory are unlocked, and for each of them an agent is registered. The seams of
the tests and the first refresh of the policies are left out.
-/

namespace Signbox

/-! ## Configuration -/

structure BroadcastConfig where
  enabled : Bool
  agents : List JsString

structure SignBoxConfig where
  chain : JsString
  network : JsString
  chainId : JsString
  keystoreDir : JsString
  /-- Omitted: no broadcasts. -/
  broadcast : Option BroadcastConfig

def chainContextOf (config : SignBoxConfig) : ChainContext :=
  ⟨config.chain, config.network, config.chainId⟩

/-- `config.broadcast ?? { enabled: false, agents: [] }`. -/
def SignBoxConfig.broadcastCfg (config : SignBoxConfig) : BroadcastConfig :=
  config.broadcast.getD ⟨false, []⟩

namespace Startup

/-! ## Errors -/

/-- What the start throws: an error of the keystore, of its keys, or of the file system. No daemon
runs after any of them. -/
inductive Failure where
  | validation (message : JsString)
  | keystore (error : Keystore.Failure)
  | key (error : Signer.Failure)
  | system (code : Errno)
  deriving DecidableEq

/-! ## The binding of a key -/

/-- What is read of the disk while the key of one agent is verified: how the directory is listed,
and for each file what has happened to the files since the start, and how it is read. -/
structure Reading {Key : Type} (r : Keystore.Runtime Key) where
  listing : Except Keystore.Failure (Option Keystore.Directory)
  before : JsString → List (Keystore.Event r)
  read : JsString → Option Errno

section Binding

variable {Key : Type} {r : Keystore.Runtime Key}

def unreadable (filePath : JsString) : Keystore.Failure :=
  .keystore .badFormat (js "cannot read keystore metadata: " ++ filePath)

def noMetadata (filePath : JsString) : Keystore.Failure :=
  .keystore .badFormat (js "keystore has no readable metadata: " ++ filePath)

/-- The metadata of a file, in the clear: no passphrase is needed, and the seal is not opened. So
it is no proof of the key. -/
def readKeystoreMetadata (w : Keystore.World Key) (read : Option Errno) (filePath : JsString) :
    Except Keystore.Failure JsValue :=
  match (if read = none then w.files filePath else none).bind fun raw =>
      Json.parse JsNumber.ofLiteral (decodeUtf8 raw.content) with
  | none => .error (unreadable filePath)
  | some file => do
    let version ← Keystore.property file (js "version")
    if version.num? ≠ some (.finite (.ofNat 1)) then .error (noMetadata filePath)
    else
      match ← Keystore.property file (js "meta") with
      | .undefined => .error (noMetadata filePath)
      -- `file.meta.agent` of `null`
      | .json .null => .error (.script .type)
      | metadata =>
        if (metadata.property (js "agent")).str? = none then .error (noMetadata filePath)
        else .ok metadata

variable (files : JsString → Option Keystore.File) (keystoreDir : JsString) (reading : Reading r)

def listKeys : Except Keystore.Failure (List JsValue) := do
  let listing ← reading.listing
  (Keystore.discoverKeystoreFiles keystoreDir listing).mapM fun path =>
    readKeystoreMetadata ((Keystore.World.start Key files).run (reading.before path))
      (reading.read path) path

/-- The metadata of the first file that names the key. The files are read again, after they were
unlocked. -/
def readMetadata (keyId : JsString) : Except Keystore.Failure (Option JsValue) := do
  let keys ← listKeys files keystoreDir reading
  return keys.find? fun metadata => (metadata.property (js "agent")).str? = some keyId

variable (c : Signer.Crypto)

/-- The public key of a scalar, in the form that was declared. Both forms name the same key. -/
def derivePublicKey (privateKey : List UInt8) (declared : JsString) :
    Except Signer.Failure JsString :=
  if (js "EOS").isPrefixOf declared then Signer.derivePublicKeyLegacy c privateKey
  else Signer.derivePublicKeyK1 c privateKey

def verifyKeyBinding (secrets : Signer.Secrets) (keyId : JsString) : Except Failure Bool := do
  match ← (readMetadata files keystoreDir reading keyId).mapError Failure.keystore with
  | none => return false
  | some metadata =>
    let privateKey ← (Signer.privateKeyOf c secrets keyId).mapError Failure.key
    match (metadata.property (js "publicKey")).str? with
    | none => .error (.keystore (.script .type))
    | some declared =>
      let derived ← (derivePublicKey c privateKey declared).mapError Failure.key
      return derived = declared

end Binding

/-! ## Registration -/

/-- `registerAgent` of the daemon. An agent is registered once. -/
def registerAgent (s : DaemonState) (runtime : AgentRuntime) : Except Failure DaemonState :=
  match s.runtime? runtime.agent with
  | some _ => .error (.validation (js "agent already registered: " ++ runtime.agent))
  | none => .ok { s with agents := s.agents ++ [runtime] }

/-- `Buffer.toString("base64url")`. -/
def toBase64Url (bytes : List UInt8) : JsString :=
  ((toBase64 bytes).filter (· ≠ unit '=')).map fun u =>
    if u = unit '+' then unit '-' else if u = unit '/' then unit '_' else u

/-- A text of the metadata. That of a container is one. -/
def textOf (metadata : JsValue) (key : JsString) : Except Failure JsString :=
  match (metadata.property key).str? with
  | some text => .ok text
  | none => .error (.keystore (.script .type))

/-- `meta.chain.chainId`. -/
def chainIdOf (metadata : JsValue) : Except Failure JsValue :=
  let chain := metadata.property (js "chain")
  if chain.isNullish then .error (.keystore (.script .type))
  else .ok (chain.property (js "chainId"))

/-- The runtime of an agent: with a placeholder for its policy, and sign-only unless it is listed.
The cache provides the policy it is decided under. -/
def runtimeOf (config : SignBoxConfig) (agent permission publicKey token : JsString) :
    AgentRuntime where
  agent := agent
  permission := permission
  chain := chainContextOf config
  policy := emptyPolicy config.chain config.chainId
  policyVersion := 0
  enabled := true
  token := utf8 token
  key := ⟨agent, publicKey, chainContextOf config, agent, permission⟩
  capabilities := some ⟨true, config.broadcastCfg.enabled && config.broadcastCfg.agents.contains agent⟩

/-- What the start meets: the files, the prompts, the directory, the random bytes of a token, and
whether the token directory, a token file and the sockets are refused. -/
structure Host {Key : Type} (r : Keystore.Runtime Key) where
  files : JsString → Option Keystore.File
  attempts : JsString → ℕ → Keystore.Attempt r
  listing : Except Keystore.Failure (Option Keystore.Directory)
  reading : JsString → Reading r
  randomBytes : JsString → List UInt8
  tokenDir : Option Errno
  tokenFile : JsString → Option Errno
  listen : Option Failure

/-- An operation that the system may refuse, such as writing the file of a token. -/
def orRefused (outcome : Option Errno) : Except Failure Unit :=
  match outcome with
  | none => .ok ()
  | some errno => .error (.system errno)

section Start

variable {Key : Type} [DecidableEq Key] {r : Keystore.Runtime Key} (host : Host r)
variable (c : Signer.Crypto) (config : SignBoxConfig)

/-- One turn of the loop over the keys that were unlocked: the chain, the binding of the key and
the token, then the runtime. -/
def register (secrets : Signer.Secrets) (s : DaemonState) (metadata : JsValue) :
    Except Failure DaemonState := do
  let agent ← textOf metadata (js "agent")
  let chainId ← chainIdOf metadata
  if chainId.str? ≠ some config.chainId then
    throw (.validation (js "keystore for agent \"" ++ agent ++
      js "\" is bound to another chain (INV-013)"))
  let bound ← verifyKeyBinding host.files config.keystoreDir (host.reading agent) c secrets agent
  if bound = false then
    throw (.validation (js "keystore for agent \"" ++ agent ++
      js "\" fails its key binding (private key ≠ declared public key)"))
  orRefused (host.tokenFile agent)
  let permission ← textOf metadata (js "permission")
  let publicKey ← textOf metadata (js "publicKey")
  registerAgent s (runtimeOf config agent permission publicKey (toBase64Url (host.randomBytes agent)))

/-- The daemon as it is wired: with the defaults, and a broadcaster only where it is enabled. All
its other parts are there. -/
def daemonOf : SignBoxDaemon where
  cfg := SignBoxDaemon.DEFAULTS
  deps := {
    decode := decodeXprTransaction
    dialect := xprDialect
    broadcaster := config.broadcastCfg.enabled
    relay := true
    quotas := true
    policyCache := true
    audit := true
    authority := true }

/-- The options of the signer: no other life time of a transaction is asked for. -/
def signerOptions : Signer.XprSignerOptions := ⟨config.chainId, none⟩

structure RunningDaemon where
  daemon : SignBoxDaemon
  state : DaemonState
  /-- The keys the signer of the daemon signs with. -/
  secrets : Signer.Secrets

/-- `getChain`: one chain is registered, and any other name is refused before a file is read. -/
def getChain (name : JsString) : Except Failure Unit :=
  if name = js "XPR" then .ok ()
  else .error (.validation (js "unsupported chain \"" ++ name ++ js "\" — registered: XPR"))

/-- What is done inside of the `try`: the keys are unlocked and registered, and the sockets opened
last. -/
def assemble (journal : QuotaJournal) : Except Failure RunningDaemon := do
  orRefused host.tokenDir
  let (unlocked, session) := Keystore.unlock r host.files host.attempts config.keystoreDir host.listing
  let keys ← unlocked.mapError Failure.keystore
  let state ← keys.foldlM (register host c config session.secrets) ⟨[], .empty, journal⟩
  match host.listen with
  | some error => .error error
  | none => return ⟨daemonOf config, state, session.secrets⟩

/-- The daemon that is started, with the journal it finds: reservations of an earlier process still
hold their capacity. -/
def startDaemonFromConfig (journal : QuotaJournal) : Except Failure RunningDaemon := do
  getChain config.chain
  assemble host c config journal

end Start

end Startup

end Signbox

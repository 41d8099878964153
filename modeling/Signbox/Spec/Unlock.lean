import Signbox.Spec.Keystore

/-!
# Unlocking

`unlock` of `keystore/encryptedFileBackend.ts`: each keystore file of a directory is opened with a
passphrase that is asked for, at most three times, and the secrets are held by agent.
-/

namespace Signbox

namespace Keystore

def MAX_PASSPHRASE_ATTEMPTS : ℕ := 3

/-- The names in a directory. No two files of it have the same name. -/
structure Directory where
  names : List JsString
  nodup : names.Nodup

/-- One turn of the loop for a file: how `passphraseFor` settles, what has happened to the files
since the start, and how the file answers. -/
structure Attempt {Key : Type} (r : Runtime Key) where
  prompt : Except Failure (List UInt8)
  before : List (Event r)
  access : Access

/-- The secrets that are held by agent, and the files that were tried, one entry a passphrase. The
second is a record of the run, which the backend does not keep. -/
structure Session where
  secrets : List (JsString × List UInt8)
  tried : List JsString

/-- How the loop for a file ends. A prompt that fails is told apart, since it is outside of the
`try`. -/
inductive Opening where
  | opened (secret : List UInt8) (metadata : JsValue)
  /-- The prompt rejects. -/
  | promptFailed (error : Failure)
  /-- The file does not open, and another passphrase is not asked for. -/
  | openFailed (error : Failure)

def Failure.isDecryptFailed : Failure → Bool
  | .keystore .decryptFailed _ => true
  | _ => false

/-- `join(keystoreDir, name)`, for a directory whose path is normal and does not end in a slash:
`path.join` would also normalise the path. -/
def join (keystoreDir name : JsString) : JsString := keystoreDir ++ unit '/' :: name

/-- The keystore files of a directory; none if it does not exist. They are sorted by their
names. -/
def discoverKeystoreFiles (keystoreDir : JsString) (listing : Option Directory) : List JsString :=
  match listing with
  | none => []
  | some directory =>
    ((directory.names.filter fun name => (js ".keystore.json").isSuffixOf name).insertionSort
      fun a b => JsString.le a b).map (join keystoreDir)

section Unlock

variable {Key : Type} [DecidableEq Key] (r : Runtime Key) (files : JsString → Option File)
  (attempts : JsString → ℕ → Attempt r)

/-- The loop for a file, from an attempt on, and how many passphrases it tries. Only a failed
decryption is tried again. -/
def openWithRetries (keystorePath : JsString) (attempt : ℕ) : Opening × ℕ :=
  let turn := attempts keystorePath attempt
  match turn.prompt with
  | .error error => (.promptFailed error, 0)
  | .ok passphrase =>
    match openKeystoreFile r ((World.start Key files).run turn.before) turn.access keystorePath
        passphrase with
    | .ok (secret, metadata) => (.opened secret metadata, 1)
    | .error error =>
      if _h : error.isDecryptFailed = true ∧ attempt < MAX_PASSPHRASE_ATTEMPTS then
        -- asked for again
        let more := openWithRetries keystorePath (attempt + 1)
        (more.1, more.2 + 1)
      else (.openFailed error, 1)
termination_by MAX_PASSPHRASE_ATTEMPTS - attempt
decreasing_by omega

/-- `opened.meta.agent`. The metadata of a container has one. -/
def agentOf (metadata : JsValue) : Except Failure JsString :=
  match (metadata.readObject (js "agent")).str? with
  | some agent => .ok agent
  | none => .error (.script .type)

/-- The loop over the files. A file that does not open clears what was held, and so does a second
file of an agent. -/
def unlockFiles : List JsString → Session → List JsValue → Except Failure (List JsValue) × Session
  | [], s, unlocked => (.ok unlocked, s)
  | keystorePath :: rest, s, unlocked =>
    let opening := openWithRetries r files attempts keystorePath 1
    let tried := s.tried ++ List.replicate opening.2 keystorePath
    match opening.1 with
    -- the prompt is outside of the `try`
    | .promptFailed error => (.error error, ⟨s.secrets, tried⟩)
    | .openFailed error => (.error error, ⟨[], tried⟩)
    | .opened secret metadata =>
      match agentOf metadata with
      | .error error => (.error error, ⟨s.secrets, tried⟩)
      | .ok agent =>
        if s.secrets.any fun held => held.1 = agent then
          (.error (.keystore .badFormat (js "duplicate keystore for agent \"" ++ agent ++ js "\"")),
            ⟨[], tried⟩)
        else unlockFiles rest ⟨s.secrets ++ [(agent, secret)], tried⟩ (unlocked ++ [metadata])

/-- A backend that was just made is unlocked. Listing the directory may fail, before anything is
asked for. -/
def unlock (keystoreDir : JsString) (listing : Except Failure (Option Directory)) :
    Except Failure (List JsValue) × Session :=
  match listing with
  | .error error => (.error error, ⟨[], []⟩)
  | .ok listing =>
    unlockFiles r files attempts (discoverKeystoreFiles keystoreDir listing) ⟨[], []⟩ []

end Unlock

end Keystore

end Signbox

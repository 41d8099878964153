import Signbox.Guard.Sealing
import Signbox.Spec.Base64
import Signbox.Spec.Number
import Signbox.Spec.Onboarding

/-!
# Keystore files

`keystore/encryptedFile.ts`: a secret is encrypted under a key derived from a passphrase, with the
canonical text of the file's header as additional data. The cipher is ideal: what opens is looked
up in the list of everything sealed so far. The disk is anybody's: between two calls its files may
change in any way.
-/

namespace Signbox

/-- The number a value is, if it is one (`typeof value === "number"`). -/
def JsValue.num? : JsValue → Option JsNumber
  | .json (.num n) => some n
  | _ => none

def ExportPolicy.toText : ExportPolicy → JsString
  | .nonExportable => js "non-exportable"
  | .encryptedBackupOnly => js "encrypted-backup-only"

/-- The metadata, as a value. -/
def KeystoreMetadata.toJson (m : KeystoreMetadata) : Json :=
  .obj .ordinary [(js "publicKey", .str m.publicKey),
    (js "exportPolicy", .str m.exportPolicy.toText),
    (js "chain", .obj .ordinary [(js "chain", .str m.chain.chain),
      (js "network", .str m.chain.network), (js "chainId", .str m.chain.chainId)]),
    (js "agent", .str m.agent), (js "permission", .str m.permission),
    (js "createdAt", .str m.createdAt)]

namespace Keystore

open Guard

/-! ## Errors -/

inductive KeystoreCode where
  | decryptFailed
  | fileExists
  | fileNotFound
  | badFormat
  | unsupportedVersion
  | permissions
  deriving DecidableEq

/-- What a call throws: an error of the keystore, of the file system, of libsodium, or a
`TypeError`. -/
inductive Failure where
  | keystore (code : KeystoreCode) (message : JsString)
  | system (code : Errno)
  | sodium
  | script (error : JsError)
  deriving DecidableEq

/-! ## The state -/

/-- A file, with its permission bits. Its content is bytes, so it may be anything. -/
structure File where
  mode : ℕ
  content : List UInt8

/-- The files, and what was sealed so far. The latter is a record, not a part of the disk. -/
structure World (Key : Type) where
  files : JsString → Option File
  sealings : List (Sealing Key (List UInt8) (List UInt8) (List UInt8) (List UInt8))

def World.start (Key : Type) (files : JsString → Option File) : World Key := ⟨files, []⟩

abbrev Program (Key : Type) := EStateM Failure (World Key)

/-- The libraries: the constants and functions of libsodium, where a derivation may fail for want
of memory, and `Buffer.from(value, "base64")` of a value that is no base64 text. -/
structure Runtime (Key : Type) where
  SALTBYTES : ℕ
  NPUBBYTES : ℕ
  ABYTES : ℕ
  OPSLIMIT_INTERACTIVE : ℕ
  OPSLIMIT_MODERATE : ℕ
  MEMLIMIT_INTERACTIVE : ℕ
  MEMLIMIT_MODERATE : ℕ
  pwhash (passphrase salt : List UInt8) (opslimit memlimit : ℕ) : Option Key
  encrypt (key : Key) (nonce additional message : List UInt8) : List UInt8
  otherBuffer : JsValue → Except Failure (List UInt8)

/-- A key derivation and a cipher that keep their inputs apart, and cost parameters that are
integers a number can hold. -/
structure Runtime.Ideal {Key : Type} (r : Runtime Key) : Prop where
  pwhash_inj : ∀ p s o m p' s' o' m' key, r.pwhash p s o m = some key →
    r.pwhash p' s' o' m' = some key → p = p' ∧ s = s' ∧ o = o' ∧ m = m'
  encrypt_inj : ∀ k n a m m', r.encrypt k n a m = r.encrypt k n a m' → m = m'
  encrypt_length : ∀ k n a m, (r.encrypt k n a m).length = m.length + r.ABYTES
  opslimit_le : r.OPSLIMIT_INTERACTIVE ≤ r.OPSLIMIT_MODERATE
  opslimit_safe : r.OPSLIMIT_MODERATE ≤ 2 ^ 53
  memlimit_le : r.MEMLIMIT_INTERACTIVE ≤ r.MEMLIMIT_MODERATE
  memlimit_safe : r.MEMLIMIT_MODERATE ≤ 2 ^ 53

/-- A call of `createKeystoreFile`: its arguments, what `randombytes_buf` fills its two buffers
with, and what the file system answers. -/
structure Creation {Key : Type} (r : Runtime Key) where
  filePath : JsString
  secret : List UInt8
  passphrase : List UInt8
  metadata : KeystoreMetadata
  salt : List UInt8
  nonce : List UInt8
  salt_length : salt.length = r.SALTBYTES
  nonce_length : nonce.length = r.NPUBBYTES
  mkdir : Option Errno
  write : WriteOutcome

section Calls

variable {Key : Type} (r : Runtime Key)

/-! ## Helpers -/

def additionalData (header : List (JsString × Json)) : Except JsError (List UInt8) :=
  return utf8 (← canonicalize (.obj .ordinary header))

/-- An integer between two bounds. -/
def inBounds (v : JsValue) (min max : ℕ) : Option ℕ :=
  match v.num?.bind JsNumber.toInt? with
  | some i => if (min : ℤ) ≤ i ∧ i ≤ max then some i.toNat else none
  | none => none

/-- The cost parameters, if they are in the accepted band. They stand in the file, so anybody may
have set them. -/
def assertKdfParamsInBounds (opslimit memlimit : JsValue) : Except Failure (ℕ × ℕ) :=
  match inBounds opslimit r.OPSLIMIT_INTERACTIVE r.OPSLIMIT_MODERATE,
    inBounds memlimit r.MEMLIMIT_INTERACTIVE r.MEMLIMIT_MODERATE with
  | some o, some m => .ok (o, m)
  | _, _ =>
    .error (.keystore .badFormat (js "keystore KDF parameters are out of the accepted range"))

def deriveKey (passphrase salt : List UInt8) (opslimit memlimit : ℕ) : Except Failure Key :=
  match r.pwhash passphrase salt opslimit memlimit with
  | some key => .ok key
  | none => .error .sodium

/-! ## Creating a file -/

/-- A call that leaves the state alone. -/
def call {α : Type} (x : Except Failure α) : Program Key α := fun w =>
  match x with
  | .ok a => .ok a w
  | .error e => .error e w

/-- `crypto_aead_xchacha20poly1305_ietf_encrypt`, on record: what was sealed, and under which key,
nonce and header. -/
def sealMessage (key : Key) (nonce additional message : List UInt8) : Program Key (List UInt8) :=
  fun w =>
    let ciphertext := r.encrypt key nonce additional message
    .ok ciphertext
      { w with sealings := w.sealings ++ [⟨key, nonce, additional, ciphertext, message⟩] }

def mkdirSync (outcome : Option Errno) : Program Key Unit := fun w =>
  match outcome with
  | none => .ok () w
  | some errno => .error (.system errno) w

def World.setFile (w : World Key) (path : JsString) (file : Option File) : World Key :=
  { w with files := Function.update w.files path file }

/-- `writeFileSync(path, content, { mode, flag: "wx" })`. A file that is there is never replaced,
and a failed write may leave a part. -/
def writeFileSync (outcome : WriteOutcome) (path : JsString) (file : File) : Program Key Unit :=
  fun w =>
    match w.files path, outcome with
    | some _, _ => .error (.system .EEXIST) w
    | none, .written => .ok () (w.setFile path (some file))
    | none, .refused errno => .error (.system (.other errno)) w
    | none, .torn content errno =>
      .error (.system (.other errno)) (w.setFile path (some { file with content := content }))

/-- A path that is taken is an error of the keystore. -/
def orFileExists (path : JsString) (run : Program Key Unit) : Program Key Unit :=
  tryCatch run fun error =>
    if error = .system .EEXIST then
      throw (.keystore .fileExists (js "keystore already exists: " ++ path))
    else throw error

namespace Creation

variable {r} (c : Creation r)

/-- The parameters of the key derivation, as a value. -/
def kdf : Json :=
  .obj .ordinary [(js "algorithm", .str (js "argon2id13")),
    (js "opslimit", .num (.finite (.ofNat r.OPSLIMIT_MODERATE))),
    (js "memlimit", .num (.finite (.ofNat r.MEMLIMIT_MODERATE))),
    (js "salt", .str (toBase64 c.salt))]

/-- The parameters of the cipher, as a value. -/
def cipher : Json :=
  .obj .ordinary [(js "algorithm", .str (js "xchacha20poly1305-ietf")),
    (js "nonce", .str (toBase64 c.nonce))]

/-- The members of the header. All of them, the metadata included, are covered by the seal. -/
def header : List (JsString × Json) :=
  [(js "version", .num (.finite (.ofNat 1))), (js "kind", .str (js "encrypted-file")),
    (js "kdf", c.kdf), (js "cipher", c.cipher), (js "meta", c.metadata.toJson)]

/-- The text of the file: its header and the sealed secret, indented by two spaces. -/
def text (ciphertext : List UInt8) : JsString :=
  (Json.obj .ordinary (c.header ++ [(js "ciphertext", .str (toBase64 ciphertext))])).stringifyIndented
    2 ++ js "\n"

end Creation

variable {r}

def createKeystoreFile (c : Creation r) : Program Key Unit := do
  let key ← call (deriveKey r c.passphrase c.salt r.OPSLIMIT_MODERATE r.MEMLIMIT_MODERATE)
  let additional ← call ((additionalData c.header).mapError Failure.script)
  let ciphertext ← sealMessage r key c.nonce additional c.secret
  orFileExists c.filePath do
    mkdirSync c.mkdir
    writeFileSync c.write c.filePath ⟨0o600, utf8 (c.text ciphertext)⟩

/-! ## Opening a file -/

/-- What `statSync` and `readFileSync` answer for a file that is there: an error, or its mode and
its content. -/
structure Access where
  stat : Option Errno
  read : Option Errno

def Access.granted : Access := ⟨none, none⟩

/-- A path without a file is an error of the keystore. -/
def orFileNotFound (path : JsString) (errno : Errno) : Failure :=
  if errno = .ENOENT then .keystore .fileNotFound (js "keystore not found: " ++ path)
  else .system errno

/-- The text of a file only its owner has access to. The bits are checked before the content is
read. -/
def readText (w : World Key) (access : Access) (path : JsString) : Except Failure JsString :=
  match w.files path, access.stat with
  | none, _ => .error (orFileNotFound path .ENOENT)
  | some _, some errno => .error (orFileNotFound path errno)
  | some file, none =>
    if file.mode &&& 0o077 ≠ 0 then
      .error (.keystore .permissions
        (js "keystore file must not be group/other accessible: " ++ path))
    else
      match access.read with
      | some errno => .error (orFileNotFound path errno)
      | none => .ok (decodeUtf8 file.content)

/-- `JSON.parse`. -/
def parseFile (text : JsString) : Except Failure Json :=
  match Json.parse JsNumber.ofLiteral text with
  | some file => .ok file
  | none => .error (.keystore .badFormat (js "keystore file is not valid JSON"))

/-- `file.key`: nothing can be read of `null`. Any other value has properties, its own or
inherited. -/
def property (file : Json) (key : JsString) : Except Failure JsValue :=
  match file with
  | .null => .error (.script .type)
  | _ => .ok ((JsValue.json file).readObject key)

/-- `const { ciphertext, ...header } = file`: the header. A member that was added to the file is in
it. -/
def headerOf (file : Json) : List (JsString × Json) :=
  (file.members?.getD []).filter fun m => m.1 ≠ js "ciphertext"

variable (r) in
/-- `Buffer.from(value, "base64")`. What it makes of any other value is left to the runtime. -/
def bufferFrom (v : JsValue) : Except Failure (List UInt8) :=
  match v.str?.bind fromBase64? with
  | some bytes => .ok bytes
  | none => r.otherBuffer v

/-- `crypto_aead_xchacha20poly1305_ietf_decrypt`; a header without a canonical form fails in the
same way. -/
def decrypt [DecidableEq Key] (w : World Key) (key : Key) (nonce : List UInt8)
    (header : List (JsString × Json)) (ciphertext : List UInt8) : Except Failure (List UInt8) :=
  match (additionalData header).toOption.bind fun additional =>
      opened w.sealings key nonce additional ciphertext with
  | some secret => .ok secret
  | none => .error (.keystore .decryptFailed
      (js "keystore decryption failed (wrong passphrase or tampered file)"))

variable (r) in
/-- The secret and the metadata of a file. The metadata are returned only when the seal over them
opens. -/
def openKeystoreFile [DecidableEq Key] (w : World Key) (access : Access) (filePath : JsString)
    (passphrase : List UInt8) : Except Failure (List UInt8 × JsValue) := do
  let raw ← readText w access filePath
  let file ← parseFile raw
  let version ← property file (js "version")
  let kind ← property file (js "kind")
  if version.num? ≠ some (.finite (.ofNat 1)) ∨ kind.str? ≠ some (js "encrypted-file") then
    .error (.keystore .unsupportedVersion (js "unsupported keystore version or kind"))
  else
    let kdf ← property file (js "kdf")
    let cipher ← property file (js "cipher")
    if (kdf.readObject (js "algorithm")).str? ≠ some (js "argon2id13") ∨
        (cipher.readObject (js "algorithm")).str? ≠ some (js "xchacha20poly1305-ietf") then
      .error (.keystore .unsupportedVersion (js "unsupported keystore algorithms"))
    else
      let salt ← bufferFrom r (kdf.readObject (js "salt"))
      let nonce ← bufferFrom r (cipher.readObject (js "nonce"))
      let ciphertext ← bufferFrom r (← property file (js "ciphertext"))
      if salt.length ≠ r.SALTBYTES ∨ nonce.length ≠ r.NPUBBYTES ∨ ciphertext.length ≤ r.ABYTES then
        .error (.keystore .badFormat (js "keystore file has malformed cryptographic fields"))
      else
        let (opslimit, memlimit) ← assertKdfParamsInBounds r (kdf.readObject (js "opslimit"))
          (kdf.readObject (js "memlimit"))
        let key ← deriveKey r passphrase salt opslimit memlimit
        let secret ← decrypt w key nonce (headerOf file) ciphertext
        return (secret, ← property file (js "meta"))

/-! ## Runs -/

/-- What happens to the world: a keystore is created, or anybody puts a file in a place or
removes one. -/
inductive Event (r : Runtime Key) where
  | create (c : Creation r)
  | place (path : JsString) (file : Option File)

def World.step (w : World Key) : Event r → World Key
  | .create c =>
    match createKeystoreFile c w with
    | .ok _ w' => w'
    | .error _ w' => w'
  | .place path file => w.setFile path file

def World.run (w : World Key) (events : List (Event r)) : World Key := events.foldl World.step w

end Calls

end Keystore

end Signbox

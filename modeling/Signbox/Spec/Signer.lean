import Signbox.Guard.Transcript
import Signbox.Spec.Contract
import Signbox.Spec.Eval
import Signbox.Spec.Keystore
import Signbox.Spec.Rpc

/-!
# The signer

`chains/xpr/adapter.ts` and `chains/xpr/signatureProvider.ts`, over `signDigest` of
`keystore/encryptedFileBackend.ts` and `keystore/k1.ts`. The chain package serializes a transaction,
asks for the signatures of its bytes, and reads bytes back; what it asks is answered by the endpoint
through the verified RPC, and by the signature provider. The two seams of the tests are left out.
-/

namespace Signbox

open Guard

namespace Signer

/-! ## Errors -/

/-- What a call of the signer throws. `other` is an error of the chain package or of the network. -/
inductive Failure where
  | signing (message : JsString)
  | keystore (code message : JsString)
  | script (error : JsError)
  | other
  deriving DecidableEq

def badFormat (message : String) : Failure := .keystore (js "BAD_FORMAT") (js message)

/-! ## Keys -/

/-- The libraries: the hashes, base58, the curve, which refuses a scalar out of range, and the text
of a signature. -/
structure Crypto where
  sha256 : List UInt8 → List UInt8
  ripemd160 : List UInt8 → List UInt8
  base58Encode : List UInt8 → JsString
  base58Decode : JsString → Option (List UInt8)
  getPublicKey (privateKey : List UInt8) : Option (List UInt8)
  /-- `secp256k1.sign` in the recovered format, with extra entropy or none. -/
  curveSign (digest privateKey : List UInt8) (extraEntropy : Option (List UInt8)) :
    Option (List UInt8)
  signatureToString : List UInt8 → JsString

variable (c : Crypto)

def k1Checksum (data : List UInt8) (suffix : JsString) : List UInt8 :=
  (c.ripemd160 (data ++ utf8 suffix)).take 4

/-- The scalar of a stored secret, in the form that key generation writes or in the older one. Its
checksum must be right. -/
def wifToPrivateKey (wif : JsString) : Except Failure (List UInt8) :=
  if (js "PVT_K1_").isPrefixOf wif then
    match c.base58Decode (wif.drop 7) with
    | none => .error (badFormat "stored secret is not valid base58")
    | some decoded =>
      if decoded.length ≠ 36 then .error (badFormat "stored secret is not a K1 private key")
      else if decoded.drop 32 ≠ k1Checksum c (decoded.take 32) (js "K1") then
        .error (badFormat "stored secret failed its K1 checksum")
      else .ok (decoded.take 32)
  else
    match c.base58Decode wif with
    | none => .error (badFormat "stored secret is not valid base58")
    | some decoded =>
      if decoded.length ≠ 37 ∨ decoded.head? ≠ some 0x80 then
        .error (badFormat "stored secret is not a K1 WIF")
      else if decoded.drop 33 ≠ (c.sha256 (c.sha256 (decoded.take 33))).take 4 then
        .error (badFormat "stored secret failed its WIF checksum")
      else .ok ((decoded.take 33).drop 1)

def derivePublicKeyK1 (privateKey : List UInt8) : Except Failure JsString :=
  match c.getPublicKey privateKey with
  | none => .error .other
  | some pub => .ok (js "PUB_K1_" ++ c.base58Encode (pub ++ k1Checksum c pub (js "K1")))

def derivePublicKeyLegacy (privateKey : List UInt8) : Except Failure JsString :=
  match c.getPublicKey privateKey with
  | none => .error .other
  | some pub => .ok (js "EOS" ++ c.base58Encode (pub ++ (c.ripemd160 pub).take 4))

/-- Neither number starts with a bit that is set, nor with a zero byte and a bit that is not. The
chain takes no other signature. -/
def isCanonical (sigData : List UInt8) : Bool :=
  let byte (i : ℕ) : UInt8 := sigData[i]?.getD 0
  byte 1 &&& 0x80 = 0 ∧ ¬ (sigData[1]? = some 0 ∧ byte 2 &&& 0x80 = 0) ∧
    byte 33 &&& 0x80 = 0 ∧ ¬ (sigData[33]? = some 0 ∧ byte 34 &&& 0x80 = 0)

def MAX_GRIND_ATTEMPTS : ℕ := 100

/-- The entropy that is added from the second attempt on. It depends on the digest and the attempt
only. -/
def extraEntropy (digest : List UInt8) (attempt : ℕ) : Option (List UInt8) :=
  if attempt > 0 then some (c.sha256 (digest ++ [UInt8.ofNat attempt])) else none

/-- The loop over the attempts: the first canonical signature. When none of them is, there is no
signature at all. -/
def grind (privateKey digest : List UInt8) : List ℕ → Except Failure (List UInt8)
  | [] => .error (badFormat "could not produce a canonical signature")
  | attempt :: attempts =>
    match c.curveSign digest privateKey (extraEntropy c digest attempt) with
    | none => .error .other
    | some recovered =>
      if isCanonical recovered then .ok recovered else grind privateKey digest attempts

def signDigestK1Canonical (privateKey digest : List UInt8) : Except Failure (List UInt8) :=
  if digest.length ≠ 32 then .error (badFormat "digest must be exactly 32 bytes")
  else grind c privateKey digest (List.range (MAX_GRIND_ATTEMPTS + 1))

inductive SignatureScheme where
  | secp256k1
  | secp256k1Canonical
  | ed25519
  deriving DecidableEq

def SignatureScheme.toText : SignatureScheme → JsString
  | .secp256k1 => js "secp256k1"
  | .secp256k1Canonical => js "secp256k1-canonical"
  | .ed25519 => js "ed25519"

/-- The unlocked secrets by key id. A key that is not among them cannot be signed with. -/
abbrev Secrets := List (JsString × List UInt8)

def privateKeyOf (secrets : Secrets) (keyId : JsString) : Except Failure (List UInt8) :=
  match secrets.lookup keyId with
  | none => .error (.keystore (js "FILE_NOT_FOUND") (js "no unlocked key for: " ++ keyId))
  | some secret => wifToPrivateKey c (decodeUtf8 secret)

/-- `EncryptedFileKeystore.signDigest`: the secret of the key id is read, decoded and used, and
does not leave the call. -/
def signDigest (secrets : Secrets) (keyId : JsString) (digest : List UInt8)
    (scheme : SignatureScheme) : Except Failure (List UInt8) :=
  if scheme ≠ .secp256k1Canonical ∧ scheme ≠ .secp256k1 then
    .error (.keystore (js "UNSUPPORTED") (js "encrypted-file keys are K1 WIFs — scheme \"" ++
      scheme.toText ++ js "\" is not available"))
  else do
    let privateKey ← privateKeyOf c secrets keyId
    signDigestK1Canonical c privateKey digest

/-! ## The signature provider -/

/-- The value of a hexadecimal digit. -/
def hexValue? (u : UInt16) : Option ℕ :=
  if isDigit u then some (u.toNat - (unit '0').toNat)
  else if unit 'a' ≤ u ∧ u ≤ unit 'f' then some (u.toNat - (unit 'a').toNat + 10)
  else if unit 'A' ≤ u ∧ u ≤ unit 'F' then some (u.toNat - (unit 'A').toNat + 10)
  else none

/-- `Buffer.from(text, "hex")`: it ends where the text is no hexadecimal any more, without an
error. -/
def fromHex : JsString → List UInt8
  | u :: v :: us =>
    match hexValue? u, hexValue? v with
    | some a, some b => UInt8.ofNat (16 * a + b) :: fromHex us
    | _, _ => []
  | _ => []

structure SignatureProviderArgs where
  chainId : JsString
  requiredKeys : List JsString
  serializedTransaction : List UInt8
  serializedContextFreeData : Option (List UInt8)

structure PushTransactionArgs where
  signatures : List JsString
  serializedTransaction : List UInt8
  serializedContextFreeData : Option (List UInt8)

/-- What stands in the digest for the context-free data: zeros, when there are none. -/
def contextFreeDigest : Option (List UInt8) → List UInt8
  | some (b :: bytes) => c.sha256 (b :: bytes)
  | _ => List.replicate 32 0

/-- The bytes that are signed for: the chain id, the transaction and the context-free data, hashed
together. -/
def signingDigest (args : SignatureProviderArgs) : List UInt8 :=
  c.sha256 (fromHex args.chainId ++ args.serializedTransaction ++
    contextFreeDigest c args.serializedContextFreeData)

/-- The header byte, and the two numbers in the 64 bytes after it. -/
def signatureData (recovered : List UInt8) : Except Failure (List UInt8) :=
  if 65 < recovered.length then .error (.script .type)
  else .ok ((recovered.head?.elim 0 fun recid => 31 + recid) ::
    (recovered.tail ++ List.replicate (64 - recovered.tail.length) 0))

structure KeystoreSignatureProvider where
  keyId : JsString
  publicKey : JsString
  deriving DecidableEq

/-- `sign` of the provider. It signs the bytes it is given, with its one key, whatever keys are
required. -/
def KeystoreSignatureProvider.sign (p : KeystoreSignatureProvider) (secrets : Secrets)
    (args : SignatureProviderArgs) : Except Failure PushTransactionArgs := do
  let recovered ← signDigest c secrets p.keyId (signingDigest c args) .secp256k1Canonical
  let sigData ← signatureData recovered
  return ⟨[c.signatureToString sigData], args.serializedTransaction, args.serializedContextFreeData⟩

/-! ## The chain package -/

/-- What the chain package asks: `get_info` of the wrapped RPC, another request, or the provider.
It has no other way to the key. -/
inductive PackageCall where
  | getInfo
  | fetch (request : RpcRequest)
  | getAvailableKeys
  | getRequiredKeys (availableKeys : List JsString)
  | sign (args : SignatureProviderArgs)

inductive PackageReply where
  | info (info : Json)
  | fetched (result : Json)
  | keys (keys : List JsString)
  | signed (args : PushTransactionArgs)

abbrev Program := Inquiry PackageCall Failure PackageReply Failure

/-- `broadcast` is off and `sign` on; the envelope is asked of the chain. -/
structure TransactConfig where
  blocksBehind : ℕ
  expireSeconds : ℕ

/-- The result of `transact`; the signatures may be no array. -/
structure Transacted where
  signatures : Option (List JsString)
  serializedTransaction : List UInt8

/-- An action as the package reads it back. -/
structure ProducedAction where
  account : Json
  name : Json
  authorization : Json
  data : Json

/-- `Api` of the chain package: anything that asks, and ends with a result or throws. Nothing is
assumed of what it asks. -/
structure ChainPackage where
  transact (actions : Json) (config : TransactConfig) : Program Transacted
  deserializeTransactionWithActions (bytes : List UInt8) : Program (List ProducedAction)

/-- The answers the package may get: `get_info` answers after its checks or throws, the provider
signs with the key of the signer, the rest is the endpoint's. -/
inductive Hosted (rpc : VerifiedRpcOptions) (provider : KeystoreSignatureProvider)
    (secrets : Secrets) : PackageCall → Except Failure PackageReply → Prop
  | info {answer : VerifiedRpc.Answer} {info : Json} (h : answer.info = some info)
      (haccepts : VerifiedRpc.accepts rpc answer = true) :
      Hosted rpc provider secrets .getInfo (.ok (.info info))
  | infoThrows (e : Failure) : Hosted rpc provider secrets .getInfo (.error e)
  | fetched (request : RpcRequest) (result : Json) :
      Hosted rpc provider secrets (.fetch request) (.ok (.fetched result))
  | fetchThrows (request : RpcRequest) (e : Failure) :
      Hosted rpc provider secrets (.fetch request) (.error e)
  | availableKeys : Hosted rpc provider secrets .getAvailableKeys (.ok (.keys [provider.publicKey]))
  | requiredKeys (keys : List JsString) :
      Hosted rpc provider secrets (.getRequiredKeys keys) (.ok (.keys keys))
  | sign (args : SignatureProviderArgs) :
      Hosted rpc provider secrets (.sign args) ((provider.sign c secrets args).map .signed)

/-! ## The signer -/

structure XprSignerOptions where
  chainId : JsString
  expireSeconds : Option ℕ

/-- `expireSeconds ?? 60`. -/
def XprSignerOptions.config (options : XprSignerOptions) : TransactConfig :=
  ⟨3, options.expireSeconds.getD 60⟩

/-- Read a property; nothing can be read of a nullish value. -/
def member (v : JsValue) (key : JsString) : Except Failure JsValue :=
  if v.isNullish then .error (.script .type) else .ok (v.property key)

/-- The actions of a source, and what the loop over them goes through: the items, or the characters
of a text. -/
def sourceActions (source : Json) : Except Failure (Json × List Json) := do
  match ← member (.json source) (js "actions") with
  | .json (.arr items) => return (.arr items, items)
  | .json (.str s) => return (.str s, s.map fun u => .str [u])
  | _ => throw (.script .type)

/-- `auth[0]?.key`. -/
def firstOf (auth : JsValue) (key : JsString) : JsValue :=
  let first := auth.property (js "0")
  if first.isNullish then .undefined else first.property key

def identityMismatch : Failure :=
  .signing (js "action authorization does not match the signing key identity")

/-- Every action carries exactly the identity that the key is bound to: one actor and one
permission. -/
def checkAuthorization (key : KeyHandle) (action : Json) : Except Failure Unit := do
  let auth ← member (.json action) (js "authorization")
  let length ← member auth (js "length")
  if length.num? ≠ some (.finite (.ofNat 1)) ∨ (firstOf auth (js "actor")).str? ≠ some key.agent ∨
      (firstOf auth (js "permission")).str? ≠ some key.permission then
    throw identityMismatch

/-- What is checked before the package is used: that there is a source, the chain of the key, and
each authorization. -/
def checkSource (options : XprSignerOptions) (tx : DecodedTransaction) (key : KeyHandle) :
    Except Failure Json :=
  match tx.source with
  | none | some .null => .error (.signing (js "transaction has no validated source to sign"))
  | some source =>
    if key.chain.chainId ≠ options.chainId then
      .error (.signing (js "key chain does not match the signer configuration"))
    else do
      let (actions, items) ← sourceActions source
      items.forM (checkAuthorization key)
      return actions

/-- The cached Apis by key id, each with the provider it was made with. A provider is not made
again while it is cached. -/
abbrev Apis := List (JsString × KeystoreSignatureProvider)

/-- `apiFor`: the Api of a key, made at its first use. -/
def apiFor (apis : Apis) (key : KeyHandle) : KeystoreSignatureProvider × Apis :=
  match apis.lookup key.keyId with
  | some provider => (provider, apis)
  | none =>
    let provider : KeystoreSignatureProvider := ⟨key.keyId, key.publicKey⟩
    (provider, apis ++ [(key.keyId, provider)])

def evict (apis : Apis) (keyId : JsString) : Apis := apis.filter fun entry => entry.1 ≠ keyId

/-- An action that was read back, as it is compared. -/
def ProducedAction.toJson (a : ProducedAction) : Json :=
  .obj .ordinary [(js "account", a.account), (js "name", a.name),
    (js "authorization", a.authorization), (js "data", a.data)]

/-- What the signature stands for: sha256 of the chain, the bytes and 32 zeros. It names the
transaction in the audit log. -/
def transactionDigest (chainId : JsString) (serializedTransaction : List UInt8) : JsString :=
  hex (c.sha256 (fromHex chainId ++ serializedTransaction ++ List.replicate 32 0))

def resultOf (options : XprSignerOptions) (signature : JsString) (signatures : List JsString)
    (bytes : List UInt8) : SignedTransactionResult where
  signature := signature
  transactionDigest := transactionDigest c options.chainId bytes
  signedTransaction := some (.obj .ordinary [(js "signatures", .arr (signatures.map .str)),
    (js "packedTransaction", .str (hex bytes)), (js "compression", .num (.finite (.ofNat 0)))])

/-- The bytes describe exactly the source's actions: both are compared in their canonical form. -/
def roundTripGuard (produced : List ProducedAction) (actions : Json) : Except Failure Unit := do
  let read ← (canonicalize (.arr (produced.map ProducedAction.toJson))).mapError Failure.script
  let source ← (canonicalize actions).mapError Failure.script
  if read ≠ source then
    throw (.signing (js "serialized transaction does not round-trip to the validated JSON"))

variable (package : ChainPackage) (options : XprSignerOptions)

/-- Serialize and sign, and read the bytes back. Nothing is returned when what was read is not what
was validated. -/
def signWith (actions : Json) : Program SignedTransactionResult := do
  let result ← package.transact actions options.config
  match result.signatures with
  | some (signature :: signatures) =>
    let produced ← package.deserializeTransactionWithActions result.serializedTransaction
    Inquiry.settled (roundTripGuard produced actions)
    return resultOf c options signature (signature :: signatures) result.serializedTransaction
  | _ => Inquiry.settled (.error (.signing (js "signing produced no signature")))

/-! ## Runs -/

/-- A call of the signer, or a key that is dropped. Only these change the cached Apis. -/
inductive Op where
  | sign (tx : DecodedTransaction) (key : KeyHandle)
  | evict (keyId : JsString)

/-- The Apis after an operation. -/
def step (apis : Apis) : Op → Apis
  | .evict keyId => evict apis keyId
  | .sign tx key =>
    match checkSource options tx key with
    | .error _ => apis
    | .ok _ => (apiFor apis key).2

/-- The Apis after some operations. -/
def run (ops : List Op) : Apis := ops.foldl (step options) []

/-- `sign`, after some operations, returns or throws. Its source is declined, or the package ends
on answers it may get. -/
inductive Signs (rpc : VerifiedRpcOptions) (secrets : Secrets) (ops : List Op)
    (tx : DecodedTransaction) (key : KeyHandle) : Except Failure SignedTransactionResult → Prop
  | declined {e : Failure} (h : checkSource options tx key = .error e) :
      Signs rpc secrets ops tx key (.error e)
  | called {actions : Json} {tr : List (PackageCall × Except Failure PackageReply)}
      {x : Except Failure SignedTransactionResult} (h : checkSource options tx key = .ok actions)
      (htr : Inquiry.Answered (Hosted c rpc (apiFor (run options ops) key).1 secrets)
        (signWith c package options actions) tr x) :
      Signs rpc secrets ops tx key x

end Signer

end Signbox

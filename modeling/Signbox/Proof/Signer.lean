import Signbox.Proof.Reread
import Signbox.Spec.Signer

/-!
# What a signature of the signer stands for

Whatever the endpoint answers, the bytes that are signed for read back as the actions that were
decided about, and the signature is for the pinned chain under the key of the request.

* `ChainPackage.Faithful`: what is documented of the chain package.
* `apiFor_keyId`: the cached provider of a key is its own, after any operations.
* `checkSource_ok`: every action carries the identity of the key.
* `signs_vouched`: **what a released signature stands for**.
-/

namespace Signbox

open Guard

namespace Signer

variable {c : Crypto} {package : ChainPackage} {options : XprSignerOptions}
  {rpc : VerifiedRpcOptions} {secrets : Secrets} {ops : List Op} {key : KeyHandle}
  {tx : DecodedTransaction} {x : Json} {context : ChainContext} {result : SignedTransactionResult}

/-! ## The keys -/

/-- A signature that the keystore gives is canonical, and one of the curve under the stored key. -/
theorem grind_ok {privateKey digest recovered : List UInt8} : ∀ {attempts : List ℕ},
    grind c privateKey digest attempts = .ok recovered → isCanonical recovered = true ∧
      ∃ entropy, c.curveSign digest privateKey entropy = some recovered
  | [], h => by cases h
  | attempt :: attempts, h => by
    rw [grind] at h
    cases hsign : c.curveSign digest privateKey (extraEntropy c digest attempt) with
    | none =>
      rw [hsign] at h
      cases h
    | some sig =>
      rw [hsign] at h
      dsimp only at h
      split_ifs at h with hcanonical
      · obtain rfl := Except.ok.inj h
        exact ⟨hcanonical, _, hsign⟩
      · exact grind_ok h

/-- `text` is the text of a canonical signature of `digest` under the key that is stored as
`keyId`. -/
def SignedUnder (c : Crypto) (secrets : Secrets) (keyId : JsString) (digest : List UInt8)
    (text : JsString) : Prop :=
  ∃ privateKey entropy recovered sigData, privateKeyOf c secrets keyId = .ok privateKey ∧
    c.curveSign digest privateKey entropy = some recovered ∧ isCanonical recovered = true ∧
    signatureData recovered = .ok sigData ∧ text = c.signatureToString sigData

/-- A provider that signs passes the bytes through and signs their digest under its own key,
once. -/
theorem sign_ok {provider : KeystoreSignatureProvider} {args : SignatureProviderArgs}
    {reply : PushTransactionArgs} (h : provider.sign c secrets args = .ok reply) :
    reply.serializedTransaction = args.serializedTransaction ∧ ∃ text, reply.signatures = [text] ∧
      SignedUnder c secrets provider.keyId (signingDigest c args) text := by
  simp only [KeystoreSignatureProvider.sign, signDigest, bind_ok, pure_eq, Except.ok.injEq] at h
  obtain ⟨recovered, hrecovered, sigData, hdata, rfl⟩ := h
  have hscheme : ¬ (SignatureScheme.secp256k1Canonical ≠ .secp256k1Canonical ∧
      SignatureScheme.secp256k1Canonical ≠ .secp256k1) := by decide
  rw [if_neg hscheme, bind_ok] at hrecovered
  obtain ⟨privateKey, hkey, hsign⟩ := hrecovered
  unfold signDigestK1Canonical at hsign
  split_ifs at hsign
  obtain ⟨hcanonical, entropy, hcurve⟩ := grind_ok hsign
  exact ⟨rfl, _, rfl, privateKey, entropy, recovered, sigData, hkey, hcurve, hcanonical, hdata, rfl⟩

/-! ## The cached Apis -/

/-- Every Api was made with the provider of its own key. -/
def Keyed (apis : Apis) : Prop := ∀ entry ∈ apis, entry.2.keyId = entry.1

/-- The interface for a key is one of that key, found or made, and the table stays keyed. -/
theorem apiFor_keyed {apis : Apis} (h : Keyed apis) (key : KeyHandle) :
    (apiFor apis key).1.keyId = key.keyId ∧ Keyed (apiFor apis key).2 := by
  unfold apiFor
  cases hlook : apis.lookup key.keyId with
  | some provider => exact ⟨h (key.keyId, provider) (mem_of_lookup hlook), h⟩
  | none =>
    refine ⟨rfl, fun entry hentry => ?_⟩
    rcases List.mem_append.1 hentry with hold | hnew
    · exact h entry hold
    · rw [List.mem_singleton.1 hnew]

/-- One operation keeps every interface under the key it signs with. -/
theorem step_keyed {apis : Apis} (h : Keyed apis) (op : Op) : Keyed (step options apis op) := by
  cases op with
  | evict keyId => exact fun entry hentry => h entry (List.mem_of_mem_filter hentry)
  | sign tx key =>
    simp only [step]
    split
    · exact h
    · exact (apiFor_keyed h key).2

/-- So does any history of them. -/
theorem run_keyed (ops : List Op) : Keyed (run options ops) := by
  have hrun : ∀ apis, Keyed apis → Keyed (ops.foldl (step options) apis) := by
    induction ops with
    | nil => exact fun apis h => h
    | cons op ops ih => exact fun apis h => ih _ (step_keyed h op)
  exact hrun [] fun entry hentry => absurd hentry List.not_mem_nil

/-- **The provider of a key signs with that key**, whatever the signer did before. The cache of
interfaces is keyed by what determines them, so no key is served another one's. -/
theorem apiFor_keyId (options : XprSignerOptions) (ops : List Op) (key : KeyHandle) :
    (apiFor (run options ops) key).1.keyId = key.keyId := (apiFor_keyed (run_keyed ops) key).1

/-! ## The source -/

/-- A property of an object is the member under that name. -/
theorem property_obj {p : Proto} {ms : List (JsString × Json)} {k : JsString} {v : Json}
    (h : ms.lookup k = some v) : (JsValue.json (.obj p ms)).property k = .json v := by
  simp only [JsValue.property, JsValue.readObject, readMember, h]

/-- An action that passes is authorized by the key's agent and permission, and by no one else. -/
theorem checkAuthorization_ok {item : Json} {raw : XprActionJson}
    (hitem : XprSchema.action item = some raw) (h : checkAuthorization key item = .ok ()) :
    raw.authorization = [⟨key.agent, key.permission⟩] := by
  obtain ⟨p, ms, q, auth, rfl, -, -, -, ⟨hauth, a, ha, hauths⟩, -⟩ := action_parts hitem
  have hread : ∃ r as, auth = .obj r as ∧ as.lookup (js "actor") = some (.str a.accountIdentifier) ∧
      as.lookup (js "permission") = some (.str a.permission) := by
    cases auth with
    | obj r as =>
      simp only [XprSchema.authorization, Option.bind_eq_bind, Option.bind_eq_some_iff,
        Option.guard_eq_some', Option.pure_def, Option.some.injEq] at ha
      obtain ⟨-, -, actor, hactor, permission, hpermission, rfl⟩ := ha
      exact ⟨r, as, rfl, name_lookup hactor, name_lookup hpermission⟩
    | _ => cases ha
  obtain ⟨r, as, rfl, hactor, hpermission⟩ := hread
  have hfirst : ∀ {k s}, as.lookup k = some (.str s) →
      (firstOf (.json (.arr [.obj r as])) k).str? = some s := by
    intro k s hlook
    have hdigit : digitsOf 0 = js "0" := by decide
    have hzero : (JsValue.json (.arr [.obj r as])).property (js "0") = .json (.obj r as) := by
      simp [JsValue.property, readArray, Json.entries, hdigit]
    simp only [firstOf, hzero, JsValue.isNullish, Bool.false_eq_true, if_false,
      property_obj hlook, JsValue.str?]
  simp only [checkAuthorization, member, JsValue.isNullish, Bool.false_eq_true, if_false,
    property_obj hauth, bind_ok, Except.ok.injEq, exists_eq_left', hfirst hactor, hfirst hpermission] at h
  split_ifs at h with hmismatch
  simp only [not_or, not_not, Option.some.injEq] at hmismatch
  obtain ⟨-, hagent, hperm⟩ := hmismatch
  rw [hauths, ← hagent, ← hperm]

/-- What the checks before the package is used leave of a decoded transaction. -/
theorem checkSource_ok {actions : Json} (hdecode : decodeXprTransaction x context = .ok tx)
    (h : checkSource options tx key = .ok actions) : key.chain.chainId = options.chainId ∧
      (∃ p ms, x = .obj p ms ∧ XprSchema.closed ms [js "actions"] = true ∧
        ms.lookup (js "actions") = some actions) ∧
      ∀ a ∈ tx.actions, a.authorization = [⟨key.agent, key.permission⟩] := by
  obtain ⟨raws, hraws, hnorm, hsource⟩ := decode_source hdecode
  obtain ⟨p, ms, items, rfl, hclosed, hlook, hitems⟩ := transaction_parts hraws
  simp only [checkSource, hsource] at h
  split_ifs at h with hchain
  simp only [sourceActions, member, JsValue.isNullish, Bool.false_eq_true, if_false,
    property_obj hlook, bind_ok, pure_eq, Except.ok.injEq, exists_eq_left'] at h
  obtain ⟨⟨⟩, hchecks, rfl⟩ := h
  refine ⟨not_not.1 hchain, ⟨p, ms, rfl, hclosed, hlook⟩, fun a ha => ?_⟩
  obtain ⟨raw, hraw, hra⟩ := mapM_ok_mem hnorm ha
  obtain ⟨item, hitem, hread⟩ := forall₂_right hitems hraw
  simp only [normalizeAction, bind_ok, pure_eq, Except.ok.injEq] at hra
  obtain ⟨data, -, rfl⟩ := hra
  exact checkAuthorization_ok hread (forM_ok.1 hchecks item hitem)

/-- Renaming an error does not touch a success. -/
theorem mapError_ok {ε δ α : Type} {f : ε → δ} {y : Except ε α} {a : α} :
    y.mapError f = .ok a ↔ y = .ok a := by
  cases y <;> simp [Except.mapError]

/-- The actions as JSON have distinct keys if each of them has. -/
theorem distinctItems_map {produced : List ProducedAction}
    (h : ∀ a ∈ produced, a.toJson.Distinct) :
    DistinctItems (produced.map ProducedAction.toJson) := by
  induction produced with
  | nil => trivial
  | cons a produced ih =>
    exact ⟨h a List.mem_cons_self, ih fun b hb => h b (List.mem_cons_of_mem _ hb)⟩

/-- **The guard** accepts what reads back as the same actions. It compares canonical texts, which
are equal exactly for equal values. -/
theorem roundTripGuard_ok {produced : List ProducedAction} {actions : Json}
    (hactions : actions.Distinct) (hproduced : ∀ a ∈ produced, a.toJson.Distinct)
    (h : roundTripGuard produced actions = .ok ()) :
    actions.Same (.arr (produced.map ProducedAction.toJson)) := by
  have hitems : (Json.arr (produced.map ProducedAction.toJson)).Distinct :=
    distinctItems_map hproduced
  simp only [roundTripGuard, bind_ok, mapError_ok] at h
  obtain ⟨read, hread, source, hsource, h⟩ := h
  split_ifs at h with hne
  have heq : read = source := not_not.1 hne
  rw [← heq] at hsource
  have hsound := sound_of_canonicalize _ hactions hsource
  have hsound' := sound_of_canonicalize _ hitems hread
  exact (canonicalize_eq_iff hsound hsound').1 (hsource.trans hread.symm)

/-! ## The package -/

/-- **What is documented of the chain package**: it signs through its provider, for the chain that
`get_info` names and without context-free data, and returns what was signed; what it reads back
is JSON. -/
structure ChainPackage.Faithful (package : ChainPackage) : Prop where
  signed : ∀ {R : PackageCall → Except Failure PackageReply → Prop} {actions : Json}
    {config : TransactConfig} {tr : List (PackageCall × Except Failure PackageReply)}
    {done : Transacted}, Inquiry.Answered R (package.transact actions config) tr (.ok done) →
    ∃ info args reply, (.getInfo, .ok (.info info)) ∈ tr ∧ (.sign args, .ok (.signed reply)) ∈ tr ∧
      (info.get (js "chain_id")).bind Json.str? = some args.chainId ∧
      args.serializedContextFreeData = none ∧ done.signatures = some reply.signatures ∧
      done.serializedTransaction = reply.serializedTransaction
  readable : ∀ {R : PackageCall → Except Failure PackageReply → Prop} {bytes : List UInt8}
    {tr : List (PackageCall × Except Failure PackageReply)} {produced : List ProducedAction},
    Inquiry.Answered R (package.deserializeTransactionWithActions bytes) tr (.ok produced) →
    ∀ a ∈ produced, a.toJson.Distinct

/-- **The runs that end with a signature**: the package transacts, the bytes it returns are read
back, there is exactly one signature, and the guard accepts what was read back. Any other run ends
in an error. -/
theorem signWith_ok {R : PackageCall → Except Failure PackageReply → Prop} {actions : Json}
    {tr : List (PackageCall × Except Failure PackageReply)} :
    Inquiry.Answered R (signWith c package options actions) tr (.ok result) ↔
      ∃ tr₁ tr₂ done signature signatures produced, tr = tr₁ ++ tr₂ ∧
        Inquiry.Answered R (package.transact actions options.config) tr₁ (.ok done) ∧
        Inquiry.Answered R (package.deserializeTransactionWithActions done.serializedTransaction) tr₂
          (.ok produced) ∧
        done.signatures = some (signature :: signatures) ∧
        roundTripGuard produced actions = .ok () ∧
        result = resultOf c options signature (signature :: signatures)
          done.serializedTransaction := by
  rw [signWith, Inquiry.answered_bind]
  constructor
  · rintro ⟨tr₁, tr', done, rfl, htransact, h⟩
    cases hsigs : done.signatures with
    | none => simp only [hsigs, Inquiry.answered_settled, reduceCtorEq, and_false] at h
    | some sigs =>
      cases sigs with
      | nil => simp only [hsigs, Inquiry.answered_settled, reduceCtorEq, and_false] at h
      | cons signature signatures =>
        simp only [hsigs] at h
        rw [Inquiry.answered_bind] at h
        obtain ⟨tr₂, tr'', produced, rfl, hread, h⟩ := h
        rw [Inquiry.answered_bind] at h
        obtain ⟨tr₃, tr₄, u, rfl, hguard, h⟩ := h
        have hresult : Inquiry.Answered R (Inquiry.settled (.ok (resultOf c options signature
          (signature :: signatures) done.serializedTransaction))) tr₄ (.ok result) := h
        obtain ⟨rfl, haccepted⟩ := Inquiry.answered_settled.1 hguard
        obtain ⟨rfl, heq⟩ := Inquiry.answered_settled.1 hresult
        exact ⟨tr₁, tr₂, done, signature, signatures, produced, by simp, htransact, hread, hsigs,
          haccepted.symm, Except.ok.inj heq⟩
  · rintro ⟨tr₁, tr₂, done, signature, signatures, produced, rfl, htransact, hread, hsigs, hguard,
      rfl⟩
    refine ⟨tr₁, tr₂, done, rfl, htransact, ?_⟩
    simp only [hsigs]
    refine Inquiry.answered_bind.2 ⟨tr₂, [], produced, by simp, hread, ?_⟩
    rw [hguard]
    exact Inquiry.answered_bind.2 ⟨[], [], (), rfl, Inquiry.answered_settled.2 ⟨rfl, rfl⟩,
      Inquiry.answered_settled.2 ⟨rfl, rfl⟩⟩

/-! ## Signatures -/

/-- What is signed for, of a chain and the bytes of a transaction. -/
def digestOf (c : Crypto) (chainId : JsString) (bytes : List UInt8) : List UInt8 :=
  c.sha256 (fromHex chainId ++ bytes ++ List.replicate 32 0)

/-- The transaction that was read back. -/
def readBack (produced : List ProducedAction) : Json :=
  .obj .ordinary [(js "actions", .arr (produced.map ProducedAction.toJson))]

/-- **What a signature stands for.** The bytes are for the pinned chain, signed under the key of the
request; they were read back as the source, and every policy decides about what was read back as
about the transaction. -/
structure Vouched (c : Crypto) (package : ChainPackage) (options : XprSignerOptions)
    (answers : PackageCall → Except Failure PackageReply → Prop) (secrets : Secrets)
    (tx : DecodedTransaction) (key : KeyHandle) (result : SignedTransactionResult)
    (bytes : List UInt8) (produced : List ProducedAction) : Prop where
  chain : key.chain.chainId = options.chainId
  identity : ∀ a ∈ tx.actions, a.authorization = [⟨key.agent, key.permission⟩]
  digest : result.transactionDigest = hex (digestOf c options.chainId bytes)
  signature : SignedUnder c secrets key.keyId (digestOf c options.chainId bytes) result.signature
  read : ∃ tr, Inquiry.Answered answers (package.deserializeTransactionWithActions bytes) tr
    (.ok produced)
  source : Option.Rel Json.Same tx.source (some (readBack produced))
  decided : ∃ ty, decodeXprTransaction (readBack produced) tx.context = .ok ty ∧
    ∀ (policy : Policy) (ctx : EvaluationContext), ctx.dialect = xprDialect →
      evaluatePolicy tx policy ctx = evaluatePolicy ty policy ctx

/-- **A released signature is vouched for**, whatever the endpoint answered and whatever the signer
did before. There are bytes, and actions that the chain package read in them, for which all of
`Vouched` holds of the result and of the transaction that was to be signed. -/
theorem signs_vouched (hpackage : package.Faithful) (hchain : rpc.chainId = options.chainId)
    (hx : x.Distinct) (hdecode : decodeXprTransaction x context = .ok tx)
    (h : Signs c package options rpc secrets ops tx key (.ok result)) : ∃ bytes produced,
      Vouched c package options (Hosted c rpc (apiFor (run options ops) key).1 secrets) secrets tx
        key result bytes produced := by
  cases h with
  | @called actions tr _ hsource hrun =>
    obtain ⟨hkey, ⟨p, ms, rfl, hclosed, hlook⟩, hidentity⟩ := checkSource_ok hdecode hsource
    obtain ⟨tr₁, tr₂, done, signature, signatures, produced, -, htransact, hread, hsigs, hguard,
      rfl⟩ := signWith_ok.1 hrun
    obtain ⟨info, args, reply, hinfo, hsign, hid, hfree, hreply, hbytes⟩ := hpackage.signed htransact
    -- the chain that the package signs for is the pinned one
    have hpinned : args.chainId = options.chainId := by
      cases htransact.allowed _ hinfo with
      | @info answer _ hanswer haccepts =>
        have hchecks : (info.get (js "chain_id")).bind Json.str? = some rpc.chainId := by
          by_contra hne
          simp [VerifiedRpc.accepts, hanswer, hne] at haccepts
        rw [hid, Option.some.injEq] at hchecks
        rw [hchecks, hchain]
    -- the provider was asked with the key of the request
    obtain ⟨hserialized, text, htext, hunder⟩ : reply.serializedTransaction =
        args.serializedTransaction ∧ ∃ text, reply.signatures = [text] ∧
          SignedUnder c secrets key.keyId (signingDigest c args) text := by
      have hanswered := htransact.allowed _ hsign
      generalize hout : (Except.ok (PackageReply.signed reply) : Except Failure PackageReply) = out
        at hanswered
      cases hanswered with
      | sign args =>
        cases hsigned : (apiFor (run options ops) key).1.sign c secrets args with
        | error e =>
          rw [hsigned] at hout
          cases hout
        | ok reply' =>
          rw [hsigned] at hout
          obtain rfl : reply = reply' := by injection Except.ok.inj hout
          rw [← apiFor_keyId options ops key]
          exact sign_ok hsigned
    have hdigest : signingDigest c args = digestOf c options.chainId done.serializedTransaction := by
      rw [signingDigest, hfree, hpinned, hbytes, hserialized]
      rfl
    have hsignature : signature = text := by
      rw [hsigs, htext, Option.some.injEq, List.cons.injEq] at hreply
      exact hreply.1
    rw [hdigest, ← hsignature] at hunder
    have hactions : actions.Distinct := distinct_member hx.2 hlook
    have hsame := roundTripGuard_ok hactions (hpackage.readable hread) hguard
    have hwhole : (Json.obj p ms).Same (readBack produced) := by
      refine closed_same hclosed (by simp [XprSchema.closed]) fun k hk => ?_
      rw [List.mem_singleton.1 hk, hlook]
      exact .some hsame
    have hback : (readBack produced).Distinct :=
      ⟨List.nodup_singleton _, distinctItems_map (hpackage.readable hread), trivial⟩
    obtain ⟨raws, -, -, hsrc⟩ := decode_source hdecode
    obtain ⟨ty, hty, hdecided⟩ := decode_indistinct hdecode hwhole hx hback
    obtain ⟨-, -, -, -, hcontext⟩ := decode_ok hdecode
    refine ⟨done.serializedTransaction, produced, hkey, hidentity, rfl, hunder, ⟨tr₂, hread⟩, ?_, ?_⟩
    · rw [hsrc]
      exact .some hwhole
    · rw [hcontext]
      exact ⟨ty, hty, hdecided⟩

end Signer

/-! A payment on the test network that is signed twice: the second time the Api of the key is
there. The keys, the bytes and the signature are what the libraries make of them. -/

namespace Signer.DemoPayment

/-! ## The keys -/

/-- A pair of keys, the hashes that its checksums begin, and its texts without their prefixes. -/
structure Pair where
  privateKey : List UInt8
  publicKey : List UInt8
  privateHash : List UInt8
  publicHash : List UInt8
  secretText : JsString
  publicText : JsString

/-- The key that the tests of the repository use. -/
def bot : Pair where
  privateKey := fromHex (js "d2653ff7cbb2d8ff129ac27ef5781ce68b2558c41a74af1f2ddca635cbeef07d")
  publicKey := fromHex (js "02c0ded2bc1f1305fb0faac5e6c03ee3a1924234985427b6167ca569d13df435cf")
  privateHash := fromHex (js "55d0b3b418497a6e477c02d51cb64b4390124a54")
  publicHash := fromHex (js "3e288de4580d5bb08b0d16babdbde820ed07dc60")
  secretText := js "2bfGi9rYsXQSXXTvJbDAPhHLQUojjaNLomdm3cEJ1XTzMqUt3V"
  publicText := js "6MRyAjQq8ud7hVNYcfnVPJqcVpscN5So8BhtHuGYqET5BoDq63"

/-- That of another agent: its private key is the hash of `bursar`. -/
def bursar : Pair where
  privateKey := fromHex (js "d100089e7c5e1d1f1d769bec565ace0ad7994e45d6b8dcca7b35a2dbf54cdd84")
  publicKey := fromHex (js "034a50cc6583f7618f406a93d9a11d845b140923fc7cd103b24e968e39cf105d6c")
  privateHash := fromHex (js "f56347e4450799311e571eb57acba7ccf5f4d746")
  publicHash := fromHex (js "d724a42ae5ef5ce1ee9ba5a8b41b6d58848f53a5")
  secretText := js "2b3dR6Qr62kZMdCA8cTqVV3NLzUZcaxXmFMGpSHtXx4DhyfoGP"
  publicText := js "7Pxpg8RnpLKMe6XnCsyjKrNeNKsAkkgDEE5Ca1bFp1pUDMaKsf"

/-- The two keys there are: the agent's and another one. -/
def pairs : List Pair := [bot, bursar]

/-- The secret as key generation writes it, and the public key. -/
def Pair.secret (p : Pair) : List UInt8 := utf8 (js "PVT_K1_" ++ p.secretText)

/-- The public key as the chain package writes it. -/
def Pair.public (p : Pair) : JsString := js "PUB_K1_" ++ p.publicText

/-! ## The transaction -/

/-- The test network. -/
def context : ChainContext := ⟨js "XPR", js "testnet",
  js "71ee83bcf52142d61019d95f9cc5427ba6a0d7ff8accd9e2088ae2abeaf3d3dd"⟩

/-- A payment by the agent. -/
def payment : ProducedAction where
  account := .str (js "eosio.token")
  name := .str (js "transfer")
  authorization := .arr [.obj .ordinary [(js "actor", .str (js "bot")),
    (js "permission", .str (js "active"))]]
  data := .obj .ordinary [(js "from", .str (js "bot")), (js "to", .str (js "alice")),
    (js "quantity", .str (js "1.0000 XPR")), (js "memo", .str (js "tip"))]

/-- It is the only action. -/
def actions : Json := .arr [payment.toJson]

/-- The transaction as the request holds it. -/
def source : Json := .obj .ordinary [(js "actions", actions)]

/-- The packed transaction: it expires 60 s after block 300000000, which it refers to. -/
@[irreducible] def bytes : List UInt8 := fromHex
  (js "fb3b4e6a00a3b168de3a000000000100a6823403ea3055000000572d3ccdcd01000000000000323d000000" ++
    js "00a8ed323224000000000000323d0000000000855c34102700000000000004585052000000000374697000")

/-- The digest of the packed bytes and the chain's identifier. -/
@[irreducible] def digest : List UInt8 :=
  fromHex (js "3fe91cec3ded2a0acf080ad33daf6f1cc892f09bf1494afdec4368bbaa569629")

/-- The signature of the digest under the key of the agent, canonical at the first attempt. -/
@[irreducible] def recovered : List UInt8 := fromHex
  (js "004d8adb750da25093dc87eb6e20c64c08ff2cd8db53006f7df48f0a5f0f3177f3" ++
    js "775b3e4ac4fdfc3b6ded00085003468420b52c8437d431633a2499840bf75110")

/-- The deterministic signature of the digest under the agent's key, as text. -/
@[irreducible] def signature : JsString :=
  js "SIG_K1_K5QAwWqaENndVGpCyRUday1ficmz1jDPZn9C5hXuoJWEDEQ" ++
    js "9pEBhZpnYw2QDykeDUEQC9SqSPp4x7QPkWqczaUYgqs7U3F"

/-! ## The libraries -/

/-- The libraries, as tables of what they answer for these keys and this payment. -/
def crypto : Crypto where
  sha256 data :=
    if data = fromHex context.chainId ++ bytes ++ List.replicate 32 0 then digest else []
  ripemd160 data :=
    ((pairs.flatMap fun p => [(p.privateKey ++ utf8 (js "K1"), p.privateHash),
      (p.publicKey ++ utf8 (js "K1"), p.publicHash)]).lookup data).getD []
  base58Encode data :=
    ((pairs.map fun p => (p.publicKey ++ p.publicHash.take 4, p.publicText)).lookup data).getD []
  base58Decode text :=
    (pairs.map fun p => (p.secretText, p.privateKey ++ p.privateHash.take 4)).lookup text
  getPublicKey privateKey := (pairs.map fun p => (p.privateKey, p.publicKey)).lookup privateKey
  curveSign data privateKey extraEntropy :=
    if data = digest ∧ privateKey = bot.privateKey ∧ extraEntropy = none then some recovered
    else none
  signatureToString data := if data = 31 :: recovered.tail then signature else []

/-! ## The chain package -/

/-- A question whose answer is read; the run ends where it cannot be. -/
def ask {α : Type} (call : PackageCall) (read : PackageReply → Option α) : Program α := do
  match read (← Inquiry.inquire id call) with
  | some a => Inquiry.settled (.ok a)
  | none => Inquiry.settled (.error .other)

/-- The chain id, and the number of the head block. -/
def readInfo : PackageReply → Option (JsString × ℕ)
  | .info info => do
    let chainId ← (info.get (js "chain_id")).bind Json.str?
    match info.get (js "head_block_num") with
    | some (.num head) => return (chainId, (← head.safeInt?).toNat)
    | _ => none
  | _ => none

/-- The body of an answered request. -/
def readFetched : PackageReply → Option Json
  | .fetched result => some result
  | _ => none

/-- The keys a provider says it has. -/
def readKeys : PackageReply → Option (List JsString)
  | .keys keys => some keys
  | _ => none

/-- What a signing request returns. -/
def readSigned : PackageReply → Option PushTransactionArgs
  | .signed args => some args
  | _ => none

/-- The request for the block that the transaction refers to. -/
def getBlock (number : ℕ) : PackageCall := .fetch ⟨js "/v1/chain/get_block",
  .obj .ordinary [(js "block_num_or_id", .num (.finite (.ofNat number)))]⟩

/-- The request for a contract's interface. -/
def getRawAbi (account : JsString) : PackageCall := .fetch ⟨js "/v1/chain/get_raw_abi",
  .obj .ordinary [(js "account_name", .str account)]⟩

/-- The block that the transaction refers to. -/
def block : Json := .obj .ordinary [(js "timestamp", .str (js "2026-07-08T11:59:59.000")),
  (js "block_num", .num (.finite (.ofNat 300000000))),
  (js "ref_block_prefix", .num (.finite (.ofNat 987654321)))]

/-- The ABI of the token with its transfer, as it is stored on the chain. -/
def rawAbi : Json := .obj .ordinary [(js "account_name", .str (js "eosio.token")),
  (js "abi", .str (js "DmVvc2lvOjphYmkvMS4xAAEIdHJhbnNmZXIABARmcm9tBG5hbWUCdG8EbmFtZQhxdWFu" ++
    js "dGl0eQVhc3NldARtZW1vBnN0cmluZwEAAABXLTzNzQh0cmFuc2ZlcgAAAAAAAA=="))]

/-- The packed form of this payment, with the header that the block gives. -/
def serialize (source refBlock abi : Json) (expireSeconds : ℕ) : Except Failure (List UInt8) :=
  if source.stringify = actions.stringify ∧ refBlock.stringify = block.stringify ∧
      abi.stringify = rawAbi.stringify ∧ expireSeconds = 60 then .ok bytes
  else .error .other

/-- The package on a payment: it asks for the chain, the block it refers to and the ABI, packs the
transaction, and asks for the keys and for their signatures. -/
def package : ChainPackage where
  transact source config := do
    let head ← ask .getInfo readInfo
    let refBlock ← ask (getBlock (head.2 - config.blocksBehind)) readFetched
    let abi ← ask (getRawAbi (js "eosio.token")) readFetched
    let packed ← Inquiry.settled (serialize source refBlock abi config.expireSeconds)
    let availableKeys ← ask .getAvailableKeys readKeys
    let requiredKeys ← ask (.getRequiredKeys availableKeys) readKeys
    let reply ← ask (.sign ⟨head.1, requiredKeys, packed, none⟩) readSigned
    Inquiry.settled (.ok ⟨some reply.signatures, reply.serializedTransaction⟩)
  deserializeTransactionWithActions packed :=
    Inquiry.settled (if packed = bytes then .ok [payment] else .error .other)

/-- One question is answered in one way: by the reply of the world, where it can be read. -/
theorem ask_iff {R : PackageCall → Except Failure PackageReply → Prop} {α : Type}
    {call : PackageCall} {read : PackageReply → Option α} {a : α}
    {tr : List (PackageCall × Except Failure PackageReply)} :
    Inquiry.Answered R (ask call read) tr (.ok a) ↔
      ∃ reply, tr = [(call, .ok reply)] ∧ R call (.ok reply) ∧ read reply = some a := by
  rw [ask, Inquiry.answered_bind]
  constructor
  · rintro ⟨tr₁, tr₂, reply, rfl, hasked, h⟩
    obtain ⟨rfl, hR⟩ := Inquiry.answered_inquire.1 hasked
    cases hread : read reply with
    | none => simp only [hread, Inquiry.answered_settled, reduceCtorEq, and_false] at h
    | some a' =>
      simp only [hread, Inquiry.answered_settled, Except.ok.injEq] at h
      exact ⟨reply, by rw [h.1]; rfl, hR, by rw [hread, h.2]⟩
  · rintro ⟨reply, rfl, hR, hread⟩
    refine ⟨_, [], reply, rfl, Inquiry.answered_inquire.2 ⟨rfl, hR⟩, ?_⟩
    simp only [hread, Inquiry.answered_settled, true_and]

/-- What is read from the chain's information is the identifier in it. -/
theorem readInfo_some {reply : PackageReply} {head : JsString × ℕ}
    (h : readInfo reply = some head) :
    ∃ info, reply = .info info ∧ (info.get (js "chain_id")).bind Json.str? = some head.1 := by
  cases reply with
  | info info =>
    obtain ⟨chainId, hchain, h⟩ := Option.bind_eq_some_iff.1 h
    refine ⟨info, rfl, ?_⟩
    split at h
    · obtain ⟨number, -, h⟩ := Option.bind_eq_some_iff.1 h
      rw [hchain, ← Option.some.inj h]
    · cases h
  | _ => cases h

/-- A signed reply is read as itself. -/
theorem readSigned_some {reply : PackageReply} {args : PushTransactionArgs}
    (h : readSigned reply = some args) : reply = .signed args := by
  cases reply with
  | signed args' => rw [Option.some.inj h]
  | _ => cases h

/-- The payment holds nothing but strings, names and finite numbers. -/
theorem payment_sound : payment.toJson.Sound JsNumber.finite := by
  have hkeys : [js "account", js "name", js "authorization", js "data"].Nodup := by decide
  have hauth : [js "actor", js "permission"].Nodup := by decide
  have hdata : [js "from", js "to", js "quantity", js "memo"].Nodup := by decide
  exact ⟨hkeys, trivial, trivial, ⟨⟨hauth, trivial, trivial, trivial⟩, trivial⟩,
    ⟨hdata, trivial, trivial, trivial, trivial, trivial⟩, trivial⟩

/-- So its keys are distinct at every level, -/
theorem payment_distinct : payment.toJson.Distinct := distinct_of_sound _ payment_sound

/-- and those of the whole transaction. -/
theorem source_distinct : source.Distinct :=
  ⟨List.nodup_singleton _, ⟨payment_distinct, trivial⟩, trivial⟩

/-- The package keeps to what is documented: it has the bytes signed for the chain it was told of,
returns what the provider returned, and reads its own bytes back. -/
theorem package_faithful : package.Faithful where
  signed := by
    intro R source config tr done h
    obtain ⟨_, _, head, rfl, hhead, hrun⟩ := Inquiry.answered_bind.1 h
    obtain ⟨_, _, refBlock, rfl, -, hrun⟩ := Inquiry.answered_bind.1 hrun
    obtain ⟨_, _, abi, rfl, -, hrun⟩ := Inquiry.answered_bind.1 hrun
    obtain ⟨_, _, packed, rfl, -, hrun⟩ := Inquiry.answered_bind.1 hrun
    obtain ⟨_, _, availableKeys, rfl, -, hrun⟩ := Inquiry.answered_bind.1 hrun
    obtain ⟨_, _, requiredKeys, rfl, -, hrun⟩ := Inquiry.answered_bind.1 hrun
    obtain ⟨_, _, args, rfl, hsign, hrun⟩ := Inquiry.answered_bind.1 hrun
    obtain ⟨rfl, hdone⟩ := Inquiry.answered_settled.1 hrun
    obtain ⟨reply, rfl, -, hinfo⟩ := ask_iff.1 hhead
    obtain ⟨info, rfl, hid⟩ := readInfo_some hinfo
    obtain ⟨signed, rfl, -, hread⟩ := ask_iff.1 hsign
    obtain rfl := readSigned_some hread
    obtain rfl := Except.ok.inj hdone
    exact ⟨info, ⟨head.1, requiredKeys, packed, none⟩, args, by simp, by simp, hid, rfl, rfl, rfl⟩
  readable := by
    intro R packed tr produced h a ha
    have hproduced := (Inquiry.answered_settled.1 h).2
    split_ifs at hproduced
    rw [Except.ok.inj hproduced, List.mem_singleton] at ha
    rw [ha]
    exact payment_distinct

/-! ## The signature -/

/-- The handle of the agent's key. -/
def key : KeyHandle := ⟨js "bot", bot.public, context, js "bot", js "active"⟩

/-- The signer is for this chain, with the default lifetime of a transaction. -/
def options : XprSignerOptions := ⟨context.chainId, none⟩

/-- One endpoint, and a fetch that answers for the test network. -/
def rpc : VerifiedRpcOptions where
  chainId := context.chainId
  freshnessMs := VerifiedRpc.DEFAULT_FRESHNESS_MS
  maxHeadLagMs := VerifiedRpc.DEFAULT_MAX_HEAD_LAG_MS
  dateParse text := if text = js "2026-07-08T12:00:00.500Z" then some 1783512000500 else none

/-- Only the agent's own key is in the store. -/
def secrets : Secrets := [(js "bot", bot.secret)]

/-- The chain's answer: its own identifier, and the head of the chain. -/
def info : Json := .obj .ordinary [(js "chain_id", .str context.chainId),
  (js "head_block_num", .num (.finite (.ofNat 300000003))),
  (js "head_block_time", .str (js "2026-07-08T12:00:00.500"))]

/-- How the policy sees the transfer. -/
def tx : DecodedTransaction where
  context := context
  actions := [⟨js "eosio.token", js "transfer", [⟨js "bot", js "active"⟩],
    [(js "from", .str (js "bot")), (js "to", .str (js "alice")),
      (js "quantity", .obj .ordinary [(js "amount", .str (js "1.0000")),
        (js "symbol", .str (js "XPR")), (js "precision", .num (.finite (.ofNat 4)))]),
      (js "memo", .str (js "tip"))]⟩]
  source := some source

/-- The source decodes to the payment. -/
theorem decode_payment : decodeXprTransaction source context = .ok tx :=
  decode_of_transaction (by decide +kernel) rfl rfl

/-- What the signer returns: these bytes, this signature, this digest. -/
def result : SignedTransactionResult := resultOf crypto options signature [signature] bytes

/-- The signature provider of the agent's key. -/
def provider : KeystoreSignatureProvider := ⟨js "bot", bot.public⟩

/-- What the package asks it to sign. -/
def request : SignatureProviderArgs := ⟨context.chainId, [bot.public], bytes, none⟩

/-- It signs with the secret stored under the key's name. -/
theorem provider_sign {secrets : Secrets} (hkey : secrets.lookup (js "bot") = some bot.secret) :
    provider.sign crypto secrets request = .ok ⟨[signature], bytes, none⟩ := by
  have hprivate : privateKeyOf crypto secrets (js "bot") = .ok bot.privateKey := by
    rw [privateKeyOf, hkey]
    decide +kernel
  have hdigest : signingDigest crypto request = digest := if_pos rfl
  have hcurve : signDigestK1Canonical crypto bot.privateKey digest = .ok recovered := by
    decide +kernel
  have hscheme : ¬ (SignatureScheme.secp256k1Canonical ≠ .secp256k1Canonical ∧
      SignatureScheme.secp256k1Canonical ≠ .secp256k1) := by decide
  have hsigned : signDigest crypto secrets (js "bot") digest .secp256k1Canonical =
      .ok recovered := by
    rw [signDigest, if_neg hscheme, hprivate, ok_bind, hcurve]
  have hdata : signatureData recovered = .ok (31 :: recovered.tail) := by decide +kernel
  have htext : crypto.signatureToString (31 :: recovered.tail) = signature := if_pos rfl
  have hkeyId : provider.keyId = js "bot" := rfl
  rw [KeystoreSignatureProvider.sign, hdigest, hkeyId, hsigned, ok_bind, hdata, ok_bind, htext]
  rfl

/-- The payment is signed once more, after the Api of its key was dropped. -/
theorem signed {secrets : Secrets} (hkey : secrets.lookup (js "bot") = some bot.secret) :
    Signs crypto package options rpc secrets [.sign tx key, .evict (js "bot")] tx key
      (.ok result) := by
  have haccepts : VerifiedRpc.accepts rpc ⟨some info, 1783512001000, 1783512001000⟩ = true := by
    decide +kernel
  have hinfo : Hosted crypto rpc provider secrets .getInfo (.ok (.info info)) := .info rfl haccepts
  have hsign : Hosted crypto rpc provider secrets (.sign request)
      (.ok (.signed ⟨[signature], bytes, none⟩)) := by
    have hallowed : Hosted crypto rpc provider secrets (.sign request)
      ((provider.sign crypto secrets request).map .signed) := .sign _
    rw [provider_sign hkey] at hallowed
    exact hallowed
  have hread : readInfo (.info info) = some (context.chainId, 300000003) := by decide +kernel
  have hpacked : serialize actions block rawAbi 60 = .ok bytes := if_pos ⟨rfl, rfl, rfl, rfl⟩
  have hreply : Inquiry.Answered (Hosted crypto rpc provider secrets)
      (ask (.sign request) readSigned) _ (.ok ⟨[signature], bytes, none⟩) :=
    ask_iff.2 ⟨_, rfl, hsign, rfl⟩
  have hdone : Inquiry.Answered (Hosted crypto rpc provider secrets)
      (Inquiry.settled (.ok ⟨some [signature], bytes⟩) : Program Transacted) [] (.ok _) :=
    Inquiry.answered_settled.2 ⟨rfl, rfl⟩
  have htransact : Inquiry.Answered (Hosted crypto rpc provider secrets)
      (package.transact actions options.config) _ (.ok ⟨some [signature], bytes⟩) :=
    Inquiry.answered_bind.2 ⟨_, _, _, rfl, ask_iff.2 ⟨_, rfl, hinfo, hread⟩,
      Inquiry.answered_bind.2 ⟨_, _, _, rfl, ask_iff.2 ⟨_, rfl, .fetched _ block, rfl⟩,
      Inquiry.answered_bind.2 ⟨_, _, _, rfl, ask_iff.2 ⟨_, rfl, .fetched _ rawAbi, rfl⟩,
      Inquiry.answered_bind.2 ⟨_, _, _, rfl, Inquiry.answered_settled.2 ⟨rfl, hpacked.symm⟩,
      Inquiry.answered_bind.2 ⟨_, _, _, rfl, ask_iff.2 ⟨_, rfl, .availableKeys, rfl⟩,
      Inquiry.answered_bind.2 ⟨_, _, _, rfl, ask_iff.2 ⟨_, rfl, .requiredKeys _, rfl⟩,
      Inquiry.answered_bind.2 ⟨_, _, _, rfl, hreply, hdone⟩⟩⟩⟩⟩⟩⟩
  have hguard : roundTripGuard [payment] actions = .ok () := by
    have hcanonical := canonicalize_ok actions ⟨payment_sound, trivial⟩
    simp only [roundTripGuard, bind_ok, mapError_ok]
    exact ⟨_, hcanonical, _, hcanonical, if_neg fun hne => hne rfl⟩
  have hchecked : checkSource options tx key = .ok actions := rfl
  exact .called hchecked (signWith_ok.2 ⟨_, [], _, _, _, [payment], rfl, htransact,
    Inquiry.answered_settled.2 ⟨rfl, (if_pos rfl).symm⟩, rfl, hguard, rfl⟩)

/-- **The signature of the payment is vouched for.** The agent's interface was made, dropped and
made again before. -/
theorem signs_vouched_payment : ∃ bytes produced, Vouched crypto package options
    (Hosted crypto rpc (apiFor (run options [.sign tx key, .evict (js "bot")]) key).1 secrets)
    secrets tx key result bytes produced :=
  signs_vouched package_faithful rfl source_distinct decode_payment (signed rfl)

end Signer.DemoPayment

end Signbox

import Signbox.Spec.Json

/-!
# Core contracts

`core/types.ts` and `core/errors.ts`: the chain-agnostic view of a transaction,
the refusal codes, the structured decision, and the typed error hierarchy.
-/

namespace Signbox

/-! ## Errors -/

/-- The errors the decision pipeline throws, by class. `type` stands for an error
the language itself raises, such as a `TypeError`. -/
inductive JsError where
  | validation (msg : JsString)
  | canonicalization (msg : JsString)
  | asset (msg : JsString)
  | ambiguous (msg : JsString)
  | providerUnavailable (msg : JsString)
  | type
  deriving DecidableEq

/-! ## Transactions -/

structure ChainContext where
  chain : JsString
  network : JsString
  chainId : JsString
  deriving DecidableEq

/-- `Required<AccountIdentity>`. -/
structure AccountIdentity where
  accountIdentifier : JsString
  permission : JsString
  deriving DecidableEq

/-- An action in chain-agnostic form. `data` is a record without a prototype, so a path finds its
own members only. -/
structure DecodedAction where
  contract : JsString
  action : JsString
  authorization : List AccountIdentity
  data : List (JsString × Json)

structure DecodedTransaction where
  context : ChainContext
  actions : List DecodedAction
  /-- The validated original input, what the signer hands to the chain package. -/
  source : Option Json

/-- The field `key` of an action's data, as a property read sees it. -/
def DecodedAction.field? (a : DecodedAction) (key : JsString) : Option Json := a.data.lookup key

/-! ## Decisions -/

/-- Machine-readable refusal categories. A refusal carries one of them, with a text that is safe to
show. -/
inductive DenyCode where
  | schemaInvalid
  | chainMismatch
  | emptyTransaction
  | multiAuthorization
  | authorizationMismatch
  | ruleDeny
  | defaultDeny
  | tooManyActions
  | limitExceeded
  | ambiguousValue
  | policyUnavailable
  | providerUnavailable
  | agentDisabled
  | unauthenticated
  | requestExpired
  | nonceReused
  | quotaUnavailable
  | capabilityDenied
  | broadcastUnavailable
  | internalError
  deriving DecidableEq

/-- The single structured output of the policy engine. There is no third outcome. -/
inductive Decision where
  | allow (ruleIds : List JsString) (policyVersion : ℤ)
  | deny (code : DenyCode) (safeReason : JsString) (policyVersion : Option ℤ)
  deriving DecidableEq

/-- `decision.effect === "allow"`. -/
def Decision.isAllow : Decision → Bool
  | .allow .. => true
  | .deny .. => false

/-- Opaque reference to a stored key, with the identity the key is bound to. The key itself is not
in it. -/
structure KeyHandle where
  keyId : JsString
  publicKey : JsString
  chain : ChainContext
  agent : JsString
  permission : JsString
  deriving DecidableEq

/-- Result of a successful signing call: the signature, what it stands for, and what can be
submitted. -/
structure SignedTransactionResult where
  signature : JsString
  transactionDigest : JsString
  signedTransaction : Option Json

end Signbox

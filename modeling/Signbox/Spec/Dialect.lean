import Signbox.Spec.Asset
import Signbox.Spec.Text

/-!
# Policy dialects

`core/policy/dialect.ts`, the vocabulary of `core/policy/vocabulary.ts`, and the XPR
dialect of `chains/xpr/dialect.ts`. The engine and the validator take the dialect as
a parameter; a pattern of the vocabulary is the predicate it compiles to.
-/

namespace Signbox

/-- The resolved arguments of a table-row provider query: no variable is left in them. -/
structure ProviderArgs where
  contract : JsString
  scope : JsString
  table : JsString
  key : JsString
  deriving DecidableEq

structure ProviderQuery where
  key : JsString
  provider : JsString
  args : ProviderArgs
  deriving DecidableEq

/-- Evidence for one resolved provider query: a row, the absence of one
(`found: false`), or `{ ok: false }`. -/
inductive ProviderEvidence where
  | row (members : List (JsString × Json))
  | notFound
  | failed

/-- The read-only relay, as the dialect sees it: a method and its parameters. It answers with JSON
or throws. -/
abbrev DialectRelay := JsString → Json → Except JsError Json

structure PolicyDialect where
  matchPathPattern : JsString → Bool
  selectFieldPattern : JsString → Bool
  chainIdPattern : JsString → Bool
  providerNamespace : JsString
  /-- Resolve a match path against a decoded action. -/
  resolvePath : DecodedAction → JsString → Except JsError JsValue
  /-- The action's comparable asset, for value limits. -/
  assetOf : DecodedAction → Except JsError AssetAmount
  /-- The action's recipient for per-recipient quotas. -/
  recipientOf : DecodedAction → Option JsString
  parseAssetLimit : JsString → Except JsError AssetAmount
  resolveProviderQuery : ProviderQuery → DialectRelay → Except JsError ProviderEvidence

/-! ## Vocabulary -/

/-- `RULE_ID_PATTERN`. -/
def ruleIdPattern (s : JsString) : Bool :=
  match s with
  | [] => false
  | u :: us => (isLower u || isDigit u) &&
      matchesClass (fun c => isLower c || isDigit c || c == unit '-') 0 63 us

/-- `CHAIN_ID_PATTERN`. -/
def CHAIN_ID_PATTERN (s : JsString) : Bool :=
  matchesClass (fun c => isDigit c || (decide (unit 'a' ≤ c) && decide (c ≤ unit 'f'))) 64 64 s

/-- `SELECT_FIELD_PATTERN`. -/
def SELECT_FIELD_PATTERN (s : JsString) : Bool := matchesClass isWord 1 64 s

/-- `MATCH_PATH_PATTERN`: a closed vocabulary of paths, of which only `data.` has a free part, five
segments deep at most. -/
def MATCH_PATH_PATTERN (s : JsString) : Bool :=
  s = js "contract" || s = js "action" || s = js "authorization.actor" ||
    s = js "authorization.permission" ||
    ((js "data.").isPrefixOf s &&
      let segments := JsString.split (unit '.') (s.drop 5)
      decide (segments.length ≤ 5) && segments.all (matchesClass isWord 1 64))

/-! ## The XPR dialect -/

namespace xprDialect

/-- Follow the segments of a `data.` path. -/
def walk : JsValue → List JsString → JsValue
  | v, [] => v
  | v, seg :: segs => walk (v.readObject seg) segs

def resolvePath (action : DecodedAction) (path : JsString) : Except JsError JsValue :=
  let head := action.authorization.head?
  let text (s : Option JsString) : JsValue := s.elim .undefined fun s => .json (.str s)
  if path = js "contract" then .ok (.json (.str action.contract))
  else if path = js "action" then .ok (.json (.str action.action))
  else if path = js "authorization.actor" then .ok (text (head.map (·.accountIdentifier)))
  else if path = js "authorization.permission" then .ok (text (head.map (·.permission)))
  else if (js "data.").isPrefixOf path then
    .ok (walk (.json (.obj .bare action.data)) (JsString.split (unit '.') (path.drop 5)))
  else .error (.ambiguous (js "unresolvable match path: " ++ path))

/-- The normalizer produces `data.quantity = { amount, symbol, precision }`. An action without one
has no asset, and throws. -/
def assetOf (action : DecodedAction) : Except JsError AssetAmount :=
  match action.field? (js "quantity") with
  | some (.obj _ q) =>
    match q.lookup (js "amount"), q.lookup (js "symbol"), q.lookup (js "precision") with
    | some (.str amount), some (.str symbol), some (.num precision) => do
      let bare ← parseBareAmount amount
      if precision.toInt? = some (bare.precision : ℤ) then
        return ⟨bare.units, symbol, bare.precision⟩
      else throw (.ambiguous (js "normalized quantity precision mismatch"))
    | _, _, _ => .error noAsset
  | _ => .error noAsset
where
  noAsset : JsError :=
    .ambiguous (js "rule has limits but the action carries no comparable asset")

def recipientOf (action : DecodedAction) : Option JsString :=
  (action.field? (js "to")).bind Json.str?

/-- `xpr.rpc.tableRow`: a single row bounded on the primary key. No row is an answer, and anything
that is no row is a failure. -/
def resolveProviderQuery (query : ProviderQuery) (relay : DialectRelay) :
    Except JsError ProviderEvidence := do
  let params : Json := .obj .ordinary
    [(js "code", .str query.args.contract), (js "scope", .str query.args.scope),
      (js "table", .str query.args.table), (js "lower_bound", .str query.args.key),
      (js "upper_bound", .str query.args.key),
      (js "limit", .num (.finite ⟨false, 1, 0, by decide⟩)), (js "json", .bool true)]
  let result ← relay (js "get_table_rows") params
  let rows : JsValue ← match result with
    | .null => throw .type
    | v => pure ((JsValue.json v).readObject (js "rows"))
  return match rows with
    | .json (.arr []) => .notFound
    | .json (.arr (.obj _ row :: _)) => .row row
    | _ => .failed

end xprDialect

/-- The XPR policy dialect: the paths and assets of its actions, and the one provider it knows. -/
def xprDialect : PolicyDialect where
  matchPathPattern := MATCH_PATH_PATTERN
  selectFieldPattern := SELECT_FIELD_PATTERN
  chainIdPattern := CHAIN_ID_PATTERN
  providerNamespace := js "xpr.rpc.tableRow"
  resolvePath := xprDialect.resolvePath
  assetOf := xprDialect.assetOf
  recipientOf := xprDialect.recipientOf
  parseAssetLimit := parseAsset
  resolveProviderQuery := xprDialect.resolveProviderQuery

end Signbox

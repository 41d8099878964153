import Signbox.Proof.Contract
import Signbox.Proof.Numbers
import Signbox.Spec.Landed

/-!
# What a landed onboarding is verified for

* `verifyLanded_accepts`: what the function reads, for every state of the chain.
* `onboarded_requested`: the state the actions of a request lead to, and that it is accepted.
* `verified_requested_iff`: when an accepted state is the requested one. Four things are not read:
  further permissions, the version of the row, whether it is enabled, and the permission `active`
  when the request names another one.
-/

namespace Signbox

namespace Landed

open ChainState Guard

variable {numeric : JsString → Option JsString} {st : ChainState} {args : VerifyLandedArgs}
variable {auth : Authority} {perms : List Permission} {p : Permission} {key : JsString} {name : Name}

/-! ## What the request asks for -/

/-- Two texts of one public key: both can be read, and their canonical texts agree. -/
def SameKey (numeric : JsString → Option JsString) (key key' : JsString) : Prop :=
  ∃ canonical, numeric key = some canonical ∧ numeric key' = some canonical

/-- The state an onboarding asks for: an account of exactly two permissions, one key each, and the
first row, enabled. -/
structure Requested (numeric : JsString → Option JsString) (st : ChainState)
    (args : VerifyLandedArgs) : Prop where
  account : ∃ agentKey ownerKey authorityKey, st.activeKey args.input.authority = some authorityKey ∧
    SameKey numeric ownerKey authorityKey ∧ SameKey numeric agentKey args.agentPublicKey ∧
    ∃ perms, st.account args.input.agent = some perms ∧
      perms.Perm [⟨js "active", keyAuthority agentKey⟩, ⟨js "owner", keyAuthority ownerKey⟩]
  row : ∃ row, st.policies.row? args.input.agent = some row ∧
    row.authority = args.input.authority ∧ row.agentperm = args.input.permission ∧
    row.version = 1 ∧ hex row.policyhash = args.emptyPolicyHash ∧ row.enabled = true

/-! ## What is read -/

/-- Threshold 1 and exactly one key, the expected one. A weight above one changes nothing about who
controls the authority. -/
structure Controls (numeric : JsString → Option JsString) (auth : Authority) (key : JsString) :
    Prop where
  threshold : auth.threshold = 1
  accounts : auth.accounts = []
  waits : auth.waits = []
  key : ∃ held weight, auth.keys = [(held, weight)] ∧ 1 ≤ weight ∧ SameKey numeric held key

theorem ofNat_inj {n m : ℕ} :
    JsNumber.finite (.ofNat n) = .finite (.ofNat m) ↔ n = m := by
  constructor
  · intro h
    have hvalue : (Decimal.ofNat n).value = (Decimal.ofNat m).value := by
      rw [JsNumber.finite.inj h]
    rw [value_ofNat, value_ofNat] at hvalue
    exact_mod_cast hvalue
  · rintro rfl
    rfl

theorem belowOne_ofNat {n : ℕ} : Onboard.belowOne (.finite (.ofNat n)) = decide (n < 1) := by
  have hcast : ((n : ℚ) < 1) ↔ n < 1 := by exact_mod_cast Iff.rfl
  simp only [Onboard.belowOne, value_ofNat, hcast]

/-- The key of an entry is the expected one, as the check compares them. -/
def keyMatches (numeric : JsString → Option JsString) (held : Option JsString) (key : JsString) :
    Bool :=
  match normalizePublicKey numeric (some key), normalizePublicKey numeric held with
  | some expected, some onChain => onChain == expected
  | _, _ => false

theorem keyMatches_iff {held : JsString} :
    keyMatches numeric (some held) key = true ↔ SameKey numeric held key := by
  unfold keyMatches SameKey
  simp only [normalizePublicKey, Option.bind_some]
  cases numeric key with
  | none => simp
  | some expected =>
    cases numeric held with
    | none => simp
    | some onChain =>
      simp only [beq_iff_eq, Option.some.injEq]
      constructor
      · rintro rfl
        exact ⟨onChain, rfl, rfl⟩
      · rintro ⟨canonical, rfl, rfl⟩
        rfl

/-- The check, on what is answered. -/
theorem authorizesExclusively_cases {auth : RequiredAuth} :
    authorizesExclusively numeric (some auth) key = true ↔
      auth.threshold = some (.finite (.ofNat 1)) ∧ auth.accounts.elim 1 List.length = 0 ∧
        auth.waits.elim 1 List.length = 0 ∧ ∃ only, auth.keys = some [only] ∧
          only.weight.any Onboard.belowOne = false ∧ keyMatches numeric only.key key = true := by
  simp only [authorizesExclusively]
  by_cases hthreshold : auth.threshold = some (.finite (.ofNat 1))
  · by_cases haccounts : auth.accounts.elim 1 List.length = 0
    · by_cases hwaits : auth.waits.elim 1 List.length = 0
      · rw [if_neg (not_not.2 hthreshold), if_neg (not_not.2 haccounts), if_neg (not_not.2 hwaits)]
        split
        case h_1 only hkeys =>
          cases hweight : only.weight.any Onboard.belowOne with
          | true => simp [hthreshold, haccounts, hwaits, hkeys, hweight]
          | false =>
            simp only [hthreshold, haccounts, hwaits, hkeys, Option.some.injEq, List.cons.injEq,
              and_true, true_and, exists_eq_left', hweight]
            exact Iff.rfl
        case h_2 hkeys =>
          constructor
          · intro h
            cases h
          · rintro ⟨-, -, -, only, honly, -⟩
            exact absurd honly (hkeys only)
      · simp [hthreshold, haccounts, hwaits]
    · simp [hthreshold, haccounts]
  · simp [hthreshold]

theorem authorizesExclusively_iff :
    authorizesExclusively numeric (some (answeredAuth auth)) key = true ↔
      Controls numeric auth key := by
  have hthreshold : some (JsNumber.finite (.ofNat auth.threshold.toNat)) =
      some (.finite (.ofNat 1)) ↔ auth.threshold = 1 := by
    rw [Option.some.injEq, ofNat_inj, ← UInt32.toNat_inj]
    rfl
  have hweight : ∀ weight : UInt16,
      Onboard.belowOne (.finite (.ofNat weight.toNat)) = false ↔ 1 ≤ weight := by
    intro weight
    rw [belowOne_ofNat, decide_eq_false_iff_not, Nat.not_lt, UInt16.le_iff_toNat_le]
    rfl
  rw [authorizesExclusively_cases]
  constructor
  · rintro ⟨hone, haccounts, hwaits, only, hkeys, hlight, hkey⟩
    obtain ⟨⟨held, weight⟩, hentry, rfl⟩ := List.map_eq_singleton_iff.1 (Option.some.inj hkeys)
    exact ⟨hthreshold.1 hone, List.length_eq_zero_iff.1 haccounts,
      List.length_eq_zero_iff.1 hwaits, held, weight, hentry, (hweight weight).1 hlight,
      keyMatches_iff.1 hkey⟩
  · intro h
    obtain ⟨held, weight, hkeys, hle, hsame⟩ := h.key
    have hentry : (answeredAuth auth).keys =
        some [⟨some held, some (.finite (.ofNat weight.toNat))⟩] := by
      simp only [answeredAuth, hkeys, List.map_cons, List.map_nil]
    exact ⟨hthreshold.2 h.threshold, by simp [answeredAuth, h.accounts],
      by simp [answeredAuth, h.waits], _, hentry, (hweight weight).2 hle, keyMatches_iff.2 hsame⟩

theorem permission?_map (perms : List Permission) (name : Name) :
    permission? (perms.map answered) name =
      (perms.find? fun p => p.perm_name = name).map answered := by
  unfold permission?
  rw [List.find?_map]
  congr 2
  funext p
  simp [answered]

/-- What is compared with the request: two authorities of the account and three fields of its
row. -/
structure Matches (numeric : JsString → Option JsString) (st : ChainState)
    (args : VerifyLandedArgs) : Prop where
  account : ∃ perms signing owner authorityKey, st.account args.input.agent = some perms ∧
    perms.find? (fun p => p.perm_name = args.input.permission) = some signing ∧
    Controls numeric signing.required_auth args.agentPublicKey ∧
    st.activeKey args.input.authority = some authorityKey ∧
    perms.find? (fun p => p.perm_name = js "owner") = some owner ∧
    Controls numeric owner.required_auth authorityKey
  row : ∃ row, st.policies.row? args.input.agent = some row ∧
    row.authority = args.input.authority ∧ row.agentperm = args.input.permission ∧
    hex row.policyhash = args.emptyPolicyHash

/-- `verifyLanded` returns ok. -/
def Accepts (numeric : JsString → Option JsString) (st : ChainState) (args : VerifyLandedArgs) :
    Prop := ∃ result, verifyLanded numeric (st.reads args.input) args = .ok result ∧ result.ok = true

/-! ## The policy row -/

section Rows

variable (row : PolicyRow)

@[simp] theorem answeredRow_agent :
    ((answeredRow row).get (js "agent")).bind Json.str? = some row.agent := rfl

@[simp] theorem answeredRow_authority :
    ((answeredRow row).get (js "authority")).bind Json.str? = some row.authority := rfl

@[simp] theorem answeredRow_agentperm :
    ((answeredRow row).get (js "agentperm")).bind Json.str? = some row.agentperm := rfl

@[simp] theorem answeredRow_policyhash :
    (answeredRow row).get (js "policyhash") = some (.str (hex row.policyhash)) := rfl

end Rows

theorem readPolicyRow_reads (st : ChainState) (input : OnboardingInput) :
    readPolicyRow (st.reads input).rows input.agent =
      (st.policies.row? input.agent).map answeredRow := by
  unfold reads
  cases hrow : st.policies.row? input.agent with
  | none => rfl
  | some row =>
    have hagent : row.agent = input.agent := PolicyTable.row?_agent hrow
    simp [readPolicyRow, hagent]

/-- A checksum is printed in lower case. -/
theorem toLowerCase_hex (bytes : List UInt8) : toLowerCase (hex bytes) = hex bytes := by
  have hdigit : ∀ n, n < 16 → isUpper (hexDigit n) = false := by decide
  have hlower : ∀ u ∈ hex bytes, (if isUpper u then u + 32 else u) = u := by
    intro u hu
    obtain ⟨b, -, hb⟩ := List.mem_flatMap.1 hu
    have hlt : b.toNat < 256 := b.toNat_lt
    have hhigh := hdigit (b.toNat / 16) (by omega)
    have hlow := hdigit (b.toNat % 16) (by omega)
    rcases List.mem_pair.1 hb with rfl | rfl
    · simp [hhigh]
    · simp [hlow]
  unfold toLowerCase
  exact (List.map_congr_left hlower).trans (List.map_id _)

theorem checkRow_accepts :
    (∃ result, checkRow ((st.policies.row? args.input.agent).map answeredRow) args = .ok result ∧
      result.ok = true) ↔
    ∃ row, st.policies.row? args.input.agent = some row ∧
      row.authority = args.input.authority ∧ row.agentperm = args.input.permission ∧
      hex row.policyhash = args.emptyPolicyHash := by
  cases st.policies.row? args.input.agent with
  | none => simp [checkRow, refuse]
  | some row =>
    simp only [Option.map_some, checkRow, answeredRow_authority, answeredRow_agentperm,
      answeredRow_policyhash, Option.some.injEq, exists_eq_left', ne_eq]
    by_cases hauthority : row.authority = args.input.authority
    · by_cases hperm : row.agentperm = args.input.permission
      · rw [if_neg (not_not.2 hauthority), if_neg (not_not.2 hperm)]
        have htext : (some (Json.str (hex row.policyhash))).elim (.ok (js "undefined")) Json.toText =
            .ok (hex row.policyhash) := rfl
        rw [htext]
        simp only [bind, Except.bind, toLowerCase_hex]
        by_cases hhash : hex row.policyhash = args.emptyPolicyHash
        · simp [hauthority, hperm, hhash, pure, Except.pure]
        · simp [hhash, refuse]
      · simp [hauthority, hperm, refuse]
    · simp [hauthority, refuse]

/-- The calls and checks that lead to an acceptance. -/
theorem verifyLanded_ok {reads : LandedReads} :
    (∃ result, verifyLanded numeric reads args = .ok result ∧ result.ok = true) ↔
      ∃ known perms perm authorityKey, reads.exists? = some known ∧ reads.account = some perms ∧
        permission? perms args.input.permission = some perm ∧
        authorizesExclusively numeric perm.required_auth args.agentPublicKey = true ∧
        resolveActiveKey reads.authority = some authorityKey ∧
        authorizesExclusively numeric ((permission? perms (js "owner")).bind Perm.required_auth)
          authorityKey = true ∧
        ∃ result, checkRow (readPolicyRow reads.rows args.input.agent) args = .ok result ∧
          result.ok = true := by
  unfold verifyLanded
  cases reads.exists? with
  | none => simp [refuse]
  | some known =>
    cases reads.account with
    | none => simp [refuse]
    | some perms =>
      cases hperm : permission? perms args.input.permission with
      | none => simp [refuse, hperm]
      | some perm =>
        cases hsigning : authorizesExclusively numeric perm.required_auth args.agentPublicKey with
        | false => simp [refuse, hperm, hsigning]
        | true =>
          cases hkey : resolveActiveKey reads.authority with
          | none => simp [refuse, hperm, hsigning]
          | some authorityKey =>
            cases howner : authorizesExclusively numeric
                ((permission? perms (js "owner")).bind Perm.required_auth) authorityKey with
            | false => simp [refuse, hperm, hsigning, howner]
            | true => simp [hperm, hsigning, howner]

theorem verifyLanded_accepts : Accepts numeric st args ↔ Matches numeric st args := by
  have hrow : _ ↔ ∃ row, st.policies.row? args.input.agent = some row ∧
      row.authority = args.input.authority ∧ row.agentperm = args.input.permission ∧
      hex row.policyhash = args.emptyPolicyHash := checkRow_accepts
  rw [← readPolicyRow_reads] at hrow
  have hreads : (st.reads args.input).account =
      (st.account args.input.agent).map fun perms => perms.map answered := rfl
  rw [Accepts, verifyLanded_ok]
  constructor
  · rintro ⟨-, answers, perm, authorityKey, -, haccount, hperm, hsigning, hkey, howner, hchecked⟩
    rw [hreads] at haccount
    obtain ⟨perms, hperms, rfl⟩ := Option.map_eq_some_iff.1 haccount
    rw [permission?_map] at hperm howner
    obtain ⟨signing, hfound, rfl⟩ := Option.map_eq_some_iff.1 hperm
    cases hfoundOwner : perms.find? fun p => p.perm_name = js "owner" with
    | none =>
      rw [hfoundOwner] at howner
      cases howner
    | some owner =>
      rw [hfoundOwner] at howner
      exact ⟨⟨perms, signing, owner, authorityKey, hperms, hfound,
        authorizesExclusively_iff.1 hsigning, hkey, hfoundOwner,
        authorizesExclusively_iff.1 howner⟩, hrow.1 hchecked⟩
  · intro h
    obtain ⟨perms, signing, owner, authorityKey, hperms, hfound, hcontrols, hkey, hfoundOwner,
      hexclusive⟩ := h.account
    have haccount : (st.reads args.input).account = some (perms.map answered) := by
      rw [hreads, hperms, Option.map_some]
    refine ⟨_, perms.map answered, answered signing, authorityKey, haccount, haccount, ?_,
      authorizesExclusively_iff.2 hcontrols, hkey, ?_, hrow.2 h.row⟩
    · rw [permission?_map, hfound, Option.map_some]
    · rw [permission?_map, hfoundOwner]
      exact authorizesExclusively_iff.2 hexclusive

/-! ## What is not read -/

/-- The parts of the state that are not read are as in the requested one. The node is not asked
about them. -/
structure Undisturbed (numeric : JsString → Option JsString) (st : ChainState)
    (args : VerifyLandedArgs) : Prop where
  count : ∀ perms, st.account args.input.agent = some perms → perms.length = 2
  weights : ∀ perms, st.account args.input.agent = some perms →
    ∀ p ∈ perms, ∀ held ∈ p.required_auth.keys, held.2 = 1
  active : ∀ perms, st.account args.input.agent = some perms →
    ∃ p, perms.find? (fun p => p.perm_name = js "active") = some p ∧
      Controls numeric p.required_auth args.agentPublicKey
  row : ∀ row, st.policies.row? args.input.agent = some row →
    row.version = 1 ∧ row.enabled = true

theorem Controls.keyAuthority (h : Controls numeric auth key)
    (hweights : ∀ held ∈ auth.keys, held.2 = 1) :
    ∃ held, auth = ChainState.keyAuthority held ∧ SameKey numeric held key := by
  obtain ⟨held, weight, hkeys, -, hsame⟩ := h.key
  have hweight : weight = 1 := hweights (held, weight) (by rw [hkeys]; exact List.mem_singleton_self _)
  refine ⟨held, ?_, hsame⟩
  obtain ⟨threshold, keys, accounts, waits⟩ := auth
  obtain rfl : threshold = 1 := h.threshold
  obtain rfl : accounts = [] := h.accounts
  obtain rfl : waits = [] := h.waits
  obtain rfl : keys = [(held, weight)] := hkeys
  rw [hweight]
  rfl

/-- A permission that is found has the name, and is one of the list. -/
theorem find?_named (h : perms.find? (fun p => p.perm_name = name) = some p) :
    p ∈ perms ∧ p.perm_name = name :=
  ⟨List.mem_of_find?_eq_some h, by simpa using List.find?_some h⟩

theorem Matches.requested (hm : Matches numeric st args) (hu : Undisturbed numeric st args) :
    Requested numeric st args where
  account := by
    obtain ⟨perms, signing, owner, authorityKey, hperms, -, -, hkey, howner, hexclusive⟩ :=
      hm.account
    obtain ⟨active, hactive, hcontrols⟩ := hu.active perms hperms
    obtain ⟨hmemActive, hnameActive⟩ := find?_named hactive
    obtain ⟨hmemOwner, hnameOwner⟩ := find?_named howner
    obtain ⟨agentKey, hauthActive, hsameActive⟩ :=
      hcontrols.keyAuthority (hu.weights perms hperms active hmemActive)
    obtain ⟨ownerKey, hauthOwner, hsameOwner⟩ :=
      hexclusive.keyAuthority (hu.weights perms hperms owner hmemOwner)
    have hne : active ≠ owner := by
      rintro rfl
      exact absurd (hnameActive.symm.trans hnameOwner) (by decide)
    have heqActive : active = ⟨js "active", keyAuthority agentKey⟩ := by
      rw [← hnameActive, ← hauthActive]
    have heqOwner : owner = ⟨js "owner", keyAuthority ownerKey⟩ := by
      rw [← hnameOwner, ← hauthOwner]
    refine ⟨agentKey, ownerKey, authorityKey, hkey, hsameOwner, hsameActive, perms, hperms, ?_⟩
    rw [← heqActive, ← heqOwner]
    obtain ⟨first, second, rfl⟩ := List.length_eq_two.1 (hu.count perms hperms)
    rcases List.mem_pair.1 hmemActive with rfl | rfl
    · rcases List.mem_pair.1 hmemOwner with rfl | rfl
      · exact absurd rfl hne
      · exact List.Perm.refl _
    · rcases List.mem_pair.1 hmemOwner with rfl | rfl
      · exact List.Perm.swap _ _ _
      · exact absurd rfl hne
  row := by
    obtain ⟨row, hrow, hauthority, hperm, hhash⟩ := hm.row
    obtain ⟨hversion, henabled⟩ := hu.row row hrow
    exact ⟨row, hrow, hauthority, hperm, hversion, hhash, henabled⟩

theorem Requested.undisturbed (hr : Requested numeric st args) : Undisturbed numeric st args := by
  obtain ⟨agentKey, ownerKey, authorityKey, -, -, hsame, perms, hperms, hperm⟩ := hr.account
  obtain ⟨row, hrow, -, -, hversion, -, henabled⟩ := hr.row
  have hmem : ∀ p ∈ perms, p = ⟨js "active", keyAuthority agentKey⟩ ∨
      p = ⟨js "owner", keyAuthority ownerKey⟩ := by
    intro p hp
    simpa using hperm.mem_iff.1 hp
  refine ⟨?_, ?_, ?_, ?_⟩
  · intro perms' hperms'
    rw [← Option.some.inj (hperms.symm.trans hperms'), hperm.length_eq]
    rfl
  · intro perms' hperms' p hp held hheld
    rw [← Option.some.inj (hperms.symm.trans hperms')] at hp
    rcases hmem p hp with rfl | rfl
    · rw [List.mem_singleton.1 hheld]
    · rw [List.mem_singleton.1 hheld]
  · intro perms' hperms'
    obtain rfl : perms = perms' := Option.some.inj (hperms.symm.trans hperms')
    have hmemActive : ⟨js "active", keyAuthority agentKey⟩ ∈ perms :=
      hperm.mem_iff.2 List.mem_cons_self
    cases hfind : perms.find? fun p => p.perm_name = js "active" with
    | none => exact absurd (List.find?_eq_none.1 hfind _ hmemActive) (by simp)
    | some p =>
      obtain ⟨hp, hname⟩ := find?_named hfind
      refine ⟨p, rfl, ?_⟩
      rcases hmem p hp with rfl | rfl
      · exact ⟨rfl, rfl, rfl, agentKey, 1, rfl, by decide, hsame⟩
      · have hnames : js "owner" ≠ js "active" := by decide
        exact absurd hname hnames
  · intro row' hrow'
    rw [← Option.some.inj (hrow.symm.trans hrow')]
    exact ⟨hversion, henabled⟩

/-! ## The request, executed -/

/-- **The state the actions lead to** is the one the request asks for, from any state in which the
actions apply. So the verification is not vacuous: the onboarding that was built passes it. -/
theorem onboarded_requested {sha256 : List UInt8 → List UInt8} {ctx : ActionContext}
    {st' : ChainState} {ownerKey : JsString} {policyhash : List UInt8} {policyjson : JsString}
    (h : onboarded sha256 ctx st args.input.agent args.input.authority args.input.permission ownerKey
      args.agentPublicKey policyhash policyjson = .ok st')
    (howner : st.activeKey args.input.authority = some ownerKey)
    (hne : args.input.authority ≠ args.input.agent) (hhash : hex policyhash = args.emptyPolicyHash)
    (hkeys : SameKey numeric ownerKey ownerKey ∧
      SameKey numeric args.agentPublicKey args.agentPublicKey) :
    Requested numeric st' args := by
  simp only [onboarded, bind_ok, pure_eq, Except.ok.injEq] at h
  obtain ⟨policies, hcreated, rfl⟩ := h
  obtain ⟨-, -, hnone, -, -, rfl⟩ := SignboxContract.createpolicy_ok hcreated
  refine ⟨⟨args.agentPublicKey, ownerKey, ownerKey, ?_, hkeys.1, hkeys.2, _,
    Function.update_self _ _ _, List.Perm.refl _⟩, ?_⟩
  · -- the authority is another account, and stays what it is
    have hsame := Function.update_of_ne hne (some [⟨js "active", keyAuthority args.agentPublicKey⟩,
      ⟨js "owner", keyAuthority ownerKey⟩]) st.account
    simp only [activeKey, hsame]
    exact howner
  · have hrow : ∀ row : PolicyRow, row.agent = args.input.agent →
        (st.policies.store row).row? args.input.agent = some row := by
      intro row hagent
      rw [PolicyTable.row?_store, hnone, Option.none_or, if_pos hagent]
    exact ⟨_, hrow _ rfl, rfl, rfl, rfl, hhash, rfl⟩

/-- It is accepted, when the request names the permission `active`. -/
theorem Requested.accepted (hr : Requested numeric st args)
    (hpermission : args.input.permission = js "active") : Accepts numeric st args := by
  rw [verifyLanded_accepts]
  have hu := hr.undisturbed
  obtain ⟨agentKey, ownerKey, authorityKey, hkey, hsame, -, perms, hperms, hperm⟩ := hr.account
  obtain ⟨row, hrow, hauthority, hrowPerm, -, hhash, -⟩ := hr.row
  obtain ⟨active, hactive, hcontrols⟩ := hu.active perms hperms
  have hmem : ⟨js "owner", keyAuthority ownerKey⟩ ∈ perms :=
    hperm.mem_iff.2 (List.mem_cons_of_mem _ List.mem_cons_self)
  refine ⟨?_, row, hrow, hauthority, hrowPerm, hhash⟩
  cases hfind : perms.find? fun p => p.perm_name = js "owner" with
  | none => exact absurd (List.find?_eq_none.1 hfind _ hmem) (by simp)
  | some owner =>
    obtain ⟨hp, hname⟩ := find?_named hfind
    have hcases : owner = ⟨js "active", keyAuthority agentKey⟩ ∨
        owner = ⟨js "owner", keyAuthority ownerKey⟩ := by
      simpa using hperm.mem_iff.1 hp
    have hexclusive : Controls numeric owner.required_auth authorityKey := by
      rcases hcases with rfl | rfl
      · have hnames : js "active" ≠ js "owner" := by decide
        exact absurd hname hnames
      · exact ⟨rfl, rfl, rfl, ownerKey, 1, rfl, by decide, hsame⟩
    exact ⟨perms, active, owner, authorityKey, hperms, by rw [hpermission]; exact hactive, hcontrols,
      hkey, hfind, hexclusive⟩

end Landed

open Landed in
/-- **What a landed onboarding is verified for.** For every state of the chain and every request:
that an accepted state is the requested one holds exactly when something that is read does not
match, or when what is not read is undisturbed: the account has two permissions, their keys have
weight 1, the permission `active` is exclusively the agent key, and the row has version 1 and is
enabled. -/
theorem verified_requested_iff (numeric : JsString → Option JsString) (st : ChainState)
    (args : VerifyLandedArgs) :
    (Landed.Accepts numeric st args → Requested numeric st args) ↔
      (Landed.Matches numeric st args → Landed.Undisturbed numeric st args) := by
  rw [verifyLanded_accepts]
  constructor
  · intro h hm
    exact (h hm).undisturbed
  · intro h hm
    exact hm.requested (h hm)

/-! ## A state that is accepted -/

namespace Forged

open Landed ChainState

def agentKey : JsString := js "PUB_K1_5p78kHbL33Rn3JWkTWRE2B9uz6gy4r1KbfAKLNQGE3ovLY8E9M"

def authorityKey : JsString := js "PUB_K1_6PhSs6H49U1Lb6vz9GDtUF9RjtpFpkS6Rxm94LumQrnCziKzkb"

def attackerKey : JsString := js "PUB_K1_6nEZsuNhDnknxVTf1YH454nxiB5MpVSN7gQktMRioqRi9HEyDq"

/-- The canonical texts of three keys. -/
def numeric (key : JsString) : Option JsString :=
  if key ∈ [agentKey, authorityKey, attackerKey] then some key else none

def args : VerifyLandedArgs where
  input := ⟨⟨js "XPR", js "testnet", js "71ee"⟩, js "rockerone", js "funagent", js "active",
    .nonExportable, js "/tmp/x.keystore.json", none⟩
  agentPublicKey := agentKey
  emptyPolicyHash := js "aa"

def row : PolicyRow :=
  ⟨js "funagent", js "rockerone", js "active", 1, [0xaa], js "[]", true, 0, 0⟩

/-- The account has a further permission, with a key of its own. Everything that is read is as
requested. -/
def forged : ChainState where
  account name :=
    if name = js "funagent" then
      some [⟨js "active", keyAuthority agentKey⟩, ⟨js "owner", keyAuthority authorityKey⟩,
        ⟨js "claim", keyAuthority attackerKey⟩]
    else if name = js "rockerone" then some [⟨js "active", keyAuthority authorityKey⟩]
    else none
  policies := [row]

/-- **A further permission.** The state is accepted, and it is not the requested one: what is
verified does not look for permissions beyond the two it knows. -/
theorem accepts_forged : Landed.Accepts numeric forged args ∧ ¬ Requested numeric forged args := by
  refine ⟨?_, ?_⟩
  · have haccepted : ((verifyLanded numeric (forged.reads args.input) args).toOption.any
        VerificationResult.ok) = true := by
      decide +kernel
    cases hresult : verifyLanded numeric (forged.reads args.input) args with
    | error err =>
      rw [hresult] at haccepted
      cases haccepted
    | ok result =>
      rw [hresult] at haccepted
      exact ⟨result, hresult, haccepted⟩
  · intro hr
    have hcount := hr.undisturbed.count _ rfl
    cases hcount

end Forged

end Signbox

import Signbox.Proof.Unlock
import Signbox.Proof.Signer
import Signbox.Spec.Startup

/-!
# What a started daemon holds

The agents of a started daemon are the keystores of its directory, one each and in their order,
every one bound to the configured chain, with the agent, the permission, the public key and the
secret that were sealed together. The check that the secret derives the public key reads the clear
text of the files once more: it says what it should when the disk is still during the start.

* `unlock_opened`: what the loop over the files unlocks, with its metadata.
* `listKeys_still`: on a still disk the files are listed with the metadata that was unlocked.
* `verifyKeyBinding_ok`, `register_ok`: the checks of one key.
* `Enrolled`: what an agent of a started daemon is, and `started_enrolled`.
-/

namespace Signbox

open Guard

namespace Keystore

variable {Key : Type} [DecidableEq Key] {r : Runtime Key} {files : JsString → Option File}
  {attempts : JsString → ℕ → Attempt r} {path keystoreDir : JsString} {rest : List JsString}
  {s s' : Session} {unlocked out : List JsValue}

/-! ## What is unlocked -/

variable (r files attempts) in
/-- The loop opens the file with this agent, this secret and this metadata. -/
def OpensAs (path : JsString) (key : (JsString × List UInt8) × JsValue) : Prop :=
  (openWithRetries r files attempts path 1).1 = .opened key.1.2 key.2 ∧ agentOf key.2 = .ok key.1.1

/-- A loop that resolves has opened every file. -/
theorem unlockFiles_opened (h : unlockFiles r files attempts rest s unlocked = (.ok out, s')) :
    ∃ keys, List.Forall₂ (OpensAs r files attempts) rest keys ∧
      out = unlocked ++ keys.map Prod.snd ∧ s'.secrets = s.secrets ++ keys.map Prod.fst := by
  induction rest generalizing s unlocked with
  | nil =>
    rw [unlockFiles, Prod.mk.injEq, Except.ok.injEq] at h
    obtain ⟨rfl, rfl⟩ := h
    exact ⟨[], .nil, by simp, by simp⟩
  | cons path rest ih =>
    rw [unlockFiles] at h
    cases hopening : (openWithRetries r files attempts path 1).1 with
    | promptFailed error => simp [hopening] at h
    | openFailed error => simp [hopening] at h
    | opened secret metadata =>
      cases hagent : agentOf metadata with
      | error error => simp [hopening, hagent] at h
      | ok agent =>
        simp only [hopening, hagent] at h
        split at h
        · simp at h
        · obtain ⟨keys, hkeys, hout, hsecrets⟩ := ih h
          refine ⟨((agent, secret), metadata) :: keys, .cons ⟨hopening, hagent⟩ hkeys, ?_, ?_⟩
          · rw [hout, List.append_assoc, List.map_cons, List.singleton_append]
          · rw [hsecrets, List.append_assoc, List.map_cons, List.singleton_append]

/-- A loop that opens every file, under agents that are not held yet, resolves. -/
theorem unlockFiles_resolves {keys : List ((JsString × List UInt8) × JsValue)}
    (hkeys : List.Forall₂ (OpensAs r files attempts) rest keys)
    (hdistinct : ((s.secrets ++ keys.map Prod.fst).map Prod.fst).Nodup) :
    ∃ s', unlockFiles r files attempts rest s unlocked = (.ok (unlocked ++ keys.map Prod.snd), s') ∧
      s'.secrets = s.secrets ++ keys.map Prod.fst := by
  induction hkeys generalizing s unlocked with
  | nil => exact ⟨s, by rw [unlockFiles, List.map_nil, List.append_nil], by simp⟩
  | @cons path key rest keys hopens hrest ih =>
    obtain ⟨hopening, hagent⟩ := hopens
    have hnew : ¬ s.secrets.any (fun held => held.1 = key.1.1) = true := by
      intro hany
      obtain ⟨held, hheld, heq⟩ := List.any_eq_true.1 hany
      rw [List.map_append, List.nodup_append] at hdistinct
      exact hdistinct.2.2 held.1 (List.mem_map_of_mem hheld) key.1.1 (by simp) (by simpa using heq)
    rw [unlockFiles]
    simp only [hopening, hagent, if_neg hnew]
    set next : Session := ⟨s.secrets ++ [(key.1.1, key.1.2)],
      s.tried ++ List.replicate (openWithRetries r files attempts path 1).2 path⟩ with hnext
    have hkeys : ((next.secrets ++ keys.map Prod.fst).map Prod.fst).Nodup := by
      simpa [hnext] using hdistinct
    obtain ⟨s', hrun, hsecrets⟩ := @ih next (unlocked ++ [key.2]) hkeys
    exact ⟨s', by rw [hrun]; simp, by rw [hsecrets]; simp [hnext]⟩

/-- **Unlocking** gives one key for each file, under distinct agents, in the order in which the
files are discovered. A file that does not open ends the start. -/
theorem unlock_opened (hideal : r.Ideal) {listing : Except Failure (Option Directory)}
    (h : unlock r files attempts keystoreDir listing = (.ok out, s)) :
    ∃ directory keys, listing = .ok directory ∧
      List.Forall₂ (OpensAs r files attempts) (discoverKeystoreFiles keystoreDir directory) keys ∧
      out = keys.map Prod.snd ∧ s.secrets = keys.map Prod.fst ∧
      (s.secrets.map Prod.fst).Nodup := by
  cases listing with
  | error error => simp [unlock] at h
  | ok directory =>
    rw [unlock] at h
    obtain ⟨keys, hkeys, hout, hsecrets⟩ := unlockFiles_opened h
    have hends : Ends r files attempts [] (discoverKeystoreFiles keystoreDir directory)
        (unlockFiles r files attempts (discoverKeystoreFiles keystoreDir directory) ⟨[], []⟩ []) :=
      unlockFiles_cases hideal held_nil
    rw [h] at hends
    cases hends with
    | resolved _ _ hheld =>
      exact ⟨directory, keys, rfl, hkeys, by simpa using hout, by simpa using hsecrets,
        hheld.distinct⟩

/-! ## Metadata -/

/-- A member of a value that is the same as an object. -/
theorem property_same {v x : Json} {p : Proto} {ns : List (JsString × Json)} {key : JsString}
    (h : v.Same (.obj p ns)) (hx : ns.lookup key = some x) :
    ∃ y, (JsValue.json v).property key = .json y ∧ y.Same x := by
  cases h with
  | @obj q p ms ns hmembers =>
    have hobject : (Json.obj q ms).Same (.obj p ns) := .obj hmembers
    obtain ⟨y, hy, hsame⟩ := hobject.exists_lookup hx
    exact ⟨y, by simp [JsValue.property, JsValue.readObject, readMember, hy], hsame⟩

theorem property_text {v : Json} {p : Proto} {ns : List (JsString × Json)} {key text : JsString}
    (h : v.Same (.obj p ns)) (hx : ns.lookup key = some (.str text)) :
    (JsValue.json v).property key = .json (.str text) := by
  obtain ⟨y, hy, hsame⟩ := property_same h hx
  cases hsame
  exact hy

/-- A file that opens is of the first version. -/
theorem open_version {w : World Key} {access : Access} {passphrase secret : List UInt8}
    {metadata : JsValue} {f : File} {file : Json} (hf : w.files path = some f)
    (hparse : Json.parse JsNumber.ofLiteral (decodeUtf8 f.content) = some file)
    (h : openKeystoreFile r w access path passphrase = .ok (secret, metadata)) :
    ∃ version, property file (js "version") = .ok version ∧
      version.num? = some (.finite (.ofNat 1)) := by
  unfold openKeystoreFile at h
  obtain ⟨raw, hraw, h⟩ := bind_ok.1 h
  obtain ⟨file', hfile, h⟩ := bind_ok.1 h
  obtain ⟨version, hversion, h⟩ := bind_ok.1 h
  obtain ⟨kind, -, h⟩ := bind_ok.1 h
  split at h
  · cases h
  case isFalse hok =>
    have hraw' : raw = decodeUtf8 f.content := by
      unfold readText at hraw
      split at hraw
      · cases hraw
      · cases hraw
      · next f' hf' _ =>
        rw [hf, Option.some.injEq] at hf'
        split at hraw
        · cases hraw
        · split at hraw
          · cases hraw
          · rw [hf']
            exact (Except.ok.inj hraw).symm
    have hfile' : file' = file := by
      rw [hraw', parseFile, hparse] at hfile
      exact (Except.ok.inj hfile).symm
    rw [hfile'] at hversion
    have hone : version.num? = some (.finite (.ofNat 1)) := by
      by_contra hne
      exact hok (.inl hne)
    exact ⟨version, hversion, hone⟩

variable (attempts) in
/-- The keystore was created before one of the attempts to unlock the file, and its passphrase was
given then. -/
def SealedBefore (path : JsString) (creation : Creation r) : Prop :=
  ∃ n, 1 ≤ n ∧ n ≤ MAX_PASSPHRASE_ATTEMPTS ∧
    (attempts path n).prompt = .ok creation.passphrase ∧
    Event.create creation ∈ (attempts path n).before

/-- A key is that of a creation: its agent, its secret, and the same metadata. -/
structure KeyOf (creation : Creation r) (key : (JsString × List UInt8) × JsValue) : Prop where
  agent : creation.metadata.agent = key.1.1
  secret : creation.secret = key.1.2
  metadata : ∃ value, key.2 = .json value ∧ value.Same creation.metadata.toJson

/-- **A key that is unlocked** is what was sealed in the file, and the clear text of the file says
the same. -/
theorem opens_sealed {key : (JsString × List UInt8) × JsValue} (hideal : r.Ideal)
    (h : OpensAs r files attempts path key) :
    ∃ creation, SealedBefore attempts path creation ∧ KeyOf creation key ∧ ∃ n f file version, ((World.start Key files).run (attempts path n).before).files path = some f ∧
        Json.parse JsNumber.ofLiteral (decodeUtf8 f.content) = some file ∧
        property file (js "version") = .ok version ∧ version.num? = some (.finite (.ofNat 1)) ∧
        property file (js "meta") = .ok key.2 := by
  obtain ⟨hopening, hagent⟩ := h
  obtain ⟨n, passphrase, hn, hle, hprompt, hopen⟩ := openWithRetries_opened (by decide) hopening
  obtain ⟨creation, f, file, metadata, -, hcreated, hpassphrase, hsecret, hf, hparse, -, hmetadata,
    hsame, -⟩ := open_authentic hideal hopen
  obtain ⟨f', file', -, -, -, -, -, -, -, -, hf', hparse', -, -, -, -, -, hmeta⟩ := open_ok hopen
  obtain rfl : f' = f := by
    rw [hf] at hf'
    exact (Option.some.inj hf').symm
  obtain rfl : file' = file := by
    rw [hparse] at hparse'
    exact (Option.some.inj hparse').symm
  obtain ⟨version, hversion, hone⟩ := open_version hf hparse hopen
  have hsealed : creation.metadata.agent = key.1.1 := by
    rw [hmetadata, agentOf_same hsame] at hagent
    exact Except.ok.inj hagent
  have hbefore : SealedBefore attempts path creation :=
    ⟨n, hn, hle, by rw [hpassphrase, hprompt], hcreated⟩
  exact ⟨creation, hbefore, ⟨hsealed, hsecret, metadata, hmetadata, hsame⟩, n, f', file', version, hf,
    hparse, hversion, hone, hmeta⟩

end Keystore

namespace Startup

open Keystore

variable {Key : Type} [DecidableEq Key] {r : Runtime Key} {host : Host r} {c : Signer.Crypto}
  {config : SignBoxConfig} {keys : List ((JsString × List UInt8) × JsValue)}
  {key : (JsString × List UInt8) × JsValue} {path agent keyId : JsString} {metadata : JsValue}
  {s s' : DaemonState} {secrets : Signer.Secrets}

/-! ## The second reading -/

/-- During the start the disk is still: the directory is listed as it was for unlocking, and the
metadata of a file is read from the content that was unlocked. -/
structure Still (host : Host r) : Prop where
  listing : ∀ agent, (host.reading agent).listing = host.listing
  files : ∀ agent path n,
    ((World.start Key host.files).run ((host.reading agent).before path)).files path =
      ((World.start Key host.files).run (host.attempts path n).before).files path

omit [DecidableEq Key] in
/-- The texts of the metadata of a key. -/
theorem keyOf_texts {creation : Creation r} (h : KeyOf creation key) :
    (key.2.property (js "agent")).str? = some creation.metadata.agent ∧
      (key.2.property (js "permission")).str? = some creation.metadata.permission ∧
      (key.2.property (js "publicKey")).str? = some creation.metadata.publicKey ∧
      chainIdOf key.2 = .ok (.json (.str creation.metadata.chain.chainId)) := by
  obtain ⟨-, -, value, hvalue, hsame⟩ := h
  obtain ⟨chain, hchain, hsameChain⟩ := @property_same _ _ _ _ (js "chain") hsame rfl
  have hnullish : (JsValue.json chain).isNullish = false := by
    cases hsameChain
    rfl
  rw [hvalue, chainIdOf, hchain, property_text hsame rfl, property_text hsame rfl,
    property_text hsame rfl]
  refine ⟨rfl, rfl, rfl, ?_⟩
  simp only [hnullish, Bool.false_eq_true, if_false]
  rw [property_text hsameChain rfl]

/-- Unlocked metadata names its agent in the clear. -/
theorem opens_agent (hideal : r.Ideal) (h : OpensAs r host.files host.attempts path key) :
    (key.2.property (js "agent")).str? = some key.1.1 := by
  obtain ⟨creation, -, hkey, -⟩ := opens_sealed hideal h
  rw [← hkey.agent]
  exact (keyOf_texts hkey).1

/-- On a still disk the metadata of a file is what was unlocked, if it can be read. -/
theorem readKeystoreMetadata_still (hideal : r.Ideal) (hstill : Still host)
    (h : OpensAs r host.files host.attempts path key)
    (hread : readKeystoreMetadata ((World.start Key host.files).run
      ((host.reading agent).before path)) ((host.reading agent).read path) path = .ok metadata) :
    metadata = key.2 := by
  obtain ⟨creation, -, ⟨-, -, value, hvalue, -⟩, n, f, file, version, hf, hparse, hversion, hone,
    hmeta⟩ := opens_sealed hideal h
  rw [readKeystoreMetadata, hstill.files agent path n, hf] at hread
  split_ifs at hread with hnone
  · rw [Option.bind_some, hparse] at hread
    simp only [hversion, ok_bind, hone, ne_eq, not_true_eq_false, if_false, hmeta] at hread
    rw [hvalue] at hread ⊢
    split at hread
    · cases hread
    · cases hread
    · split_ifs at hread
      exact (Except.ok.inj hread).symm
  · cases hread

/-- On a still disk the metadata of an unlocked file can be read. -/
theorem readKeystoreMetadata_readable (hideal : r.Ideal) (hstill : Still host)
    (h : OpensAs r host.files host.attempts path key) (hread : (host.reading agent).read path = none) :
    readKeystoreMetadata ((World.start Key host.files).run ((host.reading agent).before path))
      ((host.reading agent).read path) path = .ok key.2 := by
  obtain ⟨creation, -, ⟨-, -, value, hvalue, hsame⟩, n, f, file, version, hf, hparse, hversion, hone,
    hmeta⟩ := opens_sealed hideal h
  have hagent := opens_agent hideal h
  rw [readKeystoreMetadata, hread, hstill.files agent path n, hf, if_pos rfl, Option.bind_some, hparse]
  simp only [hversion, ok_bind, hone, ne_eq, not_true_eq_false, if_false, hmeta]
  rw [hvalue] at hagent ⊢
  cases hsame
  simp only [hagent, reduceCtorEq, if_false]

theorem listKeys_still (hideal : r.Ideal) (hstill : Still host) {directory : Option Directory}
    (hlisting : host.listing = .ok directory) {listed : List JsValue}
    (hkeys : List.Forall₂ (OpensAs r host.files host.attempts)
      (discoverKeystoreFiles config.keystoreDir directory) keys)
    (h : listKeys host.files config.keystoreDir (host.reading agent) = .ok listed) :
    listed = keys.map Prod.snd := by
  rw [listKeys, hstill.listing, hlisting, ok_bind, mapM_ok] at h
  generalize discoverKeystoreFiles config.keystoreDir directory = paths at hkeys h
  induction hkeys generalizing listed with
  | nil =>
    cases h
    rfl
  | cons hfirst hrest ih =>
    cases h with
    | cons hread hreads =>
      rw [readKeystoreMetadata_still hideal hstill hfirst hread, ih hreads, List.map_cons]

/-- Every metadata file can be read during the start. They are read after the files were
unlocked. -/
def Readable (host : Host r) : Prop := ∀ agent path, (host.reading agent).read path = none

theorem listKeys_readable (hideal : r.Ideal) (hstill : Still host) (hreadable : Readable host)
    {directory : Option Directory} (hlisting : host.listing = .ok directory)
    (hkeys : List.Forall₂ (OpensAs r host.files host.attempts)
      (discoverKeystoreFiles config.keystoreDir directory) keys) :
    listKeys host.files config.keystoreDir (host.reading agent) = .ok (keys.map Prod.snd) := by
  rw [listKeys, hstill.listing, hlisting, ok_bind, mapM_ok, List.forall₂_map_right_iff]
  exact hkeys.imp fun path key hopens =>
    readKeystoreMetadata_readable hideal hstill hopens (hreadable agent path)

/-! ## The checks of one key -/

omit [DecidableEq Key] in
theorem verifyKeyBinding_ok {files : JsString → Option File} {keystoreDir : JsString}
    {reading : Reading r} (h : verifyKeyBinding files keystoreDir reading c secrets keyId = .ok true) :
    ∃ listed metadata privateKey declared, listKeys files keystoreDir reading = .ok listed ∧
      metadata ∈ listed ∧ (metadata.property (js "agent")).str? = some keyId ∧
      Signer.privateKeyOf c secrets keyId = .ok privateKey ∧
      (metadata.property (js "publicKey")).str? = some declared ∧
      derivePublicKey c privateKey declared = .ok declared := by
  obtain ⟨found, hfound, h⟩ := bind_ok.1 h
  obtain ⟨listed, hlisted, hfind⟩ := bind_ok.1 (Signer.mapError_ok.1 hfound)
  cases found with
  | none => simp at h
  | some metadata =>
    obtain ⟨privateKey, hprivate, h⟩ := bind_ok.1 h
    have hfind := Except.ok.inj hfind
    have hagent : (metadata.property (js "agent")).str? = some keyId := by
      simpa using List.find?_some hfind
    cases hdeclared : (metadata.property (js "publicKey")).str? with
    | none => simp [hdeclared] at h
    | some declared =>
      simp only [hdeclared] at h
      obtain ⟨derived, hderived, h⟩ := bind_ok.1 h
      have heq : derived = declared := by simpa using h
      rw [heq] at hderived
      exact ⟨listed, metadata, privateKey, declared, hlisted, List.mem_of_find?_eq_some hfind,
        hagent, Signer.mapError_ok.1 hprivate, hdeclared, Signer.mapError_ok.1 hderived⟩

/-- The secret of the key derives the public key that was sealed with it, in the form that was
declared. -/
def Derives (c : Signer.Crypto) (creation : Creation r) : Prop :=
  ∃ privateKey, Signer.wifToPrivateKey c (decodeUtf8 creation.secret) = .ok privateKey ∧
    derivePublicKey c privateKey creation.metadata.publicKey = .ok creation.metadata.publicKey

/-- **The startup identity gate.** On a still disk a key whose binding is verified derives the
public key that was sealed with it. -/
theorem verifyKeyBinding_still (hideal : r.Ideal) (hstill : Still host)
    {directory : Option Directory} (hlisting : host.listing = .ok directory)
    (hkeys : List.Forall₂ (OpensAs r host.files host.attempts)
      (discoverKeystoreFiles config.keystoreDir directory) keys)
    (hdistinct : ((keys.map Prod.fst).map Prod.fst).Nodup) (hkey : key ∈ keys)
    {creation : Creation r} (hof : KeyOf creation key)
    (h : verifyKeyBinding host.files config.keystoreDir (host.reading agent) c
      (keys.map Prod.fst) creation.metadata.agent = .ok true) : Derives c creation := by
  rw [hof.agent] at h
  obtain ⟨listed, metadata, privateKey, declared, hlisted, hmem, hagent, hprivate, hdeclared,
    hderived⟩ := verifyKeyBinding_ok h
  rw [listKeys_still hideal hstill hlisting hkeys hlisted] at hmem
  obtain ⟨key', hkey', rfl⟩ := List.mem_map.1 hmem
  -- only one key names the agent
  obtain ⟨path', -, hopens'⟩ := forall₂_right hkeys hkey'
  have hagents : key'.1.1 = key.1.1 := by
    rw [opens_agent hideal hopens'] at hagent
    exact Option.some.inj hagent
  rw [List.map_map] at hdistinct
  obtain rfl : key' = key := List.inj_on_of_nodup_map hdistinct hkey' hkey hagents
  have hlookup : (keys.map Prod.fst).lookup key'.1.1 = some key'.1.2 := by
    refine (lookup_iff_mem ?_).2 (List.mem_map_of_mem hkey')
    rwa [List.map_map]
  rw [Signer.privateKeyOf, hlookup] at hprivate
  rw [(keyOf_texts hof).2.2.1] at hdeclared
  obtain rfl := Option.some.inj hdeclared
  exact ⟨privateKey, by rw [hof.secret]; exact hprivate, hderived⟩

theorem textOf_ok {key text : JsString} : textOf metadata key = .ok text ↔
    (metadata.property key).str? = some text := by
  unfold textOf
  cases (metadata.property key).str? <;> simp

theorem registerAgent_ok {runtime : AgentRuntime} (h : registerAgent s runtime = .ok s') :
    s.runtime? runtime.agent = none ∧ s' = { s with agents := s.agents ++ [runtime] } := by
  unfold registerAgent at h
  split at h
  · cases h
  · next hnone => exact ⟨hnone, (Except.ok.inj h).symm⟩

omit [DecidableEq Key] in
/-- **A key that is registered** passed both checks: its metadata names the configured chain, and
the secret derives the public key that the metadata declares. -/
theorem register_ok (h : register host c config secrets s metadata = .ok s') :
    ∃ agent permission publicKey token chainId,
      (metadata.property (js "agent")).str? = some agent ∧
      (metadata.property (js "permission")).str? = some permission ∧
      (metadata.property (js "publicKey")).str? = some publicKey ∧
      chainIdOf metadata = .ok chainId ∧ chainId.str? = some config.chainId ∧
      verifyKeyBinding host.files config.keystoreDir (host.reading agent) c secrets agent = .ok true ∧
      s.runtime? agent = none ∧
      s' = { s with agents := s.agents ++ [runtimeOf config agent permission publicKey token] } := by
  simp only [register, bind_ok, textOf_ok] at h
  obtain ⟨agent, hagent, chainId, hchainId, h⟩ := h
  split at h
  · cases h
  case isFalse hchain =>
    obtain ⟨bound, hbound, h⟩ := bind_ok.1 h
    cases bound with
    | false => cases h
    | true =>
      simp only [Bool.true_eq_false, if_false, bind_ok, textOf_ok] at h
      obtain ⟨u, -, permission, hpermission, publicKey, hpublicKey, h⟩ := h
      obtain ⟨hnone, hs⟩ := registerAgent_ok h
      have hpinned : chainId.str? = some config.chainId := not_not.1 hchain
      exact ⟨agent, permission, publicKey, _, chainId, hagent, hpermission, hpublicKey, hchainId,
        hpinned, hbound, hnone, hs⟩

/-! ## All keys -/

/-- What the loop makes of the metadata of a key. -/
def Registers (host : Host r) (c : Signer.Crypto) (config : SignBoxConfig) (secrets : Signer.Secrets)
    (metadata : JsValue) (runtime : AgentRuntime) : Prop :=
  ∃ s, register host c config secrets s metadata = .ok { s with agents := s.agents ++ [runtime] }

omit [DecidableEq Key] in
/-- The loop adds one agent for each key, under a name of its own. -/
theorem foldlM_register {metadatas : List JsValue}
    (h : metadatas.foldlM (register host c config secrets) s = .ok s')
    (hdistinct : (s.agents.map AgentRuntime.agent).Nodup) :
    ∃ runtimes, s' = { s with agents := s.agents ++ runtimes } ∧
      (s'.agents.map AgentRuntime.agent).Nodup ∧
      List.Forall₂ (Registers host c config secrets) metadatas runtimes := by
  induction metadatas generalizing s with
  | nil =>
    obtain rfl := Except.ok.inj h
    exact ⟨[], by rw [List.append_nil], hdistinct, .nil⟩
  | cons metadata metadatas ih =>
    rw [List.foldlM_cons] at h
    obtain ⟨next, hnext, h⟩ := bind_ok.1 h
    obtain ⟨agent, permission, publicKey, token, -, -, -, -, -, -, -, hnone, hs⟩ := register_ok hnext
    have hdistinct' : (next.agents.map AgentRuntime.agent).Nodup := by
      have hnew : agent ∉ s.agents.map AgentRuntime.agent := by
        intro hmem
        obtain ⟨runtime, hruntime, hagent⟩ := List.mem_map.1 hmem
        have hother := List.find?_eq_none.1 hnone runtime hruntime
        exact hother (by simpa using hagent)
      rw [hs, List.map_append, List.map_singleton, List.nodup_append_comm, List.singleton_append,
        List.nodup_cons]
      exact ⟨hnew, hdistinct⟩
    obtain ⟨runtimes, hstate, hnodup, hregisters⟩ := ih h hdistinct'
    have hfirst : Registers host c config secrets metadata
        (runtimeOf config agent permission publicKey token) := by
      rw [hs] at hnext
      exact ⟨s, hnext⟩
    refine ⟨runtimeOf config agent permission publicKey token :: runtimes, ?_, hnodup,
      .cons hfirst hregisters⟩
    rw [hstate, hs, List.append_assoc, List.singleton_append]

/-! ## The law -/

/-- **What an agent of a started daemon is**: the keystore that was sealed for it, on the configured
chain, with the secret held under its name. -/
structure Enrolled (config : SignBoxConfig) (secrets : Signer.Secrets) (creation : Creation r)
    (runtime : AgentRuntime) : Prop where
  pinned : creation.metadata.chain.chainId = config.chainId
  secret : secrets.lookup creation.metadata.agent = some creation.secret
  runtime : ∃ token, runtime = runtimeOf config creation.metadata.agent creation.metadata.permission
    creation.metadata.publicKey token

omit [DecidableEq Key] in
/-- What is registered for a key of a creation, and what was checked. -/
theorem registers_checked {creation : Creation r} (hof : KeyOf creation key) {runtime : AgentRuntime}
    (h : Registers host c config secrets key.2 runtime) :
    creation.metadata.chain.chainId = config.chainId ∧
      verifyKeyBinding host.files config.keystoreDir (host.reading creation.metadata.agent) c secrets
        creation.metadata.agent = .ok true ∧
      ∃ token, runtime = runtimeOf config creation.metadata.agent creation.metadata.permission
        creation.metadata.publicKey token := by
  obtain ⟨s, hregister⟩ := h
  obtain ⟨agent, permission, publicKey, token, chainId, hagent, hpermission, hpublicKey, hchainId,
    hpinned, hbound, -, hs⟩ := register_ok hregister
  obtain ⟨hagent', hpermission', hpublicKey', hchainId'⟩ := keyOf_texts hof
  obtain rfl := Option.some.inj (hagent'.symm.trans hagent)
  obtain rfl := Option.some.inj (hpermission'.symm.trans hpermission)
  obtain rfl := Option.some.inj (hpublicKey'.symm.trans hpublicKey)
  rw [hchainId, Except.ok.injEq] at hchainId'
  rw [hchainId'] at hpinned
  have hagents : s.agents ++ [runtime] = s.agents ++ [runtimeOf config creation.metadata.agent
    creation.metadata.permission creation.metadata.publicKey token] := congrArg DaemonState.agents hs
  exact ⟨Option.some.inj hpinned, hbound, token, by simpa using hagents⟩

theorem registers_enrolled (hideal : r.Ideal) {directory : Option Directory}
    (hlisting : host.listing = .ok directory)
    (hkeys : List.Forall₂ (OpensAs r host.files host.attempts)
      (discoverKeystoreFiles config.keystoreDir directory) keys)
    (hdistinct : ((keys.map Prod.fst).map Prod.fst).Nodup) (hkey : key ∈ keys)
    {creation : Creation r} (hof : KeyOf creation key) {runtime : AgentRuntime}
    (h : Registers host c config (keys.map Prod.fst) key.2 runtime) :
    Enrolled config (keys.map Prod.fst) creation runtime ∧ (Still host → Derives c creation) := by
  obtain ⟨hpinned, hbound, hruntime⟩ := registers_checked hof h
  have hlookup : (keys.map Prod.fst).lookup creation.metadata.agent = some creation.secret := by
    rw [hof.agent, hof.secret]
    exact (lookup_iff_mem hdistinct).2 (List.mem_map_of_mem hkey)
  exact ⟨⟨hpinned, hlookup, hruntime⟩, fun hstill =>
    verifyKeyBinding_still hideal hstill hlisting hkeys hdistinct hkey hof hbound⟩

/-- Two lists related to a third one are related where the third one joins them. -/
theorem forall₂_join {α β γ : Type} {R : α → β → Prop} {S : β → γ → Prop} {T : α → γ → Prop}
    {as : List α} {bs : List β} {cs : List γ} (hR : List.Forall₂ R as bs) (hS : List.Forall₂ S bs cs)
    (h : ∀ a b c, b ∈ bs → R a b → S b c → T a c) : List.Forall₂ T as cs := by
  induction hR generalizing cs with
  | nil =>
    cases hS
    exact .nil
  | cons hfirst hrest ih =>
    cases hS with
    | cons hfirst' hrest' =>
      exact .cons (h _ _ _ List.mem_cons_self hfirst hfirst')
        (ih hrest' fun a b c hb => h a b c (List.mem_cons_of_mem _ hb))

/-- A daemon that was started: its agents are the keystores of the directory. -/
structure Started (host : Host r) (c : Signer.Crypto) (config : SignBoxConfig)
    (journal : QuotaJournal) (running : RunningDaemon) : Prop where
  daemon : running.daemon = daemonOf config
  fresh : running.state.nonces = .empty ∧ running.state.journal = journal
  distinct : (running.state.agents.map AgentRuntime.agent).Nodup
  held : running.secrets.map Prod.fst = running.state.agents.map AgentRuntime.agent
  enrolled : ∃ directory, host.listing = .ok directory ∧
    List.Forall₂ (fun path runtime => ∃ creation, SealedBefore host.attempts path creation ∧
      Enrolled config running.secrets creation runtime ∧ (Still host → Derives c creation))
      (discoverKeystoreFiles config.keystoreDir directory) running.state.agents

/-- A start that succeeds has unlocked every keystore and registered every key. -/
theorem start_ok (hideal : r.Ideal) {journal : QuotaJournal} {running : RunningDaemon}
    (h : startDaemonFromConfig host c config journal = .ok running) :
    ∃ directory keys runtimes, host.listing = .ok directory ∧
      List.Forall₂ (OpensAs r host.files host.attempts)
        (discoverKeystoreFiles config.keystoreDir directory) keys ∧
      ((keys.map Prod.fst).map Prod.fst).Nodup ∧
      List.Forall₂ (fun key => Registers host c config (keys.map Prod.fst) key.2) keys runtimes ∧
      (runtimes.map AgentRuntime.agent).Nodup ∧
      running = ⟨daemonOf config, ⟨runtimes, .empty, journal⟩, keys.map Prod.fst⟩ := by
  simp only [startDaemonFromConfig, assemble, bind_ok, Signer.mapError_ok] at h
  obtain ⟨-, -, -, -, metadatas, hunlock, state, hstate, h⟩ := h
  obtain ⟨directory, keys, hlisting, hkeys, hmetadatas, hsecrets, hdistinct⟩ :=
    unlock_opened hideal (Prod.ext hunlock rfl)
  rw [hmetadatas, hsecrets] at hstate
  rw [hsecrets] at hdistinct h
  obtain ⟨runtimes, rfl, hnodup, hregisters⟩ := foldlM_register hstate List.nodup_nil
  rw [List.forall₂_map_left_iff] at hregisters
  split at h
  · cases h
  · exact ⟨directory, keys, runtimes, hlisting, hkeys, hdistinct, hregisters, hnodup,
      (Except.ok.inj h).symm⟩

/-- **A started daemon** has one agent for each keystore of its directory, in their order and under
distinct names: what was sealed for it on the configured chain, with the secret that was sealed
with it. When the disk is still during the start, the secret derives the public key of the agent. -/
theorem started_enrolled (hideal : r.Ideal) {journal : QuotaJournal} {running : RunningDaemon}
    (h : startDaemonFromConfig host c config journal = .ok running) :
    Started host c config journal running := by
  obtain ⟨directory, keys, runtimes, hlisting, hkeys, hdistinct, hregisters, hnodup, rfl⟩ :=
    start_ok hideal h
  have hnames : List.Forall₂ (fun key runtime => key.1.1 = AgentRuntime.agent runtime) keys
      runtimes := by
    have hsame : List.Forall₂ Eq keys keys := List.forall₂_refl keys
    refine forall₂_join hsame hregisters ?_
    rintro key _ runtime hkey rfl hregister
    obtain ⟨path, -, hopens⟩ := forall₂_right hkeys hkey
    obtain ⟨creation, -, hof, -⟩ := opens_sealed hideal hopens
    obtain ⟨-, -, token, hruntime⟩ := registers_checked hof hregister
    rw [hruntime, ← hof.agent]
    rfl
  refine ⟨rfl, ⟨rfl, rfl⟩, hnodup, ?_, directory, hlisting, ?_⟩
  · rw [List.map_map, ← List.forall₂_eq_eq_eq, List.forall₂_map_left_iff, List.forall₂_map_right_iff]
    exact hnames
  · refine forall₂_join hkeys hregisters fun path key runtime hkey hopens hregister => ?_
    obtain ⟨creation, hbefore, hof, -⟩ := opens_sealed hideal hopens
    exact ⟨creation, hbefore,
      registers_enrolled hideal hlisting hkeys hdistinct hkey hof hregister⟩

/-! ## When a daemon starts -/

/-- On a still disk that can be read, the binding of a key that derives is verified. -/
theorem verifyKeyBinding_derives (hideal : r.Ideal) (hstill : Still host)
    (hreadable : Readable host) {directory : Option Directory}
    (hlisting : host.listing = .ok directory)
    (hkeys : List.Forall₂ (OpensAs r host.files host.attempts)
      (discoverKeystoreFiles config.keystoreDir directory) keys)
    (hdistinct : ((keys.map Prod.fst).map Prod.fst).Nodup) (hkey : key ∈ keys)
    {creation : Creation r} (hof : KeyOf creation key) (hderives : Derives c creation) :
    verifyKeyBinding host.files config.keystoreDir (host.reading agent) c (keys.map Prod.fst)
      creation.metadata.agent = .ok true := by
  obtain ⟨privateKey, hprivate, hderived⟩ := hderives
  -- each key carries the name of its own agent
  have hagent : ∀ key' ∈ keys, (key'.2.property (js "agent")).str? = some key'.1.1 := by
    intro key' hkey'
    obtain ⟨path, -, hopens⟩ := forall₂_right hkeys hkey'
    exact opens_agent hideal hopens
  -- so the metadata found under the agent is that of its keystore
  have hfind : (keys.map Prod.snd).find? (fun metadata =>
      (metadata.property (js "agent")).str? = some creation.metadata.agent) = some key.2 := by
    cases hfound : (keys.map Prod.snd).find? (fun metadata =>
        (metadata.property (js "agent")).str? = some creation.metadata.agent) with
    | none =>
      have hnone := List.find?_eq_none.1 hfound key.2 (List.mem_map_of_mem hkey)
      exact absurd (by simpa using (keyOf_texts hof).1) hnone
    | some metadata =>
      obtain ⟨key', hkey', rfl⟩ := List.mem_map.1 (List.mem_of_find?_eq_some hfound)
      have hname : (key'.2.property (js "agent")).str? = some creation.metadata.agent := by
        simpa using List.find?_some hfound
      rw [hagent key' hkey', hof.agent] at hname
      rw [List.map_map] at hdistinct
      rw [List.inj_on_of_nodup_map hdistinct hkey' hkey (Option.some.inj hname)]
  have hread : readMetadata host.files config.keystoreDir (host.reading agent)
      creation.metadata.agent = .ok (some key.2) := by
    rw [readMetadata, listKeys_readable hideal hstill hreadable hlisting hkeys, ok_bind, hfind]
    rfl
  -- and the secret found under it is the one that was sealed there
  have hlookup : (keys.map Prod.fst).lookup creation.metadata.agent = some creation.secret := by
    rw [hof.agent, hof.secret]
    exact (lookup_iff_mem hdistinct).2 (List.mem_map_of_mem hkey)
  have hscalar : Signer.privateKeyOf c (keys.map Prod.fst) creation.metadata.agent =
      .ok privateKey := by
    rw [Signer.privateKeyOf, hlookup]
    exact hprivate
  rw [verifyKeyBinding, hread, hscalar]
  simp only [Except.mapError, ok_bind, (keyOf_texts hof).2.2.1, hderived, pure_eq, decide_true]

/-- The system refuses neither the token files nor the sockets, so only the keystores decide. -/
structure Granted (host : Host r) : Prop where
  tokenDir : host.tokenDir = none
  tokenFile : ∀ agent, host.tokenFile agent = none
  listen : host.listen = none

/-- The runtime of an agent with the metadata that was sealed, and a token of its own. -/
def runtimeFor (host : Host r) (config : SignBoxConfig) (creation : Creation r) : AgentRuntime :=
  runtimeOf config creation.metadata.agent creation.metadata.permission creation.metadata.publicKey
    (toBase64Url (host.randomBytes creation.metadata.agent))

omit [DecidableEq Key] in
theorem register_checked (hgranted : Granted host) {creation : Creation r} (hof : KeyOf creation key)
    (hpinned : creation.metadata.chain.chainId = config.chainId)
    (hbound : verifyKeyBinding host.files config.keystoreDir (host.reading creation.metadata.agent) c
      secrets creation.metadata.agent = .ok true)
    (hnew : s.runtime? creation.metadata.agent = none) : register host c config secrets s key.2 =
      .ok { s with agents := s.agents ++ [runtimeFor host config creation] } := by
  obtain ⟨hagent, hpermission, hpublicKey, hchainId⟩ := keyOf_texts hof
  have hregistered : s.runtime? (runtimeFor host config creation).agent = none := hnew
  have hid : (JsValue.json (.str creation.metadata.chain.chainId)).str? = some config.chainId := by
    rw [hpinned]
    rfl
  unfold runtimeFor at hregistered ⊢
  simp only [register, textOf_ok.2 hagent, textOf_ok.2 hpermission, textOf_ok.2 hpublicKey, hchainId,
    ok_bind, hid, ne_eq, not_true_eq_false, if_false, hbound, Bool.true_eq_false,
    hgranted.tokenFile, orRefused, registerAgent, hregistered]

omit [DecidableEq Key] in
/-- Keys that pass both checks, under names of their own, are all registered. -/
theorem foldlM_checked (hgranted : Granted host) {creations : List (Creation r)}
    (hof : List.Forall₂ KeyOf creations keys)
    (hchecked : ∀ creation ∈ creations, creation.metadata.chain.chainId = config.chainId ∧
      verifyKeyBinding host.files config.keystoreDir (host.reading creation.metadata.agent) c secrets
        creation.metadata.agent = .ok true)
    (hdistinct : (s.agents.map AgentRuntime.agent ++
      creations.map fun creation => creation.metadata.agent).Nodup) :
    (keys.map Prod.snd).foldlM (register host c config secrets) s =
      .ok { s with agents := s.agents ++ creations.map (runtimeFor host config) } := by
  induction hof generalizing s with
  | nil => simp
  | @cons creation key creations keys hfirst hrest ih =>
    obtain ⟨hpinned, hbound⟩ := hchecked creation List.mem_cons_self
    have hnew : s.runtime? creation.metadata.agent = none := by
      refine List.find?_eq_none.2 fun runtime hruntime heq => ?_
      rw [List.nodup_append] at hdistinct
      exact hdistinct.2.2 runtime.agent (List.mem_map_of_mem hruntime) creation.metadata.agent
        (by simp) (by simpa using heq)
    have hregister := register_checked hgranted hfirst hpinned hbound hnew
    have hnext : (({ s with agents := s.agents ++ [runtimeFor host config creation] } :
        DaemonState).agents.map AgentRuntime.agent ++
          creations.map fun creation => creation.metadata.agent).Nodup := by
      have hname : (runtimeFor host config creation).agent = creation.metadata.agent := rfl
      rw [List.map_append, List.map_singleton, hname, List.append_assoc, List.singleton_append]
      rwa [List.map_cons] at hdistinct
    have hrun := ih (fun x hx => hchecked x (List.mem_cons_of_mem _ hx)) hnext
    rw [List.map_cons, List.foldlM_cons, hregister, ok_bind, hrun, List.append_assoc,
      List.singleton_append, List.map_cons]

/-- The file unlocks, within three attempts, to the key of the creation: its secret, and the same
metadata. -/
def Unlocks (host : Host r) (path : JsString) (creation : Creation r) : Prop :=
  ∃ value, (openWithRetries r host.files host.attempts path 1).1 =
    .opened creation.secret (.json value) ∧ value.Same creation.metadata.toJson

/-- The keys that unlock are those of the creations that the files unlock to. -/
theorem creations_of_keys (hideal : r.Ideal) {paths : List JsString}
    (h : List.Forall₂ (OpensAs r host.files host.attempts) paths keys) :
    ∃ creations, List.Forall₂ (Unlocks host) paths creations ∧ List.Forall₂ KeyOf creations keys := by
  induction h with
  | nil => exact ⟨[], .nil, .nil⟩
  | cons hopens _ ih =>
    obtain ⟨creations, hunlocks, hof⟩ := ih
    obtain ⟨creation, -, hfirst, -⟩ := opens_sealed hideal hopens
    obtain ⟨value, hvalue, hsame⟩ := hfirst.metadata
    refine ⟨creation :: creations, .cons ⟨value, ?_, hsame⟩ hunlocks, .cons hfirst hof⟩
    rw [hopens.1, hfirst.secret, hvalue]

theorem keys_of_creations {paths : List JsString} {creations : List (Creation r)}
    (h : List.Forall₂ (Unlocks host) paths creations) :
    ∃ keys, List.Forall₂ (OpensAs r host.files host.attempts) paths keys ∧
      List.Forall₂ KeyOf creations keys := by
  induction h with
  | nil => exact ⟨[], .nil, .nil⟩
  | @cons path creation paths creations hfirst _ ih =>
    obtain ⟨keys, hopens, hof⟩ := ih
    obtain ⟨value, hopening, hsame⟩ := hfirst
    exact ⟨((creation.metadata.agent, creation.secret), .json value) :: keys,
      .cons ⟨hopening, agentOf_same hsame⟩ hopens, .cons ⟨rfl, rfl, value, rfl, hsame⟩ hof⟩

omit [DecidableEq Key] in
theorem secrets_of_keys {creations : List (Creation r)} (h : List.Forall₂ KeyOf creations keys) :
    keys.map Prod.fst = creations.map fun creation => (creation.metadata.agent, creation.secret) := by
  induction h with
  | nil => rfl
  | cons hfirst _ ih => rw [List.map_cons, List.map_cons, ih, hfirst.agent, hfirst.secret]

omit [DecidableEq Key] in
theorem agents_of_keys {creations : List (Creation r)} (h : List.Forall₂ KeyOf creations keys) :
    (keys.map Prod.fst).map Prod.fst = creations.map fun creation => creation.metadata.agent := by
  rw [secrets_of_keys h, List.map_map]
  rfl

/-- **What is started.** Where every keystore unlocks and passes its checks, the daemon that starts
has their agents and holds their secrets. -/
theorem start_of_creations (hideal : r.Ideal) (hstill : Still host) (hreadable : Readable host)
    (hgranted : Granted host) (hchain : config.chain = js "XPR") {journal : QuotaJournal}
    {directory : Option Directory} {creations : List (Creation r)}
    (hlisting : host.listing = .ok directory)
    (hunlocks : List.Forall₂ (Unlocks host) (discoverKeystoreFiles config.keystoreDir directory)
      creations)
    (hdistinct : (creations.map fun creation => creation.metadata.agent).Nodup)
    (hchecks : ∀ creation ∈ creations, creation.metadata.chain.chainId = config.chainId ∧
      Derives c creation) :
    startDaemonFromConfig host c config journal = .ok ⟨daemonOf config,
      ⟨creations.map (runtimeFor host config), .empty, journal⟩,
      creations.map fun creation => (creation.metadata.agent, creation.secret)⟩ := by
  obtain ⟨keys, hkeys, hof⟩ := keys_of_creations hunlocks
  have hnodup : ((keys.map Prod.fst).map Prod.fst).Nodup := by rwa [agents_of_keys hof]
  obtain ⟨session, hunlock, hsecrets⟩ : ∃ s', unlockFiles r host.files host.attempts
      (discoverKeystoreFiles config.keystoreDir directory) ⟨[], []⟩ [] =
        (.ok ([] ++ keys.map Prod.snd), s') ∧ s'.secrets = [] ++ keys.map Prod.fst :=
    unlockFiles_resolves hkeys (by simpa using hnodup)
  have hchecked : ∀ creation ∈ creations, creation.metadata.chain.chainId = config.chainId ∧
      verifyKeyBinding host.files config.keystoreDir (host.reading creation.metadata.agent) c
        (keys.map Prod.fst) creation.metadata.agent = .ok true := by
    intro creation hcreation
    obtain ⟨key, hkey, hfirst⟩ := forall₂_right hof.flip hcreation
    obtain ⟨hpinned, hderives⟩ := hchecks creation hcreation
    exact ⟨hpinned, verifyKeyBinding_derives hideal hstill hreadable hlisting hkeys hnodup hkey
      hfirst hderives⟩
  have hstate : (keys.map Prod.snd).foldlM (register host c config (keys.map Prod.fst))
      ⟨[], .empty, journal⟩ = .ok ⟨creations.map (runtimeFor host config), .empty, journal⟩ :=
    foldlM_checked hgranted hof hchecked (by simpa using hdistinct)
  have hsession : session.secrets = keys.map Prod.fst := hsecrets
  rw [← secrets_of_keys hof]
  simp only [startDaemonFromConfig, getChain, hchain, if_pos, ok_bind, assemble, hgranted.tokenDir,
    orRefused, unlock, hlisting, hunlock, List.nil_append, Except.mapError, hsession, hstate,
    hgranted.listen, pure_eq]

/-- **When a daemon starts.** On a still and readable disk, and where the system refuses nothing, a
daemon starts exactly when every keystore unlocks, under distinct agents, is bound to the configured
chain and derives the public key that it declares. -/
theorem starts_iff (hideal : r.Ideal) (hstill : Still host) (hreadable : Readable host)
    (hgranted : Granted host) (hchain : config.chain = js "XPR") {journal : QuotaJournal} :
    (∃ running, startDaemonFromConfig host c config journal = .ok running) ↔
      ∃ directory creations, host.listing = .ok directory ∧
        List.Forall₂ (Unlocks host) (discoverKeystoreFiles config.keystoreDir directory) creations ∧
        (creations.map fun creation => creation.metadata.agent).Nodup ∧
        ∀ creation ∈ creations, creation.metadata.chain.chainId = config.chainId ∧
          Derives c creation := by
  constructor
  · rintro ⟨running, h⟩
    obtain ⟨directory, keys, runtimes, hlisting, hkeys, hdistinct, hregisters, -⟩ :=
      start_ok hideal h
    obtain ⟨creations, hunlocks, hof⟩ := creations_of_keys hideal hkeys
    refine ⟨directory, creations, hlisting, hunlocks, by rwa [← agents_of_keys hof], ?_⟩
    intro creation hcreation
    obtain ⟨key, hkey, hfirst⟩ := forall₂_right hof.flip hcreation
    obtain ⟨runtime, -, hregister⟩ := forall₂_right hregisters.flip hkey
    obtain ⟨henrolled, hderives⟩ :=
      registers_enrolled hideal hlisting hkeys hdistinct hkey hfirst hregister
    exact ⟨henrolled.pinned, hderives hstill⟩
  · rintro ⟨directory, creations, hlisting, hunlocks, hdistinct, hchecks⟩
    exact ⟨_, start_of_creations hideal hstill hreadable hgranted hchain hlisting hunlocks hdistinct
      hchecks⟩

end Startup

/-! The keystores of two agents in one directory, each with a key pair and a passphrase of its own.
They sign and do not submit. -/

namespace Startup.TwoKeystores

open Keystore Recorded Signer

/-- What is sealed with a secret. -/
def metadata (agent : JsString) (pair : DemoPayment.Pair) : KeystoreMetadata where
  publicKey := pair.public
  exportPolicy := .nonExportable
  chain := ⟨DemoPayment.context.chain, DemoPayment.context.network, DemoPayment.context.chainId⟩
  agent := agent
  permission := js "active"
  createdAt := js "2026-07-08T00:00:00.000Z"

def bot : Creation runtime := { discovered with
  secret := DemoPayment.bot.secret
  metadata := metadata (js "bot") DemoPayment.bot }

def bursar : Creation runtime := { Recorded.bursar with
  secret := DemoPayment.bursar.secret
  metadata := metadata (js "bursar") DemoPayment.bursar }

def config : SignBoxConfig :=
  ⟨js "XPR", js "testnet", DemoPayment.context.chainId, directory, none⟩

/-- Each file is asked for its own passphrase, and the tokens of the two agents differ. -/
def host : Host runtime where
  files _ := none
  attempts path _ := ⟨.ok (if path = bot.filePath then bot.passphrase else bursar.passphrase),
    [bot, bursar].map .create, .granted⟩
  listing := .ok (some two)
  reading _ := ⟨.ok (some two), fun _ => [bot, bursar].map .create, fun _ => none⟩
  randomBytes agent := List.replicate 32 (if agent = js "bot" then 1 else 2)
  tokenDir := none
  tokenFile _ := none
  listen := none

theorem still : Still host := ⟨fun _ => rfl, fun _ _ _ => rfl⟩

theorem granted : Granted host := ⟨rfl, fun _ => rfl, rfl⟩

theorem open_both {creation : Creation runtime} (h : creation ∈ [bot, bursar]) :
    openKeystoreFile runtime ((World.start RecordedKey fun _ => none).run
      ([bot, bursar].map .create)) .granted creation.filePath creation.passphrase =
        .ok (creation.secret, .json creation.metadata.toJson) := by
  refine open_unhindered runtime_ideal (fun x hx => ?_) (fun x hx => ?_) (fun _ _ => rfl)
    (by decide) h
  · rcases List.mem_pair.1 hx with rfl | rfl <;> exact ⟨rfl, rfl, _, rfl⟩
  · rcases List.mem_pair.1 hx with rfl | rfl <;> decide +kernel

theorem unlocks {creation : Creation runtime} (h : creation ∈ [bot, bursar]) :
    Unlocks host creation.filePath creation := by
  have hprompt : (host.attempts creation.filePath 1).prompt = .ok creation.passphrase := by
    have hother : bursar.filePath ≠ bot.filePath := by decide
    rcases List.mem_pair.1 h with rfl | rfl
    · simp only [host, if_pos]
    · simp only [host, if_neg hother]
  have hsound : creation.metadata.toJson.Sound JsNumber.finite := metadata_sound _
  have hopened : openWithRetries runtime host.files host.attempts creation.filePath 1 =
      (.opened creation.secret (.json creation.metadata.toJson), 1) :=
    openWithRetries_open hprompt (open_both h)
  exact ⟨creation.metadata.toJson, by rw [hopened], (canonicalize_eq_iff hsound hsound).1 rfl⟩

theorem unlocks_both : List.Forall₂ (Unlocks host)
    (discoverKeystoreFiles config.keystoreDir (some two)) [bot, bursar] := by
  have hfound : discoverKeystoreFiles config.keystoreDir (some two) =
    [bot.filePath, bursar.filePath] := discover_two
  rw [hfound]
  exact .cons (unlocks List.mem_cons_self) (.cons (unlocks (by simp)) .nil)

theorem distinct_agents :
    ([bot, bursar].map fun creation => creation.metadata.agent).Nodup := by decide

theorem pinned {creation : Creation runtime} (h : creation ∈ [bot, bursar]) :
    creation.metadata.chain.chainId = config.chainId := by
  rcases List.mem_pair.1 h with rfl | rfl <;> rfl

theorem derives {creation : Creation runtime} (h : creation ∈ [bot, bursar]) :
    Derives DemoPayment.crypto creation := by
  rcases List.mem_pair.1 h with rfl | rfl
  · exact ⟨DemoPayment.bot.privateKey, by decide +kernel, by decide +kernel⟩
  · exact ⟨DemoPayment.bursar.privateKey, by decide +kernel, by decide +kernel⟩

/-- **The daemon of the two keystores starts**: both unlock, under the names of two agents. -/
theorem starts_iff_two : ∃ running, startDaemonFromConfig host DemoPayment.crypto config
    QuotaJournal.empty = .ok running :=
  (starts_iff runtime_ideal still (fun _ _ => rfl) granted rfl).2
    ⟨some two, [bot, bursar], rfl, unlocks_both, distinct_agents,
      fun _ hx => ⟨pinned hx, derives hx⟩⟩

end Startup.TwoKeystores

end Signbox

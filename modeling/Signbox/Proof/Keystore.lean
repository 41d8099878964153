import Signbox.Guard.ShortCircuit
import Signbox.Proof.Base64
import Signbox.Proof.Numbers
import Signbox.Proof.StoredText
import Signbox.Proof.Utf8
import Signbox.Spec.Keystore

/-!
# What a keystore file says

* `create_cases`: a call of `createKeystoreFile` seals nothing, or its secret under its header.
* `run_sealings`: whatever is sealed in a run was sealed by a creation of that run.
* `open_created`: the file a creation wrote opens to its secret and its metadata.
* `open_ok`: a file that opens has a header that something was sealed under.
* `keystore_integrity`: both together, for every run.
-/

namespace Signbox

namespace Keystore

open Guard

variable {Key : Type} {r : Runtime Key} {c : Creation r} {w w' : World Key}

/-! ## Creating a file -/

/-- What a creation seals: its secret, under the key of its passphrase, with its header as
additional data. -/
structure SealedBy (c : Creation r)
    (s : Sealing Key (List UInt8) (List UInt8) (List UInt8) (List UInt8)) : Prop where
  key : r.pwhash c.passphrase c.salt r.OPSLIMIT_MODERATE r.MEMLIMIT_MODERATE = some s.key
  nonce : s.nonce = c.nonce
  additional : additionalData c.header = .ok s.additional
  ciphertext : s.ciphertext = r.encrypt s.key s.nonce s.additional s.message
  message : s.message = c.secret

/-- The file a creation writes. -/
def Creation.file (c : Creation r) (ciphertext : List UInt8) : File :=
  ⟨0o600, utf8 (c.text ciphertext)⟩

section Header

variable {nearest : Decimal → JsNumber}

theorem metadata_sound (m : KeystoreMetadata) : m.toJson.Sound nearest := by
  have houter : [js "publicKey", js "exportPolicy", js "chain", js "agent", js "permission",
      js "createdAt"].Nodup := by decide
  have hchain : [js "chain", js "network", js "chainId"].Nodup := by decide
  exact ⟨houter, trivial, trivial, ⟨hchain, trivial, trivial, trivial, trivial⟩, trivial, trivial,
    trivial, trivial⟩

/-- The header is a sound value, if its three numbers are. -/
theorem header_sound (c : Creation r) (hone : nearest (.ofNat 1) = .finite (.ofNat 1))
    (hops : nearest (.ofNat r.OPSLIMIT_MODERATE) = .finite (.ofNat r.OPSLIMIT_MODERATE))
    (hmem : nearest (.ofNat r.MEMLIMIT_MODERATE) = .finite (.ofNat r.MEMLIMIT_MODERATE)) :
    (Json.obj .ordinary c.header).Sound nearest := by
  have houter : [js "version", js "kind", js "kdf", js "cipher", js "meta"].Nodup := by decide
  have hkdf : [js "algorithm", js "opslimit", js "memlimit", js "salt"].Nodup := by decide
  have hcipher : [js "algorithm", js "nonce"].Nodup := by decide
  exact ⟨houter, hone, trivial, ⟨hkdf, trivial, hops, hmem, trivial, trivial⟩,
    ⟨hcipher, trivial, trivial, trivial⟩, metadata_sound c.metadata, trivial⟩

theorem header_finite (c : Creation r) : (Json.obj .ordinary c.header).Sound JsNumber.finite :=
  header_sound c rfl rfl rfl

/-- A header that a creation writes has a canonical form. -/
theorem additionalData_header (c : Creation r) :
    ∃ additional, additionalData c.header = .ok additional := by
  have hcanonical := canonicalize_ok _ (header_finite c)
  refine ⟨utf8 (Json.obj .ordinary c.header).canonical.stringify, ?_⟩
  rw [additionalData, hcanonical]
  rfl

end Header

/-- How a creation ends: without sealing anything, or with its sealing on record. In the second
case the file may still be missing. -/
inductive Created (c : Creation r) (w : World Key) :
    EStateM.Result Failure (World Key) Unit → Prop
  | refused (e : Failure) : Created c w (.error e w)
  | failed (e : Failure) (files : JsString → Option File)
      (s : Sealing Key (List UInt8) (List UInt8) (List UInt8) (List UInt8)) : SealedBy c s →
      Created c w (.error e ⟨files, w.sealings ++ [s]⟩)
  | written (s : Sealing Key (List UInt8) (List UInt8) (List UInt8) (List UInt8)) : SealedBy c s →
      Created c w (.ok () ⟨Function.update w.files c.filePath (some (c.file s.ciphertext)),
        w.sealings ++ [s]⟩)

theorem bind_call {α β : Type} (x : Except Failure α) (f : α → Program Key β) (w : World Key) :
    (call x >>= f) w = match x with
      | .ok a => f a w
      | .error e => .error e w := by
  cases x <;> rfl

/-- The file system refuses the file, or has it. -/
theorem write_cases (c : Creation r) (file : File) (w : World Key) :
    (∃ e files, orFileExists c.filePath (do
        mkdirSync c.mkdir
        writeFileSync c.write c.filePath file) w = .error e ⟨files, w.sealings⟩) ∨
    orFileExists c.filePath (do
        mkdirSync c.mkdir
        writeFileSync c.write c.filePath file) w = .ok () (w.setFile c.filePath (some file)) := by
  have hthrow : ∀ (e : Failure) (w' : World Key), w'.sealings = w.sealings →
      ∃ e' files, (if e = .system .EEXIST then
          throw (.keystore .fileExists (js "keystore already exists: " ++ c.filePath))
        else throw e : Program Key Unit) w' = .error e' ⟨files, w.sealings⟩ := by
    intro e w' hsealings
    rw [← hsealings]
    split <;> exact ⟨_, w'.files, rfl⟩
  unfold orFileExists
  rw [run_tryCatch, run_bind]
  cases hmkdir : c.mkdir with
  | some errno => exact .inl (hthrow (.system errno) w rfl)
  | none =>
    cases hfile : w.files c.filePath with
    | some other =>
      have hwrite : writeFileSync c.write c.filePath file w = .error (.system .EEXIST) w := by
        simp only [writeFileSync, hfile]
      simp only [mkdirSync, hwrite, if_true]
      exact .inl ⟨_, w.files, rfl⟩
    | none =>
      cases hwrite : c.write with
      | written =>
        refine .inr ?_
        simp only [mkdirSync, writeFileSync, hfile]
      | refused errno =>
        simp only [mkdirSync, writeFileSync, hfile]
        exact .inl (hthrow _ w rfl)
      | torn content errno =>
        simp only [mkdirSync, writeFileSync, hfile]
        exact .inl (hthrow _ _ rfl)

theorem create_cases (c : Creation r) (w : World Key) : Created c w (createKeystoreFile c w) := by
  unfold createKeystoreFile
  rw [bind_call]
  cases hkey : r.pwhash c.passphrase c.salt r.OPSLIMIT_MODERATE r.MEMLIMIT_MODERATE with
  | none =>
    simp only [deriveKey, hkey]
    exact .refused _
  | some key =>
    simp only [deriveKey, hkey]
    rw [bind_call]
    cases hdata : additionalData c.header with
    | error e => exact .refused _
    | ok additional =>
      have hsealed : SealedBy c ⟨key, c.nonce, additional,
          r.encrypt key c.nonce additional c.secret, c.secret⟩ := ⟨hkey, rfl, hdata, rfl, rfl⟩
      simp only [Except.mapError]
      rw [run_bind, sealMessage]
      simp only
      -- what is left is the file system's
      rcases write_cases c (c.file (r.encrypt key c.nonce additional c.secret))
        { w with sealings := w.sealings ++ [⟨key, c.nonce, additional,
          r.encrypt key c.nonce additional c.secret, c.secret⟩] } with ⟨e, files, hwrite⟩ | hwrite
      · rw [Creation.file] at hwrite
        rw [hwrite]
        exact .failed e files _ hsealed
      · have hwritten := Created.written (w := w) _ hsealed
        rw [Creation.file] at hwrite
        rw [hwrite]
        exact hwritten

/-- A creation that gets its key and a free path writes its file. -/
theorem create_written {key : Key}
    (hkey : r.pwhash c.passphrase c.salt r.OPSLIMIT_MODERATE r.MEMLIMIT_MODERATE = some key)
    (hmkdir : c.mkdir = none) (hfree : w.files c.filePath = none) (hwrite : c.write = .written) :
    ∃ w', createKeystoreFile c w = .ok () w' := by
  obtain ⟨additional, hdata⟩ := additionalData_header c
  unfold createKeystoreFile
  rw [bind_call]
  simp only [deriveKey, hkey]
  rw [bind_call, hdata]
  simp only [Except.mapError]
  rw [run_bind, sealMessage]
  simp only
  unfold orFileExists
  rw [run_tryCatch, run_bind, hmkdir]
  simp only [mkdirSync, writeFileSync, hfree, hwrite]
  exact ⟨_, rfl⟩

/-! ## Runs -/

/-- An event adds one sealing at most, and only a creation adds one. -/
theorem step_sealings (w : World Key) (e : Event r) : (w.step e).sealings = w.sealings ∨
    ∃ c s, e = .create c ∧ SealedBy c s ∧ (w.step e).sealings = w.sealings ++ [s] := by
  cases e with
  | place path file => exact .inl rfl
  | create c =>
    have hcreated := create_cases c w
    rw [World.step]
    cases hcreated' : createKeystoreFile c w with
    | ok u w' =>
      rw [hcreated'] at hcreated
      cases hcreated with
      | written s hs => exact .inr ⟨c, s, rfl, hs, rfl⟩
    | error e w' =>
      rw [hcreated'] at hcreated
      cases hcreated with
      | refused => exact .inl rfl
      | failed _ files s hs => exact .inr ⟨c, s, rfl, hs, rfl⟩

variable {s : Sealing Key (List UInt8) (List UInt8) (List UInt8) (List UInt8)}
variable {events : List (Event r)}

theorem run_cons (w : World Key) (e : Event r) (events : List (Event r)) :
    w.run (e :: events) = (w.step e).run events := rfl

/-- **What is on record after a run was there before, or was sealed by a creation** of the run.
Moving, deleting and altering files seals nothing. -/
theorem run_sealings (hs : s ∈ (w.run events).sealings) :
    s ∈ w.sealings ∨ ∃ c, .create c ∈ events ∧ SealedBy c s := by
  induction events generalizing w with
  | nil => exact .inl hs
  | cons e events ih =>
    rw [run_cons] at hs
    rcases ih hs with hs | ⟨c, hc, hsealed⟩
    · rcases step_sealings w e with hstep | ⟨c, s', rfl, hsealed, hstep⟩
      · rw [hstep] at hs
        exact .inl hs
      · rw [hstep, List.mem_append, List.mem_singleton] at hs
        rcases hs with hs | rfl
        · exact .inl hs
        · exact .inr ⟨c, List.mem_cons_self, hsealed⟩
    · exact .inr ⟨c, List.mem_cons_of_mem e hc, hsealed⟩

/-- Nothing goes off the record. -/
theorem mem_run (hs : s ∈ w.sealings) : s ∈ (w.run events).sealings := by
  induction events generalizing w with
  | nil => exact hs
  | cons e events ih =>
    rw [run_cons]
    refine ih ?_
    rcases step_sealings w e with hstep | ⟨c, s', -, -, hstep⟩
    · rwa [hstep]
    · rw [hstep]
      exact List.mem_append_left _ hs

theorem run_honest (h : Honest r.encrypt w.sealings) :
    Honest r.encrypt (w.run events).sealings := by
  intro s hs
  rcases run_sealings hs with hs | ⟨c, -, hsealed⟩
  · exact h s hs
  · exact hsealed.ciphertext

/-! ## The text of a file -/

/-- The value a creation writes. -/
def Creation.doc (c : Creation r) (ciphertext : List UInt8) : Json :=
  .obj .ordinary (c.header ++ [(js "ciphertext", .str (toBase64 ciphertext))])

theorem doc_sound (h : r.Ideal) (c : Creation r) (ciphertext : List UInt8) :
    (c.doc ciphertext).Sound JsNumber.ofLiteral := by
  have houter : [js "version", js "kind", js "kdf", js "cipher", js "meta",
      js "ciphertext"].Nodup := by decide
  have hheader := header_sound c (ofLiteral_ofNat (by norm_num)) (ofLiteral_ofNat h.opslimit_safe)
    (ofLiteral_ofNat h.memlimit_safe)
  refine ⟨houter, soundMembers_iff.2 fun m hm => ?_⟩
  rcases List.mem_append.1 hm with hm | hm
  · exact soundMembers_iff.1 hheader.2 m hm
  · rw [List.mem_singleton.1 hm]
    exact trivial

theorem doc_ordinary (c : Creation r) (ciphertext : List UInt8) :
    (c.doc ciphertext).ordinary = c.doc ciphertext := rfl

/-- The text of a file reads back as the value that was written. -/
theorem parse_text (h : r.Ideal) (c : Creation r) (ciphertext : List UInt8) :
    Json.parse JsNumber.ofLiteral (decodeUtf8 (utf8 (c.text ciphertext))) =
      some (c.doc ciphertext) := by
  have hblank := JsonText.Spacing.indented_blank 2
  have hend : JsonText.White (js "\n") := by
    intro u hu
    have hline : js "\n" = [unit '\n'] := by decide
    rw [hline, List.mem_singleton] at hu
    rw [hu]
    decide
  have hwell : WellFormed (c.text ciphertext) :=
    (wellFormed_render hblank (c.doc ciphertext) 0).append (wellFormed_literal (by decide))
  rw [decode_utf8 hwell]
  exact (parse_render hblank (doc_sound h c ciphertext) 0 hend).trans
    (congrArg some (doc_ordinary c ciphertext))

/-! ## Opening what was written -/

theorem bufferFrom_base64 (r : Runtime Key) (bytes : List UInt8) :
    bufferFrom r (.json (.str (toBase64 bytes))) = .ok bytes := by
  have hread : (JsValue.json (.str (toBase64 bytes))).str?.bind fromBase64? = some bytes :=
    fromBase64_to bytes
  rw [bufferFrom, hread]

theorem inBounds_ofNat {n min max : ℕ} (hmin : min ≤ n) (hmax : n ≤ max) :
    inBounds (.json (.num (.finite (.ofNat n)))) min max = some n := by
  have hint : (JsValue.json (.num (.finite (.ofNat n)))).num?.bind JsNumber.toInt? =
      some (n : ℤ) := by
    rw [ofNat_eq_ofParts]
    exact ofParts_toInt n
  have hband : (min : ℤ) ≤ n ∧ (n : ℤ) ≤ max := by omega
  rw [inBounds, hint]
  simp only [if_pos hband, Int.toNat_natCast]

theorem kdf_inBounds (h : r.Ideal) (c : Creation r) :
    assertKdfParamsInBounds r ((JsValue.json c.kdf).readObject (js "opslimit"))
      ((JsValue.json c.kdf).readObject (js "memlimit")) =
        .ok (r.OPSLIMIT_MODERATE, r.MEMLIMIT_MODERATE) := by
  have hops : (JsValue.json c.kdf).readObject (js "opslimit") =
      .json (.num (.finite (.ofNat r.OPSLIMIT_MODERATE))) := rfl
  have hmem : (JsValue.json c.kdf).readObject (js "memlimit") =
      .json (.num (.finite (.ofNat r.MEMLIMIT_MODERATE))) := rfl
  rw [hops, hmem, assertKdfParamsInBounds, inBounds_ofNat h.opslimit_le le_rfl,
    inBounds_ofNat h.memlimit_le le_rfl]

theorem headerOf_doc (c : Creation r) (ciphertext : List UInt8) :
    headerOf (c.doc ciphertext) = c.header := rfl

variable [DecidableEq Key]

/-- **The file a creation wrote opens to its secret and its metadata**, with its own passphrase, as
long as the path holds what was written. An empty secret cannot be told from none, so it is left
out. -/
theorem open_created (h : r.Ideal) (hs : SealedBy c s) (hmem : s ∈ w.sealings)
    (honest : Honest r.encrypt w.sealings) {path : JsString}
    (hfile : w.files path = some (c.file s.ciphertext)) (hsecret : c.secret ≠ []) :
    openKeystoreFile r w .granted path c.passphrase = .ok (c.secret, .json c.metadata.toJson) := by
  have hmode : (0o600 : ℕ) &&& 0o077 = 0 := by decide
  -- the file is read and parsed back to the document that was written
  have hread : readText w .granted path = .ok (decodeUtf8 (utf8 (c.text s.ciphertext))) := by
    simp [readText, hfile, Access.granted, Creation.file, hmode]
  have hparse : parseFile (decodeUtf8 (utf8 (c.text s.ciphertext))) = .ok (c.doc s.ciphertext) := by
    rw [parseFile, parse_text h]
  have hversion : property (c.doc s.ciphertext) (js "version") =
      .ok (.json (.num (.finite (.ofNat 1)))) := rfl
  have hkind : property (c.doc s.ciphertext) (js "kind") =
      .ok (.json (.str (js "encrypted-file"))) := rfl
  have hkdf : property (c.doc s.ciphertext) (js "kdf") = .ok (.json c.kdf) := rfl
  have hcipher : property (c.doc s.ciphertext) (js "cipher") = .ok (.json c.cipher) := rfl
  have hciphertext : property (c.doc s.ciphertext) (js "ciphertext") =
      .ok (.json (.str (toBase64 s.ciphertext))) := rfl
  have hmeta : property (c.doc s.ciphertext) (js "meta") = .ok (.json c.metadata.toJson) := rfl
  have hsalt : (JsValue.json c.kdf).readObject (js "salt") = .json (.str (toBase64 c.salt)) := rfl
  have hnonce : (JsValue.json c.cipher).readObject (js "nonce") = .json (.str (toBase64 c.nonce)) :=
    rfl
  -- none of the checks refuses what a creation writes
  have hsupported : ¬ ((JsValue.json (.num (.finite (.ofNat 1)))).num? ≠ some (.finite (.ofNat 1)) ∨
      (JsValue.json (.str (js "encrypted-file"))).str? ≠ some (js "encrypted-file")) := by
    rintro (hne | hne) <;> exact hne rfl
  have halgorithms : ¬ (((JsValue.json c.kdf).readObject (js "algorithm")).str? ≠
        some (js "argon2id13") ∨
      ((JsValue.json c.cipher).readObject (js "algorithm")).str? ≠
        some (js "xchacha20poly1305-ietf")) := by
    rintro (hne | hne) <;> exact hne rfl
  have hlength : s.ciphertext.length = c.secret.length + r.ABYTES := by
    rw [hs.ciphertext, h.encrypt_length, hs.message]
  have hpos : 0 < c.secret.length := List.length_pos_of_ne_nil hsecret
  have hfields : ¬ (c.salt.length ≠ r.SALTBYTES ∨ c.nonce.length ≠ r.NPUBBYTES ∨
      s.ciphertext.length ≤ r.ABYTES) := by
    rw [c.salt_length, c.nonce_length]
    omega
  -- and the cipher knows the sealing, under the header that is in the file
  have hopened : opened w.sealings s.key s.nonce s.additional s.ciphertext = some s.message :=
    honest.opened_seal h.encrypt_inj hmem
  have hdecrypt : decrypt w s.key c.nonce c.header s.ciphertext = .ok c.secret := by
    rw [decrypt, hs.additional, ← hs.nonce, ← hs.message]
    simp only [Except.toOption, Option.bind_some, hopened]
  unfold openKeystoreFile
  rw [hread, ok_bind, hparse, ok_bind, hversion, ok_bind, hkind, ok_bind, if_neg hsupported, hkdf,
    ok_bind, hcipher, ok_bind, if_neg halgorithms, hsalt, bufferFrom_base64, ok_bind, hnonce,
    bufferFrom_base64, ok_bind, hciphertext, ok_bind, bufferFrom_base64, ok_bind, if_neg hfields,
    kdf_inBounds h, ok_bind]
  simp only [deriveKey, hs.key, ok_bind, headerOf_doc, hdecrypt, hmeta, pure_eq]

/-! ## What a file that opens was sealed under -/

/-- **A file that opens**: its value, and the sealing found for it. Every step of opening is
spelled out here once: the file parses, its fields decode, the key is derived, and the cipher knows
the sealing. -/
theorem open_ok {access : Access} {path : JsString} {passphrase secret : List UInt8} {v : JsValue}
    (h : openKeystoreFile r w access path passphrase = .ok (secret, v)) :
    ∃ f file salt nonce field ciphertext opslimit memlimit key additional, w.files path = some f ∧
      Json.parse JsNumber.ofLiteral (decodeUtf8 f.content) = some file ∧
      property file (js "ciphertext") = .ok field ∧ bufferFrom r field = .ok ciphertext ∧
      r.pwhash passphrase salt opslimit memlimit = some key ∧
      additionalData (headerOf file) = .ok additional ∧
      opened w.sealings key nonce additional ciphertext = some secret ∧
      property file (js "meta") = .ok v := by
  unfold openKeystoreFile at h
  -- the checks of the source in their order; what only has to be there is dropped
  obtain ⟨raw, hraw, h⟩ := bind_ok.1 h
  obtain ⟨file, hfile, h⟩ := bind_ok.1 h
  obtain ⟨version, -, h⟩ := bind_ok.1 h
  obtain ⟨kind, -, h⟩ := bind_ok.1 h
  split at h
  · cases h
  obtain ⟨kdf, -, h⟩ := bind_ok.1 h
  obtain ⟨cipher, -, h⟩ := bind_ok.1 h
  split at h
  · cases h
  obtain ⟨salt, -, h⟩ := bind_ok.1 h
  obtain ⟨nonce, -, h⟩ := bind_ok.1 h
  obtain ⟨field, hfield, h⟩ := bind_ok.1 h
  obtain ⟨ciphertext, hciphertext, h⟩ := bind_ok.1 h
  split at h
  · cases h
  obtain ⟨⟨opslimit, memlimit⟩, -, h⟩ := bind_ok.1 h
  obtain ⟨key, hkey, h⟩ := bind_ok.1 h
  obtain ⟨secret', hsecret, h⟩ := bind_ok.1 h
  obtain ⟨v', hv, h⟩ := bind_ok.1 h
  simp only [pure_eq, Except.ok.injEq, Prod.mk.injEq] at h
  obtain ⟨rfl, rfl⟩ := h
  -- the key was derived and the cipher knew the sealing
  have hderived : r.pwhash passphrase salt opslimit memlimit = some key := by
    rw [deriveKey] at hkey
    split at hkey
    · next k hk => rw [hk, Except.ok.inj hkey]
    · cases hkey
  obtain ⟨additional, hdata, hopened⟩ : ∃ additional, additionalData (headerOf file) = .ok additional ∧
      opened w.sealings key nonce additional ciphertext = some secret' := by
    rw [decrypt] at hsecret
    cases hdata : additionalData (headerOf file) with
    | error e => simp [hdata, Except.toOption] at hsecret
    | ok additional =>
      refine ⟨additional, rfl, ?_⟩
      simp only [hdata, Except.toOption, Option.bind_some] at hsecret
      split at hsecret
      · next m hm => rw [hm, Except.ok.inj hsecret]
      · cases hsecret
  -- and the text that was parsed is the content of the file
  obtain ⟨f, hf, hraw⟩ : ∃ f, w.files path = some f ∧ raw = decodeUtf8 f.content := by
    unfold readText at hraw
    split at hraw
    · cases hraw
    · cases hraw
    · next f hf _ =>
      refine ⟨f, hf, ?_⟩
      split at hraw
      · cases hraw
      · split at hraw
        · cases hraw
        · exact (Except.ok.inj hraw).symm
  have hparse : Json.parse JsNumber.ofLiteral (decodeUtf8 f.content) = some file := by
    rw [← hraw]
    unfold parseFile at hfile
    split at hfile
    · next v hv => rw [hv, Except.ok.inj hfile]
    · cases hfile
  exact ⟨f, file, salt, nonce, field, ciphertext, opslimit, memlimit, key, additional, hf, hparse,
    hfield, hciphertext, hderived, hdata, hopened, hv⟩

omit [DecidableEq Key] in
theorem distinct_filter {keep : JsString × Json → Bool} : ∀ {ms : List (JsString × Json)},
    DistinctMembers ms → DistinctMembers (ms.filter keep)
  | [], h => h
  | (k, v) :: ms, h => by
    rw [List.filter_cons]
    split
    · exact ⟨h.1, distinct_filter h.2⟩
    · exact distinct_filter h.2

omit [DecidableEq Key] in
theorem headerOf_distinct {file : Json} (h : file.Distinct) :
    (Json.obj .ordinary (headerOf file)).Distinct := by
  cases file with
  | obj p ms =>
    refine ⟨?_, distinct_filter h.2⟩
    exact h.1.sublist ((List.filter_sublist (l := ms)).map Prod.fst)
  | _ => exact ⟨List.nodup_nil, trivial⟩

omit [DecidableEq Key] in
/-- **Additional data determines the header**, because it is the canonical text of it. So a header
that was altered after the sealing is not the one the cipher knows. -/
theorem same_of_additionalData {ms ns : List (JsString × Json)} {additional : List UInt8}
    (hms : (Json.obj .ordinary ms).Distinct) (hns : (Json.obj .ordinary ns).Distinct)
    (hm : additionalData ms = .ok additional) (hn : additionalData ns = .ok additional) :
    (Json.obj .ordinary ms).Same (.obj .ordinary ns) := by
  obtain ⟨t, ht, htext⟩ := bind_ok.1 hm
  obtain ⟨t', ht', htext'⟩ := bind_ok.1 hn
  have hsound := sound_of_canonicalize _ hms ht
  have hsound' := sound_of_canonicalize _ hns ht'
  have hwell : WellFormed t := by
    rw [canonicalize_ok _ hsound] at ht
    rw [← Except.ok.inj ht]
    exact wellFormed_stringify _
  have hwell' : WellFormed t' := by
    rw [canonicalize_ok _ hsound'] at ht'
    rw [← Except.ok.inj ht']
    exact wellFormed_stringify _
  have hbytes : utf8 t = utf8 t' := (Except.ok.inj htext).trans (Except.ok.inj htext').symm
  have heq : t = t' := utf8_inj hwell hwell' hbytes
  exact (canonicalize_eq_iff hsound hsound').1 (by rw [ht, ht', heq])

omit [DecidableEq Key] in
theorem lookup_headerOf {file v : Json} {key : JsString}
    (h : (headerOf file).lookup key = some v) : property file key = .ok (.json v) := by
  cases file with
  | obj p ms =>
    have hfilter := lookup_filter (fun k => decide (k ≠ js "ciphertext")) ms key
    have hmem : ms.lookup key = some v := by
      rw [headerOf, Json.members?, Option.getD_some, hfilter] at h
      split at h
      · exact h
      · cases h
    simp [property, JsValue.readObject, readMember, hmem]
  | _ => simp [headerOf, Json.members?] at h

/-! ## Integrity -/

/-- The header and the ciphertext of a file are those of a creation. How the file is written down
does not matter. -/
def Creation.Authentic (c : Creation r) (file : Json) : Prop :=
  (Json.obj .ordinary (headerOf file)).Same (.obj .ordinary c.header) ∧
    ∃ s field, SealedBy c s ∧ property file (js "ciphertext") = .ok field ∧
      bufferFrom r field = .ok s.ciphertext

/-- A file that opens is that of a creation of the run, with its passphrase, secret and metadata. -/
theorem open_authentic (h : r.Ideal) {files : JsString → Option File} {access : Access}
    {path : JsString} {passphrase secret : List UInt8} {v : JsValue}
    (hopen : openKeystoreFile r ((World.start Key files).run events) access path passphrase =
      .ok (secret, v)) :
    ∃ c f file metadata kdf, Event.create c ∈ events ∧ c.passphrase = passphrase ∧
      c.secret = secret ∧ ((World.start Key files).run events).files path = some f ∧
      Json.parse JsNumber.ofLiteral (decodeUtf8 f.content) = some file ∧ c.Authentic file ∧
      v = .json metadata ∧ metadata.Same c.metadata.toJson ∧
      (headerOf file).lookup (js "kdf") = some kdf ∧ kdf.Same c.kdf := by
  obtain ⟨f, file, salt, nonce, field, ciphertext, opslimit, memlimit, key, additional, hf, hparse,
    hfield, hciphertext, hkey, hdata, hopened, hv⟩ := open_ok hopen
  obtain ⟨c, hc, hs⟩ := (run_sealings (mem_of_opened hopened)).resolve_left List.not_mem_nil
  obtain ⟨rfl, -, -, -⟩ := h.pwhash_inj _ _ _ _ _ _ _ _ _ hs.key hkey
  have hsame := same_of_additionalData (headerOf_distinct (parse_distinct hparse))
    (distinct_of_sound _ (header_finite c)) hdata hs.additional
  have hmeta : c.header.lookup (js "meta") = some c.metadata.toJson := rfl
  have hkdf : c.header.lookup (js "kdf") = some c.kdf := rfl
  obtain ⟨metadata, hlookup, hmetadata⟩ := hsame.exists_lookup hmeta
  obtain ⟨kdf, hlookup', hkdf⟩ := hsame.exists_lookup hkdf
  rw [lookup_headerOf hlookup] at hv
  exact ⟨c, f, file, metadata, kdf, hc, rfl, hs.message.symm, hf, hparse,
    ⟨hsame, _, field, hs, hfield, hciphertext⟩, (Except.ok.inj hv).symm, hmetadata, hlookup', hkdf⟩

/-- What a creation of a run wrote opens, wherever the file is moved. -/
theorem open_written (h : r.Ideal) {files : JsString → Option File} {before after : List (Event r)}
    {c : Creation r} {w' : World Key} {path : JsString} (hsecret : c.secret ≠ [])
    (hcreate : createKeystoreFile c ((World.start Key files).run before) = .ok () w')
    (hfile : (w'.run after).files path = w'.files c.filePath) :
    openKeystoreFile r (w'.run after) .granted path c.passphrase =
      .ok (c.secret, .json c.metadata.toJson) := by
  have hhonest : Honest r.encrypt ((World.start Key files).run before).sealings :=
    run_honest honest_nil
  have hcreated := create_cases c ((World.start Key files).run before)
  rw [hcreate] at hcreated
  cases hcreated with
  | written s hs =>
    have hwritten : Function.update ((World.start Key files).run before).files c.filePath
        (some (c.file s.ciphertext)) c.filePath = some (c.file s.ciphertext) :=
      Function.update_self ..
    have hmem : s ∈ ((World.start Key files).run before).sealings ++ [s] :=
      List.mem_append_right _ (List.mem_singleton_self s)
    exact open_created h hs (mem_run hmem) (run_honest (hhonest.snoc hs.ciphertext))
      (hfile.trans hwritten) hsecret

/-! ## Keystores that are created in a row -/

/-- Nothing hinders the creation: the system refuses neither the directory nor the file, and there
is the memory for the derivation. -/
structure Creation.Unhindered (c : Creation r) : Prop where
  mkdir : c.mkdir = none
  write : c.write = .written
  derived : ∃ key,
    r.pwhash c.passphrase c.salt r.OPSLIMIT_MODERATE r.MEMLIMIT_MODERATE = some key

omit [DecidableEq Key] in
/-- An unhindered creation in a free place writes its file, and no other one. -/
theorem step_unhindered {w : World Key} {c : Creation r} (hc : c.Unhindered)
    (hfree : w.files c.filePath = none) :
    createKeystoreFile c w = .ok () (w.step (.create c)) ∧
      ∀ path, path ≠ c.filePath → (w.step (.create c)).files path = w.files path := by
  obtain ⟨key, hkey⟩ := hc.derived
  obtain ⟨w', hw'⟩ := create_written hkey hc.mkdir hfree hc.write
  have hstep : w.step (.create c) = w' := by rw [World.step, hw']
  have hcreated := create_cases c w
  rw [hw'] at hcreated
  rw [hstep]
  refine ⟨hw', fun path hpath => ?_⟩
  cases hcreated with
  | written s hs => exact Function.update_of_ne hpath _ _

omit [DecidableEq Key] in
/-- Creations in free places of their own leave all other files as they are. -/
theorem run_unhindered {w : World Key} {creations : List (Creation r)}
    (hunhindered : ∀ c ∈ creations, c.Unhindered)
    (hfree : ∀ c ∈ creations, w.files c.filePath = none)
    (hpaths : (creations.map Creation.filePath).Nodup) {path : JsString}
    (hpath : path ∉ creations.map Creation.filePath) :
    (w.run (creations.map .create)).files path = w.files path := by
  induction creations generalizing w with
  | nil => rfl
  | cons c creations ih =>
    rw [List.map_cons, List.nodup_cons] at hpaths
    rw [List.map_cons, List.mem_cons, not_or] at hpath
    obtain ⟨-, hframe⟩ :=
      step_unhindered (hunhindered c List.mem_cons_self) (hfree c List.mem_cons_self)
    have hlater : ∀ c' ∈ creations, (w.step (.create c)).files c'.filePath = none := by
      intro c' hc'
      have hother : c'.filePath ≠ c.filePath := fun heq =>
        hpaths.1 (heq ▸ List.mem_map_of_mem hc')
      rw [hframe _ hother]
      exact hfree c' (List.mem_cons_of_mem _ hc')
    have hrun := ih (fun c' hc' => hunhindered c' (List.mem_cons_of_mem _ hc')) hlater hpaths.2
      hpath.2
    rw [← hframe path hpath.1, ← hrun]
    rfl

/-- **Keystores that are created in a row** in free places of their own all open. The creations do
not disturb each other, since none of them writes where another has written. -/
theorem open_unhindered (h : r.Ideal) {files : JsString → Option File}
    {creations : List (Creation r)} (hunhindered : ∀ c ∈ creations, c.Unhindered)
    (hsecret : ∀ c ∈ creations, c.secret ≠ []) (hfree : ∀ c ∈ creations, files c.filePath = none)
    (hpaths : (creations.map Creation.filePath).Nodup) {c : Creation r} (hc : c ∈ creations) :
    openKeystoreFile r ((World.start Key files).run (creations.map .create)) .granted c.filePath
      c.passphrase = .ok (c.secret, .json c.metadata.toJson) := by
  obtain ⟨before, after, rfl⟩ := List.append_of_mem hc
  rw [List.map_append, List.map_cons, List.nodup_append, List.nodup_cons] at hpaths
  obtain ⟨hbefore, ⟨hafter, hrest⟩, hapart⟩ := hpaths
  set w := (World.start Key files).run (before.map .create) with hw
  have hsplit : (World.start Key files).run ((before ++ c :: after).map .create) =
      (w.step (.create c)).run (after.map .create) := by
    rw [hw, World.run, World.run, World.run, List.map_append, List.foldl_append, List.map_cons,
      List.foldl_cons]
  -- what was created before leaves the places of the rest free
  have hlater : ∀ c' ∈ c :: after, w.files c'.filePath = none := by
    intro c' hc'
    have hnot : c'.filePath ∉ before.map Creation.filePath := fun hmem =>
      hapart _ hmem _ (List.mem_map_of_mem (f := Creation.filePath) hc') rfl
    rw [hw, run_unhindered (fun x hx => hunhindered x (List.mem_append_left _ hx))
      (fun x hx => hfree x (List.mem_append_left _ hx)) hbefore hnot]
    exact hfree c' (List.mem_append_right _ hc')
  obtain ⟨hcreate, hframe⟩ := step_unhindered
    (hunhindered c (List.mem_append_right _ List.mem_cons_self)) (hlater c List.mem_cons_self)
  have hfree' : ∀ c' ∈ after, (w.step (.create c)).files c'.filePath = none := by
    intro c' hc'
    have hother : c'.filePath ≠ c.filePath := fun heq => hafter (heq ▸ List.mem_map_of_mem hc')
    rw [hframe _ hother]
    exact hlater c' (List.mem_cons_of_mem _ hc')
  rw [hsplit]
  refine open_written h (hsecret c (List.mem_append_right _ List.mem_cons_self)) hcreate ?_
  exact run_unhindered
    (fun x hx => hunhindered x (List.mem_append_right _ (List.mem_cons_of_mem _ hx))) hfree' hrest
    hafter

/-- **The keystore container is sound.** What a creation of a run wrote opens, wherever the file
is moved and whatever happens to the others, to the secret and the metadata of that creation; a
file that opens is that of a creation, with its passphrase; and any other file fails. -/
theorem keystore_integrity (h : r.Ideal) (files : JsString → Option File) :
    (∀ (before after : List (Event r)) (c : Creation r) (w' : World Key) (path : JsString),
      c.secret ≠ [] → createKeystoreFile c ((World.start Key files).run before) = .ok () w' →
      (w'.run after).files path = w'.files c.filePath →
      openKeystoreFile r (w'.run after) .granted path c.passphrase =
        .ok (c.secret, .json c.metadata.toJson)) ∧
    (∀ (events : List (Event r)) (access : Access) (path : JsString)
      (passphrase secret : List UInt8) (v : JsValue),
      openKeystoreFile r ((World.start Key files).run events) access path passphrase =
        .ok (secret, v) →
      ∃ c f file metadata kdf, Event.create c ∈ events ∧ c.passphrase = passphrase ∧
        c.secret = secret ∧ ((World.start Key files).run events).files path = some f ∧
        Json.parse JsNumber.ofLiteral (decodeUtf8 f.content) = some file ∧ c.Authentic file ∧
        v = .json metadata ∧ metadata.Same c.metadata.toJson ∧
        (headerOf file).lookup (js "kdf") = some kdf ∧ kdf.Same c.kdf) ∧
    (∀ (events : List (Event r)) (path : JsString) (f : File) (file : Json),
      ((World.start Key files).run events).files path = some f →
      Json.parse JsNumber.ofLiteral (decodeUtf8 f.content) = some file →
      (∀ c : Creation r, Event.create c ∈ events → ¬ c.Authentic file) →
      ∀ (access : Access) (passphrase : List UInt8), ∃ e,
        openKeystoreFile r ((World.start Key files).run events) access path passphrase =
          .error e) := by
  refine ⟨?_, fun events access path passphrase secret v => open_authentic h, ?_⟩
  · intro before after c w' path hsecret hcreate hfile
    exact open_written h hsecret hcreate hfile
  · intro events path f file hf hparse hnone access passphrase
    cases hopen : openKeystoreFile r ((World.start Key files).run events) access path
        passphrase with
    | error e => exact ⟨e, rfl⟩
    | ok opened =>
      obtain ⟨c, f', file', -, -, hc, -, -, hf', hparse', hauthentic, -⟩ := open_authentic h hopen
      rw [hf, Option.some.injEq] at hf'
      rw [← hf', hparse, Option.some.injEq] at hparse'
      exact absurd (hparse' ▸ hauthentic) (hnone c hc)

/-! A derivation that is a record of its inputs, and a cipher that appends its tag. -/

namespace Recorded

abbrev RecordedKey := List UInt8 × List UInt8 × ℕ × ℕ

def runtime : Runtime RecordedKey where
  SALTBYTES := 16
  NPUBBYTES := 24
  ABYTES := 16
  OPSLIMIT_INTERACTIVE := 2
  OPSLIMIT_MODERATE := 3
  MEMLIMIT_INTERACTIVE := 67108864
  MEMLIMIT_MODERATE := 268435456
  pwhash passphrase salt opslimit memlimit := some (passphrase, salt, opslimit, memlimit)
  encrypt _ _ _ message := message ++ List.replicate 16 0
  otherBuffer _ := .error (.script .type)

theorem runtime_ideal : runtime.Ideal where
  pwhash_inj := by
    intro p s o m p' s' o' m' key h h'
    have heq : (p, s, o, m) = (p', s', o', m') := Option.some.inj (h.trans h'.symm)
    simpa using heq
  encrypt_inj := fun _ _ _ _ _ h => List.append_cancel_right h
  encrypt_length := fun _ _ _ m => by simp [runtime]
  opslimit_le := by decide
  opslimit_safe := by decide
  memlimit_le := by decide
  memlimit_safe := by decide

def creation : Creation runtime where
  filePath := js "/keystores/bot.json"
  secret := [1, 2, 3]
  passphrase := [112, 119]
  metadata := ⟨js "PUB_K1_x", .nonExportable, ⟨js "XPR", js "testnet", js "71ee"⟩, js "bot",
    js "xp2vr3", js "2026-07-29T00:00:00.000Z"⟩
  salt := List.replicate 16 7
  nonce := List.replicate 24 9
  salt_length := rfl
  nonce_length := rfl
  mkdir := none
  write := .written

/-- A container that is written to an empty disk opens again with its passphrase, to the secret and
the metadata it was made with. -/
theorem keystore_integrity_recorded : ∃ w',
    createKeystoreFile creation (World.start RecordedKey fun _ => none) = .ok () w' ∧
    openKeystoreFile runtime w' .granted creation.filePath creation.passphrase =
      .ok ([1, 2, 3], .json creation.metadata.toJson) := by
  obtain ⟨w', hw'⟩ := create_written (w := World.start RecordedKey fun _ => none)
    (c := creation) rfl rfl rfl rfl
  have hopen := (keystore_integrity runtime_ideal fun _ => none).1 [] [] creation w'
    creation.filePath (by decide) hw' rfl
  exact ⟨w', hw', hopen⟩

end Recorded

end Keystore

end Signbox

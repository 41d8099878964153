import Signbox.Proof.Keystore
import Signbox.Spec.Unlock

/-!
# Unlocking is all or nothing

* `open_agent`: the metadata of a container that opens names its agent.
* `Unlocked`: a file that opens within three attempts, and what it holds.
* `unlockFiles_cases`: how the loop over the files ends, and what is held then.
* `unlock_iff`: nothing stays unlocked after a rejection, and every file is after a resolution,
  exactly when no prompt fails once a file has been opened.
-/

namespace Signbox

namespace Keystore

variable {Key : Type} [DecidableEq Key] {r : Runtime Key} {files : JsString → Option File}
variable {attempts : JsString → ℕ → Attempt r} {path agent : JsString} {n : ℕ}
variable {secret : List UInt8} {metadata : JsValue} {s : Session} {paths rest : List JsString}
variable {unlocked : List JsValue} {error : Failure} {names : List JsString}

/-! ## One file -/

variable (r files attempts) in
/-- The loop opens the file: with a secret and an agent, within three passphrases. -/
def Unlocked (path : JsString) (held : JsString × List UInt8) : Prop :=
  ∃ metadata, (openWithRetries r files attempts path 1).1 = .opened held.2 metadata ∧
    agentOf metadata = .ok held.1

variable (r files attempts) in
/-- The prompt rejects, after passphrases that do not open the file, or at once. -/
def PromptFails (path : JsString) : Prop :=
  ∃ error, (openWithRetries r files attempts path 1).1 = .promptFailed error

section Turns

variable {passphrase : List UInt8}

theorem openWithRetries_prompt (hprompt : (attempts path n).prompt = .error error) :
    openWithRetries r files attempts path n = (.promptFailed error, 0) := by
  rw [openWithRetries, hprompt]

theorem openWithRetries_open (hprompt : (attempts path n).prompt = .ok passphrase)
    (hopen : openKeystoreFile r ((World.start Key files).run (attempts path n).before)
      (attempts path n).access path passphrase = .ok (secret, metadata)) :
    openWithRetries r files attempts path n = (.opened secret metadata, 1) := by
  rw [openWithRetries, hprompt]
  simp only [hopen]

theorem openWithRetries_again (hprompt : (attempts path n).prompt = .ok passphrase)
    (hopen : openKeystoreFile r ((World.start Key files).run (attempts path n).before)
      (attempts path n).access path passphrase = .error error)
    (hretry : error.isDecryptFailed = true ∧ n < MAX_PASSPHRASE_ATTEMPTS) :
    openWithRetries r files attempts path n =
      ((openWithRetries r files attempts path (n + 1)).1,
        (openWithRetries r files attempts path (n + 1)).2 + 1) := by
  rw [openWithRetries, hprompt]
  simp only [hopen, dif_pos hretry]

theorem openWithRetries_failed (hprompt : (attempts path n).prompt = .ok passphrase)
    (hopen : openKeystoreFile r ((World.start Key files).run (attempts path n).before)
      (attempts path n).access path passphrase = .error error)
    (hretry : ¬ (error.isDecryptFailed = true ∧ n < MAX_PASSPHRASE_ATTEMPTS)) :
    openWithRetries r files attempts path n = (.openFailed error, 1) := by
  rw [openWithRetries, hprompt]
  simp only [hopen, dif_neg hretry]

end Turns

/-- A file that opens does so at one of its attempts. -/
theorem openWithRetries_opened (hn : n ≤ MAX_PASSPHRASE_ATTEMPTS)
    (h : (openWithRetries r files attempts path n).1 = .opened secret metadata) :
    ∃ m passphrase, n ≤ m ∧ m ≤ MAX_PASSPHRASE_ATTEMPTS ∧
      (attempts path m).prompt = .ok passphrase ∧
      openKeystoreFile r ((World.start Key files).run (attempts path m).before)
        (attempts path m).access path passphrase = .ok (secret, metadata) := by
  induction n using openWithRetries.induct r files attempts path with
  | case1 n turn error hprompt =>
    rw [openWithRetries_prompt hprompt] at h
    cases h
  | case2 n turn passphrase hprompt secret' metadata' hopen =>
    rw [openWithRetries_open hprompt hopen] at h
    cases h
    exact ⟨n, passphrase, le_rfl, hn, hprompt, hopen⟩
  | case3 n turn passphrase hprompt error hopen hretry ih =>
    rw [openWithRetries_again hprompt hopen hretry] at h
    obtain ⟨m, passphrase', hm, hrest⟩ := ih hretry.2 h
    exact ⟨m, passphrase', Nat.le_of_succ_le hm, hrest⟩
  | case4 n turn passphrase hprompt error hopen hretry =>
    rw [openWithRetries_failed hprompt hopen hretry] at h
    cases h

/-- No more than three passphrases are tried. -/
theorem openWithRetries_le (hn : n ≤ MAX_PASSPHRASE_ATTEMPTS) :
    (openWithRetries r files attempts path n).2 + n ≤ MAX_PASSPHRASE_ATTEMPTS + 1 := by
  induction n using openWithRetries.induct r files attempts path with
  | case1 n turn error hprompt =>
    rw [openWithRetries_prompt hprompt]
    omega
  | case2 n turn passphrase hprompt secret' metadata' hopen =>
    rw [openWithRetries_open hprompt hopen]
    omega
  | case3 n turn passphrase hprompt error hopen hretry ih =>
    rw [openWithRetries_again hprompt hopen hretry]
    have hle := ih hretry.2
    omega
  | case4 n turn passphrase hprompt error hopen hretry =>
    rw [openWithRetries_failed hprompt hopen hretry]
    omega

theorem tries_le (path : JsString) :
    (openWithRetries r files attempts path 1).2 ≤ MAX_PASSPHRASE_ATTEMPTS := by
  have hle : (openWithRetries r files attempts path 1).2 + 1 ≤ MAX_PASSPHRASE_ATTEMPTS + 1 :=
    openWithRetries_le (by decide)
  omega

/-! ## Metadata -/

/-- Metadata that is the same as what was sealed names the same agent. -/
theorem agentOf_same {metadata : Json} {m : KeystoreMetadata} (h : metadata.Same m.toJson) :
    agentOf (.json metadata) = .ok m.agent := by
  unfold KeystoreMetadata.toJson at h
  cases h with
  | @obj p q ms ns hmembers =>
    have hrel := hmembers (js "agent")
    have hagent : List.lookup (js "agent") [(js "publicKey", Json.str m.publicKey),
        (js "exportPolicy", .str m.exportPolicy.toText),
        (js "chain", .obj .ordinary [(js "chain", .str m.chain.chain),
          (js "network", .str m.chain.network), (js "chainId", .str m.chain.chainId)]),
        (js "agent", .str m.agent), (js "permission", .str m.permission),
        (js "createdAt", .str m.createdAt)] = some (.str m.agent) := rfl
    rw [hagent] at hrel
    cases hlookup : ms.lookup (js "agent") with
    | none =>
      rw [hlookup] at hrel
      cases hrel
    | some v =>
      rw [hlookup] at hrel
      cases hrel with
      | some hsame =>
        cases hsame
        simp [agentOf, JsValue.readObject, readMember, hlookup, JsValue.str?]

variable (r files attempts) in
/-- The agent and the secret are those of the creation that sealed the file, as it was at one of
the three attempts. -/
def Authenticated (path : JsString) (held : JsString × List UInt8) : Prop :=
  ∃ m passphrase c f file, 1 ≤ m ∧ m ≤ MAX_PASSPHRASE_ATTEMPTS ∧
    (attempts path m).prompt = .ok passphrase ∧ Event.create c ∈ (attempts path m).before ∧
    c.passphrase = passphrase ∧ c.secret = held.2 ∧ c.metadata.agent = held.1 ∧
    ((World.start Key files).run (attempts path m).before).files path = some f ∧
    Json.parse JsNumber.ofLiteral (decodeUtf8 f.content) = some file ∧ c.Authentic file

/-- **A file that opens** names its agent, and holds what was sealed for it. The agent is part of
what the cipher authenticates, so nobody without the passphrase can have set it. -/
theorem open_agent (h : r.Ideal)
    (hopened : (openWithRetries r files attempts path 1).1 = .opened secret metadata) :
    ∃ agent, agentOf metadata = .ok agent ∧
      Authenticated r files attempts path (agent, secret) := by
  obtain ⟨m, passphrase, hm, hle, hprompt, hopen⟩ := openWithRetries_opened (by decide) hopened
  obtain ⟨c, f, file, value, -, hc, hpassphrase, hsecret, hf, hparse, hauthentic, rfl, hsame, -⟩ :=
    open_authentic h hopen
  exact ⟨c.metadata.agent, agentOf_same hsame, m, passphrase, c, f, file, hm, hle, hprompt, hc,
    hpassphrase, hsecret, rfl, hf, hparse, hauthentic⟩

/-! ## All files -/

variable (r files attempts) in
/-- What is held are the secrets of the files, in their order, under distinct agents. Nothing else
is. -/
structure Held (paths : List JsString) (secrets : List (JsString × List UInt8)) : Prop where
  opened : List.Forall₂ (Unlocked r files attempts) paths secrets
  distinct : (secrets.map Prod.fst).Nodup

theorem Held.snoc {secrets : List (JsString × List UInt8)} {held : JsString × List UInt8}
    (h : Held r files attempts paths secrets) (hopened : Unlocked r files attempts path held)
    (hnew : ¬ secrets.any (fun x => x.1 = held.1) = true) :
    Held r files attempts (paths ++ [path]) (secrets ++ [held]) where
  opened := List.rel_append h.opened (.cons hopened .nil)
  distinct := by
    rw [List.map_append, List.map_singleton, List.nodup_append_comm, List.singleton_append,
      List.nodup_cons]
    refine ⟨fun hmem => hnew ?_, h.distinct⟩
    obtain ⟨x, hx, heq⟩ := List.mem_map.1 hmem
    exact List.any_eq_true.2 ⟨x, hx, by simpa using heq⟩

variable (r files attempts) in
/-- How the loop over the rest of the files ends, when those before are held: all are held, none
is, or only those before a prompt that failed. -/
inductive Ends (done rest : List JsString) : Except Failure (List JsValue) × Session → Prop
  | resolved (unlocked : List JsValue) (s : Session)
    (hheld : Held r files attempts (done ++ rest) s.secrets) : Ends done rest (.ok unlocked, s)
  | wiped (error : Failure) (s : Session) (hwiped : s.secrets = []) :
    Ends done rest (.error error, s)
  | kept (error : Failure) (s : Session) (before : List JsString) (path : JsString)
    (after : List JsString) (hrest : rest = before ++ path :: after)
    (hheld : Held r files attempts (done ++ before) s.secrets)
    (hfails : PromptFails r files attempts path) : Ends done rest (.error error, s)

theorem Ends.cons {done : List JsString} {result : Except Failure (List JsValue) × Session}
    (h : Ends r files attempts (done ++ [path]) rest result) :
    Ends r files attempts done (path :: rest) result := by
  cases h with
  | resolved unlocked s hheld => exact .resolved _ _ (by rwa [List.append_assoc] at hheld)
  | wiped error s hwiped => exact .wiped _ _ hwiped
  | kept error s before path' after hrest hheld hfails =>
    exact .kept _ _ (path :: before) path' after (by rw [hrest, List.cons_append])
      (by rwa [List.append_assoc] at hheld) hfails

/-- **The loop over the files.** It ends with all secrets, or with none and an error, or with what
a failing prompt leaves. The induction is on the files that are left. -/
theorem unlockFiles_cases (h : r.Ideal) {done : List JsString}
    (hheld : Held r files attempts done s.secrets) :
    Ends r files attempts done rest (unlockFiles r files attempts rest s unlocked) := by
  induction rest generalizing done s unlocked with
  | nil =>
    rw [unlockFiles]
    exact .resolved unlocked s (by rwa [List.append_nil])
  | cons path rest ih =>
    rw [unlockFiles]
    cases hopening : (openWithRetries r files attempts path 1).1 with
    | promptFailed error =>
      exact .kept error _ [] path rest rfl (by rwa [List.append_nil]) ⟨error, hopening⟩
    | openFailed error => exact .wiped error _ rfl
    | opened secret metadata =>
      obtain ⟨agent, hagent, -⟩ := open_agent h hopening
      simp only [hagent]
      split
      · exact .wiped _ _ rfl
      case isFalse hnew =>
        have hopened : Unlocked r files attempts path (agent, secret) :=
          ⟨metadata, hopening, hagent⟩
        have hnext := hheld.snoc hopened hnew
        exact (ih hnext).cons

/-- A prompt that fails leaves what was opened before. -/
theorem unlockFiles_kept {before after : List JsString}
    {secrets : List (JsString × List UInt8)}
    (hopened : List.Forall₂ (Unlocked r files attempts) before secrets)
    (hdistinct : ((s.secrets ++ secrets).map Prod.fst).Nodup)
    (hfails : PromptFails r files attempts path) :
    ∃ error s', unlockFiles r files attempts (before ++ path :: after) s unlocked =
      (.error error, s') ∧ s'.secrets = s.secrets ++ secrets := by
  induction hopened generalizing s unlocked with
  | nil =>
    obtain ⟨error, hopening⟩ := hfails
    rw [List.nil_append, unlockFiles]
    simp only [hopening, List.append_nil]
    exact ⟨_, _, rfl, rfl⟩
  | @cons path' held before' secrets' hfirst hrest ih =>
    obtain ⟨metadata, hopening, hagent⟩ := hfirst
    have hnew : ¬ s.secrets.any (fun x => x.1 = held.1) = true := by
      intro hany
      obtain ⟨x, hx, heq⟩ := List.any_eq_true.1 hany
      rw [List.map_append, List.nodup_append] at hdistinct
      exact hdistinct.2.2 x.1 (List.mem_map_of_mem hx) held.1 (by simp) (by simpa using heq)
    rw [List.cons_append, unlockFiles]
    simp only [hopening, hagent, if_neg hnew]
    set next : Session := ⟨s.secrets ++ [held],
      s.tried ++ List.replicate (openWithRetries r files attempts path' 1).2 path'⟩ with hnext
    have hkeys : ((next.secrets ++ secrets').map Prod.fst).Nodup := by
      simpa [hnext] using hdistinct
    obtain ⟨error, s', hrun, hsecrets⟩ := @ih next (unlocked ++ [metadata]) hkeys
    exact ⟨error, s', hrun, by rw [hsecrets]; simp [hnext]⟩

/-! ## Attempts -/

/-- Each file is tried with three passphrases at most. -/
theorem unlockFiles_tried (q : JsString) :
    (unlockFiles r files attempts rest s unlocked).2.tried.count q ≤
      s.tried.count q + MAX_PASSPHRASE_ATTEMPTS * rest.count q := by
  induction rest generalizing s unlocked with
  | nil => exact Nat.le_add_right _ _
  | cons path rest ih =>
    have hpath : (List.replicate (openWithRetries r files attempts path 1).2 path).count q ≤
        MAX_PASSPHRASE_ATTEMPTS * [path].count q := by
      have hle : (openWithRetries r files attempts path 1).2 ≤ MAX_PASSPHRASE_ATTEMPTS :=
        tries_le path
      rw [List.count_replicate, List.count_singleton]
      by_cases hq : (path == q) = true
      · rw [if_pos hq, if_pos hq]
        omega
      · rw [if_neg hq]
        exact Nat.zero_le _
    have hcount : (path :: rest).count q = [path].count q + rest.count q := by
      rw [← List.singleton_append, List.count_append]
    rw [unlockFiles, hcount, Nat.mul_add]
    split
    · simp only [List.count_append]
      omega
    · simp only [List.count_append]
      omega
    · split
      · simp only [List.count_append]
        omega
      · split
        · simp only [List.count_append]
          omega
        · refine ih.trans ?_
          simp only [List.count_append]
          omega

theorem discover_nodup (keystoreDir : JsString) (listing : Option Directory) :
    (discoverKeystoreFiles keystoreDir listing).Nodup := by
  cases listing with
  | none => exact List.nodup_nil
  | some directory =>
    have hinj : Function.Injective (join keystoreDir) := by
      intro name name' heq
      simpa [join] using heq
    exact ((List.perm_insertionSort _ _).nodup_iff.2 (directory.nodup.filter _)).map hinj

/-! ## All or nothing -/

variable (r files attempts) in
/-- Nothing is held after a rejection. After a resolution one secret is held for each file, as it
was sealed and under the agent it was sealed for; the agents are distinct. No file is tried with
more than three passphrases. -/
structure AllOrNothing (keystoreDir : JsString) (listing : Except Failure (Option Directory)) :
    Prop where
  rejects : ∀ error s, unlock r files attempts keystoreDir listing = (.error error, s) →
    s.secrets = []
  resolves : ∀ unlocked s directory, unlock r files attempts keystoreDir listing = (.ok unlocked, s) →
    listing = .ok directory →
    List.Forall₂ (Authenticated r files attempts) (discoverKeystoreFiles keystoreDir directory)
      s.secrets ∧ (s.secrets.map Prod.fst).Nodup
  tried : ∀ path, (unlock r files attempts keystoreDir listing).2.tried.count path ≤
    MAX_PASSPHRASE_ATTEMPTS

variable (r files attempts) in
/-- No prompt fails once a file has been opened. A prompt that fails before that leaves nothing
behind. -/
def PromptsHold (keystoreDir : JsString) (listing : Except Failure (Option Directory)) : Prop :=
  ∀ directory before path after, listing = .ok directory →
    discoverKeystoreFiles keystoreDir directory = before ++ path :: after → before ≠ [] →
    (∃ secrets, Held r files attempts before secrets) → ¬ PromptFails r files attempts path

theorem held_nil : Held r files attempts [] [] := ⟨.nil, List.nodup_nil⟩

/-- **All or nothing.** With an ideal cipher, for every directory, every sequence of answers to the
prompts and every state of the files at each attempt: unlocking is all or nothing exactly when no
prompt fails once a file has been opened. -/
theorem unlock_iff (h : r.Ideal) (files : JsString → Option File)
    (attempts : JsString → ℕ → Attempt r) (keystoreDir : JsString)
    (listing : Except Failure (Option Directory)) :
    AllOrNothing r files attempts keystoreDir listing ↔
      PromptsHold r files attempts keystoreDir listing := by
  constructor
  -- a prompt that fails after a file was opened leaves the secrets of the files before it
  · rintro hall directory before path after rfl hpaths hne ⟨secrets, hheld⟩ hfails
    obtain ⟨error, s, hrun, hsecrets⟩ : ∃ error s,
        unlockFiles r files attempts (before ++ path :: after) ⟨[], []⟩ [] = (.error error, s) ∧
          s.secrets = [] ++ secrets :=
      unlockFiles_kept hheld.opened hheld.distinct hfails
    have hempty := hall.rejects error s (by rw [unlock, hpaths]; exact hrun)
    rw [hsecrets, List.nil_append] at hempty
    rw [hempty] at hheld
    cases hheld.opened
    exact hne rfl
  -- conversely the loop can only end in that way if such a prompt fails
  · intro hprompts
    cases listing with
    | error error =>
      refine ⟨?_, ?_, fun path => Nat.zero_le _⟩
      · intro error' s hrun
        rw [← (Prod.mk.inj hrun).2]
      · intro unlocked s directory hrun
        cases hrun
    | ok directory =>
      have hends : Ends r files attempts [] (discoverKeystoreFiles keystoreDir directory)
          (unlockFiles r files attempts (discoverKeystoreFiles keystoreDir directory) ⟨[], []⟩ []) :=
        unlockFiles_cases h held_nil
      refine ⟨?_, ?_, ?_⟩
      · intro error s hrun
        rw [unlock] at hrun
        rw [hrun] at hends
        cases hends with
        | wiped _ _ hwiped => exact hwiped
        | kept _ _ before path after hrest hheld hfails =>
          rw [List.nil_append] at hheld
          by_contra hkept
          have hne : before ≠ [] := by
            rintro rfl
            exact hkept (List.forall₂_nil_left_iff.1 hheld.opened)
          exact hprompts directory before path after rfl hrest hne ⟨_, hheld⟩ hfails
      · intro unlocked s directory' hrun hdirectory
        rw [unlock] at hrun
        rw [hrun] at hends
        rw [← Except.ok.inj hdirectory]
        -- all files were opened, and each of them names its own agent
        cases hends with
        | resolved _ _ hheld =>
          refine ⟨hheld.opened.imp fun path held hopened => ?_, hheld.distinct⟩
          obtain ⟨metadata, hopening, hagent⟩ := hopened
          obtain ⟨agent, hagent', hauthentic⟩ := open_agent h hopening
          rw [hagent, Except.ok.injEq] at hagent'
          rwa [← hagent'] at hauthentic
      -- each file is tried as often as the bound allows, because none is listed twice
      · intro path
        have hcount : (unlockFiles r files attempts (discoverKeystoreFiles keystoreDir directory)
            ⟨[], []⟩ []).2.tried.count path ≤ [].count path + MAX_PASSPHRASE_ATTEMPTS *
              (discoverKeystoreFiles keystoreDir directory).count path := unlockFiles_tried path
        have honce := List.nodup_iff_count_le_one.1 (discover_nodup keystoreDir directory) path
        rw [unlock]
        refine hcount.trans ?_
        rw [List.count_nil, Nat.zero_add]
        exact (Nat.mul_le_mul_left _ honce).trans (Nat.mul_one _).le

/-! ## A directory of two keystores -/

namespace Recorded

/-- The keystore of an agent in its directory. -/
def discovered : Creation runtime := { creation with filePath := js "/keystores/a.keystore.json" }

/-- That of another agent next to it, with a passphrase of its own. -/
def bursar : Creation runtime := { creation with
  filePath := js "/keystores/b.keystore.json"
  secret := [4, 5, 6]
  passphrase := [99, 111, 105, 110]
  metadata := { creation.metadata with publicKey := js "PUB_K1_y", agent := js "bursar" } }

def directory : JsString := js "/keystores"

def two : Directory :=
  ⟨[js "b.keystore.json", js "notes.txt", js "a.keystore.json"], by decide⟩

theorem discover_two : discoverKeystoreFiles directory (some two) =
    [discovered.filePath, bursar.filePath] := by decide

/-- Both were created, and the passphrase of each is given. -/
def given (path : JsString) (_ : ℕ) : Attempt runtime where
  prompt := .ok (if path = discovered.filePath then discovered.passphrase else bursar.passphrase)
  before := [discovered, bursar].map .create
  access := .granted

/-- The prompt for the second one rejects. -/
def answers (path : JsString) (n : ℕ) : Attempt runtime :=
  { given path n with
    prompt := if path = discovered.filePath then .ok discovered.passphrase else .error .sodium }

theorem creation_unhindered {c : Creation runtime} (h : c ∈ [discovered, bursar]) :
    c.Unhindered := by
  rcases List.mem_pair.1 h with rfl | rfl <;> exact ⟨rfl, rfl, _, rfl⟩

theorem open_both {c : Creation runtime} (h : c ∈ [discovered, bursar]) :
    openKeystoreFile runtime ((World.start RecordedKey fun _ => none).run
      ([discovered, bursar].map .create)) .granted c.filePath c.passphrase =
        .ok (c.secret, .json c.metadata.toJson) := by
  refine open_unhindered runtime_ideal (fun _ => creation_unhindered) (fun x hx => ?_)
    (fun _ _ => rfl) (by decide) h
  rcases List.mem_pair.1 hx with rfl | rfl <;> decide

/-- A file whose passphrase is given at the first attempt opens. -/
theorem opened_first {attempts : JsString → ℕ → Attempt runtime} {c : Creation runtime}
    (h : c ∈ [discovered, bursar]) (hprompt : (attempts c.filePath 1).prompt = .ok c.passphrase)
    (hbefore : (attempts c.filePath 1).before = [discovered, bursar].map .create)
    (haccess : (attempts c.filePath 1).access = .granted) :
    (openWithRetries runtime (fun _ => none) attempts c.filePath 1).1 =
      .opened c.secret (.json c.metadata.toJson) := by
  have hopen : openKeystoreFile runtime
      ((World.start RecordedKey fun _ => none).run (attempts c.filePath 1).before)
      (attempts c.filePath 1).access c.filePath c.passphrase =
        .ok (c.secret, .json c.metadata.toJson) := by
    rw [hbefore, haccess]
    exact open_both h
  rw [openWithRetries_open hprompt hopen]

theorem given_opened {c : Creation runtime} (h : c ∈ [discovered, bursar]) :
    (openWithRetries runtime (fun _ => none) given c.filePath 1).1 =
      .opened c.secret (.json c.metadata.toJson) := by
  refine opened_first h ?_ rfl rfl
  have hother : bursar.filePath ≠ discovered.filePath := by decide
  rcases List.mem_pair.1 h with rfl | rfl
  · simp only [given, if_pos]
  · simp only [given, if_neg hother]

theorem unlock_two : ∃ unlocked s,
    unlock runtime (fun _ => none) given directory (.ok (some two)) = (.ok unlocked, s) ∧
      s.secrets = [(js "bot", [1, 2, 3]), (js "bursar", [4, 5, 6])] := by
  have hfirst := given_opened (c := discovered) (by simp)
  have hsecond := given_opened (c := bursar) (by simp)
  have hagents : agentOf (.json discovered.metadata.toJson) = .ok (js "bot") ∧
      agentOf (.json bursar.metadata.toJson) = .ok (js "bursar") := ⟨rfl, rfl⟩
  have hother : js "bot" ≠ js "bursar" := by decide
  simp only [unlock, discover_two, unlockFiles, hfirst, hsecond, hagents, List.any_nil,
    Bool.false_eq_true, if_false, List.nil_append, List.any_cons, hother, decide_false, Bool.or_self]
  exact ⟨_, _, rfl, rfl⟩

/-- **Both keystores are unlocked**: no prompt fails after the first one has been opened, and the
store then holds one secret for each of the two agents. -/
theorem unlock_iff_two : AllOrNothing runtime (fun _ => none) given directory (.ok (some two)) ∧
    ∃ unlocked s, unlock runtime (fun _ => none) given directory (.ok (some two)) = (.ok unlocked, s) ∧
      s.secrets = [(js "bot", [1, 2, 3]), (js "bursar", [4, 5, 6])] := by
  refine ⟨(unlock_iff runtime_ideal _ given directory (.ok (some two))).2 ?_, unlock_two⟩
  rintro listing before path after hlisting hpaths - - ⟨error, hfails⟩
  have hmem : path ∈ [discovered, bursar].map Creation.filePath := by
    rw [← Except.ok.inj hlisting, discover_two] at hpaths
    rw [List.map_cons, List.map_singleton, hpaths]
    exact List.mem_append_right _ List.mem_cons_self
  obtain ⟨c, hc, rfl⟩ := List.mem_map.1 hmem
  rw [given_opened hc] at hfails
  cases hfails

theorem discovered_unlocked : Unlocked runtime (fun _ => none) answers discovered.filePath
    (js "bot", [1, 2, 3]) := by
  refine ⟨_, opened_first List.mem_cons_self ?_ rfl rfl, rfl⟩
  simp only [answers, if_pos]

/-- **A prompt that rejects.** The first of two files is opened, the prompt for the second one
fails, and the secret of the first stays unlocked. -/
theorem keeps_unlocked : ∃ error s,
    unlock runtime (fun _ => none) answers directory (.ok (some two)) = (.error error, s) ∧
      s.secrets = [(js "bot", [1, 2, 3])] := by
  have hfails : PromptFails runtime (fun _ => none) answers bursar.filePath := by
    have hother : bursar.filePath ≠ discovered.filePath := by decide
    have hprompt : (answers bursar.filePath 1).prompt = .error .sodium := by
      simp only [answers, if_neg hother]
    exact ⟨.sodium, by rw [openWithRetries_prompt hprompt]⟩
  have hkept : ∃ error s', unlockFiles runtime (fun _ => none) answers
      ([discovered.filePath] ++ bursar.filePath :: []) ⟨[], []⟩ [] =
        (.error error, s') ∧ s'.secrets = [] ++ [(js "bot", [1, 2, 3])] :=
    unlockFiles_kept (.cons discovered_unlocked .nil) (by decide) hfails
  obtain ⟨error, s, hrun, hsecrets⟩ := hkept
  exact ⟨error, s, by rw [unlock, discover_two]; exact hrun, hsecrets⟩

end Recorded

end Keystore

end Signbox

import Signbox.Guard.ShortCircuit
import Signbox.Spec.Onboarding

/-!
# What a run of the onboarding leaves on the disk

A run is followed from one file operation to the next: `prepare_cases` up to the temporary
container, `confirmKey_cases` up to the promotion, `destroy_cases` for what a failure removes.
`onboard_cases` puts them together: a run seals nothing, or it tears the temporary file, or it
ends in one of four ways.
-/

namespace Signbox

variable {α β : Type} {w w' : HostWorld} {o : Outcomes} {input : OnboardingInput}

/-! ## Steps -/

/-- Sequencing on the host: a failure leaves the world as the failing part left it. -/
theorem host_bind (x : Host α) (f : α → Host β) (w : HostWorld) :
    (x >>= f) w = match x w with
      | .ok a w' => f a w'
      | .error e w' => .error e w' := by
  rw [Guard.run_bind]
  cases x w <;> rfl

/-- A handler runs in the world that the failure left. -/
theorem host_tryCatch (x : Host α) (handle : Thrown → Host α) (w : HostWorld) :
    (tryCatch x handle) w = match x w with
      | .ok a w' => .ok a w'
      | .error e w' => handle e w' := by
  rw [Guard.run_tryCatch]
  cases x w <;> rfl

/-- A call costs one moment, and then its outcome decides. -/
theorem bind_answer (outcome : Except Thrown α) (f : α → Host β) (w : HostWorld) :
    (answer outcome >>= f) w = match outcome with
      | .ok a => f a w.tick
      | .error e => .error e w.tick := by
  cases outcome <;> rfl

@[simp] theorem host_throw (e : Thrown) (w : HostWorld) : (throw e : Host α) w = .error e w := rfl

@[simp] theorem host_pure (a : α) (w : HostWorld) : (pure a : Host α) w = .ok a w := rfl

@[simp] theorem throw_bind (e : Thrown) (f : α → Host β) (w : HostWorld) :
    ((throw e : Host α) >>= f) w = .error e w := rfl

/-- The moments from one state of a run to a later one satisfy `P`. Those before are untouched. -/
def Ran (P : Disk → Prop) (w w' : HostWorld) : Prop :=
  ∃ disks, w'.moments = w.moments ++ disks ∧ ∀ d ∈ disks, P d

/-- Nothing ran. -/
theorem Ran.refl {P : Disk → Prop} (w : HostWorld) : Ran P w w := ⟨[], by simp, nofun⟩

/-- Two stretches of a run make one. -/
theorem Ran.trans {P : Disk → Prop} {w'' : HostWorld} (h : Ran P w w') (h' : Ran P w' w'') :
    Ran P w w'' := by
  obtain ⟨disks, hm, hP⟩ := h
  obtain ⟨disks', hm', hP'⟩ := h'
  refine ⟨disks ++ disks', by rw [hm', hm, List.append_assoc], fun d hd => ?_⟩
  rcases List.mem_append.1 hd with hd | hd
  · exact hP d hd
  · exact hP' d hd

/-- A weaker condition holds at the same moments. -/
theorem Ran.imp {P Q : Disk → Prop} (hPQ : ∀ d, P d → Q d) (h : Ran P w w') : Ran Q w w' := by
  obtain ⟨disks, hm, hP⟩ := h
  exact ⟨disks, hm, fun d hd => hPQ d (hP d hd)⟩

/-- One moment passes over the disk as it is. -/
theorem ran_tick {P : Disk → Prop} (h : P w.disk) : Ran P w w.tick :=
  ⟨[w.disk], rfl, fun d hd => by rw [List.mem_singleton.1 hd]; exact h⟩

/-- Time passes, and nothing else: a call was made that leaves the files alone. -/
structure Waited (w w' : HostWorld) : Prop where
  disk : w'.disk = w.disk
  presentedAt : w'.presentedAt = w.presentedAt
  ran : Ran (· = w.disk) w w'

/-- No time passes. -/
theorem Waited.refl (w : HostWorld) : Waited w w := ⟨rfl, rfl, .refl w⟩

/-- One moment passes. -/
theorem waited_tick (w : HostWorld) : Waited w w.tick := ⟨rfl, rfl, ran_tick rfl⟩

/-- One more moment passes. -/
theorem Waited.tick (h : Waited w w') : Waited w w'.tick :=
  ⟨h.disk, h.presentedAt, h.ran.trans (ran_tick h.disk)⟩

/-- Waiting twice is waiting. -/
theorem Waited.trans {w'' : HostWorld} (h : Waited w w') (h' : Waited w' w'') : Waited w w'' := by
  refine ⟨h'.disk.trans h.disk, h'.presentedAt.trans h.presentedAt, h.ran.trans ?_⟩
  have hran := h'.ran
  rwa [h.disk] at hran

/-! ## Up to the temporary container -/

/-- The outcomes of the calls that come before the temporary container is written. Only with these
does a run get there. -/
structure Outcomes.Ready (o : Outcomes) (key : KeyPair) (passphrase : List UInt8)
    (createdAt : JsString) : Prop where
  authorityExists : o.authorityExists = .ok true
  agentAccountExists : o.agentAccountExists = .ok false
  policyRowExists : o.policyRowExists = .ok false
  generateKey : o.generateKey = .ok key
  canonicalize : ∃ json, o.canonicalize = .ok json
  canonicalSha256Hex : ∃ hash, o.canonicalSha256Hex = .ok hash
  getPassphrase : o.getPassphrase = .ok passphrase
  isoNow : o.isoNow = .ok createdAt
  deriveKey : o.deriveKey = .ok ()
  mkdir : o.mkdir = none

/-- The container of a run. -/
def sealedFile (input : OnboardingInput) (key : KeyPair) (passphrase : List UInt8)
    (createdAt : JsString) : KeyFile :=
  .container (utf8 key.wif) passphrase
    ⟨key.publicKey, input.exportPolicy, input.chain, input.agent, input.permission, createdAt⟩

/-- The temporary container is written: the calls before it succeed, its path is free, and the
write is complete. -/
def Sealed (o : Outcomes) (input : OnboardingInput) (disk : Disk) (file : KeyFile) : Prop :=
  (∃ key passphrase createdAt, o.Ready key passphrase createdAt ∧
    file = sealedFile input key passphrase createdAt) ∧
  disk (tempPathOf input.keystorePath) = none ∧ o.write = .written

/-- The temporary file is created, and writing it fails. What is left there is no container. -/
def Torn (o : Outcomes) (input : OnboardingInput) (disk : Disk) : Prop :=
  (∃ key passphrase createdAt, o.Ready key passphrase createdAt) ∧
  disk (tempPathOf input.keystorePath) = none ∧ ∃ content errno, o.write = .torn content errno

/-- What runs before the request is built. -/
def prepare (input : OnboardingInput) (o : Outcomes) : Host (KeyPair × JsString × JsString) := do
  checkPreconditions input (hostDeps o)
  let key ← answer o.generateKey
  let json ← answer o.canonicalize
  let hash ← answer o.canonicalSha256Hex
  sealKey input (hostDeps o) key
  return (key, json, hash)

/-- The run in its two parts: what is prepared, and what is confirmed under the handler that
destroys the temporary container. -/
theorem runOnboarding_eq : runOnboarding input (hostDeps o) =
    prepare input o >>= fun (key, json, hash) =>
      tryCatch (confirmKey input (hostDeps o) key json hash) fun error =>
        destroyKeystoreFile o (tempPathOf input.keystorePath) >>= fun _ => throw error := by
  simp only [runOnboarding, prepare, bind_assoc, pure_bind]
  rfl

/-- The preconditions fail before anything is written, or they all held. -/
theorem checkPreconditions_cases (w : HostWorld) :
    (∃ e w', checkPreconditions input (hostDeps o) w = .error e w' ∧ Waited w w' ∧
      ¬ (o.authorityExists = .ok true ∧ o.agentAccountExists = .ok false ∧
        o.policyRowExists = .ok false)) ∨
    ∃ w', checkPreconditions input (hostDeps o) w = .ok () w' ∧ Waited w w' ∧
      o.authorityExists = .ok true ∧ o.agentAccountExists = .ok false ∧
        o.policyRowExists = .ok false := by
  have h₁ := waited_tick w
  have h₂ := h₁.tick
  have h₃ := h₂.tick
  unfold checkPreconditions hostDeps
  simp only [bind_answer]
  rcases o.authorityExists with e | _ | _
  · exact Or.inl ⟨e, _, rfl, h₁, nofun⟩
  · exact Or.inl ⟨_, _, rfl, h₁, nofun⟩
  · simp only [Bool.not_true, Bool.false_eq_true, if_false, bind_answer]
    rcases o.agentAccountExists with e | _ | _
    · exact Or.inl ⟨e, _, rfl, h₂, nofun⟩
    · simp only [Bool.false_eq_true, if_false, bind_answer]
      rcases o.policyRowExists with e | _ | _
      · exact Or.inl ⟨e, _, rfl, h₃, nofun⟩
      · exact Or.inr ⟨_, rfl, h₃, trivial, trivial, rfl⟩
      · exact Or.inl ⟨_, _, rfl, h₃, nofun⟩
    · exact Or.inl ⟨_, _, rfl, h₂, nofun⟩

/-- A path that is taken changes the error, and nothing else. -/
theorem orFileExists_run (path : JsString) (run : Host Unit) (w : HostWorld) :
    orFileExists path run w = match run w with
      | .ok a w' => .ok a w'
      | .error e w' => .error (if e = .system .EEXIST then
          .fileExists (js "keystore already exists: " ++ path) else e) w' := by
  unfold orFileExists
  rw [host_tryCatch]
  cases run w with
  | ok a w' => rfl
  | error e w' =>
    simp only
    split <;> rfl

/-- Writing the temporary container, or what comes before it, fails, or it is written. -/
theorem createKeystoreFile_cases (path : JsString) (secret passphrase : List UInt8)
    (metadata : KeystoreMetadata) (w : HostWorld) :
    (∃ e w', createKeystoreFile o path secret passphrase metadata w = .error e w' ∧ Waited w w' ∧
      ¬ (o.deriveKey = .ok () ∧ o.mkdir = none ∧ w.disk path = none ∧
        ∀ errno, o.write ≠ .refused errno)) ∨
    (∃ e w' content errno,
      createKeystoreFile o path secret passphrase metadata w = .error e w' ∧
        w'.disk = Function.update w.disk path (some (.other content)) ∧
        w'.presentedAt = w.presentedAt ∧ Ran (fun d => d = w.disk ∨ d = w'.disk) w w' ∧
        o.deriveKey = .ok () ∧ o.mkdir = none ∧ w.disk path = none ∧
          o.write = .torn content errno) ∨
    ∃ w', createKeystoreFile o path secret passphrase metadata w = .ok () w' ∧
      w'.disk = Function.update w.disk path (some (.container secret passphrase metadata)) ∧
      w'.presentedAt = w.presentedAt ∧ Ran (fun d => d = w.disk ∨ d = w'.disk) w w' ∧
      o.deriveKey = .ok () ∧ o.mkdir = none ∧ w.disk path = none ∧ o.write = .written := by
  have h₁ := waited_tick w
  have h₂ := h₁.tick
  have h₃ := h₂.tick
  have hran : ∀ file, Ran (fun d => d = w.disk ∨ d = ((w.tick.tick.setFile path file).tick).disk) w
      ((w.tick.tick.setFile path file).tick) := by
    intro file
    refine ⟨[w.disk, w.disk, (w.setFile path file).disk], by simp [HostWorld.tick, HostWorld.setFile], ?_⟩
    intro d hd
    simp only [List.mem_cons, List.not_mem_nil, or_false] at hd
    rcases hd with rfl | rfl | rfl
    · exact Or.inl rfl
    · exact Or.inl rfl
    · exact Or.inr rfl
  unfold createKeystoreFile
  rw [bind_answer]
  rcases o.deriveKey with e | _
  · exact Or.inl ⟨e, _, rfl, h₁, nofun⟩
  · simp only [orFileExists_run, bind_answer]
    rcases o.mkdir with _ | e
    · have hdisk : w.tick.tick.disk path = w.disk path := rfl
      simp only [writeNew, hdisk]
      rcases w.disk path with _ | file
      · rcases o.write with _ | errno | ⟨content, errno⟩
        · exact Or.inr (Or.inr ⟨_, rfl, rfl, rfl, hran _, trivial, trivial, rfl, rfl⟩)
        · exact Or.inl ⟨_, _, rfl, h₃, fun h => h.2.2.2 errno rfl⟩
        · exact Or.inr (Or.inl ⟨_, _, content, errno, rfl, rfl, rfl, hran _, trivial, trivial,
            rfl, rfl⟩)
      · exact Or.inl ⟨_, _, rfl, h₃, nofun⟩
    · exact Or.inl ⟨_, _, rfl, h₂, nofun⟩

/-- **Up to the temporary container**: nothing is written, or the file is torn, or the key is
sealed. -/
theorem prepare_cases (w : HostWorld) :
    (∃ e w', prepare input o w = .error e w' ∧ Waited w w' ∧
      (∀ file, ¬ Sealed o input w.disk file) ∧ ¬ Torn o input w.disk) ∨
    (∃ e w' content, prepare input o w = .error e w' ∧
      w'.disk = Function.update w.disk (tempPathOf input.keystorePath) (some (.other content)) ∧
      w'.presentedAt = w.presentedAt ∧ Ran (fun d => d = w.disk ∨ d = w'.disk) w w' ∧
      (∀ file, ¬ Sealed o input w.disk file) ∧ Torn o input w.disk) ∨
    ∃ result w' file, prepare input o w = .ok result w' ∧
      w'.disk = Function.update w.disk (tempPathOf input.keystorePath) (some file) ∧
      w'.presentedAt = w.presentedAt ∧ Ran (fun d => d = w.disk ∨ d = w'.disk) w w' ∧
      Sealed o input w.disk file ∧ ¬ Torn o input w.disk := by
  -- a run that stops before the writing neither seals nor tears
  have hstop : (∀ key passphrase createdAt, ¬ o.Ready key passphrase createdAt) →
      (∀ file, ¬ Sealed o input w.disk file) ∧ ¬ Torn o input w.disk := by
    intro h
    constructor
    · rintro file ⟨⟨key, passphrase, createdAt, hready, -⟩, -⟩
      exact h key passphrase createdAt hready
    · rintro ⟨⟨key, passphrase, createdAt, hready⟩, -⟩
      exact h key passphrase createdAt hready
  unfold prepare
  rw [host_bind]
  rcases @checkPreconditions_cases o input w with
    ⟨e, w₁, hrun, hw, hno⟩ | ⟨w₁, hrun, hw, hauthority, hagent, hpolicy⟩
  · rw [hrun]
    exact Or.inl ⟨e, w₁, rfl, hw, hstop fun _ _ _ h =>
      hno ⟨h.authorityExists, h.agentAccountExists, h.policyRowExists⟩⟩
  · rw [hrun]
    simp only [bind_answer]
    -- five calls come before the container is written, and each of them may throw
    cases hkey : o.generateKey with
    | error e =>
      exact Or.inl ⟨e, _, rfl, hw.tick, hstop fun _ _ _ h => nomatch hkey.symm.trans h.generateKey⟩
    | ok key =>
    cases hjson : o.canonicalize with
    | error e =>
      refine Or.inl ⟨e, _, rfl, hw.tick.tick, hstop fun _ _ _ h => ?_⟩
      obtain ⟨json, hok⟩ := h.canonicalize
      exact nomatch hjson.symm.trans hok
    | ok json =>
    cases hhash : o.canonicalSha256Hex with
    | error e =>
      refine Or.inl ⟨e, _, rfl, hw.tick.tick.tick, hstop fun _ _ _ h => ?_⟩
      obtain ⟨hash, hok⟩ := h.canonicalSha256Hex
      exact nomatch hhash.symm.trans hok
    | ok hash =>
    simp only [sealKey, hostDeps, bind_assoc, bind_answer]
    cases hpass : o.getPassphrase with
    | error e =>
      exact Or.inl ⟨e, _, rfl, hw.tick.tick.tick.tick,
        hstop fun _ _ _ h => nomatch hpass.symm.trans h.getPassphrase⟩
    | ok passphrase =>
    cases htime : o.isoNow with
    | error e =>
      exact Or.inl ⟨e, _, rfl, hw.tick.tick.tick.tick.tick,
        hstop fun _ _ _ h => nomatch htime.symm.trans h.isoNow⟩
    | ok createdAt =>
    have hw₅ := hw.tick.tick.tick.tick.tick
    generalize w₁.tick.tick.tick.tick.tick = w₂ at hw₅
    -- all that the sealing needs is there now, but for the two calls of the file system
    have hready : o.deriveKey = .ok () → o.mkdir = none → o.Ready key passphrase createdAt :=
      fun hderive hmkdir => ⟨hauthority, hagent, hpolicy, hkey, ⟨json, hjson⟩, ⟨hash, hhash⟩,
        hpass, htime, hderive, hmkdir⟩
    have hbefore : Ran (fun d => d = w.disk) w w₂ := hw₅.ran
    -- the one step that writes
    simp only [host_bind]
    rcases createKeystoreFile_cases (o := o) (tempPathOf input.keystorePath) (utf8 key.wif)
        passphrase ⟨key.publicKey, input.exportPolicy, input.chain, input.agent, input.permission,
          createdAt⟩ w₂ with
      ⟨e, w', hrun, hw', hno⟩ | ⟨e, w', content, errno, hrun, hdisk, hat, hran, hd, hm, hfree, hwr⟩ |
      ⟨w', hrun, hdisk, hat, hran, hd, hm, hfree, hwr⟩
    · rw [hrun]
      refine Or.inl ⟨e, w', rfl, hw₅.trans hw', ?_, ?_⟩
      · rintro file ⟨⟨_, _, _, h, -⟩, hfree, hwr⟩
        refine hno ⟨h.deriveKey, h.mkdir, by rw [hw₅.disk, hfree], fun errno hr => ?_⟩
        exact nomatch hwr.symm.trans hr
      · rintro ⟨⟨_, _, _, h⟩, hfree, content, errno, hwr⟩
        refine hno ⟨h.deriveKey, h.mkdir, by rw [hw₅.disk, hfree], fun errno' hr => ?_⟩
        exact nomatch hwr.symm.trans hr
    · rw [hrun]
      rw [hw₅.disk] at hdisk hfree hran
      refine Or.inr (Or.inl ⟨e, w', content, rfl, hdisk, hat.trans hw₅.presentedAt, ?_, ?_, ?_⟩)
      · exact (hbefore.imp fun _ => Or.inl).trans hran
      · rintro file ⟨-, -, hwr'⟩
        exact nomatch hwr.symm.trans hwr'
      · exact ⟨⟨key, passphrase, createdAt, hready hd hm⟩, hfree, content, errno, hwr⟩
    · rw [hrun]
      rw [hw₅.disk] at hdisk hfree hran
      refine Or.inr (Or.inr ⟨_, w', _, rfl, hdisk, hat.trans hw₅.presentedAt, ?_, ?_, ?_⟩)
      · exact (hbefore.imp fun _ => Or.inl).trans hran
      · exact ⟨⟨key, passphrase, createdAt, hready hd hm, rfl⟩, hfree, hwr⟩
      · rintro ⟨-, -, content, errno, hwr'⟩
        exact nomatch hwr.symm.trans hwr'

/-! ## Up to the promotion -/

/-- The request is confirmed within the session, and what landed is verified. The key is then to be
promoted. -/
structure Outcomes.Verified (o : Outcomes) : Prop where
  buildRequest : ∃ request, o.buildRequest = .ok request
  present : o.present = .ok ()
  now : ∃ nowMs, o.now = .ok nowMs
  waitForConfirmation : ∃ txid, o.waitForConfirmation = .ok (some txid)
  verifyLanded : ∃ verified, o.verifyLanded = .ok verified ∧ verified.ok = true

/-- The final path is free, and linking it succeeds. Otherwise the promotion throws before anything
is changed. -/
def Linked (o : Outcomes) (input : OnboardingInput) (disk : Disk) : Prop :=
  disk input.keystorePath = none ∧ o.link = none

/-- The temporary container has a path of its own. -/
theorem tempPathOf_ne (keystorePath : JsString) : tempPathOf keystorePath ≠ keystorePath := by
  intro h
  have hlen := congrArg List.length h
  simp [tempPathOf, js, unitsOf] at hlen

/-- The two file operations of a promotion. -/
theorem promoteKeystoreFile_cases {file : KeyFile}
    (hfile : w.disk (tempPathOf input.keystorePath) = some file) :
    (∃ e w', promoteKeystoreFile o (tempPathOf input.keystorePath) input.keystorePath w =
        .error e w' ∧ Waited w w' ∧ ¬ Linked o input w.disk) ∨
    (∃ e w', promoteKeystoreFile o (tempPathOf input.keystorePath) input.keystorePath w =
        .error e w' ∧ w'.disk = Function.update w.disk input.keystorePath (some file) ∧
      w'.presentedAt = w.presentedAt ∧ Ran (· = w'.disk) w w' ∧ Linked o input w.disk ∧
        o.unlink ≠ none) ∨
    ∃ w', promoteKeystoreFile o (tempPathOf input.keystorePath) input.keystorePath w = .ok () w' ∧
      w'.disk = Function.update (Function.update w.disk input.keystorePath (some file))
        (tempPathOf input.keystorePath) none ∧
      w'.presentedAt = w.presentedAt ∧ Ran (fun d =>
        d = Function.update w.disk input.keystorePath (some file) ∨ d = w'.disk) w w' ∧
      Linked o input w.disk ∧ o.unlink = none := by
  have hne : tempPathOf input.keystorePath ≠ input.keystorePath := tempPathOf_ne _
  unfold promoteKeystoreFile
  simp only [host_bind, orFileExists_run, linkSync, hfile]
  cases hfinal : w.disk input.keystorePath with
  | some other =>
    exact Or.inl ⟨_, _, rfl, waited_tick w, fun h => nomatch hfinal.symm.trans h.1⟩
  | none =>
    cases hlink : o.link with
    | some errno =>
      exact Or.inl ⟨_, _, rfl, waited_tick w, fun h => nomatch hlink.symm.trans h.2⟩
    | none =>
      -- the container is at both paths now
      have hboth : Function.update w.disk input.keystorePath (some file)
          (tempPathOf input.keystorePath) = some file := by
        rw [Function.update_of_ne hne, hfile]
      simp only [unlinkSync, HostWorld.tick, HostWorld.setFile, hboth]
      cases hunlink : o.unlink with
      | some errno =>
        refine Or.inr (Or.inl ⟨_, _, rfl, rfl, rfl, ?_, ⟨hfinal, hlink⟩, nofun⟩)
        refine ⟨[_, _], by rw [List.append_assoc, List.cons_append, List.nil_append], ?_⟩
        intro d hd
        rcases List.mem_cons.1 hd with rfl | hd
        · rfl
        · exact List.mem_singleton.1 hd
      | none =>
        refine Or.inr (Or.inr ⟨_, rfl, rfl, rfl, ?_, ⟨hfinal, hlink⟩, rfl⟩)
        refine ⟨[_, _], by rw [List.append_assoc, List.cons_append, List.nil_append], ?_⟩
        intro d hd
        rcases List.mem_cons.1 hd with rfl | hd
        · exact Or.inl rfl
        · exact Or.inr (List.mem_singleton.1 hd)

/-- The authority has the request exactly if it is built, from a moment of this part of the
run on. -/
def Shown (o : Outcomes) (w w' : HostWorld) : Prop :=
  (w'.presentedAt = w.presentedAt ∧ ¬ ∃ request, o.buildRequest = .ok request) ∨
    (∃ k, w'.presentedAt = some k ∧ w.moments.length ≤ k) ∧
      ∃ request, o.buildRequest = .ok request

/-- **Up to the promotion**: the key is not promoted, or it is at both paths, or it is promoted.
The middle case is a promotion that has linked the final path and then failed. -/
theorem confirmKey_cases {file : KeyFile} {key : KeyPair} {json hash : JsString}
    (hfile : w.disk (tempPathOf input.keystorePath) = some file) :
    (∃ e w', confirmKey input (hostDeps o) key json hash w = .error e w' ∧ w'.disk = w.disk ∧
      Shown o w w' ∧ Ran (· = w.disk) w w' ∧ ¬ (o.Verified ∧ Linked o input w.disk)) ∨
    (∃ e w', confirmKey input (hostDeps o) key json hash w = .error e w' ∧
      w'.disk = Function.update w.disk input.keystorePath (some file) ∧ Shown o w w' ∧
      Ran (fun d => d = w.disk ∨ d = w'.disk) w w' ∧ o.Verified ∧ Linked o input w.disk ∧
        o.unlink ≠ none) ∨
    ∃ result w', confirmKey input (hostDeps o) key json hash w = .ok result w' ∧
      w'.disk = Function.update (Function.update w.disk input.keystorePath (some file))
        (tempPathOf input.keystorePath) none ∧ Shown o w w' ∧
      Ran (fun d => d = w.disk ∨ d = Function.update w.disk input.keystorePath (some file) ∨
        d = w'.disk) w w' ∧
      o.Verified ∧ Linked o input w.disk ∧ o.unlink = none := by
  unfold confirmKey hostDeps
  simp only [bind_answer]
  cases hbuild : o.buildRequest with
  | error e =>
    refine Or.inl ⟨e, _, rfl, rfl, Or.inl ⟨rfl, ?_⟩, ran_tick rfl, ?_⟩
    · rintro ⟨request, h⟩
      cases hbuild.symm.trans h
    · rintro ⟨⟨⟨request, h⟩, -⟩, -⟩
      cases hbuild.symm.trans h
  | ok request =>
  have hbuilt : ∃ request, o.buildRequest = .ok request := ⟨request, hbuild⟩
  have hshown : ∀ w' : HostWorld, w'.presentedAt = some w.tick.moments.length → Shown o w w' := by
    intro w' hat
    refine Or.inr ⟨⟨_, hat, ?_⟩, hbuilt⟩
    simp [HostWorld.tick]
  -- the moments that pass while the request is out
  obtain ⟨w₁, hw₁⟩ : ∃ w₁ : HostWorld,
      w₁ = (HostWorld.mk w.tick.disk w.tick.moments (some w.tick.moments.length)).tick := ⟨_, rfl⟩
  have hat : w₁.presentedAt = some w.tick.moments.length := by rw [hw₁]; rfl
  have hdisk : w₁.disk = w.disk := by rw [hw₁]; rfl
  have hran : Ran (· = w.disk) w w₁ := by
    rw [hw₁]
    refine ⟨[w.disk, w.disk], by simp [HostWorld.tick], fun d hd => ?_⟩
    simpa using hd
  have hstop : ∀ {w' : HostWorld}, Waited w₁ w' → w'.disk = w.disk ∧ Shown o w w' ∧
      Ran (· = w.disk) w w' := by
    intro w' hw'
    refine ⟨hw'.disk.trans hdisk, hshown w' (hw'.presentedAt.trans hat), hran.trans ?_⟩
    have hran' := hw'.ran
    rwa [hdisk] at hran'
  rw [host_bind]
  cases hpresent : o.present with
  | error e =>
    obtain ⟨h₁, h₂, h₃⟩ := hstop (Waited.refl w₁)
    refine Or.inl ⟨e, w₁, ?_, h₁, h₂, h₃, fun h => by cases hpresent.symm.trans h.1.present⟩
    simp only [present, answer, hpresent, hw₁]
  | ok _ =>
  have hrun : present o w.tick = .ok () w₁ := by simp only [present, answer, hpresent, hw₁]
  simp only [hrun, bind_answer]
  cases hnow : o.now with
  | error e =>
    obtain ⟨h₁, h₂, h₃⟩ := hstop (waited_tick w₁)
    refine Or.inl ⟨e, _, rfl, h₁, h₂, h₃, fun h => ?_⟩
    obtain ⟨nowMs, hok⟩ := h.1.now
    cases hnow.symm.trans hok
  | ok nowMs =>
  cases hwait : o.waitForConfirmation with
  | error e =>
    obtain ⟨h₁, h₂, h₃⟩ := hstop (waited_tick w₁).tick
    refine Or.inl ⟨e, _, rfl, h₁, h₂, h₃, fun h => ?_⟩
    obtain ⟨txid, hok⟩ := h.1.waitForConfirmation
    cases hwait.symm.trans hok
  | ok confirmation =>
  cases confirmation with
  | none =>
    obtain ⟨h₁, h₂, h₃⟩ := hstop (waited_tick w₁).tick
    refine Or.inl ⟨_, _, rfl, h₁, h₂, h₃, fun h => ?_⟩
    obtain ⟨txid, hok⟩ := h.1.waitForConfirmation
    cases hwait.symm.trans hok
  | some txid =>
  simp only [bind_answer]
  cases hverify : o.verifyLanded with
  | error e =>
    obtain ⟨h₁, h₂, h₃⟩ := hstop (waited_tick w₁).tick.tick
    refine Or.inl ⟨e, _, rfl, h₁, h₂, h₃, fun h => ?_⟩
    obtain ⟨verified, hok, -⟩ := h.1.verifyLanded
    cases hverify.symm.trans hok
  | ok verified =>
  dsimp only
  cases hok : verified.ok with
  | false =>
    obtain ⟨h₁, h₂, h₃⟩ := hstop (waited_tick w₁).tick.tick
    refine Or.inl ⟨_, _, rfl, h₁, h₂, h₃, fun h => ?_⟩
    obtain ⟨verified', hverified, hok'⟩ := h.1.verifyLanded
    obtain rfl : verified = verified' := Except.ok.inj (hverify.symm.trans hverified)
    rw [hok] at hok'
    cases hok'
  | true =>
  have hverified : o.Verified :=
    ⟨hbuilt, hpresent, ⟨nowMs, hnow⟩, ⟨txid, hwait⟩, verified, hverify, hok⟩
  have hw₄ := (waited_tick w₁).tick.tick
  obtain ⟨hdisk₄, -, hran₄⟩ := hstop hw₄
  have hat₄ := hw₄.presentedAt.trans hat
  generalize w₁.tick.tick.tick = w₄ at hdisk₄ hran₄ hat₄
  simp only [Bool.not_true, Bool.false_eq_true, if_false, host_bind]
  rw [← hdisk₄] at hfile
  rcases promoteKeystoreFile_cases (o := o) hfile with
    ⟨e, w', hrun', hw', hno⟩ | ⟨e, w', hrun', hd, hp, hran', hlinked, hun⟩ |
    ⟨w', hrun', hd, hp, hran', hlinked, hun⟩
  · rw [hrun']
    rw [hdisk₄] at hno
    refine Or.inl ⟨e, w', rfl, hw'.disk.trans hdisk₄, hshown w' (hw'.presentedAt.trans hat₄), ?_,
      fun h => hno h.2⟩
    have hran' := hw'.ran
    rw [hdisk₄] at hran'
    exact hran₄.trans hran'
  · rw [hrun']
    rw [hdisk₄] at hd hlinked
    refine Or.inr (Or.inl ⟨e, w', rfl, hd, hshown w' (hp.trans hat₄), ?_, hverified, hlinked, hun⟩)
    exact (hran₄.imp fun _ => Or.inl).trans (hran'.imp fun _ => Or.inr)
  · rw [hrun']
    rw [hdisk₄] at hd hlinked hran'
    refine Or.inr (Or.inr ⟨_, w', rfl, hd, hshown w' (hp.trans hat₄), ?_, hverified, hlinked, hun⟩)
    exact (hran₄.imp fun _ => Or.inl).trans (hran'.imp fun _ => Or.inr)

/-! ## The whole run -/

/-- Removing the temporary container. -/
theorem destroy_cases {file : KeyFile} (hfile : w.disk (tempPathOf input.keystorePath) = some file) :
    (o.destroy = none ∧ ∃ w', destroyKeystoreFile o (tempPathOf input.keystorePath) w = .ok () w' ∧
      w'.disk = Function.update w.disk (tempPathOf input.keystorePath) none ∧
      w'.presentedAt = w.presentedAt ∧ Ran (· = w'.disk) w w') ∨
    (o.destroy ≠ none ∧ ∃ e w',
      destroyKeystoreFile o (tempPathOf input.keystorePath) w = .error e w' ∧ Waited w w') := by
  unfold destroyKeystoreFile
  simp only [host_tryCatch, unlinkSync, hfile]
  cases o.destroy with
  | none => exact Or.inl ⟨rfl, _, rfl, rfl, rfl, ran_tick rfl⟩
  | some errno => exact Or.inr ⟨nofun, _, _, rfl, waited_tick w⟩

section Disks

variable (disk : Disk) (input : OnboardingInput) (file : KeyFile)

/-- The disk with the file at the temporary path, at both paths, at the final path. -/
def tempDisk : Disk := Function.update disk (tempPathOf input.keystorePath) (some file)

/-- The disk with the container under both paths, between linking and unlinking. -/
def bothDisk : Disk := Function.update (tempDisk disk input file) input.keystorePath (some file)

/-- The disk with the container at its final path only. -/
def finalDisk : Disk := Function.update disk input.keystorePath (some file)

variable {disk}

/-- Under the temporary path stands the container, -/
theorem tempDisk_temp : tempDisk disk input file (tempPathOf input.keystorePath) = some file :=
  Function.update_self ..

/-- and under the final one what stood there before. -/
theorem tempDisk_final : tempDisk disk input file input.keystorePath = disk input.keystorePath :=
  Function.update_of_ne (tempPathOf_ne _).symm _ _

/-- With both paths linked the temporary one still holds the container. -/
theorem bothDisk_temp : bothDisk disk input file (tempPathOf input.keystorePath) = some file := by
  unfold bothDisk
  rw [Function.update_of_ne (tempPathOf_ne _), tempDisk_temp]

/-- Destroying the temporary container restores the disk as it was found, -/
theorem destroyed_temp (hfree : disk (tempPathOf input.keystorePath) = none) :
    Function.update (tempDisk disk input file) (tempPathOf input.keystorePath) none = disk := by
  unfold tempDisk
  rw [Function.update_idem, ← hfree, Function.update_eq_self]

/-- or, after the link, leaves the container at its final path. -/
theorem destroyed_both (hfree : disk (tempPathOf input.keystorePath) = none) :
    Function.update (bothDisk disk input file) (tempPathOf input.keystorePath) none =
      finalDisk disk input file := by
  unfold bothDisk finalDisk
  rw [Function.update_comm (tempPathOf_ne _).symm, destroyed_temp input file hfree]

/-- Whether the link succeeds does not depend on the temporary container. -/
theorem linked_tempDisk : Linked o input (tempDisk disk input file) ↔ Linked o input disk := by
  unfold Linked
  rw [tempDisk_final]

end Disks

/-- How a run ends that sealed the file: it keeps nothing, or the temporary container only, or
also or only the promoted one. -/
inductive Ending (o : Outcomes) (input : OnboardingInput) (disk : Disk) (file : KeyFile)
    (w : HostWorld) (after : List Disk) : EStateM.Result Thrown HostWorld OnboardingResult → Prop where
  | destroyed (e : Thrown) : ¬ (o.Verified ∧ Linked o input disk) → o.destroy = none →
      w.disk = disk → (∀ d ∈ after, d = tempDisk disk input file ∨ d = disk) →
      Ending o input disk file w after (.error e w)
  | left (e : Thrown) : ¬ (o.Verified ∧ Linked o input disk) → o.destroy ≠ none →
      w.disk = tempDisk disk input file → (∀ d ∈ after, d = tempDisk disk input file) →
      Ending o input disk file w after (.error e w)
  | half (e : Thrown) : o.Verified → Linked o input disk → o.unlink ≠ none →
      (w.disk = bothDisk disk input file ∨ w.disk = finalDisk disk input file) →
      (∀ d ∈ after, d = tempDisk disk input file ∨ d = bothDisk disk input file ∨
        d = finalDisk disk input file) →
      Ending o input disk file w after (.error e w)
  | promoted (result : OnboardingResult) : o.Verified → Linked o input disk → o.unlink = none →
      w.disk = finalDisk disk input file →
      (∀ d ∈ after, d = tempDisk disk input file ∨ d = bothDisk disk input file ∨
        d = finalDisk disk input file) →
      Ending o input disk file w after (.ok result w)

/-- What a run does that seals the file: the moments before the file is sealed, and the moments
after it, and when the request is presented. -/
structure SealedRun (o : Outcomes) (input : OnboardingInput) (disk : Disk) (file : KeyFile)
    (w : HostWorld) (before after : List Disk) : Prop where
  moments : w.moments = before ++ after
  sealing : ∀ d ∈ before, d = disk ∨ d = tempDisk disk input file
  presented : ∀ k, w.presentedAt = some k → before.length ≤ k
  built : (∃ k, w.presentedAt = some k) ↔ ∃ request, o.buildRequest = .ok request
  ending : Ending o input disk file w after (onboard o input disk)

/-- **Every run**: it writes nothing, or it tears the temporary file, or it seals the key. In the
last case the two cases of the confirmation follow, with the handler that destroys the temporary
container behind them. -/
theorem onboard_cases (o : Outcomes) (input : OnboardingInput) (disk : Disk) :
    (∃ e w, onboard o input disk = .error e w ∧ w.disk = disk ∧ w.presentedAt = none ∧
      (∀ d ∈ w.moments, d = disk) ∧ (∀ file, ¬ Sealed o input disk file) ∧ ¬ Torn o input disk) ∨
    (∃ e w content, onboard o input disk = .error e w ∧
      w.disk = tempDisk disk input (.other content) ∧ w.presentedAt = none ∧
      (∀ d ∈ w.moments, d = disk ∨ d = w.disk) ∧ (∀ file, ¬ Sealed o input disk file) ∧
        Torn o input disk) ∨
    ∃ file w before after, Sealed o input disk file ∧ ¬ Torn o input disk ∧
      SealedRun o input disk file w before after := by
  have hstart : ∀ {P : Disk → Prop} {w : HostWorld}, Ran P (.start disk) w → ∀ d ∈ w.moments, P d := by
    rintro P w ⟨disks, hm, hP⟩ d hd
    rw [hm] at hd
    exact hP d (by simpa [HostWorld.start] using hd)
  have honboard : onboard o input disk = (prepare input o >>= fun (key, json, hash) =>
      tryCatch (confirmKey input (hostDeps o) key json hash) fun error =>
        destroyKeystoreFile o (tempPathOf input.keystorePath) >>= fun _ => throw error)
      (.start disk) := congrFun runOnboarding_eq _
  rw [host_bind] at honboard
  -- up to the temporary container three things can happen, and the third is the long one
  rcases @prepare_cases o input (.start disk) with
    ⟨e, w, hrun, hw, hno, hno'⟩ | ⟨e, w, content, hrun, hdisk, hat, hran, hno, htorn⟩ |
    ⟨⟨key, json, hash⟩, w, file, hrun, hdisk, hat, hran, hsealed, hno⟩
  · rw [hrun] at honboard
    exact Or.inl ⟨e, w, honboard, hw.disk, hw.presentedAt, hstart hw.ran, hno, hno'⟩
  · rw [hrun] at honboard
    exact Or.inr (Or.inl ⟨e, w, content, honboard, hdisk, hat, hstart hran, hno, htorn⟩)
  refine Or.inr (Or.inr ⟨file, ?_⟩)
  have hfree : disk (tempPathOf input.keystorePath) = none := hsealed.2.1
  have hdisk' : w.disk = tempDisk disk input file := hdisk
  have hfile : w.disk (tempPathOf input.keystorePath) = some file := by
    rw [hdisk', tempDisk_temp]
  have hbefore : ∀ d ∈ w.moments, d = disk ∨ d = tempDisk disk input file := by
    intro d hd
    rcases hstart hran d hd with rfl | rfl
    · exact Or.inl rfl
    · exact Or.inr hdisk'
  -- the request is shown only after the container has been sealed
  have hshown : ∀ {w₂ w₃ : HostWorld}, Shown o w w₂ → w₃.presentedAt = w₂.presentedAt →
      (∀ k, w₃.presentedAt = some k → w.moments.length ≤ k) ∧
        ((∃ k, w₃.presentedAt = some k) ↔ ∃ request, o.buildRequest = .ok request) := by
    intro w₂ w₃ hshow hsame
    have hnone : w.presentedAt = none := hat
    rcases hshow with ⟨hat₂, hnot⟩ | ⟨⟨k, hat₂, hle⟩, hbuilt⟩
    · rw [hsame, hat₂, hnone]
      exact ⟨nofun, nofun, fun h => absurd h hnot⟩
    · rw [hsame, hat₂]
      refine ⟨fun k' hk' => ?_, fun _ => hbuilt, fun _ => ⟨k, rfl⟩⟩
      rw [← Option.some.inj hk']
      exact hle
  rw [hrun] at honboard
  simp only [host_tryCatch] at honboard
  -- from here on the container exists, and the confirmation runs under its handler
  rcases @confirmKey_cases w o input file key json hash hfile with
    ⟨e, w₂, hrun₂, hd₂, hshow, ⟨after, hm, hP⟩, hnot⟩ |
    ⟨e, w₂, hrun₂, hd₂, hshow, ⟨after, hm, hP⟩, hver, hlink, hun⟩ |
    ⟨result, w₂, hrun₂, hd₂, hshow, ⟨after, hm, hP⟩, hver, hlink, hun⟩
  · -- the failure leads to the removal of the temporary container
    rw [hrun₂] at honboard
    dsimp only at honboard
    rw [host_bind] at honboard
    rw [hdisk', linked_tempDisk] at hnot
    rw [hdisk'] at hd₂ hP
    -- destroying it works, or leaves it at its temporary path
    have hfile₂ : w₂.disk (tempPathOf input.keystorePath) = some file := by
      rw [hd₂, tempDisk_temp]
    rcases destroy_cases (o := o) hfile₂ with
      ⟨hok, w₃, hrun₃, hd₃, hp₃, ⟨last, hm₃, hP₃⟩⟩ | ⟨hfault, e', w₃, hrun₃, hw₃⟩
    · rw [hrun₃] at honboard
      rw [hd₂, destroyed_temp input file hfree] at hd₃
      obtain ⟨hp, hb⟩ := hshown hshow hp₃
      refine ⟨w₃, w.moments, after ++ last, hsealed, hno,
        ⟨by rw [hm₃, hm, List.append_assoc], hbefore, hp, hb, ?_⟩⟩
      rw [honboard]
      refine .destroyed e hnot hok hd₃ fun d hd => ?_
      rcases List.mem_append.1 hd with hd | hd
      · exact Or.inl (hP d hd)
      · exact Or.inr ((hP₃ d hd).trans hd₃)
    · rw [hrun₃] at honboard
      obtain ⟨last, hm₃, hP₃⟩ := hw₃.ran
      obtain ⟨hp, hb⟩ := hshown hshow hw₃.presentedAt
      refine ⟨w₃, w.moments, after ++ last, hsealed, hno,
        ⟨by rw [hm₃, hm, List.append_assoc], hbefore, hp, hb, ?_⟩⟩
      rw [honboard]
      refine .left e' hnot hfault (hw₃.disk.trans hd₂) fun d hd => ?_
      rcases List.mem_append.1 hd with hd | hd
      · exact hP d hd
      · exact (hP₃ d hd).trans hd₂
  · -- the container is at both paths, and the one at the temporary path is removed again
    rw [hrun₂] at honboard
    dsimp only at honboard
    rw [host_bind] at honboard
    rw [hdisk', linked_tempDisk] at hlink
    rw [hdisk'] at hd₂ hP
    have hboth : w₂.disk = bothDisk disk input file := hd₂
    rw [hboth] at hP
    have hfile₂ : w₂.disk (tempPathOf input.keystorePath) = some file := by
      rw [hboth, bothDisk_temp]
    rcases destroy_cases (o := o) hfile₂ with
      ⟨-, w₃, hrun₃, hd₃, hp₃, ⟨last, hm₃, hP₃⟩⟩ | ⟨-, e', w₃, hrun₃, hw₃⟩
    · rw [hrun₃] at honboard
      rw [hboth, destroyed_both input file hfree] at hd₃
      obtain ⟨hp, hb⟩ := hshown hshow hp₃
      refine ⟨w₃, w.moments, after ++ last, hsealed, hno,
        ⟨by rw [hm₃, hm, List.append_assoc], hbefore, hp, hb, ?_⟩⟩
      rw [honboard]
      refine .half e hver hlink hun (Or.inr hd₃) fun d hd => ?_
      rcases List.mem_append.1 hd with hd | hd
      · exact (hP d hd).imp_right Or.inl
      · exact Or.inr (Or.inr ((hP₃ d hd).trans hd₃))
    · rw [hrun₃] at honboard
      obtain ⟨last, hm₃, hP₃⟩ := hw₃.ran
      obtain ⟨hp, hb⟩ := hshown hshow hw₃.presentedAt
      refine ⟨w₃, w.moments, after ++ last, hsealed, hno,
        ⟨by rw [hm₃, hm, List.append_assoc], hbefore, hp, hb, ?_⟩⟩
      rw [honboard]
      refine .half e' hver hlink hun (Or.inl (hw₃.disk.trans hboth)) fun d hd => ?_
      rcases List.mem_append.1 hd with hd | hd
      · exact (hP d hd).imp_right Or.inl
      · exact Or.inr (Or.inl ((hP₃ d hd).trans hboth))
  -- promoted, and nothing is left to clean up
  · rw [hrun₂] at honboard
    rw [hdisk', linked_tempDisk] at hlink
    rw [hdisk'] at hd₂ hP
    have hfinal : w₂.disk = finalDisk disk input file := by
      rw [hd₂, ← destroyed_both input file hfree]
      rfl
    rw [hfinal] at hP
    obtain ⟨hp, hb⟩ := hshown hshow rfl
    refine ⟨w₂, w.moments, after, hsealed, hno, ⟨hm, hbefore, hp, hb, ?_⟩⟩
    rw [honboard]
    exact .promoted result hver hlink hun hfinal hP

end Signbox

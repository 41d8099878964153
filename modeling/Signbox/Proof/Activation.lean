import Signbox.Proof.Onboarding
import Mathlib.Data.List.GetD

/-!
# Activated and kept keys

Two properties of an onboarding. A run that fails leaves the disk as it was, and only a verified
key reaches the final path (`AbortsClosed`); and a key that landed on the chain is on the disk
(`NeverLost`). A failure after the request went out destroys the key, which may land later or
have landed already; and the two file operations of a promotion can come apart.

* `failsClosed_iff`: the file operations whose failure leaves something behind.
* `neverLost_iff`: when a key is kept.
-/

namespace Signbox

variable {o : Outcomes} {input : OnboardingInput} {disk : Disk}

/-- The state a run ends in. -/
def worldOf {α : Type} : EStateM.Result Thrown HostWorld α → HostWorld
  | .ok _ w => w
  | .error _ w => w

/-- The disk at every moment of a run, and at its end. A transaction can land at any of them. -/
def HostWorld.disks (w : HostWorld) : List Disk := w.moments ++ [w.disk]

/-! ## Failing closed -/

/-- Only a verified key reaches the final path, a run that throws leaves both paths as they were,
and no file that was there is overwritten or deleted at any moment. -/
structure AbortsClosed (o : Outcomes) (input : OnboardingInput) (disk : Disk) : Prop where
  activated : ∀ d ∈ (worldOf (onboard o input disk)).disks,
    d input.keystorePath ≠ disk input.keystorePath →
      (∃ file, Sealed o input disk file) ∧ o.Verified
  restored : ∀ e w, onboard o input disk = .error e w →
    w.disk input.keystorePath = disk input.keystorePath ∧
      w.disk (tempPathOf input.keystorePath) = disk (tempPathOf input.keystorePath)
  foreign : ∀ d ∈ (worldOf (onboard o input disk)).disks, ∀ path file,
    disk path = some file → d path = some file

/-- No file operation of the run fails half-way: writing a file that is created, the second
operation of a promotion, and the removal of the temporary container. -/
structure Undisturbed (o : Outcomes) (input : OnboardingInput) (disk : Disk) : Prop where
  write : ¬ Torn o input disk
  unlink : ∀ file, Sealed o input disk file → o.Verified → Linked o input disk → o.unlink = none
  destroy : ∀ file, Sealed o input disk file → ¬ (o.Verified ∧ Linked o input disk) →
    o.destroy = none

variable {file : KeyFile} {w : HostWorld} {before after : List Disk}

theorem mem_disks {d : Disk} : d ∈ w.disks ↔ d ∈ w.moments ∨ d = w.disk := by
  unfold HostWorld.disks
  rw [List.mem_append, List.mem_singleton]

theorem Ending.world {r : EStateM.Result Thrown HostWorld OnboardingResult}
    (h : Ending o input disk file w after r) : worldOf r = w := by
  cases h <;> rfl

/-- Files that were there are there on the disks of a run. -/
theorem tempDisk_foreign (hfree : disk (tempPathOf input.keystorePath) = none) {path : JsString}
    {f : KeyFile} (h : disk path = some f) : tempDisk disk input file path = some f := by
  have hne : path ≠ tempPathOf input.keystorePath := by
    rintro rfl
    rw [hfree] at h
    exact nomatch h
  exact (Function.update_of_ne hne _ _).trans h

theorem finalDisk_foreign (hfree : disk input.keystorePath = none) {path : JsString}
    {f : KeyFile} (h : disk path = some f) : finalDisk disk input file path = some f := by
  have hne : path ≠ input.keystorePath := by
    rintro rfl
    rw [hfree] at h
    exact nomatch h
  exact (Function.update_of_ne hne _ _).trans h

theorem bothDisk_foreign (hfree : disk (tempPathOf input.keystorePath) = none)
    (hfinal : disk input.keystorePath = none) {path : JsString} {f : KeyFile}
    (h : disk path = some f) : bothDisk disk input file path = some f := by
  have hne : path ≠ input.keystorePath := by
    rintro rfl
    rw [hfinal] at h
    exact nomatch h
  exact (Function.update_of_ne hne _ _).trans (tempDisk_foreign hfree h)

theorem finalDisk_final : finalDisk disk input file input.keystorePath = some file :=
  Function.update_self ..

theorem bothDisk_final : bothDisk disk input file input.keystorePath = some file :=
  Function.update_self ..

/-- The disks of a run that seals a file: never more than the two paths are written. -/
theorem SealedRun.disks (h : SealedRun o input disk file w before after) :
    ∀ d ∈ w.disks, d = disk ∨ d = tempDisk disk input file ∨
      (o.Verified ∧ Linked o input disk) ∧
        (d = bothDisk disk input file ∨ d = finalDisk disk input file) := by
  -- after the sealing, by how the run ended
  have hafter : ∀ d, d ∈ after ∨ d = w.disk → d = disk ∨ d = tempDisk disk input file ∨
      (o.Verified ∧ Linked o input disk) ∧
        (d = bothDisk disk input file ∨ d = finalDisk disk input file) := by
    intro d hd
    have hending := h.ending
    generalize onboard o input disk = r at hending
    cases hending with
    | destroyed e _ _ hdisk hafter =>
      rcases hd with hd | rfl
      · rcases hafter d hd with rfl | rfl
        · exact Or.inr (Or.inl rfl)
        · exact Or.inl rfl
      · exact Or.inl hdisk
    | left e _ _ hdisk hafter =>
      rcases hd with hd | rfl
      · exact Or.inr (Or.inl (hafter d hd))
      · exact Or.inr (Or.inl hdisk)
    | half e hver hlink _ hdisk hafter =>
      rcases hd with hd | rfl
      · rcases hafter d hd with rfl | hd
        · exact Or.inr (Or.inl rfl)
        · exact Or.inr (Or.inr ⟨⟨hver, hlink⟩, hd⟩)
      · exact Or.inr (Or.inr ⟨⟨hver, hlink⟩, hdisk⟩)
    | promoted result hver hlink _ hdisk hafter =>
      rcases hd with hd | rfl
      · rcases hafter d hd with rfl | hd
        · exact Or.inr (Or.inl rfl)
        · exact Or.inr (Or.inr ⟨⟨hver, hlink⟩, hd⟩)
      · exact Or.inr (Or.inr ⟨⟨hver, hlink⟩, Or.inr hdisk⟩)
  intro d hd
  -- before it, only the temporary container can be there
  rcases mem_disks.1 hd with hd | hd
  · rw [h.moments] at hd
    rcases List.mem_append.1 hd with hd | hd
    · rcases h.sealing d hd with rfl | rfl
      · exact Or.inl rfl
      · exact Or.inr (Or.inl rfl)
    · exact hafter d (Or.inl hd)
  · exact hafter d (Or.inr hd)

/-- What holds of every run that seals a file. -/
theorem SealedRun.safe (h : SealedRun o input disk file w before after)
    (hsealed : Sealed o input disk file) :
    (∀ d ∈ (worldOf (onboard o input disk)).disks,
      d input.keystorePath ≠ disk input.keystorePath →
        (∃ file, Sealed o input disk file) ∧ o.Verified) ∧
    ∀ d ∈ (worldOf (onboard o input disk)).disks, ∀ path f, disk path = some f → d path = some f := by
  have hfree := hsealed.2.1
  rw [h.ending.world]
  constructor
  · intro d hd hne
    rcases h.disks d hd with rfl | rfl | ⟨⟨hver, -⟩, -⟩
    · exact absurd rfl hne
    · exact absurd (tempDisk_final input file) hne
    · exact ⟨⟨file, hsealed⟩, hver⟩
  · intro d hd path f hf
    rcases h.disks d hd with rfl | rfl | ⟨⟨-, hlink⟩, rfl | rfl⟩
    · exact hf
    · exact tempDisk_foreign hfree hf
    · exact bothDisk_foreign hfree hlink.1 hf
    · exact finalDisk_foreign hlink.1 hf

/-- **Failing closed.** A run activates only a verified key, cleans up when it throws and never
touches a file it did not create, exactly if no file operation of it fails half-way. This is for
all outcomes of its steps, those of the file operations included, and over every disk. -/
theorem failsClosed_iff (o : Outcomes) (input : OnboardingInput) (disk : Disk) :
    AbortsClosed o input disk ↔ Undisturbed o input disk := by
  rcases onboard_cases o input disk with
    ⟨e, w, hrun, hdisk, -, hm, hno, hwhole⟩ | ⟨e, w, content, hrun, hdisk, -, hm, hno, htorn⟩ |
    ⟨file, w, before, after, hsealed, hwhole, hs⟩
  · -- nothing is written
    have hsame : ∀ d ∈ (worldOf (onboard o input disk)).disks, d = disk := by
      rw [hrun]
      intro d hd
      rcases mem_disks.1 hd with hd | hd
      · exact hm d hd
      · exact hd.trans hdisk
    constructor
    · intro _
      exact ⟨hwhole, fun file h => absurd h (hno file), fun file h => absurd h (hno file)⟩
    · intro _
      refine ⟨fun d hd hne => ?_, fun e' w' hrun' => ?_, fun d hd path f hf => ?_⟩
      · rw [hsame d hd] at hne
        exact absurd rfl hne
      · rw [hrun] at hrun'
        cases hrun'
        rw [hdisk]
        exact ⟨rfl, rfl⟩
      · rw [hsame d hd]
        exact hf
  · -- the temporary file is there, and the run threw
    constructor
    · intro h
      have htemp := (h.restored e w hrun).2
      rw [hdisk, tempDisk_temp, htorn.2.1] at htemp
      exact nomatch htemp
    · intro h
      exact absurd htorn h.write
  · obtain ⟨hactivated, hforeign⟩ := hs.safe hsealed
    have hfree := hsealed.2.1
    -- how the run ended says which operation failed
    constructor
    · intro h
      cases hend : onboard o input disk with
      | ok result w' =>
        have hending := hs.ending
        rw [hend] at hending
        cases hending with
        | promoted _ hver hlink hun _ _ =>
          exact ⟨hwhole, fun _ _ _ _ => hun, fun _ _ hnot => absurd ⟨hver, hlink⟩ hnot⟩
      | error e w' =>
        obtain ⟨hfinal, htemp⟩ := h.restored e w' hend
        have hending := hs.ending
        rw [hend] at hending
        cases hending with
        | destroyed _ hnot hok _ _ =>
          exact ⟨hwhole, fun _ _ hver hlink => absurd ⟨hver, hlink⟩ hnot, fun _ _ _ => hok⟩
        | left _ _ _ hdisk _ =>
          rw [hdisk, tempDisk_temp, hfree] at htemp
          exact nomatch htemp
        | half _ _ hlink _ hdisk _ =>
          rcases hdisk with hdisk | hdisk
          · rw [hdisk, bothDisk_final, hlink.1] at hfinal
            exact nomatch hfinal
          · rw [hdisk, finalDisk_final, hlink.1] at hfinal
            exact nomatch hfinal
    · intro h
      refine ⟨hactivated, fun e w' hrun => ?_, hforeign⟩
      have hending := hs.ending
      rw [hrun] at hending
      cases hending with
      | destroyed _ _ _ hdisk _ =>
        rw [hdisk]
        exact ⟨rfl, rfl⟩
      | left _ hnot hfault _ _ => exact absurd (h.destroy file hsealed hnot) hfault
      | half _ hver hlink hfault _ _ => exact absurd (h.unlink file hsealed hver hlink) hfault

/-! Runs of an agent `bot` of the authority `dev`, with the keystore at `k`. -/

namespace BotKey

def bot : OnboardingInput where
  chain := ⟨js "XPR", js "testnet", js "c"⟩
  authority := js "dev"
  agent := js "bot"
  permission := js "active"
  exportPolicy := .nonExportable
  keystorePath := js "k"
  ramBytes := none

/-- Every call succeeds, and the transaction is confirmed. -/
def smooth : Outcomes where
  sessionTimeoutMs := none
  authorityExists := .ok true
  agentAccountExists := .ok false
  policyRowExists := .ok false
  generateKey := .ok ⟨js "PVT", js "PUB"⟩
  canonicalize := .ok (js "policy")
  canonicalSha256Hex := .ok (js "hash")
  getPassphrase := .ok [1]
  isoNow := .ok (js "now")
  deriveKey := .ok ()
  mkdir := none
  write := .written
  buildRequest := .ok ⟨js "esr:", [], none⟩
  present := .ok ()
  now := .ok 0
  waitForConfirmation := .ok (some (js "tx"))
  verifyLanded := .ok ⟨true, none⟩
  link := none
  unlink := none
  destroy := none

def botFile : KeyFile := sealedFile bot ⟨js "PVT", js "PUB"⟩ [1] (js "now")

/-- The container is linked to the final path, the temporary one cannot be unlinked, and the run
throws: the key is active all the same. -/
theorem half_promoted : ∃ e w, onboard { smooth with unlink := some 5 } bot (fun _ => none) =
      .error e w ∧ w.disk (js "k") = some botFile ∧
    ¬ AbortsClosed { smooth with unlink := some 5 } bot fun _ => none := by
  refine ⟨_, _, rfl, rfl, fun h => ?_⟩
  exact nomatch (h.restored _ _ rfl).1

end BotKey

/-! ## Keeping the key -/

/-- The transaction is on the chain at moment `i`: it landed `n` moments after the request was
presented, or later. Moments go on after the run. -/
def Installed (lands : Option ℕ) (w : HostWorld) (i : ℕ) : Prop :=
  ∃ k n, w.presentedAt = some k ∧ lands = some n ∧ k + n ≤ i

/-- The disk at moment `i`: the one recorded, or after the run the one it ended with. -/
def HostWorld.diskAt (w : HostWorld) (i : ℕ) : Disk := w.moments.getD i w.disk

/-- A container of the secret is at the temporary path or at the final one. In either place it can
be opened again. -/
def HoldsKey (input : OnboardingInput) (secret : List UInt8) (disk : Disk) : Prop :=
  ∃ passphrase metadata,
    disk (tempPathOf input.keystorePath) = some (.container secret passphrase metadata) ∨
      disk input.keystorePath = some (.container secret passphrase metadata)

/-- Whenever the transaction is on the chain, the key is on the disk, however the run goes on or
ends. -/
def NeverLost (o : Outcomes) (input : OnboardingInput) (disk : Disk) (lands : Option ℕ) : Prop :=
  ∀ key, o.generateKey = .ok key → ∀ i, Installed lands (worldOf (onboard o input disk)) i →
    HoldsKey input (utf8 key.wif) ((worldOf (onboard o input disk)).diskAt i)

/-- The transaction never lands, or the authority never gets the request, or the key is verified
within the session and its promotion finds the final path free, or the container cannot be
removed, or the key was at the final path before. -/
def KeepsKey (o : Outcomes) (input : OnboardingInput) (disk : Disk) (lands : Option ℕ) : Prop :=
  lands = none ∨ (∀ file, ¬ Sealed o input disk file) ∨
    (¬ ∃ request, o.buildRequest = .ok request) ∨ (o.Verified ∧ Linked o input disk) ∨
    o.destroy ≠ none ∨
    ∃ key, o.generateKey = .ok key ∧ HoldsKey input (utf8 key.wif) disk

theorem diskAt_mem (h : w.moments = before ++ after) {i : ℕ} (hi : before.length ≤ i) :
    w.diskAt i ∈ after ∨ w.diskAt i = w.disk := by
  unfold HostWorld.diskAt
  by_cases hlt : i < w.moments.length
  · left
    rw [List.getD_eq_getElem _ _ hlt]
    have hlen : i - before.length < after.length := by
      have htotal : w.moments.length = before.length + after.length := by
        rw [h, List.length_append]
      omega
    have hget : w.moments[i] = after[i - before.length] := by
      simp only [h]
      rw [List.getElem_append_right hi]
    rw [hget]
    exact List.getElem_mem hlen
  · right
    exact List.getD_eq_default _ _ (by omega)

theorem holdsKey_sealed {key : KeyPair} {passphrase : List UInt8} {createdAt : JsString}
    (hfile : file = sealedFile input key passphrase createdAt) {d : Disk}
    (hd : d = tempDisk disk input file ∨ d = bothDisk disk input file ∨
      d = finalDisk disk input file) : HoldsKey input (utf8 key.wif) d := by
  subst hfile
  refine ⟨passphrase, ⟨key.publicKey, input.exportPolicy, input.chain, input.agent,
    input.permission, createdAt⟩, ?_⟩
  rcases hd with rfl | rfl | rfl
  · exact Or.inl (tempDisk_temp ..)
  · exact Or.inl (bothDisk_temp ..)
  · exact Or.inr finalDisk_final

/-- **A key is kept** whenever its transaction is on the chain, whatever the moment it lands,
exactly under `KeepsKey`. The outcomes of the steps, the disk before the run and the moment of
landing are arbitrary. -/
theorem neverLost_iff (o : Outcomes) (input : OnboardingInput) (disk : Disk) (lands : Option ℕ) :
    NeverLost o input disk lands ↔ KeepsKey o input disk lands := by
  rcases onboard_cases o input disk with
    ⟨e, w, hrun, -, hat, -, hno, -⟩ | ⟨e, w, content, hrun, -, hat, -, hno, -⟩ |
    ⟨file, w, before, after, hsealed, -, hs⟩
  · refine ⟨fun _ => Or.inr (Or.inl hno), ?_⟩
    rintro - key - i ⟨k, n, hk, -⟩
    rw [hrun, worldOf, hat] at hk
    exact nomatch hk
  · refine ⟨fun _ => Or.inr (Or.inl hno), ?_⟩
    rintro - key - i ⟨k, n, hk, -⟩
    rw [hrun, worldOf, hat] at hk
    exact nomatch hk
  obtain ⟨key, passphrase, createdAt, hready, hfile⟩ := hsealed.1
  unfold NeverLost
  rw [hs.ending.world]
  constructor
  · intro h
    by_contra hnot
    unfold KeepsKey at hnot
    simp only [not_or, not_not] at hnot
    obtain ⟨hlands, -, hbuilt, hver, hdestroy, hnew⟩ := hnot
    obtain ⟨n, hn⟩ := Option.ne_none_iff_exists'.1 hlands
    obtain ⟨k, hk⟩ := hs.built.2 hbuilt
    -- at the end of the run, or when the transaction lands after it, the disk is as before it
    have hlast : w.diskAt (k + n + w.moments.length) = w.disk :=
      List.getD_eq_default _ _ (by omega)
    have hkept := h key hready.generateKey _ ⟨k, n, hk, hn, Nat.le_add_right _ w.moments.length⟩
    rw [hlast] at hkept
    have hdisk : w.disk = disk := by
      cases hend : onboard o input disk with
      | ok result w' =>
        have hending := hs.ending
        rw [hend] at hending
        cases hending with
        | promoted _ hv hlink _ _ _ => exact absurd ⟨hv, hlink⟩ hver
      | error e w' =>
        have hending := hs.ending
        rw [hend] at hending
        cases hending with
        | destroyed _ _ _ hdisk _ => exact hdisk
        | left _ _ hfault _ _ => exact absurd hdestroy hfault
        | half _ hv hlink _ _ _ => exact absurd ⟨hv, hlink⟩ hver
    rw [hdisk] at hkept
    exact hnew ⟨key, hready.generateKey, hkept⟩
  · rintro hcond key' hkey' i ⟨k, n, hk, hn, hle⟩
    obtain rfl : key = key' := Except.ok.inj (hready.generateKey.symm.trans hkey')
    have hi : before.length ≤ i := by
      have hfirst := hs.presented k hk
      omega
    have hmem := diskAt_mem hs.moments hi
    have hkeeps : o.Verified ∧ Linked o input disk ∨ o.destroy ≠ none ∨
        HoldsKey input (utf8 key.wif) disk := by
      rcases hcond with hnone | hun | hbuilt | hver | hfault | ⟨key', hkey', hheld⟩
      · exact nomatch hnone.symm.trans hn
      · exact absurd hsealed (hun file)
      · exact absurd (hs.built.1 ⟨k, hk⟩) hbuilt
      · exact Or.inl hver
      · exact Or.inr (Or.inl hfault)
      · obtain rfl : key = key' := Except.ok.inj (hready.generateKey.symm.trans hkey')
        exact Or.inr (Or.inr hheld)
    have hending := hs.ending
    generalize onboard o input disk = r at hending
    cases hending with
    | destroyed e hnot hok hdisk hafter =>
      have hheld : HoldsKey input (utf8 key.wif) disk :=
        (hkeeps.resolve_left hnot).resolve_left fun h => h hok
      rcases hmem with hmem | hmem
      · rcases hafter _ hmem with hd | hd
        · exact holdsKey_sealed hfile (Or.inl hd)
        · rw [hd]
          exact hheld
      · rw [hmem, hdisk]
        exact hheld
    | left e _ _ hdisk hafter =>
      rcases hmem with hmem | hmem
      · exact holdsKey_sealed hfile (Or.inl (hafter _ hmem))
      · exact holdsKey_sealed hfile (Or.inl (hmem.trans hdisk))
    | half e _ _ _ hdisk hafter =>
      rcases hmem with hmem | hmem
      · exact holdsKey_sealed hfile (hafter _ hmem)
      · rw [hmem]
        exact holdsKey_sealed hfile (Or.inr hdisk)
    | promoted result _ _ _ hdisk hafter =>
      rcases hmem with hmem | hmem
      · exact holdsKey_sealed hfile (hafter _ hmem)
      · exact holdsKey_sealed hfile (Or.inr (Or.inr (hmem.trans hdisk)))

namespace BotKey

/-- The key is destroyed when the transaction lands after the session, and when it landed and was
verified but the final path is taken. -/
theorem key_lost :
    ¬ NeverLost { smooth with waitForConfirmation := .ok none } bot (fun _ => none) (some 9) ∧
    ¬ NeverLost smooth bot (fun path => if path = js "k" then some (.other []) else none)
      (some 0) := by
  constructor
  · intro h
    obtain ⟨passphrase, metadata, htemp | hfinal⟩ := h ⟨js "PVT", js "PUB"⟩ rfl 30
      ⟨12, 9, rfl, rfl, by decide⟩
    · exact nomatch htemp
    · exact nomatch hfinal
  · intro h
    obtain ⟨passphrase, metadata, htemp | hfinal⟩ := h ⟨js "PVT", js "PUB"⟩ rfl 30
      ⟨12, 0, rfl, rfl, by decide⟩
    · exact nomatch htemp
    · exact nomatch hfinal

end BotKey

end Signbox

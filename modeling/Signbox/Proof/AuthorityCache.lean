import Signbox.Proof.Rollback
import Signbox.Spec.AuthorityCache
import Signbox.Spec.Decode

/-!
# How long an authorization is believed

What the cache remembers of a binding is what the last check of that binding has stored, with
the time at which the check began; so an authorization that is believed was confirmed by a
resolver call that is not older than the freshness bound. The checks of other bindings do not
matter, as long as no account and no permission has the separator of the composite key in it.

* `cacheKey_inj`: the composite key separates such bindings.
* `entry_last`: what is remembered after a run.
* `authority_bounded`: the bound, the failures, and the independence of the bindings.
-/

namespace Signbox

open Async Guard

namespace AuthorityCache

abbrev AuthorityWorld := World AuthorityCache Frame

abbrev AuthorityEvent := Event Request Reply KeyBinding

variable {opts : AuthorityCacheOptions} {cache : AuthorityCache} {b c : KeyBinding} {now s : ℤ}
variable {w : AuthorityWorld} {e : AuthorityEvent} {es : List AuthorityEvent}
variable {h h' : List (AuthorityWorld × AuthorityEvent)} {t : ℕ}

/-! ## Composite keys -/

/-- The separator is in neither name. The key may have any text, since it comes last. -/
def Plain (b : KeyBinding) : Prop := 0x1f ∉ b.account ∧ 0x1f ∉ b.permission

instance (b : KeyBinding) : Decidable (Plain b) := inferInstanceAs (Decidable (_ ∧ _))

/-- A text is split in one way at a separator that the front does not have. -/
theorem append_sep_inj {x : UInt16} {f g u v : JsString} (hf : x ∉ f) (hg : x ∉ g)
    (heq : f ++ x :: u = g ++ x :: v) : f = g ∧ u = v := by
  induction f generalizing g with
  | nil =>
    cases g with
    | nil => exact ⟨rfl, (List.cons.inj heq).2⟩
    | cons y g => exact absurd (by rw [(List.cons.inj heq).1]; simp) hg
  | cons y f ih =>
    cases g with
    | nil => exact absurd (by rw [(List.cons.inj heq).1]; simp) hf
    | cons z g =>
      rw [List.mem_cons, not_or] at hf hg
      obtain ⟨hhead, htail⟩ := List.cons.inj heq
      obtain ⟨hfg, huv⟩ := ih hf.2 hg.2 htail
      exact ⟨by rw [hhead, hfg], huv⟩

theorem cacheKey_inj (hb : Plain b) (hc : Plain c) (heq : cacheKey b = cacheKey c) : b = c := by
  have hsplit : ∀ b : KeyBinding, cacheKey b =
      b.account ++ 0x1f :: (b.permission ++ 0x1f :: b.expectedPublicKey) := by
    intro b
    simp [cacheKey, JsString.join, SEP]
  rw [hsplit, hsplit] at heq
  obtain ⟨haccount, hrest⟩ := append_sep_inj hb.1 hc.1 heq
  obtain ⟨hpermission, hkey⟩ := append_sep_inj hb.2 hc.2 hrest
  obtain ⟨account, permission, key⟩ := b
  obtain ⟨account', permission', key'⟩ := c
  simp only at haccount hpermission hkey
  rw [haccount, hpermission, hkey]

/-- The identity check lets only names of the chain through, and no name has the separator. -/
theorem plain_of_names (haccount : NAME_PATTERN b.account = true)
    (hpermission : NAME_PATTERN b.permission = true) : Plain b := by
  have hname : ∀ {name : JsString}, NAME_PATTERN name = true → 0x1f ∉ name := by
    intro name h hmem
    simp only [NAME_PATTERN, matchesClass, Bool.and_eq_true, List.all_eq_true] at h
    exact absurd (h.2 _ hmem) (by decide)
  exact ⟨hname haccount, hname hpermission⟩

/-- The binding an event is about; a reply is about the check it resumes. -/
def about : AuthorityEvent → Option KeyBinding
  | .start request => some request.binding
  | .resume _ _ => none
  | .admin b => some b

/-- No name in the run has the separator in it, whether in a check or in an invalidation. -/
def PlainRun (es : List AuthorityEvent) : Prop := ∀ e ∈ es, ∀ b, about e = some b → Plain b

/-! ## Suspended checks -/

/-- Task `t` is a check of the binding that began at `now`. -/
def Began (h : List (AuthorityWorld × AuthorityEvent)) (t : ℕ) (b : KeyBinding) (now : ℤ) : Prop :=
  ∃ w, (w, .start ⟨b, now⟩) ∈ h ∧ w.started = t

/-- Task `t` called the resolver for the binding, at `now`. A check that is answered from the cache
does not. -/
def Called (opts : AuthorityCacheOptions) (h : List (AuthorityWorld × AuthorityEvent)) (t : ℕ)
    (b : KeyBinding) (now : ℤ) : Prop :=
  ∃ w, (w, .start ⟨b, now⟩) ∈ h ∧ (t, .effect (.resolve b)) ∈ (machine opts).outputs w (.start ⟨b, now⟩)

theorem Called.mono (hc : Called opts h t b now) (hsub : h ⊆ h') : Called opts h' t b now := by
  obtain ⟨w, hmem, ht⟩ := hc
  exact ⟨w, hsub hmem, ht⟩

theorem Called.began (hc : Called opts h t b now) : Began h t b now := by
  obtain ⟨w, hmem, hout⟩ := hc
  obtain ⟨seg, hseg, -⟩ := mem_outputs.1 hout
  simp only [segment?_start, Option.some.injEq, Prod.mk.injEq] at hseg
  exact ⟨w, hmem, hseg.1⟩

theorem Began.mem (hb : Began ((machine opts).history w es) t b now) : .start ⟨b, now⟩ ∈ es := by
  obtain ⟨w', hmem, -⟩ := hb
  obtain ⟨pre, post, hes, -⟩ := history_split hmem
  rw [hes]
  simp

/-- A suspended check has called the resolver. -/
theorem frames_called (es : List AuthorityEvent) :
    ∀ tf ∈ ((machine opts).run (boot ⟨[]⟩) es).tasks,
      Called opts ((machine opts).history (boot ⟨[]⟩) es) tf.1 tf.2.binding tf.2.now := by
  refine frames_hold (K := fun h t f => Called opts h t f.binding f.now) ?_ ?_ (wf_boot _)
    (by simp [boot]) es
  · exact fun h x t f hc => hc.mono (List.subset_append_left _ _)
  · intro h w e t seg f _ _ hseg hnext
    rcases segment?_cases hseg with ⟨i, rfl, rfl, rfl⟩ | ⟨f', r, rfl, -, hres⟩
    · obtain ⟨b, now⟩ := i
      change (startCheck opts w.shared b now).next = .inl f at hnext
      have hframe : f = ⟨b, now⟩ ∧ .effect (.resolve b) ∈
          (startCheck opts w.shared b now).outputs := by
        unfold startCheck at hnext ⊢
        cases hcached : w.shared.cachedResult opts b now with
        | some result =>
          rw [hcached] at hnext
          cases hnext
        | none =>
          rw [hcached] at hnext
          cases hnext
          exact ⟨rfl, by simp [Segment.outputs]⟩
      rw [hframe.1]
      exact ⟨w, by simp, mem_outputs.2 ⟨_, rfl, hframe.2⟩⟩
    · cases hres
      cases hnext

/-! ## What is remembered -/

/-- What a step writes for the binding: what the end of its check stores, or that it is dropped.
Steps for other bindings write nothing. -/
def own (b : KeyBinding) (x : AuthorityWorld × AuthorityEvent) : Option (Option AuthorityEntry) :=
  match x.2 with
  | .start _ => none
  | .resume t reply =>
    (x.1.tasks.lookup t).bind fun f =>
      if f.binding = b then some (some ⟨outcome reply, f.now⟩) else none
  | .admin b' => if b' = b then some none else none

theorem lookup_store {result : KeyAuthorityResult} (key : JsString) :
    (cache.store b result now).entries.lookup key =
      if key = cacheKey b then some ⟨result, now⟩ else cache.entries.lookup key :=
  lookup_mapSet _ _ _ _

theorem lookup_invalidate (key : JsString) : (cache.invalidate b).entries.lookup key =
    if key = cacheKey b then none else cache.entries.lookup key := by
  have hfilter := lookup_filter (fun k => decide (k ≠ cacheKey b)) cache.entries key
  by_cases heq : key = cacheKey b <;> simpa [invalidate, heq] using hfilter

/-- **One step** changes what is remembered of a binding only through its own checks. Other
bindings have other keys in the cache, which is where the separator must not occur in a name. -/
theorem lookup_next (hframes : ∀ tf ∈ w.tasks, Plain tf.2.binding)
    (hplain : ∀ b, about e = some b → Plain b) (hb : Plain b) :
    ((machine opts).next w e).shared.entries.lookup (cacheKey b) =
      (own b (w, e)).getD (w.shared.entries.lookup (cacheKey b)) := by
  cases e with
  | start i =>
    have hsame : ((machine opts).next w (.start i)).shared = w.shared := by
      change (startCheck opts w.shared i.binding i.now).state = w.shared
      unfold startCheck
      split <;> rfl
    rw [hsame]
    rfl
  | resume t reply =>
    cases hf : w.tasks.lookup t with
    | none =>
      have hsame : (machine opts).next w (.resume t reply) = w := by
        simp [Machine.next, Machine.segment?, hf]
      rw [hsame]
      simp [own, hf]
    | some f =>
      have hseg : (machine opts).segment? w (.resume t reply) =
          some (t, endCheck w.shared f reply) := segment?_resume.2 ⟨rfl, f, hf, rfl⟩
      have hstate : ((machine opts).next w (.resume t reply)).shared =
          w.shared.store f.binding (outcome reply) f.now := next_shared hseg
      rw [hstate, lookup_store]
      by_cases heq : f.binding = b
      · simp [own, hf, heq]
      · have hne : cacheKey b ≠ cacheKey f.binding := fun hkey =>
          heq (cacheKey_inj hb (hframes _ (mem_of_lookup hf)) hkey).symm
        simp [own, hf, heq, hne]
  | admin b' =>
    change (w.shared.invalidate b').entries.lookup (cacheKey b) = _
    rw [lookup_invalidate]
    by_cases heq : b' = b
    · simp [own, heq]
    · have hne : cacheKey b ≠ cacheKey b' := fun hkey =>
        heq (cacheKey_inj hb (hplain b' rfl) hkey).symm
      simp [own, heq, hne]

theorem frames_plain (hplain : PlainRun es) :
    ∀ tf ∈ ((machine opts).run (boot ⟨[]⟩) es).tasks, Plain tf.2.binding := by
  intro tf htf
  exact hplain _ (frames_called es tf htf).began.mem _ rfl

/-- **What is remembered after a run**: the last that a check of the binding has stored, unless
it was dropped since. -/
theorem entry_last (hplain : PlainRun es) (hb : Plain b) :
    ((machine opts).run (boot ⟨[]⟩) es).shared.entries.lookup (cacheKey b) =
      (((machine opts).history (boot ⟨[]⟩) es).filterMap (own b)).getLast?.join := by
  induction es using List.reverseRecOn with
  | nil => rfl
  | append_singleton es e ih =>
    have hinit : PlainRun es := fun e' he' => hplain e' (List.mem_append_left _ he')
    have hlast : ∀ b, about e = some b → Plain b := hplain e (by simp)
    rw [run_snoc, history_snoc, lookup_next (frames_plain hinit) hlast hb, ih hinit,
      List.filterMap_append]
    cases hown : own b ((machine opts).run (boot ⟨[]⟩) es, e) with
    | none => simp [hown]
    | some entry => simp [hown]

/-! ## What a check returns -/

/-- A later check does not begin at an earlier time. -/
def inOrder : AuthorityEvent → AuthorityEvent → Bool
  | .start request, .start request' => decide (request.now ≤ request'.now)
  | _, _ => true

/-- The clock is monotone. -/
def Clocked (es : List AuthorityEvent) : Prop := es.Pairwise fun e e' => inOrder e e' = true

/-- The resolver was called for the binding by task `t`, at `now`, and confirmed it. The answer is
that of this very call. -/
def Confirmed (opts : AuthorityCacheOptions) (h : List (AuthorityWorld × AuthorityEvent)) (t : ℕ)
    (b : KeyBinding) (now : ℤ) : Prop :=
  Called opts h t b now ∧ ∃ w result, (w, .resume t (.resolved result)) ∈ h ∧
    w.tasks.lookup t = some ⟨b, now⟩ ∧ result.authorized = true

theorem Confirmed.mono (hc : Confirmed opts h t b now) (hsub : h ⊆ h') :
    Confirmed opts h' t b now := by
  obtain ⟨hcalled, w, result, hmem, hrest⟩ := hc
  exact ⟨hcalled.mono hsub, w, result, hsub hmem, hrest⟩

/-- A reply that is read as an authorization is one. -/
theorem confirmed_of_outcome {reply : Reply} (ht : w.tasks.lookup t = some ⟨b, now⟩)
    (hcalled : Called opts h t b now) (hmem : (w, .resume t reply) ∈ h)
    (hauth : (outcome reply).authorized = true) : Confirmed opts h t b now := by
  cases reply with
  | resolved result => exact ⟨hcalled, w, result, hmem, ht, hauth⟩
  | failed => cases hauth

/-- An authorization that is remembered was confirmed at the time it carries. -/
theorem entry_confirmed {result : KeyAuthorityResult} (hplain : PlainRun es) (hb : Plain b)
    (hentry : ((machine opts).run (boot ⟨[]⟩) es).shared.entries.lookup (cacheKey b) =
      some ⟨result, s⟩) (hauth : result.authorized = true) :
    ∃ t, Confirmed opts ((machine opts).history (boot ⟨[]⟩) es) t b s := by
  rw [entry_last hplain hb, Option.join_eq_some_iff] at hentry
  obtain ⟨⟨w, e⟩, hmem, hown⟩ := List.mem_filterMap.1 (List.mem_of_getLast? hentry)
  cases e with
  | start i => cases hown
  | resume t reply =>
    obtain ⟨f, hf, hwrite⟩ := Option.bind_eq_some_iff.1 hown
    rw [Option.ite_none_right_eq_some, Option.some.injEq, Option.some.injEq,
      AuthorityEntry.mk.injEq] at hwrite
    obtain ⟨rfl, rfl, rfl⟩ := hwrite
    obtain ⟨pre, post, hes, hw⟩ := history_split hmem
    have hframe : ((machine opts).run (boot ⟨[]⟩) pre).tasks.lookup t = some f := by
      rw [← hw]
      exact hf
    have hcalled := frames_called pre _ (mem_of_lookup hframe)
    refine ⟨t, confirmed_of_outcome (w := w) hf (hcalled.mono ?_) hmem hauth⟩
    rw [hes, history_append]
    exact List.subset_append_left _ _
  | admin b' =>
    unfold own at hown
    simp at hown

theorem startCheck_done {result : KeyAuthorityResult}
    (hdone : (startCheck opts cache b now).next = .inr result) :
    ∃ s, cache.entries.lookup (cacheKey b) = some ⟨result, s⟩ ∧ now - s < ttl opts result := by
  unfold startCheck at hdone
  cases hcached : cache.cachedResult opts b now with
  | none =>
    rw [hcached] at hdone
    cases hdone
  | some result' =>
    rw [hcached] at hdone
    cases hdone
    simp only [cachedResult, Option.map_eq_some_iff, Option.filter_eq_some_iff, decide_eq_true_eq]
      at hcached
    obtain ⟨⟨result, s⟩, ⟨hentry, hfresh⟩, rfl⟩ := hcached
    exact ⟨s, hentry, hfresh⟩

/-- What is remembered decides how a check goes on. -/
theorem startCheck_congr {cache' : AuthorityCache}
    (heq : cache.entries.lookup (cacheKey b) = cache'.entries.lookup (cacheKey b)) :
    (startCheck opts cache b now).next = (startCheck opts cache' b now).next := by
  have hcached : cache.cachedResult opts b now = cache'.cachedResult opts b now := by
    rw [cachedResult, cachedResult, heq]
  unfold startCheck
  rw [hcached]
  split <;> rfl

/-- An authorization that a check returns. -/
theorem returned_confirmed {result : KeyAuthorityResult} (hclock : Clocked (es ++ [e]))
    (hplain : PlainRun (es ++ [e]))
    (hout : (t, .done result) ∈ (machine opts).outputs ((machine opts).run (boot ⟨[]⟩) es) e)
    (hauth : result.authorized = true) :
    ∃ b now t' s, Began ((machine opts).history (boot ⟨[]⟩) (es ++ [e])) t b now ∧
      Confirmed opts ((machine opts).history (boot ⟨[]⟩) (es ++ [e])) t' b s ∧
      (t' = t ∨ s ≤ now ∧ now - s < opts.freshnessMs) := by
  have hsub : (machine opts).history (boot ⟨[]⟩) es ⊆
      (machine opts).history (boot ⟨[]⟩) (es ++ [e]) := by
    rw [history_snoc]
    exact List.subset_append_left _ _
  have hlast : ((machine opts).run (boot ⟨[]⟩) es, e) ∈
      (machine opts).history (boot ⟨[]⟩) (es ++ [e]) := by
    rw [history_snoc]
    simp
  obtain ⟨seg, hseg, hdone⟩ := mem_outputs.1 hout
  rw [done_mem_outputs] at hdone
  rcases segment?_cases hseg with ⟨i, rfl, rfl, rfl⟩ | ⟨f, reply, rfl, hf, hres⟩
  · obtain ⟨b, now⟩ := i
    obtain ⟨s, hentry, hfresh⟩ := startCheck_done hdone
    have hinit : PlainRun es := fun e' he' => hplain e' (List.mem_append_left _ he')
    obtain ⟨t', hconfirmed⟩ := entry_confirmed hinit
      (hplain (.start ⟨b, now⟩) (by simp) b rfl) hentry hauth
    have hle : s ≤ now := by
      have horder := (List.pairwise_append.1 hclock).2.2 _ hconfirmed.1.began.mem _
        (List.mem_singleton_self _)
      simpa [inOrder] using horder
    rw [ttl, if_pos hauth] at hfresh
    exact ⟨b, now, t', s, ⟨_, hlast, rfl⟩, hconfirmed.mono hsub, Or.inr ⟨hle, hfresh⟩⟩
  · cases hres
    cases hdone
    have hcalled := (frames_called es _ (mem_of_lookup hf)).mono hsub
    exact ⟨f.binding, f.now, t, f.now, hcalled.began,
      confirmed_of_outcome hf hcalled hlast hauth, Or.inl rfl⟩

end AuthorityCache

open AuthorityCache in
/-- **The bound of the key-authority cache.** With a monotone clock and no separator in a name, in
any interleaving: a check that returns authorized was confirmed by a resolver call for its binding
that it made itself or that began less than the freshness bound before it; a failure of the
resolver is not an authorization; and how a check of a binding goes on depends on what the checks
of that binding have stored, and on nothing else. -/
theorem authority_bounded (opts : AuthorityCacheOptions) (es : List AuthorityEvent)
    (hclock : Clocked es) (hplain : PlainRun es) :
    (∀ pre e post, es = pre ++ e :: post → ∀ t result,
      (t, .done result) ∈ (machine opts).outputs ((machine opts).run (boot ⟨[]⟩) pre) e →
        (result.authorized = true → ∃ b now t' s,
          Began ((machine opts).history (boot ⟨[]⟩) (pre ++ [e])) t b now ∧
          Confirmed opts ((machine opts).history (boot ⟨[]⟩) (pre ++ [e])) t' b s ∧
          (t' = t ∨ s ≤ now ∧ now - s < opts.freshnessMs)) ∧
        (e = .resume t .failed → result.authorized = false)) ∧
    ∀ es', PlainRun es' → ∀ b, AuthorityCache.Plain b →
      ((machine opts).history (boot ⟨[]⟩) es).filterMap (own b) =
        ((machine opts).history (boot ⟨[]⟩) es').filterMap (own b) →
      ∀ now, ((machine opts).start ⟨b, now⟩ ((machine opts).run (boot ⟨[]⟩) es).shared).next =
        ((machine opts).start ⟨b, now⟩ ((machine opts).run (boot ⟨[]⟩) es').shared).next := by
  refine ⟨fun pre e post hes t result hout => ⟨fun hauth => ?_, ?_⟩, ?_⟩
  · have hsplit : es = (pre ++ [e]) ++ post := by rw [hes]; simp
    rw [hsplit] at hclock hplain
    exact returned_confirmed (List.pairwise_append.1 hclock).1
      (fun e' he' => hplain e' (List.mem_append_left _ he')) hout hauth
  · rintro rfl
    obtain ⟨seg, hseg, hdone⟩ := mem_outputs.1 hout
    obtain ⟨-, f, -, hres⟩ := segment?_resume.1 hseg
    cases hres
    rw [done_mem_outputs] at hdone
    cases hdone
    rfl
  · intro es' hplain' b hb hown now
    refine startCheck_congr ?_
    rw [entry_last hplain hb, entry_last hplain' hb, hown]

/-! ## Runs -/

namespace Bound

open AuthorityCache

/-- The binding of an agent, as the identity check lets it pass. -/
def bot : KeyBinding := ⟨js "bot", js "active", js "PUB_K1_bot"⟩

/-- A check that the resolver confirms, and another ten seconds later. -/
def twice : List AuthorityEvent :=
  [.start ⟨bot, 1000⟩, .resume 0 (.resolved ⟨true, none⟩), .start ⟨bot, 11000⟩]

/-- The second check of the agent's binding is confirmed: by a call of its own, or by one that
began less than the freshness bound before it. -/
theorem authority_bounded_bot : ∃ b now t' s,
    Began ((machine DEFAULTS).history (boot ⟨[]⟩) twice) 1 b now ∧
      Confirmed DEFAULTS ((machine DEFAULTS).history (boot ⟨[]⟩) twice) t' b s ∧
      (t' = 1 ∨ s ≤ now ∧ now - s < DEFAULTS.freshnessMs) := by
  have hplain : PlainRun twice := by
    unfold PlainRun
    simp only [twice, List.forall_mem_cons, about, Option.some.injEq, forall_eq', reduceCtorEq,
      IsEmpty.forall_iff, implies_true, List.not_mem_nil, and_true, true_and]
    exact ⟨plain_of_names (by decide) (by decide), plain_of_names (by decide) (by decide)⟩
  have hclock : Clocked twice := by
    unfold Clocked twice
    simp [inOrder]
  exact ((authority_bounded DEFAULTS twice hclock hplain).1 (twice.take 2) (.start ⟨bot, 11000⟩) []
    rfl 1 ⟨true, none⟩ (mem_outputs.2 ⟨_, rfl, done_mem_outputs.2 rfl⟩)).1 rfl

/-- Two bindings with one key: the separator is in a name of each. -/
def left : KeyBinding := ⟨js "a" ++ 0x1f :: js "b", js "c", js "k"⟩

def right : KeyBinding := ⟨js "a", js "b" ++ 0x1f :: js "c", js "k"⟩

/-- **Names with the separator.** The resolver confirms the one binding, and a check of the other
returns the authorization without a call of its own. -/
theorem shared_key : left ≠ right ∧
    (1, .done ⟨true, none⟩) ∈ (machine DEFAULTS).outputs ((machine DEFAULTS).run (boot ⟨[]⟩)
      [.start ⟨left, 1000⟩, .resume 0 (.resolved ⟨true, none⟩)]) (.start ⟨right, 1000⟩) ∧
    ∀ t s, ¬ Called DEFAULTS ((machine DEFAULTS).history (boot ⟨[]⟩) [.start ⟨left, 1000⟩,
      .resume 0 (.resolved ⟨true, none⟩), .start ⟨right, 1000⟩]) t right s := by
  refine ⟨by decide, mem_outputs.2 ⟨_, rfl, done_mem_outputs.2 rfl⟩, ?_⟩
  rintro t s ⟨w, hmem, hout⟩
  simp only [Machine.history, List.mem_cons, Prod.mk.injEq, Event.start.injEq, Request.mk.injEq,
    reduceCtorEq, and_false, List.not_mem_nil, or_false, false_or] at hmem
  rcases hmem with ⟨-, hleft, -⟩ | ⟨rfl, -, rfl⟩
  · exact absurd hleft.symm (by decide)
  · obtain ⟨seg, hseg, heffect⟩ := mem_outputs.1 hout
    cases hseg
    rw [effect_mem_outputs] at heffect
    cases heffect

end Bound

end Signbox

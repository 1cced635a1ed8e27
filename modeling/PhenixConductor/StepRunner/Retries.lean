import PhenixConductor.StepRunner.Calls

/-! # How many retries there are

A retry passes the walk over its ancestors, which counts one lineage.
-/
namespace PhenixConductor.StepRunner
open Collections Execution AttemptLedger
variable {Route Output : Type}

section Ledgers
variable {before next : AttemptLedger StepPlan Route} {attribution : UsageAttribution}
  {root : String} {limit : ℕ}

/-- An attempt stands under its own name, and its parent is there. -/
structure Lineal (attempts : AttemptLedger StepPlan Route) : Prop where
  named : ∀ id attribution, attempts.attributionOf id = some attribution →
    attribution.attemptId = id
  parented : ∀ id attribution parentId, attempts.attributionOf id = some attribution →
    attribution.parentAttemptId = some parentId → attempts.attributionOf parentId ≠ none

theorem lineal_empty : Lineal (empty : AttemptLedger StepPlan Route) where
  named id attribution h := by simp [empty, attributionOf] at h
  parented id attribution parentId h := by
    simp [empty, attributionOf] at h

theorem Lineal.same (h : Lineal before) (hsame : before.SameAttempts next) : Lineal next where
  named id attribution hget := h.named id attribution ((hsame id).symm.trans hget)
  parented id attribution parentId hget hparent := by
    rw [hsame parentId]
    exact h.parented id attribution parentId ((hsame id).symm.trans hget) hparent

theorem Lineal.creates (h : Lineal before) (hcreates : before.Creates attribution next) :
    Lineal next where
  named id found hget := by
    rw [hcreates.attributionOf] at hget
    split_ifs at hget with hid
    · cases hget
      exact hid.symm
    · exact h.named id found hget
  parented id found parentId hget hparent := by
    have hkept : before.attributionOf parentId ≠ none → next.attributionOf parentId ≠ none := by
      intro hknown
      rw [hcreates.attributionOf]
      split_ifs
      · simp
      · exact hknown
    apply hkept
    rw [hcreates.attributionOf] at hget
    split_ifs at hget with hid
    · cases hget
      obtain ⟨parent,hfound,-⟩ := hcreates.admits.parent parentId hparent
      simp [attributionOf, hfound]
    · exact h.parented id found parentId hget hparent

/-- Each attempt is retried once, and no lineage is longer than the limit. -/
structure Chain (attempts : AttemptLedger StepPlan Route) (root : String) (limit : ℕ) : Prop where
  unbranched : Unbranched attempts.retryOf root
  short : ∀ x n, Generation attempts.retryOf root x n → n ≤ limit

theorem Chain.same (h : Chain before root limit) (hsame : before.SameAttempts next) :
    Chain next root limit := by
  constructor
  · rw [hsame.retryOf]
    exact h.unbranched
  · rw [hsame.retryOf]
    exact h.short

theorem retryOf_creates (hcreates : before.Creates attribution next) (id : String) :
    next.retryOf id = if id = attribution.attemptId then
      if attribution.kind = .retry then attribution.parentAttemptId else none
      else before.retryOf id := by
  unfold retryOf
  rw [hcreates.attributionOf]
  split_ifs <;> simp_all

/-- Nobody is a retry of an attempt that is created only now. -/
theorem not_retryOf_created (hlineal : Lineal before) (hcreates : before.Creates attribution next)
    (id : String) : next.retryOf id ≠ some attribution.attemptId := by
  intro h
  rw [retryOf_creates hcreates] at h
  split_ifs at h with hid hkind
  · obtain ⟨parent,hfound,-⟩ := hcreates.admits.parent _ h
    have hfresh := hcreates.admits.fresh
    simp [attributionOf, hfound] at hfresh
  · unfold retryOf at h
    obtain ⟨found,hget,hparent⟩ := Option.bind_eq_some_iff.mp h
    split_ifs at hparent
    exact hlineal.parented id found _ hget hparent hcreates.admits.fresh

/-- A member of the lineage after the creation was one before, or is the created attempt. -/
theorem generation_creates (hlineal : Lineal before)
    (hcreates : before.Creates attribution next) {x : String} {n : ℕ}
    (h : Generation next.retryOf root x n) :
    Generation before.retryOf root x n ∨ x = attribution.attemptId ∧
      ∃ parentId m, attribution.kind = .retry ∧ attribution.parentAttemptId = some parentId ∧
        Generation before.retryOf root parentId m ∧ n = m + 1 := by
  induction h with
  | root => exact .inl .root
  | @child x p n above hparent ih =>
    rcases ih with habove | ⟨rfl,-⟩
    · rw [retryOf_creates hcreates] at hparent
      split_ifs at hparent with hx hkind
      · exact .inr ⟨hx,p,n,hkind,hparent,habove,rfl⟩
      · exact .inl (.child habove hparent)
    · exact absurd hparent (not_retryOf_created hlineal hcreates x)

theorem Chain.creates (h : Chain before root limit) (hlineal : Lineal before)
    (hcreates : before.Creates attribution next)
    (hfirst : attribution.kind = .retry → ∀ id,
      before.retryOf id ≠ attribution.parentAttemptId)
    (hlimit : attribution.kind = .retry → ∀ parentId n,
      attribution.parentAttemptId = some parentId →
      Generation before.retryOf root parentId n → n + 1 ≤ limit) : Chain next root limit where
  unbranched x y p hp hx hy := by
    obtain ⟨n,hp⟩ := hp
    rcases generation_creates hlineal hcreates hp with hp | ⟨rfl,-⟩
    · rw [retryOf_creates hcreates] at hx hy
      split_ifs at hx hy with hxnew hkind hynew hynew hkind
      · exact hxnew.trans hynew.symm
      · exact absurd (hy.trans hx.symm) (hfirst hkind y)
      · exact absurd (hx.trans hy.symm) (hfirst hkind x)
      · exact h.unbranched x y p ⟨n,hp⟩ hx hy
    · exact absurd hx (not_retryOf_created hlineal hcreates x)
  short x n hx := by
    rcases generation_creates hlineal hcreates hx with hx | ⟨-,parentId,m,hkind,hparent,hm,rfl⟩
    · exact h.short x n hx
    · exact hlimit hkind parentId m hparent hm

/-- The attempts of a root, by their names. -/
theorem attributionOf_of_byAttemptId (hlineal : Lineal before) {rootExecutionId id : String}
    {attempt : StepAttemptRecord StepPlan Route}
    (h : (byAttemptId (before.listRoot rootExecutionId)).get? id = some attempt) :
    before.attributionOf id = some attempt.attribution := by
  have hstored : ∀ attempt ∈ before.listRoot rootExecutionId,
      before.attempts.get? attempt.attribution.attemptId = some attempt := by
    intro attempt hmem
    obtain ⟨key,hget⟩ := before.attempts.mem_values.mp (List.mem_of_mem_filter hmem)
    have hnamed := hlineal.named key attempt.attribution
      (by simp [attributionOf, hget])
    rwa [hnamed]
  have hunique : ∀ k v w,
      (k,v) ∈ (before.listRoot rootExecutionId).map
        (fun attempt => (attempt.attribution.attemptId,attempt)) →
      (k,w) ∈ (before.listRoot rootExecutionId).map
        (fun attempt => (attempt.attribution.attemptId,attempt)) → v = w := by
    intro k v w hv hw
    obtain ⟨_,hfound,hpair⟩ := List.mem_map.mp hv
    cases hpair
    obtain ⟨other,hother,hpair⟩ := List.mem_map.mp hw
    obtain ⟨hname,rfl⟩ := Prod.mk.inj hpair
    have hsame := hname ▸ hstored other hother
    exact Option.some.inj ((hstored v hfound).symm.trans hsame)
  obtain ⟨found,hfound,hpair⟩ := List.mem_map.mp ((BTreeMap.get?_ofList hunique).mp h)
  cases hpair
  simp [attributionOf, hstored attempt hfound]

/-- The walk over a lineage counts all its generations, as long as the attempts are fewer than
the largest count. -/
theorem generation_lt_of_allows (hlineal : Lineal before) {plan : StepPlan}
    (hallows : LineageAllows before attribution plan) (hkind : attribution.kind = .retry)
    (hsize : before.attempts.keys.length < 2 ^ 32 - 1) {parentId : String} {n : ℕ}
    (hparent : attribution.parentAttemptId = some parentId)
    (hgeneration : Generation before.retryOf root parentId n) :
    n + 1 ≤ plan.retry.maxAttempts.val := by
  obtain ⟨fuel,found,hfound,hverdict⟩ := hallows hkind
  cases hparent.symm.trans hfound
  obtain ⟨walked,hwalked,hok⟩ := Option.map_eq_some_iff.mp hverdict
  obtain ⟨total,rfl,hlimit⟩ := bind_eq_ok.mp hok
  have hledger := fun id attempt => @attributionOf_of_byAttemptId _ before hlineal
    attribution.rootExecutionId id attempt
  have htotal := generation_le_of_lineageFrom hledger hgeneration hwalked
  have hcount := generation_le_unseen hledger hgeneration hwalked
  have hunseen : (unseen (byAttemptId (before.listRoot attribution.rootExecutionId)) []).length ≤
      before.attempts.keys.length := by
    refine (List.length_filter_le _ _).trans ((BTreeMap.length_keys_ofList_le _).trans ?_)
    rw [List.length_map]
    refine (List.length_filter_le _ _).trans ?_
    simp [BTreeMap.values]
  have hrequested : min (total.val + 1) (2 ^ 32 - 1) ≤ plan.retry.maxAttempts.val :=
    ensure_eq_ok.mp hlimit
  omega

theorem keys_le_of_creates (hcreates : before.Creates attribution next) :
    before.attempts.keys.length ≤ next.attempts.keys.length := by
  have hsubset : before.attempts.keys ⊆ next.attempts.keys := by
    intro id hid
    rw [BTreeMap.mem_keys_iff] at hid ⊢
    have hkept := hcreates.attributionOf id
    unfold attributionOf at hkept
    have hsome : ((next.attempts.get? id).map (·.attribution)).isSome := by
      rw [hkept]
      split_ifs
      · rfl
      · simpa using hid
    simpa using hsome
  exact (List.subperm_of_subset before.attempts.nodup_keys hsubset).length_le

end Ledgers

section Run
variable {world : World Route Output} {request : PlannedStepRequest}

/-- The attempts, whatever becomes of them, stay the same. -/
def Keeps (state after : RunnerState Route) : Prop :=
  state.services.attempts.SameAttempts after.services.attempts

instance keeps_refl : Std.Refl (Keeps : RunnerState Route → RunnerState Route → Prop) :=
  ⟨fun _ _ => rfl⟩

instance keeps_trans : IsTrans (RunnerState Route) Keeps :=
  ⟨fun _ _ _ hab hbc id => (hbc id).trans (hab id)⟩

variable {α : Type}

theorem moves_of_outcome {x : RunM Route α}
    (h : ∀ state, Outcome x state (fun _ after => Keeps state after) fun _ after => Keeps state after) :
    Moves Keeps x :=
  fun state => outcome_iff_after.mp (h state)

theorem moves_throw (failure : RunFailure) : Moves Keeps (throw failure : RunM Route α) :=
  fun _ _ => rfl

theorem moves_pure (a : α) : Moves Keeps (pure a : RunM Route α) := fun _ _ => rfl

variable {command : StepAttemptCommand Route}

theorem moves_callAttempts (hcommand : ∀ attribution plan, command ≠ .create attribution plan) :
    Moves Keeps (callAttempts world command) := by
  refine moves_of_outcome fun state => (callAttempts_outcome command).mono ?_ ?_
  · rintro response after ⟨next,hanswer,-,rfl⟩
    rcases answer_cases hanswer with ⟨attribution,plan,hcreate,-⟩ | ⟨-,hsame⟩
    · exact absurd hcreate (hcommand attribution plan)
    · exact hsame
  · rintro _ _ rfl _
    rfl

theorem moves_callResources (command : ExecutionResourceCommand) :
    Moves Keeps (callResources world command) := by
  refine moves_of_outcome fun state => (callResources_outcome command).mono ?_ ?_
  · rintro _ _ ⟨next,-,rfl⟩ _
    rfl
  · rintro _ _ rfl _
    rfl

theorem moves_callTransactions (command : StepTransactionCommand) :
    Moves Keeps (callTransactions world command) := by
  refine moves_of_outcome fun state => (callTransactions_outcome command).mono ?_ ?_
  · rintro _ _ ⟨services,attempt,-,hcloses,rfl⟩
    change state.services.attempts.SameAttempts services.attempts
    rw [hcloses.attempts]
    exact sameAttempts_put hcloses.closes.found rfl
  · rintro _ _ rfl _
    rfl

theorem moves_bindAttempt (hcommand : ∀ attribution plan, command ≠ .create attribution plan) :
    Moves Keeps (bindAttempt world command) := by
  refine (moves_callAttempts hcommand).bind fun response => ?_
  split
  · exact moves_pure _
  · exact moves_throw _

theorem moves_settleStep (rootExecutionId reservationId : String) (actual : BudgetActual)
    (attemptId : String) (outcome : AttemptOutcome) :
    Moves Keeps (settleStep world rootExecutionId reservationId actual attemptId outcome) := by
  refine (moves_callTransactions _).bind fun response => ?_
  split
  · exact moves_pure _
  · exact moves_throw _

theorem moves_failBeforeDispatch (attribution : UsageAttribution) (reservationId : Option String)
    (cause : RunFailure) :
    Moves Keeps (failBeforeDispatch world attribution reservationId cause : RunM Route α) := by
  refine Moves.bind (Moves.tryCatch ?_ fun _ => moves_throw _) fun _ => moves_throw _
  refine (moves_callTransactions _).bind fun response => ?_
  split
  · exact moves_pure _
  · exact moves_throw _

theorem moves_orAbort {reservationId : Option String} {describe : RunFailure → RunFailure}
    {x : RunM Route α} (h : Moves Keeps x) :
    Moves Keeps (orAbort world request reservationId describe x) :=
  h.tryCatch fun _ => moves_failBeforeDispatch _ _ _

theorem moves_reserveBudget (plan : StepPlan) (parentReservationId : Option String) :
    Moves Keeps (reserveBudget world request plan parentReservationId) := by
  refine (moves_check _).bind fun purpose => ?_
  refine (moves_orAbort (moves_callResources _)).bind fun reserved => ?_
  split
  · exact moves_pure _
  · exact moves_failBeforeDispatch _ _ _

theorem moves_bindContext (plan : StepPlan) : Moves Keeps (bindContext world request plan) := by
  unfold bindContext
  split_ifs
  · exact (moves_orAbort (moves_bindAttempt (by simp))).bind fun _ => moves_pure _
  · refine (moves_orAbort (moves_check _)).bind fun projection => ?_
    refine (moves_orAbort (moves_bindAttempt (by simp))).bind fun _ => ?_
    refine (moves_orAbort (moves_check _)).bind fun materialized => ?_
    exact (moves_orAbort (moves_check _)).bind fun _ => moves_pure _

theorem moves_dispatch (plan : StepPlan) (prepared : PreparedDispatch Route) :
    Moves Keeps (dispatch world request plan prepared) := by
  have hsettle : ∀ outcome, Moves Keeps (settleAfterDispatch world request plan outcome) :=
    fun outcome => (moves_settleStep _ _ _ _ _).bind fun _ => moves_pure _
  have hinvoke : Moves Keeps (invokePrepared world prepared) := fun _ _ => rfl
  refine hinvoke.bind fun response => ?_
  split
  · exact (hsettle _).bind fun _ => moves_throw _
  · exact (hsettle _).bind fun _ => moves_throw _
  · exact (moves_settleStep _ _ _ _ _).bind fun _ => moves_pure _

variable [DecidableEq Route]

theorem moves_prepareDispatch (plan : StepPlan) :
    Moves Keeps (prepareDispatch world request plan) := by
  refine (moves_orAbort (moves_bindAttempt (by simp))).bind fun _ => ?_
  refine (moves_orAbort (moves_check _)).bind fun decision => ?_
  refine (moves_orAbort (moves_bindAttempt (by simp))).bind fun _ => ?_
  refine (moves_bindContext plan).bind fun input => ?_
  refine (moves_orAbort (moves_check _)).bind fun prepared => ?_
  refine (moves_orAbort (moves_check _)).bind fun _ => ?_
  exact (moves_orAbort (moves_bindAttempt (by simp))).bind fun _ => moves_pure _

/-- A run leaves the attempts the same, or creates its own after the checks. -/
inductive Adds (request : PlannedStepRequest) (before after : AttemptLedger StepPlan Route) : Prop
  | none (same : before.SameAttempts after)
  | created {plan : StepPlan} {middle : AttemptLedger StepPlan Route}
      (planned : Planned before request plan) (creates : before.Creates request.attribution middle)
      (fits : middle.attempts.keys.length ≤ maxAttemptStateBytes)
      (rest : middle.SameAttempts after)

theorem run_adds (state : RunnerState Route) :
    Outcome (run world request) state
      (fun _ after => Adds request state.services.attempts after.services.attempts)
      fun _ after => Adds request state.services.attempts after.services.attempts := by
  refine Outcome.bind (planStep_outcome.mono (fun _ _ h => h) ?_) ?_
  · rintro _ _ rfl
    exact .none fun _ => rfl
  · rintro ⟨plan,parentReservationId⟩ _ ⟨rfl,hplanned⟩
    refine Outcome.bind ((createAttempt_outcome plan).mono (fun _ _ h => h) ?_) ?_
    · rintro _ _ rfl
      exact .none fun _ => rfl
    · rintro _ _ ⟨hadmits,hfits,rfl⟩
      have hrest : Moves Keeps (do
          reserveBudget world request plan parentReservationId
          let prepared ← prepareDispatch world request plan
          dispatch world request plan prepared) :=
        (moves_reserveBudget _ _).bind fun _ =>
          (moves_prepareDispatch _).bind fun _ => moves_dispatch _ _
      have hcreates : AttemptLedger.Creates _ request.attribution (put _
          request.attribution.attemptId (plannedAttempt request.attribution plan)) :=
        ⟨hadmits,fun id => attributionOf_put _ _ _⟩
      refine (outcome_iff_after.mpr (hrest _)).mono ?_ ?_ <;>
      · intro _ after hkeeps
        exact .created hplanned hcreates hfits hkeeps

end Run

section Sequences

/-- A call to the service of attempts, with what becomes of its read and its commit. -/
structure AttemptCall (Route : Type) where
  store : AttemptStore Route
  command : StepAttemptCommand Route

def AttemptCall.perform (attempts : AttemptLedger StepPlan Route) (call : AttemptCall Route) :
    AttemptLedger StepPlan Route :=
  after (invokeAttempts call.store call.command) attempts

/-- A run, or a call to one of the services that creates no attempt. -/
inductive RunnerStep (Route Output : Type)
  | run (world : World Route Output) (request : PlannedStepRequest)
  | attempts (call : AttemptCall Route)
      (quiet : ∀ attribution plan, call.command ≠ .create attribution plan)
  | resources (store : ResourceStore) (command : ExecutionResourceCommand)
  | transaction (store : StepStore StepPlan Route) (command : StepTransactionCommand)

variable {before next : AttemptLedger StepPlan Route} {rootAttemptId : String}

theorem lineal_of_calls (calls : List (AttemptCall Route)) :
    Lineal (runAll AttemptCall.perform .empty calls) := by
  refine runAll_invariant (fun attempts call h => ?_) calls lineal_empty
  unfold AttemptCall.perform after
  rw [invokeAttempts_eq]
  cases hanswer : attemptAnswer call.store call.command attempts with
  | error failure => exact h
  | ok changed =>
    obtain ⟨response,next⟩ := changed
    rcases answer_cases (attemptAnswer_eq_ok hanswer).1 with
      ⟨attribution,plan,-,hcreates⟩ | ⟨-,hsame⟩
    · exact h.creates hcreates
    · exact h.same hsame

/-- A root that has not been created has no retries. -/
theorem chain_of_fresh (hlineal : Lineal before)
    (hroot : before.attributionOf rootAttemptId = none) {limit : ℕ} (hlimit : 1 ≤ limit) :
    Chain before rootAttemptId limit := by
  have hnone : ∀ x, before.retryOf x ≠ some rootAttemptId := by
    intro x h
    obtain ⟨attribution,hget,hparent⟩ := Option.bind_eq_some_iff.mp h
    split_ifs at hparent
    exact hlineal.parented x attribution _ hget hparent hroot
  have honly : ∀ x n, Generation before.retryOf rootAttemptId x n → x = rootAttemptId ∧ n = 1 := by
    intro x n h
    induction h with
    | root => exact ⟨rfl,rfl⟩
    | @child x p n above hparent ih =>
      obtain ⟨rfl,-⟩ := ih
      exact absurd hparent (hnone x)
  constructor
  · rintro x y p ⟨n,hp⟩ hx -
    obtain ⟨rfl,-⟩ := honly p n hp
    exact absurd hx (hnone x)
  · intro x n h
    obtain ⟨-,rfl⟩ := honly x n h
    exact hlimit

/-- A run that creates a first retry leaves a lineage that the policy allows. -/
theorem Chain.adds {request : PlannedStepRequest} {limit : ℕ} (hlineal : Lineal before)
    (hchain : Chain before rootAttemptId limit) (hpolicy : request.policy.maxAttempts.val ≤ limit)
    (hfirst : request.attribution.kind = .retry → ∀ id ∈ before.attempts.keys,
      before.retryOf id ≠ request.attribution.parentAttemptId)
    (hadds : Adds request before next) : Lineal next ∧ Chain next rootAttemptId limit := by
  cases hadds with
  | none same => exact ⟨hlineal.same same,hchain.same same⟩
  | @created plan middle planned creates fits rest =>
    have hsize : before.attempts.keys.length < 2 ^ 32 - 1 := by
      have hle := (keys_le_of_creates creates).trans fits
      unfold maxAttemptStateBytes at hle
      omega
    have hunretried : request.attribution.kind = .retry → ∀ id,
        before.retryOf id ≠ request.attribution.parentAttemptId := by
      intro hkind id hretry
      by_cases hid : id ∈ before.attempts.keys
      · exact hfirst hkind id hid hretry
      · have hnone : before.retryOf id = none := by
          unfold retryOf attributionOf
          rw [(BTreeMap.get?_eq_none _).mpr hid]
          rfl
        have hroot := creates.admits.shape.mpr (hretry.symm.trans hnone)
        rw [hkind] at hroot
        cases hroot
    have hmiddle := hchain.creates hlineal creates hunretried fun hkind parentId n hparent hgen =>
      (generation_lt_of_allows hlineal planned.lineage hkind hsize hparent hgen).trans
        (planned.limit ▸ hpolicy)
    exact ⟨(hlineal.creates creates).same rest,hmiddle.same rest⟩

variable [DecidableEq Route]

def RunnerStep.perform (state : RunnerState Route) : RunnerStep Route Output → RunnerState Route
  | .run world request => after (StepRunner.run world request) state
  | .attempts call _ => state.setAttempts (call.perform state.services.attempts)
  | .resources store command =>
    state.setResources (after (invokeResources store command) state.services.resources)
  | .transaction store command => state.setServices (after (handle store command) state.services)

/-- A retry that is run is the first retry of its parent. -/
def Unretried (state : RunnerState Route) : RunnerStep Route Output → Prop
  | .run _ request => request.attribution.kind = .retry →
    ∀ id ∈ state.services.attempts.attempts.keys,
      state.services.attempts.retryOf id ≠ request.attribution.parentAttemptId
  | _ => True

instance unretried_decidable (state : RunnerState Route) (step : RunnerStep Route Output) :
    Decidable (Unretried state step) :=
  match step with
  | .run _ request => inferInstanceAs (Decidable (request.attribution.kind = .retry →
    ∀ id ∈ state.services.attempts.attempts.keys,
      state.services.attempts.retryOf id ≠ request.attribution.parentAttemptId))
  | .attempts _ _ => .isTrue trivial
  | .resources _ _ => .isTrue trivial
  | .transaction _ _ => .isTrue trivial

/-- The runs go by this policy, as far as it limits attempts. -/
def GoesBy (policy : UsagePolicy) : RunnerStep Route Output → Prop
  | .run _ request => request.policy.maxAttempts = policy.maxAttempts
  | _ => True

/-- No more attempts than the limit are the root or, through any number of retries, retries of
it. -/
def RetriesWithin (attempts : AttemptLedger StepPlan Route) (rootAttemptId : String)
    (limit : ℕ) : Prop :=
  ∀ attemptIds : List String, attemptIds.Nodup →
    (∀ id ∈ attemptIds, Descends attempts.retryOf rootAttemptId id) → attemptIds.length ≤ limit

theorem kept_of_quiet (step : RunnerStep Route Output) (state : RunnerState Route)
    (hquiet : ∀ world request, step ≠ .run world request) :
    state.services.attempts.SameAttempts (step.perform state).services.attempts := by
  cases step with
  | run world request => exact absurd rfl (hquiet world request)
  | attempts call quiet =>
    change state.services.attempts.SameAttempts (call.perform state.services.attempts)
    unfold AttemptCall.perform after
    rw [invokeAttempts_eq]
    cases hanswer : attemptAnswer call.store call.command state.services.attempts with
    | error failure => exact fun _ => rfl
    | ok changed =>
      rcases answer_cases (attemptAnswer_eq_ok hanswer).1 with
        ⟨attribution,plan,hcreate,-⟩ | ⟨-,hsame⟩
      · exact absurd hcreate (quiet attribution plan)
      · exact hsame
  | resources store command => exact fun _ => rfl
  | transaction store command =>
    change state.services.attempts.SameAttempts
      (after (handle store command) state.services).attempts
    unfold after
    rw [handle_eq]
    cases hcommitted : committed store state.services command with
    | error failure => exact fun _ => rfl
    | ok changed =>
      obtain ⟨response,services⟩ := changed
      obtain ⟨attempt,hcloses⟩ := committed_eq_ok.mp ⟨response,hcommitted⟩
      rw [hcloses.attempts]
      exact sameAttempts_put hcloses.closes.found rfl

/-- Where every retry is the first one of its parent, the retries of a root are within the policy;
and the walk over a lineage ends on every ledger. -/
theorem retries_within (policy : UsagePolicy) (calls : List (AttemptCall Route))
    {state : RunnerState Route} {steps : List (RunnerStep Route Output)}
    (hstart : state.services.attempts = runAll AttemptCall.perform .empty calls)
    (hroot : state.services.attempts.attributionOf rootAttemptId = none)
    (hpolicy : ∀ step ∈ steps, GoesBy policy step)
    (hfirst : Along RunnerStep.perform Unretried state steps) :
    RetriesWithin (runAll RunnerStep.perform state steps).services.attempts rootAttemptId
        policy.maxAttempts.val ∧
      ∀ (calls : List (AttemptCall Route)) (rootExecutionId parent : String) (plan : StepPlan),
        let attempts := (runAll AttemptCall.perform .empty calls).listRoot rootExecutionId
        ∃ verdict, ∀ fuel > attempts.length, lineageVerdict fuel attempts parent plan =
          some verdict := by
  refine ⟨?_,fun calls rootExecutionId parent plan => lineageVerdict_terminates _ parent plan⟩
  have halong := hfirst.and (along_of_forall RunnerStep.perform
    (fun step hstep _ => hpolicy step hstep) state)
  have hinvariant := halong.invariant (I := fun state : RunnerState Route =>
    Lineal state.services.attempts ∧
      Chain state.services.attempts rootAttemptId policy.maxAttempts.val) ?_ ?_
  · intro attemptIds hnodup hdescends
    exact length_le_of_unbranched hinvariant.2.unbranched hinvariant.2.short hnodup hdescends
  · rintro state step ⟨hlineal,hchain⟩ ⟨hfirst,hpolicy⟩
    cases step with
    | run world request =>
      have hlimit : request.policy.maxAttempts = policy.maxAttempts := hpolicy
      have hadds : Adds request state.services.attempts
          (after (run world request) state).services.attempts :=
        outcome_iff_after.mp (run_adds state)
      exact hchain.adds hlineal (by rw [hlimit]) hfirst hadds
    | attempts call quiet =>
      have hkept := kept_of_quiet (.attempts call quiet : RunnerStep Route Output) state (by simp)
      exact ⟨hlineal.same hkept,hchain.same hkept⟩
    | resources store command => exact ⟨hlineal,hchain⟩
    | transaction store command =>
      have hkept := kept_of_quiet (.transaction store command : RunnerStep Route Output) state (by simp)
      exact ⟨hlineal.same hkept,hchain.same hkept⟩
  · have hlineal : Lineal state.services.attempts := by
      rw [hstart]
      exact lineal_of_calls calls
    exact ⟨hlineal,chain_of_fresh hlineal hroot UsagePolicy.one_le_maxAttempts⟩

end Sequences

section Example

/-- A byte for each attempt. -/
def counted : LedgerEncoding Unit where
  toVec ledger := .ok (ledger.attempts.keys.map fun _ => 0)
  dense ledger encoded h := by
    cases h
    simp

/-- Everything works but the routing of models. -/
def unrouted : World Unit Unit where
  execution := .ok (some .active)
  attempts _ := ⟨.ok (),counted,.ok ()⟩
  resources _ := ⟨.ok (),.ok ()⟩
  transactions _ := ⟨.ok (),fun _ => .ok (),.ok (),fun _ => .ok (),.ok ()⟩
  routing _ := .error "no route"
  admitted _ := .ok none
  materialize _ _ := .ok none
  prepare _ _ := .ok none
  infer _ := .ok none

def oneRetry : UsagePolicy :=
  ⟨"policy-1",1000,1000,none,1,1000,10,10,false,⟨false,0,0,0,0⟩⟩

def stepRequest (attemptId : String) (parentAttemptId : Option String) : PlannedStepRequest where
  attribution := ⟨"root","execution",attemptId,parentAttemptId,"policy-1",
    if parentAttemptId = none then .root else .retry,none⟩
  input := []
  tools := []
  policy := oneRetry
  task := ⟨10,⟨0,0,10,.empty⟩,.empty,.empty,.empty,.empty,.empty,none,none⟩
  nowMs := 0

/-- A root execution with a budget for many attempts. -/
def budgeted : RunnerState Unit where
  services :=
    { resources :=
        { ExecutionResourceState.empty with
          ledgers := BTreeMap.empty.insert "root"
            (RootBudgetLedger.new "root" ⟨1000,1000,none,10⟩) }
      attempts := .empty }
  invocations := []
  transactions := []

def failedRun (attemptId : String) (parentAttemptId : Option String) : RunnerStep Unit Unit :=
  .run unrouted (stepRequest attemptId parentAttemptId)

theorem retries_within_once : RetriesWithin
    (runAll RunnerStep.perform budgeted
      [failedRun "attempt-1" none,failedRun "attempt-2" (some "attempt-1"),
        failedRun "attempt-3" (some "attempt-2")]).services.attempts "attempt-1" 2 := by
  refine (retries_within oneRetry [] rfl rfl ?_ ?_).1
  · intro step hstep
    simp only [List.mem_cons, List.not_mem_nil, or_false] at hstep
    rcases hstep with rfl | rfl | rfl <;> rfl
  · decide +kernel

/-- Two retries of one failed attempt: each has one ancestor, and the policy allows two attempts. -/
theorem retried_twice : ¬ RetriesWithin
    (runAll RunnerStep.perform budgeted
      [failedRun "attempt-1" none,failedRun "attempt-2" (some "attempt-1"),
        failedRun "attempt-3" (some "attempt-1")]).services.attempts "attempt-1"
    oneRetry.maxAttempts.val := by
  intro h
  have hsecond : (runAll RunnerStep.perform budgeted
      [failedRun "attempt-1" none,failedRun "attempt-2" (some "attempt-1"),
        failedRun "attempt-3" (some "attempt-1")]).services.attempts.retryOf "attempt-2" =
      some "attempt-1" := by decide +kernel
  have hthird : (runAll RunnerStep.perform budgeted
      [failedRun "attempt-1" none,failedRun "attempt-2" (some "attempt-1"),
        failedRun "attempt-3" (some "attempt-1")]).services.attempts.retryOf "attempt-3" =
      some "attempt-1" := by decide +kernel
  have hthree := h ["attempt-1","attempt-2","attempt-3"] (by decide) (by
    intro id hid
    simp only [List.mem_cons, List.not_mem_nil, or_false] at hid
    rcases hid with rfl | rfl | rfl
    · exact ⟨1,.root⟩
    · exact ⟨2,.child .root hsecond⟩
    · exact ⟨2,.child .root hthird⟩)
  exact absurd hthree (by decide)

end Example

end PhenixConductor.StepRunner

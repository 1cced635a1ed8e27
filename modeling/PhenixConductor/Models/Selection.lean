import PhenixConductor.Models.Routing

/-! # The selected route

A candidate is ranked by a key: the trusted estimates first, and the ordinal last.
-/
namespace PhenixConductor.Models
open Collections Execution OrderDual List
variable {V : Type}

/-! ## The order of candidates -/

/-- The estimate that a candidate is ranked by. -/
def ranked (candidate : RoutingCandidate V) : RoutingEstimateMode → Option RoutingEstimate
  | .ignore => none
  | .preferTrusted minConfidenceMillis => trustedEstimate candidate minConfidenceMillis

/-- The rank of a candidate: no estimate comes after any estimate. -/
def rank (mode : RoutingEstimateMode) (candidate : RoutingCandidate V) :
    Bool ×ₗ ℕᵒᵈ ×ₗ ℕ ×ₗ ℕ ×ₗ ℕ :=
  match ranked candidate mode with
  | none => toLex (true,toLex (toDual 0,toLex (0,toLex (0,candidate.ordinal))))
  | some estimate => toLex (false,toLex (toDual (estimate.expectedQualityMillis.getD 0),
      toLex (estimate.expectedCostMicrounits.getD (2 ^ 64 - 1),
        toLex (estimate.expectedLatencyMs.getD (2 ^ 64 - 1),candidate.ordinal))))

/-- The comparison of candidates is the one of their ranks. -/
theorem compareCandidates_eq (mode : RoutingEstimateMode) (left right : RoutingCandidate V) :
    compareCandidates left right mode = compare (rank mode left) (rank mode right) := by
  cases mode with
  | ignore =>
    simp [compareCandidates, rank, ranked, Prod.Lex.compare_def, compareLex, compareOn]
  | preferTrusted minimum =>
    unfold compareCandidates rank ranked
    cases hleft : trustedEstimate left minimum <;> cases hright : trustedEstimate right minimum
    · simp [Prod.Lex.compare_def, compareLex, compareOn, hleft, hright]
    · simp only [hleft, hright]
      rfl
    · simp only [hleft, hright]
      rfl
    · simp [Prod.Lex.compare_def, compareLex, compareOn, hleft, hright]
      rfl

theorem compareCandidates_eq_lt {mode : RoutingEstimateMode} {left right : RoutingCandidate V} :
    compareCandidates left right mode = .lt ↔ rank mode left < rank mode right := by
  rw [compareCandidates_eq, compare_lt_iff_lt]

/-- Candidates of one rank have one ordinal. -/
theorem rank_ordinal {mode : RoutingEstimateMode} {left right : RoutingCandidate V}
    (h : rank mode left = rank mode right) : left.ordinal = right.ordinal := by
  unfold rank at h
  cases hleft : ranked left mode <;> cases hright : ranked right mode <;>
    simp_all

/-- The comparison is a strict total order of the candidates of a list. -/
structure StrictlyOrders (mode : RoutingEstimateMode) (candidates : List (RoutingCandidate V)) :
    Prop where
  irrefl : ∀ candidate : RoutingCandidate V, compareCandidates candidate candidate mode ≠ .lt
  swap : ∀ left right : RoutingCandidate V,
    compareCandidates right left mode = (compareCandidates left right mode).swap
  trans : ∀ first second third : RoutingCandidate V, compareCandidates first second mode = .lt →
    compareCandidates second third mode = .lt → compareCandidates first third mode = .lt
  total : ∀ left ∈ candidates, ∀ right ∈ candidates, left ≠ right →
    compareCandidates left right mode = .lt ∨ compareCandidates right left mode = .lt

variable {candidates : List (RoutingCandidate V)}

theorem strictlyOrders (hdistinct : (candidates.map (·.ordinal)).Nodup) (mode : RoutingEstimateMode) :
    StrictlyOrders mode candidates := by
  constructor
  · intro candidate h
    exact lt_irrefl _ (compareCandidates_eq_lt.mp h)
  · intro left right
    rw [compareCandidates_eq, compareCandidates_eq, Std.OrientedOrd.eq_swap]
  · intro first second third h h'
    rw [compareCandidates_eq_lt] at *
    exact h.trans h'
  · intro left hleft right hright hne
    rw [compareCandidates_eq_lt, compareCandidates_eq_lt, ← ne_iff_lt_or_gt]
    exact fun hrank => hne (inj_on_of_nodup_map hdistinct hleft hright (rank_ordinal hrank))

/-! ## Eligible candidates -/

/-- The capabilities are those that are required, and the capacity is enough. -/
structure Satisfies (requirements : RoutingRequirements)
    (capabilities : EffectiveModelCapabilities V) : Prop where
  required : ∀ capability, capability ∈ requirements.requiredCapabilities.keys ∨
    capability ∈ requirements.context.requiredCapabilities.keys →
      capability ∈ capabilities.optional.keys
  enough : ∀ limits, capabilities.capacity = .known limits ∨
    capabilities.capacity = .configuredConservative limits →
      saturatingAdd requirements.context.totalInputTokens
        requirements.context.outputReserveTokens ≤ limits.contextWindowTokens ∧
      ∀ limit ∈ limits.maxOutputTokens, requirements.context.outputReserveTokens ≤ limit
  known : requirements.requireKnownCapacity = true → capabilities.capacity ≠ .unknown

variable {requirements : RoutingRequirements}

theorem evaluate_eq_eligible {capabilities : EffectiveModelCapabilities V} :
    evaluate requirements capabilities = .eligible ↔ Satisfies requirements capabilities := by
  have hmissing : (BTreeSet.collect (requirements.requiredCapabilities.keys ++
      requirements.context.requiredCapabilities.keys)).keys.filter
        (· ∉ capabilities.optional.keys) = [] ↔
      ∀ capability, capability ∈ requirements.requiredCapabilities.keys ∨
        capability ∈ requirements.context.requiredCapabilities.keys →
          capability ∈ capabilities.optional.keys := by
    simp [filter_eq_nil_iff]
  have hcapacity : ∀ limits : ModelLimits,
      ¬ (limits.contextWindowTokens < saturatingAdd requirements.context.totalInputTokens
          requirements.context.outputReserveTokens ∨
        limits.maxOutputTokens.any (· < requirements.context.outputReserveTokens)) ↔
      saturatingAdd requirements.context.totalInputTokens
          requirements.context.outputReserveTokens ≤ limits.contextWindowTokens ∧
        ∀ limit ∈ limits.maxOutputTokens, requirements.context.outputReserveTokens ≤ limit := by
    intro limits
    cases limits.maxOutputTokens <;> simp
  have hlimits : ∀ limits : ModelLimits, capabilities.capacity = .known limits ∨
      capabilities.capacity = .configuredConservative limits →
      ∀ other, capabilities.capacity = .known other ∨
        capabilities.capacity = .configuredConservative other → other = limits := by
    rintro limits (h | h) other (h' | h') <;> simp_all
  unfold evaluate
  by_cases hempty : (BTreeSet.collect (requirements.requiredCapabilities.keys ++
      requirements.context.requiredCapabilities.keys)).keys.filter
        (· ∉ capabilities.optional.keys) = []
  · rw [if_neg (not_not.mpr hempty)]
    have hrequired := hmissing.mp hempty
    cases hc : capabilities.capacity with
    | known limits | configuredConservative limits =>
      dsimp only
      split_ifs with hlacks
      · refine iff_of_false nofun fun h => ?_
        exact (hcapacity limits).mpr (h.enough limits (by simp [hc])) hlacks
      · refine iff_of_true rfl ⟨hrequired,fun other hother => ?_,by simp [hc]⟩
        rw [hlimits limits (by simp [hc]) other hother]
        exact (hcapacity limits).mp hlacks
    | unknown =>
      split_ifs with hknown
      · exact iff_of_false nofun fun h => h.known hknown hc
      · refine iff_of_true rfl ⟨hrequired,fun other hother => ?_,fun h => absurd h hknown⟩
        rw [hc] at hother
        simp at hother
  · rw [if_pos hempty]
    exact iff_of_false nofun fun h => hempty (hmissing.mpr h.required)

/-- The candidates that are eligible. -/
def eligible (requirements : RoutingRequirements) (candidates : List (RoutingCandidate V)) :
    List (RoutingCandidate V) :=
  candidates.filter fun candidate => evaluate requirements candidate.capabilities = .eligible

theorem mem_eligible {candidate : RoutingCandidate V} :
    candidate ∈ eligible requirements candidates ↔
      candidate ∈ candidates ∧ Satisfies requirements candidate.capabilities := by
  rw [eligible, mem_filter, decide_eq_true_iff, evaluate_eq_eligible]

/-- What is reported of the candidates that are not eligible. -/
def refused (requirements : RoutingRequirements) (candidates : List (RoutingCandidate V)) :
    List (RejectedRoutingCandidate V) :=
  (candidates.filter fun candidate => evaluate requirements candidate.capabilities ≠ .eligible).map
    fun candidate => ⟨candidate.capabilities.target,candidate.ordinal,
      evaluate requirements candidate.capabilities⟩

theorem filterMap_rejected (requirements : RoutingRequirements)
    (candidates : List (RoutingCandidate V)) :
    candidates.filterMap (rejected requirements) = refused requirements candidates := by
  unfold refused
  induction candidates with
  | nil => rfl
  | cons candidate candidates ih =>
    rw [filterMap_cons, ih]
    unfold rejected
    cases hevaluate : evaluate requirements candidate.capabilities <;> simp [hevaluate]

/-! ## The selection -/

/-- The candidates that may be attempted, the best one first. -/
def contest (candidates : List (RoutingCandidate V)) (requirements : RoutingRequirements)
    (policy : RouteSelectionPolicy) : List (RoutingCandidate V) :=
  sortByKey (rank policy.estimates) (attempted (eligible requirements candidates) policy)

def decisionFor (policy : RouteSelectionPolicy) (winner : RoutingCandidate V) : RouteDecision V where
  target := winner.capabilities.target
  capabilityGeneration := winner.capabilities.generation
  policyRevision := policy.revision
  candidateOrdinal := winner.ordinal
  estimate := winner.estimate

section
variable {candidates other : List (RoutingCandidate V)} {requirements : RoutingRequirements}
  {policy : RouteSelectionPolicy}

theorem selectRoute_eq (candidates : List (RoutingCandidate V)) (requirements : RoutingRequirements)
    (policy : RouteSelectionPolicy) : selectRoute candidates requirements policy =
      if eligible requirements candidates = [] then
        .error (.noEligibleCandidates (refused requirements candidates))
      else match contest candidates requirements policy with
        | [] => .error (.candidateAttemptLimitExceeded
            (u32OfLength (eligible requirements candidates).length) policy.maxCandidateAttempts)
        | winner :: _ => .ok ⟨decisionFor policy winner,refused requirements candidates⟩ := by
  have hsort : ∀ l : List (RoutingCandidate V),
      l.insertionSort (fun left right => compareCandidates left right policy.estimates ≠ .gt) =
        sortByKey (rank policy.estimates) l := by
    intro l
    have hmap := map_insertionSort
      (fun left right => compareCandidates left right policy.estimates ≠ .gt)
      (fun left right => rank policy.estimates left ≤ rank policy.estimates right) id l
      (fun left _ right _ => by
        rw [compareCandidates_eq, ne_eq, compare_gt_iff_gt, not_lt, id, id])
    simpa [sortByKey] using hmap
  unfold selectRoute
  simp only [filterMap_rejected, hsort]
  rfl

variable {l : List (RoutingCandidate V)}

theorem attempted_eq_nil (hne : l ≠ []) :
    attempted l policy = [] ↔ policy.maxCandidateAttempts = 0 := by
  have hpos : 0 < u32OfLength l.length := by
    have hlength := length_pos_of_ne_nil hne
    rw [u32OfLength]
    omega
  unfold attempted
  split_ifs with hlimit
  · rw [take_eq_nil_iff, ← length_eq_zero_iff (l := l.insertionSort _),
      (perm_insertionSort _ l).length_eq, length_eq_zero_iff, or_iff_left hne]
  · exact iff_of_false hne (by omega)

/-- Nothing is selected if nothing is eligible or nothing may be attempted. -/
theorem selectRoute_eq_error : (∃ error, selectRoute candidates requirements policy = .error error) ↔
    (∀ candidate ∈ candidates, ¬ Satisfies requirements candidate.capabilities) ∨
      policy.maxCandidateAttempts = 0 := by
  have hnil : eligible requirements candidates = [] ↔
      ∀ candidate ∈ candidates, ¬ Satisfies requirements candidate.capabilities := by
    rw [eq_nil_iff_forall_not_mem]
    simp only [mem_eligible, not_and]
  rw [selectRoute_eq, ← hnil]
  split_ifs with heligible
  · simp [heligible]
  · have hcontest : contest candidates requirements policy = [] ↔ policy.maxCandidateAttempts = 0 := by
      rw [contest, sortByKey_eq_nil, attempted_eq_nil heligible]
    rw [or_iff_right heligible, ← hcontest]
    cases contest candidates requirements policy <;> simp

/-- The winner of a selection is the best of those that may be attempted. -/
theorem selectRoute_eq_ok {selection : RouteSelection V}
    (h : selectRoute candidates requirements policy = .ok selection) :
    ∃ winner ∈ attempted (eligible requirements candidates) policy,
      selection.decision = decisionFor policy winner ∧
      ∀ candidate ∈ attempted (eligible requirements candidates) policy,
        rank policy.estimates winner ≤ rank policy.estimates candidate := by
  rw [selectRoute_eq] at h
  split_ifs at h
  cases hcontest : contest candidates requirements policy with
  | nil => simp [hcontest] at h
  | cons winner rest =>
    rw [hcontest] at h
    cases h
    obtain ⟨hmem,hbest⟩ := sortByKey_eq_cons hcontest
    exact ⟨winner,hmem,rfl,hbest⟩

/-- Two answers agree up to the order of the candidates that are rejected. -/
inductive Agrees : Except (RouteSelectionError V) (RouteSelection V) →
    Except (RouteSelectionError V) (RouteSelection V) → Prop
  | selected (decision : RouteDecision V) {rejected rejected' : List (RejectedRoutingCandidate V)}
      (h : rejected.Perm rejected') : Agrees (.ok ⟨decision,rejected⟩) (.ok ⟨decision,rejected'⟩)
  | noEligible {rejected rejected' : List (RejectedRoutingCandidate V)}
      (h : rejected.Perm rejected') :
      Agrees (.error (.noEligibleCandidates rejected)) (.error (.noEligibleCandidates rejected'))
  | limit (eligible allowed : ℕ) :
      Agrees (.error (.candidateAttemptLimitExceeded eligible allowed))
        (.error (.candidateAttemptLimitExceeded eligible allowed))

theorem nodup_eligible (hdistinct : (candidates.map (·.ordinal)).Nodup) :
    ((eligible requirements candidates).map (·.ordinal)).Nodup :=
  hdistinct.sublist (filter_sublist.map _)

theorem nodup_attempted (h : (l.map (·.ordinal)).Nodup) :
    ((attempted l policy).map (·.ordinal)).Nodup := by
  unfold attempted
  split_ifs
  · have hsorted := ((perm_insertionSort
      (fun left right : RoutingCandidate V => left.ordinal ≤ right.ordinal) l).map
        (·.ordinal)).nodup_iff.mpr h
    exact hsorted.sublist ((take_sublist _ _).map _)
  · exact h

theorem nodup_rank (h : (l.map (·.ordinal)).Nodup) (mode : RoutingEstimateMode) :
    (l.map (rank mode)).Nodup :=
  pairwise_map.mpr ((pairwise_map.mp h).imp fun hne hrank => hne (rank_ordinal hrank))

/-- The contest is the same for every order of the candidates. -/
theorem contest_congr (h : other.Perm candidates)
    (hdistinct : (candidates.map (·.ordinal)).Nodup) :
    contest other requirements policy = contest candidates requirements policy := by
  have hperm : (eligible requirements other).Perm (eligible requirements candidates) := h.filter _
  have hnodup : ((eligible requirements other).map (·.ordinal)).Nodup :=
    (hperm.map (·.ordinal)).nodup_iff.mpr (nodup_eligible hdistinct)
  have hattempted : (attempted (eligible requirements other) policy).Perm
      (attempted (eligible requirements candidates) policy) := by
    have hsort := sortByKey_congr hperm hnodup
    unfold sortByKey at hsort
    unfold attempted
    rw [hperm.length_eq, hsort]
    split_ifs
    · exact List.Perm.refl _
    · exact hperm
  exact sortByKey_congr hattempted (nodup_rank (nodup_attempted hnodup) _)

theorem agrees_of_perm (h : other.Perm candidates)
    (hdistinct : (candidates.map (·.ordinal)).Nodup) :
    Agrees (selectRoute other requirements policy) (selectRoute candidates requirements policy) := by
  have hperm : (eligible requirements other).Perm (eligible requirements candidates) := h.filter _
  have hrefused : (refused requirements other).Perm (refused requirements candidates) :=
    (h.filter _).map _
  have hnil : eligible requirements other = [] ↔ eligible requirements candidates = [] := by
    rw [← length_eq_zero_iff, hperm.length_eq, length_eq_zero_iff]
  rw [selectRoute_eq, selectRoute_eq, contest_congr h hdistinct, hperm.length_eq]
  simp only [hnil]
  split_ifs
  · exact .noEligible hrefused
  · cases contest candidates requirements policy with
    | nil => exact .limit _ _
    | cons winner rest => exact .selected _ hrefused

/-! ## The attempts -/

/-- The candidate is among the eligible ones of lowest ordinal, as many as may be attempted. -/
def Lowest (candidates : List (RoutingCandidate V)) (requirements : RoutingRequirements)
    (policy : RouteSelectionPolicy) (candidate : RoutingCandidate V) : Prop :=
  candidate ∈ eligible requirements candidates ∧
    (eligible requirements candidates).countP (fun other => other.ordinal < candidate.ordinal) <
      policy.maxCandidateAttempts

variable {candidate : RoutingCandidate V}

/-- What may be attempted are the lowest, if the number of the eligible is counted right. -/
theorem mem_attempted (hdistinct : (candidates.map (·.ordinal)).Nodup)
    (hcounted : policy.maxCandidateAttempts < 2 ^ 32 - 1 ∨ (eligible requirements candidates).length ≤ policy.maxCandidateAttempts) :
    candidate ∈ attempted (eligible requirements candidates) policy ↔
      Lowest candidates requirements policy candidate := by
  unfold attempted
  split_ifs with hlimit
  · have hordinals : ((eligible requirements candidates).map (·.ordinal)).Nodup :=
      nodup_eligible hdistinct
    exact mem_take_sortByKey hordinals
  · have hlength : (eligible requirements candidates).length ≤ policy.maxCandidateAttempts := by
      unfold u32OfLength at hlimit
      omega
    refine (and_iff_left_of_imp fun hmem => ?_).symm
    exact (countP_lt_length_iff.mpr ⟨candidate,hmem,by simp⟩).trans_le hlength

/-- If one too many is eligible, the lowest are those that are not the last. -/
theorem lowest_iff (hdistinct : (candidates.map (·.ordinal)).Nodup)
    (hlength : (eligible requirements candidates).length = policy.maxCandidateAttempts + 1)
    (hmem : candidate ∈ eligible requirements candidates) :
    Lowest candidates requirements policy candidate ↔
      ∃ last ∈ eligible requirements candidates, candidate.ordinal < last.ordinal := by
  have hordinals : ((eligible requirements candidates).map (·.ordinal)).Nodup :=
    nodup_eligible hdistinct
  obtain ⟨before,after,hsplit⟩ := append_of_mem hmem
  rw [Lowest, and_iff_right hmem]
  rw [hsplit] at hlength hordinals ⊢
  have hcount : (before ++ candidate :: after).countP
      (fun other => other.ordinal < candidate.ordinal) =
        (before ++ after).countP fun other => other.ordinal < candidate.ordinal := by
    simp [countP_append]
  have hothers : (before ++ after).length = policy.maxCandidateAttempts := by
    simp only [length_append, length_cons] at hlength ⊢
    omega
  have hne : ∀ last ∈ before ++ after, last.ordinal ≠ candidate.ordinal := by
    intro last hlast heq
    have hmiddle := (perm_middle.map (fun c : RoutingCandidate V => c.ordinal)).nodup_iff.mp
      hordinals
    rw [map_cons, nodup_cons] at hmiddle
    exact hmiddle.1 (heq ▸ mem_map_of_mem hlast)
  rw [hcount, ← hothers, countP_lt_length_iff]
  constructor
  · rintro ⟨last,hlast,hnot⟩
    have hle := not_lt.mp (of_decide_eq_false hnot)
    have hmem' : last ∈ before ++ candidate :: after := by
      rw [perm_middle.mem_iff]
      exact mem_cons_of_mem _ hlast
    exact ⟨last,hmem',hle.lt_of_ne (hne last hlast).symm⟩
  · rintro ⟨last,hlast,hlt⟩
    refine ⟨last,?_,decide_eq_false hlt.not_gt⟩
    rcases mem_append.mp hlast with hbefore | hafter
    · exact mem_append_left _ hbefore
    · rcases mem_cons.mp hafter with rfl | hafter
      · exact absurd hlt (lt_irrefl _)
      · exact mem_append_right _ hafter

/-- As many candidates are eligible as there are ordinals, one more than may be attempted, and
the last of them is the best one. -/
def Overcounted (candidates : List (RoutingCandidate V)) (requirements : RoutingRequirements)
    (policy : RouteSelectionPolicy) : Prop :=
  (eligible requirements candidates).length = 2 ^ 32 ∧
  policy.maxCandidateAttempts = 2 ^ 32 - 1 ∧
  ∃ last ∈ eligible requirements candidates, ∀ candidate ∈ eligible requirements candidates,
    candidate ≠ last → candidate.ordinal < last.ordinal ∧
      compareCandidates last candidate policy.estimates = .lt

/-- The selected route is the best of those that may be attempted, in any order of the
candidates. -/
structure Selects (candidates : List (RoutingCandidate V)) (requirements : RoutingRequirements)
    (policy : RouteSelectionPolicy) : Prop where
  order : ∀ mode, StrictlyOrders mode candidates
  permuted : ∀ other : List (RoutingCandidate V), other.Perm candidates →
    Agrees (selectRoute other requirements policy) (selectRoute candidates requirements policy)
  rejected : ∀ selection, selectRoute candidates requirements policy = .ok selection →
    selection.rejected = refused requirements candidates
  unselected : ∀ rejected, selectRoute candidates requirements policy =
    .error (.noEligibleCandidates rejected) → rejected = refused requirements candidates
  winner : ∀ selection, selectRoute candidates requirements policy = .ok selection →
    ∃ winner, Lowest candidates requirements policy winner ∧ winner ∈ candidates ∧
      Satisfies requirements winner.capabilities ∧ selection.decision = decisionFor policy winner ∧
      ∀ candidate, Lowest candidates requirements policy candidate →
        compareCandidates candidate winner policy.estimates ≠ .lt
  fails : (∃ error, selectRoute candidates requirements policy = .error error) ↔
    (∀ candidate ∈ candidates, ¬ Satisfies requirements candidate.capabilities) ∨
      policy.maxCandidateAttempts = 0

/-- There are no more eligible candidates than ordinals. -/
theorem length_eligible_le (hdistinct : (candidates.map (·.ordinal)).Nodup)
    (hordinals : ∀ candidate ∈ candidates, candidate.ordinal < 2 ^ 32) :
    (eligible requirements candidates).length ≤ 2 ^ 32 := by
  have hsubset : (eligible requirements candidates).map (·.ordinal) ⊆ List.range (2 ^ 32) := by
    intro ordinal hordinal
    obtain ⟨candidate,hmem,rfl⟩ := mem_map.mp hordinal
    exact mem_range.mpr (hordinals candidate (mem_eligible.mp hmem).1)
  have hlength := (subperm_of_subset (nodup_eligible hdistinct) hsubset).length_le
  rwa [length_map, length_range] at hlength

/-- A best candidate among the lowest is the winner. -/
theorem Selects.of_winner (hdistinct : (candidates.map (·.ordinal)).Nodup)
    (h : ∀ winner ∈ attempted (eligible requirements candidates) policy,
      (∀ candidate ∈ attempted (eligible requirements candidates) policy,
        rank policy.estimates winner ≤ rank policy.estimates candidate) →
      Lowest candidates requirements policy winner ∧
        ∀ candidate, Lowest candidates requirements policy candidate →
          candidate ∈ attempted (eligible requirements candidates) policy) :
    Selects candidates requirements policy := by
  constructor
  · exact fun mode => strictlyOrders hdistinct mode
  · exact fun other hother => agrees_of_perm hother hdistinct
  · intro selection hselection
    rw [selectRoute_eq] at hselection
    split_ifs at hselection
    split at hselection <;> cases hselection
    rfl
  · intro rejected hrejected
    rw [selectRoute_eq] at hrejected
    split_ifs at hrejected
    · cases hrejected
      rfl
    · split at hrejected <;> cases hrejected
  · intro selection hselection
    obtain ⟨winner,hwinner,hdecision,hbest⟩ := selectRoute_eq_ok hselection
    obtain ⟨hlowest,hattempted⟩ := h winner hwinner hbest
    obtain ⟨hmem,hsatisfies⟩ := mem_eligible.mp hlowest.1
    refine ⟨winner,hlowest,hmem,hsatisfies,hdecision,fun candidate hcandidate hlt => ?_⟩
    exact (hbest candidate (hattempted candidate hcandidate)).not_gt (compareCandidates_eq_lt.mp hlt)
  · exact selectRoute_eq_error

variable (requirements) in
/-- The number of the eligible is counted right, or there is one more than may be attempted. -/
theorem counted_or (hdistinct : (candidates.map (·.ordinal)).Nodup)
    (hordinals : ∀ candidate ∈ candidates, candidate.ordinal < 2 ^ 32)
    (hlimit : policy.maxCandidateAttempts < 2 ^ 32) :
    (policy.maxCandidateAttempts < 2 ^ 32 - 1 ∨
      (eligible requirements candidates).length ≤ policy.maxCandidateAttempts) ∨
    (eligible requirements candidates).length = 2 ^ 32 ∧
      policy.maxCandidateAttempts = 2 ^ 32 - 1 := by
  have hlength : (eligible requirements candidates).length ≤ 2 ^ 32 :=
    length_eligible_le hdistinct hordinals
  omega

/-- Every eligible candidate is attempted where one of them should not be. -/
theorem attempted_of_length (hlength : l.length = 2 ^ 32)
    (hlimit : policy.maxCandidateAttempts = 2 ^ 32 - 1) : attempted l policy = l := by
  unfold attempted u32OfLength
  rw [if_neg]
  omega

theorem selects_of_not_overcounted (hdistinct : (candidates.map (·.ordinal)).Nodup)
    (hordinals : ∀ candidate ∈ candidates, candidate.ordinal < 2 ^ 32)
    (hlimit : policy.maxCandidateAttempts < 2 ^ 32)
    (h : ¬ Overcounted candidates requirements policy) : Selects candidates requirements policy := by
  rcases counted_or requirements hdistinct hordinals hlimit with
    hcounted | ⟨hlength,hmax⟩
  · apply Selects.of_winner hdistinct
    intro winner hwinner hbest
    exact ⟨(mem_attempted hdistinct hcounted).mp hwinner,
      fun candidate => (mem_attempted hdistinct hcounted).mpr⟩
  · have hone : (eligible requirements candidates).length = policy.maxCandidateAttempts + 1 := by
      omega
    have hattempted := attempted_of_length hlength hmax
    apply Selects.of_winner hdistinct
    rw [hattempted]
    intro winner hwinner hbest
    refine ⟨(lowest_iff hdistinct hone hwinner).mpr ?_,fun candidate hcandidate => hcandidate.1⟩
    -- a winner that is the last would be the best one of all
    by_contra hlast
    push Not at hlast
    refine h ⟨hlength,hmax,winner,hwinner,fun candidate hcandidate hne => ⟨?_,?_⟩⟩
    · refine (hlast candidate hcandidate).lt_of_ne fun heq => hne ?_
      exact inj_on_of_nodup_map (nodup_eligible hdistinct) hcandidate hwinner heq
    · rw [compareCandidates_eq_lt]
      refine (hbest candidate hcandidate).lt_of_ne fun hrank => hne ?_
      exact inj_on_of_nodup_map (nodup_eligible hdistinct) hcandidate hwinner
        (rank_ordinal hrank.symm)

theorem Overcounted.not_selects (hdistinct : (candidates.map (·.ordinal)).Nodup)
    (h : Overcounted candidates requirements policy) : ¬ Selects candidates requirements policy := by
  obtain ⟨hlength,hmax,last,hlast,hbest⟩ := h
  have hone : (eligible requirements candidates).length = policy.maxCandidateAttempts + 1 := by
    omega
  intro hselects
  cases hselection : selectRoute candidates requirements policy with
  | error error =>
    rcases hselects.fails.mp ⟨error,hselection⟩ with hnone | hzero
    · exact hnone last (mem_eligible.mp hlast).1 (mem_eligible.mp hlast).2
    · omega
  | ok selection =>
    obtain ⟨winner,hwinner,hdecision,hleast⟩ := selectRoute_eq_ok hselection
    rw [attempted_of_length hlength hmax] at hwinner hleast
    obtain ⟨lowest,hlowest,-,-,hsame,-⟩ := hselects.winner selection hselection
    have hwon : winner = last := by
      by_contra hne
      have hlt := compareCandidates_eq_lt.mp (hbest winner hwinner hne).2
      exact (hleast last hlast).not_gt hlt
    have hordinal : lowest.ordinal = last.ordinal := by
      have heq := hsame.symm.trans hdecision
      rw [hwon] at heq
      exact congrArg RouteDecision.candidateOrdinal heq
    obtain ⟨later,hlater,hlt⟩ := (lowest_iff hdistinct hone hlowest.1).mp hlowest
    by_cases hne : later = last
    · rw [hne, hordinal] at hlt
      exact lt_irrefl _ hlt
    · have hbefore := (hbest later hlater hne).1
      omega

end

/-- A route is selected as it should be, unless every ordinal is taken by an eligible candidate,
all but one of them may be attempted, and the last one is the best. -/
theorem selects_iff {candidates : List (RoutingCandidate V)} {requirements : RoutingRequirements}
    {policy : RouteSelectionPolicy} (hdistinct : (candidates.map (·.ordinal)).Nodup)
    (hordinals : ∀ candidate ∈ candidates, candidate.ordinal < 2 ^ 32)
    (hlimit : policy.maxCandidateAttempts < 2 ^ 32) :
    Selects candidates requirements policy ↔ ¬ Overcounted candidates requirements policy := by
  constructor
  · exact fun hselects hover => hover.not_selects hdistinct hselects
  · exact selects_of_not_overcounted hdistinct hordinals hlimit

/-! ## A full list of candidates -/

/-- A candidate that is eligible wherever no capability and no capacity is asked for. -/
def seat (estimate : Option RoutingEstimate) (ordinal : ℕ) : RoutingCandidate String where
  capabilities := ⟨⟨"provider","model",.empty⟩,"generation",.opaqueManaged,.unknown,.empty⟩
  estimate := estimate
  ordinal := ordinal

def anyDemand : RoutingRequirements := ⟨⟨0,0,0,.empty⟩,.empty,false⟩

def seatPolicy (maxCandidateAttempts : ℕ) : RouteSelectionPolicy :=
  ⟨"policy",.preferTrusted 0,maxCandidateAttempts⟩

theorem satisfies_seat (estimate : Option RoutingEstimate) (ordinal : ℕ) :
    Satisfies anyDemand (seat estimate ordinal).capabilities := by
  refine ⟨?_,?_,nofun⟩
  · rintro capability (h | h) <;> cases h
  · rintro limits (h | h) <;> cases h

/-- Of two seats the better one is selected, whichever has the lower ordinal. -/
theorem selects_seats : Selects [seat none 0,seat (some ⟨.static,some 1,none,none,none⟩) 1] anyDemand
    (seatPolicy 2) ↔
      ¬ Overcounted [seat none 0,seat (some ⟨.static,some 1,none,none,none⟩) 1] anyDemand
        (seatPolicy 2) :=
  selects_iff (by decide) (by decide) (by decide)

/-- Seats of all ordinals, of which the last is the only one with an estimate. -/
def fullHouse (last : ℕ) : List (RoutingCandidate String) :=
  (List.range (last + 1)).map fun ordinal =>
    seat (if ordinal = last then some ⟨.static,none,none,none,none⟩ else none) ordinal

theorem eligible_fullHouse (last : ℕ) : eligible anyDemand (fullHouse last) = fullHouse last := by
  refine filter_eq_self.mpr fun candidate hmem => decide_eq_true ?_
  obtain ⟨ordinal,-,rfl⟩ := mem_map.mp hmem
  exact evaluate_eq_eligible.mpr (satisfies_seat _ _)

theorem ordinals_fullHouse (last : ℕ) :
    (fullHouse last).map (·.ordinal) = List.range (last + 1) := by
  rw [fullHouse, map_map]
  exact map_id _

theorem overcounted_fullHouse :
    Overcounted (fullHouse (2 ^ 32 - 1)) anyDemand (seatPolicy (2 ^ 32 - 1)) := by
  generalize hlast : 2 ^ 32 - 1 = last
  rw [Overcounted, eligible_fullHouse]
  refine ⟨?_,hlast.symm,seat (some ⟨.static,none,none,none,none⟩) last,?_,?_⟩
  · rw [fullHouse, length_map, length_range]
    omega
  · exact mem_map.mpr ⟨last,mem_range.mpr (by omega),by rw [if_pos rfl]⟩
  · intro candidate hmem hne
    obtain ⟨ordinal,hordinal,rfl⟩ := mem_map.mp hmem
    have hother : ordinal ≠ last := by
      rintro rfl
      rw [if_pos rfl] at hne
      exact hne rfl
    rw [mem_range] at hordinal
    rw [if_neg hother]
    exact ⟨by simp only [seat]; omega,rfl⟩

/-- The last of all candidates is selected, although one attempt less than their number is
allowed. -/
theorem last_selected : ((fullHouse (2 ^ 32 - 1)).map (·.ordinal)).Nodup ∧
    ¬ Selects (fullHouse (2 ^ 32 - 1)) anyDemand (seatPolicy (2 ^ 32 - 1)) := by
  have hdistinct : ((fullHouse (2 ^ 32 - 1)).map (·.ordinal)).Nodup := by
    rw [ordinals_fullHouse]
    exact nodup_range
  exact ⟨hdistinct,overcounted_fullHouse.not_selects hdistinct⟩

end PhenixConductor.Models

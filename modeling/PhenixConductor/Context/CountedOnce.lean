import PhenixConductor.Context.AdmissionBudget

/-! # Contents that are counted once

What is admitted is added up along the loop, and every content counts once in it.
-/
namespace PhenixConductor.Context
open Collections ContextCandidate List
open Execution (U64)

/-- The tokens of the items that a form is asked of. -/
def itemTokens (items : List AdmittedContextItem) (asked : ContextProjectionForm → Bool) : ℕ :=
  ((items.filter fun item => asked item.form).map fun item => (item.estimatedTokens : ℕ)).sum

theorem itemTokens_concat (items : List AdmittedContextItem) (item : AdmittedContextItem)
    (asked : ContextProjectionForm → Bool) : itemTokens (items ++ [item]) asked =
      itemTokens items asked + if asked item.form then (item.estimatedTokens : ℕ) else 0 := by
  unfold itemTokens
  rw [filter_append, filter_singleton]
  cases asked item.form <;> simp

def ContextProjectionForm.isFull : ContextProjectionForm → Bool
  | .full => true
  | _ => false

/-- The sums of the loop after a number of candidates. -/
structure AdmissionState.Sums (considered : ℕ) (state : AdmissionState) : Prop where
  used : (state.used : ℕ) = min (itemTokens state.admitted (·.isFull)) (2 ^ 64 - 1)
  omitted : (state.omitted : ℕ) = min (itemTokens state.admitted (! ·.isFull)) (2 ^ 64 - 1)
  deduplicated : (state.deduplicated : ℕ) =
    min (considered - state.admitted.length) (2 ^ 32 - 1)
  length_le : state.admitted.length ≤ considered

theorem AdmissionState.Sums.empty : Sums 0 .empty where
  used := rfl
  omitted := rfl
  deduplicated := rfl
  length_le := le_rfl

theorem AdmissionState.Sums.consider {considered : ℕ} {budget : U64} {candidate : ContextCandidate}
    {state next : AdmissionState} (h : Sums considered state)
    (hnext : state.consider budget candidate = .ok next) : Sums (considered + 1) next := by
  have hlength := h.length_le
  have hused := h.used
  have homitted := h.omitted
  have hdeduplicated := h.deduplicated
  unfold AdmissionState.consider at hnext
  split_ifs at hnext
  · cases hnext
    refine ⟨hused,homitted,?_,hlength.trans (Nat.le_succ _)⟩
    change min ((state.deduplicated : ℕ) + 1) (2 ^ 32 - 1) =
      min (considered + 1 - state.admitted.length) (2 ^ 32 - 1)
    omega
  · obtain ⟨form,-,rfl⟩ := map_eq_ok.mp hnext
    have hkept : min (considered - state.admitted.length) (2 ^ 32 - 1) =
        min (considered + 1 - (state.admitted.length + 1)) (2 ^ 32 - 1) := by omega
    constructor
    · cases form <;> simp [push, project, itemTokens_concat, hused, projected,
        ContextProjectionForm.isFull]
      omega
    · cases form <;> simp [push, project, itemTokens_concat, homitted, projected,
        ContextProjectionForm.isFull]
      all_goals omega
    · rw [push, length_append, length_singleton, ← hkept, ← hdeduplicated]
      cases form <;> rfl
    · simpa [push] using hlength

theorem AdmissionState.Sums.foldlM {considered : ℕ} {budget : U64}
    {candidates : List ContextCandidate} {state last : AdmissionState} (h : Sums considered state)
    (hlast : candidates.foldlM (AdmissionState.consider budget) state = .ok last) :
    Sums (considered + candidates.length) last := by
  induction candidates generalizing considered state with
  | nil =>
    cases hlast
    exact h
  | cons candidate candidates ih =>
    rw [foldlM_cons, bind_eq_ok] at hlast
    obtain ⟨next,hnext,hlast⟩ := hlast
    have hrest := ih (h.consider hnext) hlast
    rwa [length_cons, Nat.add_comm candidates.length, ← Nat.add_assoc]

/-- The result accounts for every content of the candidates, once. -/
structure Accounts (request : ContextAdmissionRequest) (result : ContextAdmissionResult) : Prop where
  contents_nodup : (result.admitted.map (·.contentIdentity)).Nodup
  contents : ∀ identity, identity ∈ result.admitted.map (·.contentIdentity) ↔
    identity ∈ request.candidates.map (·.contentIdentity)
  mandatory : ∀ candidate ∈ request.candidates, candidate.mandatory = true →
    ∃ item ∈ result.admitted, item.contentIdentity = candidate.contentIdentity ∧ item.form = .full
  used : (result.usedInputTokens : ℕ) = min (itemTokens result.admitted (·.isFull)) (2 ^ 64 - 1)
  used_le : result.usedInputTokens ≤ request.budget
  omitted : (result.omittedInputTokens : ℕ) =
    min (itemTokens result.admitted (! ·.isFull)) (2 ^ 64 - 1)
  deduplicated : (result.deduplicatedItems : ℕ) =
    min (request.candidates.length - result.admitted.length) (2 ^ 32 - 1)

namespace ContextAdmissionRequest
variable {request : ContextAdmissionRequest} {result : ContextAdmissionResult}

theorem accounts (h : request.admission = .ok result) : Accounts request result := by
  have hle := usedInputTokens_le h
  have hmandatory : ∀ candidate ∈ request.candidates, candidate.mandatory = true →
      ∃ item ∈ result.admitted, item.contentIdentity = candidate.contentIdentity ∧
        item.form = .full := by
    intro candidate hc hcandidate
    have hordered := request.mem_ordered.mpr hc
    obtain ⟨first,hfirst,hcontent⟩ := mem_map.mp
      ((mem_map_firsts (·.contentIdentity)).mpr (mem_map_of_mem hordered))
    have hkey := firsts_related request.ordered_pairwise hfirst hordered hcontent
    obtain ⟨before,after,hkept⟩ := append_of_mem hfirst
    obtain ⟨form,hform,hitem⟩ := exists_form h hkept
    refine ⟨first.projected form,hitem,hcontent,?_⟩
    have hfull := mandatory_of_key_le hkey hcandidate
    rcases formOf_eq_ok.mp hform with ⟨-,rfl⟩ | ⟨⟨hoptional,-⟩,-⟩
    · rfl
    · rw [hfull] at hoptional
      cases hoptional
  obtain ⟨after,hafter,hadmitted,-⟩ := exists_after h
  unfold admission at h
  split_ifs at h
  obtain ⟨state,hstate,rfl⟩ := map_eq_ok.mp h
  have hsums := AdmissionState.Sums.empty.foldlM hstate
  have hlength : 0 + request.ordered.length = request.candidates.length := by
    rw [Nat.zero_add, ordered, length_insertionSort]
  rw [hlength] at hsums
  have hcontents : state.admitted.map (·.contentIdentity) =
      (distinct request.ordered).map (·.contentIdentity) := by
    obtain ⟨forms,hcandidates,hforms⟩ := hafter.projected
    change state.admitted = after.admitted at hadmitted
    rw [hadmitted, hforms, ← hcandidates, map_map, map_map]
    rfl
  constructor
  · rw [hcontents]
    exact nodup_map_firsts _ _
  · intro identity
    rw [hcontents, distinct, mem_map_firsts, mem_map, mem_map]
    simp only [mem_ordered]
  · exact hmandatory
  · exact hsums.used
  · exact hle
  · exact hsums.omitted
  · exact hsums.deduplicated

theorem mandatoryTokens_eq (request : ContextAdmissionRequest) :
    request.mandatoryTokens = totalTokens (request.ordered.filter (·.mandatory)) := by
  rw [mandatoryTokens, totalTokens, saturatingSum, foldl_map]

/-- What the mandatory contents cost, each of them by its first candidate. -/
def distinctMandatoryTokens (request : ContextAdmissionRequest) : U64 :=
  totalTokens (distinct (request.ordered.filter (·.mandatory)))

theorem distinctMandatoryTokens_le (request : ContextAdmissionRequest) :
    request.distinctMandatoryTokens ≤ request.mandatoryTokens := by
  rw [mandatoryTokens_eq]
  exact totalTokens_mono (firsts_sublist _ _)

/-- The mandatory contents exceed the budget only because some of them are offered again. -/
def Recounted (request : ContextAdmissionRequest) : Prop :=
  request.distinctMandatoryTokens ≤ request.budget ∧ request.budget < request.mandatoryTokens

/-- The loop stops at a candidate that it would lose, and at nothing else. -/
theorem consider_eq_error {budget : U64} {state : AdmissionState} {candidate : ContextCandidate}
    {error : ContextAdmissionError} (h : state.consider budget candidate = .error error) :
    ∃ id, error = .lossyProjectionWithoutRecovery id := by
  unfold AdmissionState.consider formOf at h
  split_ifs at h <;> cases h
  exact ⟨_,rfl⟩

theorem admission_eq_exhausted : (∃ required budget,
    request.admission = .error (.mandatoryContextExhausted required budget)) ↔
      request.budget < request.mandatoryTokens := by
  unfold admission
  split_ifs with hover
  · exact iff_of_true ⟨_,_,rfl⟩ hover
  · refine iff_of_false ?_ hover
    rintro ⟨required,budget,h⟩
    cases hloop : request.ordered.foldlM (AdmissionState.consider request.budget) .empty with
    | ok state => simp [hloop, Except.map] at h
    | error error =>
      obtain ⟨candidate,-,state,herror⟩ := foldlM_eq_error hloop
      obtain ⟨id,rfl⟩ := consider_eq_error herror
      simp [hloop, Except.map] at h

variable {candidates : List ContextCandidate}

/-- Candidates with distinct ids are looked at in one order. -/
theorem ordered_congr (h : candidates.Perm request.candidates)
    (hdistinct : (request.candidates.map (·.id)).Nodup) :
    { request with candidates }.ordered = request.ordered := by
  have hkeys : (candidates.map key).Nodup := by
    have hids := (h.map (·.id)).nodup_iff.mpr hdistinct
    refine pairwise_map.mpr ((pairwise_map.mp hids).imp fun hne hkey => hne ?_)
    simp only [key, toLex_inj, Prod.mk.injEq] at hkey
    exact hkey.2.2.2
  rw [ordered, ordered, insertionSort_eq_sortByKey compareWith_isLE,
    insertionSort_eq_sortByKey compareWith_isLE]
  exact sortByKey_congr h hkeys

theorem admission_congr (h : candidates.Perm request.candidates)
    (hdistinct : (request.candidates.map (·.id)).Nodup) :
    { request with candidates }.admission = request.admission := by
  unfold admission mandatoryTokens
  rw [ordered_congr h hdistinct]
  rfl

end ContextAdmissionRequest

/-- Admission counts each content once, in any order of the candidates. -/
structure CountsOnce (request : ContextAdmissionRequest) : Prop where
  permuted : ∀ candidates, candidates.Perm request.candidates →
    { request with candidates }.admission = request.admission
  accounts : ∀ result, request.admission = .ok result → Accounts request result
  exhausted : (∃ required budget,
    request.admission = .error (.mandatoryContextExhausted required budget)) ↔
      request.budget < request.distinctMandatoryTokens

open ContextAdmissionRequest in
theorem ContextAdmissionRequest.Recounted.not_countsOnce {request : ContextAdmissionRequest}
    (h : request.Recounted) : ¬ CountsOnce request := by
  intro hcounts
  have hover := hcounts.exhausted.mp (admission_eq_exhausted.mpr h.2)
  exact hover.not_ge h.1

open ContextAdmissionRequest in
/-- Each content is counted once, unless mandatory contents exceed the budget only because some
of them are offered again. -/
theorem counts_once_iff {request : ContextAdmissionRequest}
    (hdistinct : (request.candidates.map (·.id)).Nodup) :
    CountsOnce request ↔ ¬ request.Recounted := by
  constructor
  · exact fun hcounts hrecounted => hrecounted.not_countsOnce hcounts
  · intro hrecounted
    refine ⟨fun candidates h => admission_congr h hdistinct,fun result h => accounts h,?_⟩
    rw [admission_eq_exhausted]
    constructor
    · exact fun hover => not_le.mp fun hle => hrecounted ⟨hle,hover⟩
    · exact fun hover => hover.trans_le request.distinctMandatoryTokens_le

/-- A content that is offered under two ids and has to be admitted. -/
def sharedRequest (budget : U64) : ContextAdmissionRequest where
  executionId := "execution"
  stepPlan := ⟨"policy",⟨budget,0⟩⟩
  candidates := [{ noteCandidate "same" "note" .pinned .epoch with mandatory := true },
    { noteCandidate "alias" "note" .pinned .epoch with mandatory := true }]
  cacheEpoch := 1

theorem counts_once_shared : CountsOnce (sharedRequest 40) ↔ ¬ (sharedRequest 40).Recounted :=
  counts_once_iff (by decide)

/-- One note of 20 tokens is refused by a budget of 30 for being offered twice. -/
theorem shared_note_refused : ((sharedRequest 30).candidates.map (·.id)).Nodup ∧
    (∃ required budget,
      (sharedRequest 30).admission = .error (.mandatoryContextExhausted required budget)) ∧
    (sharedRequest 30).distinctMandatoryTokens = 20 ∧ ¬ CountsOnce (sharedRequest 30) := by
  have hdistinct : (sharedRequest 30).distinctMandatoryTokens = 20 := by rfl
  have hmandatory : (sharedRequest 30).mandatoryTokens = 40 := by rfl
  have hrecounted : (sharedRequest 30).Recounted := by
    rw [ContextAdmissionRequest.Recounted, hdistinct, hmandatory]
    decide
  exact ⟨by decide,ContextAdmissionRequest.admission_eq_exhausted.mpr hrecounted.2,hdistinct,
    hrecounted.not_countsOnce⟩

end PhenixConductor.Context

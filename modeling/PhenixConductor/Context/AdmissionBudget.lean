import PhenixConductor.Collections.Firsts
import PhenixConductor.Context.Admission

/-! # What admission may lose

The loop decides on the first candidate of every content.
-/
namespace PhenixConductor.Context
open Collections ContextCandidate List
open Execution (U64 U32)

/-- The first candidate of every content, in the order of the list. -/
def distinct (candidates : List ContextCandidate) : List ContextCandidate :=
  firsts (·.contentIdentity) candidates

theorem distinct_concat (candidates : List ContextCandidate) (candidate : ContextCandidate) :
    distinct (candidates ++ [candidate]) =
      keepNew (·.contentIdentity) (distinct candidates) candidate :=
  firsts_concat _ _ _

def totalTokens (candidates : List ContextCandidate) : U64 :=
  saturatingSum (candidates.map (·.estimatedTokens))

/-- A candidate is taken if it has to be, or if it fits what is left of the budget. -/
def take (budget : U64) (taken : List ContextCandidate) (candidate : ContextCandidate) :
    List ContextCandidate :=
  if candidate.mandatory ∨
      saturatingAdd (totalTokens taken) candidate.estimatedTokens ≤ budget then
    taken ++ [candidate]
  else taken

def takeAll (budget : U64) (candidates : List ContextCandidate) : List ContextCandidate :=
  candidates.foldl (take budget) []

theorem takeAll_concat (budget : U64) (candidates : List ContextCandidate)
    (candidate : ContextCandidate) : takeAll budget (candidates ++ [candidate]) =
      take budget (takeAll budget candidates) candidate :=
  foldl_concat ..

theorem totalTokens_concat (candidates : List ContextCandidate) (candidate : ContextCandidate) :
    totalTokens (candidates ++ [candidate]) =
      saturatingAdd (totalTokens candidates) candidate.estimatedTokens := by
  rw [totalTokens, map_append, map_singleton, saturatingSum_concat, totalTokens]

/-- What a candidate would bring the tokens to after those before it. -/
def tokensWith (budget : U64) (before : List ContextCandidate) (candidate : ContextCandidate) :
    U64 :=
  saturatingAdd (totalTokens (takeAll budget before)) candidate.estimatedTokens

/-- The candidate does not fit into what those before it leave of the budget. -/
def Overflows (budget : U64) (before : List ContextCandidate) (candidate : ContextCandidate) :
    Prop :=
  candidate.mandatory = false ∧ budget < tokensWith budget before candidate

/-- The candidate is the first one of its content and does not fit. -/
def ContextAdmissionRequest.LeftOver (request : ContextAdmissionRequest)
    (candidate : ContextCandidate) : Prop :=
  ∃ before after, distinct request.ordered = before ++ candidate :: after ∧
    Overflows request.budget before candidate

/-- The content can be left out without a trace. -/
def ContextCandidate.Disposable (candidate : ContextCandidate) : Prop :=
  candidate.retention = .dropAllowed ∧ candidate.recovery = none

/-- A first candidate that does not fit and has no recovery stands for disposable ones only. -/
def ContextAdmissionRequest.Covered (request : ContextAdmissionRequest) : Prop :=
  ∀ candidate, request.LeftOver candidate → candidate.recovery = none →
    ∀ other ∈ request.candidates, other.contentIdentity = candidate.contentIdentity →
      other.Disposable

/-- No content is lost that some candidate asks to keep or to recover. -/
structure NeverLost (request : ContextAdmissionRequest) (result : ContextAdmissionResult) :
    Prop where
  omitted : ∀ item ∈ result.admitted, item.form = .omitted → ∀ candidate ∈ request.candidates,
    candidate.contentIdentity = item.contentIdentity → candidate.Disposable
  referenced : ∀ item ∈ result.admitted, item.form = .reference → item.recovery.isSome
  projected : ∀ candidate ∈ request.candidates, candidate.retention ≠ .dropAllowed →
    ∃ item ∈ result.admitted, item.contentIdentity = candidate.contentIdentity ∧
      (item.form = .full ∨ item.form = .reference ∧ item.recovery.isSome)

variable {candidate : ContextCandidate}

/-- What each form says of the candidate that is given it. -/
theorem ContextCandidate.formOf_eq_ok {fits : Bool} {form : ContextProjectionForm} :
    candidate.formOf fits = .ok form ↔
      (candidate.mandatory = true ∨ fits = true) ∧ form = .full ∨
      (candidate.mandatory = false ∧ fits = false) ∧
        (candidate.recovery.isSome = true ∧ form = .reference ∨
          candidate.Disposable ∧ form = .omitted) := by
  unfold formOf Disposable
  cases candidate.mandatory <;> cases fits <;> cases candidate.recovery <;>
    simp [eq_comm]
  split_ifs with hdrop <;> simp [hdrop]

/-- The item is what becomes of a candidate in its place. -/
def Decided (budget : U64) (kept : List ContextCandidate) (item : AdmittedContextItem) : Prop :=
  ∃ before candidate after form, kept = before ++ candidate :: after ∧
    candidate.formOf (tokensWith budget before candidate ≤ budget) = .ok form ∧
      item = candidate.projected form

variable {budget : U64}

theorem decided_concat {kept : List ContextCandidate} {form : ContextProjectionForm}
    {item : AdmittedContextItem}
    (h : candidate.formOf (tokensWith budget kept candidate ≤ budget) = .ok form) :
    Decided budget (kept ++ [candidate]) item ↔
      Decided budget kept item ∨ item = candidate.projected form := by
  constructor
  · rintro ⟨before,c,after,f,hkept,hform,rfl⟩
    rcases concat_eq_append_cons.mp hkept with ⟨rest,rfl,rfl⟩ | ⟨rfl,rfl,rfl⟩
    · exact .inl ⟨before,c,rest,f,rfl,hform,rfl⟩
    · rw [h] at hform
      cases hform
      exact .inr rfl
  · rintro (⟨before,c,after,f,rfl,hform,rfl⟩ | rfl)
    · exact ⟨before,c,after ++ [candidate],f,by simp,hform,rfl⟩
    · exact ⟨kept,candidate,[],form,rfl,h,rfl⟩

/-- The variables of the loop after the candidates of a list. -/
structure AdmissionState.After (budget : U64) (candidates : List ContextCandidate)
    (state : AdmissionState) : Prop where
  identities : ∀ identity,
    identity ∈ state.identities.keys ↔ identity ∈ (distinct candidates).map (·.contentIdentity)
  used : state.used = totalTokens (takeAll budget (distinct candidates))
  full : state.admitted.filter (·.form = .full) =
    (takeAll budget (distinct candidates)).map (·.projected .full)
  admitted : ∀ item, item ∈ state.admitted ↔ Decided budget (distinct candidates) item
  projected : ∃ forms : List (ContextCandidate × ContextProjectionForm),
    forms.map Prod.fst = distinct candidates ∧
    state.admitted = forms.map fun form => form.1.projected form.2
  decided : ∀ before candidate after, distinct candidates = before ++ candidate :: after →
    ∃ form, candidate.formOf (tokensWith budget before candidate ≤ budget) = .ok form

theorem AdmissionState.After.empty (budget : U64) : After budget [] .empty where
  identities identity := by simp [AdmissionState.empty, distinct, firsts, BTreeMap.empty]
  used := rfl
  full := rfl
  admitted item := by simp [AdmissionState.empty, distinct, firsts, Decided]
  projected := ⟨[],rfl,rfl⟩
  decided before candidate after h := by simp [distinct, firsts] at h

variable {candidates : List ContextCandidate}

theorem AdmissionState.After.consider {state next : AdmissionState}
    (h : After budget candidates state) (hnext : state.consider budget candidate = .ok next) :
    After budget (candidates ++ [candidate]) next := by
  unfold AdmissionState.consider at hnext
  split_ifs at hnext with hseen
  · have hdistinct : distinct (candidates ++ [candidate]) = distinct candidates := by
      rw [distinct_concat, keepNew, if_pos ((h.identities _).mp hseen)]
    cases hnext
    constructor
    · simpa only [hdistinct] using h.identities
    · simpa only [hdistinct] using h.used
    · simpa only [hdistinct] using h.full
    · simpa only [hdistinct] using h.admitted
    · simpa only [hdistinct] using h.projected
    · simpa only [hdistinct] using h.decided
  · have hdistinct : distinct (candidates ++ [candidate]) = distinct candidates ++ [candidate] := by
      rw [distinct_concat, keepNew, if_neg (mt (h.identities _).mpr hseen)]
    obtain ⟨form,hform,rfl⟩ := map_eq_ok.mp hnext
    rw [h.used, ← tokensWith] at hform
    have htaken : takeAll budget (distinct candidates ++ [candidate]) =
        if form = .full then takeAll budget (distinct candidates) ++ [candidate]
        else takeAll budget (distinct candidates) := by
      rw [takeAll_concat, take, ← tokensWith]
      rcases formOf_eq_ok.mp hform with
        ⟨hfull,rfl⟩ | ⟨⟨hoptional,hover⟩,⟨-,rfl⟩ | ⟨-,rfl⟩⟩
      · rw [if_pos (by simpa using hfull), if_pos rfl]
      · rw [if_neg (by simpa [hoptional] using hover), if_neg (by decide)]
      · rw [if_neg (by simpa [hoptional] using hover), if_neg (by decide)]
    constructor
    · simp [hdistinct, push, h.identities, or_comm]
    · rw [hdistinct, htaken]
      cases form with
      | full => rw [if_pos rfl, totalTokens_concat, ← h.used]; rfl
      | reference => rw [if_neg (by decide), ← h.used]; rfl
      | omitted => rw [if_neg (by decide), ← h.used]; rfl
    · rw [hdistinct, htaken, push, filter_append, h.full]
      cases form with
      | full => simp [ContextCandidate.projected]
      | reference => simp [ContextCandidate.projected]
      | omitted => simp [ContextCandidate.projected]
    · intro item
      rw [hdistinct, decided_concat hform, ← h.admitted]
      simp [push]
    · obtain ⟨forms,hcandidates,hadmitted⟩ := h.projected
      refine ⟨forms ++ [(candidate,form)],?_,?_⟩
      · rw [map_append, hcandidates, hdistinct, map_singleton]
      · rw [push, hadmitted, map_append, map_singleton]
    · intro before c after hsplit
      rw [hdistinct] at hsplit
      rcases concat_eq_append_cons.mp hsplit with ⟨rest,-,hkept⟩ | ⟨-,rfl,rfl⟩
      · exact h.decided before c rest hkept
      · exact ⟨form,hform⟩

theorem AdmissionState.After.foldlM {more : List ContextCandidate} {state last : AdmissionState}
    (h : After budget candidates state)
    (hlast : more.foldlM (AdmissionState.consider budget) state = .ok last) :
    After budget (candidates ++ more) last := by
  induction more generalizing candidates state with
  | nil =>
    cases hlast
    rwa [append_nil]
  | cons candidate more ih =>
    rw [foldlM_cons, bind_eq_ok] at hlast
    obtain ⟨next,hnext,hlast⟩ := hlast
    rw [append_cons]
    exact ih (h.consider hnext) hlast

namespace ContextAdmissionRequest
variable {request : ContextAdmissionRequest} {result : ContextAdmissionResult}

section
variable (h : request.admission = .ok result)
include h

theorem exists_after : ∃ state,
    AdmissionState.After request.budget request.ordered state ∧
      result.admitted = state.admitted ∧ result.usedInputTokens = state.used := by
  unfold admission at h
  split_ifs at h
  obtain ⟨state,hstate,rfl⟩ := map_eq_ok.mp h
  exact ⟨state,(AdmissionState.After.empty request.budget).foldlM hstate,rfl,rfl⟩

/-- The items are what becomes of the first candidates. -/
theorem mem_admitted {item : AdmittedContextItem} :
    item ∈ result.admitted ↔ Decided request.budget (distinct request.ordered) item := by
  obtain ⟨state,hafter,hadmitted,-⟩ := exists_after h
  rw [hadmitted, hafter.admitted]

/-- An item that is only referenced can be recovered. -/
theorem recovery_of_reference {item : AdmittedContextItem}
    (hitem : item ∈ result.admitted) (hform : item.form = .reference) : item.recovery.isSome := by
  obtain ⟨before,first,after,form,-,hfirst,rfl⟩ := (mem_admitted h).mp hitem
  obtain rfl : form = .reference := hform
  rcases formOf_eq_ok.mp hfirst with ⟨-,hform⟩ | ⟨-,⟨hsome,-⟩ | ⟨-,hform⟩⟩
  · cases hform
  · exact hsome
  · cases hform

variable {candidate : ContextCandidate}

/-- Every place among the first candidates has an item. -/
theorem exists_form {before after : List ContextCandidate}
    (hkept : distinct request.ordered = before ++ candidate :: after) :
    ∃ form, candidate.formOf (tokensWith request.budget before candidate ≤ request.budget) =
      .ok form ∧ candidate.projected form ∈ result.admitted := by
  obtain ⟨state,hafter,hadmitted,-⟩ := exists_after h
  obtain ⟨form,hform⟩ := hafter.decided before candidate after hkept
  exact ⟨form,hform,(mem_admitted h).mpr ⟨before,candidate,after,form,hkept,hform,rfl⟩⟩

/-- Every candidate has an item of its content. -/
theorem exists_item (hc : candidate ∈ request.candidates) :
    ∃ item ∈ result.admitted, item.contentIdentity = candidate.contentIdentity := by
  have hseen : candidate.contentIdentity ∈ (distinct request.ordered).map (·.contentIdentity) :=
    (mem_map_firsts _).mpr (mem_map_of_mem (request.mem_ordered.mpr hc))
  obtain ⟨first,hfirst,hcontent⟩ := mem_map.mp hseen
  obtain ⟨before,after,hkept⟩ := append_of_mem hfirst
  obtain ⟨form,-,hitem⟩ := exists_form h hkept
  exact ⟨first.projected form,hitem,hcontent⟩

end

end ContextAdmissionRequest

/-- Admission loses nothing if and only if every candidate that is left over without a
recovery is a disposable one, and so are the other candidates of its content. -/
theorem never_lost_iff {request : ContextAdmissionRequest} {result : ContextAdmissionResult}
    (h : request.admission = .ok result) : NeverLost request result ↔ request.Covered := by
  constructor
  · rintro hlost candidate ⟨before,after,hkept,hoptional,hover⟩ hrecovery
    obtain ⟨form,hform,hitem⟩ := request.exists_form h hkept
    have homitted : form = .omitted := by
      rcases formOf_eq_ok.mp hform with
        ⟨hfull,-⟩ | ⟨-,⟨hsome,-⟩ | ⟨-,hform⟩⟩
      · simp [hoptional, hover.not_ge] at hfull
      · simp [hrecovery] at hsome
      · exact hform
    subst homitted
    exact hlost.omitted _ hitem rfl
  · intro hcovered
    have homitted : ∀ item ∈ result.admitted, item.form = .omitted →
        ∀ candidate ∈ request.candidates, candidate.contentIdentity = item.contentIdentity →
          candidate.Disposable := by
      intro item hitem hform
      obtain ⟨before,first,after,form,hkept,hfirst,rfl⟩ := (request.mem_admitted h).mp hitem
      obtain rfl : form = .omitted := hform
      rcases formOf_eq_ok.mp hfirst with
        ⟨-,hform⟩ | ⟨⟨hoptional,hover⟩,⟨-,hform⟩ | ⟨hdisposable,-⟩⟩
      · cases hform
      · cases hform
      · have hleft : request.LeftOver first :=
          ⟨before,after,hkept,hoptional,not_le.mp (of_decide_eq_false hover)⟩
        exact hcovered first hleft hdisposable.2
    refine ⟨homitted,fun item hitem => request.recovery_of_reference h hitem,
      fun candidate hc hretention => ?_⟩
    obtain ⟨item,hitem,hcontent⟩ := request.exists_item h hc
    refine ⟨item,hitem,hcontent,?_⟩
    cases hform : item.form with
    | full => exact .inl rfl
    | reference => exact .inr ⟨rfl,request.recovery_of_reference h hitem hform⟩
    | omitted => exact absurd (homitted item hitem hform candidate hc hcontent.symm).1 hretention

/-- Some optional candidate without a recovery. -/
def noteCandidate (id contentIdentity : String) (retention : ContextRetention)
    (cache : CachePlacement) : ContextCandidate where
  id := id
  source := .inline id
  contentIdentity := contentIdentity
  content := [1,2,3]
  estimatedTokens := 20
  mandatory := false
  retention := retention
  cache := cache
  recovery := none

def noteRequest (candidates : List ContextCandidate) : ContextAdmissionRequest where
  executionId := "execution"
  stepPlan := ⟨"policy",⟨0,10⟩⟩
  candidates := candidates
  cacheEpoch := 1

/-- The answer to a request of one note that may be dropped, with any more of its content. -/
def noteResult (deduplicated : U32) : ContextAdmissionResult where
  executionId := "execution"
  policyRevision := "policy"
  cacheEpoch := 1
  admitted := [(noteCandidate "draft" "note" .dropAllowed .stablePrefix).projected .omitted]
  usedInputTokens := 0
  omittedInputTokens := 20
  deduplicatedItems := deduplicated

theorem never_lost_iff_draft :
    NeverLost (noteRequest [noteCandidate "draft" "note" .dropAllowed .stablePrefix])
        (noteResult 0) ↔
      (noteRequest [noteCandidate "draft" "note" .dropAllowed .stablePrefix]).Covered :=
  never_lost_iff (by rfl)

/-- The draft goes first for its cache placement, and the pinned note is lost with it. -/
theorem pinned_lost : ∃ request result, request.admission = .ok result ∧
    ∃ item ∈ result.admitted, item.form = .omitted ∧ ∃ candidate ∈ request.candidates,
      candidate.contentIdentity = item.contentIdentity ∧ candidate.retention = .pinned ∧
        ¬ NeverLost request result := by
  refine ⟨noteRequest [noteCandidate "kept" "note" .pinned .volatile,
    noteCandidate "draft" "note" .dropAllowed .stablePrefix],noteResult 1,by rfl,_,
    mem_singleton_self _,rfl,_,mem_cons_self,rfl,rfl,fun h => ?_⟩
  obtain ⟨item,hitem,-,hform⟩ := h.projected _ mem_cons_self (by decide)
  obtain rfl := mem_singleton.mp hitem
  simp [ContextCandidate.projected] at hform

end PhenixConductor.Context

/-! ## What admission spends

Mandatory candidates go first and fit into the budget together, and a candidate that is
not mandatory is taken only if it fits, so what is taken stays within the budget.
-/
namespace PhenixConductor.Context
open Collections OrderDual ContextCandidate List
open Execution (U64)

variable {candidates : List ContextCandidate}

theorem totalTokens_mono {more : List ContextCandidate} (h : candidates.Sublist more) :
    totalTokens candidates ≤ totalTokens more := by
  rw [Fin.le_def, totalTokens, totalTokens, val_saturatingSum, val_saturatingSum]
  exact min_le_min_right _ (((h.map _).map _).sum_le_sum fun n _ => Nat.zero_le n)

namespace ContextCandidate

def key (candidate : ContextCandidate) : Boolᵒᵈ ×ₗ CachePlacement ×ₗ ContextRetention ×ₗ String :=
  toLex (toDual candidate.mandatory,
    toLex (candidate.cache,toLex (candidate.retention,candidate.id)))

theorem compareWith_isLE (left right : ContextCandidate) :
    (left.compareWith right).isLE = true ↔ left.key ≤ right.key := by
  unfold compareWith key
  rw [isLE_then_iff, isLE_then_iff, isLE_then_iff, isLE_compare_iff, Prod.Lex.toLex_le_toLex,
    Prod.Lex.toLex_le_toLex, Prod.Lex.toLex_le_toLex, toDual_lt_toDual, toDual_inj]
  simp only [eq_comm]

theorem mandatory_of_key_le {left right : ContextCandidate} (h : left.key ≤ right.key)
    (hright : right.mandatory = true) : left.mandatory = true := by
  rw [key, key, Prod.Lex.toLex_le_toLex, hright] at h
  rcases h with h | ⟨h,-⟩
  · exact absurd h (by simp)
  · exact h

end ContextCandidate

theorem ContextAdmissionRequest.ordered_pairwise (request : ContextAdmissionRequest) :
    request.ordered.Pairwise fun left right => left.key ≤ right.key := by
  rw [ordered, insertionSort_eq_sortByKey compareWith_isLE]
  exact sortByKey_pairwise ..

theorem takeAll_sublist (budget : U64) (candidates : List ContextCandidate) :
    (takeAll budget candidates).Sublist candidates := by
  induction candidates using List.reverseRecOn with
  | nil => exact .slnil
  | append_singleton before c ih =>
    rw [takeAll_concat, take]
    split_ifs
    · exact ih.append_right [c]
    · exact ih.trans (sublist_append_left before [c])

theorem totalTokens_takeAll_le {budget : U64}
    (hsorted : candidates.Pairwise fun left right => left.key ≤ right.key)
    (hmandatory : totalTokens (candidates.filter (·.mandatory)) ≤ budget) :
    totalTokens (takeAll budget candidates) ≤ budget := by
  induction candidates using List.reverseRecOn with
  | nil => exact Fin.zero_le _
  | append_singleton before c ih =>
    obtain ⟨hbefore,-,hlast⟩ := pairwise_append.mp hsorted
    have hfilter : (before.filter (·.mandatory)).Sublist
        ((before ++ [c]).filter (·.mandatory)) :=
      (sublist_append_left before [c]).filter _
    rw [takeAll_concat, take]
    split_ifs with htake
    · cases hc : c.mandatory with
      | true =>
        -- nothing before a mandatory candidate is optional
        have hall : before.filter (·.mandatory) = before :=
          filter_eq_self.mpr fun b hb =>
            mandatory_of_key_le (hlast b hb c (mem_singleton_self c)) hc
        rw [filter_append, hall, filter_singleton, hc] at hmandatory
        exact (totalTokens_mono ((takeAll_sublist budget before).append_right [c])).trans hmandatory
      | false =>
        rw [totalTokens_concat]
        simpa [hc] using htake
    · exact ih hbefore ((totalTokens_mono hfilter).trans hmandatory)

namespace ContextAdmissionRequest
variable {request : ContextAdmissionRequest} {result : ContextAdmissionResult}

/-- The candidates that are taken, in order. -/
def taken (request : ContextAdmissionRequest) : List ContextCandidate :=
  takeAll request.budget (distinct request.ordered)

theorem taken_sublist : request.taken.Sublist (distinct request.ordered) :=
  takeAll_sublist ..

theorem mem_of_mem_taken {candidate : ContextCandidate} (h : candidate ∈ request.taken) :
    candidate ∈ request.candidates :=
  request.mem_ordered.mp ((firsts_sublist _ _).subset (taken_sublist.subset h))

theorem nodup_taken : request.taken.Nodup :=
  taken_sublist.nodup (List.Nodup.of_map _ (nodup_map_firsts _ _))

section
variable (h : request.admission = .ok result)
include h

/-- The items that are admitted in full are those of the candidates that are taken. -/
theorem filter_full :
    result.admitted.filter (·.form = .full) = request.taken.map (·.projected .full) := by
  obtain ⟨state,hafter,hadmitted,-⟩ := exists_after h
  rw [hadmitted, hafter.full, taken]

/-- An item is told apart from the others by its content. -/
theorem eq_of_contentIdentity {item other : AdmittedContextItem}
    (hitem : item ∈ result.admitted) (hother : other ∈ result.admitted)
    (hcontent : item.contentIdentity = other.contentIdentity) : item = other := by
  obtain ⟨state,hafter,hadmitted,-⟩ := exists_after h
  obtain ⟨forms,hcandidates,hforms⟩ := hafter.projected
  have hcontents : result.admitted.map (·.contentIdentity) =
      (distinct request.ordered).map (·.contentIdentity) := by
    rw [hadmitted, hforms, ← hcandidates, map_map, map_map]
    rfl
  have hnodup : (result.admitted.map (·.contentIdentity)).Nodup :=
    hcontents ▸ nodup_map_firsts _ _
  exact inj_on_of_nodup_map hnodup hitem hother hcontent

/-- The items stand in the order of their candidates. -/
theorem admitted_pairwise :
    result.admitted.Pairwise fun left right => ∃ c ∈ request.candidates, ∃ d ∈ request.candidates,
      ∃ f g, left = c.projected f ∧ right = d.projected g ∧ c.key ≤ d.key := by
  obtain ⟨state,hafter,hadmitted,-⟩ := exists_after h
  obtain ⟨forms,hcandidates,hforms⟩ := hafter.projected
  have hsorted : (forms.map Prod.fst).Pairwise fun c d => c.key ≤ d.key :=
    hcandidates ▸ request.ordered_pairwise.sublist (firsts_sublist _ _)
  have hmem : ∀ form ∈ forms, form.1 ∈ request.candidates := by
    intro form hform
    have hdistinct : form.1 ∈ distinct request.ordered := hcandidates ▸ mem_map_of_mem hform
    exact request.mem_ordered.mp ((firsts_sublist _ _).subset hdistinct)
  rw [hadmitted, hforms, pairwise_map]
  refine (pairwise_map.mp hsorted).imp_of_mem fun {p q} hp hq hkey => ?_
  exact ⟨p.1,hmem p hp,q.1,hmem q hq,p.2,q.2,rfl,rfl,hkey⟩

theorem usedInputTokens_eq :
    result.usedInputTokens = totalTokens request.taken := by
  obtain ⟨state,hafter,-,hused⟩ := exists_after h
  rw [hused, hafter.used, taken]

theorem usedInputTokens_le :
    result.usedInputTokens ≤ request.budget := by
  have hmandatory : totalTokens (request.ordered.filter (·.mandatory)) ≤ request.budget := by
    unfold admission at h
    split_ifs at h with hover
    rw [totalTokens, saturatingSum, foldl_map]
    exact not_lt.mp hover
  rw [usedInputTokens_eq h]
  have hsublist : (distinct request.ordered).Sublist request.ordered := firsts_sublist _ _
  apply totalTokens_takeAll_le (request.ordered_pairwise.sublist hsublist)
  exact (totalTokens_mono (hsublist.filter _)).trans hmandatory

end

end ContextAdmissionRequest

end PhenixConductor.Context

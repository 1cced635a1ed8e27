import PhenixConductor.Repository.Queue
import PhenixConductor.Collections.Digraph

/-! # Selection of work

The queue depends on the evidence, not on its order.
-/
namespace PhenixConductor.Repository
open Collections RepositoryWorkerQueue BTreeMap

/-! ### Order of the evidence -/

section Permutation
variable {K V : Type} [LinearOrder K]

theorem ofList_perm {l m : List (K × V)} (h : l.Perm m) (hl : (l.map (·.1)).Nodup) :
    ofList l = ofList m := by
  have hone : ∀ {l : List (K × V)}, (l.map (·.1)).Nodup →
      ∀ k v w, (k,v) ∈ l → (k,w) ∈ l → v = w := by
    intro l hl k v w hv hw
    exact congrArg Prod.snd (List.inj_on_of_nodup_map hl hv hw rfl)
  apply ext
  intro k
  apply Option.ext
  intro v
  rw [get?_ofList (hone hl),
    get?_ofList (hone ((h.map Prod.fst).nodup_iff.mp hl)),h.mem_iff]

theorem collect_perm {l m : List K} (h : l.Perm m) :
    BTreeSet.collect l = BTreeSet.collect m := by
  apply ext
  intro k
  have hkeys : k ∈ (BTreeSet.collect l).keys ↔ k ∈ (BTreeSet.collect m).keys := by
    rw [BTreeSet.mem_collect,BTreeSet.mem_collect,h.mem_iff]
  by_cases hk : k ∈ (BTreeSet.collect l).keys
  · rw [get?_of_mem _ hk,get?_of_mem _ (hkeys.mp hk)]
  · rw [(get?_eq_none _).mpr hk,(get?_eq_none _).mpr (hkeys.not.mp hk)]

theorem min?_perm {l m : List K} (h : l.Perm m) : l.min? = m.min? := by
  apply Option.ext
  intro a
  simp only [List.min?_eq_some_iff,h.mem_iff]

theorem sortNumbers_perm {l m : List ℕ} (h : l.Perm m) : sortNumbers l = sortNumbers m := by
  have hsorted : ∀ l : List ℕ, (sortNumbers l).Pairwise (· ≤ ·) := sortByKey_pairwise _
  have hperm : (sortNumbers l).Perm (sortNumbers m) :=
    (sortByKey_perm _ l).trans (h.trans (sortByKey_perm _ m).symm)
  exact hperm.eq_of_pairwise (fun a b _ _ => le_antisymm) (hsorted l) (hsorted m)

theorem toList_mapVal {W : Type} (m : BTreeMap K V) (f : V → W) :
    (m.mapVal f).toList = m.toList.map fun e => (e.1,f e.2) := by
  simp [toList,mapVal]

end Permutation

/-! ### Owners -/

theorem get?_addOwner (owners : BTreeMap String (ℕ ×ₗ ℕ)) (pr : RepositoryPullRequestEvidence)
    (key : String) : (addOwner owners pr).get? key =
      if key = pr.semanticKey then
        some (((owners.get? key).map fun current => min current pr.candidate).getD pr.candidate)
      else owners.get? key := by
  unfold addOwner
  by_cases hkey : key = pr.semanticKey
  · subst hkey
    cases howner : owners.get? pr.semanticKey with
    | none => simp
    | some current =>
      by_cases hle : current ≤ pr.candidate
      · simp [hle,howner]
      · simp [hle,min_eq_right (not_le.mp hle).le]
  · rw [if_neg hkey]
    cases owners.get? pr.semanticKey with
    | none => exact get?_insert_of_ne _ _ hkey
    | some current =>
      by_cases hle : current ≤ pr.candidate
      · simp [hle]
      · simp [hle,get?_insert_of_ne _ _ hkey]

/-- The candidates for a semantic key. -/
def candidates (prs : List RepositoryPullRequestEvidence) (key : String) : List (ℕ ×ₗ ℕ) :=
  (prs.filter fun pr => pr.semanticKey = key).map (·.candidate)

theorem get?_foldl_addOwner (prs : List RepositoryPullRequestEvidence)
    (owners : BTreeMap String (ℕ ×ₗ ℕ)) (key : String) :
    (prs.foldl addOwner owners).get? key =
      ((owners.get? key).toList ++ candidates prs key).min? := by
  induction prs generalizing owners with
  | nil => cases howner : owners.get? key <;> simp [candidates,howner]
  | cons pr prs ih =>
    rw [List.foldl_cons,ih,get?_addOwner]
    by_cases hkey : pr.semanticKey = key
    · have hmore : candidates (pr :: prs) key = pr.candidate :: candidates prs key := by
        simp [candidates,hkey]
      rw [if_pos hkey.symm,hmore]
      cases owners.get? key <;> rfl
    · rw [if_neg (Ne.symm hkey)]
      simp [candidates,hkey]

theorem get?_activeSemanticOwners (prs : List RepositoryPullRequestEvidence) (key : String) :
    (activeSemanticOwners prs).get? key =
      (candidates (openPullRequests prs) key).min?.map fun owner => (ofLex owner).2 := by
  rw [activeSemanticOwners,get?_mapVal,get?_foldl_addOwner]
  simp

theorem activeSemanticOwners_perm {prs prs' : List RepositoryPullRequestEvidence}
    (h : prs.Perm prs') : activeSemanticOwners prs = activeSemanticOwners prs' := by
  apply ext
  intro key
  rw [get?_activeSemanticOwners,get?_activeSemanticOwners]
  have hcandidates := ((h.filter (·.state = .open)).filter (·.semanticKey = key)).map
    RepositoryPullRequestEvidence.candidate
  exact congrArg _ (min?_perm hcandidates)

/-! ### Issues -/

theorem get?_foldl_addIssue (issues : List RepositoryIssueEvidence)
    (clusters : BTreeMap String (List ℕ)) (key : String) :
    (issues.foldl addIssue clusters).get? key =
      if (issues.filter (·.semanticKey = key)) = [] then clusters.get? key
      else some ((clusters.get? key).getD [] ++
        (issues.filter (·.semanticKey = key)).map (·.number)) := by
  induction issues generalizing clusters with
  | nil => rfl
  | cons issue issues ih =>
    rw [List.foldl_cons,ih,addIssue]
    by_cases hkey : issue.semanticKey = key
    · subst hkey
      by_cases hrest : issues.filter (·.semanticKey = issue.semanticKey) = []
      · simp [hrest]
      · simp [hrest,List.append_assoc]
    · rw [get?_insert_of_ne _ _ (Ne.symm hkey)]
      simp [hkey]

theorem aggregateIssues_perm {issues issues' : List RepositoryIssueEvidence}
    (h : issues.Perm issues') (owners : BTreeMap String ℕ) :
    aggregateIssues issues owners = aggregateIssues issues' owners := by
  have hopen := h.filter (·.isOpen)
  have hclusters : ((issues.filter (·.isOpen)).foldl addIssue .empty).mapVal sortNumbers =
      ((issues'.filter (·.isOpen)).foldl addIssue .empty).mapVal sortNumbers := by
    apply ext
    intro key
    have hkey := hopen.filter (·.semanticKey = key)
    have hnil : ((issues.filter (·.isOpen)).filter (·.semanticKey = key)) = [] ↔
        ((issues'.filter (·.isOpen)).filter (·.semanticKey = key)) = [] := by
      rw [← List.length_eq_zero_iff,← List.length_eq_zero_iff,hkey.length_eq]
    rw [get?_mapVal,get?_mapVal,get?_foldl_addIssue,get?_foldl_addIssue]
    simp only [hnil]
    split_ifs
    · rfl
    · rw [Option.map_some,Option.map_some,
        sortNumbers_perm ((hkey.map _).append_left _)]
  have hlist := congrArg (fun m : BTreeMap String (List ℕ) => m.toList.map fun e =>
    (⟨e.1,e.2,owners.get? e.1⟩ : RepositoryIssueCluster)) hclusters
  simp only [toList_mapVal,List.map_map] at hlist
  exact hlist

/-! ### The queue -/

section Snapshots
variable {s s' : RepositoryWorkSnapshot}

/-- The pull requests have different numbers. -/
def Distinct (s : RepositoryWorkSnapshot) : Prop := (s.pullRequests.map (·.number)).Nodup

section
variable (hprs : s.pullRequests.Perm s'.pullRequests)
include hprs

theorem greenBoundaries_perm (hs : Distinct s) :
    greenBoundaries s = greenBoundaries s' := by
  apply ofList_perm (hprs.map _)
  rw [List.map_map]
  exact hs

theorem dependencyBlockers_perm :
    dependencyBlockers s = dependencyBlockers s' :=
  collect_perm ((hprs.filter _).flatMap_right _)

theorem reconstructPullRequest_perm
    (hissues : s.issues.Perm s'.issues) (hs : Distinct s) (pr : RepositoryPullRequestEvidence) :
    reconstructPullRequest s pr = reconstructPullRequest s' pr := by
  have htrace : sortNumbers ((s.issues.filter fun issue =>
      issue.isOpen && issue.semanticKey = pr.semanticKey).map (·.number)) =
        sortNumbers ((s'.issues.filter fun issue =>
          issue.isOpen && issue.semanticKey = pr.semanticKey).map (·.number)) :=
    sortNumbers_perm ((hissues.filter _).map _)
  have hsatisfied : ∀ dependency, (s.pullRequests.any fun candidate =>
      candidate.number = dependency && candidate.state = .merged &&
        ((greenBoundaries s).get? dependency).getD false) =
      s'.pullRequests.any fun candidate => candidate.number = dependency &&
        candidate.state = .merged && ((greenBoundaries s').get? dependency).getD false := by
    intro dependency
    rw [greenBoundaries_perm hprs hs]
    exact hprs.any_eq
  unfold reconstructPullRequest
  simp only [htrace,hsatisfied,activeSemanticOwners_perm hprs,dependencyBlockers_perm hprs]

theorem reconstruct_perm
    (hissues : s.issues.Perm s'.issues) (hs : Distinct s) :
    reconstruct s = reconstruct s' := by
  have hentries : (s.pullRequests.map fun pr => (pr.number,reconstructPullRequest s pr)).Perm
      (s'.pullRequests.map fun pr => (pr.number,reconstructPullRequest s' pr)) := by
    simp only [reconstructPullRequest_perm hprs hissues hs]
    exact hprs.map _
  unfold reconstruct
  rw [ofList_perm hentries (by rw [List.map_map]; exact hs),activeSemanticOwners_perm hprs,
    aggregateIssues_perm hissues]

end

variable {pr : RepositoryPullRequestEvidence}

theorem number_injective (hs : Distinct s) {pr' : RepositoryPullRequestEvidence}
    (hpr : pr ∈ s.pullRequests) (hpr' : pr' ∈ s.pullRequests) (h : pr.number = pr'.number) :
    pr = pr' :=
  List.inj_on_of_nodup_map hs hpr hpr' h

theorem pullRequest_eq_some (hs : Distinct s) {number : ℕ} {r : ReconstructedPullRequest} :
    (reconstruct s).pullRequest number = some r ↔
      ∃ pr ∈ s.pullRequests, pr.number = number ∧ reconstructPullRequest s pr = r := by
  rw [pullRequest,reconstruct,get?_ofList]
  · simp
  · intro k v w hv hw
    obtain ⟨pr,hpr,he⟩ := List.mem_map.mp hv
    obtain ⟨pr',hpr',he'⟩ := List.mem_map.mp hw
    cases he
    obtain ⟨hnumber,rfl⟩ := Prod.mk.inj he'
    rw [number_injective hs hpr' hpr hnumber]

/-- The pull request is open and comes first among the open ones of its key. -/
structure Owner (s : RepositoryWorkSnapshot) (pr : RepositoryPullRequestEvidence) : Prop where
  mem : pr ∈ s.pullRequests
  state : pr.state = .open
  least : ∀ other ∈ s.pullRequests, other.state = .open → other.semanticKey = pr.semanticKey →
    pr.candidate ≤ other.candidate

/-- A merged pull request at a green boundary has the number. -/
def MergedGreen (s : RepositoryWorkSnapshot) (number : ℕ) : Prop :=
  ∃ pr ∈ s.pullRequests, pr.number = number ∧ pr.state = .merged ∧ rawGreenBoundary pr = true

theorem mem_candidates {key : String} {candidate : ℕ ×ₗ ℕ} :
    candidate ∈ candidates (openPullRequests s.pullRequests) key ↔
      ∃ pr ∈ s.pullRequests, pr.state = .open ∧ pr.semanticKey = key ∧ pr.candidate = candidate := by
  simp [candidates,openPullRequests,and_assoc,and_left_comm]

/-- Every key of an open pull request has an owner. -/
theorem exists_owner (hpr : pr ∈ s.pullRequests) (hopen : pr.state = .open) :
    ∃ owner, Owner s owner ∧ owner.semanticKey = pr.semanticKey := by
  cases hleast : (candidates (openPullRequests s.pullRequests) pr.semanticKey).min? with
  | none =>
    have hmem : pr.candidate ∈ candidates (openPullRequests s.pullRequests) pr.semanticKey :=
      mem_candidates.mpr ⟨pr,hpr,hopen,rfl,rfl⟩
    rw [List.min?_eq_none_iff.mp hleast] at hmem
    cases hmem
  | some least =>
    obtain ⟨hmem,hle⟩ := List.min?_eq_some_iff.mp hleast
    obtain ⟨owner,howner,hstate,hkey,rfl⟩ := mem_candidates.mp hmem
    refine ⟨owner,⟨howner,hstate,fun other hother hotherOpen hsame => ?_⟩,hkey⟩
    exact hle _ (mem_candidates.mpr ⟨other,hother,hotherOpen,hsame.trans hkey,rfl⟩)

theorem Owner.get? {owner : RepositoryPullRequestEvidence} (h : Owner s owner) :
    (activeSemanticOwners s.pullRequests).get? owner.semanticKey = some owner.number := by
  have hleast : (candidates (openPullRequests s.pullRequests) owner.semanticKey).min? =
      some owner.candidate := by
    refine List.min?_eq_some_iff.mpr ⟨mem_candidates.mpr ⟨owner,h.mem,h.state,rfl,rfl⟩,?_⟩
    intro candidate hcandidate
    obtain ⟨other,hother,hopen,hkey,rfl⟩ := mem_candidates.mp hcandidate
    exact h.least other hother hopen hkey
  rw [get?_activeSemanticOwners,hleast]
  rfl

theorem Owner.unique (hs : Distinct s) {owner other : RepositoryPullRequestEvidence}
    (h : Owner s owner) (h' : Owner s other) (hkey : other.semanticKey = owner.semanticKey) :
    other = owner := by
  have hsame := h'.get?
  rw [hkey,h.get?] at hsame
  exact number_injective hs h'.mem h.mem (Option.some.inj hsame).symm

theorem duplicateOf_eq_none (hs : Distinct s) (hpr : pr ∈ s.pullRequests) (hopen : pr.state = .open) :
    (reconstructPullRequest s pr).duplicateOf = none ↔ Owner s pr := by
  obtain ⟨owner,howner,hkey⟩ := exists_owner hpr hopen
  have hget := howner.get?
  rw [hkey] at hget
  change ((activeSemanticOwners s.pullRequests).get? pr.semanticKey).filter _ = none ↔ _
  rw [hget]
  constructor
  · intro hnone
    have hnumber : owner.number = pr.number := by simpa using hnone
    exact number_injective hs howner.mem hpr hnumber ▸ howner
  · intro h
    rw [howner.unique hs h hkey.symm]
    simp

theorem dependenciesSatisfied_iff (hs : Distinct s) (pr : RepositoryPullRequestEvidence) :
    (reconstructPullRequest s pr).dependenciesSatisfied = true ↔
      ∀ dependency ∈ pr.dependencies.keys, MergedGreen s dependency := by
  have hgreen : ∀ candidate ∈ s.pullRequests,
      (greenBoundaries s).get? candidate.number = some (rawGreenBoundary candidate) := by
    intro candidate hcandidate
    rw [greenBoundaries,get?_ofList]
    · exact List.mem_map.mpr ⟨candidate,hcandidate,rfl⟩
    · intro k v w hv hw
      obtain ⟨a,ha,he⟩ := List.mem_map.mp hv
      obtain ⟨b,hb,he'⟩ := List.mem_map.mp hw
      cases he
      obtain ⟨hnumber,rfl⟩ := Prod.mk.inj he'
      rw [number_injective hs hb ha hnumber]
  change pr.dependencies.keys.all _ = true ↔ _
  rw [List.all_eq_true]
  refine forall₂_congr fun dependency _ => ?_
  rw [List.any_eq_true]
  refine exists_congr fun candidate => and_congr_right fun hcandidate => ?_
  simp only [Bool.and_eq_true,decide_eq_true_eq,and_assoc]
  refine and_congr_right fun hnumber => and_congr_right fun _ => ?_
  rw [← hnumber,hgreen candidate hcandidate,Option.getD_some]

/-- The work that may be selected. -/
structure Eligible (s : RepositoryWorkSnapshot) (pr : RepositoryPullRequestEvidence) : Prop where
  owner : Owner s pr
  satisfied : ∀ dependency ∈ pr.dependencies.keys, MergedGreen s dependency

theorem selectable_iff (hs : Distinct s) (hpr : pr ∈ s.pullRequests) :
    (reconstructPullRequest s pr).selectable = true ↔ Eligible s pr := by
  have hstate : (reconstructPullRequest s pr).state = pr.state := rfl
  rw [ReconstructedPullRequest.selectable,Bool.and_eq_true,Bool.and_eq_true,decide_eq_true_eq,
    Option.isNone_iff_eq_none,dependenciesSatisfied_iff hs,hstate]
  constructor
  · rintro ⟨⟨hopen,hduplicate⟩,hsatisfied⟩
    exact ⟨(duplicateOf_eq_none hs hpr hopen).mp hduplicate,hsatisfied⟩
  · rintro ⟨howner,hsatisfied⟩
    exact ⟨⟨howner.state,(duplicateOf_eq_none hs hpr howner.state).mpr howner⟩,hsatisfied⟩

theorem mem_selectable (hs : Distinct s) {r : ReconstructedPullRequest} :
    r ∈ (reconstruct s).pullRequests.values.filter (·.selectable) ↔
      ∃ pr, Eligible s pr ∧ reconstructPullRequest s pr = r := by
  rw [List.mem_filter,mem_values]
  constructor
  · rintro ⟨⟨number,hget⟩,hselectable⟩
    obtain ⟨pr,hpr,-,rfl⟩ := (pullRequest_eq_some hs).mp hget
    exact ⟨pr,(selectable_iff hs hpr).mp hselectable,rfl⟩
  · rintro ⟨pr,hpr,rfl⟩
    exact ⟨⟨pr.number,(pullRequest_eq_some hs).mpr ⟨pr,hpr.owner.mem,rfl,rfl⟩⟩,
      (selectable_iff hs hpr.owner.mem).mpr hpr⟩

theorem selectWork_eq_some (hs : Distinct s) {selection : RepositoryWorkSelection}
    (h : (reconstruct s).selectWork = some selection) :
    ∃ pr, Eligible s pr ∧
      selection = ⟨pr.number,selectionReason (reconstructPullRequest s pr)⟩ ∧
      ∀ other, Eligible s other → (reconstructPullRequest s pr).selectionKey ≤
        (reconstructPullRequest s other).selectionKey := by
  obtain ⟨r,hr,rfl⟩ := Option.map_eq_some_iff.mp h
  obtain ⟨pr,hpr,rfl⟩ := (mem_selectable hs).mp (List.argmin_mem hr)
  refine ⟨pr,hpr,rfl,fun other hother => ?_⟩
  exact List.le_of_mem_argmin ((mem_selectable hs).mpr ⟨other,hother,rfl⟩) hr

theorem selectWork_eq_none (hs : Distinct s) :
    (reconstruct s).selectWork = none ↔ ∀ pr, ¬Eligible s pr := by
  rw [selectWork,Option.map_eq_none_iff,List.argmin_eq_none]
  constructor
  · intro hnil pr hpr
    have hmem := (mem_selectable hs).mpr ⟨pr,hpr,rfl⟩
    rw [hnil] at hmem
    cases hmem
  · intro hnone
    refine List.eq_nil_iff_forall_not_mem.mpr fun r hr => ?_
    obtain ⟨pr,hpr,-⟩ := (mem_selectable hs).mp hr
    exact hnone pr hpr

/-! ### Progress -/

/-- An open pull request depends on another one. -/
def DependsOn (s : RepositoryWorkSnapshot) (pr dependency : RepositoryPullRequestEvidence) : Prop :=
  (pr ∈ s.pullRequests ∧ pr.state = .open) ∧ (dependency ∈ s.pullRequests ∧
    dependency.state = .open) ∧ dependency.number ∈ pr.dependencies.keys

/-- Every dependency of an open pull request is an owner or merged at a green boundary. -/
def Resolvable (s : RepositoryWorkSnapshot) : Prop :=
  ∀ pr ∈ s.pullRequests, pr.state = .open → ∀ dependency ∈ pr.dependencies.keys,
    (∃ owner, Owner s owner ∧ owner.number = dependency) ∨ MergedGreen s dependency

/-- An owner at the end of a path of dependencies has only merged ones. -/
theorem exists_eligible (hacyclic : Acyclic (DependsOn s)) (hresolvable : Resolvable s)
    (hpr : Owner s pr) : ∃ eligible, Eligible s eligible := by
  have hfinite : {pr | pr ∈ s.pullRequests}.Finite := List.finite_toSet _
  have hgrounded := grounded_of_acyclic hfinite (fun _ _ h => h.1.1) hacyclic pr
  induction hgrounded with
  | intro pr _ ih =>
    by_cases hopen : ∃ dependency ∈ pr.dependencies.keys, ¬MergedGreen s dependency
    · obtain ⟨dependency,hdependency,hunmerged⟩ := hopen
      obtain ⟨owner,howner,rfl⟩ :=
        (hresolvable pr hpr.mem hpr.state dependency hdependency).resolve_right hunmerged
      exact ih owner ⟨⟨hpr.mem,hpr.state⟩,⟨howner.mem,howner.state⟩,hdependency⟩ howner
    · refine ⟨pr,hpr,fun dependency hdependency => ?_⟩
      by_contra hunmerged
      exact hopen ⟨dependency,hdependency,hunmerged⟩

/-- The queue is a function of the evidence as a set; of the open pull requests of a key exactly
the first is no duplicate; the selected work is the first eligible one; and there is some if open
dependencies have no cycle and can be resolved. -/
theorem selection_lawful (s : RepositoryWorkSnapshot) (hs : Distinct s) :
    (∀ s' : RepositoryWorkSnapshot, s.pullRequests.Perm s'.pullRequests →
      s.issues.Perm s'.issues → reconstruct s' =
        reconstruct s) ∧
    (∀ pr ∈ s.pullRequests, pr.state = .open → ∃ owner ∈ s.pullRequests, owner.state = .open ∧
      owner.semanticKey = pr.semanticKey ∧
      ∀ other ∈ s.pullRequests, other.state = .open → other.semanticKey = pr.semanticKey →
        owner.candidate ≤ other.candidate ∧ ∃ r,
          (reconstruct s).pullRequest other.number = some r ∧
            (r.duplicateOf = none ↔ other = owner)) ∧
    (∀ selection, (reconstruct s).selectWork = some selection →
      ∃ pr, Eligible s pr ∧
        selection = ⟨pr.number,selectionReason (reconstructPullRequest s pr)⟩ ∧
        ∀ other, Eligible s other → (reconstructPullRequest s pr).selectionKey ≤
          (reconstructPullRequest s other).selectionKey) ∧
    ((reconstruct s).selectWork = none → ∀ pr, ¬Eligible s pr) ∧
    ((∃ pr ∈ s.pullRequests, pr.state = .open) → Acyclic (DependsOn s) → Resolvable s →
      ∃ selection, (reconstruct s).selectWork = some selection) := by
  refine ⟨fun s' hprs hissues => (reconstruct_perm hprs hissues hs).symm,fun pr hpr hopen => ?_,
    fun selection => selectWork_eq_some hs,(selectWork_eq_none hs).mp,?_⟩
  · obtain ⟨owner,howner,hkey⟩ := exists_owner hpr hopen
    refine ⟨owner,howner.mem,howner.state,hkey,fun other hother hotherOpen hsame => ?_⟩
    refine ⟨howner.least other hother hotherOpen (hsame.trans hkey.symm),_,
      (pullRequest_eq_some hs).mpr ⟨other,hother,rfl,rfl⟩,?_⟩
    rw [duplicateOf_eq_none hs hother hotherOpen]
    constructor
    · exact fun h => howner.unique hs h (hsame.trans hkey.symm)
    · rintro rfl
      exact howner
  · rintro ⟨pr,hpr,hopen⟩ hacyclic hresolvable
    obtain ⟨owner,howner,-⟩ := exists_owner hpr hopen
    obtain ⟨eligible,heligible⟩ := exists_eligible hacyclic hresolvable howner
    cases hselect : (reconstruct s).selectWork with
    | none => exact absurd heligible ((selectWork_eq_none hs).mp hselect eligible)
    | some selection => exact ⟨selection,rfl⟩

end Snapshots

section Guide

def greenValidation : RepositoryValidation :=
  ⟨.success,.success,.success,.success,.success,.success⟩

/-- A pull request with one proven checklist item. -/
def guidePullRequest (number : ℕ) (semanticKey : String) (state : RepositoryPullRequestState)
    (dependencies : List ℕ) : RepositoryPullRequestEvidence :=
  ⟨number,semanticKey,number,state,false,"head","main",true,.collect dependencies,
    "- [ ] implementation",[⟨"implementation",true⟩],[],false,false,greenValidation⟩

def guideSnapshot : RepositoryWorkSnapshot :=
  ⟨[guidePullRequest 11 "dependent" .open [10],guidePullRequest 10 "predecessor" .merged []],[]⟩

theorem guide_open {pr : RepositoryPullRequestEvidence} (hpr : pr ∈ guideSnapshot.pullRequests)
    (hopen : pr.state = .open) : pr = guidePullRequest 11 "dependent" .open [10] := by
  obtain h | rfl : pr = guidePullRequest 11 "dependent" .open [10] ∨
      pr = guidePullRequest 10 "predecessor" .merged [] := by simpa [guideSnapshot] using hpr
  · exact h
  · cases hopen

theorem selection_lawful_guide :
    ∃ selection, (reconstruct guideSnapshot).selectWork = some selection := by
  refine (selection_lawful guideSnapshot (by simp [Distinct,guideSnapshot,guidePullRequest])
    ).2.2.2.2 ⟨_,List.mem_cons_self,rfl⟩ (acyclic_of_rank (·.number) ?_) ?_
  · rintro a b ⟨⟨ha,haOpen⟩,⟨hb,hbOpen⟩,hdependency⟩
    obtain rfl := guide_open ha haOpen
    obtain rfl := guide_open hb hbOpen
    simp [guidePullRequest] at hdependency
  · intro pr hpr hopen dependency hdependency
    obtain rfl := guide_open hpr hopen
    obtain rfl : dependency = 10 := by simpa [guidePullRequest] using hdependency
    exact .inr ⟨guidePullRequest 10 "predecessor" .merged [],by simp [guideSnapshot],rfl,rfl,rfl⟩

end Guide

end PhenixConductor.Repository

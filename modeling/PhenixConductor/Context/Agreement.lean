import PhenixConductor.Context.Rendering

/-! # Admission and materialization

An invocation is prepared from the projection and the loaded context, admitted, and materialized
from the same context and what the admission leaves.
-/
namespace PhenixConductor.Context
open Collections ContextProjectionState ContextCandidate List
open AdmittedContextItem (preservesWithoutReadmission)
open Execution (U64)

section Candidates
variable {contentHash : List UInt8 → String} {projection : ExecutionContextProjection}
  {state : ContextProjectionState} {candidate : ContextCandidate}

theorem nodup_references (projection : ExecutionContextProjection) :
    ((assemblePrompt projection).sections.map (·.reference)).Nodup := by
  rw [assemblePrompt, map_cons, map_map]
  constructor
  · simp [harnessSection, ProjectedContextEntry.promptSection]
  · have hsources := (nodup_map_firsts (fun entry : ProjectedContextEntry => entry.injection.source)
      (projection.entries.insertionSort fun left right => (left.compareWith right).isLE)).map
        (Option.some_injective ExactContextReference)
    rw [map_map] at hsources
    exact hsources

@[simp] theorem contextCandidate_id (promptSection : PromptSection) :
    (contextCandidate contentHash promptSection).id = promptSection.id := rfl

/-- A section is told apart from the others by what its candidate says. -/
theorem contextCandidate_injOn {first second : PromptSection}
    (hfirst : first ∈ (assemblePrompt projection).sections)
    (hsecond : second ∈ (assemblePrompt projection).sections)
    (h : contextCandidate contentHash first = contextCandidate contentHash second) :
    first = second :=
  inj_on_of_nodup_map (nodup_references projection) hfirst hsecond
    (congrArg recovery h)

theorem mem_invocationCandidates :
    candidate ∈ invocationCandidates contentHash projection (some state) ↔
      (∃ promptSection ∈ (assemblePrompt projection).sections,
        candidate = contextCandidate contentHash promptSection ∧
          state.isReduced promptSection.id = false) ∨
      ∃ checkpoint, state.checkpointInUse = some checkpoint ∧
        candidate = checkpointCandidate checkpoint := by
  rw [invocationCandidates, mem_append, mem_filter, mem_map]
  refine or_congr ?_ ?_
  · constructor
    · rintro ⟨⟨promptSection,hsection,rfl⟩,hreduced⟩
      exact ⟨promptSection,hsection,rfl,by simpa using hreduced⟩
    · rintro ⟨promptSection,hsection,rfl,hreduced⟩
      exact ⟨⟨promptSection,hsection,rfl⟩,by simpa using hreduced⟩
  · simp [eq_comm]

/-- Before the first admission the candidates are those of an empty projection. -/
theorem invocationCandidates_none (executionId : String) :
    invocationCandidates contentHash projection none =
      invocationCandidates contentHash projection (some (.new executionId)) := by
  simp [invocationCandidates, isReduced, new,
    checkpointInUse]

theorem committed_of_inUse {checkpoint : ContextCheckpoint}
    (h : state.checkpointInUse = some checkpoint) : state.committedCheckpoint = some checkpoint := by
  unfold checkpointInUse at h
  split_ifs at h
  exact h

/-- The checkpoint goes after every section. -/
theorem not_checkpoint_key_le (promptSection : PromptSection) (checkpoint : ContextCheckpoint) :
    ¬ (checkpointCandidate checkpoint).key ≤ (contextCandidate contentHash promptSection).key := by
  intro h
  cases hmandatory : promptSection.mandatory with
  | true => exact Bool.false_ne_true (mandatory_of_key_le h hmandatory)
  | false =>
    rw [key, key] at h
    simp only [contextCandidate, checkpointCandidate, hmandatory, Prod.Lex.toLex_le_toLex,
      Bool.false_eq_true, if_false, lt_irrefl, false_or, true_and] at h
    rcases h with h | ⟨h,-⟩
    · exact absurd h (by decide)
    · cases h

/-- Neither do their items look the same. -/
theorem projected_ne_checkpoint (promptSection : PromptSection) (checkpoint : ContextCheckpoint)
    (form form' : ContextProjectionForm) :
    (contextCandidate contentHash promptSection).projected form ≠
      (checkpointCandidate checkpoint).projected form' := by
  intro h
  have hretention := congrArg AdmittedContextItem.retention h
  cases hmandatory : promptSection.mandatory <;>
    simp [contextCandidate, checkpointCandidate, projected, hmandatory]
      at hretention

theorem estimatedTokens_of_mem
    (h : candidate ∈ invocationCandidates contentHash projection (some state)) :
    candidate.estimatedTokens = conservativeTokenEstimate candidate.content ∧
      candidate.retention ≠ .compact := by
  rcases mem_invocationCandidates.mp h with ⟨promptSection,-,rfl,-⟩ | ⟨checkpoint,-,rfl⟩
  · cases hmandatory : promptSection.mandatory <;> simp [contextCandidate, hmandatory]
  · exact ⟨rfl,by simp [checkpointCandidate]⟩

end Candidates

/-- What is admitted and what is materialized are the same. -/
structure Agrees (contentHash : List UInt8 → String) (projection : ExecutionContextProjection)
    (request : ContextAdmissionRequest) (result : ContextAdmissionResult)
    (next : ContextProjectionState) (input : List UInt8) (blocks : List PromptBlock) : Prop where
  materialized : next.materializeInvocation (assemblePrompt projection) input next.revision =
    .ok ⟨(blocks ++ [requestBlock input]).foldl appendSection [],next.revision⟩
  rendered : next.contextBlocks (assemblePrompt projection) = .ok blocks
  full : result.admitted.filter (·.form = .full) = request.taken.map (·.projected .full)
  contents : (bodies blocks).Perm (request.taken.map (·.content))
  sections : ∀ promptSection ∈ (assemblePrompt projection).sections,
    next.sectionBlock promptSection = .ok (some promptSection.block) ↔
      contextCandidate contentHash promptSection ∈ request.taken
  checkpoint : ∀ checkpoint, next.committedCheckpoint = some checkpoint →
    checkpointCandidate checkpoint ∈ request.taken
  tokens : saturatingSum ((bodies blocks).map conservativeTokenEstimate) =
    result.usedInputTokens
  budget : result.usedInputTokens ≤ request.budget

/-- What has to hold before the materialization. -/
structure Consistent (contentHash : List UInt8 → String) (projection : ExecutionContextProjection)
    (state : ContextProjectionState) (request : ContextAdmissionRequest) : Prop where
  represented : ∀ id item, state.admitted.get? id = some item → item.form = .reference →
    item.retention ≠ .compact →
      (∃ promptSection ∈ (assemblePrompt projection).sections, promptSection.id = id) ∨
        ∃ checkpoint, state.committedCheckpoint = some checkpoint ∧
          checkpointCandidateId checkpoint = id
  checkpoint : ∀ checkpoint, state.committedCheckpoint = some checkpoint →
    checkpointCandidate checkpoint ∈ request.taken
  ids : ∀ promptSection ∈ (assemblePrompt projection).sections, ∀ candidate ∈ request.taken,
    candidate.id = promptSection.id →
      contextCandidate contentHash promptSection ∈ request.taken

section Invocation
variable {contentHash : List UInt8 → String} {projection : ExecutionContextProjection}
  {state : ContextProjectionState} {request : ContextAdmissionRequest}
  {result : ContextAdmissionResult}
  (hcandidates : request.candidates = invocationCandidates contentHash projection (some state))
  (hresult : request.admission = .ok result)
include hcandidates hresult

variable {item : AdmittedContextItem}

/-- An admitted item comes from a section or from the checkpoint. -/
theorem item_cases (hitem : item ∈ result.admitted) :
    ∃ candidate ∈ request.candidates, ∃ form, item = candidate.projected form ∧
      item.retention ≠ .compact := by
  obtain ⟨before,candidate,after,form,hkept,-,rfl⟩ := (request.mem_admitted hresult).mp hitem
  have hmem : candidate ∈ distinct request.ordered := by simp [hkept]
  have hoffered : candidate ∈ request.candidates :=
    request.mem_ordered.mp ((firsts_sublist _ _).subset hmem)
  exact ⟨candidate,hoffered,form,rfl,(estimatedTokens_of_mem (hcandidates ▸ hoffered)).2⟩

omit hcandidates in
theorem mem_admitted_of_taken {candidate : ContextCandidate} (h : candidate ∈ request.taken) :
    candidate.projected .full ∈ result.admitted := by
  have hfull : candidate.projected .full ∈ result.admitted.filter (·.form = .full) := by
    rw [request.filter_full hresult]
    exact mem_map_of_mem h
  exact mem_of_mem_filter hfull

variable {candidate : ContextCandidate}

omit hcandidates in
/-- What is taken is admitted in no other form. -/
theorem form_of_taken {form : ContextProjectionForm} (h : candidate ∈ request.taken)
    (hitem : candidate.projected form ∈ result.admitted) : form = .full :=
  congrArg AdmittedContextItem.form
    (request.eq_of_contentIdentity hresult hitem (mem_admitted_of_taken hresult h) rfl)

omit hcandidates in
theorem exists_taken_of_full {item : AdmittedContextItem} (hitem : item ∈ result.admitted)
    (hform : item.form = .full) :
    ∃ candidate ∈ request.taken, item = candidate.projected .full := by
  have hfull : item ∈ result.admitted.filter (·.form = .full) := by simp [hitem, hform]
  rw [request.filter_full hresult] at hfull
  obtain ⟨candidate,htaken,rfl⟩ := mem_map.mp hfull
  exact ⟨candidate,htaken,rfl⟩

/-- A section is shown if and only if the last item under its id is admitted in full. -/
theorem shows_iff (promptSection : PromptSection) :
    (state.withAdmission result).Shows promptSection ↔ ∃ item,
      (admittedItems result.admitted).get? promptSection.id = some item ∧
        item.form = .full := by
  constructor
  · rintro ⟨item,hget,hcompact,hfull⟩
    rw [get?_withAdmission, Option.or_eq_some_iff] at hget
    rcases hget with hget | ⟨-,hget⟩
    · exact ⟨item,hget,hfull⟩
    · have hkept := (Option.filter_eq_some_iff.mp hget).2
      simp [preservesWithoutReadmission, hcompact, hfull] at hkept
  · rintro ⟨item,hget,hfull⟩
    obtain ⟨-,before,after,hsplit,-⟩ := get?_admittedItems.mp hget
    have hitem : item ∈ result.admitted := by simp [hsplit]
    obtain ⟨candidate,-,form,-,hcompact⟩ := item_cases hcandidates hresult hitem
    refine ⟨item,?_,hcompact,hfull⟩
    rw [get?_withAdmission, hget, Option.some_or]

/-- Under the id of something that is admitted stands the last item with this id. -/
theorem exists_last (hitem : item ∈ result.admitted) : ∃ last candidate form before after,
      (admittedItems result.admitted).get? item.id = some last ∧
        last = candidate.projected form ∧ candidate ∈ request.candidates ∧
          candidate.id = item.id ∧ result.admitted = before ++ last :: after ∧
            ∀ later ∈ after, later.id ≠ item.id := by
  cases hget : (admittedItems result.admitted).get? item.id with
  | none => exact absurd rfl (admittedItems_eq_none.mp hget item hitem)
  | some last =>
    obtain ⟨hid,before,after,hsplit,hlater⟩ := get?_admittedItems.mp hget
    obtain ⟨candidate,hoffered,form,rfl,-⟩ :=
      item_cases hcandidates hresult (show last ∈ result.admitted by simp [hsplit])
    exact ⟨_,candidate,form,before,after,rfl,rfl,hoffered,hid,hsplit,hlater⟩

variable {promptSection : PromptSection}

theorem shows_iff_taken (h : Consistent contentHash projection state request)
    (hsection : promptSection ∈ (assemblePrompt projection).sections) :
    (state.withAdmission result).Shows promptSection ↔
      contextCandidate contentHash promptSection ∈ request.taken := by
  rw [shows_iff hcandidates hresult]
  constructor
  · rintro ⟨item,hget,hfull⟩
    obtain ⟨hid,before,after,hsplit,-⟩ := get?_admittedItems.mp hget
    obtain ⟨candidate,htaken,rfl⟩ := exists_taken_of_full hresult (by simp [hsplit]) hfull
    exact h.ids promptSection hsection candidate htaken hid
  · intro htaken
    obtain ⟨last,candidate,form,before,after,hget,rfl,hoffered,hid,hsplit,-⟩ :=
      exists_last hcandidates hresult (mem_admitted_of_taken hresult htaken)
    have hlast : candidate.projected form ∈ result.admitted := by simp [hsplit]
    refine ⟨_,hget,form_of_taken hresult ?_ hlast⟩
    rcases mem_invocationCandidates.mp (hcandidates ▸ hoffered) with
      ⟨other,hother,rfl,-⟩ | ⟨checkpoint,hinUse,rfl⟩
    · exact h.ids other hother _ htaken hid.symm
    · exact h.checkpoint checkpoint (committed_of_inUse hinUse)

/-- No section's item stands behind that of the checkpoint. -/
theorem not_behind_checkpoint {checkpoint : ContextCheckpoint} {form form' : ContextProjectionForm}
    {before after : List AdmittedContextItem}
    (hsplit : result.admitted = before ++ (contextCandidate contentHash promptSection).projected form :: after) :
    (checkpointCandidate checkpoint).projected form' ∉ before := by
  intro hbefore
  have hpairwise := request.admitted_pairwise hresult
  rw [hsplit, pairwise_append] at hpairwise
  obtain ⟨c,hc,d,hd,f,g,hcheckpoint,hsection,hkey⟩ :=
    hpairwise.2.2 _ hbefore _ mem_cons_self
  rcases mem_invocationCandidates.mp (hcandidates ▸ hc) with ⟨first,-,rfl,-⟩ | ⟨other,hother,rfl⟩
  · exact projected_ne_checkpoint _ _ _ _ hcheckpoint.symm
  · rcases mem_invocationCandidates.mp (hcandidates ▸ hd) with ⟨second,-,rfl,-⟩ | ⟨last,-,rfl⟩
    · exact not_checkpoint_key_le second other hkey
    · exact projected_ne_checkpoint _ _ _ _ hsection

/-- What is shown and taken for every section is taken for every section of the same id. -/
theorem ids_of_shows
    (hsections : ∀ promptSection ∈ (assemblePrompt projection).sections, (state.withAdmission result).Shows promptSection ↔ contextCandidate contentHash promptSection ∈ request.taken)
    (hsection : promptSection ∈ (assemblePrompt projection).sections)
    (htaken : candidate ∈ request.taken) (hid : candidate.id = promptSection.id) :
    contextCandidate contentHash promptSection ∈ request.taken := by
  rw [← hsections promptSection hsection, shows_iff hcandidates hresult]
  have hitem := mem_admitted_of_taken hresult htaken
  obtain ⟨last,other,form,before,after,hget,rfl,hoffered,-,hsplit,hlater⟩ :=
    exists_last hcandidates hresult hitem
  have hlast : other.projected form ∈ result.admitted := by simp [hsplit]
  change (admittedItems result.admitted).get? candidate.id = _ at hget
  rw [hid] at hget
  refine ⟨_,hget,?_⟩
  rcases mem_invocationCandidates.mp (hcandidates ▸ request.mem_of_mem_taken htaken) with
    ⟨first,hfirst,rfl,-⟩ | ⟨checkpoint,hinUse,rfl⟩
  · obtain ⟨item,hitem,hfull⟩ := (shows_iff hcandidates hresult first).mp
      ((hsections first hfirst).mpr htaken)
    have hsame : first.id = promptSection.id := hid
    rw [hsame, hget] at hitem
    cases hitem
    exact hfull
  · rcases mem_invocationCandidates.mp (hcandidates ▸ hoffered) with
      ⟨second,-,rfl,-⟩ | ⟨checkpoint',hinUse',rfl⟩
    · rw [hsplit, mem_append, mem_cons] at hitem
      rcases hitem with hitem | hitem | hitem
      · exact absurd hitem (not_behind_checkpoint hcandidates hresult hsplit)
      · exact absurd hitem.symm (projected_ne_checkpoint _ _ _ _)
      · exact absurd rfl (hlater _ hitem)
    · obtain rfl := Option.some.inj (hinUse.symm.trans hinUse')
      exact form_of_taken hresult htaken hlast

/-- What is admitted has a section, or is the checkpoint. -/
theorem id_of_admitted (hitem : item ∈ result.admitted) :
    (∃ promptSection ∈ (assemblePrompt projection).sections, promptSection.id = item.id) ∨
      ∃ checkpoint, state.committedCheckpoint = some checkpoint ∧
        checkpointCandidateId checkpoint = item.id := by
  obtain ⟨candidate,hoffered,form,rfl,-⟩ := item_cases hcandidates hresult hitem
  rcases mem_invocationCandidates.mp (hcandidates ▸ hoffered) with
    ⟨promptSection,hsection,rfl,-⟩ | ⟨checkpoint,hinUse,rfl⟩
  · exact .inl ⟨promptSection,hsection,rfl⟩
  · exact .inr ⟨checkpoint,committed_of_inUse hinUse,rfl⟩

/-- Nothing is lost if and only if every reduced reference has its section, or is the checkpoint. -/
theorem requireRepresented_iff (h : state.Recoverable) :
    (∀ item ∈ (state.withAdmission result).admitted.values,
      (state.withAdmission result).requireRepresented (assemblePrompt projection) item = .ok ()) ↔
    ∀ id item, state.admitted.get? id = some item → item.form = .reference →
      item.retention ≠ .compact →
        (∃ promptSection ∈ (assemblePrompt projection).sections, promptSection.id = id) ∨
          ∃ checkpoint, state.committedCheckpoint = some checkpoint ∧
            checkpointCandidateId checkpoint = id := by
  have hmem : ∀ id, id ∈ (state.withAdmission result).represented (assemblePrompt projection) ↔
      ((∃ promptSection ∈ (assemblePrompt projection).sections, promptSection.id = id) ∧
        id ∈ (state.withAdmission result).admitted.keys) ∨
          ∃ checkpoint, state.committedCheckpoint = some checkpoint ∧
            checkpointCandidateId checkpoint = id := by
    intro id
    rw [represented, mem_append, mem_filter, mem_map,
      decide_eq_true_iff, Option.mem_toList, Option.map_eq_some_iff]
    rfl
  constructor
  · intro hall id item hget hform hcompact
    cases hlast : (admittedItems result.admitted).get? id with
    | some last =>
      obtain ⟨rfl,before,after,hsplit,-⟩ := get?_admittedItems.mp hlast
      exact id_of_admitted hcandidates hresult (by simp [hsplit])
    | none =>
      have hkept : (state.withAdmission result).admitted.get? id = some item := by
        rw [get?_withAdmission, hlast, hget]
        simp [preservesWithoutReadmission, hform]
      have hitem := hall item ((BTreeMap.mem_values _).mpr ⟨id,hkept⟩)
      unfold requireRepresented at hitem
      split_ifs at hitem with hrepresented
      rw [h.ids id item hget] at hrepresented
      rcases hrepresented with hrepresented | homitted | hcompact'
      · exact ((hmem id).mp hrepresented).imp_left And.left
      · simp [hform] at homitted
      · exact absurd hcompact' hcompact
  · intro hreferences item hitem
    obtain ⟨id,hget⟩ := (BTreeMap.mem_values _).mp hitem
    obtain rfl := (h.after_withAdmission hresult).ids id item hget
    have hkey : item.id ∈ (state.withAdmission result).admitted.keys := by
      rw [BTreeMap.mem_keys_iff, hget]
      rfl
    unfold requireRepresented
    rw [if_pos]
    rw [get?_withAdmission, Option.or_eq_some_iff] at hget
    rcases hget with hget | ⟨-,hget⟩
    · obtain ⟨-,before,after,hsplit,-⟩ := get?_admittedItems.mp hget
      have hid := id_of_admitted hcandidates hresult (show item ∈ result.admitted by simp [hsplit])
      exact .inl ((hmem _).mpr (hid.imp_left (⟨·,hkey⟩)))
    · obtain ⟨hget,hkept⟩ := Option.filter_eq_some_iff.mp hget
      by_cases hcompact : item.retention = .compact
      · exact .inr (.inr hcompact)
      · cases hform : item.form with
        | full => simp [preservesWithoutReadmission, hcompact, hform] at hkept
        | omitted => exact .inr (.inl rfl)
        | reference =>
          have hid := hreferences _ item hget hform hcompact
          exact .inl ((hmem _).mpr (hid.imp_left (⟨·,hkey⟩)))

open Classical in
omit hresult in
/-- The candidates that are taken are those of what is shown. -/
theorem taken_perm
    (hsections : ∀ promptSection ∈ (assemblePrompt projection).sections,
      (state.withAdmission result).Shows promptSection ↔
        contextCandidate contentHash promptSection ∈ request.taken)
    (hcheckpoint : ∀ checkpoint, state.committedCheckpoint = some checkpoint →
      checkpointCandidate checkpoint ∈ request.taken) :
    (((assemblePrompt projection).sections.filter ((state.withAdmission result).Shows ·)).map
        (contextCandidate contentHash) ++
      (state.committedCheckpoint.map checkpointCandidate).toList).Perm request.taken := by
  apply (perm_ext_iff_of_nodup _ request.nodup_taken).mpr
  · intro candidate
    rw [mem_append, mem_map, Option.mem_toList, Option.map_eq_some_iff]
    constructor
    · rintro (⟨promptSection,hsection,rfl⟩ | ⟨checkpoint,hcommitted,rfl⟩)
      · obtain ⟨hsection,hshows⟩ := mem_filter.mp hsection
        exact (hsections promptSection hsection).mp (of_decide_eq_true hshows)
      · exact hcheckpoint checkpoint hcommitted
    · intro htaken
      rcases mem_invocationCandidates.mp (hcandidates ▸ request.mem_of_mem_taken htaken) with
        ⟨promptSection,hsection,rfl,-⟩ | ⟨checkpoint,hinUse,rfl⟩
      · have hshows := (hsections promptSection hsection).mpr htaken
        exact .inl ⟨promptSection,mem_filter.mpr ⟨hsection,decide_eq_true hshows⟩,rfl⟩
      · exact .inr ⟨checkpoint,committed_of_inUse hinUse,rfl⟩
  · have hsectionsNodup : (assemblePrompt projection).sections.Nodup :=
      (nodup_references projection).of_map _
    apply List.Nodup.append
    · apply List.Nodup.map_on _ (hsectionsNodup.filter _)
      intro first hfirst second hsecond heq
      exact contextCandidate_injOn (mem_of_mem_filter hfirst)
        (mem_of_mem_filter hsecond) heq
    · cases state.committedCheckpoint <;> simp
    · intro candidate hsection hcheckpoint
      obtain ⟨promptSection,-,rfl⟩ := mem_map.mp hsection
      obtain ⟨checkpoint,-,heq⟩ := Option.map_eq_some_iff.mp (Option.mem_toList.mp hcheckpoint)
      exact projected_ne_checkpoint promptSection checkpoint .full .full
        (congrArg (·.projected .full) heq.symm)

end Invocation

/-- Admission and materialization agree if and only if the projection and the candidates
are consistent with the context. -/
theorem invocation_agrees_iff {contentHash : List UInt8 → String}
    {projection : ExecutionContextProjection} {state next : ContextProjectionState}
    {request : ContextAdmissionRequest} {result : ContextAdmissionResult}
    (hreachable : state.Reachable)
    (hcandidates : request.candidates = invocationCandidates contentHash projection (some state))
    (hresult : request.admission = .ok result)
    (hnext : applyAdmission result state = .ok () next)
    (input : List UInt8) :
    (∃ blocks, Agrees contentHash projection request result next input blocks) ↔
      Consistent contentHash projection state request := by
  obtain ⟨-,rfl⟩ := perform_admission_eq_ok.mp hnext
  have hrecoverable := hreachable.recoverable
  have hafter := hrecoverable.after_withAdmission hresult
  constructor
  · rintro ⟨blocks,hagrees⟩
    have hsections : ∀ promptSection ∈ (assemblePrompt projection).sections,
        (state.withAdmission result).Shows promptSection ↔
          contextCandidate contentHash promptSection ∈ request.taken := by
      intro promptSection hsection
      rw [← sectionBlock_eq_ok_iff hafter]
      exact hagrees.sections promptSection hsection
    have hrepresented := (exists_contextBlocks_iff hafter).mp
      ⟨blocks,hagrees.rendered⟩
    exact ⟨(requireRepresented_iff hcandidates hresult hrecoverable).mp hrepresented,
      hagrees.checkpoint,fun promptSection hsection candidate htaken hid =>
        ids_of_shows hcandidates hresult hsections hsection htaken hid⟩
  · intro h
    have hsections : ∀ promptSection ∈ (assemblePrompt projection).sections,
        (state.withAdmission result).Shows promptSection ↔
          contextCandidate contentHash promptSection ∈ request.taken :=
      fun promptSection hsection => shows_iff_taken hcandidates hresult h hsection
    obtain ⟨blocks,hblocks⟩ := (exists_contextBlocks_iff hafter).mpr
      ((requireRepresented_iff hcandidates hresult hrecoverable).mpr h.represented)
    have hcontents : (bodies blocks).Perm (request.taken.map (·.content)) := by
      have hperm := (taken_perm hcandidates hsections h.checkpoint).map (·.content)
      rw [map_append, map_map] at hperm
      rw [bodies_contextBlocks hafter hblocks]
      refine (List.Perm.of_eq ?_).trans hperm
      congr 1
      change (state.committedCheckpoint.map _).toList = _
      cases state.committedCheckpoint <;> rfl
    have htokens : ((bodies blocks).map conservativeTokenEstimate).Perm
        (request.taken.map (·.estimatedTokens)) := by
      refine (hcontents.map conservativeTokenEstimate).trans (List.Perm.of_eq ?_)
      rw [map_map]
      apply map_congr_left
      intro candidate htaken
      exact (estimatedTokens_of_mem (hcandidates ▸ request.mem_of_mem_taken htaken)).1.symm
    refine ⟨blocks,?_,hblocks,request.filter_full hresult,hcontents,?_,h.checkpoint,?_,
      request.usedInputTokens_le hresult⟩
    · rw [materializeInvocation_eq, hblocks]
      rfl
    · intro promptSection hsection
      rw [sectionBlock_eq_ok_iff hafter]
      exact hsections promptSection hsection
    · rw [saturatingSum_perm htokens, request.usedInputTokens_eq hresult, totalTokens]

/-- The digest of the identity text; nothing else is hashed below. -/
def identityHash (content : List UInt8) : String :=
  if content = utf8 phenixHarnessIdentity then
    "7a5e20c13246a643013e05724e6ce11eb1429a821c1b022fb8fe69f57f656907"
  else ""

/-- A prompt without loaded context. -/
def emptyProjection : ExecutionContextProjection := ⟨"execution",[]⟩

def identityRequest (cacheEpoch : U64) : ContextAdmissionRequest where
  executionId := "execution"
  stepPlan := ⟨"policy",⟨38,0⟩⟩
  candidates := invocationCandidates identityHash emptyProjection none
  cacheEpoch := cacheEpoch

/-- Only the identity is admitted, and it takes the whole budget. -/
def identityResult (cacheEpoch : U64) : ContextAdmissionResult where
  executionId := "execution"
  policyRevision := "policy"
  cacheEpoch := cacheEpoch
  admitted := [(contextCandidate identityHash harnessSection).projected .full]
  usedInputTokens := 38
  omittedInputTokens := 0
  deduplicatedItems := 0

theorem invocation_agrees_empty :
    (∃ blocks, Agrees identityHash emptyProjection (identityRequest 1) (identityResult 1)
      ((new "execution").withAdmission (identityResult 1)) [] blocks) ↔
        Consistent identityHash emptyProjection (.new "execution") (identityRequest 1) :=
  invocation_agrees_iff ⟨"execution",[],fun _ h => absurd h not_mem_nil,rfl⟩
    (invocationCandidates_none "execution") (by rfl) (by rfl) []

/-- Some context that is summarized later. -/
def draftCandidate : ContextCandidate where
  id := "draft"
  source := .inline "draft"
  contentIdentity := "draft"
  content := [1]
  estimatedTokens := 1
  mandatory := false
  retention := .full
  cache := .epoch
  recovery := none

def draftRequest : ContextAdmissionRequest where
  executionId := "execution"
  stepPlan := ⟨"policy",⟨38,0⟩⟩
  candidates := [draftCandidate]
  cacheEpoch := 1

def draftResult : ContextAdmissionResult where
  executionId := "execution"
  policyRevision := "policy"
  cacheEpoch := 1
  admitted := [draftCandidate.projected .full]
  usedInputTokens := 1
  omittedInputTokens := 0
  deduplicatedItems := 0

/-- The draft is dropped for a summary. -/
def draftDropped : CompactionProposal where
  executionId := "execution"
  expectedProjection := ⟨1,1⟩
  nextCacheEpoch := 2
  transitions := [⟨"draft",.full,.dropAllowed,none⟩]
  checkpoint :=
    { checkpointId := "checkpoint"
      executionId := "execution"
      sourceRevision := ⟨1,1⟩
      contentIdentity := "summary"
      compactView := utf8 "summary"
      exactSources := []
      toolGroups := [] }

def draftOperations : List ProjectionOperation :=
  [.applyAdmission draftResult,.prepareCompaction draftDropped,.commitCompaction "checkpoint"]

def draftState : ContextProjectionState :=
  runAll step (.new "execution") draftOperations

/-- The summary is no candidate, because nothing is compact, and goes into the prompt over
the budget. -/
theorem summary_over_budget : draftState.Reachable ∧
    (identityRequest 2).candidates =
      invocationCandidates identityHash emptyProjection (some draftState) ∧
    (identityRequest 2).admission = .ok (identityResult 2) ∧ ∃ next blocks,
      applyAdmission (identityResult 2) draftState = .ok () next ∧
        next.contextBlocks (assemblePrompt emptyProjection) = .ok blocks ∧
        (identityRequest 2).budget <
          saturatingSum ((bodies blocks).map conservativeTokenEstimate) ∧
        ¬ ∃ blocks, Agrees identityHash emptyProjection (identityRequest 2) (identityResult 2)
          next [] blocks := by
  refine ⟨⟨"execution",draftOperations,?_,rfl⟩,by decide +kernel,by rfl,
    draftState.withAdmission (identityResult 2),
    [harnessSection.block,draftDropped.checkpoint.block],by rfl,by rfl,by decide +kernel,?_⟩
  · intro operation hoperation result heq
    subst heq
    simp only [draftOperations, mem_cons, ProjectionOperation.applyAdmission.injEq,
      reduceCtorEq, not_mem_nil, or_self, or_false] at hoperation
    subst hoperation
    exact ⟨draftRequest,by rfl⟩
  · rintro ⟨blocks,h⟩
    have htaken := h.checkpoint draftDropped.checkpoint (by rfl)
    exact absurd htaken (by decide +kernel)

end PhenixConductor.Context

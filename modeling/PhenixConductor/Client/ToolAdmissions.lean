import PhenixConductor.Collections.JsonText
import PhenixConductor.Collections.Runs
import PhenixConductor.Collections.Totals
import PhenixConductor.Configuration.Contribution

/-! # Admissions of client tools

An admission is found by its id, by its session and callable, and by the owner and generation of
its reference.
-/
namespace PhenixConductor.Contract

/-- The derived order: constructors first, then their contents. -/
def CapabilityOwnerId.rank : CapabilityOwnerId → ℕ ×ₗ String
  | .plugin id => toLex (0,id.text)
  | .client id => toLex (1,id.text)
  | .runtime id => toLex (2,id.text)

theorem CapabilityOwnerId.rank_injective : Function.Injective CapabilityOwnerId.rank := by
  intro a b h
  cases a <;> cases b <;> simp [rank, Prod.ext_iff] at h <;>
    simp_all [Identifier.text_injective.eq_iff]

instance CapabilityOwnerId.linearOrder : LinearOrder CapabilityOwnerId :=
  LinearOrder.lift' CapabilityOwnerId.rank CapabilityOwnerId.rank_injective

end PhenixConductor.Contract

namespace PhenixConductor.ClientTools
open Collections Contract
open Configuration (isBlank DomainId)

abbrev SessionId := DomainId
abbrev ClientToolAdmissionId := DomainId

structure CallableDescriptor where
  id : CallableId
  description : String
  inputSchema : PhenixSchema
  outputSchema : PhenixSchema

structure ClientToolDefinition where
  descriptor : CallableDescriptor
  invoke : CallableRef

structure ClientToolAdmission where
  id : ClientToolAdmissionId
  sessionId : SessionId
  owner : CapabilityOwnerId
  generation : CapabilityGenerationId
  tool : ClientToolDefinition

namespace ClientToolAdmission

def slot (admission : ClientToolAdmission) : SessionId ×ₗ CallableId :=
  toLex (admission.sessionId,admission.tool.descriptor.id)

def ownerKey (admission : ClientToolAdmission) : CapabilityOwnerId ×ₗ CapabilityGenerationId :=
  toLex (admission.owner,admission.generation)

end ClientToolAdmission

inductive ClientToolAdmissionError
  | duplicateCallable (sessionId : SessionId) (callable : CallableId)
  | staleAdmission (id : ClientToolAdmissionId)

/-- An error that is returned, or an `expect` that fails. -/
inductive Failure
  | refused (error : ClientToolAdmissionError)
  | panic (message : String)

structure ClientToolAdmissions where
  nextId : Fin (2 ^ 64) := 0
  byId : BTreeMap ClientToolAdmissionId ClientToolAdmission := .empty
  bySessionCallable : BTreeMap (SessionId ×ₗ CallableId) ClientToolAdmissionId := .empty
  byOwnerGeneration :
    BTreeMap (CapabilityOwnerId ×ₗ CapabilityGenerationId) (BTreeSet ClientToolAdmissionId) := .empty

/-- The id is valid, so the `expect` on it never fails. -/
def issueId (generation : CapabilityGenerationId) (n : ℕ) : ClientToolAdmissionId where
  text := "client-tool-" ++ generation.text ++ "-" ++ toString n
  valid := by
    rw [isBlank, String.toList_append, String.toList_append, String.toList_append]
    rfl

theorem issueId_number {generation generation' : CapabilityGenerationId} {m n : ℕ}
    (h : issueId generation m = issueId generation' n) : m = n := by
  have htext := congrArg (fun id : DomainId => id.text.toList) h
  simp only [issueId, String.toList_append] at htext
  have hdash : ("-" : String).toList = ['-'] := rfl
  rw [hdash, List.append_assoc _ ['-'], List.append_assoc _ ['-'], List.singleton_append,
    List.singleton_append] at htext
  exact (append_repr_inj (by decide) htext).2

namespace ClientToolAdmissions
variable (self : ClientToolAdmissions)

def admitTool (sessionId : SessionId) (tool : ClientToolDefinition) :
    Except ClientToolAdmissionError (ClientToolAdmission × ClientToolAdmissions) :=
  let key := toLex (sessionId,tool.descriptor.id)
  if (self.bySessionCallable.get? key).isSome then
    .error (.duplicateCallable sessionId tool.descriptor.id)
  else
    let nextId := saturatingAdd self.nextId 1
    let admission : ClientToolAdmission :=
      ⟨issueId tool.invoke.generation nextId,sessionId,tool.invoke.owner,tool.invoke.generation,tool⟩
    let ids := (self.byOwnerGeneration.get? admission.ownerKey).getD .empty
    .ok (admission,
      { nextId
        byId := self.byId.insert admission.id admission
        bySessionCallable := self.bySessionCallable.insert key admission.id
        byOwnerGeneration :=
          self.byOwnerGeneration.insert admission.ownerKey (ids.insert admission.id ()) })

def remove (id : ClientToolAdmissionId) (owner : CapabilityOwnerId)
    (generation : CapabilityGenerationId) :
    Except Failure (ClientToolAdmission × ClientToolAdmissions) :=
  match self.byId.get? id with
  | none => .error (.refused (.staleAdmission id))
  | some admission =>
    if admission.owner ≠ owner ∨ admission.generation ≠ generation then
      .error (.refused (.staleAdmission id))
    else match self.byOwnerGeneration.get? admission.ownerKey with
      | none => .error (.panic "admission owner index exists")
      | some ids => .ok (admission,
        { self with
          byId := self.byId.erase id
          bySessionCallable := self.bySessionCallable.erase admission.slot
          byOwnerGeneration :=
            if (ids.erase id).keys = [] then self.byOwnerGeneration.erase admission.ownerKey
            else self.byOwnerGeneration.insert admission.ownerKey (ids.erase id) })

def removeFromSession (sessionId : SessionId) (id : ClientToolAdmissionId) :
    Except Failure (ClientToolAdmission × ClientToolAdmissions) :=
  match self.byId.get? id with
  | none => .error (.refused (.staleAdmission id))
  | some admission =>
    if admission.sessionId ≠ sessionId then .error (.refused (.staleAdmission id))
    else self.remove id admission.owner admission.generation

/-- One turn of the loop of `retire`, which drops what `remove` returns. -/
def retireOne (owner : CapabilityOwnerId) (generation : CapabilityGenerationId)
    (self : ClientToolAdmissions) (id : ClientToolAdmissionId) :
    Except Failure ClientToolAdmissions :=
  match self.remove id owner generation with
  | .ok (_,next) => .ok next
  | .error (.refused _) => .ok self
  | .error (.panic message) => .error (.panic message)

def retire (owner : CapabilityOwnerId) (generation : CapabilityGenerationId) :
    Except Failure ClientToolAdmissions :=
  match self.byOwnerGeneration.get? (toLex (owner,generation)) with
  | none => .ok self
  | some ids => ids.keys.foldlM (retireOne owner generation) self

def admitted (sessionId : SessionId) (callable : CallableId) : Option ClientToolAdmission :=
  (self.bySessionCallable.get? (toLex (sessionId,callable))).bind self.byId.get?

def containsInvoke (invoke : CallableRef) : Bool :=
  self.byId.values.any fun admission => admission.tool.invoke = invoke

def descriptors (sessionId : SessionId) : List CallableDescriptor :=
  ((self.byId.values.filter fun admission => admission.sessionId = sessionId).map
    (·.tool.descriptor)).insertionSort fun left right => left.id ≤ right.id

end ClientToolAdmissions

/-! ## The indexes -/

namespace ClientToolAdmissions
variable {tools next : ClientToolAdmissions} {admission : ClientToolAdmission}
  {id : ClientToolAdmissionId} {owner : CapabilityOwnerId} {generation : CapabilityGenerationId}

/-- The counter has been used for the id. -/
def Issued (tools : ClientToolAdmissions) (id : ClientToolAdmissionId) : Prop :=
  ∃ generation n, n ≤ tools.nextId.val ∧ id = issueId generation n

/-- The three indexes describe the same admissions, one for each session and callable. -/
structure Indexed (tools : ClientToolAdmissions) : Prop where
  callable : ∀ key id, tools.bySessionCallable.get? key = some id ↔
    ∃ admission, tools.byId.get? id = some admission ∧ admission.slot = key
  owned : ∀ key id, id ∈ ((tools.byOwnerGeneration.get? key).getD .empty).keys ↔
    ∃ admission, tools.byId.get? id = some admission ∧ admission.ownerKey = key
  nonempty : ∀ key ids, tools.byOwnerGeneration.get? key = some ids → ids.keys ≠ []
  issued : ∀ id admission, tools.byId.get? id = some admission → tools.Issued id

open BTreeMap (empty erase get?_erase get?_insert mem_keys_insert mem_values)
theorem indexed_empty : Indexed {} := by
  constructor <;> simp [show (empty : BTreeSet ClientToolAdmissionId).keys = [] from rfl]

variable {sessionId : SessionId}

open ClientToolAdmission (ownerKey slot)
theorem admitTool_indexed (h : tools.Indexed) (hnext : tools.nextId.val + 1 < 2 ^ 64)
    {tool : ClientToolDefinition} (hmade : tools.admitTool sessionId tool = .ok (admission,next)) :
    next.Indexed ∧ next.byId = tools.byId.insert admission.id admission ∧
      next.nextId.val = tools.nextId.val + 1 ∧ next.Issued admission.id ∧
      ¬ tools.Issued admission.id := by
  unfold admitTool at hmade
  simp only at hmade
  split_ifs at hmade with hfree
  cases hmade
  have hval : (saturatingAdd tools.nextId 1 : ℕ) = tools.nextId.val + 1 := by
    exact min_eq_left (by simp; omega)
  set id := issueId tool.invoke.generation (saturatingAdd tools.nextId 1 : ℕ) with hid
  have hnew : ¬ tools.Issued id := by
    rintro ⟨generation,n,hn,heq⟩
    have hsame := issueId_number (hid.symm.trans heq)
    omega
  have habsent : tools.byId.get? id = none := by
    rw [Option.eq_none_iff_forall_ne_some]
    exact fun a ha => hnew (h.issued id a ha)
  refine ⟨⟨?_,?_,?_,?_⟩,rfl,hval,⟨_,_,le_rfl,hid⟩,hnew⟩
  · intro key i
    have hold := h.callable key i
    simp only [get?_insert]
    rcases eq_or_ne i id with rfl | hi
    · simp [habsent, slot] at hold ⊢
      grind
    · grind
  · intro key i
    have hold := h.owned key i
    simp only [get?_insert, ownerKey] at hold ⊢
    by_cases hkey : key = toLex (tool.invoke.owner,tool.invoke.generation)
    · subst hkey
      rw [if_pos rfl, Option.getD_some, mem_keys_insert, hold]
      by_cases hi : i = id <;> simp [hi]
    · rw [if_neg hkey, hold]
      by_cases hi : i = id <;> simp [hi, habsent, Ne.symm hkey]
  · intro key ids hids
    rw [get?_insert] at hids
    split_ifs at hids with heq
    · cases hids
      exact List.ne_nil_of_mem ((mem_keys_insert _ _).mpr (.inl rfl))
    · exact h.nonempty key ids hids
  · intro i a ha
    rw [get?_insert] at ha
    split_ifs at ha with heq
    · exact ⟨_,_,le_rfl,heq⟩
    · obtain ⟨generation,n,hn,hi⟩ := h.issued i a ha
      exact ⟨generation,n,hn.trans (hval.ge.trans' (Nat.le_succ _)),hi⟩

theorem remove_of_get? (h : tools.Indexed) (hget : tools.byId.get? id = some admission) :
    ∃ next, tools.remove id admission.owner admission.generation = .ok (admission,next) ∧
      next.Indexed ∧ next.byId = tools.byId.erase id ∧ next.nextId = tools.nextId := by
  have hown := (h.owned _ id).mpr ⟨admission,hget,rfl⟩
  have hslot := (h.callable _ id).mpr ⟨admission,hget,rfl⟩
  cases hids : tools.byOwnerGeneration.get? admission.ownerKey with
  | none => simp [hids, empty] at hown
  | some ids =>
    have hmem : ∀ i, i ∈ (ids.erase id).keys ↔ i ∈ ids.keys ∧ i ≠ id := by
      simp [erase]
    rw [remove, hget]
    dsimp only
    rw [if_neg (by simp), hids]
    refine ⟨_,rfl,⟨?_,?_,?_,?_⟩,rfl,rfl⟩
    · intro key i
      have hold := h.callable key i
      simp only [get?_erase]
      grind
    · intro key i
      have hold := h.owned key i
      rw [get?_erase]
      rcases eq_or_ne key admission.ownerKey with rfl | hkey
      · rw [hids, Option.getD_some] at hold
        split_ifs with hlast hi hi
        · simp [empty]
        · have := hmem i
          simp_all [empty]
        · simp [hmem, hi]
        · simp [hmem, hi, hold]
      · have hrest : ∀ a, tools.byId.get? id = some a → a.ownerKey ≠ key := by
          rintro a ha rfl
          exact hkey (by rw [hget] at ha; cases ha; rfl)
        split_ifs <;> simp_all [BTreeMap.get?_erase_of_ne, BTreeMap.get?_insert_of_ne]
    · intro key others hothers
      split_ifs at hothers with hlast
      · rw [get?_erase] at hothers
        split_ifs at hothers
        exact h.nonempty key others hothers
      · rw [get?_insert] at hothers
        split_ifs at hothers
        · cases hothers
          exact hlast
        · exact h.nonempty key others hothers
    · intro i a ha
      rw [get?_erase] at ha
      split_ifs at ha
      exact h.issued i a ha

theorem remove_stale (h : ∀ admission, tools.byId.get? id = some admission →
      admission.ownerKey ≠ toLex (owner,generation)) :
    tools.remove id owner generation = .error (.refused (.staleAdmission id)) := by
  rw [remove]
  cases hget : tools.byId.get? id with
  | none => rfl
  | some admission =>
    refine if_pos (not_and_or.mp fun hsame => h admission hget ?_)
    rw [ownerKey, hsame.1, hsame.2]

/-- The loop of `retire` removes the admissions of the pair that are in the list. -/
theorem foldlM_retireOne (h : tools.Indexed) (owner : CapabilityOwnerId)
    (generation : CapabilityGenerationId) (ids : List ClientToolAdmissionId) :
    ∃ next, ids.foldlM (retireOne owner generation) tools = .ok next ∧ next.Indexed ∧
      next.nextId = tools.nextId ∧ ∀ id admission, next.byId.get? id = some admission ↔
        tools.byId.get? id = some admission ∧
          (id ∈ ids → admission.ownerKey ≠ toLex (owner,generation)) := by
  induction ids generalizing tools with
  | nil => exact ⟨tools,rfl,h,rfl,fun id admission => by simp⟩
  | cons first ids ih =>
    rw [List.foldlM_cons, retireOne]
    by_cases hlive : ∃ admission, tools.byId.get? first = some admission ∧
        admission.ownerKey = toLex (owner,generation)
    · obtain ⟨admission,hget,hkey⟩ := hlive
      obtain ⟨rfl,rfl⟩ := Prod.ext_iff.mp hkey
      obtain ⟨mid,hremove,hmid,hbyId,hnextId⟩ := remove_of_get? h hget
      obtain ⟨next,hrun,hnext,hlast,hleft⟩ := ih hmid
      have hfirst : tools.remove first admission.ownerKey.1 admission.ownerKey.2 = _ := hremove
      rw [hfirst]
      refine ⟨next,hrun,hnext,hlast.trans hnextId,fun id other => ?_⟩
      rw [hleft, hbyId, get?_erase]
      grind
    · have hstale : tools.remove first owner generation = _ :=
        remove_stale fun admission hget hkey => hlive ⟨admission,hget,hkey⟩
      obtain ⟨next,hrun,hnext,hlast,hleft⟩ := ih h
      rw [hstale]
      refine ⟨next,hrun,hnext,hlast,fun id other => ?_⟩
      grind

/-- Exactly the admissions of the pair are removed. -/
theorem retire_spec (h : tools.Indexed) (owner : CapabilityOwnerId)
    (generation : CapabilityGenerationId) :
    ∃ next, tools.retire owner generation = .ok next ∧ next.Indexed ∧
      next.nextId = tools.nextId ∧ ∀ id admission, next.byId.get? id = some admission ↔
        tools.byId.get? id = some admission ∧ admission.ownerKey ≠ toLex (owner,generation) := by
  have hown := fun id => h.owned (toLex (owner,generation)) id
  rw [retire]
  cases hids : tools.byOwnerGeneration.get? (toLex (owner,generation)) with
  | none =>
    simp [hids, empty] at hown
    grind
  | some ids =>
    obtain ⟨next,hrun,hnext,hlast,hleft⟩ := foldlM_retireOne h owner generation ids.keys
    refine ⟨next,hrun,hnext,hlast,fun id admission => ?_⟩
    grind

/-- A tool is found by its session and callable exactly while it is live. -/
theorem admitted_eq_some (h : tools.Indexed) {callable : CallableId} :
    tools.admitted sessionId callable = some admission ↔
      (∃ id, tools.byId.get? id = some admission) ∧
        admission.slot = toLex (sessionId,callable) := by
  rw [admitted, Option.bind_eq_some_iff]
  have hindex := h.callable (toLex (sessionId,callable))
  grind

theorem mem_descriptors {descriptor : CallableDescriptor} :
    descriptor ∈ tools.descriptors sessionId ↔ ∃ id admission,
      tools.byId.get? id = some admission ∧ admission.sessionId = sessionId ∧
        admission.tool.descriptor = descriptor := by
  simp [descriptors, List.mem_insertionSort, mem_values]
  grind

theorem containsInvoke_iff {invoke : CallableRef} :
    tools.containsInvoke invoke ↔
      ∃ id admission, tools.byId.get? id = some admission ∧ admission.tool.invoke = invoke := by
  simp [containsInvoke, mem_values]
  grind

theorem Indexed.slot_injective (h : tools.Indexed) {id' : ClientToolAdmissionId}
    {admission' : ClientToolAdmission} (hget : tools.byId.get? id = some admission)
    (hget' : tools.byId.get? id' = some admission') (hslot : admission.slot = admission'.slot) :
    id = id' := by
  have hid := (h.callable _ id).mpr ⟨admission,hget,rfl⟩
  rw [hslot, (h.callable _ id').mpr ⟨admission',hget',rfl⟩] at hid
  exact (Option.some.inj hid).symm

/-! ## Runs -/

inductive Command
  | admitTool (sessionId : SessionId) (tool : ClientToolDefinition)
  | removeFromSession (sessionId : SessionId) (id : ClientToolAdmissionId)
  | retire (owner : CapabilityOwnerId) (generation : CapabilityGenerationId)

/-- The admission that a command makes, and the state after it. -/
def apply (tools : ClientToolAdmissions) :
    Command → Except Failure (List ClientToolAdmission × ClientToolAdmissions)
  | .admitTool sessionId tool =>
    match tools.admitTool sessionId tool with
    | .ok (admission,next) => .ok ([admission],next)
    | .error error => .error (.refused error)
  | .removeFromSession sessionId id =>
    (tools.removeFromSession sessionId id).map fun removed => ([],removed.2)
  | .retire owner generation => (tools.retire owner generation).map fun next => ([],next)

def step (tools : ClientToolAdmissions) (command : Command) : ClientToolAdmissions :=
  (tools.apply command).toOption.elim tools (·.2)

def issues (tools : ClientToolAdmissions) (command : Command) : List ClientToolAdmission :=
  (tools.apply command).toOption.elim [] (·.1)

/-- No command fails an `expect`, and only a fresh id becomes live. -/
theorem apply_spec (h : tools.Indexed) (hnext : tools.nextId.val + 1 < 2 ^ 64) (command : Command) :
    (∃ error, tools.apply command = .error (.refused error)) ∨
      ∃ out next, tools.apply command = .ok (out,next) ∧ next.Indexed ∧
        next.nextId.val = tools.nextId.val + out.length ∧ (out.map (·.id)).Nodup ∧
        (∀ id admission, next.byId.get? id = some admission →
          tools.byId.get? id = some admission ∨ admission ∈ out ∧ admission.id = id) ∧
        ∀ admission ∈ out, next.Issued admission.id ∧ ¬ tools.Issued admission.id := by
  cases command with
  | admitTool sessionId tool =>
    rw [apply]
    cases hmade : tools.admitTool sessionId tool with
    | error error => exact .inl ⟨error,rfl⟩
    | ok pair =>
      obtain ⟨hindexed,hbyId,hval,hissued,hnew⟩ := admitTool_indexed h hnext hmade
      refine .inr ⟨_,_,rfl,hindexed,hval,List.nodup_singleton _,?_,by simpa using ⟨hissued,hnew⟩⟩
      intro id other hother
      rw [hbyId, get?_insert] at hother
      split_ifs at hother with hid
      · exact .inr ⟨by simpa using hother.symm,by cases hother; exact hid.symm⟩
      · exact .inl hother
  | removeFromSession sessionId id =>
    rw [apply, removeFromSession]
    cases hget : tools.byId.get? id with
    | none => exact .inl ⟨_,rfl⟩
    | some admission =>
      dsimp only
      split_ifs with hsession
      · exact .inl ⟨_,rfl⟩
      · obtain ⟨next,hremove,hindexed,hbyId,hval⟩ := remove_of_get? h hget
        rw [hremove]
        refine .inr ⟨_,_,rfl,hindexed,by simp [hval],by simp,?_,by simp⟩
        intro other a ha
        rw [hbyId, get?_erase] at ha
        split_ifs at ha
        exact .inl ha
  | retire owner generation =>
    obtain ⟨next,hretire,hindexed,hval,hleft⟩ := retire_spec h owner generation
    rw [apply, hretire]
    exact .inr ⟨_,_,rfl,hindexed,by simp [hval],by simp,
      fun id a ha => .inl ((hleft id a).mp ha).1,by simp⟩

theorem step_spec (h : tools.Indexed) (hnext : tools.nextId.val + 1 < 2 ^ 64) (command : Command) :
    (tools.step command).Indexed ∧
      (tools.step command).nextId.val = tools.nextId.val + (tools.issues command).length ∧
      ((tools.issues command).map (·.id)).Nodup ∧
      (∀ id admission, (tools.step command).byId.get? id = some admission →
        tools.byId.get? id = some admission ∨
          admission ∈ tools.issues command ∧ admission.id = id) ∧
      ∀ admission ∈ tools.issues command,
        (tools.step command).Issued admission.id ∧ ¬ tools.Issued admission.id := by
  rcases apply_spec h hnext command with ⟨error,herror⟩ | ⟨out,next,hok,hrest⟩
  · simp [step, issues, herror, h, Except.toOption]
  · simpa [step, issues, hok, Except.toOption] using hrest

theorem issued_step (h : tools.Indexed) (hnext : tools.nextId.val + 1 < 2 ^ 64) (command : Command)
    (hid : tools.Issued id) : (tools.step command).Issued id := by
  obtain ⟨generation,n,hn,rfl⟩ := hid
  obtain ⟨-,hval,-⟩ := step_spec h hnext command
  exact ⟨generation,n,by omega,rfl⟩

/-- The id has been used and is not live. -/
def Lapsed (tools : ClientToolAdmissions) (id : ClientToolAdmissionId) : Prop :=
  tools.Issued id ∧ tools.byId.get? id = none

theorem lapsed_step (h : tools.Indexed) (hnext : tools.nextId.val + 1 < 2 ^ 64) (command : Command)
    (hid : tools.Lapsed id) : (tools.step command).Lapsed id := by
  refine ⟨issued_step h hnext command hid.1,?_⟩
  obtain ⟨-,-,-,hlive,hnew⟩ := step_spec h hnext command
  rw [Option.eq_none_iff_forall_ne_some]
  intro admission hget
  rcases hlive id admission hget with hold | ⟨hmem,rfl⟩
  · rw [hid.2] at hold
    cases hold
  · exact (hnew admission hmem).2 hid.1

/-- The counter does not run out in the step. -/
def Room (tools : ClientToolAdmissions) (_ : Command) : Prop := tools.nextId.val + 1 < 2 ^ 64

variable {commands : List Command}

theorem along_room (h : tools.Indexed)
    (hcount : tools.nextId.val + (outputs step issues tools commands).length < 2 ^ 64 - 1) :
    Along step Room tools commands ∧ (runAll step tools commands).nextId.val + 1 < 2 ^ 64 := by
  induction commands generalizing tools with
  | nil =>
    exact ⟨trivial,by rw [runAll_nil]; omega⟩
  | cons command commands ih =>
    rw [outputs, List.length_append] at hcount
    have hnext : tools.nextId.val + 1 < 2 ^ 64 := by omega
    obtain ⟨hindexed,hval,-⟩ := step_spec h hnext command
    obtain ⟨hrest,hlast⟩ := ih hindexed (by omega)
    exact ⟨⟨hnext,hrest⟩,hlast⟩

theorem indexed_run (hroom : Along step Room {} commands) : (runAll step {} commands).Indexed :=
  hroom.invariant (fun _ command h hnext => (step_spec h hnext command).1) indexed_empty

theorem issued_outputs (h : tools.Indexed) (hroom : Along step Room tools commands) :
    ∀ admission ∈ outputs step issues tools commands,
      (runAll step tools commands).Issued admission.id := by
  induction commands generalizing tools with
  | nil => exact fun _ hmem => absurd hmem List.not_mem_nil
  | cons command commands ih =>
    obtain ⟨hindexed,-,-,-,hnew⟩ := step_spec h hroom.1 command
    intro admission hmem
    rcases List.mem_append.mp hmem with hmem | hmem
    · exact (hroom.2.invariant (I := fun s => s.Indexed ∧ s.Issued admission.id)
        (fun s c hs hc => ⟨(step_spec hs.1 hc c).1,issued_step hs.1 hc c hs.2⟩)
        ⟨hindexed,(hnew admission hmem).1⟩).2
    · exact ih hindexed hroom.2 admission hmem

/-- In every run, with fewer than `2^64 - 1` admissions made. -/
theorem admissions_consistent {commands : List Command}
    (hcount : (outputs step issues {} commands).length < 2 ^ 64 - 1) :
    let tools := runAll step {} commands
    tools.Indexed ∧
      (∀ id id' admission admission', tools.byId.get? id = some admission →
        tools.byId.get? id' = some admission' → admission.slot = admission'.slot → id = id') ∧
      (∀ command message, tools.apply command ≠ .error (.panic message)) ∧
      ((outputs step issues {} commands).map ClientToolAdmission.id).Nodup ∧
      (∀ before after, before ++ after = commands → ∀ admission ∈ outputs step issues {} before,
        (runAll step {} before).byId.get? admission.id = none →
          tools.byId.get? admission.id = none ∧ ∀ sessionId,
            tools.removeFromSession sessionId admission.id =
              .error (.refused (.staleAdmission admission.id))) ∧
      (∀ owner generation, ∃ next, tools.retire owner generation = .ok next ∧
        ∀ id admission, next.byId.get? id = some admission ↔
          tools.byId.get? id = some admission ∧
            ¬ (admission.owner = owner ∧ admission.generation = generation)) ∧
      (∀ sessionId callable, (tools.admitted sessionId callable).isSome ↔
        callable ∈ (tools.descriptors sessionId).map CallableDescriptor.id) ∧
      ∀ invoke, tools.containsInvoke invoke ↔ ∃ sessionId callable admission,
        tools.admitted sessionId callable = some admission ∧ admission.tool.invoke = invoke := by
  intro tools
  obtain ⟨hroom,hlast⟩ := along_room indexed_empty (by simpa using hcount)
  have h : tools.Indexed := indexed_run hroom
  refine ⟨h,fun _ _ _ _ => h.slot_injective,?_,?_,?_,?_,?_,?_⟩
  · intro command message hpanic
    rcases apply_spec h hlast command with ⟨error,herror⟩ | ⟨out,next,hok,-⟩
    · rw [herror] at hpanic
      cases hpanic
    · rw [hok] at hpanic
      cases hpanic
  · have hstep := fun (s : ClientToolAdmissions) (c : Command) (hs : s.Indexed) (hc : Room s c) =>
      step_spec hs hc c
    exact (hroom.nodup_outputs (I := Indexed) (U := fun id s => s.Issued id)
      (fun s c hs hc => (hstep s c hs hc).1) (fun s c hs hc => (hstep s c hs hc).2.2.1)
      (fun s c hs hc a ha => ((hstep s c hs hc).2.2.2.2 a ha).2)
      (fun s c hs hc a ha => ((hstep s c hs hc).2.2.2.2 a ha).1)
      (fun s c id hs hc => issued_step hs hc c) indexed_empty).1
  · rintro before after rfl admission hadmission hnone
    obtain ⟨hbefore,hafter⟩ := along_append.mp hroom
    have hlapsed : tools.Lapsed admission.id := by
      rw [show tools = _ from runAll_append _ _ _ _]
      exact (hafter.invariant (I := fun s => s.Indexed ∧ s.Lapsed admission.id)
        (fun s c hs hc => ⟨(step_spec hs.1 hc c).1,lapsed_step hs.1 hc c hs.2⟩)
        ⟨indexed_run hbefore,issued_outputs indexed_empty hbefore admission hadmission,hnone⟩).2
    exact ⟨hlapsed.2,fun sessionId => by rw [removeFromSession, hlapsed.2]⟩
  · intro owner generation
    obtain ⟨next,hretire,-,-,hleft⟩ := retire_spec h owner generation
    refine ⟨next,hretire,fun id admission => (hleft id admission).trans ?_⟩
    simp [ownerKey, Prod.ext_iff]
  · intro sessionId callable
    rw [Option.isSome_iff_exists, List.mem_map]
    simp only [admitted_eq_some h, mem_descriptors, slot, toLex_inj, Prod.mk.injEq]
    grind
  · intro invoke
    rw [containsInvoke_iff]
    simp only [admitted_eq_some h]
    exact ⟨fun ⟨id,admission,hget,hinvoke⟩ => ⟨_,_,admission,⟨⟨id,hget⟩,rfl⟩,hinvoke⟩,
      fun ⟨_,_,admission,⟨⟨id,hget⟩,_⟩,hinvoke⟩ => ⟨id,admission,hget,hinvoke⟩⟩

def lookupTool : ClientToolDefinition where
  descriptor := ⟨⟨"lookup",by decide⟩,"",.unit,.unit⟩
  invoke := ⟨⟨"tools@1",by decide⟩,.client ⟨"editor",by decide⟩,⟨"first",by decide⟩,
    ⟨"lookup",by decide⟩⟩

/-- A tool that is admitted again after its generation retired. -/
def readmitted : List Command :=
  [.admitTool ⟨"session",by decide⟩ lookupTool,
   .retire lookupTool.invoke.owner lookupTool.invoke.generation,
   .admitTool ⟨"session",by decide⟩ lookupTool]

theorem admissions_consistent_readmitted :
    (outputs step issues {} readmitted).length = 2 ∧
      ((outputs step issues {} readmitted).map ClientToolAdmission.id).Nodup :=
  ⟨by decide +kernel,(admissions_consistent (by decide +kernel)).2.2.2.1⟩

end ClientToolAdmissions
end PhenixConductor.ClientTools

import PhenixConductor.Execution.Task

/-! # Language evidence

Evidence names the provider of its workspace and the epoch of that provider.
-/
namespace PhenixConductor.Language
open Collections Contract BTreeMap

abbrev ProviderEpoch := {epoch : Execution.U64 // epoch ≠ 0}

inductive LanguageOperationKind
  | definition
  | references
  | implementations
  | hover
  | documentSymbols
  | workspaceSymbols
  | diagnostics
  | callHierarchy

inductive DocumentProvenance
  | workspaceBacked
  | frontendUnsaved
  | mixedOrUnknown
deriving DecidableEq

structure LanguageDocumentIdentity where
  path : String
  fileVersion : Option String
  provenance : DocumentProvenance

structure LanguageProviderEpoch where
  workspaceId : String
  providerId : String
  epoch : ProviderEpoch

structure LanguageOperationResult where
  operation : LanguageOperationKind
  payload : PhenixValue
  documents : List LanguageDocumentIdentity

structure DiagnosticsResult where
  payload : PhenixValue
  documents : List LanguageDocumentIdentity

structure LanguageObservation where
  id : String
  executionId : String
  workspaceId : String
  providerId : String
  providerEpoch : ProviderEpoch
  result : LanguageOperationResult

inductive LanguageCommand
  | activateProvider (workspaceId providerId : String) (epoch : ProviderEpoch)
  | endProvider (workspaceId providerId : String) (epoch : ProviderEpoch)
  | publishDiagnostics (workspaceId providerId : String) (epoch : ProviderEpoch)
      (result : DiagnosticsResult)
  | currentDiagnostics (workspaceId : String)
  | consume (observationId executionId workspaceId providerId : String) (epoch : ProviderEpoch)
      (result : LanguageOperationResult)
  | getObservation (observationId : String)

inductive LanguageResponse
  | provider (epoch : Option LanguageProviderEpoch)
  | diagnostics (result : Option DiagnosticsResult)
  | observation (observation : Option LanguageObservation)

/-- The state of the plugin, and its durable namespace. -/
structure LanguagePlugin where
  providers : BTreeMap String LanguageProviderEpoch := .empty
  diagnostics : BTreeMap String DiagnosticsResult := .empty
  stored : BTreeMap String LanguageObservation := .empty

def validateIdentity (label value : String) : Except String Unit :=
  if Configuration.isBlank value then .error (label ++ " must not be empty") else .ok ()

def validateDocuments (documents : List LanguageDocumentIdentity) : Except String Unit :=
  documents.forM fun document => do
    validateIdentity "language document path" document.path
    if document.provenance = .workspaceBacked ∧ document.fileVersion.all (·.isEmpty) then
      .error "workspace-backed language evidence requires an exact file version"
    else .ok ()

def observationKey (id : String) : String := "observation/" ++ id

namespace LanguagePlugin
variable (self : LanguagePlugin)

def activateProvider (workspaceId providerId : String) (epoch : ProviderEpoch) :
    Except String (LanguageProviderEpoch × LanguagePlugin) := do
  validateIdentity "workspace id" workspaceId
  validateIdentity "language provider id" providerId
  (self.providers.get? workspaceId).forM fun current =>
    ensure (current.epoch < epoch)
      ("language provider epoch must advance beyond " ++ toString current.epoch.val.val)
  let active : LanguageProviderEpoch := ⟨workspaceId,providerId,epoch⟩
  return (active,{ self with
    providers := self.providers.insert workspaceId active
    diagnostics := self.diagnostics.erase workspaceId })

def requireEpoch (workspaceId providerId : String) (epoch : ProviderEpoch) :
    Except String Unit := do
  validateIdentity "workspace id" workspaceId
  validateIdentity "language provider id" providerId
  match self.providers.get? workspaceId with
  | some active =>
    ensure (active.providerId = providerId ∧ active.epoch = epoch)
      ("ProviderChanged: active provider is " ++ active.providerId ++ " epoch " ++
        toString active.epoch.val.val)
  | none => .error "ProviderChanged: no active provider"

/-- The transaction asserts that nothing is stored under the key. `host` is the failure that
the host answers with, if any. -/
def storeObservation (host : Except String Unit) (observation : LanguageObservation) :
    Except String LanguagePlugin := do
  host
  ensure (self.stored.get? (observationKey observation.id) = none) "durable assertion failed"
  return { self with stored := self.stored.insert (observationKey observation.id) observation }

def handle (host : Except String Unit) :
    LanguageCommand → Except String (LanguageResponse × LanguagePlugin)
  | .activateProvider workspaceId providerId epoch => do
    let (active,next) ← self.activateProvider workspaceId providerId epoch
    return (.provider (some active),next)
  | .endProvider workspaceId providerId epoch => do
    self.requireEpoch workspaceId providerId epoch
    return (.provider none,{ self with
      providers := self.providers.erase workspaceId
      diagnostics := self.diagnostics.erase workspaceId })
  | .publishDiagnostics workspaceId providerId epoch result => do
    self.requireEpoch workspaceId providerId epoch
    validateDocuments result.documents
    return (.diagnostics (some result),{ self with
      diagnostics := self.diagnostics.insert workspaceId result })
  | .currentDiagnostics workspaceId => do
    validateIdentity "workspace id" workspaceId
    return (.diagnostics (self.diagnostics.get? workspaceId),self)
  | .consume observationId executionId workspaceId providerId epoch result => do
    self.requireEpoch workspaceId providerId epoch
    validateIdentity "language observation id" observationId
    validateIdentity "consuming execution id" executionId
    validateDocuments result.documents
    let observation := ⟨observationId,executionId,workspaceId,providerId,epoch,result⟩
    let next ← self.storeObservation host observation
    return (.observation (some observation),next)
  | .getObservation observationId => do
    validateIdentity "language observation id" observationId
    host
    return (.observation (self.stored.get? (observationKey observationId)),self)

end LanguagePlugin

/-- What happens to the plugin: it is started, which registers its schema again, or invoked. -/
inductive PluginEvent
  | start
  | invoke (host : Except String Unit) (command : LanguageCommand)

def LanguagePlugin.step (self : LanguagePlugin) : PluginEvent → LanguagePlugin
  | .start => self
  | .invoke host command =>
    match self.handle host command with
    | .ok (_,next) => next
    | .error _ => self

/-! ## What a command does -/

namespace LanguagePlugin
variable {self : LanguagePlugin} {host : Except String Unit} {workspaceId providerId : String}
  {epoch : ProviderEpoch}

/-- The provider is active in the workspace, at the epoch. -/
def Active (self : LanguagePlugin) (workspaceId providerId : String) (epoch : ProviderEpoch) :
    Prop :=
  ∃ active, self.providers.get? workspaceId = some active ∧
    active.providerId = providerId ∧ active.epoch = epoch

theorem active_of_requireEpoch (h : self.requireEpoch workspaceId providerId epoch = .ok ()) :
    self.Active workspaceId providerId epoch := by
  obtain ⟨-,h⟩ := seq_eq_ok.mp h
  obtain ⟨-,h⟩ := seq_eq_ok.mp h
  cases hget : self.providers.get? workspaceId with
  | none => simp [hget] at h
  | some active => exact ⟨active,hget,by simpa [hget] using h⟩

/-- What a command that succeeds does. -/
inductive Effect (self : LanguagePlugin) : LanguageCommand → LanguagePlugin → Prop
  | activated {workspaceId providerId : String} {epoch : ProviderEpoch}
      (above : ∀ current, self.providers.get? workspaceId = some current → current.epoch < epoch) :
      Effect self (.activateProvider workspaceId providerId epoch) { self with
        providers := self.providers.insert workspaceId ⟨workspaceId,providerId,epoch⟩
        diagnostics := self.diagnostics.erase workspaceId }
  | ended {workspaceId providerId : String} {epoch : ProviderEpoch} :
      Effect self (.endProvider workspaceId providerId epoch) { self with
        providers := self.providers.erase workspaceId
        diagnostics := self.diagnostics.erase workspaceId }
  | published {workspaceId providerId : String} {epoch : ProviderEpoch} {result : DiagnosticsResult}
      (active : self.Active workspaceId providerId epoch) :
      Effect self (.publishDiagnostics workspaceId providerId epoch result) { self with
        diagnostics := self.diagnostics.insert workspaceId result }
  | consumed {observationId executionId workspaceId providerId : String} {epoch : ProviderEpoch}
      {result : LanguageOperationResult} {key : String} {observation : LanguageObservation}
      (fresh : self.stored.get? key = none) :
      Effect self (.consume observationId executionId workspaceId providerId epoch result)
        { self with stored := self.stored.insert key observation }
  | unchanged {command : LanguageCommand} : Effect self command self

theorem handle_effect {command : LanguageCommand} {response : LanguageResponse}
    {next : LanguagePlugin} (h : self.handle host command = .ok (response,next)) :
    self.Effect command next := by
  cases command with
  | activateProvider workspaceId providerId epoch =>
    obtain ⟨⟨active,_⟩,hactivate,hnext⟩ := bind_eq_ok.mp h
    cases hnext
    obtain ⟨-,hactivate⟩ := seq_eq_ok.mp hactivate
    obtain ⟨-,hactivate⟩ := seq_eq_ok.mp hactivate
    obtain ⟨habove,hactivate⟩ := seq_eq_ok.mp hactivate
    cases hactivate
    refine .activated fun current hcurrent => ?_
    simpa [hcurrent, Option.forM] using habove
  | endProvider workspaceId providerId epoch =>
    obtain ⟨-,hnext⟩ := seq_eq_ok.mp h
    cases hnext
    exact .ended
  | publishDiagnostics workspaceId providerId epoch result =>
    obtain ⟨hactive,hnext⟩ := seq_eq_ok.mp h
    obtain ⟨-,hnext⟩ := seq_eq_ok.mp hnext
    cases hnext
    exact .published (active_of_requireEpoch hactive)
  | currentDiagnostics workspaceId =>
    obtain ⟨-,hnext⟩ := seq_eq_ok.mp h
    cases hnext
    exact .unchanged
  | consume observationId executionId workspaceId providerId epoch result =>
    obtain ⟨-,h⟩ := seq_eq_ok.mp h
    obtain ⟨-,h⟩ := seq_eq_ok.mp h
    obtain ⟨-,h⟩ := seq_eq_ok.mp h
    obtain ⟨-,h⟩ := seq_eq_ok.mp h
    obtain ⟨_,hstore,hnext⟩ := bind_eq_ok.mp h
    cases hnext
    obtain ⟨-,hstore⟩ := seq_eq_ok.mp hstore
    obtain ⟨hfresh,hstore⟩ := seq_eq_ok.mp hstore
    cases hstore
    exact .consumed (ensure_eq_ok.mp hfresh)
  | getObservation observationId =>
    obtain ⟨-,h⟩ := seq_eq_ok.mp h
    obtain ⟨-,hnext⟩ := seq_eq_ok.mp h
    cases hnext
    exact .unchanged

/-- The workspace and the epoch that an event activates, if it does. -/
def activates : PluginEvent → Option (String × ProviderEpoch)
  | .invoke _ (.activateProvider workspaceId _ epoch) => some (workspaceId,epoch)
  | _ => none

theorem providers_step {event : PluginEvent} {active : LanguageProviderEpoch}
    (h : (self.step event).providers.get? workspaceId = some active) :
    self.providers.get? workspaceId = some active ∨
      activates event = some (workspaceId,active.epoch) ∧ ∀ current,
        self.providers.get? workspaceId = some current → current.epoch < active.epoch := by
  cases event with
  | start => exact .inl h
  | invoke host command =>
    rw [step] at h
    split at h
    · next hhandle =>
      cases handle_effect hhandle with
      | activated above =>
        rw [get?_insert] at h
        split_ifs at h with heq
        · cases h
          subst heq
          exact .inr ⟨rfl,above⟩
        · exact .inl h
      | ended =>
        rw [get?_erase] at h
        split_ifs at h
        exact .inl h
      | published | consumed | unchanged => exact .inl h
    · exact .inl h

theorem stored_step (event : PluginEvent) {key : String} {observation : LanguageObservation}
    (h : self.stored.get? key = some observation) :
    (self.step event).stored.get? key = some observation := by
  cases event with
  | start => exact h
  | invoke host command =>
    rw [step]
    split
    · next hhandle =>
      cases handle_effect hhandle with
      | consumed fresh =>
        rw [get?_insert_of_ne, h]
        rintro rfl
        cases fresh.symm.trans h
      | activated | ended | published | unchanged => exact h
    · exact h

/-- An event publishes a result for a provider and its epoch. -/
def Publishes (workspaceId providerId : String) (epoch : ProviderEpoch)
    (result : DiagnosticsResult) (self : LanguagePlugin) (event : PluginEvent) : Prop :=
  ∃ host, event = .invoke host (.publishDiagnostics workspaceId providerId epoch result) ∧
    (self.handle host (.publishDiagnostics workspaceId providerId epoch result)).isOk

theorem diagnostics_step {event : PluginEvent} {result : DiagnosticsResult}
    (h : (self.step event).diagnostics.get? workspaceId = some result) :
    self.diagnostics.get? workspaceId = some result ∧
        (self.step event).providers.get? workspaceId = self.providers.get? workspaceId ∨
      ∃ providerId epoch, (self.step event).Active workspaceId providerId epoch ∧
        Publishes workspaceId providerId epoch result self event := by
  cases event with
  | start => exact .inl ⟨h,rfl⟩
  | invoke host command =>
    cases hhandle : self.handle host command with
    | error message =>
      rw [step, hhandle] at h ⊢
      exact .inl ⟨h,rfl⟩
    | ok pair =>
      obtain ⟨response,next⟩ := pair
      rw [step, hhandle] at h ⊢
      cases handle_effect hhandle with
      | activated =>
        rw [get?_erase] at h
        split_ifs at h with hne
        exact .inl ⟨h,get?_insert_of_ne _ _ hne⟩
      | ended =>
        rw [get?_erase] at h
        split_ifs at h with hne
        exact .inl ⟨h,get?_erase_of_ne _ hne⟩
      | published active =>
        rw [get?_insert] at h
        split_ifs at h with heq
        · cases h
          subst heq
          exact .inr ⟨_,_,active,host,rfl,by rw [hhandle]; rfl⟩
        · exact .inl ⟨h,rfl⟩
      | consumed | unchanged => exact .inl ⟨h,rfl⟩

end LanguagePlugin

/-! ## Runs -/

/-- The plugin, and every epoch that a workspace has had; the plugin itself forgets them. -/
structure Life where
  plugin : LanguagePlugin := {}
  had : List (String × ProviderEpoch) := []

namespace Life

def step (life : Life) (event : PluginEvent) : Life :=
  let next := life.plugin.step event
  ⟨next,next.providers.toList.map (fun (workspaceId,active) => (workspaceId,active.epoch)) ++ life.had⟩

/-- An activation in a workspace without a provider names an epoch above those it has had. -/
def Advances (life : Life) (event : PluginEvent) : Prop :=
  ∀ activated ∈ LanguagePlugin.activates event,
    life.plugin.providers.get? activated.1 = none →
      ∀ past ∈ life.had, past.1 = activated.1 → past.2 < activated.2

instance (life : Life) (event : PluginEvent) : Decidable (life.Advances event) :=
  inferInstanceAs (Decidable (∀ activated ∈ LanguagePlugin.activates event, _ = none → _))

variable {life : Life} {event : PluginEvent} {workspaceId providerId : String}
  {epoch : ProviderEpoch}

theorem mem_had_step : (workspaceId,epoch) ∈ (life.step event).had ↔
    (∃ active, (life.plugin.step event).providers.get? workspaceId = some active ∧
      active.epoch = epoch) ∨ (workspaceId,epoch) ∈ life.had := by
  simp [step, mem_toList]

/-- The active epoch of a workspace is the greatest one it has had. -/
def Ranked (life : Life) : Prop :=
  ∀ workspaceId active, life.plugin.providers.get? workspaceId = some active →
    ∀ epoch, (workspaceId,epoch) ∈ life.had → epoch ≤ active.epoch

theorem ranked_empty : Ranked {} := by
  intro _ _ _ _ hpast
  simp at hpast

theorem Ranked.past_lt (h : life.Ranked) (hadvances : life.Advances event)
    (hactivates : LanguagePlugin.activates event = some (workspaceId,epoch))
    (habove : ∀ current, life.plugin.providers.get? workspaceId = some current →
      current.epoch < epoch)
    {past : ProviderEpoch} (hpast : (workspaceId,past) ∈ life.had) : past < epoch := by
  cases hget : life.plugin.providers.get? workspaceId with
  | none => exact hadvances _ hactivates hget _ hpast rfl
  | some current => exact (h _ _ hget _ hpast).trans_lt (habove current hget)

theorem Ranked.step (h : life.Ranked) (hadvances : life.Advances event) :
    (life.step event).Ranked := by
  intro workspaceId active hactive epoch hepoch
  rcases mem_had_step.mp hepoch with ⟨active',hactive',rfl⟩ | hpast
  · cases hactive.symm.trans hactive'
    exact le_rfl
  · rcases LanguagePlugin.providers_step hactive with hbefore | ⟨hactivates,habove⟩
    · exact h _ _ hbefore _ hpast
    · exact (h.past_lt hadvances hactivates habove hpast).le

/-- The provider has been active at the epoch, and is not. -/
def Lapsed (workspaceId providerId : String) (epoch : ProviderEpoch) (life : Life) : Prop :=
  (workspaceId,epoch) ∈ life.had ∧ ¬ life.plugin.Active workspaceId providerId epoch

theorem Lapsed.step (h : life.Lapsed workspaceId providerId epoch) (hranked : life.Ranked)
    (hadvances : life.Advances event) : (life.step event).Lapsed workspaceId providerId epoch := by
  refine ⟨mem_had_step.mpr (.inr h.1),?_⟩
  rintro ⟨active,hactive,hprovider,rfl⟩
  rcases LanguagePlugin.providers_step hactive with hbefore | ⟨hactivates,habove⟩
  · exact h.2 ⟨active,hbefore,hprovider,rfl⟩
  · exact lt_irrefl _ (hranked.past_lt hadvances hactivates habove h.1)

theorem runAll_plugin (events : List PluginEvent) (life : Life) :
    (runAll step life events).plugin = runAll LanguagePlugin.step life.plugin events := by
  induction events generalizing life with
  | nil => rfl
  | cons event events ih => exact ih (life.step event)

theorem had_run (events : List PluginEvent) (h : (workspaceId,epoch) ∈ life.had) :
    (workspaceId,epoch) ∈ (runAll step life events).had :=
  runAll_invariant (I := fun life : Life => (workspaceId,epoch) ∈ life.had)
    (fun _ _ h => mem_had_step.mpr (.inr h)) events h

theorem mem_had_of_active {events : List PluginEvent}
    (h : (runAll LanguagePlugin.step {} events).Active workspaceId providerId epoch) :
    (workspaceId,epoch) ∈ (runAll step {} events).had := by
  obtain ⟨active,hget,-,rfl⟩ := h
  cases events using List.reverseRecOn with
  | nil => simp at hget
  | append_singleton events event =>
    rw [runAll_append] at hget ⊢
    rw [← runAll_plugin _ {}] at hget
    exact mem_had_step.mpr (.inl ⟨active,hget,rfl⟩)

end Life

/-- The plugin after what has happened to it. -/
def after (events : List PluginEvent) : LanguagePlugin := runAll .step {} events

/-- What was active, and then was not, is not active at the end, and is rejected there. -/
def StaleRejected (events : List PluginEvent) : Prop :=
  ∀ before between later, events = before ++ between ++ later → ∀ workspaceId providerId epoch,
    (after before).Active workspaceId providerId epoch →
    ¬ (after (before ++ between)).Active workspaceId providerId epoch →
    ¬ (after events).Active workspaceId providerId epoch ∧
    (∀ host result, ∃ message, (after events).handle host
      (.publishDiagnostics workspaceId providerId epoch result) = .error message) ∧
    ∀ host observationId executionId result, ∃ message, (after events).handle host
      (.consume observationId executionId workspaceId providerId epoch result) = .error message

theorem requireEpoch_error {self : LanguagePlugin} {workspaceId providerId : String}
    {epoch : ProviderEpoch} (h : ¬ self.Active workspaceId providerId epoch) :
    ∃ message, self.requireEpoch workspaceId providerId epoch = .error message := by
  cases hrequire : self.requireEpoch workspaceId providerId epoch with
  | error message => exact ⟨message,rfl⟩
  | ok => exact absurd (LanguagePlugin.active_of_requireEpoch hrequire) h

theorem staleRejected_of_advancing {events : List PluginEvent}
    (h : Along Life.step Life.Advances {} events) : StaleRejected events := by
  rintro before between later rfl workspaceId providerId epoch hactive hlapsed
  rw [along_append] at h
  have hranked := h.1.invariant (fun _ _ hranked hadvances => Life.Ranked.step hranked hadvances)
    Life.ranked_empty
  have hhad := Life.had_run between (Life.mem_had_of_active hactive)
  rw [← runAll_append] at hhad
  rw [after, ← Life.runAll_plugin _ {}] at hlapsed
  have hend := h.2.invariant (I := fun life => life.Ranked ∧ life.Lapsed workspaceId providerId epoch)
    (fun _ _ hkept hadvances => ⟨hkept.1.step hadvances,hkept.2.step hkept.1 hadvances⟩)
    ⟨hranked,hhad,hlapsed⟩
  rw [← runAll_append] at hend
  have hstale : ¬ (after (before ++ between ++ later)).Active workspaceId providerId epoch := by
    rw [after, ← Life.runAll_plugin _ {}]
    exact hend.2.2
  obtain ⟨message,hmessage⟩ := requireEpoch_error hstale
  refine ⟨hstale,fun host result => ⟨message,?_⟩,fun host _ _ result => ⟨message,?_⟩⟩
  · rw [LanguagePlugin.handle, hmessage]
    rfl
  · rw [LanguagePlugin.handle, hmessage]
    rfl

/-- The diagnostics that a workspace shows were published for its active provider. -/
theorem diagnostics_current (events : List PluginEvent) {workspaceId : String}
    {result : DiagnosticsResult} (h : (after events).diagnostics.get? workspaceId = some result) :
    ∃ providerId epoch, (after events).Active workspaceId providerId epoch ∧
      Happens LanguagePlugin.step (LanguagePlugin.Publishes workspaceId providerId epoch result)
        {} events := by
  induction events using List.reverseRecOn with
  | nil => simp [after] at h
  | append_singleton events event ih =>
    rw [after, runAll_append] at h ⊢
    rcases LanguagePlugin.diagnostics_step h with
      ⟨hbefore,hsame⟩ | ⟨providerId,epoch,hactive,hpublishes⟩
    · obtain ⟨providerId,epoch,⟨active,hget,heq⟩,hhappens⟩ := ih hbefore
      exact ⟨providerId,epoch,⟨active,hsame.trans hget,heq⟩,happens_concat.mpr (.inl hhappens)⟩
    · exact ⟨providerId,epoch,hactive,happens_concat.mpr (.inr hpublishes)⟩

/-- What the plugin promises about evidence over a run. -/
structure Evidenced (events : List PluginEvent) : Prop where
  stale : StaleRejected events
  current : ∀ host workspaceId result next,
    (after events).handle host (.currentDiagnostics workspaceId) =
      .ok (.diagnostics (some result),next) →
    ∃ providerId epoch, (after events).Active workspaceId providerId epoch ∧
      Happens LanguagePlugin.step (LanguagePlugin.Publishes workspaceId providerId epoch result)
        {} events
  stored : ∀ before later, events = before ++ later → ∀ key observation,
    (after before).stored.get? key = some observation →
      (after events).stored.get? key = some observation

/-- An epoch that no workspace has had before is enough to keep stale evidence out. -/
theorem evidenced_of_advancing (events : List PluginEvent)
    (h : Along Life.step Life.Advances {} events) : Evidenced events := by
  refine ⟨staleRejected_of_advancing h,fun host workspaceId result next hhandle => ?_,?_⟩
  · obtain ⟨-,hnext⟩ := seq_eq_ok.mp hhandle
    simp only [pure, Except.pure, Except.ok.injEq, Prod.mk.injEq,
      LanguageResponse.diagnostics.injEq] at hnext
    exact diagnostics_current events hnext.1
  · rintro before later rfl key observation hstored
    rw [after, runAll_append]
    exact runAll_invariant (I := fun self : LanguagePlugin => self.stored.get? key = some observation)
      (fun _ event h => LanguagePlugin.stored_step event h) later hstored

def guideEpoch : ProviderEpoch := ⟨1,by decide⟩

/-- A provider that is activated, ended, and activated again. -/
def guideLife (again : ProviderEpoch) : List PluginEvent :=
  [.invoke (.ok ()) (.activateProvider "guide" "compass" guideEpoch),
   .invoke (.ok ()) (.endProvider "guide" "compass" guideEpoch),
   .invoke (.ok ()) (.activateProvider "guide" "compass" again)]

theorem evidenced_restarted : Evidenced (guideLife ⟨2,by decide⟩) :=
  evidenced_of_advancing _ (by decide +kernel)

/-- An epoch that has ended can be activated again. -/
theorem ended_epoch_returns : ¬ ∀ events, Evidenced events := by
  intro h
  have hactive : ∀ again, (after ((guideLife again).take 1)).Active "guide" "compass" guideEpoch :=
    fun _ => ⟨_,rfl,rfl,rfl⟩
  refine ((h (guideLife guideEpoch)).stale [_] [_] [_] rfl "guide" "compass" guideEpoch
    (hactive guideEpoch) ?_).1 ⟨_,rfl,rfl,rfl⟩
  rintro ⟨active,hget,-⟩
  cases hget

end PhenixConductor.Language

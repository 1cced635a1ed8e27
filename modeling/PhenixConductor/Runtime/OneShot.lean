import PhenixConductor.Runtime.PreparedMutation

/-! # Prepared mutations are one-shot

The threads of an invocation prepare and commit in the scope they share, in any order.
-/
namespace PhenixConductor.Runtime
open Collections Contract Harness Persistence PhenixConductor.Kernel BTreeMap
variable {runtime : InvocationContext}

/-- A successful call of `prepare_durable_transaction`. -/
structure Preparation (runtime : InvocationContext) where
  host : ScopedHost runtime
  thread : ThreadId
  namespc : ResourceNamespace
  operations : List TransactionOp
  scope : PreparedMutationScope
  handle : PreparedMutationHandle

def Preparation.mutation (self : Preparation runtime) (number : ℕ) : PreparedMutation :=
  self.scope.mutation number self.thread self.host.plugin self.namespc self.operations
    self.host.authority

/-- The owner of the namespace has prepared a transaction for it, with the right to write. -/
structure Preparation.Owned (self : Preparation runtime) : Prop where
  write : self.host.authority.permits persistenceWrite = true
  owner : runtime.config.resourceOwner self.namespc = some self.host.plugin

/-- What a plugin has passed to `transact_many`. -/
structure Commit where
  plugin : PluginId
  participants : List PreparedMutation

/-- A scope with the preparations made in it and what has reached the backend. -/
structure ScopeHistory (runtime : InvocationContext) where
  scope : PreparedMutationScope
  preparations : List (Preparation runtime)
  commits : List Commit

/-- `pushCoordinator` and `dropCoordinator` are the ends of a nested invocation. -/
inductive ScopeAction (runtime : InvocationContext) where
  | pushCoordinator (thread : ThreadId) (coordinator : PluginId)
  | dropCoordinator (thread : ThreadId)
  | prepare (host : ScopedHost runtime) (random : RandomSource) (thread : ThreadId)
      (namespc : ResourceNamespace) (operations : List TransactionOp)
  | transactPrepared (host : ScopedHost runtime) (handles : List PreparedMutationHandle)
      (backend : List NamespaceTransaction → Except String Unit)
  | clear

namespace ScopeHistory
variable (self : ScopeHistory runtime)

def new (generation : Option GraphGenerationId) : ScopeHistory runtime :=
  ⟨.new generation,[],[]⟩

/-- The commit that a call of `transact_prepared` passes on. -/
def passed (host : ScopedHost runtime) (handles : List PreparedMutationHandle) : List Commit :=
  match host.participants handles self.scope with
  | .ok participants _ => [⟨host.plugin,participants⟩]
  | .error _ _ => []

def step : ScopeAction runtime → ScopeHistory runtime
  | .pushCoordinator thread coordinator =>
    { self with scope := self.scope.pushCoordinator thread coordinator }
  | .dropCoordinator thread => { self with scope := self.scope.dropCoordinator thread }
  | .prepare host random thread namespc operations =>
    match host.prepareDurableTransaction self.preparations.length random thread namespc operations
      self.scope with
    | .ok handle scope =>
      { self with
        scope := scope
        preparations := self.preparations ++ [⟨host,thread,namespc,operations,self.scope,handle⟩] }
    | .error _ scope => { self with scope := scope }
  | .transactPrepared host handles backend =>
    { self with
      scope := after (host.transactPrepared backend handles) self.scope
      commits := self.commits ++ self.passed host handles }
  | .clear => { self with scope := self.scope.clear }

def run (actions : List (ScopeAction runtime)) : ScopeHistory runtime := runAll step self actions

/-- The numbers of the preparations that have reached the backend. -/
def passedNumbers : List ℕ := (self.commits.flatMap (·.participants)).map (·.preparation)

/-- A mutation that was prepared by the owner of its namespace. -/
def Issued (mutation : PreparedMutation) : Prop :=
  ∃ preparation, self.preparations[mutation.preparation]? = some preparation ∧
    mutation = preparation.mutation mutation.preparation ∧ preparation.Owned

/-- A plugin commits what was prepared under its coordination, and a transaction of its own. -/
structure Bound (now : ScopeHistory runtime) (commit : Commit) : Prop where
  coordinator : ∀ participant ∈ commit.participants, participant.coordinator = commit.plugin
  owned : ∃ participant ∈ commit.participants, participant.transaction.owner = commit.plugin
  issued : ∀ participant ∈ commit.participants, now.Issued participant

/-! ### Steps -/

/-- What is left of the scope, when nothing is prepared. -/
structure Shrinks (before after : PreparedMutationScope) : Prop where
  kept : ∀ handle mutation, after.prepared.get? handle = some mutation →
    before.prepared.get? handle = some mutation

/-- What a step does to the history. -/
inductive Changes : ScopeHistory runtime → Prop
  | shrinks (scope : PreparedMutationScope) : Shrinks self.scope scope →
      Changes { self with scope := scope }
  | prepared (preparation : Preparation runtime) : preparation.Owned →
      preparation.handle ∉ self.scope.prepared.keys →
      Changes { self with
        scope := { self.scope with
          prepared := self.scope.prepared.insert preparation.handle
            (preparation.mutation self.preparations.length) }
        preparations := self.preparations ++ [preparation] }
  | passed (host : ScopedHost runtime) (handles : List PreparedMutationHandle) :
      (∀ participant ∈ drain self.scope.prepared handles, participant.coordinator = host.plugin) →
      (∃ participant ∈ drain self.scope.prepared handles,
        participant.transaction.owner = host.plugin) →
      Changes { self with
        scope := (self.scope.consume handles).2
        commits := self.commits ++ [⟨host.plugin,drain self.scope.prepared handles⟩] }

end ScopeHistory

open ScopeHistory (Shrinks new)
theorem shrinks_of_eq {before after : PreparedMutationScope}
    (h : after.prepared = before.prepared) : Shrinks before after :=
  ⟨fun _ _ hget => h ▸ hget⟩

theorem shrinks_clear (scope : PreparedMutationScope) : Shrinks scope scope.clear where
  kept handle mutation h := by
    change (empty : BTreeMap _ PreparedMutation).get? handle = some mutation at h
    cases h

theorem shrinks_consume (scope : PreparedMutationScope) (handles : List PreparedMutationHandle) :
    Shrinks scope (scope.consume handles).2 where
  kept handle mutation h := by
    rw [scope.consume_snd, get?_foldl_erase] at h
    split at h
    · cases h
    · exact h

namespace ScopeHistory
variable (self : ScopeHistory runtime)

theorem step_changes (action : ScopeAction runtime) : self.Changes (self.step action) := by
  cases action with
  | pushCoordinator thread coordinator => exact .shrinks _ (shrinks_of_eq rfl)
  | dropCoordinator thread => exact .shrinks _ (shrinks_of_eq rfl)
  | clear => exact .shrinks _ (shrinks_clear self.scope)
  | prepare host random thread namespc operations =>
    have h := host.prepares self.preparations.length random thread namespc operations self.scope
    dsimp only [step]
    generalize host.prepareDurableTransaction self.preparations.length random thread namespc
      operations self.scope = result at h
    cases h with
    | denied error => exact .shrinks _ (shrinks_of_eq rfl)
    | cleared error => exact .shrinks _ (shrinks_clear self.scope)
    | prepared handle hpermits howner hfresh =>
      exact .prepared ⟨host,thread,namespc,operations,self.scope,handle⟩ ⟨hpermits,howner⟩ hfresh
  | transactPrepared host handles backend =>
    have hscope : after (host.transactPrepared backend handles) self.scope =
        after (host.participants handles) self.scope := after_bind_check _ _ _
    have h := host.attempt handles self.scope
    dsimp only [step, passed]
    rw [hscope, after]
    generalize host.participants handles self.scope = result at h
    cases h with
    | denied error => simpa using Changes.shrinks _ (shrinks_of_eq rfl)
    | cleared error => simpa using Changes.shrinks _ (shrinks_clear self.scope)
    | unnamed error => simpa using Changes.shrinks _ (shrinks_of_eq rfl)
    | refused error => simpa using Changes.shrinks _ (shrinks_consume self.scope handles)
    | passed participants _ hconsumed hcoordinator howner _ =>
      cases self.scope.consume_eq_ok hconsumed
      exact .passed host handles hcoordinator howner

/-! ### Runs -/

/-- What holds in a run. -/
structure Sound (now : ScopeHistory runtime) : Prop where
  named : Named (·.preparation) now.scope.prepared
  issued : ∀ handle mutation, now.scope.prepared.get? handle = some mutation → now.Issued mutation
  pending : ∀ handle mutation, now.scope.prepared.get? handle = some mutation →
    mutation.preparation ∉ now.passedNumbers
  bound : ∀ commit ∈ now.commits, now.Bound commit
  once : now.passedNumbers.Nodup

variable {self}

variable {mutation : PreparedMutation}

theorem Issued.lt (h : self.Issued mutation) : mutation.preparation < self.preparations.length := by
  obtain ⟨preparation,hpreparation,-⟩ := h
  exact (List.getElem?_eq_some_iff.mp hpreparation).1

variable {next : ScopeHistory runtime}

theorem Issued.mono (h : self.Issued mutation) (hearlier : self.preparations <+: next.preparations) :
    next.Issued mutation := by
  obtain ⟨preparation,hpreparation,hmutation⟩ := h
  obtain ⟨later,hlater⟩ := hearlier
  refine ⟨preparation,?_,hmutation⟩
  rw [← hlater, List.getElem?_append_left (List.getElem?_eq_some_iff.mp hpreparation).1]
  exact hpreparation

theorem Bound.mono {commit : Commit} (h : self.Bound commit)
    (hearlier : self.preparations <+: next.preparations) : next.Bound commit where
  coordinator := h.coordinator
  owned := h.owned
  issued participant hparticipant := (h.issued participant hparticipant).mono hearlier

theorem Sound.mem_passedNumbers_lt (h : self.Sound) {number : ℕ}
    (hnumber : number ∈ self.passedNumbers) : number < self.preparations.length := by
  obtain ⟨participant,hparticipant,rfl⟩ := List.mem_map.mp hnumber
  obtain ⟨commit,hcommit,hparticipant⟩ := List.mem_flatMap.mp hparticipant
  exact ((h.bound commit hcommit).issued participant hparticipant).lt

theorem Sound.changes (h : self.Sound) (hchanges : self.Changes next) : next.Sound := by
  cases hchanges with
  | shrinks scope hshrinks =>
    constructor
    · intro j k v w hj hk
      exact h.named j k v w (hshrinks.kept j v hj) (hshrinks.kept k w hk)
    · intro handle mutation hget
      exact h.issued handle mutation (hshrinks.kept handle mutation hget)
    · intro handle mutation hget
      exact h.pending handle mutation (hshrinks.kept handle mutation hget)
    · exact fun commit hcommit => (h.bound commit hcommit).mono List.prefix_rfl
    · exact h.once
  | prepared preparation howned hfresh =>
    have hearlier : self.preparations <+: self.preparations ++ [preparation] :=
      List.prefix_append _ _
    have hold : ∀ j w, self.scope.prepared.get? j = some w →
        w.preparation ≠ self.preparations.length := fun j w hw => (h.issued j w hw).lt.ne
    constructor
    · exact h.named.insert hold
    · intro handle mutation hget
      rw [get?_insert] at hget
      split at hget
      · cases hget
        exact ⟨preparation,List.getElem?_concat_length,rfl,howned⟩
      · exact (h.issued handle mutation hget).mono hearlier
    · intro handle mutation hget hpassed
      rw [get?_insert] at hget
      split at hget
      · cases hget
        exact absurd (h.mem_passedNumbers_lt hpassed) (Nat.lt_irrefl _)
      · exact h.pending handle mutation hget hpassed
    · exact fun commit hcommit => (h.bound commit hcommit).mono hearlier
    · exact h.once
  | passed host handles hcoordinator howned =>
    have hshrinks := shrinks_consume self.scope handles
    have hnumbers : passedNumbers { self with
        scope := (self.scope.consume handles).2
        commits := self.commits ++ [⟨host.plugin,drain self.scope.prepared handles⟩] } =
        self.passedNumbers ++ (drain self.scope.prepared handles).map (·.preparation) := by
      simp [passedNumbers]
    constructor
    · intro j k v w hj hk
      exact h.named j k v w (hshrinks.kept j v hj) (hshrinks.kept k w hk)
    · intro handle mutation hget
      exact h.issued handle mutation (hshrinks.kept handle mutation hget)
    · intro handle mutation hget hpassed
      rw [hnumbers] at hpassed
      rcases List.mem_append.mp hpassed with hpassed | hpassed
      · exact h.pending handle mutation (hshrinks.kept handle mutation hget) hpassed
      · obtain ⟨taken,htaken,hsame⟩ := List.mem_map.mp hpassed
        rw [self.scope.consume_snd] at hget
        exact h.named.not_mem_drain htaken hget hsame
    · intro commit hcommit
      rcases List.mem_append.mp hcommit with hcommit | hcommit
      · exact (h.bound commit hcommit).mono List.prefix_rfl
      · rw [List.mem_singleton.mp hcommit]
        refine ⟨hcoordinator,howned,fun participant hparticipant => ?_⟩
        obtain ⟨handle,-,hget⟩ := mem_drain hparticipant
        exact h.issued handle participant hget
    · rw [hnumbers]
      refine h.once.append (h.named.nodup_drain handles) fun number hpassed hnumber => ?_
      obtain ⟨taken,htaken,rfl⟩ := List.mem_map.mp hnumber
      obtain ⟨handle,-,hget⟩ := mem_drain htaken
      exact h.pending handle taken hget hpassed

theorem sound_new (generation : Option GraphGenerationId) :
    (new generation : ScopeHistory runtime).Sound where
  named := named_empty
  issued handle mutation h := by cases (get?_empty handle).symm.trans h
  pending handle mutation h := by cases (get?_empty handle).symm.trans h
  bound commit h := absurd h List.not_mem_nil
  once := List.nodup_nil

theorem Sound.run (h : self.Sound) (actions : List (ScopeAction runtime)) :
    (self.run actions).Sound :=
  runAll_invariant (fun s action hs => hs.changes (s.step_changes action)) actions h

variable (self) in
/-- What is prepared later is added to the preparations, and a handle that can be used later could
be used before or has been issued since. -/
def Extends (next : ScopeHistory runtime) : Prop :=
  ∃ fresh, next.preparations = self.preparations ++ fresh ∧
    ∀ handle ∈ next.scope.prepared.keys, handle ∈ self.scope.prepared.keys ∨
      ∃ preparation ∈ fresh, preparation.handle = handle

theorem Extends.trans {middle : ScopeHistory runtime} (h : self.Extends middle)
    (hnext : middle.Extends next) : self.Extends next := by
  obtain ⟨fresh,hfresh,hkeys⟩ := h
  obtain ⟨later,hlater,hkeys'⟩ := hnext
  refine ⟨fresh ++ later,by rw [hlater, hfresh, List.append_assoc],fun handle hhandle => ?_⟩
  rcases hkeys' handle hhandle with hmiddle | ⟨preparation,hpreparation,hissued⟩
  · rcases hkeys handle hmiddle with hold | ⟨preparation,hpreparation,hissued⟩
    · exact .inl hold
    · exact .inr ⟨preparation,List.mem_append_left _ hpreparation,hissued⟩
  · exact .inr ⟨preparation,List.mem_append_right _ hpreparation,hissued⟩

theorem Changes.extends (h : self.Changes next) : self.Extends next := by
  have hshrinks : ∀ {scope : PreparedMutationScope}, Shrinks self.scope scope →
      ∀ handle ∈ scope.prepared.keys, handle ∈ self.scope.prepared.keys := by
    intro scope hshrinks handle hhandle
    rw [mem_keys_iff] at hhandle ⊢
    obtain ⟨mutation,hget⟩ := Option.isSome_iff_exists.mp hhandle
    rw [hshrinks.kept handle mutation hget]
    rfl
  cases h with
  | shrinks scope hscope =>
    exact ⟨[],(List.append_nil _).symm,fun handle hhandle => .inl (hshrinks hscope handle hhandle)⟩
  | prepared preparation =>
    refine ⟨[preparation],rfl,fun handle hhandle => ?_⟩
    rcases (mem_keys_insert _ _).mp hhandle with rfl | hold
    · exact .inr ⟨preparation,List.mem_singleton_self _,rfl⟩
    · exact .inl hold
  | passed host handles =>
    have hscope := shrinks_consume self.scope handles
    exact ⟨[],(List.append_nil _).symm,fun handle hhandle => .inl (hshrinks hscope handle hhandle)⟩

theorem extends_run (actions : List (ScopeAction runtime)) : self.Extends (self.run actions) :=
  runAll_invariant (fun s action h => h.trans (s.step_changes action).extends) actions
    ⟨[],(List.append_nil _).symm,fun _ h => .inl h⟩

variable {handles : List PreparedMutationHandle}

/-- With the right to write, no named handle is left. -/
theorem not_mem_transactPrepared {host : ScopedHost runtime}
    (hpermits : host.authority.permits persistenceWrite = true)
    {backend : List NamespaceTransaction → Except String Unit} {handle : PreparedMutationHandle}
    (hhandle : handle ∈ handles) :
    handle ∉ (self.step (.transactPrepared host handles backend)).scope.prepared.keys := by
  have hscope : after (host.transactPrepared backend handles) self.scope =
      after (host.participants handles) self.scope := after_bind_check _ _ _
  have hconsumed : handle ∉ (self.scope.consume handles).2.prepared.keys := by
    rw [self.scope.consume_snd]
    exact fun hmem => (mem_keys_foldl_erase _).mp hmem |>.2 hhandle
  have h := host.attempt handles self.scope
  dsimp only [step]
  rw [hscope, after]
  generalize host.participants handles self.scope = result at h
  cases h with
  | denied error hdenied => cases hdenied.symm.trans hpermits
  | cleared error => exact List.not_mem_nil
  | unnamed error _ hempty =>
    rw [hempty] at hhandle
    cases hhandle
  | refused error => exact hconsumed
  | passed participants => exact hconsumed

theorem scope_transactPrepared_of_denied {host : ScopedHost runtime}
    (hdenied : host.authority.permits persistenceWrite = false)
    (backend : List NamespaceTransaction → Except String Unit) :
    (self.step (.transactPrepared host handles backend)).scope = self.scope := by
  have hscope : after (host.transactPrepared backend handles) self.scope =
      after (host.participants handles) self.scope := after_bind_check _ _ _
  have h := host.attempt handles self.scope
  dsimp only [step]
  rw [hscope, after]
  generalize host.participants handles self.scope = result at h
  cases h with
  | denied error => rfl
  | cleared error hpermits => cases hdenied.symm.trans hpermits
  | unnamed error hpermits => cases hdenied.symm.trans hpermits
  | refused error hpermits => cases hdenied.symm.trans hpermits
  | passed participants hpermits => cases hdenied.symm.trans hpermits

end ScopeHistory

/-- A call of `transact_prepared` has the right to write, or names no handle that can be used. -/
def CommitsWithAuthority (self : ScopeHistory runtime) : ScopeAction runtime → Prop
  | .transactPrepared host handles _ => host.authority.permits persistenceWrite = true ∨
      ∀ handle ∈ handles, handle ∉ self.scope.prepared.keys
  | .pushCoordinator .. | .dropCoordinator .. | .prepare .. | .clear => True

/-- A mutation reaches the backend once, by the plugin it was prepared for, and no handle can be
used after a call of `transact_prepared` that names it, until it is issued again. -/
structure OneShot (generation : Option GraphGenerationId) (actions : List (ScopeAction runtime)) :
    Prop where
  once : ((ScopeHistory.new generation).run actions).passedNumbers.Nodup
  bound : ∀ commit ∈ ((ScopeHistory.new generation).run actions).commits,
    ((ScopeHistory.new generation).run actions).Bound commit
  consumed : ∀ before host handles backend later,
    before ++ .transactPrepared host handles backend :: later <+: actions →
    ∀ handle ∈ handles,
      let history := (ScopeHistory.new generation).run before
      let next := history.run (.transactPrepared host handles backend :: later)
      handle ∈ next.scope.prepared.keys →
        ∃ preparation ∈ next.preparations.drop history.preparations.length,
          preparation.handle = handle

theorem OneShot.commitsWithAuthority {generation : Option GraphGenerationId}
    {actions before : List (ScopeAction runtime)} (h : OneShot generation actions)
    {action : ScopeAction runtime} (hbefore : before ++ [action] <+: actions) :
    CommitsWithAuthority ((new generation).run before) action := by
  cases action with
  | transactPrepared host handles backend =>
    by_contra hnone
    obtain ⟨hdenied,hused⟩ := not_or.mp hnone
    have hdenied : host.authority.permits persistenceWrite = false := by simpa using hdenied
    apply hused
    intro handle hnamed hhandle
    -- nothing has been issued since the call
    obtain ⟨preparation,hpreparation,-⟩ := h.consumed before host handles backend [] hbefore handle
      hnamed (by
        rw [ScopeHistory.run, runAll_cons, runAll_nil]
        rw [ScopeHistory.scope_transactPrepared_of_denied hdenied]
        exact hhandle)
    have hnone : ((new generation).run before).preparations.drop
      ((new generation).run before).preparations.length = [] := List.drop_length
    exact absurd (hnone ▸ hpreparation) List.not_mem_nil
  | pushCoordinator | dropCoordinator | prepare | clear => trivial

theorem CommitsWithAuthority.consumed {history : ScopeHistory runtime}
    {host : ScopedHost runtime} {handles : List PreparedMutationHandle}
    {backend : List NamespaceTransaction → Except String Unit}
    (h : CommitsWithAuthority history (.transactPrepared host handles backend))
    {handle : PreparedMutationHandle} (hnamed : handle ∈ handles)
    {later : List (ScopeAction runtime)}
    (hhandle : handle ∈
      (history.run (.transactPrepared host handles backend :: later)).scope.prepared.keys) :
    ∃ preparation ∈ (history.run (.transactPrepared host handles backend :: later)).preparations.drop
      history.preparations.length, preparation.handle = handle := by
  have hgone : handle ∉
      (history.step (.transactPrepared host handles backend)).scope.prepared.keys := by
    cases hpermits : host.authority.permits persistenceWrite with
    | true => exact ScopeHistory.not_mem_transactPrepared hpermits hnamed
    | false =>
      rw [ScopeHistory.scope_transactPrepared_of_denied hpermits]
      exact h.resolve_left (by simp [hpermits]) handle hnamed
  have hextends : (history.step (.transactPrepared host handles backend)).Extends
      (history.run (.transactPrepared host handles backend :: later)) :=
    ScopeHistory.extends_run later
  obtain ⟨fresh,hfresh,hkeys⟩ := hextends
  have hpreparations : (history.run (.transactPrepared host handles backend :: later)).preparations =
      history.preparations ++ fresh := hfresh
  rw [hpreparations, List.drop_left]
  exact (hkeys handle hhandle).resolve_left hgone

/-- Prepared mutations are one-shot and bound to their owners in exactly the runs in which no handle
that can be used is named without the right to write. -/
theorem oneShot_iff (generation : Option GraphGenerationId)
    (actions : List (ScopeAction runtime)) : OneShot generation actions ↔
      Along ScopeHistory.step CommitsWithAuthority (.new generation) actions := by
  have hsound : ((new generation).run actions : ScopeHistory runtime).Sound :=
    (ScopeHistory.sound_new generation).run actions
  rw [along_iff]
  constructor
  · intro h before action hbefore
    exact h.commitsWithAuthority hbefore
  · intro h
    refine ⟨hsound.once,hsound.bound,?_⟩
    intro before host handles backend later hearlier handle hnamed history next hhandle
    have hfirst : before ++ [.transactPrepared host handles backend] <+: actions :=
      (List.prefix_append_right_inj before).mpr
        (List.cons_prefix_cons.mpr ⟨rfl,List.nil_prefix⟩) |>.trans hearlier
    exact (h before _ hfirst).consumed hnamed hhandle

/-! ### A reader names the handle of a journal -/

def journalPlugin : PluginId := ⟨"journal",by decide⟩
def readerPlugin : PluginId := ⟨"reader",by decide⟩
def journalNamespace : ResourceNamespace := ⟨"journal.state",by decide⟩

def journalConfig : Except KernelError KernelConfig :=
  KernelConfig.new 0 [⟨journalPlugin,1,.embedded,[],[],[journalNamespace],.new [persistenceWrite]⟩,
    ⟨readerPlugin,1,.embedded,[],[],[],.new []⟩]

def journalRuntime (config : KernelConfig) : InvocationContext where
  componentGraph := ⟨.empty,[]⟩
  config := config
  states := .ofList [(journalPlugin,.active),(readerPlugin,.active)]
  instances := .ofList [(journalPlugin,0),(readerPlugin,1)]

def scopedHost (runtime : InvocationContext) (plugin : PluginId)
    (capabilities : List CapabilityId) : ScopedHost runtime where
  plugin := plugin
  authority := .new capabilities
  callStack := {plugin}
  continuation := none
  activeServices := ∅
  activeComponentEndpoints := ∅
  graphGeneration := none
  cancelled := false

/-- The journal prepares a mutation, and the reader, which may not write, names it. -/
def readerActions (runtime : InvocationContext) : List (ScopeAction runtime) :=
  [.prepare (scopedHost runtime journalPlugin [persistenceWrite]) ⟨[fun _ => 0],""⟩ 0
      journalNamespace [],
    .transactPrepared (scopedHost runtime readerPlugin []) [.generate fun _ => 0] fun _ => .ok ()]

/-- The handle can still be used, and was not issued again. -/
theorem reader_leaves_handle : ∃ config, journalConfig = .ok config ∧
    ¬OneShot none (readerActions (journalRuntime config)) := by
  have hrun : (match journalConfig with
    | .ok config => .generate (fun _ => 0) ∈
        ((new none).run (readerActions (journalRuntime config))).scope.prepared.keys
    | .error _ => false) = true := by decide +kernel
  split at hrun
  · next config hconfig =>
    refine ⟨config,hconfig,fun h => ?_⟩
    obtain ⟨preparation,hpreparation,-⟩ := h.consumed [_] _ _ _ [] List.prefix_rfl _
      (List.mem_singleton_self _) (of_decide_eq_true hrun)
    exact List.not_mem_nil (List.drop_length.subst (motive := (preparation ∈ ·)) hpreparation)
  · cases hrun

end PhenixConductor.Runtime

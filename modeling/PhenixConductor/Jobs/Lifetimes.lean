import PhenixConductor.Jobs.Resources
import Mathlib.Data.List.Destutter

/-! # The life of a runtime resource

A commit writes one resource, and asserts what is stored under its key.
-/
namespace PhenixConductor.Jobs
open Collections Script List

/-- How a stored resource may change: it ends once and is then left as it is, its authority does
not grow, and while it runs only its promotion changes, once. -/
structure Evolves (old new : RuntimeResourceRecord) : Prop where
  id : new.id = old.id
  kind : new.kind = old.kind
  ownerExecution : new.ownerExecution = old.ownerExecution
  ended : old.state ≠ .running → new = old
  authority : ∀ capability ∈ new.authority.keys, capability ∈ old.authority.keys
  promoted : old.promotedToWorkspace = true → new.promotedToWorkspace = true
  running : new.state = .running →
    new = { old with promotedToWorkspace := new.promotedToWorkspace }

namespace Evolves

theorem refl (r : RuntimeResourceRecord) : Evolves r r :=
  ⟨rfl,rfl,rfl,fun _ => rfl,fun _ h => h,fun h => h,fun _ => rfl⟩

theorem trans {a b c : RuntimeResourceRecord} (hab : Evolves a b) (hbc : Evolves b c) :
    Evolves a c where
  id := hbc.id.trans hab.id
  kind := hbc.kind.trans hab.kind
  ownerExecution := hbc.ownerExecution.trans hab.ownerExecution
  ended ha := by
    obtain rfl := hab.ended ha
    exact hbc.ended ha
  authority capability hc := hab.authority capability (hbc.authority capability hc)
  promoted ha := hbc.promoted (hab.promoted ha)
  running hc := by
    have hb : b.state = .running := by
      by_contra hb
      rw [hbc.ended hb] at hc
      exact hb hc
    rw [hbc.running hc,hab.running hb]

/-- A resource that has changed does not come back. -/
theorem antisymm {a b : RuntimeResourceRecord} (hab : Evolves a b) (hba : Evolves b a) :
    a = b := by
  by_cases hb : b.state = .running
  · have hpromoted : b.promotedToWorkspace = a.promotedToWorkspace :=
      Bool.eq_iff_iff.mpr ⟨hba.promoted,hab.promoted⟩
    rw [hab.running hb,hpromoted]
  · exact hba.ended hb

end Evolves

/-- The change of one command: it promotes a resource only if that goes on running. -/
structure Mutates (old new : RuntimeResourceRecord) : Prop extends Evolves old new where
  promotes : old.promotedToWorkspace = false → new.promotedToWorkspace = true →
    new.state = .running

theorem Mutates.refl (r : RuntimeResourceRecord) : Mutates r r :=
  ⟨.refl r,fun h h' => absurd h' (by simp [h])⟩

variable {r r' : RuntimeResourceRecord}

theorem promoteResource_mutates (h : promoteResource r = .ok r') : Mutates r r' := by
  unfold promoteResource at h
  split at h
  · cases h
  · split at h
    · cases h
    · next hrunning =>
      cases h
      exact ⟨⟨rfl,rfl,rfl,fun hended => absurd hended hrunning,fun _ h => h,fun _ => rfl,
        fun _ => rfl⟩,fun _ _ => not_not.mp hrunning⟩

theorem completeResource_mutates {code : Option ℤ} {references : List String}
    (h : completeResource code references r = .ok r') : Mutates r r' := by
  unfold completeResource at h
  split at h
  · cases h
  · next hrunning =>
    cases h
    exact ⟨⟨rfl,rfl,rfl,fun hended => absurd hended hrunning,fun _ h => h,fun h => h,
      fun hexited => by cases hexited⟩,fun hnot hpromoted => absurd (hnot.symm.trans hpromoted) (by simp)⟩

theorem terminateResource_mutates (h : terminateResource r = some r') : Mutates r r' := by
  unfold terminateResource at h
  split at h
  · next hcond =>
    cases h
    exact ⟨⟨rfl,rfl,rfl,fun hended => absurd hcond.2 hended,fun _ h => h,fun h => h,by simp⟩,
      by simp⟩
  · cases h

theorem narrowResource_mutates {authority : BTreeSet String}
    (h : narrowResource authority r = some r') : Mutates r r' := by
  unfold narrowResource at h
  split at h
  · cases h
  · split at h
    · cases h
    · next hrunning _ =>
      cases h
      refine ⟨⟨rfl,rfl,rfl,fun hended => absurd hended hrunning,?_,fun h => h,by simp⟩,by simp⟩
      intro capability hc
      exact (mem_filter.mp hc).1

/-- The index lists the stored ids, sorted and once each, and a record is stored under its id. -/
structure Indexed (s : JobStore) : Prop where
  sorted : (decodeIndex (s .index)).Pairwise (· < ·)
  exact : ∀ id, id ∈ decodeIndex (s .index) ↔ (s (.resource id)).isSome
  named : ∀ id r, s (.resource id) = some r → r.id = id

theorem indexed_empty : Indexed fun _ => none :=
  ⟨.nil,fun id => by simp [decodeIndex],fun id r h => by simp at h⟩

/-- What commands rely on: resources evolve, and the index stays exact. -/
structure Later (s t : JobStore) : Prop where
  indexed : Indexed t
  evolves : ∀ id r, s (.resource id) = some r → ∃ r', t (.resource id) = some r' ∧ Evolves r r'

namespace Later

theorem refl {s : JobStore} (h : Indexed s) : Later s s :=
  ⟨h,fun _ r hr => ⟨r,hr,.refl r⟩⟩

theorem trans {s t u : JobStore} (hst : Later s t) (htu : Later t u) : Later s u where
  indexed := htu.indexed
  evolves id r hr := by
    obtain ⟨r',hr',hev⟩ := hst.evolves id r hr
    obtain ⟨r'',hr'',hev'⟩ := htu.evolves id r' hr'
    exact ⟨r'',hr'',hev.trans hev'⟩

end Later

abbrev JobLog := StoreLog JobCell.Content NoReply

def EachMutates (s t : JobStore) : Prop :=
  ∀ id r, s (.resource id) = some r → ∃ r', t (.resource id) = some r' ∧ Mutates r r'

/-- What a request of a command does: a resource that it changes is changed as one command does it,
and is the one that the command has read. -/
structure Changes (log : JobLog) (s t : JobStore) : Prop where
  indexed : Indexed s → Indexed t
  mutates : EachMutates s t
  current : ∀ id value, t (.resource id) ≠ s (.resource id) →
    reading NoReply (.resource id) value ∈ log → s (.resource id) = value

theorem Changes.refl (log : JobLog) (s : JobStore) : Changes log s s where
  indexed h := h
  mutates _ r hr := ⟨r,hr,.refl r⟩
  current _ _ hne := absurd rfl hne

section Programs

abbrev JobCooperates {α : Type} (post : Except String α → JobLog → JobStore → Prop) :
    JobM α → JobLog → JobStore → Prop :=
  Cooperates serveStore Later Repeatable (fun log _ _ => Changes log) post

variable {α β : Type} {post : Except String β → JobLog → JobStore → Prop} {log : JobLog}
  {s : JobStore}

/-- A program fails, or goes on with what it has read; the readings go on to agree. -/
theorem cooperates_readRaw_bind {cell : JobCell} {f : Option cell.Content → JobM β}
    (hlog : Agrees log) (herror : ∀ e log t, post (.error e) log t)
    (hok : ∀ t, Later s t → Agrees (reading NoReply cell (t cell) :: log) →
      JobCooperates post (f (t cell)) (reading NoReply cell (t cell) :: log) t) :
    JobCooperates post (readRaw cell >>= f) log s := by
  apply cooperates_askRead_bind
  · exact fun t _ _ => .refl log t
  · exact fun t _ error => herror _ _ _
  · exact fun t ht reply hrepeat => hok t ht (hlog.read hrepeat)

theorem cooperates_orElse_bind {error : String} {value : Option α} {f : α → JobM β}
    (herror : ∀ e log t, post (.error e) log t)
    (hok : ∀ a, value = some a → JobCooperates post (f a) log s) :
    JobCooperates post (orElse error value >>= f) log s := by
  cases value with
  | none => exact herror _ _ _
  | some a => exact hok a rfl

theorem cooperates_transactDurable_bind {operations : List (CellOp JobCell.Content)}
    {f : Unit → JobM β} (hlog : Agrees log) (herror : ∀ e log t, post (.error e) log t)
    (hok : ∀ t u, Later s t → CellOp.commit t operations = .ok u → Changes log t u ∧
      ∀ log', Agrees log' → (∀ entry ∈ log, entry ∈ log') → JobCooperates post (f ()) log' u) :
    JobCooperates post (transactDurable operations >>= f) log s := by
  apply cooperates_askCommit_bind
  · exact fun t _ _ _ => .refl log t
  · exact fun t _ error => herror _ _ _
  · intro t u ht _ _ hcommit
    obtain ⟨hchanges,hnext⟩ := hok t u ht hcommit
    refine ⟨hchanges,hnext _ (hlog.cons ?_) fun entry => mem_cons_of_mem _⟩
    intro k value h
    cases h

variable {resource : RuntimeResourceRecord}

variable {decided : RuntimeResourceRecord}

/-- The change of `replace`: what is asserted is what the command has read every time. -/
theorem changes_of_replace {t u : JobStore} (hlog : Agrees log)
    (hread : reading NoReply (.resource resource.id) (some decided) ∈ log)
    (hmutates : Mutates decided resource)
    (hcommit : CellOp.commit t [.assert (.resource resource.id) (some decided), .put (.resource resource.id) resource] = .ok u) :
    Changes log t u := by
  obtain ⟨hstored,rfl⟩ : t (.resource resource.id) = some decided ∧
      Function.update t (.resource resource.id) (some resource) = u := by
    simpa [CellOp.commit_eq_ok,Along,CellOp.Holds,CellOp.write] using hcommit
  refine ⟨fun hindexed => ⟨hindexed.sorted,?_,?_⟩,?_,?_⟩
  · intro id
    rw [show Function.update t (.resource resource.id) (some resource) .index = t .index from rfl,
      hindexed.exact]
    by_cases hid : id = resource.id
    · subst hid
      simp [hstored]
    · simp [hid]
  · intro id r hr
    by_cases hid : id = resource.id
    · subst hid
      simp only [Function.update_self,Option.some.injEq] at hr
      rw [hr]
    · exact hindexed.named id r (by simpa [hid] using hr)
  · intro id r hr
    by_cases hid : id = resource.id
    · subst hid
      obtain rfl := Option.some.inj (hstored.symm.trans hr)
      exact ⟨resource,by simp,hmutates⟩
    · exact ⟨r,by simpa [hid] using hr,.refl r⟩
  · intro id value hne hvalue
    by_cases hid : id = resource.id
    · subst hid
      rw [hstored]
      exact hlog _ _ _ hread hvalue
    · simp [hid] at hne

/-- The commit of `replace`, where the second read finds what was decided on. -/
theorem cooperates_replace_bind {f : Unit → JobM β} (hlog : Agrees log)
    (herror : ∀ e log t, post (.error e) log t)
    (hread : reading NoReply (.resource resource.id) (some decided) ∈ log)
    (hmutates : Mutates decided resource)
    (hok : ∀ t log', Agrees log' → (∀ entry ∈ log, entry ∈ log') → JobCooperates post (f ()) log' t) :
    JobCooperates post (replace resource >>= f) log s := by
  rw [replace,bind_bind]
  refine cooperates_readRaw_bind hlog herror fun t ht hagrees => ?_
  rw [bind_bind]
  refine cooperates_orElse_bind herror fun old hold => ?_
  obtain rfl : old = decided := by
    have hsame := hagrees (.resource resource.id) _ _ mem_cons_self
      (mem_cons_of_mem _ hread)
    rw [hold] at hsame
    exact Option.some.inj hsame
  refine cooperates_transactDurable_bind hagrees herror fun t' u ht' hcommit => ?_
  refine ⟨changes_of_replace hagrees (mem_cons_of_mem _ hread) hmutates hcommit,?_⟩
  intro log' hagrees' hsub
  exact hok u log' hagrees' fun entry hentry => hsub entry (mem_cons_of_mem _ hentry)

/-- The commit of `insert`: the id that comes to the index was stored nowhere. -/
theorem changes_of_insert {oldIndex : Option (List String)} {t u : JobStore} (hlog : Agrees log)
    (hread : reading NoReply (.resource resource.id) none ∈ log)
    (hcommit : CellOp.commit t [.assert (.resource resource.id) none,.assert .index oldIndex, .put (.resource resource.id) resource, .put .index ((decodeIndex oldIndex ++ [resource.id]).insertionSort (· ≤ ·))] = .ok u) :
    Changes log t u := by
  obtain ⟨⟨hnone,rfl⟩,rfl⟩ : (t (.resource resource.id) = none ∧ t .index = oldIndex) ∧
      Function.update (Function.update t (.resource resource.id) (some resource)) .index
        (some ((decodeIndex oldIndex ++ [resource.id]).insertionSort (· ≤ ·))) = u := by
    simpa [CellOp.commit_eq_ok,Along,CellOp.Holds,CellOp.write] using hcommit
  have hindex : Function.update (Function.update t (.resource resource.id) (some resource)) .index
      (some ((decodeIndex (t .index) ++ [resource.id]).insertionSort (· ≤ ·))) .index =
      some ((decodeIndex (t .index) ++ [resource.id]).insertionSort (· ≤ ·)) :=
    Function.update_self _ _ _
  have hresource (id : String) : Function.update (Function.update t (.resource resource.id)
      (some resource)) .index (some ((decodeIndex (t .index) ++ [resource.id]).insertionSort
        (· ≤ ·))) (.resource id) =
      if id = resource.id then some resource else t (.resource id) := by
    by_cases hid : id = resource.id
    · subst hid
      simp
    · simp [hid]
  refine ⟨fun hindexed => ⟨?_,fun id => ?_,fun id r hr => ?_⟩,fun id r hr => ?_,
    fun id value hne hvalue => ?_⟩
  · have hnew : resource.id ∉ decodeIndex (t .index) := by
      rw [hindexed.exact,hnone]
      simp
    have hnodup : (decodeIndex (t .index) ++ [resource.id]).Nodup := by
      rw [nodup_append]
      refine ⟨hindexed.sorted.imp fun h => h.ne,by simp,?_⟩
      rintro a ha b hb rfl
      exact hnew (mem_singleton.mp hb ▸ ha)
    rw [hindex]
    exact (sortByKey_strict (by simpa using hnodup) :
      (sortByKey id (decodeIndex (t .index) ++ [resource.id])).Pairwise fun a b => id a < id b)
  · rw [hindex,hresource]
    simp only [decodeIndex,Option.getD_some,mem_insertionSort,mem_append,
      mem_singleton]
    split
    · next hid => simp [hid]
    · next hid => simpa [decodeIndex,hid] using hindexed.exact id
  · rw [hresource] at hr
    split at hr
    · next hid => rw [← Option.some.inj hr,hid]
    · exact hindexed.named id r hr
  · refine ⟨r,?_,.refl r⟩
    rw [hresource,if_neg,hr]
    rintro rfl
    rw [hnone] at hr
    cases hr
  · rw [hresource] at hne
    split at hne
    · next hid =>
      subst hid
      rw [hnone]
      exact hlog _ _ _ hread hvalue
    · exact absurd rfl hne

variable (hlog : Agrees log) (herror : ∀ e log t, post (.error e) log t)
include hlog herror

theorem cooperates_insert_bind {f : Unit → JobM β}
    (hok : ∀ t log', JobCooperates post (f ()) log' t) :
    JobCooperates post (insert resource >>= f) log s := by
  rw [insert,bind_bind]
  refine cooperates_readRaw_bind hlog herror fun t ht hagrees => ?_
  rw [requireNew,bind_bind]
  split
  · exact herror _ _ _
  · rw [bind_bind]
    refine cooperates_readRaw_bind hagrees herror fun t' ht' hagrees' => ?_
    split
    · exact herror _ _ _
    · next hnone =>
      have hstored : t' (.resource resource.id) = none := by simpa using hnone
      refine cooperates_transactDurable_bind hagrees' herror fun v u hv hcommit => ?_
      refine ⟨changes_of_insert hagrees' ?_ hcommit,fun log' _ _ => hok u log'⟩
      rw [← hstored]
      exact mem_cons_self

variable {f : List RuntimeResourceRecord → JobM β}

/-- What is loaded has been read under its id. -/
theorem cooperates_loadRecords_bind {ids : List String}
    (hok : ∀ resources t log', Agrees log' → (∀ entry ∈ log, entry ∈ log') → (∀ r ∈ resources, reading NoReply (.resource r.id) (some r) ∈ log') → JobCooperates post (f resources) log' t) :
    JobCooperates post (loadRecords ids >>= f) log s := by
  induction ids generalizing log s f with
  | nil => exact hok [] s log hlog (fun _ h => h) (by simp)
  | cons id ids ih =>
    rw [loadRecords, bind_bind]
    refine cooperates_readRaw_bind hlog herror fun t ht hagrees => ?_
    rw [bind_bind]
    refine cooperates_orElse_bind herror fun r hr => ?_
    rw [bind_bind]
    refine ih hagrees fun resources u log' hagrees' hsub hall => ?_
    refine hok (r :: resources) u log' hagrees' ?_ ?_
    · exact fun entry hentry => hsub entry (mem_cons_of_mem _ hentry)
    · intro r' hr'
      rcases mem_cons.mp hr' with rfl | hr'
      · obtain rfl := ht.indexed.named id r' hr
        rw [← hr]
        exact hsub _ mem_cons_self
      · exact hall r' hr'

theorem cooperates_loadAll_bind
    (hok : ∀ resources t log', Agrees log' → (∀ r ∈ resources, reading NoReply (.resource r.id) (some r) ∈ log') → JobCooperates post (f resources) log' t) :
    JobCooperates post (loadAll >>= f) log s := by
  rw [loadAll,bind_bind]
  refine cooperates_readRaw_bind hlog herror fun t ht hagrees => ?_
  exact cooperates_loadRecords_bind hagrees herror fun resources u log' hagrees' _ hall =>
    hok resources u log' hagrees' hall

theorem cooperates_update_bind {id : String}
    {mutation : RuntimeResourceRecord → Except String RuntimeResourceRecord}
    {f : RuntimeResourceRecord → JobM β}
    (hmutation : ∀ r r', mutation r = .ok r' → Mutates r r')
    (hok : ∀ resource t log', JobCooperates post (f resource) log' t) :
    JobCooperates post (update id mutation >>= f) log s := by
  rw [update,bind_bind]
  refine cooperates_ofExcept_bind (fun e _ => herror e _ _) fun _ _ => ?_
  rw [bind_bind]
  refine cooperates_readRaw_bind hlog herror fun t ht hagrees => ?_
  rw [bind_bind]
  refine cooperates_orElse_bind herror fun r hr => ?_
  rw [bind_bind]
  refine cooperates_ofExcept_bind (fun e _ => herror e _ _) fun r' hr' => ?_
  rw [bind_bind]
  have hmutates := hmutation r r' hr'
  have hid : r'.id = id := hmutates.id.trans (ht.indexed.named id r hr)
  refine cooperates_replace_bind hagrees herror ?_ hmutates fun u log' _ _ => hok r' u log'
  rw [hid,← hr]
  exact mem_cons_self

variable {mutation : RuntimeResourceRecord → Option RuntimeResourceRecord}

theorem cooperates_mutateEach_bind {executionId : String} {resources : List RuntimeResourceRecord}
    (hmutation : ∀ r r', mutation r = some r' → Mutates r r')
    (hread : ∀ r ∈ resources, reading NoReply (.resource r.id) (some r) ∈ log)
    (hok : ∀ affected t log', JobCooperates post (f affected) log' t) :
    JobCooperates post (mutateEach executionId mutation resources >>= f) log s := by
  induction resources generalizing log s f with
  | nil => exact hok [] s log
  | cons r resources ih =>
    have hrest : ∀ r' ∈ resources, reading NoReply (.resource r'.id) (some r') ∈ log :=
      fun r' hr' => hread r' (mem_cons_of_mem _ hr')
    rw [mutateEach]
    split
    · exact ih hlog hrest hok
    · cases hr' : mutation r with
      | none => exact ih hlog hrest hok
      | some r' =>
        have hmutates := hmutation r r' hr'
        have hthis : reading NoReply (.resource r'.id) (some r) ∈ log := by
          rw [hmutates.id]
          exact hread r mem_cons_self
        rw [bind_bind]
        refine cooperates_replace_bind hlog herror hthis hmutates fun t log' hagrees hsub => ?_
        rw [bind_bind]
        refine ih hagrees (fun later hlater => hsub _ (hrest later hlater)) ?_
        exact fun affected u log'' => hok (r' :: affected) u log''

theorem cooperates_mutateMatching_bind {executionId : String}
    (hmutation : ∀ r r', mutation r = some r' → Mutates r r')
    (hok : ∀ affected t log', JobCooperates post (f affected) log' t) :
    JobCooperates post (mutateMatching executionId mutation >>= f) log s := by
  rw [mutateMatching,bind_bind]
  refine cooperates_ofExcept_bind (fun e _ => herror e _ _) fun _ _ => ?_
  rw [bind_bind]
  refine cooperates_loadAll_bind hlog herror fun resources t log' hagrees hread => ?_
  rw [bind_bind]
  exact cooperates_mutateEach_bind hagrees herror hmutation hread fun affected u log'' =>
    hok _ u log''

end Programs

theorem handle_cooperates (command : JobCommand) (s : JobStore) :
    JobCooperates (fun _ _ _ => True) (handle command) [] s := by
  have hlog : Agrees ([] : JobLog) := fun _ _ _ h => by cases h
  have herror : ∀ (e : String) (log : JobLog) (t : JobStore), True := fun _ _ _ => trivial
  cases command with
  | create id kind ownerExecution authority =>
    rw [handle,create,bind_bind]
    refine cooperates_ofExcept_bind (fun _ _ => trivial) fun _ _ => ?_
    rw [bind_bind]
    refine cooperates_ofExcept_bind (fun _ _ => trivial) fun _ _ => ?_
    rw [bind_bind]
    exact cooperates_insert_bind hlog herror fun _ _ => trivial
  | promote id =>
    exact cooperates_update_bind hlog herror (fun _ _ => promoteResource_mutates)
      fun _ _ _ => trivial
  | complete id code references =>
    exact cooperates_update_bind hlog herror (fun _ _ => completeResource_mutates)
      fun _ _ _ => trivial
  | executionTerminated executionId =>
    exact cooperates_mutateMatching_bind hlog herror (fun _ _ => terminateResource_mutates)
      fun _ _ _ => trivial
  | narrowAuthority executionId authority =>
    exact cooperates_mutateMatching_bind hlog herror (fun _ _ => narrowResource_mutates)
      fun _ _ _ => trivial
  | get id =>
    refine cooperates_ofExcept_bind (fun _ _ => trivial) fun _ _ => ?_
    exact cooperates_readRaw_bind hlog herror fun _ _ _ => trivial
  | list => exact cooperates_loadAll_bind hlog herror fun _ _ _ _ _ => trivial

theorem handle_teamwork : Teamwork serveStore handle (fun _ => True) Indexed Later
    (fun _ => Repeatable) (fun _ log _ _ => Changes log) where
  refl _ h := .refl h
  trans _ _ _ := .trans
  keeps _ _ h _ := h.indexed
  provides _ _ _ _ s t _ hs h := by
    refine ⟨h.indexed hs,fun id r hr => ?_⟩
    obtain ⟨r',hr',hmutates⟩ := h.mutates id r hr
    exact ⟨r',hr',hmutates.toEvolves⟩
  starts command s _ _ := handle_cooperates command s

abbrev JobPool := Pool JobCommand (StoreRequest.Answer (V := JobCell.Content) NoReply) String
  JobResponse JobStore

abbrev JobEvent := PoolEvent JobCommand (StoreTurn NoReply)

def jobStep : JobPool → JobEvent → JobPool := Pool.step serveStore handle

/-- Nothing is stored, and no command is under way. -/
def emptyPool : JobPool := ⟨fun _ => none,[]⟩

/-- The pool after some events on an empty store. -/
def runJobs (events : List JobEvent) : JobPool := runAll jobStep emptyPool events

/-- A command that reads a record again, to replace it, finds the record that it was decided on. -/
abbrev Undisturbed (pool : JobPool) (event : JobEvent) : Prop := pool.Turn (fun _ => Repeatable) event

/-- A resource that an event promotes runs before and after it. -/
def PromotesRunning (pool : JobPool) (event : JobEvent) : Prop :=
  ∀ id r r', pool.state (.resource id) = some r →
    (jobStep pool event).state (.resource id) = some r' →
    r.promotedToWorkspace = false → r'.promotedToWorkspace = true →
    r.state = .running ∧ r'.state = .running

/-- A resource that an event changes is stored as the command that changes it has read it, every
time. -/
def OverwritesNothing (pool : JobPool) (event : JobEvent) : Prop :=
  pool.Turn (fun _ log turn r s => ∀ id value,
    (serveStore turn r s).2 (.resource id) ≠ s (.resource id) →
    reading NoReply (.resource id) value ∈ log → s (.resource id) = value) event

/-- A resource ends once and never regains power, over all moments of a run. -/
structure EndsOnce (events : List JobEvent) : Prop where
  indexed : Indexed (runJobs events).state
  evolves : ∀ before after, events = before ++ after → ∀ id r,
    (runJobs before).state (.resource id) = some r →
    ∃ r', (runJobs events).state (.resource id) = some r' ∧ Evolves r r'
  promotes : Along jobStep PromotesRunning emptyPool events
  overwrites : Along jobStep OverwritesNothing emptyPool events
  /-- A record that has changed does not come back. -/
  forward : ∀ first second third, events = first ++ second ++ third → ∀ id r,
    (runJobs first).state (.resource id) = some r →
    (runJobs events).state (.resource id) = some r →
    (runJobs (first ++ second)).state (.resource id) = some r

theorem later_of_undisturbed {before after : List JobEvent}
    (h : Along jobStep Undisturbed emptyPool (before ++ after)) :
    Later (runJobs before).state (runJobs (before ++ after)).state :=
  handle_teamwork.run_between (Teamwork.working_idle indexed_empty) (fun _ _ => trivial) h

theorem along_changes {events : List JobEvent} (h : Along jobStep Undisturbed emptyPool events) :
    Along jobStep (fun pool event => pool.Turn (fun _ log turn r s =>
      Changes log s (serveStore turn r s).2) event) emptyPool events :=
  (handle_teamwork.run (Teamwork.working_idle indexed_empty) (fun _ _ => trivial) h).2.2

/-- Requests of one program, none of which fails by itself. -/
def turns (process count : ℕ) : List JobEvent :=
  List.replicate count (.turn process ⟨none,fun _ => ()⟩)

/-- Where every second read finds what was decided on, all resources end once. -/
theorem ends_once (events : List JobEvent) (h : Along jobStep Undisturbed emptyPool events) :
    EndsOnce events where
  indexed := by
    have hall : Along jobStep Undisturbed emptyPool ([] ++ events) := h
    exact (later_of_undisturbed hall).indexed
  evolves before after hevents id r hr := by
    subst hevents
    exact (later_of_undisturbed h).evolves id r hr
  promotes := (along_changes h).mono fun pool event hchanges => by
    have hmutates : EachMutates pool.state (jobStep pool event).state :=
      Pool.Turn.state (hchanges.mono fun _ log turn r s hthis => hthis.mutates)
        fun id r hr => ⟨r,hr,.refl r⟩
    intro id r r' hr hr' hbefore hafter
    obtain ⟨r'',hr'',hmutates⟩ := hmutates id r hr
    obtain rfl : r' = r'' := Option.some.inj (hr'.symm.trans hr'')
    refine ⟨?_,hmutates.promotes hbefore hafter⟩
    by_contra hended
    rw [hmutates.ended hended,hbefore] at hafter
    cases hafter
  overwrites := (along_changes h).mono fun pool event hchanges =>
    hchanges.mono fun _ log turn r s hthis => hthis.current
  forward first second third hevents id r hfirst hlast := by
    subst hevents
    obtain ⟨r',hr',hev⟩ := (later_of_undisturbed
      (along_append.mp h).1).evolves id r hfirst
    obtain ⟨r'',hr'',hev'⟩ := (later_of_undisturbed h).evolves id r' hr'
    obtain rfl : r = r'' := Option.some.inj (hlast.symm.trans hr'')
    rw [hr',hev.antisymm hev']

/-- A job is promoted and then exits, one command after another. -/
theorem ends_once_exited : EndsOnce (
    .start (.create "build" .job "run" .empty) :: turns 0 3 ++
      .start (.promote "build") :: turns 1 3 ++
      .start (.complete "build" (some 0) []) :: turns 2 3) :=
  ends_once _ (by decide +kernel)

/-- A promotion is decided on a running job, which then exits, and only then reads it again. -/
def promotedAfterExit : List JobEvent :=
  .start (.create "build" .job "run" .empty) :: turns 0 3 ++
    .start (.promote "build") :: turns 1 1 ++
    .start (.complete "build" (some 0) []) :: turns 2 3

theorem promoted_after_exit : ¬ EndsOnce (promotedAfterExit ++ turns 1 2) := by
  intro h
  obtain ⟨r,hr,hev⟩ := h.evolves promotedAfterExit (turns 1 2) rfl "build"
    ⟨"build",.job,"run",false,.empty,.exited (some 0),[]⟩ (by decide +kernel)
  have hagain : (runJobs (promotedAfterExit ++ turns 1 2)).state (.resource "build") =
      some ⟨"build",.job,"run",true,.empty,.running,[]⟩ := by decide +kernel
  obtain rfl := Option.some.inj (hagain.symm.trans hr)
  cases hev.ended (by simp)

end PhenixConductor.Jobs

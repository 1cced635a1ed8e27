import PhenixConductor.Collections.Firsts
import PhenixConductor.Collections.JsonText
import PhenixConductor.Memory.Records

/-! # Associations of memories with contexts

An association counts in how many events a memory was seen in a context, and how often its use
was confirmed there.
-/
namespace PhenixConductor.Memory
open Collections Contract List
open Execution (U64 U32)

inductive ContextAnchor
  | workspace (workspaceId : String)
  | repository (canonicalRemote : String) (workspaceId : Option String)
  | path (path : String)
  | project (key : String)
  | task (key : String)
  | session (sessionId : SessionId)
  | resource (service : ServiceId) (resource : String)
deriving DecidableEq

namespace ContextAnchor

/-- The fields of an anchor, with its tag. -/
def entries : ContextAnchor → List (String × Option String)
  | workspace workspaceId => [("anchor",some "workspace"),("workspace_id",some workspaceId)]
  | repository canonicalRemote workspaceId =>
    [("anchor",some "repository"),("canonical_remote",some canonicalRemote),
      ("workspace_id",workspaceId)]
  | path text => [("anchor",some "path"),("path",some text)]
  | project key => [("anchor",some "project"),("key",some key)]
  | task key => [("anchor",some "task"),("key",some key)]
  | session sessionId => [("anchor",some "session"),("session_id",some sessionId.text)]
  | resource service text =>
    [("anchor",some "resource"),("service",some service.text),("resource",some text)]

/-- `serde_json::to_string` of an anchor. -/
def json (self : ContextAnchor) : List Char := objectOf (nullable quote) self.entries

theorem entries_injective : Function.Injective entries := by
  intro a b h
  cases a <;> cases b <;> simp_all [entries,Identifier.text_injective.eq_iff]

theorem json_injective : Function.Injective json := by
  have hquote : ∀ (text : String) rest rest', quote text ++ rest ≠ 'n' :: rest' := by simp [quote]
  have hvalue := selfDelimiting_nullable selfDelimiting_quote hquote
  exact (selfDelimiting_objectOf hvalue).injective.comp entries_injective

theorem printable_json (self : ContextAnchor) : Printable self.json :=
  printable_objectOf (printable_nullable printable_quote)

end ContextAnchor

/-- A memory and a context that it was seen in. -/
abbrev ContextPair := String × ContextAnchor

structure MemoryContextAssociation where
  memoryId : String
  anchor : ContextAnchor
  sourceRefs : List MemorySourceReference
  observedAt : U64
deriving DecidableEq

def MemoryContextAssociation.pair (self : MemoryContextAssociation) : ContextPair :=
  (self.memoryId,self.anchor)

structure MemoryAssociationObservation where
  eventId : String
  association : MemoryContextAssociation
deriving DecidableEq

structure MemoryAssociationConfirmation where
  receiptId : String
  memoryId : String
  anchor : ContextAnchor
  confirmedAt : U64
deriving DecidableEq

def MemoryAssociationConfirmation.pair (self : MemoryAssociationConfirmation) : ContextPair :=
  (self.memoryId,self.anchor)

structure MemoryAssociationState where
  association : MemoryContextAssociation
  observationCount : U32
  confirmedRecoveries : U32
  lastObservedAt : U64
  lastConfirmedAt : Option U64
deriving DecidableEq

namespace MemoryAssociationState
variable (self : MemoryAssociationState)

def applyObservation (event : MemoryAssociationObservation) : MemoryAssociationState :=
  { self with
    association := event.association
    observationCount := saturatingAdd self.observationCount 1
    lastObservedAt := max self.lastObservedAt event.association.observedAt }

def applyConfirmation (confirmation : MemoryAssociationConfirmation) : MemoryAssociationState :=
  { self with
    confirmedRecoveries := saturatingAdd self.confirmedRecoveries 1
    lastConfirmedAt := some <| match self.lastConfirmedAt with
      | none => confirmation.confirmedAt
      | some current => max current confirmation.confirmedAt }

end MemoryAssociationState

/-- The state before the first observation. -/
def MemoryContextAssociation.unobserved (self : MemoryContextAssociation) :
    MemoryAssociationState where
  association := self
  observationCount := 0
  confirmedRecoveries := 0
  lastObservedAt := 0
  lastConfirmedAt := none

/-- An anchor always has a text, so `InvalidAnchorIdentity` is no error of the model. -/
inductive AssociationStoreError
  | unknownAssociation
  | confirmationAssociationMismatch
deriving DecidableEq

structure AssociationStore where
  associations : BTreeMap String MemoryAssociationState
  processedObservationEvents : BTreeSet String
  processedConfirmationReceipts : BTreeSet String
deriving DecidableEq

def associationKey (memoryId : String) (anchor : ContextAnchor) : String :=
  memoryId ++ .ofList ('\x00' :: anchor.json)

namespace AssociationStore
variable (self : AssociationStore)

/-- `default` -/
def empty : AssociationStore := ⟨.empty,.empty,.empty⟩

def get (memoryId : String) (anchor : ContextAnchor) : Option MemoryAssociationState :=
  self.associations.get? (associationKey memoryId anchor)

/-- The answer to a command, with whether its id was known before. -/
abbrev Answer := Except AssociationStoreError (MemoryAssociationState × Bool)

/-- An event or a receipt that was processed: the state is left as it is. -/
def repeated (key : String) : Answer :=
  match self.associations.get? key with
  | none => .error .unknownAssociation
  | some state => .ok (state,true)

def observe (observation : MemoryAssociationObservation) : Answer × AssociationStore :=
  let key := associationKey observation.association.memoryId observation.association.anchor
  if observation.eventId ∈ self.processedObservationEvents.keys then (self.repeated key,self)
  else
    let current := (self.associations.get? key).getD observation.association.unobserved
    let next := current.applyObservation observation
    (.ok (next,false),{ self with
      associations := self.associations.insert key next
      processedObservationEvents :=
        self.processedObservationEvents.insert observation.eventId () })

def confirm (confirmation : MemoryAssociationConfirmation) : Answer × AssociationStore :=
  let key := associationKey confirmation.memoryId confirmation.anchor
  if confirmation.receiptId ∈ self.processedConfirmationReceipts.keys then (self.repeated key,self)
  else
    match self.associations.get? key with
    | none => (.error .unknownAssociation,self)
    | some current =>
      if current.association.pair = confirmation.pair then
        let next := current.applyConfirmation confirmation
        (.ok (next,false),{ self with
          associations := self.associations.insert key next
          processedConfirmationReceipts :=
            self.processedConfirmationReceipts.insert confirmation.receiptId () })
      else (.error .confirmationAssociationMismatch,self)

end AssociationStore

/-- The commands that change associations. -/
inductive AssociationCommand
  | observe (observation : MemoryAssociationObservation)
  | confirmUse (confirmation : MemoryAssociationConfirmation)
deriving DecidableEq

def AssociationStore.handle (self : AssociationStore) :
    AssociationCommand → AssociationStore.Answer × AssociationStore
  | .observe observation => self.observe observation
  | .confirmUse confirmation => self.confirm confirmation

/-! ## Snapshots -/

/-- How a store is written as JSON and read from it. -/
structure SnapshotCodec where
  encode : AssociationStore → Except String (List UInt8)
  decode : List UInt8 → Except String AssociationStore

/-- What was written can be read. -/
def SnapshotCodec.RoundTrips (codec : SnapshotCodec) : Prop :=
  ∀ s bytes, codec.encode s = .ok bytes → codec.decode bytes = .ok s

inductive MemoryContextServiceError
  | invalidSnapshot (message : String)
  | snapshotTooLarge (bytes allowed : ℕ)
deriving DecidableEq

def maxMemoryContextStateBytes : ℕ := 4 * 1024 * 1024

section Snapshots
variable (codec : SnapshotCodec)

def AssociationStore.restore :
    Option (List UInt8) → Except MemoryContextServiceError AssociationStore
  | none => .ok .empty
  | some bytes =>
    if maxMemoryContextStateBytes < bytes.length then
      .error (.snapshotTooLarge bytes.length maxMemoryContextStateBytes)
    else (codec.decode bytes).mapError .invalidSnapshot

def AssociationStore.snapshot (self : AssociationStore) :
    Except MemoryContextServiceError (List UInt8) :=
  match codec.encode self with
  | .error error => .error (.invalidSnapshot error)
  | .ok bytes =>
    if maxMemoryContextStateBytes < bytes.length then
      .error (.snapshotTooLarge bytes.length maxMemoryContextStateBytes)
    else .ok bytes

/-- The store of a service that is started again from a snapshot; without one it goes on. -/
def AssociationStore.restart (self : AssociationStore) : AssociationStore :=
  match self.snapshot codec with
  | .error _ => self
  | .ok bytes => match AssociationStore.restore codec (some bytes) with
    | .error _ => self
    | .ok restored => restored

variable {codec}

theorem AssociationStore.restore_of_snapshot (hcodec : codec.RoundTrips) {s : AssociationStore}
    {bytes : List UInt8} (h : s.snapshot codec = .ok bytes) :
    AssociationStore.restore codec (some bytes) = .ok s := by
  unfold snapshot at h
  cases hencode : codec.encode s with
  | error error => simp [hencode] at h
  | ok text =>
    rw [hencode] at h
    dsimp only at h
    split_ifs at h with hlarge
    cases h
    rw [restore,if_neg hlarge,hcodec s bytes hencode]
    rfl

theorem AssociationStore.restart_eq (hcodec : codec.RoundTrips) (s : AssociationStore) :
    s.restart codec = s := by
  unfold restart
  cases h : s.snapshot codec with
  | error => rfl
  | ok bytes => simp [restore_of_snapshot hcodec h]

end Snapshots

/-- The key tells the memory and the anchor. -/
theorem associationKey_inj {memoryId memoryId' : String} {anchor anchor' : ContextAnchor}
    (h : associationKey memoryId anchor = associationKey memoryId' anchor') :
    memoryId = memoryId' ∧ anchor = anchor' := by
  have hnul : ∀ anchor : ContextAnchor, '\x00' ∉ anchor.json := fun anchor hmem =>
    absurd (anchor.printable_json _ hmem) (by decide)
  have htext : memoryId.toList ++ '\x00' :: anchor.json =
      memoryId'.toList ++ '\x00' :: anchor'.json := by
    simpa [associationKey] using congrArg String.toList h
  obtain ⟨hid,hanchor⟩ := append_cons_inj (hnul anchor) (hnul anchor') htext
  exact ⟨String.toList_injective hid,ContextAnchor.json_injective hanchor⟩

/-! ## What is counted

Of the observations, the first one of every event id counts. Of the confirmations of pairs
that were observed, the first one of every receipt id does.
-/

structure AssociationTally where
  observationCount : U32
  confirmedRecoveries : U32
  lastObservedAt : U64
  lastConfirmedAt : Option U64
deriving DecidableEq

/-- The counts and times of a state. -/
def MemoryAssociationState.tally (self : MemoryAssociationState) : AssociationTally where
  observationCount := self.observationCount
  confirmedRecoveries := self.confirmedRecoveries
  lastObservedAt := self.lastObservedAt
  lastConfirmedAt := self.lastConfirmedAt

/-- The pair that a command is for, and its time. -/
abbrev AssociationEntry := ContextPair × U64

def MemoryAssociationObservation.entry (self : MemoryAssociationObservation) : AssociationEntry :=
  (self.association.pair,self.association.observedAt)

def MemoryAssociationConfirmation.entry (self : MemoryAssociationConfirmation) :
    AssociationEntry := (self.pair,self.confirmedAt)

/-- The times at which a pair was observed or confirmed. -/
def timesOf (pair : ContextPair) (entries : List AssociationEntry) : List U64 :=
  (entries.filter (·.1 = pair)).map (·.2)

/-- A number of members, or the largest one of the width. -/
def saturated {α : Type} (l : List α) : U32 := ⟨min l.length (2 ^ 32 - 1),by omega⟩

structure Ledger where
  observed : List MemoryAssociationObservation
  confirmed : List MemoryAssociationConfirmation

namespace Ledger
variable (self : Ledger)

def empty : Ledger := ⟨[],[]⟩

def pairs : List ContextPair := self.observed.map (·.association.pair)

def add : AssociationCommand → Ledger
  | .observe observation => { self with
      observed := keepNew (·.eventId) self.observed observation }
  | .confirmUse confirmation =>
    if confirmation.pair ∈ self.pairs then { self with
      confirmed := keepNew (·.receiptId) self.confirmed confirmation }
    else self

def observedTimes (pair : ContextPair) : List U64 := timesOf pair (self.observed.map (·.entry))

def confirmedTimes (pair : ContextPair) : List U64 := timesOf pair (self.confirmed.map (·.entry))

/-- The values of a pair that was observed. -/
def tally (pair : ContextPair) : Option AssociationTally :=
  (self.observedTimes pair).max?.map fun lastObservedAt => {
    observationCount := saturated (self.observedTimes pair)
    confirmedRecoveries := saturated (self.confirmedTimes pair)
    lastObservedAt := lastObservedAt
    lastConfirmedAt := (self.confirmedTimes pair).max? }

end Ledger

/-- The ledger of a history of commands. -/
def ledger (commands : List AssociationCommand) : Ledger := runAll Ledger.add .empty commands

section Times
variable {pair : ContextPair} {entries : List AssociationEntry} {entry : AssociationEntry}

theorem timesOf_concat_self (h : entry.1 = pair) :
    timesOf pair (entries ++ [entry]) = timesOf pair entries ++ [entry.2] := by
  simp [timesOf,h]

theorem timesOf_concat_of_ne (h : entry.1 ≠ pair) :
    timesOf pair (entries ++ [entry]) = timesOf pair entries := by
  simp [timesOf,h]

theorem timesOf_eq_nil : timesOf pair entries = [] ↔ pair ∉ entries.map (·.1) := by
  rw [timesOf,map_eq_nil_iff,filter_eq_nil_iff,mem_map]
  simp only [decide_eq_true_eq,not_exists,not_and]

theorem timesOf_perm {entries' : List AssociationEntry} (h : entries.Perm entries') :
    (timesOf pair entries).Perm (timesOf pair entries') := (h.filter _).map _

theorem saturatingAdd_saturated {α : Type} (l : List α) (a : α) :
    saturatingAdd (saturated l) 1 = saturated (l ++ [a]) := by
  apply Fin.ext
  simp only [val_saturatingAdd,saturated,length_append,length_singleton]
  change min (min l.length (2 ^ 32 - 1) + 1) (2 ^ 32 - 1) = _
  omega

end Times

namespace Ledger
variable {self : Ledger} {pair : ContextPair}

theorem observedTimes_eq_nil : self.observedTimes pair = [] ↔ pair ∉ self.pairs := by
  rw [observedTimes,timesOf_eq_nil,map_map]
  rfl

theorem confirmedTimes_eq_nil :
    self.confirmedTimes pair = [] ↔ pair ∉ self.confirmed.map (·.pair) := by
  rw [confirmedTimes,timesOf_eq_nil,map_map]
  rfl

theorem tally_eq_none : self.tally pair = none ↔ pair ∉ self.pairs := by
  rw [tally,Option.map_eq_none_iff,max?_eq_none_iff,observedTimes_eq_nil]

/-- One observation more, of a pair that is confirmed only where it was observed before. -/
theorem tally_observed {observation : MemoryAssociationObservation}
    {current : Option MemoryAssociationState} (hpair : observation.association.pair = pair)
    (hcurrent : current.map (·.tally) = self.tally pair)
    (hgrounded : pair ∉ self.pairs → self.confirmedTimes pair = []) :
    some ((current.getD observation.association.unobserved).applyObservation observation).tally =
      { self with observed := self.observed ++ [observation] : Ledger }.tally pair := by
  have htimes : { self with observed := self.observed ++ [observation] : Ledger }.observedTimes
      pair = self.observedTimes pair ++ [observation.association.observedAt] := by
    rw [observedTimes,map_append]
    exact timesOf_concat_self hpair
  have hafter : { self with observed := self.observed ++ [observation] : Ledger }.confirmedTimes
      pair = self.confirmedTimes pair := rfl
  rw [tally,htimes,hafter,max?_concat,← saturatingAdd_saturated]
  cases hlast : (self.observedTimes pair).max? with
  | none =>
    have hnone : current = none := by
      rw [tally,hlast] at hcurrent
      simpa using hcurrent
    have hnil := max?_eq_none_iff.mp hlast
    rw [hnone,hnil,hgrounded (observedTimes_eq_nil.mp hnil)]
    simp [MemoryContextAssociation.unobserved,MemoryAssociationState.applyObservation,
      MemoryAssociationState.tally,saturated]
  | some last =>
    rw [tally,hlast] at hcurrent
    obtain ⟨state,rfl,hstate⟩ := Option.map_eq_some_iff.mp hcurrent
    simp only [MemoryAssociationState.tally,AssociationTally.mk.injEq] at hstate
    obtain ⟨hcount,hconfirmed,rfl,hlastConfirmed⟩ := hstate
    simp [MemoryAssociationState.applyObservation,MemoryAssociationState.tally,hcount,hconfirmed,
      hlastConfirmed]

/-- One confirmation more, of a pair that was observed. -/
theorem tally_confirmed {confirmation : MemoryAssociationConfirmation}
    {state : MemoryAssociationState} (hpair : confirmation.pair = pair)
    (hstate : some state.tally = self.tally pair) :
    some (state.applyConfirmation confirmation).tally =
      { self with confirmed := self.confirmed ++ [confirmation] : Ledger }.tally pair := by
  have htimes : { self with confirmed := self.confirmed ++ [confirmation] : Ledger }.confirmedTimes
      pair = self.confirmedTimes pair ++ [confirmation.confirmedAt] := by
    rw [confirmedTimes,map_append]
    exact timesOf_concat_self hpair
  have hafter : { self with confirmed := self.confirmed ++ [confirmation] : Ledger }.observedTimes
      pair = self.observedTimes pair := rfl
  rw [tally,htimes,hafter,max?_concat,← saturatingAdd_saturated]
  obtain ⟨last,hlast,htally⟩ := Option.map_eq_some_iff.mp hstate.symm
  rw [hlast]
  simp only [MemoryAssociationState.tally,AssociationTally.mk.injEq] at htally
  obtain ⟨hcount,hconfirmed,rfl,hlastConfirmed⟩ := htally
  simp only [MemoryAssociationState.tally,MemoryAssociationState.applyConfirmation,hcount,
    hconfirmed,hlastConfirmed]
  cases state.lastConfirmedAt <;> rfl

end Ledger

/-- The store is what the ledger says. -/
structure Reflects (ledger : Ledger) (s : AssociationStore) : Prop where
  events : ∀ id, id ∈ s.processedObservationEvents.keys ↔ id ∈ ledger.observed.map (·.eventId)
  receipts : ∀ id,
    id ∈ s.processedConfirmationReceipts.keys ↔ id ∈ ledger.confirmed.map (·.receiptId)
  tallies : ∀ memoryId anchor,
    (s.get memoryId anchor).map (·.tally) = ledger.tally (memoryId,anchor)
  apart : ∀ key state, s.associations.get? key = some state →
    key = associationKey state.association.memoryId state.association.anchor
  grounded : ∀ confirmation ∈ ledger.confirmed, confirmation.pair ∈ ledger.pairs

open AssociationStore (empty)
open Ledger (tally)
theorem reflects_empty : Reflects .empty .empty where
  events id := by simp [Ledger.empty,empty,BTreeMap.empty]
  receipts id := by simp [Ledger.empty,empty,BTreeMap.empty]
  tallies memoryId anchor := by
    simp [AssociationStore.get,empty,tally,Ledger.observedTimes,
      Ledger.empty,timesOf]
  apart key state h := by simp [empty] at h
  grounded := nofun

namespace Reflects
variable {ledger : Ledger} {s : AssociationStore}

section
variable (h : Reflects ledger s)
include h

theorem get_eq_none {memoryId : String} {anchor : ContextAnchor} :
    s.get memoryId anchor = none ↔ (memoryId,anchor) ∉ ledger.pairs := by
  rw [← Ledger.tally_eq_none,← h.tallies,Option.map_eq_none_iff]

theorem pair_of_get {memoryId : String} {anchor : ContextAnchor}
    {state : MemoryAssociationState} (hstate : s.get memoryId anchor = some state) :
    state.association.pair = (memoryId,anchor) := by
  obtain ⟨hid,hanchor⟩ := associationKey_inj (h.apart _ state hstate)
  exact Prod.ext hid.symm hanchor.symm

/-- Another entry of the map, with the counts of the next ledger. -/
theorem insert {next : Ledger} (pair : ContextPair)
    {state : MemoryAssociationState} {events receipts : BTreeSet String}
    (hpair : state.association.pair = pair)
    (htally : some state.tally = next.tally pair)
    (hothers : ∀ other ≠ pair, next.tally other = ledger.tally other)
    (hevents : ∀ id, id ∈ events.keys ↔ id ∈ next.observed.map (·.eventId))
    (hreceipts : ∀ id, id ∈ receipts.keys ↔ id ∈ next.confirmed.map (·.receiptId))
    (hgrounded : ∀ confirmation ∈ next.confirmed, confirmation.pair ∈ next.pairs) :
    Reflects next ⟨s.associations.insert (associationKey pair.1 pair.2) state,events,receipts⟩ where
  events := hevents
  receipts := hreceipts
  grounded := hgrounded
  tallies memoryId anchor := by
    unfold AssociationStore.get
    by_cases hsame : (memoryId,anchor) = pair
    · subst hsame
      rw [BTreeMap.get?_insert_self]
      exact htally
    · have hkey : associationKey memoryId anchor ≠ associationKey pair.1 pair.2 := fun hkey =>
        hsame (Prod.ext (associationKey_inj hkey).1 (associationKey_inj hkey).2)
      rw [BTreeMap.get?_insert_of_ne _ _ hkey,hothers _ hsame]
      exact h.tallies memoryId anchor
  apart key other hother := by
    rw [BTreeMap.get?_insert] at hother
    split_ifs at hother with hkey
    · cases hother
      rw [hkey,← hpair]
      rfl
    · exact h.apart key other hother

theorem observe (observation : MemoryAssociationObservation) :
    Reflects (ledger.add (.observe observation)) (s.observe observation).2 := by
  unfold AssociationStore.observe Ledger.add keepNew
  by_cases hid : observation.eventId ∈ s.processedObservationEvents.keys
  · simpa only [if_pos hid,if_pos ((h.events _).mp hid)] using h
  simp only [if_neg hid,if_neg fun hmem => hid ((h.events _).mpr hmem)]
  refine h.insert observation.association.pair rfl ?_ ?_ ?_ h.receipts ?_
  · refine Ledger.tally_observed rfl (h.tallies _ _) fun hpairs => ?_
    refine Ledger.confirmedTimes_eq_nil.mpr fun hmem => ?_
    obtain ⟨confirmation,hconfirmation,hsame⟩ := mem_map.mp hmem
    exact hpairs (hsame ▸ h.grounded confirmation hconfirmation)
  · intro other hother
    have htimes : timesOf other (ledger.observed.map (·.entry) ++ [observation.entry]) =
        timesOf other (ledger.observed.map (·.entry)) := timesOf_concat_of_ne hother.symm
    simp only [tally,Ledger.observedTimes,map_append,map_singleton,htimes]
    rfl
  · simp [h.events,or_comm]
  · intro confirmation hconfirmation
    rw [Ledger.pairs,map_append]
    exact mem_append_left _ (h.grounded confirmation hconfirmation)

theorem confirm (confirmation : MemoryAssociationConfirmation) :
    Reflects (ledger.add (.confirmUse confirmation)) (s.confirm confirmation).2 := by
  unfold AssociationStore.confirm Ledger.add keepNew
  by_cases hid : confirmation.receiptId ∈ s.processedConfirmationReceipts.keys
  · simp only [if_pos hid,if_pos ((h.receipts _).mp hid)]
    split_ifs <;> exact h
  simp only [if_neg hid,if_neg fun hmem => hid ((h.receipts _).mpr hmem)]
  cases hstate : s.associations.get? (associationKey confirmation.memoryId confirmation.anchor) with
  | none =>
    have hpairs : confirmation.pair ∉ ledger.pairs := h.get_eq_none.mp hstate
    simpa only [if_neg hpairs] using h
  | some state =>
    have hpair : state.association.pair = confirmation.pair := h.pair_of_get hstate
    have hpairs : confirmation.pair ∈ ledger.pairs := by
      by_contra hnot
      exact nomatch hstate.symm.trans (h.get_eq_none.mpr hnot)
    have htally : some state.tally = ledger.tally confirmation.pair :=
      (congrArg (Option.map MemoryAssociationState.tally) hstate).symm.trans (h.tallies _ _)
    simp only [if_pos hpair,if_pos hpairs]
    refine h.insert confirmation.pair hpair (Ledger.tally_confirmed rfl htally) ?_
      h.events ?_ ?_
    · intro other hother
      have htimes : timesOf other (ledger.confirmed.map (·.entry) ++ [confirmation.entry]) =
          timesOf other (ledger.confirmed.map (·.entry)) := timesOf_concat_of_ne hother.symm
      simp only [tally,Ledger.confirmedTimes,map_append,map_singleton,htimes]
      rfl
    · simp [h.receipts,or_comm]
    · intro other hother
      rcases mem_append.mp hother with hbefore | hlast
      · exact h.grounded other hbefore
      · cases mem_singleton.mp hlast
        exact hpairs

theorem handle (command : AssociationCommand) :
    Reflects (ledger.add command) (s.handle command).2 := by
  cases command with
  | observe observation => exact h.observe observation
  | confirmUse confirmation => exact h.confirm confirmation

end

end Reflects

/-! ## Runs -/

/-- The service takes a command, or it is started again. -/
inductive ServiceTurn
  | command (command : AssociationCommand)
  | restart

section Runs
variable (codec : SnapshotCodec)

def AssociationStore.turn (self : AssociationStore) : ServiceTurn → AssociationStore
  | .command command => (self.handle command).2
  | .restart => self.restart codec

/-- The store after some turns. -/
def afterTurns (turns : List ServiceTurn) : AssociationStore :=
  runAll (AssociationStore.turn codec) .empty turns

/-- The commands among some turns. -/
def commandsOf (turns : List ServiceTurn) : List AssociationCommand :=
  turns.filterMap fun
    | .command command => some command
    | .restart => none

variable {codec}

theorem ledger_concat (commands : List AssociationCommand) (command : AssociationCommand) :
    ledger (commands ++ [command]) = (ledger commands).add command := by
  rw [ledger,runAll_append]
  rfl

theorem reflects_afterTurns (hcodec : codec.RoundTrips) (turns : List ServiceTurn) :
    Reflects (ledger (commandsOf turns)) (afterTurns codec turns) := by
  induction turns using List.reverseRecOn with
  | nil => exact reflects_empty
  | append_singleton turns turn ih =>
    rw [afterTurns,runAll_append,commandsOf,filterMap_append]
    cases turn with
    | command command =>
      change Reflects (ledger (_ ++ [command])) _
      rw [ledger_concat]
      exact ih.handle command
    | restart =>
      change Reflects (ledger (_ ++ [])) ((afterTurns codec turns).restart codec)
      rw [append_nil,AssociationStore.restart_eq hcodec]
      exact ih

end Runs

/-! ## The law -/

section Law
variable (commands : List AssociationCommand)

def observations : List MemoryAssociationObservation :=
  commands.filterMap fun
    | .observe observation => some observation
    | .confirmUse _ => none

def confirmations : List MemoryAssociationConfirmation :=
  commands.filterMap fun
    | .observe _ => none
    | .confirmUse confirmation => some confirmation

/-- Observations of one event are for one pair and time, and so are confirmations with one
receipt. -/
structure Coherent : Prop where
  events : ∀ a ∈ observations commands, ∀ b ∈ observations commands,
    a.eventId = b.eventId → a.entry = b.entry
  receipts : ∀ a ∈ confirmations commands, ∀ b ∈ confirmations commands,
    a.receiptId = b.receiptId → a.entry = b.entry

/-- Every confirmation comes after an observation of its pair. -/
def ConfirmedLater : Prop :=
  ∀ before confirmation after, commands = before ++ .confirmUse confirmation :: after →
    ∃ observation ∈ observations before, observation.association.pair = confirmation.pair

/-- The first observation of every event counts, and so does the first confirmation with every
receipt, where each comes after an observation of its pair. A command with an id that has counted
changes nothing. The values are numbers and latest times of what counts for a pair, and every
entry belongs to one pair. -/
structure Counts (s : AssociationStore) : Prop where
  observed : (ledger commands).observed = firsts (·.eventId) (observations commands)
  confirmed : Coherent commands → ConfirmedLater commands →
    (ledger commands).confirmed = firsts (·.receiptId) (confirmations commands)
  confirmedOnce : ((ledger commands).confirmed.map (·.receiptId)).Nodup
  repeatedEvent : ∀ observation : MemoryAssociationObservation,
    observation.eventId ∈ (observations commands).map (·.eventId) →
      (s.observe observation).2 = s
  repeatedReceipt : ∀ confirmation : MemoryAssociationConfirmation,
    confirmation.receiptId ∈ (ledger commands).confirmed.map (·.receiptId) →
      (s.confirm confirmation).2 = s
  values : ∀ memoryId anchor,
    (s.get memoryId anchor).map (·.tally) = (ledger commands).tally (memoryId,anchor)
  apart : ∀ key state, s.associations.get? key = some state →
    key = associationKey state.association.memoryId state.association.anchor

variable {commands}

variable {observation : MemoryAssociationObservation}

theorem mem_observations :
    observation ∈ observations commands ↔ .observe observation ∈ commands := by
  rw [observations,mem_filterMap]
  constructor
  · rintro ⟨command | command,hmem,⟨⟩⟩
    exact hmem
  · exact fun h => ⟨_,h,rfl⟩

theorem mem_confirmations {confirmation : MemoryAssociationConfirmation} :
    confirmation ∈ confirmations commands ↔ .confirmUse confirmation ∈ commands := by
  rw [confirmations,mem_filterMap]
  constructor
  · rintro ⟨command | command,hmem,⟨⟩⟩
    exact hmem
  · exact fun h => ⟨_,h,rfl⟩

theorem ledger_observed : (ledger commands).observed = firsts (·.eventId) (observations commands) := by
  induction commands using List.reverseRecOn with
  | nil => rfl
  | append_singleton commands command ih =>
    rw [ledger_concat,observations,filterMap_append]
    cases command with
    | observe observation =>
      change keepNew _ (ledger commands).observed observation = firsts _ (observations commands ++ [_])
      rw [firsts_concat,ih]
    | confirmUse confirmation =>
      change (if _ then _ else _ : Ledger).observed = firsts _ (observations commands ++ [])
      rw [append_nil,← ih]
      split_ifs <;> rfl

/-- Among coherent commands, a pair that is observed has an observation that counts. -/
theorem mem_pairs_ledger (h : Coherent commands)
    (hobservation : observation ∈ observations commands) :
    observation.association.pair ∈ (ledger commands).pairs := by
  rw [Ledger.pairs,ledger_observed]
  have hid : observation.eventId ∈ (firsts (·.eventId) (observations commands)).map (·.eventId) :=
    (mem_map_firsts _).mpr (mem_map_of_mem hobservation)
  obtain ⟨first,hfirst,hsame⟩ := mem_map.mp hid
  refine mem_map.mpr ⟨first,hfirst,?_⟩
  have hmember := (firsts_sublist _ _).subset hfirst
  exact congrArg Prod.fst (h.events first hmember observation hobservation hsame)

theorem Coherent.subset {fewer : List AssociationCommand} (h : Coherent commands)
    (hsubset : fewer ⊆ commands) : Coherent fewer where
  events a ha b hb := h.events a (mem_observations.mpr (hsubset (mem_observations.mp ha))) b
    (mem_observations.mpr (hsubset (mem_observations.mp hb)))
  receipts a ha b hb := h.receipts a (mem_confirmations.mpr (hsubset (mem_confirmations.mp ha))) b
    (mem_confirmations.mpr (hsubset (mem_confirmations.mp hb)))

variable {later : List AssociationCommand}

theorem Coherent.of_append (h : Coherent (commands ++ later)) :
    Coherent commands := h.subset (subset_append_left _ _)

theorem ConfirmedLater.of_append (h : ConfirmedLater (commands ++ later)) :
    ConfirmedLater commands := by
  rintro before confirmation after rfl
  exact h before confirmation (after ++ later) (by simp)

theorem ledger_confirmed (hcoherent : Coherent commands) (hlater : ConfirmedLater commands) :
    (ledger commands).confirmed = firsts (·.receiptId) (confirmations commands) := by
  induction commands using List.reverseRecOn with
  | nil => rfl
  | append_singleton commands command ih =>
    have hbefore := ih hcoherent.of_append hlater.of_append
    rw [ledger_concat,confirmations,filterMap_append]
    cases command with
    | observe observation =>
      change (ledger commands).confirmed = firsts _ (confirmations commands ++ [])
      rw [append_nil,hbefore]
    | confirmUse confirmation =>
      obtain ⟨observation,hobservation,hpair⟩ := hlater commands confirmation [] rfl
      have hpairs : confirmation.pair ∈ (ledger commands).pairs :=
        hpair ▸ mem_pairs_ledger hcoherent.of_append hobservation
      change (if _ then _ else _ : Ledger).confirmed = firsts _ (confirmations commands ++ [_])
      rw [if_pos hpairs,firsts_concat,← hbefore]

theorem nodup_ledger_confirmed : ((ledger commands).confirmed.map (·.receiptId)).Nodup := by
  induction commands using List.reverseRecOn with
  | nil => exact .nil
  | append_singleton commands command ih =>
    rw [ledger_concat]
    cases command with
    | observe observation => exact ih
    | confirmUse confirmation =>
      change ((if _ then _ else _ : Ledger).confirmed.map _).Nodup
      split_ifs
      · exact nodup_map_keepNew _ ih confirmation
      · exact ih

theorem Reflects.counts {s : AssociationStore} (h : Reflects (ledger commands) s) :
    Counts commands s where
  observed := ledger_observed
  confirmed := ledger_confirmed
  confirmedOnce := nodup_ledger_confirmed
  repeatedEvent observation hid := by
    have hprocessed : observation.eventId ∈ s.processedObservationEvents.keys := by
      rw [h.events,ledger_observed,mem_map_firsts]
      exact hid
    simp only [AssociationStore.observe,if_pos hprocessed]
  repeatedReceipt confirmation hid := by
    have hprocessed := (h.receipts _).mpr hid
    simp only [AssociationStore.confirm,if_pos hprocessed]
  values := h.tallies
  apart := h.apart

/-- The values of a pair depend on what counts for it in whatever order. -/
theorem tally_perm {first second : Ledger} {pair : ContextPair}
    (hobserved : (first.observed.map (·.entry)).Perm (second.observed.map (·.entry)))
    (hconfirmed : (first.confirmed.map (·.entry)).Perm (second.confirmed.map (·.entry))) :
    first.tally pair = second.tally pair := by
  have hfirst : (first.observedTimes pair).Perm (second.observedTimes pair) := timesOf_perm hobserved
  have hsecond : (first.confirmedTimes pair).Perm (second.confirmedTimes pair) :=
    timesOf_perm hconfirmed
  have hcount : ∀ {l m : List U64}, l.Perm m → saturated l = saturated m := fun h => by
    simp only [saturated,h.length_eq]
  rw [tally,tally,hcount hfirst,hcount hsecond,max?_congr fun _ => hfirst.mem_iff,
    max?_congr fun _ => hsecond.mem_iff]

end Law

/-- What an association store counts, and that the order of coherent commands, repetitions of them
and restarts in between make no difference. -/
theorem associations_count {codec : SnapshotCodec} (hcodec : codec.RoundTrips) :
    (∀ turns, Counts (commandsOf turns) (afterTurns codec turns)) ∧
    ∀ turns turns', (∀ command, command ∈ commandsOf turns ↔ command ∈ commandsOf turns') →
      Coherent (commandsOf turns) → ConfirmedLater (commandsOf turns) →
      ConfirmedLater (commandsOf turns') → ∀ memoryId anchor,
        ((afterTurns codec turns).get memoryId anchor).map (·.tally) =
          ((afterTurns codec turns').get memoryId anchor).map (·.tally) := by
  refine ⟨fun turns => (reflects_afterTurns hcodec turns).counts,?_⟩
  intro turns turns' hsame hcoherent hlater hlater' memoryId anchor
  have hcoherent' : Coherent (commandsOf turns') :=
    hcoherent.subset fun command hcommand => (hsame command).mpr hcommand
  rw [(reflects_afterTurns hcodec turns).tallies,(reflects_afterTurns hcodec turns').tallies]
  apply tally_perm
  · rw [ledger_observed,ledger_observed]
    refine perm_map_firsts hcoherent.events fun observation => ?_
    rw [mem_observations,mem_observations,hsame]
  · rw [ledger_confirmed hcoherent hlater,ledger_confirmed hcoherent' hlater']
    refine perm_map_firsts hcoherent.receipts fun confirmation => ?_
    rw [mem_confirmations,mem_confirmations,hsame]

section Seen

/-- A memory that is seen in a project. -/
def seen (eventId project : String) : MemoryAssociationObservation where
  eventId := eventId
  association := {
    memoryId := "memory-1"
    anchor := .project project
    sourceRefs := []
    observedAt := 10 }

def seenOnce : AssociationStore := (AssociationStore.empty.observe (seen "event-1" "phenix")).2

/-- The JSON of the store after the first observation. -/
def seenOnceText : String :=
  "\x7b\"associations\":\x7b\"memory-1\\u0000\x7b\\\"anchor\\\":\\\"project\\\"," ++
  "\\\"key\\\":\\\"phenix\\\"\x7d\":\x7b\"association\":\x7b\"memory_id\":\"memory-1\"," ++
  "\"anchor\":\x7b\"anchor\":\"project\",\"key\":\"phenix\"\x7d,\"source_refs\":[]," ++
  "\"observed_at\":10\x7d,\"observation_count\":1,\"confirmed_recoveries\":0," ++
  "\"last_observed_at\":10,\"last_confirmed_at\":null\x7d\x7d," ++
  "\"processed_observation_events\":[\"event-1\"],\"processed_confirmation_receipts\":[]\x7d"

/-- JSON of this one store. -/
def seenOnceCodec : SnapshotCodec where
  encode s := if s = seenOnce then .ok seenOnceText.toUTF8.toList else .error "another store"
  decode bytes :=
    if bytes = seenOnceText.toUTF8.toList then .ok seenOnce else .error "another text"

theorem seenOnceCodec_roundTrips : seenOnceCodec.RoundTrips := by
  intro s bytes h
  simp only [seenOnceCodec] at h ⊢
  split_ifs at h with hs
  cases h
  rw [if_pos rfl,hs]

/-- The memory is seen again after the service is started again, in the same event. -/
def seenAgain : List ServiceTurn :=
  [.command (.observe (seen "event-1" "phenix")),.restart,
    .command (.observe (seen "event-1" "phenix"))]

theorem seen_again_counts : Counts (commandsOf seenAgain) (afterTurns seenOnceCodec seenAgain) ∧
    ((afterTurns seenOnceCodec seenAgain).get "memory-1" (.project "phenix")).map (·.tally) =
      some ⟨1,0,10,none⟩ :=
  ⟨(associations_count seenOnceCodec_roundTrips).1 seenAgain,by decide +kernel⟩

/-- One event id with two projects: the project that comes first is counted. -/
def twoProjects (first second : String) : List ServiceTurn :=
  [.command (.observe (seen "event-1" first)),.command (.observe (seen "event-1" second))]

theorem first_project_counts :
    (∀ command, command ∈ commandsOf (twoProjects "phenix" "other") ↔
      command ∈ commandsOf (twoProjects "other" "phenix")) ∧
    confirmations (commandsOf (twoProjects "phenix" "other")) = [] ∧
    ((afterTurns seenOnceCodec (twoProjects "phenix" "other")).get "memory-1"
      (.project "phenix")).map (·.tally) = some ⟨1,0,10,none⟩ ∧
    ((afterTurns seenOnceCodec (twoProjects "other" "phenix")).get "memory-1"
      (.project "phenix")).map (·.tally) = none := by
  refine ⟨fun command => ?_,rfl,by decide +kernel,by decide +kernel⟩
  simp [twoProjects,commandsOf,or_comm]

end Seen

end PhenixConductor.Memory

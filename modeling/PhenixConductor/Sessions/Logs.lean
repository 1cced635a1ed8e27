import PhenixConductor.Sessions.Service
import Mathlib.Data.List.Destutter

/-! # The logs of a session

What the store holds at any moment of an interleaving: the list of ids is exact, and inputs,
history and journals are numbered from one.
-/
namespace PhenixConductor.Sessions
open Collections Contract List
open String (ext_iff)
open Execution (U64)
open Application (SessionRecord SessionJournalEntry nextSequence)
variable {C : Type}

/-! ## Journal keys -/

/-- One session id goes on where the other one ends, with what the other stream begins with. -/
def Overlaps (id : SessionId) (stream : ContractId) (id' : SessionId) (stream' : ContractId) :
    Prop :=
  ∃ middle : String, id'.text = id.text ++ "/" ++ middle ∧
    stream.text = middle ++ "/" ++ stream'.text

theorem overlaps_of_longer {id id' : SessionId} {stream stream' : ContractId} {rest : List Char}
    (hne : rest ≠ []) (hid : id'.text.toList = id.text.toList ++ rest)
    (hstream : '/' :: stream.text.toList = rest ++ '/' :: stream'.text.toList) :
    Overlaps id stream id' stream' := by
  cases rest with
  | nil => exact absurd rfl hne
  | cons c middle =>
    rw [cons_append] at hstream
    obtain ⟨rfl,hrest⟩ := List.cons.inj hstream
    refine ⟨String.ofList middle,?_,?_⟩
    · simp [ext_iff,hid]
    · simp [ext_iff,hrest]

/-- Two journals have one key exactly where the ids overlap. -/
theorem journalPlace_eq_iff {id id' : SessionId} {stream stream' : ContractId} :
    journalPlace id stream = journalPlace id' stream' ↔
      (id = id' ∧ stream = stream') ∨ Overlaps id stream id' stream' ∨
        Overlaps id' stream' id stream := by
  constructor
  · intro h
    have hlist : id.text.toList ++ '/' :: stream.text.toList =
        id'.text.toList ++ '/' :: stream'.text.toList := by
      simpa [journalPlace,ext_iff] using h
    rcases append_eq_append_iff.mp hlist with ⟨rest,hid,hstream⟩ | ⟨rest,hid,hstream⟩
    · by_cases hrest : rest = []
      · subst hrest
        refine .inl ⟨Identifier.text_injective ?_,InterfaceId.text_injective ?_⟩
        · simpa [ext_iff] using hid.symm
        · simpa [ext_iff] using hstream
      · exact .inr (.inl (overlaps_of_longer hrest hid hstream))
    · by_cases hrest : rest = []
      · subst hrest
        refine .inl ⟨Identifier.text_injective ?_,InterfaceId.text_injective ?_⟩
        · simpa [ext_iff] using hid
        · simpa [ext_iff] using hstream.symm
      · exact .inr (.inr (overlaps_of_longer hrest hid hstream))
  · rintro (⟨rfl,rfl⟩ | ⟨middle,hid,hstream⟩ | ⟨middle,hid,hstream⟩)
    · rfl
    · simp [journalPlace,hid,hstream,String.append_assoc]
    · simp [journalPlace,hid,hstream,String.append_assoc]

/-! ## The store at one moment -/

/-- Numbers from one on. -/
def Sequenced (sequences : List U64) : Prop :=
  sequences.map (·.val) = List.range' 1 sequences.length

theorem sequenced_nil : Sequenced [] := rfl

theorem Sequenced.append {sequences : List U64} (h : Sequenced sequences) {sequence : U64}
    (hnext : sequence.val = sequences.length + 1) : Sequenced (sequences ++ [sequence]) := by
  rw [Sequenced,map_append,h,length_append,length_singleton,
    range'_concat]
  simp [hnext,Nat.add_comm]

/-- The number of the last entry is the number of entries. -/
theorem Sequenced.last {sequences : List U64} (h : Sequenced sequences) {sequence : U64}
    (hlast : sequences.getLast? = some sequence) : sequence.val = sequences.length := by
  have hval : (sequences.map (·.val)).getLast? = some sequence.val := by
    rw [getLast?_map,hlast]
    rfl
  rw [h,getLast?_range'] at hval
  split at hval
  · cases hval
  · have hnum := Option.some.inj hval
    omega

/-- `used` are the sessions and streams that journals are kept for. -/
structure Stored (used : SessionId → ContractId → Prop) (s : SessionCells C) : Prop where
  sorted : (decode (s .all)).Pairwise (· < ·)
  exact : ∀ id, id ∈ decode (s .all) ↔ (s (.session id)).isSome
  named : ∀ id r, s (.session id) = some r → r.id = id
  inputs : ∀ id, Sequenced ((decode (s (.inputs id))).map (·.sequence))
  history : ∀ id, Sequenced ((decode (s (.history id))).map (·.sequence))
  journal : ∀ place, Sequenced ((decode (s (.journal place))).map (·.sequence))
  inputsOwned : ∀ id, (s (.inputs id)).isSome → (s (.session id)).isSome
  historyOwned : ∀ id, (s (.history id)).isSome → (s (.session id)).isSome
  written : ∀ place, ∀ entry ∈ decode (s (.journal place)),
    ∃ id, used id entry.stream ∧ place = journalPlace id entry.stream

theorem stored_empty (used : SessionId → ContractId → Prop) :
    Stored used (fun _ => none : SessionCells C) where
  sorted := .nil
  exact id := by simp [decode]
  named id r h := by simp at h
  inputs id := sequenced_nil
  history id := sequenced_nil
  journal place := sequenced_nil
  inputsOwned id h := by simp at h
  historyOwned id h := by simp at h
  written place entry h := by simp [decode] at h

/-- How a record may change: a closed session stays as it is. -/
structure Evolves (old new : SessionRecord) : Prop where
  id : new.id = old.id
  workingDirectory : new.workingDirectory = old.workingDirectory
  closed : old.lifecycle = .closed → new = old

namespace Evolves

theorem refl (r : SessionRecord) : Evolves r r := ⟨rfl,rfl,fun _ => rfl⟩

theorem trans {a b c : SessionRecord} (hab : Evolves a b) (hbc : Evolves b c) : Evolves a c where
  id := hbc.id.trans hab.id
  workingDirectory := hbc.workingDirectory.trans hab.workingDirectory
  closed ha := by
    obtain rfl := hab.closed ha
    exact hbc.closed ha

end Evolves

/-- From one moment to a later one. -/
structure Later (s t : SessionCells C) : Prop where
  session : ∀ id r, s (.session id) = some r → ∃ r', t (.session id) = some r' ∧ Evolves r r'
  inputs : ∀ id, decode (s (.inputs id)) <+: decode (t (.inputs id))
  history : ∀ id, decode (s (.history id)) <+: decode (t (.history id))
  journal : ∀ place, decode (s (.journal place)) <+: decode (t (.journal place))
  closed : ∀ id r, s (.session id) = some r → r.lifecycle = .closed →
    t (.inputs id) = s (.inputs id) ∧ t (.history id) = s (.history id)

namespace Later

theorem refl (s : SessionCells C) : Later s s where
  session _ r hr := ⟨r,hr,.refl r⟩
  inputs _ := prefix_rfl
  history _ := prefix_rfl
  journal _ := prefix_rfl
  closed _ _ _ _ := ⟨rfl,rfl⟩

theorem trans {s t u : SessionCells C} (hst : Later s t) (htu : Later t u) : Later s u where
  session id r hr := by
    obtain ⟨r',hr',hev⟩ := hst.session id r hr
    obtain ⟨r'',hr'',hev'⟩ := htu.session id r' hr'
    exact ⟨r'',hr'',hev.trans hev'⟩
  inputs id := (hst.inputs id).trans (htu.inputs id)
  history id := (hst.history id).trans (htu.history id)
  journal place := (hst.journal place).trans (htu.journal place)
  closed id r hr hclosed := by
    obtain ⟨r',hr',hev⟩ := hst.session id r hr
    obtain rfl := hev.closed hclosed
    obtain ⟨hinputs,hhistory⟩ := hst.closed id r' hr hclosed
    obtain ⟨hinputs',hhistory'⟩ := htu.closed id r' hr' hclosed
    exact ⟨hinputs'.trans hinputs,hhistory'.trans hhistory⟩

end Later

/-! ## What one commit changes -/

section Changes
variable {used : SessionId → ContractId → Prop} {s : SessionCells C}

def put (s : SessionCells C) (cell : SessionCell) (value : cell.Content C) : SessionCells C :=
  Function.update s cell (some value)

@[simp] theorem put_self (cell : SessionCell) (value : cell.Content C) :
    put s cell value cell = some value :=
  Function.update_self _ _ _

@[simp] theorem put_of_ne {cell other : SessionCell} (h : other ≠ cell) (value : cell.Content C) :
    put s cell value other = s other :=
  Function.update_of_ne h _ _

@[simp] theorem decode_some {α : Type} (l : List α) : decode (some l) = l := rfl

/-- A commit that changes no session that is closed, and keeps what the store holds. -/
structure Advances (used : SessionId → ContractId → Prop) (s t : SessionCells C) : Prop where
  stored : Stored used t
  later : Later s t

theorem Advances.trans {t u : SessionCells C} (hst : Advances used s t)
    (htu : Advances used t u) : Advances used s u :=
  ⟨htu.stored,hst.later.trans htu.later⟩

variable {id : SessionId}

theorem advances_putSession (hs : Stored used s) {old new : SessionRecord}
    (hold : s (.session id) = some old) (hev : Evolves old new) :
    Advances used s (put s (.session id) new) where
  stored := {
    sorted := by simpa using hs.sorted
    exact := by
      intro j
      by_cases hj : j = id
      · subst hj
        simpa [hold] using hs.exact j
      · simpa [hj] using hs.exact j
    named := by
      intro j r hr
      by_cases hj : j = id
      · subst hj
        rw [← Option.some.inj ((put_self _ _).symm.trans hr),hev.id]
        exact hs.named j old hold
      · exact hs.named j r (by simpa [hj] using hr)
    inputs := by simpa using hs.inputs
    history := by simpa using hs.history
    journal := by simpa using hs.journal
    inputsOwned := by
      intro j hstored
      by_cases hj : j = id
      · subst hj
        simp
      · simpa [hj] using hs.inputsOwned j (by simpa using hstored)
    historyOwned := by
      intro j hstored
      by_cases hj : j = id
      · subst hj
        simp
      · simpa [hj] using hs.historyOwned j (by simpa using hstored)
    written := by simpa using hs.written }
  later := {
    session := by
      intro j r hr
      by_cases hj : j = id
      · subst hj
        obtain rfl := Option.some.inj (hold.symm.trans hr)
        exact ⟨new,put_self _ _,hev⟩
      · exact ⟨r,by simpa [hj] using hr,.refl r⟩
    inputs := by simp
    history := by simp
    journal := by simp
    closed := by simp }

theorem addId_sorted {ids : List SessionId} (h : ids.Pairwise (· < ·)) (hnew : id ∉ ids) :
    (addId ids id).Pairwise (· < ·) ∧ ∀ j, j ∈ addId ids id ↔ j ∈ ids ∨ j = id := by
  have hnodup : (ids ++ [id]).Nodup := by
    rw [nodup_append]
    refine ⟨h.imp fun hlt => hlt.ne,by simp,?_⟩
    rintro a ha b hb rfl
    exact hnew (mem_singleton.mp hb ▸ ha)
  have hsorted : ((ids ++ [id]).insertionSort (· ≤ ·)).Pairwise (· < ·) :=
    (sortByKey_strict (by simpa using hnodup) :
      (sortByKey (fun j => j) (ids ++ [id])).Pairwise fun a b => a < b)
  have hsame : addId ids id = (ids ++ [id]).insertionSort (· ≤ ·) := by
    rw [addId,destutter_eq_self_iff]
    exact (hsorted.imp fun hlt => hlt.ne).isChain
  rw [hsame]
  exact ⟨hsorted,fun j => by simp⟩

theorem advances_create (hs : Stored used s) {new : SessionRecord}
    (hnone : s (.session new.id) = none) :
    Advances used s
      (put (put s (.session new.id) new) .all (addId (decode (s .all)) new.id)) := by
  have hnew : new.id ∉ decode (s .all) := by
    rw [hs.exact,hnone]
    simp
  obtain ⟨hsorted,hmem⟩ := addId_sorted hs.sorted hnew
  have hsession (id : SessionId) :
      put (put s (.session new.id) new) .all (addId (decode (s .all)) new.id) (.session id) =
        if id = new.id then some new else s (.session id) := by
    by_cases hid : id = new.id
    · subst hid
      simp
    · simp [hid]
  have hkept (id : SessionId) (h : (s (.session id)).isSome) :
      (if id = new.id then some new else s (.session id)).isSome := by
    split
    · rfl
    · exact h
  refine ⟨⟨?_,?_,?_,?_,?_,?_,?_,?_,?_⟩,⟨?_,?_,?_,?_,?_⟩⟩
  · simpa using hsorted
  · intro id
    rw [hsession,put_self,decode_some,hmem]
    split
    · next hid => simp [hid]
    · next hid => simpa [hid] using hs.exact id
  · intro id r hr
    rw [hsession] at hr
    split at hr
    · next hid => rw [← Option.some.inj hr,hid]
    · exact hs.named id r hr
  · simpa using hs.inputs
  · simpa using hs.history
  · simpa using hs.journal
  · intro id hid
    rw [hsession]
    exact hkept id (hs.inputsOwned id (by simpa using hid))
  · intro id hid
    rw [hsession]
    exact hkept id (hs.historyOwned id (by simpa using hid))
  · simpa using hs.written
  · intro id r hr
    refine ⟨r,?_,.refl r⟩
    rw [hsession,if_neg,hr]
    rintro rfl
    rw [hnone] at hr
    cases hr
  · simp
  · simp
  · simp
  · simp

theorem sequenced_append {α : Type} {sequenceOf : α → U64} {entries : List α} {entry : α}
    (h : Sequenced (entries.map sequenceOf))
    (hnext : (sequenceOf entry).val = entries.length + 1) :
    Sequenced ((entries ++ [entry]).map sequenceOf) := by
  rw [map_append]
  exact h.append (by rw [hnext,length_map])

theorem advances_putInputs (hs : Stored used s) {r : SessionRecord} (hr : s (.session id) = some r)
    (hopen : r.lifecycle = .open) {input : SessionInput}
    (hnext : input.sequence.val = (decode (s (.inputs id))).length + 1) :
    Advances used s (put s (.inputs id) (decode (s (.inputs id)) ++ [input])) where
  stored := {
    sorted := by simpa using hs.sorted
    exact := by simpa using hs.exact
    named := by simpa using hs.named
    inputs := by
      intro j
      by_cases hj : j = id
      · subst hj
        simpa only [put_self,decode_some] using sequenced_append (hs.inputs j) hnext
      · simpa [hj] using hs.inputs j
    history := by simpa using hs.history
    journal := by simpa using hs.journal
    inputsOwned := by
      intro j hj
      by_cases hsame : j = id
      · subst hsame
        simp [hr]
      · simpa using hs.inputsOwned j (by simpa [hsame] using hj)
    historyOwned := by simpa using hs.historyOwned
    written := by simpa using hs.written }
  later := {
    session := by
      intro j r' hr'
      exact ⟨r',by simpa using hr',.refl r'⟩
    inputs := by
      intro j
      by_cases hj : j = id
      · subst hj
        simp
      · simp [hj]
    history := by simp
    journal := by simp
    closed := by
      intro j r' hr' hclosed
      have hj : j ≠ id := by
        rintro rfl
        obtain rfl := Option.some.inj (hr.symm.trans hr')
        rw [hopen] at hclosed
        cases hclosed
      simp [hj] }

theorem advances_putHistory (hs : Stored used s) {r : SessionRecord} (hr : s (.session id) = some r)
    (hopen : r.lifecycle = .open) {entry : SessionHistoryEntry C}
    (hnext : entry.sequence.val = (decode (s (.history id))).length + 1) :
    Advances used s (put s (.history id) (decode (s (.history id)) ++ [entry])) where
  stored := {
    sorted := by simpa using hs.sorted
    exact := by simpa using hs.exact
    named := by simpa using hs.named
    inputs := by simpa using hs.inputs
    history := by
      intro j
      by_cases hj : j = id
      · subst hj
        simpa only [put_self,decode_some] using sequenced_append (hs.history j) hnext
      · simpa [hj] using hs.history j
    journal := by simpa using hs.journal
    inputsOwned := by simpa using hs.inputsOwned
    historyOwned := by
      intro j hj
      by_cases hsame : j = id
      · subst hsame
        simp [hr]
      · simpa using hs.historyOwned j (by simpa [hsame] using hj)
    written := by simpa using hs.written }
  later := {
    session := by
      intro j r' hr'
      exact ⟨r',by simpa using hr',.refl r'⟩
    inputs := by simp
    history := by
      intro j
      by_cases hj : j = id
      · subst hj
        simp
      · simp [hj]
    journal := by simp
    closed := by
      intro j r' hr' hclosed
      have hj : j ≠ id := by
        rintro rfl
        obtain rfl := Option.some.inj (hr.symm.trans hr')
        rw [hopen] at hclosed
        cases hclosed
      simp [hj] }

theorem nextSequence_val {entries : List (SessionJournalEntry C)} {sequence : U64}
    (h : nextSequence entries = .ok sequence) (hentries : Sequenced (entries.map (·.sequence))) :
    sequence.val = entries.length + 1 := by
  unfold nextSequence at h
  split at h
  · next hnone =>
    obtain rfl := getLast?_eq_none_iff.mp hnone
    cases h
    rfl
  · next entry hlast =>
    have hlast : (entries.map (·.sequence)).getLast? = some entry.sequence := by
      rw [getLast?_map,hlast]
      rfl
    have hval := hentries.last hlast
    unfold Application.checkedSucc at h
    split at h
    · next found hsucc =>
      cases h
      split at hsucc
      · obtain rfl := Option.some.inj hsucc
        simpa using hval
      · cases hsucc
    · cases h

theorem advances_putJournal (hs : Stored used s) {entry : SessionJournalEntry C}
    (hused : used id entry.stream)
    (hnext : nextSequence (decode (s (journalCell id entry.stream))) = .ok entry.sequence) :
    Advances used s (put s (journalCell id entry.stream)
      (decode (s (journalCell id entry.stream)) ++ [entry])) where
  stored := {
    sorted := by simpa [journalCell] using hs.sorted
    exact := by simpa [journalCell] using hs.exact
    named := by simpa [journalCell] using hs.named
    inputs := by simpa [journalCell] using hs.inputs
    history := by simpa [journalCell] using hs.history
    journal := by
      intro place
      by_cases hplace : place = journalPlace id entry.stream
      · subst hplace
        have hthis := hs.journal (journalPlace id entry.stream)
        rw [put_self]
        exact sequenced_append hthis (nextSequence_val hnext hthis)
      · simpa [journalCell,hplace] using hs.journal place
    inputsOwned := by simpa [journalCell] using hs.inputsOwned
    historyOwned := by simpa [journalCell] using hs.historyOwned
    written := by
      intro place later hlater
      by_cases hplace : place = journalPlace id entry.stream
      · subst hplace
        rw [put_self] at hlater
        rcases mem_append.mp hlater with hlater | hlater
        · exact hs.written _ later hlater
        · obtain rfl := mem_singleton.mp hlater
          exact ⟨id,hused,rfl⟩
      · exact hs.written place later (by simpa [journalCell,hplace] using hlater) }
  later := {
    session := by
      intro j r' hr'
      exact ⟨r',by simpa [journalCell] using hr',.refl r'⟩
    inputs := by simp [journalCell]
    history := by simp [journalCell]
    journal := by
      intro place
      by_cases hplace : place = journalPlace id entry.stream
      · subst hplace
        simp [journalCell]
      · simp [journalCell,hplace]
    closed := by simp [journalCell] }

end Changes

end PhenixConductor.Sessions

import PhenixConductor.Client.Translation
import PhenixConductor.Collections.Outcomes

/-! # The session service

The durable record of every session, and for every session and stream a journal whose entries
are numbered as they are appended.
-/
namespace PhenixConductor.Application
open Collections Contract
open Execution (U64)

inductive SessionLifecycle
  | open
  | closed
deriving DecidableEq

structure SessionRecord where
  id : SessionId
  workingDirectory : Option String
  title : Option String
  lifecycle : SessionLifecycle
deriving DecidableEq

def SessionRecord.application (id : SessionId) (workingDirectory : String)
    (title : Option String) : SessionRecord :=
  ⟨id,some workingDirectory,title,.open⟩

inductive SessionTransition
  | rename (title : String)
  | close

/-- `C` is what the payload says. -/
structure SessionJournalDraft (C : Type) where
  stream : ContractId
  payload : C

structure SessionJournalEntry (C : Type) where
  sequence : U64
  stream : ContractId
  payload : C

/-- The commands that the application gives. -/
inductive SessionCommand (C : Type)
  | create (session : SessionRecord)
  | get (id : SessionId)
  | transition (id : SessionId) (transition : SessionTransition) (journal : SessionJournalDraft C)
  | appendJournal (id : SessionId) (entry : SessionJournalDraft C)
  | journal (id : SessionId) (stream : ContractId) (afterSequence : Option U64)

inductive SessionResponse (C : Type)
  | created (session : SessionRecord)
  | session (session : Option SessionRecord)
  | transitioned (session : SessionRecord) (journal : SessionJournalEntry C)
  | journalAppended (entry : SessionJournalEntry C)
  | journal (throughSequence : U64) (entries : List (SessionJournalEntry C))

/-- The durable records, each under its own id, and the journals under their keys. -/
structure SessionStore (C : Type) where
  records : BTreeMap SessionId SessionRecord
  journals : BTreeMap String (List (SessionJournalEntry C))
  named : ∀ id session, records.get? id = some session → session.id = id

def SessionStore.empty {C : Type} : SessionStore C := ⟨.empty,.empty,by simp⟩

def journalKey (id : SessionId) (stream : ContractId) : String :=
  "journal/" ++ id.text ++ "/" ++ stream.text

/-- `checked_add(1)` -/
def checkedSucc (n : U64) : Option U64 :=
  if h : n.val + 1 < 2 ^ 64 then some ⟨n.val + 1,h⟩ else none

variable {C : Type}

namespace SessionStore
variable (self : SessionStore C)

/-- The entries of a journal in the order in which they were appended. -/
def journalOf (id : SessionId) (stream : ContractId) : List (SessionJournalEntry C) :=
  (self.journals.get? (journalKey id stream)).getD []

def putJournal (id : SessionId) (stream : ContractId) (entries : List (SessionJournalEntry C)) :
    SessionStore C :=
  { self with journals := self.journals.insert (journalKey id stream) entries }

def putRecord (session : SessionRecord) : SessionStore C :=
  { self with
    records := self.records.insert session.id session
    named := by
      intro id found h
      rw [BTreeMap.get?_insert] at h
      split_ifs at h with hid
      · cases h
        exact hid.symm
      · exact self.named id found h }

end SessionStore

section Commands
variable (store : SessionStore C)

def unknownSession (id : SessionId) : String := "unknown session: " ++ id.text

def readSession (id : SessionId) : Except String SessionRecord :=
  match store.records.get? id with
  | some session => .ok session
  | none => .error (unknownSession id)

def requireOpen (session : SessionRecord) : Except String Unit :=
  if session.lifecycle = .open then .ok ()
  else .error ("session is closed: " ++ session.id.text)

def streamMismatch (id : SessionId) (stream : ContractId) : String :=
  "session journal stream mismatch for " ++ id.text ++ ": " ++ stream.text

/-- The number after the last entry. -/
def nextSequence (entries : List (SessionJournalEntry C)) : Except String U64 :=
  match entries.getLast? with
  | none => .ok 1
  | some entry =>
    match checkedSucc entry.sequence with
    | some sequence => .ok sequence
    | none => .error "session journal sequence overflow"

def prepareJournalAppend (id : SessionId) (draft : SessionJournalDraft C) :
    Except String (SessionJournalEntry C × List (SessionJournalEntry C)) := do
  let entries := store.journalOf id draft.stream
  if entries.any (·.stream ≠ draft.stream) then .error (streamMismatch id draft.stream)
  else do
    let sequence ← nextSequence entries
    let entry : SessionJournalEntry C := ⟨sequence,draft.stream,draft.payload⟩
    return (entry,entries ++ [entry])

def createSession (session : SessionRecord) :
    Except String (SessionStore C × SessionResponse C) :=
  if session.lifecycle ≠ .open then .error "new sessions must start open"
  else if session.id ∈ store.records.keys then
    .error ("session already exists: " ++ session.id.text)
  else .ok (store.putRecord session,.created session)

def transitionSession (id : SessionId) (transition : SessionTransition)
    (journal : SessionJournalDraft C) : Except String (SessionStore C × SessionResponse C) := do
  let session ← readSession store id
  requireOpen session
  let session := match transition with
    | .rename title => { session with title := some title }
    | .close => { session with lifecycle := .closed }
  let (entry,entries) ← prepareJournalAppend store id journal
  return ((store.putRecord session).putJournal id journal.stream entries,
    .transitioned session entry)

def appendJournal (id : SessionId) (draft : SessionJournalDraft C) :
    Except String (SessionStore C × SessionResponse C) := do
  let _ ← readSession store id
  let (entry,entries) ← prepareJournalAppend store id draft
  return (store.putJournal id draft.stream entries,.journalAppended entry)

def readJournalResponse (id : SessionId) (stream : ContractId) (afterSequence : Option U64) :
    Except String (SessionResponse C) := do
  let _ ← readSession store id
  let entries := store.journalOf id stream
  if entries.any (·.stream ≠ stream) then .error (streamMismatch id stream)
  else
    let through := (entries.getLast?.map (·.sequence)).getD 0
    return .journal through (match afterSequence with
      | some sequence => entries.filter (·.sequence > sequence)
      | none => entries)

def handleSession : SessionCommand C → Except String (SessionStore C × SessionResponse C)
  | .create session => createSession store session
  | .get id => .ok (store,.session (store.records.get? id))
  | .transition id transition journal => transitionSession store id transition journal
  | .appendJournal id entry => appendJournal store id entry
  | .journal id stream afterSequence => do
    return (store,← readJournalResponse store id stream afterSequence)

end Commands

/-- The service on its durable state: a command that fails writes nothing. -/
def sessionService (command : SessionCommand C) :
    EStateM String (SessionStore C) (SessionResponse C) := fun store =>
  match handleSession store command with
  | .ok (next,response) => .ok response next
  | .error message => .error message store

/-! ## What a command does -/

variable {id : SessionId}

theorem journalKey_injective {id' : SessionId} {stream : ContractId}
    (h : journalKey id stream = journalKey id' stream) : id = id' := by
  apply Identifier.text_injective
  have htext := congrArg String.toList h
  simp only [journalKey, String.toList_append, List.append_cancel_right_eq,
    List.append_cancel_left_eq] at htext
  exact String.toList_injective htext

theorem journalOf_putJournal (store : SessionStore C) (id j : SessionId) (stream : ContractId)
    (entries : List (SessionJournalEntry C)) :
    (store.putJournal id stream entries).journalOf j stream =
      if j = id then entries else store.journalOf j stream := by
  unfold SessionStore.journalOf SessionStore.putJournal
  rw [BTreeMap.get?_insert]
  by_cases h : j = id
  · simp [h]
  · rw [if_neg fun hkey => h (journalKey_injective hkey), if_neg h]

@[simp] theorem journalOf_putRecord (store : SessionStore C) (session : SessionRecord)
    (id : SessionId) (stream : ContractId) :
    (store.putRecord session).journalOf id stream = store.journalOf id stream := rfl

@[simp] theorem records_putJournal (store : SessionStore C) (id : SessionId) (stream : ContractId)
    (entries : List (SessionJournalEntry C)) :
    (store.putJournal id stream entries).records = store.records := rfl

/-- What the checks of an append have found. -/
structure Appended (store : SessionStore C) (id : SessionId) (draft : SessionJournalDraft C)
    (entry : SessionJournalEntry C) : Prop where
  sequence : nextSequence (store.journalOf id draft.stream) = .ok entry.sequence
  stream : entry.stream = draft.stream
  payload : entry.payload = draft.payload

variable {store : SessionStore C}

theorem prepareJournalAppend_eq_ok {draft : SessionJournalDraft C} {entry : SessionJournalEntry C}
    {entries : List (SessionJournalEntry C)}
    (h : prepareJournalAppend store id draft = .ok (entry,entries)) :
    Appended store id draft entry ∧ entries = store.journalOf id draft.stream ++ [entry] := by
  unfold prepareJournalAppend at h
  dsimp only at h
  split_ifs at h with hmismatch
  obtain ⟨sequence,hsequence,h⟩ := bind_eq_ok.mp h
  cases h
  exact ⟨⟨hsequence,rfl,rfl⟩,rfl⟩

/-- What a command does, by the command. -/
inductive SessionEffect (store : SessionStore C) :
    SessionCommand C → SessionStore C → SessionResponse C → Prop
  | create {session : SessionRecord} (isOpen : session.lifecycle = .open)
      (fresh : session.id ∉ store.records.keys) :
      SessionEffect store (.create session) (store.putRecord session) (.created session)
  | get (id : SessionId) :
      SessionEffect store (.get id) store (.session (store.records.get? id))
  | transition {id : SessionId} {transition : SessionTransition}
      {journal : SessionJournalDraft C} {before session : SessionRecord}
      {entry : SessionJournalEntry C} (found : store.records.get? id = some before)
      (isOpen : before.lifecycle = .open) (named : session.id = id)
      (directory : session.workingDirectory = before.workingDirectory)
      (appended : Appended store id journal entry) :
      SessionEffect store (.transition id transition journal)
        ((store.putRecord session).putJournal id journal.stream
          (store.journalOf id journal.stream ++ [entry]))
        (.transitioned session entry)
  | appendJournal {id : SessionId} {draft : SessionJournalDraft C} {session : SessionRecord}
      {entry : SessionJournalEntry C} (found : store.records.get? id = some session)
      (appended : Appended store id draft entry) :
      SessionEffect store (.appendJournal id draft)
        (store.putJournal id draft.stream (store.journalOf id draft.stream ++ [entry]))
        (.journalAppended entry)
  | journal {id : SessionId} {stream : ContractId} {afterSequence : Option U64}
      {session : SessionRecord} (found : store.records.get? id = some session)
      (streams : ∀ entry ∈ store.journalOf id stream, entry.stream = stream) :
      SessionEffect store (.journal id stream afterSequence) store
        (.journal (((store.journalOf id stream).getLast?.map (·.sequence)).getD 0)
          (match afterSequence with
          | some sequence => (store.journalOf id stream).filter (·.sequence > sequence)
          | none => store.journalOf id stream))

theorem readSession_eq_ok {session : SessionRecord} :
    readSession store id = .ok session ↔ store.records.get? id = some session := by
  unfold readSession
  cases store.records.get? id <;> simp

variable {response : SessionResponse C}

theorem handleSession_effect {next : SessionStore C} {command : SessionCommand C}
    (h : handleSession store command = .ok (next,response)) :
    SessionEffect store command next response := by
  cases command with
  | create session =>
    simp only [handleSession, createSession] at h
    split_ifs at h with hopen hexists
    cases h
    exact .create (not_not.mp hopen) hexists
  | get id =>
    cases h
    exact .get id
  | transition id transition journal =>
    obtain ⟨before,hfound,h⟩ := bind_eq_ok.mp h
    obtain ⟨_,hopen,h⟩ := bind_eq_ok.mp h
    obtain ⟨⟨entry,entries⟩,happend,h⟩ := bind_eq_ok.mp h
    rw [readSession_eq_ok] at hfound
    obtain ⟨happended,rfl⟩ := prepareJournalAppend_eq_ok happend
    unfold requireOpen at hopen
    split_ifs at hopen with hlifecycle
    have hname : before.id = id := store.named id before hfound
    cases h
    cases transition with
    | rename title => exact .transition hfound hlifecycle hname rfl happended
    | close => exact .transition hfound hlifecycle hname rfl happended
  | appendJournal id entry =>
    obtain ⟨session,hfound,h⟩ := bind_eq_ok.mp h
    obtain ⟨⟨entry,entries⟩,happend,h⟩ := bind_eq_ok.mp h
    rw [readSession_eq_ok] at hfound
    obtain ⟨happended,rfl⟩ := prepareJournalAppend_eq_ok happend
    cases h
    exact .appendJournal hfound happended
  | journal id stream afterSequence =>
    obtain ⟨answered,hread,h⟩ := bind_eq_ok.mp h
    cases h
    obtain ⟨session,hfound,hread⟩ := bind_eq_ok.mp hread
    rw [readSession_eq_ok] at hfound
    dsimp only at hread
    split_ifs at hread with hstreams
    cases hread
    refine .journal hfound fun entry hentry => ?_
    by_contra hne
    exact hstreams (List.any_eq_true.mpr ⟨entry,hentry,by simpa using hne⟩)

theorem sessionService_eq_ok {next : SessionStore C} {command : SessionCommand C}
    (h : sessionService command store = .ok response next) :
    SessionEffect store command next response := by
  unfold sessionService at h
  cases hhandle : handleSession store command with
  | ok result =>
    rw [hhandle] at h
    cases h
    exact handleSession_effect hhandle
  | error message =>
    rw [hhandle] at h
    cases h

/-- A command takes effect or changes nothing. -/
theorem after_sessionService (store : SessionStore C) (command : SessionCommand C) :
    after (sessionService command) store = store ∨
      ∃ response, SessionEffect store command (after (sessionService command) store) response := by
  cases h : sessionService command store with
  | ok response next =>
    rw [after_ok h]
    exact .inr ⟨response,sessionService_eq_ok h⟩
  | error message next =>
    rw [after_error h]
    unfold sessionService at h
    cases hhandle : handleSession store command with
    | ok result =>
      rw [hhandle] at h
      cases h
    | error failure =>
      rw [hhandle] at h
      cases h
      exact .inl rfl

end PhenixConductor.Application

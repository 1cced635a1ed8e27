import PhenixConductor.Application.Sessions
import PhenixConductor.Collections.Interleaving
import PhenixConductor.Collections.JsonText
import PhenixConductor.Execution.Task
import PhenixConductor.Persistence.Refinement

/-! # The commands of the session plugin on its store

The plugin holds no state.
-/
namespace PhenixConductor.Sessions
open Collections Contract
open Execution (U64 parseIdentifier)
open Application (SessionRecord SessionTransition SessionJournalDraft SessionJournalEntry
  unknownSession requireOpen streamMismatch nextSequence)

inductive SessionInputKind
  | user
  | root
deriving DecidableEq

structure SessionInput where
  sequence : U64
  kind : SessionInputKind
  content : List UInt8
deriving DecidableEq

inductive SessionHistoryRole
  | user
  | assistant
  | tool
deriving DecidableEq

inductive SessionHistoryContentPart
  | text (text : String)
  | mediaReference (mediaType resource : String)
deriving DecidableEq

/-- `C` is what a value says. -/
structure SessionHistoryToolCall (C : Type) where
  callId : String
  callableId : CallableId
  arguments : C
deriving DecidableEq

inductive SessionHistoryToolOutcome (C : Type)
  | success (value : C)
  | failure (code message : String)
deriving DecidableEq

structure SessionHistoryToolResult (C : Type) where
  callId : String
  callableId : CallableId
  result : SessionHistoryToolOutcome C
deriving DecidableEq

inductive SessionHistoryFinishReason
  | complete
  | toolCalls
  | length
  | contentFilter
  | cancelled
  | providerError
deriving DecidableEq

structure SessionHistoryUsage where
  inputTokens : Option U64
  outputTokens : Option U64
deriving DecidableEq

structure SessionHistoryDraft (C : Type) where
  role : SessionHistoryRole
  content : List SessionHistoryContentPart
  toolCalls : List (SessionHistoryToolCall C)
  toolResults : List (SessionHistoryToolResult C)
  finishReason : Option SessionHistoryFinishReason
  usage : Option SessionHistoryUsage
  contextRevision : String
  instructionRevision : String
deriving DecidableEq

/-- The data of its draft with a number. -/
structure SessionHistoryEntry (C : Type) extends SessionHistoryDraft C where
  sequence : U64
deriving DecidableEq

inductive SessionCommand (C : Type)
  | create (session : SessionRecord)
  | get (id : SessionId)
  | list
  | rename (id : SessionId) (title : String)
  | close (id : SessionId)
  | transition (id : SessionId) (transition : SessionTransition) (journal : SessionJournalDraft C)
  | appendJournal (id : SessionId) (entry : SessionJournalDraft C)
  | journal (id : SessionId) (stream : ContractId) (afterSequence : Option U64)
  | continue (id : SessionId) (kind : SessionInputKind) (content : List UInt8)
  | inputs (id : SessionId)
  | resolveInput (resource : String)
  | appendHistory (id : SessionId) (entry : SessionHistoryDraft C)
  | history (id : SessionId)
  | resolveHistory (resource : String)
  /-- Of the mutation service: `PrepareCreate`, with the commit of what it prepares. -/
  | prepareCreate (session : SessionRecord)

inductive SessionResponse (C : Type)
  | created (session : SessionRecord)
  | session (session : Option SessionRecord)
  | sessions (sessions : List SessionRecord)
  | updated (session : SessionRecord)
  | transitioned (session : SessionRecord) (journal : SessionJournalEntry C)
  | journalAppended (entry : SessionJournalEntry C)
  | journal (throughSequence : U64) (entries : List (SessionJournalEntry C))
  | continued (session : SessionRecord) (input : SessionInput)
  | inputs (inputs : List SessionInput)
  | input (input : Option SessionInput)
  | historyAppended (entry : SessionHistoryEntry C)
  | history (entries : List (SessionHistoryEntry C))
  | historyEntry (entry : Option (SessionHistoryEntry C))
  | preparedCreate (session : SessionRecord)

/-- The keys of the plugin's namespace. A journal is stored under the text that its session and its
stream make up, which does not say where the one ends and the other begins. -/
inductive SessionCell
  | all
  | session (id : SessionId)
  | inputs (id : SessionId)
  | history (id : SessionId)
  | journal (place : String)
deriving DecidableEq

namespace SessionCell

def key : SessionCell → String
  | .all => "sessions/@all"
  | .session id => "session/" ++ id.text
  | .inputs id => "inputs/" ++ id.text
  | .history id => "history/" ++ id.text
  | .journal place => "journal/" ++ place

theorem key_injective : Function.Injective key := by
  have htext {id id' : SessionId} (h : id.text = id'.text) : id = id' :=
    Identifier.text_injective h
  rintro (_ | id | id | id | place) (_ | id' | id' | id' | place') h <;>
    first
    | rfl
    | (simp [key,String.ext_iff] at h; done)
    | (simp only [key,String.ext_iff,String.toList_append,List.append_cancel_left_eq] at h
       rw [← String.ext_iff] at h
       first
       | rw [h]
       | rw [htext h])

abbrev Content (C : Type) : SessionCell → Type
  | .all => List SessionId
  | .session _ => SessionRecord
  | .inputs _ => List SessionInput
  | .history _ => List (SessionHistoryEntry C)
  | .journal _ => List (SessionJournalEntry C)

end SessionCell

deriving instance DecidableEq for SessionJournalEntry

instance SessionCell.decidableContent {C : Type} [DecidableEq C] :
    (cell : SessionCell) → DecidableEq (cell.Content C)
  | .all => inferInstanceAs (DecidableEq (List SessionId))
  | .session _ => inferInstanceAs (DecidableEq SessionRecord)
  | .inputs _ => inferInstanceAs (DecidableEq (List SessionInput))
  | .history _ => inferInstanceAs (DecidableEq (List (SessionHistoryEntry C)))
  | .journal _ => inferInstanceAs (DecidableEq (List (SessionJournalEntry C)))

abbrev SessionCells (C : Type) := Cells (SessionCell.Content C)

/-- The plugin calls no other service. -/
abbrev NoReply : Empty → Type := fun _ => Unit

abbrev SessionM (C : Type) := StoreScript (SessionCell.Content C) NoReply String

variable {C : Type}

/-- `journal_key` -/
def journalPlace (id : SessionId) (stream : ContractId) : String := id.text ++ "/" ++ stream.text

abbrev journalCell (id : SessionId) (stream : ContractId) : SessionCell :=
  .journal (journalPlace id stream)

def storeError : CommitError SessionCell → String
  | .failed error => error
  | .assertion cell =>
    Persistence.assertionFailed "phenix.sessions" "phenix.sessions.state" cell.key

/-- `read_raw`, with the decoding of what is stored -/
def readRaw (cell : SessionCell) : SessionM C (Option (cell.Content C)) := do
  let value ← askRead cell
  Script.ofExcept value

def transactDurable (operations : List (CellOp (SessionCell.Content C))) : SessionM C Unit := do
  let result ← askCommit operations
  Script.ofExcept (result.mapError storeError)

def check {α : Type} (result : Except String α) : SessionM C α := Script.ofExcept result

/-- What is read, or an error for what is not there. -/
def orElse {α : Type} (error : String) : Option α → SessionM C α
  | some value => pure value
  | none => Script.fail error

/-- What is stored under a key, none of it when the key is absent. -/
def decode {α : Type} (value : Option (List α)) : List α := value.getD []

def readSession (id : SessionId) : SessionM C (Option SessionRecord) := readRaw (.session id)

def readEach : List SessionId → SessionM C (List SessionRecord)
  | [] => return []
  | id :: ids => do
    let stored ← readSession id
    let session ← orElse ("missing durable session: " ++ id.text) stored
    let sessions ← readEach ids
    return session :: sessions

def readSessions : SessionM C (List SessionRecord) := do
  let ids ← readRaw .all
  readEach (decode ids)

/-- A sorted list with one id more, each once. -/
def addId (ids : List SessionId) (id : SessionId) : List SessionId :=
  ((ids ++ [id]).insertionSort (· ≤ ·)).destutter (· ≠ ·)

def requireStartsOpen (session : SessionRecord) : Except String Unit :=
  if session.lifecycle = .open then .ok () else .error "new sessions must start open"

def requireAbsent (id : SessionId) : Option SessionRecord → Except String Unit
  | some _ => .error ("session already exists: " ++ id.text)
  | none => .ok ()

def prepareCreate (session : SessionRecord) :
    SessionM C (SessionRecord × List (CellOp (SessionCell.Content C))) := do
  check (requireStartsOpen session)
  let stored ← readSession session.id
  check (requireAbsent session.id stored)
  let oldSessions ← readRaw .all
  return (session,[
    .assert (.session session.id) none,
    .assert .all oldSessions,
    .put (.session session.id) session,
    .put .all (addId (decode oldSessions) session.id)])

def createSession (session : SessionRecord) : SessionM C (SessionResponse C) := do
  let prepared ← prepareCreate session
  transactDurable prepared.2
  return .created prepared.1

/-- The operations are committed by whoever holds the prepared mutation. -/
def commitPrepared (session : SessionRecord) : SessionM C (SessionResponse C) := do
  let prepared ← prepareCreate session
  transactDurable prepared.2
  return .preparedCreate prepared.1

def updateSession (id : SessionId) (mutate : SessionRecord → Except String SessionRecord) :
    SessionM C (SessionResponse C) := do
  let stored ← readRaw (.session id)
  let old ← orElse (unknownSession id) stored
  let session ← check (mutate old)
  transactDurable [.assert (.session id) (some old),.put (.session id) session]
  return .updated session

def renameRecord (title : String) (session : SessionRecord) : Except String SessionRecord := do
  requireOpen session
  return { session with title := some title }

def closeRecord (session : SessionRecord) : Except String SessionRecord := do
  requireOpen session
  return { session with lifecycle := .closed }

def applyTransition (session : SessionRecord) : SessionTransition → SessionRecord
  | .rename title => { session with title := some title }
  | .close => { session with lifecycle := .closed }

def requireStream (id : SessionId) (stream : ContractId) (entries : List (SessionJournalEntry C)) :
    Except String Unit :=
  if entries.any (·.stream ≠ stream) then .error (streamMismatch id stream) else .ok ()

def prepareJournalAppend (id : SessionId) (draft : SessionJournalDraft C) :
    SessionM C (SessionJournalEntry C × List (CellOp (SessionCell.Content C))) := do
  let old ← readRaw (journalCell id draft.stream)
  check (requireStream id draft.stream (decode old))
  let sequence ← check (nextSequence (decode old))
  let entry : SessionJournalEntry C := ⟨sequence,draft.stream,draft.payload⟩
  return (entry,[
    .assert (journalCell id draft.stream) old,
    .put (journalCell id draft.stream) (decode old ++ [entry])])

def transitionSession (id : SessionId) (transition : SessionTransition)
    (journal : SessionJournalDraft C) : SessionM C (SessionResponse C) := do
  let stored ← readRaw (.session id)
  let old ← orElse (unknownSession id) stored
  check (requireOpen old)
  let session := applyTransition old transition
  let (entry,journalOperations) ← prepareJournalAppend id journal
  transactDurable
    ([.assert (.session id) (some old),.put (.session id) session] ++ journalOperations)
  return .transitioned session entry

def requireKnown (id : SessionId) : SessionM C SessionRecord := do
  let stored ← readSession id
  orElse (unknownSession id) stored

def appendJournal (id : SessionId) (draft : SessionJournalDraft C) :
    SessionM C (SessionResponse C) := do
  let _ ← requireKnown id
  let (entry,operations) ← prepareJournalAppend id draft
  transactDurable operations
  return .journalAppended entry

def readJournalResponse (id : SessionId) (stream : ContractId) (afterSequence : Option U64) :
    SessionM C (SessionResponse C) := do
  let _ ← requireKnown id
  let stored ← readRaw (journalCell id stream)
  let entries := decode stored
  check (requireStream id stream entries)
  return .journal ((entries.getLast?.map (·.sequence)).getD 0) (match afterSequence with
    | some sequence => entries.filter (·.sequence > sequence)
    | none => entries)

def requireOpenSession (id : SessionId) : SessionM C SessionRecord := do
  let session ← requireKnown id
  check (requireOpen session)
  return session

/-- The number of the entry after these. -/
def sequenceAfter {α : Type} (overflow : String) (entries : List α) : Except String U64 :=
  if h : entries.length + 1 < 2 ^ 64 then .ok ⟨entries.length + 1,h⟩ else .error overflow

def continueSession (id : SessionId) (kind : SessionInputKind) (content : List UInt8) :
    SessionM C (SessionResponse C) := do
  let session ← requireOpenSession id
  let oldInputs ← readRaw (.inputs id)
  let sequence ← check (sequenceAfter "session input sequence overflow" (decode oldInputs))
  let input : SessionInput := ⟨sequence,kind,content⟩
  transactDurable [
    .assert (.inputs id) oldInputs,
    .put (.inputs id) (decode oldInputs ++ [input])]
  return .continued session input

def appendHistory (id : SessionId) (draft : SessionHistoryDraft C) :
    SessionM C (SessionResponse C) := do
  let _ ← requireOpenSession id
  let oldHistory ← readRaw (.history id)
  let sequence ← check (sequenceAfter "session history sequence overflow" (decode oldHistory))
  let entry : SessionHistoryEntry C := { toSessionHistoryDraft := draft, sequence := sequence }
  transactDurable [
    .assert (.history id) oldHistory,
    .put (.history id) (decode oldHistory ++ [entry])]
  return .historyAppended entry

/-- `str::rsplit_once('/')` -/
def rsplitOnce (text : List Char) : Option (List Char × List Char) :=
  if '/' ∈ text then
    some (((text.reverse.dropWhile (· ≠ '/')).drop 1).reverse,
      (text.reverse.takeWhile (· ≠ '/')).reverse)
  else none

def sessionInputResource (id : SessionId) (sequence : U64) : String :=
  "input/" ++ id.text ++ "/" ++ Nat.repr sequence.val

def sessionHistoryResource (id : SessionId) (sequence : U64) : String :=
  "history/" ++ id.text ++ "/" ++ Nat.repr sequence.val

theorem parseIdentifier_text {kind : IdentifierKind} (id : Identifier kind) :
    parseIdentifier id.text = .ok id := by
  unfold parseIdentifier
  split
  · rfl
  · next error herror =>
    rw [id.valid] at herror
    cases herror

/-- The session and the number that a resource names, or the error of what does not parse. -/
def parseResource (start : String) (invalid resource : String) : Except String (SessionId × ℕ) := do
  let value ← (stripPrefix start resource).elim (.error invalid) .ok
  let parts ← (rsplitOnce value).elim (.error invalid) .ok
  let session ← parseIdentifier (String.ofList parts.1)
  let sequence ← (parseNumeral (2 ^ 64) parts.2).elim (.error invalid) .ok
  return (session,sequence)

def resolveInputResource (resource : String) : SessionM C (Option SessionInput) := do
  let (session,sequence) ← check
    (parseResource "input/" ("invalid session input resource: " ++ resource) resource)
  let stored ← readSession session
  if stored.isNone then return none
  else
    let inputs ← readRaw (.inputs session)
    return (decode inputs).find? (·.sequence.val = sequence)

def resolveHistoryResource (resource : String) : SessionM C (Option (SessionHistoryEntry C)) := do
  let (session,sequence) ← check
    (parseResource "history/" ("invalid session history resource: " ++ resource) resource)
  let stored ← readSession session
  if stored.isNone then return none
  else
    let entries ← readRaw (.history session)
    return (decode entries).find? (·.sequence.val = sequence)

/-- `handle_session`, and `handle_mutation` for its one command -/
def handle : SessionCommand C → SessionM C (SessionResponse C)
  | .create session => createSession session
  | .get id => do
    return .session (← readSession id)
  | .list => do
    return .sessions (← readSessions)
  | .rename id title => updateSession id (renameRecord title)
  | .close id => updateSession id closeRecord
  | .transition id transition journal => transitionSession id transition journal
  | .appendJournal id entry => appendJournal id entry
  | .journal id stream afterSequence => readJournalResponse id stream afterSequence
  | .continue id kind content => continueSession id kind content
  | .inputs id => do
    let _ ← requireKnown id
    return .inputs (decode (← readRaw (.inputs id)))
  | .resolveInput resource => do
    return .input (← resolveInputResource resource)
  | .appendHistory id entry => appendHistory id entry
  | .history id => do
    let _ ← requireKnown id
    return .history (decode (← readRaw (.history id)))
  | .resolveHistory resource => do
    return .historyEntry (← resolveHistoryResource resource)
  | .prepareCreate session => commitPrepared session

end PhenixConductor.Sessions

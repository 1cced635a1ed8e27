import PhenixConductor.Execution.Task

/-! # Reviews of prepared changes

A review holds changes to files until it is decided.
-/
namespace PhenixConductor.Execution
open Collections

inductive WorkspaceFileVersion
  | absent
  | present (contentHash : String)
deriving DecidableEq

structure WorkspaceWrite where
  path : String
  content : String
  expectedVersion : WorkspaceFileVersion
deriving DecidableEq

structure WorkspaceVersionConflict where
  path : String
  expectedVersion : WorkspaceFileVersion
  observedVersion : WorkspaceFileVersion

/-- The responses to a batch of writes. What any other response is printed as is kept. -/
inductive WorkspaceResponse
  | writtenBatch
  | versionConflict (conflicts : List WorkspaceVersionConflict)
  | other (printed : String)

structure ReviewHunk where
  id : String
  oldStart : U64
  oldCount : U64
  newStart : U64
  newCount : U64
  unifiedDiff : String
deriving DecidableEq

structure ReviewFile where
  uri : String
  expectedVersion : String
  hunks : List ReviewHunk
  conflict : Option String
deriving DecidableEq

inductive ReviewState
  | pending
  | accepted
  | rejected
  | conflicted (message : String)
deriving DecidableEq

structure ReviewRecord where
  id : String
  revision : U64
  sessionId : String
  executionId : String
  files : List ReviewFile
  state : ReviewState
deriving DecidableEq

inductive ReviewDecision
  | accept
  | reject
deriving DecidableEq

structure ReviewDecisionInput where
  reviewId : String
  expectedRevision : U64
  decision : ReviewDecision
deriving DecidableEq

structure PreparedReviewFile where
  uri : String
  path : String
  expectedVersion : WorkspaceFileVersion
  content : String
  hunks : List ReviewHunk
deriving DecidableEq

inductive ExecutionReviewCommand
  | prepare (id sessionId executionId : String) (files : List PreparedReviewFile)
  | get (reviewId : String)
  | listPending
  | decide (input : ReviewDecisionInput)

inductive ExecutionReviewResponse
  | review (review : ReviewRecord)
  | reviewLookup (review : Option ReviewRecord)
  | reviews (reviews : List ReviewRecord)
  | conflict (message : String) (review : Option ReviewRecord)

structure StoredReview where
  record : ReviewRecord
  preparedFiles : List PreparedReviewFile
deriving DecidableEq

structure ReviewProjection where
  reviews : BTreeMap String StoredReview
deriving DecidableEq

def ReviewProjection.empty : ReviewProjection := ⟨.empty⟩

def ReviewProjection.put (self : ReviewProjection) (id : String) (stored : StoredReview) :
    ReviewProjection :=
  ⟨self.reviews.insert id stored⟩

/-- Where a call stands: it is answered, or it waits for the workspace or for its commit, with
the state that it has read. -/
inductive ReviewProgress
  | answered (result : Except String ExecutionReviewResponse)
  | applying (old : ReviewProjection) (reviewId : String) (stored : StoredReview)
  | persisting (old next : ReviewProjection) (review : ReviewRecord)

def versionLabel : WorkspaceFileVersion → String
  | .absent => "absent"
  | .present contentHash => contentHash

def PreparedReviewFile.review (file : PreparedReviewFile) : ReviewFile :=
  ⟨file.uri,versionLabel file.expectedVersion,file.hunks,none⟩

/-- The batch that an accept has the workspace write. -/
def StoredReview.writes (stored : StoredReview) : List WorkspaceWrite :=
  stored.preparedFiles.map fun file => ⟨file.path,file.content,file.expectedVersion⟩

namespace Review

def checkHunk (uri : String) (hunkIds : List String) (hunk : ReviewHunk) :
    Except String (List String) := do
  validateIdentity "review hunk id" hunk.id
  if hunk.id ∈ hunkIds then
    throw ("review file " ++ uri ++ " contains duplicate hunk id: " ++ hunk.id)
  return hunk.id :: hunkIds

/-- A turn of the loop over the files, with the paths and the uris before it. -/
def checkFile (seen : List String × List String) (file : PreparedReviewFile) :
    Except String (List String × List String) := do
  validateIdentity "review file uri" file.uri
  validateIdentity "review file path" file.path
  if file.path ∈ seen.1 then
    throw ("review contains duplicate workspace path: " ++ file.path)
  if file.uri ∈ seen.2 then
    throw ("review contains duplicate file uri: " ++ file.uri)
  let _ ← file.hunks.foldlM (checkHunk file.uri) []
  return (file.path :: seen.1,file.uri :: seen.2)

/-- The checks that `prepare` makes before it reads. -/
def checkPrepared (id executionId : String) (files : List PreparedReviewFile) :
    Except String Unit := do
  validateIdentity "review id" id
  validateIdentity "review execution id" executionId
  if files = [] then
    throw "review must contain at least one prepared file"
  let _ ← files.foldlM checkFile ([],[])
  return ()

def prepare (read : Except String ReviewProjection) (id sessionId executionId : String)
    (files : List PreparedReviewFile) : Except String ReviewProgress := do
  checkPrepared id executionId files
  let record : ReviewRecord := ⟨id,0,sessionId,executionId,files.map (·.review),.pending⟩
  let stored : StoredReview := ⟨record,files⟩
  let state ← read
  match state.reviews.get? id with
  | some existing =>
    if existing = stored then
      return .answered (.ok (.review existing.record))
    else
      return .answered (.ok
        (.conflict ("review identity is immutable: " ++ id) (some existing.record)))
  | none => return .persisting state (state.put id stored) record

/-- `checked_add` -/
def nextRevision (revision : U64) : Except String U64 :=
  if h : revision.val + 1 < 2 ^ 64 then .ok ⟨revision.val + 1,h⟩
  else .error "review revision overflow"

/-- The decision up to its first effect. -/
def decide (read : Except String ReviewProjection) (input : ReviewDecisionInput) :
    Except String ReviewProgress := do
  let state ← read
  match state.reviews.get? input.reviewId with
  | none => return .answered (.ok (.conflict ("unknown review: " ++ input.reviewId) none))
  | some stored =>
    if stored.record.revision ≠ input.expectedRevision then
      return .answered (.ok (.conflict
        ("stale review revision for " ++ input.reviewId ++ ": expected " ++
          toString input.expectedRevision.val ++ ", current " ++
          toString stored.record.revision.val) (some stored.record)))
    else if stored.record.state ≠ .pending then
      return .answered (.ok
        (.conflict ("review is not pending: " ++ input.reviewId) (some stored.record)))
    else
      match input.decision with
      | .reject => do
        let revision ← nextRevision stored.record.revision
        let review := { stored.record with revision := revision, state := .rejected }
        return .persisting state (state.put input.reviewId ⟨review,[]⟩) review
      | .accept => return .applying state input.reviewId stored

/-- A conflict is noted at the first file with its path. -/
def markConflict (preparedFiles : List PreparedReviewFile) (files : List ReviewFile)
    (conflict : WorkspaceVersionConflict) : List ReviewFile :=
  match preparedFiles.findIdx? (·.path = conflict.path) with
  | none => files
  | some index => files.modify index fun file => { file with
      conflict := some ("expected " ++ versionLabel conflict.expectedVersion ++ ", observed " ++
        versionLabel conflict.observedVersion) }

def conflictMessage : List WorkspaceVersionConflict → String
  | [conflict] => "workspace version conflict for " ++ conflict.path
  | conflicts => "workspace version conflicts for " ++ toString conflicts.length ++ " files"

/-- The record after the response to its batch. -/
def respond (preparedFiles : List PreparedReviewFile) (current : ReviewRecord) :
    WorkspaceResponse → Except String ReviewRecord
  | .writtenBatch => .ok { current with state := .accepted }
  | .versionConflict conflicts => .ok { current with
      files := conflicts.foldl (markConflict preparedFiles) current.files
      state := .conflicted (conflictMessage conflicts) }
  | .other printed =>
    .error ("workspace returned an invalid response to review apply: " ++ printed)

/-- What `accept` does with the reply of the workspace. -/
def accept (old : ReviewProjection) (reviewId : String) (stored : StoredReview)
    (reply : Except String WorkspaceResponse) : Except String ReviewProgress := do
  let response ← reply
  let revision ← nextRevision stored.record.revision
  let review ← respond stored.preparedFiles { stored.record with revision := revision } response
  return .persisting old (old.put reviewId ⟨review,[]⟩) review

def handle (read : Except String ReviewProjection) :
    ExecutionReviewCommand → Except String ReviewProgress
  | .prepare id sessionId executionId files => prepare read id sessionId executionId files
  | .get reviewId => do
    let state ← read
    return .answered (.ok (.reviewLookup ((state.reviews.get? reviewId).map (·.record))))
  | .listPending => do
    let state ← read
    return .answered (.ok (.reviews
      ((state.reviews.values.filter (·.record.state = .pending)).map (·.record))))
  | .decide input => decide read input

end Review

/-- A call that fails is answered with its error. -/
def ReviewProgress.of : Except String ReviewProgress → ReviewProgress
  | .ok progress => progress
  | .error error => .answered (.error error)

structure ReviewCall where
  command : ExecutionReviewCommand
  progress : ReviewProgress

/-- A batch that the workspace has answered as written. A file that is as wanted already is left
alone; `changed` tells whether there was another one. -/
structure AppliedBatch where
  reviewId : String
  writes : List WorkspaceWrite
  changed : Bool

/-- A call comes in and reads the state, or it gets the reply of the workspace or of its commit. -/
inductive ReviewEvent
  | call (id : ℕ) (command : ExecutionReviewCommand) (read : Except String Unit)
  | reply (id : ℕ) (response : Except String WorkspaceResponse) (changed : Bool)
  | commit (id : ℕ) (outcome : Except String Unit)

/-- The durable state, all calls until now, and the batches that are written. -/
structure ReviewSystem where
  projection : ReviewProjection
  calls : BTreeMap ℕ ReviewCall
  applied : List AppliedBatch

def assertionFailed : String :=
  "plugin phenix.execution persistence operation failed: " ++
    "transaction assertion failed for phenix.execution.review.state/reviews"

namespace ReviewSystem

def empty : ReviewSystem := ⟨.empty,.empty,[]⟩

variable (self : ReviewSystem)

def putCall (id : ℕ) (command : ExecutionReviewCommand) (progress : ReviewProgress) :
    ReviewSystem :=
  { self with calls := self.calls.insert id ⟨command,progress⟩ }

/-- The batch of the review, if the workspace answers that it is written. -/
def written (reviewId : String) (stored : StoredReview) (changed : Bool) :
    Except String WorkspaceResponse → List AppliedBatch
  | .ok .writtenBatch => [⟨reviewId,stored.writes,changed⟩]
  | _ => []

/-- The transaction asserts that the state is still the one that was read. -/
def transact (old next : ReviewProjection) (outcome : Except String Unit) :
    Except String ReviewProjection := do
  if self.projection ≠ old then
    throw assertionFailed
  outcome
  return next

def step (self : ReviewSystem) : ReviewEvent → ReviewSystem
  | .call id command read =>
    match self.calls.get? id with
    | some _ => self
    | none => self.putCall id command
      (.of (Review.handle (read.map fun _ => self.projection) command))
  | .reply id response changed =>
    match self.calls.get? id with
    | some ⟨command,.applying old reviewId stored⟩ =>
      { self.putCall id command (.of (Review.accept old reviewId stored response)) with
        applied := self.applied ++ written reviewId stored changed response }
    | _ => self
  | .commit id outcome =>
    match self.calls.get? id with
    | some ⟨command,.persisting old next review⟩ =>
      match self.transact old next outcome with
      | .ok projection =>
        { self.putCall id command (.answered (.ok (.review review))) with projection := projection }
      | .error error => self.putCall id command (.answered (.error error))
    | _ => self

def run (events : List ReviewEvent) : ReviewSystem := runAll step .empty events

end ReviewSystem

end PhenixConductor.Execution

import PhenixConductor.Configuration.Contribution
import Mathlib.Data.List.DropRight
import Mathlib.Data.List.MinMax

/-! # Contracts of pull requests

A contract is text that people write.
-/
namespace PhenixConductor.Repository
open Collections
open Configuration (isWhiteSpace)

inductive RepositoryDiscussionKind
  | conversationComment
  | review
  | reviewComment
  | reviewThread
deriving DecidableEq

/-- The derived `Debug` name. -/
def RepositoryDiscussionKind.debug : RepositoryDiscussionKind → String
  | .conversationComment => "ConversationComment"
  | .review => "Review"
  | .reviewComment => "ReviewComment"
  | .reviewThread => "ReviewThread"

structure RepositoryFinding where
  sourceId : ℕ
  kind : RepositoryDiscussionKind
  body : String
  blocking : Bool
deriving DecidableEq

/-! ### Text -/

/-- Text as its characters. -/
abbrev Text := List Char

namespace Text

def trimStart (text : Text) : Text := text.dropWhile isWhiteSpace

def trimEnd (text : Text) : Text := text.rdropWhile isWhiteSpace

def trim (text : Text) : Text := text.trimStart.trimEnd

/-- The text before the first place where the pattern stands, and the text from there on. -/
def find : Text → Text → Option (Text × Text)
  | [], pattern => if pattern = [] then some ([],[]) else none
  | c :: text, pattern =>
    if pattern.isPrefixOf (c :: text) then some ([],c :: text)
    else (find text pattern).map fun (before,rest) => (c :: before,rest)

def stripPrefix (text start : Text) : Option Text :=
  if start.isPrefixOf text then some (text.drop start.length) else none

/-- `str::lines`: a line ends at a line feed, with the carriage return before it, if any; an empty
last line is none. -/
def lines (text : Text) : List Text :=
  let pieces := text.splitOn '\n'
  (pieces.dropLast.map fun piece => if piece.getLast? = some '\r' then piece.dropLast else piece) ++
    pieces.getLast?.toList.filter (· ≠ [])

def splitWhitespace (text : Text) : List Text :=
  (text.splitOnP isWhiteSpace).filter (· ≠ [])

def join (separator : Text) (pieces : List Text) : Text := separator.intercalate pieces

end Text

/-! ### The checklist -/

def checklistItem (line : Text) : Option (Bool × Text) :=
  let trimmed := line.trimStart
  match trimmed.stripPrefix "- [x] ".toList with
  | some rest => some (true,rest.trim)
  | none => (trimmed.stripPrefix "- [ ] ".toList).map fun rest => (false,rest.trim)

section Evidence
variable (evidence : BTreeMap String Bool)

def hasStaleCheckedClaim (contract : Text) : Bool :=
  contract.lines.any fun line =>
    (checklistItem line).any fun (checked,item) =>
      checked && (evidence.get? (.ofList item)).any (! ·)

/-- The marker is looked for in the whole line, a checked one first. -/
def reconcileLine (line : Text) : Text :=
  match checklistItem line with
  | none => line
  | some (_,item) =>
    match evidence.get? (.ofList item) with
    | none => line
    | some proven =>
      match (line.find "[x]".toList).or (line.find "[ ]".toList) with
      | none => line
      | some (before,marker) =>
        before ++ (if proven then "[x]" else "[ ]").toList ++ marker.drop 3

def reconcileChecklist (contract : Text) : Text :=
  Text.join ['\n'] (contract.lines.map (reconcileLine evidence))

end Evidence

/-! ### The managed blocks -/

def findingsStart : Text := "<!-- repository-worker:findings:start -->".toList
def findingsEnd : Text := "<!-- repository-worker:findings:end -->".toList
def traceStart : Text := "<!-- repository-worker:traceability:start -->".toList
def traceEnd : Text := "<!-- repository-worker:traceability:end -->".toList

def stripManagedBlock (contract start finish : Text) : Text :=
  match contract.find start with
  | none => contract
  | some (before,block) =>
    match block.find finish with
    | none => contract
    | some (_,rest) =>
      let suffix := (rest.drop finish.length).dropWhile (· ∈ ['\r','\n'])
      before.trimEnd ++ if suffix = [] then [] else '\n' :: suffix

def findingLine (finding : RepositoryFinding) : Text :=
  "- [ ] ".toList ++ finding.kind.debug.toList ++ " #".toList ++ (toString finding.sourceId).toList ++
    ": ".toList ++ Text.join [' '] (Text.splitWhitespace finding.body.toList) ++ ['\n']

def findingsBlock (findings : List RepositoryFinding) : Text :=
  if findings = [] then []
  else "\n\n".toList ++ findingsStart ++ "\n## Repository findings\n\n".toList ++
    findings.flatMap findingLine ++ findingsEnd

def traceBlock (issues : List ℕ) : Text :=
  if issues = [] then []
  else "\n\n".toList ++ traceStart ++ "\n## Issue traceability\n\nAddresses: ".toList ++
    Text.join ", ".toList (issues.map fun number => '#' :: (toString number).toList) ++ ['\n'] ++
    traceEnd

def reconcileContract (contract : Text) (evidence : BTreeMap String Bool)
    (findings : List RepositoryFinding) (issues : List ℕ) : Text :=
  let contract := stripManagedBlock contract findingsStart findingsEnd
  let contract := stripManagedBlock contract traceStart traceEnd
  reconcileChecklist evidence contract.trimEnd ++ findingsBlock findings ++ traceBlock issues

end PhenixConductor.Repository

/-! ## The work queue of a repository

The queue is rebuilt from the evidence about all pull requests and issues. One open pull request
owns each semantic key; the next work is the most urgent owner whose dependencies are merged.
-/
namespace PhenixConductor.Repository
open Collections

inductive RepositoryPullRequestState
  | open
  | merged
  | closed
deriving DecidableEq

inductive RepositoryCheckState
  | absent
  | pending
  | success
  | failure
  | actionRequired
  | cancelled
  | skipped
deriving DecidableEq

def RepositoryCheckState.isFailure : RepositoryCheckState → Bool
  | .failure | .actionRequired | .cancelled | .skipped => true
  | _ => false

structure RepositoryValidation where
  source : RepositoryCheckState
  rust : RepositoryCheckState
  product : RepositoryCheckState
  integrationSystem : RepositoryCheckState
  maintenance : RepositoryCheckState
  maintenanceAutofix : RepositoryCheckState

namespace RepositoryValidation

def states (self : RepositoryValidation) : List RepositoryCheckState :=
  [self.source,self.rust,self.product,self.integrationSystem,self.maintenance,
    self.maintenanceAutofix]

def allGreen (self : RepositoryValidation) : Bool := self.states.all (· = .success)

def hasFailure (self : RepositoryValidation) : Bool :=
  self.states.any RepositoryCheckState.isFailure

end RepositoryValidation

structure RepositoryChecklistEvidence where
  item : String
  proven : Bool

structure RepositoryDiscussionEvidence where
  id : ℕ
  kind : RepositoryDiscussionKind
  body : String
  substantive : Bool
  blocking : Bool
  resolved : Bool

structure RepositoryIssueEvidence where
  number : ℕ
  semanticKey : String
  isOpen : Bool

structure RepositoryPullRequestEvidence where
  number : ℕ
  semanticKey : String
  queueOrder : ℕ
  state : RepositoryPullRequestState
  draft : Bool
  headSha : String
  baseSha : String
  baseIsCurrent : Bool
  dependencies : BTreeSet ℕ
  contractMarkdown : String
  checklistEvidence : List RepositoryChecklistEvidence
  discussions : List RepositoryDiscussionEvidence
  missingRegression : Bool
  missingSpecOrInvariant : Bool
  validation : RepositoryValidation

structure RepositoryWorkSnapshot where
  pullRequests : List RepositoryPullRequestEvidence
  issues : List RepositoryIssueEvidence

structure RepositoryIssueCluster where
  semanticKey : String
  issues : List ℕ
  addressedBy : Option ℕ

inductive RepositoryWorkPriority
  | brokenValidationOrReview
  | staleOrIncomplete
  | missingContractEvidence
  | dependencyBlocking
  | nextReady
deriving DecidableEq

/-- The place in the derived order. -/
def RepositoryWorkPriority.rank : RepositoryWorkPriority → ℕ
  | .brokenValidationOrReview => 0
  | .staleOrIncomplete => 1
  | .missingContractEvidence => 2
  | .dependencyBlocking => 3
  | .nextReady => 4

inductive RepositorySelectionReason
  | brokenValidation
  | blockingFinding
  | staleOrIncomplete
  | missingContractEvidence
  | dependencyBlocking
  | nextReady
deriving DecidableEq

structure ReconstructedPullRequest where
  number : ℕ
  semanticKey : String
  queueOrder : ℕ
  state : RepositoryPullRequestState
  draft : Bool
  headSha : String
  baseSha : String
  reconciledContract : String
  findings : List RepositoryFinding
  issueTraceability : List ℕ
  dependencies : BTreeSet ℕ
  dependenciesSatisfied : Bool
  duplicateOf : Option ℕ
  contractComplete : Bool
  greenBoundary : Bool
  staleClaims : Bool
  missingContractEvidence : Bool
  brokenValidation : Bool
  priority : RepositoryWorkPriority

structure RepositoryWorkSelection where
  prNumber : ℕ
  reason : RepositorySelectionReason
deriving DecidableEq

structure RepositoryWorkerQueue where
  pullRequests : BTreeMap ℕ ReconstructedPullRequest
  issueClusters : List RepositoryIssueCluster

/-! ### The passes over the evidence -/

def normalizeFindings (discussions : List RepositoryDiscussionEvidence) :
    List RepositoryFinding :=
  (discussions.filter fun discussion => discussion.substantive && !discussion.resolved).map
    fun discussion => ⟨discussion.id,discussion.kind,discussion.body,discussion.blocking⟩

/-- The base of a merged pull request counts as current. -/
def rawGreenBoundary (pr : RepositoryPullRequestEvidence) : Bool :=
  pr.state ≠ .closed && !pr.draft && (pr.state = .merged || pr.baseIsCurrent) &&
    !pr.missingRegression && !pr.missingSpecOrInvariant && pr.checklistEvidence.length ≠ 0 &&
    pr.checklistEvidence.all (·.proven) && normalizeFindings pr.discussions = [] &&
    pr.validation.allGreen

/-- What owners of a key are compared by. -/
def RepositoryPullRequestEvidence.candidate (pr : RepositoryPullRequestEvidence) : ℕ ×ₗ ℕ :=
  toLex (pr.queueOrder,pr.number)

def addOwner (owners : BTreeMap String (ℕ ×ₗ ℕ)) (pr : RepositoryPullRequestEvidence) :
    BTreeMap String (ℕ ×ₗ ℕ) :=
  match owners.get? pr.semanticKey with
  | some current =>
    if current ≤ pr.candidate then owners else owners.insert pr.semanticKey pr.candidate
  | none => owners.insert pr.semanticKey pr.candidate

def openPullRequests (prs : List RepositoryPullRequestEvidence) :
    List RepositoryPullRequestEvidence := prs.filter (·.state = .open)

def activeSemanticOwners (prs : List RepositoryPullRequestEvidence) : BTreeMap String ℕ :=
  ((openPullRequests prs).foldl addOwner .empty).mapVal fun owner => (ofLex owner).2

def addIssue (clusters : BTreeMap String (List ℕ)) (issue : RepositoryIssueEvidence) :
    BTreeMap String (List ℕ) :=
  clusters.insert issue.semanticKey
    ((clusters.get? issue.semanticKey).getD [] ++ [issue.number])

/-- `sort_unstable` of numbers -/
def sortNumbers (numbers : List ℕ) : List ℕ := sortByKey (fun n => n) numbers

def aggregateIssues (issues : List RepositoryIssueEvidence) (owners : BTreeMap String ℕ) :
    List RepositoryIssueCluster :=
  let clusters := (issues.filter (·.isOpen)).foldl addIssue .empty
  clusters.toList.map fun (semanticKey,numbers) =>
    ⟨semanticKey,sortNumbers numbers,owners.get? semanticKey⟩

section Reconstruct
variable (snapshot : RepositoryWorkSnapshot)

def greenBoundaries : BTreeMap ℕ Bool :=
  .ofList (snapshot.pullRequests.map fun pr => (pr.number,rawGreenBoundary pr))

def dependencyBlockers : BTreeSet ℕ :=
  .collect ((openPullRequests snapshot.pullRequests).flatMap (·.dependencies.keys))

/-- What the queue has about one pull request. -/
def reconstructPullRequest (pr : RepositoryPullRequestEvidence) : ReconstructedPullRequest :=
  let findings := normalizeFindings pr.discussions
  let blockingFinding := findings.any (·.blocking)
  let evidence := BTreeMap.ofList (pr.checklistEvidence.map fun item => (item.item,item.proven))
  let staleClaims := hasStaleCheckedClaim evidence pr.contractMarkdown.toList
  let issueTraceability := sortNumbers ((snapshot.issues.filter fun issue =>
    issue.isOpen && issue.semanticKey = pr.semanticKey).map (·.number))
  let checklistComplete := pr.checklistEvidence.length ≠ 0 && pr.checklistEvidence.all (·.proven)
  let contractComplete := checklistComplete && !pr.missingRegression &&
    !pr.missingSpecOrInvariant && findings = [] && !pr.draft && pr.baseIsCurrent
  let brokenValidation := pr.validation.hasFailure
  let missingContractEvidence := pr.missingRegression || pr.missingSpecOrInvariant
  { number := pr.number
    semanticKey := pr.semanticKey
    queueOrder := pr.queueOrder
    state := pr.state
    draft := pr.draft
    headSha := pr.headSha
    baseSha := pr.baseSha
    reconciledContract := .ofList
      (reconcileContract pr.contractMarkdown.toList evidence findings issueTraceability)
    findings := findings
    issueTraceability := issueTraceability
    dependencies := pr.dependencies
    dependenciesSatisfied := pr.dependencies.keys.all fun dependency =>
      snapshot.pullRequests.any fun candidate => candidate.number = dependency &&
        candidate.state = .merged && ((greenBoundaries snapshot).get? dependency).getD false
    duplicateOf := ((activeSemanticOwners snapshot.pullRequests).get? pr.semanticKey).filter
      (· ≠ pr.number)
    contractComplete := contractComplete
    greenBoundary := pr.state ≠ .closed && contractComplete && pr.validation.allGreen
    staleClaims := staleClaims
    missingContractEvidence := missingContractEvidence
    brokenValidation := brokenValidation
    priority :=
      if brokenValidation || blockingFinding then .brokenValidationOrReview
      else if staleClaims || !checklistComplete || findings ≠ [] || pr.draft ||
        !pr.baseIsCurrent then .staleOrIncomplete
      else if missingContractEvidence then .missingContractEvidence
      else if pr.number ∈ (dependencyBlockers snapshot).keys then .dependencyBlocking
      else .nextReady }

def RepositoryWorkerQueue.reconstruct : RepositoryWorkerQueue where
  pullRequests := .ofList (snapshot.pullRequests.map fun pr =>
    (pr.number,reconstructPullRequest snapshot pr))
  issueClusters := aggregateIssues snapshot.issues (activeSemanticOwners snapshot.pullRequests)

end Reconstruct

def selectionReason (pr : ReconstructedPullRequest) : RepositorySelectionReason :=
  match pr.priority with
  | .brokenValidationOrReview =>
    if pr.brokenValidation then .brokenValidation else .blockingFinding
  | .staleOrIncomplete => .staleOrIncomplete
  | .missingContractEvidence => .missingContractEvidence
  | .dependencyBlocking => .dependencyBlocking
  | .nextReady => .nextReady

/-- What the next work is selected by. -/
def ReconstructedPullRequest.selectionKey (pr : ReconstructedPullRequest) : ℕ ×ₗ ℕ ×ₗ ℕ :=
  toLex (pr.priority.rank,toLex (pr.queueOrder,pr.number))

def ReconstructedPullRequest.selectable (pr : ReconstructedPullRequest) : Bool :=
  pr.state = .open && pr.duplicateOf.isNone && pr.dependenciesSatisfied

namespace RepositoryWorkerQueue

def pullRequest (self : RepositoryWorkerQueue) (number : ℕ) : Option ReconstructedPullRequest :=
  self.pullRequests.get? number

def selectWork (self : RepositoryWorkerQueue) : Option RepositoryWorkSelection :=
  ((self.pullRequests.values.filter (·.selectable)).argmin (·.selectionKey)).map fun pr =>
    ⟨pr.number,selectionReason pr⟩

end RepositoryWorkerQueue

end PhenixConductor.Repository

import PhenixConductor.Execution.Review

/-! # What a call leaves of the reviews

A commit changes one review: it adds a pending one or decides a pending one.
-/
namespace PhenixConductor.Execution
open Collections ReviewProjection Review

/-- A pending review may be decided, and any other one stays. -/
def StoredReview.Becomes (stored current : StoredReview) : Prop :=
  current = stored ∨ stored.record.state = .pending ∧ current.record.state ≠ .pending

theorem StoredReview.Becomes.trans {a b c : StoredReview} (hab : a.Becomes b)
    (hbc : b.Becomes c) : a.Becomes c := by
  rcases hab with rfl | ⟨hpending,hdecided⟩
  · exact hbc
  · rcases hbc with rfl | ⟨hb,-⟩
    · exact .inr ⟨hpending,hdecided⟩
    · exact absurd hb hdecided

namespace ReviewProjection
variable (self : ReviewProjection)

/-- No review is lost, and a decided one stays as it is. -/
def Follows (next : ReviewProjection) : Prop := ∀ id stored, self.reviews.get? id = some stored →
  ∃ current, next.reviews.get? id = some current ∧ stored.Becomes current

/-- Every review stands under its own name. -/
def Named (now : ReviewProjection) : Prop :=
  ∀ id stored, now.reviews.get? id = some stored → stored.record.id = id

/-- The number of decisions, as the review itself says. -/
def revision (id : String) : ℕ := ((self.reviews.get? id).map (·.record.revision.val)).getD 0

variable {self}

theorem Follows.refl : self.Follows self := fun _ stored h => ⟨stored,h,.inl rfl⟩

@[simp] theorem get?_put (id other : String) (stored : StoredReview) :
    (self.put id stored).reviews.get? other =
      if other = id then some stored else self.reviews.get? other :=
  BTreeMap.get?_insert _ _ _ _

theorem follows_put {id : String} {stored : StoredReview}
    (h : ∀ before, self.reviews.get? id = some before → before.Becomes stored) :
    self.Follows (self.put id stored) := by
  intro other before hbefore
  by_cases hother : other = id
  · subst other
    exact ⟨stored,by simp,h before hbefore⟩
  · exact ⟨before,by simpa [hother] using hbefore,.inl rfl⟩

theorem revision_put (id other : String) (stored : StoredReview) :
    (self.put id stored).revision other =
      if other = id then stored.record.revision.val else self.revision other := by
  unfold revision
  rw [get?_put]
  split_ifs <;> rfl

end ReviewProjection

/-- What a call changes in the state that it has read, and the review that it is answered with. -/
inductive ReviewChange (old : ReviewProjection) :
    ExecutionReviewCommand → ReviewProjection → ReviewRecord → Prop
  | prepared {id sessionId executionId : String} {files : List PreparedReviewFile}
      {review : ReviewRecord} (fresh : old.reviews.get? id = none) (identity : review.id = id)
      (revision : review.revision.val = 0) (pending : review.state = .pending) :
      ReviewChange old (.prepare id sessionId executionId files) (old.put id ⟨review,files⟩) review
  | decided {input : ReviewDecisionInput} {stored : StoredReview} {review : ReviewRecord}
      (found : old.reviews.get? input.reviewId = some stored)
      (pending : stored.record.state = .pending) (identity : review.id = stored.record.id)
      (revision : review.revision.val = stored.record.revision.val + 1)
      (closed : review.state ≠ .pending) :
      ReviewChange old (.decide input) (old.put input.reviewId ⟨review,[]⟩) review

variable {old next : ReviewProjection} {command : ExecutionReviewCommand} {review : ReviewRecord}

section
variable (h : ReviewChange old command next review)
include h

theorem ReviewChange.follows : old.Follows next := by
  cases h with
  | prepared fresh =>
    apply follows_put
    intro before hbefore
    cases fresh.symm.trans hbefore
  | decided found pending _ _ closed =>
    apply follows_put
    intro before hbefore
    cases found.symm.trans hbefore
    exact .inr ⟨pending,closed⟩

/-- The review that a change leaves under a name is the changed one, or it was there before. -/
theorem ReviewChange.get? (hnamed : old.Named)
    {id : String} {stored : StoredReview} (hget : next.reviews.get? id = some stored) :
    stored.record = review ∧ review.id = id ∨ old.reviews.get? id = some stored := by
  cases h with
  | prepared _ identity =>
    rw [get?_put] at hget
    split_ifs at hget with hid
    · cases hget
      exact .inl ⟨rfl,identity.trans hid.symm⟩
    · exact .inr hget
  | decided found _ identity =>
    rw [get?_put] at hget
    split_ifs at hget with hid
    · cases hget
      exact .inl ⟨rfl,(identity.trans (hnamed _ _ found)).trans hid.symm⟩
    · exact .inr hget

theorem ReviewChange.found (hnamed : old.Named) :
    ∃ stored, next.reviews.get? review.id = some stored ∧ stored.record = review := by
  cases h with
  | prepared _ identity => exact ⟨_,by rw [get?_put, if_pos identity],rfl⟩
  | decided found _ identity =>
    have hid := identity.trans (hnamed _ _ found)
    exact ⟨_,by rw [get?_put, if_pos hid],rfl⟩

theorem ReviewChange.named (hnamed : old.Named) :
    next.Named := by
  intro id stored hget
  rcases h.get? hnamed hget with ⟨hrecord,hid⟩ | hold
  · rw [hrecord, hid]
  · exact hnamed id stored hold

end

/-- The call is a decision on the review, and it is answered with it. -/
def ReviewCall.decides (call : ReviewCall) (reviewId : String) : Bool :=
  match call.command, call.progress with
  | .decide input, .answered (.ok (.review _)) => input.reviewId = reviewId
  | _, _ => false

namespace ReviewSystem
variable (self : ReviewSystem)

/-- The batch of the review has been answered as written. -/
def Written (reviewId : String) : Prop := ∃ batch ∈ self.applied, batch.reviewId = reviewId

/-- The number of decisions that have been answered. -/
def decisions (reviewId : String) : ℕ :=
  (self.calls.values.filter (·.decides reviewId)).length

/-- What is true of a call at any time until it is answered. -/
inductive Stands : ExecutionReviewCommand → ReviewProgress → Prop
  | answered {command : ExecutionReviewCommand} (result : Except String ExecutionReviewResponse) :
      Stands command (.answered result)
  | applying {old : ReviewProjection} {reviewId : String} {stored current : StoredReview}
      (found : old.reviews.get? reviewId = some stored)
      (pending : stored.record.state = .pending)
      (now : self.projection.reviews.get? reviewId = some current)
      (becomes : stored.Becomes current) :
      Stands (.decide ⟨reviewId,stored.record.revision,.accept⟩) (.applying old reviewId stored)
  | persisting {command : ExecutionReviewCommand} {old next : ReviewProjection}
      {review : ReviewRecord} (change : ReviewChange old command next review)
      (accepted : ∀ input, command = .decide input → review.state = .accepted →
        self.Written input.reviewId) :
      Stands command (.persisting old next review)

variable {self} {command : ExecutionReviewCommand} {progress : ReviewProgress}

theorem Stands.mono {next : ReviewSystem} (hprojection : self.projection.Follows next.projection)
    (hwritten : ∀ reviewId, self.Written reviewId → next.Written reviewId)
    (h : self.Stands command progress) : next.Stands command progress := by
  cases h with
  | answered result => exact .answered result
  | applying found pending now becomes =>
    obtain ⟨later,hlater,hbecomes⟩ := hprojection _ _ now
    exact .applying found pending hlater (becomes.trans hbecomes)
  | persisting change accepted =>
    exact .persisting change fun input hcommand hstate =>
      hwritten _ (accepted input hcommand hstate)

end ReviewSystem

section Handle
variable {read : Except String ReviewProjection} {progress : ReviewProgress}

theorem nextRevision_eq_ok {revision next : U64} (h : nextRevision revision = .ok next) :
    next.val = revision.val + 1 := by
  unfold nextRevision at h
  split_ifs at h
  cases h
  rfl

theorem prepare_eq_ok {id sessionId executionId : String} {files : List PreparedReviewFile}
    (h : Review.prepare read id sessionId executionId files = .ok progress) :
    (∃ response, progress = .answered (.ok response)) ∨
      ∃ state review, read = .ok state ∧ review.state = .pending ∧
        ReviewChange state (.prepare id sessionId executionId files)
          (state.put id ⟨review,files⟩) review ∧
        progress = .persisting state (state.put id ⟨review,files⟩) review := by
  obtain ⟨⟨⟩,-,h⟩ := bind_eq_ok.mp h
  obtain ⟨state,hread,h⟩ := bind_eq_ok.mp h
  cases hget : state.reviews.get? id with
  | none =>
    simp only [hget] at h
    cases h
    exact .inr ⟨state,_,hread,rfl,.prepared hget rfl rfl rfl,rfl⟩
  | some existing =>
    simp only [hget] at h
    split_ifs at h
    · cases h
      exact .inl ⟨_,rfl⟩
    · cases h
      exact .inl ⟨_,rfl⟩

/-- How a decision goes on after its read. -/
inductive DecisionStep (state : ReviewProjection) (input : ReviewDecisionInput) :
    ReviewProgress → Prop
  | refused (message : String) (review : Option ReviewRecord) :
      DecisionStep state input (.answered (.ok (.conflict message review)))
  | rejecting {next : ReviewProjection} {review : ReviewRecord}
      (change : ReviewChange state (.decide input) next review)
      (rejected : review.state = .rejected) :
      DecisionStep state input (.persisting state next review)
  | accepting {stored : StoredReview} (found : state.reviews.get? input.reviewId = some stored)
      (pending : stored.record.state = .pending)
      (current : input.expectedRevision = stored.record.revision)
      (accept : input.decision = .accept) :
      DecisionStep state input (.applying state input.reviewId stored)

theorem decide_eq_ok {input : ReviewDecisionInput} (h : Review.decide read input = .ok progress) :
    ∃ state, read = .ok state ∧ DecisionStep state input progress := by
  obtain ⟨state,hread,h⟩ := bind_eq_ok.mp h
  refine ⟨state,hread,?_⟩
  cases hget : state.reviews.get? input.reviewId with
  | none =>
    simp only [hget] at h
    cases h
    exact .refused _ _
  | some stored =>
    simp only [hget] at h
    split_ifs at h with hrevision hpending
    · cases h
      exact .refused _ _
    · cases h
      exact .refused _ _
    · cases hdecision : input.decision with
      | accept =>
        simp only [hdecision] at h
        cases h
        exact .accepting hget (not_not.mp hpending) (not_not.mp hrevision).symm hdecision
      | reject =>
        simp only [hdecision] at h
        obtain ⟨revision,hnext,h⟩ := bind_eq_ok.mp h
        cases h
        exact .rejecting (.decided hget (not_not.mp hpending) rfl (nextRevision_eq_ok hnext)
          (by simp)) rfl

/-- An accept that goes on after the reply commits a decision, which is to accept only if the
batch is written. -/
theorem accept_eq_ok {old : ReviewProjection} (input : ReviewDecisionInput) {stored : StoredReview}
    {reply : Except String WorkspaceResponse}
    (hfound : old.reviews.get? input.reviewId = some stored)
    (hpending : stored.record.state = .pending)
    (h : Review.accept old input.reviewId stored reply = .ok progress) :
    ∃ next review, progress = .persisting old next review ∧
      ReviewChange old (.decide input) next review ∧
      (review.state = .accepted → reply = .ok .writtenBatch) := by
  obtain ⟨response,hreply,h⟩ := bind_eq_ok.mp h
  obtain ⟨revision,hrevision,h⟩ := bind_eq_ok.mp h
  obtain ⟨review,hreview,h⟩ := bind_eq_ok.mp h
  cases h
  have hnext := nextRevision_eq_ok hrevision
  cases response with
  | writtenBatch =>
    cases hreview
    exact ⟨_,_,rfl,.decided hfound hpending rfl hnext (by simp),fun _ => hreply⟩
  | versionConflict conflicts =>
    cases hreview
    exact ⟨_,_,rfl,.decided hfound hpending rfl hnext (by simp),fun h => by cases h⟩
  | other printed => cases hreview

end Handle

namespace ReviewSystem
variable {self : ReviewSystem} {command : ExecutionReviewCommand}

theorem stands_handle (read : Except String Unit) (command : ExecutionReviewCommand) :
    self.Stands command (.of (handle (read.map fun _ => self.projection) command)) := by
  cases hhandle : handle (read.map fun _ => self.projection) command with
  | error error => exact .answered _
  | ok progress =>
    cases command with
    | prepare id sessionId executionId files =>
      rcases prepare_eq_ok hhandle with ⟨response,rfl⟩ | ⟨state,review,hread,hpending,hchange,rfl⟩
      · exact .answered _
      · exact .persisting hchange fun input hcommand => by cases hcommand
    | get reviewId =>
      obtain ⟨state,-,h⟩ := bind_eq_ok.mp hhandle
      cases h
      exact .answered _
    | listPending =>
      obtain ⟨state,-,h⟩ := bind_eq_ok.mp hhandle
      cases h
      exact .answered _
    | decide input =>
      obtain ⟨state,hread,hstep⟩ := decide_eq_ok hhandle
      obtain ⟨-,-,rfl⟩ := map_eq_ok.mp hread
      cases hstep with
      | refused message review => exact .answered _
      | rejecting change rejected =>
        exact .persisting change fun _ _ haccepted => by cases rejected.symm.trans haccepted
      | accepting found pending current accept =>
        obtain ⟨reviewId,expectedRevision,decision⟩ := input
        cases current
        cases accept
        exact .applying found pending found (.inl rfl)

theorem decides_handle (read : Except String ReviewProjection) (command : ExecutionReviewCommand)
    (reviewId : String) :
    (ReviewCall.mk command (.of (handle read command))).decides reviewId = false := by
  cases command with
  | prepare | get | listPending => rfl
  | decide input =>
    cases hhandle : handle read (.decide input) with
    | error error => rfl
    | ok progress =>
      obtain ⟨state,-,hstep⟩ := decide_eq_ok hhandle
      cases hstep <;> rfl

end ReviewSystem

end PhenixConductor.Execution

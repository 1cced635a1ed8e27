import PhenixConductor.Execution.ReviewSteps

/-! # Exact application of reviews

The batch of a review is written before the decision is committed, and nothing durable says that
it is about to be.
-/
namespace PhenixConductor.Execution
open Collections
open ReviewSystem (run)

def ReviewState.isDiscarded : ReviewState → Bool
  | .pending | .accepted => false
  | .rejected | .conflicted _ => true

namespace ReviewSystem
variable (self : ReviewSystem)

/-- How often the workspace has changed files for the review. -/
def writes (reviewId : String) : ℕ :=
  (self.applied.filter fun batch => batch.reviewId = reviewId ∧ batch.changed = true).length

/-- The state of the review satisfies a condition. -/
def Has (reviewId : String) (P : ReviewState → Prop) : Prop :=
  ∃ stored, self.projection.reviews.get? reviewId = some stored ∧ P stored.record.state

/-- The batch consists of the prepared files of a review that is pending at the revision of the
accept that gets the reply. -/
def Accepts (batch : AppliedBatch) : ReviewEvent → Prop
  | .reply id _ _ => ∃ progress stored, self.calls.get? id =
      some ⟨.decide ⟨batch.reviewId,stored.record.revision,.accept⟩,progress⟩ ∧
    self.projection.reviews.get? batch.reviewId = some stored ∧
    stored.record.state = .pending ∧ batch.writes = stored.writes
  | .call _ _ _ | .commit _ _ => False

/-- A batch that is written is the first one of a review that is still pending, one that is found
written is of a review that is not discarded, and a review that is discarded has none. -/
structure Exclusive (now : ReviewSystem) (event : ReviewEvent) : Prop where
  rewritten : ∀ id command old reviewId stored, event = .reply id (.ok .writtenBatch) true →
    now.calls.get? id = some ⟨command,.applying old reviewId stored⟩ →
    now.writes reviewId = 0 ∧ now.Has reviewId (· = .pending)
  found : ∀ id command old reviewId stored, event = .reply id (.ok .writtenBatch) false →
    now.calls.get? id = some ⟨command,.applying old reviewId stored⟩ →
    now.Has reviewId (·.isDiscarded = false)
  discarded : ∀ id command next review, event = .commit id (.ok ()) →
    now.calls.get? id = some ⟨command,.persisting now.projection next review⟩ →
    review.state.isDiscarded = true → ¬ now.Written review.id

end ReviewSystem

open ReviewSystem in
/-- The prepared files of a review are written at most once, and only by an accept of it as it is.
A written review is not discarded, an accepted one is written, and a decided one stays as it is and
has counted its decisions. -/
structure ExactReviews (events : List ReviewEvent) : Prop where
  once : ∀ before, before <+: events → ∀ reviewId, (run before).writes reviewId ≤ 1
  only : ∀ before event, before ++ [event] <+: events → ∃ batches,
    (run (before ++ [event])).applied = (run before).applied ++ batches ∧
      ∀ batch ∈ batches, batch.changed = true → (run before).Accepts batch event
  kept : ∀ before, before <+: events → ∀ reviewId stored,
    (run before).projection.reviews.get? reviewId = some stored → (run before).Written reviewId →
    stored.record.state.isDiscarded = false
  accepted : ∀ before, before <+: events → ∀ reviewId stored,
    (run before).projection.reviews.get? reviewId = some stored →
    stored.record.state = .accepted → (run before).Written reviewId
  decided : ∀ before event, before ++ [event] <+: events → ∀ reviewId stored,
    (run before).projection.reviews.get? reviewId = some stored →
    stored.record.state ≠ .pending →
    (run (before ++ [event])).projection.reviews.get? reviewId = some stored
  revision : ∀ before, before <+: events → ∀ reviewId stored,
    (run before).projection.reviews.get? reviewId = some stored →
    stored.record.revision.val = (run before).decisions reviewId

namespace ReviewSystem
variable {self : ReviewSystem} {command : ExecutionReviewCommand}

/-- What holds if the steps are exclusive. -/
structure Sound (now : ReviewSystem) : Prop where
  once : ∀ reviewId, now.writes reviewId ≤ 1
  kept : ∀ reviewId stored, now.projection.reviews.get? reviewId = some stored →
    now.Written reviewId → stored.record.state.isDiscarded = false

theorem sound_empty : empty.Sound where
  once _ := Nat.zero_le _
  kept _ _ h := by cases (BTreeMap.get?_empty _).symm.trans h

theorem run_append (before : List ReviewEvent) (event : ReviewEvent) :
    run (before ++ [event]) = (run before).step event :=
  runAll_append _ _ _ _

variable {next : ReviewSystem} {batch : AppliedBatch}

theorem writes_append (happlied : next.applied = self.applied ++ [batch]) (reviewId : String) :
    next.writes reviewId = self.writes reviewId +
      if batch.reviewId = reviewId ∧ batch.changed = true then 1 else 0 := by
  unfold writes
  rw [happlied]
  by_cases h : batch.reviewId = reviewId ∧ batch.changed = true
  · simp [h]
  · simp [h]

variable {reviewId : String}

theorem written_append (happlied : next.applied = self.applied ++ [batch])
    (h : next.Written reviewId) : self.Written reviewId ∨ batch.reviewId = reviewId := by
  obtain ⟨other,hother,hreview⟩ := h
  rw [happlied, List.mem_append, List.mem_singleton] at hother
  rcases hother with hold | rfl
  · exact .inl ⟨other,hold,hreview⟩
  · exact .inr hreview

/-- A reply writes a batch or none. -/
theorem written_eq (reviewId : String) (stored : StoredReview) (changed : Bool)
    (response : Except String WorkspaceResponse) :
    response = .ok .writtenBatch ∧
        written reviewId stored changed response = [⟨reviewId,stored.writes,changed⟩] ∨
      written reviewId stored changed response = [] := by
  rcases response with error | _ | conflicts | printed
  · exact .inr rfl
  · exact .inl ⟨rfl,rfl⟩
  · exact .inr rfl
  · exact .inr rfl

/-- A reply that writes leaves the reviews as they are and is allowed to. -/
theorem Sound.replied (h : self.Sound) (happlied : next.applied = self.applied ++ [batch])
    (hprojection : next.projection = self.projection)
    (honce : batch.changed = true → self.writes batch.reviewId = 0)
    (hkept : self.Has batch.reviewId (·.isDiscarded = false)) : next.Sound where
  once reviewId := by
    rw [writes_append happlied]
    split_ifs with hbatch
    · obtain ⟨rfl,hchanged⟩ := hbatch
      rw [honce hchanged]
    · exact h.once reviewId
  kept reviewId stored hget hwritten := by
    rw [hprojection] at hget
    rcases written_append happlied hwritten with hbefore | rfl
    · exact h.kept reviewId stored hget hbefore
    · obtain ⟨current,hcurrent,hstate⟩ := hkept
      cases hcurrent.symm.trans hget
      exact hstate

theorem Sound.effect (h : self.Sound) (hkept : self.Kept) {event : ReviewEvent}
    (heffect : self.Effect event next) (hexclusive : self.Exclusive event) : next.Sound := by
  cases heffect with
  | ignored => exact h
  | opened | refused => exact ⟨h.once,h.kept⟩
  | @replied id response changed command old reviewId stored found =>
    rcases written_eq reviewId stored changed response with ⟨rfl,hbatch⟩ | hbatch
    · cases changed with
      | true =>
        obtain ⟨hfirst,current,hget,hpending⟩ := hexclusive.rewritten _ _ _ _ _ rfl found
        exact h.replied rfl rfl (fun _ => hfirst) ⟨current,hget,by rw [hpending]; rfl⟩
      | false =>
        exact h.replied rfl rfl (fun hchanged => by cases hchanged)
          (hexclusive.found _ _ _ _ _ rfl found)
    · rw [hbatch, List.append_nil]
      exact ⟨h.once,h.kept⟩
  | @committed id command projection review found =>
    refine ⟨h.once,fun reviewId stored hget hwritten => ?_⟩
    rcases (hkept.change found).get? hkept.named hget with ⟨hrecord,hid⟩ | hold
    · rw [hrecord]
      by_contra hdiscarded
      rw [Bool.not_eq_false] at hdiscarded
      exact hexclusive.discarded _ _ _ _ rfl found hdiscarded (hid ▸ hwritten)
    · exact h.kept reviewId stored hold hwritten

theorem sound_run {events : List ReviewEvent} (h : Along step Exclusive empty events) :
    (run events).Sound := by
  have hstep : ∀ (now : ReviewSystem) event, now.Kept ∧ now.Sound → now.Exclusive event →
      (now.step event).Kept ∧ (now.step event).Sound :=
    fun now event hnow hexclusive => ⟨hnow.1.effect (now.effect_step event),
      hnow.2.effect hnow.1 (now.effect_step event) hexclusive⟩
  exact (h.invariant hstep ⟨kept_empty,sound_empty⟩).2

/-- A call that gets a reply is an accept of a review that is as the call has read it, or decided. -/
theorem Kept.applying (h : self.Kept) {id : ℕ} {old : ReviewProjection} {stored : StoredReview}
    (hfound : self.calls.get? id = some ⟨command,.applying old reviewId stored⟩) :
    command = .decide ⟨reviewId,stored.record.revision,.accept⟩ ∧
      ∃ current, self.projection.reviews.get? reviewId = some current ∧ stored.Becomes current := by
  cases h.stands _ _ hfound with
  | applying found pending now becomes => exact ⟨rfl,_,now,becomes⟩

/-- Exclusive steps write only for accepts. -/
theorem Exclusive.accepts (h : self.Kept) {event : ReviewEvent} (heffect : self.Effect event next)
    (hexclusive : self.Exclusive event) : ∃ batches, next.applied = self.applied ++ batches ∧
      ∀ batch ∈ batches, batch.changed = true → self.Accepts batch event := by
  cases heffect with
  | ignored | opened | committed | refused =>
    exact ⟨[],(List.append_nil _).symm,fun _ hbatch => absurd hbatch List.not_mem_nil⟩
  | @replied id response changed command old reviewId stored found =>
    refine ⟨_,rfl,fun batch hbatch hchanged => ?_⟩
    rcases written_eq reviewId stored changed response with ⟨rfl,hwritten⟩ | hwritten
    · rw [hwritten, List.mem_singleton] at hbatch
      subst hbatch
      cases hchanged
      obtain ⟨-,current,hget,hpending⟩ := hexclusive.rewritten _ _ _ _ _ rfl found
      obtain ⟨rfl,found',hnow,hbecomes⟩ := h.applying found
      cases hnow.symm.trans hget
      rcases hbecomes with rfl | ⟨-,hdecided⟩
      · exact ⟨_,_,found,hget,hpending,rfl⟩
      · exact absurd hpending hdecided
    · rw [hwritten] at hbatch
      cases hbatch

theorem applied_reply {id : ℕ} {old : ReviewProjection} {stored : StoredReview}
    (hfound : self.calls.get? id = some ⟨command,.applying old reviewId stored⟩) (changed : Bool) :
    (self.step (.reply id (.ok .writtenBatch) changed)).applied =
      self.applied ++ [⟨reviewId,stored.writes,changed⟩] := by
  simp only [step, hfound, written]

theorem projection_reply (id : ℕ) (response : Except String WorkspaceResponse) (changed : Bool) :
    (self.step (.reply id response changed)).projection = self.projection := by
  have heffect := self.effect_step (.reply id response changed)
  generalize self.step (.reply id response changed) = next at heffect
  cases heffect <;> rfl

theorem step_commit {id : ℕ} {next : ReviewProjection} {review : ReviewRecord}
    (hfound : self.calls.get? id = some ⟨command,.persisting self.projection next review⟩) :
    self.step (.commit id (.ok ())) =
      { self.putCall id command (.answered (.ok (.review review))) with projection := next } := by
  simp only [step, hfound, transact, ne_eq, not_true_eq_false, if_false]
  rfl

end ReviewSystem

section Exact
open ReviewSystem
variable {events before : List ReviewEvent} {event : ReviewEvent}

theorem ExactReviews.exclusive (h : ExactReviews events) (hbefore : before ++ [event] <+: events) :
    (run before).Exclusive event where
  rewritten id command old reviewId stored hevent hfound := by
    subst hevent
    have happlied : (run (before ++ [.reply id (.ok .writtenBatch) true])).applied =
        (run before).applied ++ [⟨reviewId,stored.writes,true⟩] := by
      rw [run_append, applied_reply hfound]
    obtain ⟨batches,hbatches,haccepts⟩ := h.only _ _ hbefore
    rw [happlied, List.append_cancel_left_eq] at hbatches
    obtain ⟨_,current,-,hget,hpending,-⟩ :=
      haccepts ⟨reviewId,stored.writes,true⟩ (by simp [← hbatches]) rfl
    have honce := h.once _ hbefore reviewId
    rw [writes_append happlied, if_pos ⟨rfl,rfl⟩] at honce
    exact ⟨by omega,current,hget,hpending⟩
  found id command old reviewId stored hevent hfound := by
    subst hevent
    obtain ⟨-,current,hget,-⟩ := (kept_run before).applying hfound
    refine ⟨current,hget,h.kept _ hbefore reviewId current ?_
      ⟨⟨reviewId,stored.writes,false⟩,?_,rfl⟩⟩
    · rw [run_append, projection_reply, hget]
    · rw [run_append, applied_reply hfound]
      exact List.mem_append_right _ (List.mem_singleton.mpr rfl)
  discarded id command next review hevent hfound hdiscarded hwritten := by
    subst hevent
    obtain ⟨stored,hget,hrecord⟩ := ((kept_run before).change hfound).found (kept_run before).named
    have hkept := h.kept _ hbefore review.id stored
    rw [run_append, step_commit hfound, hrecord, hdiscarded] at hkept
    cases hkept hget hwritten

theorem exactReviews_iff (events : List ReviewEvent) :
    ExactReviews events ↔ Along step Exclusive empty events := by
  constructor
  · intro h
    exact along_iff.mpr fun before event hbefore => h.exclusive hbefore
  · intro h
    have hsound : ∀ before, before <+: events → (run before).Sound := by
      rintro before ⟨later,rfl⟩
      exact sound_run (along_append.mp h).1
    constructor
    · exact fun before hbefore => (hsound before hbefore).once
    · intro before event hbefore
      rw [run_append]
      exact (along_iff.mp h before event hbefore).accepts (kept_run before) (ReviewSystem.effect_step event)
    · exact fun before hbefore => (hsound before hbefore).kept
    · exact fun before _ => (kept_run before).accepted
    · intro before event _ reviewId stored hget hdecided
      rw [run_append]
      obtain ⟨current,hcurrent,rfl | ⟨hpending,-⟩⟩ :=
        (kept_run before).follows (ReviewSystem.effect_step event) reviewId stored hget
      · exact hcurrent
      · exact absurd hpending hdecided
    · intro before _ reviewId stored hget
      rw [← (kept_run before).revision, ReviewProjection.revision, hget]
      rfl

end Exact

def preparedFile : PreparedReviewFile := ⟨"file:///workspace/a.txt","a.txt",.absent,"new",[]⟩

/-- The commit of an accept fails after the write, and the review is rejected then. -/
def unrecorded : List ReviewEvent :=
  [.call 0 (.prepare "review-1" "session-1" "execution-1" [preparedFile]) (.ok ()),
    .commit 0 (.ok ()),
    .call 1 (.decide ⟨"review-1",0,.accept⟩) (.ok ()),
    .reply 1 (.ok .writtenBatch) true,
    .commit 1 (.error "disk is full"),
    .call 2 (.decide ⟨"review-1",0,.reject⟩) (.ok ()),
    .commit 2 (.ok ())]

theorem rejected_written : ¬ ExactReviews unrecorded := by
  intro h
  have hkept := h.kept unrecorded (List.prefix_refl _) "review-1"
  have hrejected : ((run unrecorded).projection.reviews.get? "review-1").map
      (·.record.state) = some .rejected := by decide +kernel
  have happlied : (run unrecorded).applied.map (·.reviewId) = ["review-1"] := by
    decide +kernel
  obtain ⟨stored,hget,hstate⟩ := Option.map_eq_some_iff.mp hrejected
  have hwritten : (run unrecorded).Written "review-1" :=
    List.mem_map.mp (happlied ▸ List.mem_singleton.mpr rfl)
  have hdiscarded := hkept stored hget hwritten
  rw [hstate] at hdiscarded
  cases hdiscarded

end PhenixConductor.Execution

import PhenixConductor.Execution.Budget

/-! # Session updates of a client

The updates of a session carry sequence numbers.
-/
namespace PhenixConductor.Client
open Collections
open Execution (U64)

inductive ClientError
  | outOfOrderUpdate (sessionId : String) (expected received : U64)
  | updateQueueFull
  | transport (message : String)
  | protocol (message : String)
deriving DecidableEq

/-- A notification with what its meta object says under `phenix.sequence`. -/
structure SessionNotification (A : Type) where
  sessionId : String
  sequence : Option U64
  update : A

structure OrderedUpdates where
  nextSequence : BTreeMap String U64

namespace OrderedUpdates

def default : OrderedUpdates := ⟨.empty⟩

/-- The entry of a session, which is zero where there is none. -/
def expected (self : OrderedUpdates) (sessionId : String) : U64 :=
  (self.nextSequence.get? sessionId).getD 0

/-- The entry is inserted before the check. -/
def accept (self : OrderedUpdates) (sessionId : String) (sequence : U64) :
    Except ClientError Unit × OrderedUpdates :=
  let entered : OrderedUpdates := ⟨self.nextSequence.insert sessionId (self.expected sessionId)⟩
  if sequence ≠ self.expected sessionId then
    (.error (.outOfOrderUpdate sessionId (self.expected sessionId) sequence),entered)
  else
    (.ok (),⟨entered.nextSequence.insert sessionId (saturatingAdd (self.expected sessionId) 1)⟩)

def resumeAt (self : OrderedUpdates) (sessionId : String) (nextSequence : U64) : OrderedUpdates :=
  ⟨self.nextSequence.insert sessionId nextSequence⟩

variable {self : OrderedUpdates} {sessionId : String} {sequence : U64}

theorem expected_accept_of_ne (h : sequence ≠ self.expected sessionId) (k : String) :
    (self.accept sessionId sequence).2.expected k = self.expected k := by
  unfold accept
  rw [if_pos h]
  by_cases hk : k = sessionId
  · subst k
    simp [expected]
  · simp [expected,BTreeMap.get?_insert_of_ne _ _ hk]

theorem expected_accept_self (h : sequence = self.expected sessionId) :
    (self.accept sessionId sequence).2.expected sessionId = saturatingAdd sequence 1 := by
  unfold accept
  rw [h]
  simp [expected]

theorem expected_accept_other {k : String} (hk : k ≠ sessionId) :
    (self.accept sessionId sequence).2.expected k = self.expected k := by
  unfold accept
  split_ifs <;> simp [expected,BTreeMap.get?_insert_of_ne _ _ hk]

theorem expected_resumeAt (self : OrderedUpdates) (sessionId k : String) (nextSequence : U64) :
    (self.resumeAt sessionId nextSequence).expected k =
      if k = sessionId then nextSequence else self.expected k := by
  unfold resumeAt expected
  rw [BTreeMap.get?_insert]
  split_ifs <;> rfl

end OrderedUpdates

/-- What the updates of the sessions went through, in order. -/
inductive Entry
  | resumed (sessionId : String)
  | delivered (sessionId : String) (sequence : U64)

/-- The updates with the queue to the host; `received` is what the host has taken from it and
`entries` is only for the record. -/
structure SessionUpdates (A : Type) where
  ordered : OrderedUpdates
  capacity : Option ℕ
  queue : List (SessionNotification A)
  connected : Bool
  received : List (SessionNotification A)
  entries : List Entry

namespace SessionUpdates
variable {A : Type}

/-- Updates with an empty queue, whose capacity may be bounded. -/
def start (capacity : Option ℕ) : SessionUpdates A := ⟨.default,capacity,[],true,[],[]⟩

def channel : SessionUpdates A := start none

def bounded (capacity : ℕ) : SessionUpdates A := start (some capacity)

def full (self : SessionUpdates A) : Bool := self.capacity.any (· ≤ self.queue.length)

/-- The entry of a delivery, if the notification has a number. -/
def delivery (notification : SessionNotification A) : List Entry :=
  notification.sequence.toList.map (.delivered notification.sessionId)

/-- `send` and `try_send` -/
def send (self : SessionUpdates A) (notification : SessionNotification A) :
    Except ClientError Unit × SessionUpdates A :=
  if !self.connected then
    (.error (.transport "ACP update receiver disconnected"),self)
  else if self.full then (.error .updateQueueFull,self)
  else (.ok (),{ self with
    queue := self.queue ++ [notification]
    entries := self.entries ++ delivery notification })

/-- The check of the sequence comes first. -/
def receive (self : SessionUpdates A) (notification : SessionNotification A) :
    Except ClientError Unit × SessionUpdates A :=
  match notification.sequence with
  | none => self.send notification
  | some sequence =>
    let accepted := self.ordered.accept notification.sessionId sequence
    match accepted.1 with
    | .error error => (.error error,{ self with ordered := accepted.2 })
    | .ok _ => { self with ordered := accepted.2 }.send notification

def resumeAt (self : SessionUpdates A) (sessionId : String) (nextSequence : U64) :
    SessionUpdates A :=
  { self with
    ordered := self.ordered.resumeAt sessionId nextSequence
    entries := self.entries ++ [.resumed sessionId] }

/-- The host takes the first notification of the queue. -/
def take (self : SessionUpdates A) : SessionUpdates A :=
  match self.queue with
  | [] => self
  | notification :: queue => { self with
    queue := queue
    received := self.received ++ [notification] }

/-- The host drops its end of the queue, and what is in it. -/
def disconnect (self : SessionUpdates A) : SessionUpdates A :=
  { self with
    queue := []
    connected := false }

end SessionUpdates

inductive Call (A : Type)
  | receive (notification : SessionNotification A)
  | resumeAt (sessionId : String) (nextSequence : U64)
  | take
  | disconnect

def step {A : Type} (s : SessionUpdates A) : Call A → SessionUpdates A
  | .receive notification => (s.receive notification).2
  | .resumeAt sessionId nextSequence => s.resumeAt sessionId nextSequence
  | .take => s.take
  | .disconnect => s.disconnect

end PhenixConductor.Client

/-! ## Gaps in the updates of a session

What is delivered for a session between two resumptions has consecutive numbers, and a
refused update can come again, exactly where no update that is next finds the queue closed
to it: the number is used up before the queue is asked.
-/
namespace PhenixConductor.Client
open Collections
open Execution (U64)
variable {A : Type} {sessionId : String}

section Entries

/-- The last number delivered for a session, after one more entry. -/
def noted (sessionId : String) (last : Option U64) : Entry → Option U64
  | .resumed k => if k = sessionId then none else last
  | .delivered k sequence => if k = sessionId then some sequence else last

/-- The entry has the next number, if it delivers an update of the session. -/
def Follows (sessionId : String) (last : Option U64) : Entry → Prop
  | .resumed _ => True
  | .delivered k sequence => k = sessionId → ∀ previous ∈ last, sequence.val = previous.val + 1

/-- Between two resumptions, the numbers of a session are consecutive. -/
def Consecutive (sessionId : String) (entries : List Entry) : Prop :=
  Along (noted sessionId) (Follows sessionId) none entries

/-- The last number delivered for a session since it was resumed. -/
def lastDelivered (sessionId : String) (entries : List Entry) : Option U64 :=
  runAll (noted sessionId) none entries

theorem consecutive_concat {entries : List Entry} {entry : Entry} :
    Consecutive sessionId (entries ++ [entry]) ↔
      Consecutive sessionId entries ∧ Follows sessionId (lastDelivered sessionId entries) entry := by
  rw [Consecutive,along_append]
  simp [Consecutive,Along,lastDelivered]

theorem lastDelivered_concat {entries : List Entry} {entry : Entry} :
    lastDelivered sessionId (entries ++ [entry]) =
      noted sessionId (lastDelivered sessionId entries) entry := by
  rw [lastDelivered,runAll_append]
  rfl

/-- The deliveries among the entries. -/
def deliveries (entries : List Entry) : List Entry :=
  entries.filter fun
    | .resumed _ => false
    | .delivered _ _ => true

end Entries

/-- The step delivers no update out of order, and if it refuses one it leaves what is expected. -/
def Lossless (s : SessionUpdates A) (call : Call A) : Prop :=
  (∀ k, Consecutive k (step s call).entries) ∧
    ∀ notification, call = .receive notification →
      ∀ error, (s.receive notification).1 = .error error →
        ∀ k, (step s call).ordered.expected k = s.ordered.expected k

def U64.largest : U64 := Fin.last (2 ^ 64 - 1)

/-- The queue takes a notification. -/
def SessionUpdates.open (self : SessionUpdates A) : Bool := self.connected && !self.full

/-- The update that is next finds the queue open, and the largest number is not used twice. -/
def Deliverable (s : SessionUpdates A) : Call A → Prop
  | .receive notification => ∀ sequence ∈ notification.sequence,
    sequence = s.ordered.expected notification.sessionId →
      if s.open then lastDelivered notification.sessionId s.entries ≠ some U64.largest
      else sequence = U64.largest
  | _ => True

/-- What was delivered is consecutive, and the next number is expected after it. -/
structure InOrder (s : SessionUpdates A) : Prop where
  consecutive : ∀ k, Consecutive k s.entries
  expected : ∀ k, ∀ last ∈ lastDelivered k s.entries,
    s.ordered.expected k = saturatingAdd last 1

open SessionUpdates (delivery receive send start)
theorem inOrder_start (capacity : Option ℕ) :
    InOrder (start capacity : SessionUpdates A) where
  consecutive _ := trivial
  expected _ := nofun

theorem send_eq (s : SessionUpdates A) (notification : SessionNotification A) :
    (s.open = true ∧ (s.send notification).1 = .ok () ∧
      (s.send notification).2.ordered = s.ordered ∧ (s.send notification).2.entries =
        s.entries ++ delivery notification) ∨
    (s.open = false ∧ (∃ error, (s.send notification).1 = .error error) ∧
      (s.send notification).2 = s) := by
  unfold send SessionUpdates.open
  cases hconnected : s.connected with
  | false => exact .inr ⟨rfl,⟨_,rfl⟩,rfl⟩
  | true =>
    cases hfull : s.full with
    | true => exact .inr ⟨rfl,⟨_,rfl⟩,rfl⟩
    | false => exact .inl ⟨rfl,rfl,rfl,rfl⟩

theorem saturatingAdd_one_eq_self {sequence : U64} :
    saturatingAdd sequence 1 = sequence ↔ sequence = U64.largest := by
  rw [Fin.ext_iff, Fin.ext_iff]
  change min (sequence.val + 1) (2 ^ 64 - 1) = sequence.val ↔ sequence.val = 2 ^ 64 - 1
  omega

theorem val_saturatingAdd_one {previous : U64} :
    (saturatingAdd previous 1).val = previous.val + 1 ↔ previous ≠ U64.largest := by
  rw [ne_eq, Fin.ext_iff]
  change min (previous.val + 1) (2 ^ 64 - 1) = previous.val + 1 ↔ ¬previous.val = 2 ^ 64 - 1
  omega

variable {notification : SessionNotification A}

open OrderedUpdates (accept expected_accept_other expected_accept_self)
/-- A notification that is not the next of its session changes no expectation and is in no entry. -/
theorem receive_of_not_next {s : SessionUpdates A}
    (h : ∀ sequence ∈ notification.sequence, sequence ≠ s.ordered.expected notification.sessionId) :
    (s.receive notification).2.entries = s.entries ∧
      ∀ k, (s.receive notification).2.ordered.expected k = s.ordered.expected k := by
  unfold receive
  cases hsequence : notification.sequence with
  | none =>
    rcases send_eq s notification with ⟨-,-,hordered,hentries⟩ | ⟨-,-,hsame⟩
    · exact ⟨by simp [hentries,delivery,hsequence],fun k => by rw [hordered]⟩
    · exact ⟨by rw [hsame],fun k => by rw [hsame]⟩
  | some sequence =>
    have hne := h sequence hsequence
    have hrefused : (s.ordered.accept notification.sessionId sequence).1 = .error
        (.outOfOrderUpdate notification.sessionId
          (s.ordered.expected notification.sessionId) sequence) := by
      simp [accept,hne]
    dsimp only
    rw [hrefused]
    exact ⟨rfl,OrderedUpdates.expected_accept_of_ne hne⟩

/-- The number of the next notification is used up, whether the queue takes it or not. -/
theorem receive_of_next {s : SessionUpdates A} {sequence : U64}
    (hsequence : notification.sequence = some sequence)
    (h : sequence = s.ordered.expected notification.sessionId) :
    (s.receive notification).2.ordered = (s.ordered.accept notification.sessionId sequence).2 ∧
      ((s.open = true ∧ (s.receive notification).1 = .ok () ∧
        (s.receive notification).2.entries =
          s.entries ++ [.delivered notification.sessionId sequence]) ∨
      (s.open = false ∧ (∃ error, (s.receive notification).1 = .error error) ∧
        (s.receive notification).2.entries = s.entries)) := by
  have haccepted : (s.ordered.accept notification.sessionId sequence).1 = .ok () := by
    simp [accept,h]
  unfold receive
  rw [hsequence]
  dsimp only
  rw [haccepted]
  have hsend := send_eq
    { s with ordered := (s.ordered.accept notification.sessionId sequence).2 } notification
  rcases hsend with ⟨hopen,hok,hordered,hentries⟩ | ⟨hopen,herror,hsame⟩
  · exact ⟨hordered,.inl ⟨hopen,hok,by simpa [delivery,hsequence] using hentries⟩⟩
  · exact ⟨by rw [hsame],.inr ⟨hopen,herror,by rw [hsame]⟩⟩

section Steps
variable {s : SessionUpdates A}

theorem InOrder.congr {t : SessionUpdates A} (h : InOrder s) (hentries : t.entries = s.entries)
    (hexpected : ∀ k, t.ordered.expected k = s.ordered.expected k) : InOrder t where
  consecutive k := hentries ▸ h.consecutive k
  expected k last hlast := by rw [hexpected,h.expected k last (hentries ▸ hlast)]

theorem InOrder.deliver {t : SessionUpdates A} {sequence : U64} (h : InOrder s)
    (hentries : t.entries = s.entries ++ [.delivered sessionId sequence])
    (hordered : t.ordered = (s.ordered.accept sessionId sequence).2)
    (hnext : sequence = s.ordered.expected sessionId)
    (hconsecutive : ∀ k, Consecutive k t.entries) : InOrder t where
  consecutive := hconsecutive
  expected k last hlast := by
    rw [hentries,lastDelivered_concat] at hlast
    rw [hordered]
    by_cases hk : k = sessionId
    · subst k
      rw [noted,if_pos rfl] at hlast
      cases hlast
      exact expected_accept_self hnext
    · rw [noted,if_neg fun he => hk he.symm] at hlast
      rw [expected_accept_other hk,h.expected k last hlast]

theorem consecutive_deliver {sequence : U64} (h : InOrder s)
    (hnext : sequence = s.ordered.expected sessionId) :
    (∀ k, Consecutive k (s.entries ++ [.delivered sessionId sequence])) ↔
      lastDelivered sessionId s.entries ≠ some U64.largest := by
  have hfollows : Follows sessionId (lastDelivered sessionId s.entries)
      (.delivered sessionId sequence) ↔
        lastDelivered sessionId s.entries ≠ some U64.largest := by
    cases hlast : lastDelivered sessionId s.entries with
    | none => simp [Follows]
    | some previous =>
      have hvalue : sequence = saturatingAdd previous 1 :=
        hnext.trans (h.expected sessionId previous hlast)
      subst hvalue
      simpa [Follows] using val_saturatingAdd_one
  constructor
  · exact fun hall => hfollows.mp (consecutive_concat.mp (hall sessionId)).2
  · intro hlast k
    refine consecutive_concat.mpr ⟨h.consecutive k,?_⟩
    by_cases hk : sessionId = k
    · subst k
      exact hfollows.mpr hlast
    · exact fun he => absurd he hk

theorem lossless_receive (h : InOrder s) (notification : SessionNotification A) :
    (Lossless s (.receive notification) ↔ Deliverable s (.receive notification)) ∧
      (Lossless s (.receive notification) → InOrder (step s (.receive notification))) := by
  by_cases hnext : notification.sequence = some (s.ordered.expected notification.sessionId)
  · obtain ⟨hordered,⟨hopen,hok,hentries⟩ | ⟨hopen,⟨error,herror⟩,hentries⟩⟩ :=
      receive_of_next hnext rfl
    · have hlossless : Lossless s (.receive notification) ↔
          ∀ k, Consecutive k (step s (.receive notification)).entries := by
        refine ⟨fun hl => hl.1,fun hc => ⟨hc,?_⟩⟩
        rintro _ ⟨⟩ error herror
        rw [hok] at herror
        cases herror
      refine ⟨hlossless.trans ?_,fun hl => h.deliver hentries hordered rfl hl.1⟩
      rw [step,hentries,consecutive_deliver h rfl]
      simp [Deliverable,hnext,hopen]
    · have hkeep : Lossless s (.receive notification) ↔
          ∀ k, (step s (.receive notification)).ordered.expected k = s.ordered.expected k := by
        refine ⟨fun hl => hl.2 notification rfl error herror,fun hk => ⟨fun k => ?_,?_⟩⟩
        · rw [step,hentries]
          exact h.consecutive k
        · rintro _ ⟨⟩ - -
          exact hk
      refine ⟨hkeep.trans ?_,fun hl => h.congr hentries (hkeep.mp hl)⟩
      rw [step,hordered]
      trans s.ordered.expected notification.sessionId = U64.largest
      · rw [← saturatingAdd_one_eq_self]
        constructor
        · intro hk
          rw [← expected_accept_self rfl,hk]
        · intro hvalue k
          by_cases hk : k = notification.sessionId
          · subst hk
            rw [expected_accept_self rfl,hvalue]
          · exact expected_accept_other hk
      · simp [Deliverable,hnext,hopen]
  · have hother : ∀ sequence ∈ notification.sequence,
        sequence ≠ s.ordered.expected notification.sessionId := by
      rintro sequence hsequence rfl
      exact hnext hsequence
    obtain ⟨hentries,hexpected⟩ := receive_of_not_next hother
    have hlossless : Lossless s (.receive notification) := by
      refine ⟨fun k => ?_,?_⟩
      · rw [step,hentries]
        exact h.consecutive k
      · rintro _ ⟨⟩ - -
        exact hexpected
    exact ⟨iff_of_true hlossless fun q hq he => absurd he (hother q hq),
      fun _ => h.congr hentries hexpected⟩

theorem lossless_iff (h : InOrder s) (call : Call A) :
    (Lossless s call ↔ Deliverable s call) ∧ (Lossless s call → InOrder (step s call)) := by
  cases call with
  | receive notification => exact lossless_receive h notification
  | resumeAt k nextSequence =>
    have hlossless : Lossless s (.resumeAt k nextSequence) :=
      ⟨fun j => consecutive_concat.mpr ⟨h.consecutive j,trivial⟩,nofun⟩
    refine ⟨iff_of_true hlossless trivial,fun _ => ⟨hlossless.1,fun j last hlast => ?_⟩⟩
    rw [step,SessionUpdates.resumeAt,lastDelivered_concat,noted] at hlast
    split_ifs at hlast with hk
    · cases hlast
    · rw [step,SessionUpdates.resumeAt,OrderedUpdates.expected_resumeAt,
        if_neg fun he => hk he.symm,h.expected j last hlast]
  | take =>
    have hsame : (step s .take).entries = s.entries ∧ (step s .take).ordered = s.ordered := by
      rw [step,SessionUpdates.take]
      cases s.queue <;> exact ⟨rfl,rfl⟩
    have hin : InOrder (step s .take) := h.congr hsame.1 fun k => by rw [hsame.2]
    exact ⟨iff_of_true ⟨hin.consecutive,nofun⟩ trivial,fun _ => hin⟩
  | disconnect =>
    have hin : InOrder (step s .disconnect) := h.congr rfl fun _ => rfl
    exact ⟨iff_of_true ⟨hin.consecutive,nofun⟩ trivial,fun _ => hin⟩

theorem along_lossless_iff (h : InOrder s) (calls : List (Call A)) :
    Along step Lossless s calls ↔ Along step Deliverable s calls := by
  induction calls generalizing s with
  | nil => rfl
  | cons call calls ih =>
    obtain ⟨hiff,hin⟩ := lossless_iff h call
    rw [Along,Along,← hiff]
    exact and_congr_right fun hl => ih (hin hl)

end Steps

section Queue

/-- The notifications that the host took or that wait for it. -/
def handed (s : SessionUpdates A) : List Entry :=
  (s.received ++ s.queue).flatMap SessionUpdates.delivery

/-- What was handed over was delivered, in order, and nothing is lost while the host listens. -/
def Queued (s : SessionUpdates A) : Prop :=
  handed s <+: deliveries s.entries ∧ (s.connected = true → handed s = deliveries s.entries)

theorem deliveries_delivery (notification : SessionNotification A) :
    deliveries (delivery notification) = delivery notification := by
  unfold delivery deliveries
  cases notification.sequence <;> rfl

theorem queued_send {s : SessionUpdates A} (h : Queued s) (notification : SessionNotification A) :
    Queued (s.send notification).2 := by
  unfold send
  split_ifs with hconnected hfull
  · exact h
  · exact h
  · have heq := h.2 (by simpa using hconnected)
    have hnext : handed { s with
        queue := s.queue ++ [notification]
        entries := s.entries ++ delivery notification } =
          deliveries (s.entries ++ delivery notification) := by
      unfold deliveries
      rw [List.filter_append]
      change _ = deliveries s.entries ++ deliveries (delivery notification)
      rw [← heq,deliveries_delivery]
      simp [handed,List.append_assoc]
    exact ⟨hnext ▸ List.prefix_rfl,fun _ => hnext⟩

theorem queued_step {s : SessionUpdates A} (h : Queued s) (call : Call A) :
    Queued (step s call) := by
  cases call with
  | receive notification =>
    rw [step,receive]
    split
    · exact queued_send h notification
    · next sequence _ =>
      dsimp only
      split
      · exact h
      · exact queued_send (s := { s with
          ordered := (s.ordered.accept notification.sessionId sequence).2 }) h notification
  | resumeAt k nextSequence =>
    have hsame : deliveries (s.entries ++ [.resumed k]) = deliveries s.entries := by
      simp [deliveries]
    exact ⟨h.1.trans (hsame ▸ List.prefix_rfl),fun hc => (h.2 hc).trans hsame.symm⟩
  | take =>
    unfold step SessionUpdates.take
    cases hqueue : s.queue with
    | nil => exact h
    | cons notification queue =>
      have hsame : handed { s with
          queue := queue
          received := s.received ++ [notification] } = handed s := by
        simp [handed,hqueue]
      exact ⟨hsame ▸ h.1,fun hc => hsame ▸ h.2 hc⟩
  | disconnect =>
    refine ⟨List.IsPrefix.trans ?_ h.1,nofun⟩
    simp [handed,step,SessionUpdates.disconnect]

theorem received_initial (capacity : Option ℕ) (calls : List (Call A)) :
    (runAll step (start capacity) calls).received.flatMap delivery <+:
      deliveries (runAll step (start capacity) calls).entries := by
  have hstart : Queued (start capacity : SessionUpdates A) :=
    ⟨List.prefix_rfl,fun _ => rfl⟩
  have h := runAll_invariant (I := Queued) (fun _ call hs => queued_step hs call) calls hstart
  refine List.IsPrefix.trans ?_ h.1
  simp [handed]

end Queue

/-- Updates have no silent gaps and refused ones can come again exactly where every next update is
deliverable; the host takes what was delivered, in order. -/
theorem no_gaps_iff (capacity : Option ℕ) (calls : List (Call A)) :
    (Along step Lossless (SessionUpdates.start capacity) calls ↔
      Along step Deliverable (SessionUpdates.start capacity) calls) ∧
    (runAll step (SessionUpdates.start capacity) calls).received.flatMap SessionUpdates.delivery <+:
      deliveries (runAll step (SessionUpdates.start capacity) calls).entries :=
  ⟨along_lossless_iff (inOrder_start capacity) calls,received_initial capacity calls⟩

/-- A numbered notification without content. -/
def numbered (sequence : U64) : SessionNotification Unit := ⟨"session-1",some sequence,()⟩

/-- The second update overflows the queue; when the host has taken the first one, it can not come
again. -/
theorem overflow_loses : ¬Along step Lossless (SessionUpdates.bounded 1)
    [.receive (numbered 0),.receive (numbered 1),.take,.receive (numbered 1)] := by
  intro h
  have hkeep := h.2.1.2 (numbered 1) rfl .updateQueueFull (by decide) "session-1"
  exact absurd hkeep (by decide)

end PhenixConductor.Client

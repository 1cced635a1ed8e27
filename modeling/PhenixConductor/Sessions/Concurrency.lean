import PhenixConductor.Sessions.Logs

/-! # Session commands side by side

Every commit asserts the keys that it writes, so a log is only written by who has read its end.
-/
namespace PhenixConductor.Sessions
open Collections Contract Script CellOp
open Application (SessionRecord SessionTransition SessionJournalDraft SessionJournalEntry
  requireOpen nextSequence)
variable {C : Type}

abbrev SessionLog (C : Type) := StoreLog (SessionCell.Content C) NoReply

abbrev SessionTurn := StoreTurn NoReply

abbrev SessionRequest (C : Type) := StoreRequest (SessionCell.Content C) Empty

/-- The session that a command gives an entry to, under its own check. -/
def SessionCommand.appendsTo : SessionCommand C → Option SessionId
  | .continue id _ _ | .appendHistory id _ => some id
  | _ => none

/-- The session and the stream whose journal a command writes or reads. -/
def SessionCommand.journalPair : SessionCommand C → Option (SessionId × ContractId)
  | .transition id _ draft | .appendJournal id draft => some (id,draft.stream)
  | .journal id stream _ => some (id,stream)
  | _ => none

/-- Where a continued input or a history entry is committed, the session is as open as the command
has read it: it has not been closed in between. -/
def StillOpen (x : SessionCommand C) (log : SessionLog C) (_turn : SessionTurn) :
    SessionRequest C → SessionCells C → Prop
  | .commit _, s => ∀ id ∈ x.appendsTo, ∀ record,
    reading NoReply (.session id) (some record) ∈ log →
    ∃ now, s (.session id) = some now ∧ now.lifecycle = record.lifecycle
  | .read _, _ | .call _, _ => True

/-- The record changes, and the journal gets its entry. -/
def Transitions (id : SessionId) (transition : SessionTransition) (draft : SessionJournalDraft C)
    (s t : SessionCells C) : Prop :=
  ∃ old entry, s (.session id) = some old ∧ old.lifecycle = .open ∧
    entry.stream = draft.stream ∧ entry.payload = draft.payload ∧
    t = put (put s (.session id) (applyTransition old transition)) (journalCell id draft.stream)
      (decode (s (journalCell id draft.stream)) ++ [entry])

/-- A transition changes record and journal together or not at all. -/
def Together (s t : SessionCells C) : SessionCommand C → Prop
  | .transition id transition draft => t = s ∨ Transitions id transition draft s t
  | _ => True

theorem together_refl (s : SessionCells C) (x : SessionCommand C) : Together s s x := by
  cases x <;> first | exact .inl rfl | trivial

variable [DecidableEq C]

/-- A batch that is committed writes no record, no input and no history of a closed session. -/
def WritesOpen (turn : SessionTurn) (r : SessionRequest C) (s : SessionCells C) : Prop :=
  ∀ ops t, r = .commit ops → turn.failure = none → commit s ops = .ok t →
    ∀ id, ∀ op ∈ ops, op.Writes (.session id) ∨ op.Writes (.inputs id) ∨ op.Writes (.history id) →
      ∀ record, s (.session id) = some record → record.lifecycle = .open

/-- What a request of a command does. -/
structure Does (used : SessionId → ContractId → Prop) (x : SessionCommand C) (turn : SessionTurn)
    (r : SessionRequest C) (s t : SessionCells C) : Prop where
  advances : Stored used s → Advances used s t
  writes : WritesOpen turn r s
  together : Together s t x

abbrev SessionCooperates (used : SessionId → ContractId → Prop) (x : SessionCommand C) {α : Type}
    (post : Except String α → SessionLog C → SessionCells C → Prop) :
    SessionM C α → SessionLog C → SessionCells C → Prop :=
  Cooperates serveStore (Advances used) (StillOpen x) (fun _ => Does used x) post

section Programs
variable {used : SessionId → ContractId → Prop} {x : SessionCommand C} {α β : Type}
  {post : Except String β → SessionLog C → SessionCells C → Prop} {log : SessionLog C}
  {s : SessionCells C}

section
variable (herror : ∀ e log t, post (.error e) log t)
include herror

theorem cooperates_readRaw_bind {cell : SessionCell} {f : Option (cell.Content C) → SessionM C β}
    (hok : ∀ t, Advances used s t →
      SessionCooperates used x post (f (t cell)) (reading NoReply cell (t cell) :: log) t) :
    SessionCooperates used x post (readRaw cell >>= f) log s := by
  apply cooperates_askRead_bind
  · intro t ht turn
    exact ⟨fun hs => ⟨hs,.refl t⟩,fun ops u h => by simp at h,together_refl t x⟩
  · exact fun t _ error => herror _ _ _
  · exact fun t ht _ _ => hok t ht

theorem cooperates_orElse_bind {error : String} {value : Option α} {f : α → SessionM C β}
    (hok : ∀ a, value = some a → SessionCooperates used x post (f a) log s) :
    SessionCooperates used x post (orElse error value >>= f) log s := by
  cases value with
  | none => exact herror _ _ _
  | some a => exact hok a rfl

theorem cooperates_check_bind {result : Except String α} {f : α → SessionM C β}
    (hok : ∀ a, result = .ok a → SessionCooperates used x post (f a) log s) :
    SessionCooperates used x post (check result >>= f) log s :=
  cooperates_ofExcept_bind (fun e _ => herror e _ _) hok

theorem cooperates_transactDurable_bind {operations : List (CellOp (SessionCell.Content C))}
    {f : Unit → SessionM C β}
    (hok : ∀ t u, Advances used s t → (∀ turn, StillOpen x log turn (.commit operations) t) →
      commit t operations = .ok u → Advances used t u ∧ Together t u x ∧
        (∀ id, ∀ op ∈ operations,
          op.Writes (.session id) ∨ op.Writes (.inputs id) ∨ op.Writes (.history id) →
          ∀ record, t (.session id) = some record → record.lifecycle = .open) ∧
        ∀ log', SessionCooperates used x post (f ()) log' u) :
    SessionCooperates used x post (transactDurable operations >>= f) log s := by
  apply cooperates_askCommit_bind
  · intro t ht turn hfails
    refine ⟨fun hs => ⟨hs,.refl t⟩,?_,together_refl t x⟩
    intro ops u hops hturn hcommit
    obtain rfl := StoreRequest.commit.inj hops
    exact absurd hcommit (hfails hturn u)
  · exact fun t _ error => herror _ _ _
  · intro t u ht reply hopen hcommit
    obtain ⟨hadvances,htogether,hwrites,hnext⟩ := hok t u ht (fun _ => hopen) hcommit
    refine ⟨⟨fun _ => hadvances,?_,htogether⟩,hnext _⟩
    intro ops _ hops _ _
    obtain rfl := StoreRequest.commit.inj hops
    exact hwrites

theorem cooperates_prepareCreate_bind {session : SessionRecord}
    {f : SessionRecord × List (CellOp (SessionCell.Content C)) → SessionM C β}
    (hok : ∀ t log' oldSessions, SessionCooperates used x post (f (session,[
      .assert (.session session.id) none,
      .assert .all oldSessions,
      .put (.session session.id) session,
      .put .all (addId (decode oldSessions) session.id)])) log' t) :
    SessionCooperates used x post (prepareCreate session >>= f) log s := by
  rw [prepareCreate,bind_bind]
  refine cooperates_check_bind herror fun _ _ => ?_
  rw [bind_bind]
  refine cooperates_readRaw_bind herror fun t _ => ?_
  rw [bind_bind]
  refine cooperates_check_bind herror fun _ _ => ?_
  rw [bind_bind]
  exact cooperates_readRaw_bind herror fun u _ => hok u _ _

theorem cooperates_create_bind {session : SessionRecord} {oldSessions : Option (List SessionId)}
    {f : Unit → SessionM C β}
    (hx : ∀ t u : SessionCells C, Together t u x)
    (hok : ∀ t log', SessionCooperates used x post (f ()) log' t) :
    SessionCooperates used x post (transactDurable [
      .assert (.session session.id) none,
      .assert .all oldSessions,
      .put (.session session.id) session,
      .put .all (addId (decode oldSessions) session.id)] >>= f) log s := by
  refine cooperates_transactDurable_bind herror fun t u ht _ hcommit => ?_
  obtain ⟨⟨hnone,rfl⟩,rfl⟩ : (t (.session session.id) = none ∧ t .all = oldSessions) ∧
      put (put t (.session session.id) session) .all
        (addId (decode oldSessions) session.id) = u := by
    simpa [commit_eq_ok,Along,Holds,write,put] using hcommit
  refine ⟨advances_create ht.stored hnone,hx _ _,?_,fun log' => hok _ log'⟩
  intro id op hop hwrites record hrecord
  have hid : id = session.id := by
    simp only [List.mem_cons,List.not_mem_nil,or_false] at hop
    rcases hop with rfl | rfl | rfl | rfl <;> simp [Writes] at hwrites
    exact hwrites.symm
  rw [hid,hnone] at hrecord
  cases hrecord

end

theorem requireOpen_eq_ok {record : SessionRecord} :
    requireOpen record = .ok () ↔ record.lifecycle = .open := by
  simp [requireOpen]

variable {id : SessionId}

omit [DecidableEq C] in
theorem anyway (_ : String) (_ : SessionLog C) (_ : SessionCells C) : True := trivial

omit [DecidableEq C] in
/-- A batch that writes to one open session only. -/
theorem open_of_writes {operations : List (CellOp (SessionCell.Content C))} {t : SessionCells C}
    {now : SessionRecord} (hnow : t (.session id) = some now) (hopen : now.lifecycle = .open)
    (honly : ∀ op ∈ operations, ∀ j,
      op.Writes (.session j) ∨ op.Writes (.inputs j) ∨ op.Writes (.history j) → id = j) :
    ∀ j, ∀ op ∈ operations,
      op.Writes (.session j) ∨ op.Writes (.inputs j) ∨ op.Writes (.history j) →
      ∀ record, t (.session j) = some record → record.lifecycle = .open := by
  intro j op hop hwrites record hrecord
  rw [← honly op hop j hwrites,hnow] at hrecord
  rwa [← Option.some.inj hrecord]

theorem cooperates_updateSession {mutate : SessionRecord → Except String SessionRecord}
    (hx : ∀ t u : SessionCells C, Together t u x)
    (hmutate : ∀ old new, mutate old = .ok new → old.lifecycle = .open ∧ Evolves old new) :
    SessionCooperates used x (fun _ _ _ => True) (updateSession id mutate) log s := by
  refine cooperates_readRaw_bind anyway fun t ht => ?_
  refine cooperates_orElse_bind anyway fun old hold => ?_
  refine cooperates_check_bind anyway fun new hnew => ?_
  refine cooperates_transactDurable_bind anyway fun t' u ht' _ hcommit => ?_
  obtain ⟨hstored,rfl⟩ : t' (.session id) = some old ∧ put t' (.session id) new = u := by
    simpa [commit_eq_ok,Along,Holds,write,put] using hcommit
  obtain ⟨hopen,hev⟩ := hmutate old new hnew
  exact ⟨advances_putSession ht'.stored hstored hev,hx _ _,
    open_of_writes hstored hopen (by simp [Writes]),fun _ => trivial⟩

theorem renameRecord_evolves {title : String} {old new : SessionRecord}
    (h : renameRecord title old = .ok new) : old.lifecycle = .open ∧ Evolves old new := by
  obtain ⟨_,hopen,hnew⟩ := bind_eq_ok.mp h
  cases hnew
  have hlifecycle := requireOpen_eq_ok.mp hopen
  exact ⟨hlifecycle,⟨rfl,rfl,fun hclosed => by simp [hlifecycle] at hclosed⟩⟩

theorem closeRecord_evolves {old new : SessionRecord} (h : closeRecord old = .ok new) :
    old.lifecycle = .open ∧ Evolves old new := by
  obtain ⟨_,hopen,hnew⟩ := bind_eq_ok.mp h
  cases hnew
  have hlifecycle := requireOpen_eq_ok.mp hopen
  exact ⟨hlifecycle,⟨rfl,rfl,fun hclosed => by simp [hlifecycle] at hclosed⟩⟩

theorem applyTransition_evolves {old : SessionRecord} (hopen : old.lifecycle = .open)
    (transition : SessionTransition) : Evolves old (applyTransition old transition) := by
  cases transition <;> exact ⟨rfl,rfl,fun hclosed => by simp [hopen] at hclosed⟩

section
variable (herror : ∀ e log t, post (.error e) log t)
include herror

theorem cooperates_requireKnown_bind {f : SessionRecord → SessionM C β}
    (hok : ∀ t record, t (.session id) = some record → SessionCooperates used x post (f record) (reading NoReply (.session id) (some record) :: log) t) :
    SessionCooperates used x post (requireKnown id >>= f) log s := by
  rw [requireKnown, bind_bind]
  refine cooperates_readRaw_bind herror fun t _ => ?_
  refine cooperates_orElse_bind herror fun record hrecord => ?_
  rw [hrecord]
  exact hok t record hrecord

theorem cooperates_requireOpenSession_bind {f : SessionRecord → SessionM C β}
    (hok : ∀ t record, record.lifecycle = .open → SessionCooperates used x post (f record) (reading NoReply (.session id) (some record) :: log) t) :
    SessionCooperates used x post (requireOpenSession id >>= f) log s := by
  rw [requireOpenSession,bind_bind]
  refine cooperates_requireKnown_bind herror fun t record _ => ?_
  rw [bind_bind]
  refine cooperates_check_bind herror fun _ hopen => ?_
  exact hok t record (requireOpen_eq_ok.mp hopen)

variable {draft : SessionJournalDraft C}

/-- What a journal append reads and asserts. -/
theorem cooperates_prepareJournalAppend_bind
    {f : SessionJournalEntry C × List (CellOp (SessionCell.Content C)) → SessionM C β}
    (hok : ∀ t log' (old : Option (List (SessionJournalEntry C))) (entry : SessionJournalEntry C), Advances used s t → entry.stream = draft.stream → entry.payload = draft.payload → nextSequence (decode old) = .ok entry.sequence → SessionCooperates used x post (f (entry,[ .assert (journalCell id draft.stream) old, .put (journalCell id draft.stream) (decode old ++ [entry])])) log' t) :
    SessionCooperates used x post (prepareJournalAppend id draft >>= f) log s := by
  rw [prepareJournalAppend,bind_bind]
  refine cooperates_readRaw_bind herror fun t ht => ?_
  rw [bind_bind]
  refine cooperates_check_bind herror fun _ _ => ?_
  rw [bind_bind]
  refine cooperates_check_bind herror fun sequence hsequence => ?_
  exact hok t _ _ ⟨sequence,draft.stream,draft.payload⟩ ht rfl rfl hsequence

end

theorem cooperates_appendJournal (hused : used id draft.stream) :
    SessionCooperates used (.appendJournal id draft) (fun _ _ _ => True)
      (appendJournal id draft) log s := by
  refine cooperates_requireKnown_bind anyway fun _ _ _ => ?_
  refine cooperates_prepareJournalAppend_bind anyway
    fun t log' old entry _ hstream hpayload hsequence => ?_
  refine cooperates_transactDurable_bind anyway fun t' u ht' _ hcommit => ?_
  obtain ⟨rfl,rfl⟩ : t' (journalCell id draft.stream) = old ∧
      put t' (journalCell id draft.stream) (decode old ++ [entry]) = u := by
    simpa [commit_eq_ok,Along,Holds,write,put] using hcommit
  rw [← hstream] at hused hsequence ⊢
  exact ⟨advances_putJournal ht'.stored hused hsequence,trivial,by simp [Writes],
    fun _ => trivial⟩

theorem cooperates_transitionSession {transition : SessionTransition} (hused : used id draft.stream) :
    SessionCooperates used (.transition id transition draft) (fun _ _ _ => True)
      (transitionSession id transition draft) log s := by
  refine cooperates_readRaw_bind anyway fun t ht => ?_
  refine cooperates_orElse_bind anyway fun old _ => ?_
  refine cooperates_check_bind anyway fun _ hopen => ?_
  have hlifecycle := requireOpen_eq_ok.mp hopen
  refine cooperates_prepareJournalAppend_bind anyway
    fun t' log' journal entry _ hstream hpayload hsequence => ?_
  refine cooperates_transactDurable_bind anyway fun v u hv _ hcommit => ?_
  obtain ⟨⟨hstored,hjournal⟩,rfl⟩ :
      (v (.session id) = some old ∧ v (journalCell id draft.stream) = journal) ∧
      put (put v (.session id) (applyTransition old transition)) (journalCell id draft.stream)
        (decode journal ++ [entry]) = u := by
    simpa [commit_eq_ok,Along,Holds,write,put] using hcommit
  subst hjournal
  have hrecord := advances_putSession hv.stored hstored
    (applyTransition_evolves hlifecycle transition)
  have hkept : put v (.session id) (applyTransition old transition) (journalCell id entry.stream) =
      v (journalCell id entry.stream) := put_of_ne (by simp) _
  refine ⟨?_,.inr ⟨old,entry,hstored,hlifecycle,hstream,hpayload,rfl⟩,?_,fun _ => trivial⟩
  · rw [← hstream] at hused hsequence ⊢
    exact hrecord.trans (advances_putJournal hrecord.stored hused hsequence)
  · exact open_of_writes hstored hlifecycle (by simp [Writes])

theorem sequenceAfter_val {entries : List α} {overflow : String} {sequence : Execution.U64}
    (h : sequenceAfter overflow entries = .ok sequence) : sequence.val = entries.length + 1 := by
  unfold sequenceAfter at h
  split at h
  · cases h
    rfl
  · cases h

theorem cooperates_continueSession {kind : SessionInputKind} {content : List UInt8} :
    SessionCooperates used (.continue id kind content) (fun _ _ _ => True)
      (continueSession id kind content) log s := by
  refine cooperates_requireOpenSession_bind anyway fun t record hopen => ?_
  refine cooperates_readRaw_bind anyway fun t' _ => ?_
  generalize t' (.inputs id) = oldInputs
  refine cooperates_check_bind anyway fun sequence hsequence => ?_
  refine cooperates_transactDurable_bind anyway fun v u hv hstill hcommit => ?_
  obtain ⟨rfl,rfl⟩ : v (.inputs id) = oldInputs ∧
      put v (.inputs id) (decode oldInputs ++ [⟨sequence,kind,content⟩]) = u := by
    simpa [commit_eq_ok,Along,Holds,write,put] using hcommit
  obtain ⟨now,hnow,hlifecycle⟩ := hstill ⟨none,fun _ => ()⟩ id rfl record
    (List.mem_cons_of_mem _ List.mem_cons_self)
  have hnowOpen := hlifecycle.trans hopen
  exact ⟨advances_putInputs hv.stored hnow hnowOpen (sequenceAfter_val hsequence),trivial,
    open_of_writes hnow hnowOpen (by simp [Writes]),fun _ => trivial⟩

theorem cooperates_appendHistory {draft : SessionHistoryDraft C} :
    SessionCooperates used (.appendHistory id draft) (fun _ _ _ => True)
      (appendHistory id draft) log s := by
  refine cooperates_requireOpenSession_bind anyway fun t record hopen => ?_
  refine cooperates_readRaw_bind anyway fun t' _ => ?_
  generalize t' (.history id) = oldHistory
  refine cooperates_check_bind anyway fun sequence hsequence => ?_
  refine cooperates_transactDurable_bind anyway fun v u hv hstill hcommit => ?_
  obtain ⟨rfl,rfl⟩ : v (.history id) = oldHistory ∧
      put v (.history id) (decode oldHistory ++ [⟨draft,sequence⟩]) = u := by
    simpa [commit_eq_ok,Along,Holds,write,put] using hcommit
  obtain ⟨now,hnow,hlifecycle⟩ := hstill ⟨none,fun _ => ()⟩ id rfl record
    (List.mem_cons_of_mem _ List.mem_cons_self)
  have hnowOpen := hlifecycle.trans hopen
  exact ⟨advances_putHistory hv.stored hnow hnowOpen (sequenceAfter_val hsequence),trivial,
    open_of_writes hnow hnowOpen (by simp [Writes]),fun _ => trivial⟩

theorem cooperates_readEach_bind {ids : List SessionId} {f : List SessionRecord → SessionM C β}
    (herror : ∀ e log t, post (.error e) log t)
    (hok : ∀ sessions t log', SessionCooperates used x post (f sessions) log' t) :
    SessionCooperates used x post (readEach ids >>= f) log s := by
  induction ids generalizing log s f with
  | nil => exact hok [] s log
  | cons id ids ih =>
    rw [readEach, bind_bind]
    refine cooperates_readRaw_bind herror fun t _ => ?_
    rw [bind_bind]
    refine cooperates_orElse_bind herror fun session _ => ?_
    rw [bind_bind]
    exact ih fun sessions => hok (session :: sessions)

end Programs

theorem handle_cooperates {used : SessionId → ContractId → Prop} (x : SessionCommand C)
    (hused : ∀ p ∈ x.journalPair, used p.1 p.2) (s : SessionCells C) :
    SessionCooperates used x (fun _ _ _ => True) (handle x) [] s := by
  cases x with
  | create session =>
    exact cooperates_prepareCreate_bind anyway fun _ _ _ =>
      cooperates_create_bind anyway (fun _ _ => trivial) fun _ _ => trivial
  | get id => exact cooperates_readRaw_bind anyway fun _ _ => trivial
  | list =>
    rw [handle,readSessions,bind_bind]
    exact cooperates_readRaw_bind anyway fun _ _ =>
      cooperates_readEach_bind anyway fun _ _ _ => trivial
  | rename id title =>
    exact cooperates_updateSession (fun _ _ => trivial) fun _ _ => renameRecord_evolves
  | close id =>
    exact cooperates_updateSession (fun _ _ => trivial) fun _ _ => closeRecord_evolves
  | transition id transition draft => exact cooperates_transitionSession (hused _ rfl)
  | appendJournal id draft => exact cooperates_appendJournal (hused _ rfl)
  | journal id stream afterSequence =>
    refine cooperates_requireKnown_bind anyway fun _ _ _ => ?_
    refine cooperates_readRaw_bind anyway fun _ _ => ?_
    exact cooperates_check_bind anyway fun _ _ => trivial
  | «continue» id kind content => exact cooperates_continueSession
  | inputs id =>
    refine cooperates_requireKnown_bind anyway fun _ _ _ => ?_
    exact cooperates_readRaw_bind anyway fun _ _ => trivial
  | resolveInput resource =>
    rw [handle,resolveInputResource,bind_bind]
    refine cooperates_check_bind anyway fun _ _ => ?_
    dsimp only
    rw [bind_bind]
    refine cooperates_readRaw_bind anyway fun _ _ => ?_
    split
    · trivial
    · rw [bind_bind]
      exact cooperates_readRaw_bind anyway fun _ _ => trivial
  | appendHistory id draft => exact cooperates_appendHistory
  | history id =>
    refine cooperates_requireKnown_bind anyway fun _ _ _ => ?_
    exact cooperates_readRaw_bind anyway fun _ _ => trivial
  | resolveHistory resource =>
    rw [handle,resolveHistoryResource,bind_bind]
    refine cooperates_check_bind anyway fun _ _ => ?_
    dsimp only
    rw [bind_bind]
    refine cooperates_readRaw_bind anyway fun _ _ => ?_
    split
    · trivial
    · rw [bind_bind]
      exact cooperates_readRaw_bind anyway fun _ _ => trivial
  | prepareCreate session =>
    exact cooperates_prepareCreate_bind anyway fun _ _ _ =>
      cooperates_create_bind anyway (fun _ _ => trivial) fun _ _ => trivial

end PhenixConductor.Sessions

import PhenixConductor.Application.Effects

/-! # The journals of the sessions

The entries of a journal are numbered from one, and commands only append to them.
-/
namespace PhenixConductor.Application
open Collections Contract Client
open Execution (U64)

variable {C D R H : Type}

/-! ## Numbers -/

/-- The journal of the session changes of a session. -/
abbrev SessionStore.entries (store : SessionStore C) (id : SessionId) :
    List (SessionJournalEntry C) := store.journalOf id sessionChangeStream

/-- The entries are numbered from one, and only sessions of the store have any. -/
structure Numbered (store : SessionStore C) : Prop where
  numbered : ∀ id, (store.entries id).map (·.sequence.val) = List.range' 1 (store.entries id).length
  streams : ∀ id, ∀ entry ∈ store.entries id, entry.stream = sessionChangeStream
  unknown : ∀ id, id ∉ store.records.keys → store.entries id = []

section Numbers
variable {store : SessionStore C} {id : SessionId}

theorem Numbered.getElem (h : Numbered store) {i : ℕ} {entry : SessionJournalEntry C}
    (hi : (store.entries id)[i]? = some entry) : entry.sequence.val = i + 1 := by
  have hnumber := congrArg (·[i]?) (h.numbered id)
  simp only [List.getElem?_map, hi, Option.map_some] at hnumber
  rw [List.getElem?_range' (List.getElem?_eq_some_iff.mp hi).1] at hnumber
  have hval := Option.some.inj hnumber
  omega

theorem Numbered.last (h : Numbered store) (id : SessionId) :
    ((((store.entries id).getLast?.map (·.sequence)).getD 0 : U64) : ℕ) =
      (store.entries id).length := by
  cases hlast : (store.entries id).getLast? with
  | none =>
    rw [List.getLast?_eq_none_iff.mp hlast]
    rfl
  | some entry =>
    rw [List.getLast?_eq_getElem?] at hlast
    have hlt := (List.getElem?_eq_some_iff.mp hlast).1
    have hnumber := h.getElem hlast
    simp only [Option.map_some, Option.getD_some]
    omega

theorem checkedSucc_eq_some {n m : U64} : checkedSucc n = some m ↔ m.val = n.val + 1 := by
  unfold checkedSucc
  split_ifs with h
  · rw [Option.some_inj, Fin.ext_iff]
    exact eq_comm
  · simp only [false_iff]
    omega

/-- The next entry gets the number after the last one. -/
theorem Numbered.nextSequence (h : Numbered store) {sequence : U64}
    (hnext : nextSequence (store.entries id) = .ok sequence) :
    sequence.val = (store.entries id).length + 1 := by
  have hlast := h.last id
  unfold Application.nextSequence at hnext
  cases hget : (store.entries id).getLast? with
  | none =>
    rw [hget] at hnext hlast
    cases hnext
    simp only [Option.map_none, Option.getD_none] at hlast
    rw [← hlast]
    rfl
  | some entry =>
    rw [hget] at hnext hlast
    simp only [Option.map_some, Option.getD_some] at hlast
    cases hsucc : checkedSucc entry.sequence with
    | none => simp [hsucc] at hnext
    | some number =>
      simp only [hsucc, Except.ok.injEq] at hnext
      rw [← hnext, checkedSucc_eq_some.mp hsucc, hlast]

end Numbers

/-! ## Commands -/

/-- The journal of a session grows by at most one entry, which has the next number. -/
inductive Grown (before : List (SessionJournalEntry C)) : List (SessionJournalEntry C) → Prop
  | same : Grown before before
  | append {entry : SessionJournalEntry C} (sequence : entry.sequence.val = before.length + 1)
      (stream : entry.stream = sessionChangeStream) : Grown before (before ++ [entry])

theorem entries_putJournal (store : SessionStore C) (id j : SessionId)
    (entries : List (SessionJournalEntry C)) :
    (store.putJournal id sessionChangeStream entries).entries j =
      if j = id then entries else store.entries j := journalOf_putJournal ..

theorem grown_putJournal {store base : SessionStore C} (h : Numbered store)
    (hbase : ∀ j, base.entries j = store.entries j) {id : SessionId} {change : C}
    {entry : SessionJournalEntry C} (happended : Appended store id ⟨sessionChangeStream,change⟩ entry)
    (j : SessionId) :
    Grown (store.entries j) ((base.putJournal id sessionChangeStream
      (store.entries id ++ [entry])).entries j) := by
  rw [entries_putJournal]
  split_ifs with hj
  · rw [hj]
    exact .append (h.nextSequence happended.sequence) happended.stream
  · rw [hbase]
    exact .same

/-- What a command of the application does to the journals and the records. -/
structure Grows (store next : SessionStore C) : Prop where
  entries : ∀ id, Grown (store.entries id) (next.entries id)
  known : ∀ id, id ∉ store.records.keys → next.entries id = store.entries id
  records : ∀ id ∈ store.records.keys, id ∈ next.records.keys

theorem Grows.refl (store : SessionStore C) : Grows store store :=
  ⟨fun _ => .same,fun _ _ => rfl,fun _ hid => hid⟩

section Commands
variable {store next : SessionStore C} {command : SessionCommand C}
  {response : SessionResponse C} {entries : List (SessionId × C)}

theorem not_found {id : SessionId} {session : SessionRecord} (h : store.records.get? id = some session)
    {j : SessionId} (hj : j ∉ store.records.keys) : j ≠ id := by
  rintro rfl
  rw [(BTreeMap.get?_eq_none _).mpr hj] at h
  cases h

theorem Numbered.grows (h : Numbered store) (heffect : SessionEffect store command next response)
    (hwrites : Writes command entries) : Grows store next := by
  cases heffect with
  | create isOpen fresh =>
    refine ⟨fun _ => .same,fun _ _ => rfl,fun id hid => ?_⟩
    simp only [SessionStore.putRecord, BTreeMap.mem_keys_insert]
    exact .inr hid
  | get => exact .refl store
  | journal => exact .refl store
  | appendJournal found appended =>
    cases hwrites
    refine ⟨grown_putJournal h (fun _ => rfl) appended,fun id hid => ?_,fun _ hid => hid⟩
    exact (entries_putJournal ..).trans (if_neg (not_found found hid))
  | transition found isOpen named directory appended =>
    cases hwrites
    refine ⟨grown_putJournal h (fun _ => rfl) appended,fun id hid => ?_,fun id hid => ?_⟩
    · exact (entries_putJournal ..).trans (if_neg (not_found found hid))
    · simp only [records_putJournal, SessionStore.putRecord, BTreeMap.mem_keys_insert]
      exact .inr hid

theorem Numbered.step (h : Numbered store) (hgrows : Grows store next) : Numbered next where
  numbered id := by
    have hnumbers := h.numbered id
    have hgrown := hgrows.entries id
    generalize next.entries id = grown at hgrown ⊢
    cases hgrown with
    | same => exact hnumbers
    | append sequence stream =>
      rw [List.map_append, hnumbers, List.length_append, List.length_singleton,
        List.range'_concat, List.map_singleton, sequence]
      simp only [Nat.one_mul, Nat.add_comm]
  streams id := by
    have hstreams := h.streams id
    have hgrown := hgrows.entries id
    generalize next.entries id = grown at hgrown ⊢
    cases hgrown with
    | same => exact hstreams
    | append sequence stream =>
      intro entry hentry
      rcases List.mem_append.mp hentry with hold | hnew
      · exact hstreams entry hold
      · rw [List.mem_singleton.mp hnew]
        exact stream
  unknown id hid := by
    have hold : id ∉ store.records.keys := fun hknown => hid (hgrows.records id hknown)
    rw [hgrows.known id hold]
    exact h.unknown id hold

end Commands

/-! ## Snapshots -/

/-- The journal of a session as the updates that the client is sent. -/
def SessionStore.updates (store : SessionStore (SessionChange D R)) (id : SessionId) :
    List (SessionUpdate D R) :=
  (store.entries id).map fun entry => ⟨id,entry.sequence,entry.payload⟩

theorem isPrefix_updates {store next : SessionStore (SessionChange D R)} (h : Grows store next)
    (id : SessionId) : store.updates id <+: next.updates id := by
  unfold SessionStore.updates
  apply List.IsPrefix.map
  have hgrown := h.entries id
  generalize next.entries id = grown at hgrown ⊢
  cases hgrown with
  | same => exact List.prefix_rfl
  | append => exact List.prefix_append ..

theorem readUpdates_eq_ok {id : SessionId} {expected : U64}
    {entries : List (SessionJournalEntry (SessionChange D R))} {updates : List (SessionUpdate D R)}
    (h : readUpdates id expected entries = .ok updates) :
    updates = entries.map fun entry => ⟨id,entry.sequence,entry.payload⟩ := by
  induction entries generalizing expected updates with
  | nil =>
    cases h
    rfl
  | cons entry entries ih =>
    unfold readUpdates at h
    split_ifs at h
    cases hnext : checkedSucc expected with
    | none => simp [hnext] at h
    | some next =>
      rw [hnext] at h
      obtain ⟨update,hupdate,h⟩ := bind_eq_ok.mp h
      obtain ⟨rest,hrest,h⟩ := bind_eq_ok.mp h
      cases h
      unfold sessionUpdateFromJournal at hupdate
      split_ifs at hupdate
      cases hupdate
      rw [List.map_cons, ih hrest]

/-- A snapshot that holds the whole journal of its session. -/
structure Whole (store : SessionStore (SessionChange D R)) (id : SessionId)
    (snapshot : SessionSnapshot D R) : Prop where
  session : snapshot.session.sessionId = id
  updates : snapshot.updates = store.updates id
  through : snapshot.throughSequence.val = (store.entries id).length

section Load
variable {worker next : ApplicationWorker D R H}

theorem sessionRecord_eq_ok {id : SessionId} {record : Option SessionRecord}
    (h : sessionRecord id worker = .ok record next) : record = worker.sessions.records.get? id := by
  obtain ⟨response,invoked,hinvoke,h⟩ := stateful_bind_eq_ok.mp h
  have heffect := (invokeSession_eq_ok hinvoke).effect
  generalize invoked.sessions = sessions at heffect
  cases heffect with
  | get =>
    cases h
    rfl

theorem loadSessionSnapshot_eq_ok (hnumbered : Numbered worker.sessions) {id : SessionId}
    {snapshot : SessionSnapshot D R}
    (h : loadSessionSnapshot ⟨id,none⟩ worker = .ok snapshot next) :
    Whole worker.sessions id snapshot := by
  obtain ⟨record,read,hread,h⟩ := stateful_bind_eq_ok.mp h
  have hrecord := sessionRecord_eq_ok hread
  have hsame : read.sessions = worker.sessions := by
    rw [(reads_sessionRecord id).ok hread]
  cases hget : worker.sessions.records.get? id with
  | none =>
    rw [hrecord, hget] at h
    cases h
  | some session =>
    rw [hrecord, hget] at h
    obtain ⟨info,hinfo,h⟩ := check_bind_eq_ok.mp h
    obtain ⟨response,invoked,hinvoke,h⟩ := stateful_bind_eq_ok.mp h
    have heffect := (invokeSession_eq_ok hinvoke).effect
    rw [hsame] at heffect
    generalize invoked.sessions = sessions at heffect
    cases heffect with
    | journal found streams =>
      dsimp only at h
      split_ifs at h with hahead
      · cases h
      obtain ⟨updates,hupdates,h⟩ := check_bind_eq_ok.mp h
      cases h
      refine ⟨?_,readUpdates_eq_ok hupdates,hnumbered.last id⟩
      unfold applicationSessionInfo at hinfo
      cases hdirectory : session.workingDirectory with
      | none => simp [hdirectory] at hinfo
      | some directory =>
        simp only [hdirectory, Except.ok.injEq] at hinfo
        rw [← hinfo]
        exact worker.sessions.named id session hget

end Load

end PhenixConductor.Application

import PhenixConductor.Sessions.Concurrency

/-! # The integrity of the session store

Over every interleaving in which no session is closed between the check and the commit of an
entry, the store is a set of logs that grow at their ends, with an exact list of ids.
-/
namespace PhenixConductor.Sessions
open Collections Contract SessionCell
open Execution (U64)
variable {C : Type}

/-! ## Resources -/

theorem rsplitOnce_append {front back : List Char} (h : '/' ∉ back) :
    rsplitOnce (front ++ '/' :: back) = some (front,back) := by
  have hback : ∀ c ∈ back.reverse, decide (c ≠ '/') = true := by
    intro c hc
    rw [decide_eq_true_eq]
    rintro rfl
    exact h (List.mem_reverse.mp hc)
  have hreverse : (front ++ '/' :: back).reverse = back.reverse ++ '/' :: front.reverse := by
    simp
  rw [rsplitOnce,if_pos (by simp),hreverse,List.takeWhile_append_of_pos hback,
    List.dropWhile_append_of_pos hback]
  simp

theorem parseResource_append (start invalid : String) (id : SessionId) (n : U64) :
    parseResource start invalid (start ++ id.text ++ "/" ++ Nat.repr n.val) =
      .ok (id,n.val) := by
  have hslash : '/' ∉ (Nat.repr n.val).toList := by
    intro hmem
    rw [Nat.toList_repr] at hmem
    have hdigit := Nat.isDigit_of_mem_toDigits (by omega) (by omega) hmem
    simp at hdigit
  have htext : (id.text ++ ("/" ++ Nat.repr n.val)).toList =
      id.text.toList ++ '/' :: (Nat.repr n.val).toList := by
    simp
  rw [parseResource,String.append_assoc,String.append_assoc,stripPrefix_append,htext]
  simp only [Option.elim_some,ok_bind,rsplitOnce_append hslash,String.ofList_toList,
    parseIdentifier_text,parseNumeral_repr n.isLt]
  rfl

theorem parse_sessionInputResource (invalid : String) (id : SessionId) (n : U64) :
    parseResource "input/" invalid (sessionInputResource id n) = .ok (id,n.val) :=
  parseResource_append "input/" invalid id n

theorem parse_sessionHistoryResource (invalid : String) (id : SessionId) (n : U64) :
    parseResource "history/" invalid (sessionHistoryResource id n) = .ok (id,n.val) :=
  parseResource_append "history/" invalid id n

theorem sessionInputResource_injective {id id' : SessionId} {n n' : U64}
    (h : sessionInputResource id n = sessionInputResource id' n') : id = id' ∧ n = n' := by
  have hparse := parse_sessionInputResource "" id n
  rw [h,parse_sessionInputResource] at hparse
  simpa [Fin.ext_iff,eq_comm] using hparse

theorem sessionHistoryResource_injective {id id' : SessionId} {n n' : U64}
    (h : sessionHistoryResource id n = sessionHistoryResource id' n') : id = id' ∧ n = n' := by
  have hparse := parse_sessionHistoryResource "" id n
  rw [h,parse_sessionHistoryResource] at hparse
  simpa [Fin.ext_iff,eq_comm] using hparse

theorem find?_of_nodup {α β : Type} [DecidableEq β] (key : α → β) {entries : List α}
    (h : (entries.map key).Nodup) {entry : α} (hentry : entry ∈ entries) :
    entries.find? (fun e => key e = key entry) = some entry := by
  induction entries with
  | nil => cases hentry
  | cons first rest ih =>
    obtain ⟨hfirst,hrest⟩ := List.nodup_cons.mp h
    by_cases hkey : key first = key entry
    · rw [List.find?_cons_of_pos (by simpa using hkey)]
      rcases List.mem_cons.mp hentry with rfl | hmem
      · rfl
      · exact absurd (hkey ▸ List.mem_map_of_mem hmem) hfirst
    · rw [List.find?_cons_of_neg (by simpa using hkey)]
      refine ih hrest ((List.mem_cons.mp hentry).resolve_left ?_)
      rintro rfl
      exact hkey rfl

theorem Sequenced.find? {α : Type} {sequenceOf : α → U64} {entries : List α}
    (h : Sequenced (entries.map sequenceOf)) {entry : α} (hentry : entry ∈ entries) :
    entries.find? (fun e => (sequenceOf e).val = (sequenceOf entry).val) = some entry := by
  refine find?_of_nodup (fun e => (sequenceOf e).val) ?_ hentry
  have hnodup : ((entries.map sequenceOf).map (·.val)).Nodup := by
    rw [h]
    exact List.nodup_range'
  simpa [Function.comp_def] using hnodup

section Alone
variable [DecidableEq C] {used : SessionId → ContractId → Prop} {s : SessionCells C}

/-- The answer of a program that runs on its own while nothing fails. -/
def answer {α : Type} (program : SessionM C α) (s : SessionCells C) : Except String α :=
  (program.run serveStore (fun _ => ⟨none,fun _ => ()⟩) s).1

theorem answer_readRaw_bind {α : Type} {cell : SessionCell}
    {f : Option (cell.Content C) → SessionM C α} :
    answer (readRaw cell >>= f) s = answer (f (s cell)) s := rfl

theorem answer_check_bind {α β : Type} {result : Except String α} {a : α}
    {f : α → SessionM C β} (h : result = .ok a) :
    answer (check result >>= f) s = answer (f a) s := by
  rw [h]
  rfl

/-- The resource of a stored input resolves to that input. -/
theorem resolveInputResource_stored (hs : Stored used s) {id : SessionId} {input : SessionInput}
    (h : input ∈ decode (s (.inputs id))) :
    answer (resolveInputResource (sessionInputResource id input.sequence)) s =
      .ok (some input) := by
  have hinputs : (s (.inputs id)).isSome := by
    cases hnone : s (.inputs id) with
    | none => simp [hnone,decode] at h
    | some inputs => rfl
  have hsession := hs.inputsOwned id hinputs
  rw [resolveInputResource,answer_check_bind (parse_sessionInputResource _ id _)]
  dsimp only
  rw [readSession,answer_readRaw_bind,if_neg (by simpa [Option.isSome_iff_ne_none] using hsession),answer_readRaw_bind]
  exact congrArg Except.ok (Sequenced.find? (hs.inputs id) h)

/-- The resource of a stored history entry resolves to that entry. -/
theorem resolveHistoryResource_stored (hs : Stored used s) {id : SessionId}
    {entry : SessionHistoryEntry C} (h : entry ∈ decode (s (.history id))) :
    answer (resolveHistoryResource (sessionHistoryResource id entry.sequence)) s =
      .ok (some entry) := by
  have hhistory : (s (.history id)).isSome := by
    cases hnone : s (.history id) with
    | none => simp [hnone,decode] at h
    | some entries => rfl
  have hsession := hs.historyOwned id hhistory
  rw [resolveHistoryResource,answer_check_bind (parse_sessionHistoryResource _ id _)]
  dsimp only
  rw [readSession,answer_readRaw_bind,if_neg (by simpa [Option.isSome_iff_ne_none] using hsession),answer_readRaw_bind]
  exact congrArg Except.ok (Sequenced.find? (hs.history id) h)

end Alone

/-! ## Runs -/

abbrev SessionPool (C : Type) := Pool (SessionCommand C)
  (StoreRequest.Answer (V := SessionCell.Content C) NoReply) String (SessionResponse C)
  (SessionCells C)

abbrev SessionEvent (C : Type) := PoolEvent (SessionCommand C) SessionTurn

/-- The sessions and streams of the commands that are started. -/
def journalPairs (events : List (SessionEvent C)) : List (SessionId × ContractId) :=
  events.filterMap fun event => match event with
    | .start x => x.journalPair
    | .turn _ _ => none

/-- No id of a journal goes on with what the stream of another one begins with. -/
def Apart (events : List (SessionEvent C)) : Prop :=
  ∀ p ∈ journalPairs events, ∀ q ∈ journalPairs events, ¬Overlaps p.1 p.2 q.1 q.2

/-- The pairs of the commands that a run starts are the ones that journals are kept for. -/
theorem used_of_start {events : List (SessionEvent C)} {x : SessionCommand C} (hx : .start x ∈ events) :
    ∀ p ∈ x.journalPair, (p.1,p.2) ∈ journalPairs events :=
  fun _ hp => List.mem_filterMap.mpr ⟨.start x,hx,hp⟩

variable [DecidableEq C]

def sessionStep : SessionPool C → SessionEvent C → SessionPool C := Pool.step serveStore handle

/-- Nothing is stored, and no command is under way. -/
def emptyPool : SessionPool C := ⟨fun _ => none,[]⟩

/-- The store after some events on an empty one. -/
def storeAfter (events : List (SessionEvent C)) : SessionCells C :=
  (runAll sessionStep emptyPool events).state

/-- No session is closed between the check of an entry and its commit. -/
abbrev NotClosedMeanwhile (events : List (SessionEvent C)) : Prop :=
  Along sessionStep (fun pool event => pool.Turn StillOpen event) emptyPool events

/-- Each session and each pair of a session and a stream has keys of its own, and what is in a
journal has its stream. -/
structure Separate (events : List (SessionEvent C)) : Prop where
  keys : Function.Injective key
  journals : ∀ p ∈ journalPairs events, ∀ q ∈ journalPairs events,
    journalCell p.1 p.2 = journalCell q.1 q.2 → p = q
  streams : ∀ p ∈ journalPairs events,
    ∀ entry ∈ decode (storeAfter events (journalCell p.1 p.2)), entry.stream = p.2

/-- The store as a set of append-only logs with an exact index, over all moments of a run. -/
structure Intact (events : List (SessionEvent C)) : Prop where
  sorted : (decode (storeAfter events .all)).Pairwise (· < ·)
  exact : ∀ id, id ∈ decode (storeAfter events .all) ↔ (storeAfter events (.session id)).isSome
  inputs : ∀ id, Sequenced ((decode (storeAfter events (.inputs id))).map (·.sequence))
  history : ∀ id, Sequenced ((decode (storeAfter events (.history id))).map (·.sequence))
  journal : ∀ id stream,
    Sequenced ((decode (storeAfter events (journalCell id stream))).map (·.sequence))
  later : ∀ before after, events = before ++ after →
    Later (storeAfter before) (storeAfter events)
  /-- What is committed for a session finds it open. -/
  writes : Along sessionStep (fun pool event =>
    pool.Turn (fun _ _ turn r s => WritesOpen turn r s) event) emptyPool events
  together : Along sessionStep (fun pool event =>
    pool.Turn (fun x _ turn r s => Together s (serveStore turn r s).2 x) event) emptyPool events
  inputResources : ∀ id, ∀ input ∈ decode (storeAfter events (.inputs id)),
    answer (resolveInputResource (sessionInputResource id input.sequence)) (storeAfter events) =
        .ok (some input) ∧
      ∀ id', ∀ input' ∈ decode (storeAfter events (.inputs id')),
        sessionInputResource id' input'.sequence = sessionInputResource id input.sequence →
        id' = id ∧ input' = input
  historyResources : ∀ id, ∀ entry ∈ decode (storeAfter events (.history id)),
    answer (resolveHistoryResource (sessionHistoryResource id entry.sequence))
        (storeAfter events) = .ok (some entry) ∧
      ∀ id', ∀ entry' ∈ decode (storeAfter events (.history id')),
        sessionHistoryResource id' entry'.sequence = sessionHistoryResource id entry.sequence →
        id' = id ∧ entry' = entry

theorem handle_teamwork (used : SessionId → ContractId → Prop) :
    Teamwork serveStore (handle (C := C)) (fun x => ∀ p ∈ x.journalPair, used p.1 p.2)
      (Stored used) (Advances used) StillOpen (fun x _ => Does used x) where
  refl s hs := ⟨hs,.refl s⟩
  trans _ _ _ := .trans
  keeps _ _ h _ := h.stored
  provides _ _ _ _ _ _ _ hs h := h.advances hs
  starts x s hx _ := handle_cooperates x hx s

section Run
variable {events : List (SessionEvent C)}

theorem stored_after (h : NotClosedMeanwhile events) :
    Stored (fun id stream => (id,stream) ∈ journalPairs events) (storeAfter events) :=
  ((handle_teamwork fun id stream => (id,stream) ∈ journalPairs events).run
    (Teamwork.working_idle (stored_empty _)) (fun _ => used_of_start) h).1.invariant

theorem along_does (h : NotClosedMeanwhile events) :
    Along sessionStep (fun pool event => pool.Turn (fun x _ turn r s =>
      Does (fun id stream => (id,stream) ∈ journalPairs events) x turn r s
        (serveStore turn r s).2) event) emptyPool events :=
  ((handle_teamwork fun id stream => (id,stream) ∈ journalPairs events).run
    (Teamwork.working_idle (stored_empty _)) (fun _ => used_of_start) h).2.2

theorem later_after {before after : List (SessionEvent C)}
    (h : NotClosedMeanwhile (before ++ after)) :
    Later (storeAfter before) (storeAfter (before ++ after)) :=
  ((handle_teamwork fun id stream => (id,stream) ∈ journalPairs (before ++ after)).run_between
    (Teamwork.working_idle (stored_empty _)) (fun _ => used_of_start) h).later

theorem intact_of_notClosedMeanwhile (h : NotClosedMeanwhile events) : Intact events where
  sorted := (stored_after h).sorted
  exact := (stored_after h).exact
  inputs := (stored_after h).inputs
  history := (stored_after h).history
  journal id stream := (stored_after h).journal (journalPlace id stream)
  later before after hevents := by
    subst hevents
    exact later_after h
  writes := (along_does h).mono fun _ _ hdoes => hdoes.mono fun _ _ _ _ _ hthis => hthis.writes
  together := (along_does h).mono fun _ _ hdoes => hdoes.mono fun _ _ _ _ _ hthis =>
    hthis.together
  inputResources id input hinput := by
    refine ⟨resolveInputResource_stored (stored_after h) hinput,fun id' input' hinput' hsame => ?_⟩
    obtain ⟨rfl,hsequence⟩ := sessionInputResource_injective hsame
    have hfound := Sequenced.find? ((stored_after h).inputs id') hinput'
    rw [hsequence,Sequenced.find? ((stored_after h).inputs id') hinput] at hfound
    exact ⟨rfl,(Option.some.inj hfound).symm⟩
  historyResources id entry hentry := by
    refine ⟨resolveHistoryResource_stored (stored_after h) hentry,fun id' entry' hentry' hsame => ?_⟩
    obtain ⟨rfl,hsequence⟩ := sessionHistoryResource_injective hsame
    have hfound := Sequenced.find? ((stored_after h).history id') hentry'
    rw [hsequence,Sequenced.find? ((stored_after h).history id') hentry] at hfound
    exact ⟨rfl,(Option.some.inj hfound).symm⟩

theorem not_overlaps_self (id : SessionId) (stream : ContractId) :
    ¬Overlaps id stream id stream := by
  rintro ⟨middle,hid,-⟩
  have hlength := congrArg String.length hid
  rw [String.length_append,String.length_append] at hlength
  have hslash : "/".length = 1 := rfl
  omega

theorem separate_iff_apart (h : NotClosedMeanwhile events) : Separate events ↔ Apart events := by
  constructor
  · intro hseparate p hp q hq hoverlaps
    have hplace : journalPlace p.1 p.2 = journalPlace q.1 q.2 :=
      journalPlace_eq_iff.mpr (.inr (.inl hoverlaps))
    obtain rfl := hseparate.journals p hp q hq (congrArg journal hplace)
    exact not_overlaps_self p.1 p.2 hoverlaps
  · intro hapart
    have hjournals : ∀ p ∈ journalPairs events, ∀ q ∈ journalPairs events,
        journalCell p.1 p.2 = journalCell q.1 q.2 → p = q := by
      intro p hp q hq hcell
      rcases journalPlace_eq_iff.mp (journal.inj hcell) with
        hsame | hoverlaps | hoverlaps
      · exact Prod.ext hsame.1 hsame.2
      · exact absurd hoverlaps (hapart p hp q hq)
      · exact absurd hoverlaps (hapart q hq p hp)
    refine ⟨key_injective,hjournals,fun p hp entry hentry => ?_⟩
    obtain ⟨id,hused,hplace⟩ := (stored_after h).written _ entry hentry
    exact (congrArg Prod.snd (hjournals p hp _ hused (congrArg journal hplace))).symm

/-- Where no session is closed between the check and the commit of an entry, the store is intact,
and it keeps all journals apart exactly where no ids overlap. -/
theorem sessions_intact (events : List (SessionEvent C)) (h : NotClosedMeanwhile events) :
    Intact events ∧ (Separate events ↔ Apart events) :=
  ⟨intact_of_notClosedMeanwhile h,separate_iff_apart h⟩

end Run

instance StillOpen.decidable (x : SessionCommand C) (log : SessionLog C) (turn : SessionTurn) :
    (r : SessionRequest C) → (s : SessionCells C) → Decidable (StillOpen x log turn r s)
  | .commit _, s => decidable_of_iff
      (∀ id ∈ x.appendsTo, ∀ value ∈ readings (session id) log,
        ∀ record ∈ value, (s (.session id)).map (·.lifecycle) = some record.lifecycle) (by
        simp only [StillOpen,mem_readings,Option.map_eq_some_iff]
        refine forall₂_congr fun id _ => ⟨fun h record hread => h _ hread record rfl,?_⟩
        rintro h value hread record rfl
        exact h record hread)
  | .read _, _ | .call _, _ => .isTrue trivial

def sessionOne : SessionId := ⟨"one",by decide⟩

/-- Requests of one program, none of which fails by itself. -/
def turns (process count : ℕ) : List (SessionEvent Unit) :=
  List.replicate count (.turn process ⟨none,fun _ => ()⟩)

theorem sessions_intact_continued :
    Intact ((.start (.create ⟨sessionOne,none,none,.open⟩) :: turns 0 3) ++
      .start (.continue sessionOne .user []) :: turns 1 3) := by
  exact (sessions_intact _ (by decide +kernel)).1

/-- An input is checked, then the session is closed, and only then the input is committed. -/
def continuedAfterClose : List (SessionEvent Unit) :=
  (.start (.create ⟨sessionOne,none,none,.open⟩) :: turns 0 3) ++
    (.start (.continue sessionOne .user []) :: turns 1 2) ++
    (.start (.close sessionOne) :: turns 2 2)

theorem continued_after_close : ¬Intact (continuedAfterClose ++ turns 1 1) := by
  intro h
  have hlater := (h.later continuedAfterClose (turns 1 1) rfl).closed sessionOne
    ⟨sessionOne,none,none,.closed⟩ (by decide +kernel) rfl
  have hinputs : storeAfter (continuedAfterClose ++ turns 1 1) (.inputs sessionOne) ≠
      storeAfter continuedAfterClose (.inputs sessionOne) := by
    decide +kernel
  exact hinputs hlater.1

end PhenixConductor.Sessions

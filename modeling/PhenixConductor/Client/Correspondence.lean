import PhenixConductor.Client.Translation

/-! # Agreement of the translation with the client

The client counts notifications of a session, the adapter numbers application updates.
-/
namespace PhenixConductor.Client
open Collections Contract StreamClient List
open Execution (U64)
variable {D R : Type}

/-- What the text and tool updates carry. -/
inductive Part
  | text (role : MessageRole) (executionId : Option String) (text : String)
  | toolCall (executionId callId callableId : String) (input : PhenixValue)
  | toolResult (executionId callId : String) (output : PhenixValue)
  | toolFailed (executionId callId : String) (error : ApplicationError)

/-- The parts of a change that has a form in the protocol; other changes travel whole. -/
def parts : SessionChange D R → List Part
  | .message message => ((texts message).getD []).map (.text message.role none)
  | .textDelta executionId text => [.text .assistant (some executionId) text]
  | .execution executionId (.toolCall callId callableId input) =>
    [.toolCall executionId callId callableId.text input]
  | .execution executionId (.toolResult callId output) => [.toolResult executionId callId output]
  | .execution executionId (.toolFailed callId error) => [.toolFailed executionId callId error]
  | _ => []

/-- The notification carries the part. -/
def Carries (encodings : Encodings D R) (notification : SessionNotification Correlated) :
    Part → Prop
  | .text role executionId text => notification.update = ⟨executionId,chunk role text⟩
  | .toolCall executionId callId callableId input => ∃ json, encodings.toJson input = .ok json ∧
    notification.update = ⟨some executionId,.toolCall callId callableId .inProgress json⟩
  | .toolResult executionId callId output => ∃ json, encodings.toJson output = .ok json ∧
    notification.update = ⟨some executionId,.toolCallUpdate callId .completed json⟩
  | .toolFailed executionId callId error =>
    ∃ json, encodings.toJson (encodings.errorValue error) = .ok json ∧
      notification.update = ⟨some executionId,.toolCallUpdate callId .failed json⟩

/-- Updates of one session with consecutive numbers. -/
def Stream (sessionId : SessionId) : ℕ → List (SessionUpdate D R) → Prop
  | _, [] => True
  | n, update :: updates =>
    update.sessionId = sessionId ∧ update.sequence.val = n ∧ Stream sessionId (n + 1) updates

/-- Updates of one part come first (the last number of all may be that of several parts), then
updates without one. -/
def Agreeing (updates : List (SessionUpdate D R)) : Prop :=
  ∃ counted whole, updates = counted ++ whole ∧
    (∀ update ∈ counted, (parts update.update).length = 1 ∨ update.sequence = U64.largest) ∧
    ∀ update ∈ whole, parts update.update = []

section Translation
variable {encodings : Encodings D R} {descriptor : ApplicationDescriptor}
  {update : SessionUpdate D R} {notifications : List TranslatedSessionUpdate}

/-- The notifications carry the parts of the update, or the update is an extension event. -/
inductive Translates (encodings : Encodings D R) (descriptor : ApplicationDescriptor)
    (update : SessionUpdate D R) : List TranslatedSessionUpdate → Prop
  | whole (event : ExtNotification) (hparts : parts update.update = [])
      (hevent : extensionFallback encodings descriptor update = .ok (.extension event)) :
      Translates encodings descriptor update [.extension event]
  | counted (standards : List (SessionNotification Correlated))
      (hparts : parts update.update ≠ [])
      (hcarries : List.Forall₂ (Carries encodings) standards (parts update.update))
      (hnumbered : ∀ notification ∈ standards, notification.sessionId = update.sessionId.text ∧
        notification.sequence = some update.sequence) :
      Translates encodings descriptor update (standards.map .standard)

theorem extensionFallback_event {item : TranslatedSessionUpdate}
    (h : extensionFallback encodings descriptor update = .ok item) :
    ∃ event, item = .extension event := by
  unfold extensionFallback at h
  split at h
  · cases htranslated : translateExtensionEvent encodings descriptor _
      (encodings.updateValue update) with
    | error error =>
      rw [htranslated] at h
      cases h
    | ok event =>
      rw [htranslated] at h
      cases h
      exact ⟨event,rfl⟩
  · cases h

theorem translates_whole (hparts : parts update.update = [])
    (h : (extensionFallback encodings descriptor update).map ([·]) = .ok notifications) :
    Translates encodings descriptor update notifications := by
  cases hfallback : extensionFallback encodings descriptor update with
  | error error =>
    rw [hfallback] at h
    cases h
  | ok item =>
    obtain ⟨event,rfl⟩ := extensionFallback_event hfallback
    rw [hfallback] at h
    cases h
    exact .whole event hparts hfallback

theorem translates_one {part : Part} {executionId : Option String} {acpUpdate : AcpSessionUpdate}
    (hparts : parts update.update = [part])
    (hcarries : Carries encodings
      (standard update.sessionId update.sequence executionId acpUpdate) part) :
    Translates encodings descriptor update
      [.standard (standard update.sessionId update.sequence executionId acpUpdate)] := by
  refine .counted [standard update.sessionId update.sequence executionId acpUpdate] ?_ ?_ ?_
  · simp [hparts]
  · rw [hparts]
    exact .cons hcarries .nil
  · simp [standard]

theorem encodeJson_ok {value : PhenixValue} {json : JsonValue}
    (h : encodeJson encodings value = .ok json) : encodings.toJson value = .ok json := by
  unfold encodeJson at h
  split at h
  · cases h
  · cases h
    assumption

theorem translates_encoded {executionId : String} {value : PhenixValue} {part : Part}
    {acpUpdate : JsonValue → AcpSessionUpdate} (hparts : parts update.update = [part])
    (hcarries : ∀ json, encodings.toJson value = .ok json → Carries encodings
      (standard update.sessionId update.sequence (some executionId) (acpUpdate json)) part)
    (h : (do
      let json ← encodeJson encodings value
      .ok [TranslatedSessionUpdate.standard (standard update.sessionId update.sequence
        (some executionId) (acpUpdate json))]) = .ok notifications) :
    Translates encodings descriptor update notifications := by
  obtain ⟨json,hjson,hnotifications⟩ := bind_eq_ok.mp h
  cases hnotifications
  exact translates_one hparts (hcarries json (encodeJson_ok hjson))

theorem translates_execution {executionId : String} {execution : ExecutionChange}
    (hparts : parts update.update = parts (.execution executionId execution : SessionChange D R))
    (h : translateExecutionChange encodings update.sessionId update.sequence executionId execution
      (extensionFallback encodings descriptor update) = .ok notifications) :
    Translates encodings descriptor update notifications := by
  cases execution with
  | toolCall callId callableId input =>
    exact translates_encoded hparts (fun json hjson => ⟨json,hjson,rfl⟩) h
  | toolResult callId output =>
    exact translates_encoded hparts (fun json hjson => ⟨json,hjson,rfl⟩) h
  | toolFailed callId error =>
    exact translates_encoded hparts (fun json hjson => ⟨json,hjson,rfl⟩) h
  | state state => exact translates_whole hparts h
  | progress message fraction => exact translates_whole hparts h

theorem translates_of_translate
    (h : translateSessionUpdate encodings descriptor update = .ok notifications) :
    Translates encodings descriptor update notifications := by
  unfold translateSessionUpdate at h
  cases hupdate : update.update with
  | message message =>
    simp only [hupdate] at h
    have hparts : parts update.update =
        ((texts message).getD []).map (.text message.role none) := by
      rw [hupdate]
      rfl
    cases htexts : texts message with
    | none =>
      rw [htexts] at h hparts
      exact translates_whole hparts h
    | some texts =>
      rw [htexts] at h hparts
      cases texts with
      | nil => exact translates_whole hparts h
      | cons text texts =>
        cases h
        have hmap : ∀ texts : List String, texts.map (fun text => TranslatedSessionUpdate.standard
            (standard update.sessionId update.sequence none (chunk message.role text))) =
              (texts.map fun text => standard update.sessionId update.sequence none
                (chunk message.role text)).map .standard := by simp
        rw [hmap]
        refine .counted _ (by simp [hparts]) ?_ (by simp [standard])
        rw [hparts,forall₂_map_left_iff,forall₂_map_right_iff,Option.getD_some,
          forall₂_same]
        intro _ _
        rfl
  | textDelta executionId text =>
    simp only [hupdate] at h
    cases h
    have hparts : parts update.update = [.text .assistant (some executionId) text] := by
      rw [hupdate]
      rfl
    exact translates_one hparts rfl
  | execution executionId execution =>
    simp only [hupdate] at h
    exact translates_execution (congrArg parts hupdate) h
  | renamed title | closed | diagnostic diagnostic | review review =>
    simp only [hupdate] at h
    exact translates_whole (congrArg parts hupdate) h

theorem translates_of_translateAll {updates : List (SessionUpdate D R)}
    (h : translateAll encodings descriptor updates = .ok notifications) :
    ∃ groups, Forall₂ (Translates encodings descriptor) updates groups ∧
      groups.flatten = notifications := by
  obtain ⟨groups,hgroups,hflatten⟩ := map_eq_ok.mp h
  exact ⟨groups,(mapM_eq_ok.mp hgroups).imp fun _ _ => translates_of_translate,hflatten⟩

end Translation

section Ordering
variable (fromStr : String → Except String PhenixValue)
  (extensions : BTreeMap String ExtensionEvent) {client : StreamClient}

/-- The notification is not refused as out of order. -/
def Ordered (client : StreamClient) (notification : TranslatedSessionUpdate) : Prop :=
  ∀ sessionId expected received, (client.receive fromStr extensions notification).1 ≠
    .error (.outOfOrderUpdate sessionId expected received)

theorem receive_extension (event : ExtNotification) :
    Ordered fromStr extensions client (.extension event) ∧
      (client.next fromStr extensions (.extension event)).updates = client.updates := by
  refine ⟨?_,rfl⟩
  intro sessionId expected received
  dsimp only [receive]
  unfold ExtensionUpdates.receive ExtensionUpdates.send
  split
  · nofun
  · split
    · nofun
    · split
      · nofun
      · split_ifs <;> nofun

variable {notification : SessionNotification Correlated} {sequence : U64}

/-- A standard notification is refused as out of order exactly if its number is not next. -/
theorem ordered_standard_iff (hsequence : notification.sequence = some sequence) :
    Ordered fromStr extensions client (.standard notification) ↔
      sequence = client.updates.ordered.expected notification.sessionId := by
  unfold Ordered
  dsimp only [receive]
  unfold SessionUpdates.receive
  rw [hsequence]
  by_cases hnext : sequence = client.updates.ordered.expected notification.sessionId
  · have haccepted : (client.updates.ordered.accept notification.sessionId sequence).1 =
        .ok () := by simp [OrderedUpdates.accept,hnext]
    dsimp only
    rw [haccepted]
    refine iff_of_true (fun sessionId expected received => ?_) hnext
    unfold SessionUpdates.send
    dsimp only
    split_ifs <;> simp
  · have hrefused : (client.updates.ordered.accept notification.sessionId sequence).1 =
        .error (.outOfOrderUpdate notification.sessionId
          (client.updates.ordered.expected notification.sessionId) sequence) := by
      simp [OrderedUpdates.accept,hnext]
    dsimp only
    rw [hrefused]
    exact iff_of_false (fun h => h _ _ _ rfl) hnext

theorem expected_next (hsequence : notification.sequence = some sequence)
    (hnext : sequence = client.updates.ordered.expected notification.sessionId) :
    (client.next fromStr extensions (.standard notification)).updates.ordered.expected
      notification.sessionId = saturatingAdd sequence 1 := by
  change (client.updates.receive notification).2.ordered.expected notification.sessionId = _
  rw [(receive_of_next hsequence hnext).1,OrderedUpdates.expected_accept_self hnext]

/-- The notifications of one update share its number: the client takes one of them, or all where
the number is its own successor. -/
theorem along_standards {sessionId : String} {standards : List (SessionNotification Correlated)}
    (hne : standards ≠ [])
    (hnumbered : ∀ notification ∈ standards, notification.sessionId = sessionId ∧ notification.sequence = some sequence)
    (hnext : sequence = client.updates.ordered.expected sessionId) :
    (Along (next fromStr extensions) (Ordered fromStr extensions) client
        (standards.map .standard) ↔ standards.length = 1 ∨ sequence = U64.largest) ∧
      (standards.length = 1 ∨ sequence = U64.largest →
        (runAll (next fromStr extensions) client
          (standards.map .standard)).updates.ordered.expected sessionId =
            saturatingAdd sequence 1) := by
  induction standards generalizing client with
  | nil => exact absurd rfl hne
  | cons notification standards ih =>
    obtain ⟨rfl,hsequence⟩ := hnumbered notification (by simp)
    have hfirst := (ordered_standard_iff fromStr extensions
      hsequence).mpr hnext
    have hexpected := expected_next fromStr extensions
      hsequence hnext
    rw [map_cons,Along,and_iff_right hfirst,runAll_cons]
    cases standards with
    | nil => exact ⟨iff_of_true trivial (.inl rfl),fun _ => hexpected⟩
    | cons second standards =>
      have hrest := fun n hn => hnumbered n (mem_cons_of_mem notification hn)
      by_cases hlargest : sequence = U64.largest
      · have hnext' := hexpected.trans (saturatingAdd_one_eq_self.mpr hlargest)
        have hih := ih (by simp) hrest hnext'.symm
        exact ⟨iff_of_true (hih.1.mpr (.inr hlargest)) (.inr hlargest),
          fun _ => hih.2 (.inr hlargest)⟩
      · obtain ⟨hsession,hsecond⟩ := hrest second (by simp)
        have hrefused : ¬Ordered fromStr extensions
            (client.next fromStr extensions (.standard notification)) (.standard second) := by
          rw [ordered_standard_iff fromStr extensions hsecond,hsession,hexpected]
          exact fun he => hlargest (saturatingAdd_one_eq_self.mp he.symm)
        refine ⟨iff_of_false (fun h => hrefused h.1) ?_,fun h => absurd h ?_⟩ <;>
          simp [hlargest]

variable {updates : List (SessionUpdate D R)}

variable {encodings : Encodings D R} {descriptor : ApplicationDescriptor} {sessionId : SessionId}
  {groups : List (List TranslatedSessionUpdate)}

/-- Where the client is behind the numbers that come, it takes extension events only. -/
theorem along_behind {n : ℕ}
    (hgroups : Forall₂ (Translates encodings descriptor) updates groups)
    (hstream : Stream sessionId n updates)
    (hbehind : (client.updates.ordered.expected sessionId.text).val < n) :
    Along (next fromStr extensions) (Ordered fromStr extensions) client
      groups.flatten ↔ ∀ update ∈ updates, parts update.update = [] := by
  induction hgroups generalizing client n with
  | nil => exact iff_of_true trivial nofun
  | @cons update _ updates groups hfirst _ ih =>
    obtain ⟨hsession,hsequence,hstream⟩ := hstream
    rw [flatten_cons,along_append,forall_mem_cons]
    cases hfirst with
    | whole event hparts _ =>
      obtain ⟨hordered,hsame⟩ : Ordered fromStr extensions client (.extension event) ∧ _ :=
        receive_extension fromStr extensions event
      rw [and_iff_right hparts]
      refine (and_iff_right ⟨hordered,trivial⟩).trans (ih hstream ?_)
      rw [runAll_cons,runAll_nil,hsame]
      omega
    | counted standards hparts hcarries hnumbered =>
      refine iff_of_false ?_ fun h => hparts h.1
      cases standards with
      | nil => exact absurd (forall₂_nil_left_iff.mp hcarries) hparts
      | cons notification standards =>
        rintro ⟨⟨hordered,-⟩,-⟩
        obtain ⟨hid,hnumber⟩ := hnumbered notification (by simp)
        rw [ordered_standard_iff fromStr extensions hnumber,hid,hsession] at hordered
        rw [← hordered] at hbehind
        omega

theorem agreeing_whole {n : ℕ} {update : SessionUpdate D R}
    (hstream : Stream sessionId n (update :: updates)) (hparts : parts update.update = []) :
    Agreeing (update :: updates) ↔ ∀ later ∈ updates, parts later.update = [] := by
  constructor
  · rintro ⟨counted,whole,heq,hcounted,hwhole⟩
    cases counted with
    | nil =>
      subst heq
      exact (forall_mem_cons.mp hwhole).2
    | cons first counted =>
      obtain ⟨rfl,rfl⟩ := List.cons.inj heq
      have hlargest : update.sequence = U64.largest :=
        (hcounted update (by simp)).resolve_left (by simp [hparts])
      -- no number follows the largest one
      change ∀ later ∈ counted ++ whole,parts later.update = []
      change Stream sessionId n (update :: (counted ++ whole)) at hstream
      cases hlater : counted ++ whole with
      | nil => simp
      | cons later _ =>
        rw [hlater] at hstream
        have hnumber := hstream.2.2.2.1
        have hfirst := hstream.2.1
        rw [hlargest] at hfirst
        change 2 ^ 64 - 1 = n at hfirst
        omega
  · exact fun h => ⟨[],update :: updates,rfl,nofun,forall_mem_cons.mpr ⟨hparts,h⟩⟩

theorem agreeing_counted {update : SessionUpdate D R} (hparts : parts update.update ≠ []) :
    Agreeing (update :: updates) ↔
      ((parts update.update).length = 1 ∨ update.sequence = U64.largest) ∧ Agreeing updates := by
  constructor
  · rintro ⟨counted,whole,heq,hcounted,hwhole⟩
    cases counted with
    | nil =>
      subst heq
      exact absurd (hwhole update (by simp)) hparts
    | cons first counted =>
      obtain ⟨rfl,rfl⟩ := List.cons.inj heq
      obtain ⟨hfirst,hcounted⟩ := forall_mem_cons.mp hcounted
      exact ⟨hfirst,counted,whole,rfl,hcounted,hwhole⟩
  · rintro ⟨hfirst,counted,whole,rfl,hcounted,hwhole⟩
    exact ⟨update :: counted,whole,rfl,forall_mem_cons.mpr ⟨hfirst,hcounted⟩,hwhole⟩

/-- The client starts at the first number of the stream; past the last number of all it stays. -/
theorem along_ordered_iff {n : ℕ}
    (hgroups : Forall₂ (Translates encodings descriptor) updates groups)
    (hstream : Stream sessionId n updates)
    (hnext : (client.updates.ordered.expected sessionId.text).val = min n (2 ^ 64 - 1)) :
    Along (next fromStr extensions) (Ordered fromStr extensions) client
      groups.flatten ↔ Agreeing updates := by
  induction hgroups generalizing client n with
  | nil => exact iff_of_true trivial ⟨[],[],rfl,nofun,nofun⟩
  | @cons update _ updates groups hfirst hrest ih =>
    have hsequence : update.sequence.val = n := hstream.2.1
    rw [flatten_cons,along_append]
    cases hfirst with
    | whole event hparts _ =>
      obtain ⟨hordered,hsame⟩ : Ordered fromStr extensions client (.extension event) ∧ _ :=
        receive_extension fromStr extensions event
      rw [agreeing_whole hstream hparts]
      refine (and_iff_right ⟨hordered,trivial⟩).trans 
        (along_behind fromStr extensions hrest hstream.2.2 ?_)
      rw [runAll_cons,runAll_nil,hsame]
      omega
    | counted standards hparts hcarries hnumbered =>
      have hexpected : update.sequence = client.updates.ordered.expected update.sessionId.text := by
        apply Fin.ext
        rw [hstream.1]
        omega
      have hne : standards ≠ [] := by
        rintro rfl
        exact hparts (forall₂_nil_left_iff.mp hcarries)
      obtain ⟨hiff,hafter⟩ := along_standards fromStr extensions
        hne hnumbered hexpected
      rw [agreeing_counted hparts,hiff,← hcarries.length_eq]
      refine and_congr_right fun htaken => ih hstream.2.2 ?_
      rw [← hstream.1,hafter htaken,val_saturatingAdd,hsequence]
      rfl

end Ordering

section Delivery
variable {encodings : Encodings D R} {descriptor : ApplicationDescriptor}
  {extensions : BTreeMap String ExtensionEvent} {client : StreamClient}
  {updates : List (SessionUpdate D R)} {groups : List (List TranslatedSessionUpdate)}
  {notifications : List TranslatedSessionUpdate}

/-- The standard notifications among the translated ones. -/
def standards (notifications : List TranslatedSessionUpdate) :
    List (SessionNotification Correlated) :=
  notifications.filterMap fun
    | .standard notification => some notification
    | .extension _ => none

/-- The extension events among the translated ones. -/
def events (notifications : List TranslatedSessionUpdate) : List ExtNotification :=
  notifications.filterMap fun
    | .standard _ => none
    | .extension event => some event

/-- The updates that have no form in the protocol. -/
def whole (updates : List (SessionUpdate D R)) : List (SessionUpdate D R) :=
  updates.filter fun update => (parts update.update).isEmpty

theorem standards_carry (h : Forall₂ (Translates encodings descriptor) updates groups) :
    Forall₂ (Carries encodings) (standards groups.flatten)
      (updates.flatMap fun update => parts update.update) := by
  induction h with
  | nil => exact .nil
  | @cons update _ updates groups hfirst _ ih =>
    rw [flatten_cons, standards, filterMap_append]
    refine rel_append ?_ ih
    cases hfirst with
    | whole event hparts _ => simp [hparts]
    | counted carrying _ hcarries _ =>
      simpa [Function.comp_def] using hcarries

theorem events_whole (h : Forall₂ (Translates encodings descriptor) updates groups) :
    Forall₂ (fun update event =>
        extensionFallback encodings descriptor update = .ok (.extension event))
      (whole updates) (events groups.flatten) := by
  induction h with
  | nil => exact .nil
  | @cons update _ updates groups hfirst _ ih =>
    cases hfirst with
    | whole event hparts hevent =>
      rw [whole,filter_cons_of_pos (by simp [hparts])]
      exact .cons hevent ih
    | counted carrying hparts _ _ =>
      have hnone : events (carrying.map .standard ++ groups.flatten) = events groups.flatten := by
        simp [events,filterMap_map]
      rw [flatten_cons,hnone,whole,filter_cons_of_neg (by simpa using hparts)]
      exact ih

/-- A queue that is open to every update takes each one that is in order. -/
theorem queue_of_ordered (hconnected : client.updates.connected = true)
    (hunbounded : client.updates.capacity = none)
    (h : Along (next encodings.fromStr extensions)
      (Ordered encodings.fromStr extensions) client notifications) :
    (runAll (next encodings.fromStr extensions) client notifications).updates.queue =
      client.updates.queue ++ standards notifications := by
  induction notifications generalizing client with
  | nil => simp [standards]
  | cons notification notifications ih =>
    rw [runAll_cons]
    cases notification with
    | extension event => exact ih hconnected hunbounded h.2
    | standard notification =>
      have hsend : ∀ s : SessionUpdates Correlated, s.connected = true → s.capacity = none →
          (s.send notification).2.queue = s.queue ++ [notification] ∧
            (s.send notification).2.connected = true ∧ (s.send notification).2.capacity = none := by
        intro s hs hcapacity
        simp [SessionUpdates.send,SessionUpdates.full,hs,hcapacity]
      have htaken : (client.updates.receive notification).2.queue =
            client.updates.queue ++ [notification] ∧
          (client.updates.receive notification).2.connected = true ∧
          (client.updates.receive notification).2.capacity = none := by
        cases hsequence : notification.sequence with
        | none =>
          unfold SessionUpdates.receive
          rw [hsequence]
          exact hsend _ hconnected hunbounded
        | some sequence =>
          have hnext := (ordered_standard_iff encodings.fromStr extensions hsequence).mp h.1
          have haccepted : (client.updates.ordered.accept notification.sessionId sequence).1 =
              .ok () := by simp [OrderedUpdates.accept,hnext]
          unfold SessionUpdates.receive
          rw [hsequence]
          dsimp only
          rw [haccepted]
          exact hsend { client.updates with
            ordered := (client.updates.ordered.accept notification.sessionId sequence).2 }
              hconnected hunbounded
      have hrest := ih htaken.2.1 htaken.2.2 h.2
      rw [hrest]
      change (client.updates.receive notification).2.queue ++ _ = _
      rw [htaken.1]
      simp [standards]

/-- The client knows the session update event under its method name. -/
def Advertised (descriptor : ApplicationDescriptor)
    (extensions : BTreeMap String ExtensionEvent) : Prop :=
  ∀ id declaration schema, id.text = sessionUpdateEvent →
    descriptor.events.get? id = some declaration →
      descriptor.types.get? declaration.payload = some schema →
        extensions.get? (extensionName id) = some ⟨id,schema⟩

/-- The JSON text of the update reads back. -/
def Readable (encodings : Encodings D R) (update : SessionUpdate D R) : Prop :=
  ∀ raw, encodings.toRawValue (encodings.updateValue update) = .ok raw →
    encodings.fromStr raw = .ok (encodings.updateValue update)

theorem receive_whole {update : SessionUpdate D R} {event : ExtNotification}
    (hconnected : client.extensionUpdates.connected = true)
    (hunbounded : client.extensionUpdates.capacity = none)
    (hadvertised : Advertised descriptor extensions) (hreadable : Readable encodings update)
    (h : extensionFallback encodings descriptor update = .ok (.extension event)) :
    ∃ id, (client.extensionUpdates.receive encodings.fromStr extensions event).2 =
      { client.extensionUpdates with queue :=
        client.extensionUpdates.queue ++ [⟨id,encodings.updateValue update⟩] } := by
  unfold extensionFallback at h
  split at h
  · next id entry hfind =>
    have hid : id.text = sessionUpdateEvent := by
      simpa using find?_some hfind
    obtain ⟨_,htranslated,hevent⟩ := map_eq_ok.mp h
    cases hevent
    unfold translateExtensionEvent at htranslated
    split at htranslated
    · next declaration hdeclaration =>
      split at htranslated
      · next schema hschema =>
        cases hparse : schema.parse (encodings.updateValue update) with
        | error error => simp [hparse] at htranslated
        | ok accepted =>
          cases hraw : encodings.toRawValue (encodings.updateValue update) with
          | error error => simp [hparse,hraw] at htranslated
          | ok raw =>
            simp only [hparse,hraw,Except.ok.injEq] at htranslated
            subst htranslated
            unfold ExtensionUpdates.receive
            rw [hadvertised id declaration schema hid hdeclaration hschema]
            simp [hreadable raw hraw,hparse,ExtensionUpdates.send,hconnected,hunbounded]
      · cases htranslated
    · cases htranslated
  · cases h

/-- Every update without a form arrives whole, as one event. -/
theorem payloads_eq {source : List (SessionUpdate D R)}
    (h : Forall₂ (fun update event =>
        extensionFallback encodings descriptor update = .ok (.extension event))
      source (events notifications))
    (hconnected : client.extensionUpdates.connected = true)
    (hunbounded : client.extensionUpdates.capacity = none)
    (hadvertised : Advertised descriptor extensions)
    (hreadable : ∀ update ∈ source, Readable encodings update) :
    (runAll (next encodings.fromStr extensions) client
        notifications).extensionUpdates.queue.map (·.payload) =
      client.extensionUpdates.queue.map (·.payload) ++ source.map encodings.updateValue := by
  induction notifications generalizing client source with
  | nil =>
    cases h
    simp
  | cons notification notifications ih =>
    rw [runAll_cons]
    cases notification with
    | standard notification => exact ih h hconnected hunbounded hreadable
    | extension event =>
      cases h with
      | @cons update _ source _ hfirst hrest =>
        obtain ⟨hread,hreadable⟩ := forall_mem_cons.mp hreadable
        obtain ⟨id,htaken⟩ := receive_whole hconnected hunbounded hadvertised hread hfirst
        have hnext : (client.next encodings.fromStr extensions
            (.extension event)).extensionUpdates =
              { client.extensionUpdates with queue := client.extensionUpdates.queue ++
                [⟨id,encodings.updateValue update⟩] } := htaken
        rw [ih hrest (by rw [hnext]; exact hconnected) (by rw [hnext]; exact hunbounded) hreadable,
          hnext]
        simp

end Delivery

/-- No notification of a stream is refused as out of order exactly where the stream agrees with
the client. There a queue that is open to every update takes all text and tool updates, which
carry each part once and in order, and the events carry the remaining updates whole. -/
theorem translation_agrees_iff (encodings : Encodings D R) (descriptor : ApplicationDescriptor)
    (extensions : BTreeMap String ExtensionEvent) (client : StreamClient) (sessionId : SessionId)
    (first : U64) (updates : List (SessionUpdate D R))
    (notifications : List TranslatedSessionUpdate) (hstream : Stream sessionId first.val updates)
    (htranslated : translateAll encodings descriptor updates = .ok notifications)
    (hexpected : client.updates.ordered.expected sessionId.text = first) :
    (Along (next encodings.fromStr extensions)
        (Ordered encodings.fromStr extensions) client notifications ↔ Agreeing updates) ∧
    (client.updates.connected = true → client.updates.capacity = none → Agreeing updates →
      ∃ delivered, (runAll (next encodings.fromStr extensions) client
          notifications).updates.queue = client.updates.queue ++ delivered ∧
        List.Forall₂ (Carries encodings) delivered
          (updates.flatMap fun update => parts update.update)) ∧
    (client.extensionUpdates.connected = true → client.extensionUpdates.capacity = none →
      Advertised descriptor extensions → (∀ update ∈ updates, Readable encodings update) →
        (runAll (next encodings.fromStr extensions) client
            notifications).extensionUpdates.queue.map (·.payload) =
          client.extensionUpdates.queue.map (·.payload) ++
            (whole updates).map encodings.updateValue) := by
  obtain ⟨groups,hgroups,rfl⟩ := translates_of_translateAll htranslated
  have hnext : (client.updates.ordered.expected sessionId.text).val =
      min first.val (2 ^ 64 - 1) := by
    have hbound := first.isLt
    rw [hexpected]
    omega
  have hiff := along_ordered_iff encodings.fromStr extensions hgroups hstream hnext
  refine ⟨hiff,fun hconnected hunbounded hagreeing => ?_,
    fun hconnected hunbounded hadvertised hreadable => ?_⟩
  · exact ⟨standards groups.flatten,
      queue_of_ordered hconnected hunbounded (hiff.mpr hagreeing),standards_carry hgroups⟩
  · exact payloads_eq (events_whole hgroups) hconnected hunbounded hadvertised
      fun update hu => hreadable update (mem_of_mem_filter hu)

section Streams

/-- Encodings for updates that need none. -/
def textEncodings : Encodings Unit Unit where
  updateValue _ := .unit
  errorValue _ := .unit
  toJson _ := .ok .null
  toRawValue _ := .ok "null"
  fromStr _ := .ok .unit

def emptyDescriptor : ApplicationDescriptor := ⟨.empty,.empty⟩

def streamClient : StreamClient := ⟨.channel,none,[],true⟩

def streamSession : SessionId := ⟨"session-1",by decide +kernel⟩

/-- A message of the assistant with the given texts. -/
def said (sequence : U64) (texts : List String) : SessionUpdate Unit Unit :=
  ⟨streamSession,sequence,.message ⟨.assistant,texts.map .text⟩⟩

def saidChunk (sequence : U64) (text : String) : TranslatedSessionUpdate :=
  .standard (standard streamSession sequence none (.agentMessageChunk text))

theorem translation_agrees_iff_said :
    Along (next textEncodings.fromStr .empty) (Ordered textEncodings.fromStr .empty)
      streamClient [saidChunk 0 "hello",saidChunk 1 "world"] :=
  (translation_agrees_iff textEncodings emptyDescriptor .empty streamClient streamSession 0
    [said 0 ["hello"],said 1 ["world"]] [saidChunk 0 "hello",saidChunk 1 "world"]
    ⟨rfl,rfl,rfl,rfl,trivial⟩ rfl rfl).1.mpr
    ⟨[said 0 ["hello"],said 1 ["world"]],[],rfl,by simp [said,parts,texts],nofun⟩

/-- A message of two parts becomes two notifications with one number; the second is refused. -/
theorem two_parts_refused :
    translateAll textEncodings emptyDescriptor [said 0 ["hello","world"]] =
      .ok [saidChunk 0 "hello",saidChunk 0 "world"] ∧
    ¬Along (next textEncodings.fromStr .empty) (Ordered textEncodings.fromStr .empty)
      streamClient [saidChunk 0 "hello",saidChunk 0 "world"] :=
  ⟨rfl,fun h => h.2.1 "session-1" 1 0 rfl⟩

end Streams

end PhenixConductor.Client

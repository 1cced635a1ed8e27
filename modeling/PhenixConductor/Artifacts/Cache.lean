import PhenixConductor.Artifacts.Store

/-! # The read cache over a history of commands

What the store holds after any history: artifacts under the identity of their content, results
under their identity with their artifact, and index entries that name a result for their request
and provider.
-/
namespace PhenixConductor.Artifacts
open Collections
open Function (Injective update)

/-! ## Identities -/

theorem hexDigit_injOn : ∀ n < 16, ∀ m < 16, hexDigit n = hexDigit m → n = m := by decide

theorem hexDigit_ne_colon : ∀ n < 16, hexDigit n ≠ ':' := by decide

theorem hexByte_injective : Injective hexByte := by
  intro a b h
  have ha := a.toNat_lt
  have hb := b.toNat_lt
  obtain ⟨hhigh,hlow⟩ : hexDigit (a.toNat / 16) = hexDigit (b.toNat / 16) ∧
      hexDigit (a.toNat % 16) = hexDigit (b.toNat % 16) := by simpa [hexByte] using h
  have h1 := hexDigit_injOn _ (by omega) _ (by omega) hhigh
  have h2 := hexDigit_injOn _ (by omega) _ (by omega) hlow
  exact UInt8.toNat_inj.mp (by omega)

theorem flatMap_hexByte_injective : Injective fun content : List UInt8 =>
    content.flatMap hexByte := by
  intro content
  induction content with
  | nil =>
    intro content' h
    cases content' with
    | nil => rfl
    | cons byte content' => simp [hexByte] at h
  | cons byte content ih =>
    intro content' h
    cases content' with
    | nil => simp [hexByte] at h
    | cons byte' content' =>
      obtain ⟨hbyte,hrest⟩ := List.append_inj h rfl
      rw [hexByte_injective hbyte,ih hrest]

theorem exactContentIdentity_injective : Injective exactContentIdentity := by
  intro content content' h
  have hlists : (Nat.repr content.length).toList ++ ':' :: content.flatMap hexByte =
      (Nat.repr content'.length).toList ++ ':' :: content'.flatMap hexByte := by
    simpa [exactContentIdentity,String.ext_iff] using h
  have hdigits : ':' ∉ (Nat.repr content.length).toList := by
    intro hmem
    rw [Nat.toList_repr] at hmem
    have hdigit := Nat.isDigit_of_mem_toDigits (by omega) (by omega) hmem
    simp at hdigit
  have hhex : ':' ∉ content.flatMap hexByte := by
    intro hmem
    obtain ⟨byte,-,hbyte⟩ := List.mem_flatMap.mp hmem
    have hlt := byte.toNat_lt
    have hhigh := hexDigit_ne_colon (byte.toNat / 16) (by omega)
    have hlow := hexDigit_ne_colon (byte.toNat % 16) (by omega)
    simp only [hexByte,List.mem_cons,List.not_mem_nil,or_false] at hbyte
    rcases hbyte with hbyte | hbyte
    · exact hhigh hbyte.symm
    · exact hlow hbyte.symm
  exact flatMap_hexByte_injective ((List.append_cons_inj_of_notMem hdigits hhex).mp hlists).2.2

/-- The text of an array of two. -/
theorem jsonArray_two (a b : List Char) :
    jsonArray [a,b] = ['['] ++ (a ++ ([','] ++ b) ++ [']']) := by
  simp [jsonArray,commaSeparated]

theorem normalizedRequestIdentity_inj {request request' : NormalizedReadRequest} {i : String}
    (h : normalizedRequestIdentity request = .ok i)
    (h' : normalizedRequestIdentity request' = .ok i) :
    request.resource = request'.resource ∧ request.parameters = request'.parameters := by
  unfold normalizedRequestIdentity at h h'
  split at h
  · cases h
  · split at h'
    · cases h'
    · have htexts : jsonArray [quote request.resource,quoteMap request.parameters] =
          jsonArray [quote request'.resource,quoteMap request'.parameters] := by
        simpa [String.ext_iff] using (Except.ok.inj h).trans (Except.ok.inj h').symm
      rw [jsonArray_two,jsonArray_two] at htexts
      have hcode := ((selfDelimiting_quote.pair (selfDelimiting_quoteMap.after [','])).before
        [']']).after ['[']
      have hpair : (request.resource,request.parameters) =
          (request'.resource,request'.parameters) := hcode.injective htexts
      exact Prod.mk.inj hpair

theorem quoteProvider_selfDelimiting : SelfDelimiting quoteProvider := by
  refine selfDelimiting_quoteEntries.comap ?_
  rintro ⟨p,c,i,k⟩ ⟨p',c',i',k'⟩ h
  simpa using h

theorem readIndexPlace_inj {i i' : String} {provider provider' : ReadProviderIdentity}
    (h : readIndexPlace i provider = readIndexPlace i' provider') :
    i = i' ∧ provider = provider' := by
  have htexts : jsonArray [quote i,quoteProvider provider] =
      jsonArray [quote i',quoteProvider provider'] := by
    simpa [readIndexPlace,String.ext_iff] using h
  rw [jsonArray_two,jsonArray_two] at htexts
  have hcode := ((selfDelimiting_quote.pair (quoteProvider_selfDelimiting.after [','])).before
    [']']).after ['[']
  have hpair : (i,provider) = (i',provider') := hcode.injective htexts
  exact Prod.mk.inj hpair

/-! ## The store after a history -/

/-- A turn in which nothing fails. -/
def quiet : StoreTurn NoReply := ⟨none,fun _ => ()⟩

/-- A command on a working store. -/
def perform (command : ArtifactCommand) (s : ArtifactStore) :
    Except String ArtifactResponse × ArtifactStore :=
  alone quiet (handle command) s

def afterAll (commands : List ArtifactCommand) : ArtifactStore :=
  runAll (fun s command => (perform command s).2) (fun _ => none) commands

/-- What is stored under a key fits the key, and every result was recorded by one of the commands. -/
structure Sound (commands : List ArtifactCommand) (s : ArtifactStore) : Prop where
  artifact : ∀ id (a : ArtifactRecord), s (.artifact id) = some a →
    a.id = id ∧ a.contentIdentity = exactContentIdentity a.content ∧
      id = artifactIdentity a.contentIdentity
  result : ∀ id (r : ReadResultRecord), s (.readResult id) = some r →
    r.id = id ∧ ∃ a : ArtifactRecord, s (.artifact r.artifactId) = some a ∧ a.contentIdentity = r.contentIdentity
  index : ∀ place (id : String), s (.readIndex place) = some id →
    ∃ r : ReadResultRecord, s (.readResult id) = some r ∧ place = readIndexPlace r.requestIdentity r.provider
  recorded : ∀ id (r : ReadResultRecord), s (.readResult id) = some r → ∃ request content,
    normalizedRequestIdentity request = .ok r.requestIdentity ∧
      exactContentIdentity content = r.contentIdentity ∧
      .recordRead request r.provider r.invocationProvenance content r.dependencies ∈ commands

theorem sound_empty : Sound [] fun _ => none :=
  ⟨by simp,by simp,by simp,by simp⟩

variable {commands : List ArtifactCommand}

theorem Sound.more {s : ArtifactStore} (h : Sound commands s) (more : List ArtifactCommand) :
    Sound (commands ++ more) s where
  artifact := h.artifact
  result := h.result
  index := h.index
  recorded id r hr := by
    obtain ⟨request,content,hrequest,hcontent,hmem⟩ := h.recorded id r hr
    exact ⟨request,content,hrequest,hcontent,List.mem_append_left _ hmem⟩

/-- The artifacts of one store are in the other one. -/
def KeepsArtifacts (s t : ArtifactStore) : Prop :=
  ∀ id (a : ArtifactRecord), s (.artifact id) = some a → t (.artifact id) = some a

/-- The result that the index names for a request and a provider. -/
def indexed (s : ArtifactStore) (requestIdentity : String) (provider : ReadProviderIdentity) :
    Option ReadResultRecord :=
  (s (.readIndex (readIndexPlace requestIdentity provider))).bind fun id => s (.readResult id)

section Programs
variable {commands : List ArtifactCommand} {s : ArtifactStore}

theorem alone_readDurable_bind {α : Type} {cell : ArtifactCell}
    {f : Option cell.Content → ArtifactM α} :
    alone quiet (readDurable cell >>= f) s = alone quiet (f (s cell)) s := rfl

theorem alone_readExact_bind {α : Type} {id contentIdentity : String}
    {f : Option ArtifactRecord → ArtifactM α} :
    alone quiet (readExact id contentIdentity >>= f) s =
      alone quiet (f ((s (.artifact id)).filter (·.contentIdentity = contentIdentity))) s := rfl

theorem alone_transactDurable_bind {α : Type} {operations : List (CellOp ArtifactCell.Content)}
    {f : Unit → ArtifactM α} {t : ArtifactStore} (h : CellOp.commit s operations = .ok t) :
    alone quiet (transactDurable operations >>= f) s = alone quiet (f ()) t := by
  have hcommitted : committed s operations = (.ok (),t) := by rw [committed,h]
  have hrun : alone quiet (transactDurable operations) s =
      (((committed s operations).1.mapError storeError),(committed s operations).2) := rfl
  rw [alone_bind,hrun,hcommitted]
  rfl

/-- What storing an artifact gives and leaves. -/
structure StoresArtifact (content : List UInt8) (stored : StoredArtifact) (s t : ArtifactStore) :
    Prop where
  content : stored.artifact.content = content
  stored : t (.artifact stored.artifact.id) = some stored.artifact
  keeps : KeepsArtifacts s t
  others : ∀ cell, (∀ id, cell ≠ .artifact id) → t cell = s cell

/-- A new artifact keeps what is stored. -/
theorem keepsArtifacts_update {id : String} {artifact : ArtifactRecord}
    (hnone : s (.artifact id) = none) :
    KeepsArtifacts s (update s (.artifact id) (some artifact)) := by
  intro j a ha
  have hj : j ≠ id := by
    rintro rfl
    rw [hnone] at ha
    cases ha
  simpa [hj] using ha

theorem Sound.putArtifact (hs : Sound commands s) {artifact : ArtifactRecord}
    (hidentity : artifact.contentIdentity = exactContentIdentity artifact.content)
    (hid : artifact.id = artifactIdentity artifact.contentIdentity)
    (hnone : s (.artifact artifact.id) = none) :
    Sound commands (update s (.artifact artifact.id) (some artifact)) where
  artifact id a ha := by
    by_cases hsame : id = artifact.id
    · subst hsame
      obtain rfl : artifact = a := by simpa using ha
      exact ⟨rfl,hidentity,hid⟩
    · exact hs.artifact id a (by simpa [hsame] using ha)
  result id r hr := by
    obtain ⟨hrid,a,ha,hcontent⟩ := hs.result id r (by simpa using hr)
    exact ⟨hrid,a,keepsArtifacts_update hnone _ a ha,hcontent⟩
  index place id h := by
    obtain ⟨r,hr,hplace⟩ := hs.index place id (by simpa using h)
    exact ⟨r,by simpa using hr,hplace⟩
  recorded id r hr := hs.recorded id r (by simpa using hr)

theorem alone_storeArtifact (hs : Sound commands s) (content : List UInt8)
    (provenance : ArtifactProvenance) : ∃ stored t,
    alone quiet (storeArtifact content provenance) s = (.ok stored,t) ∧
      StoresArtifact content stored s t ∧ Sound commands t := by
  rw [storeArtifact,alone_readDurable_bind]
  cases hstored : s (.artifact (artifactIdentity (exactContentIdentity content))) with
  | some existing =>
    obtain ⟨hid,hidentity,hkey⟩ := hs.artifact _ existing hstored
    have hsame : existing.contentIdentity = exactContentIdentity content := by
      simpa [artifactIdentity] using hkey.symm
    have hcontent : existing.content = content :=
      exactContentIdentity_injective (hidentity.symm.trans hsame)
    refine ⟨⟨existing,true⟩,s,?_,⟨hcontent,?_,fun _ _ h => h,fun _ _ => rfl⟩,hs⟩
    · dsimp only
      rw [if_neg (by simp [hsame,hcontent])]
      rfl
    · rw [hid,hstored]
  | none =>
    let artifact : ArtifactRecord := ⟨artifactIdentity (exactContentIdentity content),
      exactContentIdentity content,content,provenance⟩
    have hcommit : CellOp.commit s [.assert (.artifact artifact.id) none,
        .put (.artifact artifact.id) artifact] =
        .ok (update s (.artifact artifact.id) (some artifact)) := by
      simp [CellOp.commit_eq_ok,Along,CellOp.Holds,CellOp.write,artifact,hstored]
    refine ⟨⟨artifact,false⟩,update s (.artifact artifact.id) (some artifact),?_,
      ⟨rfl,Function.update_self _ _ _,keepsArtifacts_update hstored,?_⟩,
      hs.putArtifact rfl rfl hstored⟩
    · exact alone_transactDurable_bind hcommit
    · exact fun cell hcell => Function.update_of_ne (hcell _) _ _

/-- A lookup finds the result that the index names, where that has the dependencies. -/
theorem alone_lookupRead (hs : Sound commands s) {request : NormalizedReadRequest} {i : String}
    (hrequest : normalizedRequestIdentity request = .ok i) (provider : ReadProviderIdentity)
    (dependencies : BTreeMap String String) :
    alone quiet (lookupRead request provider dependencies) s =
      (.ok ((indexed s i provider).filter (·.dependencies = dependencies)),s) := by
  rw [lookupRead,hrequest,Script.ofExcept_ok_bind,alone_readDurable_bind]
  cases hindex : s (.readIndex (readIndexPlace i provider)) with
  | none =>
    simp only [indexed,hindex]
    rfl
  | some id =>
    obtain ⟨r,hr,hplace⟩ := hs.index _ id hindex
    obtain ⟨hi,hprovider⟩ := readIndexPlace_inj hplace
    obtain ⟨-,a,ha,hcontent⟩ := hs.result id r hr
    have hindexed : indexed s i provider = some r := by
      simp [indexed,hindex,hr]
    rw [hindexed]
    rw [alone_readDurable_bind,hr]
    by_cases hdeps : r.dependencies = dependencies
    · dsimp only
      rw [if_neg (by simp [hi,hprovider,hdeps]),alone_readExact_bind,ha,
        Option.filter_some_pos (by simpa using hcontent),Option.filter_some_pos (by simpa using hdeps)]
      rfl
    · dsimp only
      rw [if_pos (.inr (.inr hdeps)),Option.filter_some_neg (by simpa using hdeps)]
      rfl

section Recording
variable {request : NormalizedReadRequest} {i : String} {provider : ReadProviderIdentity}
  {invocation : String} {content : List UInt8} {dependencies : BTreeMap String String}

/-- A read that is found is answered from the cache. -/
theorem alone_recordRead_found (invocation : String) (content : List UInt8)
    (hs : Sound commands s)
    (hrequest : normalizedRequestIdentity request = .ok i) {r : ReadResultRecord}
    (hindexed : indexed s i provider = some r) (hdeps : r.dependencies = dependencies) :
    ∃ artifact, (s (.artifact r.artifactId)).filter (·.contentIdentity = r.contentIdentity) =
        some artifact ∧
      alone quiet (recordRead request provider invocation content dependencies) s =
        (.ok (.readRecorded r artifact true),s) := by
  obtain ⟨id,-,hr⟩ := Option.bind_eq_some_iff.mp hindexed
  obtain ⟨-,artifact,hartifact,hcontent⟩ := hs.result id r hr
  have hlookup := alone_lookupRead hs hrequest provider dependencies
  rw [hindexed,Option.filter_some_pos (by simpa using hdeps)] at hlookup
  have hexact : (s (.artifact r.artifactId)).filter (·.contentIdentity = r.contentIdentity) =
      some artifact := by
    rw [hartifact,Option.filter_some_pos (by simpa using hcontent)]
  refine ⟨artifact,hexact,?_⟩
  rw [recordRead,alone_bind_of_ok hlookup]
  rw [alone_readExact_bind,hexact]
  rfl

/-- What is left of a recording after its artifact is stored. -/
def recordResult (result : ReadResultRecord) (artifact : ArtifactRecord) (place : String) :
    ArtifactM ArtifactResponse := do
  let existing ← readDurable (.readResult result.id)
  match existing with
  | some existing =>
    if existing ≠ result then Script.fail ("read result identity collision: " ++ result.id)
    else return .readRecorded result artifact false
  | none => do
    transactDurable [
      .assert (.readResult result.id) none,
      .put (.readResult result.id) result,
      .put (.readIndex place) result.id]
    return .readRecorded result artifact false

theorem alone_recordRead_missed (invocation : String) (content : List UInt8)
    (hs : Sound commands s)
    (hrequest : normalizedRequestIdentity request = .ok i)
    (hmissed : ∀ r, indexed s i provider = some r → r.dependencies ≠ dependencies) :
    ∃ stored t, StoresArtifact content stored s t ∧ Sound commands t ∧
      alone quiet (recordRead request provider invocation content dependencies) s =
        alone quiet (recordResult (readResult i provider stored.artifact dependencies invocation)
          stored.artifact (readIndexPlace i provider)) t := by
  have hlookup := alone_lookupRead hs hrequest provider dependencies
  have hnone : (indexed s i provider).filter (·.dependencies = dependencies) = none := by
    rw [Option.filter_eq_none_iff]
    intro r hr
    simpa using hmissed r hr
  rw [hnone] at hlookup
  obtain ⟨stored,t,hstore,hstores,hsound⟩ := alone_storeArtifact hs content
    (readProvenance provider invocation dependencies)
  refine ⟨stored,t,hstores,hsound,?_⟩
  rw [recordRead,alone_bind_of_ok hlookup]
  rw [alone_bind_of_ok hstore,hrequest]
  rfl

/-- The store with a new result that the index names. -/
def putResult (s : ArtifactStore) (result : ReadResultRecord) (place : String) : ArtifactStore :=
  Function.update (Function.update s (.readResult result.id) (some result)) (.readIndex place)
    (some result.id)

theorem alone_recordResult_new {result : ReadResultRecord} {artifact : ArtifactRecord}
    {place : String} (hnone : s (.readResult result.id) = none) :
    alone quiet (recordResult result artifact place) s =
      (.ok (.readRecorded result artifact false),putResult s result place) := by
  have hcommit : CellOp.commit s [.assert (.readResult result.id) none,
      .put (.readResult result.id) result,.put (.readIndex place) result.id] =
      .ok (putResult s result place) := by
    simp [CellOp.commit_eq_ok,Along,CellOp.Holds,CellOp.write,putResult,hnone]
  rw [recordResult,alone_readDurable_bind,hnone]
  rw [alone_transactDurable_bind hcommit]
  rfl

/-- Where the result is stored, nothing is written. -/
theorem alone_recordResult_stored {result existing : ReadResultRecord} {artifact : ArtifactRecord}
    {place : String} (hstored : s (.readResult result.id) = some existing) :
    alone quiet (recordResult result artifact place) s =
      (if existing ≠ result then .error ("read result identity collision: " ++ result.id)
        else .ok (.readRecorded result artifact false),s) := by
  rw [recordResult,alone_readDurable_bind,hstored]
  dsimp only
  split <;> rfl

theorem Sound.putResult (hs : Sound commands s)
    (hrequest : normalizedRequestIdentity request = .ok i) {stored : StoredArtifact}
    (hartifact : s (.artifact stored.artifact.id) = some stored.artifact)
    (hcontent : stored.artifact.content = content)
    (hnone : s (.readResult
      (readResult i provider stored.artifact dependencies invocation).id) = none) :
    Sound (commands ++ [.recordRead request provider invocation content dependencies])
      (putResult s (readResult i provider stored.artifact dependencies invocation)
        (readIndexPlace i provider)) := by
  generalize hresult : readResult i provider stored.artifact dependencies invocation = result
    at hnone ⊢
  have hfields : result.requestIdentity = i ∧ result.provider = provider ∧
      result.artifactId = stored.artifact.id ∧
      result.contentIdentity = stored.artifact.contentIdentity ∧
      result.dependencies = dependencies ∧ result.invocationProvenance = invocation := by
    subst hresult
    exact ⟨rfl,rfl,rfl,rfl,rfl,rfl⟩
  obtain ⟨rfl,rfl,hid,hidentity,rfl,rfl⟩ := hfields
  have hresults (id : String) : putResult s result
      (readIndexPlace result.requestIdentity result.provider) (.readResult id) =
      if id = result.id then some result else s (.readResult id) := by
    by_cases hsame : id = result.id
    · subst hsame
      simp [putResult]
    · simp [putResult,hsame]
  have hartifacts (id : String) : putResult s result
      (readIndexPlace result.requestIdentity result.provider) (.artifact id) = s (.artifact id) := by
    simp [putResult]
  refine ⟨fun id a ha => ?_,fun id r hr => ?_,fun place id hplace => ?_,fun id r hr => ?_⟩
  · exact hs.artifact id a (by rwa [hartifacts] at ha)
  · rw [hresults] at hr
    rw [hartifacts]
    split at hr
    · next hsame =>
      obtain rfl := Option.some.inj hr
      exact ⟨hsame.symm,stored.artifact,by rw [hid,hartifact],hidentity.symm⟩
    · exact hs.result id r hr
  · by_cases hsame : place = readIndexPlace result.requestIdentity result.provider
    · subst hsame
      obtain rfl : result.id = id := by simpa [putResult] using hplace
      exact ⟨result,by rw [hresults,if_pos rfl],rfl⟩
    · obtain ⟨r,hr,hr'⟩ := hs.index place id (by simpa [putResult,hsame] using hplace)
      refine ⟨r,?_,hr'⟩
      rw [hresults,if_neg,hr]
      rintro rfl
      rw [hnone] at hr
      cases hr
  · rw [hresults] at hr
    split at hr
    · obtain rfl := Option.some.inj hr
      refine ⟨request,content,hrequest,?_,by simp⟩
      rw [hidentity,← hcontent]
      exact ((hs.artifact _ _ hartifact).2.1).symm
    · exact (hs.more _).recorded id r hr

/-- What a recording answers is found by the lookup and the reading that follow it. -/
def Serves (s : ArtifactStore) (request : NormalizedReadRequest)
    (provider : ReadProviderIdentity) (invocation : String) (content : List UInt8)
    (dependencies : BTreeMap String String) : Prop :=
  ∃ result artifact reused t,
    perform (.recordRead request provider invocation content dependencies) s =
      (.ok (.readRecorded result artifact reused),t) ∧
    perform (.lookupRead request provider dependencies) t = (.ok (.readLookup (some result)),t) ∧
    perform (.get result.artifactId result.contentIdentity) t = (.ok (.artifact (some artifact)),t)

/-- The index names a result with the dependencies, or the result is stored nowhere. -/
def Findable (s : ArtifactStore) (requestIdentity : String) (provider : ReadProviderIdentity)
    (content : List UInt8) (dependencies : BTreeMap String String) : Prop :=
  (∃ r, indexed s requestIdentity provider = some r ∧ r.dependencies = dependencies) ∨
    s (.readResult (readResultIdentity requestIdentity provider (exactContentIdentity content)
      dependencies)) = none

theorem perform_lookupRead (hs : Sound commands s)
    (hrequest : normalizedRequestIdentity request = .ok i) :
    perform (.lookupRead request provider dependencies) s =
      (.ok (.readLookup ((indexed s i provider).filter (·.dependencies = dependencies))),s) :=
  alone_bind_of_ok (alone_lookupRead hs hrequest provider dependencies)

theorem perform_get (id contentIdentity : String) : perform (.get id contentIdentity) s =
    (.ok (.artifact ((s (.artifact id)).filter (·.contentIdentity = contentIdentity))),s) := rfl

theorem StoresArtifact.indexed {stored : StoredArtifact} {t : ArtifactStore}
    (h : StoresArtifact content stored s t) : indexed t i provider = indexed s i provider := by
  have hother : t (.readIndex (readIndexPlace i provider)) =
      s (.readIndex (readIndexPlace i provider)) := h.others _ fun id => by simp
  rw [Artifacts.indexed, hother]
  exact congrArg _ (funext fun id => h.others (.readResult id) fun _ => by simp)

theorem serves_iff (hs : Sound commands s)
    (hrequest : normalizedRequestIdentity request = .ok i) :
    Serves s request provider invocation content dependencies ↔
      Findable s i provider content dependencies := by
  by_cases hfound : ∃ r, indexed s i provider = some r ∧ r.dependencies = dependencies
  · refine iff_of_true ?_ (.inl hfound)
    obtain ⟨r,hindexed,hdeps⟩ := hfound
    obtain ⟨artifact,hartifact,hrecord⟩ := alone_recordRead_found invocation
      content hs hrequest hindexed hdeps
    refine ⟨r,artifact,true,s,hrecord,?_,?_⟩
    · rw [perform_lookupRead hs hrequest,hindexed,Option.filter_some_pos (by simpa using hdeps)]
    · rw [perform_get,hartifact]
  · have hmissed : ∀ r, indexed s i provider = some r → r.dependencies ≠ dependencies :=
      fun r hr hdeps => hfound ⟨r,hr,hdeps⟩
    obtain ⟨stored,t,hstores,hsound,hrecord⟩ := alone_recordRead_missed invocation content hs
      hrequest hmissed
    have hidentity : stored.artifact.contentIdentity = exactContentIdentity content := by
      rw [(hsound.artifact _ _ hstores.stored).2.1,hstores.content]
    have hid : (readResult i provider stored.artifact dependencies invocation).id =
        readResultIdentity i provider (exactContentIdentity content) dependencies :=
      congrArg (readResultIdentity i provider · dependencies) hidentity
    have hkept : t (.readResult (readResultIdentity i provider (exactContentIdentity content)
        dependencies)) = s (.readResult (readResultIdentity i provider
          (exactContentIdentity content) dependencies)) := hstores.others _ fun _ => by simp
    cases hresult : s (.readResult (readResultIdentity i provider (exactContentIdentity content)
      dependencies)) with
    | none =>
      refine iff_of_true ?_ (.inr hresult)
      have hnone : t (.readResult
          (readResult i provider stored.artifact dependencies invocation).id) = none := by
        rw [hid,hkept,hresult]
      have hsound' := hsound.putResult hrequest hstores.stored hstores.content hnone
      have hindexed : indexed (putResult t
          (readResult i provider stored.artifact dependencies invocation)
          (readIndexPlace i provider)) i provider =
          some (readResult i provider stored.artifact dependencies invocation) := by
        simp [indexed,putResult]
      refine ⟨readResult i provider stored.artifact dependencies invocation,stored.artifact,false,
        _,hrecord.trans (alone_recordResult_new hnone),?_,?_⟩
      · rw [perform_lookupRead hsound' hrequest,hindexed,
          Option.filter_some_pos (by simp [readResult])]
      · have hartifact : putResult t
            (readResult i provider stored.artifact dependencies invocation)
            (readIndexPlace i provider) (.artifact stored.artifact.id) = some stored.artifact := by
          simp [putResult,hstores.stored]
        have hget : (putResult t (readResult i provider stored.artifact dependencies invocation)
            (readIndexPlace i provider) (.artifact stored.artifact.id)).filter
            (fun a : ArtifactRecord => a.contentIdentity = stored.artifact.contentIdentity) =
            some stored.artifact := by
          rw [hartifact,Option.filter_some_pos (by simp)]
        exact congrArg (fun found => (Except.ok (ArtifactResponse.artifact found),_)) hget
    | some existing =>
      refine iff_of_false ?_ (by simp [Findable,hresult,hfound])
      rintro ⟨result,artifact,reused,t',hrec,hlookup,-⟩
      have hstored : t (.readResult
          (readResult i provider stored.artifact dependencies invocation).id) =
          some existing := by
        rw [hid,hkept,hresult]
      have hsame : t' = t := by
        have hrun := hrec.symm.trans (hrecord.trans (alone_recordResult_stored hstored))
        exact (Prod.mk.inj hrun).2
      have hnone : (indexed t i provider).filter (·.dependencies = dependencies) = none := by
        rw [hstores.indexed,Option.filter_eq_none_iff]
        intro r hr
        simpa using hmissed r hr
      rw [hsame,perform_lookupRead hsound hrequest,hnone] at hlookup
      simp at hlookup

end Recording

theorem Sound.putRevalidation (hs : Sound commands s) (place : String)
    (record : RevalidationRecord) :
    Sound commands (update s (.revalidation place) (some record)) where
  artifact := by simpa using hs.artifact
  result := by simpa using hs.result
  index := by simpa using hs.index
  recorded := by simpa using hs.recorded

theorem perform_revalidate {resultId : String} {provider : ReadProviderIdentity}
    {dependencies : BTreeMap String String} {verdict : RevalidationVerdict} {provenance : String} :
    (perform (.revalidate resultId provider dependencies verdict provenance) s).2 = s ∨
      ∃ place record, (perform (.revalidate resultId provider dependencies verdict provenance) s).2 =
        update s (.revalidation place) (some record) := by
  rw [perform,handle,revalidate,alone_readDurable_bind]
  cases s (.readResult resultId) with
  | none => exact .inl rfl
  | some result =>
    rw [alone_readExact_bind]
    split
    · exact .inl rfl
    · exact .inr ⟨_,_,rfl⟩

/-- One command keeps the store sound and the artifacts as they are. -/
theorem sound_perform (hs : Sound commands s) (command : ArtifactCommand) :
    Sound (commands ++ [command]) (perform command s).2 ∧
      KeepsArtifacts s (perform command s).2 := by
  cases command with
  | store content provenance =>
    obtain ⟨stored,t,hstore,hstores,hsound⟩ := alone_storeArtifact hs content provenance
    have hrun : (perform (.store content provenance) s).2 = t :=
      congrArg Prod.snd (alone_bind_of_ok hstore)
    rw [hrun]
    exact ⟨hsound.more _,hstores.keeps⟩
  | get id contentIdentity => exact ⟨hs.more _,fun _ _ h => h⟩
  | recordRead request provider invocation content dependencies =>
    cases hrequest : normalizedRequestIdentity request with
    | error error =>
      have hrun : (perform (.recordRead request provider invocation content dependencies) s).2 =
          s := by
        rw [perform,handle,recordRead,lookupRead,hrequest]
        rfl
      rw [hrun]
      exact ⟨hs.more _,fun _ _ h => h⟩
    | ok i =>
      by_cases hfound : ∃ r, indexed s i provider = some r ∧ r.dependencies = dependencies
      · obtain ⟨r,hindexed,hdeps⟩ := hfound
        obtain ⟨artifact,-,hrecord⟩ := alone_recordRead_found invocation content hs hrequest
          hindexed hdeps
        have hrun : (perform (.recordRead request provider invocation content dependencies) s).2 =
            s := congrArg Prod.snd hrecord
        rw [hrun]
        exact ⟨hs.more _,fun _ _ h => h⟩
      · obtain ⟨stored,t,hstores,hsound,hrecord⟩ := alone_recordRead_missed invocation content hs
          hrequest fun r hr hdeps => hfound ⟨r,hr,hdeps⟩
        have hrun : (perform (.recordRead request provider invocation content dependencies) s).2 =
            (alone quiet (recordResult
              (readResult i provider stored.artifact dependencies invocation) stored.artifact
              (readIndexPlace i provider)) t).2 := congrArg Prod.snd hrecord
        rw [hrun]
        cases hresult : t (.readResult
          (readResult i provider stored.artifact dependencies invocation).id) with
        | none =>
          rw [alone_recordResult_new hresult]
          refine ⟨hsound.putResult hrequest hstores.stored hstores.content hresult,?_⟩
          intro id a ha
          simpa [putResult] using hstores.keeps id a ha
        | some existing =>
          rw [alone_recordResult_stored hresult]
          exact ⟨hsound.more _,hstores.keeps⟩
  | lookupRead request provider dependencies =>
    have hrun : (perform (.lookupRead request provider dependencies) s).2 = s := by
      cases hrequest : normalizedRequestIdentity request with
      | error error =>
        rw [perform,handle,lookupRead,hrequest]
        rfl
      | ok i => rw [perform_lookupRead hs hrequest]
    rw [hrun]
    exact ⟨hs.more _,fun _ _ h => h⟩
  | revalidate resultId provider dependencies verdict provenance =>
    rcases perform_revalidate with hrun | ⟨place,record,hrun⟩
    · rw [hrun]
      exact ⟨hs.more _,fun _ _ h => h⟩
    · rw [hrun]
      exact ⟨(hs.putRevalidation place record).more _,fun id a ha => by simpa using ha⟩

end Programs

/-! ## Histories -/

theorem sound_from {s : ArtifactStore} (hs : Sound commands s) (more : List ArtifactCommand) :
    Sound (commands ++ more) (runAll (fun s command => (perform command s).2) s more) ∧
      KeepsArtifacts s (runAll (fun s command => (perform command s).2) s more) := by
  induction more generalizing commands s with
  | nil =>
    rw [List.append_nil]
    exact ⟨hs,fun _ _ h => h⟩
  | cons command more ih =>
    obtain ⟨hsound,hkeeps⟩ := sound_perform hs command
    obtain ⟨hend,hkeeps'⟩ := ih hsound
    rw [List.append_assoc] at hend
    exact ⟨hend,fun id a ha => hkeeps' id a (hkeeps id a ha)⟩

theorem sound_afterAll (commands : List ArtifactCommand) : Sound commands (afterAll commands) :=
  (sound_from sound_empty commands).1

/-- What a lookup finds was recorded for its resource, its parameters, its provider and its
dependencies. -/
def LooksUpItsOwn (commands : List ArtifactCommand) : Prop :=
  ∀ request provider dependencies result t,
    perform (.lookupRead request provider dependencies) (afterAll commands) =
      (.ok (.readLookup (some result)),t) →
    result.provider = provider ∧ result.dependencies = dependencies ∧
      ∃ request' content, request'.resource = request.resource ∧
        request'.parameters = request.parameters ∧
        exactContentIdentity content = result.contentIdentity ∧
        .recordRead request' provider result.invocationProvenance content dependencies ∈ commands

/-- A lookup does not depend on the presentation hint. -/
def IgnoresHint (commands : List ArtifactCommand) : Prop :=
  ∀ (request : NormalizedReadRequest) hint provider dependencies,
    perform (.lookupRead { request with presentationHint := hint } provider dependencies)
        (afterAll commands) =
      perform (.lookupRead request provider dependencies) (afterAll commands)

/-- The read cache after a history: a recording serves what follows it exactly where its result can
be found, lookups find their own results, and artifacts do not change. -/
structure Faithful (commands : List ArtifactCommand) : Prop where
  serves : ∀ request i provider invocation content dependencies,
    normalizedRequestIdentity request = .ok i →
    (Serves (afterAll commands) request provider invocation content dependencies ↔
      Findable (afterAll commands) i provider content dependencies)
  lookups : LooksUpItsOwn commands
  hints : IgnoresHint commands
  artifacts : ∀ before after, commands = before ++ after →
    ∀ id (a : ArtifactRecord), afterAll before (.artifact id) = some a →
      afterAll commands (.artifact id) = some a

theorem looksUpItsOwn (commands : List ArtifactCommand) : LooksUpItsOwn commands := by
  intro request provider dependencies result t hlookup
  have hs := sound_afterAll commands
  cases hrequest : normalizedRequestIdentity request with
  | error error =>
    rw [perform,handle,lookupRead,hrequest] at hlookup
    cases hlookup
  | ok i =>
    rw [perform_lookupRead hs hrequest] at hlookup
    obtain ⟨hfound,hdeps⟩ := Option.filter_eq_some_iff.mp
      (ArtifactResponse.readLookup.inj (Except.ok.inj (Prod.mk.inj hlookup).1))
    obtain ⟨id,hindex,hresult⟩ := Option.bind_eq_some_iff.mp hfound
    obtain ⟨r,hr,hplace⟩ := hs.index _ id hindex
    obtain rfl : r = result := Option.some.inj (hr.symm.trans hresult)
    obtain ⟨rfl,rfl⟩ := readIndexPlace_inj hplace
    obtain rfl : r.dependencies = dependencies := by simpa using hdeps
    obtain ⟨request',content,hrequest',hcontent,hmem⟩ := hs.recorded id r hr
    obtain ⟨hresource,hparameters⟩ := normalizedRequestIdentity_inj hrequest' hrequest
    exact ⟨rfl,rfl,request',content,hresource,hparameters,hcontent,hmem⟩

/-- After every history the read cache is faithful, up to recordings whose result is stored while
the index names another one. -/
theorem read_cache_faithful (commands : List ArtifactCommand) : Faithful commands where
  serves _ _ _ _ _ _ hrequest := serves_iff (sound_afterAll commands) hrequest
  lookups := looksUpItsOwn commands
  hints _ _ _ _ := rfl
  artifacts before after hcommands := by
    subst hcommands
    have hkeeps := (sound_from (sound_afterAll before) after).2
    intro id a ha
    rw [afterAll,runAll_append]
    exact hkeeps id a ha

/-- A read that is recorded again after one with other dependencies, by another invocation. -/
theorem recorded_again : ¬Serves
    (afterAll [.recordRead ⟨"file",.empty,none⟩ ⟨"reader","1","built-in","default"⟩ "first" [1]
        (.ofList [("file","a")]),
      .recordRead ⟨"file",.empty,none⟩ ⟨"reader","1","built-in","default"⟩ "second" [2]
        (.ofList [("file","b")])])
    ⟨"file",.empty,none⟩ ⟨"reader","1","built-in","default"⟩ "third" [1] (.ofList [("file","a")]) := by
  rintro ⟨result,artifact,reused,t,hrun,-⟩
  have hfail := congrArg (fun p => p.1.isOk) hrun
  dsimp only [Except.isOk,Except.toBool] at hfail
  revert hfail
  decide +kernel

end PhenixConductor.Artifacts

import PhenixConductor.Memory.Observation

/-! # What other services can do to a recall

An embedding service adds candidates and a ranking service puts them in order.
-/
namespace PhenixConductor.Memory
open Collections List
open Execution (U64 U32)

/-! ## A ranking that does not fit -/

section Ranking
variable {candidates ranked : List MemoryRecord} {limit : ℕ} {ids seen : List String}

/-- Before the limit is reached, an identifier comes again or is that of no candidate. -/
def Unfit (candidates : List MemoryRecord) (limit : ℕ) (seen ids : List String) : Prop :=
  ∃ before id after, ids = before ++ id :: after ∧ seen.length + before.length < limit ∧
    (id ∈ seen ++ before ∨ id ∉ candidates.map (·.id))

theorem not_unfit_nil : ¬Unfit candidates limit seen [] := by
  rintro ⟨before,id,after,h,-⟩
  simp at h

theorem unfit_cons {id : String} : Unfit candidates limit seen (id :: ids) ↔
    seen.length < limit ∧ (id ∈ seen ∨ id ∉ candidates.map (·.id)) ∨
      Unfit candidates limit (seen ++ [id]) ids := by
  constructor
  · rintro ⟨before,other,after,h,hroom,hother⟩
    cases before with
    | nil =>
      cases h
      exact .inl ⟨by simpa using hroom,by simpa using hother⟩
    | cons first before =>
      cases h
      refine .inr ⟨before,other,after,rfl,?_,by simpa using hother⟩
      simpa [Nat.add_assoc,Nat.add_comm 1] using hroom
  · rintro (⟨hroom,hid⟩ | ⟨before,other,after,rfl,hroom,hother⟩)
    · exact ⟨[],id,ids,rfl,by simpa using hroom,by simpa using hid⟩
    · refine ⟨id :: before,other,after,rfl,?_,by simpa using hother⟩
      simpa [Nat.add_assoc,Nat.add_comm 1] using hroom

/-- A ranking that does not fit is passed over. -/
theorem rankedBy_of_unfit (hroom : ranked.length < limit)
    (h : Unfit candidates limit (ranked.map (·.id)) ids) :
    rankedBy candidates limit ids ranked = candidates.take limit := by
  induction ids generalizing ranked with
  | nil => exact absurd h not_unfit_nil
  | cons id ids ih =>
    unfold rankedBy
    by_cases hseen : id ∈ ranked.map (·.id)
    · rw [if_pos hseen]
    · rw [if_neg hseen]
      cases hfind : candidates.find? (·.id = id) with
      | none => rfl
      | some record =>
        have hid : record.id = id := by simpa using find?_some hfind
        have hknown : id ∈ candidates.map (·.id) :=
          mem_map.mpr ⟨record,mem_of_find?_eq_some hfind,hid⟩
        have hrest : Unfit candidates limit ((ranked ++ [record]).map (·.id)) ids := by
          simpa [hid] using (unfit_cons.mp h).resolve_left (by simp_all)
        split_ifs with hfull
        · obtain ⟨before,other,after,-,hlater,-⟩ := hrest
          have hpast : ranked.length + 1 + before.length < limit := by simpa using hlater
          omega
        · exact ih (by simpa using by omega) hrest

/-- The records that are ranked so far: candidates, each of them once. -/
structure Ranked (candidates ranked : List MemoryRecord) : Prop where
  distinct : (ranked.map (·.id)).Nodup
  known : ranked.map (·.id) ⊆ candidates.map (·.id)

theorem Ranked.length_le (h : Ranked candidates ranked) : ranked.length ≤ candidates.length := by
  simpa using (h.distinct.subperm h.known).length_le

theorem Ranked.concat {record : MemoryRecord} (h : Ranked candidates ranked)
    (hrecord : record ∈ candidates) (hnew : record.id ∉ ranked.map (·.id)) :
    Ranked candidates (ranked ++ [record]) where
  distinct := by
    rw [map_append,map_singleton,← concat_eq_append]
    exact h.distinct.concat hnew
  known := by
    rw [map_append]
    exact append_subset.mpr ⟨h.known,by simpa using ⟨record,hrecord,rfl⟩⟩

/-- Whatever the ranking is, the result has no identifier twice, and as many records as there is
room and candidates for. -/
theorem rankedBy_full (hcandidates : (candidates.map (·.id)).Nodup)
    (hranked : Ranked candidates ranked) (hroom : ranked.length < limit) :
    ((rankedBy candidates limit ids ranked).map (·.id)).Nodup ∧
      (rankedBy candidates limit ids ranked).length = min limit candidates.length := by
  have hprefix : ((candidates.take limit).map (·.id)).Nodup ∧
      (candidates.take limit).length = min limit candidates.length :=
    ⟨hcandidates.sublist ((take_sublist _ _).map _),length_take⟩
  induction ids generalizing ranked with
  | nil =>
    unfold rankedBy
    constructor
    · have hall := nodup_map_foldl_keepNew MemoryRecord.id hranked.distinct candidates
      exact hall.sublist ((take_sublist _ _).map _)
    · have hall := length_foldl_keepNew MemoryRecord.id hranked.distinct hcandidates hranked.known
      rw [length_take,hall]
  | cons id ids ih =>
    unfold rankedBy
    by_cases hseen : id ∈ ranked.map (·.id)
    · rw [if_pos hseen]
      exact hprefix
    · rw [if_neg hseen]
      cases hfind : candidates.find? (·.id = id) with
      | none => exact hprefix
      | some record =>
        have hid : record.id = id := by simpa using find?_some hfind
        have hnext : Ranked candidates (ranked ++ [record]) :=
          hranked.concat (mem_of_find?_eq_some hfind) (hid ▸ hseen)
        have hlength := hnext.length_le
        split_ifs with hfull
        · refine ⟨hnext.distinct,?_⟩
          simp only [length_append,length_singleton] at hlength ⊢
          omega
        · exact ih hnext (by simpa using by omega)

end Ranking

/-! ## The candidates -/

section Candidates
variable {records found : List MemoryRecord} {query : MemoryRecallQuery}

theorem eligible_sublist : (eligible records query).Sublist records := filter_sublist

variable {lowercase : String → String}

theorem map_snd_scored_sublist :
    ((scored lowercase records query).map (·.2)).Sublist (eligible records query) := by
  unfold scored
  induction eligible records query with
  | nil => exact .slnil
  | cons record records ih =>
    rw [filterMap_cons]
    cases recallScore lowercase record (lowercase (trim query.query))
      (splitWhitespace (lowercase (trim query.query))) with
    | none => exact ih.cons record
    | some score => exact ih.cons_cons record

theorem nodup_recall (hrecords : (records.map (·.id)).Nodup)
    (h : «recall» lowercase records query = .ok found) : (found.map (·.id)).Nodup := by
  unfold «recall» at h
  split_ifs at h
  cases h
  have hscored : (((scored lowercase records query).map (·.2)).map (·.id)).Nodup :=
    hrecords.sublist ((map_snd_scored_sublist.trans eligible_sublist).map _)
  have hsorted := (((perm_insertionSort (fun left right => (compareScored left right).isLE)
    (scored lowercase records query)).map (·.2)).map (·.id)).nodup_iff.mpr hscored
  exact hsorted.sublist (((take_sublist _ _).map _).map _)

theorem recall_eq_ok (hscopes : query.scopes ≠ [])
    (hlimit : 1 ≤ query.limit.val ∧ query.limit.val ≤ 100) :
    ∃ found, «recall» lowercase records query = .ok found := by
  unfold «recall»
  rw [if_neg hscopes,if_neg (by omega)]
  exact ⟨_,rfl⟩

theorem limit_of_recall (h : «recall» lowercase records query = .ok found) :
    1 ≤ query.limit.val ∧ query.limit.val ≤ 100 := by
  unfold «recall» at h
  split_ifs at h with hscopes hlimit
  omega

theorem nodup_withSimilar {candidates pool : List MemoryRecord} {limit : ℕ}
    (h : (candidates.map (·.id)).Nodup) (response : Option (List (List Float))) :
    ((withSimilar candidates pool limit response).map (·.id)).Nodup := by
  unfold withSimilar
  split
  · split_ifs
    · exact h
    · exact nodup_map_foldl_keepNew MemoryRecord.id h _
  · exact h

variable (library : MemoryLibrary) (current : List MemoryRecord) (query : MemoryRecallQuery)

/-- The candidates that the text of the query finds. -/
def lexicalCandidates : Except MemoryError (List MemoryRecord) :=
  «recall» library.lowercase current { query with
    limit := candidateLimit query.limit }

/-- The memories that an embedding service is asked about. -/
def semanticPool : Except MemoryError (List MemoryRecord) :=
  «recall» library.lowercase current { query with
    query := ""
    limit := 100 }

def embeddingCall (pool : List MemoryRecord) : MemoryCall :=
  .embed (query.query :: pool.map (·.content))

/-- The order of the candidates before any ranking, as the embedding service answers. -/
def unranked (providers : (q : MemoryCall) → q.Reply) : Except MemoryError (List MemoryRecord) := do
  let candidates ← lexicalCandidates library current query
  if Configuration.isBlank query.query then return candidates
  else do
    let pool ← semanticPool library current query
    return if pool = [] then candidates
      else withSimilar candidates pool (candidateLimit query.limit).val
        (providers (embeddingCall query pool))

def rankingCall (candidates : List MemoryRecord) : MemoryCall :=
  .rank ⟨query.query,candidates.map fun record => (record.id,record.content),query.limit⟩

/-- The result, as the ranking service answers. -/
def rankedCandidates (providers : (q : MemoryCall) → q.Reply) (candidates : List MemoryRecord) :
    List MemoryRecord :=
  if candidates.length ≤ 1 then candidates.take query.limit.val
  else withRanking candidates query.limit.val (providers (rankingCall query candidates))

variable {library current query} {providers : (q : MemoryCall) → q.Reply}
  {candidates : List MemoryRecord}

/-- The candidates are those that the text of the query finds, or embeddings add some. -/
theorem unranked_eq_ok (h : unranked library current query providers = .ok candidates) :
    ∃ lexical, lexicalCandidates library current query = .ok lexical ∧
      (candidates = lexical ∨ ∃ pool, semanticPool library current query = .ok pool ∧
        candidates = withSimilar lexical pool (candidateLimit query.limit).val
          (providers (embeddingCall query pool))) := by
  obtain ⟨lexical,hlexical,h⟩ := bind_eq_ok.mp h
  refine ⟨lexical,hlexical,?_⟩
  split_ifs at h with hblank
  · cases h
    exact .inl rfl
  · obtain ⟨pool,hpool,h⟩ := bind_eq_ok.mp h
    split_ifs at h with hempty
    · cases h
      exact .inl rfl
    · cases h
      exact .inr ⟨pool,hpool,rfl⟩

theorem mem_of_unranked (h : unranked library current query providers = .ok candidates)
    {record : MemoryRecord} (hrecord : record ∈ candidates) : record ∈ eligible current query := by
  obtain ⟨lexical,hlexical,rfl | ⟨pool,hpool,rfl⟩⟩ := unranked_eq_ok h
  · exact mem_of_recall hlexical hrecord
  · exact (mem_withSimilar hrecord).elim (mem_of_recall hlexical) (mem_of_recall hpool)

theorem nodup_unranked (hcurrent : (current.map (·.id)).Nodup)
    (h : unranked library current query providers = .ok candidates) :
    (candidates.map (·.id)).Nodup := by
  obtain ⟨lexical,hlexical,rfl | ⟨pool,hpool,rfl⟩⟩ := unranked_eq_ok h
  · exact nodup_recall hcurrent hlexical
  · exact nodup_withSimilar (nodup_recall hcurrent hlexical) _

theorem limit_of_unranked (h : unranked library current query providers = .ok candidates) :
    1 ≤ query.limit.val := by
  obtain ⟨lexical,hlexical,-⟩ := unranked_eq_ok h
  have hlimit : 1 ≤ min (4 * query.limit.val) 100 := (limit_of_recall hlexical).1
  omega

/-- Without an answer of the embedding service, the text of the query finds the candidates. -/
theorem unranked_of_unanswered (h : unranked library current query providers = .ok candidates)
    {pool : List MemoryRecord} (hpool : semanticPool library current query = .ok pool)
    (hanswer : providers (embeddingCall query pool) = none) :
    lexicalCandidates library current query = .ok candidates := by
  obtain ⟨lexical,hlexical,rfl | ⟨asked,hasked,rfl⟩⟩ := unranked_eq_ok h
  · exact hlexical
  · cases hasked.symm.trans hpool
    rw [hanswer]
    exact hlexical

end Candidates

/-! ## The result -/

section Result
variable (library : MemoryLibrary) (s : MemoryStore) (query : MemoryRecallQuery)
  (providers : (q : MemoryCall) → q.Reply)

/-- The result of a recall over the candidates that were found before any ranking. -/
structure Recalled (candidates found : List MemoryRecord) : Prop where
  bounded : found.length ≤ query.limit.val
  distinct : (found.map (·.id)).Nodup
  visible : ∀ record ∈ found, record ∈ currentAt s query.time ∧ record.visibleAt query.time
  unsuperseded : ∀ record ∈ found, ∀ other ∈ currentAt s query.time,
    other.supersessionEffectiveAt query.time → record.id ∉ other.supersedes
  inScope : ∀ record ∈ found, record.scope ∈ query.scopes ∧
    (query.kinds = [] ∨ record.kind ∈ query.kinds)
  full : min query.limit.val candidates.length ≤ found.length
  unembedded : ∀ pool, semanticPool library (currentAt s query.time) query = .ok pool →
    providers (embeddingCall query pool) = none →
      lexicalCandidates library (currentAt s query.time) query = .ok candidates
  unanswered : providers (rankingCall query candidates) = none →
    found = candidates.take query.limit.val
  unfit : ∀ ids, providers (rankingCall query candidates) = some ids →
    Unfit candidates query.limit.val [] ids → found = candidates.take query.limit.val

variable {library s query providers} {candidates : List MemoryRecord}

variable (providers) in
theorem rankedCandidates_full (hlimit : 1 ≤ query.limit.val)
    (hcandidates : (candidates.map (·.id)).Nodup) :
    ((rankedCandidates query providers candidates).map (·.id)).Nodup ∧
      (rankedCandidates query providers candidates).length =
        min query.limit.val candidates.length := by
  have hprefix : ((candidates.take query.limit.val).map (·.id)).Nodup ∧
      (candidates.take query.limit.val).length = min query.limit.val candidates.length :=
    ⟨hcandidates.sublist ((take_sublist _ _).map _),length_take⟩
  unfold rankedCandidates
  split_ifs
  · exact hprefix
  · cases providers (rankingCall query candidates) with
    | none => exact hprefix
    | some ids => exact rankedBy_full hcandidates ⟨.nil,nil_subset _⟩ hlimit

theorem mem_rankedCandidates {record : MemoryRecord}
    (h : record ∈ rankedCandidates query providers candidates) : record ∈ candidates := by
  unfold rankedCandidates at h
  split_ifs at h
  · exact mem_of_mem_take h
  · exact mem_withRanking h

theorem recalled_rankedCandidates (hcurrent : ((currentAt s query.time).map (·.id)).Nodup)
    (h : unranked library (currentAt s query.time) query providers = .ok candidates) :
    Recalled library s query providers candidates (rankedCandidates query providers candidates) := by
  have hlimit := limit_of_unranked h
  obtain ⟨hdistinct,hlength⟩ := rankedCandidates_full providers hlimit
    (nodup_unranked hcurrent h)
  have heligible : ∀ record ∈ rankedCandidates query providers candidates,
      record ∈ currentAt s query.time ∧ record.scope ∈ query.scopes ∧
        (query.kinds = [] ∨ record.kind ∈ query.kinds) ∧ record.visibleAt query.time ∧
          record.id ∉ supersededIds (currentAt s query.time) query.time := fun record hrecord => by
    simpa [eligible] using mem_of_unranked h (mem_rankedCandidates hrecord)
  constructor
  case bounded => omega
  case distinct => exact hdistinct
  case visible => exact fun record hrecord =>
    ⟨(heligible record hrecord).1,(heligible record hrecord).2.2.2.1⟩
  case unsuperseded =>
    intro record hrecord other hother heffective hmem
    refine (heligible record hrecord).2.2.2.2 (mem_flatMap.mpr ⟨other,?_,hmem⟩)
    exact mem_filter.mpr ⟨hother,heffective⟩
  case inScope => exact fun record hrecord =>
    ⟨(heligible record hrecord).2.1,(heligible record hrecord).2.2.1⟩
  case full => exact hlength.ge
  case unembedded => exact fun pool hpool hanswer => unranked_of_unanswered h hpool hanswer
  case unanswered =>
    intro hanswer
    unfold rankedCandidates
    split_ifs
    · rfl
    · rw [hanswer]
      rfl
  case unfit =>
    intro ids hids hunfit
    unfold rankedCandidates
    split_ifs
    · rfl
    · rw [hids]
      exact rankedBy_of_unfit hlimit hunfit

end Result

/-! ## The program -/

section Program
variable {library : MemoryLibrary} {s : MemoryStore} {query : MemoryRecallQuery}
  {providers : (q : MemoryCall) → q.Reply}

theorem changes_appendSemanticCandidates {current lexical : List MemoryRecord}
    (hlexical : lexicalCandidates library current query = .ok lexical) :
    Changes (·.reply = providers) (MemoryStep library (·.reply = providers) (.«recall» query))
      (fun candidates _ => unranked library current query providers = .ok candidates)
      (appendSemanticCandidates library current query (candidateLimit query.limit).val lexical) s := by
  have hlimit : (candidateLimit query.limit).val ≠ 0 := Nat.ne_of_gt (limit_of_recall hlexical).1
  have hunranked : unranked library current query providers =
      (if Configuration.isBlank query.query then return lexical
      else do
        let pool ← semanticPool library current query
        return if pool = [] then lexical
          else withSimilar lexical pool (candidateLimit query.limit).val
            (providers (embeddingCall query pool))) := by
    rw [unranked,hlexical]
    rfl
  unfold appendSemanticCandidates
  by_cases hblank : Configuration.isBlank query.query
  · rw [if_pos (.inl hblank)]
    exact changes_pure (by rw [hunranked,if_pos hblank]; rfl)
  · rw [if_neg (not_or.mpr ⟨hblank,hlimit⟩)]
    rw [if_neg hblank] at hunranked
    refine changes_check_bind fun pool hpool => ?_
    have hresult : unranked library current query providers =
        .ok (if pool = [] then lexical
          else withSimilar lexical pool (candidateLimit query.limit).val
            (providers (embeddingCall query pool))) := by
      rw [hunranked,semanticPool,hpool]
      rfl
    split_ifs with hempty
    · exact changes_pure (by rw [hresult,if_pos hempty])
    · refine changes_askCall_bind (.stay s) fun turn hturn => changes_pure ?_
      rw [hresult,if_neg hempty,← hturn]
      rfl

theorem changes_rankCandidates {candidates : List MemoryRecord} :
    Changes (·.reply = providers) (MemoryStep library (·.reply = providers) (.«recall» query))
      (fun found _ => found = rankedCandidates query providers candidates)
      (rankCandidates query candidates) s := by
  unfold rankCandidates rankedCandidates
  split_ifs
  · exact changes_pure rfl
  · refine changes_askCall_bind (.stay s) fun turn hturn => changes_pure ?_
    rw [← hturn]
    rfl

/-- A recall that ends returns the ranked candidates. -/
theorem changes_recallMemory (hnamed : Named s) :
    Changes (·.reply = providers) (MemoryStep library (·.reply = providers) (.«recall» query))
      (fun found _ => ∃ candidates,
        unranked library (currentAt s query.time) query providers = .ok candidates ∧
          found = rankedCandidates query providers candidates)
      (recallMemory library query) s := by
  refine changes_bind (changes_bind ?_)
  refine changes_readCell_bind (.stay s) (changes_pure ((steps_loadEntries .record _).mono ?_))
  rintro records s ⟨rfl,rfl⟩
  refine changes_bind ((steps_currentMemories _ fun record => hnamed.of_mem_storedRecords).mono ?_)
  rintro current t rfl
  refine changes_check_bind fun lexical hlexical => ?_
  refine changes_bind ((changes_appendSemanticCandidates hlexical).mono fun candidates u h => ?_)
  exact changes_rankCandidates.mono fun found _ hfound => ⟨candidates,h,hfound⟩

theorem succeeds_askCall_bind {β : Type} {post : β → MemoryStore → Prop} {q : MemoryCall}
    {f : q.Reply → MemoryM β} (h : ∀ turn, Working turn → Succeeds post (f (turn.reply q)) s) :
    Succeeds post (askCall q >>= f) s :=
  ⟨ensures_askCall_bind trivial fun turn hturn => (h turn hturn).ensures⟩

theorem succeeds_loadEntries {ids : List String}
    (hids : ∀ id ∈ ids, (s (.entry .record id)).isSome) :
    Succeeds (fun records t => t = s ∧ ∀ record ∈ records, ∃ id ∈ ids,
      s (.entry .record id) = some record) (loadEntries .record ids) s := by
  induction ids with
  | nil => exact succeeds_pure ⟨rfl,nofun⟩
  | cons id ids ih =>
    obtain ⟨hid,hrest⟩ := forall_mem_cons.mp hids
    obtain ⟨record,hrecord⟩ := Option.isSome_iff_exists.mp hid
    refine succeeds_readCell_bind (succeeds_require_bind hrecord ?_)
    refine succeeds_bind ((ih hrest).mono ?_)
    rintro records t ⟨rfl,hrecords⟩
    refine succeeds_pure ⟨rfl,forall_mem_cons.mpr ⟨⟨id,by simp,hrecord⟩,?_⟩⟩
    intro other hother
    obtain ⟨k,hk,hstored⟩ := hrecords other hother
    exact ⟨k,mem_cons_of_mem id hk,hstored⟩

theorem succeeds_considerMemory {record : MemoryRecord} (hkey : validateKey record.id = .ok ())
    (time : U64) : Succeeds (fun _ _ => True) (considerMemory time record) s := by
  refine succeeds_check_bind hkey (succeeds_readState_bind ?_)
  cases (stateOf s record.id record).deterministicOutcome record time with
  | expire =>
    refine succeeds_bind ?_
    unfold expireMemory
    split_ifs
    · exact succeeds_bind (succeeds_writeFreshness (succeeds_pure (succeeds_pure trivial)))
    · exact succeeds_pure (succeeds_pure trivial)
  | keepCurrent | needsValidation | retainHistorical | supersede => exact succeeds_pure trivial

theorem succeeds_currentMemories (records : List MemoryRecord)
    (hkeys : ∀ record ∈ records, validateKey record.id = .ok ()) (time : U64) :
    Succeeds (fun _ _ => True) (currentMemories time records) s := by
  induction records generalizing s with
  | nil => exact succeeds_pure trivial
  | cons record records ih =>
    obtain ⟨hkey,hrest⟩ := forall_mem_cons.mp hkeys
    refine succeeds_bind ((succeeds_considerMemory hkey time).mono fun _ t _ => succeeds_bind ?_)
    exact (ih hrest).mono fun _ _ _ => succeeds_pure trivial

theorem succeeds_appendSemanticCandidates {current : List MemoryRecord} {limit : ℕ}
    (hscopes : query.scopes ≠ []) (candidates : List MemoryRecord) :
    Succeeds (fun _ _ => True)
      (appendSemanticCandidates library current query limit candidates) s := by
  unfold appendSemanticCandidates
  split_ifs
  · exact succeeds_pure trivial
  · obtain ⟨pool,hpool⟩ : ∃ pool, semanticPool library current query = .ok pool :=
      recall_eq_ok hscopes ⟨by simp,by simp⟩
    refine succeeds_check_bind hpool ?_
    split_ifs
    · exact succeeds_pure trivial
    · exact succeeds_askCall_bind fun _ _ => succeeds_pure trivial

theorem succeeds_recallMemory (hs : Sound s) (hscopes : query.scopes ≠ [])
    (hlimit : 1 ≤ query.limit.val) :
    Succeeds (fun _ _ => True) (recallMemory library query) s := by
  refine succeeds_bind (succeeds_bind (succeeds_readCell_bind (succeeds_pure ?_)))
  refine (succeeds_loadEntries fun id hid => (hs.listed id).mp hid).mono ?_
  rintro records s ⟨rfl,hrecords⟩
  refine succeeds_bind ((succeeds_currentMemories records ?_ query.time).mono fun current t _ => ?_)
  · intro record hrecord
    obtain ⟨id,-,hstored⟩ := hrecords record hrecord
    rw [hs.named id record hstored]
    exact hs.keyed id (by simp [hstored])
  obtain ⟨lexical,hlexical⟩ : ∃ lexical, lexicalCandidates library current query = .ok lexical :=
    recall_eq_ok hscopes ⟨by simpa [candidateLimit] using by omega,by simp [candidateLimit]⟩
  refine succeeds_check_bind hlexical ?_
  refine succeeds_bind ((succeeds_appendSemanticCandidates hscopes lexical).mono fun found u _ => ?_)
  unfold rankCandidates
  split_ifs
  · exact succeeds_pure trivial
  · exact succeeds_askCall_bind fun _ _ => succeeds_pure trivial

end Program

/-! ## Every store -/

theorem sound_nodup_step {library : MemoryLibrary} {allowed : StoreTurn MemoryCall.Reply → Prop}
    {command : MemoryCommand} {s t : MemoryStore} (hstep : MemoryStep library allowed command s t)
    (h : Sound s ∧ ((s (.index .record)).getD []).Nodup) :
    Sound t ∧ ((t (.index .record)).getD []).Nodup := by
  refine ⟨h.1.step hstep,?_⟩
  cases hstep with
  | stay => exact h.2
  | renewed => rw [renew_index]; exact h.2
  | @added record _ hnew =>
    have habsent : record.id ∉ (s (.index .record)).getD [] := fun hmem => by
      simpa [hnew.absent] using (h.1.listed record.id).mp hmem
    change (addId _ _).Nodup
    rw [addId,(perm_insertionSort _ _).nodup_iff,← concat_eq_append]
    exact h.2.concat habsent

theorem nodup_index_afterHistory (library : MemoryLibrary)
    (history : List (MemoryCommand × MemoryCall.Turns)) :
    ((afterHistory library history (.index .record)).getD []).Nodup := by
  have hstep : ∀ s call, Sound s ∧ ((s (.index .record)).getD []).Nodup →
      Sound (afterCommand library s call) ∧
        ((afterCommand library s call (.index .record)).getD []).Nodup := by
    rintro s ⟨command,turns⟩ ⟨hs,hnodup⟩
    have hsteps : Steps library (fun _ => True) command (command.handle library) s :=
      steps_handle hs.named command
    exact hsteps.ensures.run_induct (fun _ => trivial) (fun _ _ => sound_nodup_step) ⟨hs,hnodup⟩
  exact (runAll_invariant hstep history ⟨sound_empty,.nil⟩).2

theorem nodup_currentAt {s : MemoryStore} (hnamed : Named s)
    (hindex : ((s (.index .record)).getD []).Nodup) (time : U64) :
    ((currentAt s time).map (·.id)).Nodup := by
  have hstored : ((storedRecords s).map (·.id)).Nodup := by
    rw [storedRecords,List.Nodup,pairwise_map,pairwise_filterMap]
    refine hindex.imp fun hne record hrecord other hother hid => hne ?_
    rw [← hnamed _ _ hrecord,← hnamed _ _ hother,hid]
  exact hstored.sublist (filter_sublist.map _)

section Answers
variable (library : MemoryLibrary) (s : MemoryStore) (query : MemoryRecallQuery)
  (failures : ℕ → Option String) (providers : (q : MemoryCall) → q.Reply)

/-- A recall where requests to the store may fail and the providers answer as they like. -/
def recallOutcome : Except MemoryError (List MemoryRecord) :=
  ((recallMemory library query).run serveStore (fun n => ⟨failures n,providers⟩) s).1

/-- A recall without a limit is rejected. Up to the limit of a hundred, one on a working store
ends, and what it returns is what other services can only put in another order. -/
structure RecallAnswers : Prop where
  rejected : query.limit.val = 0 → ∃ e, recallOutcome library s query failures providers = .error e
  answered : (∀ n, failures n = none) → query.scopes ≠ [] →
    1 ≤ query.limit.val ∧ query.limit.val ≤ 100 →
      ∃ found, recallOutcome library s query failures providers = .ok found
  recalled : query.limit.val ≤ 100 → ∀ found,
    recallOutcome library s query failures providers = .ok found → ∃ candidates,
      unranked library (currentAt s query.time) query providers = .ok candidates ∧
        Recalled library s query providers candidates found

end Answers

/-- Other services can only put the result of a recall in another order. -/
theorem recall_answers (library : MemoryLibrary) (history : List (MemoryCommand × MemoryCall.Turns))
    (query : MemoryRecallQuery) (failures : ℕ → Option String)
    (providers : (q : MemoryCall) → q.Reply) :
    RecallAnswers library (afterHistory library history) query failures providers := by
  have hs := sound_afterHistory library history
  have hcurrent := nodup_currentAt hs.named (nodup_index_afterHistory library history) query.time
  have hresult : ∀ found, recallOutcome library (afterHistory library history) query failures
      providers = .ok found → ∃ candidates, unranked library
        (currentAt (afterHistory library history) query.time) query providers = .ok candidates ∧
          found = rankedCandidates query providers candidates :=
    (changes_recallMemory hs.named).ensures.run fun _ => rfl
  constructor
  case rejected =>
    intro hzero
    cases houtcome : recallOutcome library (afterHistory library history) query failures providers
    case error e => exact ⟨e,rfl⟩
    case ok found =>
      obtain ⟨candidates,hcandidates,-⟩ := hresult found houtcome
      exact absurd (limit_of_unranked hcandidates) (by omega)
  case answered =>
    intro hworks hscopes hlimit
    have hturns : ∀ n, Working (⟨failures n,providers⟩ : StoreTurn MemoryCall.Reply) := hworks
    obtain ⟨found,hfound,-⟩ := (succeeds_recallMemory hs hscopes hlimit.1).run hturns
    exact ⟨found,hfound⟩
  case recalled =>
    intro _ found hfound
    obtain ⟨candidates,hcandidates,rfl⟩ := hresult found hfound
    exact ⟨candidates,hcandidates,recalled_rankedCandidates hcurrent hcandidates⟩

section Reordered

/-- A ranking that fits, and no embeddings. -/
def rankedOnly : (q : MemoryCall) → q.Reply
  | .invoke _ => .error "no service"
  | .embed _ => none
  | .rank _ => some ["second","first"]

def guideQuery (limit : U32) : MemoryRecallQuery where
  scopes := [.global]
  kinds := []
  query := "guide"
  time := 20
  limit := limit

/-- Where the embedding service fails, a ranking still puts the candidates in another order. A limit
of more than a hundred is not rejected. -/
theorem reordered_without_embeddings : (∀ inputs, rankedOnly (.embed inputs) = none) ∧
    unranked plainLibrary (currentAt (afterHistory plainLibrary guideHistory) 20) (guideQuery 2)
      rankedOnly = .ok [guideMemory "first",guideMemory "second"] ∧
    recallOutcome plainLibrary (afterHistory plainLibrary guideHistory) (guideQuery 2)
      (fun _ => none) rankedOnly = .ok [guideMemory "second",guideMemory "first"] ∧
    recallOutcome plainLibrary (afterHistory plainLibrary guideHistory) (guideQuery 101)
      (fun _ => none) rankedOnly = .ok [guideMemory "second",guideMemory "first"] :=
  ⟨fun _ => rfl,by decide +kernel,by decide +kernel,by decide +kernel⟩

end Reordered

end PhenixConductor.Memory

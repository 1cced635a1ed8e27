import PhenixConductor.Memory.Records
import PhenixConductor.Collections.Firsts

/-! # Freshness

A memory is current until its end of validity, an observation of another revision of a source,
or a conflict calls it into question.
-/
namespace PhenixConductor.Memory
open Contract
open Execution (U64)

def MemorySourceReference.dependency (self : MemorySourceReference) : MemoryDependencyRevision :=
  ⟨self.service,self.resource,none⟩

/-- `initial_state` without a canonical reference, which no caller gives. -/
def MemoryRecord.initialState (self : MemoryRecord) : MemoryFreshnessRecord where
  memoryId := self.id
  freshness := .current
  changedAt := self.createdAt
  dependencies := sortDedup (self.sourceRefs.map MemorySourceReference.dependency)
  canonicalReference := none

/-- The memory's validity has ended. -/
def MemoryRecord.EndedBy (self : MemoryRecord) (time : U64) : Prop :=
  ∃ stop ∈ self.validUntil, stop ≤ time

instance MemoryRecord.decidableEndedBy (self : MemoryRecord) (time : U64) :
    Decidable (self.EndedBy time) :=
  decidable_of_iff (self.validUntil.any (· ≤ time)) (by simp [EndedBy,Option.any_eq_true])

namespace MemoryFreshnessRecord
variable (self : MemoryFreshnessRecord)

def deterministicOutcome (record : MemoryRecord) (time : U64) : MemoryRevalidationOutcome :=
  if self.freshness = .historical then .retainHistorical
  else if record.EndedBy time then .expire
  else if self.freshness = .needsValidation then .needsValidation
  else .keepCurrent

/-- The freshness record after a change at a time. -/
def changed (freshness : MemoryFreshness) (time : U64) : MemoryFreshnessRecord :=
  { self with
    freshness := freshness
    changedAt := time }

/-- A current memory has to be validated again; the others stay as they are. -/
def questioned (time : U64) : MemoryFreshnessRecord :=
  if self.freshness = .current then self.changed .needsValidation time else self

end MemoryFreshnessRecord

/-- The dependency is on the resource. -/
def MemoryDependencyRevision.On (self : MemoryDependencyRevision) (service : ServiceId)
    (resource : String) : Prop :=
  self.service = service ∧ self.resource = resource
deriving Decidable

def MemoryCanonicalReference.On (self : MemoryCanonicalReference) (service : ServiceId)
    (resource : String) : Prop :=
  self.service = service ∧ self.resource = resource
deriving Decidable

def MemoryDependencyRevision.observe (service : ServiceId) (resource revision : String)
    (self : MemoryDependencyRevision) : MemoryDependencyRevision :=
  if self.On service resource then { self with revision := some revision } else self

def MemoryCanonicalReference.observe (service : ServiceId) (resource revision : String)
    (self : MemoryCanonicalReference) : MemoryCanonicalReference :=
  if self.On service resource then { self with revision := some revision } else self

namespace MemoryFreshnessRecord
variable (self : MemoryFreshnessRecord)

/-- Another revision than the observed one is recorded for the resource. -/
def AffectedBy (service : ServiceId) (resource revision : String) : Prop :=
  (∃ dependency ∈ self.dependencies,
    dependency.On service resource ∧ dependency.revision ≠ some revision) ∨
  ∃ reference ∈ self.canonicalReference,
    reference.On service resource ∧ reference.revision ≠ some revision

instance decidableAffectedBy (service : ServiceId) (resource revision : String) :
    Decidable (self.AffectedBy service resource revision) :=
  inferInstanceAs (Decidable ((∃ dependency ∈ self.dependencies, _) ∨
    ∃ reference ∈ self.canonicalReference, _))

/-- The revision is recorded wherever the resource is named. -/
def recorded (service : ServiceId) (resource revision : String) : MemoryFreshnessRecord :=
  { self with
    dependencies := self.dependencies.map (.observe service resource revision)
    canonicalReference := self.canonicalReference.map (.observe service resource revision) }

/-- `observe_revision_change`, whose answer is whether the memory is affected. -/
def observeRevisionChange (service : ServiceId) (resource revision : String) (time : U64) :
    MemoryFreshnessRecord :=
  if self.AffectedBy service resource revision then
    (self.recorded service resource revision).questioned time
  else self.recorded service resource revision

theorem not_affectedBy_recorded (service : ServiceId) (resource revision : String) :
    ¬(self.recorded service resource revision).AffectedBy service resource revision := by
  rintro (⟨dependency,hmem,hon,hother⟩ | ⟨reference,hmem,hon,hother⟩)
  · obtain ⟨old,-,rfl⟩ := List.mem_map.mp hmem
    unfold MemoryDependencyRevision.observe at hon hother
    split_ifs at hon hother with h
    · exact hother rfl
    · exact h hon
  · obtain ⟨old,-,rfl⟩ := Option.map_eq_some_iff.mp hmem
    unfold MemoryCanonicalReference.observe at hon hother
    split_ifs at hon hother with h
    · exact hother rfl
    · exact h hon

/-- What is observed is recorded. -/
theorem not_affectedBy_observeRevisionChange (service : ServiceId) (resource revision : String)
    (time : U64) : ¬(self.observeRevisionChange service resource revision time).AffectedBy
      service resource revision := by
  unfold observeRevisionChange questioned
  split_ifs
  · exact self.not_affectedBy_recorded service resource revision
  · exact self.not_affectedBy_recorded service resource revision
  · exact self.not_affectedBy_recorded service resource revision

/-- A conflict is one more source whose revision is not known. -/
def withDependency (dependency : MemoryDependencyRevision) : MemoryFreshnessRecord :=
  if dependency ∈ self.dependencies then self
  else { self with
    dependencies := (self.dependencies ++ [dependency]).insertionSort (· ≤ ·) }

/-- The freshness record of a memory that another one takes the place of. -/
def superseded (time : U64) : MemoryFreshnessRecord :=
  self.changed .historical
    (if self.freshness = .current then time else min self.changedAt time)

end MemoryFreshnessRecord

end PhenixConductor.Memory

/-! ## Retrieval

Of the memories that are visible at a time and that no other visible one supersedes, those
that match the query are sorted by their score.
-/
namespace PhenixConductor.Memory
open Execution (U64)

namespace MemoryRecord
variable (self : MemoryRecord)

def visibleAt (time : U64) : Bool :=
  self.createdAt ≤ time && self.validFrom.all (· ≤ time) && self.validUntil.all (time < ·)

/-- When the memory takes the place of those that it supersedes. -/
def effectiveAt : U64 := max (self.validFrom.getD self.createdAt) self.createdAt

def supersessionEffectiveAt (time : U64) : Bool :=
  self.createdAt ≤ time && self.validFrom.getD self.createdAt ≤ time

end MemoryRecord

/-- `str::split_whitespace` -/
def splitWhitespace (text : String) : List String :=
  ((text.toList.splitOnP Configuration.isWhiteSpace).filter (· ≠ [])).map .ofList

/-- The text has the other one in it. -/
def contains (text part : String) : Bool := part.toList <:+: text.toList

variable (lowercase : String → String)

def lexicalScore (content query : String) (terms : List String) : Option ℕ :=
  let content := lowercase content
  let score := (if contains content query then 100 else 0) +
    10 * (terms.filter (contains content)).length
  if 0 < score then some score else none

def recallScore (record : MemoryRecord) (query : String) (terms : List String) : Option ℕ :=
  if query.isEmpty then some 0
  else if lowercase record.id = query then some 1000
  else if record.sourceRefs.any (lowercase ·.resource = query) then some 900
  else lexicalScore lowercase record.content query terms

/-- The order of candidates with scores: the best first, of these the latest. -/
def compareScored (left right : ℕ × MemoryRecord) : Ordering :=
  (compare right.1 left.1).then <| (compare right.2.createdAt left.2.createdAt).then
    (compare left.2.id right.2.id)

/-- The identifiers that a visible memory supersedes. -/
def supersededIds (records : List MemoryRecord) (time : U64) : List String :=
  (records.filter (·.supersessionEffectiveAt time)).flatMap (·.supersedes)

/-- The memories that the query is about. -/
def eligible (records : List MemoryRecord) (query : MemoryRecallQuery) : List MemoryRecord :=
  records.filter fun record =>
    record.scope ∈ query.scopes ∧ (query.kinds = [] ∨ record.kind ∈ query.kinds) ∧
      record.visibleAt query.time ∧ record.id ∉ supersededIds records query.time

/-- The text of a query is matched in lower case. -/
def scored (records : List MemoryRecord) (query : MemoryRecallQuery) : List (ℕ × MemoryRecord) :=
  let normalized := lowercase (trim query.query)
  (eligible records query).filterMap fun record =>
    (recallScore lowercase record normalized (splitWhitespace normalized)).map (·,record)

/-- `retrieval::recall` -/
def «recall» (records : List MemoryRecord) (query : MemoryRecallQuery) :
    Except MemoryError (List MemoryRecord) :=
  if query.scopes = [] then .error (.invalid "recall requires at least one scope")
  else if query.limit.val < 1 ∨ 100 < query.limit.val then
    .error (.invalid "recall limit must be between 1 and 100")
  else .ok ((((scored lowercase records query).insertionSort
    fun left right => (compareScored left right).isLE).take query.limit.val).map (·.2))

theorem mem_of_recall {lowercase : String → String} {records found : List MemoryRecord}
    {query : MemoryRecallQuery} (h : «recall» lowercase records query = .ok found)
    {record : MemoryRecord} (hrecord : record ∈ found) : record ∈ eligible records query := by
  unfold «recall» at h
  split_ifs at h
  cases h
  obtain ⟨entry,hentry,rfl⟩ := List.mem_map.mp hrecord
  have hsorted := (List.mem_insertionSort _).mp (List.mem_of_mem_take hentry)
  obtain ⟨candidate,hcandidate,hscore⟩ := List.mem_filterMap.mp hsorted
  obtain ⟨score,-,rfl⟩ := Option.map_eq_some_iff.mp hscore
  exact hcandidate

end PhenixConductor.Memory

/-! ## Ranking

Candidates that are close in meaning are added to those that match, and another service
may put them in order. An answer that does not fit is passed over.
-/
namespace PhenixConductor.Memory
open Collections

/-- `f64::total_cmp` through the order of the bits. -/
def totalKey (x : Float) : ℤ :=
  let bits : ℤ := x.toBits.toNat
  if bits < 2 ^ 63 then bits else 2 ^ 63 - 1 - bits

def cosineSimilarity (left right : List Float) : Option Float :=
  if left.length ≠ right.length ∨ left = [] then none
  else
    let dot := (List.zipWith (· * ·) left right).foldl (· + ·) 0
    let leftNorm := ((left.map fun value => value * value).foldl (· + ·) 0).sqrt
    let rightNorm := ((right.map fun value => value * value).foldl (· + ·) 0).sqrt
    if leftNorm == 0 || rightNorm == 0 then none else some (dot / (leftNorm * rightNorm))

def compareSimilar (left right : Float × MemoryRecord) : Ordering :=
  (compare (totalKey right.1) (totalKey left.1)).then <|
    (compare right.2.createdAt left.2.createdAt).then (compare left.2.id right.2.id)

/-- The records of a pool with their similarity to the query, the closest first. -/
def similar (queryEmbedding : List Float) (pool : List MemoryRecord)
    (embeddings : List (List Float)) : List MemoryRecord :=
  (((pool.zip embeddings).filterMap fun entry =>
    (cosineSimilarity queryEmbedding entry.2).map (·,entry.1)).insertionSort
      fun left right => (compareSimilar left right).isLE).map (·.2)

/-- The candidates with those that the embeddings add. -/
def withSimilar (candidates pool : List MemoryRecord) (limit : ℕ) :
    Option (List (List Float)) → List MemoryRecord
  | some (queryEmbedding :: embeddings) =>
    if embeddings.length ≠ pool.length ∨ queryEmbedding = [] then candidates
    else ((similar queryEmbedding pool embeddings).take limit).foldl (keepNew (·.id)) candidates
  | _ => candidates

/-- The loop over the identifiers of a ranking, and what follows it. -/
def rankedBy (candidates : List MemoryRecord) (limit : ℕ) :
    List String → List MemoryRecord → List MemoryRecord
  | [], ranked => (candidates.foldl (keepNew (·.id)) ranked).take limit
  | id :: ids, ranked =>
    if id ∈ ranked.map (·.id) then candidates.take limit
    else match candidates.find? (·.id = id) with
      | none => candidates.take limit
      | some record =>
        if ranked.length + 1 = limit then ranked ++ [record]
        else rankedBy candidates limit ids (ranked ++ [record])

/-- The candidates in the order of a ranking, if there is one that fits. -/
def withRanking (candidates : List MemoryRecord) (limit : ℕ) :
    Option (List String) → List MemoryRecord
  | none => candidates.take limit
  | some ids => rankedBy candidates limit ids []

variable {record : MemoryRecord}

theorem mem_foldl_keepNew {kept l : List MemoryRecord} (h : record ∈ l.foldl (keepNew (·.id)) kept) :
    record ∈ kept ∨ record ∈ l := by
  induction l generalizing kept with
  | nil => exact .inl h
  | cons a l ih =>
    rcases ih h with hkept | hl
    · unfold keepNew at hkept
      split_ifs at hkept with hseen
      · exact .inl hkept
      · rcases List.mem_append.mp hkept with hmem | hmem
        · exact .inl hmem
        · exact .inr (by simp [List.mem_singleton.mp hmem])
    · exact .inr (List.mem_cons_of_mem _ hl)

theorem mem_similar {queryEmbedding : List Float} {pool : List MemoryRecord}
    {embeddings : List (List Float)} (h : record ∈ similar queryEmbedding pool embeddings) :
    record ∈ pool := by
  obtain ⟨entry,hentry,rfl⟩ := List.mem_map.mp h
  obtain ⟨source,hsource,hscore⟩ :=
    List.mem_filterMap.mp ((List.mem_insertionSort _).mp hentry)
  obtain ⟨score,-,rfl⟩ := Option.map_eq_some_iff.mp hscore
  exact (List.of_mem_zip hsource).1

variable {candidates : List MemoryRecord}

theorem mem_withSimilar {pool : List MemoryRecord} {limit : ℕ}
    {response : Option (List (List Float))}
    (h : record ∈ withSimilar candidates pool limit response) :
    record ∈ candidates ∨ record ∈ pool := by
  unfold withSimilar at h
  split at h
  · split_ifs at h with hfit
    · exact .inl h
    · exact (mem_foldl_keepNew h).imp_right fun hmem => mem_similar (List.mem_of_mem_take hmem)
  · exact .inl h

theorem mem_rankedBy {limit : ℕ} {ids : List String} {ranked : List MemoryRecord}
    (h : record ∈ rankedBy candidates limit ids ranked) :
    record ∈ candidates ∨ record ∈ ranked := by
  induction ids generalizing ranked with
  | nil => exact (mem_foldl_keepNew (List.mem_of_mem_take h)).symm
  | cons id ids ih =>
    unfold rankedBy at h
    by_cases hseen : id ∈ ranked.map (·.id)
    · rw [if_pos hseen] at h
      exact .inl (List.mem_of_mem_take h)
    · rw [if_neg hseen] at h
      cases hfind : candidates.find? (·.id = id) with
      | none =>
        rw [hfind] at h
        exact .inl (List.mem_of_mem_take h)
      | some found =>
        have hlast : ∀ {r}, r ∈ ranked ++ [found] → r ∈ candidates ∨ r ∈ ranked := by
          intro r hr
          rcases List.mem_append.mp hr with hmem | hmem
          · exact .inr hmem
          · exact .inl (List.mem_singleton.mp hmem ▸ List.mem_of_find?_eq_some hfind)
        rw [hfind] at h
        split_ifs at h with hfull
        · exact hlast h
        · exact (ih h).elim .inl hlast

theorem mem_withRanking {limit : ℕ} {response : Option (List String)}
    (h : record ∈ withRanking candidates limit response) : record ∈ candidates := by
  cases response with
  | none => exact List.mem_of_mem_take h
  | some ids => exact (mem_rankedBy h).resolve_right List.not_mem_nil

end PhenixConductor.Memory

import PhenixConductor.Execution.AttemptSteps

/-! # The lineage of a retry

The walk goes from the requested parent up to an attempt without a parent and counts the
attempts on its way.
-/
namespace PhenixConductor.StepRunner
open Collections Execution
variable {Route : Type}

/-- The walk; `none` where the fuel runs out. -/
def lineageFrom (attempts : BTreeMap String (StepAttemptRecord StepPlan Route)) :
    ℕ → List String → U32 → Option String → Option (Except String U32)
  | _, _, ancestorCount, none => some (.ok ancestorCount)
  | 0, _, _, some _ => none
  | fuel + 1, seen, ancestorCount, some attemptId =>
    if attemptId ∈ seen then some (.error "planned retry lineage contains a cycle")
    else match attempts.get? attemptId with
      | none => some (.error ("unknown planned retry parent: " ++ attemptId))
      | some attempt =>
        if attempt.attribution.kind = .root ∨ attempt.attribution.kind = .retry then
          lineageFrom attempts fuel (attemptId :: seen) (saturatingAdd ancestorCount 1)
            attempt.attribution.parentAttemptId
        else some (.error "planned retry parent is outside the root/retry lifecycle")

/-- The retry is one attempt more than its ancestors. -/
def attemptLimit (plan : StepPlan) (ancestorCount : U32) : Except String Unit :=
  let requestedAttempt := saturatingAdd ancestorCount 1
  ensure (requestedAttempt ≤ plan.retry.maxAttempts)
    ("planned retry exceeds attempt limit: requested " ++ toString requestedAttempt.val ++
      ", allowed " ++ toString plan.retry.maxAttempts.val)

def byAttemptId (attempts : List (StepAttemptRecord StepPlan Route)) :
    BTreeMap String (StepAttemptRecord StepPlan Route) :=
  .ofList (attempts.map fun attempt => (attempt.attribution.attemptId,attempt))

/-- What the check says of a retry with this parent, given the attempts of its root. -/
def lineageVerdict (fuel : ℕ) (attempts : List (StepAttemptRecord StepPlan Route))
    (parent : String) (plan : StepPlan) : Option (Except String Unit) :=
  (lineageFrom (byAttemptId attempts) fuel [] 0 (some parent)).map (· >>= attemptLimit plan)

section Termination
variable {attempts : BTreeMap String (StepAttemptRecord StepPlan Route)} {seen : List String}
  {count : U32} {current : Option String} {fuel : ℕ}

/-- The attempts that the walk has not seen. -/
def unseen (attempts : BTreeMap String (StepAttemptRecord StepPlan Route)) (seen : List String) :
    List String :=
  attempts.keys.filter (· ∉ seen)

theorem unseen_lt {attemptId : String} {attempt : StepAttemptRecord StepPlan Route}
    (hget : attempts.get? attemptId = some attempt) (hseen : attemptId ∉ seen) :
    (unseen attempts (attemptId :: seen)).length < (unseen attempts seen).length := by
  have hkey : attemptId ∈ attempts.keys := by
    rw [BTreeMap.mem_keys_iff, hget]
    rfl
  have hsplit : unseen attempts (attemptId :: seen) =
      (unseen attempts seen).filter (· ≠ attemptId) := by
    unfold unseen
    rw [List.filter_filter]
    congr 1
    simp
  rw [hsplit, List.length_filter_lt_length_iff_exists]
  exact ⟨attemptId,List.mem_filter.mpr ⟨hkey,by simpa using hseen⟩,by simp⟩

/-- Every turn of the walk sees an attempt more, so the attempts bound its length. -/
theorem lineageFrom_isSome (h : (unseen attempts seen).length < fuel) :
    (lineageFrom attempts fuel seen count current).isSome := by
  induction fuel generalizing seen count current with
  | zero => exact absurd h (Nat.not_lt_zero _)
  | succ fuel ih =>
    cases current with
    | none => rfl
    | some attemptId =>
      unfold lineageFrom
      split_ifs with hseen
      · rfl
      · cases hget : attempts.get? attemptId with
        | none => rfl
        | some attempt =>
          dsimp only
          split_ifs with hkind
          · exact ih ((unseen_lt hget hseen).trans_le (Nat.lt_succ_iff.mp h))
          · rfl

/-- More fuel changes nothing. -/
theorem lineageFrom_mono {result : Except String U32} {more : ℕ} (hle : fuel ≤ more)
    (h : lineageFrom attempts fuel seen count current = some result) :
    lineageFrom attempts more seen count current = some result := by
  induction fuel generalizing more seen count current with
  | zero =>
    cases current with
    | none =>
      cases more <;> exact h
    | some attemptId => cases h
  | succ fuel ih =>
    obtain ⟨more,rfl⟩ := Nat.exists_eq_add_one_of_ne_zero (Nat.ne_of_gt (Nat.zero_lt_of_lt hle))
    cases current with
    | none => exact h
    | some attemptId =>
      unfold lineageFrom at h ⊢
      split_ifs at h ⊢ with hseen
      · exact h
      · cases hget : attempts.get? attemptId with
        | none => simpa [hget] using h
        | some attempt =>
          simp only [hget] at h ⊢
          split_ifs at h ⊢ with hkind
          · exact ih (by omega) h
          · exact h

theorem lineageVerdict_terminates (attempts : List (StepAttemptRecord StepPlan Route))
    (parent : String) (plan : StepPlan) : ∃ verdict, ∀ fuel > attempts.length,
    lineageVerdict fuel attempts parent plan = some verdict := by
  have hkeys : (unseen (byAttemptId attempts) []).length < attempts.length + 1 := by
    have hlength := BTreeMap.length_keys_ofList_le
      (attempts.map fun attempt => (attempt.attribution.attemptId,attempt))
    rw [List.length_map] at hlength
    exact Nat.lt_succ_of_le ((List.length_filter_le _ _).trans hlength)
  obtain ⟨walked,hwalked⟩ : ∃ walked, lineageFrom (byAttemptId attempts) (attempts.length + 1) [] 0
      (some parent) = some walked := Option.isSome_iff_exists.mp (lineageFrom_isSome hkeys)
  refine ⟨walked >>= attemptLimit plan,fun fuel hfuel => ?_⟩
  rw [lineageVerdict, lineageFrom_mono hfuel hwalked, Option.map_some]

end Termination

section Count
variable {attempts : BTreeMap String (StepAttemptRecord StepPlan Route)} {seen : List String}
  {count total : U32} {current : Option String} {fuel : ℕ}

/-- A step of a walk that comes to an end: the attempt is there and is counted. -/
theorem lineageFrom_some {attemptId : String}
    (h : lineageFrom attempts fuel seen count (some attemptId) = some (.ok total)) :
    ∃ less attempt, attemptId ∉ seen ∧ fuel = less + 1 ∧ attempts.get? attemptId = some attempt ∧
      lineageFrom attempts less (attemptId :: seen) (saturatingAdd count 1)
        attempt.attribution.parentAttemptId = some (.ok total) := by
  cases fuel with
  | zero => cases h
  | succ fuel =>
    unfold lineageFrom at h
    split_ifs at h with hseen
    · cases h
    · cases hget : attempts.get? attemptId with
      | none => simp [hget] at h
      | some attempt =>
        simp only [hget] at h
        split_ifs at h with hkind
        · exact ⟨fuel,attempt,hseen,rfl,rfl,h⟩
        · cases h

theorem le_of_lineageFrom (h : lineageFrom attempts fuel seen count current = some (.ok total)) :
    count.val ≤ total.val := by
  induction fuel generalizing seen count current with
  | zero =>
    cases current with
    | none =>
      cases h
      exact le_rfl
    | some attemptId => cases h
  | succ fuel ih =>
    cases current with
    | none =>
      cases h
      exact le_rfl
    | some attemptId =>
      obtain ⟨less,attempt,-,hfuel,-,hrest⟩ := lineageFrom_some h
      cases hfuel
      have hnext := ih hrest
      rw [val_saturatingAdd] at hnext
      omega

variable {ledger : AttemptLedger StepPlan Route}

theorem parent_of_retryOf {x p : String} {attribution : UsageAttribution}
    (hget : ledger.attributionOf x = some attribution) (h : ledger.retryOf x = some p) :
    attribution.parentAttemptId = some p := by
  rw [AttemptLedger.retryOf, hget, Option.bind_some] at h
  split_ifs at h
  exact h

/-- The walk counts at least the generations from the root down to where it begins. -/
theorem generation_le_of_lineageFrom {root x : String} {n : ℕ}
    (hledger : ∀ id attempt, attempts.get? id = some attempt → ledger.attributionOf id = some attempt.attribution)
    (hgeneration : Generation ledger.retryOf root x n)
    (h : lineageFrom attempts fuel seen count (some x) = some (.ok total)) :
    min (count.val + n) (2 ^ 32 - 1) ≤ total.val := by
  have hone : ((1 : U32) : ℕ) = 1 := rfl
  induction hgeneration generalizing fuel seen count with
  | root =>
    obtain ⟨less,attempt,-,-,-,hrest⟩ := lineageFrom_some h
    have hle := le_of_lineageFrom hrest
    rw [val_saturatingAdd] at hle
    omega
  | @child x p n above hparent ih =>
    obtain ⟨less,attempt,-,-,hget,hrest⟩ := lineageFrom_some h
    rw [parent_of_retryOf (hledger _ _ hget) hparent] at hrest
    have hle := ih hrest
    rw [val_saturatingAdd] at hle
    omega

/-- The walk meets no attempt twice, so the generations are no more than the attempts. -/
theorem generation_le_unseen {root x : String} {n : ℕ}
    (hledger : ∀ id attempt, attempts.get? id = some attempt → ledger.attributionOf id = some attempt.attribution)
    (hgeneration : Generation ledger.retryOf root x n)
    (h : lineageFrom attempts fuel seen count (some x) = some (.ok total)) :
    n ≤ (unseen attempts seen).length := by
  induction hgeneration generalizing fuel seen count with
  | root =>
    obtain ⟨less,attempt,hseen,-,hget,-⟩ := lineageFrom_some h
    exact Nat.one_le_of_lt (unseen_lt hget hseen)
  | @child x p n above hparent ih =>
    obtain ⟨less,attempt,hseen,-,hget,hrest⟩ := lineageFrom_some h
    rw [parent_of_retryOf (hledger _ _ hget) hparent] at hrest
    exact (ih hrest).trans_lt (unseen_lt hget hseen)

end Count

end PhenixConductor.StepRunner

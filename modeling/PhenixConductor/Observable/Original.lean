import PhenixConductor.Observable.Canonical
import PhenixConductor.Observable.Mutation
import PhenixConductor.Collections.Edits

/-! # Values reconstructed from the undo log

`original_at` walks the undo log back to the value that a path had before the transaction.
-/
namespace PhenixConductor.Observable
open Contract Collections Branching

variable {H : Type}

/-- `q` lies strictly below `p`. -/
def StrictlyBelow (p q : ValuePath) : Prop := p <+: q ∧ p ≠ q

theorem path_cases (p q : ValuePath) :
    q = p ∨ (∃ r, r ≠ [] ∧ q = p ++ r) ∨ (∃ r, r ≠ [] ∧ p = q ++ r) ∨ Incomparable p q := by
  by_cases hpq : p <+: q
  · obtain ⟨r,rfl⟩ := hpq
    by_cases hr : r = []
    · exact .inl (by simp [hr])
    · exact .inr (.inl ⟨r,hr,rfl⟩)
  · by_cases hqp : q <+: p
    · obtain ⟨r,rfl⟩ := hqp
      by_cases hr : r = []
      · exact .inl (by simp [hr])
      · exact .inr (.inr (.inl ⟨r,hr,rfl⟩))
    · exact .inr (.inr (.inr ⟨hpq,hqp⟩))

theorem startsWith_append (p r : ValuePath) : (p ++ r).startsWith p = true := by
  simp [ValuePath.startsWith_iff]

variable {p : ValuePath}

theorem not_startsWith {q : ValuePath} (h : ¬ p <+: q) : q.startsWith p = false := by
  rwa [Bool.eq_false_iff, ne_eq, ValuePath.startsWith_iff]

theorem not_startsWith_of_append {r : ValuePath} (hr : r ≠ []) : p.startsWith (p ++ r) = false := by
  apply not_startsWith
  intro h
  have hl := h.length_le
  rw [List.length_append] at hl
  exact hr (List.length_eq_zero_iff.mp (by omega))

variable {schema : PhenixSchema} {value : ValueId}

variable {old new : PhenixValue}

/-- The record of the mutation says what the path held. -/
def Restores (p : ValuePath) (t : TouchedMutation) : Prop :=
  t.kind.isWhole = true ∧ t.path <+: p

/-- A whole write at or above the path gives its content back, whatever the probe is. -/
theorem probeUndo_of_restores (current : PhenixValue) (probe : Option PhenixValue)
    {q : ValuePath} {kind : TouchedKind} {undo : UndoRecord}
    (hm : Mutated schema old value q kind undo new) (h : Restores p ⟨value,q,kind⟩) :
    probeUndo current value p probe undo = .ok (getAt (some old) p) := by
  obtain ⟨hwhole,r,rfl⟩ := h
  cases hm with
  | splice => cases hwhole
  | whole =>
    by_cases hr : r = []
    · subst hr
      simp [probeUndo]
    · have hne : q ≠ q ++ r := by simpa using hr
      have hread : (getAt (some old) q).bind (fun previous => valueAtOptional previous r) =
          getAt (some old) (q ++ r) := by
        rw [getAt_append]
        cases getAt (some old) q with
        | none => simp
        | some c => exact valueAtOptional_eq c r
      simp [probeUndo, hr, startsWith_append, not_startsWith_of_append hr, hread]

/-- Replaying the record of a mutation turns the new content of a path into the
old one, unless the mutation is a splice strictly above the path. -/
theorem probeUndo_of_mutated (current : PhenixValue) {q : ValuePath} {kind : TouchedKind}
    {undo : UndoRecord} (hm : Mutated schema old value q kind undo new)
    (hsplice : kind.isWhole = false → ¬ StrictlyBelow q p) :
    probeUndo current value p (getAt (some new) p) undo = .ok (getAt (some old) p) := by
  cases hm with
  | @whole kind x target new _ _ _ ha hp =>
    rcases path_cases p q with rfl | ⟨r,hr,rfl⟩ | ⟨r,hr,rfl⟩ | hinc
    · simp [probeUndo]
    · obtain ⟨c,hc⟩ := ha.exists_getAt hr
      have hx := (admits_append hr _ _ _).mp ha
      have hnew : getAt (some new) p = putAt (getAt (some old) p) r x := by
        rw [← hp, getAt_putAt_append ha]
      rw [hc] at hx hnew
      obtain ⟨c',hc'⟩ := Option.ne_none_iff_exists'.mp
        (mt (putAt_eq_none_iff hr (some c) x).mp (Option.some_ne_none c))
      have hback : restoreOptional (getAt (some c) r) c' r = .ok c := by
        refine restoreOptional_of_admits ?_ ?_
        · rw [← hc']
          exact (admits_putAt_self _ _ _ _).mpr hx.getAt
        · rw [← hc']
          exact hx.putAt_getAt
      rw [hnew, hc', hc]
      have hg : getAt (some old) (p ++ r) = getAt (some c) r := by rw [getAt_append, hc]
      simp [probeUndo, hr, startsWith_append, hg, hback, Except.map, Except.mapError]
    · exact probeUndo_of_restores current _ (.whole ‹_› ‹_› ‹_› ha hp) ⟨‹_›,r,rfl⟩
    · have hne : q ≠ p := fun e => hinc.1 (e ▸ List.prefix_rfl)
      have hg : getAt (some new) p = getAt (some old) p := by
        rw [← hp, getAt_putAt_of_incomparable hinc.symm]
      simp [probeUndo, hne, not_startsWith hinc.1, not_startsWith hinc.2, hg]
  | @splice start deleteCount inserted items target new _ hf hrange _ hp =>
    have ha := admits_of_getAt hf
      (.list (spliced items start.toNat deleteCount.toNat inserted))
    have hg : getAt (some new) q =
        some (.list (spliced items start.toNat deleteCount.toNat inserted)) := by
      rw [← hp, getAt_putAt_self ha]
    rcases path_cases p q with rfl | ⟨r,hr,rfl⟩ | ⟨r,hr,rfl⟩ | hinc
    · rw [hg, hf]
      simp [probeUndo, unsplice_spliced hrange]
    · obtain ⟨c,hc⟩ := ha.exists_getAt hr
      have hnew : getAt (some new) p = putAt (getAt (some old) p) r
          (some (.list (spliced items start.toNat deleteCount.toNat inserted))) := by
        rw [← hp, getAt_putAt_append ha]
      rw [getAt_append] at hf hg
      rw [hc] at hf hnew
      obtain ⟨c',hc'⟩ := Option.ne_none_iff_exists'.mp
        (mt (putAt_eq_none_iff hr (some c) _).mp (Option.some_ne_none c))
      rw [hc'] at hnew
      rw [hnew] at hg
      obtain ⟨put,hput⟩ := valueAtMut_of_getAt hg
      have hback : put (.list items) = c := by
        apply Option.some.inj
        rw [← (valueAtMut_eq_ok hput).2, ← hc', putAt_putAt_self _ (admits_of_getAt hf _), ← hf,
          putAt_getAt]
      rw [hnew, hc]
      simp [probeUndo, hr, startsWith_append, hput, unsplice_spliced hrange, hback]
    · exact absurd ⟨List.prefix_append _ _,by simpa using hr.symm⟩ (hsplice rfl)
    · have hne : q ≠ p := fun e => hinc.1 (e ▸ List.prefix_rfl)
      have hg : getAt (some new) p = getAt (some old) p := by
        rw [← hp, getAt_putAt_of_incomparable hinc.symm]
      simp [probeUndo, hne, not_startsWith hinc.1, not_startsWith hinc.2, hg]

/-! ## The history of one root -/

/-- The successful mutations of one root with their records, in order. -/
inductive RootHistory (schema : PhenixSchema) (value : ValueId) (old : PhenixValue) :
    List TouchedMutation → List UndoRecord → PhenixValue → Prop
  | start : RootHistory schema value old [] [] old
  | step {touched : List TouchedMutation} {undo : List UndoRecord} {mid new : PhenixValue}
      {path : ValuePath} {kind : TouchedKind} {record : UndoRecord} :
      RootHistory schema value old touched undo mid →
      Mutated schema mid value path kind record new →
      RootHistory schema value old (touched ++ [⟨value,path,kind⟩]) (undo ++ [record]) new

/-- What the logs of a transaction say about a root that started as `before`. -/
def ObservableTransaction.Logged (tx : ObservableTransaction H) (value : ValueId)
    (before : RegisteredValue) : Prop :=
  ∃ current, tx.state.values.get? value = some { before with current } ∧
    RootHistory before.schema value before.current (tx.touched.filter (·.value = value))
      (tx.undo.filter (·.value = value)) current

/-- Calls keep the logs of a root truthful. -/
theorem Performs.logged {tx tx' : ObservableTransaction H} {calls : List MutationCall}
    (h : Performs tx calls tx') {before : RegisteredValue} (hl : tx.Logged value before) :
    tx'.Logged value before := by
  induction h with
  | nil => exact hl
  | @cons tx tx' tx'' call calls hp _ ih =>
    apply ih
    obtain ⟨registered,record,new,hr,-,hm,rfl⟩ := ObservableTransaction.perform_eq_ok hp
    obtain ⟨current,hget,hh⟩ := hl
    obtain ⟨⟨v,path,kind⟩,ht⟩ : ∃ t, call.touched = t := ⟨_,rfl⟩
    rw [ht] at hr hm ⊢
    have hu := hm.undo_value
    unfold ObservableTransaction.Logged ObservableTransaction.record
    by_cases hv : v = value
    · subst hv
      obtain rfl : { before with current } = registered := Option.some.inj (hget.symm.trans hr)
      simpa [hu] using hh.step hm
    · refine ⟨current,?_,?_⟩
      · rw [StoreState.get?_write, if_neg (Ne.symm hv)]
        exact hget
      · simpa [hu, hv] using hh

/-- The records of other roots do not matter. -/
theorem probeUndos_filter (current : PhenixValue) (value : ValueId) (path : ValuePath)
    (probe : Option PhenixValue) (undo : List UndoRecord) :
    probeUndos current value path probe undo =
      probeUndos current value path probe (undo.filter (·.value = value)) := by
  induction undo generalizing probe with
  | nil => rfl
  | cons record undo ih =>
    by_cases hv : record.value = value
    · rw [List.filter_cons_of_pos (by simpa using hv), probeUndos, probeUndos]
      congr 1
      funext probe
      exact ih probe
    · have hskip : probeUndo current value path probe record = .ok probe := by
        cases record <;> exact if_pos hv
      rw [List.filter_cons_of_neg (by simpa using hv), probeUndos, hskip, ok_bind, ih]

variable {touched : List TouchedMutation}

variable {undo : List UndoRecord}

/-- Replaying the records of a root gives the content that a path had at the
start, if no splice lies strictly above the path. -/
theorem RootHistory.probeUndos_eq (current : PhenixValue)
    (h : RootHistory schema value old touched undo new)
    (hp : ∀ t ∈ touched, t.kind.isWhole = false → ¬ StrictlyBelow t.path p) :
    probeUndos current value p (getAt (some new) p) undo.reverse = .ok (getAt (some old) p) := by
  induction h with
  | start => rfl
  | step h hm ih =>
    have hlast := hp _ (List.mem_append_right _ (List.mem_singleton_self _))
    rw [List.reverse_concat, probeUndos, probeUndo_of_mutated current hm hlast, ok_bind]
    exact ih fun t ht => hp t (by simp [ht])

/-- `original_at` is exact on such paths. -/
theorem RootHistory.originalAt_eq
    (h : RootHistory schema value old touched (undo.filter (·.value = value)) new)
    (hp : ∀ t ∈ touched, t.kind.isWhole = false → ¬ StrictlyBelow t.path p) :
    originalAt new undo value p = .ok (getAt (some old) p) := by
  rw [originalAt, valueAtOptional_eq, probeUndos_filter, List.filter_reverse,
    h.probeUndos_eq new hp]
  rfl

/-- The mutations of a root are edits at or below their paths. -/
theorem RootHistory.edited (h : RootHistory schema value old touched undo new) {T : List ValuePath}
    (hT : ∀ t ∈ touched, ∃ p ∈ T, p <+: t.path) : Edited T (some old) (some new) := by
  induction h with
  | start => exact .refl
  | step h hm ih =>
    obtain ⟨x,ha,hput⟩ := hm.exists_put
    rw [← hput]
    refine .edit (ih fun t ht => hT t (by simp [ht])) ?_ ha
    exact hT _ (List.mem_append_right _ (List.mem_singleton_self _))

end PhenixConductor.Observable

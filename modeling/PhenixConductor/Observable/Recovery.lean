import PhenixConductor.Observable.Atomicity
import PhenixConductor.Observable.Faithful

/-! # Successful calls commit

`finish` replays the undo log on the content of each selected path.
-/
namespace PhenixConductor.Observable
open Contract Collections Branching ObservableStore

variable {H R : Type}

/-- The splice lies strictly above the path, whose content is re-read below it. -/
def SpliceAbove (p : ValuePath) (t : TouchedMutation) : Prop :=
  t.kind.isWhole = false ∧ StrictlyBelow t.path p

/-- The record of the mutation is applied to the content of the path. -/
def Reworks (p : ValuePath) (t : TouchedMutation) : Prop :=
  (t.kind.isWhole = true ∧ StrictlyBelow p t.path) ∨ (t.kind.isWhole = false ∧ p <+: t.path)

/-- The list at the path of a splice reaches up to where the splice starts. -/
def TouchedMutation.StartsWithin (current : PhenixValue) (t : TouchedMutation) : Prop :=
  ∀ start deleteCount inserted items, t.kind = .splice start deleteCount inserted →
    valueAtOptional current t.path = some (.list items) → start.toNat ≤ items.length

/-- Whatever wrote below the path was overwritten at or above it later on. -/
def Overwritten (p : ValuePath) (touched : List TouchedMutation) : Prop :=
  ∀ older t newer, touched = older ++ t :: newer → Reworks p t → ∃ w ∈ newer, Restores p w

/-- Before a splice above the path, whatever wrote below the path was overwritten; and the splice
starts within the list that is committed. -/
def Recovers (current : PhenixValue) (touched : List TouchedMutation) (p : ValuePath) : Prop :=
  ∀ before s after, touched = before ++ s :: after → SpliceAbove p s →
    s.StartsWithin current ∧ Overwritten p before

variable {touched : List TouchedMutation} {t : TouchedMutation}

theorem Recovers.init {current : PhenixValue} {p : ValuePath}
    (h : Recovers current (touched ++ [t]) p) : Recovers current touched p := by
  rintro before s after rfl hs
  exact h before s (after ++ [t]) (by simp) hs

theorem Recovers.last {current : PhenixValue} {p : ValuePath}
    (h : Recovers current (touched ++ [t]) p) (ht : SpliceAbove p t) :
    t.StartsWithin current ∧ Overwritten p touched :=
  h touched t [] rfl ht

theorem Overwritten.init {p : ValuePath} (h : Overwritten p (touched ++ [t])) (ht : ¬ Restores p t) :
    Overwritten p touched := by
  rintro older u newer rfl hu
  obtain ⟨w,hw,hrestores⟩ := h older u (newer ++ [t]) (by simp) hu
  rcases List.mem_append.mp hw with hw | hw
  · exact ⟨w,hw,hrestores⟩
  · cases List.mem_singleton.mp hw
    exact absurd hrestores ht

/-! ## One record -/

section
variable {schema : PhenixSchema} {old new : PhenixValue} {value : ValueId} {p q : ValuePath}
  {kind : TouchedKind} {undo : UndoRecord}

theorem exists_unsplice {items : List PhenixValue} {start : ℕ} (h : start ≤ items.length)
    (insertedCount : ℕ) (removed : List PhenixValue) :
    ∃ back, unsplice items start insertedCount removed = some back := by
  rw [unsplice, spliceRange, if_pos ⟨by omega,by omega⟩]
  exact ⟨_,rfl⟩

/-- A splice above the path is taken back on the committed list. -/
theorem probeUndo_of_spliceAbove {current : PhenixValue} (probe : Option PhenixValue)
    (hm : Mutated schema old value q kind undo new) (h : SpliceAbove p ⟨value,q,kind⟩)
    (hstart : TouchedMutation.StartsWithin current ⟨value,q,kind⟩) :
    ∃ probe', probeUndo current value p probe undo = .ok probe' := by
  obtain ⟨hsplice,⟨r,rfl⟩,hne⟩ := h
  cases hm with
  | whole hwhole => cases hwhole.symm.trans hsplice
  | @splice start deleteCount inserted items =>
    have hr : r ≠ [] := by
      rintro rfl
      exact hne (List.append_nil q).symm
    have hne : q ≠ q ++ r := hne
    simp only [probeUndo, ne_eq, not_true_eq_false, if_false, hne, not_startsWith_of_append hr,
      startsWith_append, Bool.false_eq_true, if_true]
    split
    · next found hfound =>
      obtain ⟨back,hback⟩ := exists_unsplice (hstart _ _ _ found rfl hfound) inserted.length
        (removedBy items start.toNat deleteCount.toNat)
      rw [hback]
      exact ⟨_,rfl⟩
    · exact ⟨_,rfl⟩

/-- A mutation beside the path leaves the probe alone. -/
theorem probeUndo_of_incomparable (current : PhenixValue) (probe : Option PhenixValue)
    (hm : Mutated schema old value q kind undo new) (h : Incomparable p q) :
    probeUndo current value p probe undo = .ok probe := by
  have hne : q ≠ p := fun e => h.1 (e ▸ List.prefix_rfl)
  have hqp : q.startsWith p = false := by
    rw [Bool.eq_false_iff, ne_eq, ValuePath.startsWith_iff]
    exact h.1
  have hpq : p.startsWith q = false := by
    rw [Bool.eq_false_iff, ne_eq, ValuePath.startsWith_iff]
    exact h.2
  cases hm <;> simp [probeUndo, hne, hqp, hpq]

/-- A mutation restores a path, reworks it, is a splice above it or lies beside it. -/
theorem mutation_cases (p : ValuePath) (t : TouchedMutation) :
    Restores p t ∨ Reworks p t ∨ SpliceAbove p t ∨ Incomparable p t.path := by
  cases hkind : t.kind.isWhole with
  | true =>
    rcases path_cases p t.path with hsame | ⟨r,hr,hbelow⟩ | ⟨r,hr,habove⟩ | hbeside
    · exact .inl ⟨hkind,hsame ▸ List.prefix_rfl⟩
    · refine .inr (.inl (.inl ⟨hkind,⟨r,hbelow.symm⟩,fun h => hr ?_⟩))
      exact List.append_right_eq_self.mp (hbelow.symm.trans h.symm)
    · exact .inl ⟨hkind,r,habove.symm⟩
    · exact .inr (.inr (.inr hbeside))
  | false =>
    rcases path_cases p t.path with hsame | ⟨r,hr,hbelow⟩ | ⟨r,hr,habove⟩ | hbeside
    · exact .inr (.inl (.inr ⟨hkind,hsame ▸ List.prefix_rfl⟩))
    · exact .inr (.inl (.inr ⟨hkind,r,hbelow.symm⟩))
    · refine .inr (.inr (.inl ⟨hkind,⟨r,habove.symm⟩,fun h => hr ?_⟩))
      exact List.append_right_eq_self.mp (habove.symm.trans h.symm)
    · exact .inr (.inr (.inr hbeside))

end

/-! ## The whole log -/

section
variable {schema : PhenixSchema} {value : ValueId} {old new : PhenixValue}
  {touched : List TouchedMutation} {undo : List UndoRecord}

/-- The replay succeeds from the content of the path, and from any probe once all that wrote below
the path is overwritten. -/
theorem RootHistory.exists_probeUndos {current : PhenixValue} {p : ValuePath}
    (h : RootHistory schema value old touched undo new) (hp : Recovers current touched p) :
    (∃ found, probeUndos current value p (getAt (some new) p) undo.reverse = .ok found) ∧
      (Overwritten p touched →
        ∀ probe, ∃ found, probeUndos current value p probe undo.reverse = .ok found) := by
  induction h with
  | start => exact ⟨⟨_,rfl⟩,fun _ _ => ⟨_,rfl⟩⟩
  | @step touched undo mid new q kind record h hm ih =>
    obtain ⟨hexact,hany⟩ := ih hp.init
    simp only [List.reverse_concat, probeUndos]
    rcases mutation_cases p ⟨value,q,kind⟩ with hrestores | hreworks | habove | hbeside
    · refine ⟨?_,fun _ probe => ?_⟩
      all_goals
        rw [probeUndo_of_restores current _ hm hrestores, ok_bind]
        exact hexact
    · refine ⟨?_,fun hover => ?_⟩
      · -- Up to here the probe is exact.
        have hsplice : kind.isWhole = false → ¬ StrictlyBelow q p := by
          intro hkind hbelow
          rcases hreworks with ⟨hwhole,-⟩ | ⟨-,hpq⟩
          · cases hkind.symm.trans hwhole
          · exact hbelow.2 (hbelow.1.eq_of_length_le hpq.length_le)
        rw [probeUndo_of_mutated current hm hsplice, ok_bind]
        exact hexact
      · obtain ⟨w,hw,-⟩ := hover touched _ [] rfl hreworks
        cases hw
    · obtain ⟨hstart,hover⟩ := hp.last habove
      refine ⟨?_,fun _ probe => ?_⟩
      all_goals
        obtain ⟨probe',hprobe⟩ := probeUndo_of_spliceAbove _ hm habove hstart
        rw [hprobe, ok_bind]
        exact hany hover probe'
    · have hsplice : kind.isWhole = false → ¬ StrictlyBelow q p := fun _ hbelow => hbeside.2 hbelow.1
      refine ⟨?_,fun hover probe => ?_⟩
      · rw [probeUndo_of_mutated current hm hsplice, ok_bind]
        exact hexact
      · rw [probeUndo_of_incomparable current probe hm hbeside, ok_bind]
        exact hany (hover.init fun hrestores => hbeside.2 hrestores.2) probe

theorem RootHistory.exists_canonicalizeRoot
    (h : RootHistory schema value old (touched.filter (·.value = value))
      (undo.filter (·.value = value)) new)
    (hp : ∀ t ∈ selectedTouched touched value,
      Recovers new (touched.filter (·.value = value)) t.path) :
    ∃ changes, canonicalizeRoot new undo touched value = .ok changes := by
  have hone : ∀ t ∈ selectedTouched touched value,
      ∃ change, (do
        let original ← originalAt new undo value t.path
        return canonicalChange new t original) = Except.ok change := by
    intro t ht
    obtain ⟨found,hfound⟩ := (h.exists_probeUndos (hp t ht)).1
    rw [← List.filter_reverse, ← probeUndos_filter, ← valueAtOptional_eq] at hfound
    refine ⟨canonicalChange new t found,bind_eq_ok.mpr ⟨found,?_,rfl⟩⟩
    rw [originalAt, hfound]
    rfl
  obtain ⟨changes,hchanges⟩ := mapM_ok_of_forall hone
  exact ⟨changes.reduceOption,bind_eq_ok.mpr ⟨changes,hchanges,rfl⟩⟩

end

/-! ## The whole transaction -/

/-- On every root, the selected paths recover from the splices above them. -/
def TransactionScript.Recovers (apply : TransactionScript R) (store : ObservableStore H)
    (roots : List ValueId) : Prop :=
  let tx := (apply.run (store.start roots)).1
  ∀ value registered, tx.state.values.get? value = some registered →
    ∀ t ∈ selectedTouched tx.touched value,
      Observable.Recovers registered.current (tx.touched.filter (·.value = value)) t.path

variable {apply : TransactionScript R} {store : ObservableStore H} {roots : List ValueId}

/-- A touched root is a declared one, so it was registered before. -/
theorem TransactionScript.touched_registered
    (hadmits : admitRoots (declareRoots roots) store.state = .ok ())
    (ht : t ∈ (apply.run (store.start roots)).1.touched) :
    ∃ before, store.state.values.get? t.value = some before := by
  rw [apply.run_touched] at ht
  obtain ⟨call,hcall,rfl⟩ := List.mem_map.mp ht
  have hdeclared := (apply.run_performs (store.start roots)).touched_declared call hcall
  obtain ⟨_,-,hadmits⟩ := bind_eq_ok.mp hadmits
  have hkey := forM_eq_ok.mp hadmits _ hdeclared
  split_ifs at hkey with hk
  exact Option.isSome_iff_exists.mp ((BTreeMap.mem_keys_iff _).mp hk)

theorem TransactionScript.Recovers.exists_canonicalRoots (h : apply.Recovers store roots)
    (hadmits : admitRoots (declareRoots roots) store.state = .ok ()) :
    ∃ canonical, canonicalRoots (apply.run (store.start roots)).1 = .ok canonical := by
  refine (mapM_ok_of_forall ?_).elim fun canonical hcanonical =>
    ⟨_,bind_eq_ok.mpr ⟨canonical,hcanonical,rfl⟩⟩
  intro value hvalue
  obtain ⟨t,ht,rfl⟩ := mem_touchedRoots.mp hvalue
  obtain ⟨before,hbefore⟩ := apply.touched_registered hadmits ht
  obtain ⟨current,hget,hhistory⟩ := apply.run_logged store roots hbefore
  obtain ⟨changes,hchanges⟩ := hhistory.exists_canonicalizeRoot (h t.value _ hget)
  rw [hget]
  exact ⟨(t.value,changes),bind_eq_ok.mpr ⟨changes,hchanges,rfl⟩⟩

theorem prepareDelivery_eq_error {state : StoreState H} {value : ValueId}
    {registered : RegisteredValue} {changes : List ValueChange} {id : ObservationId}
    {error : ObservableError} (h : prepareDelivery state value registered changes id = .error error) :
    ∃ policy mode initial, error = .unsupportedSnapshotPolicy value policy mode initial := by
  rw [prepareDelivery] at h
  split at h
  · cases h
  · dsimp only at h
    split_ifs at h
    cases h
    exact ⟨_,_,_,rfl⟩

variable {canonical : List (ValueId × List ValueChange)}

/-- Once the canonical changes are known, only a snapshot policy can stop `finish`. -/
theorem prepareRoots_cases (commit : CommitId) {state : StoreState H}
    (h : ∀ entry ∈ canonical, ∃ registered, state.values.get? entry.1 = some registered) :
    (∃ prepared, (prepareRoots commit state canonical).2 = .ok prepared) ∨
      ∃ value policy mode initial, (prepareRoots commit state canonical).2 =
        .error (.error (.unsupportedSnapshotPolicy value policy mode initial)) := by
  induction canonical generalizing state with
  | nil => exact .inl ⟨[],rfl⟩
  | cons entry rest ih =>
    obtain ⟨value,changes⟩ := entry
    obtain ⟨registered,hr⟩ := h _ (List.mem_cons_self ..)
    have hrest : ∀ entry ∈ rest, ∃ found,
        (state.write value registered.bump).values.get? entry.1 = some found := by
      intro entry hentry
      obtain ⟨found,hfound⟩ := h entry (List.mem_cons_of_mem _ hentry)
      rw [StoreState.get?_write]
      split_ifs
      · exact ⟨_,rfl⟩
      · exact ⟨found,hfound⟩
    have hlater := ih hrest
    rw [prepareRoots]
    simp only [RegisteredValue.bump] at hlater
    simp only [hr]
    split
    · next error herror =>
      rcases bind_eq_error.mp herror with hmap | ⟨_,-,hnone⟩
      · obtain ⟨id,-,hid⟩ := mapM_eq_error hmap
        obtain ⟨policy,mode,initial,rfl⟩ := prepareDelivery_eq_error hid
        exact .inr ⟨value,policy,mode,initial,rfl⟩
      · cases hnone
    · rcases hlater with ⟨prepared,hprepared⟩ | ⟨v,policy,mode,initial,herror⟩
      · exact .inl ⟨_,by rw [hprepared]; rfl⟩
      · exact .inr ⟨v,policy,mode,initial,by rw [herror]; rfl⟩

theorem TransactionScript.Recovers.finish_cases (h : apply.Recovers store roots)
    (hadmits : admitRoots (declareRoots roots) store.state = .ok ()) :
    (∃ prepared, (finish (apply.run (store.start roots)).1).2 = .ok prepared) ∨
      ∃ value policy mode initial, (finish (apply.run (store.start roots)).1).2 =
        .error (.error (.unsupportedSnapshotPolicy value policy mode initial)) := by
  obtain ⟨canonical,hcanonical⟩ := h.exists_canonicalRoots hadmits
  have hregistered := (canonicalRoots_eq_ok hcanonical).of_mem
  unfold finish
  rw [hcanonical]
  cases canonical with
  | nil => exact .inl ⟨[],rfl⟩
  | cons entry rest =>
    refine prepareRoots_cases _ fun entry hentry => ?_
    obtain ⟨-,registered,hget,-⟩ := hregistered entry.1 entry.2 hentry
    exact ⟨registered,hget⟩

/-- Where snapshots are available the commit is prepared without an error. -/
theorem StoreState.Indexed.finish_ne_error {tx : ObservableTransaction H} (h : tx.state.Indexed)
    (hc : canonicalRoots tx = .ok canonical) (error : ObservableError) :
    (finish tx).2 ≠ .error (.error error) := by
  unfold finish
  rw [hc]
  cases canonical with
  | nil => exact nofun
  | cons entry rest =>
    have hcounted : StoreState.Indexed
        { tx.state with nextCommit := saturatingSucc tx.state.nextCommit } :=
      h.of_policies (fun v root hr => ⟨root,hr,rfl⟩) rfl rfl
    exact hcounted.prepareRoots_ne_error _ _ _

/-- A transaction whose closure succeeds does not end in a conflict, and it commits if live
subscriptions have ids of their own. -/
theorem successful_calls_commit (calls : List (StoreCall H R)) (roots : List ValueId)
    (apply : TransactionScript R) (output : R)
    (hopen : (after calls).poisoned = false)
    (hadmits : admitRoots (declareRoots roots)
      (after calls).state = .ok ())
    (hresult : (apply.run ((after calls).start roots)).2 = .ok output)
    (hrecovers : apply.Recovers (after calls) roots) :
    (∀ value message, ((after calls).transactionLocked roots apply).2 ≠
        .error (.error (.transactionConflict value message))) ∧
      (FreshRun calls → ∃ prepared,
        ((after calls).transactionLocked roots apply).2 = .ok (output,prepared)) := by
  have hfresh : FreshRun calls → (after calls).state.Indexed := FreshRun.indexed
  generalize after calls = store at *
  have hsettle : store.transactionLocked roots apply =
      settle (apply.run (store.start roots)).1 (.ok output) := by
    rw [transactionLocked, hopen, hadmits, ← hresult]
    rfl
  rw [hsettle, settle]
  rcases hrecovers.finish_cases hadmits with
    ⟨prepared,hprepared⟩ | ⟨value,policy,mode,initial,herror⟩
  · simp only [hprepared]
    exact ⟨by simp,fun _ => ⟨prepared,rfl⟩⟩
  · simp only [herror]
    obtain ⟨state,hback,-⟩ := rollback_run store roots apply (finish_contents _)
    rw [rollbackTo, hback]
    refine ⟨by simp,fun hcalls => ?_⟩
    -- The registered subscriptions want snapshots of roots that copy them only.
    have hindexed : (apply.run (store.start roots)).1.state.Indexed :=
      StoreState.Indexed.performs (show (store.start roots).state.Indexed from hfresh hcalls)
        (apply.run_performs _)
    obtain ⟨canonical,hcanonical⟩ := hrecovers.exists_canonicalRoots hadmits
    exact absurd herror (hindexed.finish_ne_error hcanonical _)

/-! ## A write below a moved list -/

def choicesRoot : ValueId := ⟨"choices",by decide⟩
def choicesOwner : PluginId := ⟨"choices-owner",by decide⟩
def countKey : Key := ⟨"count",by decide⟩

def oneChoice (count : UInt64) : PhenixValue := .option (some (.table (.ofList [(countKey,.u64 count)])))

/-- A list of optional tables with one table in it. -/
def choices : List (StoreCall Unit Unit) :=
  [.register ⟨choicesRoot,choicesOwner,.list (.option (.table (.ofList [(countKey,.u64)]))),
    .currentOnly,.list [oneChoice 1]⟩]

def countCall : MutationCall :=
  .replace choicesRoot [.index 0,.optionPayload,.field countKey] (.u64 2)

/-- Write to the table. -/
def countOnce : TransactionScript Unit := performAll [countCall]

theorem successful_calls_commit_count : ∃ prepared,
    ((after choices).transactionLocked [choicesRoot] countOnce).2 =
      .ok ((),prepared) := by
  refine (successful_calls_commit choices [choicesRoot] countOnce () rfl rfl rfl ?_).2 ⟨trivial,trivial⟩
  rintro value registered - t - before s after htouched ⟨hsplice,-⟩
  have hmem : s ∈ [countCall.touched] :=
    (List.mem_filter.mp (htouched ▸ List.mem_append_right before (List.mem_cons_self ..))).1
  cases List.mem_singleton.mp hmem
  cases hsplice

/-- Write to the table, append nothing, and drop the table. -/
def countAndDrop : List MutationCall :=
  [countCall,.splice choicesRoot [] 1 0 [],.replace choicesRoot [.index 0] (.option none)]

/-- The calls succeed; the record of the first one is then applied to the dropped table. -/
theorem successful_calls_conflict :
    let store := after choices
    let apply := performAll countAndDrop
    apply.performed (store.start [choicesRoot]) = countAndDrop ∧
      (apply.run (store.start [choicesRoot])).2 = .ok () ∧
      ∃ message, (store.transactionLocked [choicesRoot] apply).2 =
        .error (.error (.transactionConflict choicesRoot message)) := by
  refine ⟨rfl,rfl,_,rfl⟩

end PhenixConductor.Observable

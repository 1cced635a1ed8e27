import PhenixConductor.Observable.Transaction

/-! # What the mutators do

One specification for all mutators: a successful call writes at an admitted slot of its root and
logs the record that takes the write back.
-/
namespace PhenixConductor.Observable
open Contract Collections Branching ObservableTransaction List

variable {H R : Type}

variable {inserted : List PhenixValue}

theorem length_spliced {items : List PhenixValue} {start deleteCount : ℕ}
    (h : start + deleteCount ≤ items.length) : (spliced items start deleteCount inserted).length =
      items.length - deleteCount + inserted.length := by
  simp only [spliced, length_append, length_take, length_drop]
  omega

/-- A splice is taken back by the splice that puts the removed members in place
of the inserted ones. -/
theorem unsplice_spliced {items : List PhenixValue} {start deleteCount : ℕ}
    (h : start + deleteCount ≤ items.length) :
    unsplice (spliced items start deleteCount inserted) start inserted.length
      (removedBy items start deleteCount) = some items := by
  have hs : start ≤ items.length := by omega
  have hlen : start + inserted.length ≤ (spliced items start deleteCount inserted).length := by
    rw [length_spliced h]
    omega
  have htake : (items.take start).length = start := by simp [hs]
  have hpre : (items.take start ++ inserted).length = start + inserted.length := by
    rw [length_append, htake]
  rw [unsplice, min_eq_left hlen, spliceRange, if_pos ⟨Nat.le_add_right _ _,hlen⟩]
  congr 1
  have h1 : (spliced items start deleteCount inserted).take start = items.take start := by
    rw [spliced, append_assoc, take_append_of_le_length (by omega),
      take_of_length_le (by omega)]
  have h2 : (spliced items start deleteCount inserted).drop (start + inserted.length) =
      items.drop (start + deleteCount) := by
    rw [spliced, drop_append_of_le_length (by omega), drop_of_length_le (by omega),
      nil_append]
  rw [h1, h2, removedBy, append_assoc]
  have h3 : (items.drop start).take deleteCount ++ items.drop (start + deleteCount) =
      items.drop start := by
    rw [← drop_drop, take_append_drop]
  rw [h3, take_append_drop]

/-- What a successful mutator did to the value of its root. -/
inductive Mutated (schema : PhenixSchema) (old : PhenixValue) (value : ValueId)
    (path : ValuePath) : TouchedKind → UndoRecord → PhenixValue → Prop
  | whole {kind : TouchedKind} {x : Option PhenixValue} {target : PhenixSchema}
      {new : PhenixValue} (isWhole : kind.isWhole = true)
      (target_eq : schemaAtPath schema path = .ok target)
      (parses : ∀ w, x = some w → target.parse w = .ok ())
      (admits : Admits (some old) path x) (put : putAt (some old) path x = some new) :
      Mutated schema old value path kind (.replace value path (getAt (some old) path)) new
  | splice {start deleteCount : UInt32} {inserted items : List PhenixValue}
      {target : PhenixSchema} {new : PhenixValue}
      (target_eq : schemaAtPath schema path = .ok target)
      (found : getAt (some old) path = some (.list items))
      (range : start.toNat + deleteCount.toNat ≤ items.length)
      (parses : target.parse (.list items) = .ok () →
        target.parse (.list (spliced items start.toNat deleteCount.toNat inserted)) = .ok ())
      (put : putAt (some old) path
        (some (.list (spliced items start.toNat deleteCount.toNat inserted))) = some new) :
      Mutated schema old value path (.splice start deleteCount inserted)
        (.splice value path start.toNat inserted.length
          (removedBy items start.toNat deleteCount.toNat)) new

/-- The touched mutation of a call that succeeds. -/
def MutationCall.touched : MutationCall → TouchedMutation
  | .replace value path _ => ⟨value,path,.replace⟩
  | .remove value path =>
    match path.getLast? with
    | some (.index i) => ⟨value,path.dropLast,.splice i 1 []⟩
    | _ => ⟨value,path,.remove⟩
  | .splice value path start deleteCount inserted => ⟨value,path,.splice start deleteCount inserted⟩

namespace ObservableTransaction

variable {tx : ObservableTransaction H} {value : ValueId}

theorem declaredRoot_eq_ok {registered : RegisteredValue}
    (h : tx.declaredRoot value = .ok registered) :
    tx.state.values.get? value = some registered ∧ value ∈ tx.declared := by
  unfold declaredRoot at h
  split at h
  · rename_i found hf
    split_ifs at h with hd
    cases h
    exact ⟨hf,hd⟩
  · cases h

variable {path : ValuePath}

theorem validatePath_eq_ok {schema target : PhenixSchema}
    (h : validatePath value schema path = .ok target) : schemaAtPath schema path = .ok target :=
  mapError_eq_ok.mp h

variable {tx' : ObservableTransaction H}

theorem replace_eq_ok {replacement : PhenixValue} (h : tx.replace value path replacement = .ok tx') :
    ∃ registered undo new, tx.state.values.get? value = some registered ∧ value ∈ tx.declared ∧
      Mutated registered.schema registered.current value path .replace undo new ∧
      tx' = tx.record value { registered with current := new } undo ⟨value,path,.replace⟩ := by
  obtain ⟨registered,hd,h⟩ := bind_eq_ok.mp h
  obtain ⟨target,ht,h⟩ := bind_eq_ok.mp h
  obtain ⟨_,hp,h⟩ := bind_eq_ok.mp h
  obtain ⟨⟨previous,current⟩,hr,h⟩ := bind_eq_ok.mp h
  obtain ⟨hreg,hdecl⟩ := declaredRoot_eq_ok hd
  obtain ⟨ha,hg,hput⟩ := replaceAt_eq_ok (mapError_eq_ok.mp hr)
  cases h
  subst hg
  refine ⟨registered,_,current,hreg,hdecl,?_,rfl⟩
  refine .whole rfl (validatePath_eq_ok ht) ?_ ha hput
  intro w hw
  cases hw
  exact mapError_eq_ok.mp hp

variable {inserted : List PhenixValue}

/-- The splice checks keep lists and arrays well formed. -/
theorem parse_spliced {target item : PhenixSchema} {fixedLen : Option ℕ} {items : List PhenixValue}
    {start deleteCount : ℕ} (ht : spliceTarget value path target = .ok (item,fixedLen))
    (hi : ∀ v ∈ inserted, item.parse v = .ok ()) (hr : start + deleteCount ≤ items.length)
    (hf : checkFixedLen value path (items.length - deleteCount + inserted.length) fixedLen = .ok ())
    (hp : target.parse (.list items) = .ok ()) :
    target.parse (.list (spliced items start deleteCount inserted)) = .ok () := by
  have hmem : ∀ v ∈ spliced items start deleteCount inserted, v ∈ items ∨ v ∈ inserted := by
    intro v hv
    simp only [spliced, mem_append] at hv
    rcases hv with (hv | hv) | hv
    · exact .inl (mem_of_mem_take hv)
    · exact .inr hv
    · exact .inl (mem_of_mem_drop hv)
  cases target <;> cases ht
  case list =>
    rw [PhenixSchema.parse_list] at hp ⊢
    intro v hv
    exact (hmem v hv).elim (hp v) (hi v)
  case array len =>
    rw [PhenixSchema.parse_array] at hp ⊢
    refine ⟨?_,fun v hv => (hmem v hv).elim (hp.2 v) (hi v)⟩
    simp only [checkFixedLen] at hf
    split_ifs at hf with hl
    rw [length_spliced hr]
    omega

theorem splice_eq_ok {start deleteCount : UInt32}
    (h : tx.splice value path start deleteCount inserted = .ok tx') :
    ∃ registered undo new, tx.state.values.get? value = some registered ∧ value ∈ tx.declared ∧
      Mutated registered.schema registered.current value path (.splice start deleteCount inserted)
        undo new ∧
      tx' = tx.record value { registered with current := new } undo
        ⟨value,path,.splice start deleteCount inserted⟩ := by
  obtain ⟨registered,hd,h⟩ := bind_eq_ok.mp h
  obtain ⟨target,ht,h⟩ := bind_eq_ok.mp h
  obtain ⟨⟨item,fixedLen⟩,hs,h⟩ := bind_eq_ok.mp h
  obtain ⟨_,hi,h⟩ := bind_eq_ok.mp h
  obtain ⟨⟨list,put⟩,hm,h⟩ := bind_eq_ok.mp h
  obtain ⟨items,hitems,h⟩ := bind_eq_ok.mp h
  obtain ⟨_,hr,h⟩ := bind_eq_ok.mp h
  obtain ⟨_,hf,h⟩ := bind_eq_ok.mp h
  have he := (Except.ok.inj h).symm
  obtain ⟨hreg,hdecl⟩ := declaredRoot_eq_ok hd
  obtain ⟨hg,hput⟩ := valueAtMut_eq_ok (mapError_eq_ok.mp hm)
  have hl : list = .list items := by
    cases list <;> cases hitems
    rfl
  subst hl
  have hrange : start.toNat + deleteCount.toNat ≤ items.length := by
    unfold checkRange at hr
    dsimp only at hr
    split_ifs at hr
    omega
  refine ⟨registered,_,_,hreg,hdecl,?_,he⟩
  refine .splice (validatePath_eq_ok ht) hg hrange ?_ (hput _)
  exact parse_spliced hs (fun v hv => mapError_eq_ok.mp (forM_eq_ok.mp hi v hv)) hrange hf

theorem perform_eq_ok {call : MutationCall} (h : tx.perform call = .ok tx') :
    ∃ registered undo new, tx.state.values.get? call.touched.value = some registered ∧
      call.touched.value ∈ tx.declared ∧
      Mutated registered.schema registered.current call.touched.value call.touched.path
        call.touched.kind undo new ∧
      tx' = tx.record call.touched.value { registered with current := new } undo call.touched := by
  cases call with
  | replace value path replacement => exact replace_eq_ok h
  | splice value path start deleteCount inserted => exact splice_eq_ok h
  | remove value path =>
    obtain ⟨registered,hd,h⟩ := bind_eq_ok.mp h
    cases hl : path.getLast? with
    | none => simp [hl] at h
    | some last =>
      rw [hl] at h
      by_cases hi : ∃ i, last = .index i
      · obtain ⟨i,rfl⟩ := hi
        simpa only [MutationCall.touched, hl] using splice_eq_ok h
      · have htouched : (MutationCall.remove value path).touched = ⟨value,path,.remove⟩ := by
          simp only [MutationCall.touched, hl]
          cases last with
          | index i => exact absurd ⟨i,rfl⟩ hi
          | _ => rfl
        rw [htouched]
        have key : (∃ target, validatePath value registered.schema path = .ok target) ∧
            ∃ previous current, removeAt registered.current path = .ok (previous,current) ∧
              tx' = tx.record value { registered with current } (.replace value path previous)
                ⟨value,path,.remove⟩ := by
          cases last with
          | index i => exact absurd ⟨i,rfl⟩ hi
          | mapKey key =>
            obtain ⟨target,ht,h⟩ := bind_eq_ok.mp h
            obtain ⟨⟨previous,current⟩,hr,h⟩ := bind_eq_ok.mp h
            cases h
            exact ⟨⟨target,ht⟩,previous,current,mapError_eq_ok.mp hr,rfl⟩
          | optionPayload =>
            obtain ⟨target,ht,h⟩ := bind_eq_ok.mp h
            obtain ⟨⟨previous,current⟩,hr,h⟩ := bind_eq_ok.mp h
            cases h
            exact ⟨⟨target,ht⟩,previous,current,mapError_eq_ok.mp hr,rfl⟩
          | field key | variantPayload =>
            obtain ⟨target,ht,h⟩ := bind_eq_ok.mp h
            cases h
        obtain ⟨⟨target,ht⟩,previous,current,hr,rfl⟩ := key
        obtain ⟨hreg,hdecl⟩ := declaredRoot_eq_ok hd
        obtain ⟨-,ha,hg,hput⟩ := removeAt_eq_ok hr
        subst hg
        refine ⟨registered,_,current,hreg,hdecl,?_,rfl⟩
        exact .whole rfl (validatePath_eq_ok ht) (by simp) ha hput

end ObservableTransaction

namespace Mutated
variable {schema : PhenixSchema} {old new : PhenixValue} {value : ValueId} {path : ValuePath}
  {kind : TouchedKind} {undo : UndoRecord}

section
variable (h : Mutated schema old value path kind undo new)
include h

/-- Every mutation is a write at an admitted slot. -/
theorem exists_put :
    ∃ x, Admits (some old) path x ∧ putAt (some old) path x = some new := by
  cases h with
  | whole _ _ _ ha hp => exact ⟨_,ha,hp⟩
  | splice _ hf _ _ hp => exact ⟨_,admits_of_getAt hf _,hp⟩

theorem parse
    (ho : schema.parse old = .ok ()) : schema.parse new = .ok () := by
  cases h with
  | whole _ ht hp ha hput => exact parse_putAt ho ht ha hp hput
  | splice ht hf _ hp hput =>
    refine parse_putAt ho ht (admits_of_getAt hf _) ?_ hput
    intro w hw
    cases hw
    exact hp (parse_getAt ho ht hf)

theorem undo_value : undo.value = value := by
  cases h <;> rfl

end

end Mutated

/-! ## Chains of calls -/

/-- A chain of successful calls. -/
inductive Performs : ObservableTransaction H → List MutationCall → ObservableTransaction H → Prop
  | nil (tx : ObservableTransaction H) : Performs tx [] tx
  | cons {tx tx' tx'' : ObservableTransaction H} {call : MutationCall} {calls : List MutationCall} :
      tx.perform call = .ok tx' → Performs tx' calls tx'' → Performs tx (call :: calls) tx''

theorem TransactionScript.run_performs (script : TransactionScript R) (tx : ObservableTransaction H) :
    Performs tx (script.performed tx) (script.run tx).1 := by
  induction script generalizing tx with
  | done result => exact .nil tx
  | call mutation next ih =>
    unfold TransactionScript.run TransactionScript.performed
    cases hp : tx.perform mutation with
    | ok tx' => exact .cons hp (ih _ tx')
    | error error => exact ih _ tx

variable {tx' : ObservableTransaction H}

variable {tx : ObservableTransaction H} {calls : List MutationCall}

theorem Performs.touched_eq (h : Performs tx calls tx') :
    tx'.touched = tx.touched ++ calls.map MutationCall.touched := by
  induction h with
  | nil => simp
  | cons hp _ ih =>
    obtain ⟨_,_,_,_,_,_,rfl⟩ := perform_eq_ok hp
    rw [ih, map_cons, record, append_assoc, singleton_append]

/-- A property of the state that every single mutation keeps. -/
theorem Performs.invariant {P : StoreState H → Prop}
    (hstep : ∀ (state : StoreState H) value registered path kind undo new, P state → state.values.get? value = some registered → Mutated registered.schema registered.current value path kind undo new → P (state.write value { registered with current := new }))
    (h : Performs tx calls tx') (hP : P tx.state) : P tx'.state := by
  induction h with
  | nil => exact hP
  | cons hp _ ih =>
    obtain ⟨registered,undo,new,hr,_,hm,rfl⟩ := perform_eq_ok hp
    exact ih (hstep _ _ _ _ _ _ _ hP hr hm)

/-! ## Rollback -/

@[simp] theorem StoreState.get?_write (state : StoreState H) (value v : ValueId)
    (registered : RegisteredValue) :
    (state.write value registered).values.get? v =
      if v = value then some registered else state.values.get? v :=
  BTreeMap.get?_insert _ _ _ _

variable {registered : RegisteredValue}

/-- Writing the registered value back gives the old state. -/
theorem StoreState.write_write (state : StoreState H) {value : ValueId} (changed : RegisteredValue)
    (h : state.values.get? value = some registered) :
    (state.write value changed).write value registered = state := by
  have hv : ((state.values.insert value changed).insert value registered) = state.values := by
    ext1 v
    simp only [BTreeMap.get?_insert]
    split_ifs with hv
    · rw [hv, h]
    · rfl
  unfold StoreState.write
  rw [hv]

/-- The record of a mutation takes it back. -/
theorem applyUndo_of_mutated {state : StoreState H} {value : ValueId} {path : ValuePath}
    {kind : TouchedKind} {undo : UndoRecord} {new : PhenixValue}
    (hr : state.values.get? value = some registered)
    (hm : Mutated registered.schema registered.current value path kind undo new) :
    applyUndo (state.write value { registered with current := new }) undo = .ok state := by
  have hback := state.write_write { registered with current := new } hr
  cases hm with
  | whole _ _ _ ha hp =>
    have hg : Admits (some new) path (getAt (some registered.current) path) := by
      rw [← hp]
      exact (admits_putAt_self _ _ _ _).mpr ha.getAt
    have hput : putAt (some new) path (getAt (some registered.current) path) =
        some registered.current := by
      rw [← hp]
      exact ha.putAt_getAt
    simp [applyUndo, restoreOptional_of_admits hg hput, Except.mapError, pure, Except.pure, hback]
  | @splice start deleteCount inserted items _ _ _ hf hrange _ hp =>
    have ha := admits_of_getAt hf
      (.list (spliced items start.toNat deleteCount.toNat inserted))
    have hg : getAt (some new) path =
        some (.list (spliced items start.toNat deleteCount.toNat inserted)) := by
      rw [← hp]
      exact getAt_putAt_self ha
    obtain ⟨put,hput⟩ := valueAtMut_of_getAt hg
    have hcur : put (.list items) = registered.current := by
      apply Option.some.inj
      rw [← (valueAtMut_eq_ok hput).2, ← hp, putAt_putAt_self _ (admits_of_getAt hf _), ← hf,
        putAt_getAt]
    simp [applyUndo, hput, unsplice_spliced hrange, Except.mapError, pure, Except.pure, hcur, hback]

/-- Rollback walks a chain of calls back to its start. -/
theorem Performs.rollback_eq (h : Performs tx calls tx') :
    rollback tx'.state tx'.undo.reverse = rollback tx.state tx.undo.reverse := by
  induction h with
  | nil => rfl
  | cons hp _ ih =>
    obtain ⟨registered,undo,new,hr,_,hm,rfl⟩ := perform_eq_ok hp
    rw [ih, record, reverse_append]
    simp [rollback, applyUndo_of_mutated hr hm]

end PhenixConductor.Observable

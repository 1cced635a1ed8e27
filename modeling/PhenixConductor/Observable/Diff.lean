import PhenixConductor.Observable.Selection
import Mathlib.Data.List.Dedup

/-! # Changes as edits

A receiver applies a change to the value that it observes with the operations of the store.
-/
namespace PhenixConductor.Observable
open Contract Collections Branching PhenixValue List

/-! ## Applying changes -/

/-- Apply a change to an observed value, which may be absent. -/
def applyChange (observed : Option PhenixValue) (change : ValueChange) :
    Except String (Option PhenixValue) :=
  match observed, change with
  | _, .replace [] value => .ok (some value)
  | _, .remove [] => .ok none
  | some observed, .replace path value => (replaceAt value observed path).map fun r => some r.2
  | some observed, .remove path => (removeAt observed path).map fun r => some r.2
  | some observed, .splice path start deleteCount inserted =>
    match valueAtMut observed path with
    | .ok (.list items,put) =>
      match spliceRange items start.toNat (start.toNat + deleteCount.toNat) inserted with
      | some items => .ok (some (put (.list items)))
      | none => .error splicePanic
    | _ => .error "splice target is not a list value"
  | none, _ => .error "addressed observable value is absent"

def applyChanges (observed : Option PhenixValue) (changes : List ValueChange) :
    Except String (Option PhenixValue) :=
  changes.foldlM applyChange observed

/-- What a splice does to the content of its path. -/
def spliceContent (start deleteCount : UInt32) (inserted : List PhenixValue) :
    Option PhenixValue → Option (Option PhenixValue)
  | some (.list items) =>
    (spliceRange items start.toNat (start.toNat + deleteCount.toNat) inserted).map fun items =>
      some (.list items)
  | _ => none

theorem spliceContent_eq_some {start deleteCount : UInt32} {inserted : List PhenixValue}
    {a x : Option PhenixValue} (h : spliceContent start deleteCount inserted a = some x) :
    ∃ items items', a = some (.list items) ∧ x = some (.list items') ∧
      spliceRange items start.toNat (start.toNat + deleteCount.toNat) inserted = some items' := by
  unfold spliceContent at h
  split at h
  · obtain ⟨items',hs,rfl⟩ := Option.map_eq_some_iff.mp h
    exact ⟨_,items',rfl,rfl,hs⟩
  · cases h

def ValueChange.act : ValueChange → Option PhenixValue → Option (Option PhenixValue)
  | .replace _ value => fun _ => some (some value)
  | .remove _ => fun _ => some none
  | .splice _ start deleteCount inserted => spliceContent start deleteCount inserted

/-- A change as a local edit. -/
def ValueChange.edit (change : ValueChange) : Edit PhenixValue ValuePathSegment :=
  ⟨change.path,change.act⟩

open ValueChange (edit)
theorem applyChange_eq_ok {o o' : Option PhenixValue} {change : ValueChange} :
    applyChange o change = .ok o' ↔ change.edit.Takes o o' := by
  unfold Edit.Takes edit ValueChange.act
  cases change with
  | replace path value =>
    cases path with
    | nil => simp [applyChange, eq_comm]
    | cons s p =>
      cases o with
      | none => simp [applyChange]
      | some v =>
        have happly : applyChange (some v) (.replace (s :: p) value) =
            (replaceAt value v (s :: p)).map fun r => some r.2 := rfl
        simp only [happly, map_eq_ok, ValueChange.path, Option.some.injEq, exists_eq_left']
        constructor
        · rintro ⟨⟨previous,v'⟩,hr,rfl⟩
          obtain ⟨ha,-,hp⟩ := replaceAt_eq_ok hr
          exact ⟨ha,hp.symm⟩
        · rintro ⟨ha,rfl⟩
          exact ⟨_,replaceAt_of_admits ha rfl,rfl⟩
  | remove path =>
    cases path with
    | nil => simp [applyChange, eq_comm]
    | cons s p =>
      cases o with
      | none => simp [applyChange]
      | some v =>
        have happly : applyChange (some v) (.remove (s :: p)) =
            (removeAt v (s :: p)).map fun r => some r.2 := rfl
        simp only [happly, map_eq_ok, ValueChange.path, Option.some.injEq, exists_eq_left']
        constructor
        · rintro ⟨⟨previous,v'⟩,hr,rfl⟩
          obtain ⟨-,ha,-,hp⟩ := removeAt_eq_ok hr
          exact ⟨ha,hp.symm⟩
        · rintro ⟨ha,rfl⟩
          exact ⟨_,removeAt_of_admits (cons_ne_nil _ _) ha rfl,rfl⟩
  | splice path start deleteCount inserted =>
    cases o with
    | none =>
      simp only [applyChange, reduceCtorEq, false_iff]
      rintro ⟨x,hx,-⟩
      obtain ⟨items,-,hi,-⟩ := spliceContent_eq_some hx
      simp at hi
    | some v =>
      simp only [applyChange, ValueChange.path]
      constructor
      · intro h
        split at h
        · rename_i items put hm
          split at h
          · rename_i items' hs
            obtain ⟨hg,hput⟩ := valueAtMut_eq_ok hm
            refine ⟨some (.list items'),?_,admits_of_getAt hg _,?_⟩
            · rw [hg, spliceContent, hs]
              rfl
            · rw [hput, ← Except.ok.inj h]
          · cases h
        · cases h
      · rintro ⟨x,hx,ha,rfl⟩
        obtain ⟨items,items',hg,rfl,hs⟩ := spliceContent_eq_some hx
        obtain ⟨put,hm⟩ := valueAtMut_of_getAt hg
        rw [hm]
        simp only [hs]
        rw [(valueAtMut_eq_ok hm).2]

theorem applyChanges_eq_ok {o o' : Option PhenixValue} {changes : List ValueChange} :
    applyChanges o changes = .ok o' ↔ Edit.TakesAll (changes.map edit) o o' := by
  induction changes generalizing o with
  | nil =>
    constructor
    · intro h
      cases h
      exact .nil _
    · intro h
      cases h
      rfl
  | cons change changes ih =>
    rw [applyChanges, foldlM_cons, bind_eq_ok]
    constructor
    · rintro ⟨o1,h1,h2⟩
      exact .cons (applyChange_eq_ok.mp h1) (ih.mp h2)
    · intro h
      cases h with
      | cons h1 h2 => exact ⟨_,applyChange_eq_ok.mpr h1,ih.mpr h2⟩

/-! ## The canonical changes of a root as edits -/

/-- What a selected mutation stands for at commit. -/
def TouchedMutation.act (current : PhenixValue) (touched : TouchedMutation) :
    Option PhenixValue → Option (Option PhenixValue) :=
  match touched.kind with
  | .splice start deleteCount inserted => spliceContent start deleteCount inserted
  | _ => fun _ => some (getAt (some current) touched.path)

/-- The content of a path is as it was, for the comparison of the source. -/
def Unchanged (old new : PhenixValue) (path : ValuePath) : Prop :=
  compareOption F64.partialEq (getAt (some new) path) (getAt (some old) path) = true

instance (old new : PhenixValue) (path : ValuePath) : Decidable (Unchanged old new path) :=
  inferInstanceAs (Decidable (_ = true))

/-- The change of a selected mutation when the original value is the old one. -/
def exactChange (old new : PhenixValue) (touched : TouchedMutation) : Option ValueChange :=
  canonicalChange new touched (getAt (some old) touched.path)

variable {old new : PhenixValue} {t : TouchedMutation}

theorem exactChange_of_unchanged (h : Unchanged old new t.path) : exactChange old new t = none := by
  rw [exactChange, canonicalChange, valueAtOptional_eq]
  exact if_pos h

theorem exactChange_of_changed (h : ¬ Unchanged old new t.path) :
    ∃ change, exactChange old new t = some change ∧ change.edit = ⟨t.path,t.act new⟩ := by
  obtain ⟨value,path,kind⟩ := t
  unfold Unchanged at h
  rw [exactChange, canonicalChange, valueAtOptional_eq]
  rw [if_neg h]
  cases kind with
  | splice start deleteCount inserted => exact ⟨_,rfl,rfl⟩
  | replace | remove =>
    cases hn : getAt (some new) path with
    | none => exact ⟨_,rfl,by simp [edit, ValueChange.act, TouchedMutation.act, hn]⟩
    | some now => exact ⟨_,rfl,by simp [edit, ValueChange.act, TouchedMutation.act, hn]⟩

/-- The edits of the canonical changes of some selected mutations at one path. -/
theorem rebase_exactChange {p : ValuePath} {selected : List TouchedMutation}
    (h : ∀ t ∈ selected, t.path ≠ p → Incomparable p t.path) :
    ((selected.filterMap (exactChange old new)).map edit).filterMap (Edit.rebase p) =
      if Unchanged old new p then []
      else (selected.filter (·.path = p)).map fun t => ⟨[],t.act new⟩ := by
  induction selected with
  | nil => simp
  | cons t selected ih =>
    have ih := ih fun u hu => h u (by simp [hu])
    by_cases hu : Unchanged old new t.path
    · rw [filterMap_cons_none (exactChange_of_unchanged hu), ih]
      split_ifs with hp
      · rfl
      · have hne : t.path ≠ p := by
          rintro rfl
          exact hp hu
        rw [filter_cons_of_neg (by simpa using hne)]
    · obtain ⟨change,hc,he⟩ := exactChange_of_changed hu
      rw [filterMap_cons_some hc, map_cons, he]
      by_cases hne : t.path = p
      · subst hne
        have hself : Edit.rebase t.path ⟨t.path,t.act new⟩ = some ⟨[],t.act new⟩ :=
          Edit.rebase_self ⟨t.path,t.act new⟩
        rw [filterMap_cons_some hself, ih, if_neg hu, if_neg hu,
          filter_cons_of_pos (by simp), map_cons]
      · rw [filterMap_cons_none (Edit.rebase_of_incomparable (h t (by simp) hne)), ih,
          filter_cons_of_neg (by simpa using hne)]

variable {touched : List TouchedMutation}

/-- The splices of a path turn its old content into the new one, if all other
mutations keep off the path. -/
theorem RootHistory.splices_take {schema : PhenixSchema} {value : ValueId} {undo : List UndoRecord}
    (h : RootHistory schema value old touched undo new) {p : ValuePath}
    (hsplice : ∀ t ∈ touched, t.path = p → t.kind.isWhole = false)
    (hother : ∀ t ∈ touched, t.path ≠ p → Incomparable t.path p) (current : PhenixValue) :
    Edit.TakesAll ((touched.filter (·.path = p)).map fun t => ⟨[],t.act current⟩)
      (getAt (some old) p) (getAt (some new) p) := by
  induction h with
  | start => exact .nil _
  | @step touched undo mid new path kind record h hm ih =>
    have ih := ih (fun t ht => hsplice t (by simp [ht])) fun t ht => hother t (by simp [ht])
    have hlast : (⟨value,path,kind⟩ : TouchedMutation) ∈ touched ++ [⟨value,path,kind⟩] := by simp
    by_cases hp : path = p
    · subst hp
      rw [filter_append, map_append]
      refine ih.append ?_
      have hk : kind.isWhole = false := hsplice _ hlast rfl
      cases hm with
      | whole hwhole => rw [hwhole] at hk; cases hk
      | @splice start deleteCount inserted items target new _ hf hrange _ hput =>
        have hg : getAt (some new) path =
            some (.list (spliced items start.toNat deleteCount.toNat inserted)) := by
          rw [← hput]
          exact getAt_putAt_self (admits_of_getAt hf _)
        simp only [filter_cons, decide_true, if_true, filter_nil, map_cons,
          map_nil]
        refine .cons ⟨getAt (some new) path,?_,admits_nil _ _,(putAt_nil _ _).symm⟩ (.nil _)
        have hr : spliceRange items start.toNat (start.toNat + deleteCount.toNat) inserted =
            some (spliced items start.toNat deleteCount.toNat inserted) :=
          if_pos ⟨Nat.le_add_right _ _,hrange⟩
        simp [TouchedMutation.act, spliceContent, hf, hr, hg]
    · have hinc := hother _ hlast hp
      obtain ⟨x,-,hput⟩ := hm.exists_put
      have hg : getAt (some new) p = getAt (some mid) p := by
        rw [← hput, getAt_putAt_of_incomparable hinc]
      rw [filter_append, filter_cons_of_neg (by simpa using hp), hg]
      simpa using ih

/-- At a footprint path the old value admits what a mutation can leave there. -/
theorem RootHistory.admits {schema : PhenixSchema} {value : ValueId} {undo : List UndoRecord}
    (h : RootHistory schema value old touched undo new) {T : List ValuePath}
    (hT : T.Pairwise Incomparable) (hall : ∀ t ∈ touched, ∃ p ∈ T, p <+: t.path) (ht : t ∈ touched)
    (htT : t.path ∈ T) : (∃ x, Admits (some old) t.path x) ∧
      (t.kind.isWhole = false → ∀ y, Admits (some old) t.path (some y)) := by
  induction h with
  | start => simp at ht
  | @step touched undo mid new path kind record h hm ih =>
    have hall' : ∀ t ∈ touched, ∃ p ∈ T, p <+: t.path := fun t ht => hall t (by simp [ht])
    rcases mem_append.mp ht with ht | ht
    · exact ih hall' ht
    · cases mem_singleton.mp ht
      have hiff := fun x => (h.edited hall').admits_iff hT htT x
      refine ⟨?_,fun hk y => ?_⟩
      · obtain ⟨x,ha,-⟩ := hm.exists_put
        exact ⟨x,(hiff x).mp ha⟩
      · cases hm with
        | whole hwhole => rw [hwhole] at hk; cases hk
        | splice _ hf _ _ _ => exact (hiff (some y)).mp (admits_of_getAt hf y)

/-! ## From the old value to the committed one -/

section Root
variable {schema : PhenixSchema} {value : ValueId} {old new : PhenixValue}
  {touched : List TouchedMutation} {undo : List UndoRecord}

/-- The paths of the selected mutations of a root. -/
def footprint (touched : List TouchedMutation) (value : ValueId) : List ValuePath :=
  ((selectedTouched touched value).map (·.path)).dedup

theorem mem_footprint {p : ValuePath} :
    p ∈ footprint touched value ↔ ∃ t ∈ selectedTouched touched value, t.path = p := by
  simp [footprint]

theorem footprint_pairwise (hapart : SplicesApart (touched.filter (·.value = value))) :
    (footprint touched value).Pairwise Incomparable := by
  refine (nodup_dedup _).pairwise_of_forall_ne fun p hp q hq hne => ?_
  obtain ⟨a,ha,rfl⟩ := mem_footprint.mp hp
  obtain ⟨b,hb,rfl⟩ := mem_footprint.mp hq
  exact (selects_foldl _).incomparable hapart (mem_selectedTouched.mp ha)
    (mem_selectedTouched.mp hb) hne

/-- Canonicalization compares every selected path with its old content. -/
theorem RootHistory.canonicalizeRoot_eq
    (h : RootHistory schema value old (touched.filter (·.value = value))
      (undo.filter (·.value = value)) new)
    (hapart : SplicesApart (touched.filter (·.value = value))) :
    canonicalizeRoot new undo touched value =
      .ok ((selectedTouched touched value).filterMap (exactChange old new)) := by
  have hall : (selectedTouched touched value).mapM (fun t => do
      let original ← originalAt new undo value t.path
      return canonicalChange new t original) =
      .ok ((selectedTouched touched value).map (exactChange old new)) := by
    refine mapM_eq_ok.mpr ?_
    rw [forall₂_map_right_iff, forall₂_same]
    intro t ht
    have ht := mem_selectedTouched.mp ht
    rw [h.originalAt_eq ((selects_foldl _).no_splice_above hapart ht)]
    rfl
  rw [canonicalizeRoot, hall]
  change Except.ok (((selectedTouched touched value).map (exactChange old new)).filterMap id) = _
  rw [filterMap_map]
  rfl

/-- At a footprint path the canonical edits give the new content, or keep the old
content where it is unchanged. -/
theorem RootHistory.exists_local
    (h : RootHistory schema value old (touched.filter (·.value = value)) undo new)
    (hapart : SplicesApart (touched.filter (·.value = value))) {p : ValuePath}
    (hp : p ∈ footprint touched value) :
    ∃ z, Edit.TakesAll ((((selectedTouched touched value).filterMap (exactChange old new)).map
        edit).filterMap (Edit.rebase p)) (getAt (some old) p) z ∧
      compareOption F64.same (getAt (some new) p) z = true := by
  obtain ⟨t,ht,rfl⟩ := mem_footprint.mp hp
  have hts := mem_selectedTouched.mp ht
  have hsel := selects_foldl (touched.filter (·.value = value))
  rw [rebase_exactChange fun u hu hne =>
    (hsel.incomparable hapart hts (mem_selectedTouched.mp hu) (Ne.symm hne))]
  split_ifs with hu
  · exact ⟨_,.nil _,compareOption_same_of_partialEq hu⟩
  · refine ⟨getAt (some new) t.path,?_,compareOption_same_refl _⟩
    rw [filter_selectedTouched]
    cases hk : t.kind.isWhole with
    | true =>
      rw [hsel.filter_whole hts hk]
      refine .cons ⟨_,?_,admits_nil _ _,(putAt_nil _ _).symm⟩ (.nil _)
      obtain ⟨v,path,kind⟩ := t
      cases kind with
      | splice => cases hk
      | _ => rfl
    | false =>
      rw [hsel.filter_splice hts hk]
      have hnc := hsel.not_covered hts hk
      have hat : ∀ u ∈ touched.filter (·.value = value), u.path <+: t.path →
          u.kind.isWhole = false := by
        intro u hu hup
        rw [Bool.eq_false_iff]
        intro hwhole
        rw [(coveredBy_iff _ _).mpr ⟨u,hu,hwhole,hup⟩] at hnc
        cases hnc
      refine h.splices_take (fun u hu hup => hat u hu (hup ▸ prefix_rfl)) ?_ new
      intro u hu hne
      refine ⟨fun hup => ?_,fun hpu => ?_⟩
      · exact hsel.no_splice_above hapart hts u hu (hat u hu hup) ⟨hup,hne⟩
      · exact hapart t (hsel.sublist.subset hts) hk hnc u hu ⟨hpu,Ne.symm hne⟩

/-- The canonical changes take the old value of a root to a value that is the
same as the new one. -/
theorem RootHistory.exists_takesAll
    (h : RootHistory schema value old (touched.filter (·.value = value)) undo new)
    (hapart : SplicesApart (touched.filter (·.value = value))) :
    ∃ applied, Edit.TakesAll (((selectedTouched touched value).filterMap
        (exactChange old new)).map edit) (some old) applied ∧
      compareOption F64.same (some new) applied = true := by
  have hsel := selects_foldl (touched.filter (·.value = value))
  have hT := footprint_pairwise hapart
  have habove : ∀ t ∈ touched.filter (·.value = value),
      ∃ p ∈ footprint touched value, p <+: t.path := by
    intro t ht
    obtain ⟨s,hs,hp⟩ := hsel.exists_above ht
    exact ⟨s.path,mem_footprint.mpr ⟨s,mem_selectedTouched.mpr hs,rfl⟩,hp⟩
  have hedited := h.edited habove
  have hedit : ∀ e ∈ ((selectedTouched touched value).filterMap (exactChange old new)).map
      edit, ∃ t ∈ selectedTouched touched value, e = ⟨t.path,t.act new⟩ := by
    intro e he
    obtain ⟨change,hc,rfl⟩ := mem_map.mp he
    obtain ⟨t,ht,htc⟩ := mem_filterMap.mp hc
    refine ⟨t,ht,?_⟩
    by_cases hu : Unchanged old new t.path
    · rw [exactChange_of_unchanged hu] at htc
      cases htc
    · obtain ⟨change',hc',he'⟩ := exactChange_of_changed hu
      cases hc'.symm.trans htc
      exact he'
  have hpaths : ∀ e ∈ ((selectedTouched touched value).filterMap (exactChange old new)).map
      edit, e.path ∈ footprint touched value := by
    intro e he
    obtain ⟨t,ht,rfl⟩ := hedit e he
    exact mem_footprint.mpr ⟨t,ht,rfl⟩
  have hadmits : ∀ e ∈ ((selectedTouched touched value).filterMap (exactChange old new)).map
      edit, ∀ a x, e.act a = some x → Admits (some old) e.path x := by
    intro e he a x hx
    obtain ⟨t,ht,rfl⟩ := hedit e he
    have htT : t.path ∈ footprint touched value := mem_footprint.mpr ⟨t,ht,rfl⟩
    obtain ⟨⟨y,hy⟩,hsplice⟩ :=
      h.admits hT habove (hsel.sublist.subset (mem_selectedTouched.mp ht)) htT
    have hnew : Admits (some old) t.path (getAt (some new) t.path) :=
      (hedited.admits_iff hT htT _).mp ((hedited.admits_iff hT htT y).mpr hy).getAt
    obtain ⟨v,path,kind⟩ := t
    cases kind with
    | splice start deleteCount inserted =>
      obtain ⟨_,items,-,rfl,-⟩ := spliceContent_eq_some hx
      exact hsplice rfl _
    | replace | remove =>
      cases hx
      exact hnew
  obtain ⟨applied,happlied⟩ := Edit.exists_takesAll hT hpaths hadmits fun p hp => by
    obtain ⟨z,hz,-⟩ := h.exists_local hapart hp
    exact ⟨z,hz⟩
  refine ⟨applied,happlied,?_⟩
  refine Edited.rel (R := fun a b => compareOption F64.same a b = true) compareOption_same_refl
    (fun p ho hx => compareOption_putAt p ho hx) hT hedited (happlied.edited hpaths) ?_
  intro p hp
  obtain ⟨z,hz,hsame⟩ := h.exists_local hapart hp
  have hloc := happlied.localize (p := p) fun e he => by
    by_cases hep : e.path = p
    · exact .inl (hep ▸ prefix_rfl)
    · exact .inr (hT.forall hp (hpaths e he) (Ne.symm hep))
  rw [hloc.unique hz]
  exact hsame

end Root
end PhenixConductor.Observable

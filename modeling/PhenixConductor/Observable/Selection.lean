import PhenixConductor.Observable.Original

/-! # Which mutations canonicalization selects

The selection keeps no mutation below a selected whole one, and drops only those.
-/
namespace PhenixConductor.Observable
open Contract Collections Branching List

/-- Neither mutation is whole and at or above the other. -/
def Clear (a b : TouchedMutation) : Prop :=
  (a.kind.isWhole = true → ¬ a.path <+: b.path) ∧ (b.kind.isWhole = true → ¬ b.path <+: a.path)

instance : Std.Symm Clear := ⟨fun _ _ h => ⟨h.2,h.1⟩⟩

theorem coveredBy_iff (selected : List TouchedMutation) (path : ValuePath) :
    coveredBy selected path = true ↔
      ∃ w ∈ selected, w.kind.isWhole = true ∧ w.path <+: path := by
  simp [coveredBy, ValuePath.startsWith_iff, and_comm]

theorem coveredBy_append (selected rest : List TouchedMutation) (path : ValuePath) :
    coveredBy (selected ++ rest) path = (coveredBy selected path || coveredBy rest path) :=
  any_append

variable {selected touched : List TouchedMutation}

theorem coveredBy_of_subset (h : selected ⊆ touched) {path : ValuePath}
    (hc : coveredBy selected path = true) : coveredBy touched path = true := by
  obtain ⟨w,hw,hwhole,hp⟩ := (coveredBy_iff _ _).mp hc
  exact (coveredBy_iff _ _).mpr ⟨w,h hw,hwhole,hp⟩

/-- What the selection loop keeps of the touched mutations. -/
structure Selects (touched selected : List TouchedMutation) : Prop where
  sublist : selected.Sublist touched
  clear : selected.Pairwise Clear
  kept : ∀ t ∈ touched, t ∈ selected ∨ coveredBy selected t.path = true
  at_path : ∀ path, coveredBy touched path = false →
    selected.filter (·.path = path) = touched.filter (·.path = path)

variable {t : TouchedMutation}

theorem Selects.covered_step (h : Selects touched selected) (hc : coveredBy selected t.path = true) :
    Selects (touched ++ [t]) selected where
  sublist := h.sublist.trans (sublist_append_left _ _)
  clear := h.clear
  kept u hu := by
    rcases mem_append.mp hu with hu | hu
    · exact h.kept u hu
    · cases mem_singleton.mp hu
      exact .inr hc
  at_path path hp := by
    rw [coveredBy_append, Bool.or_eq_false_iff] at hp
    have hne : t.path ≠ path := by
      rintro rfl
      rw [coveredBy_of_subset h.sublist.subset hc] at hp
      exact absurd hp.1 (by simp)
    simp [h.at_path path hp.1, hne]

theorem Selects.whole_step (h : Selects touched selected) (hc : coveredBy selected t.path = false)
    (ht : t.kind.isWhole = true) : Selects (touched ++ [t])
      ((selected.filter fun existing => !existing.path.startsWith t.path) ++ [t]) where
  sublist := (filter_sublist.trans h.sublist).append (List.Sublist.refl _)
  clear := by
    refine pairwise_append.mpr ⟨h.clear.filter _,by simp,?_⟩
    intro a ha b hb
    cases mem_singleton.mp hb
    obtain ⟨ha,hna⟩ := mem_filter.mp ha
    refine ⟨fun hwhole hp => ?_,fun _ hp => ?_⟩
    · rw [(coveredBy_iff _ _).mpr ⟨a,ha,hwhole,hp⟩] at hc
      cases hc
    · rw [(ValuePath.startsWith_iff _ _).mpr hp] at hna
      cases hna
  kept u hu := by
    rcases mem_append.mp hu with hu | hu
    · by_cases hp : t.path <+: u.path
      · exact .inr ((coveredBy_iff _ _).mpr ⟨t,by simp,ht,hp⟩)
      · rcases h.kept u hu with hs | hs
        · left
          refine mem_append_left _ (mem_filter.mpr ⟨hs,?_⟩)
          simpa [Bool.eq_false_iff, ValuePath.startsWith_iff] using hp
        · obtain ⟨w,hw,hwhole,hwp⟩ := (coveredBy_iff _ _).mp hs
          refine .inr ((coveredBy_iff _ _).mpr ⟨w,mem_append_left _ ?_,hwhole,hwp⟩)
          refine mem_filter.mpr ⟨hw,?_⟩
          have hnot : ¬ t.path <+: w.path := fun htw => hp (htw.trans hwp)
          simpa [Bool.eq_false_iff, ValuePath.startsWith_iff] using hnot
    · exact .inl (mem_append_right _ hu)
  at_path path hp := by
    rw [coveredBy_append, Bool.or_eq_false_iff] at hp
    have hnot : ¬ t.path <+: path := by
      intro htp
      rw [(coveredBy_iff [t] path).mpr ⟨t,by simp,ht,htp⟩] at hp
      exact absurd hp.2 (by simp)
    have hne : t.path ≠ path := fun e => hnot (e ▸ prefix_rfl)
    have hsame : (selected.filter fun existing => !existing.path.startsWith t.path).filter
        (·.path = path) = selected.filter (·.path = path) := by
      rw [filter_filter]
      refine filter_congr fun u _ => ?_
      by_cases hu : u.path = path
      · have hs : path.startsWith t.path = false := by
          rw [Bool.eq_false_iff, ne_eq, ValuePath.startsWith_iff]
          exact hnot
        simp [hu, hs]
      · simp [hu]
    rw [filter_append, hsame, h.at_path path hp.1]
    simp [hne]

theorem Selects.splice_step (h : Selects touched selected) (hc : coveredBy selected t.path = false)
    (ht : t.kind.isWhole = false) : Selects (touched ++ [t]) (selected ++ [t]) where
  sublist := h.sublist.append (List.Sublist.refl _)
  clear := by
    refine pairwise_append.mpr ⟨h.clear,by simp,?_⟩
    intro a ha b hb
    cases mem_singleton.mp hb
    refine ⟨fun hwhole hp => ?_,fun hwhole => absurd hwhole (by simp [ht])⟩
    rw [(coveredBy_iff _ _).mpr ⟨a,ha,hwhole,hp⟩] at hc
    cases hc
  kept u hu := by
    rcases mem_append.mp hu with hu | hu
    · rcases h.kept u hu with hs | hs
      · exact .inl (mem_append_left _ hs)
      · exact .inr (coveredBy_of_subset (subset_append_left _ _) hs)
    · exact .inl (mem_append_right _ hu)
  at_path path hp := by
    rw [coveredBy_append, Bool.or_eq_false_iff] at hp
    rw [filter_append, filter_append, h.at_path path hp.1]

theorem selects_foldl (touched : List TouchedMutation) :
    Selects touched (touched.foldl selectTouched []) := by
  induction touched using List.reverseRecOn with
  | nil => exact ⟨.slnil,.nil,by simp,by simp⟩
  | append_singleton touched t ih =>
    rw [foldl_append, foldl_cons, selectTouched]
    split_ifs with hc ht
    · exact ih.covered_step hc
    · exact ih.whole_step (by simpa using hc) ht
    · exact ih.splice_step (by simpa using hc) (by simpa using ht)

/-- No mutation lies strictly below a splice, unless a whole mutation covers the splice. -/
def SplicesApart (touched : List TouchedMutation) : Prop :=
  ∀ s ∈ touched, s.kind.isWhole = false → coveredBy touched s.path = false →
    ∀ t ∈ touched, ¬ StrictlyBelow s.path t.path

instance (p q : ValuePath) : Decidable (StrictlyBelow p q) := inferInstanceAs (Decidable (_ ∧ _))

instance (touched : List TouchedMutation) : Decidable (SplicesApart touched) :=
  inferInstanceAs (Decidable (∀ s ∈ touched, _ → _ → ∀ t ∈ touched, ¬ _))

namespace Selects
variable {touched selected : List TouchedMutation}

theorem clear_of_ne (h : Selects touched selected) {a b : TouchedMutation} (ha : a ∈ selected)
    (hb : b ∈ selected) (hne : a ≠ b) : Clear a b :=
  h.clear.forall ha hb hne

/-- Whatever is covered at all is covered by a selected mutation. -/
theorem covered_iff (h : Selects touched selected) (path : ValuePath) :
    coveredBy touched path = true ↔ coveredBy selected path = true := by
  refine ⟨fun hc => ?_,coveredBy_of_subset h.sublist.subset⟩
  obtain ⟨w,hw,hwhole,hp⟩ := (coveredBy_iff _ _).mp hc
  rcases h.kept w hw with hs | hs
  · exact (coveredBy_iff _ _).mpr ⟨w,hs,hwhole,hp⟩
  · obtain ⟨w',hw',hwhole',hp'⟩ := (coveredBy_iff _ _).mp hs
    exact (coveredBy_iff _ _).mpr ⟨w',hw',hwhole',hp'.trans hp⟩

variable {t : TouchedMutation}

section
variable (h : Selects touched selected)
include h

/-- No selected mutation lies at or below another selected one that is whole. -/
theorem eq_of_whole {w : TouchedMutation} (hw : w ∈ selected)
    (hwhole : w.kind.isWhole = true) (ht : t ∈ selected) (hp : w.path <+: t.path) : w = t := by
  by_contra hne
  exact (h.clear_of_ne hw ht hne).1 hwhole hp

/-- A selected splice is not covered. -/
theorem not_covered (ht : t ∈ selected)
    (hsplice : t.kind.isWhole = false) : coveredBy touched t.path = false := by
  rw [Bool.eq_false_iff]
  intro hc
  obtain ⟨w,hw,hwhole,hp⟩ := (coveredBy_iff _ _).mp ((h.covered_iff _).mp hc)
  rw [h.eq_of_whole hw hwhole ht hp, hsplice] at hwhole
  cases hwhole

/-- No splice lies strictly above a selected path. -/
theorem no_splice_above (hapart : SplicesApart touched)
    (ht : t ∈ selected) :
    ∀ s ∈ touched, s.kind.isWhole = false → ¬ StrictlyBelow s.path t.path := by
  intro s hs hsplice hbelow
  cases hc : coveredBy touched s.path with
  | false => exact hapart s hs hsplice hc t (h.sublist.subset ht) hbelow
  | true =>
    obtain ⟨w,hw,hwhole,hp⟩ := (coveredBy_iff _ _).mp ((h.covered_iff _).mp hc)
    have hwt := h.eq_of_whole hw hwhole ht (hp.trans hbelow.1)
    rw [hwt] at hp
    exact hbelow.2 (hbelow.1.eq_of_length (le_antisymm hbelow.1.length_le hp.length_le))

/-- Different selected paths are incomparable. -/
theorem incomparable (hapart : SplicesApart touched)
    {a b : TouchedMutation} (ha : a ∈ selected) (hb : b ∈ selected) (hne : a.path ≠ b.path) :
    Incomparable a.path b.path := by
  have key : ∀ {a b : TouchedMutation}, a ∈ selected → b ∈ selected → a.path ≠ b.path →
      ¬ a.path <+: b.path := by
    intro a b ha hb hne hp
    cases hk : a.kind.isWhole with
    | true => exact hne (congrArg _ (h.eq_of_whole ha hk hb hp))
    | false => exact h.no_splice_above hapart hb a (h.sublist.subset ha) hk ⟨hp,hne⟩
  exact ⟨key ha hb hne,key hb ha (Ne.symm hne)⟩

/-- A whole mutation is the only selected one at its path. -/
theorem filter_whole (ht : t ∈ selected)
    (hwhole : t.kind.isWhole = true) : selected.filter (·.path = t.path) = [t] := by
  obtain ⟨l,r,rfl⟩ := append_of_mem ht
  have hc := h.clear
  simp only [pairwise_append, pairwise_cons, mem_cons] at hc
  obtain ⟨-,⟨hr,-⟩,hl⟩ := hc
  have hnl : l.filter (·.path = t.path) = [] := by
    simp only [filter_eq_nil_iff, decide_eq_true_eq]
    intro u hu hup
    exact (hl u hu t (.inl rfl)).2 hwhole (hup ▸ prefix_rfl)
  have hnr : r.filter (·.path = t.path) = [] := by
    simp only [filter_eq_nil_iff, decide_eq_true_eq]
    intro u hu hup
    exact (hr u hu).1 hwhole (hup ▸ prefix_rfl)
  simp [filter_append, hnl, hnr]

/-- At the path of a selected splice all mutations are splices, and all are selected. -/
theorem filter_splice (ht : t ∈ selected)
    (hsplice : t.kind.isWhole = false) :
    selected.filter (·.path = t.path) = touched.filter (·.path = t.path) :=
  h.at_path _ (h.not_covered ht hsplice)

/-- Every mutation lies at or below a selected path. -/
theorem exists_above (ht : t ∈ touched) :
    ∃ s ∈ selected, s.path <+: t.path := by
  rcases h.kept t ht with hs | hs
  · exact ⟨t,hs,prefix_rfl⟩
  · obtain ⟨w,hw,-,hp⟩ := (coveredBy_iff _ _).mp hs
    exact ⟨w,hw,hp⟩

end

end Selects

/-! ## The sorted selection -/

theorem mem_selectedTouched {value : ValueId} : t ∈ selectedTouched touched value ↔
      t ∈ (touched.filter (·.value = value)).foldl selectTouched [] :=
  (perm_insertionSort _ _).mem_iff

instance : Std.Total fun left right : TouchedMutation => left.path ≤ right.path :=
  ⟨fun left right => le_total left.path right.path⟩

instance : IsTrans TouchedMutation fun left right => left.path ≤ right.path :=
  ⟨fun _ _ _ => le_trans⟩

/-- The sort by paths keeps the order of the mutations at one path. -/
theorem filter_selectedTouched (touched : List TouchedMutation) (value : ValueId)
    (path : ValuePath) :
    (selectedTouched touched value).filter (·.path = path) =
      ((touched.filter (·.value = value)).foldl selectTouched []).filter (·.path = path) := by
  unfold selectedTouched
  generalize (touched.filter (·.value = value)).foldl selectTouched [] = selected
  have hpw : (selected.filter (·.path = path)).Pairwise fun left right => left.path ≤ right.path := by
    refine pairwise_of_forall_mem_list fun a ha b hb => ?_
    simp only [mem_filter, decide_eq_true_eq] at ha hb
    exact le_of_eq (ha.2.trans hb.2.symm)
  have hsub := (sublist_insertionSort hpw filter_sublist).filter (·.path = path)
  rw [filter_filter] at hsub
  simp only [Bool.and_self] at hsub
  refine (hsub.eq_of_length ?_).symm
  exact ((perm_insertionSort _ _).filter _).length_eq.symm

end PhenixConductor.Observable

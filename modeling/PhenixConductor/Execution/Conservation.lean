import PhenixConductor.Execution.Ledger

/-! # Conservation of the budget

What the topmost settled reservations have used, and what the active reservations in
the budget itself have reserved, stays within the limits as long as every amount is
counted where it is used: no reservation is released above settled usage, and no cost
is reserved in or settled on a reservation that has reserved none.
-/
namespace PhenixConductor.Execution
open Collections Relation BudgetReservationRecord
open Finset (mem_filter mem_insert_of_mem mem_union sum_congr sum_le_sum)
open RootBudgetLedger (new)

namespace RootBudgetLedger
variable (self : RootBudgetLedger)

/-- A settled reservation lies below. -/
def Covers (reservationId : String) : Prop :=
  ∃ below, TransGen (IsParent self.parent) below reservationId ∧ self.IsSettled below

open Classical in
/-- The usage of the settled reservations that have no settled reservation above them. -/
noncomputable def topmostUsage (measure : Measure) : ℕ :=
  ∑ id ∈ self.nodes with Frontier self.parent self.IsSettled id, self.chargeOf measure id

open Classical in
/-- The requests of the active reservations in the budget itself with nothing settled in them. -/
noncomputable def uncoveringRequests (measure : Measure) : ℕ :=
  ∑ id ∈ self.level none with self.IsActive id ∧ ¬ self.Covers id, self.chargeOf measure id

open Classical in
/-- The part of the topmost usage that lies in no active reservation of the budget itself. -/
noncomputable def uncoveredUsage (measure : Measure) : ℕ :=
  ∑ id ∈ self.nodes with Frontier self.parent self.IsSettled id ∧
    ∀ above, TransGen (IsParent self.parent) id above →
      ¬ (above ∈ self.level none ∧ self.IsActive above), self.chargeOf measure id

open Classical in
noncomputable def activeRequests (measure : Measure) : ℕ :=
  ∑ id ∈ self.level none with self.IsActive id, self.chargeOf measure id

end RootBudgetLedger

/-- The budget is conserved in every state that the calls lead to. -/
structure Conserved (measure : Measure) (ledger : RootBudgetLedger) (calls : List LedgerCall) :
    Prop where
  spent : ∀ before, before <+: calls → ∀ limit ∈ ledger.limits.amount measure,
    (ledger.run before).topmostUsage measure + (ledger.run before).uncoveringRequests measure ≤ limit
  committed : ∀ before, before <+: calls → ∀ limit ∈ ledger.limits.amount measure,
    (ledger.run before).uncoveredUsage measure + (ledger.run before).activeRequests measure ≤ limit
  available : ∀ before, before <+: calls → ∀ limit ∈ ledger.limits.amount measure,
    ∀ request next, request.parentReservationId = none →
      reserve request (ledger.run before) = .ok () next →
      (request.amount measure).getD 0 + (ledger.run before).topmostUsage measure ≤ limit
  kept : ∀ before later, before ++ later <+: calls →
    (ledger.run before).topmostUsage measure ≤ (ledger.run (before ++ later)).topmostUsage measure
  failed : ∀ before call, before ++ [call] <+: calls → ∀ error next,
    call.perform (ledger.run before) = .error error next → next = ledger.run before

/-- The call, if it passes its checks, counts the measure where it is used. -/
def LedgerCall.Accounted (measure : Measure) (self : RootBudgetLedger) : LedgerCall → Prop
  | .reserve request => self.reservable request = .ok () →
    ∀ parentId ∈ request.parentReservationId, ∀ parent ∈ self.reservations.get? parentId,
      parent.request.amount measure = none → (request.amount measure).getD 0 = 0
  | .settle reservationId actual => ∀ record, self.settleable reservationId actual = .ok record →
    record.request.amount measure = none → actual.used record.request measure = 0
  | .release reservationId => ∀ record, self.closable reservationId = .ok record →
    (self.settledDirectChildUsage reservationId).amount measure = 0

namespace RootBudgetLedger
variable {self : RootBudgetLedger} {measure : Measure}

/-- Every reservation that is made in another one ranks below it. -/
def Ranked (now : RootBudgetLedger) : Prop :=
  ∃ rank : String → ℕ, ∀ id above, IsParent now.parent id above →
    above ∈ now.nodes ∧ rank above < rank id

/-- Parents are made before their children, no level takes more than there is, and what is not
settled holds what is in it. -/
structure Sound (measure : Measure) (now : RootBudgetLedger) : Prop where
  ranked : ∃ rank : String → ℕ, ∀ id above, IsParent now.parent id above →
    above ∈ now.nodes ∧ rank above < rank id
  limited : ∀ limit ∈ now.limits.amount measure,
    ∑ id ∈ now.level none, now.chargeOf measure id ≤ limit
  held : ∀ id, ¬ now.IsSettled id →
    ∑ child ∈ now.level (some id), now.chargeOf measure child ≤ now.chargeOf measure id

theorem mem_nodes_of_isParent {id above : String} (h : IsParent self.parent id above) :
    id ∈ self.nodes := by
  obtain ⟨record,hrecord,-⟩ := Option.bind_eq_some_iff.mp h
  exact mem_nodes.mpr (Option.isSome_iff_exists.mpr ⟨record,hrecord⟩)

theorem IsSettled.mem_nodes {id : String} (h : self.IsSettled id) : id ∈ self.nodes := by
  obtain ⟨record,-,hrecord,-⟩ := h
  exact RootBudgetLedger.mem_nodes.mpr (Option.isSome_iff_exists.mpr ⟨record,hrecord⟩)

section Ranked
variable {rank : String → ℕ}
  (hrank : ∀ id above, IsParent self.parent id above → above ∈ self.nodes ∧ rank above < rank id)
include hrank

theorem rank_lt_of_transGen {id above : String} (h : TransGen (IsParent self.parent) id above) :
    rank above < rank id := by
  induction h with
  | single h => exact (hrank _ _ h).2
  | tail _ h ih => exact (hrank _ _ h).2.trans ih

/-- Every reservation lies in one of the budget itself. -/
theorem exists_root {id : String} (hid : id ∈ self.nodes) :
    ∃ root ∈ self.level none, ReflTransGen (IsParent self.parent) id root := by
  induction hn : rank id using Nat.strong_induction_on generalizing id with
  | _ n ih =>
    cases hparent : self.parent id with
    | none => exact ⟨id,mem_level.mpr ⟨hid,hparent⟩,.refl⟩
    | some above =>
      obtain ⟨habove,hlt⟩ := hrank id above hparent
      obtain ⟨root,hroot,hpath⟩ := ih (rank above) (hn ▸ hlt) habove rfl
      exact ⟨root,hroot,.head hparent hpath⟩

end Ranked

/-- The topmost usage outside some active reservations of the budget itself, together with their
requests, weighs at most as much as the reservations of the budget itself. -/
theorem Sound.sum_held_le (h : Sound measure self) {inside : Finset String}
    (hinside : ∀ id ∈ inside, id ∈ self.level none ∧ self.IsActive id) {topmost : Finset String}
    (htopmost : ∀ id ∈ topmost, Frontier self.parent self.IsSettled id ∧
      ∀ above, TransGen (IsParent self.parent) id above → above ∉ inside) :
    ∑ id ∈ topmost, self.chargeOf measure id + ∑ id ∈ inside, self.chargeOf measure id ≤
      ∑ id ∈ self.level none, self.chargeOf measure id := by
  classical
  obtain ⟨rank,hrank⟩ := h.ranked
  have hdisjoint : Disjoint topmost inside := by
    apply Finset.disjoint_left.mpr
    intro id htop hin
    exact (hinside id hin).2.not_isSettled (htopmost id htop).1.1
  rw [← Finset.sum_union hdisjoint]
  apply sum_frontier_le self.nodes self.parent fun id => self.IsSettled id ∨ id ∈ inside
  · intro id hid
    rcases mem_union.mp hid with htop | hin
    · obtain ⟨⟨hsettled,habove⟩,houtside⟩ := htopmost id htop
      exact ⟨.inl hsettled,fun above hpath => not_or.mpr ⟨habove above hpath,houtside above hpath⟩⟩
    · refine ⟨.inr hin,fun above hpath => ?_⟩
      obtain ⟨next,hnext,-⟩ := TransGen.head'_iff.mp hpath
      have hroot := (mem_level.mp (hinside id hin).1).2
      cases hroot.symm.trans hnext
  · intro id hid
    apply exists_root hrank
    rcases mem_union.mp hid with htop | hin
    · exact (htopmost id htop).1.1.mem_nodes
    · exact (mem_level.mp (hinside id hin).1).1
  · exact fun id above hparent => mem_nodes_of_isParent hparent
  · intro id hid
    exact h.held id (not_or.mp hid).1

theorem Sound.spent (h : Sound measure self) :
    self.topmostUsage measure + self.uncoveringRequests measure ≤
      ∑ id ∈ self.level none, self.chargeOf measure id := by
  classical
  apply h.sum_held_le
  · intro id hid
    obtain ⟨hroot,hactive,-⟩ := mem_filter.mp hid
    exact ⟨hroot,hactive⟩
  · intro id hid
    obtain ⟨-,hfrontier⟩ := mem_filter.mp hid
    refine ⟨hfrontier,fun above hpath hin => ?_⟩
    obtain ⟨-,-,hcovers⟩ := mem_filter.mp hin
    exact hcovers ⟨id,hpath,hfrontier.1⟩

theorem Sound.committed (h : Sound measure self) :
    self.uncoveredUsage measure + self.activeRequests measure ≤
      ∑ id ∈ self.level none, self.chargeOf measure id := by
  classical
  apply h.sum_held_le
  · intro id hid
    exact mem_filter.mp hid
  · intro id hid
    obtain ⟨-,hfrontier,houtside⟩ := mem_filter.mp hid
    exact ⟨hfrontier,fun above hpath hin => houtside above hpath (mem_filter.mp hin)⟩

section Steps
variable {id : String} {record : BudgetReservationRecord}

/-- Closing a reservation leaves it where it is. -/
theorem ranked_close (h : self.Ranked) {new : BudgetReservationRecord}
    (hget : self.reservations.get? id = some record) (hrequest : new.request = record.request) :
    (self.put new id).Ranked := by
  obtain ⟨rank,hrank⟩ := h
  use rank
  intro j above hparent
  rw [(level_put_of_get hget hrequest none).1] at hparent
  rw [nodes_put]
  exact ⟨mem_insert_of_mem (hrank j above hparent).1,(hrank j above hparent).2⟩

/-- A reservation may be closed with a smaller charge that still holds what is in it. -/
theorem Sound.close (h : Sound measure self) {new : BudgetReservationRecord}
    (hget : self.reservations.get? id = some record) (hrequest : new.request = record.request)
    (hcharge : new.charge measure ≤ record.charge measure)
    (hheld : (∃ actual, new.state = .settled actual) ∨
      ∑ child ∈ self.level (some id), self.chargeOf measure child ≤ new.charge measure) :
    Sound measure (self.put new id) := by
  have hsum : ∀ x, ∑ j ∈ (self.put new id).level x, (self.put new id).chargeOf measure j ≤
      ∑ j ∈ self.level x, self.chargeOf measure j := by
    intro x
    rw [(level_put_of_get hget hrequest x).2]
    exact sum_le_sum fun j _ => chargeOf_put_le hget hcharge j
  constructor
  · exact ranked_close h.ranked hget hrequest
  · intro limit hlimit
    exact (hsum none).trans (h.limited limit hlimit)
  · intro j hj
    apply (hsum (some j)).trans
    by_cases hid : j = id
    · subst hid
      rw [chargeOf_put_self]
      apply hheld.resolve_left
      rintro ⟨actual,hstate⟩
      exact hj ⟨new,actual,get?_put_self,hstate⟩
    · rw [isSettled_put_of_ne hid] at hj
      rw [chargeOf_put_of_ne hid]
      exact h.held j hj

variable {request : BudgetReservationRequest}

/-- A new reservation is nobody's parent. -/
theorem mem_nodes_of_isParent_put {rank : String → ℕ}
    (hreservable : self.reservable request = .ok ())
    (hrank : ∀ id above, IsParent self.parent id above → above ∈ self.nodes ∧ rank above < rank id)
    {j above : String}
    (h : IsParent (self.put ⟨request,.reserved⟩ request.reservationId).parent j above) :
    above ∈ self.nodes := by
  unfold IsParent at h
  rw [parent_put] at h
  split_ifs at h with hid
  · obtain ⟨parent,hget,-⟩ := (reservable_eq_ok hreservable).2.1 above h
    exact mem_nodes.mpr (by simp [hget])
  · exact (hrank j above h).1

/-- The way up from an old reservation stays among the old ones. -/
theorem transGen_of_put {rank : String → ℕ} (hreservable : self.reservable request = .ok ())
    (hrank : ∀ id above, IsParent self.parent id above → above ∈ self.nodes ∧ rank above < rank id)
    {j above : String} (hj : j ∈ self.nodes)
    (h : TransGen (IsParent (self.put ⟨request,.reserved⟩ request.reservationId).parent) j above) :
    above ∈ self.nodes ∧ TransGen (IsParent self.parent) j above := by
  have hstep : ∀ j above, j ∈ self.nodes →
      IsParent (self.put ⟨request,.reserved⟩ request.reservationId).parent j above →
      above ∈ self.nodes ∧ IsParent self.parent j above := by
    intro j above hj hparent
    have hne : j ≠ request.reservationId := fun hid => (reservable_eq_ok hreservable).1 (hid ▸ hj)
    refine ⟨mem_nodes_of_isParent_put hreservable hrank hparent,?_⟩
    unfold IsParent at hparent
    rwa [parent_put, if_neg hne] at hparent
  induction h with
  | single h => exact ⟨(hstep _ _ hj h).1,.single (hstep _ _ hj h).2⟩
  | tail _ h ih => exact ⟨(hstep _ _ ih.1 h).1,.tail ih.2 (hstep _ _ ih.1 h).2⟩

/-- A new reservation ranks below the one it is made in. -/
theorem ranked_reserve (h : self.Ranked) (hreservable : self.reservable request = .ok ()) :
    (self.put ⟨request,.reserved⟩ request.reservationId).Ranked := by
  obtain ⟨rank,hrank⟩ := h
  have hne : ∀ j ∈ self.nodes, j ≠ request.reservationId :=
    fun j hj hid => (reservable_eq_ok hreservable).1 (hid ▸ hj)
  use Function.update rank request.reservationId
    ((request.parentReservationId.map (rank · + 1)).getD 0)
  intro j above hj
  have habove : above ∈ self.nodes := mem_nodes_of_isParent_put hreservable hrank hj
  rw [nodes_put, Function.update_of_ne (hne above habove)]
  refine ⟨mem_insert_of_mem habove,?_⟩
  unfold IsParent at hj
  rw [parent_put] at hj
  split_ifs at hj with hid
  · rw [hid, Function.update_self, hj]
    exact Nat.lt_succ_self _
  · rw [Function.update_of_ne hid]
    exact (hrank j above hj).2

/-- A reservation that fits where it is made leaves what is there within its bound. -/
theorem Sound.reserve (h : Sound measure self) (hreservable : self.reservable request = .ok ())
    (haccounted : (LedgerCall.reserve request).Accounted measure self) :
    Sound measure (self.put ⟨request,.reserved⟩ request.reservationId) := by
  obtain ⟨hfresh,hactive,hfits⟩ := reservable_eq_ok hreservable
  obtain ⟨rank,hrank⟩ := h.ranked
  have hne : ∀ j ∈ self.nodes, j ≠ request.reservationId := fun j hj hid => hfresh (hid ▸ hj)
  -- an amount that is known fits into what is left, and an unknown one counts for nothing
  have hwithin : ∀ available,
      (request.parentReservationId = none → self.limits.amount measure = some available) →
      (∀ parentId ∈ request.parentReservationId, ∀ parent,
        self.reservations.get? parentId = some parent →
        parent.request.amount measure = some available) →
      ∑ j ∈ self.level request.parentReservationId, self.chargeOf measure j ≤ available →
      (request.amount measure).getD 0 +
        ∑ j ∈ self.level request.parentReservationId, self.chargeOf measure j ≤ available := by
    intro available hroot hinside hle
    cases hamount : request.amount measure with
    | none => simpa using hle
    | some requested =>
      have hrequested := hfits measure requested hamount available hroot hinside
      rw [Option.getD_some]
      omega
  constructor
  · exact ranked_reserve h.ranked hreservable
  · intro limit hlimit
    have hle := h.limited limit hlimit
    rw [sum_level_put_of_notMem hfresh]
    split_ifs with hroot
    · dsimp only at hroot
      rw [← hroot] at hle ⊢
      exact hwithin limit (fun _ => hlimit) (by simp [hroot]) hle
    · rwa [zero_add]
  · intro j hj
    rw [sum_level_put_of_notMem hfresh]
    split_ifs with hinside
    · dsimp only at hinside
      obtain ⟨parent,hget,hstate⟩ := hactive j hinside
      have hmem : j ∈ self.nodes := mem_nodes.mpr (by simp [hget])
      have hle := h.held j (hactive j hinside).not_isSettled
      have hcharge : self.chargeOf measure j = (parent.request.amount measure).getD 0 := by
        rw [chargeOf_of_get hget]
        simp [charge, hstate]
      rw [chargeOf_put_of_ne (hne j hmem), hcharge]
      rw [hcharge] at hle
      cases hamount : parent.request.amount measure with
      | none =>
        have hzero : (request.amount measure).getD 0 = 0 :=
          haccounted hreservable j hinside parent hget hamount
        rw [hamount] at hle
        simp only [charge, hzero, zero_add]
        exact hle
      | some available =>
        rw [hamount] at hle
        rw [← hinside] at hle ⊢
        apply hwithin available (by simp [hinside]) _ hle
        intro parentId hparentId found hfound
        cases hinside.symm.trans hparentId
        cases hget.symm.trans hfound
        exact hamount
    · rw [zero_add]
      by_cases hid : j = request.reservationId
      · have hempty : self.level (some j) = ∅ := by
          apply Finset.eq_empty_of_forall_notMem
          intro child hchild
          exact hfresh (hid ▸ (hrank child j (mem_level.mp hchild).2).1)
        rw [hempty]
        exact Nat.zero_le _
      · rw [isSettled_put_of_ne hid] at hj
        rw [chargeOf_put_of_ne hid]
        exact h.held j hj

/-- What is settled counts for at most what was reserved. -/
theorem used_le_charge {actual : BudgetActual}
    (hsettleable : self.settleable id actual = .ok record)
    (haccounted : (LedgerCall.settle id actual).Accounted measure self) :
    actual.used record.request measure ≤ record.charge measure := by
  obtain ⟨hclosable,hexceeds,-⟩ := settleable_eq_ok hsettleable
  obtain ⟨-,hstate,-⟩ := closable_eq_ok.mp hclosable
  simp only [charge, hstate]
  cases hamount : record.request.amount measure with
  | none => exact (haccounted record hsettleable hamount).le
  | some reserved => exact used_le_of_not_exceeds hexceeds hamount

theorem Sound.step (h : Sound measure self) {call : LedgerCall}
    (haccounted : call.Accounted measure self) : Sound measure (self.step call) := by
  have heffect := effect_step self call
  generalize self.step call = next at heffect ⊢
  cases heffect with
  | reserve hreservable => exact h.reserve hreservable haccounted
  | @settle id actual record hsettleable =>
    obtain ⟨hget,-⟩ := closable_eq_ok.mp (settleable_eq_ok hsettleable).1
    apply h.close hget
    · rfl
    · exact used_le_charge hsettleable haccounted
    · exact .inl ⟨actual,rfl⟩
  | @release id record hclosable =>
    obtain ⟨hget,hstate,hactive⟩ := closable_eq_ok.mp hclosable
    have hnone := haccounted record hclosable
    rw [settledDirectChildUsage_amount] at hnone
    have hbound : 0 < measure.bound := by cases measure <;> decide
    apply h.close hget
    · rfl
    · exact Nat.zero_le _
    · rw [sum_charge_eq_settledUse hactive]
      omega
  | failed => exact h

theorem Sound.run (h : Sound measure self) {calls : List LedgerCall}
    (haccounted : Along RootBudgetLedger.step (LedgerCall.Accounted measure) self calls) :
    Sound measure (self.run calls) :=
  haccounted.invariant (fun _ _ hs hc => hs.step hc) h

theorem Sound.topmostUsage_le_reserve (h : Sound measure self)
    (hreservable : self.reservable request = .ok ()) : self.topmostUsage measure ≤
      (self.put ⟨request,.reserved⟩ request.reservationId).topmostUsage measure := by
  classical
  unfold topmostUsage
  obtain ⟨rank,hrank⟩ := h.ranked
  obtain ⟨hfresh,-⟩ := reservable_eq_ok hreservable
  have hne : ∀ j ∈ self.nodes, j ≠ request.reservationId := fun j hj hid => hfresh (hid ▸ hj)
  rw [← sum_congr rfl fun j hj =>
    chargeOf_put_of_ne (hne j (mem_filter.mp hj).1)]
  apply Finset.sum_le_sum_of_subset
  intro j hj
  obtain ⟨hmem,hsettled,habove⟩ := mem_filter.mp hj
  refine mem_filter.mpr ⟨by rw [nodes_put]; exact mem_insert_of_mem hmem,
    (isSettled_put_of_ne (hne j hmem)).mpr hsettled,fun above hpath => ?_⟩
  obtain ⟨hmemAbove,hold⟩ := transGen_of_put hreservable hrank hmem hpath
  rw [isSettled_put_of_ne (hne above hmemAbove)]
  exact habove above hold

/-- A settled reservation takes the place of what is settled below it, which used no more. -/
theorem Sound.topmostUsage_le_settle (h : Sound measure self) {actual : BudgetActual}
    (hsettleable : self.settleable id actual = .ok record)
    (haccounted : (LedgerCall.settle id actual).Accounted measure self) :
    self.topmostUsage measure ≤
      (self.put { record with state := .settled actual } id).topmostUsage measure := by
  classical
  unfold topmostUsage
  obtain ⟨rank,hrank⟩ := h.ranked
  obtain ⟨hclosable,-,hbelow⟩ := settleable_eq_ok hsettleable
  obtain ⟨hget,hstate,hactive⟩ := closable_eq_ok.mp hclosable
  have hid : self.IsActive id := ⟨record,hget,hstate⟩
  set new : BudgetReservationRecord := { record with state := .settled actual } with hnew
  have hcharge : new.charge measure ≤ record.charge measure :=
    used_le_charge hsettleable haccounted
  obtain ⟨hparent,-⟩ := level_put_of_get hget (rfl : new.request = record.request) none
  have hsettled : ∀ j, (self.put new id).IsSettled j ↔ j = id ∨ self.IsSettled j := by
    intro j
    by_cases hj : j = id
    · rw [hj]
      exact iff_of_true ⟨new,actual,get?_put_self,rfl⟩ (.inl rfl)
    · rw [isSettled_put_of_ne hj, or_iff_right hj]
  have hne : ∀ j, self.IsSettled j → j ≠ id := by
    rintro j hj rfl
    exact hid.not_isSettled hj
  rw [← sum_congr rfl fun j hj =>
    chargeOf_put_of_ne (hne j (mem_filter.mp hj).2.1)]
  apply sum_frontier_le self.nodes self.parent self.IsSettled
  · exact fun j hj => (mem_filter.mp hj).2
  · intro j hj
    obtain ⟨hmem,hjsettled,habove⟩ := mem_filter.mp hj
    -- the settled reservation takes the place of what is below it
    by_cases hpath : TransGen (IsParent self.parent) j id
    · refine ⟨id,mem_filter.mpr ⟨by simp [nodes_put],(hsettled id).mpr (.inl rfl),?_⟩,
        hpath.to_reflTransGen⟩
      intro above hup
      rw [hparent] at hup
      rw [hsettled, not_or]
      refine ⟨fun heq => ?_,habove above (hpath.trans hup)⟩
      exact absurd (rank_lt_of_transGen hrank hup) (heq ▸ lt_irrefl _)
    · refine ⟨j,mem_filter.mpr ⟨by simp [nodes_put, hmem],
        (hsettled j).mpr (.inr hjsettled),?_⟩,.refl⟩
      intro above hup
      rw [hparent] at hup
      rw [hsettled, not_or]
      exact ⟨fun heq => hpath (heq ▸ hup),habove above hup⟩
  · exact fun j above hj => mem_nodes_of_isParent hj
  · intro j hj
    have hsum : ∑ child ∈ self.level (some j), (self.put new id).chargeOf measure child ≤
        ∑ child ∈ self.level (some j), self.chargeOf measure child :=
      sum_le_sum fun child _ => chargeOf_put_le hget hcharge child
    apply hsum.trans
    by_cases heq : j = id
    · rw [heq, chargeOf_put_self]
      have hheld := h.held id hid.not_isSettled
      have hused := hbelow measure
      have hbound : self.chargeOf measure id ≤ measure.bound := by
        rw [chargeOf_of_get hget]
        simp only [charge, hstate]
        cases hamount : record.request.amount measure with
        | none => exact Nat.zero_le _
        | some reserved => exact BudgetReservationRequest.amount_le hamount
      rw [settledDirectChildUsage_amount, ← sum_charge_eq_settledUse hactive] at hused
      simp only [hnew, charge]
      omega
    · rw [chargeOf_put_of_ne heq]
      exact h.held j hj

theorem topmostUsage_le_release (hclosable : self.closable id = .ok record) :
    self.topmostUsage measure ≤
      (self.put { record with state := .released } id).topmostUsage measure := by
  classical
  unfold topmostUsage
  obtain ⟨hget,hstate,-⟩ := closable_eq_ok.mp hclosable
  have hid : self.IsActive id := ⟨record,hget,hstate⟩
  set new : BudgetReservationRecord := { record with state := .released } with hnew
  obtain ⟨hparent,-⟩ := level_put_of_get hget (rfl : new.request = record.request) none
  have hsettled : ∀ j, (self.put new id).IsSettled j ↔ self.IsSettled j := by
    intro j
    by_cases hj : j = id
    · rw [hj]
      refine iff_of_false ?_ hid.not_isSettled
      rintro ⟨found,actual,hfound,hactual⟩
      cases get?_put_self.symm.trans hfound
      cases hactual
    · exact isSettled_put_of_ne hj
  have hne : ∀ j, self.IsSettled j → j ≠ id := by
    rintro j hj rfl
    exact hid.not_isSettled hj
  rw [← sum_congr rfl fun j hj =>
    chargeOf_put_of_ne (hne j (mem_filter.mp hj).2.1)]
  apply Finset.sum_le_sum_of_subset
  intro j hj
  obtain ⟨hmem,hjsettled,habove⟩ := mem_filter.mp hj
  refine mem_filter.mpr ⟨by simp [nodes_put, hmem],(hsettled j).mpr hjsettled,?_⟩
  intro above hup
  rw [hparent] at hup
  rw [hsettled]
  exact habove above hup

/-- What a settled reservation is found to have used stays used. -/
theorem Sound.topmostUsage_le_step (h : Sound measure self) {call : LedgerCall}
    (haccounted : call.Accounted measure self) :
    self.topmostUsage measure ≤ (self.step call).topmostUsage measure := by
  have heffect := effect_step self call
  generalize self.step call = next at heffect ⊢
  cases heffect with
  | reserve hreservable => exact h.topmostUsage_le_reserve hreservable
  | settle hsettleable => exact h.topmostUsage_le_settle hsettleable haccounted
  | release hclosable => exact topmostUsage_le_release hclosable
  | failed => rfl

theorem step_limits (self : RootBudgetLedger) (call : LedgerCall) :
    (self.step call).limits = self.limits := by
  have heffect := effect_step self call
  generalize self.step call = next at heffect ⊢
  cases heffect <;> rfl

theorem run_limits (calls : List LedgerCall) : (self.run calls).limits = self.limits := by
  induction calls generalizing self with
  | nil => rfl
  | cons call calls ih => exact ih.trans (self.step_limits call)

end Steps

theorem sound_new (rootExecutionId : String) (limits : RootBudgetLimits) :
    Sound measure (new rootExecutionId limits) where
  ranked := ⟨fun _ => 0,fun _ _ h => nomatch h⟩
  limited _ _ := Nat.zero_le _
  held _ _ := Nat.zero_le _

/-- What the budget itself accepts fits beside everything that is settled. -/
theorem Sound.available (h : Sound measure self) {limit : ℕ}
    (hlimit : limit ∈ self.limits.amount measure) {request : BudgetReservationRequest}
    (hroot : request.parentReservationId = none) {next : RootBudgetLedger}
    (hreserve : Execution.reserve request self = .ok () next) :
    (request.amount measure).getD 0 + self.topmostUsage measure ≤ limit := by
  have hspent := h.spent
  have hlimited := h.limited limit hlimit
  have hreservable : self.reservable request = .ok () := by
    rw [Execution.reserve, checked_eq] at hreserve
    cases hcheck : self.reservable request with
    | ok _ => rfl
    | error error => simp [hcheck] at hreserve
  cases hamount : request.amount measure with
  | none =>
    rw [Option.getD_none]
    omega
  | some requested =>
    obtain ⟨-,-,hfits⟩ := reservable_eq_ok hreservable
    have hle := hfits measure requested hamount limit (fun _ => hlimit) (by simp [hroot])
    rw [hroot] at hle
    rw [Option.getD_some]
    omega

end RootBudgetLedger

/-- A budget is conserved in every run in which each measure is counted where it is used. -/
theorem budget_conserved (rootExecutionId : String) (limits : RootBudgetLimits)
    (measure : Measure) (calls : List LedgerCall)
    (haccounted : Along RootBudgetLedger.step (LedgerCall.Accounted measure)
      (.new rootExecutionId limits) calls) :
    Conserved measure (.new rootExecutionId limits) calls := by
  have hsound : ∀ before, before <+: calls →
      ((new rootExecutionId limits).run before).Sound measure := by
    rintro before ⟨later,rfl⟩
    exact (RootBudgetLedger.sound_new rootExecutionId limits).run (along_append.mp haccounted).1
  have hlimits : ∀ before limit, limit ∈ limits.amount measure →
      limit ∈ ((new rootExecutionId limits).run before).limits.amount measure := by
    intro before limit hlimit
    rw [RootBudgetLedger.run_limits]
    exact hlimit
  constructor
  · intro before hbefore limit hlimit
    exact (hsound before hbefore).spent.trans
      ((hsound before hbefore).limited limit (hlimits before limit hlimit))
  · intro before hbefore limit hlimit
    exact (hsound before hbefore).committed.trans
      ((hsound before hbefore).limited limit (hlimits before limit hlimit))
  · intro before hbefore limit hlimit request next hroot hreserve
    exact (hsound before hbefore).available (hlimits before limit hlimit) hroot hreserve
  · intro before later hlater
    induction later using List.reverseRecOn with
    | nil => rw [List.append_nil]
    | append_singleton later call ih =>
      have hearlier : before ++ later <+: calls := by
        apply List.IsPrefix.trans _ hlater
        exact ⟨[call],by simp⟩
      apply (ih hearlier).trans
      have hrun : (new rootExecutionId limits).run (before ++ (later ++ [call])) =
          ((new rootExecutionId limits).run (before ++ later)).step call := by
        rw [← List.append_assoc]
        exact runAll_append _ _ _ _
      rw [hrun]
      apply (hsound _ hearlier).topmostUsage_le_step
      exact along_iff.mp haccounted _ call (by rwa [List.append_assoc])
  · intro before call _ error next h
    exact RootBudgetLedger.perform_eq_error h

/-- A reservation of some input tokens and one attempt. -/
def stepRequest (reservationId : String) (parentReservationId : Option String)
    (inputTokens : U64) : BudgetReservationRequest where
  reservationId := reservationId
  parentReservationId := parentReservationId
  policyRevision := "policy-1"
  purpose := .rootStep
  budget := ⟨inputTokens,0,none⟩
  attempts := 1

def stepLimits : RootBudgetLimits := ⟨100,0,none,2⟩

theorem budget_conserved_nested :
    Conserved .freshInputTokens (.new "root" stepLimits)
      [.reserve (stepRequest "parent" none 60),.reserve (stepRequest "child" (some "parent") 40),
        .settle "child" ⟨30,0,none,1⟩,.settle "parent" ⟨50,0,none,1⟩,
        .reserve (stepRequest "next" none 50),.release "next"] := by
  apply budget_conserved
  refine ⟨?_,?_,?_,?_,?_,?_,trivial⟩
  · intro _ parentId hparent
    cases hparent
  · intro _ parentId _ parent _ hamount
    cases hamount
  · intro record _ hamount
    cases hamount
  · intro record _ hamount
    cases hamount
  · intro _ parentId hparent
    cases hparent
  · intro record _
    decide +kernel

/-- A reservation is released above settled usage, and its tokens are spent again. -/
def respent : List LedgerCall :=
  [.reserve (stepRequest "parent" none 100),.reserve (stepRequest "child" (some "parent") 100),
    .settle "child" ⟨100,0,none,1⟩,.release "parent",.reserve (stepRequest "again" none 100)]

theorem released_usage_respent :
    ¬ Conserved .freshInputTokens (.new "root" stepLimits) respent := by
  classical
  intro h
  have hspent := h.spent respent (List.prefix_refl _) 100 (by decide)
  have hchild : ((new "root" stepLimits).run respent).parent "child" =
      some "parent" := by decide +kernel
  have hroot : ((new "root" stepLimits).run respent).parent "parent" = none := by
    decide +kernel
  have hreleased : (((new "root" stepLimits).run respent).reservations.get?
      "parent").map (·.state) = some .released := by decide +kernel
  have hsettled : (((new "root" stepLimits).run respent).reservations.get?
      "child").map (·.state) = some (.settled ⟨100,0,none,1⟩) := by decide +kernel
  have hactive : (((new "root" stepLimits).run respent).reservations.get?
      "again").map (·.state) = some .reserved := by decide +kernel
  have hagain : "again" ∈ ((new "root" stepLimits).run respent).level none := by
    decide +kernel
  have hempty : ((new "root" stepLimits).run respent).level (some "again") = ∅ := by
    decide +kernel
  have hcharge : ((new "root" stepLimits).run respent).chargeOf
      .freshInputTokens "child" = 100 := by decide +kernel
  have hrequest : ((new "root" stepLimits).run respent).chargeOf
      .freshInputTokens "again" = 100 := by decide +kernel
  generalize (new "root" stepLimits).run respent = ledger at *
  obtain ⟨released,hparentGet,hparentState⟩ := Option.map_eq_some_iff.mp hreleased
  obtain ⟨child,hchildGet,hchildState⟩ := Option.map_eq_some_iff.mp hsettled
  obtain ⟨again,hagainGet,hagainState⟩ := Option.map_eq_some_iff.mp hactive
  have htopmost : Frontier ledger.parent ledger.IsSettled "child" := by
    refine ⟨⟨child,_,hchildGet,hchildState⟩,?_⟩
    rintro above hpath ⟨record,actual,hget,hstate⟩
    obtain ⟨next,hnext,hrest⟩ := TransGen.head'_iff.mp hpath
    cases hchild.symm.trans hnext
    rcases ReflTransGen.cases_head hrest with rfl | ⟨higher,hhigher,-⟩
    · cases hparentGet.symm.trans hget
      cases hparentState.symm.trans hstate
    · cases hroot.symm.trans hhigher
  have hcovers : ¬ ledger.Covers "again" := by
    rintro ⟨below,hpath,-⟩
    obtain ⟨middle,-,hmiddle⟩ := TransGen.tail'_iff.mp hpath
    have hmem : middle ∈ ledger.level (some "again") :=
      RootBudgetLedger.mem_level.mpr ⟨RootBudgetLedger.mem_nodes_of_isParent hmiddle,hmiddle⟩
    simp [hempty] at hmem
  have husage : ledger.chargeOf .freshInputTokens "child" ≤
      ledger.topmostUsage .freshInputTokens :=
    Finset.single_le_sum (fun _ _ => Nat.zero_le _)
      (mem_filter.mpr ⟨htopmost.1.mem_nodes,htopmost⟩)
  have hrequests : ledger.chargeOf .freshInputTokens "again" ≤
      ledger.uncoveringRequests .freshInputTokens :=
    Finset.single_le_sum (fun _ _ => Nat.zero_le _)
      (mem_filter.mpr ⟨hagain,⟨again,hagainGet,hagainState⟩,hcovers⟩)
  omega

end PhenixConductor.Execution

import PhenixConductor.Events.Dependencies
import PhenixConductor.Collections.Digraph

/-! # Valid subscription sets

The check of the dependencies accepts the sets that are closed under dependencies, stay within
one event and have no cycle, and no other.
-/
namespace PhenixConductor.Events
open Collections Contract
variable {H : Type}

/-- `b` is a dependency of `a`. -/
def DependsOn (subscriptions : Subscriptions H) (a b : SubscriptionId) : Prop :=
  ∃ subscription, subscriptions.get? a = some subscription ∧ b ∈ subscription.spec.dependencies

def SubscriptionSpec.SameEvent (self other : SubscriptionSpec) : Prop :=
  self.eventType = other.eventType ∧ self.eventVersion = other.eventVersion

/-- Every subscription is stored under its own id. -/
def Keyed (subscriptions : Subscriptions H) : Prop :=
  ∀ id subscription, subscriptions.get? id = some subscription → subscription.spec.id = id

/-- Every dependency is a subscription to the same event. -/
def Closed (subscriptions : Subscriptions H) : Prop :=
  ∀ id subscription, subscriptions.get? id = some subscription →
    ∀ dependency ∈ subscription.spec.dependencies, ∃ target,
      subscriptions.get? dependency = some target ∧ target.spec.SameEvent subscription.spec

structure Valid (subscriptions : Subscriptions H) : Prop where
  keyed : Keyed subscriptions
  closed : Closed subscriptions
  acyclic : Acyclic (DependsOn subscriptions)

theorem grounded_iff_acyclic {subscriptions : Subscriptions H} :
    (∀ id, Grounded (DependsOn subscriptions) id) ↔ Acyclic (DependsOn subscriptions) := by
  constructor
  · exact acyclic_of_grounded
  · apply grounded_of_acyclic (List.finite_toSet subscriptions.keys)
    rintro a b ⟨subscription,ha,-⟩
    exact subscriptions.mem_keys_iff.mpr (by rw [ha]; rfl)

section Levels
variable {subscriptions : Subscriptions H} {remaining : BTreeSet SubscriptionId}

variable {id : SubscriptionId}

theorem mem_readySubscriptions : id ∈ readySubscriptions subscriptions remaining ↔
      id ∈ remaining.keys ∧ ∀ b, DependsOn subscriptions id b → b ∉ remaining.keys := by
  cases h : subscriptions.get? id <;> simp [readySubscriptions, DependsOn, h]

theorem mem_removeReady : id ∈ (removeReady subscriptions remaining).keys ↔
      id ∈ remaining.keys ∧ id ∉ readySubscriptions subscriptions remaining := by
  simp [removeReady, BTreeMap.filter]

/-- A grounded member leads down to one that is ready. -/
theorem readySubscriptions_ne_nil (hground : Grounded (DependsOn subscriptions) id)
    (hid : id ∈ remaining.keys) : readySubscriptions subscriptions remaining ≠ [] := by
  induction hground with
  | intro a _ ih =>
    by_cases hready : ∀ b, DependsOn subscriptions a b → b ∉ remaining.keys
    · exact List.ne_nil_of_mem (mem_readySubscriptions.mpr ⟨hid,hready⟩)
    · simp only [not_forall, not_not] at hready
      rcases hready with ⟨b,hab,hb⟩
      exact ih b hab hb

theorem levelsFrom_of_grounded
    (hground : ∀ id ∈ remaining.keys, Grounded (DependsOn subscriptions) id) :
    ∃ levels, levelsFrom subscriptions remaining = .ok levels := by
  induction remaining using levelsFrom.induct subscriptions with
  | case1 remaining hnil =>
    exact ⟨[],levelsFrom_of_nil hnil⟩
  | case2 remaining next rest hcons hstuck =>
    have hnext : next ∈ remaining.keys := by simp [hcons]
    exact absurd hstuck (readySubscriptions_ne_nil (hground next hnext) hnext)
  | case3 remaining next rest hcons hready _ ih =>
    obtain ⟨levels,hlevels⟩ := ih fun id hid => hground id (mem_removeReady.mp hid).1
    rw [levelsFrom_of_ready hready, hlevels]
    exact ⟨_,rfl⟩

/-- The members of the levels are grounded when all that they depend on outside of
`remaining` is. -/
theorem grounded_of_levelsFrom {levels : List (List SubscriptionId)}
    (h : levelsFrom subscriptions remaining = .ok levels)
    (hout : ∀ a ∈ remaining.keys, ∀ b, DependsOn subscriptions a b → b ∉ remaining.keys →
      Grounded (DependsOn subscriptions) b) :
    ∀ id ∈ remaining.keys, Grounded (DependsOn subscriptions) id := by
  induction remaining using levelsFrom.induct subscriptions generalizing levels with
  | case1 remaining hnil => simp [hnil]
  | case2 remaining next rest hcons hstuck =>
    rw [levelsFrom_of_stuck hcons hstuck] at h
    cases h
  | case3 remaining next rest hcons hready _ ih =>
    rw [levelsFrom_of_ready hready] at h
    obtain ⟨levels',hlevels,-⟩ := bind_eq_ok.mp h
    have hfirst : ∀ id ∈ readySubscriptions subscriptions remaining,
        Grounded (DependsOn subscriptions) id := by
      intro id hid
      rcases mem_readySubscriptions.mp hid with ⟨hmem,hdeps⟩
      exact Acc.intro _ fun b hb => hout id hmem b hb (hdeps b hb)
    have hrest := ih hlevels fun a ha b hab hb => by
      by_cases hmem : b ∈ remaining.keys
      · apply hfirst
        by_contra hnot
        exact hb (mem_removeReady.mpr ⟨hmem,hnot⟩)
      · exact hout a (mem_removeReady.mp ha).1 b hab hmem
    intro id hid
    by_cases hid' : id ∈ readySubscriptions subscriptions remaining
    · exact hfirst id hid'
    · exact hrest id (mem_removeReady.mpr ⟨hid,hid'⟩)

end Levels

variable {subscriptions : Subscriptions H}

/-- The levels of an event exist when nothing depends on itself, whatever the event. -/
theorem dependencyLevels_of_acyclic (h : Acyclic (DependsOn subscriptions))
    (eventType : EventTypeId) (eventVersion : ℕ) :
    ∃ levels, dependencyLevels subscriptions eventType eventVersion = .ok levels :=
  levelsFrom_of_grounded fun id _ => grounded_iff_acyclic.mpr h id

theorem mem_eventIds (hkeyed : Keyed subscriptions) {eventType : EventTypeId} {eventVersion : ℕ}
    {id : SubscriptionId} :
    id ∈ (BTreeSet.collect
      ((subscriptions.values.filter fun subscription =>
        subscription.spec.eventType = eventType &&
          subscription.spec.eventVersion = eventVersion).map (·.spec.id))).keys ↔
      ∃ subscription, subscriptions.get? id = some subscription ∧
        subscription.spec.eventType = eventType ∧ subscription.spec.eventVersion = eventVersion := by
  simp only [BTreeSet.mem_collect, List.mem_map, List.mem_filter, BTreeMap.mem_values,
    Bool.and_eq_true, decide_eq_true_eq]
  constructor
  · rintro ⟨subscription,⟨⟨key,hkey⟩,hevent⟩,rfl⟩
    rw [hkeyed key subscription hkey]
    exact ⟨subscription,hkey,hevent⟩
  · rintro ⟨subscription,hid,hevent⟩
    exact ⟨subscription,⟨⟨id,hid⟩,hevent⟩,hkeyed id subscription hid⟩

variable {subscription : EventSubscription H}

/-- What the levels of one event say about its subscriptions. -/
theorem grounded_of_dependencyLevels (hkeyed : Keyed subscriptions) (hclosed : Closed subscriptions)
    {eventType : EventTypeId} {eventVersion : ℕ} {levels : List (List SubscriptionId)}
    (h : dependencyLevels subscriptions eventType eventVersion = .ok levels) {id : SubscriptionId}
    (hid : subscriptions.get? id = some subscription)
    (htype : subscription.spec.eventType = eventType)
    (hversion : subscription.spec.eventVersion = eventVersion) :
    Grounded (DependsOn subscriptions) id := by
  refine grounded_of_levelsFrom h ?_ id ((mem_eventIds hkeyed).mpr ⟨_,hid,htype,hversion⟩)
  -- a dependency belongs to the same event, so it is among those put in levels
  rintro a ha b ⟨source,hsource,hb⟩ hnot
  obtain ⟨source',hsource',htype',hversion'⟩ := (mem_eventIds hkeyed).mp ha
  rw [hsource] at hsource'
  cases hsource'
  obtain ⟨target,htarget,hsame⟩ := hclosed a source hsource b hb
  exact absurd ((mem_eventIds hkeyed).mpr
    ⟨target,htarget,hsame.1.trans htype',hsame.2.trans hversion'⟩) hnot

theorem validateDependency_eq_ok {dependency : SubscriptionId} :
    validateDependency subscriptions subscription dependency = .ok () ↔ ∃ target,
      subscriptions.get? dependency = some target ∧ target.spec.SameEvent subscription.spec := by
  unfold validateDependency
  cases subscriptions.get? dependency with
  | none => simp
  | some target =>
    simp only [SubscriptionSpec.SameEvent, Option.some.injEq, exists_eq_left']
    split_ifs with h
    · simp only [ne_eq, Bool.or_eq_true, decide_eq_true_eq] at h
      tauto
    · simpa using h

theorem closed_iff : Closed subscriptions ↔ ∀ subscription ∈ subscriptions.values,
    ∀ dependency ∈ subscription.spec.dependencies,
      validateDependency subscriptions subscription dependency = .ok () := by
  simp only [Closed, BTreeMap.mem_values, validateDependency_eq_ok]
  grind

/-- The check accepts the valid sets and no other. -/
theorem validateDependencies_eq_ok (hkeyed : Keyed subscriptions) :
    validateDependencies subscriptions = .ok () ↔ Valid subscriptions := by
  rw [validateDependencies, seq_eq_ok]
  simp only [forM_eq_ok, ← closed_iff]
  constructor
  · rintro ⟨hclosed,hlevels⟩
    refine ⟨hkeyed,hclosed,grounded_iff_acyclic.mp fun id => ?_⟩
    cases hid : subscriptions.get? id with
    | none =>
      apply Acc.intro
      rintro b ⟨subscription,hsome,-⟩
      simp [hid] at hsome
    | some subscription =>
      have hevent := hlevels (toLex (subscription.spec.eventType,subscription.spec.eventVersion)) (by
        simp only [BTreeSet.mem_collect, List.mem_map, BTreeMap.mem_values]
        exact ⟨subscription,⟨id,hid⟩,rfl⟩)
      obtain ⟨_,horder,-⟩ := bind_eq_ok.mp hevent
      obtain ⟨levels,hok,-⟩ := bind_eq_ok.mp horder
      exact grounded_of_dependencyLevels hkeyed hclosed hok hid rfl rfl
  · intro hvalid
    refine ⟨hvalid.closed,fun event _ => ?_⟩
    obtain ⟨levels,hok⟩ := dependencyLevels_of_acyclic hvalid.acyclic (ofLex event).1 (ofLex event).2
    rw [dependencyOrder, hok]
    rfl

end PhenixConductor.Events

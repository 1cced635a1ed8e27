import PhenixConductor.Events.Changes

/-! # Who is active

In every run the levels that deliveries have entered are active for their causes and
apart from each other, and an admission made by a handler is made while that handler
is active.
-/
namespace PhenixConductor.Events
open Collections Contract Component Delivery
variable {H : Type}

/-- The level that a delivery has entered and not left. -/
def Delivery.entered (d : Delivery H) : List SubscriptionId :=
  match d.phase with
  | .handling level _ => level
  | _ => []

namespace System

variable {d : Delivery H}

theorem Handling.mem_entered {id : SubscriptionId} (h : Handling d id) : id ∈ d.entered := by
  unfold Handling at h
  unfold entered
  generalize d.phase = phase at h ⊢
  cases phase with
  | handling => exact h.1
  | _ => exact h.elim

/-- Whoever makes an admission is a running handler of the same cause, or no handler. -/
def AdmittedFrom (deliveries : List (Delivery H)) (a : Admission H) : Prop :=
  a.event.causalityId ≠ 0 ∧ ∀ caller ∈ a.caller, ∃ d, deliveries[caller.delivery]? = some d ∧
    Handling d caller.subscription ∧ d.event.causalityId = a.event.causalityId ∧
      d.lineage = caller.lineage

/-- Entered levels are active, and those of one cause are apart. -/
structure Tracked (s : System H) : Prop where
  active : ∀ (i : ℕ) d, s.deliveries[i]? = some d →
    ∀ id ∈ d.entered, id ∈ (s.bus.activeFor d.event.causalityId).keys
  apart : ∀ (i j : ℕ) d d', s.deliveries[i]? = some d → s.deliveries[j]? = some d' → i ≠ j →
    d.event.causalityId = d'.event.causalityId → ∀ id ∈ d.entered, id ∉ d'.entered
  nonzero : ∀ (i : ℕ) d, s.deliveries[i]? = some d → d.event.causalityId ≠ 0
  callers : ∀ a ∈ s.admissions, AdmittedFrom s.deliveries a

/-- Whatever was active still is. -/
def Remembers (bus bus' : EventBus H) : Prop :=
  ∀ c id, id ∈ (bus.activeFor c).keys → id ∈ (bus'.activeFor c).keys

variable {bus : EventBus H}

theorem Remembers.of_eq {bus' : EventBus H} (h : bus'.activeCausality = bus.activeCausality) :
    Remembers bus bus' := by
  intro c id hid
  rwa [EventBus.activeFor, h]

/-- What a delivery keeps while it neither enters nor leaves a level. -/
structure Continues (admissions : List (Admission H)) (i : ℕ) (d d' : Delivery H) : Prop where
  event : d'.event = d.event
  lineage : d'.lineage = d.lineage
  entered : d'.entered = d.entered
  handling : ∀ a ∈ admissions, ∀ caller ∈ a.caller, caller.delivery = i →
    Handling d caller.subscription → Handling d' caller.subscription

theorem getElem?_set {α : Type} {l : List α} {i : ℕ} {a b : α} (h : l[i]? = some a) (j : ℕ) :
    (l.set i b)[j]? = if i = j then some b else l[j]? := by
  obtain ⟨hlt,-⟩ := List.getElem?_eq_some_iff.mp h
  rw [List.getElem?_set]
  split_ifs with hij
  · rfl
  · rfl

variable {s : System H} {d' : Delivery H}

theorem Tracked.continues {i : ℕ} (h : Tracked s) (hd : s.deliveries[i]? = some d)
    (hactive : Remembers s.bus bus) (hd' : Continues s.admissions i d d') :
    Tracked { s with bus := bus, deliveries := s.deliveries.set i d' } := by
  -- every delivery looks like the one that was there
  have hold : ∀ (j : ℕ) e, (s.deliveries.set i d')[j]? = some e → ∃ e₀, s.deliveries[j]? = some e₀ ∧
      e.event = e₀.event ∧ e.entered = e₀.entered := by
    intro j e he
    rw [getElem?_set hd] at he
    split_ifs at he with hij
    · cases he
      exact ⟨d,hij ▸ hd,hd'.event,hd'.entered⟩
    · exact ⟨e,he,rfl,rfl⟩
  constructor
  · intro j e he id hid
    obtain ⟨e₀,he₀,hevent,hentered⟩ := hold j e he
    rw [hevent]
    exact hactive _ id (h.active j e₀ he₀ id (hentered ▸ hid))
  · intro j k e e' he he' hne hcause id hid
    obtain ⟨e₀,he₀,hevent,hentered⟩ := hold j e he
    obtain ⟨e₁,he₁,hevent',hentered'⟩ := hold k e' he'
    rw [hentered']
    exact h.apart j k e₀ e₁ he₀ he₁ hne (by rw [← hevent, ← hevent', hcause]) id (hentered ▸ hid)
  · intro j e he
    obtain ⟨e₀,he₀,hevent,-⟩ := hold j e he
    rw [hevent]
    exact h.nonzero j e₀ he₀
  · intro a ha
    refine ⟨(h.callers a ha).1,fun caller hcaller => ?_⟩
    obtain ⟨e,he,hhandling,hcause,hlineage⟩ := (h.callers a ha).2 caller hcaller
    rw [getElem?_set hd]
    split_ifs with hij
    · rw [← hij, hd] at he
      cases he
      exact ⟨d',rfl,hd'.handling a ha caller hcaller hij.symm hhandling,
        by rw [hd'.event, hcause],by rw [hd'.lineage, hlineage]⟩
    · exact ⟨e,he,hhandling,hcause,hlineage⟩

/-- A delivery without running handlers takes up or gives back a level. -/
theorem Tracked.moves {i : ℕ} (h : Tracked s) (hd : s.deliveries[i]? = some d)
    (hevent : d'.event = d.event) (hidle : ∀ id, ¬Handling d id)
    (hself : ∀ id ∈ d'.entered, id ∈ (bus.activeFor d.event.causalityId).keys)
    (hothers : ∀ (j : ℕ) e, s.deliveries[j]? = some e → i ≠ j → ∀ id ∈ e.entered, id ∈ (bus.activeFor e.event.causalityId).keys)
    (hapart : ∀ (j : ℕ) e, s.deliveries[j]? = some e → i ≠ j → d.event.causalityId = e.event.causalityId → ∀ id ∈ d'.entered, id ∉ e.entered) :
    Tracked { s with bus := bus, deliveries := s.deliveries.set i d' } := by
  constructor
  · intro j e he
    rw [getElem?_set hd] at he
    split_ifs at he with hij
    · cases he
      rw [hevent]
      exact hself
    · exact hothers j e he hij
  · intro j k e e' he he' hne hcause id hid
    rw [getElem?_set hd] at he he'
    split_ifs at he he' with hij hik hik
    · exact absurd (hij.symm.trans hik) hne
    · cases he
      exact hapart k e' he' hik (hevent ▸ hcause) id hid
    · cases he'
      intro hid'
      exact hapart j e he hij (by rw [hcause, hevent]) id hid' hid
    · exact h.apart j k e e' he he' hne hcause id hid
  · intro j e he
    rw [getElem?_set hd] at he
    split_ifs at he with hij
    · cases he
      rw [hevent]
      exact h.nonzero i d hd
    · exact h.nonzero j e he
  · intro a ha
    refine ⟨(h.callers a ha).1,fun caller hcaller => ?_⟩
    obtain ⟨e,he,hhandling,hrest⟩ := (h.callers a ha).2 caller hcaller
    rw [getElem?_set hd]
    split_ifs with hij
    · rw [← hij, hd] at he
      cases he
      exact absurd hhandling (hidle _)
    · exact ⟨e,he,hhandling,hrest⟩

theorem Tracked.enters {i : ℕ} (h : Tracked s) (hd : s.deliveries[i]? = some d)
    (hevent : d'.event = d.event) (hidle : d.entered = [])
    (henter : (enterCausality d.event.causalityId d'.entered).call s.bus = (.ok (),bus)) :
    Tracked { s with bus := bus, deliveries := s.deliveries.set i d' } := by
  obtain ⟨hfresh,hactive⟩ := enterCausality_ok henter
  refine h.moves hd hevent ?_ ?_ ?_ ?_
  · intro id hid
    have hmem := hid.mem_entered
    simp [hidle] at hmem
  · exact fun id hid => (hactive _ id).mpr (.inr ⟨rfl,hid⟩)
  · exact fun j e he _ id hid => (hactive _ id).mpr (.inl (h.active j e he id hid))
  · intro j e he _ hcause id hid hid'
    exact hfresh id hid (hcause ▸ h.active j e he id hid')

theorem Tracked.leaves {i : ℕ} (h : Tracked s) (hd : s.deliveries[i]? = some d)
    (hevent : d'.event = d.event) (hidle : ∀ id, ¬Handling d id) (hleft : d'.entered = []) :
    Tracked { s with
      bus := leaveCausality d.event.causalityId d.entered s.bus
      deliveries := s.deliveries.set i d' } := by
  refine h.moves hd hevent hidle ?_ ?_ ?_
  · simp [hleft]
  · intro j e he hij id hid
    rw [leaveCausality_activeFor]
    refine ⟨h.active j e he id hid,?_⟩
    rintro ⟨hcause,hid'⟩
    exact h.apart i j d e hd he hij hcause.symm id hid' hid
  · simp [hleft]

theorem Tracked.admits {admissions : List (Admission H)} (h : Tracked s)
    (hactive : Remembers s.bus bus) (hadmissions : ∀ a ∈ admissions, AdmittedFrom s.deliveries a) :
    Tracked ⟨bus,admissions,s.deliveries⟩ where
  active i d hd id hid := hactive _ id (h.active i d hd id hid)
  apart := h.apart
  nonzero := h.nonzero
  callers := hadmissions

/-- A new delivery has entered no level yet. -/
theorem Tracked.accepts (h : Tracked s) (hentered : d.entered = [])
    (hnonzero : d.event.causalityId ≠ 0) :
    Tracked { s with deliveries := s.deliveries ++ [d] } := by
  have hold : ∀ (i : ℕ) e, (s.deliveries ++ [d])[i]? = some e → s.deliveries[i]? = some e ∨ e = d := by
    intro i e he
    rw [List.getElem?_append] at he
    split_ifs at he with hlt
    · exact .inl he
    · exact .inr (by simpa using List.mem_of_getElem? he)
  constructor
  · intro i e he id hid
    rcases hold i e he with he | rfl
    · exact h.active i e he id hid
    · simp [hentered] at hid
  · intro i j e e' he he' hne hcause id hid
    rcases hold i e he with he | rfl
    · rcases hold j e' he' with he' | rfl
      · exact h.apart i j e e' he he' hne hcause id hid
      · simp [hentered]
    · simp [hentered] at hid
  · intro i e he
    rcases hold i e he with he | rfl
    · exact h.nonzero i e he
    · exact hnonzero
  · intro a ha
    refine ⟨(h.callers a ha).1,fun caller hcaller => ?_⟩
    obtain ⟨e,he,hrest⟩ := (h.callers a ha).2 caller hcaller
    refine ⟨e,?_,hrest⟩
    have hlt : caller.delivery < s.deliveries.length := (List.getElem?_eq_some_iff.mp he).1
    rw [List.getElem?_append_left hlt, he]

/-! ### The actions of a delivery -/

theorem Continues.refl (admissions : List (Admission H)) (i : ℕ) (d : Delivery H) :
    Continues admissions i d d := ⟨rfl,rfl,rfl,fun _ _ _ _ _ h => h⟩

theorem Continues.idle {admissions : List (Admission H)} {i : ℕ} (hevent : d'.event = d.event)
    (hlineage : d'.lineage = d.lineage) (h : d.entered = []) (h' : d'.entered = []) :
    Continues admissions i d d' := by
  refine ⟨hevent,hlineage,h'.trans h.symm,fun _ _ _ _ _ hhandling => ?_⟩
  have hmem := hhandling.mem_entered
  simp [h] at hmem

theorem entered_of_phase (h : ∀ level finished, d.phase ≠ .handling level finished) :
    d.entered = [] := by
  unfold entered
  split
  · next hphase => exact absurd hphase (h _ _)
  · rfl

section
variable (admissions : List (Admission H))
include admissions

theorem check_continues (i : ℕ) (bus : EventBus H)
    (d : Delivery H) : Continues admissions i d (check bus d).1 := by
  unfold check
  split
  · next hphase =>
    have hidle : d.entered = [] := entered_of_phase (by simp [hphase])
    unfold checkLevel
    split
    · exact .idle rfl rfl hidle rfl
    · split_ifs
      · exact .idle rfl rfl hidle rfl
      · split <;> exact .idle rfl rfl hidle rfl
  · exact .refl _ _ d

theorem settle_continues (i : ℕ) (bus : EventBus H)
    (d : Delivery H) : Continues admissions i d (settle bus d).1 := by
  unfold settle
  split
  · next hphase =>
    have hidle : d.entered = [] := entered_of_phase (by simp [hphase])
    unfold settleLevel
    split_ifs
    · exact .idle rfl rfl hidle rfl
    · split <;> exact .idle rfl rfl hidle rfl
  · exact .refl _ _ d

theorem release_continues (i : ℕ) (bus : EventBus H)
    (d : Delivery H) : Continues admissions i d (release bus d).1 := by
  unfold release
  split
  · next hphase => exact .idle rfl rfl (entered_of_phase (by simp [hphase])) rfl
  · exact .refl _ _ d

/-- A handler that ends was making no admission. -/
theorem handled_continues (i : ℕ) (id : SubscriptionId)
    (outcome : HandlerOutcome) (bus : EventBus H) (d : Delivery H) :
    Continues admissions i d (handled admissions i id outcome bus d).1 := by
  unfold handled
  split
  · next level finished hphase =>
    split_ifs with hend
    · refine ⟨rfl,rfl,by simp [entered, hphase],?_⟩
      intro a ha caller hcaller hi hhandling
      rw [Handling, hphase] at hhandling
      refine ⟨hhandling.1,?_⟩
      rw [BTreeMap.mem_keys_insert, not_or]
      refine ⟨fun hsame => hend.2.2 a ha caller hcaller ⟨hi,hsame⟩,hhandling.2⟩
    · exact .refl _ _ d
  · exact .refl _ _ d

end

/-- When all handlers of a level have ended, none is running. -/
theorem not_handling_of_joinLevel {level : List SubscriptionId}
    {finished : BTreeMap SubscriptionId (Except String Unit)}
    {results : List (SubscriptionId × Except String Unit)}
    (hphase : d.phase = .handling level finished)
    (h : joinLevel level finished = some results) (id : SubscriptionId) :
    ¬Handling d id := by
  rw [Handling, hphase]
  rintro ⟨hid,hnot⟩
  have hsome := isSome_of_mapM h id hid
  rw [(finished.get?_eq_none).mpr hnot] at hsome
  cases hsome

theorem Tracked.advance_continues (h : Tracked s) (i : ℕ)
    {f : EventBus H → Delivery H → Delivery H × EventBus H}
    (hbus : ∀ bus d, Remembers bus (f bus d).2)
    (hf : ∀ bus d, Continues s.admissions i d (f bus d).1) : Tracked (s.advance i f) := by
  unfold advance
  split
  · exact h
  · next d hd => exact h.continues hd (hbus s.bus d) (hf s.bus d)

theorem Tracked.advance_enter (h : Tracked s) (i : ℕ) : Tracked (s.advance i enter) := by
  unfold advance enter
  split
  · exact h
  · next d hd =>
    split
    · next level hphase =>
      have hidle : d.entered = [] := entered_of_phase (by simp [hphase])
      unfold enterLevel
      split
      · next error bus hcall =>
        exact h.continues hd (fun c id hid => ((enterCausality_error hcall).2 c id).mpr hid)
          (.idle rfl rfl hidle rfl)
      · next bus hcall => exact h.enters hd rfl hidle hcall
    · exact h.continues hd (.of_eq rfl) (.refl _ _ d)

theorem Tracked.advance_leave (h : Tracked s) (i : ℕ) : Tracked (s.advance i leave) := by
  unfold advance leave
  split
  · exact h
  · next d hd =>
    split
    · next level finished hphase =>
      have hlevel : d.entered = level := by rw [entered, hphase]
      split
      · exact h.continues hd (.of_eq rfl) (.refl _ _ d)
      · next results hjoin =>
        rw [← hlevel]
        exact h.leaves hd rfl (not_handling_of_joinLevel hphase hjoin) rfl
    · exact h.continues hd (.of_eq rfl) (.refl _ _ d)

/-! ### Admissions -/

theorem Tracked.startAdmission (h : Tracked s) {caller : Option Caller} {event : EventEnvelope}
    (hcaller : ∀ origin ∈ caller, ∃ d, s.deliveries[origin.delivery]? = some d ∧ Handling d origin.subscription ∧ d.event.causalityId = event.causalityId ∧ d.lineage = origin.lineage)
    (authority : Authority) (generation : Option GraphGenerationId) :
    Tracked (s.startAdmission caller event authority generation) := by
  obtain ⟨rooted,counter,result,hcall,hresult,-,hnonzero,hsame⟩ :=
    snapshotAdmission_call event authority generation s.bus
  rw [System.startAdmission, hcall]
  cases result with
  | error e => exact h.admits (.of_eq rfl) h.callers
  | ok snapshot =>
    refine h.admits (.of_eq rfl) fun a ha => ?_
    rcases List.mem_append.mp ha with ha | ha
    · exact h.callers a ha
    · rw [List.mem_singleton.mp ha]
      obtain ⟨levels,-,hrest⟩ := bind_eq_ok.mp hresult.symm
      obtain ⟨-,hsnapshot⟩ := seq_eq_ok.mp hrest
      cases hsnapshot
      refine ⟨hnonzero,fun origin horigin => ?_⟩
      obtain ⟨d,hd,hhandling,hcause,hlineage⟩ := hcaller origin horigin
      refine ⟨d,hd,hhandling,?_,hlineage⟩
      -- a handled event has a cause, so it is no root
      exact hcause.trans (hsame (hcause ▸ h.nonzero _ d hd)).symm

theorem Tracked.admitFrom (h : Tracked s) (i : ℕ) (subscription : SubscriptionId)
    (event : EventEnvelope) (authority : Authority) (generation : Option GraphGenerationId) :
    Tracked (s.admitFrom i subscription event authority generation) := by
  unfold System.admitFrom
  split
  · exact h
  · next d hd =>
    split_ifs with hhandling
    · refine h.startAdmission (fun origin horigin => ?_) authority generation
      cases horigin
      exact ⟨d,hd,hhandling,rfl,rfl⟩
    · exact h

theorem Tracked.reserve (h : Tracked s) (i : ℕ) : Tracked (s.reserve i) := by
  unfold System.reserve
  rw [reserveDelivery_call]
  split
  · exact h
  · next a ha =>
    have hdrop : ∀ b ∈ s.admissions.eraseIdx i, AdmittedFrom s.deliveries b :=
      fun b hb => h.callers b (List.mem_of_mem_eraseIdx hb)
    split_ifs with hreserved hfull
    · exact h
    · exact h.admits (.of_eq rfl) hdrop
    · refine h.admits (.of_eq rfl) fun b hb => ?_
      rcases List.mem_or_eq_of_mem_set hb with hb | rfl
      · exact h.callers b hb
      · exact h.callers a (List.mem_of_getElem? ha)

theorem Tracked.accept (h : Tracked s) (i : ℕ) (spawned : Bool) : Tracked (s.accept i spawned) := by
  unfold System.accept
  split
  · exact h
  · next a ha =>
    have hdrop : ∀ b ∈ s.admissions.eraseIdx i, AdmittedFrom s.deliveries b :=
      fun b hb => h.callers b (List.mem_of_mem_eraseIdx hb)
    split_ifs with hreserved hspawned
    · exact h
    · have hadmits : Tracked
          ⟨{ s.bus with nextDelivery := nextNonzeroId s.bus.nextDelivery },
            s.admissions.eraseIdx i,s.deliveries⟩ := h.admits (.of_eq rfl) hdrop
      exact hadmits.accepts rfl (h.callers a (List.mem_of_getElem? ha)).1
    · exact h.admits (.of_eq rfl) hdrop

theorem step_tracked (s : System H) (action : Action H) (h : Tracked s) :
    Tracked (s.step action) := by
  cases action with
  | change change =>
    rw [step, change.perform_call]
    cases change.accepted s.bus.subscriptions <;> exact h.admits (.of_eq rfl) h.callers
  | admitOutside event authority generation =>
    exact h.startAdmission (fun _ horigin => by cases horigin) authority generation
  | admitFrom i subscription event authority generation =>
    exact h.admitFrom i subscription event authority generation
  | reserve i => exact h.reserve i
  | accept i spawned => exact h.accept i spawned
  | check i =>
    refine h.advance_continues i (fun bus d => .of_eq ?_) fun bus d => check_continues _ i bus d
    unfold check
    split <;> rfl
  | enter i => exact h.advance_enter i
  | handled i subscription outcome =>
    refine h.advance_continues i (fun bus d => .of_eq ?_)
      fun bus d => handled_continues _ i subscription outcome bus d
    unfold handled
    split
    · split_ifs <;> rfl
    · rfl
  | leave i => exact h.advance_leave i
  | settle i =>
    refine h.advance_continues i (fun bus d => .of_eq ?_) fun bus d => settle_continues _ i bus d
    unfold settle
    split <;> rfl
  | release i =>
    refine h.advance_continues i (fun bus d => .of_eq ?_) fun bus d => release_continues _ i bus d
    unfold release
    split <;> rfl

end System
end PhenixConductor.Events

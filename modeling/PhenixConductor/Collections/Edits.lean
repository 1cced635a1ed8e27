import PhenixConductor.Collections.Branching
import Mathlib.Data.List.Pairwise

/-! # Footprints of edit sequences

A footprint is a list of pairwise incomparable paths.
-/
namespace PhenixConductor.Collections.Branching
variable {N S : Type} [Branching N S]

instance : Std.Symm (@Incomparable S) := ⟨fun _ _ => Incomparable.symm⟩

/-- Structures reached by admitted edits, each at or below a path of `T`. -/
inductive Edited (T : List (List S)) (o : Option N) : Option N → Prop
  | refl : Edited T o o
  | edit {o' : Option N} {p : List S} {x : Option N} : Edited T o o' → (∃ t ∈ T, t <+: p) →
      Admits o' p x → Edited T o (putAt o' p x)

variable {T : List (List S)}

theorem Edited.trans {a b c : Option N} (h : Edited T a b) (h' : Edited T b c) : Edited T a c := by
  induction h' with
  | refl => exact h
  | edit _ ht ha ih => exact .edit ih ht ha

/-- What a footprint path admits does not change. -/
theorem Edited.admits_iff (hT : T.Pairwise Incomparable) {a b : Option N} (h : Edited T a b)
    {p : List S} (hp : p ∈ T) (x : Option N) : Admits b p x ↔ Admits a p x := by
  induction h with
  | refl => rfl
  | @edit o q y _ ht ha ih =>
    obtain ⟨t,htT,r,rfl⟩ := ht
    rw [putAt_append, ← ih]
    by_cases htp : t = p
    · subst htp
      exact admits_putAt_self _ _ _ _
    · exact admits_putAt_of_incomparable (hT.forall htT hp htp) _ _ _

/-- Write `g t` at every path `t` of the list, in order. -/
def patch (o : Option N) (T : List (List S)) (g : List S → Option N) : Option N :=
  T.foldl (fun acc t => putAt acc t (g t)) o

@[simp] theorem patch_nil (o : Option N) (g : List S → Option N) : patch o [] g = o := rfl
@[simp] theorem patch_cons (o : Option N) (t : List S) (T : List (List S))
    (g : List S → Option N) : patch o (t :: T) g = patch (putAt o t (g t)) T g := rfl

theorem patch_congr {o : Option N} {g g' : List S → Option N} (h : ∀ t ∈ T, g t = g' t) :
    patch o T g = patch o T g' := by
  induction T generalizing o with
  | nil => rfl
  | cons t T ih =>
    rw [patch_cons, patch_cons, h t (by simp), ih fun u hu => h u (by simp [hu])]

theorem patch_self (o : Option N) (T : List (List S)) : patch o T (getAt o) = o := by
  induction T with
  | nil => rfl
  | cons t T ih => rw [patch_cons, putAt_getAt, ih]

/-- An edit that avoids the paths of a patch can be made first. -/
theorem putAt_patch_comm {q : List S} (hq : ∀ t ∈ T, Incomparable t q) (o y : Option N)
    (g : List S → Option N) : putAt (patch o T g) q y = patch (putAt o q y) T g := by
  induction T generalizing o with
  | nil => rfl
  | cons t T ih =>
    rw [patch_cons, patch_cons, ih fun u hu => hq u (by simp [hu]),
      putAt_comm (hq t (by simp))]

theorem admits_patch {q : List S} (hq : ∀ t ∈ T, Incomparable t q) (o y : Option N)
    (g : List S → Option N) : Admits (patch o T g) q y ↔ Admits o q y := by
  induction T generalizing o with
  | nil => rfl
  | cons t T ih =>
    rw [patch_cons, ih fun u hu => hq u (by simp [hu]),
      admits_putAt_of_incomparable (hq t (by simp))]

/-- A later write at a patched path replaces the value patched there. -/
theorem putAt_patch [DecidableEq S] (hT : T.Pairwise Incomparable) {t : List S} (ht : t ∈ T)
    {o z : Option N} {g : List S → Option N} (ha : Admits (patch o T g) t z) :
    putAt (patch o T g) t z = patch o T (Function.update g t z) := by
  induction T generalizing o with
  | nil => simp at ht
  | cons u T ih =>
    obtain ⟨hu,hT⟩ := List.pairwise_cons.mp hT
    by_cases hut : u = t
    · subst hut
      have hT' : ∀ r ∈ T, Incomparable r u := fun r hr => (hu r hr).symm
      have hne : ∀ r ∈ T, r ≠ u := fun r hr e => (hu r hr).1 (e ▸ List.prefix_rfl)
      rw [patch_cons, admits_patch hT', admits_putAt_self] at ha
      rw [patch_cons, patch_cons, putAt_patch_comm hT', putAt_putAt_self _ ha,
        Function.update_self]
      exact patch_congr fun r hr => (Function.update_of_ne (hne r hr) _ _).symm
    · have ht' : t ∈ T := by simpa [Ne.symm hut] using ht
      rw [patch_cons, patch_cons, ih hT ht' ha, Function.update_of_ne hut]

/-- The result of edits inside a footprint is the original structure patched
with the final contents of the footprint. -/
theorem Edited.eq_patch (hT : T.Pairwise Incomparable) {a b : Option N} (h : Edited T a b) :
    b = patch a T (getAt b) := by
  classical
  induction h with
  | refl => rw [patch_self]
  | @edit o p x _ ht ha ih =>
    obtain ⟨t,htT,q,rfl⟩ := ht
    have hl : Admits o t (putAt (getAt o t) q x) := ha.localize
    rw [putAt_append]
    generalize putAt (getAt o t) q x = z at hl
    have hself : getAt (putAt o t z) t = z := getAt_putAt_self hl
    have hother : ∀ r ∈ T, r ≠ t → getAt (putAt o t z) r = getAt o r := fun r hr hrt => by
      refine getAt_putAt_of_incomparable ?_ o z
      exact hT.forall htT hr (Ne.symm hrt)
    conv_lhs => rw [ih]
    rw [ih] at hl
    rw [putAt_patch hT htT hl]
    refine patch_congr fun r hr => ?_
    by_cases hrt : r = t
    · subst hrt
      rw [Function.update_self, hself]
    · rw [Function.update_of_ne hrt, hother r hr hrt]

/-- Two edit sequences over one footprint that leave related contents there
have related results, for any relation that edits respect. -/
theorem Edited.rel {R : Option N → Option N → Prop} (hrefl : ∀ o, R o o)
    (hput : ∀ {o o' x x' : Option N} (p : List S), R o o' → R x x' → R (putAt o p x) (putAt o' p x'))
    (hT : T.Pairwise Incomparable) {a b c : Option N} (hb : Edited T a b) (hc : Edited T a c)
    (h : ∀ t ∈ T, R (getAt b t) (getAt c t)) : R b c := by
  rw [hb.eq_patch hT, hc.eq_patch hT]
  have key : ∀ (T : List (List S)) (o o' : Option N), R o o' →
      (∀ t ∈ T, R (getAt b t) (getAt c t)) → R (patch o T (getAt b)) (patch o' T (getAt c)) := by
    intro T
    induction T with
    | nil => exact fun _ _ ho _ => ho
    | cons t T ih =>
      exact fun o o' ho ht => ih _ _ (hput t ho (ht t (by simp))) fun u hu => ht u (by simp [hu])
  exact key T a a (hrefl a) h

end PhenixConductor.Collections.Branching

/-! ## Local edits

A local edit transforms the content of one path, where it can. A list of local
edits, seen from a node, is the list of its edits at or below the node. A list of
edits over a footprint goes through when it does so at every path by itself.
-/
namespace PhenixConductor.Collections.Branching
variable {N S : Type}

/-- A partial transformation of the content of a path. -/
structure Edit (N S : Type) where
  path : List S
  act : Option N → Option (Option N)

namespace Edit

/-- The edit seen from the node at `p`, if it lies there or below. -/
def rebase [DecidableEq S] (p : List S) (e : Edit N S) : Option (Edit N S) :=
  if p <+: e.path then some ⟨e.path.drop p.length,e.act⟩ else none

theorem rebase_append [DecidableEq S] (p r : List S) (act : Option N → Option (Option N)) :
    rebase p ⟨p ++ r,act⟩ = some ⟨r,act⟩ := by
  simp [rebase]

theorem rebase_self [DecidableEq S] (e : Edit N S) : rebase e.path e = some ⟨[],e.act⟩ := by
  simp [rebase]

theorem rebase_of_incomparable [DecidableEq S] {p : List S} {e : Edit N S}
    (h : Incomparable p e.path) : rebase p e = none :=
  if_neg h.1

variable [Branching N S]

/-- The edit takes `o` to `o'`. -/
def Takes (e : Edit N S) (o o' : Option N) : Prop :=
  ∃ x, e.act (getAt o e.path) = some x ∧ Admits o e.path x ∧ o' = putAt o e.path x

/-- The edits of the list take `o` to `o'`, one after the other. -/
inductive TakesAll : List (Edit N S) → Option N → Option N → Prop
  | nil (o : Option N) : TakesAll [] o o
  | cons {e : Edit N S} {es : List (Edit N S)} {o o' o'' : Option N} : e.Takes o o' →
      TakesAll es o' o'' → TakesAll (e :: es) o o''

variable {o : Option N}

theorem Takes.unique {e : Edit N S} {a b : Option N} (ha : e.Takes o a) (hb : e.Takes o b) :
    a = b := by
  obtain ⟨x,hx,-,rfl⟩ := ha
  obtain ⟨y,hy,-,rfl⟩ := hb
  cases hx.symm.trans hy
  rfl

variable {es : List (Edit N S)}

theorem TakesAll.unique {a b : Option N} (ha : TakesAll es o a) (hb : TakesAll es o b) : a = b := by
  induction ha with
  | nil o =>
    cases hb
    rfl
  | cons he _ ih =>
    cases hb with
    | cons he' hs' =>
      cases he.unique he'
      exact ih hs'

theorem TakesAll.append {fs : List (Edit N S)} {a b c : Option N} (h : TakesAll es a b)
    (h' : TakesAll fs b c) : TakesAll (es ++ fs) a c := by
  induction h with
  | nil => exact h'
  | cons he _ ih => exact .cons he (ih h')

theorem Takes.getAt_append {p r : List S} {act : Option N → Option (Option N)} {o' : Option N}
    (h : Takes ⟨p ++ r,act⟩ o o') : Takes ⟨r,act⟩ (getAt o p) (getAt o' p) := by
  obtain ⟨x,hx,ha,rfl⟩ := h
  refine ⟨x,?_,?_,getAt_putAt_append ha⟩
  · rw [← Branching.getAt_append]
    exact hx
  · by_cases hr : r = []
    · simp [hr]
    · exact (admits_append hr _ _ _).mp ha

theorem Takes.getAt_of_incomparable {e : Edit N S} {p : List S} {o' : Option N} (h : e.Takes o o')
    (hp : Incomparable p e.path) : getAt o' p = getAt o p := by
  obtain ⟨x,-,-,rfl⟩ := h
  exact Branching.getAt_putAt_of_incomparable hp.symm o x

/-- From a node that no edit lies strictly above, the list is its edits at or below it. -/
theorem TakesAll.localize [DecidableEq S] {o' : Option N} (h : TakesAll es o o') {p : List S}
    (hp : ∀ e ∈ es, p <+: e.path ∨ Incomparable p e.path) :
    TakesAll (es.filterMap (rebase p)) (getAt o p) (getAt o' p) := by
  induction h with
  | nil o => exact .nil _
  | @cons e es a b c he _ ih =>
    have ih := ih fun e he => hp e (by simp [he])
    rcases hp e (by simp) with ⟨r,hr⟩ | hinc
    · obtain ⟨path,act⟩ := e
      obtain rfl : p ++ r = path := hr
      rw [List.filterMap_cons_some (rebase_append p r act)]
      exact .cons he.getAt_append ih
    · rw [List.filterMap_cons_none (rebase_of_incomparable hinc), ← he.getAt_of_incomparable hinc]
      exact ih

/-- Edits that all leave a path alone do so together. -/
theorem TakesAll.getAt_eq {o' : Option N} (h : TakesAll es o o') {p : List S}
    (hp : ∀ e ∈ es, ∀ a b, e.Takes a b → getAt b p = getAt a p) : getAt o' p = getAt o p := by
  induction h with
  | nil o => rfl
  | @cons e es a b c he _ ih =>
    rw [ih fun f hf => hp f (by simp [hf]), hp e (by simp) a b he]

/-- Edits over a footprint keep to the footprint. -/
theorem TakesAll.edited {o' : Option N} (h : TakesAll es o o') {T : List (List S)}
    (hT : ∀ e ∈ es, e.path ∈ T) : Edited T o o' := by
  induction h with
  | nil o => exact .refl
  | @cons e es a b c he _ ih =>
    obtain ⟨x,-,ha,rfl⟩ := he
    have hhead : Edited T a (putAt a e.path x) :=
      .edit .refl ⟨e.path,hT e (by simp),List.prefix_rfl⟩ ha
    exact hhead.trans (ih fun e he => hT e (by simp [he]))

/-- Edits over a footprint go through if they do at every path of it. -/
theorem exists_takesAll [DecidableEq S] {T : List (List S)} (hT : T.Pairwise Incomparable)
    (hes : ∀ e ∈ es, e.path ∈ T) (ha : ∀ e ∈ es, ∀ a x, e.act a = some x → Admits o e.path x)
    (hlocal : ∀ p ∈ T, ∃ z, TakesAll (es.filterMap (rebase p)) (getAt o p) z) :
    ∃ o', TakesAll es o o' := by
  induction es generalizing o with
  | nil => exact ⟨o,.nil o⟩
  | cons e es ih =>
    have hp : e.path ∈ T := hes e (by simp)
    have hcmp : ∀ q ∈ T, q ≠ e.path → Incomparable q e.path := fun q hq hne =>
      hT.forall hq hp hne
    obtain ⟨z,hz⟩ := hlocal e.path hp
    rw [List.filterMap_cons_some (rebase_self e)] at hz
    cases hz with
    | cons hhead htail =>
      obtain ⟨x,hx,-,he⟩ := hhead
      rw [he] at htail
      have hadm : Admits o e.path x := ha e (by simp) _ x hx
      have hrest : ∃ o', TakesAll es (putAt o e.path x) o' := by
        refine ih (fun f hf => hes f (by simp [hf])) ?_ ?_
        · intro f hf a y hy
          have hay := ha f (by simp [hf]) a y hy
          by_cases hfe : f.path = e.path
          · rw [hfe] at hay ⊢
            exact (admits_putAt_self _ _ _ _).mpr hay
          · have hinc := (hcmp f.path (hes f (by simp [hf])) hfe).symm
            exact (admits_putAt_of_incomparable hinc _ _ _).mpr hay
        · intro q hq
          by_cases hqe : q = e.path
          · subst hqe
            rw [getAt_putAt_self hadm]
            exact ⟨z,htail⟩
          · have hinc := hcmp q hq hqe
            have hq' := hlocal q hq
            rw [List.filterMap_cons_none (rebase_of_incomparable hinc)] at hq'
            rw [getAt_putAt_of_incomparable hinc.symm]
            exact hq'
      obtain ⟨o',ho'⟩ := hrest
      exact ⟨o',.cons ⟨x,hx,hadm,rfl⟩ ho'⟩

end Edit
end PhenixConductor.Collections.Branching

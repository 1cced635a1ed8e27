import PhenixConductor.Configuration.Contribution

/-! # The precedence merge

The fold knows, for every namespace and version, the highest precedence so far and what the
contributions of that precedence agree on.
-/
namespace PhenixConductor.Configuration
open Collections Contract Component OrderDual List
variable {authorityCeiling : Authority}

/-- The fields that the attributions are compared by, as one key. -/
def attributionKey (attribution : ConfigContributionAttribution) :
    ConfigurationFrontendId ×ₗ String ×ₗ String ×ₗ List CapabilityId :=
  toLex (attribution.source.frontend,toLex (attribution.source.sourceIdentity,
    toLex (attribution.source.sourceRevision,attribution.requestedAuthority.capabilities.keys)))

/-- The fields that the contributions are compared by, as one key. -/
def contributionKey (contribution : ConfigContribution) :
    ConfigNamespace ×ₗ ℕ ×ₗ ℤᵒᵈ ×ₗ ConfigurationFrontendId ×ₗ String ×ₗ String ×ₗ
      List CapabilityId :=
  toLex (contribution.namespc,toLex (contribution.contractVersion,
    toLex (toDual contribution.precedence,attributionKey contribution.attribution)))

theorem compareAttributions_isLE (a b : ConfigContributionAttribution) :
    (compareAttributions a b).isLE = true ↔ attributionKey a ≤ attributionKey b := by
  unfold compareAttributions attributionKey
  rw [isLE_then_iff, isLE_then_iff, isLE_then_iff, Prod.Lex.toLex_le_toLex,
    Prod.Lex.toLex_le_toLex, Prod.Lex.toLex_le_toLex]
  rw [isLE_compare_list_iff]

theorem compareContributions_isLE (a b : ConfigContribution) :
    (compareContributions a b).isLE = true ↔ contributionKey a ≤ contributionKey b := by
  unfold compareContributions contributionKey
  rw [isLE_then_iff, isLE_then_iff, isLE_then_iff, Prod.Lex.toLex_le_toLex,
    Prod.Lex.toLex_le_toLex, Prod.Lex.toLex_le_toLex, toDual_lt_toDual, toDual_inj,
    compareAttributions_isLE, eq_comm (a := b.precedence)]

theorem attributionKey_injective : Function.Injective attributionKey := by
  rintro ⟨⟨frontend,identity,revision⟩,authority⟩ ⟨⟨frontend',identity',revision'⟩,authority'⟩ h
  simp only [attributionKey, EmbeddingLike.apply_eq_iff_eq, Prod.mk.injEq] at h
  obtain ⟨rfl,rfl,rfl,hkeys⟩ := h
  rw [Authority.ext_keys hkeys]

def ResolvedConfigContribution.key (entry : ResolvedConfigContribution) : ConfigNamespace ×ₗ ℕ :=
  toLex (entry.namespc,entry.contractVersion)

/-- The contributions of the highest precedence for their namespace and version. -/
def Maximal (contributions : List ConfigContribution) (c : ConfigContribution) : Prop :=
  c ∈ contributions ∧ ∀ d ∈ contributions, d.key = c.key → d.precedence ≤ c.precedence

/-- The same value and the same granted authority. -/
def Agree (authorityCeiling : Authority) (c d : ConfigContribution) : Prop :=
  c.value.partialEq d.value = true ∧
    authorityCeiling.attenuate c.requestedAuthority = authorityCeiling.attenuate d.requestedAuthority

/-- What an entry says about the contributions that were folded into it. -/
structure Merged (authorityCeiling : Authority) (contributions : List ConfigContribution)
    (key : ConfigNamespace ×ₗ ℕ) (precedence : ℤ) (entry : ResolvedConfigContribution) : Prop where
  named : entry.key = key
  attained : ∃ c ∈ contributions, c.key = key ∧ c.precedence = precedence
  highest : ∀ c ∈ contributions, c.key = key → c.precedence ≤ precedence
  agrees : ∀ c ∈ contributions, c.key = key → c.precedence = precedence →
    entry.value.partialEq c.value = true ∧
      entry.grantedAuthority = authorityCeiling.attenuate c.requestedAuthority
  sorted : entry.attributions.Pairwise fun a b => attributionKey a < attributionKey b
  attributed : ∀ a, a ∈ entry.attributions ↔
    ∃ c ∈ contributions, c.key = key ∧ c.precedence = precedence ∧ c.attribution = a

/-- A map with one merged entry for each namespace and version that occurs. -/
def Merges (authorityCeiling : Authority) (contributions : List ConfigContribution)
    (resolved : Resolving) : Prop :=
  ∀ key, match resolved.get? key with
    | none => ∀ c ∈ contributions, c.key ≠ key
    | some (precedence,entry) => Merged authorityCeiling contributions key precedence entry

theorem Merged.candidate (c : ConfigContribution) (hc : c.value.partialEq c.value = true)
    {contributions : List ConfigContribution}
    (h : ∀ d ∈ contributions, d.key = c.key → d.precedence < c.precedence) :
    Merged authorityCeiling (contributions ++ [c]) c.key c.precedence
      (c.candidate authorityCeiling) := by
  have honly : ∀ d ∈ contributions ++ [c], d.key = c.key → d.precedence = c.precedence → d = c := by
    intro d hd hkey hprecedence
    rcases mem_append.mp hd with hd | hd
    · exact absurd hprecedence (h d hd hkey).ne
    · exact mem_singleton.mp hd
  constructor
  · rfl
  · exact ⟨c,by simp,rfl,rfl⟩
  · intro d hd hkey
    rcases mem_append.mp hd with hd | hd
    · exact (h d hd hkey).le
    · rw [mem_singleton.mp hd]
  · intro d hd hkey hprecedence
    rw [honly d hd hkey hprecedence]
    exact ⟨hc,rfl⟩
  · exact pairwise_singleton _ _
  · intro a
    rw [ConfigContribution.candidate, mem_singleton]
    constructor
    · rintro rfl
      exact ⟨c,by simp,rfl,rfl,rfl⟩
    · rintro ⟨d,hd,hkey,hprecedence,rfl⟩
      rw [honly d hd hkey hprecedence]

/-- An attribution is put in its place, once. -/
theorem addAttribution_attributions {entry : ResolvedConfigContribution}
    (attribution : ConfigContributionAttribution)
    (h : entry.attributions.Pairwise fun a b => attributionKey a < attributionKey b) :
    ((addAttribution entry attribution).attributions.Pairwise
      fun a b => attributionKey a < attributionKey b) ∧
    ∀ a, a ∈ (addAttribution entry attribution).attributions ↔
      a ∈ entry.attributions ∨ a = attribution := by
  unfold addAttribution
  split_ifs with hmem
  · refine ⟨h,fun a => ⟨.inl,?_⟩⟩
    rintro (ha | rfl)
    · exact ha
    · exact hmem
  · dsimp only
    rw [insertionSort_eq_sortByKey compareAttributions_isLE]
    constructor
    · apply sortByKey_strict
      rw [map_append, nodup_append]
      refine ⟨List.Pairwise.map _ (fun _ _ => ne_of_lt) h,by simp,?_⟩
      intro k hk k' hk'
      obtain ⟨a,ha,rfl⟩ := mem_map.mp hk
      obtain rfl : k' = attributionKey attribution := by simpa using hk'
      intro hsame
      exact hmem (attributionKey_injective hsame ▸ ha)
    · intro a
      rw [(sortByKey_perm _ _).mem_iff, mem_append, mem_singleton]

section Step
variable {contributions : List ConfigContribution} {key : ConfigNamespace ×ₗ ℕ} {precedence : ℤ}
  {entry : ResolvedConfigContribution} {c : ConfigContribution}

/-- A contribution to another entry, or of a lower precedence, changes nothing. -/
theorem Merged.keep (h : Merged authorityCeiling contributions key precedence entry)
    (hc : c.key = key → c.precedence < precedence) :
    Merged authorityCeiling (contributions ++ [c]) key precedence entry := by
  have hold : ∀ d ∈ contributions ++ [c], d.key = key → d.precedence = precedence →
      d ∈ contributions := by
    intro d hd hkey hprecedence
    rcases mem_append.mp hd with hd | hd
    · exact hd
    · rw [mem_singleton.mp hd] at hkey hprecedence
      exact absurd hprecedence (hc hkey).ne
  constructor
  · exact h.named
  · obtain ⟨d,hd,hsame⟩ := h.attained
    exact ⟨d,by simp [hd],hsame⟩
  · intro d hd hkey
    rcases mem_append.mp hd with hd | hd
    · exact h.highest d hd hkey
    · rw [mem_singleton.mp hd] at hkey ⊢
      exact (hc hkey).le
  · exact fun d hd hkey hprecedence =>
      h.agrees d (hold d hd hkey hprecedence) hkey hprecedence
  · exact h.sorted
  · intro a
    rw [h.attributed]
    constructor
    · rintro ⟨d,hd,hsame⟩
      exact ⟨d,by simp [hd],hsame⟩
    · rintro ⟨d,hd,hkey,hprecedence,ha⟩
      exact ⟨d,hold d hd hkey hprecedence,hkey,hprecedence,ha⟩

/-- A contribution of the highest precedence that agrees is attributed. -/
theorem Merged.join (h : Merged authorityCeiling contributions c.key c.precedence entry)
    (hvalue : entry.value.partialEq c.value = true)
    (hauthority : entry.grantedAuthority = authorityCeiling.attenuate c.requestedAuthority) :
    Merged authorityCeiling (contributions ++ [c]) c.key c.precedence
      (addAttribution entry c.attribution) := by
  have hsame : (addAttribution entry c.attribution).key = entry.key ∧
      (addAttribution entry c.attribution).value = entry.value ∧
      (addAttribution entry c.attribution).grantedAuthority = entry.grantedAuthority := by
    unfold addAttribution
    split_ifs <;> exact ⟨rfl,rfl,rfl⟩
  obtain ⟨hnamed,hvalue',hauthority'⟩ := hsame
  obtain ⟨hsorted,hmem⟩ := addAttribution_attributions c.attribution h.sorted
  constructor
  · rw [hnamed, h.named]
  · exact ⟨c,by simp,rfl,rfl⟩
  · intro d hd hkey
    rcases mem_append.mp hd with hd | hd
    · exact h.highest d hd hkey
    · rw [mem_singleton.mp hd]
  · intro d hd hkey hprecedence
    rw [hvalue', hauthority']
    rcases mem_append.mp hd with hd | hd
    · exact h.agrees d hd hkey hprecedence
    · rw [mem_singleton.mp hd]
      exact ⟨hvalue,hauthority⟩
  · exact hsorted
  · intro a
    rw [hmem, h.attributed]
    simp only [mem_append, mem_singleton]
    constructor
    · rintro (⟨d,hd,hrest⟩ | rfl)
      · exact ⟨d,.inl hd,hrest⟩
      · exact ⟨c,.inr rfl,rfl,rfl,rfl⟩
    · rintro ⟨d,hd | rfl,hkey,hprecedence,rfl⟩
      · exact .inl ⟨d,hd,hkey,hprecedence,rfl⟩
      · exact .inr rfl

/-- Writing one entry of a map whose other entries are kept. -/
theorem Merges.insert {resolved : Resolving} (h : Merges authorityCeiling contributions resolved)
    (hentry : Merged authorityCeiling (contributions ++ [c]) c.key precedence entry) :
    Merges authorityCeiling (contributions ++ [c]) (resolved.insert c.key (precedence,entry)) := by
  intro key
  rw [BTreeMap.get?_insert]
  by_cases hkey : key = c.key
  · rw [if_pos hkey, hkey]
    exact hentry
  · rw [if_neg hkey]
    have hold := h key
    cases hget : resolved.get? key with
    | none =>
      rw [hget] at hold
      intro d hd
      rcases mem_append.mp hd with hd | hd
      · exact hold d hd
      · rw [mem_singleton.mp hd]
        exact Ne.symm hkey
    | some found =>
      rw [hget] at hold
      exact Merged.keep hold fun hsame => absurd hsame.symm hkey

/-- What one turn of the fold does, or why it stops. -/
theorem mergeContribution_spec {resolved : Resolving}
    (h : Merges authorityCeiling contributions resolved) (hc : c.value.partialEq c.value = true) :
    match mergeContribution authorityCeiling resolved c with
    | .ok resolved' => Merges authorityCeiling (contributions ++ [c]) resolved'
    | .error _ => ∃ entry, Merged authorityCeiling contributions c.key c.precedence entry ∧
        ¬(entry.value.partialEq c.value = true ∧
          entry.grantedAuthority = authorityCeiling.attenuate c.requestedAuthority) := by
  have hentry := h c.key
  unfold mergeContribution
  cases hget : resolved.get? c.key with
  | none =>
    rw [hget] at hentry
    exact h.insert (.candidate c hc fun d hd hkey => absurd hkey (hentry d hd))
  | some found =>
    rcases found with ⟨current,existing⟩
    rw [hget] at hentry
    dsimp only
    split_ifs with hhigher hsame hconflict
    · exact h.insert (.candidate c hc fun d hd hkey => (hentry.highest d hd hkey).trans_lt hhigher)
    · subst hsame
      refine ⟨existing,hentry,?_⟩
      rw [Bool.or_eq_true, Bool.not_eq_true', decide_eq_true_eq] at hconflict
      rintro ⟨hvalue,hauthority⟩
      rcases hconflict with hconflict | hconflict
      · exact Bool.false_ne_true (hconflict.symm.trans hvalue)
      · exact hconflict hauthority
    · subst hsame
      rw [Bool.or_eq_true, Bool.not_eq_true', decide_eq_true_eq, not_or, Bool.not_eq_false,
        not_ne_iff] at hconflict
      exact h.insert (hentry.join hconflict.1 hconflict.2)
    · intro key
      have hold := h key
      cases hkey : resolved.get? key with
      | none =>
        rw [hkey] at hold
        intro d hd
        rcases mem_append.mp hd with hd | hd
        · exact hold d hd
        · rw [mem_singleton.mp hd]
          rintro rfl
          simp [hget] at hkey
      | some found =>
        rw [hkey] at hold
        refine Merged.keep hold fun hsame' => ?_
        subst hsame'
        rw [hget] at hkey
        cases hkey
        omega

end Step

end PhenixConductor.Configuration

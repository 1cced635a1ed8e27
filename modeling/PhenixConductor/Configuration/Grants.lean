import PhenixConductor.Configuration.Precedence

/-! # Grants under another ceiling

The ceiling decides what a contribution is granted and nothing else.
-/
namespace PhenixConductor.Configuration
open Collections Contract Component ResolvedConfigContributions ConfigContribution List
variable {authorityCeiling authorityCeiling' : Authority} {contributions : List ConfigContribution}

/-- What an entry says about the authority it was granted, whatever the values are. -/
structure Granted (authorityCeiling : Authority) (contributions : List ConfigContribution)
    (key : ConfigNamespace ×ₗ ℕ) (precedence : ℤ) (entry : ResolvedConfigContribution) : Prop where
  named : entry.key = key
  attained : ∃ c ∈ contributions, c.key = key ∧ c.precedence = precedence
  highest : ∀ c ∈ contributions, c.key = key → c.precedence ≤ precedence
  grants : ∀ c ∈ contributions, c.key = key → c.precedence = precedence →
    entry.grantedAuthority = authorityCeiling.attenuate c.requestedAuthority

def Grants (authorityCeiling : Authority) (contributions : List ConfigContribution)
    (resolved : Resolving) : Prop :=
  ∀ key, match resolved.get? key with
    | none => ∀ c ∈ contributions, c.key ≠ key
    | some (precedence,entry) => Granted authorityCeiling contributions key precedence entry

theorem grants_empty : Grants authorityCeiling [] .empty := by
  intro key
  simp

section Step
variable {c : ConfigContribution} {key : ConfigNamespace ×ₗ ℕ} {precedence : ℤ}
  {entry : ResolvedConfigContribution}

/-- A contribution to another entry, or of a lower precedence, changes nothing. -/
theorem Granted.keep (h : Granted authorityCeiling contributions key precedence entry)
    (hc : c.key = key → c.precedence < precedence) :
    Granted authorityCeiling (contributions ++ [c]) key precedence entry := by
  constructor
  · exact h.named
  · obtain ⟨d,hd,hsame⟩ := h.attained
    exact ⟨d,by simp [hd],hsame⟩
  · intro d hd hkey
    rcases mem_append.mp hd with hd | hd
    · exact h.highest d hd hkey
    · rw [mem_singleton.mp hd] at hkey ⊢
      exact (hc hkey).le
  · intro d hd hkey hprecedence
    rcases mem_append.mp hd with hd | hd
    · exact h.grants d hd hkey hprecedence
    · rw [mem_singleton.mp hd] at hkey hprecedence
      exact absurd hprecedence (hc hkey).ne

/-- The entry of the contribution that comes in. -/
theorem Granted.enter (hnamed : entry.key = c.key)
    (hbelow : ∀ d ∈ contributions, d.key = c.key → d.precedence ≤ c.precedence)
    (hold : ∀ d ∈ contributions, d.key = c.key → d.precedence = c.precedence →
      entry.grantedAuthority = authorityCeiling.attenuate d.requestedAuthority)
    (hnew : entry.grantedAuthority = authorityCeiling.attenuate c.requestedAuthority) :
    Granted authorityCeiling (contributions ++ [c]) c.key c.precedence entry := by
  constructor
  · exact hnamed
  · exact ⟨c,by simp,rfl,rfl⟩
  · intro d hd hkey
    rcases mem_append.mp hd with hd | hd
    · exact hbelow d hd hkey
    · rw [mem_singleton.mp hd]
  · intro d hd hkey hprecedence
    rcases mem_append.mp hd with hd | hd
    · exact hold d hd hkey hprecedence
    · rw [mem_singleton.mp hd]
      exact hnew

variable {resolved : Resolving}

theorem Grants.keep (h : Grants authorityCeiling contributions resolved)
    (hc : resolved.get? key = none → c.key ≠ key)
    (hlower : ∀ found, resolved.get? key = some found → c.key = key → c.precedence < found.1) :
    match resolved.get? key with
    | none => ∀ d ∈ contributions ++ [c], d.key ≠ key
    | some (precedence,entry) =>
      Granted authorityCeiling (contributions ++ [c]) key precedence entry := by
  have hold := h key
  cases hget : resolved.get? key with
  | none =>
    rw [hget] at hold
    intro d hd
    rcases mem_append.mp hd with hd | hd
    · exact hold d hd
    · rw [mem_singleton.mp hd]
      exact hc hget
  | some found =>
    rw [hget] at hold
    exact Granted.keep hold (hlower found hget)

theorem Grants.insert (h : Grants authorityCeiling contributions resolved)
    (hentry : Granted authorityCeiling (contributions ++ [c]) c.key c.precedence entry) :
    Grants authorityCeiling (contributions ++ [c]) (resolved.insert c.key (c.precedence,entry)) := by
  intro key
  rw [BTreeMap.get?_insert]
  by_cases hkey : key = c.key
  · rw [if_pos hkey, hkey]
    exact hentry
  · rw [if_neg hkey]
    exact h.keep (fun _ => Ne.symm hkey) fun _ _ hsame => absurd hsame.symm hkey

theorem grants_mergeContribution {resolved' : Resolving}
    (h : Grants authorityCeiling contributions resolved)
    (hmerge : mergeContribution authorityCeiling resolved c = .ok resolved') :
    Grants authorityCeiling (contributions ++ [c]) resolved' := by
  have hentry := h c.key
  unfold mergeContribution at hmerge
  cases hget : resolved.get? c.key with
  | none =>
    rw [hget] at hentry hmerge
    cases hmerge
    have hnone : ∀ d ∈ contributions, d.key = c.key → False := fun d hd => hentry d hd
    exact h.insert (.enter rfl (fun d hd hkey => (hnone d hd hkey).elim)
      (fun d hd hkey => (hnone d hd hkey).elim) rfl)
  | some found =>
    rcases found with ⟨current,existing⟩
    rw [hget] at hentry hmerge
    dsimp only at hmerge
    split_ifs at hmerge with hhigher hsame hconflict
    · cases hmerge
      refine h.insert (.enter rfl (fun d hd hkey => (hentry.highest d hd hkey).trans hhigher.le) ?_ rfl)
      intro d hd hkey hprecedence
      exact absurd hprecedence ((hentry.highest d hd hkey).trans_lt hhigher).ne
    · cases hmerge
      subst hsame
      have hfields : (addAttribution existing c.attribution).key = existing.key ∧
          (addAttribution existing c.attribution).grantedAuthority = existing.grantedAuthority := by
        unfold addAttribution
        split_ifs <;> exact ⟨rfl,rfl⟩
      rw [Bool.or_eq_true, Bool.not_eq_true', decide_eq_true_eq, not_or, not_ne_iff] at hconflict
      refine h.insert (.enter (hfields.1.trans hentry.named) hentry.highest ?_
        (hfields.2.trans hconflict.2))
      intro d hd hkey hprecedence
      exact hfields.2.trans (hentry.grants d hd hkey hprecedence)
    · cases hmerge
      intro key
      apply h.keep
      · rintro hnone rfl
        rw [hget] at hnone
        cases hnone
      · rintro found hfound rfl
        rw [hget] at hfound
        cases hfound
        omega

end Step

variable {first rest : List ConfigContribution} {resolved : Resolving}

/-- The fold grants what the ceiling allows. -/
theorem grants_foldlM {resolved' : Resolving} (h : Grants authorityCeiling first resolved)
    (hfold : rest.foldlM (mergeContribution authorityCeiling) resolved = .ok resolved') :
    Grants authorityCeiling (first ++ rest) resolved' := by
  induction rest generalizing first resolved with
  | nil =>
    cases hfold
    rwa [append_nil]
  | cons c rest ih =>
    rw [foldlM_cons, bind_eq_ok] at hfold
    obtain ⟨next,hnext,hfold⟩ := hfold
    have hrest := ih (grants_mergeContribution h hnext) hfold
    rwa [append_assoc, singleton_append] at hrest

/-- The ceilings grant the same to every contribution of the highest precedence. -/
def GrantsKept (contributions : List ConfigContribution)
    (authorityCeiling authorityCeiling' : Authority) : Prop :=
  ∀ c, Maximal contributions c →
    authorityCeiling.attenuate c.requestedAuthority = authorityCeiling'.attenuate c.requestedAuthority

/-- One turn of the fold over a ranked list does the same under both ceilings. -/
theorem mergeContribution_of_grantsKept {c : ConfigContribution}
    (hranked : Ranked (first ++ c :: rest))
    (hkept : GrantsKept (first ++ c :: rest) authorityCeiling authorityCeiling')
    (h : Grants authorityCeiling first resolved) :
    mergeContribution authorityCeiling resolved c = mergeContribution authorityCeiling' resolved c := by
  obtain ⟨-,hafter,hbetween⟩ := pairwise_append.mp hranked
  have hmaximal : (∀ d ∈ first, d.key = c.key → d.precedence ≤ c.precedence) →
      authorityCeiling.attenuate c.requestedAuthority =
        authorityCeiling'.attenuate c.requestedAuthority := by
    intro hfirst
    apply hkept c
    refine ⟨by simp,fun d hd hkey => ?_⟩
    rcases mem_append.mp hd with hd | hd
    · exact hfirst d hd hkey
    · rcases mem_cons.mp hd with rfl | hd
      · exact le_rfl
      · exact rel_of_pairwise_cons hafter hd hkey.symm
  have hentry := h c.key
  unfold mergeContribution
  cases hget : resolved.get? c.key with
  | none =>
    rw [hget] at hentry
    rw [candidate, candidate,
      hmaximal fun d hd hkey => absurd hkey (hentry d hd)]
  | some found =>
    rcases found with ⟨current,existing⟩
    rw [hget] at hentry
    dsimp only
    have hle : c.precedence ≤ current := by
      obtain ⟨d,hd,hkey,rfl⟩ := hentry.attained
      exact hbetween d hd c (by simp) hkey
    rw [if_neg (not_lt.mpr hle), if_neg (not_lt.mpr hle)]
    by_cases hsame : c.precedence = current
    · subst hsame
      rw [candidate, candidate, hmaximal hentry.highest]
    · rw [if_neg hsame, if_neg hsame]

theorem foldlM_of_grantsKept (hranked : Ranked (first ++ rest))
    (hkept : GrantsKept (first ++ rest) authorityCeiling authorityCeiling')
    (h : Grants authorityCeiling first resolved) :
    rest.foldlM (mergeContribution authorityCeiling) resolved =
      rest.foldlM (mergeContribution authorityCeiling') resolved := by
  induction rest generalizing first resolved with
  | nil => rfl
  | cons c rest ih =>
    rw [foldlM_cons, foldlM_cons, ← mergeContribution_of_grantsKept hranked hkept h]
    cases hnext : mergeContribution authorityCeiling resolved c with
    | error e => rfl
    | ok next =>
      have happend : first ++ c :: rest = first ++ [c] ++ rest := by simp
      rw [happend] at hranked hkept
      exact ih hranked hkept (grants_mergeContribution h hnext)

theorem tryResolve_of_grantsKept (h : GrantsKept contributions authorityCeiling authorityCeiling') :
    tryResolve contributions authorityCeiling =
      tryResolve contributions authorityCeiling' := by
  have hkept : GrantsKept ([] ++ sorted contributions) authorityCeiling authorityCeiling' :=
    fun c hc => h c (hc.of_mem_iff fun _ => mem_sorted)
  have hfold := foldlM_of_grantsKept (sorted_ranked contributions) hkept grants_empty
  rw [tryResolve_eq, tryResolve_eq, hfold]

/-- The names of the entries with what each was granted. -/
def grantedAuthorities (configuration : ResolvedConfigContributions) :
    List (ConfigNamespace × ℕ × Authority) :=
  configuration.entries.map fun entry =>
    (entry.namespc,entry.contractVersion,entry.grantedAuthority)

/-- A contribution of the highest precedence names an entry, which was granted what the
ceiling leaves of its request. -/
theorem mem_grantedAuthorities {r : ResolvedConfigContributions}
    (hr : tryResolve contributions authorityCeiling = .ok r)
    {c : ConfigContribution} (hc : Maximal contributions c) (granted : Authority) :
    (c.namespc,c.contractVersion,granted) ∈ grantedAuthorities r ↔
      granted = authorityCeiling.attenuate c.requestedAuthority := by
  obtain ⟨-,resolved,hfold,rfl⟩ := tryResolve_eq_ok.mp hr
  have hgrants := grants_foldlM grants_empty hfold
  have hmaximal : Maximal (sorted contributions) c := hc.of_mem_iff fun _ => mem_sorted.symm
  have hprecedence : ∀ precedence entry,
      Granted authorityCeiling (sorted contributions) c.key precedence entry →
        entry.grantedAuthority = authorityCeiling.attenuate c.requestedAuthority := by
    intro precedence entry hentry
    obtain ⟨d,hd,hkey,rfl⟩ := hentry.attained
    exact hentry.grants c hmaximal.1 rfl
      (le_antisymm (hentry.highest c hmaximal.1 rfl) (hmaximal.2 d hd hkey))
  simp only [grantedAuthorities, mem_map, BTreeMap.mem_values]
  constructor
  · rintro ⟨entry,⟨found,⟨key,hget⟩,rfl⟩,hsame⟩
    have hentry := hgrants key
    rw [hget] at hentry
    obtain ⟨hnamespace,hversion,rfl⟩ := by simpa using hsame
    have hkey : key = c.key := by
      rw [← Granted.named hentry, ResolvedConfigContribution.key, ConfigContribution.key, hnamespace,
        hversion]
    subst hkey
    exact hprecedence _ _ hentry
  · rintro rfl
    have hentry := hgrants c.key
    cases hget : resolved.get? c.key with
    | none =>
      rw [hget] at hentry
      exact absurd rfl (hentry c hmaximal.1)
    | some found =>
      rw [hget] at hentry
      refine ⟨found.2,⟨found,⟨c.key,hget⟩,rfl⟩,?_⟩
      have hnamed := Granted.named hentry
      simp only [ResolvedConfigContribution.key, ConfigContribution.key, EmbeddingLike.apply_eq_iff_eq,
        Prod.mk.injEq] at hnamed
      rw [hnamed.1, hnamed.2, hprecedence _ _ hentry]

/-- Under another ceiling the contributions resolve with the same grants exactly when it
keeps the grants of the contributions of the highest precedence. -/
theorem grantsKept_iff {r' : ResolvedConfigContributions}
    (hr' : tryResolve contributions authorityCeiling' = .ok r') :
    GrantsKept contributions authorityCeiling authorityCeiling' ↔
      ∃ r, tryResolve contributions authorityCeiling = .ok r ∧
        grantedAuthorities r = grantedAuthorities r' := by
  constructor
  · intro h
    exact ⟨r',(tryResolve_of_grantsKept h).trans hr',rfl⟩
  · rintro ⟨r,hr,hsame⟩ c hc
    rw [← mem_grantedAuthorities hr' hc, ← hsame, mem_grantedAuthorities hr hc]

end PhenixConductor.Configuration

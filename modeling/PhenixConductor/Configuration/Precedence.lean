import PhenixConductor.Configuration.Merge

/-! # Precedence and order

Whether contributions can be resolved, and to what, is decided by the contributions of the
highest precedence for each namespace and version.
-/
namespace PhenixConductor.Configuration
open Collections Contract Component OrderDual ResolvedConfigContributions Authority List
variable {authorityCeiling : Authority} {contributions : List ConfigContribution}

/-- Two contributions to one entry stand with the higher precedence first. -/
def Ranked (contributions : List ConfigContribution) : Prop :=
  contributions.Pairwise fun a b => a.key = b.key → b.precedence ≤ a.precedence

/-- The contributions in the order of `sort_by`. -/
def sorted (contributions : List ConfigContribution) : List ConfigContribution :=
  sortByKey contributionKey contributions

theorem precedence_le_of_key {a b : ConfigContribution} (h : contributionKey a ≤ contributionKey b)
    (hkey : a.key = b.key) : b.precedence ≤ a.precedence := by
  simp only [ConfigContribution.key, EmbeddingLike.apply_eq_iff_eq, Prod.mk.injEq] at hkey
  obtain ⟨hnamespace,hversion⟩ := hkey
  simp only [contributionKey, Prod.Lex.toLex_le_toLex, hnamespace, hversion, lt_irrefl, true_and,
    false_or, toDual_lt_toDual, toDual_inj] at h
  rcases h with h | h
  · exact h.le
  · exact h.1.ge

theorem sorted_ranked (contributions : List ConfigContribution) : Ranked (sorted contributions) :=
  (sortByKey_pairwise contributionKey contributions).imp fun h hkey => precedence_le_of_key h hkey

variable {c : ConfigContribution}

theorem mem_sorted : c ∈ sorted contributions ↔ c ∈ contributions :=
  (sortByKey_perm contributionKey contributions).mem_iff

variable {resolved : Resolving}

/-- The fold over the rest of a list, or where it stops. -/
theorem foldlM_mergeContribution {first rest : List ConfigContribution}
    (h : Merges authorityCeiling first resolved)
    (hvalues : ∀ c ∈ rest, c.value.partialEq c.value = true) :
    match rest.foldlM (mergeContribution authorityCeiling) resolved with
    | .ok resolved' => Merges authorityCeiling (first ++ rest) resolved'
    | .error _ => ∃ before c after entry, rest = before ++ c :: after ∧
        Merged authorityCeiling (first ++ before) c.key c.precedence entry ∧
        ¬(entry.value.partialEq c.value = true ∧
          entry.grantedAuthority = authorityCeiling.attenuate c.requestedAuthority) := by
  induction rest generalizing first resolved with
  | nil =>
    rw [append_nil]
    exact h
  | cons c rest ih =>
    have hstep := mergeContribution_spec h (hvalues c (by simp))
    rw [foldlM_cons]
    cases hc : mergeContribution authorityCeiling resolved c with
    | error e =>
      rw [hc] at hstep
      obtain ⟨entry,hentry⟩ := hstep
      exact ⟨[],c,rest,entry,rfl,by simpa using hentry⟩
    | ok next =>
      rw [hc] at hstep
      have hrest := ih hstep fun d hd => hvalues d (by simp [hd])
      rw [ok_bind]
      cases hfold : rest.foldlM (mergeContribution authorityCeiling) next with
      | ok last =>
        rw [hfold] at hrest
        simpa using hrest
      | error e =>
        rw [hfold] at hrest
        obtain ⟨before,d,after,entry,hsplit,hentry⟩ := hrest
        exact ⟨c :: before,d,after,entry,by rw [hsplit, cons_append],by simpa using hentry⟩

variable {entry : ResolvedConfigContribution}

theorem Merged.precedence_eq {key : ConfigNamespace ×ₗ ℕ} {precedence : ℤ}
    (h : Merged authorityCeiling contributions key precedence entry) (hc : Maximal contributions c)
    (hkey : c.key = key) : c.precedence = precedence := by
  obtain ⟨d,hd,hkey',rfl⟩ := h.attained
  exact le_antisymm (h.highest c hc.1 hkey) (hc.2 d hd (hkey'.trans hkey.symm))

/-- A merged entry is one that its maximal contributions agree on. -/
theorem Merges.agree (h : Merges authorityCeiling contributions resolved) {d : ConfigContribution}
    (hc : Maximal contributions c) (hd : Maximal contributions d) (hkey : c.key = d.key) :
    Agree authorityCeiling c d := by
  have hentry := h c.key
  cases hget : resolved.get? c.key with
  | none =>
    rw [hget] at hentry
    exact absurd rfl (hentry c hc.1)
  | some found =>
    rw [hget] at hentry
    obtain ⟨hvalue,hauthority⟩ := hentry.agrees c hc.1 rfl (hentry.precedence_eq hc rfl)
    obtain ⟨hvalue',hauthority'⟩ :=
      hentry.agrees d hd.1 hkey.symm (hentry.precedence_eq hd hkey.symm)
    exact ⟨PhenixValue.partialEq_trans (PhenixValue.partialEq_symm hvalue) hvalue',
      hauthority.symm.trans hauthority'⟩

variable {before after : List ConfigContribution}

/-- Where the fold over a ranked list stops, two maximal contributions disagree. -/
theorem exists_disagreement (hranked : Ranked (before ++ c :: after))
    (hentry : Merged authorityCeiling before c.key c.precedence entry)
    (hconflict : ¬(entry.value.partialEq c.value = true ∧ entry.grantedAuthority = authorityCeiling.attenuate c.requestedAuthority)) :
    ∃ d, Maximal (before ++ c :: after) d ∧ Maximal (before ++ c :: after) c ∧ d.key = c.key ∧
      ¬Agree authorityCeiling d c := by
  obtain ⟨d,hd,hkey,hprecedence⟩ := hentry.attained
  have hlater := (pairwise_append.mp hranked).2.2
  have hbound : ∀ e ∈ before ++ c :: after, e.key = c.key → e.precedence ≤ c.precedence := by
    intro e he hsame
    rcases mem_append.mp he with he | he
    · exact hentry.highest e he hsame
    · rw [← hprecedence]
      exact hlater d hd e he (hkey.trans hsame.symm)
  refine ⟨d,⟨by simp [hd],fun e he hsame => ?_⟩,⟨by simp,hbound⟩,hkey,?_⟩
  · rw [hprecedence]
    exact hbound e he (hsame.trans hkey)
  · rintro ⟨hvalue,hauthority⟩
    obtain ⟨hvalue',hauthority'⟩ := hentry.agrees d hd hkey hprecedence
    exact hconflict ⟨PhenixValue.partialEq_trans hvalue' hvalue,hauthority'.trans hauthority⟩

theorem merges_empty : Merges authorityCeiling [] .empty := by
  intro key
  simp

variable {contributions' : List ConfigContribution}

theorem Merges.of_mem_iff (h : Merges authorityCeiling contributions resolved)
    (hmem : ∀ c, c ∈ contributions ↔ c ∈ contributions') :
    Merges authorityCeiling contributions' resolved := by
  intro key
  have hentry := h key
  cases hget : resolved.get? key with
  | none =>
    rw [hget] at hentry
    exact fun c hc => hentry c ((hmem c).mpr hc)
  | some found =>
    rw [hget] at hentry
    obtain ⟨hnamed,hattained,hhighest,hagrees,hsorted,hattributed⟩ := hentry
    simp only [hmem] at hattained hhighest hagrees hattributed
    exact ⟨hnamed,hattained,hhighest,hagrees,hsorted,hattributed⟩

theorem tryResolve_eq (contributions : List ConfigContribution) (authorityCeiling : Authority) :
    tryResolve contributions authorityCeiling = (do
      contributions.forM ConfigContribution.validate
      let resolved ← (sorted contributions).foldlM (mergeContribution authorityCeiling) .empty
      .ok ⟨resolved.values.map (·.2)⟩) := by
  rw [tryResolve,
    insertionSort_eq_sortByKey compareContributions_isLE]
  rfl

variable {r : ResolvedConfigContributions}

/-- What a resolution is made of. -/
theorem tryResolve_eq_ok :
    tryResolve contributions authorityCeiling = .ok r ↔
      (∀ c ∈ contributions, c.validate = .ok ()) ∧ ∃ resolved,
        (sorted contributions).foldlM (mergeContribution authorityCeiling) .empty = .ok resolved ∧
          r = ⟨resolved.values.map (·.2)⟩ := by
  rw [tryResolve_eq, seq_eq_ok, forM_eq_ok, bind_eq_ok]
  simp only [Except.ok.injEq, eq_comm]

theorem Maximal.of_mem_iff (h : Maximal contributions c)
    (hmem : ∀ c, c ∈ contributions ↔ c ∈ contributions') : Maximal contributions' c :=
  ⟨(hmem c).mp h.1,fun d hd => h.2 d ((hmem d).mpr hd)⟩

/-- Every contribution is valid, and the maximal ones agree. -/
def Mergeable (authorityCeiling : Authority) (contributions : List ConfigContribution) : Prop :=
  (∀ c ∈ contributions, c.validate = .ok ()) ∧
    ∀ c d, Maximal contributions c → Maximal contributions d → c.key = d.key →
      Agree authorityCeiling c d

/-- A resolution merges what was given. -/
theorem merges_of_tryResolve (hvalues : ∀ c ∈ contributions, c.value.partialEq c.value = true)
    (h : tryResolve contributions authorityCeiling = .ok r) :
    ∃ resolved, Merges authorityCeiling contributions resolved ∧
      r = ⟨resolved.values.map (·.2)⟩ := by
  obtain ⟨-,resolved,hfold,hr⟩ := tryResolve_eq_ok.mp h
  have hempty : Merges authorityCeiling [] .empty := merges_empty
  have hmerges := foldlM_mergeContribution hempty
    fun c hc => hvalues c (mem_sorted.mp hc)
  rw [hfold] at hmerges
  exact ⟨resolved,hmerges.of_mem_iff fun c => mem_sorted,hr⟩

/-- The contributions that can be resolved, whatever their order. -/
theorem exists_tryResolve_iff (hvalues : ∀ c ∈ contributions, c.value.partialEq c.value = true) :
    (∃ r, tryResolve contributions authorityCeiling = .ok r) ↔
      Mergeable authorityCeiling contributions := by
  constructor
  · rintro ⟨r,hr⟩
    obtain ⟨resolved,hmerges,-⟩ := merges_of_tryResolve hvalues hr
    exact ⟨(tryResolve_eq_ok.mp hr).1,fun c d hc hd => hmerges.agree hc hd⟩
  · rintro ⟨hvalid,hagree⟩
    have hempty : Merges authorityCeiling [] .empty := merges_empty
    have hmerges := foldlM_mergeContribution hempty
      fun c hc => hvalues c (mem_sorted.mp hc)
    cases hfold : (sorted contributions).foldlM (mergeContribution authorityCeiling) .empty with
    | ok resolved => exact ⟨_,tryResolve_eq_ok.mpr ⟨hvalid,resolved,hfold,rfl⟩⟩
    | error e =>
      rw [hfold] at hmerges
      obtain ⟨before,c,after,entry,hsplit,hentry,hconflict⟩ := hmerges
      have hranked := sorted_ranked contributions
      rw [hsplit] at hranked
      obtain ⟨d,hd,hc,hkey,hdisagree⟩ := exists_disagreement hranked hentry hconflict
      have hmem : ∀ e, e ∈ before ++ c :: after ↔ e ∈ contributions := fun e => by
        rw [← hsplit, mem_sorted]
      exact absurd (hagree d c (hd.of_mem_iff hmem) (hc.of_mem_iff hmem) hkey) hdisagree

theorem Mergeable.perm (h : Mergeable authorityCeiling contributions)
    (hperm : contributions.Perm contributions') : Mergeable authorityCeiling contributions' :=
  ⟨fun c hc => h.1 c (hperm.mem_iff.mpr hc),fun c d hc hd =>
    h.2 c d (hc.of_mem_iff fun _ => hperm.mem_iff.symm) (hd.of_mem_iff fun _ => hperm.mem_iff.symm)⟩

/-- Two entries merged from the same contributions are equal. -/
theorem Merged.unique {key : ConfigNamespace ×ₗ ℕ} {precedence precedence' : ℤ}
    {entry' : ResolvedConfigContribution}
    (h : Merged authorityCeiling contributions key precedence entry)
    (h' : Merged authorityCeiling contributions key precedence' entry') :
    entry.partialEq entry' = true := by
  obtain ⟨c,hc,hkey,rfl⟩ := h.attained
  obtain ⟨d,hd,hkey',rfl⟩ := h'.attained
  have hsame : c.precedence = d.precedence :=
    le_antisymm (h'.highest c hc hkey) (h.highest d hd hkey')
  obtain ⟨hvalue,hauthority⟩ := h.agrees c hc hkey rfl
  obtain ⟨hvalue',hauthority'⟩ := h'.agrees c hc hkey hsame
  have hnamed := h.named.trans h'.named.symm
  simp only [ResolvedConfigContribution.key, EmbeddingLike.apply_eq_iff_eq, Prod.mk.injEq] at hnamed
  have hattributions : entry.attributions = entry'.attributions := by
    refine List.Pairwise.eq_of_mem_iff h.sorted h'.sorted fun a => ?_
    rw [h.attributed, h'.attributed, hsame]
  rw [ResolvedConfigContribution.partialEq, hnamed.1, hnamed.2, hattributions, hauthority, hauthority',
    PhenixValue.partialEq_trans hvalue (PhenixValue.partialEq_symm hvalue')]
  simp

theorem isEqv_of_forall₂ {α : Type} {eqv : α → α → Bool} {l l' : List α}
    (h : List.Forall₂ (fun a b => eqv a b = true) l l') : l.isEqv l' eqv = true := by
  induction h with
  | nil => rfl
  | cons hab _ ih => rw [isEqv_cons_cons, hab, ih]; rfl

/-- Two resolutions of the same contributions are equal. -/
theorem Merges.unique {resolved' : Resolving} (h : Merges authorityCeiling contributions resolved)
    (h' : Merges authorityCeiling contributions resolved') :
    partialEq ⟨resolved.values.map (·.2)⟩
      ⟨resolved'.values.map (·.2)⟩ = true := by
  apply isEqv_of_forall₂
  rw [forall₂_map_left_iff, forall₂_map_right_iff]
  apply BTreeMap.forall₂_values
  intro key
  have hentry := h key
  have hentry' := h' key
  cases hget : resolved.get? key with
  | none =>
    rw [hget] at hentry
    cases hget' : resolved'.get? key with
    | none => exact .none
    | some found =>
      rw [hget'] at hentry'
      obtain ⟨c,hc,hkey,-⟩ := Merged.attained hentry'
      exact absurd hkey (hentry c hc)
  | some found =>
    rw [hget] at hentry
    cases hget' : resolved'.get? key with
    | none =>
      rw [hget'] at hentry'
      obtain ⟨c,hc,hkey,-⟩ := Merged.attained hentry
      exact absurd hkey (hentry' c hc)
    | some found' =>
      rw [hget'] at hentry'
      exact .some (Merged.unique hentry hentry')

/-- A contribution below the highest precedence is passed over. -/
theorem mergeContribution_of_lower {first : List ConfigContribution}
    (h : Merges authorityCeiling first resolved) {d : ConfigContribution} (hd : d ∈ first)
    (hkey : d.key = c.key) (hlower : c.precedence < d.precedence) :
    mergeContribution authorityCeiling resolved c = .ok resolved := by
  have hentry := h c.key
  unfold mergeContribution
  cases hget : resolved.get? c.key with
  | none =>
    rw [hget] at hentry
    exact absurd hkey (hentry d hd)
  | some found =>
    rw [hget] at hentry
    have hle : d.precedence ≤ found.1 := Merged.highest hentry d hd hkey
    dsimp only
    rw [if_neg (by omega), if_neg (by omega)]

/-- Without a contribution that is not maximal the fold goes the same way. -/
theorem foldlM_erase (hranked : Ranked (before ++ c :: after))
    (hc : ¬Maximal (before ++ c :: after) c)
    (hvalues : ∀ d ∈ before, d.value.partialEq d.value = true) :
    (before ++ c :: after).foldlM (mergeContribution authorityCeiling) .empty =
      (before ++ after).foldlM (mergeContribution authorityCeiling) .empty := by
  rw [foldlM_append, foldlM_append]
  have hempty : Merges authorityCeiling [] .empty := merges_empty
  have hfirst := foldlM_mergeContribution hempty hvalues
  cases hfold : before.foldlM (mergeContribution authorityCeiling) .empty with
  | error e => rfl
  | ok resolved =>
    rw [hfold] at hfirst
    rw [ok_bind, ok_bind, foldlM_cons]
    -- the contribution that is above `c` has been folded already
    obtain ⟨d,hd,hkey,hlower⟩ : ∃ d ∈ before, d.key = c.key ∧ c.precedence < d.precedence := by
      by_contra hnone
      refine hc ⟨by simp,fun d hd hkey => ?_⟩
      obtain ⟨-,hafter,-⟩ := pairwise_append.mp hranked
      rcases mem_append.mp hd with hd | hd
      · exact not_lt.mp fun hlt => hnone ⟨d,hd,hkey,hlt⟩
      · rcases mem_cons.mp hd with rfl | hd
        · exact le_rfl
        · exact rel_of_pairwise_cons hafter hd hkey.symm
    rw [mergeContribution_of_lower hfirst hd hkey hlower, ok_bind]

theorem tryResolve_erase (hvalues : ∀ d ∈ before ++ c :: after, d.value.partialEq d.value = true)
    (hc : ¬Maximal (before ++ c :: after) c)
    (h : tryResolve (before ++ c :: after) authorityCeiling = .ok r) :
    tryResolve (before ++ after) authorityCeiling = .ok r := by
  obtain ⟨hvalid,resolved,hfold,hr⟩ := tryResolve_eq_ok.mp h
  obtain ⟨first,last,hwith,hwithout⟩ := exists_sortByKey contributionKey before c after
  have hmem : ∀ d, d ∈ before ++ c :: after ↔ d ∈ first ++ c :: last := fun d => by
    rw [← hwith, (sortByKey_perm _ _).mem_iff]
  have hranked := sorted_ranked (before ++ c :: after)
  rw [sorted, hwith] at hranked hfold
  rw [foldlM_erase hranked (fun hmax => hc (hmax.of_mem_iff fun d => (hmem d).symm))
    fun d hd => hvalues d ((hmem d).mpr (by simp [hd]))] at hfold
  refine tryResolve_eq_ok.mpr ⟨fun d hd => hvalid d ?_,resolved,?_,hr⟩
  · rcases mem_append.mp hd with hd | hd <;> simp [hd]
  · rw [sorted, hwithout, hfold]

/-- What a resolution says, entry by entry. -/
theorem Merges.entries (h : Merges authorityCeiling contributions resolved) :
    ((resolved.values.map (·.2)).map ResolvedConfigContribution.key).Nodup ∧
    (∀ key, key ∈ (resolved.values.map (·.2)).map ResolvedConfigContribution.key ↔
      ∃ c ∈ contributions, c.key = key) ∧
    ∀ entry ∈ resolved.values.map (·.2), ∃ precedence,
      Merged authorityCeiling contributions entry.key precedence entry := by
  have hmerged : ∀ key found, resolved.get? key = some found →
      Merged authorityCeiling contributions key found.1 found.2 := by
    intro key found hget
    have hentry := h key
    rwa [hget] at hentry
  have hkeys : (resolved.values.map (·.2)).map ResolvedConfigContribution.key = resolved.keys := by
    rw [map_map]
    exact resolved.map_values fun key found hget => (hmerged key found hget).named
  refine ⟨hkeys ▸ resolved.nodup_keys,fun key => ?_,fun entry hentry => ?_⟩
  · rw [hkeys, BTreeMap.mem_keys_iff]
    have hentry := h key
    cases hget : resolved.get? key with
    | none =>
      rw [hget] at hentry
      simpa using hentry
    | some found =>
      obtain ⟨c,hc,hkey,-⟩ := (hmerged key found hget).attained
      simpa using ⟨c,hc,hkey⟩
  · obtain ⟨found,hfound,rfl⟩ := mem_map.mp hentry
    obtain ⟨key,hget⟩ := resolved.mem_values.mp hfound
    have hentry := hmerged key found hget
    rw [← hentry.named] at hentry
    exact ⟨found.1,hentry⟩

/-- Resolution is a precedence merge: it does not depend on the order, makes one entry
for each namespace and version from the contributions of the highest precedence, which
it attributes by source and requested authority, and ignores all others. -/
theorem tryResolve_precedence (authorityCeiling : Authority)
    (contributions : List ConfigContribution)
    (hvalues : ∀ c ∈ contributions, c.value.partialEq c.value = true) :
    (∀ contributions', contributions.Perm contributions' →
      (∃ e e', tryResolve contributions authorityCeiling = .error e ∧
        tryResolve contributions' authorityCeiling = .error e') ∨
      ∃ r r', tryResolve contributions authorityCeiling = .ok r ∧
        tryResolve contributions' authorityCeiling = .ok r' ∧
        r.partialEq r' = true) ∧
    ∀ r, tryResolve contributions authorityCeiling = .ok r →
      (r.entries.map ResolvedConfigContribution.key).Nodup ∧
      (∀ key, key ∈ r.entries.map ResolvedConfigContribution.key ↔
        ∃ c ∈ contributions, c.key = key) ∧
      (∀ entry ∈ r.entries,
        (∀ c, Maximal contributions c → c.key = entry.key →
          entry.value.partialEq c.value = true ∧
            entry.grantedAuthority = authorityCeiling.attenuate c.requestedAuthority) ∧
        entry.attributions.Nodup ∧
        ∀ a, a ∈ entry.attributions ↔
          ∃ c, Maximal contributions c ∧ c.key = entry.key ∧ c.attribution = a) ∧
      ∀ before c after, contributions = before ++ c :: after → ¬Maximal contributions c →
        tryResolve (before ++ after) authorityCeiling = .ok r := by
  constructor
  · intro contributions' hperm
    have hvalues' : ∀ c ∈ contributions', c.value.partialEq c.value = true :=
      fun c hc => hvalues c (hperm.mem_iff.mpr hc)
    have hiff : Mergeable authorityCeiling contributions ↔
        Mergeable authorityCeiling contributions' :=
      ⟨fun h => h.perm hperm,fun h => h.perm hperm.symm⟩
    rw [← exists_tryResolve_iff hvalues, ← exists_tryResolve_iff hvalues'] at hiff
    cases h : tryResolve contributions authorityCeiling with
    | error e =>
      cases h' : tryResolve contributions' authorityCeiling with
      | error e' => exact .inl ⟨e,e',rfl,rfl⟩
      | ok r' =>
        obtain ⟨r,hr⟩ := hiff.mpr ⟨r',h'⟩
        rw [h] at hr
        cases hr
    | ok r =>
      obtain ⟨r',h'⟩ := hiff.mp ⟨r,h⟩
      obtain ⟨resolved,hmerges,rfl⟩ := merges_of_tryResolve hvalues h
      obtain ⟨resolved',hmerges',rfl⟩ := merges_of_tryResolve hvalues' h'
      exact .inr ⟨_,_,rfl,h',hmerges.unique (hmerges'.of_mem_iff fun _ => hperm.mem_iff.symm)⟩
  · intro r hr
    obtain ⟨resolved,hmerges,rfl⟩ := merges_of_tryResolve hvalues hr
    obtain ⟨hnodup,hkeys,hentries⟩ := hmerges.entries
    refine ⟨hnodup,hkeys,fun entry hentry => ?_,?_⟩
    · obtain ⟨precedence,hmerged⟩ := hentries entry hentry
      refine ⟨fun c hc hkey => hmerged.agrees c hc.1 hkey (hmerged.precedence_eq hc hkey),?_,?_⟩
      · exact hmerged.sorted.imp fun hlt hsame => hlt.ne (congrArg attributionKey hsame)
      · intro a
        rw [hmerged.attributed]
        constructor
        · rintro ⟨c,hc,hkey,rfl,ha⟩
          exact ⟨c,⟨hc,fun d hd hsame => hmerged.highest d hd (hsame.trans hkey)⟩,hkey,ha⟩
        · rintro ⟨c,hc,hkey,ha⟩
          exact ⟨c,hc.1,hkey,hmerged.precedence_eq hc hkey,ha⟩
    · rintro before c after rfl hc
      exact tryResolve_erase hvalues hc hr

/-! ### One source with two requested authorities -/

def demoSource : ConfigContributionSource := ⟨⟨"demo.frontend",by decide⟩,"file","revision-1"⟩

/-- A contribution that asks for some capabilities, none of which the empty ceiling grants. -/
def demoContribution (precedence : ℤ) (capabilities : List CapabilityId) : ConfigContribution where
  source := demoSource
  namespc := ⟨"demo",by decide⟩
  contractVersion := 1
  precedence := precedence
  value := .unit
  requestedAuthority := new capabilities

def twoRequests : List ConfigContribution :=
  [demoContribution 1 [],demoContribution 1 [⟨"demo.read",by decide⟩]]

/-- The source stands in the entry twice, once for each authority it asked for. -/
theorem attributions_repeat_source : ¬∀ (authorityCeiling : Authority)
    (contributions : List ConfigContribution) (r : ResolvedConfigContributions),
    (∀ c ∈ contributions, c.value.partialEq c.value = true) →
    tryResolve contributions authorityCeiling = .ok r →
      ∀ entry ∈ r.entries, (entry.attributions.map (·.source)).Nodup := by
  intro h
  have hrun : (tryResolve twoRequests (new [])).toOption.map
      (fun r => r.entries.map fun entry => entry.attributions.map (·.source)) =
        some [[demoSource,demoSource]] := by decide +kernel
  cases hr : tryResolve twoRequests (new []) with
  | error e =>
    rw [hr] at hrun
    cases hrun
  | ok r =>
    rw [hr] at hrun
    have hsources : r.entries.map (fun entry => entry.attributions.map (·.source)) =
        [[demoSource,demoSource]] := Option.some.inj hrun
    obtain ⟨entry,hentry,hlist⟩ : ∃ entry ∈ r.entries,
        entry.attributions.map (·.source) = [demoSource,demoSource] := by
      apply mem_map.mp
      rw [hsources]
      simp
    have hnodup := h (new []) twoRequests r (by decide +kernel) hr entry hentry
    rw [hlist] at hnodup
    simp at hnodup

/-- A contribution of lower precedence is removed from the two that agree. -/
theorem tryResolve_precedence_two :
    (∀ c ∈ [demoContribution 0 [],demoContribution 1 []], c.value.partialEq c.value = true) ∧
      ∀ r, tryResolve [demoContribution 0 [],demoContribution 1 []]
          (new []) = .ok r →
        tryResolve [demoContribution 1 []] (new []) = .ok r := by
  have hvalues : ∀ c ∈ [demoContribution 0 [],demoContribution 1 []],
      c.value.partialEq c.value = true := by decide +kernel
  refine ⟨hvalues,fun r hr => ?_⟩
  have hresult := (tryResolve_precedence (new []) _ hvalues).2 r hr
  refine hresult.2.2.2 [] (demoContribution 0 []) [demoContribution 1 []] rfl fun hmaximal => ?_
  have hle := hmaximal.2 (demoContribution 1 []) (by simp) (by decide +kernel)
  exact absurd hle (by decide)

end PhenixConductor.Configuration

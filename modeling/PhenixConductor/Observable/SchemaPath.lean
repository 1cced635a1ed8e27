import PhenixConductor.Observable.Path

/-! # Schemas along a path

A write is checked against the schema that its path leads to.
-/
namespace PhenixConductor.Observable
open Contract Collections Branching PhenixSchema

/-- One round of the loop over the variants. -/
def resolveCandidate (resolved : Option PhenixSchema) (candidate : Except String PhenixSchema) :
    Except String (Option PhenixSchema) := do
  let candidate ← candidate
  match resolved with
  | some previous =>
    if previous ≠ candidate then
      .error "variant payload path is not structurally identical for every variant"
    else .ok (some previous)
  | none => .ok (some candidate)

def resolvePayload (candidates : List (Except String PhenixSchema)) :
    Except String PhenixSchema := do
  match ← candidates.foldlM resolveCandidate none with
  | some schema => .ok schema
  | none => .error "variant has no payload schemas"

/-- `schema_at_path`. -/
def schemaAtPath (schema : PhenixSchema) : ValuePath → Except String PhenixSchema
  | [] => .ok schema
  | head :: tail =>
    match schema, head with
    | .table fields, .field key =>
      match fields.get? key with
      | some field => schemaAtPath field tail
      | none => .error ("table has no field " ++ key.text)
    | .map item, .mapKey _ => schemaAtPath item tail
    | .list item, .index _ => schemaAtPath item tail
    | .array item len, .index i =>
      if i.toNat ≥ len then
        .error ("array index " ++ toString i.toNat ++ " exceeds fixed length " ++ toString len)
      else schemaAtPath item tail
    | .option item, .optionPayload => schemaAtPath item tail
    | .variant variants, .variantPayload =>
      resolvePayload (variants.values.map fun variant => schemaAtPath variant tail)
    | schema, head =>
      .error ("path segment " ++ head.debug ++ " is invalid for schema " ++ schema.kind.text)

/-- `validate_path`. -/
def validatePath (value : ValueId) (schema : PhenixSchema) (path : ValuePath) :
    Except ObservableError PhenixSchema :=
  (schemaAtPath schema path).mapError fun message => .invalidPath value path message

theorem resolveCandidate_eq_ok {resolved found : Option PhenixSchema}
    {candidate : Except String PhenixSchema} (h : resolveCandidate resolved candidate = .ok found) :
    ∃ t, candidate = .ok t ∧ found = some t ∧ ∀ u, resolved = some u → u = t := by
  obtain ⟨t,rfl,h⟩ := bind_eq_ok.mp h
  cases resolved with
  | none =>
    cases h
    exact ⟨t,rfl,rfl,by simp⟩
  | some u =>
    by_cases hu : u = t
    · simp only [resolveCandidate, ok_bind, hu, ne_eq, not_true, if_false, Except.ok.injEq] at h
      exact ⟨t,rfl,h.symm,by simp [hu]⟩
    · simp [resolveCandidate, hu] at h

/-- The loop keeps the first candidate and compares every later one with it. -/
theorem foldlM_resolveCandidate {l : List (Except String PhenixSchema)}
    {start found : Option PhenixSchema} (h : l.foldlM resolveCandidate start = .ok found) :
    (∀ t, start = some t → found = some t) ∧ ∀ c ∈ l, ∃ t, found = some t ∧ c = .ok t := by
  induction l generalizing start with
  | nil =>
    cases h
    simp
  | cons c l ih =>
    rw [List.foldlM_cons, bind_eq_ok] at h
    obtain ⟨next,hn,hl⟩ := h
    obtain ⟨t,rfl,rfl,hst⟩ := resolveCandidate_eq_ok hn
    obtain ⟨hnext,hall⟩ := ih hl
    refine ⟨fun u hu => ?_,List.forall_mem_cons.mpr ⟨⟨t,hnext t rfl,rfl⟩,hall⟩⟩
    rw [hst u hu]
    exact hnext t rfl

variable {schema : PhenixSchema}

/-- All candidates are the resolved schema. -/
theorem resolvePayload_eq_ok {candidates : List (Except String PhenixSchema)}
    (h : resolvePayload candidates = .ok schema) : ∀ c ∈ candidates, c = .ok schema := by
  obtain ⟨found,hf,hr⟩ := bind_eq_ok.mp h
  cases found with
  | none => cases hr
  | some t =>
    cases hr
    intro c hc
    obtain ⟨u,hu,rfl⟩ := (foldlM_resolveCandidate hf).2 c hc
    cases hu
    rfl

/-! ## The schema of a child slot -/

/-- `SlotSchema schema v s t`: the slot `s` of a value `v` of `schema` holds values of `t`. -/
inductive SlotSchema : PhenixSchema → PhenixValue → ValuePathSegment → PhenixSchema → Prop
  | field {fields : BTreeMap Key PhenixSchema} {values key t} : fields.get? key = some t →
      SlotSchema (.table fields) (.table values) (.field key) t
  | mapKey {t values key} : SlotSchema (.map t) (.map values) (.mapKey key) t
  | index {t values i} : SlotSchema (.list t) (.list values) (.index i) t
  | arrayIndex {t len values i} : SlotSchema (.array t len) (.list values) (.index i) t
  | option {t payload} : SlotSchema (.option t) (.option payload) .optionPayload t
  | variant {variants : BTreeMap Key PhenixSchema} {tag payload t} : variants.get? tag = some t →
      SlotSchema (.variant variants) (.variant tag payload) .variantPayload t

variable {target : PhenixSchema} {v : PhenixValue} {s : ValuePathSegment}

/-- A path that the schema accepts goes on at the schema of the slot. -/
theorem slotSchema_of_path {p : ValuePath} (hv : schema.parse v = .ok ())
    (hs : schemaAtPath schema (s :: p) = .ok target) :
    ∃ t, SlotSchema schema v s t ∧ schemaAtPath t p = .ok target := by
  cases schema <;> cases s <;> try simp [schemaAtPath] at hs
  case table.field fields key =>
    cases v <;> try simp [parse] at hv
    cases hk : fields.get? key with
    | none => simp [hk] at hs
    | some t => exact ⟨t,.field hk,by simpa [hk] using hs⟩
  case map.mapKey item key =>
    cases v <;> try simp [parse] at hv
    exact ⟨item,.mapKey,hs⟩
  case list.index item i =>
    cases v <;> try simp [parse] at hv
    exact ⟨item,.index,hs⟩
  case array.index item len i =>
    cases v <;> try simp [parse] at hv
    split_ifs at hs
    exact ⟨item,.arrayIndex,hs⟩
  case option.optionPayload item =>
    cases v <;> try simp [parse] at hv
    exact ⟨item,.option,hs⟩
  case variant.variantPayload variants =>
    cases v <;> try simp [parse] at hv
    rename_i tag payload
    obtain ⟨t,ht,-⟩ := (parse_variant variants tag payload).mp hv
    refine ⟨t,.variant ht,resolvePayload_eq_ok hs _ ?_⟩
    exact List.mem_map.mpr ⟨t,(BTreeMap.mem_values _).mpr ⟨tag,ht⟩,rfl⟩

theorem SlotSchema.parse_child {t : PhenixSchema} {c : PhenixValue} (h : SlotSchema schema v s t)
    (hv : schema.parse v = .ok ()) (hc : child v s = some c) : t.parse c = .ok () := by
  cases h with
  | field ht =>
    obtain ⟨w,hw,hp⟩ := ((parse_table _ _).mp hv).1 _ _ ht
    cases hw.symm.trans hc
    exact hp
  | mapKey => exact (parse_map _ _).mp hv _ _ hc
  | index => exact (parse_list _ _).mp hv _ (List.mem_of_getElem? hc)
  | arrayIndex => exact ((parse_array _ _ _).mp hv).2 _ (List.mem_of_getElem? hc)
  | option =>
    cases hc
    exact hv
  | variant ht =>
    cases hc
    obtain ⟨u,hu,hp⟩ := (parse_variant _ _ _).mp hv
    cases hu.symm.trans ht
    exact hp

theorem SlotSchema.parse_setChild {t : PhenixSchema} {x : Option PhenixValue}
    (h : SlotSchema schema v s t) (hv : schema.parse v = .ok ()) (ha : admits v s x)
    (hx : ∀ w, x = some w → t.parse w = .ok ()) : schema.parse (setChild v s x) = .ok () := by
  cases h with
  | @field fields values key t ht =>
    obtain ⟨w,rfl⟩ := Option.isSome_iff_exists.mp ha.2
    obtain ⟨hf,hk⟩ := (parse_table _ _).mp hv
    refine (parse_table _ _).mpr ⟨fun k u hu => ?_,fun k hk' => hk k ?_⟩
    · rw [BTreeMap.get?_replace]
      split_ifs with hkk
      · subst hkk
        cases ht.symm.trans hu
        obtain ⟨w',hw'⟩ := Option.isSome_iff_exists.mp ha.1
        exact ⟨w,by simp [hw'],hx w rfl⟩
      · exact hf k u hu
    · rw [BTreeMap.mem_keys_iff] at hk' ⊢
      rw [BTreeMap.get?_replace] at hk'
      split_ifs at hk' with hkk
      · rw [hkk]
        exact ha.1
      · exact hk'
  | mapKey =>
    refine (parse_map _ _).mpr fun k w hw => ?_
    rw [BTreeMap.get?_alter] at hw
    split_ifs at hw
    · exact hx w hw
    · exact (parse_map _ _).mp hv k w hw
  | index =>
    obtain ⟨w,rfl⟩ := Option.isSome_iff_exists.mp ha.2
    refine (parse_list _ _).mpr fun u hu => ?_
    rcases List.mem_or_eq_of_mem_set hu with hu | rfl
    · exact (parse_list _ _).mp hv u hu
    · exact hx u rfl
  | arrayIndex =>
    obtain ⟨w,rfl⟩ := Option.isSome_iff_exists.mp ha.2
    obtain ⟨hl,hm⟩ := (parse_array _ _ _).mp hv
    refine (parse_array _ _ _).mpr ⟨by rw [List.length_set, hl],fun u hu => ?_⟩
    rcases List.mem_or_eq_of_mem_set hu with hu | rfl
    · exact hm u hu
    · exact hx u rfl
  | option =>
    cases x with
    | none => rfl
    | some w => exact hx w rfl
  | @variant variants tag payload t ht =>
    obtain ⟨w,rfl⟩ := Option.isSome_iff_exists.mp ha
    exact (parse_variant _ _ _).mpr ⟨t,ht,hx w rfl⟩

/-- What a valid path addresses in a well-formed value is well formed. -/
theorem parse_getAt {w : PhenixValue} {p : ValuePath} (hv : schema.parse v = .ok ())
    (hs : schemaAtPath schema p = .ok target) (hw : getAt (some v) p = some w) :
    target.parse w = .ok () := by
  induction p generalizing schema v with
  | nil =>
    cases hs
    cases hw
    exact hv
  | cons s p ih =>
    obtain ⟨t,ht,hp⟩ := slotSchema_of_path hv hs
    cases hc : child v s with
    | none => simp [hc] at hw
    | some c => exact ih (ht.parse_child hv hc) hp (hc ▸ hw)

/-- A write accepted by the schema at its path keeps the whole value well formed. -/
theorem parse_putAt {v' : PhenixValue} {p : ValuePath} {x : Option PhenixValue}
    (hv : schema.parse v = .ok ()) (hs : schemaAtPath schema p = .ok target)
    (ha : Admits (some v) p x) (hx : ∀ w, x = some w → target.parse w = .ok ())
    (hp : putAt (some v) p x = some v') : schema.parse v' = .ok () := by
  induction p generalizing schema v v' with
  | nil =>
    cases hs
    exact hx v' hp
  | cons s p ih =>
    obtain ⟨t,ht,hsp⟩ := slotSchema_of_path hv hs
    rw [putAt_some_cons, Option.some.injEq] at hp
    subst hp
    by_cases hne : p = []
    · subst hne
      cases hsp
      exact ht.parse_setChild hv ha hx
    · rw [admits_some_cons hne] at ha
      cases hc : child v s with
      | none =>
        obtain ⟨u,q,rfl⟩ := List.exists_cons_of_ne_nil hne
        exact absurd (hc ▸ ha) (not_admits_none_cons _ _ _)
      | some c =>
        rw [hc] at ha
        obtain ⟨c',hc'⟩ := Option.ne_none_iff_exists'.mp
          (mt (putAt_eq_none_iff hne (some c) x).mp (Option.some_ne_none c))
        rw [hc']
        refine ht.parse_setChild hv (admits_of_child c' hc) ?_
        intro w hw
        cases hw
        exact ih (ht.parse_child hv hc) hsp ha hc'

end PhenixConductor.Observable

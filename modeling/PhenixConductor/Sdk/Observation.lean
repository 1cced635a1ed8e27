import PhenixConductor.Observable.Store

/-! # Listening to an observable through the SDK

The listen callable of an observable resource parses its input into a subscription, and the
handler that it installs encodes every delivery as a value for the listener.
-/
namespace PhenixConductor.Sdk
open Contract Collections Observable PhenixValue

inductive CapabilityError where
  | unknownReference (reference : CallableRef)
  | staleReference (reference : CallableRef)
  | duplicateReference (reference : CallableRef)
  | schemaMismatch (message : String)
  | providerFailed (message : String)
  | cancelled
  | disconnected
  | queueFull
deriving DecidableEq

/-- A constant key. -/
def key (text : String) (valid : validateKey text = .ok () := by decide) : Key := ⟨text,valid⟩

/-! ## The schemas -/

def observablePathSegmentSchema : PhenixSchema :=
  .variant (.ofList
    [(key "Field",.table (.ofList [(key "key",.string)])),
     (key "Index",.table (.ofList [(key "index",.u64)])),
     (key "MapKey",.table (.ofList [(key "key",.string)])),
     (key "OptionPayload",.unit),
     (key "VariantPayload",.unit)])

def observablePathSchema : PhenixSchema :=
  .table (.ofList [(key "segments",.list observablePathSegmentSchema)])

def observableAddressSchema : PhenixSchema :=
  .table (.ofList [(key "path",observablePathSchema),(key "value_id",.string)])

def observableChangeSchema : PhenixSchema :=
  .variant (.ofList
    [(key "Remove",.table (.ofList [(key "change",.table (.ofList
      [(key "path",observablePathSchema)]))])),
     (key "Replace",.table (.ofList [(key "change",.table (.ofList
      [(key "path",observablePathSchema),(key "value",.any)]))])),
     (key "Splice",.table (.ofList [(key "change",.table (.ofList
      [(key "delete_count",.u64),(key "inserted",.list .any),(key "path",observablePathSchema),
       (key "start",.u64)]))]))])

def observablePayloadSchema : PhenixSchema :=
  .variant (.ofList
    [(key "Diff",.table (.ofList [(key "changes",.list observableChangeSchema)])),
     (key "Full",.table (.ofList [(key "value",.any)]))])

/-- The input that a listener takes. -/
def observableDeliverySchema : PhenixSchema :=
  .table (.ofList
    [(key "address",observableAddressSchema),
     (key "commit_id",.option .u64),
     (key "from_version",.u64),
     (key "generation",.u64),
     (key "payload",observablePayloadSchema),
     (key "subscription_id",.u64),
     (key "value_id",.string),
     (key "version",.u64)])

def deliveryContract : ContractId := ⟨"phenix.observable-delivery@1",by decide⟩

/-- The input of the listen callable. -/
def listenInputSchema : PhenixSchema :=
  .table (.ofList
    [(key "initial",.variant (.ofList [(key "none",.unit),(key "full",.unit)])),
     (key "listener",.callable deliveryContract observableDeliverySchema .unit),
     (key "mode",.variant (.ofList [(key "diff",.unit),(key "full",.unit)])),
     (key "path",observablePathSchema),
     (key "scope",.variant (.ofList [(key "exact",.unit),(key "recursive",.unit)]))])

/-! ## Parsing the input -/

/-- `parse_observable_path_segment`. -/
def parseObservablePathSegment : PhenixValue → Except CapabilityError ValuePathSegment
  | .variant tag value =>
    match tag.text, value with
    | "Field", .table fields =>
      match fields.get? (key "key") with
      | some (.string field) =>
        match h : validateKey field with
        | .ok () => .ok (.field ⟨field,h⟩)
        | .error error => .error (.schemaMismatch error)
      | _ => .error (.schemaMismatch "observable Field path segment is missing key")
    | "Field", _ =>
      .error (.schemaMismatch "observable Field path segment must contain a table")
    | "MapKey", .table fields =>
      match fields.get? (key "key") with
      | some (.string mapKey) => .ok (.mapKey mapKey)
      | _ => .error (.schemaMismatch "observable MapKey path segment is missing key")
    | "MapKey", _ =>
      .error (.schemaMismatch "observable MapKey path segment must contain a table")
    | "Index", .table fields =>
      match fields.get? (key "index") with
      | some (.u64 index) =>
        if index.toNat < 2 ^ 32 then .ok (.index index.toUInt32)
        else .error (.schemaMismatch "observable Index path segment exceeds u32")
      | _ => .error (.schemaMismatch "observable Index path segment is missing index")
    | "Index", _ =>
      .error (.schemaMismatch "observable Index path segment must contain a table")
    | "VariantPayload", .unit => .ok .variantPayload
    | "OptionPayload", .unit => .ok .optionPayload
    | _, _ => .error (.schemaMismatch "observable path segment is invalid")
  | _ => .error (.schemaMismatch "observable path segment must be a variant")

/-- `parse_observable_path`. -/
def parseObservablePath : Option PhenixValue → Except CapabilityError ValuePath
  | some (.table fields) =>
    match fields.get? (key "segments") with
    | some (.list segments) => segments.mapM parseObservablePathSegment
    | _ => .error (.schemaMismatch "observable listen path is missing segments")
  | _ => .error (.schemaMismatch "observable listen path must be a structural path")

/-- `variant_tag`. -/
def variantTag : Option PhenixValue → Except CapabilityError String
  | some (.variant tag .unit) => .ok tag.text
  | _ => .error (.schemaMismatch "observable listen option must be a unit variant")

/-- One of two named options. -/
def parseOption {A : Type} (first second : String × A) (message : String)
    (value : Option PhenixValue) : Except CapabilityError A := do
  let tag ← variantTag value
  if tag = first.1 then return first.2
  else if tag = second.1 then return second.2
  else throw (.schemaMismatch message)

def parseScope : Option PhenixValue → Except CapabilityError ObservationScope :=
  parseOption ("exact",.exact) ("recursive",.recursive) "observable listen scope is invalid"

def parseMode : Option PhenixValue → Except CapabilityError ObservationMode :=
  parseOption ("diff",.diff) ("full",.full) "observable listen mode is invalid"

def parseInitial : Option PhenixValue → Except CapabilityError InitialObservation :=
  parseOption ("none",.none) ("full",.full) "observable listen initial value is invalid"

/-- What `parse_listen_input` reads. -/
structure ListenInput where
  listener : CallableRef
  path : ValuePath
  scope : ObservationScope
  mode : ObservationMode
  initial : InitialObservation

/-- `parse_listen_input`. -/
def parseListenInput : PhenixValue → Except CapabilityError ListenInput
  | .table fields =>
    match fields.get? (key "listener") with
    | some (.callable listener) => do
      let path ← parseObservablePath (fields.get? (key "path"))
      let scope ← parseScope (fields.get? (key "scope"))
      let mode ← parseMode (fields.get? (key "mode"))
      let initial ← parseInitial (fields.get? (key "initial"))
      return ⟨listener,path,scope,mode,initial⟩
    | _ => .error (.schemaMismatch "observable listen input is missing listener")
  | _ => .error (.schemaMismatch "observable listen input must be a table")

/-- `join_observable_path`. -/
def joinObservablePath (base relative : ValuePath) : ValuePath := base ++ relative

/-- The subscription that the listen callable of a resource at `base` asks for. -/
def ListenInput.spec (base : ValueAddress) (input : ListenInput) : ObservationSpec where
  address := ⟨base.value,joinObservablePath base.path input.path⟩
  scope := input.scope
  mode := input.mode
  initial := input.initial

/-- What the registry and the handler of listen make of an input before they subscribe. -/
def listenRequest (input : PhenixValue) : Except CapabilityError ListenInput := do
  (listenInputSchema.parse input).mapError fun error => .schemaMismatch error.text
  parseListenInput input

/-! ## Encoding a delivery -/

/-- `variant_value` over a table. -/
def variantTable (tag : Key) (fields : List (Key × PhenixValue)) : PhenixValue :=
  .variant tag (.table (.ofList fields))

def observablePathSegmentValue : ValuePathSegment → PhenixValue
  | .field field => variantTable (key "Field") [(key "key",.string field.text)]
  | .mapKey mapKey => variantTable (key "MapKey") [(key "key",.string mapKey)]
  | .index index => variantTable (key "Index") [(key "index",.u64 index.toUInt64)]
  | .variantPayload => .variant (key "VariantPayload") .unit
  | .optionPayload => .variant (key "OptionPayload") .unit

def observablePathValue (path : ValuePath) : PhenixValue :=
  .table (.ofList [(key "segments",.list (path.map observablePathSegmentValue))])

def observableAddressValue (address : ValueAddress) : PhenixValue :=
  .table (.ofList
    [(key "path",observablePathValue address.path),(key "value_id",.string address.value.text)])

def observationChangeValue : ValueChange → PhenixValue
  | .replace path value => variantTable (key "Replace") [(key "change",.table (.ofList
      [(key "path",observablePathValue path),(key "value",value)]))]
  | .remove path => variantTable (key "Remove") [(key "change",.table (.ofList
      [(key "path",observablePathValue path)]))]
  | .splice path start deleteCount inserted =>
    variantTable (key "Splice") [(key "change",.table (.ofList
      [(key "delete_count",.u64 deleteCount.toUInt64),
       (key "inserted",.list inserted),
       (key "path",observablePathValue path),
       (key "start",.u64 start.toUInt64)]))]

/-- `full_value`. -/
def fullValue (delivery : ObservationDelivery) : Except ObservableError (Option PhenixValue) :=
  match delivery.snapshot with
  | none => .ok none
  | some snapshot =>
    (valueAt snapshot delivery.address.path).map some |>.mapError
      (.transactionConflict delivery.value)

/-- The payload. An error is the message of the panic. -/
def observationPayloadValue (delivery : ObservationDelivery) : Except String PhenixValue :=
  if delivery.snapshot.isSome then
    match fullValue delivery with
    | .ok (some value) => .ok (variantTable (key "Full") [(key "value",value)])
    | .ok none => .error "delivery with a snapshot must produce a full value"
    | .error _ => .error "validated observable delivery address must resolve in its snapshot"
  else .ok (variantTable (key "Diff")
    [(key "changes",.list (delivery.changes.map observationChangeValue))])

/-- A 64-bit counter as a value. -/
def counterValue (n : ℕ) : PhenixValue := .u64 (UInt64.ofNat n)

/-- The fields around a payload. -/
def deliveryFields (delivery : ObservationDelivery) (payload : PhenixValue) :
    List (Key × PhenixValue) :=
  [(key "address",observableAddressValue delivery.address),
   (key "commit_id",.option (delivery.commit.map counterValue)),
   (key "from_version",counterValue delivery.fromVersion),
   (key "generation",counterValue delivery.generation),
   (key "payload",payload),
   (key "subscription_id",counterValue delivery.observation),
   (key "value_id",.string delivery.value.text),
   (key "version",counterValue delivery.version)]

/-- `observation_delivery_value`: what the installed handler passes to the listener,
or the message that it panics with. -/
def observationDeliveryValue (delivery : ObservationDelivery) : Except String PhenixValue :=
  (observationPayloadValue delivery).map fun payload =>
    .table (.ofList (deliveryFields delivery payload))

/-! ## Encoded deliveries parse -/

section
open PhenixSchema (parse parse_ofList parse_variant_at parse_list)

theorem parse_observablePathSegmentValue (segment : ValuePathSegment) :
    parse observablePathSegmentSchema (observablePathSegmentValue segment) = .ok () := by
  cases segment with
  | field field =>
    exact parse_variant_at 0 (by decide) rfl (parse_ofList (by decide) (by simp [parse]))
  | index index =>
    exact parse_variant_at 1 (by decide) rfl (parse_ofList (by decide) (by simp [parse]))
  | mapKey mapKey =>
    exact parse_variant_at 2 (by decide) rfl (parse_ofList (by decide) (by simp [parse]))
  | optionPayload => exact parse_variant_at 3 (by decide) rfl rfl
  | variantPayload => exact parse_variant_at 4 (by decide) rfl rfl

theorem parse_observablePathValue (path : ValuePath) :
    parse observablePathSchema (observablePathValue path) = .ok () := by
  refine parse_ofList (by decide) (.cons ⟨rfl,?_⟩ .nil)
  rw [parse_list]
  intro value hvalue
  obtain ⟨segment,-,rfl⟩ := List.mem_map.mp hvalue
  exact parse_observablePathSegmentValue segment

theorem parse_observableAddressValue (address : ValueAddress) :
    parse observableAddressSchema (observableAddressValue address) = .ok () :=
  parse_ofList (by decide) (.cons ⟨rfl,parse_observablePathValue _⟩ (.cons ⟨rfl,rfl⟩ .nil))

/-- The field `change` around the fields of a change. -/
theorem parse_changeTable {fields : List (Key × PhenixSchema)} {values : List (Key × PhenixValue)}
    (hkeys : (fields.map Prod.fst).Nodup)
    (h : List.Forall₂ (fun field value => field.1 = value.1 ∧ parse field.2 value.2 = .ok ())
      fields values) :
    parse (.table (.ofList [(key "change",.table (.ofList fields))]))
      (.table (.ofList [(key "change",.table (.ofList values))])) = .ok () :=
  parse_ofList (List.nodup_singleton _) (.cons ⟨rfl,parse_ofList hkeys h⟩ .nil)

theorem parse_observationChangeValue (change : ValueChange) :
    parse observableChangeSchema (observationChangeValue change) = .ok () := by
  cases change with
  | remove path =>
    exact parse_variant_at 0 (by decide) rfl (parse_changeTable (by decide)
      (.cons ⟨rfl,parse_observablePathValue path⟩ .nil))
  | replace path value =>
    exact parse_variant_at 1 (by decide) rfl (parse_changeTable (by decide)
      (.cons ⟨rfl,parse_observablePathValue path⟩ (.cons ⟨rfl,rfl⟩ .nil)))
  | splice path start deleteCount inserted =>
    have hinserted : parse (.list .any) (.list inserted) = .ok () := by simp
    exact parse_variant_at 2 (by decide) rfl (parse_changeTable (by decide)
      (.cons ⟨rfl,rfl⟩ (.cons ⟨rfl,hinserted⟩
        (.cons ⟨rfl,parse_observablePathValue path⟩ (.cons ⟨rfl,rfl⟩ .nil)))))

theorem parse_observationPayloadValue {delivery : ObservationDelivery} {payload : PhenixValue}
    (h : observationPayloadValue delivery = .ok payload) :
    parse observablePayloadSchema payload = .ok () := by
  unfold observationPayloadValue at h
  split at h
  · split at h
    · cases h
      exact parse_variant_at 1 (by decide) rfl (parse_ofList (by decide) (.cons ⟨rfl,rfl⟩ .nil))
    · cases h
    · cases h
  · cases h
    refine parse_variant_at 0 (by decide) rfl (parse_ofList (by decide) (.cons ⟨rfl,?_⟩ .nil))
    rw [parse_list]
    intro value hvalue
    obtain ⟨change,-,rfl⟩ := List.mem_map.mp hvalue
    exact parse_observationChangeValue change

/-- Whatever reaches a listener fits the schema of its input. -/
theorem parse_observationDeliveryValue {delivery : ObservationDelivery} {value : PhenixValue}
    (h : observationDeliveryValue delivery = .ok value) :
    parse observableDeliverySchema value = .ok () := by
  obtain ⟨payload,hpayload,rfl⟩ := map_eq_ok.mp h
  have hcommit : parse (.option .u64) (.option (delivery.commit.map counterValue)) = .ok () := by
    cases delivery.commit <;> rfl
  exact parse_ofList (by decide)
    (.cons ⟨rfl,parse_observableAddressValue _⟩ (.cons ⟨rfl,hcommit⟩ (.cons ⟨rfl,rfl⟩
      (.cons ⟨rfl,rfl⟩ (.cons ⟨rfl,parse_observationPayloadValue hpayload⟩
        (.cons ⟨rfl,rfl⟩ (.cons ⟨rfl,rfl⟩ (.cons ⟨rfl,rfl⟩ .nil))))))))

end

/-! ## When the handler panics -/

/-- The handler panics exactly if it is given a snapshot that the address is absent from. -/
theorem observationDeliveryValue_eq_ok_iff (delivery : ObservationDelivery) :
    (∃ value, observationDeliveryValue delivery = .ok value) ↔
      ∀ snapshot, delivery.snapshot = some snapshot →
        (valueAtOptional snapshot delivery.address.path).isSome := by
  obtain ⟨commit,value,fromVersion,version,address,observation,generation,changes,snapshot⟩ := delivery
  cases snapshot with
  | none => simp [observationDeliveryValue, observationPayloadValue, Except.map]
  | some snapshot =>
    cases hv : valueAtOptional snapshot address.path with
    | none => simp [observationDeliveryValue, observationPayloadValue, fullValue, valueAt, hv,
        Except.map, Except.mapError]
    | some found => simp [observationDeliveryValue, observationPayloadValue, fullValue, valueAt, hv,
        Except.map, Except.mapError]

/-! ## What an encoding tells -/

/-- Tables over the same fields differ if one of their values does. -/
theorem table_inj (keys : List Key) (hkeys : keys.Nodup) {l m : List (Key × PhenixValue)}
    (h : table (.ofList l) = .table (.ofList m)) (hl : l.map Prod.fst = keys)
    (hm : m.map Prod.fst = keys) : l = m :=
  BTreeMap.ofList_inj (hl ▸ hkeys) (hl.trans hm.symm) (table.inj h)

theorem singleton_inj {field : Key} {v w : PhenixValue}
    (h : table (.ofList [(field,v)]) = .table (.ofList [(field,w)])) : v = w := by
  have hlist := table_inj [field] (List.nodup_singleton _) h rfl rfl
  injection hlist with hpair
  exact congrArg Prod.snd hpair

theorem variantTable_inj {tag tag' : Key} {l m : List (Key × PhenixValue)}
    (h : variantTable tag l = variantTable tag' m) :
    tag = tag' ∧ table (.ofList l) = .table (.ofList m) := by
  injection h with htag hvalue
  exact ⟨htag,hvalue⟩

theorem observablePathSegmentValue_injective : Function.Injective observablePathSegmentValue := by
  intro a b h
  cases a with
  | field field =>
    cases b with
    | field field' =>
      have hvalue := singleton_inj (variantTable_inj h).2
      injection hvalue with htext
      rw [Key.text_injective htext]
    | _ => exact absurd (variant.inj h).1 (by decide)
  | mapKey mapKey =>
    cases b with
    | mapKey mapKey' =>
      have hvalue := singleton_inj (variantTable_inj h).2
      injection hvalue with htext
      rw [htext]
    | _ => exact absurd (variant.inj h).1 (by decide)
  | index index =>
    cases b with
    | index index' =>
      have hvalue := singleton_inj (variantTable_inj h).2
      injection hvalue with hindex
      rw [UInt32.toUInt64_inj.mp hindex]
    | _ => exact absurd (variant.inj h).1 (by decide)
  | variantPayload =>
    cases b with
    | variantPayload => rfl
    | _ => exact absurd (variant.inj h).1 (by decide)
  | optionPayload =>
    cases b with
    | optionPayload => rfl
    | _ => exact absurd (variant.inj h).1 (by decide)

theorem observablePathValue_injective : Function.Injective observablePathValue := by
  intro a b h
  have hvalue := singleton_inj h
  injection hvalue with hlist
  exact List.map_injective_iff.mpr observablePathSegmentValue_injective hlist

theorem observableAddressValue_injective : Function.Injective observableAddressValue := by
  intro a b h
  have hlist := table_inj [key "path",key "value_id"] (by decide) h rfl rfl
  simp only [List.cons.injEq, Prod.mk.injEq, string.injEq, and_true, true_and] at hlist
  obtain ⟨value,path⟩ := a
  obtain ⟨value',path'⟩ := b
  obtain ⟨rfl,rfl⟩ : path = path' ∧ value = value' :=
    ⟨observablePathValue_injective hlist.1,Identifier.text_injective hlist.2⟩
  rfl

theorem observationChangeValue_injective : Function.Injective observationChangeValue := by
  intro a b h
  cases a with
  | replace path value =>
    cases b with
    | replace path' value' =>
      have hlist := table_inj [key "path",key "value"] (by decide)
        (singleton_inj (variantTable_inj h).2) rfl rfl
      simp only [List.cons.injEq, Prod.mk.injEq, and_true, true_and] at hlist
      rw [observablePathValue_injective hlist.1, hlist.2]
    | _ => exact absurd (variant.inj h).1 (by decide)
  | remove path =>
    cases b with
    | remove path' =>
      have hpath := singleton_inj (singleton_inj (variantTable_inj h).2)
      rw [observablePathValue_injective hpath]
    | _ => exact absurd (variant.inj h).1 (by decide)
  | splice path start deleteCount inserted =>
    cases b with
    | splice path' start' deleteCount' inserted' =>
      have hlist := table_inj [key "delete_count",key "inserted",key "path",key "start"] (by decide)
        (singleton_inj (variantTable_inj h).2) rfl rfl
      simp only [List.cons.injEq, Prod.mk.injEq, and_true, true_and, u64.injEq,
        list.injEq, UInt32.toUInt64_inj] at hlist
      obtain ⟨hcount,hinserted,hpath,hstart⟩ := hlist
      rw [observablePathValue_injective hpath, hcount, hinserted, hstart]
    | _ => exact absurd (variant.inj h).1 (by decide)

theorem counterValue_inj {m n : ℕ} (hm : m ≤ u64Max) (hn : n ≤ u64Max)
    (h : counterValue m = counterValue n) : m = n := by
  have hnat := congrArg UInt64.toNat (u64.inj h)
  rw [UInt64.toNat_ofNat', UInt64.toNat_ofNat', Nat.mod_eq_of_lt (by unfold u64Max at hm; omega),
    Nat.mod_eq_of_lt (by unfold u64Max at hn; omega)] at hnat
  exact hnat

/-- The counters of a delivery are 64-bit numbers. -/
structure InRange (delivery : ObservationDelivery) : Prop where
  commit : ∀ id ∈ delivery.commit, id ≤ u64Max
  fromVersion : delivery.fromVersion ≤ u64Max
  version : delivery.version ≤ u64Max
  observation : delivery.observation ≤ u64Max

/-- A full value where there is a snapshot, and the changes where there is none. -/
theorem observationPayloadValue_eq_ok {delivery : ObservationDelivery} {payload : PhenixValue}
    (h : observationPayloadValue delivery = .ok payload) :
    (delivery.snapshot.isSome ∧ ∃ value,
      payload = variantTable (key "Full") [(key "value",value)]) ∨
    delivery.snapshot = none ∧ payload = variantTable (key "Diff")
      [(key "changes",.list (delivery.changes.map observationChangeValue))] := by
  unfold observationPayloadValue at h
  split_ifs at h with hsnapshot
  · split at h
    · cases h
      exact .inl ⟨hsnapshot,_,rfl⟩
    · cases h
    · cases h
  · cases h
    exact .inr ⟨by simpa using hsnapshot,rfl⟩

/-- A payload tells a full value from changes, and the changes from each other. -/
theorem observationPayloadValue_inj {d e : ObservationDelivery} {payload : PhenixValue}
    (hd : observationPayloadValue d = .ok payload) (he : observationPayloadValue e = .ok payload) :
    d.snapshot.isSome = e.snapshot.isSome ∧ (d.snapshot = none → d.changes = e.changes) := by
  have htag : ∀ {l m : List (Key × PhenixValue)}, variantTable (key "Full") l ≠
      variantTable (key "Diff") m := fun h => absurd (variantTable_inj h).1 (by decide)
  rcases observationPayloadValue_eq_ok hd with ⟨hsome,value,rfl⟩ | ⟨hnone,rfl⟩
  · rcases observationPayloadValue_eq_ok he with ⟨hsome',-⟩ | ⟨-,h⟩
    · exact ⟨hsome.trans hsome'.symm,fun hnone => by simp [hnone] at hsome⟩
    · exact absurd h htag
  · rcases observationPayloadValue_eq_ok he with ⟨-,value,h⟩ | ⟨hnone',h⟩
    · exact absurd h.symm htag
    · refine ⟨by rw [hnone, hnone'],fun _ => ?_⟩
      have hlist := singleton_inj (variantTable_inj h).2
      injection hlist with hchanges
      exact List.map_injective_iff.mpr observationChangeValue_injective hchanges

/-- Deliveries of one encoding agree in everything that is encoded. The changes are
encoded where no full value is. -/
theorem observationDeliveryValue_inj {d e : ObservationDelivery} {value : PhenixValue}
    (hd : InRange d) (he : InRange e) (hvalue : observationDeliveryValue d = .ok value)
    (hvalue' : observationDeliveryValue e = .ok value) :
    d.address = e.address ∧ d.commit = e.commit ∧ d.fromVersion = e.fromVersion ∧
      d.version = e.version ∧ d.observation = e.observation ∧
      d.snapshot.isSome = e.snapshot.isSome ∧ (d.snapshot = none → d.changes = e.changes) := by
  obtain ⟨payload,hpayload,rfl⟩ := map_eq_ok.mp hvalue
  obtain ⟨payload',hpayload',htable⟩ := map_eq_ok.mp hvalue'
  have hlist := table_inj [key "address",key "commit_id",key "from_version",key "generation",
    key "payload",key "subscription_id",key "value_id",key "version"] (by decide) htable rfl rfl
  simp only [deliveryFields, List.cons.injEq, Prod.mk.injEq, and_true, true_and,
    option.injEq] at hlist
  obtain ⟨haddress,hcommit,hfrom,-,rfl,hobservation,-,hversion⟩ := hlist
  refine ⟨(observableAddressValue_injective haddress).symm,?_,
    (counterValue_inj he.fromVersion hd.fromVersion hfrom).symm,
    (counterValue_inj he.version hd.version hversion).symm,
    (counterValue_inj he.observation hd.observation hobservation).symm,
    observationPayloadValue_inj hpayload hpayload'⟩
  cases hcd : d.commit with
  | none =>
    cases hce : e.commit with
    | none => rfl
    | some c => simp [hcd, hce] at hcommit
  | some c =>
    cases hce : e.commit with
    | none => simp [hcd, hce] at hcommit
    | some c' =>
      simp only [hcd, hce, Option.map_some, Option.some.injEq] at hcommit
      rw [counterValue_inj (he.commit c' hce) (hd.commit c hcd) hcommit]

end PhenixConductor.Sdk

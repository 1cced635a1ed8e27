import PhenixConductor.Contract.Parse

/-! # Addresses, subscriptions and changes of the observable store

The data of the observable API.
-/
namespace PhenixConductor.Observable
open Contract

def u64Max : ℕ := 2 ^ 64 - 1
def usizeMax : ℕ := 2 ^ 64 - 1

/-- `saturating_add(1)` on a 64-bit counter. -/
def saturatingSucc (n : ℕ) : ℕ := min (n + 1) u64Max

theorem saturatingSucc_of_lt {n : ℕ} (h : n < u64Max) : saturatingSucc n = n + 1 := min_eq_left h

abbrev ValueVersion := ℕ
abbrev CommitId := ℕ
abbrev ObservationId := ℕ
abbrev ObservationGeneration := ℕ

inductive ValuePathSegment where
  | field (key : Key)
  | mapKey (key : String)
  | index (index : UInt32)
  | variantPayload
  | optionPayload
  deriving DecidableEq

namespace ValuePathSegment

/-- The derived order: constructors first, then their contents. -/
def rank : ValuePathSegment → ℕ ×ₗ String ×ₗ ℕ
  | .field key => toLex (0,toLex (key.text,0))
  | .mapKey key => toLex (1,toLex (key,0))
  | .index i => toLex (2,toLex ("",i.toNat))
  | .variantPayload => toLex (3,toLex ("",0))
  | .optionPayload => toLex (4,toLex ("",0))

theorem rank_injective : Function.Injective rank := by
  intro s t h
  cases s <;> cases t <;> simp [rank, Prod.ext_iff] at h <;>
    simp_all [UInt32.toNat_inj, Key.text_injective.eq_iff]

instance : LinearOrder ValuePathSegment := LinearOrder.lift' rank rank_injective

end ValuePathSegment

/-- The derived `Debug` text of a string, without the escapes of
unprintable characters outside the control range. -/
def debugString (text : String) : String :=
  let escape (c : Char) : String :=
    if c = '"' then "\\\"" else if c = '\\' then "\\\\" else if c = '\n' then "\\n"
    else if c = '\r' then "\\r" else if c = '\t' then "\\t" else if c.toNat = 0 then "\\0"
    else if isControl c then
      "\\u\x7b" ++ String.ofList (Nat.toDigits 16 c.toNat) ++ "\x7d"
    else c.toString
  "\"" ++ String.join (text.toList.map escape) ++ "\""

/-- The derived `Debug` text of a segment. -/
def ValuePathSegment.debug : ValuePathSegment → String
  | .field key => "Field(Key(" ++ debugString key.text ++ "))"
  | .mapKey key => "MapKey(" ++ debugString key ++ ")"
  | .index i => "Index(" ++ toString i.toNat ++ ")"
  | .variantPayload => "VariantPayload"
  | .optionPayload => "OptionPayload"

abbrev ValuePath := List ValuePathSegment

namespace ValuePath

/-- `self.starts_with(prefix)`. -/
def startsWith (path pre : ValuePath) : Bool := pre.isPrefixOf path

theorem startsWith_iff (path pre : ValuePath) : startsWith path pre = true ↔ pre <+: path :=
  List.isPrefixOf_iff_prefix

/-- The rest of the path below a prefix of it. -/
def relativeTo (path pre : ValuePath) : Option ValuePath :=
  if startsWith path pre then some (path.drop pre.length) else none

end ValuePath

structure ValueAddress where
  value : ValueId
  path : ValuePath
  deriving DecidableEq

inductive ObservationScope where
  | exact | recursive
  deriving DecidableEq

inductive ObservationMode where
  | diff | full
  deriving DecidableEq

inductive SnapshotPolicy where
  | currentOnly | copyOnChange
  deriving DecidableEq

inductive InitialObservation where
  | none | full
  deriving DecidableEq

def ObservationMode.debug : ObservationMode → String
  | .diff => "Diff"
  | .full => "Full"

def SnapshotPolicy.debug : SnapshotPolicy → String
  | .currentOnly => "CurrentOnly"
  | .copyOnChange => "CopyOnChange"

def InitialObservation.debug : InitialObservation → String
  | .none => "None"
  | .full => "Full"

structure ObservationSpec where
  address : ValueAddress
  scope : ObservationScope
  mode : ObservationMode
  initial : InitialObservation
  deriving DecidableEq

inductive ValueChange where
  | replace (path : ValuePath) (value : PhenixValue)
  | remove (path : ValuePath)
  | splice (path : ValuePath) (start deleteCount : UInt32) (inserted : List PhenixValue)

def ValueChange.path : ValueChange → ValuePath
  | .replace path _ | .remove path | .splice path _ _ _ => path

namespace ValueChange

@[simp] theorem path_replace (path : ValuePath) (value : PhenixValue) :
    (replace path value).path = path := rfl
@[simp] theorem path_remove (path : ValuePath) : (remove path).path = path := rfl
@[simp] theorem path_splice (path : ValuePath) (start deleteCount : UInt32)
    (inserted : List PhenixValue) : (splice path start deleteCount inserted).path = path := rfl

end ValueChange

inductive ObservableError where
  | unknownValue (value : ValueId)
  | duplicateValue (value : ValueId)
  | invalidPath (value : ValueId) (path : ValuePath) (message : String)
  | schemaMismatch (value : ValueId) (path : ValuePath) (message : String)
  | staleReference (value : ValueId)
  | unsupportedSnapshotPolicy (value : ValueId) (policy : SnapshotPolicy)
      (mode : ObservationMode) (initial : InitialObservation)
  | transactionConflict (value : ValueId) (message : String)
  | subscriptionCapacity
  | closed
  deriving DecidableEq

namespace ObservableError

/-- The `Display` text. -/
def text : ObservableError → String
  | .unknownValue value => "unknown observable value " ++ value.text
  | .duplicateValue value => "observable value " ++ value.text ++ " is already registered"
  | .invalidPath value _ message =>
    "invalid path for observable value " ++ value.text ++ ": " ++ message
  | .schemaMismatch value _ message =>
    "observable value " ++ value.text ++ " schema mismatch: " ++ message
  | .staleReference value => "stale observable reference " ++ value.text
  | .unsupportedSnapshotPolicy value policy mode initial =>
    "observable value " ++ value.text ++ " with " ++ policy.debug ++ " cannot satisfy " ++
      mode.debug ++ "/" ++ initial.debug
  | .transactionConflict value message =>
    "observable transaction conflict for " ++ value.text ++ ": " ++ message
  | .subscriptionCapacity => "observable subscription capacity reached"
  | .closed => "observable store is closed"

end ObservableError

structure ObservableRegistration where
  id : ValueId
  owner : PluginId
  schema : PhenixSchema
  snapshotPolicy : SnapshotPolicy
  initial : PhenixValue

/-- What a handler is called with. The address carries the value it belongs to. -/
structure ObservationDelivery where
  commit : Option CommitId
  value : ValueId
  fromVersion : ValueVersion
  version : ValueVersion
  address : ValueAddress
  observation : ObservationId
  generation : ObservationGeneration
  changes : List ValueChange
  snapshot : Option PhenixValue

/-- The handle that `subscribe` returns. -/
structure ObservationSubscription where
  id : ObservationId
  generation : ObservationGeneration
  deriving DecidableEq

end PhenixConductor.Observable

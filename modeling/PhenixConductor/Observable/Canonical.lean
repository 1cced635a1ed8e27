import PhenixConductor.Observable.Transaction

/-! # Canonical changes of a transaction

At commit the touched mutations of a root are selected, sorted by path and compared with the
values that the undo log gives back.
-/
namespace PhenixConductor.Observable
open Contract

/-- A selected whole mutation at or above the path. -/
def coveredBy (selected : List TouchedMutation) (path : ValuePath) : Bool :=
  selected.any fun existing => path.startsWith existing.path && existing.kind.isWhole

/-- One round of the selection loop. -/
def selectTouched (selected : List TouchedMutation) (touched : TouchedMutation) :
    List TouchedMutation :=
  if coveredBy selected touched.path then selected
  else if touched.kind.isWhole then
    (selected.filter fun existing => !existing.path.startsWith touched.path) ++ [touched]
  else selected ++ [touched]

/-- One undo record replayed on the probe of `original_at`. `current` is the
value of the root at commit. -/
def probeUndo (current : PhenixValue) (value : ValueId) (path : ValuePath)
    (probe : Option PhenixValue) : UndoRecord → Except (Failure String) (Option PhenixValue)
  | .replace undoValue undoPath previous =>
    if undoValue ≠ value then .ok probe
    else if undoPath = path then .ok previous
    else if undoPath.startsWith path then
      match probe with
      | some probeValue =>
        ((restoreOptional previous probeValue (undoPath.drop path.length)).map some).mapError .error
      | none => .ok none
    else if path.startsWith undoPath then
      .ok (previous.bind fun previous => valueAtOptional previous (path.drop undoPath.length))
    else .ok probe
  | .splice undoValue undoPath start insertedCount removed =>
    if undoValue ≠ value then .ok probe
    else if undoPath = path then
      match probe with
      | some (.list items) =>
        match unsplice items start insertedCount removed with
        | some items => .ok (some (.list items))
        | none => .error (.panic splicePanic)
      | probe => .ok probe
    else if undoPath.startsWith path then
      match probe with
      | some probeValue =>
        match valueAtMut probeValue (undoPath.drop path.length) with
        | .ok (.list items,put) =>
          match unsplice items start insertedCount removed with
          | some items => .ok (some (put (.list items)))
          | none => .error (.panic splicePanic)
        | _ => .ok (some probeValue)
      | none => .ok none
    else if path.startsWith undoPath then
      -- The container is read from the committed value, not from the probe's point in time.
      match valueAtOptional current undoPath with
      | some (.list items) =>
        match unsplice items start insertedCount removed with
        | some items => .ok (valueAtOptional (.list items) (path.drop undoPath.length))
        | none => .error (.panic splicePanic)
      | _ => .ok probe
    else .ok probe

/-- Replay of the records, newest first. -/
def probeUndos (current : PhenixValue) (value : ValueId) (path : ValuePath) :
    Option PhenixValue → List UndoRecord → Except (Failure String) (Option PhenixValue)
  | probe, [] => .ok probe
  | probe, undo :: rest => do
    let probe ← probeUndo current value path probe undo
    probeUndos current value path probe rest

def Failure.conflict (value : ValueId) : Failure String → Failure ObservableError
  | .error message => .error (.transactionConflict value message)
  | .panic message => .panic message

/-- `original_at`: the value at a path before the transaction. -/
def originalAt (current : PhenixValue) (undo : List UndoRecord) (value : ValueId)
    (path : ValuePath) : Except (Failure ObservableError) (Option PhenixValue) :=
  (probeUndos current value path (valueAtOptional current path) undo.reverse).mapError
    (Failure.conflict value)

/-- The change that a selected mutation stands for, if its path has changed. -/
def canonicalChange (current : PhenixValue) (touched : TouchedMutation)
    (original : Option PhenixValue) : Option ValueChange :=
  let now := valueAtOptional current touched.path
  if PhenixValue.compareOption F64.partialEq now original then none
  else
    match touched.kind, now with
    | .splice start deleteCount inserted, _ =>
      some (.splice touched.path start deleteCount inserted)
    | _, some now => some (.replace touched.path now)
    | _, none => some (.remove touched.path)

/-- The selected mutations of a root in path order; the sort is stable. -/
def selectedTouched (touched : List TouchedMutation) (value : ValueId) : List TouchedMutation :=
  ((touched.filter (·.value = value)).foldl selectTouched []).insertionSort
    fun left right => left.path ≤ right.path

/-- `canonicalize_root`, for the committed value of the root. -/
def canonicalizeRoot (current : PhenixValue) (undo : List UndoRecord)
    (touched : List TouchedMutation) (value : ValueId) :
    Except (Failure ObservableError) (List ValueChange) := do
  let changes ← (selectedTouched touched value).mapM fun touched => do
    let original ← originalAt current undo value touched.path
    return canonicalChange current touched original
  return changes.reduceOption

/-! ## Changes relative to a subscription -/

/-- `rebase_change`. -/
def rebaseChange (path : ValuePath) : ValueChange → ValueChange
  | .replace _ value => .replace path value
  | .remove _ => .remove path
  | .splice _ start deleteCount inserted => .splice path start deleteCount inserted

/-- The filter of `changes_for_subscription`. -/
def ObservationSpec.matches (spec : ObservationSpec) (path : ValuePath) : Bool :=
  match spec.scope with
  | .exact => path = spec.address.path || spec.address.path.startsWith path
  | .recursive => path.startsWith spec.address.path || spec.address.path.startsWith path

/-- A matching change strictly above the address. -/
def ObservationSpec.above (spec : ObservationSpec) (path : ValuePath) : Bool :=
  spec.matches path && spec.address.path.startsWith path && path ≠ spec.address.path

/-- A matching change at or below the address, rebased to it. -/
def ObservationSpec.rebase (spec : ObservationSpec) (change : ValueChange) : Option ValueChange :=
  if spec.matches change.path && !spec.above change.path then
    (ValuePath.relativeTo change.path spec.address.path).map fun path => rebaseChange path change
  else none

/-- `changes_for_subscription`. A change above the address stands for the whole
observed value. -/
def changesForSubscription (spec : ObservationSpec) (changes : List ValueChange)
    (currentRoot : PhenixValue) : List ValueChange :=
  if changes.any fun change => spec.above change.path then
    match valueAtOptional currentRoot spec.address.path with
    | some value => [.replace [] value]
    | none => [.remove []]
  else changes.filterMap spec.rebase

end PhenixConductor.Observable

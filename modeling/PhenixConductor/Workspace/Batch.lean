import PhenixConductor.Collections.BTreeMap
import PhenixConductor.Collections.Fallible

/-! # Batch writes of the workspace

A batch names files by relative paths and says which version of each it expects.
-/
namespace PhenixConductor.Workspace

/-- The components of a path under the root. -/
abbrev ResolvedPath := List String

abbrev Bytes := List UInt8

/-- The files of the workspace. -/
abbrev Files := ResolvedPath → Option Bytes

inductive WorkspaceFileVersion
  | absent
  | present (contentHash : String)
deriving DecidableEq

structure WorkspaceWrite where
  path : String
  content : String
  expectedVersion : WorkspaceFileVersion

structure WorkspaceWrittenFile where
  path : String
  version : WorkspaceFileVersion
deriving DecidableEq

structure WorkspaceVersionConflict where
  path : String
  expectedVersion : WorkspaceFileVersion
  observedVersion : WorkspaceFileVersion
deriving DecidableEq

/-- The responses to a batch. -/
inductive WorkspaceResponse
  | versionConflict (conflicts : List WorkspaceVersionConflict)
  | writtenBatch (files : List WorkspaceWrittenFile)
deriving DecidableEq

/-- How writing a file fails: before the file is opened, which leaves it as it is, or after some
bytes of the content are in it. -/
inductive WriteFault
  | createParent (error : String)
  | write (error : String) (written : Option ℕ)

/-- Which operations on the files of a batch fail, by the place of the file in it. -/
structure Faults where
  read : ℕ → Option String
  write : ℕ → Option WriteFault

def Faults.none : Faults := ⟨fun _ => .none,fun _ => .none⟩

/-- The parts between slashes. -/
def pathPieces (path : String) : List String := (path.toList.splitOn '/').map .ofList

def resolve (input : String) : Except String ResolvedPath :=
  if input.toList.head? = some '/' then .error "workspace paths must be relative"
  else if ".." ∈ pathPieces input then .error "workspace path escapes the configured root"
  else .ok ((pathPieces input).filter fun piece => piece ≠ "" && piece ≠ ".")

structure PreparedWrite where
  write : WorkspaceWrite
  resolved : ResolvedPath
  observed : WorkspaceFileVersion
  desired : WorkspaceFileVersion

def WorkspaceWrite.bytes (write : WorkspaceWrite) : Bytes := write.content.toUTF8.toList

section Batch
variable (hash : Bytes → String)

def versionForBytes (bytes : Bytes) : WorkspaceFileVersion := .present (hash bytes)

/-- The version of a file, or of its absence. -/
def versionAt (files : Files) (resolved : ResolvedPath) : WorkspaceFileVersion :=
  match files resolved with
  | some bytes => versionForBytes hash bytes
  | none => .absent

def inspectVersion (fault : Option String) (files : Files) (resolved : ResolvedPath)
    (path : String) : Except String WorkspaceFileVersion :=
  match fault with
  | some error => .error ("inspect " ++ path ++ ": " ++ error)
  | none => .ok (versionAt hash files resolved)

def writeResolved (fault : Option WriteFault) (files : Files) (resolved : ResolvedPath)
    (path : String) (content : Bytes) : Except String Unit × Files :=
  match fault with
  | none => (.ok (),Function.update files resolved (some content))
  | some (.createParent error) =>
    (.error ("create parent for " ++ path ++ ": " ++ error),files)
  | some (.write error none) => (.error ("write " ++ path ++ ": " ++ error),files)
  | some (.write error (some written)) => (.error ("write " ++ path ++ ": " ++ error),
      Function.update files resolved (some (content.take written)))

/-- The first loop, at a place in the batch and with the paths before it. -/
def prepareWrites (faults : Faults) (files : Files) :
    ℕ → List String → List WorkspaceWrite → Except String (List PreparedWrite)
  | _, _, [] => .ok []
  | index, paths, write :: writes => do
    if write.path ∈ paths then
      throw ("workspace write batch contains duplicate path: " ++ write.path)
    let resolved ← resolve write.path
    let observed ← inspectVersion hash (faults.read index) files resolved write.path
    let prepared ← prepareWrites faults files (index + 1) (write.path :: paths) writes
    return ⟨write,resolved,observed,versionForBytes hash write.bytes⟩ :: prepared

def versionConflicts (prepared : List PreparedWrite) : List WorkspaceVersionConflict :=
  (prepared.filter fun p => p.observed ≠ p.write.expectedVersion && p.observed ≠ p.desired).map
    fun p => ⟨p.write.path,p.write.expectedVersion,p.observed⟩

/-- The second loop. A file that has its content already is not written again. -/
def materialize (faults : Faults) :
    ℕ → Files → List PreparedWrite → Except String (List WorkspaceWrittenFile) × Files
  | _, files, [] => (.ok [],files)
  | index, files, p :: prepared =>
    let (result,files) :=
      if p.observed ≠ p.desired then
        writeResolved (faults.write index) files p.resolved p.write.path p.write.bytes
      else (.ok (),files)
    match result with
    | .error error => (.error error,files)
    | .ok _ =>
      let (written,files) := materialize faults (index + 1) files prepared
      (written.map (⟨p.write.path,p.desired⟩ :: ·),files)

def writeBatch (authorized : Bool) (faults : Faults) (files : Files)
    (writes : List WorkspaceWrite) : Except String WorkspaceResponse × Files :=
  if !authorized then (.error "workspace authority denied: workspace.write",files)
  else if writes.isEmpty then (.error "workspace write batch must not be empty",files)
  else
    match prepareWrites hash faults files 0 [] writes with
    | .error error => (.error error,files)
    | .ok prepared =>
      if versionConflicts prepared ≠ [] then
        (.ok (.versionConflict (versionConflicts prepared)),files)
      else
        let (written,files) := materialize faults 0 files prepared
        (written.map .writtenBatch,files)

end Batch

end PhenixConductor.Workspace

/-! ## Batches as compare-and-swap

A batch changes nothing unless every file has the version that is expected of it or its content
already, and an interrupted batch can be repeated. Both hold exactly where two entries of an
acceptable batch never name one file in two spellings, and an interrupted write leaves a version
that the batch accepts.
-/
namespace PhenixConductor.Workspace
open Collections List
variable {hash : Bytes → String} {files : Files} {writes : List WorkspaceWrite}
  {prepared : List PreparedWrite} {faults : Faults}

/-- The file that a write names. -/
def WorkspaceWrite.target (write : WorkspaceWrite) : ResolvedPath :=
  (resolve write.path).toOption.getD []

def WorkspaceWrite.Resolves (write : WorkspaceWrite) : Prop :=
  resolve write.path = .ok write.target

def WorkspaceWrite.desired (hash : Bytes → String) (write : WorkspaceWrite) :
    WorkspaceFileVersion := versionForBytes hash write.bytes

/-- The file has the expected version, or its content already. -/
def Accepts (hash : Bytes → String) (files : Files) (write : WorkspaceWrite) : Prop :=
  versionAt hash files write.target = write.expectedVersion ∨
    versionAt hash files write.target = write.desired hash

/-- A batch that is refused: a path escapes, a version does not match, or two entries name one
file. -/
def Refused (hash : Bytes → String) (files : Files) (writes : List WorkspaceWrite) : Prop :=
  (∃ write ∈ writes, ¬write.Resolves) ∨ (∃ write ∈ writes, ¬Accepts hash files write) ∨
    ¬(writes.map (·.target)).Nodup

/-- What the code checks before it writes. -/
structure Acceptable (hash : Bytes → String) (authorized : Bool) (files : Files)
    (writes : List WorkspaceWrite) : Prop where
  authorized : authorized = true
  nonempty : writes ≠ []
  paths : (writes.map (·.path)).Nodup
  resolves : ∀ write ∈ writes, write.Resolves
  accepts : ∀ write ∈ writes, Accepts hash files write

/-- The entry that the first loop makes of a write. -/
def prepare (hash : Bytes → String) (files : Files) (write : WorkspaceWrite) : PreparedWrite :=
  ⟨write,write.target,versionAt hash files write.target,write.desired hash⟩

section Prepare

theorem target_eq {write : WorkspaceWrite} {resolved : ResolvedPath}
    (h : resolve write.path = .ok resolved) : write.target = resolved := by
  simp [WorkspaceWrite.target,h,Except.toOption]

theorem prepareWrites_eq_ok {index : ℕ} {paths : List String} :
    prepareWrites hash faults files index paths writes = .ok prepared ↔
      ((writes.map (·.path)).Nodup ∧ (∀ write ∈ writes, write.path ∉ paths) ∧
        (∀ write ∈ writes, write.Resolves) ∧
        ∀ i < writes.length, faults.read (index + i) = none) ∧
      prepared = writes.map (prepare hash files) := by
  induction writes generalizing index paths prepared with
  | nil => simp [prepareWrites,eq_comm]
  | cons write writes ih =>
    rw [prepareWrites]
    by_cases hpath : write.path ∈ paths
    · rw [if_pos hpath]
      refine iff_of_false nofun fun h => ?_
      exact h.1.2.1 write (by simp) hpath
    · rw [if_neg hpath]
      rw [bind_eq_ok]
      constructor
      · rintro ⟨resolved,hresolved,h⟩
        obtain ⟨observed,hobserved,h⟩ := bind_eq_ok.mp h
        obtain ⟨rest,hrest,h⟩ := bind_eq_ok.mp h
        cases h
        obtain ⟨⟨hnodup,hfresh,hresolves,hreads⟩,rfl⟩ := ih.mp hrest
        have hread : faults.read index = none ∧ observed = versionAt hash files resolved := by
          unfold inspectVersion at hobserved
          split at hobserved
          · cases hobserved
          · next hnone => exact ⟨hnone,(Except.ok.inj hobserved).symm⟩
        have htarget := target_eq hresolved
        refine ⟨⟨?_,?_,?_,?_⟩,?_⟩
        · refine nodup_cons.mpr ⟨fun hmem => ?_,hnodup⟩
          obtain ⟨other,hother,hsame⟩ := mem_map.mp hmem
          exact hfresh other hother (hsame ▸ mem_cons_self)
        · exact forall_mem_cons.mpr
            ⟨hpath,fun other hother hmem => hfresh other hother (mem_cons_of_mem _ hmem)⟩
        · refine forall_mem_cons.mpr ⟨?_,hresolves⟩
          rw [WorkspaceWrite.Resolves,htarget,hresolved]
        · intro i hi
          cases i with
          | zero => exact hread.1
          | succ i =>
            rw [← Nat.add_assoc,Nat.add_right_comm]
            exact hreads i (by simpa using hi)
        · rw [map_cons,prepare,htarget,hread.2]
          rfl
      · rintro ⟨⟨hnodup,hfresh,hresolves,hreads⟩,rfl⟩
        obtain ⟨hnew,hnodup⟩ := nodup_cons.mp hnodup
        obtain ⟨hresolve,hresolves⟩ := forall_mem_cons.mp hresolves
        have hread : faults.read index = none := hreads 0 (by simp)
        refine ⟨write.target,hresolve,bind_eq_ok.mpr ⟨versionAt hash files write.target,?_,?_⟩⟩
        · rw [hread]
          rfl
        · refine bind_eq_ok.mpr ⟨writes.map (prepare hash files),ih.mpr ⟨⟨hnodup,?_,hresolves,?_⟩,rfl⟩,
            rfl⟩
          · intro other hother hmem
            rcases mem_cons.mp hmem with hsame | hmem
            · exact hnew (mem_map.mpr ⟨other,hother,hsame⟩)
            · exact hfresh other (mem_cons_of_mem _ hother) hmem
          · intro i hi
            rw [Nat.add_right_comm]
            exact hreads (i + 1) (by simpa using hi)

theorem versionConflicts_eq_nil :
    versionConflicts (writes.map (prepare hash files)) = [] ↔
      ∀ write ∈ writes, Accepts hash files write := by
  rw [versionConflicts,map_eq_nil_iff,filter_eq_nil_iff,forall_mem_map]
  refine forall₂_congr fun write _ => ?_
  have hconflict : (decide (versionAt hash files write.target ≠ write.expectedVersion) &&
      decide (versionAt hash files write.target ≠ write.desired hash)) = true ↔
        ¬Accepts hash files write := by simp [Accepts]
  exact (not_congr hconflict).trans not_not

end Prepare

section Materialize

/-- The files after an entry that is written without a fault. -/
def PreparedWrite.apply (files : Files) (p : PreparedWrite) : Files :=
  if p.observed ≠ p.desired then Function.update files p.resolved (some p.write.bytes) else files

def applied (files : Files) (prepared : List PreparedWrite) : Files :=
  prepared.foldl PreparedWrite.apply files

/-- What a failing write leaves. -/
def left (fault : WriteFault) (files : Files) (p : PreparedWrite) : Files :=
  (writeResolved (some fault) files p.resolved p.write.path p.write.bytes).2

/-- No entry that is written fails, from a place on. -/
def Unfailing (faults : Faults) (index : ℕ) (prepared : List PreparedWrite) : Prop :=
  ∀ i p, prepared[i]? = some p → p.observed ≠ p.desired → faults.write (index + i) = none

variable {index : ℕ} {p : PreparedWrite}

theorem unfailing_cons : Unfailing faults index (p :: prepared) ↔
      (p.observed ≠ p.desired → faults.write index = none) ∧
        Unfailing faults (index + 1) prepared := by
  constructor
  · intro h
    refine ⟨h 0 p rfl,fun i q hq hne => ?_⟩
    rw [Nat.add_right_comm]
    exact h (i + 1) q hq hne
  · rintro ⟨hfirst,hrest⟩ i q hq hne
    cases i with
    | zero =>
      cases hq
      exact hfirst hne
    | succ i =>
      rw [← Nat.add_assoc,Nat.add_right_comm]
      exact hrest i q hq hne

open PreparedWrite (apply)
theorem materialize_of_unfailing (h : Unfailing faults index prepared) :
    materialize faults index files prepared =
      (.ok (prepared.map fun p => ⟨p.write.path,p.desired⟩),applied files prepared) := by
  induction prepared generalizing index files with
  | nil => rfl
  | cons p prepared ih =>
    obtain ⟨hfirst,hrest⟩ := unfailing_cons.mp h
    rw [materialize]
    by_cases hne : p.observed ≠ p.desired
    · rw [if_pos hne,hfirst hne]
      dsimp only [writeResolved]
      rw [ih hrest,applied,applied,foldl_cons,apply,if_pos hne]
      rfl
    · rw [if_neg hne]
      dsimp only
      rw [ih hrest,applied,applied,foldl_cons,apply,if_neg hne]
      rfl

theorem writeResolved_fault (fault : WriteFault) (files : Files) (p : PreparedWrite) :
    ∃ error, (writeResolved (some fault) files p.resolved p.write.path p.write.bytes).1 =
      .error error := by
  cases fault with
  | createParent error => exact ⟨_,rfl⟩
  | write error written => cases written <;> exact ⟨_,rfl⟩

open Function (update update_of_ne)
/-- The loop ends at the first entry that fails. -/
theorem materialize_at_fault {before after : List PreparedWrite} {fault : WriteFault}
    (hbefore : Unfailing faults index before) (hne : p.observed ≠ p.desired)
    (hfault : faults.write (index + before.length) = some fault) :
    ∃ error, materialize faults index files (before ++ p :: after) =
      (.error error,left fault (applied files before) p) := by
  induction before generalizing index files with
  | nil =>
    obtain ⟨error,herror⟩ := writeResolved_fault fault files p
    refine ⟨error,?_⟩
    change faults.write index = some fault at hfault
    rw [nil_append,materialize,if_pos hne,hfault]
    dsimp only
    rw [herror]
    rfl
  | cons q before ih =>
    obtain ⟨hfirst,hbefore⟩ := unfailing_cons.mp hbefore
    rw [length_cons,← Nat.add_assoc,Nat.add_right_comm] at hfault
    rw [cons_append,materialize,applied,foldl_cons,apply]
    by_cases hneeded : q.observed ≠ q.desired
    · obtain ⟨error,herror⟩ : ∃ error, materialize faults (index + 1)
          (update files q.resolved (some q.write.bytes)) (before ++ p :: after) =
          (.error error,_) := ih hbefore hfault
      refine ⟨error,?_⟩
      rw [if_pos hneeded,if_pos hneeded,hfirst hneeded]
      dsimp only [writeResolved]
      rw [herror]
      rfl
    · obtain ⟨error,herror⟩ : ∃ error, materialize faults (index + 1) files
          (before ++ p :: after) = (.error error,_) := ih hbefore hfault
      refine ⟨error,?_⟩
      rw [if_neg hneeded,if_neg hneeded]
      dsimp only
      rw [herror]
      rfl

/-- Either no entry fails or one fails first. -/
theorem unfailing_or (faults : Faults) (index : ℕ) (prepared : List PreparedWrite) :
    Unfailing faults index prepared ∨
      ∃ before p after fault, prepared = before ++ p :: after ∧ Unfailing faults index before ∧
        p.observed ≠ p.desired ∧ faults.write (index + before.length) = some fault := by
  induction prepared generalizing index with
  | nil => exact .inl fun i p hp => by simp at hp
  | cons p prepared ih =>
    by_cases hfirst : p.observed ≠ p.desired → faults.write index = none
    · rcases ih (index + 1) with hrest | ⟨before,q,after,fault,rfl,hbefore,hne,hfault⟩
      · exact .inl (unfailing_cons.mpr ⟨hfirst,hrest⟩)
      · refine .inr ⟨p :: before,q,after,fault,rfl,unfailing_cons.mpr ⟨hfirst,hbefore⟩,hne,?_⟩
        rw [length_cons,← Nat.add_assoc,Nat.add_right_comm]
        exact hfault
    · obtain ⟨hne,hsome⟩ := Classical.not_imp.mp hfirst
      obtain ⟨fault,hfault⟩ := Option.ne_none_iff_exists'.mp hsome
      exact .inr ⟨[],p,prepared,fault,rfl,fun i q hq => by simp at hq,hne,hfault⟩

theorem applied_other {r : ResolvedPath} (h : ∀ p ∈ prepared, p.resolved ≠ r) :
    applied files prepared r = files r := by
  induction prepared generalizing files with
  | nil => rfl
  | cons p prepared ih =>
    obtain ⟨hp,hrest⟩ := forall_mem_cons.mp h
    refine (ih hrest).trans ?_
    unfold apply
    split_ifs
    · exact update_of_ne hp.symm _ _
    · rfl

theorem applied_mem (hnodup : (prepared.map (·.resolved)).Nodup) (hp : p ∈ prepared) :
    applied files prepared p.resolved =
      if p.observed ≠ p.desired then some p.write.bytes else files p.resolved := by
  induction prepared generalizing files with
  | nil => cases hp
  | cons q prepared ih =>
    obtain ⟨hfresh,hnodup⟩ := nodup_cons.mp hnodup
    rcases mem_cons.mp hp with rfl | hp
    · have hother : ∀ later ∈ prepared, later.resolved ≠ p.resolved := fun later hlater he =>
        hfresh (mem_map.mpr ⟨later,hlater,he⟩)
      refine (applied_other hother).trans ?_
      unfold apply
      split_ifs
      · exact Function.update_self ..
      · rfl
    · have hne : p.resolved ≠ q.resolved := fun he => hfresh (mem_map.mpr ⟨p,hp,he⟩)
      have hsame : q.apply files p.resolved = files p.resolved := by
        unfold apply
        split_ifs
        · exact update_of_ne hne _ _
        · rfl
      rw [← hsame]
      exact ih hnodup hp

theorem left_other {fault : WriteFault} {r : ResolvedPath} (h : r ≠ p.resolved) :
    left fault files p r = files r := by
  unfold left writeResolved
  split
  · exact update_of_ne h _ _
  · rfl
  · rfl
  · exact update_of_ne h _ _

end Materialize

section Runs
variable {authorized : Bool}

/-- The file does not have its content yet. -/
def Needed (hash : Bytes → String) (files : Files) (write : WorkspaceWrite) : Prop :=
  versionAt hash files write.target ≠ write.desired hash

/-- No text stands for two contents: neither those on disk nor their beginnings. -/
def CollisionFree (hash : Bytes → String) (files : Files) (writes : List WorkspaceWrite) : Prop :=
  ∀ write ∈ writes,
    (∀ bytes, files write.target = some bytes → hash bytes = hash write.bytes →
      bytes = write.bytes) ∧
    ∀ n, hash (write.bytes.take n) = hash write.bytes → write.bytes.take n = write.bytes

/-- The first write of the batch that fails leaves a version that the batch accepts. -/
def Recoverable (hash : Bytes → String) (faults : Faults) (files : Files)
    (writes : List WorkspaceWrite) : Prop :=
  ∀ before write after fault, writes = before ++ write :: after → Needed hash files write →
    faults.write before.length = some fault →
    (∀ i earlier, before[i]? = some earlier → Needed hash files earlier →
      faults.write i = none) →
    Accepts hash (left fault files (prepare hash files write)) write

/-- Two entries of an acceptable batch name two files, and a fault leaves what can be repeated. -/
def Sound (hash : Bytes → String) (authorized : Bool) (faults : Faults) (files : Files)
    (writes : List WorkspaceWrite) : Prop :=
  Acceptable hash authorized files writes → (writes.map (·.target)).Nodup ∧
    ((∀ i < writes.length, faults.read i = none) → Recoverable hash faults files writes)

/-- A refused batch changes nothing, whatever fails; a written one has written exactly what it
says; and one that an error interrupts comes to the same when it is repeated. -/
structure CompareAndSwap (hash : Bytes → String) (authorized : Bool) (faults : Faults)
    (files : Files) (writes : List WorkspaceWrite) : Prop where
  refused : Refused hash files writes → ∀ io,
    (∀ written, (writeBatch hash authorized io files writes).1 ≠ .ok (.writtenBatch written)) ∧
      (writeBatch hash authorized io files writes).2 = files
  written : ∀ written,
    (writeBatch hash authorized faults files writes).1 = .ok (.writtenBatch written) →
      (∀ write ∈ writes, (writeBatch hash authorized faults files writes).2 write.target =
        some write.bytes) ∧
      written = (writes.map fun write => ⟨write.path,
        versionAt hash (writeBatch hash authorized faults files writes).2 write.target⟩) ∧
      ∀ r ∉ writes.map (·.target), (writeBatch hash authorized faults files writes).2 r = files r
  accepted : Acceptable hash authorized files writes →
    ∃ written, (writeBatch hash authorized .none files writes).1 = .ok (.writtenBatch written)
  repeated : ∀ error, (writeBatch hash authorized faults files writes).1 = .error error →
    writeBatch hash authorized .none (writeBatch hash authorized faults files writes).2 writes =
      writeBatch hash authorized .none files writes

/-- The entries of the batch as the first loop makes them. -/
def prepareAll (hash : Bytes → String) (files : Files) (writes : List WorkspaceWrite) :
    List PreparedWrite := writes.map (prepare hash files)

theorem resolved_prepareAll :
    (prepareAll hash files writes).map (·.resolved) = writes.map (·.target) := by
  simp [prepareAll,prepare,Function.comp_def]

/-- A batch that is not acceptable is not written. -/
theorem writeBatch_of_not_acceptable (h : ¬Acceptable hash authorized files writes)
    (faults : Faults) :
    (∀ written, (writeBatch hash authorized faults files writes).1 ≠
        .ok (.writtenBatch written)) ∧
      (writeBatch hash authorized faults files writes).2 = files := by
  unfold writeBatch
  by_cases hauthorized : authorized = true
  · rw [hauthorized]
    by_cases hempty : writes.isEmpty = true
    · rw [if_pos hempty]
      exact ⟨nofun,rfl⟩
    · rw [if_neg hempty]
      cases hprepare : prepareWrites hash faults files 0 [] writes with
      | error error => exact ⟨nofun,rfl⟩
      | ok prepared =>
        obtain ⟨⟨hpaths,-,hresolves,-⟩,rfl⟩ := prepareWrites_eq_ok.mp hprepare
        have hconflicts : versionConflicts (writes.map (prepare hash files)) ≠ [] := by
          intro hnil
          exact h ⟨hauthorized,by simpa using hempty,hpaths,hresolves,
            versionConflicts_eq_nil.mp hnil⟩
        dsimp only
        rw [if_pos hconflicts]
        exact ⟨nofun,rfl⟩
  · rw [if_pos (by simpa using hauthorized)]
    exact ⟨nofun,rfl⟩

/-- A read that fails ends the batch before it writes. -/
theorem writeBatch_of_read {i : ℕ} {message : String} (hi : i < writes.length)
    (hread : faults.read i = some message) :
    (∀ written, (writeBatch hash authorized faults files writes).1 ≠
        .ok (.writtenBatch written)) ∧
      (writeBatch hash authorized faults files writes).2 = files := by
  unfold writeBatch
  split_ifs
  · exact ⟨nofun,rfl⟩
  · exact ⟨nofun,rfl⟩
  · cases hprepare : prepareWrites hash faults files 0 [] writes with
    | error error => exact ⟨nofun,rfl⟩
    | ok prepared =>
      have hnone := (prepareWrites_eq_ok.mp hprepare).1.2.2.2 i hi
      rw [Nat.zero_add,hread] at hnone
      cases hnone

/-- An acceptable batch whose files can be read goes on to write. -/
theorem writeBatch_of_acceptable (h : Acceptable hash authorized files writes)
    (hreads : ∀ i < writes.length, faults.read i = none) :
    writeBatch hash authorized faults files writes =
      ((materialize faults 0 files (prepareAll hash files writes)).1.map .writtenBatch,
        (materialize faults 0 files (prepareAll hash files writes)).2) := by
  have hprepare : prepareWrites hash faults files 0 [] writes =
      .ok (prepareAll hash files writes) :=
    prepareWrites_eq_ok.mpr ⟨⟨h.paths,fun _ _ => not_mem_nil,h.resolves,
      fun i hi => by rw [Nat.zero_add]; exact hreads i hi⟩,rfl⟩
  have hconflicts : versionConflicts (prepareAll hash files writes) = [] :=
    versionConflicts_eq_nil.mpr h.accepts
  unfold writeBatch
  rw [h.authorized,if_neg (by simp),if_neg (by simpa using h.nonempty),hprepare]
  dsimp only
  rw [if_neg (not_not_intro hconflicts)]

/-- What an acceptable batch answers. -/
def answer (hash : Bytes → String) (writes : List WorkspaceWrite) : WorkspaceResponse :=
  .writtenBatch (writes.map fun write => ⟨write.path,write.desired hash⟩)

theorem writeBatch_unfailing (h : Acceptable hash authorized files writes)
    (hreads : ∀ i < writes.length, faults.read i = none)
    (hwrites : Unfailing faults 0 (prepareAll hash files writes)) :
    writeBatch hash authorized faults files writes =
      (.ok (answer hash writes),applied files (prepareAll hash files writes)) := by
  rw [writeBatch_of_acceptable h hreads,materialize_of_unfailing hwrites]
  simp [answer,prepareAll,prepare,Except.map,Function.comp_def]

theorem unfailing_none (index : ℕ) (prepared : List PreparedWrite) :
    Unfailing .none index prepared := fun _ _ _ _ => rfl

theorem writeBatch_none (h : Acceptable hash authorized files writes) :
    writeBatch hash authorized .none files writes =
      (.ok (answer hash writes),applied files (prepareAll hash files writes)) :=
  writeBatch_unfailing h (fun _ _ => rfl) (unfailing_none 0 _)

variable {write : WorkspaceWrite}

/-- A file of the batch has its content in the end, whether it was written or not. -/
theorem applied_target
    (hfree : ∀ write ∈ writes, ∀ bytes, files write.target = some bytes → hash bytes = hash write.bytes → bytes = write.bytes)
    (hnodup : (writes.map (·.target)).Nodup) (hwrite : write ∈ writes) :
    applied files (prepareAll hash files writes) write.target = some write.bytes := by
  have hmem : prepare hash files write ∈ prepareAll hash files writes :=
    mem_map.mpr ⟨write,hwrite,rfl⟩
  have hresolved : ((prepareAll hash files writes).map (·.resolved)).Nodup := by
    rwa [resolved_prepareAll]
  have hget : applied files (prepareAll hash files writes) _ = _ := applied_mem hresolved hmem
  refine hget.trans ?_
  change (if versionAt hash files write.target ≠ write.desired hash then some write.bytes
    else files write.target) = some write.bytes
  split_ifs with hneeded
  · rfl
  · have hsame := not_not.mp hneeded
    unfold versionAt WorkspaceWrite.desired versionForBytes at hsame
    cases hbytes : files write.target with
    | none =>
      rw [hbytes] at hsame
      cases hsame
    | some bytes =>
      rw [hbytes] at hsame
      rw [hfree write hwrite bytes hbytes (WorkspaceFileVersion.present.inj hsame)]

theorem applied_unlisted {r : ResolvedPath} (h : r ∉ writes.map (·.target)) :
    applied files (prepareAll hash files writes) r = files r := by
  refine applied_other fun p hp he => h ?_
  obtain ⟨write,hwrite,rfl⟩ := mem_map.mp hp
  exact mem_map.mpr ⟨write,hwrite,he⟩

theorem versionAt_congr {files' : Files} {r : ResolvedPath} (h : files' r = files r) :
    versionAt hash files' r = versionAt hash files r := by
  unfold versionAt
  rw [h]

variable {fault : WriteFault}

/-- What a fault leaves of a file depends on that file only. -/
theorem left_congr {files' : Files} {p : PreparedWrite} (h : files' p.resolved = files p.resolved) :
    left fault files' p p.resolved = left fault files p p.resolved := by
  cases fault with
  | createParent error => exact h
  | write error written =>
    cases written with
    | none => exact h
    | some n =>
      have hpart : ∀ g : Files, left (.write error (some n)) g p p.resolved =
          some (p.write.bytes.take n) := fun g => Function.update_self ..
      rw [hpart,hpart]

/-- A fault leaves the file as it is, or a beginning of the content. -/
theorem left_target (fault : WriteFault) (files : Files) (p : PreparedWrite) :
    left fault files p p.resolved = files p.resolved ∨
      ∃ n, left fault files p p.resolved = some (p.write.bytes.take n) := by
  cases fault with
  | createParent error => exact .inl rfl
  | write error written =>
    cases written with
    | none => exact .inl rfl
    | some n => exact .inr ⟨n,Function.update_self ..⟩

/-- An interrupted batch comes to the same when it is repeated exactly if the entry it stopped at
is accepted. -/
theorem repeated_iff (hfree : CollisionFree hash files writes)
    (h : Acceptable hash authorized files writes) (hnodup : (writes.map (·.target)).Nodup)
    {before after : List WorkspaceWrite} (hwrites : writes = before ++ write :: after) :
    writeBatch hash authorized .none
        (left fault (applied files (prepareAll hash files before)) (prepare hash files write))
        writes = writeBatch hash authorized .none files writes ↔
      Accepts hash (left fault files (prepare hash files write)) write := by
  subst hwrites
  generalize hleft : left fault (applied files (prepareAll hash files before))
    (prepare hash files write) = files'
  rw [map_append, nodup_append] at hnodup
  obtain ⟨hbeforeNodup,hafterNodup,hdisjoint⟩ := hnodup
  obtain ⟨hfresh,hafterNodup⟩ := nodup_cons.mp hafterNodup
  have hnotBefore : write.target ∉ before.map (·.target) := fun hmem =>
    hdisjoint _ hmem _ mem_cons_self rfl
  have hwrite : files' write.target = left fault files (prepare hash files write) write.target := by
    rw [← hleft]
    exact left_congr (applied_unlisted hnotBefore)
  have hother : ∀ r ≠ write.target, files' r = applied files (prepareAll hash files before) r := by
    intro r hr
    rw [← hleft]
    exact left_other hr
  have hbefore : ∀ earlier ∈ before, files' earlier.target = some earlier.bytes := by
    intro earlier hearlier
    have hne : earlier.target ≠ write.target := fun he =>
      hnotBefore (mem_map.mpr ⟨earlier,hearlier,he⟩)
    rw [hother _ hne]
    exact applied_target (fun w hw => (hfree w (by simp [hw])).1) hbeforeNodup hearlier
  have hafter : ∀ later ∈ after, files' later.target = files later.target := by
    intro later hlater
    have hne : later.target ≠ write.target := fun he =>
      hfresh (mem_map.mpr ⟨later,hlater,he⟩)
    rw [hother _ hne]
    refine applied_unlisted fun hmem => ?_
    exact hdisjoint _ hmem _
      (mem_cons_of_mem _ (mem_map.mpr ⟨later,hlater,rfl⟩)) rfl
  have haccepts : Accepts hash files' write ↔
      Accepts hash (left fault files (prepare hash files write)) write := by
    unfold Accepts
    rw [versionAt_congr hwrite]
  rw [← haccepts,writeBatch_none h]
  constructor
  · intro hsame
    by_contra hnot
    have hrefused : ¬Acceptable hash authorized files' (before ++ write :: after) :=
      fun hacceptable => hnot (hacceptable.accepts write (by simp))
    exact (writeBatch_of_not_acceptable hrefused .none).1 _ (congrArg Prod.fst hsame)
  · intro haccept
    have hacceptable : Acceptable hash authorized files' (before ++ write :: after) := by
      refine ⟨h.authorized,h.nonempty,h.paths,h.resolves,fun entry hentry => ?_⟩
      rcases mem_append.mp hentry with hmem | hmem
      · refine .inr ?_
        unfold versionAt
        rw [hbefore entry hmem]
        rfl
      · rcases mem_cons.mp hmem with rfl | hmem
        · exact haccept
        · have hsame := h.accepts entry hentry
          unfold Accepts at hsame ⊢
          rwa [versionAt_congr (hafter entry hmem)]
    have hfree' : ∀ entry ∈ before ++ write :: after, ∀ bytes, files' entry.target = some bytes →
        hash bytes = hash entry.bytes → bytes = entry.bytes := by
      intro entry hentry bytes hbytes hhash
      rcases mem_append.mp hentry with hmem | hmem
      · rw [hbefore entry hmem] at hbytes
        exact (Option.some.inj hbytes).symm
      · rcases mem_cons.mp hmem with rfl | hmem
        · rw [hwrite] at hbytes
          rcases left_target fault files (prepare hash files entry) with hsame | ⟨n,hbeginning⟩
          · exact (hfree entry hentry).1 bytes (hsame.symm.trans hbytes) hhash
          · obtain rfl := Option.some.inj (hbeginning.symm.trans hbytes)
            exact (hfree entry hentry).2 n hhash
        · rw [hafter entry hmem] at hbytes
          exact (hfree entry hentry).1 bytes hbytes hhash
    have hnodup : ((before ++ write :: after).map (·.target)).Nodup := by
      rw [map_append, nodup_append]
      exact ⟨hbeforeNodup,nodup_cons.mpr ⟨hfresh,hafterNodup⟩,hdisjoint⟩
    rw [writeBatch_none hacceptable]
    refine congrArg _ (funext fun r => ?_)
    by_cases hr : r ∈ (before ++ write :: after).map (·.target)
    · obtain ⟨entry,hentry,rfl⟩ := mem_map.mp hr
      rw [applied_target hfree' hnodup hentry,
        applied_target (fun w hw => (hfree w hw).1) hnodup hentry]
    · have hne : r ≠ write.target := fun he => hr (mem_map.mpr ⟨write,by simp,he.symm⟩)
      have hunlisted : r ∉ before.map (·.target) := fun hmem =>
        hr (by rw [map_append]; exact mem_append_left _ hmem)
      rw [applied_unlisted hr,applied_unlisted hr,hother r hne,applied_unlisted hunlisted]

/-- The first write of the batch that fails. -/
structure FirstFault (hash : Bytes → String) (faults : Faults) (files : Files)
    (writes before : List WorkspaceWrite) (write : WorkspaceWrite) (after : List WorkspaceWrite)
    (fault : WriteFault) : Prop where
  split : writes = before ++ write :: after
  needed : Needed hash files write
  fault : faults.write before.length = some fault
  first : ∀ i earlier, before[i]? = some earlier → Needed hash files earlier →
    faults.write i = none

theorem writeBatch_at_fault (h : Acceptable hash authorized files writes)
    (hreads : ∀ i < writes.length, faults.read i = none) {before after : List WorkspaceWrite}
    (hfault : FirstFault hash faults files writes before write after fault) :
    ∃ error, writeBatch hash authorized faults files writes = (.error error,
      left fault (applied files (prepareAll hash files before)) (prepare hash files write)) := by
  have hbefore : Unfailing faults 0 (prepareAll hash files before) := by
    intro i p hp hne
    rw [prepareAll,getElem?_map] at hp
    obtain ⟨earlier,hearlier,rfl⟩ := Option.map_eq_some_iff.mp hp
    rw [Nat.zero_add]
    exact hfault.first i earlier hearlier hne
  obtain ⟨error,herror⟩ : ∃ error, materialize faults 0 files (prepareAll hash files before ++
      prepare hash files write :: prepareAll hash files after) = (.error error,_) :=
    materialize_at_fault hbefore hfault.needed
      (by rw [Nat.zero_add,prepareAll,length_map]; exact hfault.fault)
  refine ⟨error,?_⟩
  have hall : prepareAll hash files writes = prepareAll hash files before ++
      prepare hash files write :: prepareAll hash files after := by
    rw [hfault.split]
    simp [prepareAll]
  rw [writeBatch_of_acceptable h hreads,hall,herror]
  rfl

theorem writeBatch_cases (h : Acceptable hash authorized files writes)
    (hreads : ∀ i < writes.length, faults.read i = none) :
    writeBatch hash authorized faults files writes =
        (.ok (answer hash writes),applied files (prepareAll hash files writes)) ∨
      ∃ before write after fault, FirstFault hash faults files writes before write after fault := by
  rcases unfailing_or faults 0 (prepareAll hash files writes) with
    hall | ⟨before',p,after',fault,hsplit,hbefore,hne,hfault⟩
  · exact .inl (writeBatch_unfailing h hreads hall)
  · obtain ⟨before,rest,rfl,rfl,hrest⟩ := map_eq_append_iff.mp hsplit
    obtain ⟨write,after,rfl,rfl,rfl⟩ := map_eq_cons_iff.mp hrest
    refine .inr ⟨before,write,after,fault,rfl,hne,by simpa using hfault,?_⟩
    intro i earlier hearlier hneeded
    have hnone := hbefore i (prepare hash files earlier) (by simp [hearlier]) hneeded
    rwa [Nat.zero_add] at hnone

theorem CompareAndSwap.sound (hfree : CollisionFree hash files writes)
    (h : CompareAndSwap hash authorized faults files writes) :
    Sound hash authorized faults files writes := by
  intro hacceptable
  have hnodup : (writes.map (·.target)).Nodup := by
    by_contra hsame
    obtain ⟨written,hwritten⟩ := h.accepted hacceptable
    exact (h.refused (.inr (.inr hsame)) .none).1 written hwritten
  refine ⟨hnodup,fun hreads before write after fault hwrites hneeded hfault hbefore => ?_⟩
  obtain ⟨error,herror⟩ :=
    writeBatch_at_fault hacceptable hreads ⟨hwrites,hneeded,hfault,hbefore⟩
  have hrepeated := h.repeated error (by rw [herror])
  rw [herror] at hrepeated
  exact (repeated_iff hfree hacceptable hnodup hwrites).mp hrepeated

theorem Sound.compareAndSwap (hfree : CollisionFree hash files writes)
    (h : Sound hash authorized faults files writes) :
    CompareAndSwap hash authorized faults files writes := by
  by_cases hacceptable : Acceptable hash authorized files writes
  · obtain ⟨hnodup,hrecoverable⟩ := h hacceptable
    have htarget := fun write (hwrite : write ∈ writes) =>
      applied_target (fun w hw => (hfree w hw).1) hnodup hwrite
    refine ⟨?_,?_,fun _ => ⟨_,congrArg Prod.fst (writeBatch_none hacceptable)⟩,?_⟩
    · rintro (⟨write,hwrite,hnot⟩ | ⟨write,hwrite,hnot⟩ | hsame)
      · exact absurd (hacceptable.resolves write hwrite) hnot
      · exact absurd (hacceptable.accepts write hwrite) hnot
      · exact absurd hnodup hsame
    · intro written hwritten
      have hreads : ∀ i < writes.length, faults.read i = none := by
        intro i hi
        cases hread : faults.read i with
        | none => rfl
        | some message => exact absurd hwritten ((writeBatch_of_read hi hread).1 written)
      rcases writeBatch_cases hacceptable hreads with hrun | ⟨before,write,after,fault,hfault⟩
      · rw [hrun] at hwritten ⊢
        cases hwritten
        refine ⟨htarget,map_congr_left fun write hwrite => ?_,fun r => applied_unlisted⟩
        dsimp only
        rw [versionAt,htarget write hwrite]
        rfl
      · obtain ⟨error,herror⟩ := writeBatch_at_fault hacceptable hreads hfault
        rw [herror] at hwritten
        cases hwritten
    · intro error herror
      by_cases hreads : ∀ i < writes.length, faults.read i = none
      · rcases writeBatch_cases hacceptable hreads with hrun | ⟨before,write,after,fault,hfault⟩
        · rw [hrun] at herror
          cases herror
        · obtain ⟨_,hrun⟩ := writeBatch_at_fault hacceptable hreads hfault
          rw [hrun]
          refine (repeated_iff hfree hacceptable hnodup hfault.split).mpr ?_
          exact hrecoverable hreads before write after fault hfault.split hfault.needed
            hfault.fault hfault.first
      · push Not at hreads
        obtain ⟨i,hi,hread⟩ := hreads
        obtain ⟨message,hmessage⟩ := Option.ne_none_iff_exists'.mp hread
        rw [(writeBatch_of_read hi hmessage).2]
  · have hunchanged := fun io => writeBatch_of_not_acceptable hacceptable io
    refine ⟨fun _ => hunchanged,fun written hwritten => ?_,fun h => absurd h hacceptable,?_⟩
    · exact absurd hwritten ((hunchanged faults).1 written)
    · intro error _
      rw [(hunchanged faults).2]

end Runs

/-- A batch is a compare-and-swap of its files, and can be repeated where it is interrupted,
exactly where it is sound. -/
theorem compareAndSwap_iff (hash : Bytes → String) (authorized : Bool) (faults : Faults)
    (files : Files) (writes : List WorkspaceWrite) (hfree : CollisionFree hash files writes) :
    CompareAndSwap hash authorized faults files writes ↔
      Sound hash authorized faults files writes :=
  ⟨CompareAndSwap.sound hfree,Sound.compareAndSwap hfree⟩

section Guide

/-- A hash that keeps the content. -/
def plainHash (bytes : Bytes) : String := .ofList (bytes.map fun b => .ofNat b.toNat)

def emptyFile (path : String) : WorkspaceWrite := ⟨path,"",.absent⟩

theorem compareAndSwap_iff_guide :
    CompareAndSwap plainHash true .none (fun _ => none) [emptyFile "a",emptyFile "b"] := by
  refine (compareAndSwap_iff plainHash true .none (fun _ => none) [emptyFile "a",emptyFile "b"]
    ?_).mpr fun _ => ⟨by decide +kernel,fun _ _ _ _ _ _ _ hfault => by cases hfault⟩
  intro write hwrite
  have hempty : write.bytes = [] := by
    rcases mem_cons.mp hwrite with rfl | hwrite
    · decide +kernel
    · obtain rfl := mem_singleton.mp hwrite
      decide +kernel
  exact ⟨nofun,fun n _ => by rw [hempty,take_nil]⟩

/-- Two spellings of one path pass the check for duplicates, and the file is written twice. -/
theorem two_spellings_written :
    Refused plainHash (fun _ => none) [⟨"a","one",.absent⟩,⟨"./a","two",.absent⟩] ∧
    (writeBatch plainHash true .none (fun _ => none)
      [⟨"a","one",.absent⟩,⟨"./a","two",.absent⟩]).1 = .ok (.writtenBatch
        [⟨"a",.present "one"⟩,⟨"./a",.present "two"⟩]) ∧
    (writeBatch plainHash true .none (fun _ => none)
      [⟨"a","one",.absent⟩,⟨"./a","two",.absent⟩]).2 ["a"] = some "two".toUTF8.toList :=
  ⟨.inr (.inr (by decide +kernel)),by decide +kernel,by decide +kernel⟩

end Guide

end PhenixConductor.Workspace

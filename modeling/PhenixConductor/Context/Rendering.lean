import PhenixConductor.Context.Prompt
import PhenixConductor.Context.Readmission
import Mathlib.Data.List.ReduceOption

/-! # The input of an invocation

The sections of the prompt go into the input in the form that the projection gives them, then
the view of the committed checkpoint, then the request.
-/
namespace PhenixConductor.Context

structure ContextInvocationMaterialization where
  input : List UInt8
  projection : ProjectionRevision
deriving DecidableEq

/-- What `append_section` is called with. -/
structure PromptBlock where
  kind : String
  source : String
  content : List UInt8
deriving DecidableEq

/-- `append_section` -/
def appendSection (output : List UInt8) (block : PromptBlock) : List UInt8 :=
  (if output = [] then output else output ++ utf8 "\n") ++ utf8 "--- phenix " ++
    utf8 block.kind ++ utf8 " [" ++ utf8 block.source ++ utf8 "] ---\n" ++ block.content ++
    utf8 "\n"

def PromptSectionKind.label : PromptSectionKind → String
  | .harnessIdentity => "instruction"
  | .projectInstruction => "project-instruction"
  | .skill => "skill"
  | .projectDocument => "project-context"
  | .external => "external-context"

def PromptSection.block (self : PromptSection) : PromptBlock where
  kind := self.kind.label
  source := self.source
  content := self.content

/-- `append_reference` -/
def ExactContextReference.block (self : ExactContextReference) : PromptBlock where
  kind := "context-reference"
  source := "exact"
  content := utf8 self.text

def ContextCheckpoint.block (self : ContextCheckpoint) : PromptBlock where
  kind := "compact-context"
  source := self.checkpointId
  content := self.compactView

def requestBlock (input : List UInt8) : PromptBlock := ⟨"request","user",input⟩

/-- The block shows content, not where it can be found. -/
def PromptBlock.isBody (self : PromptBlock) : Bool := self.kind ≠ "context-reference"

namespace AdmittedContextItem

/-- Where a reference to the item leads. -/
def exactSource (self : AdmittedContextItem) : Option ExactContextReference :=
  self.recovery <|> match self.source with
    | .exact reference => some reference
    | _ => none

/-- What a section leaves in the input that has this item. -/
def sectionBlock (self : AdmittedContextItem) (promptSection : PromptSection) :
    Except String (Option PromptBlock) :=
  if self.retention = .compact then .ok none
  else match self.form with
    | .full => .ok (some promptSection.block)
    | .reference => match self.exactSource with
      | some reference => .ok (some reference.block)
      | none => .error ("context reference has no exact recovery source: " ++ self.id)
    | .omitted => .ok none

end AdmittedContextItem

namespace ContextProjectionState
variable (self : ContextProjectionState)

def requireRevision (expected : ProjectionRevision) : Except String Unit :=
  if self.revision = expected then .ok ()
  else .error ("stale context projection: expected revision " ++
    expected.revision.val.repr ++ " epoch " ++ expected.cacheEpoch.val.repr ++
    ", actual revision " ++ self.revision.revision.val.repr ++ " epoch " ++
    self.revision.cacheEpoch.val.repr)

def sectionBlock (promptSection : PromptSection) : Except String (Option PromptBlock) :=
  match self.admitted.get? promptSection.id with
  | none => .ok none
  | some item => item.sectionBlock promptSection

/-- The ids that the sections and the checkpoint stand for. -/
def represented (assembly : PromptAssembly) : List String :=
  (assembly.sections.map (·.id)).filter (· ∈ self.admitted.keys) ++
    (self.committedCheckpoint.map checkpointCandidateId).toList

def requireRepresented (assembly : PromptAssembly) (item : AdmittedContextItem) :
    Except String Unit :=
  if item.id ∈ self.represented assembly ∨ item.form = .omitted ∨ item.retention = .compact then
    .ok ()
  else .error ("committed context item is not materializable from the current projection: " ++
    item.id)

/-- What goes into the input before the request. -/
def contextBlocks (assembly : PromptAssembly) : Except String (List PromptBlock) := do
  let blocks ← assembly.sections.mapM self.sectionBlock
  self.admitted.values.forM (self.requireRepresented assembly)
  return blocks.reduceOption ++ (self.committedCheckpoint.map ContextCheckpoint.block).toList

/-- `materialize_invocation` -/
def materializeInvocation (assembly : PromptAssembly) (input : List UInt8)
    (expectedProjection : ProjectionRevision) :
    Except String ContextInvocationMaterialization := do
  self.requireRevision expectedProjection
  let blocks ← self.contextBlocks assembly
  return ⟨(blocks ++ [requestBlock input]).foldl appendSection [],self.revision⟩

end ContextProjectionState

end PhenixConductor.Context

/-! ## What a materialization shows

If every reference says where it leads, the blocks before the request are there as soon
as no item is lost, and the contents among them are those of the sections whose items are
admitted in full, and the view of the checkpoint.
-/
namespace PhenixConductor.Context
open Collections

/-- The contents among the blocks. -/
def bodies (blocks : List PromptBlock) : List (List UInt8) :=
  (blocks.filter (·.isBody)).map (·.content)

theorem isBody_section (promptSection : PromptSection) : promptSection.block.isBody = true := by
  cases h : promptSection.kind <;> simp [PromptSection.block, PromptBlock.isBody, h,
    PromptSectionKind.label]

namespace ContextProjectionState
variable {self : ContextProjectionState} {assembly : PromptAssembly}
  {blocks : List PromptBlock}

/-- The section's item is there in full. -/
def Shows (self : ContextProjectionState) (promptSection : PromptSection) : Prop :=
  ∃ item, self.admitted.get? promptSection.id = some item ∧ item.retention ≠ .compact ∧
    item.form = .full

/-- A section leaves its content if it is shown, and otherwise no content. -/
theorem exists_sectionBlock (h : self.Recoverable) (promptSection : PromptSection) :
    ∃ block, self.sectionBlock promptSection = .ok block ∧
      (self.Shows promptSection ∧ block = some promptSection.block ∨
        ¬ self.Shows promptSection ∧ ∀ b, block = some b → b.isBody = false) := by
  unfold sectionBlock Shows
  cases hget : self.admitted.get? promptSection.id with
  | none => simp
  | some item =>
    unfold AdmittedContextItem.sectionBlock
    by_cases hcompact : item.retention = .compact
    · simp [hcompact]
    · cases hform : item.form with
      | full => simp [hcompact, hform]
      | omitted => simp [hcompact, hform]
      | reference =>
        obtain ⟨reference,hrecovery⟩ := Option.isSome_iff_exists.mp
          (h.references _ item hget hform)
        simp [hcompact, hform, AdmittedContextItem.exactSource, hrecovery,
          ExactContextReference.block, PromptBlock.isBody]

theorem sectionBlock_eq_ok_iff (h : self.Recoverable) (promptSection : PromptSection) :
    self.sectionBlock promptSection = .ok (some promptSection.block) ↔
      self.Shows promptSection := by
  obtain ⟨block,hblock,⟨hshows,rfl⟩ | ⟨hshows,hbody⟩⟩ := exists_sectionBlock h promptSection
  · exact iff_of_true hblock hshows
  · apply iff_of_false _ hshows
    rw [hblock]
    rintro ⟨⟩
    simpa [isBody_section] using hbody _ rfl

open Classical in
/-- The contents that the sections leave are those of the sections that are shown. -/
theorem exists_sectionBlocks (h : self.Recoverable) (sections : List PromptSection) :
    ∃ blocks, sections.mapM self.sectionBlock = .ok blocks ∧
      blocks.reduceOption.filter (·.isBody) =
        (sections.filter (self.Shows ·)).map PromptSection.block := by
  induction sections with
  | nil => exact ⟨[],rfl,rfl⟩
  | cons promptSection sections ih =>
    obtain ⟨blocks,hblocks,hfilter⟩ := ih
    obtain ⟨block,hblock,hshown⟩ := exists_sectionBlock h promptSection
    refine ⟨block :: blocks,?_,?_⟩
    · rw [List.mapM_cons, hblock, ok_bind, hblocks]
      rfl
    · rcases hshown with ⟨hshows,rfl⟩ | ⟨hshows,hbody⟩
      · rw [List.reduceOption_cons_of_some, List.filter_cons_of_pos (isBody_section _), hfilter,
          List.filter_cons_of_pos (by simpa using hshows), List.map_cons]
      · rw [List.filter_cons_of_neg (by simpa using hshows), ← hfilter]
        cases block with
        | none => rw [List.reduceOption_cons_of_none]
        | some b =>
          rw [List.reduceOption_cons_of_some, List.filter_cons_of_neg (by simp [hbody b rfl])]

open Classical in
theorem exists_contextBlocks_iff (h : self.Recoverable) :
    (∃ blocks, self.contextBlocks assembly = .ok blocks) ↔
      ∀ item ∈ self.admitted.values, self.requireRepresented assembly item = .ok () := by
  obtain ⟨blocks,hblocks,-⟩ := exists_sectionBlocks h assembly.sections
  rw [contextBlocks, hblocks, ok_bind, ← forM_eq_ok]
  cases self.admitted.values.forM (self.requireRepresented assembly) <;>
    simp [pure, Except.pure]

open Classical in
theorem bodies_contextBlocks (h : self.Recoverable)
    (hblocks : self.contextBlocks assembly = .ok blocks) : bodies blocks =
      (assembly.sections.filter (self.Shows ·)).map (·.content) ++
        (self.committedCheckpoint.map (·.compactView)).toList := by
  obtain ⟨shown,hshown,hfilter⟩ := exists_sectionBlocks h assembly.sections
  rw [contextBlocks, hshown, ok_bind] at hblocks
  obtain ⟨-,hblocks⟩ := seq_eq_ok.mp hblocks
  cases hblocks
  rw [bodies, List.filter_append, hfilter, List.map_append, List.map_map]
  congr 1
  cases self.committedCheckpoint <;> rfl

theorem materializeInvocation_eq (input : List UInt8) :
    self.materializeInvocation assembly input self.revision =
      (self.contextBlocks assembly).map fun blocks =>
        ⟨(blocks ++ [requestBlock input]).foldl appendSection [],self.revision⟩ := by
  rw [materializeInvocation, requireRevision, if_pos rfl]
  cases self.contextBlocks assembly <;> rfl

end ContextProjectionState

end PhenixConductor.Context

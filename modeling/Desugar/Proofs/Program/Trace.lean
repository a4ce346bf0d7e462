import Desugar.Proofs.Indexed.Program
import Desugar.Proofs.Pass.Effect

/-!
# What a trace tells

A trace is a list of events, and nothing forces an event to be true. `Pass.Traced` says what it
means that the events of several passes are: they follow each other in the order of the
passes, and the number that a pass reports tells whether it has changed its text, and for
decimals by how much. `traceEvents_tells` says that every trace is of this kind, and that it
ends with a collision exactly if the program is refused, and with the one it is refused for.
-/

namespace Desugar

namespace Pass

/-- The event by which a pass reports the number of its edits. -/
def report : Pass → (count : Nat) → Event
  | .listBlocks _ => .listBlocksExpanded
  | .callSpacing name => .callsRespaced name
  | .symbolPaths _ => .symbolPathsFolded
  | .trailingDots => .trailingDotsCompleted
  | .leadingDots => .leadingDotsCompleted

/-- The list blocks and the number that a pass reports tell the truth about its run on a text. -/
structure Tells (pass : Pass) (source : Text) (blocks : List ListBlock) (count : Nat) : Prop where
  /-- Nothing is counted exactly if the text is left as it is. -/
  unchanged : count = 0 ↔ pass.run source = source
  /-- Each decimal that is completed makes the text one character longer. -/
  longer : pass.completesDecimals = true → (pass.run source).length = source.length + count
  /-- Every list block that is expanded is reported by itself, also some that stay. -/
  few : ∀ keywords, pass = .listBlocks keywords → count ≤ blocks.length
  /-- No other pass reports list blocks. -/
  others : blocks ≠ [] → ∃ keywords, pass = .listBlocks keywords

/-- The events tell the truth about passes that run on a text one after another. -/
inductive Traced : List Pass → (source : Text) → List Event → Prop where
  | done {source : Text} : Traced [] source []
  /-- List blocks without keywords are not looked for, and nothing is reported. -/
  | unreported {source : Text} {passes : List Pass} {events : List Event}
      (unchanged : (listBlocks []).run source = source) (others : Traced passes source events) :
      Traced (.listBlocks [] :: passes) source events
  | reported {pass : Pass} {source : Text} {blocks : List ListBlock} {count : Nat}
      {passes : List Pass} {events : List Event} (tells : pass.Tells source blocks count)
      (others : Traced passes (pass.run source) events) :
      Traced (pass :: passes) source (blocks.map .listBlock ++ pass.report count :: events)

/-- The number of its edits tells the truth about a pass, with the blocks that it finds. -/
theorem tells_edits {pass : Pass} {source : Text} {blocks : List ListBlock}
    (few : ∀ keywords, pass = .listBlocks keywords → (pass.edits source).length ≤ blocks.length)
    (others : blocks ≠ [] → ∃ keywords, pass = .listBlocks keywords) :
    pass.Tells source blocks (pass.edits source).length where
  unchanged := by rw [List.length_eq_zero_iff, run_eq_self_iff]
  longer decimals := length_run decimals source
  few := few
  others := others

/-- What one pass reports is true, if it reports anything. -/
theorem events_cases (pass : Pass) (source : Text) :
    (pass = .listBlocks [] ∧ pass.events source = []) ∨
      ∃ blocks, pass.Tells source blocks (pass.edits source).length ∧
        pass.events source =
          blocks.map .listBlock ++ [pass.report (pass.edits source).length] := by
  cases pass with
  | listBlocks keywords =>
      cases keywords with
      | nil => exact .inl ⟨rfl, rfl⟩
      | cons keyword keywords =>
          refine .inr ⟨(ListBlock.all (keyword :: keywords) source).map Prod.snd, ?_, ?_⟩
          · refine tells_edits (fun _ _ => ?_) fun _ => ⟨_, rfl⟩
            rw [List.length_map]
            exact List.length_filterMap_le _ _
          · rw [List.map_map]
            rfl
  | callSpacing | symbolPaths | trailingDots | leadingDots =>
      exact .inr ⟨[], tells_edits nofun nofun, rfl⟩

/-- What several passes report is true. -/
theorem traced_allEvents (passes : List Pass) (source : Text) :
    Traced passes source (allEvents passes source) := by
  induction passes generalizing source with
  | nil => exact .done
  | cons pass passes inductionHypothesis =>
      have others := inductionHypothesis (pass.run source)
      rw [allEvents]
      rcases pass.events_cases source with ⟨rfl, silent⟩ | ⟨blocks, tells, reports⟩
      · have unchanged : (listBlocks []).run source = source :=
          run_eq_self_iff.mpr (edits_listBlocks_nil source)
        rw [unchanged] at others
        rw [silent, unchanged]
        exact .unreported unchanged others
      · rw [reports, List.append_assoc]
        exact .reported tells others

/-- Passes report no collision. -/
theorem Traced.collided_not_mem {passes : List Pass} {source : Text} {events : List Event}
    (traced : Traced passes source events) (collision : Collision) :
    .collided collision ∉ events := by
  induction traced with
  | done => exact nofun
  | unreported _ _ inductionHypothesis => exact inductionHypothesis
  | @reported pass _ blocks _ _ _ _ _ inductionHypothesis =>
      rw [List.mem_append, List.mem_cons]
      rintro (block | own | other)
      · obtain ⟨_, _, same⟩ := List.mem_map.mp block
        cases same
      · cases pass <;> cases own
      · exact inductionHypothesis other

end Pass

/-- A trace opens with the size of the source and of the registry, and then tells the truth
about the passes that run before the guard. If the guard refuses the program, that is the last
event, and it carries the collision; otherwise the trace tells the truth about the passes
behind the guard, and has no such event. -/
theorem traceEvents_tells (settings : Settings) (registry : List Text) (source : Text) :
    (∃ before behind,
      traceEvents settings registry source =
        .opened (Text.byteLength source) registry.length :: (before ++ behind) ∧
      Pass.Traced (settings.passesBeforeGuard (properNames registry)) source before ∧
      match desugar settings registry source with
      | .error collision => behind = [.collided collision]
      | .ok _ =>
          Pass.Traced settings.passesAfterGuard (guardedText settings registry source) behind) ∧
    (∀ collision, .collided collision ∈ traceEvents settings registry source ↔
      desugar settings registry source = .error collision) ∧
    ∀ collision, desugar settings registry source = .error collision →
      (traceEvents settings registry source).getLast? = some (.collided collision) := by
  have before := Pass.traced_allEvents (settings.passesBeforeGuard (properNames registry)) source
  have behind := Pass.traced_allEvents settings.passesAfterGuard
    (guardedText settings registry source)
  have notBefore := before.collided_not_mem
  have notBehind := behind.collided_not_mem
  rw [traceEvents, desugar]
  cases collision? settings registry source with
  | some collision =>
      refine ⟨⟨_, _, rfl, before, rfl⟩, fun other => ?_, fun other same => ?_⟩
      · simp [notBefore, eq_comm]
      · cases same
        rw [List.getLast?_append]
        rfl
  | none =>
      refine ⟨⟨_, _, rfl, before, behind⟩, fun other => ?_, fun other refused => ?_⟩
      · simp [notBefore, notBehind]
      · cases refused

end Desugar

import Desugar.Proofs.Pass.Stability

/-!
# Desugaring again

A desugared program should have no sugar left, so that desugaring it again changes nothing.
This can fail: a pass may write something that together with the text around it is sugar to
itself or to a pass that has run before, or an assignment to a name that the guard has let
pass. `Pass.Calm` says that it does not. Along calm passes everything that has been looked for
stays absent (`Pass.CalmAll.absent_runAll`), and `desugar_idempotent` concludes that a second
run finds nothing to do. `desugar_not_idempotent` shows that each of its conditions is needed.
-/

namespace Desugar

namespace Pass

/-- A pass does its work on a text once and for all. Unless it is quiet, its matches are in step
and it keeps code code. Whatever of the given kinds stands in the code that it leaves is clear
of what it has written. -/
structure Calm (pass : Pass) (targets : List Target) (text : Text) : Prop where
  inStep : pass.isQuiet text = false → pass.InStep text
  keepsCode : pass.isQuiet text = false → pass.KeepsCode text
  clear : ∀ target ∈ targets, pass.LeavesClear text target

instance (pass : Pass) (targets : List Target) (text : Text) :
    Decidable (pass.Calm targets text) :=
  decidable_of_iff
    ((pass.isQuiet text = false → pass.InStep text) ∧
      (pass.isQuiet text = false → pass.KeepsCode text) ∧
      ∀ target ∈ targets, pass.LeavesClear text target)
    ⟨fun ⟨inStep, keepsCode, clear⟩ => ⟨inStep, keepsCode, clear⟩,
      fun ⟨inStep, keepsCode, clear⟩ => ⟨inStep, keepsCode, clear⟩⟩

/-- Several passes are calm one after another, each with respect to what it looks for itself,
what the ones before it look for, and the given kinds. -/
def CalmAll : (targets : List Target) → List Pass → (text : Text) → Prop
  | _, [], _ => True
  | targets, pass :: passes, text =>
      pass.Calm (.sugar pass :: targets) text ∧
        CalmAll (.sugar pass :: targets) passes (pass.run text)

instance decidableCalmAll : (targets : List Target) → (passes : List Pass) → (text : Text) →
    Decidable (CalmAll targets passes text)
  | _, [], _ => isTrue trivial
  | targets, pass :: passes, text =>
      have := decidableCalmAll (.sugar pass :: targets) passes (pass.run text)
      inferInstanceAs (Decidable (pass.Calm (.sugar pass :: targets) text ∧ _))

variable {pass : Pass} {passes : List Pass} {targets : List Target} {text : Text}

/-- A calm pass leaves nothing of what it looks for, and nothing of what was absent before. -/
theorem Calm.absent_run (calm : pass.Calm (.sugar pass :: targets) text)
    (absent : ∀ target ∈ targets, target.Absent text) :
    ∀ target ∈ .sugar pass :: targets, target.Absent (pass.run text) := by
  have keeps := keepsCode_of_loud calm.keepsCode
  intro target member
  have clear := calm.clear target member
  rcases List.mem_cons.mp member with rfl | member
  · exact Pass.absent_run (inStep_of_loud calm.inStep) keeps clear
  · exact (absent target member).run keeps clear

/-- Calm passes leave nothing of what they look for, and nothing of what was absent before. -/
theorem CalmAll.absent_runAll (calm : CalmAll targets passes text)
    (absent : ∀ target ∈ targets, target.Absent text) :
    ∀ target ∈ targets ++ passes.map .sugar, target.Absent (runAll passes text) := by
  induction passes generalizing targets text with
  | nil =>
      intro target member
      rw [List.map_nil, List.append_nil] at member
      exact absent target member
  | cons pass passes inductionHypothesis =>
      obtain ⟨first, others⟩ := calm
      have further := inductionHypothesis others (first.absent_run absent)
      intro target member
      rcases List.mem_append.mp member with before | sugar
      · exact further target (List.mem_append_left _ (List.mem_cons_of_mem _ before))
      · rcases List.mem_cons.mp sugar with rfl | later
        · exact further _ (List.mem_append_left _ (List.mem_cons_self ..))
        · exact further target (List.mem_append_right _ later)

/-- Passes leave a text as it is where nothing that they look for stands in code. List blocks
must not be found anywhere else. -/
theorem runAll_eq_self (absent : ∀ pass ∈ passes, Target.Absent (.sugar pass) text)
    (blocks : ∀ keywords, .listBlocks keywords ∈ passes → (listBlocks keywords).InStep text) :
    runAll passes text = text := by
  induction passes with
  | nil => rfl
  | cons pass passes inductionHypothesis =>
      have first : pass.run text = text := by
        refine run_eq_self (absent pass (List.mem_cons_self ..)) ?_
        rintro keywords rfl
        exact blocks keywords (List.mem_cons_self ..)
      rw [runAll_cons, first]
      exact inductionHypothesis (fun other member => absent other (List.mem_cons_of_mem _ member))
        fun keywords member => blocks keywords (List.mem_cons_of_mem _ member)

end Pass

/-- What the passes up to the guard and the guard itself look for. -/
def Settings.targetsUpToGuard (settings : Settings) (names : List Text) : List Target :=
  (if settings.nameGuard then names.map .assignment else []) ++
    (settings.passesBeforeGuard names).map .sugar

/-- Before the guard, list blocks are expanded with the keywords of the settings only. -/
theorem Settings.of_listBlocks_mem_passesBeforeGuard {settings : Settings} {names : List Text}
    {keywords : List Keyword} (member : .listBlocks keywords ∈ settings.passesBeforeGuard names) :
    settings.listBlocks = true ∧ keywords = settings.keywords := by
  simp only [passesBeforeGuard, List.mem_append] at member
  rcases member with (blocks | calls) | paths
  · split at blocks
    · next enabled =>
      cases List.mem_singleton.mp blocks
      exact ⟨enabled, rfl⟩
    · cases blocks
  · split at calls <;> simp at calls
  · split at paths <;> simp at paths

theorem Settings.listBlocks_not_mem_passesAfterGuard {settings : Settings}
    {keywords : List Keyword} : .listBlocks keywords ∉ settings.passesAfterGuard := by
  rw [passesAfterGuard]
  split <;> simp

/-- Every pass of a run is calm, the ones behind the guard also with respect to assignments to
the registered names. -/
structure CalmRun (settings : Settings) (registry : List Text) (source : Text) : Prop where
  beforeGuard : Pass.CalmAll [] (settings.passesBeforeGuard (properNames registry)) source
  afterGuard : Pass.CalmAll (settings.targetsUpToGuard (properNames registry))
    settings.passesAfterGuard (guardedText settings registry source)

instance (settings : Settings) (registry : List Text) (source : Text) :
    Decidable (CalmRun settings registry source) :=
  decidable_of_iff
    (Pass.CalmAll [] (settings.passesBeforeGuard (properNames registry)) source ∧
      Pass.CalmAll (settings.targetsUpToGuard (properNames registry)) settings.passesAfterGuard
        (guardedText settings registry source))
    ⟨fun ⟨before, after⟩ => ⟨before, after⟩, fun ⟨before, after⟩ => ⟨before, after⟩⟩

variable {settings : Settings} {registry : List Text} {source output : Text}

/-- A program is desugared if the guard finds nothing, to what the last passes leave. -/
theorem desugar_eq_ok_iff : desugar settings registry source = .ok output ↔
    collision? settings registry source = none ∧
      Pass.runAll settings.passesAfterGuard (guardedText settings registry source) = output := by
  unfold desugar
  split
  · next collided => simp [collided]
  · next passed => simp [passed]

/-- Where the guard finds nothing, nothing is left of what has been looked for up to it. -/
theorem CalmRun.absent_guardedText (calm : CalmRun settings registry source)
    (passed : collision? settings registry source = none) :
    ∀ target ∈ settings.targetsUpToGuard (properNames registry),
      target.Absent (guardedText settings registry source) := by
  intro target member
  rcases List.mem_append.mp member with guarded | sugar
  · split at guarded
    · next guard =>
      obtain ⟨name, registered, rfl⟩ := List.mem_map.mp guarded
      rw [collision?, if_pos guard] at passed
      obtain ⟨listed, proper⟩ := mem_properNames.mp registered
      have nowhere := firstCollision?_eq_none_iff.mp passed name listed proper
      exact Target.absent_assignment_iff.mpr nowhere
    · cases guarded
  · exact calm.beforeGuard.absent_runAll (List.forall_mem_nil _) target sugar

/-- Desugaring a program again changes nothing, if every pass has been calm and the list blocks
that are left are in step. -/
theorem desugar_idempotent (done : desugar settings registry source = .ok output)
    (calm : CalmRun settings registry source)
    (blocks : settings.listBlocks = true →
      (Pass.listBlocks settings.keywords).isQuiet output = false →
        (Pass.listBlocks settings.keywords).InStep output) :
    desugar settings registry output = .ok output := by
  obtain ⟨passed, rfl⟩ := desugar_eq_ok_iff.mp done
  have absent := calm.afterGuard.absent_runAll (calm.absent_guardedText passed)
  generalize Pass.runAll settings.passesAfterGuard (guardedText settings registry source) = output
    at absent blocks ⊢
  have guarded : guardedText settings registry output = output := by
    refine Pass.runAll_eq_self (fun pass member => absent _ ?_) fun keywords member => ?_
    · exact List.mem_append_left _ (List.mem_append_right _ (List.mem_map_of_mem member))
    · obtain ⟨enabled, rfl⟩ := Settings.of_listBlocks_mem_passesBeforeGuard member
      exact Pass.inStep_of_loud (blocks enabled)
  have unassigned : collision? settings registry output = none := by
    rw [collision?, guarded]
    split
    · next guard =>
      refine firstCollision?_eq_none_iff.mpr fun name listed proper => ?_
      refine Target.absent_assignment_iff.mp (absent _ (List.mem_append_left _ ?_))
      refine List.mem_append_left _ ?_
      rw [if_pos guard]
      exact List.mem_map_of_mem (mem_properNames.mpr ⟨listed, proper⟩)
    · rfl
  have completed : Pass.runAll settings.passesAfterGuard output = output := by
    refine Pass.runAll_eq_self (fun pass member => absent _ ?_) fun keywords member => ?_
    · exact List.mem_append_right _ (List.mem_map_of_mem member)
    · exact absurd member Settings.listBlocks_not_mem_passesAfterGuard
  exact desugar_eq_ok_iff.mpr ⟨unassigned, by rw [guarded, completed]⟩

/-- Programs that change when they are desugared again, or are refused. In the first, a body that
ends inside a string lets the first run overlook a block, so that it is not in step. In the
second, a zero that spoils a character literal makes code of a string. Then come texts that are
not left clear: a path folded inside a body, a name called with itself, a call respaced inside
a body, and a decimal that becomes the value of an assignment. In the last, respacing lets a
list block be found that ends inside a string. -/
theorem desugar_not_idempotent :
    (desugar .standard ["ing".toList] "(ing \") \" (nit 1 2)".toList =
        .ok " ing(\") \" (nit 1 2)".toList ∧
      desugar .standard ["ing".toList] " ing(\") \" (nit 1 2)".toList =
        .ok " ing(\") \" (nit 1,2)".toList) ∧
    (desugar .standard [] "?'.5 ' :a:b '".toList = .ok "?'0.5 ' :a:b '".toList ∧
      desugar .standard [] "?'0.5 ' :a:b '".toList =
        .ok "?'0.5 ' ::SonicPi::SPSym.new('a : b') '".toList) ∧
    (desugar .standard [] "(ing :a:b 2)".toList =
        .ok "(ing ::SonicPi::SPSym.new('a : b'),2)".toList ∧
      desugar .standard [] "(ing ::SonicPi::SPSym.new('a : b'),2)".toList =
        .ok "(ing ::SonicPi::SPSym.new('a,:,b'),2)".toList) ∧
    (desugar .standard ["ring".toList] "(ring ring 1)".toList = .ok " ring(ring 1)".toList ∧
      desugar .standard ["ring".toList] " ring(ring 1)".toList = .ok " ring ring(1)".toList) ∧
    (desugar .standard ["ring".toList] "(ing 1 (ring 2) 3)".toList =
        .ok "(ing 1, ring(2) 3)".toList ∧
      desugar .standard ["ring".toList] "(ing 1, ring(2) 3)".toList =
        .ok "(ing 1,,ring(2) 3)".toList) ∧
    (desugar .standard ["ring".toList] "ring =.5".toList = .ok "ring =0.5".toList ∧
      desugar .standard ["ring".toList] "ring =0.5".toList = .error ⟨"ring".toList, 1, 0⟩) ∧
    (desugar .standard ["ring".toList] "(ring ing \") (ing 1 2) \"".toList =
        .ok " ring(ing \") (ing 1 2) \"".toList ∧
      desugar .standard ["ring".toList] " ring(ing \") (ing 1 2) \"".toList =
        .ok " ring(ing \") (ing 1,2) \"".toList) := by
  refine ⟨⟨desugar_eq_ok ?_ ?_, desugar_eq_ok ?_ ?_⟩, ⟨desugar_eq_ok ?_ ?_, desugar_eq_ok ?_ ?_⟩,
    ⟨desugar_eq_ok ?_ ?_, desugar_eq_ok ?_ ?_⟩, ⟨desugar_eq_ok ?_ ?_, desugar_eq_ok ?_ ?_⟩,
    ⟨desugar_eq_ok ?_ ?_, desugar_eq_ok ?_ ?_⟩,
    ⟨desugar_eq_ok ?_ ?_, (desugar_eq_error_iff rfl).mpr ?_⟩,
    desugar_eq_ok ?_ ?_, desugar_eq_ok ?_ ?_⟩ <;>
    decide +kernel

/-- Sugar of every kind, and a comment in a body. -/
theorem desugar_idempotent_ring :
    desugar .standard ["ring".toList] "(ing 1 # a\n2) (ring 3) :a:b 2. .5".toList =
      .ok "(ing 1,2)  ring(3) ::SonicPi::SPSym.new('a : b') 2.0 0.5".toList ∧
    CalmRun .standard ["ring".toList] "(ing 1 # a\n2) (ring 3) :a:b 2. .5".toList ∧
    desugar .standard ["ring".toList]
        "(ing 1,2)  ring(3) ::SonicPi::SPSym.new('a : b') 2.0 0.5".toList =
      .ok "(ing 1,2)  ring(3) ::SonicPi::SPSym.new('a : b') 2.0 0.5".toList := by
  have done : desugar .standard ["ring".toList] "(ing 1 # a\n2) (ring 3) :a:b 2. .5".toList =
      .ok "(ing 1,2)  ring(3) ::SonicPi::SPSym.new('a : b') 2.0 0.5".toList :=
    desugar_eq_ok (by decide +kernel) (by decide +kernel)
  have calm : CalmRun .standard ["ring".toList]
      "(ing 1 # a\n2) (ring 3) :a:b 2. .5".toList := by
    decide +kernel
  exact ⟨done, calm, desugar_idempotent done calm fun _ => by decide +kernel⟩

end Desugar

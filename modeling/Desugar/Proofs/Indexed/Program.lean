import Desugar.Program
import Desugar.Proofs.Indexed.Decimals
import Desugar.Proofs.Indexed.Walking

/-!
# Desugaring never leaves the text

Every pass, and the guard, can be run by positions with each access checked. Such a run fails
as soon as one access is out of range, one number is larger than what it is subtracted from,
two edits overlap, or the braces of an interpolation outgrow their count. `desugarAt_endsUnless`
says that only the last of these happens, whatever the source, the names, the keywords and the
constructor, and only if a text that is read has more opening braces than 32 bits count;
otherwise a run makes the edits and the text that the passes are said to make.
`desugarAt_overflow` is a source on which it does happen.
-/

namespace Desugar

namespace Assignment

/-- What the guard does at a code position. -/
def collisionAt? (name source : Text) (position : Nat) : Option (Option Collision) :=
  if source.occursAt position name = false then some none
  else
    (source.previousAt? position).bind fun previous =>
      if previous.any isWord then some none
      else
        let equals := source.runEnd (position + name.length) isBlank
        if source[equals]? = some '=' ∧
            source[equals + 1]?.any (fun c => isBlank c || isWord c) = true then
          (source.byteOffset? position).map fun offset =>
            some ⟨name, source.lineAt position, offset⟩
        else some none

/-- An equals sign and the character behind it decide whether it assigns. -/
theorem assigns_eq (rest : Text) :
    assigns rest =
      (rest.head? == some '=' && (rest.drop 1).head?.any fun c => isBlank c || isWord c) := by
  unfold assigns
  split
  · rfl
  · next other =>
    cases rest with
    | nil => rfl
    | cons c tail =>
        by_cases equals : c = '='
        · subst equals
          cases tail with
          | nil => rfl
          | cons d tail => exact absurd rfl (other d tail)
        · simp [equals]

/-- The guard never fails inside the text, and answers what its rule claims. -/
theorem collisionAt?_eq_some {name source : Text} {position : Nat}
    (inside : position < source.length) :
    collisionAt? name source position =
      some ((rule name (source.before? position) (source.drop position)).map fun _ =>
        ⟨name, source.lineAt position, Text.byteLength (source.take position)⟩) := by
  have behind := Text.drop_runEnd source (position + name.length) isBlank
  have bytes : source.byteOffset? position = some (Text.byteLength (source.take position)) :=
    if_pos (Nat.le_of_lt inside)
  rw [collisionAt?, Text.previousAt?_eq_some (Nat.le_of_lt inside), Option.bind_some, Text.occursAt,
    rule, standsAt, List.drop_drop, ← behind]
  simp only [bytes]
  cases name.isPrefixOf (source.drop position) with
  | false => rfl
  | true =>
      cases (source.before? position).any isWord with
      | true => rfl
      | false =>
          rw [assigns_eq, List.drop_drop, List.head?_drop, List.head?_drop]
          by_cases equals : source[source.runEnd (position + name.length) isBlank]? = some '='
          · cases source[source.runEnd (position + name.length) isBlank + 1]?.any
              fun c => isBlank c || isWord c <;> simp [equals]
          · simp [equals]

/-- The first of several names, in the given order, that a source assigns to, by positions. -/
def firstCollisionAt (source : Text) : (names : List Text) → Except Fault (Option Collision)
  | [] => .ok none
  | name :: names =>
      (Cursor.firstFound source (collisionAt? name source) .start).bind fun
        | some collision => .ok (some collision)
        | none => firstCollisionAt source names

theorem firstCollisionAt_endsUnless (source : Text) (names : List Text) :
    EndsUnless source.ManyBraces (firstCollisionAt source names)
      (firstCollision? source names) := by
  induction names with
  | nil => exact .done rfl
  | cons name names inductionHypothesis =>
      have found : EndsUnless source.ManyBraces
          (Cursor.firstFound source (collisionAt? name source) .start)
          (collision? source name) := by
        have ends := Cursor.firstFound_endsUnless (fun position (_ : Unit) => Collision.mk name
          (source.lineAt position) (Text.byteLength (source.take position)))
          (fun position inside => collisionAt?_eq_some inside) (Cursor.counted_start source)
        rw [collision?, first?, Option.map_map]
        exact ends
      rw [firstCollisionAt, firstCollision?, List.findSome?_cons]
      refine found.bind ?_
      cases collision? source name with
      | none => exact inductionHypothesis
      | some collision => exact .done rfl

end Assignment

namespace Pass

/-- The edits that a pass makes, by positions. -/
def editsAt (pass : Pass) (source : Text) : Except Fault (List Edit) :=
  match pass with
  | .listBlocks keywords =>
      if keywords.isEmpty then .ok []
      else Cursor.gather source (ListBlock.editAt? keywords source) .start
  | .callSpacing name => Cursor.gather source (PrefixCall.editAt? name source) .start
  | .symbolPaths constructor => Cursor.gather source (SymbolPath.editAt? constructor source) .start
  | .trailingDots => Cursor.gather source (Decimal.trailingAt? source) .start
  | .leadingDots => Cursor.gather source (Decimal.leadingAt? source) .start

/-- Without keywords there are no list blocks. -/
theorem edits_listBlocks_nil (source : Text) : edits (.listBlocks []) source = [] := by
  refine List.filterMap_eq_nil_iff.mpr fun found member => ?_
  obtain ⟨width, claimed⟩ := Text.claimed_of_mem_scan member
  unfold ListBlock.rule ListBlock.read? at claimed
  split at claimed <;> cases claimed

/-- Finding the edits of a pass by positions never leaves the text. -/
theorem editsAt_endsUnless (pass : Pass) (source : Text) :
    EndsUnless source.ManyBraces (pass.editsAt source) (pass.edits source) := by
  have counted := Cursor.counted_start source
  cases pass with
  | listBlocks keywords =>
      rw [editsAt]
      cases keywords with
      | nil =>
          rw [edits_listBlocks_nil, List.isEmpty_nil, if_pos rfl]
          exact .done rfl
      | cons keyword keywords =>
          exact Cursor.gather_endsUnless (fun position inside => ListBlock.editAt?_eq_some inside)
            counted
  | callSpacing name =>
      rw [editsAt, edits, PrefixCall.edits, ← List.filterMap_eq_map]
      exact Cursor.gather_endsUnless (fun position inside => PrefixCall.editAt?_eq_some inside)
        counted
  | symbolPaths constructor =>
      rw [editsAt, edits, SymbolPath.edits, ← List.filterMap_eq_map]
      exact Cursor.gather_endsUnless (fun position inside => SymbolPath.editAt?_eq_some inside)
        counted
  | trailingDots =>
      rw [editsAt, edits, ← Decimal.filterMap_scan_digitsRule]
      exact Cursor.gather_endsUnless (fun position inside => Decimal.trailingAt?_eq_some inside)
        counted
  | leadingDots =>
      rw [editsAt, edits, ← Decimal.filterMap_scan_fractionRule]
      exact Cursor.gather_endsUnless (fun position inside => Decimal.leadingAt?_eq_some inside)
        counted

/-- The text after a pass, by positions. -/
def runAt (pass : Pass) (source : Text) : Except Fault Text :=
  (pass.editsAt source).bind fun edits => inRange (Edit.copy? source edits)

/-- The text after several passes, by positions. -/
def runAllAt : (passes : List Pass) → (source : Text) → Except Fault Text
  | [], source => .ok source
  | pass :: passes, source => (pass.runAt source).bind (runAllAt passes)

/-- The texts that several passes read, one after another. -/
def textsRead : (passes : List Pass) → (source : Text) → List Text
  | [], _ => []
  | pass :: passes, source => source :: textsRead passes (pass.run source)

theorem copy?_edits (pass : Pass) (source : Text) :
    Edit.copy? source (pass.edits source) = some (pass.run source) :=
  Edit.copy?_eq_some_iff.mpr ⟨pass.ordered_edits source, rfl⟩

theorem runAllAt_endsUnless (passes : List Pass) (source : Text) :
    EndsUnless (∃ text ∈ textsRead passes source, text.ManyBraces) (runAllAt passes source)
      (runAll passes source) := by
  induction passes generalizing source with
  | nil => exact .done rfl
  | cons pass passes inductionHypothesis =>
      have first : EndsUnless source.ManyBraces (pass.runAt source) (pass.run source) := by
        refine (pass.editsAt_endsUnless source).bind ?_
        rw [copy?_edits]
        exact .done rfl
      have others := inductionHypothesis (pass.run source)
      rw [runAllAt, runAll_cons]
      refine (first.weaken fun many => ⟨source, List.mem_cons_self, many⟩).bind
        (others.weaken ?_)
      rintro ⟨text, member, many⟩
      exact ⟨text, List.mem_cons_of_mem _ member, many⟩

end Pass

/-- Desugar a program by positions. -/
def desugarAt (settings : Settings) (registry : List Text) (source : Text) :
    Except Fault (Except Collision Text) :=
  (Pass.runAllAt (settings.passesBeforeGuard (properNames registry)) source).bind fun guarded =>
    (if settings.nameGuard then Assignment.firstCollisionAt guarded (properNames registry)
      else .ok none).bind fun
      | some collision => .ok (.error collision)
      | none => (Pass.runAllAt settings.passesAfterGuard guarded).map .ok

/-- The texts that are read to desugar a program: by the passes before the guard, by the guard,
and, unless it finds a collision, by the passes behind it. -/
def textsRead (settings : Settings) (registry : List Text) (source : Text) : List Text :=
  Pass.textsRead (settings.passesBeforeGuard (properNames registry)) source ++
    (if settings.nameGuard then [guardedText settings registry source] else []) ++
      match collision? settings registry source with
      | some _ => []
      | none => Pass.textsRead settings.passesAfterGuard (guardedText settings registry source)

theorem desugarAt_endsUnless_textsRead (settings : Settings) (registry : List Text)
    (source : Text) :
    EndsUnless (∃ text ∈ textsRead settings registry source, text.ManyBraces)
      (desugarAt settings registry source) (desugar settings registry source) := by
  have before := Pass.runAllAt_endsUnless (settings.passesBeforeGuard (properNames registry)) source
  have behind := Pass.runAllAt_endsUnless settings.passesAfterGuard
    (guardedText settings registry source)
  have guard : EndsUnless (∃ text ∈ textsRead settings registry source, text.ManyBraces)
      (if settings.nameGuard then
        Assignment.firstCollisionAt (guardedText settings registry source) (properNames registry)
        else .ok none) (collision? settings registry source) := by
    rw [collision?]
    split
    · next guarded =>
      refine (Assignment.firstCollisionAt_endsUnless _ _).weaken fun many => ⟨_, ?_, many⟩
      rw [textsRead, if_pos guarded]
      exact List.mem_append_left _ (List.mem_append_right _ List.mem_cons_self)
    · exact .done rfl
  rw [desugarAt, desugar]
  refine (before.weaken ?_).bind (guard.bind ?_)
  · rintro ⟨text, member, many⟩
    exact ⟨text, List.mem_append_left _ (List.mem_append_left _ member), many⟩
  · cases free : collision? settings registry source with
    | some collision => exact .done rfl
    | none =>
        refine (behind.weaken ?_).map _
        rintro ⟨text, member, many⟩
        refine ⟨text, List.mem_append_right _ ?_, many⟩
        rwa [free]

/-- The edits of every pass lie in the text it reads, one behind the other, and the copy around
them is the text with the new texts in the place of the edited stretches and all else kept in
order. Finding the edits by positions never leaves the text, and so desugaring by positions
never does: each of them ends with what it is to find, unless the braces of an interpolation
outgrow their count in a text with more of them than 32 bits count. -/
theorem desugarAt_endsUnless :
    (∀ (pass : Pass) (source : Text),
      ((∀ edit ∈ pass.edits source, edit.start ≤ edit.stop ∧ edit.stop ≤ source.length) ∧
        (pass.edits source).Pairwise fun earlier later => earlier.stop ≤ later.start) ∧
      EndsUnless source.ManyBraces (pass.editsAt source) (pass.edits source) ∧
      Edit.copy? source (pass.edits source) = some (pass.run source) ∧
      Edit.Splices (pass.edits source) source (pass.run source)) ∧
    ∀ (settings : Settings) (registry : List Text) (source : Text),
      EndsUnless (∃ text ∈ textsRead settings registry source, text.ManyBraces)
        (desugarAt settings registry source) (desugar settings registry source) := by
  refine ⟨fun pass source => ⟨?_, ?_, ?_, ?_⟩, fun settings registry source => ?_⟩
  · exact Edit.OrderedFrom.forall_and_pairwise (pass.ordered_edits source)
  · exact pass.editsAt_endsUnless source
  · exact pass.copy?_edits source
  · exact Edit.splices_applyAll (pass.ordered_edits source)
  · exact desugarAt_endsUnless_textsRead settings registry source

/-- An interpolation with more braces than 32 bits count: the pass for list blocks, which reads
the source first, overflows. -/
theorem desugarAt_overflow :
    desugarAt .standard [] ('"' :: '#' :: List.replicate UInt32.size '{') =
      .error .overflow := by
  obtain ⟨count, total⟩ : ∃ count, UInt32.size = count + 1 := ⟨4294967295, rfl⟩
  rw [total, List.replicate_succ]
  generalize program : '"' :: '#' :: '{' :: List.replicate count '{' = source
  have opened : Cursor.nextAt source .start = Cursor.nextAt source ⟨3, [1]⟩ := by
    have quote : source.drop Cursor.start.position =
        '"' :: '#' :: '{' :: List.replicate count '{' := by rw [← program]; rfl
    have hash : source.drop (Cursor.mk 1 [0]).position =
        '#' :: '{' :: List.replicate count '{' := by rw [← program]; rfl
    rw [Cursor.nextAt_eq quote]
    exact Cursor.nextAt_eq hash
  have quiet (position : Nat) (brace : source[position]? = some '{') :
      ListBlock.editAt? Settings.standard.keywords source position = some (none, position) := by
    rw [ListBlock.editAt?, brace, Option.bind_some, if_pos (by decide)]
  have overflows : Cursor.gather source
      (ListBlock.editAt? Settings.standard.keywords source) .start = .error .overflow := by
    have braces : source.drop 3 = List.replicate count '{' := by rw [← program]; rfl
    rw [Cursor.gather_eq, opened, ← Cursor.gather_eq]
    exact Cursor.gather_braces quiet braces Nat.one_ne_zero (by decide) (by omega)
  have stops : (Pass.listBlocks Settings.standard.keywords).editsAt source =
      .error .overflow := overflows
  rw [desugarAt]
  change Except.bind (Except.bind (Pass.runAt (.listBlocks Settings.standard.keywords) source) _)
    _ = _
  rw [Pass.runAt, stops]
  rfl

end Desugar

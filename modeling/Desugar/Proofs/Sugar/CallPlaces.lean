import Desugar.Proofs.Pass.Quiet
import Desugar.Proofs.Sugar.LexicalShape

/-!
# Which calls are respaced

`PrefixCall.StandsAt` says, of a position in a source, that a prefix call begins there, by the
characters behind it and the code positions of the source. A scan for prefix calls jumps over
what it finds, but a call to an identifier is plain text and has no second parenthesis, so that
nothing is overlooked in it. `PrefixCall.respaceAll_replaces_standing` says that the calls which
stand in a source do not overlap, and that respacing replaces all of them and nothing else.
-/

namespace Desugar

namespace PrefixCall

/-- A prefix call to a name begins at a position: a parenthesis in code, blanks, the name, and
separators that are as many as there are. -/
structure StandsAt (name source : Text) (position : Nat) (call : PrefixCall) : Prop where
  inCode : position ∈ source.codePositions
  lead : ∀ c ∈ call.lead, isBlank c = true
  gap : call.gap ≠ []
  separators : ∀ c ∈ call.gap, isSeparator c = true
  written : ∃ behind, source.drop position = call.written name ++ behind ∧
    behind.head?.any isSeparator = false

variable {name source : Text} {position place : Nat} {call other : PrefixCall}

/-- A call that stands at a position has its parenthesis there. -/
theorem StandsAt.getElem?_eq (stands : StandsAt name source position call) :
    source[position]? = some '(' := by
  obtain ⟨behind, here, -⟩ := stands.written
  exact Text.getElem?_of_drop here

/-- Behind its parenthesis, a call to an identifier has no other. -/
theorem StandsAt.parenthesis_not_mem (identifier : ∀ c ∈ name, isWord c = true)
    (stands : StandsAt name source position call) : '(' ∉ call.lead ++ name ++ call.gap := by
  intro member
  rcases List.mem_append.mp member with member | member
  · rcases List.mem_append.mp member with member | member
    · exact absurd (stands.lead _ member) (by decide)
    · exact absurd (identifier _ member) (by decide)
  · exact absurd (stands.separators _ member) (by decide)

/-- No call begins inside a call to an identifier. -/
theorem StandsAt.stop_le (identifier : ∀ c ∈ name, isWord c = true)
    (stands : StandsAt name source position call) (next : StandsAt name source place other)
    (before : position < place) : position + (call.written name).length ≤ place := by
  obtain ⟨behind, here, -⟩ := stands.written
  apply Nat.le_of_not_lt
  intro within
  have inside : place - (position + 1) < (call.lead ++ name ++ call.gap).length := by
    simp only [PrefixCall.written, List.length_append, List.length_cons] at within ⊢
    omega
  have rest : source.drop (position + 1) = call.lead ++ name ++ call.gap ++ behind := by
    rw [Text.drop_succ_of_drop here]
    rfl
  have distance : position + 1 + (place - (position + 1)) = place := by omega
  have parenthesis := next.getElem?_eq
  rw [← distance, ← List.getElem?_drop, rest, List.getElem?_append_left inside] at parenthesis
  exact stands.parenthesis_not_mem identifier (List.mem_of_getElem? parenthesis)

section Identifier

variable (nonempty : name ≠ []) (identifier : ∀ c ∈ name, isWord c = true)

include nonempty identifier

/-- A call to an identifier stands where it is read in code. -/
theorem standsAt_iff :
    StandsAt name source position call ↔
      source.isCodeAt position = true ∧ read? name (source.drop position) = some call := by
  constructor
  · rintro ⟨inCode, lead, gap, separators, written⟩
    have notBlank : (name ++ call.gap).head?.any isBlank = false := by
      obtain ⟨first, others, rfl⟩ := List.exists_cons_of_ne_nil nonempty
      have word := identifier first (List.mem_cons_self ..)
      cases blank : isBlank first with
      | false => exact blank
      | true =>
          rw [isWord_eq_false_of_isBlank blank] at word
          cases word
    have shape : call.Shape name := ⟨lead, notBlank, gap, separators⟩
    exact ⟨Text.mem_codePositions.mp inCode, read?_eq_some_iff.mpr ⟨shape, written⟩⟩
  · rintro ⟨isCode, read⟩
    obtain ⟨shape, written⟩ := read?_eq_some_iff.mp read
    exact ⟨Text.mem_codePositions.mpr isCode, shape.lead, shape.gap, shape.separators, written⟩

/-- The calls to an identifier that a scan finds are those that stand in the source. -/
theorem mem_scan_iff_standsAt :
    (position, call) ∈ source.scan (rule name) ↔ StandsAt name source position call := by
  have plainName : ∀ c ∈ name, isPlain c = true := fun c member =>
    isPlain_of_isWord (identifier c member)
  have inStep : ∀ found ∈ source.scan (rule name),
      source.InStep found.1 (found.2.written name).length := fun found member =>
    (inStep_of_mem_scan plainName member).2
  have claimed : rule name (source.before? position) (source.drop position) =
      some (call, (call.written name).length) ↔ read? name (source.drop position) = some call :=
    Rule.measured_eq_some_iff
  rw [Text.mem_scan_iff_of_inStep (fits_rule name) inStep, claimed,
    ← standsAt_iff nonempty identifier]
  refine and_iff_left_of_imp fun stands earlier listed before => ?_
  have first : StandsAt name source earlier.1 earlier.2 :=
    (standsAt_iff nonempty identifier).mpr
      ⟨(inStep_of_mem_scan plainName listed).1, read?_of_mem_scan listed⟩
  exact first.stop_le identifier stands before

end Identifier

/-- Respacing the calls to an identifier replaces exactly those that stand in the source, which
do not overlap: each gives way to a space, its blanks, the name, a parenthesis and a space for
every separator but one. -/
theorem respaceAll_replaces_standing (nonempty : name ≠ [])
    (identifier : ∀ c ∈ name, isWord c = true) (source : Text) :
    (∀ position call place other, StandsAt name source position call →
      StandsAt name source place other → (position, call) ≠ (place, other) →
        position + (call.written name).length ≤ place ∨
          place + (other.written name).length ≤ position) ∧
      ∃ calls : List (Nat × PrefixCall),
        (∀ position call, (position, call) ∈ calls ↔ StandsAt name source position call) ∧
        Edit.Splices
          (calls.map fun (position, call) =>
            ⟨position, position + (call.written name).length,
              ' ' :: call.lead ++ name ++ '(' :: List.replicate (call.gap.length - 1) ' '⟩)
          source (respaceAll name source) := by
  refine ⟨fun position call place other stands next different => ?_, source.scan (rule name),
    fun position call => mem_scan_iff_standsAt nonempty identifier, ?_⟩
  · rcases Nat.lt_trichotomy position place with before | rfl | behind
    · exact .inl (stands.stop_le identifier next before)
    · have read := ((standsAt_iff nonempty identifier).mp stands).2
      have same := ((standsAt_iff nonempty identifier).mp next).2
      rw [read] at same
      exact absurd (by rw [Option.some.inj same]) different
    · exact .inr (next.stop_le identifier stands behind)
  · exact Edit.splices_applyAll ((Pass.callSpacing name).ordered_edits source)

/-- Two calls, one inside the other, a call in an interpolation, and the same in a comment and in
a string. -/
theorem respaceAll_replaces_standing_ring :
    "ring".toList ≠ [] ∧ (∀ c ∈ "ring".toList, isWord c = true) ∧
      ∃ calls : List (Nat × PrefixCall),
        (∀ position call, (position, call) ∈ calls ↔ StandsAt "ring".toList
          "(ring (\n ring,, 1)) # (ring 2\n\"(ring #\x7b(ring 3)\x7d\"".toList position call) ∧
        Edit.Splices
          (calls.map fun (position, call) =>
            ⟨position, position + (call.written "ring".toList).length,
              ' ' :: call.lead ++ "ring".toList ++
                '(' :: List.replicate (call.gap.length - 1) ' '⟩)
          "(ring (\n ring,, 1)) # (ring 2\n\"(ring #\x7b(ring 3)\x7d\"".toList
          " ring( \n ring(  1)) # (ring 2\n\"(ring #\x7b ring(3)\x7d\"".toList := by
  have identifier : ∀ c ∈ "ring".toList, isWord c = true :=
    List.all_eq_true.mp (by decide +kernel)
  have respaced : respaceAll "ring".toList
      "(ring (\n ring,, 1)) # (ring 2\n\"(ring #\x7b(ring 3)\x7d\"".toList =
        " ring( \n ring(  1)) # (ring 2\n\"(ring #\x7b ring(3)\x7d\"".toList := by
    decide +kernel
  have exact := (respaceAll_replaces_standing (by decide) identifier
    "(ring (\n ring,, 1)) # (ring 2\n\"(ring #\x7b(ring 3)\x7d\"".toList).2
  rw [respaced] at exact
  exact ⟨by decide, identifier, exact⟩

end PrefixCall

end Desugar

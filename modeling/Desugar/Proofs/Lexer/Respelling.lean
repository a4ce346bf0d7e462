import Desugar.Proofs.Lexer.Lookahead

/-!
# Texts that are read alike

Characters that open nothing and belong to no word can be exchanged for each other in code
without anyone noticing. `Reading.Respelled` says that two texts differ by such exchanges
only, and `Text.agree_readingAt` that they are then read alike at every position.
-/

namespace Desugar

namespace Reading

/-- Two texts are the same but for fillers in the code of the first, which is read from
`reading` on. -/
inductive Respelled : (reading : Reading) → (text other : Text) → Prop where
  | nil (reading : Reading) : Respelled reading [] []
  | same {reading : Reading} {text other : Text} (c : Char)
      (others : Respelled (reading.step c text).2 text other) :
      Respelled reading (c :: text) (c :: other)
  | filler {reading : Reading} {text other : Text} {c d : Char} (fresh : reading.mode = .fresh)
      (inCode : InCode reading.nesting) (old : isFiller c = true) (new : isFiller d = true)
      (others : Respelled (reading.step c text).2 text other) :
      Respelled reading (c :: text) (d :: other)

namespace Respelled

variable {reading : Reading} {text other : Text}

theorem length_eq (respelled : Respelled reading text other) : other.length = text.length := by
  induction respelled with
  | nil reading => rfl
  | same c others inductionHypothesis => simp [inductionHypothesis]
  | filler fresh inCode old new others inductionHypothesis => simp [inductionHypothesis]

/-- Respelled texts look alike. -/
theorem alike (respelled : Respelled reading text other) : Alike text other := by
  induction respelled with
  | nil => exact ⟨Iff.rfl, Iff.rfl, rfl, rfl⟩
  | same c others inductionHypothesis => exact inductionHypothesis.cons c
  | filler fresh inCode old new others => exact .of_fillers old new

end Respelled

/-- Readings that agree before every text still do so behind the next characters of
respelled texts. -/
theorem Respelled.agree_step {first second : Reading} {c d : Char} {text other : Text}
    (respelled : Respelled first (c :: text) (d :: other))
    (agree : ∀ rest, Agree rest first second) (rest : Text) :
    Agree rest (first.step c text).2 (second.step d other).2 := by
  cases respelled with
  | same c others =>
      rw [(agree _).step, others.alike.step_eq second c]
      exact ⟨rfl, rfl, fun _ => rfl⟩
  | filler fresh inCode old new others =>
      obtain ⟨sameMode, sameNesting, _⟩ := agree []
      obtain ⟨oldPlain, oldNoWord⟩ := isFiller_iff.mp old
      obtain ⟨newPlain, newNoWord⟩ := isFiller_iff.mp new
      rw [step_of_plain oldPlain fresh inCode,
        step_of_plain newPlain (sameMode ▸ fresh) (sameNesting ▸ inCode)]
      refine ⟨rfl, sameNesting, fun _ => ?_⟩
      rw [Option.any_some, Option.any_some, oldNoWord, newNoWord]

/-- What a respelled text has behind its next character is respelled. -/
theorem Respelled.behind {reading : Reading} {c d : Char} {text other : Text}
    (respelled : Respelled reading (c :: text) (d :: other)) :
    Respelled (reading.step c text).2 text other := by
  cases respelled with
  | same c others => exact others
  | filler fresh inCode old new others => exact others

/-- The same text may stand before respelled texts. -/
theorem Respelled.append_left {reading : Reading} {piece text other : Text}
    (respelled : Respelled (reading.after piece text) text other) :
    Respelled reading (piece ++ text) (piece ++ other) := by
  induction piece generalizing reading with
  | nil => exact respelled
  | cons c piece inductionHypothesis => exact .same c (inductionHypothesis respelled)

/-- As many fillers may stand before respelled texts, in code. -/
theorem Respelled.append_fillers {reading : Reading} {old new text other : Text}
    (fresh : reading.mode = .fresh) (inCode : InCode reading.nesting)
    (oldFillers : ∀ c ∈ old, isFiller c = true) (newFillers : ∀ c ∈ new, isFiller c = true)
    (lengths : old.length = new.length)
    (respelled : Respelled (reading.after old text) text other) :
    Respelled reading (old ++ text) (new ++ other) := by
  induction old generalizing reading new with
  | nil =>
      rw [List.length_eq_zero_iff.mp lengths.symm]
      exact respelled
  | cons c old inductionHypothesis =>
      cases new with
      | nil => cases lengths
      | cons d new =>
          have filler := oldFillers c (List.mem_cons_self ..)
          rw [after_cons, step_of_plain (isFiller_iff.mp filler).1 fresh inCode] at respelled
          have others : Respelled ⟨.fresh, reading.nesting, some c⟩ (old ++ text) (new ++ other) :=
            inductionHypothesis rfl inCode
              (fun e member => oldFillers e (List.mem_cons_of_mem _ member))
              (fun e member => newFillers e (List.mem_cons_of_mem _ member))
              (Nat.succ.inj lengths) respelled
          refine .filler fresh inCode filler (newFillers d (List.mem_cons_self ..)) ?_
          rwa [step_of_plain (isFiller_iff.mp filler).1 fresh inCode]

end Reading

namespace Text

open Reading

variable {text other : Text} {position : Nat}

/-- Respelled texts are read alike up to every position, and are respelled from it on. -/
theorem agree_readingAt (respelled : Respelled start text other)
    (inside : position ≤ text.length) :
    Respelled (text.readingAt position) (text.drop position) (other.drop position) ∧
      ∀ rest, Agree rest (text.readingAt position) (other.readingAt position) := by
  induction position with
  | zero => exact ⟨respelled, fun rest => ⟨rfl, rfl, fun _ => rfl⟩⟩
  | succ position inductionHypothesis =>
      obtain ⟨behind, agree⟩ := inductionHypothesis (Nat.le_of_succ_le inside)
      have otherInside : position < other.length := by
        rw [respelled.length_eq]
        exact inside
      have here : text.drop position = text[position] :: text.drop (position + 1) :=
        List.drop_eq_getElem_cons inside
      have there : other.drop position = other[position] :: other.drop (position + 1) :=
        List.drop_eq_getElem_cons otherInside
      rw [here, there] at behind
      rw [readingAt_succ here, readingAt_succ there]
      exact ⟨behind.behind, behind.agree_step agree⟩

/-- At each position, respelled texts hold code or not alike, and only code is respelled. -/
theorem isCodeAt_of_respelled (respelled : Respelled start text other) (position : Nat) :
    other.isCodeAt position = text.isCodeAt position ∧
      (text.isCodeAt position = false → other[position]? = text[position]?) := by
  have lengths := respelled.length_eq
  by_cases inside : position < text.length
  · obtain ⟨behind, agree⟩ := agree_readingAt respelled (Nat.le_of_lt inside)
    have otherInside : position < other.length := lengths ▸ inside
    have here : text.drop position = text[position] :: text.drop (position + 1) :=
      List.drop_eq_getElem_cons inside
    have there : other.drop position = other[position] :: other.drop (position + 1) :=
      List.drop_eq_getElem_cons otherInside
    rw [here, there] at behind
    rw [isCodeAt_eq here, isCodeAt_eq there, getElem?_of_drop here, getElem?_of_drop there]
    generalize text[position] = c, other[position] = d at behind
    cases behind with
    | same c others =>
        rw [(agree _).step, others.alike.step_eq]
        exact ⟨rfl, fun _ => rfl⟩
    | filler fresh inCode old new others =>
        obtain ⟨sameMode, sameNesting, _⟩ := agree []
        have oldCode : ((text.readingAt position).step c (text.drop (position + 1))).1 = true := by
          rw [step_of_plain (isFiller_iff.mp old).1 fresh inCode]
        have newCode :
            ((other.readingAt position).step d (other.drop (position + 1))).1 = true := by
          rw [step_of_plain (isFiller_iff.mp new).1 (sameMode ▸ fresh) (sameNesting ▸ inCode)]
        simp [oldCode, newCode]
  · have beyond : text.length ≤ position := Nat.le_of_not_lt inside
    have otherBeyond : other.length ≤ position := lengths ▸ beyond
    simp [isCodeAt, List.drop_eq_nil_of_le, beyond, otherBeyond]

end Text

end Desugar

import Desugar.Proofs.Pass.Neutral
import Desugar.Proofs.Sugar.Respacing

/-!
# What respacing leaves as it is

Respacing a call to an identifier moves one parenthesis over a word and exchanges commas
and blanks for spaces. `PrefixCall.respaceAll_lexicalShape` says how little that is: the
text keeps its width, its code, whatever stands outside code, the order of its brackets,
and all that is neither an opening parenthesis nor a separator.
-/

namespace Desugar

/-- Whether a character opens or closes a pair of brackets. -/
def isBracket (c : Char) : Bool :=
  ['(', ')', '[', ']', '{', '}'].contains c

theorem not_mem_of_isBracket {c : Char} (bracket : isBracket c = true) :
    isBlank c = false ∧ isWord c = false ∧ c ≠ ',' := by
  have checked : ['(', ')', '[', ']', '{', '}'].all
      (fun d => isBlank d = false ∧ isWord d = false ∧ d ≠ ',') = true := by
    decide
  exact of_decide_eq_true (List.all_eq_true.mp checked c (List.contains_iff_mem.mp bracket))

theorem isPlain_of_isWord {c : Char} (word : isWord c = true) : isPlain c = true := by
  refine isPlain_iff.mpr ⟨?_, ?_, ?_, ?_, ?_, ?_⟩ <;>
    · rintro rfl
      exact absurd word (by decide)

namespace Edit

/-- Characters that each edit leaves in its stretch as they are, the edits leave in the
text as they are. -/
theorem filter_applyFrom {source : Text} {accept : Char → Bool} {low : Nat} {edits : List Edit}
    (ordered : OrderedFrom source.length low edits)
    (same : ∀ edit ∈ edits, edit.text.filter accept =
      ((source.drop edit.start).take (edit.stop - edit.start)).filter accept) :
    (applyFrom low edits (source.drop low)).filter accept = (source.drop low).filter accept := by
  induction edits generalizing low with
  | nil => rfl
  | cons edit edits inductionHypothesis =>
      obtain ⟨starts, stops, others⟩ := ordered
      have inside := others.position_le
      obtain ⟨kept, here, keptWidth⟩ :=
        Text.exists_drop_eq_append starts (Nat.le_trans stops inside)
      obtain ⟨removed, there, removedWidth⟩ := Text.exists_drop_eq_append stops inside
      have keptTake : (source.drop low).take (edit.start - low) = kept := by
        rw [here, List.take_left' (by omega)]
      have removedTake : (source.drop edit.start).take (edit.stop - edit.start) = removed := by
        rw [there, List.take_left' (by omega)]
      have behind : (source.drop low).drop (edit.stop - low) = source.drop edit.stop := by
        rw [List.drop_drop, Nat.add_sub_cancel' (Nat.le_trans starts stops)]
      have unchanged := same edit (List.mem_cons_self ..)
      rw [applyFrom, keptTake, behind, List.filter_append, List.filter_append, unchanged,
        removedTake,
        inductionHypothesis others fun other member => same other (List.mem_cons_of_mem _ member),
        here, there, List.filter_append, List.filter_append, List.append_assoc]

end Edit

namespace PrefixCall

variable {name : Text}

/-- Whether respacing leaves a character alone wherever it stands. -/
def isLeftAlone (c : Char) : Bool :=
  c != '(' && !isSeparator c

theorem isLeftAlone_of_isSeparator {c : Char} (separator : isSeparator c = true) :
    isLeftAlone c = false := by
  simp [isLeftAlone, separator]

/-- A respaced call has its parenthesis behind the name, the one bracket it has. -/
theorem filter_isBracket_respaced (identifier : ∀ c ∈ name, isWord c = true) {text : Text}
    {call : PrefixCall} (found : read? name text = some call) :
    (call.respaced name).filter isBracket = (call.written name).filter isBracket := by
  obtain ⟨blanks, separators⟩ := blanks_of_read? found
  have noneInLead : call.lead.filter isBracket = [] := by
    refine List.filter_eq_nil_iff.mpr fun c member bracket => ?_
    simpa [blanks c member] using (not_mem_of_isBracket bracket).1
  have noneInName : name.filter isBracket = [] := by
    refine List.filter_eq_nil_iff.mpr fun c member bracket => ?_
    simpa [identifier c member] using (not_mem_of_isBracket bracket).2.1
  have noneInGap : call.gap.filter isBracket = [] := by
    refine List.filter_eq_nil_iff.mpr fun c member bracket => ?_
    obtain ⟨noBlank, _, noComma⟩ := not_mem_of_isBracket bracket
    simpa [isSeparator, noBlank, noComma] using separators c member
  have noneInPadding (width : Nat) : (List.replicate width ' ').filter isBracket = [] := by
    refine List.filter_eq_nil_iff.mpr fun c member => ?_
    rw [List.eq_of_mem_replicate member]
    decide
  have opening : isBracket '(' = true := rfl
  have space : isBracket ' ' = false := rfl
  simp [respaced, written, noneInLead, noneInName, noneInGap, noneInPadding, opening, space]

/-- A respaced call is made of the name, a parenthesis and separators, as it was. -/
theorem filter_isLeftAlone_respaced {text : Text} {call : PrefixCall}
    (found : read? name text = some call) :
    (call.respaced name).filter isLeftAlone = (call.written name).filter isLeftAlone := by
  obtain ⟨blanks, separators⟩ := blanks_of_read? found
  have noneInLead : call.lead.filter isLeftAlone = [] := by
    refine List.filter_eq_nil_iff.mpr fun c member kept => ?_
    have separator : isSeparator c = true := by simp [isSeparator, blanks c member]
    simp [isLeftAlone_of_isSeparator separator] at kept
  have noneInGap : call.gap.filter isLeftAlone = [] := by
    refine List.filter_eq_nil_iff.mpr fun c member kept => ?_
    simp [isLeftAlone_of_isSeparator (separators c member)] at kept
  have noneInPadding (width : Nat) : (List.replicate width ' ').filter isLeftAlone = [] := by
    refine List.filter_eq_nil_iff.mpr fun c member => ?_
    rw [List.eq_of_mem_replicate member]
    decide
  have opening : isLeftAlone '(' = false := rfl
  have space : isLeftAlone ' ' = false := rfl
  simp [respaced, written, noneInLead, noneInGap, noneInPadding, opening, space]

/-- Characters that stay the same in every respaced call stay the same in the text. -/
theorem filter_respaceAll {accept : Char → Bool} (source : Text)
    (same : ∀ text call, read? name text = some call →
      (call.respaced name).filter accept = (call.written name).filter accept) :
    (respaceAll name source).filter accept = source.filter accept := by
  have ordered : Edit.Ordered source (edits name source) :=
    (Pass.callSpacing name).ordered_edits source
  refine Edit.filter_applyFrom ordered fun respacing member => ?_
  obtain ⟨⟨position, call⟩, found, rfl⟩ := List.mem_map.mp member
  have read := read?_of_mem_scan found
  obtain ⟨behind, here⟩ := written_isPrefix_of_read? read
  simp only [Nat.add_sub_cancel_left]
  rw [← here, List.take_left]
  exact same _ call read

/-- Respacing the calls to an identifier keeps the lexical shape of a source: the number of
its characters, the positions that hold code, every character that is not code, the sequence
of its brackets, and all but its opening parentheses, commas and blanks. -/
theorem respaceAll_lexicalShape (identifier : ∀ c ∈ name, isWord c = true) (source : Text) :
    (respaceAll name source).length = source.length ∧
      (respaceAll name source).codePositions = source.codePositions ∧
      (∀ position, position ∉ source.codePositions →
        (respaceAll name source)[position]? = source[position]?) ∧
      (respaceAll name source).filter isBracket = source.filter isBracket ∧
      (respaceAll name source).filter isLeftAlone = source.filter isLeftAlone := by
  have respelled := respelled_respaceAll (fun c member => isPlain_of_isWord (identifier c member))
    source
  have alike := Text.isCodeAt_of_respelled respelled
  refine ⟨respelled.length_eq, ?_, fun position notCode => ?_, ?_, ?_⟩
  · rw [Text.codePositions_eq_filter, Text.codePositions_eq_filter, respelled.length_eq]
    exact List.filter_congr fun position _ => (alike position).1
  · apply (alike position).2
    simpa using notCode
  · exact filter_respaceAll source fun _ _ found => filter_isBracket_respaced identifier found
  · exact filter_respaceAll source fun _ _ found => filter_isLeftAlone_respaced found

/-- A call in an interpolation that is broken over two lines, behind the same call in a
comment and before it in a string. -/
theorem respaceAll_lexicalShape_ring :
    (∀ c ∈ "ring".toList, isWord c = true) ∧
      respaceAll "ring".toList "# (ring 1)\n\"#\x7b(\n ring,, ?' )\x7d (ring 2)\"".toList =
        "# (ring 1)\n\"#\x7b \n ring(  ?' )\x7d (ring 2)\"".toList ∧
      Text.codePositions "# (ring 1)\n\"#\x7b \n ring(  ?' )\x7d (ring 2)\"".toList =
        Text.codePositions "# (ring 1)\n\"#\x7b(\n ring,, ?' )\x7d (ring 2)\"".toList := by
  have identifier : ∀ c ∈ "ring".toList, isWord c = true :=
    List.all_eq_true.mp (by decide +kernel)
  have respaced : respaceAll "ring".toList
      "# (ring 1)\n\"#\x7b(\n ring,, ?' )\x7d (ring 2)\"".toList =
        "# (ring 1)\n\"#\x7b \n ring(  ?' )\x7d (ring 2)\"".toList := by
    decide +kernel
  have shape := (respaceAll_lexicalShape identifier
    "# (ring 1)\n\"#\x7b(\n ring,, ?' )\x7d (ring 2)\"".toList).2.1
  rw [respaced] at shape
  exact ⟨identifier, respaced, shape⟩

end PrefixCall

end Desugar

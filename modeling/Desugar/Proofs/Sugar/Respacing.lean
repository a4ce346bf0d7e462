import Desugar.Proofs.Lexer.Respelling
import Desugar.Proofs.Pass.Order

/-!
# Respaced text is read alike

Respacing a prefix call exchanges parentheses, commas and blanks for each other and leaves
the name where it is. `PrefixCall.respelled_respaceAll` says that this is all that happens
to the text, for a name without any character that means something to the reader.
-/

namespace Desugar

/-- A blank belongs to no word. -/
theorem isWord_eq_false_of_isBlank {c : Char} (blank : isBlank c = true) : isWord c = false := by
  have none : ∀ range ∈ CodeRange.whiteSpace,
      ∀ code ∈ List.range' range.first (range.last + 1 - range.first),
        isWord (Char.ofNat code) = false := by
    decide +kernel
  obtain ⟨range, member, first, last⟩ := CodeRange.anyContains_iff.mp blank
  have listed : c.toNat ∈ List.range' range.first (range.last + 1 - range.first) := by
    rw [List.mem_range'_1]
    omega
  rw [← Char.ofNat_toNat c]
  exact none range member c.toNat listed

theorem isFiller_of_isBlank {c : Char} (blank : isBlank c = true) : isFiller c = true :=
  isFiller_iff.mpr ⟨isPlain_of_isBlank blank, isWord_eq_false_of_isBlank blank⟩

namespace PrefixCall

open Reading

theorem isFiller_of_isSeparator {c : Char} (separator : isSeparator c = true) :
    isFiller c = true := by
  rw [isSeparator, Bool.or_eq_true, beq_iff_eq] at separator
  rcases separator with rfl | blank
  · decide
  · exact isFiller_of_isBlank blank

variable {name : Text}

/-- A prefix call has blanks before its name and separators behind it. -/
theorem blanks_of_read? {text : Text} {call : PrefixCall} (found : read? name text = some call) :
    (∀ c ∈ call.lead, isBlank c = true) ∧ ∀ c ∈ call.gap, isSeparator c = true := by
  unfold read? at found
  split at found
  · dsimp only at found
    split at found
    · cases found
      exact ⟨List.all_eq_true.mp List.all_takeWhile, List.all_eq_true.mp List.all_takeWhile⟩
    · cases found
  · cases found

/-- A prefix call to a plain name is plain text. -/
theorem isPlain_of_mem_written (plainName : ∀ c ∈ name, isPlain c = true) {text : Text}
    {call : PrefixCall} (found : read? name text = some call) :
    ∀ c ∈ call.written name, isPlain c = true := by
  obtain ⟨blanks, separators⟩ := blanks_of_read? found
  intro c member
  rw [written, List.cons_append, List.cons_append, List.mem_cons, List.mem_append,
    List.mem_append] at member
  rcases member with rfl | (lead | inName) | gap
  · rfl
  · exact isPlain_of_isBlank (blanks c lead)
  · exact plainName c inName
  · exact (isFiller_iff.mp (isFiller_of_isSeparator (separators c gap))).1

/-- A respaced call is the written one with other fillers. -/
theorem respelled_respaced (plainName : ∀ c ∈ name, isPlain c = true) {source rest other : Text}
    {call : PrefixCall} (found : read? name source = some call) {reading : Reading}
    (fresh : reading.mode = .fresh) (inCode : InCode reading.nesting)
    (respelled : Respelled (reading.after (call.written name) rest) rest other) :
    Respelled reading (call.written name ++ rest) (call.respaced name ++ other) := by
  obtain ⟨_, separators⟩ := blanks_of_read? found
  have positive := List.length_pos_iff.mpr (gap_ne_nil_of_read? found)
  have written : call.written name ++ rest =
      ['('] ++ ((call.lead ++ name) ++ (call.gap ++ rest)) := by
    simp [PrefixCall.written]
  have respaced : call.respaced name ++ other =
      [' '] ++ ((call.lead ++ name) ++
        ('(' :: List.replicate (call.gap.length - 1) ' ' ++ other)) := by
    simp [PrefixCall.respaced]
  have plainHead : ∀ c ∈ ['('] ++ (call.lead ++ name), isPlain c = true := by
    intro c member
    refine isPlain_of_mem_written plainName found c ?_
    rw [PrefixCall.written]
    exact List.mem_append_left _ member
  have newFillers : ∀ c ∈ '(' :: List.replicate (call.gap.length - 1) ' ', isFiller c = true := by
    intro c member
    rcases List.mem_cons.mp member with rfl | padding
    · decide
    · rw [List.eq_of_mem_replicate padding]
      decide
  have lengths : call.gap.length = ('(' :: List.replicate (call.gap.length - 1) ' ').length := by
    rw [List.length_cons, List.length_replicate]
    omega
  have oldFiller : ∀ c ∈ ['('], isFiller c = true := by
    intro c member
    rw [List.mem_singleton.mp member]
    decide
  have newFiller : ∀ c ∈ [' '], isFiller c = true := by
    intro c member
    rw [List.mem_singleton.mp member]
    decide
  rw [written, respaced]
  refine .append_fillers fresh inCode oldFiller newFiller rfl ?_
  refine .append_left ?_
  rw [← after_append]
  have behindName : (reading.after (['('] ++ (call.lead ++ name)) (call.gap ++ rest)).mode =
      .fresh ∧ _ = reading.nesting := after_plain plainHead fresh inCode
  refine .append_fillers behindName.1 (behindName.2 ▸ inCode)
    (fun c member => isFiller_of_isSeparator (separators c member)) newFillers lengths ?_
  rw [← after_append, List.append_assoc, List.append_assoc]
  simpa [PrefixCall.written] using respelled

/-- The edit that respaces a call. -/
def edit (name : Text) (found : Nat × PrefixCall) : Edit :=
  ⟨found.1, found.1 + (found.2.written name).length, found.2.respaced name⟩

/-- A call is respaced in its own width. -/
theorem stop_of_mem_edits {source : Text} {respacing : Edit}
    (member : respacing ∈ edits name source) :
    respacing.start + respacing.text.length = respacing.stop := by
  obtain ⟨⟨position, call⟩, found, rfl⟩ := List.mem_map.mp member
  rw [length_respaced (gap_ne_nil_of_read? (read?_of_mem_scan found))]

/-- A character before the calls stays. -/
theorem applyFrom_claimsFrom {source rest : Text} {position : Nat} {c : Char} :
    Edit.applyFrom position ((source.claimsFrom (rule name) (position + 1)).map (edit name))
        (c :: rest) =
      c :: Edit.applyFrom (position + 1)
        ((source.claimsFrom (rule name) (position + 1)).map (edit name)) rest := by
  have later : ∀ respacing ∈ (source.claimsFrom (rule name) (position + 1)).map (edit name),
      position + 1 ≤ respacing.start := by
    intro respacing member
    obtain ⟨call, collected, rfl⟩ := List.mem_map.mp member
    exact Text.le_of_mem_claimsFrom collected
  have forward : ∀ respacing ∈ (source.claimsFrom (rule name) (position + 1)).map (edit name),
      respacing.start ≤ respacing.stop := by
    intro respacing member
    obtain ⟨call, _, rfl⟩ := List.mem_map.mp member
    exact Nat.le_add_right _ _
  rw [Edit.applyFrom_of_le later forward]
  rfl

/-- Behind a prefix call to a plain name the source is read as behind its parenthesis, and
a cursor that has passed over the call is in step with the reading. -/
theorem collect_eq_claimsFrom (plainName : ∀ c ∈ name, isPlain c = true)
    {source rest behind : Text} {position : Nat} {c : Char} {call : PrefixCall}
    (here : source.drop position = c :: rest) (divided : call.written name ++ behind = c :: rest)
    (found : read? name (c :: rest) = some call) (isCode : source.isCodeAt position = true) :
    (source.readingAt position).mode = .fresh ∧ InCode (source.readingAt position).nesting ∧
      Cursor.collect (rule name) ((call.written name).length - 1) (some c)
          ⟨position + 1, (source.readingAt (position + 1)).nesting⟩ rest =
        source.claimsFrom (rule name) (position + (call.written name).length) := by
  have opening : c = '(' := (List.cons.inj divided).1.symm
  rw [Text.isCodeAt_eq here] at isCode
  obtain ⟨fresh, inCode⟩ := of_step_code isCode (by rw [opening]; decide)
  have plainOpening : isPlain c = true := by
    rw [opening]
    rfl
  have behindOpening : (source.readingAt (position + 1)).nesting =
      (source.readingAt position).nesting := by
    rw [Text.readingAt_succ here, step_of_plain plainOpening fresh inCode]
  have behindCall :
      (source.readingAt (position + (call.written name).length)).mode = .fresh ∧
        (source.readingAt (position + (call.written name).length)).nesting =
          (source.readingAt position).nesting := by
    rw [Text.readingAt_add (here.trans divided.symm)]
    exact after_plain (isPlain_of_mem_written plainName found) fresh inCode
  refine ⟨fresh, inCode, ?_⟩
  rw [behindOpening, ← behindCall.2]
  refine Text.collect_eq_claimsFrom here ?_ behindCall.1
  simp [written]

/-- Respacing the calls that are found from a position on respells the rest of the
source. -/
theorem respelled_claimsFrom (plainName : ∀ c ∈ name, isPlain c = true) {source rest : Text}
    {position : Nat} (here : source.drop position = rest) :
    Respelled (source.readingAt position) rest
      (Edit.applyFrom position ((source.claimsFrom (rule name) position).map (edit name))
        rest) := by
  generalize remaining : rest.length = bound
  induction bound using Nat.strongRecOn generalizing position rest with
  | ind bound inductionHypothesis =>
      cases rest with
      | nil =>
          rw [Text.claimsFrom, here, Cursor.collect]
          exact .nil _
      | cons c rest =>
          rw [List.length_cons] at remaining
          have kept : Respelled (source.readingAt position) (c :: rest)
              (Edit.applyFrom position
                ((source.claimsFrom (rule name) (position + 1)).map (edit name)) (c :: rest)) := by
            rw [applyFrom_claimsFrom]
            refine .same c ?_
            rw [← Text.readingAt_succ here]
            exact inductionHypothesis rest.length (by omega) (Text.drop_succ_of_drop here) rfl
          rw [Text.claimsFrom_eq here]
          split
          · next isCode =>
            split
            · exact kept
            · next call width claimed =>
              obtain ⟨_, found, same⟩ := Option.map_eq_some_iff.mp claimed
              cases same
              obtain ⟨behind, divided⟩ := written_isPrefix_of_read? found
              obtain ⟨fresh, inCode, collected⟩ :=
                collect_eq_claimsFrom plainName here divided found isCode
              have lengths := congrArg List.length divided
              rw [List.length_append, List.length_cons] at lengths
              have positive : 0 < (call.written name).length := by simp [written]
              have dropped : (c :: rest).drop (call.written name).length = behind := by
                rw [← divided, List.drop_left]
              have there : source.drop (position + (call.written name).length) = behind := by
                rw [← List.drop_drop, here, dropped]
              rw [collected, List.map_cons, Edit.applyFrom, edit, Nat.sub_self, List.take_zero,
                List.nil_append, Nat.add_sub_cancel_left, dropped, ← divided]
              refine respelled_respaced plainName found fresh inCode ?_
              rw [← Text.readingAt_add (here.trans divided.symm)]
              exact inductionHypothesis behind.length (by omega) there rfl
          · exact kept

/-- Respacing the calls to a plain name respells a source. -/
theorem respelled_respaceAll (plainName : ∀ c ∈ name, isPlain c = true) (source : Text) :
    Respelled start source (respaceAll name source) := by
  have here : source.drop 0 = source := rfl
  exact respelled_claimsFrom plainName here

end PrefixCall

end Desugar

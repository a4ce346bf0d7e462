import Desugar.Pass
import Desugar.Proofs.Decimal.Padding

/-!
# What sugar looks like

A rule looks for sugar by cutting the text into runs. The theorems here say the other way
round what the text looks like where a rule has found something: the sugar as it is written,
and behind it nothing that would have made it longer. So a rule looks no further than a few
characters behind what it finds.
-/

namespace Desugar

/-- A run of accepted characters ends where one is not accepted. -/
theorem Text.takeWhile_append {accept : Char → Bool} {run rest : Text}
    (all : ∀ c ∈ run, accept c = true) (ends : rest.head?.any accept = false) :
    (run ++ rest).takeWhile accept = run ∧ (run ++ rest).dropWhile accept = rest := by
  rw [List.takeWhile_append_of_pos all, List.dropWhile_append_of_pos all]
  cases rest with
  | nil => simp
  | cons c rest =>
      have rejected : accept c = false := ends
      simp [rejected]

theorem Text.head?_dropWhile (accept : Char → Bool) (text : Text) :
    (text.dropWhile accept).head?.any accept = false := by
  cases remaining : text.dropWhile accept with
  | nil => rfl
  | cons c others =>
      have ends := List.head?_dropWhile_not accept text
      rw [remaining] at ends
      simpa using ends

namespace ListBlock

/-- What a block that is found looks like. -/
structure Shape (keywords : List Keyword) (block : ListBlock) : Prop where
  keyword : block.keyword ∈ keywords
  gap : block.gap ≠ []
  blanks : ∀ c ∈ block.gap, isBlank c = true
  body : block.body.head?.any isBlank = false
  closed : ')' ∉ block.body

/-- Keywords are told apart by their first characters. -/
theorem isPrefixOf_word_append (keyword other : Keyword) (rest : Text) :
    keyword.word.isPrefixOf (other.word ++ rest) = decide (keyword = other) := by
  cases keyword <;> cases other <;> rfl

theorem find?_word_append {keywords : List Keyword} {keyword : Keyword}
    (member : keyword ∈ keywords) (rest : Text) :
    (keywords.find? fun other => other.word.isPrefixOf (keyword.word ++ rest)) = some keyword := by
  simp only [isPrefixOf_word_append]
  induction keywords with
  | nil => cases member
  | cons first keywords inductionHypothesis =>
      rw [List.find?_cons]
      by_cases same : first = keyword
      · simp [same]
      · rcases List.mem_cons.mp member with rfl | later
        · exact absurd rfl same
        · simp [same, inductionHypothesis later]

/-- A block is found where it stands with its shape. -/
theorem read?_eq_some_iff {keywords : List Keyword} {text : Text} {block : ListBlock} :
    read? keywords text = some block ↔ block.Shape keywords ∧ block.written <+: text := by
  constructor
  · intro found
    refine ⟨?_, written_isPrefix_of_read? found⟩
    unfold read? at found
    split at found
    · next rest =>
      obtain ⟨keyword, chosen, found⟩ := Option.bind_eq_some_iff.mp found
      dsimp only at found
      split at found
      · cases found
      · next shape =>
        cases found
        rw [Bool.or_eq_true, not_or, Bool.not_eq_true, List.isEmpty_eq_false_iff] at shape
        refine ⟨List.mem_of_find?_eq_some chosen, shape.1, ?_, ?_, ?_⟩
        · exact List.all_eq_true.mp List.all_takeWhile
        · have ends := Text.head?_dropWhile isBlank (rest.drop keyword.word.length)
          cases remaining : (rest.drop keyword.word.length).dropWhile isBlank with
          | nil => rfl
          | cons c others =>
              rw [remaining] at ends
              by_cases closing : c = ')'
              · simp [closing]
              · simpa [closing] using ends
        · intro member
          have other := List.all_eq_true.mp List.all_takeWhile _ member
          cases other
    · cases found
  · rintro ⟨shape, behind, rfl⟩
    obtain ⟨keyword, gap, body⟩ := block
    have written : written ⟨keyword, gap, body⟩ ++ behind =
        '(' :: (keyword.word ++ (gap ++ (body ++ ')' :: behind))) := by
      simp [ListBlock.written]
    have ends : (body ++ ')' :: behind).head?.any isBlank = false := by
      have first := shape.body
      cases body with
      | nil => rfl
      | cons c body => exact first
    have closed : ∀ c ∈ body, (c != ')') = true := by
      intro c member
      rw [bne_iff_ne]
      rintro rfl
      exact shape.closed member
    obtain ⟨blanks, content⟩ := Text.takeWhile_append shape.blanks ends
    have inner : (body ++ ')' :: behind).takeWhile (fun c => c != ')') = body :=
      (Text.takeWhile_append closed rfl).1
    rw [written, read?, find?_word_append shape.keyword, Option.bind_some]
    simp only [List.drop_left, blanks, content, inner]
    rw [if_neg]
    simp [shape.gap]

/-- Between the opening parenthesis of a block and its body, the text is plain and has no
parenthesis. -/
theorem Shape.of_mem_head {keywords : List Keyword} {block : ListBlock}
    (shape : block.Shape keywords) {c : Char} (member : c ∈ block.keyword.word ++ block.gap) :
    isPlain c = true ∧ c ≠ '(' ∧ c ≠ ')' := by
  have ofWord : ∀ keyword : Keyword, keyword.word.all
      (fun c => isPlain c = true ∧ c ≠ '(' ∧ c ≠ ')') = true := by
    rintro (_ | _ | _) <;> rfl
  rcases List.mem_append.mp member with inWord | inGap
  · exact of_decide_eq_true (List.all_eq_true.mp (ofWord _) c inWord)
  · have blank := shape.blanks c inGap
    refine ⟨isPlain_of_isBlank blank, ?_, ?_⟩ <;>
      · rintro rfl
        cases blank

/-- A block begins with a parenthesis. -/
theorem rule_of_ne {keywords : List Keyword} {previous : Option Char} {c : Char} {rest : Text}
    (other : c ≠ '(') : rule keywords previous (c :: rest) = none := by
  unfold rule read?
  split
  · next same => exact absurd (List.cons.inj same).1 other
  · rfl

end ListBlock

namespace PrefixCall

/-- What a prefix call that is found looks like. -/
structure Shape (name : Text) (call : PrefixCall) : Prop where
  lead : ∀ c ∈ call.lead, isBlank c = true
  name : (name ++ call.gap).head?.any isBlank = false
  gap : call.gap ≠ []
  separators : ∀ c ∈ call.gap, isSeparator c = true

/-- A prefix call is found where it stands with its shape and no further separator. -/
theorem read?_eq_some_iff {name text : Text} {call : PrefixCall} :
    read? name text = some call ↔
      call.Shape name ∧ ∃ behind, text = call.written name ++ behind ∧
        behind.head?.any isSeparator = false := by
  constructor
  · intro found
    unfold read? at found
    split at found
    · next rest =>
      dsimp only at found
      split at found
      · next shape =>
        cases found
        simp only [Bool.and_eq_true, Bool.not_eq_true', List.isEmpty_eq_false_iff] at shape
        obtain ⟨spelled, gap⟩ := shape
        obtain ⟨behind, callee⟩ := List.isPrefixOf_iff_prefix.mp spelled
        have first := Text.head?_dropWhile isBlank rest
        have whole := List.takeWhile_append_dropWhile (p := isBlank) (l := rest)
        rw [← callee, List.drop_left] at gap ⊢
        rw [← callee] at first whole
        refine ⟨⟨List.all_eq_true.mp List.all_takeWhile, ?_, gap,
          List.all_eq_true.mp List.all_takeWhile⟩, behind.dropWhile isSeparator, ?_,
          Text.head?_dropWhile isSeparator behind⟩
        · cases name with
          | cons c name => exact first
          | nil =>
              cases behind with
              | nil => rfl
              | cons c behind =>
                  by_cases separator : isSeparator c = true
                  · simpa [separator] using first
                  · simp [separator]
        · simp [written, List.takeWhile_append_dropWhile, whole]
      · cases found
    · cases found
  · rintro ⟨shape, behind, rfl, ends⟩
    obtain ⟨lead, gap⟩ := call
    have first : (name ++ (gap ++ behind)).head?.any isBlank = false := by
      have shaped := shape.name
      rw [← List.append_assoc]
      cases named : name ++ gap with
      | nil => exact absurd (List.append_eq_nil_iff.mp named).2 shape.gap
      | cons c others =>
          simp only [named] at shaped
          exact shaped
    obtain ⟨blanks, callee⟩ := Text.takeWhile_append shape.lead first
    have separators : (gap ++ behind).takeWhile isSeparator = gap :=
      (Text.takeWhile_append shape.separators ends).1
    have written : written name ⟨lead, gap⟩ ++ behind =
        '(' :: (lead ++ (name ++ (gap ++ behind))) := by
      simp [PrefixCall.written]
    rw [written, read?]
    simp only [blanks, callee, List.drop_left, separators]
    rw [if_pos]
    simp [shape.gap]

/-- A prefix call begins with a parenthesis. -/
theorem rule_of_ne {name : Text} {previous : Option Char} {c : Char} {rest : Text}
    (other : c ≠ '(') : rule name previous (c :: rest) = none := by
  unfold rule read?
  split
  · next same => exact absurd (List.cons.inj same).1 other
  · rfl

end PrefixCall

namespace SymbolPath

/-- The segments that a chain of symbols still has behind one of them. -/
def moreSegments : Text → List Text
  | ':' :: rest => readSegments rest
  | _ => []

theorem moreSegments_of_ne {rest : Text} (other : rest.head? ≠ some ':') :
    moreSegments rest = [] := by
  unfold moreSegments
  split
  · exact absurd rfl other
  · rfl

/-- A chain of symbols has a segment, and may go on behind it. -/
theorem readSegments_append {segment rest : Text} (nonempty : segment ≠ [])
    (all : ∀ c ∈ segment, isSegment c = true) (ends : rest.head?.any isSegment = false) :
    readSegments (segment ++ rest) = segment :: moreSegments rest := by
  have noColon : ':' ∉ segment := fun member => absurd (all _ member) (by decide)
  have chain : ∀ c ∈ segment, isChain c = true := fun c member => by
    rw [isChain, all c member, Bool.or_true]
  have kept : segment.isEmpty = false := by simpa using nonempty
  rw [readSegments, List.takeWhile_append_of_pos chain]
  by_cases colon : rest.head? = some ':'
  · obtain ⟨more, rfl⟩ := List.head?_eq_some_iff.mp colon
    rw [List.takeWhile_cons_of_pos (by decide), List.splitOn_append_cons_self_of_not_mem noColon,
      List.takeWhile_cons, kept]
    rfl
  · have stops : rest.takeWhile isChain = [] := by
      cases rest with
      | nil => rfl
      | cons c more =>
          have notColon : (c == ':') = false := by simpa using colon
          have notSegment : isSegment c = false := ends
          rw [List.takeWhile_cons_of_neg (by simp [isChain, notColon, notSegment])]
    rw [stops, List.append_nil, List.splitOn_eq_singleton noColon, List.takeWhile_cons, kept,
      moreSegments_of_ne colon]
    rfl

/-- A chain of symbols ends where no segment stands. -/
theorem readSegments_of_no_segment {rest : Text} (ends : rest.head?.any isSegment = false) :
    readSegments rest = [] := by
  rw [readSegments]
  cases rest with
  | nil => rfl
  | cons c rest =>
      by_cases colon : c = ':'
      · subst colon
        rw [List.takeWhile_cons_of_pos (by decide), List.splitOn_cons_eq_if_modifyHead]
        rfl
      · have notChain : isChain c = false := by
          rw [isChain, beq_eq_false_iff_ne.mpr colon, Bool.false_or]
          exact ends
        rw [List.takeWhile_cons_of_neg (by simp [notChain])]
        rfl

/-- A chain of symbols has no segment only if none stands there. -/
theorem no_segment_of_readSegments {rest : Text} (nothing : readSegments rest = []) :
    rest.head?.any isSegment = false := by
  cases rest with
  | nil => rfl
  | cons c rest =>
      cases segment : isSegment c with
      | false => exact segment
      | true =>
          have divided := List.takeWhile_append_dropWhile (p := isSegment) (l := c :: rest)
          have nonempty : (c :: rest).takeWhile isSegment ≠ [] := by simp [segment]
          rw [← divided, readSegments_append nonempty (List.all_eq_true.mp List.all_takeWhile)
            (Text.head?_dropWhile _ _)] at nothing
          cases nothing

/-- What comes behind a path that is found: no further character of its last segment, and no
further segment. -/
structure Ends (behind : Text) : Prop where
  segment : behind.head?.any isSegment = false
  more : behind.head? = some ':' → (behind.drop 1).head?.any isSegment = false

theorem Ends.moreSegments_eq_nil {behind : Text} (ends : Ends behind) :
    moreSegments behind = [] := by
  by_cases colon : behind.head? = some ':'
  · obtain ⟨more, rfl⟩ := List.head?_eq_some_iff.mp colon
    exact readSegments_of_no_segment (ends.more colon)
  · exact moreSegments_of_ne colon

/-- Segments, each with a colon before it. -/
def chained (segments : List Text) : Text :=
  segments.flatMap fun segment => ':' :: segment

/-- The text behind the first colon of a chain of symbols is the chain, up to its end. -/
theorem exists_chained (rest : Text) :
    ∃ behind, ':' :: rest = chained (readSegments rest) ++ behind ∧
      (∀ segment ∈ readSegments rest, segment ≠ [] ∧ ∀ c ∈ segment, isSegment c = true) ∧
      (readSegments rest ≠ [] → Ends behind) := by
  generalize size : rest.length = bound
  induction bound using Nat.strongRecOn generalizing rest with
  | ind bound inductionHypothesis =>
      have divided := List.takeWhile_append_dropWhile (p := isSegment) (l := rest)
      have all : ∀ c ∈ rest.takeWhile isSegment, isSegment c = true :=
        List.all_eq_true.mp List.all_takeWhile
      have ends := Text.head?_dropWhile isSegment rest
      generalize rest.takeWhile isSegment = segment at divided all
      generalize rest.dropWhile isSegment = others at divided ends
      subst divided
      by_cases nonempty : segment = []
      · subst nonempty
        rw [List.nil_append, readSegments_of_no_segment ends]
        exact ⟨':' :: others, rfl, nofun, fun some => absurd rfl some⟩
      · rw [readSegments_append nonempty all ends]
        by_cases colon : others.head? = some ':'
        · obtain ⟨more, rfl⟩ := List.head?_eq_some_iff.mp colon
          have shorter : more.length < bound := by
            rw [← size, List.length_append, List.length_cons]
            omega
          obtain ⟨behind, chain, segments, stops⟩ := inductionHypothesis _ shorter more rfl
          have first : ':' :: (segment ++ ':' :: more) =
              chained (segment :: readSegments more) ++ behind := by
            rw [chain]
            simp [chained]
          refine ⟨behind, first, ?_, fun _ => ?_⟩
          · intro piece member
            rcases List.mem_cons.mp member with rfl | member
            · exact ⟨nonempty, all⟩
            · exact segments piece member
          · by_cases none : readSegments more = []
            · rw [none] at chain
              have same : ':' :: more = behind := chain
              exact ⟨same ▸ ends, fun _ => same ▸ no_segment_of_readSegments none⟩
            · exact stops none
        · rw [moreSegments_of_ne colon]
          refine ⟨others, ?_, ?_, fun _ => ⟨ends, fun same => absurd same colon⟩⟩
          · simp [chained]
          · intro piece member
            rw [List.mem_singleton.mp member]
            exact ⟨nonempty, all⟩

/-- A chain of symbols that is written out is read back. -/
theorem readSegments_chained {segment behind : Text} {segments : List Text}
    (all : ∀ piece ∈ segment :: segments, piece ≠ [] ∧ ∀ c ∈ piece, isSegment c = true)
    (ends : Ends behind) :
    readSegments (segment ++ (chained segments ++ behind)) = segment :: segments := by
  induction segments generalizing segment with
  | nil =>
      obtain ⟨nonempty, accepted⟩ := all segment (List.mem_cons_self ..)
      rw [chained, List.flatMap_nil, List.nil_append,
        readSegments_append nonempty accepted ends.segment, ends.moreSegments_eq_nil]
  | cons next segments inductionHypothesis =>
      obtain ⟨nonempty, accepted⟩ := all segment (List.mem_cons_self ..)
      have further := inductionHypothesis fun piece member =>
        all piece (List.mem_cons_of_mem _ member)
      have written : chained (next :: segments) ++ behind =
          ':' :: (next ++ (chained segments ++ behind)) := by
        simp [chained]
      rw [written, readSegments_append nonempty accepted rfl, moreSegments, further]

/-- A path is found where it stands behind no colon and no word, and does not go on. -/
theorem read?_eq_some_iff {previous : Option Char} {text : Text} {path : SymbolPath} :
    read? previous text = some path ↔
      (previous.any fun c => c == ':' || isWord c) = false ∧
        (∀ segment ∈ path.segments, segment ≠ [] ∧ ∀ c ∈ segment, isSegment c = true) ∧
        ∃ behind, text = path.written ++ behind ∧ Ends behind := by
  constructor
  · intro found
    unfold read? at found
    split at found
    · next rest =>
      split at found
      · cases found
      · next alone =>
        have segments := segments_of_ofSegments? found
        obtain ⟨behind, chain, accepted, ends⟩ := exists_chained rest
        rw [← segments] at chain accepted ends
        refine ⟨by simpa using alone, accepted, behind, chain, ends fun none => ?_⟩
        have enough := path.two_le_length
        rw [none] at enough
        cases enough
    · cases found
  · rintro ⟨alone, accepted, behind, rfl, ends⟩
    obtain ⟨segments, enough⟩ := path
    cases segments with
    | nil => cases enough
    | cons segment segments =>
        have written : written ⟨segment :: segments, enough⟩ ++ behind =
            ':' :: (segment ++ (chained segments ++ behind)) := by
          simp [SymbolPath.written, chained]
        rw [written, read?, alone, readSegments_chained accepted ends]
        simp only [Bool.false_eq_true, ↓reduceIte, ofSegments?]
        rw [dif_pos enough]

/-- A path begins with a colon. -/
theorem rule_of_ne {previous : Option Char} {c : Char} {rest : Text}
    (other : c ≠ ':') : rule previous (c :: rest) = none := by
  unfold rule read?
  split
  · next same => exact absurd (List.cons.inj same).1 other
  · rfl

end SymbolPath

namespace Decimal

/-- What a decimal `.3` at the head of a text looks like. -/
theorem leadsWithDot_iff {previous : Option Char} {rest : Text} :
    leadsWithDot previous rest = true ↔
      (previous.any fun c => c == '.' || isWord c) = false ∧
        ∃ digits behind, rest = '.' :: digits ++ behind ∧ digits ≠ [] ∧
          (∀ c ∈ digits, c.isDigit = true) ∧ behind.head?.any Char.isDigit = false ∧
          (behind.head?.all fun c => isBlank c || c == ')') = true := by
  constructor
  · intro leads
    unfold leadsWithDot at leads
    split at leads
    · next tail =>
      simp only [Bool.and_eq_true, Bool.not_eq_true'] at leads
      refine ⟨leads.1.2, tail.takeWhile Char.isDigit, tail.dropWhile Char.isDigit, ?_, ?_,
        List.all_eq_true.mp List.all_takeWhile, Text.head?_dropWhile _ _, leads.2⟩
      · rw [List.cons_append, List.takeWhile_append_dropWhile]
      · cases tail with
        | nil => cases leads.1.1
        | cons c tail =>
            have digit : c.isDigit = true := leads.1.1
            simp [digit]
    · cases leads
  · rintro ⟨alone, digits, behind, rfl, nonempty, all, ends, follows⟩
    obtain ⟨c, others, rfl⟩ := List.exists_cons_of_ne_nil nonempty
    have dropped := (Text.takeWhile_append all ends).2
    have digit := all c (List.mem_cons_self ..)
    rw [List.cons_append, leadsWithDot, dropped, alone, follows]
    simp [digit]

end Decimal

end Desugar

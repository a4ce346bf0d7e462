import Desugar.Proofs.Indexed.Decimals
import Desugar.Proofs.Program.Idempotence

/-!
# Numerals listed in a block

The words of a list block are joined with commas before decimals are completed. By then a comma
stands behind each numeral of the list, and the closing parenthesis behind the last one. Neither
ends a decimal `2.`, and only the parenthesis ends a decimal `.3`. So `desugar_numeralList` says
that only the last numeral is completed, and only if it begins with its dot.
-/

namespace Desugar

/-- A text without a `#` has no comments to leave out. -/
theorem uncomment_eq_self {text : Text} (noHash : '#' ∉ text) : uncomment false text = text := by
  induction text with
  | nil => rfl
  | cons c text inductionHypothesis =>
      obtain ⟨different, later⟩ := not_or.mp (mt List.mem_cons.mpr noHash)
      rw [uncomment, if_neg (by simp [Ne.symm different]), inductionHypothesis later]

/-- A word that is an entry of its own wherever it stands in the body of a list block. -/
structure Listable (word : Text) : Prop where
  nonempty : word ≠ []
  solid : ∀ c ∈ word, isBlank c = false
  noComment : '#' ∉ word
  noClosing : ')' ∉ word

namespace Listable

variable {words : List Text}

theorem words_eq {word : Text} (listable : Listable word) : Text.words word = [word] :=
  Text.words_eq_singleton listable.nonempty listable.solid

/-- Words with spaces between them are flattened to the words with commas between them. -/
theorem flattenBody_intercalate (listable : ∀ word ∈ words, Listable word) :
    flattenBody ([' '].intercalate words) = [','].intercalate words := by
  have spaceBlank : isBlank ' ' = true := by decide
  have noComment : '#' ∉ [' '].intercalate words := by
    intro member
    rcases Text.of_mem_intercalate member with between | ⟨word, listed, inside⟩
    · cases List.mem_singleton.mp between
    · exact (listable word listed).noComment inside
  have separate : words.flatMap Text.words = words := by
    rw [List.flatMap, List.map_congr_left fun word listed => (listable word listed).words_eq,
      ← List.flatMap, List.flatMap_singleton']
  rw [flattenBody, uncomment_eq_self noComment, Text.words_intercalate spaceBlank, separate]

end Listable

namespace ListBlock

variable {keywords : List Keyword} {block : ListBlock}

/-- In a text that is a single block, nothing else is found. -/
theorem all_written (shape : block.Shape keywords) :
    all keywords block.written = [(0, block)] := by
  have read := read?_eq_some_iff.mpr ⟨shape, List.prefix_refl block.written⟩
  have claimed : rule keywords none block.written = some (block, block.written.length) := by
    rw [rule, read, Option.map_some]
  have first : Cursor.start.next block.written = (some 0, ⟨1, []⟩) := rfl
  rw [all, Text.scan, Cursor.scan_eq, first]
  simp only [Text.before?_zero, List.drop_zero, claimed]
  rw [Cursor.scan, List.drop_of_length_le (by simp only [Cursor.jumpTo]; omega), Cursor.collect]

/-- A text that is a single block becomes that block with its body flattened. -/
theorem expand_written (shape : block.Shape keywords) :
    expand keywords block.written = { block with body := flattenBody block.body }.written := by
  have single : edits keywords block.written = (edit? 0 block).toList := by
    rw [edits, all_written shape, List.filterMap_cons, List.filterMap_nil]
    cases edit? 0 block <;> rfl
  rw [expand, single]
  exact applyFrom_edit? 0 block

/-- The block that lists words with a separator between them. -/
def ofWords (keyword : Keyword) (separator : Char) (words : List Text) : ListBlock :=
  ⟨keyword, [' '], [separator].intercalate words⟩

/-- A block that lists words, cut before its body. -/
theorem written_ofWords (keyword : Keyword) (separator : Char) (words : List Text) :
    (ofWords keyword separator words).written =
      ('(' :: keyword.word ++ [' ']) ++ ([separator].intercalate words ++ [')']) := by
  simp [ofWords, written]

variable {keyword : Keyword} {words : List Text}

theorem shape_ofWords (member : keyword ∈ keywords)
    (listable : ∀ word ∈ words, Listable word) : (ofWords keyword ' ' words).Shape keywords := by
  refine ⟨member, List.cons_ne_nil _ _, List.forall_mem_singleton.mpr (by decide), ?_, ?_⟩
  · cases words with
    | nil => rfl
    | cons word words =>
        have first := listable word (List.mem_cons_self ..)
        obtain ⟨c, others, rfl⟩ := List.exists_cons_of_ne_nil first.nonempty
        rw [ofWords, List.intercalate_cons_cons_left]
        exact first.solid c (List.mem_cons_self ..)
  · intro closing
    rcases Text.of_mem_intercalate closing with between | ⟨word, listed, inside⟩
    · cases List.mem_singleton.mp between
    · exact (listable word listed).noClosing inside

/-- Expanding a block that lists words puts commas for the spaces. -/
theorem expand_ofWords (member : keyword ∈ keywords)
    (listable : ∀ word ∈ words, Listable word) :
    expand keywords (ofWords keyword ' ' words).written = (ofWords keyword ',' words).written := by
  rw [expand_written (shape_ofWords member listable)]
  simp only [ofWords, Listable.flattenBody_intercalate listable]

end ListBlock

/-- A run of decimal digits. -/
structure Digits where
  text : Text
  nonempty : text ≠ []
  all : ∀ c ∈ text, c.isDigit = true

/-- A digit by itself. -/
def Digits.single (digit : Char) (isDigit : digit.isDigit = true) : Digits where
  text := [digit]
  nonempty := List.cons_ne_nil _ _
  all := List.forall_mem_singleton.mpr isDigit

/-- A number without a sign, perhaps in shorthand. -/
inductive Numeral where
  /-- Digits alone. -/
  | whole (digits : Digits)
  /-- Digits and a dot behind them. -/
  | trailingDot (digits : Digits)
  /-- Digits and a dot before them. -/
  | leadingDot (digits : Digits)
  /-- Digits on both sides of a dot. -/
  | decimal (units fraction : Digits)

namespace Numeral

/-- The numeral as it is written. -/
def written : Numeral → Text
  | .whole digits => digits.text
  | .trailingDot digits => digits.text ++ ['.']
  | .leadingDot digits => '.' :: digits.text
  | .decimal units fraction => units.text ++ '.' :: fraction.text

/-- The numeral with a zero before a dot that it begins with. -/
def zeroBefore : Numeral → Text
  | .leadingDot digits => '0' :: '.' :: digits.text
  | numeral => numeral.written

/-- The numeral with a zero in the place of digits that are missing beside its dot. -/
def completed : Numeral → Text
  | .trailingDot digits => digits.text ++ ['.', '0']
  | numeral => numeral.zeroBefore

variable {numeral : Numeral} {c : Char}

/-- A numeral is made of digits and dots. -/
theorem of_mem_written (member : c ∈ numeral.written) : c.isDigit = true ∨ c = '.' := by
  have digit {digits : Digits} (inside : c ∈ digits.text) := digits.all c inside
  cases numeral <;> simp only [written, List.mem_append, List.mem_cons, List.not_mem_nil,
    or_false] at member
  case whole => exact .inl (digit member)
  case trailingDot => exact member.imp_left digit
  case leadingDot => exact member.symm.imp_left digit
  case decimal =>
      rcases member with inUnits | dot | inFraction
      · exact .inl (digit inUnits)
      · exact .inr dot
      · exact .inl (digit inFraction)

theorem isBlank_of_mem_written (member : c ∈ numeral.written) : isBlank c = false := by
  rcases of_mem_written member with digit | rfl
  · refine Bool.eq_false_iff.mpr fun blank => ?_
    rw [isDigit_eq_false_of_isBlank blank] at digit
    cases digit
  · decide

theorem listable_written (numeral : Numeral) : Listable numeral.written where
  nonempty := by
    cases numeral with
    | whole digits => exact digits.nonempty
    | trailingDot | leadingDot | decimal => simp [written]
  solid _ := isBlank_of_mem_written
  noComment member := by rcases of_mem_written member with digit | dot <;> contradiction
  noClosing member := by rcases of_mem_written member with digit | dot <;> contradiction

end Numeral

/-- In plain text every character is code. -/
theorem Text.isCodeAt_of_plain {text : Text} (plain : ∀ c ∈ text, isPlain c = true)
    {position : Nat} (inside : position < text.length) : text.isCodeAt position = true := by
  have here : text.drop position = text[position] :: text.drop (position + 1) :=
    List.drop_eq_getElem_cons inside
  have start : text.drop 0 = text.take position ++ text.drop position :=
    (List.take_append_drop position text).symm
  obtain ⟨fresh, nesting⟩ := readingAt_plain start
    (fun c member => plain c (List.mem_of_mem_take member)) rfl nofun
  rw [List.length_take, Nat.min_eq_left (Nat.le_of_lt inside), Nat.zero_add] at fresh nesting
  rw [isCodeAt_eq here, Reading.step_of_plain (plain _ (List.getElem_mem inside)) fresh]
  rw [nesting]
  exact nofun

namespace Decimal

/-- A text behind the character `previous`, with a zero before each dot that begins a decimal
`.3`, be it code or not. -/
def zeroed : (previous : Option Char) → Text → Text
  | _, [] => []
  | previous, c :: rest =>
      (if leadsWithDot previous (c :: rest) then ['0'] else []) ++ c :: zeroed (some c) rest

theorem padded_leadingGaps {text rest : Text} (plain : ∀ c ∈ text, isPlain c = true)
    {position : Nat} (here : text.drop position = rest) :
    rest.padded (leadingGaps text) position = zeroed (text.before? position) rest := by
  induction rest generalizing position with
  | nil =>
      have noGap : position ∉ leadingGaps text := by
        intro gap
        have leads := (mem_leadingGaps.mp gap).2
        rw [here] at leads
        cases leads
      rw [Text.padded_nil, Text.zeroAt_of_not_mem noGap, zeroed]
  | cons c rest inductionHypothesis =>
      have isCode := Text.isCodeAt_of_plain plain (Text.lt_length_of_drop here)
      have gap : position ∈ leadingGaps text ↔
          leadsWithDot (text.before? position) (c :: rest) = true := by
        rw [mem_leadingGaps, here, and_iff_right isCode]
      rw [Text.padded_cons, inductionHypothesis (Text.drop_succ_of_drop here), Text.before?_succ,
        Text.getElem?_of_drop here, zeroed, Text.zeroAt]
      simp only [gap]

/-- In plain text nothing hides a decimal `.3`. -/
theorem completeLeading_eq_zeroed {text : Text} (plain : ∀ c ∈ text, isPlain c = true) :
    completeLeading text = zeroed none text := by
  rw [completeLeading_eq_padded, padded_leadingGaps plain List.drop_zero, Text.before?_zero]

variable {previous : Option Char} {c : Char} {rest : Text}

theorem zeroed_cons_of_not_leads (leads : leadsWithDot previous (c :: rest) = false) :
    zeroed previous (c :: rest) = c :: zeroed (some c) rest := by
  rw [zeroed, leads]
  rfl

theorem zeroed_cons_of_ne (other : c ≠ '.') :
    zeroed previous (c :: rest) = c :: zeroed (some c) rest := by
  refine zeroed_cons_of_not_leads (Bool.eq_false_iff.mpr fun leads => ?_)
  obtain ⟨_, _, begins⟩ := leadsWithDot_cases leads
  cases begins
  exact other rfl

/-- A run of characters without a dot stays as it is. -/
theorem zeroed_append {run : Text} (noDot : '.' ∉ run) :
    zeroed previous (run ++ rest) = run ++ zeroed (run.getLast?.or previous) rest := by
  induction run generalizing previous with
  | nil => rfl
  | cons first run inductionHypothesis =>
      obtain ⟨different, later⟩ := not_or.mp (mt List.mem_cons.mpr noDot)
      rw [List.cons_append, zeroed_cons_of_ne (Ne.symm different), inductionHypothesis later,
        List.getLast?_cons, Option.or_some]
      rfl

variable (digits : Digits)

theorem zeroed_digits_append :
    zeroed previous (digits.text ++ rest) =
      digits.text ++ zeroed (digits.text.getLast?.or previous) rest :=
  zeroed_append fun member => absurd (digits.all _ member) (by decide)

/-- Behind digits a dot begins no decimal. -/
theorem zeroed_digits_append_dot :
    zeroed previous (digits.text ++ '.' :: rest) =
      digits.text ++ '.' :: zeroed (some '.') rest := by
  have last := List.getLast?_eq_some_getLast digits.nonempty
  have word := isWord_of_isDigit (digits.all _ (List.getLast_mem digits.nonempty))
  rw [zeroed_digits_append, last, zeroed_cons_of_not_leads]
  simp [leadsWithDot, word]

/-- A dot and digits, behind no dot and no word, are a decimal if the digits end as one does. -/
theorem leadsWithDot_digits (alone : (previous.any fun c => c == '.' || isWord c) = false)
    (notDigit : c.isDigit = false) :
    leadsWithDot previous ('.' :: (digits.text ++ c :: rest)) = (isBlank c || c == ')') := by
  have first : (digits.text ++ c :: rest).head?.any Char.isDigit = true := by
    obtain ⟨digit, others, text⟩ := List.exists_cons_of_ne_nil digits.nonempty
    rw [text]
    exact digits.all digit (by simp [text])
  have ends : (c :: rest).head?.any Char.isDigit = false := notDigit
  have behind := (Text.takeWhile_append digits.all ends).2
  rw [leadsWithDot, first, behind, alone]
  rfl

/-- A numeral gets a zero in front of it where a blank or a closing parenthesis follows. -/
theorem zeroed_written_append_cons (numeral : Numeral)
    (alone : (previous.any fun c => c == '.' || isWord c) = false)
    (notDigit : c.isDigit = false) (notDot : c ≠ '.') :
    zeroed previous (numeral.written ++ c :: rest) =
      (if isBlank c || c == ')' then numeral.zeroBefore else numeral.written) ++
        c :: zeroed (some c) rest := by
  cases numeral with
  | leadingDot digits =>
      rw [Numeral.zeroBefore, Numeral.written, List.cons_append, zeroed,
        leadsWithDot_digits digits alone notDigit, zeroed_digits_append, zeroed_cons_of_ne notDot]
      split <;> rfl
  | whole digits =>
      simp only [Numeral.zeroBefore, Numeral.written, ite_self, zeroed_digits_append,
        zeroed_cons_of_ne notDot]
  | trailingDot digits =>
      simp only [Numeral.zeroBefore, Numeral.written, ite_self, List.append_assoc,
        List.singleton_append, zeroed_digits_append_dot, zeroed_cons_of_ne notDot]
  | decimal units fraction =>
      simp only [Numeral.zeroBefore, Numeral.written, ite_self, List.append_assoc,
        List.cons_append]
      rw [zeroed_digits_append_dot, zeroed_digits_append, zeroed_cons_of_ne notDot]

/-- Of numerals with commas between them and a parenthesis behind them, only the last gets
a zero. -/
theorem zeroed_intercalate (init : List Numeral) (last : Numeral)
    (alone : (previous.any fun c => c == '.' || isWord c) = false) :
    zeroed previous ([','].intercalate (init.map Numeral.written ++ [last.written]) ++ [')']) =
      [','].intercalate (init.map Numeral.written ++ [last.zeroBefore]) ++ [')'] := by
  induction init generalizing previous with
  | nil =>
      rw [List.map_nil, List.nil_append, List.nil_append, List.intercalate_singleton,
        List.intercalate_singleton, zeroed_written_append_cons last alone (by decide) (by decide)]
      rfl
  | cons numeral init inductionHypothesis =>
      have join (piece : Text) : [','].intercalate
          ((numeral :: init).map Numeral.written ++ [piece]) =
            numeral.written ++ ',' :: [','].intercalate (init.map Numeral.written ++ [piece]) := by
        rw [List.map_cons, List.cons_append, List.intercalate_cons_of_ne_nil (by simp),
          List.append_assoc, List.singleton_append]
      rw [join, join, List.append_assoc, List.cons_append,
        zeroed_written_append_cons numeral alone (by decide) (by decide),
        inductionHypothesis (by decide), if_neg (by decide), List.append_assoc, List.cons_append]

end Decimal

/-- What begins with a character that a text does not have cannot end in that text. -/
theorem Text.suffix_of_suffix_append {c : Char} {left right tail : Text} (absent : c ∉ left)
    (ends : c :: tail <:+ left ++ right) : c :: tail <:+ right := by
  induction left with
  | nil => exact ends
  | cons d left inductionHypothesis =>
      rcases List.suffix_cons_iff.mp ends with same | later
      · cases same
        exact absurd (List.mem_cons_self ..) absent
      · exact inductionHypothesis (fun member => absent (List.mem_cons_of_mem _ member)) later

/-- No decimal `2.` is found in a text that has no blank behind its first dot and ends with
a parenthesis. -/
theorem Decimal.absent_trailingDots {head body : Text} (noDot : '.' ∉ head)
    (solid : ∀ c ∈ body, isBlank c = false) :
    Target.Absent (.sugar .trailingDots) (head ++ (body ++ [')'])) := by
  intro position _
  rw [Target.reach?, trailingReach?, Option.map_eq_none_iff, Option.eq_none_iff_forall_ne_some]
  intro width found
  obtain ⟨digits, tail, written, _, _, _, blankBehind, _⟩ := trailingDot?_eq_some_iff.mp found
  have inText := (List.suffix_append digits ('.' :: tail)).trans (written ▸ List.drop_suffix ..)
  have inBody := Text.suffix_of_suffix_append noDot inText
  cases tail with
  | nil =>
      have last := inBody.getLast (List.cons_ne_nil _ _)
      simp at last
  | cons c tail =>
      have blank : isBlank c = true := blankBehind
      have member : c ∈ body ++ [')'] := inBody.subset (by simp)
      rcases List.mem_append.mp member with inside | closing
      · rw [solid c inside] at blank
        cases blank
      · rw [List.mem_singleton.mp closing] at blank
        exact absurd blank (by decide)

/-- No symbol path is found in a text without colons. -/
theorem SymbolPath.absent_of_not_mem {constructor text : Text} (noColon : ':' ∉ text) :
    Target.Absent (.sugar (.symbolPaths constructor)) text := by
  intro position _
  have noColon : ':' ∉ text.drop position := fun member => noColon (List.mem_of_mem_drop member)
  rw [Target.reach?, reach?, Option.map_eq_none_iff]
  unfold read?
  split
  · next here => simp [here] at noColon
  · rfl

namespace Numeral

variable {numerals : List Numeral} {keyword : Keyword}

theorem of_mem_head {c : Char} (member : c ∈ '(' :: keyword.word ++ [' ']) :
    isPlain c = true ∧ c ≠ '.' ∧ c ≠ ':' := by
  have ofHead : ∀ keyword : Keyword, ('(' :: keyword.word ++ [' ']).all
      (fun c => isPlain c = true ∧ c ≠ '.' ∧ c ≠ ':') = true := by
    rintro (_ | _ | _) <;> rfl
  exact of_decide_eq_true (List.all_eq_true.mp (ofHead keyword) c member)

theorem of_mem_body {c : Char} (member : c ∈ [','].intercalate (numerals.map written)) :
    isPlain c = true ∧ isBlank c = false ∧ c ≠ ':' := by
  rcases Text.of_mem_intercalate member with between | ⟨piece, listed, inside⟩
  · rw [List.mem_singleton.mp between]
    decide
  · obtain ⟨numeral, _, rfl⟩ := List.mem_map.mp listed
    refine ⟨?_, isBlank_of_mem_written inside, ?_⟩
    · rcases of_mem_written inside with digit | rfl
      · exact Decimal.isPlain_of_isDigit digit
      · decide
    · rintro rfl
      rcases of_mem_written inside with digit | dot <;> contradiction

theorem of_mem_block {c : Char}
    (member : c ∈ (ListBlock.ofWords keyword ',' (numerals.map written)).written) :
    isPlain c = true ∧ c ≠ ':' := by
  rw [ListBlock.written_ofWords] at member
  rcases List.mem_append.mp member with inHead | behind
  · exact (of_mem_head inHead).imp_right And.right
  · rcases List.mem_append.mp behind with inBody | closing
    · exact (of_mem_body inBody).imp_right And.right
    · rw [List.mem_singleton.mp closing]
      decide

/-- The guard reads numerals with commas between them. -/
theorem guardedText_ofWords (keyword : Keyword) (numerals : List Numeral) :
    guardedText .standard [] (ListBlock.ofWords keyword ' ' (numerals.map written)).written =
      (ListBlock.ofWords keyword ',' (numerals.map written)).written := by
  have listed : keyword ∈ Keyword.all := by cases keyword <;> decide
  have listable : ∀ word ∈ numerals.map written, Listable word :=
    List.forall_mem_map.mpr fun numeral _ => numeral.listable_written
  have expanded := ListBlock.expand_ofWords listed listable
  have noColon : ':' ∉ (ListBlock.ofWords keyword ',' (numerals.map written)).written :=
    fun colon => (of_mem_block colon).2 rfl
  calc
    guardedText .standard [] (ListBlock.ofWords keyword ' ' (numerals.map written)).written
      = Pass.run (.symbolPaths Settings.standard.pathConstructor)
          (ListBlock.expand Keyword.all
            (ListBlock.ofWords keyword ' ' (numerals.map written)).written) := rfl
    _ = Pass.run (.symbolPaths Settings.standard.pathConstructor)
          (ListBlock.ofWords keyword ',' (numerals.map written)).written := by rw [expanded]
    _ = (ListBlock.ofWords keyword ',' (numerals.map written)).written :=
      Pass.run_eq_self (SymbolPath.absent_of_not_mem noColon) nofun

/-- Where numerals have commas between them, completing decimals completes the last of them
before its dot. -/
theorem complete_ofWords (keyword : Keyword) (init : List Numeral) (last : Numeral) :
    Decimal.complete (ListBlock.ofWords keyword ',' ((init ++ [last]).map written)).written =
      (ListBlock.ofWords keyword ',' (init.map written ++ [last.zeroBefore])).written := by
  have noDot : '.' ∉ '(' :: keyword.word ++ [' '] := fun dot => (of_mem_head dot).2.1 rfl
  have trailing : Decimal.completeTrailing
      (ListBlock.ofWords keyword ',' ((init ++ [last]).map written)).written =
        (ListBlock.ofWords keyword ',' ((init ++ [last]).map written)).written := by
    rw [ListBlock.written_ofWords]
    exact Pass.run_eq_self (Decimal.absent_trailingDots noDot
      fun c member => (of_mem_body member).2.1) nofun
  have leading := Decimal.completeLeading_eq_zeroed fun c
    (member : c ∈ (ListBlock.ofWords keyword ',' ((init ++ [last]).map written)).written) =>
      (of_mem_block member).1
  have space : ('(' :: keyword.word ++ [' ']).getLast?.or none = some ' ' := by
    rw [List.getLast?_concat]
    rfl
  rw [Decimal.complete, trailing, leading, ListBlock.written_ofWords,
    Decimal.zeroed_append noDot, space, List.map_append, List.map_singleton,
    Decimal.zeroed_intercalate init last (by decide), ← ListBlock.written_ofWords]

end Numeral

/-- Of the numerals that a block lists, only the last is completed, and only before its dot. -/
theorem desugar_numeralList (keyword : Keyword) (init : List Numeral) (last : Numeral) :
    desugar .standard []
        (ListBlock.ofWords keyword ' ' ((init ++ [last]).map Numeral.written)).written =
      .ok (ListBlock.ofWords keyword ','
        (init.map Numeral.written ++ [last.zeroBefore])).written := by
  refine desugar_eq_ok rfl ?_
  rw [Numeral.guardedText_ofWords]
  exact Numeral.complete_ofWords keyword init last

/-- The numerals `2.`, `.5` and `3`. -/
def shorthandNumerals : List Numeral :=
  [.trailingDot (.single '2' rfl), .leadingDot (.single '5' rfl), .whole (.single '3' rfl)]

/-- Not all numerals that a block lists are completed. -/
theorem desugar_numeralList_incomplete :
    ¬ ∀ (keyword : Keyword) (numerals : List Numeral), numerals ≠ [] →
      desugar .standard [] (ListBlock.ofWords keyword ' ' (numerals.map Numeral.written)).written =
        .ok (ListBlock.ofWords keyword ',' (numerals.map Numeral.completed)).written := by
  intro completes
  have expected := completes .ing shorthandNumerals (by decide)
  have found : desugar .standard []
      (ListBlock.ofWords .ing ' ' (shorthandNumerals.map Numeral.written)).written =
        .ok "(ing 2.,.5,3)".toList :=
    desugar_eq_ok (by decide) (by decide)
  exact absurd (Except.ok.inj (found.symm.trans expected)) (by decide)

end Desugar

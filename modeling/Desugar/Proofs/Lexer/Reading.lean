import Desugar.Lexer.Scan

/-!
# Reading character by character

`Cursor.next` skips a region in one step, however long it is. A `Reading` goes through
the same source one character at a time: it holds what the characters before a position
have opened, and `Reading.step` says what one more character does to it and whether that
character is code.

`Text.codePositions_eq_filter` says that the two agree on which positions hold code,
`Text.scan_eq_filterMap` that a rule whose matches are one character wide is asked at
exactly these, and `Cursor.exhausts_codePositions` that `next`, called until it answers
nothing, answers them in order and ends with the strings open that the reading ends with.
-/

namespace Desugar

/-- Whether a character means nothing to the reader of code. -/
def isPlain (c : Char) : Bool :=
  !(['"', '\'', '#', '?', '{', '}'].contains c)

theorem isPlain_iff {c : Char} :
    isPlain c = true ↔ c ≠ '"' ∧ c ≠ '\'' ∧ c ≠ '#' ∧ c ≠ '?' ∧ c ≠ '{' ∧ c ≠ '}' := by
  simp [isPlain]

/-- Whether a character can open a string. -/
def isQuote (c : Char) : Bool :=
  c == '\'' || c == '"'

theorem isQuote_of_isPlain {c : Char} (ordinary : isPlain c = true) : isQuote c = false := by
  obtain ⟨notDouble, notSingle, _⟩ := isPlain_iff.mp ordinary
  simp [isQuote, notDouble, notSingle]

/-- Whether a quote comes next that no word follows, so that a `?` before it can make it
a character literal. -/
def loneQuoteNext : Text → Bool
  | [] => false
  | quote :: rest => isQuote quote && !rest.head?.any isWord

/-- The width of a region by its first character. -/
theorem regionWidth?_cons (previous : Option Char) (c : Char) (rest : Text) :
    regionWidth? previous (c :: rest) =
      if c = '#' && rest.head? != some '{' then
        some ((rest.takeWhile fun c => c != '\n').length + 1)
      else if c = '?' && loneQuoteNext rest && !previous.any isWord then some 2
      else if c = '\'' then some (quotedWidth rest + 1)
      else none := by
  by_cases hash : c = '#'
  · subst hash
    by_cases brace : rest.head? = some '{' <;> simp [regionWidth?, brace]
  · by_cases mark : c = '?'
    · subst mark
      cases rest with
      | nil => simp [regionWidth?, loneQuoteNext]
      | cons quote rest => simp [regionWidth?, loneQuoteNext, isQuote]
    · by_cases quote : c = '\''
      · simp [quote, regionWidth?]
      · simp [hash, mark, quote, regionWidth?]

/-- A visit skips one character or a pair. -/
theorem Nesting.visit_width {nesting after : Nesting} {c : Char} {next : Option Char} {width : Nat}
    (visited : nesting.visit c next = (.skip width, after)) : width = 1 ∨ width = 2 := by
  unfold visit at visited
  split at visited <;> grind

/-- What a reading expects of the next character. -/
inductive Reading.Mode where
  /-- The character is looked at by itself. -/
  | fresh
  /-- The character is the second one of a pair that is skipped. -/
  | paired
  /-- A comment runs on unless the character ends its line. -/
  | comment
  /-- A single-quoted string runs on unless the character closes it. -/
  | quoted
  /-- A backslash in a single-quoted string protects the character. -/
  | escaped
  deriving DecidableEq, Repr

/-- What the characters before a position have opened, and the last of them. -/
structure Reading where
  mode : Reading.Mode
  nesting : Nesting
  previous : Option Char
  deriving DecidableEq, Repr

namespace Reading

/-- The reading at the start of a source. -/
def start : Reading := ⟨.fresh, [], none⟩

/-- Look at a character by itself: whether it is code, what is expected of the next one,
and the strings then open. -/
def look (reading : Reading) (c : Char) (rest : Text) : Bool × Mode × Nesting :=
  match reading.nesting.visit c rest.head? with
  | (.skip width, after) => (false, if width = 1 then .fresh else .paired, after)
  | (.code, after) =>
      if c = '#' && rest.head? != some '{' then (false, .comment, after)
      else if c = '?' && loneQuoteNext rest && !reading.previous.any isWord then
        (false, .paired, after)
      else if c = '\'' then (false, .quoted, after)
      else (true, .fresh, after)

/-- Read one character before `rest`: whether it is code, and the reading behind it. -/
def step (reading : Reading) (c : Char) (rest : Text) : Bool × Reading :=
  let outcome : Bool × Mode × Nesting :=
    match reading.mode with
    | .fresh => reading.look c rest
    | .paired => (false, .fresh, reading.nesting)
    | .comment =>
        if c = '\n' then reading.look c rest else (false, .comment, reading.nesting)
    | .quoted =>
        (false, if c = '\\' then .escaped else if c = '\'' then .fresh else .quoted,
          reading.nesting)
    | .escaped => (false, .quoted, reading.nesting)
  (outcome.1, ⟨outcome.2.1, outcome.2.2, some c⟩)

/-- The reading behind a text that stands before `following`. -/
def after (reading : Reading) : (text following : Text) → Reading
  | [], _ => reading
  | c :: text, following => (reading.step c (text ++ following)).2.after text following

/-- Which characters are code in a text that stands before `following`. -/
def marks (reading : Reading) : (text following : Text) → List Bool
  | [], _ => []
  | c :: text, following =>
      let (mark, behind) := reading.step c (text ++ following)
      mark :: behind.marks text following

/-- Number of characters of `rest` that are passed over before one is looked at. -/
def Mode.pending : Mode → (rest : Text) → Nat
  | .fresh, _ => 0
  | .paired, _ => 1
  | .comment, rest => (rest.takeWhile fun c => c != '\n').length
  | .quoted, rest => quotedWidth rest
  | .escaped, [] => 0
  | .escaped, _ :: rest => quotedWidth rest + 1

/-- What a look at a character says of it is what the cursor reads there, which also
gives the width of what it skips. -/
theorem read_eq_look (reading : Reading) (c : Char) (rest : Text) :
    reading.nesting.read reading.previous c rest =
      (if (reading.look c rest).1 then .code
        else .skip ((reading.look c rest).2.1.pending rest + 1), (reading.look c rest).2.2) := by
  unfold Nesting.read look
  cases visited : reading.nesting.visit c rest.head? with
  | mk verdict after =>
      cases verdict with
      | skip width =>
          rcases Nesting.visit_width visited with rfl | rfl <;> rfl
      | code =>
          rw [regionWidth?_cons]
          cases (c = '#' && rest.head? != some '{' : Bool) with
          | true => rfl
          | false =>
              cases (c = '?' && loneQuoteNext rest && !reading.previous.any isWord : Bool) with
              | true => rfl
              | false => by_cases quote : c = '\'' <;> simp [quote, Mode.pending]

/-- Only a character that is looked at by itself is code. -/
theorem look_mode {reading : Reading} {c : Char} {rest : Text}
    (isCode : (reading.look c rest).1 = true) : (reading.look c rest).2.1 = .fresh := by
  unfold look at isCode ⊢
  grind

/-- A step either looks at the character by itself, since nothing is pending, or passes
over it and leaves one pending character less. -/
theorem step_cases (reading : Reading) (c : Char) (rest : Text) :
    (reading.mode.pending (c :: rest) = 0 ∧
      reading.step c rest =
        ((reading.look c rest).1,
          ⟨(reading.look c rest).2.1, (reading.look c rest).2.2, some c⟩)) ∨
    ∃ mode : Mode, reading.mode.pending (c :: rest) = mode.pending rest + 1 ∧
      reading.step c rest = (false, ⟨mode, reading.nesting, some c⟩) := by
  obtain ⟨mode, nesting, previous⟩ := reading
  cases mode with
  | fresh => exact .inl ⟨rfl, rfl⟩
  | paired => exact .inr ⟨.fresh, rfl, rfl⟩
  | comment =>
      by_cases newline : c = '\n'
      · exact .inl ⟨by simp [Mode.pending, newline], by simp [step, newline]⟩
      · exact .inr ⟨.comment, by simp [Mode.pending, newline], by simp [step, newline]⟩
  | quoted =>
      refine .inr ⟨if c = '\\' then .escaped else if c = '\'' then .fresh else .quoted, ?_, rfl⟩
      by_cases backslash : c = '\\'
      · subst backslash
        cases rest with
        | nil => rfl
        | cons protectedCharacter rest => rfl
      · by_cases quote : c = '\''
        · simp [Mode.pending, quotedWidth, quote]
        · simp [Mode.pending, quotedWidth, backslash, quote]
  | escaped => exact .inr ⟨.quoted, rfl, rfl⟩

@[simp]
theorem after_nil (reading : Reading) (following : Text) :
    reading.after [] following = reading := rfl

@[simp]
theorem after_cons (reading : Reading) (c : Char) (text following : Text) :
    reading.after (c :: text) following =
      (reading.step c (text ++ following)).2.after text following := rfl

@[simp]
theorem marks_nil (reading : Reading) (following : Text) :
    reading.marks [] following = [] := rfl

@[simp]
theorem marks_cons (reading : Reading) (c : Char) (text following : Text) :
    reading.marks (c :: text) following =
      (reading.step c (text ++ following)).1 ::
        (reading.step c (text ++ following)).2.marks text following := rfl

@[simp]
theorem step_previous (reading : Reading) (c : Char) (rest : Text) :
    (reading.step c rest).2.previous = some c := rfl

/-- Reading two texts is reading the first before the second, then the second. -/
theorem after_append (reading : Reading) (left right following : Text) :
    reading.after (left ++ right) following =
      (reading.after left (right ++ following)).after right following := by
  induction left generalizing reading with
  | nil => rfl
  | cons c left inductionHypothesis =>
      simp only [List.cons_append, after_cons, List.append_assoc, inductionHypothesis]

theorem length_marks (reading : Reading) (text following : Text) :
    (reading.marks text following).length = text.length := by
  induction text generalizing reading with
  | nil => rfl
  | cons c text inductionHypothesis =>
      rw [marks_cons, List.length_cons, List.length_cons, inductionHypothesis]

/-- The characters that are code in two texts are those of the first before the second,
then those of the second. -/
theorem marks_append (reading : Reading) (left right following : Text) :
    reading.marks (left ++ right) following =
      reading.marks left (right ++ following) ++
        (reading.after left (right ++ following)).marks right following := by
  induction left generalizing reading with
  | nil => rfl
  | cons c left inductionHypothesis =>
      simp only [List.cons_append, marks_cons, after_cons, List.append_assoc,
        inductionHypothesis]

/-- Strings open in code: none, or the innermost has an interpolation open. -/
def InCode (nesting : Nesting) : Prop :=
  nesting.head? ≠ some 0

/-- The nesting with one more brace open, which counts inside an interpolation only. -/
def braced : Nesting → Nesting
  | [] => []
  | depth :: outer => (depth + 1) :: outer

variable {nesting : Nesting} {previous : Option Char} {c : Char} {rest : Text}

theorem inCode_nil : InCode [] :=
  nofun

theorem inCode_braced (nesting : Nesting) : InCode (braced nesting) := by
  cases nesting with
  | nil => exact inCode_nil
  | cons depth outer => simp [InCode, braced]

/-- In code, only a double quote and braces change what is open. -/
theorem visit_of_inCode (inCode : InCode nesting) {next : Option Char} (notQuote : c ≠ '"')
    (notOpen : c ≠ '{') (notClose : c ≠ '}') : nesting.visit c next = (.code, nesting) := by
  cases nesting with
  | nil => simp [Nesting.visit, notQuote]
  | cons depth outer =>
      cases depth with
      | zero => exact absurd rfl inCode
      | succ depth => simp [Nesting.visit, notQuote, notOpen, notClose]

/-- A plain character is code and opens nothing. -/
theorem step_plain (ordinary : isPlain c = true) (inCode : InCode nesting) :
    (Reading.mk .fresh nesting previous).step c rest = (true, ⟨.fresh, nesting, some c⟩) := by
  obtain ⟨notQuote, notApostrophe, notHash, notQuestion, notOpen, notClose⟩ :=
    isPlain_iff.mp ordinary
  simp [step, look, visit_of_inCode inCode notQuote notOpen notClose, notHash, notQuestion,
    notApostrophe]

theorem step_newline (inCode : InCode nesting) :
    (Reading.mk .comment nesting previous).step '\n' rest =
      (true, ⟨.fresh, nesting, some '\n'⟩) :=
  step_plain rfl inCode

/-- An opening brace in code is code. -/
theorem step_openBrace (inCode : InCode nesting) :
    (Reading.mk .fresh nesting previous).step '{' rest =
      (true, ⟨.fresh, braced nesting, some '{'⟩) := by
  cases nesting with
  | nil => rfl
  | cons depth outer =>
      cases depth with
      | zero => exact absurd rfl inCode
      | succ depth => rfl

/-- A closing brace in code is code, unless it closes the interpolation. -/
theorem step_closeBrace (inCode : InCode nesting) :
    (Reading.mk .fresh (braced nesting) previous).step '}' rest =
      (true, ⟨.fresh, nesting, some '}'⟩) := by
  cases nesting with
  | nil => rfl
  | cons depth outer =>
      cases depth with
      | zero => exact absurd rfl inCode
      | succ depth => rfl

/-- A `#` in code starts a comment. -/
theorem step_hash (inCode : InCode nesting) (noBrace : rest.head? ≠ some '{') :
    (Reading.mk .fresh nesting previous).step '#' rest =
      (false, ⟨.comment, nesting, some '#'⟩) := by
  simp [step, look, visit_of_inCode inCode, noBrace]

/-- A `?` in code starts a character literal. -/
theorem step_question (inCode : InCode nesting) (quote : loneQuoteNext rest = true)
    (noWord : previous.any isWord = false) :
    (Reading.mk .fresh nesting previous).step '?' rest =
      (false, ⟨.paired, nesting, some '?'⟩) := by
  simp [step, look, visit_of_inCode inCode, quote, noWord]

/-- An apostrophe in code opens a single-quoted string. -/
theorem step_apostrophe (inCode : InCode nesting) :
    (Reading.mk .fresh nesting previous).step '\'' rest =
      (false, ⟨.quoted, nesting, some '\''⟩) := by
  simp [step, look, visit_of_inCode inCode]

/-- A double quote in code opens a string. -/
theorem step_quote (inCode : InCode nesting) :
    (Reading.mk .fresh nesting previous).step '"' rest =
      (false, ⟨.fresh, 0 :: nesting, some '"'⟩) := by
  cases nesting with
  | nil => rfl
  | cons depth outer =>
      cases depth with
      | zero => exact absurd rfl inCode
      | succ depth => rfl

/-- The last character read is the last one of the text. -/
theorem after_previous (reading : Reading) (text following : Text) :
    (reading.after text following).previous = text.getLast?.or reading.previous := by
  induction text generalizing reading with
  | nil => rfl
  | cons c text inductionHypothesis =>
      rw [after_cons, inductionHypothesis, step_previous, List.getLast?_cons]
      cases text.getLast? <;> rfl

end Reading

namespace Text

/-- The reading of a source at a position. -/
def readingAt (source : Text) (position : Nat) : Reading :=
  Reading.start.after (source.take position) (source.drop position)

/-- Whether the character at a position of a source is code. -/
def isCodeAt (source : Text) (position : Nat) : Bool :=
  match source.drop position with
  | [] => false
  | c :: rest => ((source.readingAt position).step c rest).1

/-- What a rule claims at a position of a source, if the position holds code. -/
def claimAt? {Item : Type} (source : Text) (rule : Rule Item) (position : Nat) :
    Option (Nat × Item) :=
  if source.isCodeAt position then
    (rule (source.before? position) (source.drop position)).map fun found => (position, found.1)
  else none

variable {source rest : Text} {position : Nat} {c : Char}

theorem drop_succ_of_drop (here : source.drop position = c :: rest) :
    source.drop (position + 1) = rest := by
  rw [← List.drop_drop, here, List.drop_one, List.tail_cons]

theorem getElem?_of_drop (here : source.drop position = c :: rest) :
    source[position]? = some c := by
  rw [← List.head?_drop, here, List.head?_cons]

theorem lt_length_of_drop (here : source.drop position = c :: rest) :
    position < source.length :=
  (List.getElem?_eq_some_iff.mp (getElem?_of_drop here)).1

@[simp]
theorem readingAt_zero (source : Text) : source.readingAt 0 = Reading.start := rfl

/-- The character at a position takes the reading there to the one behind it. -/
theorem readingAt_succ (here : source.drop position = c :: rest) :
    source.readingAt (position + 1) = ((source.readingAt position).step c rest).2 := by
  have taken : source.take (position + 1) = source.take position ++ [c] := by
    rw [List.take_add_one, getElem?_of_drop here, Option.toList_some]
  rw [readingAt, taken, drop_succ_of_drop here, Reading.after_append, readingAt, here]
  rfl

theorem isCodeAt_eq (here : source.drop position = c :: rest) :
    source.isCodeAt position = ((source.readingAt position).step c rest).1 := by
  rw [isCodeAt, here]

/-- A reading has the character before its position at hand. -/
theorem readingAt_previous (inside : position ≤ source.length) :
    (source.readingAt position).previous = source.before? position := by
  rw [readingAt, Reading.after_previous]
  cases position with
  | zero => rfl
  | succ position =>
      simp [List.getLast?_take, List.getElem?_eq_getElem inside]

/-- The marks of the rest of a source are what its positions hold. -/
theorem marks_readingAt (here : source.drop position = rest) :
    (source.readingAt position).marks rest [] =
      (List.range' position rest.length).map source.isCodeAt := by
  induction rest generalizing position with
  | nil => rfl
  | cons c rest inductionHypothesis =>
      rw [Reading.marks_cons, List.append_nil, ← readingAt_succ here, ← isCodeAt_eq here,
        inductionHypothesis (drop_succ_of_drop here)]
      rfl

/-- The marks of the rest of a source tell which of its positions hold code. -/
theorem getElem?_marks {low : Nat} (reached : low ≤ position)
    (inside : position < source.length) :
    ((source.readingAt low).marks (source.drop low) [])[position - low]? =
      some (source.isCodeAt position) := by
  have within : position - low < (source.drop low).length := by
    rw [List.length_drop]
    omega
  have place : low + (position - low) = position := by omega
  rw [marks_readingAt rfl, List.getElem?_map, List.getElem?_range' within, Nat.one_mul, place,
    Option.map_some]

end Text

/-- What is collected lies at or behind the cursor, and the rule claims it there. -/
theorem Cursor.of_mem_collect {Item : Type} {rule : Rule Item} {source rest : Text} {pending : Nat}
    {previous : Option Char} {cursor : Cursor} {found : Nat × Item}
    (here : source.drop cursor.position = rest) (before : previous = source.before? cursor.position)
    (member : found ∈ cursor.collect rule pending previous rest) :
    cursor.position ≤ found.1 ∧
      ∃ width, rule (source.before? found.1) (source.drop found.1) = some (found.2, width) := by
  induction rest generalizing pending previous cursor with
  | nil => cases member
  | cons c rest inductionHypothesis =>
      have further {pending : Nat} {after : Nesting}
          (member : found ∈ collect rule pending (some c) ⟨cursor.position + 1, after⟩ rest) :
          cursor.position ≤ found.1 ∧
            ∃ width, rule (source.before? found.1) (source.drop found.1) =
              some (found.2, width) := by
        obtain ⟨behind, claimed⟩ := inductionHypothesis (Text.drop_succ_of_drop here)
          (by rw [Text.before?_succ, Text.getElem?_of_drop here]) member
        exact ⟨Nat.le_of_succ_le behind, claimed⟩
      cases pending with
      | succ pending => exact further member
      | zero =>
          rw [collect] at member
          split at member
          · exact further member
          · split at member
            · exact further member
            · next item width claimed =>
              rcases List.mem_cons.mp member with rfl | member
              · rw [before, ← here] at claimed
                exact ⟨Nat.le_refl _, width, claimed⟩
              · exact further member

/-- What a scan finds, the rule claims where it is found. -/
theorem Text.claimed_of_mem_scan {Item : Type} {rule : Rule Item} {source : Text} {position : Nat}
    {item : Item} (member : (position, item) ∈ source.scan rule) :
    ∃ width, rule (source.before? position) (source.drop position) = some (item, width) := by
  have here : source.drop (Cursor.mk 0 []).position = source := rfl
  exact (Cursor.of_mem_collect here rfl member).2

namespace Reading

variable {Item : Type}

/-- What a rule claims in a text whose first character stands at `position`, by a cursor that
is in step with the reading. -/
def claims (reading : Reading) (rule : Rule Item) (position : Nat) (text : Text) :
    List (Nat × Item) :=
  Cursor.collect rule (reading.mode.pending text) reading.previous ⟨position, reading.nesting⟩ text

/-- In step with the reading, a rule is asked at each character that is code. -/
theorem claims_cons (reading : Reading) (rule : Rule Item) (position : Nat) (c : Char)
    (rest : Text) :
    reading.claims rule position (c :: rest) =
      if (reading.step c rest).1 then
        match rule reading.previous (c :: rest) with
        | none => (reading.step c rest).2.claims rule (position + 1) rest
        | some (item, width) =>
            (position, item) ::
              Cursor.collect rule (width - 1) (some c)
                ⟨position + 1, (reading.step c rest).2.nesting⟩ rest
      else (reading.step c rest).2.claims rule (position + 1) rest := by
  rw [claims, claims, step_previous]
  rcases reading.step_cases c rest with ⟨nothing, looked⟩ | ⟨mode, pending, passed⟩
  · rw [looked, nothing, Cursor.collect, read_eq_look]
    cases isCode : (reading.look c rest).1 with
    | false => rfl
    | true =>
        cases rule reading.previous (c :: rest) with
        | none => simp only [look_mode isCode, Mode.pending, ↓reduceIte]
        | some found => simp only [↓reduceIte]
  · rw [passed, pending, Cursor.collect]
    rfl

end Reading

namespace Text

variable {Item : Type} {rule : Rule Item} {source rest : Text} {position : Nat} {c : Char}

/-- What a rule claims from a position on, by a cursor that is in step with the reading. -/
def claimsFrom (source : Text) (rule : Rule Item) (position : Nat) : List (Nat × Item) :=
  Cursor.collect rule ((source.readingAt position).mode.pending (source.drop position))
    (source.before? position) ⟨position, (source.readingAt position).nesting⟩
    (source.drop position)

theorem claimsFrom_eq_claims (inside : position ≤ source.length) :
    source.claimsFrom rule position =
      (source.readingAt position).claims rule position (source.drop position) := by
  rw [claimsFrom, Reading.claims, readingAt_previous inside]

theorem le_of_mem_claimsFrom {found : Nat × Item}
    (member : found ∈ source.claimsFrom rule position) : position ≤ found.1 := by
  have here : source.drop (Cursor.mk position (source.readingAt position).nesting).position =
      source.drop position := rfl
  exact (Cursor.of_mem_collect here rfl member).1

/-- Behind a character that is code the next one is looked at by itself. -/
theorem mode_of_isCodeAt (here : source.drop position = c :: rest)
    (isCode : source.isCodeAt position = true) :
    (source.readingAt (position + 1)).mode = .fresh := by
  rw [readingAt_succ here]
  rw [isCodeAt_eq here] at isCode
  rcases (source.readingAt position).step_cases c rest with ⟨_, looked⟩ | ⟨mode, _, passed⟩
  · rw [looked] at isCode ⊢
    exact Reading.look_mode isCode
  · rw [passed] at isCode
    cases isCode

/-- A cursor that has passed over a match is in step with a reading that the match has
brought to the same place in code. -/
theorem collect_eq_claimsFrom {width : Nat} (here : source.drop position = c :: rest)
    (positive : 1 ≤ width) (fresh : (source.readingAt (position + width)).mode = .fresh) :
    Cursor.collect rule (width - 1) (some c)
        ⟨position + 1, (source.readingAt (position + width)).nesting⟩ rest =
      source.claimsFrom rule (position + width) := by
  have behind : position + 1 + (width - 1) = position + width := by omega
  rw [Cursor.collect_eq_scan (drop_succ_of_drop here) fun _ => by simp [getElem?_of_drop here],
    claimsFrom, fresh, behind]
  rfl

/-- In step with the reading, a rule is asked at each position that holds code. -/
theorem claimsFrom_eq (here : source.drop position = c :: rest) :
    source.claimsFrom rule position =
      if source.isCodeAt position then
        match rule (source.before? position) (c :: rest) with
        | none => source.claimsFrom rule (position + 1)
        | some (item, width) =>
            (position, item) ::
              Cursor.collect rule (width - 1) (some c)
                ⟨position + 1, (source.readingAt (position + 1)).nesting⟩ rest
      else source.claimsFrom rule (position + 1) := by
  have inside := lt_length_of_drop here
  rw [claimsFrom_eq_claims (Nat.le_of_lt inside), here, Reading.claims_cons,
    claimsFrom_eq_claims inside, drop_succ_of_drop here, readingAt_succ here,
    isCodeAt_eq here, readingAt_previous (Nat.le_of_lt inside)]

end Text

/-- A rule whose matches are one character wide. -/
def Rule.Single {Item : Type} (rule : Rule Item) : Prop :=
  ∀ previous rest item width, rule previous rest = some (item, width) → width = 1

/-- A rule of single characters is asked at the code positions only. -/
theorem Text.claimsFrom_eq_filterMap {Item : Type} {rule : Rule Item} (single : rule.Single)
    {source rest : Text} {position : Nat} (here : source.drop position = rest) :
    source.claimsFrom rule position =
      (List.range' position rest.length).filterMap (source.claimAt? rule) := by
  induction rest generalizing position with
  | nil => simp [claimsFrom, here, Cursor.collect]
  | cons c rest inductionHypothesis =>
      rw [claimsFrom_eq here, List.length_cons, List.range'_succ, List.filterMap_cons, claimAt?,
        here, ← inductionHypothesis (drop_succ_of_drop here)]
      cases isCode : source.isCodeAt position with
      | false => rfl
      | true =>
          simp only [↓reduceIte]
          cases claimed : rule (source.before? position) (c :: rest) with
          | none => rfl
          | some found =>
              obtain ⟨item, width⟩ := found
              rw [single _ _ _ _ claimed]
              simp only [Option.map_some, List.cons.injEq, true_and]
              exact collect_eq_claimsFrom here (Nat.le_refl _) (mode_of_isCodeAt here isCode)

namespace Cursor

/-- From a cursor, `next` answers the positions one after another and then nothing, and
so leaves the cursor at `final`. -/
inductive Exhausts (source : Text) : Cursor → List Nat → Cursor → Prop where
  | done {cursor final : Cursor} (nothing : cursor.next source = (none, final)) :
      Exhausts source cursor [] final
  | answer {cursor behind final : Cursor} {position : Nat} {positions : List Nat}
      (found : cursor.next source = (some position, behind))
      (others : Exhausts source behind positions final) :
      Exhausts source cursor (position :: positions) final

/-- Cursors with the same next answer have the same answers. -/
theorem Exhausts.of_next_eq {source : Text} {cursor other final : Cursor} {positions : List Nat}
    (same : cursor.next source = other.next source)
    (exhausts : Exhausts source other positions final) :
    Exhausts source cursor positions final := by
  cases exhausts with
  | done nothing => exact .done (same.trans nothing)
  | answer found others => exact .answer (same.trans found) others

/-- Where a look finds no code, `next` goes on behind what is skipped. -/
theorem next_of_look_skip {source rest : Text} {position : Nat} {c : Char}
    (here : source.drop position = c :: rest) (inside : position ≤ source.length)
    (skipped : ((source.readingAt position).look c rest).1 = false) :
    next source ⟨position, (source.readingAt position).nesting⟩ =
      next source
        ⟨position + 1 + ((source.readingAt position).look c rest).2.1.pending rest,
          ((source.readingAt position).look c rest).2.2⟩ := by
  rw [next, here, seek, ← Text.readingAt_previous inside, Reading.read_eq_look, skipped]
  exact seek_eq_next (Text.drop_succ_of_drop here) fun _ => by simp [Text.getElem?_of_drop here]

/-- Where a look finds code, `next` answers. -/
theorem next_of_look_code {source rest : Text} {position : Nat} {c : Char}
    (here : source.drop position = c :: rest) (inside : position ≤ source.length)
    (isCode : ((source.readingAt position).look c rest).1 = true) :
    next source ⟨position, (source.readingAt position).nesting⟩ =
      (some position, ⟨position + 1, ((source.readingAt position).look c rest).2.2⟩) := by
  rw [next, here, seek, ← Text.readingAt_previous inside, Reading.read_eq_look, isCode]
  rfl

/-- From a position on, `next` answers the positions that the reading marks as code, and
ends with the strings open that the reading ends with. -/
theorem exhausts_readingAt {source rest : Text} {position : Nat}
    (here : source.drop position = rest) (inside : position ≤ source.length) :
    ∃ final,
      Exhausts source
        ⟨position + (source.readingAt position).mode.pending rest,
          (source.readingAt position).nesting⟩
        ((List.range' position rest.length).filter source.isCodeAt) final ∧
      final.nesting = (source.readingAt source.length).nesting := by
  induction rest generalizing position with
  | nil =>
      have atEnd : position = source.length :=
        Nat.le_antisymm inside (List.drop_eq_nil_iff.mp here)
      have stopped (cursor : Cursor) (beyond : position ≤ cursor.position) :
          cursor.next source = (none, cursor) := by
        rw [next, List.drop_eq_nil_of_le (atEnd ▸ beyond)]
        rfl
      exact ⟨_, .done (stopped _ (Nat.le_add_right _ _)), by rw [← atEnd]⟩
  | cons c rest inductionHypothesis =>
      obtain ⟨final, others, stillOpen⟩ :=
        inductionHypothesis (Text.drop_succ_of_drop here) (Text.lt_length_of_drop here)
      refine ⟨final, ?_, stillOpen⟩
      rw [Text.readingAt_succ here] at others
      rw [List.length_cons, List.range'_succ, List.filter_cons, Text.isCodeAt_eq here]
      rcases (source.readingAt position).step_cases c rest with
        ⟨nothing, looked⟩ | ⟨mode, pending, passed⟩
      · rw [looked] at others ⊢
        rw [nothing, Nat.add_zero]
        cases isCode : ((source.readingAt position).look c rest).1 with
        | false => exact .of_next_eq (next_of_look_skip here inside isCode) others
        | true =>
            rw [Reading.look_mode isCode] at others
            exact .answer (next_of_look_code here inside isCode) others
      · rw [passed] at others ⊢
        rw [pending, ← Nat.add_assoc, Nat.add_right_comm]
        exact others

end Cursor

namespace Text

/-- A rule of single characters is asked at the code positions of a source. -/
theorem scan_eq_filterMap {Item : Type} {rule : Rule Item} (single : rule.Single)
    (source : Text) :
    source.scan rule = (List.range source.length).filterMap (source.claimAt? rule) := by
  have here : source.drop 0 = source := rfl
  rw [List.range_eq_range']
  exact claimsFrom_eq_filterMap single here

/-- A position that holds code lies in the source. -/
theorem lt_length_of_isCodeAt {source : Text} {position : Nat}
    (isCode : source.isCodeAt position = true) : position < source.length := by
  refine Nat.lt_of_not_le fun beyond => ?_
  rw [isCodeAt, List.drop_eq_nil_of_le beyond] at isCode
  cases isCode

/-- What a rule of single characters claims in a source. -/
theorem mem_scan {Item : Type} {rule : Rule Item} (single : rule.Single) {source : Text}
    {position : Nat} {item : Item} :
    (position, item) ∈ source.scan rule ↔
      source.isCodeAt position = true ∧
        rule (source.before? position) (source.drop position) = some (item, 1) := by
  rw [scan_eq_filterMap single, List.mem_filterMap]
  constructor
  · rintro ⟨asked, _, claimed⟩
    unfold claimAt? at claimed
    split at claimed
    · next isCode =>
      obtain ⟨⟨item, width⟩, found, same⟩ := Option.map_eq_some_iff.mp claimed
      cases same
      exact ⟨isCode, single _ _ _ _ found ▸ found⟩
    · cases claimed
  · rintro ⟨isCode, found⟩
    refine ⟨position, List.mem_range.mpr (lt_length_of_isCodeAt isCode), ?_⟩
    rw [claimAt?, if_pos isCode, found, Option.map_some]

/-- A scan goes from left to right. -/
theorem pairwise_scan {Item : Type} {rule : Rule Item} (single : rule.Single) (source : Text) :
    (source.scan rule).Pairwise fun earlier later => earlier.1 < later.1 := by
  have position {asked : Nat} {claim : Nat × Item}
      (claimed : source.claimAt? rule asked = some claim) : claim.1 = asked := by
    unfold claimAt? at claimed
    split at claimed
    · obtain ⟨_, _, rfl⟩ := Option.map_eq_some_iff.mp claimed
      rfl
    · cases claimed
  rw [scan_eq_filterMap single, List.pairwise_filterMap]
  refine List.pairwise_lt_range.imp fun ordered first claimed second claimedNext => ?_
  rwa [position claimed, position claimedNext]

/-- The code positions of a source are those that the reading marks as code. -/
theorem codePositions_eq_filter (source : Text) :
    source.codePositions = (List.range source.length).filter source.isCodeAt := by
  have single : Rule.Single Cursor.everyCode := by
    intro previous rest item width claimed
    cases rest with
    | nil => cases claimed
    | cons c rest =>
        cases claimed
        rfl
  have claimed (position : Nat) :
      (source.claimAt? Cursor.everyCode position).map Prod.fst =
        Option.guard source.isCodeAt position := by
    cases here : source.drop position with
    | nil => simp [claimAt?, Option.guard, isCodeAt, here]
    | cons c rest =>
        rw [claimAt?, here, Option.guard]
        split <;> rfl
  calc
    source.codePositions = (source.scan Cursor.everyCode).map Prod.fst := rfl
    _ = (List.range source.length).filterMap (Option.guard source.isCodeAt) := by
        rw [scan_eq_filterMap single, List.map_filterMap]
        exact congrArg (List.filterMap · _) (funext claimed)
    _ = (List.range source.length).filter source.isCodeAt := by
        rw [List.filterMap_eq_filter]

/-- A position holds code if the reading there marks it. -/
@[simp]
theorem mem_codePositions {source : Text} {position : Nat} :
    position ∈ source.codePositions ↔ source.isCodeAt position = true := by
  rw [codePositions_eq_filter, List.mem_filter, List.mem_range]
  exact ⟨And.right, fun isCode => ⟨lt_length_of_isCodeAt isCode, isCode⟩⟩

end Text

/-- Called until it answers nothing, `next` answers the code positions in order and ends
with the strings open that the reading ends with. -/
theorem Cursor.exhausts_codePositions (source : Text) :
    ∃ final, Exhausts source start source.codePositions final ∧
      final.nesting = (source.readingAt source.length).nesting := by
  have here : source.drop 0 = source := rfl
  rw [Text.codePositions_eq_filter, List.range_eq_range']
  exact exhausts_readingAt here (Nat.zero_le _)

end Desugar

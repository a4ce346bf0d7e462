import Desugar.Proofs.Lexer.Reading

/-!
# How far a reading looks

A step of a reading looks beyond its character only for three things: a brace behind a
`#`, a lone quote behind a `?`, and anything at all behind a backslash in a string. And it
looks back only from a `?`, for the end of a word. `Reading.step_congr` says the first, and
`Reading.Alike.after_eq` what follows for a text before two others that look alike;
`Reading.Agree.step` says the second, so that two readings that agree at one place agree
from there on.
-/

namespace Desugar

/-- Whether a character means nothing to the reader of code and belongs to no word. -/
def isFiller (c : Char) : Bool :=
  isPlain c && !isWord c

theorem isFiller_iff {c : Char} :
    isFiller c = true ↔ isPlain c = true ∧ isWord c = false := by
  simp [isFiller]

/-- A visit looks at the next character only for whether there is one, from a backslash, and
whether it is a brace, from a `#`. -/
theorem Nesting.visit_congr {nesting : Nesting} {c : Char} {next other : Option Char}
    (brace : c = '#' → (next = some '{' ↔ other = some '{'))
    (escape : c = '\\' → nesting.head? = some 0 → (next = none ↔ other = none)) :
    nesting.visit c next = nesting.visit c other := by
  cases nesting with
  | nil => rfl
  | cons depth outer =>
      cases depth with
      | zero =>
          have someNext : c = '\\' → next.isSome = other.isSome := by
            intro backslash
            have absent := escape backslash rfl
            cases next <;> cases other <;> simp_all
          have braceNext : (c = '#' && next = some '{' : Bool) =
              (c = '#' && other = some '{' : Bool) := by
            by_cases hash : c = '#'
            · simp only [brace hash]
            · simp only [hash, decide_false, Bool.false_and]
          by_cases backslash : c = '\\'
          · simp only [visit, backslash, someNext backslash]
            rfl
          · simp only [visit, backslash, decide_false, Bool.false_and, braceNext]
      | succ depth => rfl

namespace Reading

variable {reading : Reading} {c : Char} {rest other : Text}

/-- A character that is code and ends no line is looked at by itself, where nothing but
code is open. -/
theorem of_step_code (isCode : (reading.step c rest).1 = true) (inLine : c ≠ '\n') :
    reading.mode = .fresh ∧ InCode reading.nesting := by
  obtain ⟨mode, nesting, previous⟩ := reading
  cases mode with
  | fresh =>
      refine ⟨rfl, fun literal => ?_⟩
      cases nesting with
      | nil => cases literal
      | cons depth outer =>
          cases literal
          simp only [step, look, Nesting.visit] at isCode
          grind
  | paired => cases isCode
  | comment => simp [step, inLine] at isCode
  | quoted => cases isCode
  | escaped => cases isCode

/-- What a look at a character looks for beyond it. A lone quote matters only where it
would make a character literal. -/
theorem look_congr (brace : c = '#' → (rest.head? = some '{' ↔ other.head? = some '{'))
    (escape : c = '\\' → reading.nesting.head? = some 0 → (rest = [] ↔ other = []))
    (literal : c = '?' → (reading.look c rest).2.1 = .paired ∨
      (reading.look c other).2.1 = .paired → loneQuoteNext rest = loneQuoteNext other) :
    reading.look c rest = reading.look c other := by
  have visited : reading.nesting.visit c rest.head? = reading.nesting.visit c other.head? := by
    refine Nesting.visit_congr brace fun backslash inLiteral => ?_
    rw [List.head?_eq_none_iff, List.head?_eq_none_iff]
    exact escape backslash inLiteral
  have braceNext : (c = '#' && rest.head? != some '{' : Bool) =
      (c = '#' && other.head? != some '{' : Bool) := by
    by_cases hash : c = '#'
    · rw [Bool.eq_iff_iff, Bool.and_eq_true, Bool.and_eq_true, bne_iff_ne, bne_iff_ne, ne_eq,
        ne_eq, brace hash]
    · simp only [hash, decide_false, Bool.false_and]
  unfold look at literal ⊢
  rw [visited, braceNext] at literal ⊢
  generalize reading.nesting.visit c other.head? = outcome at literal ⊢
  cases outcome with
  | mk verdict after =>
      cases verdict with
      | skip width => rfl
      | code =>
          by_cases question : c = '?'
          · subst question
            cases wordBefore : reading.previous.any isWord with
            | true => simp
            | false =>
                have same : loneQuoteNext rest = loneQuoteNext other := by
                  have alike := literal rfl
                  cases lone : loneQuoteNext rest <;> cases otherLone : loneQuoteNext other <;>
                    simp_all
                rw [same]
          · simp [question]

/-- What a step looks for beyond its character. -/
theorem step_congr (brace : c = '#' → (rest.head? = some '{' ↔ other.head? = some '{'))
    (escape : c = '\\' → reading.nesting.head? = some 0 → (rest = [] ↔ other = []))
    (literal : c = '?' → (reading.step c rest).2.mode = .paired ∨
      (reading.step c other).2.mode = .paired → loneQuoteNext rest = loneQuoteNext other) :
    reading.step c rest = reading.step c other := by
  obtain ⟨mode, nesting, previous⟩ := reading
  cases mode with
  | fresh =>
      have looked := look_congr brace escape literal
      simp only [step, looked]
  | paired => rfl
  | comment =>
      by_cases newline : c = '\n'
      · have looked : (Reading.mk .comment nesting previous).look c rest =
            (Reading.mk .comment nesting previous).look c other := by
          refine look_congr brace escape fun question => ?_
          rw [newline] at question
          cases question
        simp only [step, looked]
      · simp only [step, newline, if_false]
  | quoted => rfl
  | escaped => rfl

/-- Two texts look alike to whatever is read before them. -/
structure Alike (text other : Text) : Prop where
  brace : text.head? = some '{' ↔ other.head? = some '{'
  nil : text = [] ↔ other = []
  quote : loneQuoteNext text = loneQuoteNext other
  word : text.head?.any isWord = other.head?.any isWord

namespace Alike

/-- A character is read alike before texts that look alike. -/
theorem step_eq (alike : Alike rest other) (reading : Reading) (c : Char) :
    reading.step c rest = reading.step c other :=
  step_congr (fun _ => alike.brace) (fun _ _ => alike.nil) fun _ _ => alike.quote

/-- The same character may stand before texts that look alike. -/
theorem cons (alike : Alike rest other) (c : Char) : Alike (c :: rest) (c :: other) := by
  refine ⟨Iff.rfl, ⟨nofun, nofun⟩, ?_, rfl⟩
  rw [loneQuoteNext, loneQuoteNext, alike.word]

/-- Behind the same character that is no quote, anything looks alike. -/
theorem of_head (noQuote : isQuote c = false) (rest other : Text) :
    Alike (c :: rest) (c :: other) := by
  refine ⟨Iff.rfl, ⟨nofun, nofun⟩, ?_, rfl⟩
  rw [loneQuoteNext, loneQuoteNext, noQuote]
  rfl

/-- Fillers look alike. -/
theorem of_fillers {d : Char} (first : isFiller c = true) (second : isFiller d = true) :
    Alike (c :: rest) (d :: other) := by
  obtain ⟨plain, noWord⟩ := isFiller_iff.mp first
  obtain ⟨otherPlain, otherNoWord⟩ := isFiller_iff.mp second
  refine ⟨?_, ⟨nofun, nofun⟩, ?_, ?_⟩
  · simp [(isPlain_iff.mp plain).2.2.2.2.1, (isPlain_iff.mp otherPlain).2.2.2.2.1]
  · rw [loneQuoteNext, loneQuoteNext, isQuote_of_isPlain plain, isQuote_of_isPlain otherPlain]
    rfl
  · rw [List.head?_cons, List.head?_cons, Option.any_some, Option.any_some, noWord, otherNoWord]

/-- The same text may stand before texts that look alike. -/
theorem append (alike : Alike rest other) (text : Text) : Alike (text ++ rest) (text ++ other) := by
  induction text with
  | nil => exact alike
  | cons c text inductionHypothesis => exact inductionHypothesis.cons c

/-- A text is read to the same place before texts that look alike. -/
theorem after_eq {text following different : Text} (alike : Alike following different)
    (reading : Reading) : reading.after text following = reading.after text different := by
  induction text generalizing reading with
  | nil => rfl
  | cons c text inductionHypothesis =>
      rw [after_cons, after_cons, (alike.append text).step_eq, inductionHypothesis]

/-- The same code is found in a text before texts that look alike. -/
theorem marks_eq {text following different : Text} (alike : Alike following different)
    (reading : Reading) : reading.marks text following = reading.marks text different := by
  induction text generalizing reading with
  | nil => rfl
  | cons c text inductionHypothesis =>
      rw [marks_cons, marks_cons, (alike.append text).step_eq, inductionHypothesis]

/-- Two characters decide what a text looks like. -/
theorem of_take (same : rest.take 2 = other.take 2) : Alike rest other := by
  have heads : rest.head? = other.head? := by
    have taken := congrArg List.head? same
    rwa [List.head?_take, List.head?_take] at taken
  refine ⟨by rw [heads], ?_, ?_, by rw [heads]⟩
  · rw [← List.head?_eq_none_iff, ← List.head?_eq_none_iff, heads]
  · rcases rest with _ | ⟨quote, rest⟩ <;> rcases other with _ | ⟨otherQuote, other⟩
    · rfl
    · cases heads
    · cases heads
    · obtain ⟨rfl, taken⟩ := List.cons.inj same
      have behind := congrArg List.head? taken
      rw [List.head?_take, List.head?_take] at behind
      simp only [loneQuoteNext]
      rw [show rest.head? = other.head? from behind]

end Alike

/-- A plain character that is no backslash is read alike, whatever follows. -/
theorem step_eq_of_plain (ordinary : isPlain c = true) (notBackslash : c ≠ '\\')
    (following different : Text) : reading.step c following = reading.step c different := by
  obtain ⟨_, _, notHash, notQuestion, _⟩ := isPlain_iff.mp ordinary
  exact step_congr (fun hash => absurd hash notHash)
    (fun backslash => absurd backslash notBackslash) fun question => absurd question notQuestion

/-- A text is read alike before two others, if its last character is read alike before them
and is no quote. -/
theorem reads_eq_of_getLast? {text following different : Text} (last : text.getLast? = some c)
    (noQuote : isQuote c = false)
    (same : ∀ reading : Reading, reading.step c following = reading.step c different) :
    reading.after text following = reading.after text different ∧
      reading.marks text following = reading.marks text different := by
  obtain ⟨before, rfl⟩ := List.getLast?_eq_some_iff.mp last
  have alike : Alike ([c] ++ following) ([c] ++ different) :=
    .of_head noQuote following different
  constructor
  · rw [after_append, after_append, alike.after_eq, after_cons, after_cons, List.nil_append,
      List.nil_append, after_nil, after_nil, same]
  · rw [marks_append, marks_append, alike.marks_eq, alike.after_eq, marks_cons, marks_cons,
      List.nil_append, List.nil_append, same, marks_nil, marks_nil]

/-- Two readings agree before a text: the same is open, and if a `?` comes first, a word
ends before it in both or in none. -/
structure Agree (rest : Text) (first second : Reading) : Prop where
  mode : first.mode = second.mode
  nesting : first.nesting = second.nesting
  word : rest.head? = some '?' → first.previous.any isWord = second.previous.any isWord

instance (rest : Text) (first second : Reading) : Decidable (Agree rest first second) :=
  decidable_of_iff
    (first.mode = second.mode ∧ first.nesting = second.nesting ∧
      (rest.head? = some '?' → first.previous.any isWord = second.previous.any isWord))
    ⟨fun ⟨mode, nesting, word⟩ => ⟨mode, nesting, word⟩,
      fun ⟨mode, nesting, word⟩ => ⟨mode, nesting, word⟩⟩

/-- Readings that agree read the next character alike, and are the same behind it. -/
theorem Agree.step {first second : Reading} (agree : Agree (c :: rest) first second) :
    first.step c rest = second.step c rest := by
  obtain ⟨mode, nesting, previous⟩ := first
  obtain ⟨otherMode, otherNesting, otherPrevious⟩ := second
  obtain ⟨sameMode, sameNesting, sameWord⟩ := agree
  simp only at sameMode sameNesting sameWord
  subst sameMode sameNesting
  have looked : (Reading.mk mode nesting previous).look c rest =
      (Reading.mk mode nesting otherPrevious).look c rest := by
    by_cases question : c = '?'
    · rw [List.head?_cons, question] at sameWord
      simp only [look, sameWord rfl]
    · simp [look, question]
  simp only [Reading.step, looked]

/-- Readings that agree before a text are the same behind it. -/
theorem Agree.after_eq {first second : Reading} {text following : Text}
    (agree : Agree (text ++ following) first second) (nonempty : text ≠ []) :
    first.after text following = second.after text following := by
  cases text with
  | nil => exact absurd rfl nonempty
  | cons c text =>
      rw [List.cons_append] at agree
      rw [after_cons, after_cons, agree.step]

/-- Readings that agree before a text find the same code in it. -/
theorem Agree.marks_eq {first second : Reading} {text following : Text}
    (agree : Agree (text ++ following) first second) :
    first.marks text following = second.marks text following := by
  cases text with
  | nil => rfl
  | cons c text =>
      rw [List.cons_append] at agree
      rw [marks_cons, marks_cons, agree.step]

/-- A plain character in code is code and changes nothing. -/
theorem step_of_plain (ordinary : isPlain c = true) (fresh : reading.mode = .fresh)
    (inCode : InCode reading.nesting) :
    reading.step c rest = (true, ⟨.fresh, reading.nesting, some c⟩) := by
  obtain ⟨mode, nesting, previous⟩ := reading
  subst fresh
  exact step_plain ordinary inCode

/-- Plain text in code is read to the same place. -/
theorem after_plain {text following : Text} (ordinary : ∀ c ∈ text, isPlain c = true)
    (fresh : reading.mode = .fresh) (inCode : InCode reading.nesting) :
    (reading.after text following).mode = .fresh ∧
      (reading.after text following).nesting = reading.nesting := by
  induction text generalizing reading with
  | nil => exact ⟨fresh, rfl⟩
  | cons c text inductionHypothesis =>
      rw [after_cons, step_of_plain (ordinary c (List.mem_cons_self ..)) fresh inCode]
      exact inductionHypothesis
        (fun other member => ordinary other (List.mem_cons_of_mem _ member)) rfl inCode

end Reading

/-- The reading behind a piece of a source comes from the one before the piece. -/
theorem Text.readingAt_add {source piece rest : Text} {position : Nat}
    (here : source.drop position = piece ++ rest) :
    source.readingAt (position + piece.length) =
      (source.readingAt position).after piece rest := by
  induction piece generalizing position with
  | nil => rfl
  | cons c piece inductionHypothesis =>
      have there : source.drop (position + 1) = piece ++ rest := by
        rw [← List.drop_drop, here]
        rfl
      have behind : position + (c :: piece).length = position + 1 + piece.length := by
        rw [List.length_cons]
        omega
      rw [behind, inductionHypothesis there, readingAt_succ here, Reading.after_cons]
      rfl

/-- Plain text in code takes the reading of a source to the same place. -/
theorem Text.readingAt_plain {source piece rest : Text} {position : Nat}
    (here : source.drop position = piece ++ rest) (ordinary : ∀ c ∈ piece, isPlain c = true)
    (fresh : (source.readingAt position).mode = .fresh)
    (inCode : Reading.InCode (source.readingAt position).nesting) :
    (source.readingAt (position + piece.length)).mode = .fresh ∧
      (source.readingAt (position + piece.length)).nesting =
        (source.readingAt position).nesting := by
  rw [readingAt_add here]
  exact Reading.after_plain ordinary fresh inCode

end Desugar

import Desugar.Proofs.Indexed.Flattening
import Desugar.Proofs.Lexer.InStep
import Desugar.Proofs.Sugar.Shape

/-!
# Passes that work by positions

Each pass looks at a code position, and from there on looks up characters, measures runs and
cuts out stretches. Here this is written out with the checked forms of all of these, one
function for what each pass does at a position: it answers the edit to make there, if any,
and where to go on, or fails. Five theorems say that none of them fails inside the text, and
that each answers what the rule of the pass claims.
-/

namespace Desugar

namespace Text

variable {source : Text} {position : Nat}

/-- A run that starts in the text ends in it. -/
theorem runEnd_le_length {start : Nat} (inside : start ≤ source.length) (accept : Char → Bool) :
    source.runEnd start accept ≤ source.length := by
  have bounded := ((source.drop start).takeWhile_sublist accept).length_le
  rw [List.length_drop] at bounded
  rw [runEnd]
  omega

/-- What stands behind a run. -/
theorem drop_runEnd (source : Text) (start : Nat) (accept : Char → Bool) :
    source.drop (source.runEnd start accept) = (source.drop start).dropWhile accept := by
  have divided := List.takeWhile_append_dropWhile (p := accept) (l := source.drop start)
  calc
    source.drop (source.runEnd start accept)
        = (source.drop start).drop ((source.drop start).takeWhile accept).length :=
          List.drop_drop.symm
    _ = ((source.drop start).takeWhile accept ++ (source.drop start).dropWhile accept).drop
          ((source.drop start).takeWhile accept).length := by rw [divided]
    _ = (source.drop start).dropWhile accept := List.drop_left

theorem runEnd_eq_self_iff {start : Nat} {accept : Char → Bool} :
    source.runEnd start accept = start ↔ ((source.drop start).takeWhile accept).isEmpty := by
  rw [runEnd, List.isEmpty_iff_length_eq_zero]
  omega

/-- A run is cut out where it stands. -/
theorem slice?_runEnd {start : Nat} (inside : start ≤ source.length) (accept : Char → Bool) :
    source.slice? start (source.runEnd start accept) =
      some ((source.drop start).takeWhile accept) :=
  slice?_of_drop (List.takeWhile_append_dropWhile (p := accept)).symm inside

/-- A character is looked for as far as its first occurrence. -/
theorem findIdx?_beq (text : Text) (c : Char) :
    text.findIdx? (fun other => other == c) =
      if text.contains c then some (text.takeWhile fun other => other != c).length else none := by
  induction text with
  | nil => rfl
  | cons first text inductionHypothesis =>
      by_cases same : first = c
      · subst same
        simp [List.findIdx?_cons]
      · have different : (first == c) = false := beq_eq_false_iff_ne.mpr same
        have turned : (c == first) = false := beq_eq_false_iff_ne.mpr (Ne.symm same)
        rw [List.findIdx?_cons, different, inductionHypothesis, List.contains_cons, turned,
          Bool.false_or, List.takeWhile_cons_of_pos (by simp [same])]
        cases text.contains c <;> rfl

end Text

namespace ListBlock

variable {keywords : List Keyword} {source : Text} {position : Nat}

/-- What the pass for list blocks does at a code position. -/
def editAt? (keywords : List Keyword) (source : Text) (opening : Nat) :
    Option (Option Edit × Nat) :=
  source[opening]?.bind fun c =>
    if c ≠ '(' then some (none, opening)
    else
      match keywords.find? fun keyword => source.occursAt (opening + 1) keyword.word with
      | none => some (none, opening)
      | some keyword =>
          let keywordEnd := opening + 1 + keyword.word.length
          let bodyStart := source.runEnd keywordEnd isBlank
          if bodyStart = keywordEnd then some (none, opening)
          else
            (source.slice? bodyStart source.length).bind fun content =>
              match content.findIdx? fun c => c == ')' with
              | none => some (none, opening)
              | some distance =>
                  let bodyEnd := bodyStart + distance
                  (source.slice? bodyStart bodyEnd).bind fun body =>
                    (flattenBody? body).map fun flat =>
                      (if flat = body then none else some ⟨bodyStart, bodyEnd, flat⟩, bodyEnd + 1)

/-- The pass for list blocks never fails inside the text, and answers what its rule claims. -/
theorem editAt?_eq_some (inside : position < source.length) :
    editAt? keywords source position =
      some (Cursor.answer source (rule keywords) edit? position) := by
  have here : source.drop position = source[position] :: source.drop (position + 1) :=
    List.drop_eq_getElem_cons inside
  rw [editAt?, List.getElem?_eq_getElem inside, Option.bind_some, Cursor.answer, here]
  split
  · next other => rw [rule_of_ne other]
  · next opening =>
    rw [Decidable.not_not.mp opening, rule, read?]
    simp only [Text.occursAt]
    cases chosen : keywords.find? fun keyword =>
        keyword.word.isPrefixOf (source.drop (position + 1)) with
    | none => rfl
    | some keyword =>
        have spelled : keyword.word.isPrefixOf (source.drop (position + 1)) = true :=
          List.find?_some (p := fun keyword : Keyword =>
            keyword.word.isPrefixOf (source.drop (position + 1))) chosen
        have bounded := (List.isPrefixOf_iff_prefix.mp spelled).length_le
        rw [List.length_drop] at bounded
        have keywordInside : position + 1 + keyword.word.length ≤ source.length := by omega
        have bodyInside := Text.runEnd_le_length keywordInside isBlank
        simp only [Option.bind_some, List.drop_drop, Text.runEnd_eq_self_iff]
        generalize gap : (source.drop (position + 1 + keyword.word.length)).takeWhile isBlank = blanks
        generalize start : source.runEnd (position + 1 + keyword.word.length) isBlank = bodyStart
          at bodyInside
        have content := Text.drop_runEnd source (position + 1 + keyword.word.length) isBlank
        rw [start] at content
        cases blanks with
        | nil => rfl
        | cons blank blanks =>
            rw [← content, Text.slice?_to_end bodyInside, Option.bind_some, Text.findIdx?_beq]
            cases closed : (source.drop bodyStart).contains ')' with
            | false => simp
            | true =>
                have headWidth : position + (ListBlock.mk keyword (blank :: blanks)
                    ((source.drop bodyStart).takeWhile fun c => c != ')')).headWidth =
                      bodyStart := by
                  rw [← start, Text.runEnd, gap]
                  simp only [ListBlock.headWidth]
                  omega
                have body : source.slice? bodyStart (bodyStart +
                      ((source.drop bodyStart).takeWhile fun c => c != ')').length) =
                    some ((source.drop bodyStart).takeWhile fun c => c != ')') :=
                  Text.slice?_of_drop List.takeWhile_append_dropWhile.symm bodyInside
                simp only [List.isEmpty_cons, Bool.false_eq_true, ↓reduceIte, body,
                  Option.bind_some, flattenBody?_eq_some, Option.map_some, Bool.not_true,
                  Bool.or_self, edit?, headWidth, length_written, ← Nat.add_assoc]

end ListBlock

namespace PrefixCall

variable {name source : Text} {position : Nat}

/-- What the pass for prefix calls does at a code position. -/
def editAt? (name source : Text) (opening : Nat) : Option (Option Edit × Nat) :=
  source[opening]?.bind fun c =>
    if c ≠ '(' then some (none, opening)
    else
      let nameStart := source.runEnd (opening + 1) isBlank
      if source.occursAt nameStart name = false then some (none, opening)
      else
        let nameEnd := nameStart + name.length
        let runEnd := source.runEnd nameEnd isSeparator
        if runEnd = nameEnd then some (none, opening)
        else
          (source.slice? (opening + 1) nameStart).bind fun lead =>
            (difference? runEnd nameEnd).bind fun gap =>
              (difference? gap 1).map fun padding =>
                (some ⟨opening, runEnd, ' ' :: lead ++ name ++ '(' :: List.replicate padding ' '⟩,
                  runEnd)

/-- The pass for prefix calls never fails inside the text, and answers what its rule claims. -/
theorem editAt?_eq_some (inside : position < source.length) :
    editAt? name source position =
      some (Cursor.answer source (rule name) (fun opening call =>
        some ⟨opening, opening + (call.written name).length, call.respaced name⟩) position) := by
  have here : source.drop position = source[position] :: source.drop (position + 1) :=
    List.drop_eq_getElem_cons inside
  rw [editAt?, List.getElem?_eq_getElem inside, Option.bind_some, Cursor.answer, here]
  split
  · next other => rw [rule_of_ne other]
  · next opening =>
    have callee := Text.drop_runEnd source (position + 1) isBlank
    have lead := Text.slice?_runEnd (Nat.succ_le_of_lt inside) isBlank
    have width : source.runEnd (position + 1) isBlank =
        position + 1 + ((source.drop (position + 1)).takeWhile isBlank).length := rfl
    generalize source.runEnd (position + 1) isBlank = nameStart at callee lead width
    rw [Decidable.not_not.mp opening, rule, read?]
    simp only [Text.occursAt, ← callee, List.drop_drop, Text.runEnd_eq_self_iff]
    cases spelled : name.isPrefixOf (source.drop nameStart) with
    | false => simp
    | true =>
        generalize gap : (source.drop (nameStart + name.length)).takeWhile isSeparator = separators
        cases separators with
        | nil => simp
        | cons separator separators =>
            have runEnd : source.runEnd (nameStart + name.length) isSeparator =
                nameStart + name.length + (separators.length + 1) := by
              rw [Text.runEnd, gap, List.length_cons]
            have distance : difference? (nameStart + name.length + (separators.length + 1))
                (nameStart + name.length) = some (separators.length + 1) := by
              rw [difference?_of_le (Nat.le_add_right _ _), Nat.add_sub_cancel_left]
            have padding : difference? (separators.length + 1) 1 = some separators.length :=
              difference?_of_le (Nat.succ_le_succ (Nat.zero_le _))
            have written : position + (PrefixCall.written name
                ⟨(source.drop (position + 1)).takeWhile isBlank, separator :: separators⟩).length =
                  nameStart + name.length + (separators.length + 1) := by
              rw [width]
              simp [PrefixCall.written]
              omega
            simp [lead, runEnd, distance, padding, written, respaced]

end PrefixCall

namespace SymbolPath

variable {source : Text} {position : Nat}

/-- The segments of the chain of symbols from a position on, and the position behind the last
of them. -/
def segmentsAt? (source : Text) (position : Nat) : Option (List Text × Nat) :=
  if source[position]? = some ':' then
    let stop := source.runEnd (position + 1) isSegment
    if stop = position + 1 then some ([], position)
    else
      (source.slice? (position + 1) stop).bind fun segment =>
        (segmentsAt? source stop).map fun (segments, last) => (segment :: segments, last)
  else some ([], position)
termination_by source.length - position
decreasing_by
  have inside : position < source.length := by
    rename_i colon _
    exact (List.getElem?_eq_some_iff.mp colon).1
  have reached := Text.le_runEnd source (position + 1) isSegment
  omega

/-- What the pass for symbol paths does at a code position. -/
def editAt? (constructor source : Text) (start : Nat) : Option (Option Edit × Nat) :=
  source[start]?.bind fun c =>
    if c ≠ ':' then some (none, start)
    else
      (source.previousAt? start).bind fun previous =>
        if previous.any fun c => c == ':' || isWord c then some (none, start)
        else
          (segmentsAt? source start).map fun (segments, stop) =>
            match ofSegments? segments with
            | none => (none, start)
            | some path => (some ⟨start, stop, path.call constructor⟩, stop)

/-- Measuring a chain of symbols never fails, and finds its segments. -/
theorem segmentsAt?_eq_some {rest : Text} (here : source.drop position = ':' :: rest) :
    segmentsAt? source position =
      some (readSegments rest,
        position + (chained (readSegments rest)).length) := by
  generalize remaining : source.length - position = bound
  induction bound using Nat.strongRecOn generalizing position rest with
  | ind bound inductionHypothesis =>
      have inside := Text.lt_length_of_drop here
      have there := Text.drop_succ_of_drop here
      have divided := List.takeWhile_append_dropWhile (p := isSegment) (l := rest)
      have cut : source.slice? (position + 1) _ = _ := Text.slice?_runEnd inside isSegment
      have behind := Text.drop_runEnd source (position + 1) isSegment
      have width : source.runEnd (position + 1) isSegment =
        position + 1 + ((source.drop (position + 1)).takeWhile isSegment).length := rfl
      have ends := Text.head?_dropWhile isSegment rest
      rw [segmentsAt?, if_pos (Text.getElem?_of_drop here)]
      simp only [Text.runEnd_eq_self_iff]
      rw [there] at cut behind width ⊢
      generalize source.runEnd (position + 1) isSegment = stop at cut behind width ⊢
      generalize segments : rest.takeWhile isSegment = segment at divided cut width ⊢
      generalize rest.dropWhile isSegment = others at divided behind ends
      cases segment with
      | nil =>
          rw [List.nil_append] at divided
          rw [← divided, readSegments_of_no_segment ends]
          rfl
      | cons c segment =>
          have all : ∀ d ∈ c :: segment, isSegment d = true := by
            rw [← segments]
            exact List.all_eq_true.mp List.all_takeWhile
          have next : segmentsAt? source stop =
              some (moreSegments others,
                stop + (chained (moreSegments others)).length) := by
            by_cases colon : others.head? = some ':'
            · obtain ⟨more, rfl⟩ := List.head?_eq_some_iff.mp colon
              refine inductionHypothesis (source.length - stop) ?_ behind rfl
              omega
            · rw [moreSegments_of_ne colon, segmentsAt?, if_neg]
              · rfl
              · rwa [← List.head?_drop, behind]
          rw [← divided, readSegments_append (List.cons_ne_nil _ _) all ends]
          simp only [List.isEmpty_cons, Bool.false_eq_true, ↓reduceIte, cut, Option.bind_some, next,
            Option.map_some, chained, List.flatMap_cons, List.length_append, List.length_cons]
          rw [List.length_cons] at width
          congr 2
          omega

/-- The pass for symbol paths never fails inside the text, and answers what its rule claims. -/
theorem editAt?_eq_some {constructor : Text} (inside : position < source.length) :
    editAt? constructor source position =
      some (Cursor.answer source rule (fun start path =>
        some ⟨start, start + path.written.length, path.call constructor⟩) position) := by
  have here : source.drop position = source[position] :: source.drop (position + 1) :=
    List.drop_eq_getElem_cons inside
  rw [editAt?, List.getElem?_eq_getElem inside, Option.bind_some, Cursor.answer]
  split
  · next other => rw [here, rule_of_ne other]
  · next colon =>
    rw [Decidable.not_not.mp colon] at here
    rw [Text.previousAt?_eq_some (Nat.le_of_lt inside), Option.bind_some,
      segmentsAt?_eq_some here, here, rule, read?]
    split
    · rfl
    · cases made : ofSegments? (readSegments (source.drop (position + 1))) with
      | none => simp only [Option.map_some, made, Option.map_none]
      | some path =>
          have segments := segments_of_ofSegments? made
          simp only [Option.map_some, made, written, chained, segments]

end SymbolPath

end Desugar

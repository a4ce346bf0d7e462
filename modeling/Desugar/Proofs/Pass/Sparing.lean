import Desugar.Proofs.Sugar.Neutrality

/-!
# Stretches that a pass spares

A pass whose edits keep apart from a stretch of the text only moves it. Whether the stretch
is still read as code depends on where the last edit before it leaves the reading.
`Text.Holds.run` says that a pass keeps what it spares, and `Text.Holds.runAll` that several
passes do, one after another.
-/

namespace Desugar

/-- A piece of text stands in code at a position, and no word ends before it. -/
structure Text.Holds (text piece : Text) (position : Nat) : Prop where
  code : text.isCodeAt position = true
  ownWord : (text.before? position).any isWord = false
  written : piece <+: text.drop position

namespace Pass

/-- Whether nothing that a pass rewrites before a position can change how the text is read
there. For prefix calls it is enough that their name is plain. A path or a body has to stand
in code, and not directly before the position; a path must be folded into the call of a
plain constructor, and a body must hold nothing but plain text and comments. -/
def keepsReading (pass : Pass) (text : Text) (position : Nat) : Bool :=
  let before := (pass.edits text).filter (Edit.endsBy position)
  let apart := before.all fun edit => edit.stop < position && edit.standsInCode text
  match pass with
  | .callSpacing name => name.all isPlain
  | .symbolPaths constructor =>
      apart && (constructor.all isPlain && !constructor.head?.any isWord)
  | .listBlocks _ =>
      apart && before.all fun edit =>
        ((text.drop edit.start).take (edit.stop - edit.start)).all fun c => isPlain c || c == '#'
  | .trailingDots => false
  | .leadingDots => false

/-- The reading goes on behind the last edit before a position as it did, and that edit
leaves no word directly before the position. -/
structure Settles (pass : Pass) (text : Text) (position : Nat) : Prop where
  agree : Reading.Agree (text.drop (Edit.seam (pass.edits text) position))
    (text.readingAt (Edit.seam (pass.edits text) position))
    ((pass.run text).readingAt (Edit.rewritten (pass.edits text) text position).length)
  ownWord : Edit.seam (pass.edits text) position = position →
    ((pass.run text).before? (Edit.rewritten (pass.edits text) text position).length).any isWord =
      false

instance (pass : Pass) (text : Text) (position : Nat) : Decidable (pass.Settles text position) :=
  decidable_of_iff
    (Reading.Agree (text.drop (Edit.seam (pass.edits text) position))
        (text.readingAt (Edit.seam (pass.edits text) position))
        ((pass.run text).readingAt (Edit.rewritten (pass.edits text) text position).length) ∧
      (Edit.seam (pass.edits text) position = position →
        ((pass.run text).before?
          (Edit.rewritten (pass.edits text) text position).length).any isWord = false))
    ⟨fun ⟨agree, ownWord⟩ => ⟨agree, ownWord⟩, fun ⟨agree, ownWord⟩ => ⟨agree, ownWord⟩⟩

/-- A pass spares a stretch of a text: no edit reaches into it, and the edits before it do
not change how it is read. -/
structure Spares (pass : Pass) (text : Text) (start stop : Nat) : Prop where
  apart : ∀ edit ∈ pass.edits text, edit.stop ≤ start ∨ stop ≤ edit.start
  settles : pass.keepsReading text start = false → pass.Settles text start

instance (pass : Pass) (text : Text) (start stop : Nat) : Decidable (pass.Spares text start stop) :=
  decidable_of_iff
    ((∀ edit ∈ pass.edits text, edit.stop ≤ start ∨ stop ≤ edit.start) ∧
      (pass.keepsReading text start = false → pass.Settles text start))
    ⟨fun ⟨apart, settles⟩ => ⟨apart, settles⟩, fun ⟨apart, settles⟩ => ⟨apart, settles⟩⟩

variable {pass : Pass} {text : Text} {start stop : Nat}

/-- The edits before a stretch that no edit reaches into rewrite the text up to its seam. -/
theorem exists_run_eq_append (forward : start ≤ stop)
    (apart : ∀ edit ∈ pass.edits text, edit.stop ≤ start ∨ stop ≤ edit.start) :
    ∃ right, pass.run text = Edit.rewritten (pass.edits text) text start ++ right := by
  obtain ⟨right, rewritten⟩ := Edit.applyAll_eq_append (pass.ordered_edits text) apart forward
  exact ⟨_, rewritten⟩

/-- Respacing calls to a plain name settles every place that no word ends before: the
respaced text is read alike everywhere. -/
theorem settles_of_plain_name {name : Text} (plainName : ∀ c ∈ name, isPlain c = true)
    (inside : start ≤ text.length) (alone : (text.before? start).any isWord = false) :
    (Pass.callSpacing name).Settles text start := by
  have respelled : Reading.Respelled .start text ((Pass.callSpacing name).run text) :=
    PrefixCall.respelled_respaceAll plainName text
  have width := Edit.length_rewritten ((Pass.callSpacing name).ordered_edits text) inside
    fun edit member => PrefixCall.stop_of_mem_edits member
  have bounded := Edit.seam_le ((Pass.callSpacing name).edits text) start
  have agree := (Text.agree_readingAt respelled (Nat.le_trans bounded inside)).2
  refine ⟨by rw [width]; exact agree _, fun place => ?_⟩
  -- A `?` behind the seam would see whether a word ends there.
  have word := (agree ['?']).word rfl
  rw [place, Text.readingAt_previous inside, alone,
    Text.readingAt_previous (by rw [respelled.length_eq]; exact inside)] at word
  rw [width, place]
  exact word.symm

/-- Neutral edits that end before a place settle it. -/
theorem settles_of_neutral (forward : start ≤ stop) (inside : start ≤ text.length)
    (apart : ∀ edit ∈ pass.edits text, edit.stop ≤ start ∨ stop ≤ edit.start)
    (neutral : ∀ edit ∈ pass.edits text, edit.stop ≤ start →
      edit.stop < start ∧ edit.Neutral text) : pass.Settles text start := by
  obtain ⟨right, rewritten⟩ := exists_run_eq_append forward apart
  have whole : (pass.run text).drop 0 = Edit.rewritten (pass.edits text) text start ++ right :=
    rewritten
  have arrived : (pass.run text).readingAt (Edit.rewritten (pass.edits text) text start).length =
      Reading.start.after (Edit.rewritten (pass.edits text) text start) right := by
    rw [← Nat.zero_add (Edit.rewritten (pass.edits text) text start).length,
      Text.readingAt_add whole, Text.readingAt_zero]
  refine ⟨?_, fun place => ?_⟩
  · rw [arrived]
    exact Edit.agree_rewritten (pass.ordered_edits text)
      (fun edit member ends => (neutral edit member ends).2) inside right
  · rcases Edit.rewritten_eq_nil_or_seam_lt fun edit member ends =>
      (neutral edit member ends).1 with nothing | earlier
    · rw [nothing]
      rfl
    · omega

/-- What is checked for the edits before a position. -/
theorem of_all_endsBy {edits : List Edit}
    (before : (edits.filter (Edit.endsBy start)).all
      (fun edit => edit.stop < start && edit.standsInCode text) = true)
    {edit : Edit} (member : edit ∈ edits) (ends : edit.stop ≤ start) :
    edit.stop < start ∧ edit.standsInCode text = true := by
  have checked := List.all_eq_true.mp before edit (Edit.mem_filter_endsBy member ends)
  rwa [Bool.and_eq_true, decide_eq_true_eq] at checked

/-- A pass settles every stretch that it spares, if no word ends before it. -/
theorem Spares.settled (spares : pass.Spares text start stop) (forward : start ≤ stop)
    (inside : start ≤ text.length) (alone : (text.before? start).any isWord = false) :
    pass.Settles text start := by
  cases keeps : pass.keepsReading text start with
  | false => exact spares.settles keeps
  | true =>
      cases pass with
      | callSpacing name =>
          exact settles_of_plain_name (List.all_eq_true.mp keeps) inside alone
      | symbolPaths constructor =>
          obtain ⟨before, shape⟩ := Bool.and_eq_true_iff.mp keeps
          obtain ⟨plain, noWord⟩ := Bool.and_eq_true_iff.mp shape
          refine settles_of_neutral forward inside spares.apart fun edit member ends => ?_
          obtain ⟨earlier, stands⟩ := of_all_endsBy before member ends
          exact ⟨earlier, SymbolPath.neutral (List.all_eq_true.mp plain)
            (by simpa using noWord) member stands⟩
      | listBlocks keywords =>
          obtain ⟨before, plain⟩ := Bool.and_eq_true_iff.mp keeps
          refine settles_of_neutral forward inside spares.apart fun edit member ends => ?_
          obtain ⟨earlier, stands⟩ := of_all_endsBy before member ends
          have body := List.all_eq_true.mp plain edit (Edit.mem_filter_endsBy member ends)
          refine ⟨earlier, ListBlock.neutral member (fun c inBody => ?_) stands⟩
          simpa using List.all_eq_true.mp body c inBody
      | trailingDots => cases keeps
      | leadingDots => cases keeps

end Pass

namespace Text

/-- A piece of text that stands as far behind one place of a text as behind one of another
is held by both, if the readings agree at these places. Three characters of it are enough
for what stands behind it not to matter. -/
theorem Holds.of_agree {text other between piece behind right : Text} {seam place : Nat}
    (holds : text.Holds piece (seam + between.length)) (long : 3 ≤ piece.length)
    (here : text.drop seam = between ++ (piece ++ behind))
    (there : other.drop place = between ++ (piece ++ right))
    (agree : Reading.Agree (text.drop seam) (text.readingAt seam) (other.readingAt place))
    (ownWord : between = [] → (other.before? place).any isWord = false) :
    other.Holds piece (place + between.length) := by
  have alike : Reading.Alike (piece ++ behind) (piece ++ right) := by
    refine .of_take ?_
    rw [List.take_append_of_le_length (by omega), List.take_append_of_le_length (by omega)]
  have hereBehind : text.drop (seam + between.length) = piece ++ behind := by
    rw [← List.drop_drop, here, List.drop_left]
  have thereBehind : other.drop (place + between.length) = piece ++ right := by
    rw [← List.drop_drop, there, List.drop_left]
  have equal : between ≠ [] →
      other.readingAt (place + between.length) = text.readingAt (seam + between.length) := by
    intro nonempty
    rw [readingAt_add here, readingAt_add there]
    rw [here] at agree
    rw [agree.after_eq nonempty, alike.after_eq]
  have agreeBehind : Reading.Agree (piece ++ behind) (text.readingAt (seam + between.length))
      (other.readingAt (place + between.length)) := by
    by_cases nothing : between = []
    · subst nothing
      rwa [here] at agree
    · rw [equal nothing]
      exact ⟨rfl, rfl, fun _ => rfl⟩
  obtain ⟨c, others, rfl⟩ := List.exists_cons_of_length_pos (show 0 < piece.length by omega)
  rw [List.cons_append] at hereBehind thereBehind agreeBehind
  have insideText := Nat.le_of_lt (lt_length_of_drop hereBehind)
  have insideOther := Nat.le_of_lt (lt_length_of_drop thereBehind)
  refine ⟨?_, ?_, ?_⟩
  · have ahead : Reading.Alike (others ++ behind) (others ++ right) := by
      rw [List.length_cons] at long
      refine .of_take ?_
      rw [List.take_append_of_le_length (by omega), List.take_append_of_le_length (by omega)]
    have code := holds.code
    rw [isCodeAt_eq hereBehind, agreeBehind.step, ahead.step_eq] at code
    rwa [isCodeAt_eq thereBehind]
  · by_cases nothing : between = []
    · have alone := ownWord nothing
      subst nothing
      exact alone
    · rw [← readingAt_previous insideOther, equal nothing, readingAt_previous insideText]
      exact holds.ownWord
  · exact ⟨right, thereBehind.symm⟩

/-- A pass keeps a piece of text that it spares. -/
theorem Holds.run {text piece : Text} {position : Nat} (holds : text.Holds piece position)
    (long : 3 ≤ piece.length) {pass : Pass}
    (spares : pass.Spares text position (position + piece.length)) :
    (pass.run text).Holds piece (Edit.moved (pass.edits text) text position) := by
  obtain ⟨behind, written⟩ := holds.written
  obtain ⟨right, rewritten⟩ := Edit.applyAll_eq_append (pass.ordered_edits text) spares.apart
    (Nat.le_add_right _ _)
  have inside := Nat.le_of_lt (lt_length_of_isCodeAt holds.code)
  obtain ⟨between, here, place⟩ :=
    exists_drop_eq_append (Edit.seam_le (pass.edits text) position) inside
  rw [← written] at here
  have stretch : (text.drop (Edit.seam (pass.edits text) position)).take
      (position + piece.length - Edit.seam (pass.edits text) position) = between ++ piece := by
    have width : position + piece.length - Edit.seam (pass.edits text) position =
        (between ++ piece).length := by
      rw [List.length_append]
      omega
    rw [here, width, ← List.append_assoc, List.take_left]
  have there : (pass.run text).drop (Edit.rewritten (pass.edits text) text position).length =
      between ++ (piece ++ right) := by
    rw [Pass.run, rewritten, List.drop_left, stretch, List.append_assoc]
  have distance : position - Edit.seam (pass.edits text) position = between.length := by omega
  rw [Edit.moved, distance]
  obtain ⟨agree, ownWord⟩ := spares.settled (Nat.le_add_right _ _) inside holds.ownWord
  refine Holds.of_agree (place.symm ▸ holds) long here there agree fun nothing => ownWord ?_
  rw [nothing, List.length_nil] at place
  exact place

end Text

namespace Pass

/-- Several passes spare a stretch of a text one after another, each where the ones before
it have moved it to. -/
def SpareAll : List Pass → (text : Text) → (position width : Nat) → Prop
  | [], _, _, _ => True
  | pass :: passes, text, position, width =>
      pass.Spares text position (position + width) ∧
        SpareAll passes (pass.run text) (Edit.moved (pass.edits text) text position) width

instance decidableSpareAll : (passes : List Pass) → (text : Text) → (position width : Nat) →
    Decidable (SpareAll passes text position width)
  | [], _, _, _ => isTrue trivial
  | pass :: passes, text, position, width =>
      have := decidableSpareAll passes (pass.run text)
        (Edit.moved (pass.edits text) text position) width
      inferInstanceAs (Decidable (pass.Spares text position (position + width) ∧ _))

end Pass

/-- Several passes keep a piece of text that they spare. -/
theorem Text.Holds.runAll {passes : List Pass} {text piece : Text} {position : Nat}
    (holds : text.Holds piece position) (long : 3 ≤ piece.length)
    (spared : Pass.SpareAll passes text position piece.length) :
    ∃ place, (Pass.runAll passes text).Holds piece place := by
  induction passes generalizing text position with
  | nil => exact ⟨position, holds⟩
  | cons pass passes inductionHypothesis =>
      obtain ⟨spares, others⟩ := spared
      exact inductionHypothesis (holds.run long spares) others

end Desugar

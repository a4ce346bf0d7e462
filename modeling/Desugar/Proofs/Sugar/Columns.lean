import Desugar.Proofs.Pass.Kept
import Desugar.Proofs.Pass.Seam
import Desugar.Proofs.Sugar.Respacing

/-!
# Lines and columns after respacing

A respaced call is as wide as the call it replaces, so every other character keeps its position.
A diagnostic is given by line and column instead, and these depend on the newlines. The blanks
before the name of a call are kept with their newlines, but its separators give way to spaces, and
a newline among them is lost: `PrefixCall.getElem?_respaceAll_eq_newline_iff`.

`PrefixCall.respaceAll_keeps_place_iff` says what follows for a position outside the calls. It
stays on its line exactly if no call before it has a newline among its separators, and in its
column exactly if the line does not begin behind such a newline. In the source of
`PrefixCall.respaceAll_joins_lines` a position keeps neither.
-/

namespace Desugar

namespace Text

/-- Zero-based column of a position: the number of characters since the last newline before it. -/
def columnAt (text : Text) (position : Nat) : Nat :=
  ((text.take position).reverse.takeWhile fun c => c != '\n').length

/-- The last newline before a position stands at `place`. -/
structure LastBreak (text : Text) (position place : Nat) : Prop where
  newline : text[place]? = some '\n'
  before : place < position
  last : ∀ later : Nat, place < later → later < position → text[later]? ≠ some '\n'

/-- Two texts are equally long, and the second has no newline where the first has none. -/
structure LosesBreaks (text other : Text) : Prop where
  length_eq : other.length = text.length
  newline : ∀ place : Nat, other[place]? = some '\n' → text[place]? = some '\n'

variable {text other : Text} {position : Nat} {c : Char}

theorem lineAt_succ (text : Text) (position : Nat) :
    text.lineAt (position + 1) =
      text.lineAt position + if text[position]? = some '\n' then 1 else 0 := by
  unfold lineAt
  rw [List.take_add_one, List.count_append, Nat.add_right_comm]
  cases text[position]? with
  | none => simp
  | some c => simp [List.count_singleton]

/-- One more character of the line is one more column, and a newline starts the line again. -/
theorem columnAt_succ (here : text[position]? = some c) :
    text.columnAt (position + 1) = if c = '\n' then 0 else text.columnAt position + 1 := by
  unfold columnAt
  rw [List.take_add_one, here, Option.toList_some, List.reverse_append]
  by_cases newline : c = '\n' <;> simp [newline]

/-- Behind the end of a text there are no further columns. -/
theorem columnAt_succ_of_none (beyond : text[position]? = none) :
    text.columnAt (position + 1) = text.columnAt position := by
  unfold columnAt
  rw [List.take_add_one, beyond, Option.toList_none, List.append_nil]

/-- Behind a newline, the last one is this one. -/
theorem lastBreak_succ_of_newline {place : Nat} (here : text[position]? = some '\n') :
    text.LastBreak (position + 1) place ↔ place = position := by
  constructor
  · intro last
    apply Nat.le_antisymm (Nat.le_of_lt_succ last.before)
    apply Nat.le_of_not_lt
    intro behind
    exact last.last position behind (Nat.lt_succ_self _) here
  · rintro rfl
    exact ⟨here, Nat.lt_succ_self _, fun later behind before => absurd before (by omega)⟩

/-- Behind any other character, the last newline is the same as before it. -/
theorem lastBreak_succ_of_ne {place : Nat} (here : text[position]? ≠ some '\n') :
    text.LastBreak (position + 1) place ↔ text.LastBreak position place := by
  constructor
  · rintro ⟨newline, before, last⟩
    have different : place ≠ position := by
      rintro rfl
      exact here newline
    exact ⟨newline, by omega, fun later behind inside => last later behind (by omega)⟩
  · rintro ⟨newline, before, last⟩
    refine ⟨newline, by omega, fun later behind inside => ?_⟩
    rcases Nat.lt_or_eq_of_le (Nat.le_of_lt_succ inside) with earlier | rfl
    · exact last later behind earlier
    · exact here

namespace LosesBreaks

theorem lineAt_le (loses : LosesBreaks text other) (position : Nat) :
    other.lineAt position ≤ text.lineAt position := by
  induction position with
  | zero => exact Nat.le_refl _
  | succ position inductionHypothesis =>
      have kept := loses.newline position
      rw [lineAt_succ, lineAt_succ]
      grind

/-- A position stays on its line exactly if no newline before it is lost. -/
theorem lineAt_eq_iff (loses : LosesBreaks text other) :
    other.lineAt position = text.lineAt position ↔
      ∀ place < position, text[place]? = some '\n' → other[place]? = some '\n' := by
  induction position with
  | zero => exact iff_of_true rfl nofun
  | succ position inductionHypothesis =>
      have fewer := loses.lineAt_le position
      have kept := loses.newline position
      rw [Nat.forall_lt_succ_right, ← inductionHypothesis, lineAt_succ, lineAt_succ]
      by_cases newline : text[position]? = some '\n'
      · by_cases stays : other[position]? = some '\n'
        · simp [newline, stays]
        · simp only [newline, stays, if_true, if_false, imp_false, not_true, and_false, iff_false]
          omega
      · simp [newline, mt kept newline]

/-- The two texts end together. -/
theorem getElem?_eq_none_iff (loses : LosesBreaks text other) :
    other[position]? = none ↔ text[position]? = none := by
  rw [List.getElem?_eq_none_iff, List.getElem?_eq_none_iff, loses.length_eq]

/-- A position stays in its column exactly if the last newline before it is not lost. -/
theorem columnAt_eq_iff (loses : LosesBreaks text other) :
    other.columnAt position = text.columnAt position ↔
      ∀ place, text.LastBreak position place → other[place]? = some '\n' := by
  induction position with
  | zero => exact iff_of_true rfl fun place last => absurd last.before (Nat.not_lt_zero _)
  | succ position inductionHypothesis =>
      cases here : text[position]? with
      | none =>
          have there := loses.getElem?_eq_none_iff.mpr here
          have noBreak : text[position]? ≠ some '\n' := by simp [here]
          simp only [columnAt_succ_of_none here, columnAt_succ_of_none there,
            lastBreak_succ_of_ne noBreak]
          exact inductionHypothesis
      | some c =>
          cases there : other[position]? with
          | none => exact absurd (loses.getElem?_eq_none_iff.mp there) (by simp [here])
          | some d =>
              rw [columnAt_succ here, columnAt_succ there]
              by_cases newline : c = '\n'
              · subst newline
                simp only [lastBreak_succ_of_newline here, forall_eq, there, if_true,
                  Option.some.injEq]
                by_cases stays : d = '\n' <;> simp [stays]
              · have noBreak : text[position]? ≠ some '\n' := by simp [here, newline]
                have otherNewline : d ≠ '\n' := by
                  rintro rfl
                  exact noBreak (loses.newline position there)
                simp only [lastBreak_succ_of_ne noBreak, newline, otherNewline, if_false,
                  Nat.add_right_cancel_iff]
                exact inductionHypothesis

end LosesBreaks

end Text

namespace Edit

variable {edits : List Edit} {source : Text} {low place : Nat}

/-- The new text of the first edit stands where the old one stood. -/
theorem getElem?_applyFrom_of_lt_stop {edit : Edit} {rest : Text} (starts : low ≤ edit.start)
    (inside : edit.start - low ≤ rest.length) (reached : edit.start ≤ place)
    (within : place < edit.start + edit.text.length) :
    (applyFrom low (edit :: edits) rest)[place - low]? = edit.text[place - edit.start]? := by
  have width : (rest.take (edit.start - low)).length = edit.start - low :=
    List.length_take_of_le inside
  have distance : place - low - (edit.start - low) = place - edit.start := by omega
  rw [applyFrom, List.append_assoc, List.getElem?_append_right (by omega), width, distance,
    List.getElem?_append_left (by omega)]

/-- Behind an edit that keeps the width of what it replaces, the others make what they do. -/
theorem getElem?_applyFrom_of_stop_le {edit : Edit} {rest : Text} (starts : low ≤ edit.start)
    (inside : edit.start - low ≤ rest.length) (width : edit.start + edit.text.length = edit.stop)
    (behind : edit.stop ≤ place) :
    (applyFrom low (edit :: edits) rest)[place - low]? =
      (applyFrom edit.stop edits (rest.drop (edit.stop - low)))[place - edit.stop]? := by
  have distance : place - low = edit.start - low + edit.text.length + (place - edit.stop) := by
    omega
  rw [distance, ← List.getElem?_drop, drop_applyFrom inside]

/-- Edits that keep the width of what they replace leave all else in its place, and write each new
text where the old one stood. -/
theorem getElem?_applyFrom_of_width (ordered : OrderedFrom source.length low edits)
    (widths : ∀ edit ∈ edits, edit.start + edit.text.length = edit.stop) (reached : low ≤ place) :
    (Keeps edits place → (applyFrom low edits (source.drop low))[place - low]? = source[place]?) ∧
      ∀ edit ∈ edits, edit.start ≤ place → place < edit.stop →
        (applyFrom low edits (source.drop low))[place - low]? =
          edit.text[place - edit.start]? := by
  have kept : (source.drop low)[place - low]? = source[place]? := by
    rw [List.getElem?_drop, Nat.add_sub_cancel' reached]
  induction edits generalizing low with
  | nil => exact ⟨fun _ => kept, nofun⟩
  | cons edit edits inductionHypothesis =>
      obtain ⟨starts, stops, others⟩ := ordered
      have bounded := others.position_le
      have inside : edit.start - low ≤ (source.drop low).length := by
        rw [List.length_drop]
        omega
      have width := widths edit (List.mem_cons_self ..)
      -- The other edits begin behind the end of the first one.
      have later {other : Edit} (member : other ∈ edits) : edit.stop ≤ other.start :=
        (others.bounds member).1
      rcases Nat.lt_or_ge place edit.start with before | reaches
      · refine ⟨fun _ => ?_, fun other member begins _ => ?_⟩
        · exact (getElem?_applyFrom inside (by omega)).trans kept
        · rcases List.mem_cons.mp member with rfl | member
          · exact absurd before (Nat.not_lt_of_le begins)
          · have behind := later member
            omega
      · rcases Nat.lt_or_ge place edit.stop with within | behind
        · refine ⟨fun keeps => ?_, fun other member begins _ => ?_⟩
          · have apart := keeps edit (List.mem_cons_self ..)
            omega
          · rcases List.mem_cons.mp member with rfl | member
            · exact getElem?_applyFrom_of_lt_stop starts inside reaches (width ▸ within)
            · have behind := later member
              omega
        · have stop : low + (edit.stop - low) = edit.stop := by omega
          obtain ⟨keeps, writes⟩ := inductionHypothesis others
            (fun other member => widths other (List.mem_cons_of_mem _ member)) behind
            (by rw [List.getElem?_drop, Nat.add_sub_cancel' behind])
          rw [getElem?_applyFrom_of_stop_le starts inside width behind, List.drop_drop, stop]
          refine ⟨fun all => ?_, fun other member begins ends => ?_⟩
          · exact keeps fun other member => all other (List.mem_cons_of_mem _ member)
          · rcases List.mem_cons.mp member with rfl | member
            · exact absurd ends (Nat.not_lt_of_le behind)
            · exact writes other member begins ends

end Edit

namespace PrefixCall

variable {name source : Text} {position place : Nat} {found : Nat × PrefixCall}

/-- Number of characters of a call before its separators. -/
def headWidth (name : Text) (call : PrefixCall) : Nat :=
  (call.lead ++ name).length + 1

/-- A place lies among the separators of a call that is found in a source. -/
def InGap (name : Text) (found : Nat × PrefixCall) (place : Nat) : Prop :=
  found.1 + found.2.headWidth name ≤ place ∧ place < found.1 + (found.2.written name).length

instance (name : Text) (found : Nat × PrefixCall) (place : Nat) :
    Decidable (InGap name found place) :=
  inferInstanceAs (Decidable (_ ∧ _))

theorem length_written (name : Text) (call : PrefixCall) :
    (call.written name).length = call.headWidth name + call.gap.length := by
  simp [written, headWidth]
  omega

/-- The separators of a call stand behind its head. -/
theorem getElem?_written_add (name : Text) (call : PrefixCall) (index : Nat) :
    (call.written name)[call.headWidth name + index]? = call.gap[index]? := by
  have divided : call.written name = '(' :: (call.lead ++ name) ++ call.gap := by simp [written]
  have width : ('(' :: (call.lead ++ name)).length = call.headWidth name := List.length_cons
  rw [divided, List.getElem?_append_right (by omega), width, Nat.add_sub_cancel_left]

/-- Respacing keeps the newlines before the separators of a call, and writes none. -/
theorem getElem?_respaced_eq_newline_iff (name : Text) (call : PrefixCall) (index : Nat) :
    (call.respaced name)[index]? = some '\n' ↔
      (call.written name)[index]? = some '\n' ∧ index < call.headWidth name := by
  cases index with
  | zero => simp [respaced, written]
  | succ index =>
      have written : (call.written name)[index + 1]? =
          ((call.lead ++ name) ++ call.gap)[index]? := rfl
      have respaced : (call.respaced name)[index + 1]? =
          ((call.lead ++ name) ++ '(' :: List.replicate (call.gap.length - 1) ' ')[index]? := rfl
      rw [written, respaced, headWidth, Nat.add_lt_add_iff_right]
      rcases Nat.lt_or_ge index (call.lead ++ name).length with before | behind
      · rw [List.getElem?_append_left before, List.getElem?_append_left before,
          and_iff_left before]
      · refine iff_of_false (fun newline => ?_) fun both => Nat.not_lt_of_le behind both.2
        rw [List.getElem?_append_right behind] at newline
        rcases List.mem_cons.mp (List.mem_of_getElem? newline) with parenthesis | padding
        · cases parenthesis
        · cases List.eq_of_mem_replicate padding

theorem getElem?_of_mem_scan (listed : found ∈ source.scan (rule name)) (reached : found.1 ≤ place)
    (within : place < found.1 + (found.2.written name).length) :
    source[place]? = (found.2.written name)[place - found.1]? := by
  obtain ⟨behind, here⟩ := written_isPrefix_of_read? (read?_of_mem_scan listed)
  rw [← Nat.add_sub_cancel' reached, ← List.getElem?_drop, ← here,
    List.getElem?_append_left (by omega), Nat.add_sub_cancel_left]

theorem getElem?_respaceAll_of_keeps (outside : Edit.Keeps (edits name source) place) :
    (respaceAll name source)[place]? = source[place]? :=
  (Edit.getElem?_applyFrom_of_width ((Pass.callSpacing name).ordered_edits source)
    (fun _ => stop_of_mem_edits) (Nat.zero_le _)).1 outside

theorem getElem?_respaceAll_of_mem (listed : found ∈ source.scan (rule name))
    (reached : found.1 ≤ place) (within : place < found.1 + (found.2.written name).length) :
    (respaceAll name source)[place]? = (found.2.respaced name)[place - found.1]? :=
  (Edit.getElem?_applyFrom_of_width ((Pass.callSpacing name).ordered_edits source)
    (fun _ => stop_of_mem_edits) (Nat.zero_le _)).2 (edit name found)
      (List.mem_map_of_mem listed) reached within

/-- A call has a newline among its separators if the source has one there. -/
theorem newline_mem_gap_iff (listed : found ∈ source.scan (rule name)) :
    '\n' ∈ found.2.gap ↔ ∃ place, InGap name found place ∧ source[place]? = some '\n' := by
  have width := length_written name found.2
  constructor
  · intro member
    obtain ⟨index, newline⟩ := List.getElem?_of_mem member
    have inside := (List.getElem?_eq_some_iff.mp newline).1
    have inGap : InGap name found (found.1 + (found.2.headWidth name + index)) := by
      constructor <;> omega
    refine ⟨_, inGap, ?_⟩
    rw [getElem?_of_mem_scan listed (by omega) inGap.2, Nat.add_sub_cancel_left,
      getElem?_written_add, newline]
  · rintro ⟨place, ⟨reached, within⟩, newline⟩
    have distance : place - found.1 =
        found.2.headWidth name + (place - found.1 - found.2.headWidth name) := by omega
    rw [getElem?_of_mem_scan listed (by omega) within, distance, getElem?_written_add] at newline
    exact List.mem_of_getElem? newline

/-- A place is kept, or lies in a call that is respaced. -/
theorem keeps_or_exists_mem_scan (name source : Text) (place : Nat) :
    Edit.Keeps (edits name source) place ∨ ∃ found ∈ source.scan (rule name),
      found.1 ≤ place ∧ place < found.1 + (found.2.written name).length := by
  refine Classical.or_iff_not_imp_right.mpr fun outside respacing member => ?_
  obtain ⟨found, listed, rfl⟩ := List.mem_map.mp member
  apply Classical.byContradiction
  intro within
  exact outside ⟨found, listed, by simp only at within; omega⟩

/-- In a call that is respaced, the newlines before the separators are kept and no others. -/
theorem newline_iff_of_mem_scan (listed : found ∈ source.scan (rule name))
    (reached : found.1 ≤ place) (within : place < found.1 + (found.2.written name).length) :
    (respaceAll name source)[place]? = some '\n' ↔
      source[place]? = some '\n' ∧ ¬ InGap name found place := by
  have head : place - found.1 < found.2.headWidth name ↔ ¬ InGap name found place := by
    unfold InGap
    omega
  rw [getElem?_respaceAll_of_mem listed reached within, getElem?_of_mem_scan listed reached within,
    getElem?_respaced_eq_newline_iff, head]

/-- The newlines of a respaced source are those of the source that are no separators of a call. -/
theorem getElem?_respaceAll_eq_newline_iff :
    (respaceAll name source)[place]? = some '\n' ↔
      source[place]? = some '\n' ∧ ∀ found ∈ source.scan (rule name), ¬ InGap name found place := by
  have inGap {found : Nat × PrefixCall} (listed : found ∈ source.scan (rule name))
      (separator : InGap name found place) : (respaceAll name source)[place]? ≠ some '\n' := by
    intro newline
    have reached : found.1 ≤ place := Nat.le_trans (Nat.le_add_right _ _) separator.1
    exact ((newline_iff_of_mem_scan listed reached separator.2).mp newline).2 separator
  rcases keeps_or_exists_mem_scan name source place with outside | ⟨found, listed, reached, within⟩
  · rw [getElem?_respaceAll_of_keeps outside] at inGap ⊢
    exact ⟨fun newline => ⟨newline, fun found listed separator => inGap listed separator newline⟩,
      And.left⟩
  · constructor
    · intro newline
      exact ⟨((newline_iff_of_mem_scan listed reached within).mp newline).1,
        fun other member separator => inGap member separator newline⟩
    · rintro ⟨newline, separators⟩
      exact (newline_iff_of_mem_scan listed reached within).mpr ⟨newline, separators found listed⟩

/-- Respacing keeps the length of a source and adds no newline. -/
theorem losesBreaks_respaceAll (name source : Text) :
    source.LosesBreaks (respaceAll name source) where
  length_eq := by
    have ordered : Edit.Ordered source (edits name source) :=
      (Pass.callSpacing name).ordered_edits source
    exact Edit.length_applyFrom (by rwa [Nat.zero_add]) fun _ => stop_of_mem_edits
  newline _ kept := (getElem?_respaceAll_eq_newline_iff.mp kept).1

/-- A position outside the calls that are respaced stays on its line exactly if no call before it
has a newline among its separators, and in its column exactly if the last newline before it is not
one of these. -/
theorem respaceAll_keeps_place_iff (outside : Edit.Keeps (edits name source) position) :
    ((respaceAll name source).lineAt position = source.lineAt position ↔
      ∀ found ∈ source.scan (rule name), found.1 < position → '\n' ∉ found.2.gap) ∧
    ((respaceAll name source).columnAt position = source.columnAt position ↔
      ∀ place, source.LastBreak position place →
        ∀ found ∈ source.scan (rule name), ¬ InGap name found place) := by
  have loses := losesBreaks_respaceAll name source
  constructor
  · rw [loses.lineAt_eq_iff]
    constructor
    · intro kept found listed before member
      obtain ⟨place, separator, newline⟩ := (newline_mem_gap_iff listed).mp member
      have behind : found.1 + (found.2.written name).length ≤ position :=
        (outside (edit name found) (List.mem_map_of_mem listed)).resolve_right
          (Nat.not_lt_of_lt before)
      have stays := kept place (Nat.lt_of_lt_of_le separator.2 behind) newline
      exact (getElem?_respaceAll_eq_newline_iff.mp stays).2 found listed separator
    · intro unbroken place before newline
      refine getElem?_respaceAll_eq_newline_iff.mpr ⟨newline, fun found listed separator => ?_⟩
      have earlier : found.1 < position :=
        Nat.lt_of_le_of_lt (Nat.le_trans (Nat.le_add_right _ _) separator.1) before
      refine unbroken found listed earlier ?_
      exact (newline_mem_gap_iff listed).mpr ⟨place, separator, newline⟩
  · rw [loses.columnAt_eq_iff]
    apply forall_congr'
    intro place
    apply imp_congr_right
    intro last
    rw [getElem?_respaceAll_eq_newline_iff, and_iff_right last.newline]

/-- Behind a call with a newline before its name, a position keeps its line and column. Behind a
call with a newline among its separators, it is on another line, and in the same column only on
the lines that follow. -/
theorem respaceAll_keeps_place_rings :
    Edit.Keeps (edits "ring".toList "(\n ring, 1)\n(ring \n2)\nx".toList) 9 ∧
      Edit.Keeps (edits "ring".toList "(\n ring, 1)\n(ring \n2)\nx".toList) 22 ∧
      Text.lineAt (respaceAll "ring".toList "(\n ring, 1)\n(ring \n2)\nx".toList) 9 =
        Text.lineAt "(\n ring, 1)\n(ring \n2)\nx".toList 9 ∧
      Text.columnAt (respaceAll "ring".toList "(\n ring, 1)\n(ring \n2)\nx".toList) 9 =
        Text.columnAt "(\n ring, 1)\n(ring \n2)\nx".toList 9 ∧
      Text.lineAt (respaceAll "ring".toList "(\n ring, 1)\n(ring \n2)\nx".toList) 22 ≠
        Text.lineAt "(\n ring, 1)\n(ring \n2)\nx".toList 22 ∧
      Text.columnAt (respaceAll "ring".toList "(\n ring, 1)\n(ring \n2)\nx".toList) 22 =
        Text.columnAt "(\n ring, 1)\n(ring \n2)\nx".toList 22 := by
  have first : Edit.Keeps (edits "ring".toList "(\n ring, 1)\n(ring \n2)\nx".toList) 9 := by
    decide +kernel
  have second : Edit.Keeps (edits "ring".toList "(\n ring, 1)\n(ring \n2)\nx".toList) 22 := by
    decide +kernel
  refine ⟨first, second, ?_, ?_, ?_, ?_⟩
  · apply (respaceAll_keeps_place_iff first).1.mpr
    decide +kernel
  · apply (respaceAll_keeps_place_iff first).2.mpr
    have noSeparator : ∀ place < 9,
        "(\n ring, 1)\n(ring \n2)\nx".toList[place]? = some '\n' →
          ∀ found ∈ Text.scan "(\n ring, 1)\n(ring \n2)\nx".toList (rule "ring".toList),
            ¬ InGap "ring".toList found place := by
      decide +kernel
    exact fun place last => noSeparator place last.before last.newline
  · intro same
    exact absurd ((respaceAll_keeps_place_iff second).1.mp same) (by decide +kernel)
  · apply (respaceAll_keeps_place_iff second).2.mpr
    intro place last
    obtain rfl := (Text.lastBreak_succ_of_newline rfl).mp last
    decide +kernel

/-- A newline among the separators of a call is lost, and what stands behind it moves to the line
of the call. -/
theorem respaceAll_joins_lines :
    "ring".toList ≠ [] ∧ (∀ c ∈ "ring".toList, isWord c = true) ∧
      Edit.Keeps (edits "ring".toList "(ring \n1)".toList) 7 ∧
      respaceAll "ring".toList "(ring \n1)".toList = " ring( 1)".toList ∧
      Text.lineAt "(ring \n1)".toList 7 = 2 ∧ Text.lineAt " ring( 1)".toList 7 = 1 ∧
      Text.columnAt "(ring \n1)".toList 7 = 0 ∧ Text.columnAt " ring( 1)".toList 7 = 7 :=
  ⟨by decide, List.all_eq_true.mp (by decide +kernel), by decide +kernel, by decide +kernel,
    by decide +kernel, by decide +kernel, by decide +kernel, by decide +kernel⟩

end PrefixCall

end Desugar

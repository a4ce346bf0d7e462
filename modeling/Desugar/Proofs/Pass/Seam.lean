import Desugar.Proofs.Pass.Order

/-!
# Positions between edits

Edits that keep apart from a stretch of the text only move it. `Edit.moved` says where a
position lies after them: as far behind its `Edit.seam`, the end of the last edit before
it, as it was. `Edit.applyAll_eq_append` says that the stretch stands there unchanged.
-/

namespace Desugar

namespace Edit

/-- Whether an edit ends at or before a position. -/
def endsBy (position : Nat) (edit : Edit) : Bool :=
  edit.stop ≤ position

/-- End of the last of several edits that are in order, or `low` if there are none. -/
def furthest (low : Nat) (edits : List Edit) : Nat :=
  (edits.map stop).foldr max low

/-- End of the last edit before a position, or the start of the text. -/
def seam (edits : List Edit) (position : Nat) : Nat :=
  furthest 0 (edits.filter (endsBy position))

/-- What the edits before a position make of the text up to its seam. -/
def rewritten (edits : List Edit) (text : Text) (position : Nat) : Text :=
  applyAll (edits.filter (endsBy position)) (text.take (seam edits position))

/-- Where a position lies after the edits: as far behind its seam as before. -/
def moved (edits : List Edit) (text : Text) (position : Nat) : Nat :=
  (rewritten edits text position).length + (position - seam edits position)

variable {edits : List Edit} {text rest : Text} {low position length : Nat}

theorem mem_filter_endsBy {edit : Edit} (member : edit ∈ edits) (ends : edit.stop ≤ position) :
    edit ∈ edits.filter (endsBy position) :=
  List.mem_filter.mpr ⟨member, decide_eq_true ends⟩

theorem of_mem_filter_endsBy {edit : Edit} (kept : edit ∈ edits.filter (endsBy position)) :
    edit ∈ edits ∧ edit.stop ≤ position := by
  obtain ⟨member, ends⟩ := List.mem_filter.mp kept
  exact ⟨member, of_decide_eq_true ends⟩

theorem filter_endsBy_eq_nil (behind : ∀ edit ∈ edits, position < edit.stop) :
    edits.filter (endsBy position) = [] := by
  refine List.filter_eq_nil_iff.mpr fun edit member => ?_
  have later := behind edit member
  simp only [endsBy, decide_eq_true_eq]
  omega

theorem filter_not_endsBy_eq_self (behind : ∀ edit ∈ edits, position < edit.stop) :
    edits.filter (fun edit => !edit.endsBy position) = edits := by
  refine List.filter_eq_self.mpr fun edit member => ?_
  have later := behind edit member
  simp only [endsBy, Bool.not_eq_true', decide_eq_false_iff_not]
  omega

/-- Edits that lie behind a position leave what stands before it. -/
theorem applyFrom_eq_append_of_behind (reached : low ≤ position)
    (behind : ∀ edit ∈ edits, position ≤ edit.start ∧ position < edit.stop)
    (stops : ∀ edit ∈ edits, edit.start ≤ edit.stop) :
    applyFrom low edits rest =
      applyFrom low (edits.filter (endsBy position)) (rest.take (position - low)) ++
        applyFrom position (edits.filter fun edit => !edit.endsBy position)
          (rest.drop (position - low)) := by
  have distance : low + (position - low) = position := by omega
  have split : applyFrom low edits rest = rest.take (position - low) ++
      applyFrom (low + (position - low)) edits (rest.drop (position - low)) :=
    applyFrom_of_le (fun edit member => by rw [distance]; exact (behind edit member).1) stops
  rw [filter_endsBy_eq_nil fun edit member => (behind edit member).2,
    filter_not_endsBy_eq_self fun edit member => (behind edit member).2, split, distance,
    applyFrom_nil]

/-- Edits that keep apart from a position rewrite what stands before it and what stands
behind it by themselves. -/
theorem applyFrom_eq_append (ordered : OrderedFrom (low + rest.length) low edits)
    (reached : low ≤ position)
    (apart : ∀ edit ∈ edits, edit.stop ≤ position ∨ position ≤ edit.start) :
    applyFrom low edits rest =
      applyFrom low (edits.filter (endsBy position)) (rest.take (position - low)) ++
        applyFrom position (edits.filter fun edit => !edit.endsBy position)
          (rest.drop (position - low)) := by
  induction edits generalizing low rest with
  | nil => simp [List.take_append_drop]
  | cons edit edits inductionHypothesis =>
      by_cases ends : edit.endsBy position = true
      · have stopped : edit.stop ≤ position := by simpa [endsBy] using ends
        obtain ⟨starts, stops, others⟩ := ordered
        have inside := others.position_le
        have here : low + rest.length = edit.stop + (rest.drop (edit.stop - low)).length := by
          rw [List.length_drop]
          omega
        have split := inductionHypothesis (here ▸ others) stopped fun other member =>
          apart other (List.mem_cons_of_mem _ member)
        have keptTake : (rest.take (position - low)).take (edit.start - low) =
            rest.take (edit.start - low) := by
          rw [List.take_take]
          congr 1
          omega
        have keptDrop : (rest.take (position - low)).drop (edit.stop - low) =
            (rest.drop (edit.stop - low)).take (position - edit.stop) := by
          rw [List.drop_take]
          congr 1
          omega
        have dropped : (rest.drop (edit.stop - low)).drop (position - edit.stop) =
            rest.drop (position - low) := by
          rw [List.drop_drop]
          congr 1
          omega
        rw [List.filter_cons_of_pos ends, List.filter_cons_of_neg (by simp [ends]), applyFrom,
          applyFrom, split, keptTake, keptDrop, dropped]
        simp only [List.append_assoc]
      · have later : position ≤ edit.start ∧ position < edit.stop := by
          have bounds := apart edit (List.mem_cons_self ..)
          simp only [endsBy, decide_eq_true_eq] at ends
          omega
        have behind : ∀ other ∈ edit :: edits, position ≤ other.start ∧ position < other.stop := by
          intro other member
          rcases List.mem_cons.mp member with rfl | member
          · exact later
          · have bounds := ordered.2.2.bounds member
            omega
        exact applyFrom_eq_append_of_behind reached behind fun other member =>
          (ordered.bounds member).2

theorem furthest_cons (low : Nat) (edit : Edit) (edits : List Edit) :
    furthest low (edit :: edits) = max edit.stop (furthest low edits) := rfl

/-- The end of the last edit is looked for behind the first one. -/
theorem furthest_cons_of_le {edit : Edit} (reached : low ≤ edit.stop) (edits : List Edit) :
    furthest low (edit :: edits) = furthest edit.stop edits := by
  induction edits with
  | nil => exact Nat.max_eq_left reached
  | cons other edits inductionHypothesis =>
      rw [furthest_cons] at inductionHypothesis
      rw [furthest_cons, furthest_cons, furthest_cons, ← inductionHypothesis, ← Nat.max_assoc,
        ← Nat.max_assoc, Nat.max_comm edit.stop]

theorem le_furthest {edit : Edit} (member : edit ∈ edits) : edit.stop ≤ furthest low edits := by
  induction edits with
  | nil => cases member
  | cons other edits inductionHypothesis =>
      rw [furthest_cons]
      rcases List.mem_cons.mp member with rfl | member
      · exact Nat.le_max_left _ _
      · exact Nat.le_trans (inductionHypothesis member) (Nat.le_max_right _ _)

theorem furthest_lt {bound : Nat} (reached : low < bound)
    (before : ∀ edit ∈ edits, edit.stop < bound) : furthest low edits < bound := by
  induction edits with
  | nil => exact reached
  | cons edit edits inductionHypothesis =>
      rw [furthest_cons]
      exact Nat.max_lt.mpr ⟨before edit (List.mem_cons_self ..),
        inductionHypothesis fun other member => before other (List.mem_cons_of_mem _ member)⟩

theorem seam_le (edits : List Edit) (position : Nat) : seam edits position ≤ position := by
  unfold seam
  induction edits with
  | nil => exact Nat.zero_le _
  | cons edit edits inductionHypothesis =>
      by_cases ends : edit.endsBy position = true
      · rw [List.filter_cons_of_pos ends, furthest_cons]
        exact Nat.max_le.mpr ⟨by simpa [endsBy] using ends, inductionHypothesis⟩
      · rwa [List.filter_cons_of_neg ends]

/-- No edit before a position ends behind its seam. -/
theorem le_seam {edit : Edit} (member : edit ∈ edits) (ends : edit.stop ≤ position) :
    edit.stop ≤ seam edits position :=
  le_furthest (mem_filter_endsBy member ends)

/-- If no edit ends at a position, there is nothing to read before its seam or something
behind it. -/
theorem rewritten_eq_nil_or_seam_lt
    (before : ∀ edit ∈ edits, edit.stop ≤ position → edit.stop < position) :
    rewritten edits text position = [] ∨ seam edits position < position := by
  have strictly : ∀ edit ∈ edits.filter (endsBy position), edit.stop < position := by
    intro edit kept
    obtain ⟨member, ends⟩ := of_mem_filter_endsBy kept
    exact before edit member ends
  unfold rewritten seam
  cases kept : edits.filter (endsBy position) with
  | nil => exact .inl rfl
  | cons edit others =>
      rw [kept] at strictly
      have positive := strictly edit (List.mem_cons_self ..)
      exact .inr (furthest_lt (by omega) strictly)

theorem filter_endsBy_seam (edits : List Edit) (position : Nat) :
    edits.filter (endsBy (seam edits position)) = edits.filter (endsBy position) := by
  refine List.filter_congr fun edit member => ?_
  have bounded := seam_le edits position
  have reached : edit.stop ≤ position → edit.stop ≤ seam edits position := le_seam member
  simp only [endsBy, decide_eq_decide]
  exact ⟨fun ends => Nat.le_trans ends bounded, reached⟩

/-- Ordered edits leave a stretch that they keep apart from as it is, from its seam on. -/
theorem applyAll_eq_append {start stop : Nat} (ordered : Ordered text edits)
    (apart : ∀ edit ∈ edits, edit.stop ≤ start ∨ stop ≤ edit.start) (forward : start ≤ stop) :
    ∃ right, applyAll edits text = rewritten edits text start ++
      ((text.drop (seam edits start)).take (stop - seam edits start) ++ right) := by
  have bounded := seam_le edits start
  have apartSeam : ∀ edit ∈ edits,
      edit.stop ≤ seam edits start ∨ seam edits start ≤ edit.start := by
    intro edit member
    rcases apart edit member with before | behind
    · exact .inl (le_seam member before)
    · exact .inr (by omega)
  have later : ∀ edit ∈ edits.filter fun edit => !edit.endsBy (seam edits start),
      seam edits start + (stop - seam edits start) ≤ edit.start := by
    intro edit kept
    obtain ⟨member, notBefore⟩ := List.mem_filter.mp kept
    simp only [endsBy, Bool.not_eq_true', decide_eq_false_iff_not] at notBefore
    rcases apart edit member with before | behind
    · exact absurd (le_seam member before) notBefore
    · omega
  have split : applyAll edits text = _ ++ _ :=
    applyFrom_eq_append (by rwa [Nat.zero_add]) (Nat.zero_le _) apartSeam
  rw [Nat.sub_zero, filter_endsBy_seam, applyFrom_of_le later fun edit kept =>
    (ordered.bounds (List.mem_filter.mp kept).1).2] at split
  exact ⟨_, split⟩

/-- Ordered edits that end before a position are in order there. -/
theorem OrderedFrom.filter_endsBy (ordered : OrderedFrom length low edits)
    (reached : low ≤ position) : OrderedFrom position low (edits.filter (endsBy position)) := by
  induction edits generalizing low with
  | nil => exact reached
  | cons edit edits inductionHypothesis =>
      obtain ⟨starts, stops, others⟩ := ordered
      by_cases ends : edit.endsBy position = true
      · rw [List.filter_cons_of_pos ends]
        exact ⟨starts, stops, inductionHypothesis others (by simpa [endsBy] using ends)⟩
      · rw [List.filter_cons_of_neg ends]
        exact inductionHypothesis (others.weaken (Nat.le_trans starts stops)) reached

theorem OrderedFrom.extend {longer : Nat} (ordered : OrderedFrom length low edits)
    (inside : length ≤ longer) : OrderedFrom longer low edits := by
  induction edits generalizing low with
  | nil => exact Nat.le_trans ordered inside
  | cons edit edits inductionHypothesis =>
      obtain ⟨starts, stops, others⟩ := ordered
      exact ⟨starts, stops, inductionHypothesis others⟩

/-- Ordered edits that are as wide as what they replace keep the length of the text. -/
theorem length_applyFrom (ordered : OrderedFrom (low + rest.length) low edits)
    (even : ∀ edit ∈ edits, edit.start + edit.text.length = edit.stop) :
    (applyFrom low edits rest).length = rest.length := by
  induction edits generalizing low rest with
  | nil => rfl
  | cons edit edits inductionHypothesis =>
      obtain ⟨starts, stops, others⟩ := ordered
      have inside := others.position_le
      have width := even edit (List.mem_cons_self ..)
      have here : low + rest.length = edit.stop + (rest.drop (edit.stop - low)).length := by
        rw [List.length_drop]
        omega
      have behind := inductionHypothesis (here ▸ others) fun other member =>
        even other (List.mem_cons_of_mem _ member)
      rw [applyFrom, List.length_append, List.length_append, behind, List.length_take,
        List.length_drop]
      omega

/-- Such edits leave every position where it is. -/
theorem length_rewritten (ordered : Ordered text edits) (inside : position ≤ text.length)
    (even : ∀ edit ∈ edits, edit.start + edit.text.length = edit.stop) :
    (rewritten edits text position).length = seam edits position := by
  have bounded := seam_le edits position
  have taken : (text.take (seam edits position)).length = seam edits position := by
    rw [List.length_take]
    omega
  have before : OrderedFrom (seam edits position) 0 (edits.filter (endsBy position)) := by
    rw [← filter_endsBy_seam]
    exact ordered.filter_endsBy (Nat.zero_le _)
  rw [rewritten, applyAll, length_applyFrom, taken]
  · rwa [taken, Nat.zero_add]
  · exact fun edit kept => even edit (List.mem_filter.mp kept).1

end Edit

end Desugar

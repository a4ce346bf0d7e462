import Desugar.Proofs.Lexer.Lookahead
import Desugar.Proofs.Pass.Order

/-!
# Rewriting from left to right

A pass is a list of edits at positions of its source. `Rewrites` says the same without
positions: a text is read from left to right, each match that a rule claims in code is
replaced and jumped over, and every other character is kept. `Rule.Replaces.rewrites_iff`
says that the two agree.

What a rewritten text looks like then follows by induction over `Rewrites`. If every match
and every replacement begin with the same character, the text looks the same to whatever is
read before it (`Rewrites.alike`), and up to the next such character it is the same
(`Rewrites.exists_of_append`).
-/

namespace Desugar

open Reading

variable {Item : Type} {rule : Rule Item} {replacement : Item → Text} {width : Item → Nat}
  {edit? : Nat → Item → Option Edit}

/-- The reading behind a match that begins with `c` and is jumped over: of the match, only
its first character has been read. -/
def Reading.beyond (reading : Reading) (c : Char) (matched behind : Text) : Reading :=
  ⟨.fresh, (reading.step c (matched ++ behind)).2.nesting, (c :: matched).getLast?⟩

/-- From a reading on, a text is rewritten into another: the matches of a rule are replaced,
all else is kept. -/
inductive Rewrites (rule : Rule Item) (replacement : Item → Text) :
    (reading : Reading) → (source result : Text) → Prop where
  | nil (reading : Reading) : Rewrites rule replacement reading [] []
  | keep {reading : Reading} {c : Char} {source result : Text}
      (unclaimed : (reading.step c source).1 = true → rule reading.previous (c :: source) = none)
      (others : Rewrites rule replacement (reading.step c source).2 source result) :
      Rewrites rule replacement reading (c :: source) (c :: result)
  | replace {reading : Reading} {c : Char} {source result matched behind : Text} {item : Item}
      (divided : source = matched ++ behind) (isCode : (reading.step c source).1 = true)
      (claimed : rule reading.previous (c :: source) = some (item, matched.length + 1))
      (others : Rewrites rule replacement (reading.beyond c matched behind) behind result) :
      Rewrites rule replacement reading (c :: source) (replacement item ++ result)

/-- The last character of a text is looked for behind its first one. -/
theorem Text.getLast?_cons (c : Char) (text : Text) :
    (c :: text).getLast? = text.getLast?.or (some c) := by
  rw [← List.singleton_append, List.getLast?_append, List.getLast?_singleton]

namespace Cursor

/-- Characters that are still to be passed over may be dropped. -/
theorem collect_eq_drop (pending : Nat) (previous : Option Char) (cursor : Cursor) (rest : Text) :
    collect rule pending previous cursor rest =
      collect rule 0 ((rest.take pending).getLast?.or previous)
        ⟨cursor.position + pending, cursor.nesting⟩ (rest.drop pending) := by
  induction rest generalizing pending previous cursor with
  | nil => simp [collect]
  | cons c rest inductionHypothesis =>
      cases pending with
      | zero => rfl
      | succ pending =>
          have last : ((c :: rest).take (pending + 1)).getLast?.or previous =
              (rest.take pending).getLast?.or (some c) := by
            rw [List.take_succ_cons, Text.getLast?_cons, Option.or_assoc, Option.some_or]
          rw [collect, inductionHypothesis, last, List.drop_succ_cons, Nat.add_right_comm,
            Nat.add_assoc]

end Cursor

namespace Reading

variable {reading : Reading} {c : Char} {rest matched behind : Text} {item : Item}

/-- A match that begins with a plain character stands in code, and leaves open what was open. -/
theorem beyond_of_plain (ordinary : isPlain c = true) (inLine : c ≠ '\n')
    (isCode : (reading.step c (matched ++ behind)).1 = true) :
    reading.mode = .fresh ∧ InCode reading.nesting ∧
      reading.beyond c matched behind =
        ⟨.fresh, reading.nesting, (c :: matched).getLast?⟩ := by
  obtain ⟨fresh, inCode⟩ := of_step_code isCode inLine
  refine ⟨fresh, inCode, ?_⟩
  rw [beyond, step_of_plain ordinary fresh inCode]

/-- Where a rule claims nothing in code, it is asked further on. -/
theorem claims_of_unclaimed
    (unclaimed : (reading.step c rest).1 = true → rule reading.previous (c :: rest) = none)
    (position : Nat) :
    reading.claims rule position (c :: rest) =
      (reading.step c rest).2.claims rule (position + 1) rest := by
  rw [claims_cons]
  split
  · next isCode => rw [unclaimed isCode]
  · rfl

/-- Where a rule claims a match in code, it is asked again behind it. -/
theorem claims_of_claimed (isCode : (reading.step c (matched ++ behind)).1 = true)
    (claimed : rule reading.previous (c :: (matched ++ behind)) =
      some (item, matched.length + 1)) (position : Nat) :
    reading.claims rule position (c :: (matched ++ behind)) =
      (position, item) :: (reading.beyond c matched behind).claims rule
        (position + (matched.length + 1)) behind := by
  simp only [claims_cons, isCode, claimed, if_true, Nat.add_sub_cancel]
  rw [Cursor.collect_eq_drop, List.take_left, List.drop_left, ← Text.getLast?_cons,
    Nat.add_assoc, Nat.add_comm 1]
  rfl

end Reading

namespace Edit

/-- Edits inside a stretch are applied to the stretch, and later ones to what comes behind. -/
theorem applyFrom_append {first others : List Edit} {position width : Nat} {rest : Text}
    (ordered : OrderedFrom (position + width) position first)
    (later : ∀ edit ∈ others, position + width ≤ edit.start)
    (stops : ∀ edit ∈ others, edit.start ≤ edit.stop) :
    applyFrom position (first ++ others) rest =
      applyFrom position first (rest.take width) ++
        applyFrom (position + width) others (rest.drop width) := by
  induction first generalizing position width rest with
  | nil => exact applyFrom_of_le later stops
  | cons edit first inductionHypothesis =>
      obtain ⟨starts, ends, ordered⟩ := ordered
      have inside := ordered.position_le
      obtain ⟨distance, reached⟩ := Nat.exists_eq_add_of_le inside
      have within : width = (edit.stop - position) + distance := by omega
      rw [reached] at ordered later ⊢
      have kept : (rest.take width).take (edit.start - position) =
          rest.take (edit.start - position) := by
        rw [List.take_take, Nat.min_eq_left (by omega)]
      have further : (rest.take width).drop (edit.stop - position) =
          (rest.drop (edit.stop - position)).take distance := by
        rw [List.drop_take, within, Nat.add_sub_cancel_left]
      have behind : rest.drop width = (rest.drop (edit.stop - position)).drop distance := by
        rw [List.drop_drop, within]
      rw [List.cons_append, applyFrom, applyFrom, kept, further, behind,
        inductionHypothesis ordered later]
      simp only [List.append_assoc]

end Edit

/-- The edits that are made for the matches of a rule replace each of them. -/
structure Rule.Replaces (rule : Rule Item) (width : Item → Nat)
    (edit? : Nat → Item → Option Edit) (replacement : Item → Text) : Prop where
  fits : rule.Fits width
  within : ∀ position item edit, edit? position item = some edit →
    position ≤ edit.start ∧ edit.start ≤ edit.stop ∧ edit.stop ≤ position + width item
  replaced : ∀ previous rest item found, rule previous rest = some (item, found) →
    ∀ position, Edit.applyFrom position (edit? position item).toList (rest.take found) =
      replacement item

namespace Rule.Replaces

/-- The edit for a match, if any, lies inside the match. -/
theorem orderedFrom_edit? (replaces : rule.Replaces width edit? replacement) (position : Nat)
    (item : Item) :
    Edit.OrderedFrom (position + width item) position (edit? position item).toList := by
  cases made : edit? position item with
  | none => exact Nat.le_add_right _ _
  | some edit => exact replaces.within position item edit made

/-- The edits for what a rule claims in a text lie in the text, one behind the other. -/
theorem orderedFrom_claims (replaces : rule.Replaces width edit? replacement)
    (reading : Reading) (position : Nat) (text : Text) :
    Edit.OrderedFrom (position + text.length) position
      ((reading.claims rule position text).filterMap fun found => edit? found.1 found.2) :=
  Edit.orderedFrom_collect replaces.fits replaces.within rfl (Nat.le_add_right _ _)
    (Nat.le_add_right _ _)

end Rule.Replaces

namespace Rewrites

/-- Every text is rewritten into one. -/
theorem exists_result (fits : rule.Fits width) (replacement : Item → Text) (reading : Reading)
    (source : Text) : ∃ result, Rewrites rule replacement reading source result := by
  generalize size : source.length = bound
  induction bound using Nat.strongRecOn generalizing reading source with
  | ind bound inductionHypothesis =>
      cases source with
      | nil => exact ⟨[], .nil reading⟩
      | cons c source =>
          rw [List.length_cons] at size
          have kept (unclaimed : (reading.step c source).1 = true →
              rule reading.previous (c :: source) = none) :
              ∃ result, Rewrites rule replacement reading (c :: source) result := by
            obtain ⟨result, others⟩ := inductionHypothesis source.length (by omega)
              (reading.step c source).2 source rfl
            exact ⟨c :: result, .keep unclaimed others⟩
          cases isCode : (reading.step c source).1 with
          | false => exact kept fun code => absurd (isCode.symm.trans code) nofun
          | true =>
              cases claimed : rule reading.previous (c :: source) with
              | none => exact kept fun _ => claimed
              | some found =>
                  obtain ⟨item, found⟩ := found
                  obtain ⟨_, positive, bounded⟩ := fits _ _ _ _ claimed
                  rw [List.length_cons] at bounded
                  have divided := (List.take_append_drop (found - 1) source).symm
                  have matched : found = (source.take (found - 1)).length + 1 := by
                    rw [List.length_take]
                    omega
                  have shorter : (source.drop (found - 1)).length < bound := by
                    rw [List.length_drop]
                    omega
                  obtain ⟨result, others⟩ := inductionHypothesis _ shorter
                    (reading.beyond c (source.take (found - 1)) (source.drop (found - 1))) _ rfl
                  rw [matched] at claimed
                  exact ⟨replacement item ++ result, .replace divided isCode claimed others⟩

variable {reading : Reading} {source result : Text}

/-- A text is rewritten by applying the edits that are made for what the rule claims. -/
theorem applyFrom_claims (replaces : rule.Replaces width edit? replacement)
    (rewrites : Rewrites rule replacement reading source result) (position : Nat) :
    Edit.applyFrom position
        ((reading.claims rule position source).filterMap fun found => edit? found.1 found.2)
        source = result := by
  induction rewrites generalizing position with
  | nil reading => rfl
  | @keep reading c source result unclaimed others inductionHypothesis =>
      have ordered := replaces.orderedFrom_claims (reading.step c source).2 (position + 1) source
      rw [claims_of_unclaimed unclaimed,
        Edit.applyFrom_of_le (fun edit member => (ordered.bounds member).1)
          fun edit member => (ordered.bounds member).2]
      exact congrArg (c :: ·) (inductionHypothesis (position + 1))
  | @replace reading c source result matched behind item divided isCode claimed others
      inductionHypothesis =>
      subst divided
      have spans : matched.length + 1 = width item := (replaces.fits _ _ _ _ claimed).1
      have first := replaces.orderedFrom_edit? position item
      have ordered := replaces.orderedFrom_claims (reading.beyond c matched behind)
        (position + width item) behind
      have edits : (reading.claims rule position (c :: (matched ++ behind))).filterMap
            (fun found => edit? found.1 found.2) =
          (edit? position item).toList ++
            ((reading.beyond c matched behind).claims rule (position + width item)
              behind).filterMap fun found => edit? found.1 found.2 := by
        rw [claims_of_claimed isCode claimed, spans, List.filterMap_cons]
        cases edit? position item <;> rfl
      have stretch := replaces.replaced _ _ _ _ claimed position
      rw [spans] at stretch
      rw [edits, Edit.applyFrom_append first (fun edit member => (ordered.bounds member).1)
        fun edit member => (ordered.bounds member).2, stretch]
      have behindMatch : (c :: (matched ++ behind)).drop (width item) = behind := by
        rw [← spans, List.drop_succ_cons, List.drop_left]
      rw [behindMatch, inductionHypothesis]

end Rewrites

/-- The edits that are made for the matches of a rule in a source rewrite it from left to
right. -/
theorem Rule.Replaces.rewrites_iff (replaces : rule.Replaces width edit? replacement)
    {source result : Text} :
    Rewrites rule replacement Reading.start source result ↔
      Edit.applyAll ((source.scan rule).filterMap fun found => edit? found.1 found.2) source =
        result := by
  have applied {result : Text} (rewrites : Rewrites rule replacement Reading.start source result) :
      Edit.applyAll ((source.scan rule).filterMap fun found => edit? found.1 found.2) source =
        result :=
    rewrites.applyFrom_claims replaces 0
  refine ⟨applied, fun same => ?_⟩
  obtain ⟨other, rewrites⟩ := Rewrites.exists_result replaces.fits replacement Reading.start source
  rwa [← same, applied rewrites]

/-- What a rule claims begins with `opening`, and so does every replacement. -/
structure Rule.Opens (rule : Rule Item) (replacement : Item → Text) (opening : Char) : Prop where
  claims : ∀ previous rest found, rule previous rest = some found → rest.head? = some opening
  replaces : ∀ item, (replacement item).head? = some opening

/-- A rule claims nothing at any other character. -/
theorem Rule.Opens.unclaimed {opening c : Char} (opens : rule.Opens replacement opening)
    (other : c ≠ opening) (previous : Option Char) (rest : Text) :
    rule previous (c :: rest) = none :=
  Option.eq_none_iff_forall_ne_some.mpr fun _ claimed =>
    other (Option.some.inj (opens.claims _ _ _ claimed))

namespace Rewrites

variable {opening : Char} {reading : Reading} {source result : Text}

/-- A stretch in whose code a rule claims nothing is kept. -/
theorem append {stretch : Text}
    (unclaimed : ∀ before c after, stretch = before ++ c :: after →
      ((reading.after before (c :: (after ++ source))).step c (after ++ source)).1 = true →
        rule (reading.after before (c :: (after ++ source))).previous
          (c :: (after ++ source)) = none)
    (others : Rewrites rule replacement (reading.after stretch source) source result) :
    Rewrites rule replacement reading (stretch ++ source) (stretch ++ result) := by
  induction stretch generalizing reading with
  | nil => exact others
  | cons d stretch inductionHypothesis =>
      refine .keep (unclaimed [] d stretch rfl) (inductionHypothesis ?_ others)
      rintro before c after rfl
      have later := unclaimed (d :: before) c after rfl
      rwa [after_cons, ← List.cons_append, ← List.append_assoc] at later

/-- A match and its replacement begin with the same character. -/
theorem head?_eq (opens : rule.Opens replacement opening)
    (rewrites : Rewrites rule replacement reading source result) :
    result.head? = source.head? := by
  cases rewrites with
  | nil => rfl
  | keep unclaimed others => rfl
  | @replace _ c source result matched behind item divided isCode claimed others =>
      rw [List.head?_append, opens.replaces item, opens.claims _ _ _ claimed]
      rfl

/-- A rewritten text looks like its source to whatever is read before it. -/
theorem alike (opens : rule.Opens replacement opening) (noQuote : isQuote opening = false)
    (rewrites : Rewrites rule replacement reading source result) : Alike source result := by
  induction rewrites with
  | nil reading => exact ⟨Iff.rfl, Iff.rfl, rfl, rfl⟩
  | keep unclaimed others inductionHypothesis => exact inductionHypothesis.cons _
  | @replace _ c source result matched behind item divided isCode claimed others =>
      obtain ⟨tail, begins⟩ := List.head?_eq_some_iff.mp (opens.replaces item)
      obtain ⟨_, same⟩ := List.head?_eq_some_iff.mp (opens.claims _ _ _ claimed)
      rw [begins, same]
      exact .of_head noQuote _ _

/-- Up to the first character with which a match could begin, a rewritten text is its
source. -/
theorem exists_of_append (opens : rule.Opens replacement opening) {piece behind : Text}
    (absent : opening ∉ piece)
    (rewrites : Rewrites rule replacement reading source (piece ++ behind)) :
    ∃ rest later, source = piece ++ rest ∧ Rewrites rule replacement later rest behind := by
  induction piece generalizing reading source with
  | nil => exact ⟨source, reading, rfl, rewrites⟩
  | cons c piece inductionHypothesis =>
      obtain ⟨different, others⟩ := not_or.mp (mt List.mem_cons.mpr absent)
      generalize shape : c :: piece ++ behind = result at rewrites
      cases rewrites with
      | nil => cases shape
      | keep unclaimed rewrites =>
          cases shape
          obtain ⟨rest, later, rfl, further⟩ := inductionHypothesis others rewrites
          exact ⟨rest, later, rfl, further⟩
      | @replace _ _ _ result matched after item divided isCode claimed rewrites =>
          obtain ⟨tail, begins⟩ := List.head?_eq_some_iff.mp (opens.replaces item)
          rw [begins] at shape
          exact absurd (List.cons.inj shape).1.symm different

end Rewrites

end Desugar

import Desugar.Proofs.Indexed.Access
import Desugar.Proofs.Lexer.Uses

/-!
# Walks by positions

A walk by positions looks up one character after another, and counts the braces that are open in
an interpolation with 32 bits. It can fail in two ways (`Fault`): an access is out of range, or
the count does not fit. `EndsUnless` says that a run ends with a value, unless the count overflows
for a given reason, and is carried through a run step by step (`EndsUnless.bind`).

`Cursor.nextAt` and `Cursor.gather` walk a text in this way. `Cursor.nextAt_endsUnless` and
`Cursor.gather_endsUnless` say that their accesses are in range in every text, and that the count
overflows only in a text that has more opening braces than 32 bits count (`Text.ManyBraces`):
behind any position, an interpolation has no more braces open than have been read
(`Cursor.Counted`).
-/

namespace Desugar

/-- Why a run by positions fails. -/
inductive Fault where
  /-- There is nothing to look up, to cut out or to subtract from. -/
  | outOfRange
  /-- A number does not fit into its bits. -/
  | overflow
  deriving DecidableEq, Repr

/-- What is looked up or cut out, or the failure to do so. -/
def inRange {Value : Type} : Option Value → Except Fault Value
  | some value => .ok value
  | none => .error .outOfRange

/-- A run by positions ends with a value. Nothing but an overflow keeps it from that, and only
for the given reason. -/
inductive EndsUnless {Value : Type} (reason : Prop) (run : Except Fault Value) (value : Value) :
    Prop where
  | done (ends : run = .ok value) : EndsUnless reason run value
  | overflowed (stops : run = .error .overflow) (because : reason) : EndsUnless reason run value

namespace EndsUnless

variable {Value Result : Type} {reason other : Prop} {run : Except Fault Value} {value : Value}

/-- A run that goes on from a value ends if both of its parts do. -/
theorem bind {next : Value → Except Fault Result} {result : Result}
    (first : EndsUnless reason run value) (second : EndsUnless reason (next value) result) :
    EndsUnless reason (run.bind next) result := by
  cases first with
  | done ends =>
      rw [ends]
      exact second
  | overflowed stops because =>
      rw [stops]
      exact .overflowed rfl because

theorem map (first : EndsUnless reason run value) (next : Value → Result) :
    EndsUnless reason (run.map next) (next value) := by
  cases first with
  | done ends =>
      rw [ends]
      exact .done rfl
  | overflowed stops because =>
      rw [stops]
      exact .overflowed rfl because

theorem weaken (ends : EndsUnless reason run value) (widen : reason → other) :
    EndsUnless other run value := by
  cases ends with
  | done ends => exact .done ends
  | overflowed stops because => exact .overflowed stops (widen because)

end EndsUnless

/-- A text with more opening braces than 32 bits count. -/
def Text.ManyBraces (text : Text) : Prop :=
  UInt32.size ≤ text.count '{'

/-- The number of characters that a verdict is about. -/
def Verdict.width : Verdict → Nat
  | .skip width => width
  | .code => 1

namespace Nesting

/-- Visit a character with the one after it, where the number of braces that are open is kept
in 32 bits: an opening brace raises it, and a closing one lowers it. -/
def visitAt : Nesting → Char → Option Char → Except Fault (Verdict × Nesting)
  | [], c, _ => if c = '"' then .ok (.skip 1, [0]) else .ok (.code, [])
  | depth :: outer, c, next =>
      if depth = 0 then
        if c = '\\' && next.isSome then .ok (.skip 2, depth :: outer)
        else if c = '#' && next = some '{' then .ok (.skip 2, 1 :: outer)
        else if c = '"' then .ok (.skip 1, outer)
        else .ok (.skip 1, depth :: outer)
      else if c = '"' then .ok (.skip 1, 0 :: depth :: outer)
      else if c = '{' then
        if depth + 1 < UInt32.size then .ok (.code, (depth + 1) :: outer) else .error .overflow
      else if c = '}' then
        (inRange (difference? depth 1)).map fun left =>
          (if depth = 1 then .skip 1 else .code, left :: outer)
      else .ok (.code, depth :: outer)

variable {nesting after : Nesting} {c : Char} {next : Option Char} {verdict : Verdict}

/-- A visit fails only at an opening brace that makes the count overflow. -/
theorem visitAt_endsUnless (nesting : Nesting) (c : Char) (next : Option Char) :
    EndsUnless (c = '{' ∧ ∃ depth ∈ nesting, UInt32.size ≤ depth + 1) (nesting.visitAt c next)
      (nesting.visit c next) := by
  cases nesting with
  | nil =>
      rw [visitAt, visit]
      split <;> exact .done rfl
  | cons depth outer =>
      cases depth with
      | zero =>
          rw [visitAt, visit, if_pos rfl]
          split
          · exact .done rfl
          · split
            · exact .done rfl
            · split <;> exact .done rfl
      | succ depth =>
          rw [visitAt, visit, if_neg (Nat.succ_ne_zero depth)]
          split
          · exact .done rfl
          · split
            · next brace =>
              by_cases fits : depth + 1 + 1 < UInt32.size
              · rw [if_pos fits]
                exact .done rfl
              · rw [if_neg fits]
                exact .overflowed rfl
                  ⟨brace, depth + 1, List.mem_cons_self, Nat.le_of_not_lt fits⟩
            · split
              · have lowered : difference? (depth + 1) 1 = some depth :=
                  difference?_of_le (Nat.succ_le_succ (Nat.zero_le depth))
                rw [lowered]
                cases depth <;> exact .done rfl
              · exact .done rfl

/-- A visit that skips anything goes ahead. -/
theorem pos_of_visitAt {width : Nat} (visited : nesting.visitAt c next = .ok (.skip width, after)) :
    0 < width := by
  cases nesting.visitAt_endsUnless c next with
  | done ends =>
      rw [visited] at ends
      rcases visit_width (Except.ok.inj ends).symm with rfl | rfl <;> decide
  | overflowed stops =>
      rw [visited] at stops
      cases stops

/-- A visit opens no more braces than it sees. -/
theorem le_count_of_visit {bound : Nat} (bounded : ∀ depth ∈ nesting, depth ≤ bound)
    (visited : nesting.visit c next = (verdict, after)) :
    ∀ depth ∈ after, depth ≤ bound + ((c :: next.toList).take verdict.width).count '{' := by
  have kept : ∀ depth ∈ nesting, depth ≤
      bound + ((c :: next.toList).take verdict.width).count '{' := fun depth member =>
    Nat.le_trans (bounded depth member) (Nat.le_add_right _ _)
  have topped {first : Nat} {outer : Nesting} (within : outer ⊆ nesting)
      (top : first ≤ bound + ((c :: next.toList).take verdict.width).count '{') :
      ∀ depth ∈ first :: outer, depth ≤
        bound + ((c :: next.toList).take verdict.width).count '{' :=
    List.forall_mem_cons.mpr ⟨top, fun depth member => kept depth (within member)⟩
  unfold visit at visited
  split at visited
  · split at visited
    · cases visited
      exact topped (List.Subset.refl _) (Nat.zero_le _)
    · cases visited
      exact nofun
  · next outer =>
    have outside := List.subset_cons_self 0 outer
    split at visited
    · cases visited
      exact kept
    · split at visited
      · next interpolated =>
        cases visited
        rw [Bool.and_eq_true, decide_eq_true_iff, decide_eq_true_iff] at interpolated
        obtain ⟨rfl, rfl⟩ := interpolated
        exact topped outside (Nat.le_add_left 1 bound)
      · split at visited
        · cases visited
          exact fun depth member => kept depth (outside member)
        · cases visited
          exact kept
  · next depth outer =>
    have outside := List.subset_cons_self (depth + 1) outer
    have top := bounded (depth + 1) List.mem_cons_self
    split at visited
    · cases visited
      exact topped (List.Subset.refl _) (Nat.zero_le _)
    · split at visited
      · next brace =>
        cases visited
        subst brace
        exact topped outside (Nat.succ_le_succ top)
      · split at visited
        · cases visited
          exact topped outside (Nat.le_trans (Nat.le_succ depth) (Nat.le_add_right_of_le top))
        · cases visited
          exact kept

end Nesting

/-- A region that starts inside the text ends behind its start. -/
theorem lt_of_regionEnd? {source : Text} {position stop : Nat} (inside : position < source.length)
    (region : regionEnd? source position = some stop) : position < stop := by
  rw [regionEnd?, if_neg (Nat.not_le_of_lt inside)] at region
  obtain ⟨width, found, rfl⟩ := Option.map_eq_some_iff.mp region
  have bounds := regionWidth?_bounds found
  omega

namespace Cursor

variable {source rest : Text} {cursor : Cursor} {c : Char} {verdict : Verdict}

/-- No interpolation has more braces open than stand behind the cursor. -/
def Counted (source : Text) (cursor : Cursor) : Prop :=
  ∀ depth ∈ cursor.nesting, depth ≤ (source.take cursor.position).count '{'

theorem counted_start (source : Text) : Counted source start := nofun

theorem Counted.move {nesting : Nesting} {position target : Nat}
    (counted : Counted source ⟨position, nesting⟩) (ahead : position ≤ target) :
    Counted source ⟨target, nesting⟩ := fun depth member =>
  Nat.le_trans (counted depth member) ((List.take_sublist_take_left ahead).count_le _)

theorem Counted.jumpTo (counted : Counted source cursor) (target : Nat) :
    Counted source (cursor.jumpTo target) :=
  counted.move (Nat.le_max_left _ _)

/-- The braces of a stretch are counted with those before it. -/
theorem count_take_add (source : Text) (position width : Nat) :
    (source.take (position + width)).count '{' =
      (source.take position).count '{' + ((source.drop position).take width).count '{' := by
  rw [List.take_add, List.count_append]

/-- A cursor stays counted when it visits a character and goes on behind what it sees. -/
theorem Counted.visit (counted : Counted source cursor)
    (here : source.drop cursor.position = c :: rest) {left : Nesting}
    (visited : cursor.nesting.visit c rest.head? = (verdict, left)) :
    Counted source ⟨cursor.position + verdict.width, left⟩ := by
  intro depth member
  have bounded := Nesting.le_count_of_visit counted visited depth member
  have seen : (c :: rest.head?.toList).take verdict.width = (c :: rest).take verdict.width := by
    have narrow : verdict.width ≤ 2 := by
      cases verdict with
      | code => exact Nat.le_succ 1
      | skip width =>
          rcases Nesting.visit_width visited with rfl | rfl <;> decide
    cases rest with
    | nil => rfl
    | cons d rest =>
        match verdict.width, narrow with
        | 0, _ | 1, _ | 2, _ => rfl
  rwa [count_take_add, here, ← seen]

/-- A cursor stays counted when it reads a character and goes on behind what is read. -/
theorem Counted.read (counted : Counted source cursor)
    (here : source.drop cursor.position = c :: rest) {left : Nesting}
    (read : cursor.nesting.read (source.before? cursor.position) c rest = (verdict, left)) :
    Counted source ⟨cursor.position + verdict.width, left⟩ := by
  obtain ⟨width, rfl, visited⟩ | ⟨visited, ⟨width, rfl, region⟩ | ⟨rfl, _⟩⟩ :=
    Nesting.read_cases read
  · exact counted.visit here visited
  · have behind : Counted source ⟨cursor.position + 1, left⟩ := counted.visit here visited
    exact behind.move (Nat.add_le_add_left (regionWidth?_bounds region).1 _)
  · exact counted.visit here visited

/-- A call for the next code position keeps a cursor counted. -/
theorem Rounds.counted {between : List Cursor} {answer : Option Nat × Cursor}
    (rounds : Rounds source cursor between answer) (counted : Counted source cursor) :
    Counted source answer.2 := by
  induction rounds with
  | ended => exact counted
  | found here read => exact counted.read here read
  | skipped here read _ inductionHypothesis => exact inductionHypothesis (counted.read here read)

theorem Counted.next (counted : Counted source cursor) : Counted source (cursor.next source).2 := by
  obtain ⟨between, rounds, _⟩ := exists_rounds source cursor
  exact rounds.counted counted

/-- The next code position of `source`, if any, and the cursor behind it, by looking up one
position after another. -/
def nextAt (source : Text) (cursor : Cursor) : Except Fault (Option Nat × Cursor) :=
  if inside : cursor.position < source.length then
    match source[cursor.position]? with
    | none => .error .outOfRange
    | some c =>
        match visited : cursor.nesting.visitAt c source[cursor.position + 1]? with
        | .error fault => .error fault
        | .ok (.skip width, after) =>
            have := Nesting.pos_of_visitAt visited
            nextAt source ⟨cursor.position + width, after⟩
        | .ok (.code, after) =>
            match region : regionEnd? source cursor.position with
            | some stop =>
                have := lt_of_regionEnd? inside region
                nextAt source ⟨stop, after⟩
            | none => .ok (some cursor.position, ⟨cursor.position + 1, after⟩)
  else .ok (none, cursor)
termination_by source.length - cursor.position

theorem nextAt_eq (here : source.drop cursor.position = c :: rest) :
    nextAt source cursor =
      (cursor.nesting.visitAt c rest.head?).bind fun
        | (.skip width, after) => nextAt source ⟨cursor.position + width, after⟩
        | (.code, after) =>
            match regionWidth? (source.before? cursor.position) (c :: rest) with
            | some width => nextAt source ⟨cursor.position + width, after⟩
            | none => .ok (some cursor.position, ⟨cursor.position + 1, after⟩) := by
  have inside := Text.lt_length_of_drop here
  have behind : source[cursor.position + 1]? = rest.head? := by
    rw [← List.head?_drop, Text.drop_succ_of_drop here]
  have region : regionEnd? source cursor.position =
      (regionWidth? (source.before? cursor.position) (c :: rest)).map (cursor.position + ·) := by
    rw [regionEnd?, if_neg (Nat.not_le_of_lt inside), here]
  rw [nextAt, dif_pos inside, Text.getElem?_of_drop here, ← behind]
  simp only
  split
  · next fault visited =>
    rw [visited]
    rfl
  · next width after visited =>
    rw [visited]
    rfl
  · next after visited =>
    rw [visited]
    simp only [Except.bind]
    split
    · next stop ends =>
      rw [region] at ends
      obtain ⟨width, found, rfl⟩ := Option.map_eq_some_iff.mp ends
      rw [found]
    · next nothing =>
      rw [region] at nothing
      rw [Option.map_eq_none_iff.mp nothing]

/-- If the count overflows at a brace, the text has too many of them. -/
theorem Counted.manyBraces (counted : Counted source cursor)
    (here : source.drop cursor.position = c :: rest)
    (overflows : c = '{' ∧ ∃ depth ∈ cursor.nesting, UInt32.size ≤ depth + 1) :
    source.ManyBraces := by
  obtain ⟨rfl, depth, member, large⟩ := overflows
  have total : source.count '{' =
      (source.take cursor.position).count '{' + (source.drop cursor.position).count '{' := by
    rw [← List.count_append, List.take_append_drop]
  rw [here, List.count_cons_self] at total
  have bounded := counted depth member
  rw [Text.ManyBraces]
  omega

/-- In its rounds, a call looks up what is there and finds what it is to find, unless the text
has too many braces to count. -/
theorem Rounds.endsUnless {between : List Cursor} {answer : Option Nat × Cursor}
    (rounds : Rounds source cursor between answer) (counted : Counted source cursor) :
    EndsUnless source.ManyBraces (nextAt source cursor) answer := by
  induction rounds with
  | @ended cursor nothing =>
      have outside : ¬ cursor.position < source.length :=
        Nat.not_lt.mpr (List.drop_eq_nil_iff.mp nothing)
      rw [nextAt, dif_neg outside]
      exact .done rfl
  | @found cursor c rest left here read =>
      rw [nextAt_eq here]
      refine ((cursor.nesting.visitAt_endsUnless c rest.head?).weaken
        (counted.manyBraces here)).bind ?_
      obtain ⟨_, skips, _⟩ | ⟨visited, ⟨_, skips, _⟩ | ⟨_, noRegion⟩⟩ := Nesting.read_cases read
      · cases skips
      · cases skips
      · simp only [visited, noRegion]
        exact .done rfl
  | @skipped cursor c rest left width between answer here read others inductionHypothesis =>
      have goesOn := inductionHypothesis (counted.read here read)
      rw [nextAt_eq here]
      refine ((cursor.nesting.visitAt_endsUnless c rest.head?).weaken
        (counted.manyBraces here)).bind ?_
      obtain ⟨_, skips, visited⟩ | ⟨visited, ⟨_, skips, region⟩ | ⟨codes, _⟩⟩ :=
        Nesting.read_cases read
      · cases skips
        simp only [visited]
        exact goesOn
      · cases skips
        simp only [visited, region]
        exact goesOn
      · cases codes

/-- Looking up positions one after another never leaves the text, and finds the next code
position, unless the text has too many braces to count. -/
theorem nextAt_endsUnless (counted : Counted source cursor) :
    EndsUnless source.ManyBraces (nextAt source cursor) (cursor.next source) := by
  obtain ⟨between, rounds, _⟩ := exists_rounds source cursor
  exact rounds.endsUnless counted

/-- A code position that is found lies in the text, at or behind the cursor. -/
theorem bounds_of_nextAt {position : Nat} {after : Cursor}
    (answered : nextAt source cursor = .ok (some position, after)) :
    cursor.position ≤ position ∧ position < source.length ∧ after.position = position + 1 := by
  fun_induction nextAt source cursor with
  | case1 cursor inside missing => cases answered
  | case2 cursor inside c character fault visited => cases answered
  | case3 cursor inside c character width left visited ahead inductionHypothesis =>
      have bounds := inductionHypothesis answered
      simp only at bounds
      omega
  | case4 cursor inside c character left visited stop region ahead inductionHypothesis =>
      have bounds := inductionHypothesis answered
      simp only at bounds
      omega
  | case5 cursor inside c character left visited nothing =>
      cases answered
      exact ⟨Nat.le_refl _, inside, rfl⟩
  | case6 cursor outside => cases answered

variable {Item Found : Type} {rule : Rule Item}

/-- Collect what is found at the code positions from the cursor on. At each of them `act`
tells what it finds there, if anything, and where to go on; a place that is already passed
changes nothing. The walk fails where `act` does. -/
def gather (source : Text) (act : Nat → Option (Option Found × Nat)) (cursor : Cursor) :
    Except Fault (List Found) :=
  match answered : nextAt source cursor with
  | .error fault => .error fault
  | .ok (none, _) => .ok []
  | .ok (some position, after) =>
      have := bounds_of_nextAt answered
      match act position with
      | none => .error .outOfRange
      | some (found, stop) =>
          (gather source act (after.jumpTo stop)).map fun others => found.toList ++ others
termination_by source.length - cursor.position
decreasing_by
  simp only [jumpTo]
  omega

theorem gather_eq (act : Nat → Option (Option Found × Nat)) :
    gather source act cursor =
      (nextAt source cursor).bind fun
        | (none, _) => .ok []
        | (some position, after) =>
            (inRange (act position)).bind fun (found, stop) =>
              (gather source act (after.jumpTo stop)).map fun others => found.toList ++ others := by
  rw [gather]
  split
  · next fault stops =>
    rw [stops]
    rfl
  · next answered =>
    rw [answered]
    rfl
  · next position after answered =>
    simp only [answered, Except.bind]
    cases act position <;> rfl

/-- What is found at the first code position from the cursor on where anything is. -/
def firstFound (source : Text) (act : Nat → Option (Option Found)) (cursor : Cursor) :
    Except Fault (Option Found) :=
  match answered : nextAt source cursor with
  | .error fault => .error fault
  | .ok (none, _) => .ok none
  | .ok (some position, after) =>
      have := bounds_of_nextAt answered
      match act position with
      | none => .error .outOfRange
      | some (some found) => .ok (some found)
      | some none => firstFound source act after
termination_by source.length - cursor.position

theorem firstFound_eq (act : Nat → Option (Option Found)) :
    firstFound source act cursor =
      (nextAt source cursor).bind fun
        | (none, _) => .ok none
        | (some position, after) =>
            (inRange (act position)).bind fun
              | some found => .ok (some found)
              | none => firstFound source act after := by
  rw [firstFound]
  split
  · next fault stops =>
    rw [stops]
    rfl
  · next answered =>
    rw [answered]
    rfl
  · next position after answered =>
    simp only [answered, Except.bind]
    cases act position with
    | none => rfl
    | some answer => cases answer <;> rfl

/-- A walk that never fails inside the text, and takes each position for what a rule makes of
it, collects what a scan by the rule does, unless the text has too many braces to count. -/
theorem gather_endsUnless {act : Nat → Option (Option Found × Nat)}
    {make : Nat → Item → Option Found}
    (acts : ∀ position < source.length, act position = some (answer source rule make position))
    (counted : Counted source cursor) :
    EndsUnless source.ManyBraces (gather source act cursor)
      ((cursor.scan rule source).filterMap fun found => make found.1 found.2) := by
  generalize remaining : source.length - cursor.position = bound
  induction bound using Nat.strongRecOn generalizing cursor with
  | ind bound inductionHypothesis =>
      have behind := counted.next
      rw [gather_eq, scan_eq]
      refine (nextAt_endsUnless counted).bind ?_
      rcases answered : cursor.next source with ⟨found, after⟩
      cases found with
      | none => exact .done rfl
      | some position =>
          rw [answered] at behind
          obtain ⟨reached, inside, passed⟩ := next_eq_some answered
          simp only [acts position inside]
          refine EndsUnless.bind (.done rfl) ?_
          cases claimed : rule (source.before? position) (source.drop position) with
          | none =>
              have stays : after.jumpTo position = after := by
                rw [jumpTo, Nat.max_eq_left (by omega)]
              have goesOn :=
                inductionHypothesis (source.length - after.position) (by omega) behind rfl
              simp only [answer_of_none claimed, stays]
              exact goesOn.map _
          | some claim =>
              obtain ⟨item, width⟩ := claim
              have shorter :
                  source.length - (after.jumpTo (position + width)).position < bound := by
                simp only [jumpTo]
                omega
              have goesOn := inductionHypothesis _ shorter (behind.jumpTo _) rfl
              simp only [answer_of_some claimed, List.filterMap_cons]
              cases make position item <;> exact goesOn.map _

/-- A walk that never fails inside the text, and takes each position for what a rule makes of
it, stops at the first thing that a scan by the rule finds, unless the text has too many braces
to count. -/
theorem firstFound_endsUnless {act : Nat → Option (Option Found)} (make : Nat → Item → Found)
    (acts : ∀ position < source.length, act position =
      some ((rule (source.before? position) (source.drop position)).map fun found =>
        make position found.1))
    (counted : Counted source cursor) :
    EndsUnless source.ManyBraces (firstFound source act cursor)
      ((cursor.scan rule source).head?.map fun found => make found.1 found.2) := by
  generalize remaining : source.length - cursor.position = bound
  induction bound using Nat.strongRecOn generalizing cursor with
  | ind bound inductionHypothesis =>
      have behind := counted.next
      rw [firstFound_eq, scan_eq]
      refine (nextAt_endsUnless counted).bind ?_
      rcases answered : cursor.next source with ⟨found, after⟩
      cases found with
      | none => exact .done rfl
      | some position =>
          rw [answered] at behind
          obtain ⟨reached, inside, passed⟩ := next_eq_some answered
          simp only [acts position inside]
          refine EndsUnless.bind (.done rfl) ?_
          cases rule (source.before? position) (source.drop position) with
          | none =>
              exact inductionHypothesis (source.length - after.position) (by omega) behind rfl
          | some claim => exact .done rfl

/-- Braces that follow one another in an interpolation overflow the count, if there are too many
and the walk finds nothing at them. -/
theorem gather_braces {act : Nat → Option (Option Found × Nat)}
    (quiet : ∀ position, source[position]? = some '{' → act position = some (none, position))
    {position depth count : Nat} {outer : Nesting}
    (here : source.drop position = List.replicate count '{') (inside : depth ≠ 0)
    (fits : depth < UInt32.size) (many : UInt32.size ≤ depth + count) :
    gather source act ⟨position, depth :: outer⟩ = .error .overflow := by
  induction count generalizing position depth with
  | zero => omega
  | succ count inductionHypothesis =>
      rw [List.replicate_succ] at here
      have noRegion : regionWidth? (source.before? position) ('{' :: List.replicate count '{') =
          none := rfl
      have notQuote : '{' ≠ '"' := by decide
      rw [gather_eq, nextAt_eq here, Nesting.visitAt, if_neg inside, if_neg notQuote, if_pos rfl]
      by_cases raised : depth + 1 < UInt32.size
      · have goesOn := inductionHypothesis (Text.drop_succ_of_drop here) (Nat.succ_ne_zero depth)
          raised (by omega)
        have stays (nesting : Nesting) :
            jumpTo ⟨position + 1, nesting⟩ position = ⟨position + 1, nesting⟩ := by
          rw [jumpTo, Nat.max_eq_left (Nat.le_succ position)]
        have nothing := quiet position (Text.getElem?_of_drop here)
        simp only [if_pos raised, Except.bind, noRegion, nothing, inRange, stays, goesOn,
          Except.map]
      · rw [if_neg raised]
        rfl

end Cursor

end Desugar

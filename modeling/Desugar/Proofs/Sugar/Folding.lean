import Mathlib.Data.List.SplitBy
import Desugar.Proofs.Pass.Quiet
import Desugar.Proofs.Pass.Rewriting
import Desugar.Proofs.Sugar.LexicalShape
import Desugar.Settings.Basic

/-!
# Folding symbol paths twice

A folded path is a call, and the call is read where the path was jumped over. Whether it holds
a path again depends on the constructor that is called. `ScopedName` describes the constructors
for which it does not: a name like `::Path.new`, which has no colon alone. Behind the call the
text is read as before, although a parenthesis stands before it in place of the last segment.
`SymbolPath.foldAll_foldAll` concludes that folding again changes nothing.
-/

namespace Desugar

open Reading

/-- A constructor whose name is looked up from the outermost scope on: it begins with two colons,
is made of words, dots and colons, and has no run of colons that is shorter than two. -/
structure ScopedName (constructor : Text) : Prop where
  outermost : [':', ':'] <+: constructor
  characters : ∀ c ∈ constructor, isWord c = true ∨ c = '.' ∨ c = ':'
  runs : ∀ run ∈ constructor.splitBy (· == ·), ':' ∈ run → 2 ≤ run.length

theorem scopedName_iff {constructor : Text} :
    ScopedName constructor ↔
      [':', ':'].isPrefixOf constructor = true ∧
        (constructor.all fun c => isWord c || c == '.' || c == ':') = true ∧
        ((constructor.splitBy (· == ·)).all fun run => !run.contains ':' || 2 ≤ run.length) =
          true := by
  simp only [List.isPrefixOf_iff_prefix, List.all_eq_true, Bool.or_eq_true, beq_iff_eq, or_assoc,
    Bool.not_eq_true', List.contains_eq_mem, decide_eq_false_iff_not, decide_eq_true_eq,
    ← imp_iff_not_or]
  exact ⟨fun ⟨outermost, characters, runs⟩ => ⟨outermost, characters, runs⟩,
    fun ⟨outermost, characters, runs⟩ => ⟨outermost, characters, runs⟩⟩

instance (constructor : Text) : Decidable (ScopedName constructor) :=
  decidable_of_iff _ scopedName_iff.symm

namespace ScopedName

variable {constructor : Text}

theorem isPlain_of_mem (named : ScopedName constructor) {c : Char} (member : c ∈ constructor) :
    isPlain c = true := by
  rcases named.characters c member with word | rfl | rfl
  · exact isPlain_of_isWord word
  · rfl
  · rfl

/-- A colon of the name has another one on one of its sides. -/
theorem colon_beside (named : ScopedName constructor) {left right : Text}
    (divided : constructor = left ++ ':' :: right) :
    left.getLast? = some ':' ∨ right.head? = some ':' := by
  refine Classical.byContradiction fun alone => ?_
  obtain ⟨notBefore, notBehind⟩ := not_or.mp alone
  have runs : constructor.splitBy (· == ·) =
      left.splitBy (· == ·) ++ [':'] :: right.splitBy (· == ·) := by
    rw [divided, List.splitBy_append_cons, ← List.singleton_append, List.splitBy_append]
    · rfl
    · rintro c ⟨⟩ d first
      rw [beq_eq_false_iff_ne]
      rintro rfl
      exact notBehind first
    · intro c last
      rw [beq_eq_false_iff_ne]
      rintro rfl
      exact notBefore last
  have short : 2 ≤ [':'].length := named.runs [':'] (by simp [runs]) (List.mem_singleton_self _)
  cases short with
  | step short => cases short

end ScopedName

namespace SymbolPath

variable {constructor : Text} {previous : Option Char} {rest : Text}

/-- A path is found at a colon that stands behind no colon and no word, and has a segment, a
further colon and the start of a further segment behind it. -/
theorem isSome_read?_iff :
    (read? previous (':' :: rest)).isSome = true ↔
      (previous.any fun c => c == ':' || isWord c) = false ∧
        ∃ segment more, rest = segment ++ ':' :: more ∧ segment ≠ [] ∧
          (∀ c ∈ segment, isSegment c = true) ∧ more.head?.any isSegment = true := by
  constructor
  · intro found
    obtain ⟨⟨segments, enough⟩, read⟩ := Option.isSome_iff_exists.mp found
    obtain ⟨alone, accepted, behind, here, -⟩ := read?_eq_some_iff.mp read
    rcases segments with _ | ⟨first, _ | ⟨second, others⟩⟩
    · cases enough
    · exact absurd enough (by simp)
    · obtain ⟨firstNonempty, firstAccepted⟩ := accepted first (by simp)
      obtain ⟨secondNonempty, secondAccepted⟩ := accepted second (by simp)
      have divided : rest = first ++ ':' :: (second ++ (chained others ++ behind)) := by
        simpa [written, chained] using here
      refine ⟨alone, first, _, divided, firstNonempty, firstAccepted, ?_⟩
      obtain ⟨c, second, rfl⟩ := List.exists_cons_of_ne_nil secondNonempty
      exact secondAccepted c (List.mem_cons_self ..)
  · rintro ⟨alone, segment, more, rfl, nonempty, accepted, starts⟩
    have further : readSegments more ≠ [] := by
      intro nothing
      rw [no_segment_of_readSegments nothing] at starts
      cases starts
    have enough : 2 ≤ (segment :: readSegments more).length :=
      Nat.succ_le_succ (List.length_pos_of_ne_nil further)
    have segments : readSegments (segment ++ ':' :: more) = segment :: readSegments more :=
      readSegments_append nonempty accepted rfl
    rw [read?, alone, if_neg (by decide), segments, ofSegments?, dif_pos enough]
    rfl

/-- A colon without a segment behind it starts no path. -/
theorem rule_of_no_segment (stops : rest.head?.any isSegment = false) :
    rule previous (':' :: rest) = none := by
  rw [rule, Option.map_eq_none_iff, ← Option.not_isSome_iff_eq_none, isSome_read?_iff]
  rintro ⟨-, segment, more, rfl, nonempty, accepted, -⟩
  obtain ⟨c, others, rfl⟩ := List.exists_cons_of_ne_nil nonempty
  have starts := accepted c (List.mem_cons_self ..)
  rw [List.cons_append, List.head?_cons, Option.any_some, starts] at stops
  cases stops

/-- What the rule claims is a chain of symbols up to its end. -/
theorem of_claimed {c : Char} {matched behind : Text} {path : SymbolPath}
    (claimed : rule previous (c :: (matched ++ behind)) = some (path, matched.length + 1)) :
    (∀ d ∈ path.written, isChain d = true) ∧ Ends behind := by
  obtain ⟨found, read, same⟩ := Option.map_eq_some_iff.mp claimed
  obtain ⟨rfl, width⟩ := Prod.mk.inj same
  obtain ⟨-, -, after, here, ends⟩ := read?_eq_some_iff.mp read
  obtain ⟨-, -, -, chain⟩ := exists_behind_of_read? read
  have divided : (c :: matched) ++ behind = found.written ++ after := here
  obtain ⟨-, rfl⟩ := List.append_inj divided width.symm
  exact ⟨chain, ends⟩

/-- Folding replaces each path that is found by its call. -/
theorem replaces_rule (constructor : Text) :
    rule.Replaces (fun path => path.written.length)
      (fun position path =>
        some ⟨position, position + path.written.length, path.call constructor⟩)
      (call constructor) where
  fits := fits_rule
  within := by
    rintro position path edit ⟨⟩
    simp only
    omega
  replaced := by
    intro previous rest path found claimed position
    have width := (fits_rule _ _ _ _ claimed).1
    simp [Edit.applyFrom, width]

/-- A path begins with a colon, and so does its call. -/
theorem opens_rule (named : ScopedName constructor) : rule.Opens (call constructor) ':' where
  claims := by
    intro previous rest found claimed
    obtain ⟨path, read, _⟩ := Option.map_eq_some_iff.mp claimed
    obtain ⟨others, rfl⟩ := exists_colon_of_read? read
    rfl
  replaces path := by
    obtain ⟨others, rfl⟩ := named.outermost
    rfl

variable {reading : Reading} {source result : Text} {path : SymbolPath}

/-- The name of the constructor holds no path, whatever stands before and behind it. -/
theorem rewrites_constructor (named : ScopedName constructor)
    (others : Rewrites rule (call constructor) (reading.after constructor source) source result) :
    Rewrites rule (call constructor) reading (constructor ++ source) (constructor ++ result) := by
  refine others.append fun before c after divided _ => ?_
  by_cases colon : c = ':'
  · subst colon
    rcases named.colon_beside divided with last | next
    · rw [after_previous, last]
      rfl
    · refine rule_of_no_segment ?_
      rw [List.head?_append, next]
      rfl
  · exact (opens_rule named).unclaimed colon _ _

/-- The argument of a call holds no path, since it is a string. -/
theorem rewrites_joined (chain : ∀ c ∈ path.written, isChain c = true)
    {nesting : Nesting} {previous : Option Char}
    (others : ∀ last, Rewrites rule (call constructor) ⟨.quoted, nesting, last⟩ source result) :
    Rewrites rule (call constructor) ⟨.quoted, nesting, previous⟩ (path.joined ++ source)
      (path.joined ++ result) := by
  have inString := of_mem_joined chain
  refine Rewrites.append (fun before c after divided isCode => ?_) ?_
  · rw [divided] at inString
    obtain ⟨last, quoted⟩ := after_quoted
      (fun d member => inString d (List.mem_append_left _ member)) nesting previous
      (c :: (after ++ source))
    rw [quoted] at isCode
    cases isCode
  · obtain ⟨last, quoted⟩ := after_quoted inString nesting previous source
    rw [quoted]
    exact others last

/-- A call holds no path, and leaves open what was open. -/
theorem rewrites_call (named : ScopedName constructor)
    (chain : ∀ c ∈ path.written, isChain c = true) (fresh : reading.mode = .fresh)
    (inCode : InCode reading.nesting)
    (others : Rewrites rule (call constructor) ⟨.fresh, reading.nesting, some ')'⟩ source
      result) :
    Rewrites rule (call constructor) reading (path.call constructor ++ source)
      (path.call constructor ++ result) := by
  have shape (behind : Text) : path.call constructor ++ behind =
      constructor ++ '(' :: '\'' :: (path.joined ++ '\'' :: ')' :: behind) := by
    simp [call]
  have kept {c : Char} (other : c ≠ ':') (previous : Option Char) (behind : Text) :
      rule previous (c :: behind) = none :=
    (opens_rule named).unclaimed other previous behind
  have openParenthesis : isPlain '(' = true := rfl
  have closeParenthesis : isPlain ')' = true := rfl
  have behindName (following : Text) : reading.after constructor following =
      ⟨.fresh, reading.nesting, (reading.after constructor following).previous⟩ := by
    have plain : ∀ c ∈ constructor, isPlain c = true := fun c => named.isPlain_of_mem
    exact eq_mk (after_plain plain fresh inCode).1 (after_plain plain fresh inCode).2
  rw [shape, shape]
  refine rewrites_constructor named ?_
  rw [behindName]
  refine .keep (fun _ => kept (by decide) _ _) ?_
  rw [step_plain openParenthesis inCode]
  refine .keep (fun _ => kept (by decide) _ _) ?_
  rw [step_apostrophe inCode]
  refine rewrites_joined chain fun last => ?_
  refine .keep (fun _ => kept (by decide) _ _) (.keep (fun _ => kept (by decide) _ _) ?_)
  have closing : (Reading.mk .quoted reading.nesting last).step '\'' (')' :: source) =
      (false, ⟨.fresh, reading.nesting, some '\''⟩) := rfl
  rw [closing, step_plain closeParenthesis inCode]
  exact others

/-- A path that is found in a rewritten text was there before, perhaps with other segments. -/
theorem isSome_read?_of_rewrites (named : ScopedName constructor)
    (rewrites : Rewrites rule (call constructor) reading source result)
    (found : (read? previous (':' :: result)).isSome = true) :
    (read? previous (':' :: source)).isSome = true := by
  obtain ⟨alone, segment, more, rfl, nonempty, accepted, starts⟩ := isSome_read?_iff.mp found
  have noColon : ':' ∉ segment := fun member => absurd (accepted _ member) (by decide)
  obtain ⟨rest, later, rfl, further⟩ := rewrites.exists_of_append (opens_rule named) noColon
  refine isSome_read?_iff.mpr ⟨alone, segment, ?_⟩
  -- The second colon is not the first of a call, since a segment stands behind it.
  generalize shape : ':' :: more = behind at further
  cases further with
  | nil => cases shape
  | keep unclaimed others =>
      cases shape
      refine ⟨_, rfl, nonempty, accepted, ?_⟩
      rw [← others.head?_eq (opens_rule named)]
      exact starts
  | @replace _ _ _ result _ _ item _ _ _ others =>
      obtain ⟨name, rfl⟩ := named.outermost
      have colon : more.head? = some ':' := by
        rw [(List.cons.inj shape).2]
        rfl
      rw [colon] at starts
      cases starts

/-- A text whose paths have been folded is rewritten into itself, also from a reading with another
character before the text, where no path goes on. -/
theorem rewrites_self (named : ScopedName constructor)
    (rewrites : Rewrites rule (call constructor) reading source result) {other : Reading}
    (mode : other.mode = reading.mode) (nesting : other.nesting = reading.nesting)
    (before : other.previous = reading.previous ∨ Ends source) :
    Rewrites rule (call constructor) other result result := by
  induction rewrites generalizing other with
  | nil reading => exact .nil other
  | @keep reading c source result unclaimed others inductionHypothesis =>
      have agree : Agree (c :: source) other reading := by
        refine ⟨mode, nesting, fun question => ?_⟩
        rcases before with same | ends
        · rw [same]
        · have stops := ends.segment
          rw [question] at stops
          cases stops
      have same : other.step c result = reading.step c source := by
        rw [← (others.alike (opens_rule named) rfl).step_eq other c, agree.step]
      refine .keep (fun isCode => ?_) ?_
      · rw [same] at isCode
        by_cases colon : c = ':'
        · subst colon
          rcases before with previous | ends
          · have nothing := unclaimed isCode
            rw [rule, Option.map_eq_none_iff, ← Option.not_isSome_iff_eq_none] at nothing ⊢
            rw [previous]
            exact fun found => nothing (isSome_read?_of_rewrites named others found)
          · refine rule_of_no_segment ?_
            rw [others.head?_eq (opens_rule named)]
            exact ends.more rfl
        · exact (opens_rule named).unclaimed colon _ _
      · rw [same]
        exact inductionHypothesis rfl rfl (.inl rfl)
  | @replace reading c source result matched behind path divided isCode claimed others
      inductionHypothesis =>
      subst divided
      obtain ⟨chain, ends⟩ := of_claimed claimed
      obtain rfl : c = ':' := Option.some.inj ((opens_rule named).claims _ _ _ claimed)
      obtain ⟨fresh, inCode, beyond⟩ := beyond_of_plain rfl (by decide) isCode
      rw [beyond] at inductionHypothesis
      refine rewrites_call named chain (mode.trans fresh) (nesting ▸ inCode) ?_
      exact inductionHypothesis rfl nesting (.inr ends)

/-- Folding symbol paths into calls of a constructor with such a name is idempotent. -/
theorem foldAll_foldAll (named : ScopedName constructor) (source : Text) :
    foldAll constructor (foldAll constructor source) = foldAll constructor source := by
  have folded {source result : Text} :
      Rewrites rule (call constructor) Reading.start source result ↔
        foldAll constructor source = result := by
    rw [(replaces_rule constructor).rewrites_iff, foldAll, edits, ← List.filterMap_eq_map]
    rfl
  exact folded.mp (rewrites_self named (folded.mpr rfl) rfl rfl (.inl rfl))

/-- A path whose last segment would make a character literal of the quote behind it, and a path in
an interpolation with colons behind it that start none. -/
theorem foldAll_foldAll_standard :
    ScopedName Settings.standard.pathConstructor ∧
      foldAll Settings.standard.pathConstructor ":a:b?'c'\"#\x7b:y:z::\x7d\"".toList =
        "::SonicPi::SPSym.new('a : b?')'c'\"#\x7b::SonicPi::SPSym.new('y : z')::\x7d\"".toList ∧
      foldAll Settings.standard.pathConstructor
          "::SonicPi::SPSym.new('a : b?')'c'\"#\x7b::SonicPi::SPSym.new('y : z')::\x7d\"".toList =
        "::SonicPi::SPSym.new('a : b?')'c'\"#\x7b::SonicPi::SPSym.new('y : z')::\x7d\"".toList := by
  have named : ScopedName Settings.standard.pathConstructor := by decide +kernel
  have folded :
      foldAll Settings.standard.pathConstructor ":a:b?'c'\"#\x7b:y:z::\x7d\"".toList =
        "::SonicPi::SPSym.new('a : b?')'c'\"#\x7b::SonicPi::SPSym.new('y : z')::\x7d\"".toList := by
    decide +kernel
  have again := foldAll_foldAll named ":a:b?'c'\"#\x7b:y:z::\x7d\"".toList
  rw [folded] at again
  exact ⟨named, folded, again⟩

end SymbolPath

end Desugar

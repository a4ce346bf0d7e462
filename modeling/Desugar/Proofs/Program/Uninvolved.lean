import Desugar.Proofs.Program.Idempotence

/-!
# Texts that are left alone

`Involved` says what a run replaces or refuses, by the characters that make it up: list
blocks, prefix calls, symbol paths, assignments to registered names, and decimals with digits
on one side of the dot only. `desugar_eq_self` says that a text in whose code nothing of the
kind begins is left as it is, by every pass and under all settings. What its strings and
comments hold does not matter.
-/

namespace Desugar

/-- Something that a run with the given settings and names replaces or refuses stands at the
head of a text, where `previous` is the character before it. -/
inductive Involved (settings : Settings) (registry : List Text) (previous : Option Char) :
    (text : Text) → Prop where
  /-- A parenthesis, a keyword and a blank, and somewhere behind them a closing parenthesis. -/
  | listBlock {keyword : Keyword} {blank : Char} {rest : Text}
      (listed : keyword ∈ settings.keywords) (separated : isBlank blank = true)
      (closed : ')' ∈ rest) :
      Involved settings registry previous ('(' :: keyword.word ++ blank :: rest)
  /-- A parenthesis, a registered name, perhaps behind blanks, and a comma or a blank. -/
  | prefixCall {name lead rest : Text} {separator : Char} (registered : name ∈ registry)
      (proper : name ≠ []) (blanks : ∀ c ∈ lead, isBlank c = true)
      (separated : separator = ',' ∨ isBlank separator = true) :
      Involved settings registry previous ('(' :: lead ++ name ++ separator :: rest)
  /-- Two symbols, one directly behind the other, that follow neither a colon nor a word. -/
  | symbolPath {first second rest : Text}
      (alone : ∀ c, previous = some c → c ≠ ':' ∧ isWord c = false)
      (firstProper : first ≠ []) (firstAll : ∀ c ∈ first, isSegment c = true)
      (secondProper : second ≠ []) (secondAll : ∀ c ∈ second, isSegment c = true) :
      Involved settings registry previous (':' :: first ++ ':' :: second ++ rest)
  /-- A registered name that is not the end of a word, perhaps blanks, an equals sign, and a
  blank or a word. -/
  | assignment {name blanks rest : Text} {c : Char} (registered : name ∈ registry)
      (proper : name ≠ []) (alone : ∀ c, previous = some c → isWord c = false)
      (all : ∀ blank ∈ blanks, isBlank blank = true)
      (assigned : isBlank c = true ∨ isWord c = true) :
      Involved settings registry previous (name ++ blanks ++ '=' :: c :: rest)
  /-- Digits behind a blank or at the start, then a dot before a blank or at the end. -/
  | trailingDot {digits rest : Text} (alone : ∀ c, previous = some c → isBlank c = true)
      (nonempty : digits ≠ []) (all : ∀ c ∈ digits, c.isDigit = true)
      (ends : ∀ c, rest.head? = some c → isBlank c = true) :
      Involved settings registry previous (digits ++ '.' :: rest)
  /-- A dot that follows neither a dot nor a word, then digits up to a blank, a closing
  parenthesis or the end. -/
  | leadingDot {digits rest : Text}
      (alone : ∀ c, previous = some c → c ≠ '.' ∧ isWord c = false)
      (nonempty : digits ≠ []) (all : ∀ c ∈ digits, c.isDigit = true)
      (ends : ∀ c, rest.head? = some c → isBlank c = true ∨ c = ')') :
      Involved settings registry previous ('.' :: digits ++ rest)

/-- What a run with the given settings and names looks for, if nothing is switched off. -/
def Settings.Seeks (settings : Settings) (names : List Text) : Target → Prop
  | .sugar (.listBlocks keywords) => keywords = settings.keywords
  | .sugar (.callSpacing name) | .assignment name => name ∈ names
  | .sugar (.symbolPaths _) | .sugar .trailingDots | .sugar .leadingDots => True

namespace Settings

variable {settings : Settings} {names : List Text} {pass : Pass}

theorem seeks_of_mem_passesBeforeGuard (member : pass ∈ settings.passesBeforeGuard names) :
    settings.Seeks names (.sugar pass) := by
  simp only [passesBeforeGuard, List.mem_append] at member
  rcases member with (blocks | calls) | paths
  · split at blocks
    · cases List.mem_singleton.mp blocks
      rfl
    · cases blocks
  · split at calls
    · obtain ⟨name, listed, rfl⟩ := List.mem_map.mp calls
      exact listed
    · cases calls
  · split at paths
    · cases List.mem_singleton.mp paths
      trivial
    · cases paths

theorem seeks_of_mem_passesAfterGuard (member : pass ∈ settings.passesAfterGuard) :
    settings.Seeks names (.sugar pass) := by
  rw [passesAfterGuard] at member
  split at member
  · simp only [List.mem_cons, List.not_mem_nil, or_false] at member
    rcases member with rfl | rfl <;> trivial
  · cases member

end Settings

variable {settings : Settings} {registry : List Text} {previous : Option Char} {text : Text}

/-- Where a list block is found, one stands. -/
theorem ListBlock.involved_of_read? {block : ListBlock}
    (found : read? settings.keywords text = some block) :
    Involved settings registry previous text := by
  obtain ⟨shape, behind, rfl⟩ := read?_eq_some_iff.mp found
  obtain ⟨blank, blanks, gap⟩ := List.exists_cons_of_ne_nil shape.gap
  have written : block.written ++ behind =
      '(' :: block.keyword.word ++ blank :: (blanks ++ block.body ++ ')' :: behind) := by
    simp [ListBlock.written, gap]
  rw [written]
  exact .listBlock shape.keyword (shape.blanks blank (by simp [gap])) (by simp)

/-- Where a prefix call is found, one stands. -/
theorem PrefixCall.involved_of_read? {name : Text} {call : PrefixCall}
    (registered : name ∈ properNames registry) (found : read? name text = some call) :
    Involved settings registry previous text := by
  obtain ⟨listed, proper⟩ := mem_properNames.mp registered
  obtain ⟨shape, behind, rfl, _⟩ := read?_eq_some_iff.mp found
  obtain ⟨separator, others, gap⟩ := List.exists_cons_of_ne_nil shape.gap
  have written : call.written name ++ behind =
      '(' :: call.lead ++ name ++ separator :: (others ++ behind) := by
    simp [PrefixCall.written, gap]
  rw [written]
  refine .prefixCall listed proper shape.lead ?_
  have separates := shape.separators separator (by simp [gap])
  rwa [isSeparator, Bool.or_eq_true, beq_iff_eq] at separates

/-- Where a symbol path is found, one stands. -/
theorem SymbolPath.involved_of_read? {path : SymbolPath}
    (found : read? previous text = some path) : Involved settings registry previous text := by
  obtain ⟨alone, accepted, behind, rfl, _⟩ := read?_eq_some_iff.mp found
  obtain ⟨segments, enough⟩ := path
  match segments, enough with
  | first :: second :: others, enough =>
      obtain ⟨firstProper, firstAll⟩ := accepted first (by simp)
      obtain ⟨secondProper, secondAll⟩ := accepted second (by simp)
      have written : written ⟨first :: second :: others, enough⟩ ++ behind =
          ':' :: first ++ ':' :: second ++ (chained others ++ behind) := by
        simp [SymbolPath.written, chained]
      rw [written]
      refine .symbolPath (fun c before => ?_) firstProper firstAll secondProper secondAll
      simpa [before] using alone

/-- Where a decimal `2.` is found, one stands. -/
theorem Decimal.involved_of_trailingDot? {width : Nat}
    (found : trailingDot? previous text = some width) :
    Involved settings registry previous text := by
  obtain ⟨digits, tail, rfl, nonempty, all, before, behind, _⟩ :=
    trailingDot?_eq_some_iff.mp found
  refine .trailingDot (fun c here => ?_) nonempty all fun c here => ?_
  · simpa [here] using before
  · simpa [here] using behind

/-- Where a decimal `.3` is found, one stands. -/
theorem Decimal.involved_of_leadsWithDot (leads : leadsWithDot previous text = true) :
    Involved settings registry previous text := by
  obtain ⟨alone, digits, behind, rfl, nonempty, all, _, follows⟩ := leadsWithDot_iff.mp leads
  refine .leadingDot (fun c here => ?_) nonempty all fun c here => ?_
  · simpa [here] using alone
  · simpa [here] using follows

/-- Where an assignment is found, one stands. -/
theorem Assignment.involved_of_standsAt {name : Text} (registered : name ∈ properNames registry)
    (stands : standsAt name previous text = true) :
    Involved settings registry previous text := by
  obtain ⟨listed, proper⟩ := mem_properNames.mp registered
  obtain ⟨alone, blanks, c, tail, rfl, blank, follows⟩ := standsAt_iff.mp stands
  exact .assignment listed proper alone blank follows

/-- Where something is found that a run looks for, it stands. -/
theorem involved_of_reach? {target : Target} {reach : Nat}
    (seeks : settings.Seeks (properNames registry) target)
    (found : target.reach? previous text = some reach) :
    Involved settings registry previous text := by
  match target, seeks with
  | .sugar (.listBlocks _), rfl =>
      obtain ⟨_, read, _⟩ := ListBlock.reach?_eq_some found
      exact ListBlock.involved_of_read? read
  | .sugar (.callSpacing _), registered =>
      obtain ⟨_, read, _⟩ := Option.map_eq_some_iff.mp found
      exact PrefixCall.involved_of_read? registered read
  | .sugar (.symbolPaths _), _ =>
      obtain ⟨_, read, _⟩ := Option.map_eq_some_iff.mp found
      exact SymbolPath.involved_of_read? read
  | .sugar .trailingDots, _ =>
      obtain ⟨_, trailing, _⟩ := Option.map_eq_some_iff.mp found
      exact Decimal.involved_of_trailingDot? trailing
  | .sugar .leadingDots, _ =>
      rw [Target.reach?, Decimal.leadingReach?] at found
      split at found
      · next leads => exact Decimal.involved_of_leadsWithDot leads
      · cases found
  | .assignment _, registered =>
      rw [Target.reach?, Assignment.reach?] at found
      split at found
      · next stands => exact Assignment.involved_of_standsAt registered stands
      · cases found

/-- A text in whose code nothing begins that a run replaces or refuses is left as it is,
whatever its strings and comments hold. -/
theorem desugar_eq_self {source : Text}
    (uninvolved : ∀ position ∈ source.codePositions,
      ¬ Involved settings registry (source.before? position) (source.drop position)) :
    desugar settings registry source = .ok source := by
  have untouched (position : Nat) (isCode : source.isCodeAt position = true) :=
    uninvolved position (Text.mem_codePositions.mpr isCode)
  have absent {target : Target} (seeks : settings.Seeks (properNames registry) target) :
      target.Absent source := fun position isCode =>
    Option.eq_none_iff_forall_ne_some.mpr fun _ found =>
      untouched position isCode (involved_of_reach? seeks found)
  -- Not even flat list blocks are found, so none can lead the scan astray.
  have noBlocks : ListBlock.all settings.keywords source = [] :=
    Text.scan_eq_nil fun position isCode => Option.map_eq_none_iff.mpr <|
      Option.eq_none_iff_forall_ne_some.mpr fun _ read =>
        untouched position isCode (ListBlock.involved_of_read? read)
  have guarded : guardedText settings registry source = source := by
    refine Pass.runAll_eq_self
      (fun pass member => absent (Settings.seeks_of_mem_passesBeforeGuard member))
      fun keywords member found listed => ?_
    obtain ⟨_, rfl⟩ := Settings.of_listBlocks_mem_passesBeforeGuard member
    rw [noBlocks] at listed
    cases listed
  refine desugar_eq_ok_iff.mpr ⟨?_, ?_⟩
  · rw [collision?, guarded]
    split
    · refine firstCollision?_eq_none_iff.mpr fun name listed proper => ?_
      have registered : settings.Seeks (properNames registry) (.assignment name) :=
        mem_properNames.mpr ⟨listed, proper⟩
      exact Target.absent_assignment_iff.mp (absent registered)
    · rfl
  · rw [guarded]
    refine Pass.runAll_eq_self
      (fun pass member => absent (Settings.seeks_of_mem_passesAfterGuard member))
      fun keywords member => ?_
    exact absurd member Settings.listBlocks_not_mem_passesAfterGuard

/-- Whatever a run replaces or refuses begins with one of three marks, with a digit, or with
a registered name. -/
theorem Involved.exists_head (involved : Involved settings registry previous text) :
    ∃ c, text.head? = some c ∧ (c = '(' ∨ c = ':' ∨ c = '.' ∨ c.isDigit = true ∨
      ∃ name ∈ registry, name.head? = some c) := by
  cases involved with
  | listBlock | prefixCall | symbolPath | leadingDot => exact ⟨_, rfl, by simp⟩
  | assignment registered proper =>
      obtain ⟨c, rest, rfl⟩ := List.exists_cons_of_ne_nil proper
      exact ⟨c, rfl, .inr (.inr (.inr (.inr ⟨_, registered, rfl⟩)))⟩
  | trailingDot _ nonempty all =>
      obtain ⟨c, rest, rfl⟩ := List.exists_cons_of_ne_nil nonempty
      exact ⟨c, rfl, .inr (.inr (.inr (.inl (all c (List.mem_cons_self ..)))))⟩

/-- Sugar of every kind and an assignment, all in strings and in a comment. -/
def quotedSugar : Text :=
  "puts '(ing 1 2) ring = 1', \"( ring 1) #\x7bx\x7d :a:b\" # 2. .5\n".toList

theorem desugar_quotedSugar :
    quotedSugar.codePositions = [0, 1, 2, 3, 4, 25, 26, 40, 48, 56] ∧
    (∀ position ∈ quotedSugar.codePositions, ¬ Involved .standard ["ring".toList]
      (quotedSugar.before? position) (quotedSugar.drop position)) ∧
    desugar .standard ["ring".toList] quotedSugar = .ok quotedSugar := by
  have uninvolved : ∀ position ∈ quotedSugar.codePositions, ¬ Involved .standard
      ["ring".toList] (quotedSugar.before? position) (quotedSugar.drop position) := by
    have heads : ∀ position ∈ quotedSugar.codePositions, (quotedSugar[position]?.all
        fun c => c ∉ ['(', ':', '.', 'r'] ∧ c.isDigit = false) = true := by
      decide
    intro position isCode involved
    obtain ⟨c, first, begins⟩ := involved.exists_head
    rw [List.head?_drop] at first
    have head := heads position isCode
    rw [first, Option.all_some, decide_eq_true_eq] at head
    obtain ⟨notMark, notDigit⟩ := head
    rcases begins with rfl | rfl | rfl | digit | ⟨name, member, named⟩
    · exact notMark (by decide)
    · exact notMark (by decide)
    · exact notMark (by decide)
    · exact absurd digit (by rw [notDigit]; decide)
    · cases List.mem_singleton.mp member
      cases named
      exact notMark (by decide)
  exact ⟨by decide, uninvolved, desugar_eq_self uninvolved⟩

end Desugar

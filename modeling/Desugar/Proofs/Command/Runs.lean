import Mathlib.Order.WellFounded
import Desugar.Command.Run
import Desugar.Proofs.Command.Storing

/-!
# What runs report and what they change

A run that desugars goes through six stages, and each can fail in one way (`Stage.Fails`). What
`Reader.desugared` answers is settled by the first of them that does
(`Reader.desugared_eq_error`), or else by the text that is left when none does
(`Reader.desugared_eq_ok`). `System.runsCleanly` carries this over to command lines, on every
system: a run that fails reports its first failure and changes no file, a run that succeeds
changes at most its output, and checking a file tells whether preparsing it would succeed.
-/

namespace Desugar

/-- What a run does before it prints or stores anything. -/
inductive Stage where
  | readInput
  | readNames
  | decodeNames
  | readSettings
  | decodeSettings
  | desugar
  deriving DecidableEq, Repr

namespace Stage

/-- The stages, in the order in which a run goes through them. -/
def all : List Stage :=
  [.readInput, .readNames, .decodeNames, .readSettings, .decodeSettings, .desugar]

/-- The stages that a run goes through before it comes to this one. -/
def before (stage : Stage) : List Stage :=
  all.takeWhile (· != stage)

/-- Fewer stages lie before an earlier stage. -/
theorem length_before_lt {earlier stage : Stage} (member : earlier ∈ stage.before) :
    earlier.before.length < stage.before.length := by
  revert member
  cases stage <;> cases earlier <;> decide

end Stage

section Sources

variable (reader : Reader) (sources : Sources)

/-- A file can be read, and its JSON is a value of the expected form. -/
def Reader.Gives {Value : Type} (decode? : Json → Option Value) (path : Text) (value : Value) :
    Prop :=
  ∃ text, reader path = some text ∧ (Json.parse? text).bind decode? = some value

/-- A file can be read, and it is no JSON, or JSON that is not of the expected form. -/
def Reader.Garbles {Value : Type} (decode? : Json → Option Value) (path : Text) : Prop :=
  ∃ text, reader path = some text ∧ (Json.parse? text).bind decode? = none

/-- The names that a run registers: those of a file, if there is one, come first. -/
inductive Sources.Register : List Text → Prop where
  | listed (absent : sources.namesFile = none) : Register sources.names
  | filed {path : Text} {names : List Text} (present : sources.namesFile = some path)
      (gives : reader.Gives Registry.ofJson? path names) : Register (names ++ sources.names)

/-- The settings that a run takes: those of a file, or the standard ones. -/
inductive Sources.Configure : Settings → Prop where
  | standard (absent : sources.settingsFile = none) : Configure .standard
  | filed {path : Text} {settings : Settings} (present : sources.settingsFile = some path)
      (gives : reader.Gives Settings.ofJson? path settings) : Configure settings

/-- How each stage of a run can fail. -/
inductive Stage.Fails (input : Text) : Stage → Failure → Prop where
  | readInput (missing : reader input = none) : Fails input .readInput (.unreadable input)
  | readNames {path : Text} (present : sources.namesFile = some path)
      (missing : reader path = none) : Fails input .readNames (.unreadable path)
  | decodeNames {path : Text} (present : sources.namesFile = some path)
      (garbles : reader.Garbles Registry.ofJson? path) :
      Fails input .decodeNames (.badNames path)
  | readSettings {path : Text} (present : sources.settingsFile = some path)
      (missing : reader path = none) : Fails input .readSettings (.unreadable path)
  | decodeSettings {path : Text} (present : sources.settingsFile = some path)
      (garbles : reader.Garbles Settings.ofJson? path) :
      Fails input .decodeSettings (.badSettings path)
  | desugar {source : Text} {names : List Text} {settings : Settings} {collision : Collision}
      (reads : reader input = some source) (registered : sources.Register reader names)
      (configured : sources.Configure reader settings)
      (collides : Desugar.desugar settings names source = .error collision) :
      Fails input .desugar (.collided input collision)

/-- A stage fails and none before it does. -/
structure FailsFirst (input : Text) (stage : Stage) (failure : Failure) : Prop where
  fails : stage.Fails reader sources input failure
  passed : ∀ earlier ∈ stage.before, ∀ other, ¬ earlier.Fails reader sources input other

/-- The input can be read and desugared, with the names and the settings of the run. -/
inductive Yields (input : Text) : Text → Prop where
  | intro {source text : Text} {names : List Text} {settings : Settings}
      (reads : reader input = some source) (registered : sources.Register reader names)
      (configured : sources.Configure reader settings)
      (desugars : desugar settings names source = .ok text) : Yields input text

end Sources

namespace Reader

variable {reader : Reader} {sources : Sources} {input path text : Text}

theorem text_eq_ok (reads : reader path = some text) : reader.text path = .ok text := by
  rw [Reader.text, reads]

theorem text_eq_error (missing : reader path = none) :
    reader.text path = .error (.unreadable path) := by
  rw [Reader.text, missing]

section Decoding

variable {Value : Type} {decode? : Json → Option Value} {value : Value} {failure : Failure}

theorem decoded_eq_ok (gives : reader.Gives decode? path value) :
    reader.decoded path decode? failure = .ok value := by
  obtain ⟨text, reads, decodes⟩ := gives
  rw [decoded, text_eq_ok reads, Except.bind, decodes]

theorem decoded_of_garbles (garbles : reader.Garbles decode? path) :
    reader.decoded path decode? failure = .error failure := by
  obtain ⟨text, reads, stuck⟩ := garbles
  rw [decoded, text_eq_ok reads, Except.bind, stuck]

theorem decoded_of_missing (missing : reader path = none) :
    reader.decoded path decode? failure = .error (.unreadable path) := by
  rw [decoded, text_eq_error missing, Except.bind]

/-- A file that can be read and is not garbled gives a value. -/
theorem exists_gives (reads : reader path ≠ none) (sound : ¬ reader.Garbles decode? path) :
    ∃ value, reader.Gives decode? path value := by
  obtain ⟨text, reads⟩ := Option.ne_none_iff_exists'.mp reads
  cases decodes : (Json.parse? text).bind decode? with
  | none => exact absurd ⟨text, reads, decodes⟩ sound
  | some value => exact ⟨value, text, reads, decodes⟩

end Decoding

theorem registry_eq_ok {names : List Text} (registered : sources.Register reader names) :
    reader.registry sources = .ok names := by
  cases registered with
  | listed absent => rw [registry, absent]
  | filed present gives => simp only [registry, present, decoded_eq_ok gives, Except.map]

theorem settings_eq_ok {settings : Settings} (configured : sources.Configure reader settings) :
    reader.settings sources = .ok settings := by
  cases configured with
  | standard absent => rw [Reader.settings, absent]
  | filed present gives => simp only [Reader.settings, present, decoded_eq_ok gives]

/-! What follows from the stages that do not fail. -/

theorem exists_source
    (reading : ∀ failure, ¬ Stage.readInput.Fails reader sources input failure) :
    ∃ source, reader input = some source :=
  Option.ne_none_iff_exists'.mp fun missing => reading _ (.readInput missing)

theorem exists_register
    (reading : ∀ failure, ¬ Stage.readNames.Fails reader sources input failure)
    (decoding : ∀ failure, ¬ Stage.decodeNames.Fails reader sources input failure) :
    ∃ names, sources.Register reader names := by
  cases present : sources.namesFile with
  | none => exact ⟨_, .listed present⟩
  | some path =>
      obtain ⟨names, gives⟩ := exists_gives
        (fun missing => reading _ (.readNames present missing))
        (fun garbles => decoding _ (.decodeNames present garbles))
      exact ⟨_, .filed present gives⟩

theorem exists_configure
    (reading : ∀ failure, ¬ Stage.readSettings.Fails reader sources input failure)
    (decoding : ∀ failure, ¬ Stage.decodeSettings.Fails reader sources input failure) :
    ∃ settings, sources.Configure reader settings := by
  cases present : sources.settingsFile with
  | none => exact ⟨_, .standard present⟩
  | some path =>
      obtain ⟨settings, gives⟩ := exists_gives
        (fun missing => reading _ (.readSettings present missing))
        (fun garbles => decoding _ (.decodeSettings present garbles))
      exact ⟨_, .filed present gives⟩

/-- The first stage that fails is the one that is reported. -/
theorem desugared_eq_error {stage : Stage} {failure : Failure}
    (first : FailsFirst reader sources input stage failure) :
    reader.desugared input sources = .error failure := by
  obtain ⟨fails, passed⟩ := first
  -- What the stages before the failing one were to give is there, as none of them fails.
  cases fails with
  | readInput missing => simp only [desugared, text_eq_error missing, Except.bind]
  | readNames present missing =>
      obtain ⟨source, reads⟩ := exists_source (passed _ (by decide))
      simp only [desugared, text_eq_ok reads, registry, present, decoded_of_missing missing,
        Except.map, Except.bind]
  | decodeNames present garbles =>
      obtain ⟨source, reads⟩ := exists_source (passed _ (by decide))
      simp only [desugared, text_eq_ok reads, registry, present, decoded_of_garbles garbles,
        Except.map, Except.bind]
  | readSettings present missing =>
      obtain ⟨source, reads⟩ := exists_source (passed _ (by decide))
      obtain ⟨names, registered⟩ := exists_register (passed _ (by decide)) (passed _ (by decide))
      simp only [desugared, text_eq_ok reads, registry_eq_ok registered, Reader.settings, present,
        decoded_of_missing missing, Except.bind]
  | decodeSettings present garbles =>
      obtain ⟨source, reads⟩ := exists_source (passed _ (by decide))
      obtain ⟨names, registered⟩ := exists_register (passed _ (by decide)) (passed _ (by decide))
      simp only [desugared, text_eq_ok reads, registry_eq_ok registered, Reader.settings, present,
        decoded_of_garbles garbles, Except.bind]
  | desugar reads registered configured collides =>
      simp only [desugared, text_eq_ok reads, registry_eq_ok registered, settings_eq_ok configured,
        collides, Except.bind, Except.mapError]

/-- If no stage fails, the text is the desugared one. -/
theorem desugared_eq_ok (yields : Yields reader sources input text) :
    reader.desugared input sources = .ok text := by
  obtain ⟨reads, registered, configured, desugars⟩ := yields
  simp only [desugared, text_eq_ok reads, registry_eq_ok registered, settings_eq_ok configured,
    desugars, Except.bind, Except.mapError]

/-- Some stage is the first that fails, or there is a text. -/
theorem failsFirst_or_yields (reader : Reader) (sources : Sources) (input : Text) :
    (∃ stage failure, FailsFirst reader sources input stage failure) ∨
      ∃ text, Yields reader sources input text := by
  by_cases failing : ∃ stage failure, Stage.Fails reader sources input stage failure
  · -- Of the stages that fail, the first is the one with the fewest stages before it.
    obtain ⟨stage, ⟨failure, fails⟩, least⟩ :=
      (measure fun stage : Stage => stage.before.length).wf.has_min
        {stage | ∃ failure, Stage.Fails reader sources input stage failure} failing
    exact .inl ⟨stage, failure, fails, fun earlier member other sooner =>
      least earlier ⟨other, sooner⟩ (Stage.length_before_lt member)⟩
  · have passed (stage : Stage) (failure : Failure) :
        ¬ Stage.Fails reader sources input stage failure :=
      fun fails => failing ⟨stage, failure, fails⟩
    obtain ⟨source, reads⟩ := exists_source (passed _)
    obtain ⟨names, registered⟩ := exists_register (passed _) (passed _)
    obtain ⟨settings, configured⟩ := exists_configure (passed _) (passed _)
    cases desugars : desugar settings names source with
    | error collision => exact absurd (.desugar reads registered configured desugars) (passed _ _)
    | ok text => exact .inr ⟨text, .intro reads registered configured desugars⟩

end Reader

/-- The command desugars a file, whatever it then does with the text. -/
inductive Command.Desugars (input : Text) (sources : Sources) : Command → Prop where
  | preparse (output : Option Text) : Desugars input sources (.preparse input output sources)
  | check : Desugars input sources (.check input sources)

namespace System

/-- What the command lines that desugar a file do on a system in the given state. In each run the
log comes first in the errors, and the causes of a failure stand beneath its message. -/
structure RunsCleanly (system : System) (view : system.View) (state : system.State) (input : Text)
    (sources : Sources) : Prop where
  /-- A run fails at a first stage, or it has a text. -/
  decided : (∃ stage failure, FailsFirst (system.readText? state) sources input stage failure) ∨
    ∃ text, Yields (system.readText? state) sources input text
  /-- A run that fails reports the first failure, prints nothing and changes no file. -/
  failed : ∀ {arguments : List Text} {command : Command} {stage : Stage} {failure : Failure},
    Command.ofArguments? arguments = some command → command.Desugars input sources →
    FailsFirst (system.readText? state) sources input stage failure →
    system.run state arguments =
      (⟨1, [], system.wording.log state command ++ ("Error: ".toList ++ failure.message ++
        system.wording.causes state failure ++ ['\n'])⟩, state)
  /-- Without an output the text is printed, and no file changes. -/
  printed : ∀ {arguments : List Text} {text : Text},
    Command.ofArguments? arguments = some (.preparse input none sources) →
    Yields (system.readText? state) sources input text →
    system.run state arguments =
      (⟨0, text, system.wording.log state (.preparse input none sources)⟩, state)
  /-- An output that the system accepts holds the text, and no other file changes. -/
  stored : ∀ {arguments : List Text} {path text : Text} {after : system.State},
    Command.ofArguments? arguments = some (.preparse input (some path) sources) →
    Yields (system.readText? state) sources input text →
    system.write? state path (String.ofList text).toUTF8 = some after →
    system.run state arguments =
        (⟨0, [], system.wording.log state (.preparse input (some path) sources)⟩, after) ∧
      view.Stored state path (String.ofList text).toUTF8 after
  /-- An output that the system refuses is reported, and no file changes. -/
  unwritten : ∀ {arguments : List Text} {path text : Text},
    Command.ofArguments? arguments = some (.preparse input (some path) sources) →
    Yields (system.readText? state) sources input text →
    system.write? state path (String.ofList text).toUTF8 = none →
    system.run state arguments =
      (⟨1, [], system.wording.log state (.preparse input (some path) sources) ++
        ("Error: ".toList ++ (Failure.unwritable path).message ++
          system.wording.causes state (.unwritable path) ++ ['\n'])⟩, state)
  /-- Checking a file changes none. -/
  spared : ∀ {arguments : List Text},
    Command.ofArguments? arguments = some (.check input sources) →
    (system.run state arguments).2 = state
  /-- Checking a file succeeds if and only if printing its text does, and otherwise reports the
  same behind the log. -/
  agreed : ∀ {checking printing : List Text},
    Command.ofArguments? checking = some (.check input sources) →
    Command.ofArguments? printing = some (.preparse input none sources) →
    ((system.run state checking).1.exitCode = 0 ↔ (system.run state printing).1.exitCode = 0) ∧
      ((system.run state printing).1.exitCode ≠ 0 → ∃ report,
        (system.run state checking).1.stderr =
          system.wording.log state (.check input sources) ++ report ∧
        (system.run state printing).1.stderr =
          system.wording.log state (.preparse input none sources) ++ report)

variable {system : System} {state : system.State} {arguments : List Text} {command : Command}
  {input text : Text} {sources : Sources}

theorem run_of_failsFirst {stage : Stage} {failure : Failure}
    (given : Command.ofArguments? arguments = some command)
    (desugars : command.Desugars input sources)
    (first : FailsFirst (system.readText? state) sources input stage failure) :
    system.run state arguments =
      (⟨1, [], system.wording.log state command ++ ("Error: ".toList ++ failure.message ++
        system.wording.causes state failure ++ ['\n'])⟩, state) := by
  have stops : command.effect (system.readText? state) = .error failure := by
    cases desugars <;> rw [Command.effect, Reader.desugared_eq_error first, Except.map]
  have exits : failure.exitCode = 1 := by
    cases first.fails <;> rfl
  simp only [run, given, execute, stops, System.failed, Outcome.failed, Outcome.behind, exits]

theorem run_of_effect {effect : Effect} (given : Command.ofArguments? arguments = some command)
    (ends : command.effect (system.readText? state) = .ok effect) :
    system.run state arguments =
      ((system.perform state effect).1.behind (system.wording.log state command),
        (system.perform state effect).2) := by
  simp only [run, given, execute, ends]

theorem run_check_of_yields (given : Command.ofArguments? arguments = some (.check input sources))
    (yields : Yields (system.readText? state) sources input text) :
    system.run state arguments =
      (⟨0, [], system.wording.log state (.check input sources) ++
        ("OK: ".toList ++ input ++ ['\n'])⟩, state) :=
  run_of_effect given (by rw [Command.effect, Reader.desugared_eq_ok yields, Except.map])

theorem run_print_of_yields
    (given : Command.ofArguments? arguments = some (.preparse input none sources))
    (yields : Yields (system.readText? state) sources input text) :
    system.run state arguments =
      (⟨0, text, system.wording.log state (.preparse input none sources)⟩, state) := by
  have ends : (Command.preparse input none sources).effect (system.readText? state) =
      .ok (.print text) := by
    rw [Command.effect, Reader.desugared_eq_ok yields, Except.map]
  simp only [run_of_effect given ends, perform, Outcome.printed, Outcome.behind, List.append_nil]

theorem run_store_of_yields {path : Text}
    (given : Command.ofArguments? arguments = some (.preparse input (some path) sources))
    (yields : Yields (system.readText? state) sources input text) :
    system.run state arguments =
      ((system.perform state (.store path text)).1.behind
          (system.wording.log state (.preparse input (some path) sources)),
        (system.perform state (.store path text)).2) :=
  run_of_effect given (by rw [Command.effect, Reader.desugared_eq_ok yields, Except.map])

/-- Runs that desugar a file fail without an effect, change at most their output, and agree with
the check of that file. -/
theorem runsCleanly (system : System) (view : system.View) (state : system.State) (input : Text)
    (sources : Sources) : RunsCleanly system view state input sources where
  decided := Reader.failsFirst_or_yields _ _ _
  failed given desugars first := run_of_failsFirst given desugars first
  printed given yields := run_print_of_yields given yields
  stored given yields written := by
    refine ⟨?_, view.stores written⟩
    simp only [run_store_of_yields given yields, perform, written, Outcome.printed,
      Outcome.behind, List.append_nil]
  unwritten given yields refused := by
    simp only [run_store_of_yields given yields, perform, refused, System.failed, Outcome.failed,
      Outcome.behind, Failure.exitCode]
  spared given := by
    rcases Reader.failsFirst_or_yields (system.readText? state) sources input with
      ⟨stage, failure, first⟩ | ⟨text, yields⟩
    · rw [run_of_failsFirst given .check first]
    · rw [run_check_of_yields given yields]
  agreed checks prints := by
    rcases Reader.failsFirst_or_yields (system.readText? state) sources input with
      ⟨stage, failure, first⟩ | ⟨text, yields⟩
    · rw [run_of_failsFirst checks .check first, run_of_failsFirst prints (.preparse none) first]
      exact ⟨Iff.rfl, fun _ => ⟨_, rfl, rfl⟩⟩
    · rw [run_check_of_yields checks yields, run_print_of_yields prints yields]
      exact ⟨Iff.rfl, fun failing => absurd rfl failing⟩

/-- Of a list of names that is missing and settings that are not JSON, the list is reported; the
output, which is the input as well, keeps its text. -/
theorem runsCleanly_overwriting :
    let files := Files.ofEntries
      [("in.rb".toList, "x = 1.".toUTF8), ("c.json".toList, "no".toUTF8)]
    let wording : Wording Files :=
      ⟨fun _ _ => "\n\nCaused by:\n    No such file or directory (os error 2)".toList,
        fun _ _ => []⟩
    (Files.system wording).run files (["preparse", "in.rb", "-o", "in.rb", "--config", "c.json",
        "--fns-file", "f.json"].map String.toList) =
      (⟨1, [], ("Error: failed to read f.json\n\n" ++
        "Caused by:\n    No such file or directory (os error 2)\n").toList⟩, files) := by
  intro files wording
  let sources : Sources := ⟨[], some "f.json".toList, some "c.json".toList⟩
  have readable : (Files.system wording).readText? files "in.rb".toList ≠ none := by
    decide +kernel
  have first : FailsFirst ((Files.system wording).readText? files) sources "in.rb".toList
      .readNames (.unreadable "f.json".toList) := by
    refine ⟨.readNames rfl (by decide +kernel), fun earlier member other fails => ?_⟩
    obtain rfl : earlier = .readInput := List.mem_singleton.mp member
    cases fails with
    | readInput missing => exact readable missing
  exact (runsCleanly (Files.system wording) (Files.view wording) files "in.rb".toList
    sources).failed (by decide +kernel) (.preparse (some "in.rb".toList)) first

end System

end Desugar

import VehicleRelay.Transcript

/-!
# Arguments of the command line

Help is printed, and nothing else, exactly when it is asked for, wherever that stands.  Otherwise
every argument belongs to exactly one part of the command line, and what the daemon is told
follows from the parts.
-/

namespace VehicleRelay

namespace CommandLine

/-- Decimal digits of a number of 64 bits. -/
structure Spells (digits : List Char) (count : UInt64) : Prop where
  given : digits ≠ []
  allDigits : ∀ digit ∈ digits, digit.isDigit = true
  value : Nat.ofDigitChars 10 digits 0 = count.toNat

/-- A number of 64 bits in decimal digits, perhaps after a plus sign. -/
def Counts (text : String) (count : UInt64) : Prop :=
  ∃ digits, (text.toList = digits ∨ text.toList = '+' :: digits) ∧ Spells digits count

/-- What one argument stands for, or two. -/
inductive Part
  | jsonLogs
  | demo
  | wait (text : String) (millis : UInt64)
  | path (argument : String)
  | unknown (argument : String)
deriving DecidableEq

namespace Part

def arguments : Part → List String
  | .jsonLogs => ["--json-logs"]
  | .demo => ["--mock"]
  | .wait text _ => ["--wait-ms", text]
  | .path argument => [argument]
  | .unknown argument => [argument]

def millis? : Part → Option UInt64
  | .wait _ millis => some millis
  | _ => none

def path? : Part → Option String
  | .path argument => some argument
  | _ => none

def unknown? : Part → Option String
  | .unknown argument => some argument
  | _ => none

end Part

/-- The parts that are a single option. -/
def flags : List Part :=
  [.jsonLogs, .demo]

def options : List String :=
  ["--json-logs", "--mock", "--wait-ms", "--help", "-h"]

/-- The part may stand in front of some arguments.  A time to wait takes the number after it,
if there is one. -/
def Part.StandsBefore (rest : List String) : Part → Prop
  | .jsonLogs | .demo => True
  | .wait text millis => Counts text millis
  | .path argument => argument.toList.head? ≠ some '-'
  | .unknown argument =>
      argument = "--wait-ms" ∧ (∀ text ∈ rest.head?, ∀ millis, ¬Counts text millis) ∨
        argument.toList.head? = some '-' ∧ argument ∉ options

/-- The arguments, from left to right, are those of the parts. -/
inductive Accounts : List String → List Part → Prop
  | nil : Accounts [] []
  | cons {part : Part} {rest : List String} {parts : List Part} :
      part.StandsBefore rest → Accounts rest parts →
        Accounts (part.arguments ++ rest) (part :: parts)

def AsksForHelp (arguments : List String) : Prop :=
  "--help" ∈ arguments ∨ "-h" ∈ arguments

/-! ## Numbers -/

theorem spells_iff {digits : List Char} {count : UInt64} :
    (if digits ≠ [] ∧ digits.all Char.isDigit ∧ Nat.ofDigitChars 10 digits 0 < UInt64.size then
      some (UInt64.ofNat (Nat.ofDigitChars 10 digits 0)) else none) = some count ↔
      Spells digits count := by
  rw [Option.ite_none_right_eq_some, Option.some.injEq, List.all_eq_true]
  constructor
  · rintro ⟨⟨given, allDigits, bounded⟩, rfl⟩
    exact ⟨given, allDigits, (UInt64.toNat_ofNat_of_lt' bounded).symm⟩
  · rintro ⟨given, allDigits, value⟩
    rw [value]
    exact ⟨⟨given, allDigits, count.toNat_lt⟩, UInt64.ofNat_toNat⟩

/-- A plus sign is no digit. -/
theorem not_spells_plus {rest : List Char} {count : UInt64} : ¬Spells ('+' :: rest) count :=
  fun spells => absurd (spells.allDigits '+' List.mem_cons_self) (by decide)

theorem readCount?_eq_some_iff {text : String} {count : UInt64} :
    readCount? text = some count ↔ Counts text count := by
  rw [readCount?, Counts]
  split
  · next rest signed =>
      rw [spells_iff, signed]
      constructor
      · exact fun spells => ⟨rest, .inr rfl, spells⟩
      · rintro ⟨_, rfl | same, spells⟩
        · exact absurd spells not_spells_plus
        · rwa [(List.cons.inj same).2]
  · next unsigned =>
      rw [spells_iff]
      constructor
      · exact fun spells => ⟨_, .inl rfl, spells⟩
      · rintro ⟨_, rfl | same, spells⟩
        · exact spells
        · exact absurd same (unsigned _)

theorem not_counts {text : String} (refused : readCount? text = none) (count : UInt64) :
    ¬Counts text count := by
  intro counts
  rw [readCount?_eq_some_iff.mpr counts] at refused
  contradiction

theorem Counts.unique {text : String} {first second : UInt64} (counts : Counts text first)
    (countsToo : Counts text second) : first = second := by
  have read := readCount?_eq_some_iff.mpr counts
  rw [readCount?_eq_some_iff.mpr countsToo] at read
  exact (Option.some.inj read).symm

theorem Counts.head_ne {text : String} {count : UInt64} (counts : Counts text count) :
    text.toList.head? ≠ some '-' := by
  obtain ⟨digits, spelled, spells⟩ := counts
  obtain ⟨first, others, rfl⟩ := List.exists_cons_of_ne_nil spells.given
  rcases spelled with plain | signed
  · rw [plain, List.head?_cons]
    intro same
    have digit := spells.allDigits first List.mem_cons_self
    rw [Option.some.inj same] at digit
    exact absurd digit (by decide)
  · rw [signed, List.head?_cons]
    exact fun same => absurd (Option.some.inj same) (by decide)

/-! ## Parts -/

/-- An option that is not `--wait-ms` is a flag, and all of it. -/
theorem Part.StandsBefore.of_mem_options {part : Part} {rest : List String} {option : String}
    (stands : part.StandsBefore rest) (isOption : option ∈ options)
    (member : option ∈ part.arguments) :
    part ∈ flags ∧ part.arguments = [option] ∨ option = "--wait-ms" := by
  have dashed : option.toList.head? = some '-' := by
    have all : ∀ option ∈ options, option.toList.head? = some '-' := by decide
    exact all option isOption
  cases part with
  | jsonLogs =>
      obtain rfl := List.mem_singleton.mp member
      exact .inl ⟨by decide, rfl⟩
  | demo =>
      obtain rfl := List.mem_singleton.mp member
      exact .inl ⟨by decide, rfl⟩
  | wait text millis =>
      rcases List.mem_cons.mp member with same | counted
      · exact .inr same
      · rw [List.mem_singleton] at counted
        exact absurd (counted ▸ dashed) (Counts.head_ne stands)
  | path argument =>
      rw [Part.arguments, List.mem_singleton] at member
      exact absurd (member ▸ dashed) stands
  | unknown argument =>
      rw [Part.arguments, List.mem_singleton] at member
      rcases stands with ⟨wait, _⟩ | ⟨_, other⟩
      · exact .inr (member.trans wait)
      · exact absurd (member ▸ isOption) other

theorem Part.StandsBefore.unique {part other : Part} {rest others : List String}
    (stands : part.StandsBefore rest)
    (same : part.arguments ++ rest = other.arguments ++ others)
    (standsOther : other.StandsBefore others) : part = other ∧ rest = others := by
  cases part <;> cases other <;> simp_all [Part.arguments, Part.StandsBefore, options]
  case wait.wait => exact stands.unique standsOther
  case wait.unknown =>
    obtain ⟨_, rfl⟩ := same
    exact standsOther _ rfl _ stands
  all_goals
    obtain ⟨rfl, _⟩ := same
    exact standsOther rfl

theorem Part.arguments_append_ne_nil (part : Part) (rest : List String) :
    part.arguments ++ rest ≠ [] := by
  cases part <;> exact List.cons_ne_nil _ _

variable {arguments : List String} {parts : List Part}

theorem Accounts.unique {others : List Part} (first : Accounts arguments parts)
    (second : Accounts arguments others) : others = parts := by
  induction first generalizing others with
  | nil =>
      generalize none : [] = arguments at second
      cases second with
      | nil => rfl
      | cons _ _ => exact absurd none.symm (Part.arguments_append_ne_nil _ _)
  | @cons part rest parts stands accounted induction =>
      generalize same : part.arguments ++ rest = arguments at second
      cases second with
      | nil => exact absurd same (Part.arguments_append_ne_nil _ _)
      | cons standsOther accountedOther =>
          obtain ⟨rfl, rfl⟩ := stands.unique same standsOther
          rw [induction accountedOther]

/-- No argument is left out, read twice or moved. -/
theorem Accounts.flatMap_arguments (accounts : Accounts arguments parts) :
    parts.flatMap Part.arguments = arguments := by
  induction accounts with
  | nil => rfl
  | cons stands accounted induction => rw [List.flatMap_cons, induction]

theorem Accounts.stands (accounts : Accounts arguments parts) {part : Part}
    (member : part ∈ parts) : ∃ rest, part.StandsBefore rest := by
  induction accounts with
  | nil => exact absurd member List.not_mem_nil
  | @cons first rest _ stands _ induction =>
      rcases List.mem_cons.mp member with rfl | later
      · exact ⟨rest, stands⟩
      · exact induction later

theorem Accounts.flag_mem_iff (accounts : Accounts arguments parts) {flag : Part}
    (isFlag : flag ∈ flags) {option : String} (alone : flag.arguments = [option]) :
    flag ∈ parts ↔ option ∈ arguments := by
  have isOption : option ∈ options ∧ option ≠ "--wait-ms" := by
    have all : ∀ flag ∈ flags, ∀ option ∈ flag.arguments, option ∈ options ∧
        option ≠ "--wait-ms" := by decide
    exact all flag isFlag option (alone ▸ List.mem_singleton_self option)
  rw [← accounts.flatMap_arguments, List.mem_flatMap]
  constructor
  · exact fun member => ⟨flag, member, alone ▸ List.mem_singleton_self option⟩
  · rintro ⟨part, member, given⟩
    obtain ⟨rest, stands⟩ := accounts.stands member
    rcases stands.of_mem_options isOption.1 given with ⟨isFlagToo, aloneToo⟩ | wait
    · have all : ∀ flag ∈ flags, ∀ other ∈ flags, other.arguments = flag.arguments →
          other = flag := by decide
      exact all flag isFlag part isFlagToo (aloneToo.trans alone.symm) ▸ member
    · exact absurd wait isOption.2

end CommandLine

/-! ## What the parts say -/

def Arguments.withPart (arguments : Arguments) : CommandLine.Part → Arguments
  | .jsonLogs => { arguments with jsonLogs := true }
  | .demo => { arguments with demo := true }
  | .wait _ millis => { arguments with waitMillis := millis }
  | .path argument => { arguments with settingsPath := some argument }
  | .unknown argument => { arguments with unknown := arguments.unknown ++ [argument] }

namespace CommandLine

/-- A flag that is given once is on; of times and paths the last one counts. -/
theorem foldl_withPart (before : Arguments) (parts : List Part) :
    parts.foldl Arguments.withPart before =
      { settingsPath := (parts.filterMap Part.path?).getLast?.or before.settingsPath
        jsonLogs := before.jsonLogs || decide (.jsonLogs ∈ parts)
        demo := before.demo || decide (.demo ∈ parts)
        waitMillis := (parts.filterMap Part.millis?).getLast?.getD before.waitMillis
        unknown := before.unknown ++ parts.filterMap Part.unknown? } := by
  induction parts generalizing before with
  | nil => simp
  | cons part parts induction =>
      rw [List.foldl_cons, induction]
      cases part <;>
        simp [Arguments.withPart, List.filterMap_cons, Part.path?, Part.millis?, Part.unknown?,
          List.getLast?_cons]

/-- What reading arguments gives, after what earlier ones have given. -/
inductive ReadsTo (before : Arguments) (arguments : List String) : Invocation → Prop
  | help : AsksForHelp arguments → ReadsTo before arguments .help
  | run {parts : List Part} : ¬AsksForHelp arguments → Accounts arguments parts →
      ReadsTo before arguments (.run (parts.foldl Arguments.withPart before))

theorem Part.StandsBefore.asksForHelp_iff {part : Part} {rest : List String}
    (stands : part.StandsBefore rest) :
    AsksForHelp (part.arguments ++ rest) ↔ AsksForHelp rest := by
  have silent : ∀ option ∈ ["--help", "-h"], option ∉ part.arguments := by
    intro option help member
    have isOption : ∀ option ∈ ["--help", "-h"], option ∈ options := by decide
    have all : ∀ flag ∈ flags, ∀ option ∈ ["--help", "-h"], flag.arguments ≠ [option] := by decide
    rcases stands.of_mem_options (isOption option help) member with ⟨isFlag, alone⟩ | rfl
    · exact all part isFlag option help alone
    · exact absurd help (by decide)
  simp [AsksForHelp, List.mem_append, silent]

theorem ReadsTo.cons {part : Part} {rest : List String} {before : Arguments}
    {invocation : Invocation} (stands : part.StandsBefore rest)
    (reads : ReadsTo (before.withPart part) rest invocation) :
    ReadsTo before (part.arguments ++ rest) invocation := by
  cases reads with
  | help asks => exact .help (stands.asksForHelp_iff.mpr asks)
  | run silent accounts =>
      exact .run (mt stands.asksForHelp_iff.mp silent) (accounts.cons stands)

theorem readFrom_readsTo (before : Arguments) (arguments : List String) :
    ReadsTo before arguments (readFrom before arguments) := by
  fun_induction readFrom before arguments with
  | case1 before => exact .run (by simp [AsksForHelp]) .nil
  | case2 before rest induction =>
      have stands : Part.StandsBefore rest .jsonLogs := trivial
      exact .cons stands induction
  | case3 before rest _ induction =>
      have stands : Part.StandsBefore rest .demo := trivial
      exact .cons stands induction
  | case4 before text others millis counted _ _ induction =>
      have stands : Part.StandsBefore others (.wait text millis) :=
        readCount?_eq_some_iff.mp counted
      exact .cons stands induction
  | case5 before text others uncounted _ _ induction =>
      have stands : Part.StandsBefore (text :: others) (.unknown "--wait-ms") := by
        refine .inl ⟨rfl, ?_⟩
        rintro _ ⟨⟩
        exact not_counts uncounted
      exact .cons stands induction
  | case6 before =>
      have stands : Part.StandsBefore [] (.unknown "--wait-ms") := .inl ⟨rfl, nofun⟩
      exact .cons stands (.run (by simp [AsksForHelp]) .nil)
  | case7 before argument rest _ _ _ help =>
      refine .help ?_
      rcases help with rfl | rfl
      · exact .inl List.mem_cons_self
      · exact .inr List.mem_cons_self
  | case8 before argument rest notLogs notDemo notWait notHelp dashed induction =>
      have stands : Part.StandsBefore rest (.unknown argument) := by
        refine .inr ⟨?_, ?_⟩
        · simpa [isOption] using dashed
        · simp [options, notLogs, notDemo, notWait, not_or.mp notHelp]
      exact .cons stands induction
  | case9 before argument rest _ _ _ _ undashed induction =>
      have stands : Part.StandsBefore rest (.path argument) := by
        simpa [isOption, Part.StandsBefore] using undashed
      exact .cons stands induction

/-! ## What the program prints -/

theorem log_conclude (log : List LogLine) (events : List PropertyValue) (awaited : Nat)
    (sent sentOnShutdown : List Sent) :
    (Daemon.conclude log events awaited sent sentOnShutdown).log = log := by
  rw [Daemon.conclude]
  split <;> rfl

theorem log_run_ne_nil (arguments : Arguments) (environment : Daemon.Environment)
    (awaited : Nat) : (Daemon.run arguments environment awaited).log ≠ [] := by
  simp only [Daemon.run]
  repeat' split
  all_goals
    simp [Daemon.runDemo, Daemon.runRemote, log_conclude]

/-- Every run of the daemon logs a line, so that none is taken for help. -/
theorem ofReport_run_ne_help (arguments : Arguments) (environment : Daemon.Environment)
    (jsonLogs : Bool) :
    Transcript.ofReport jsonLogs (Daemon.run arguments environment 0) ≠ .help := by
  intro same
  have output : (Daemon.run arguments environment 0).log.map (LogLine.toText jsonLogs) = [] := by
    refine Eq.trans ?_ (congrArg Transcript.output same)
    rw [Transcript.ofReport]
    split <;> rfl
  exact log_run_ne_nil arguments environment 0 (List.map_eq_nil_iff.mp output)

/-- The program prints its help and ends with the code 0 exactly if it is asked for help
anywhere.  Otherwise every argument belongs to exactly one part of the command line, in one way
only, and the daemon is run with what the parts say. -/
theorem read_accounts (environment : Daemon.Environment) (arguments : List String) :
    let transcript := Transcript.ofInvocation environment (read arguments)
    (read arguments = .help ↔ "--help" ∈ arguments ∨ "-h" ∈ arguments) ∧
    (transcript = { output := [], errors := help, lastOutput := none, exitCode := 0 } ↔
      "--help" ∈ arguments ∨ "-h" ∈ arguments) ∧
    (¬("--help" ∈ arguments ∨ "-h" ∈ arguments) → ∃ parts result,
      Accounts arguments parts ∧ (∀ others, Accounts arguments others → others = parts) ∧
      parts.flatMap Part.arguments = arguments ∧ read arguments = .run result ∧
      transcript = .ofReport result.jsonLogs (Daemon.run result environment 0) ∧
      (result.jsonLogs = true ↔ "--json-logs" ∈ arguments) ∧
      (result.demo = true ↔ "--mock" ∈ arguments) ∧
      result.waitMillis = (parts.filterMap Part.millis?).getLast?.getD 5000 ∧
      result.settingsPath = (parts.filterMap Part.path?).getLast? ∧
      result.unknown = parts.filterMap Part.unknown?) := by
  intro transcript
  have reads : ReadsTo {} arguments (read arguments) := readFrom_readsTo {} arguments
  have made : transcript = Transcript.ofInvocation environment (read arguments) := rfl
  generalize given : read arguments = invocation at reads made
  cases reads with
  | help asks => exact ⟨iff_of_true rfl asks, iff_of_true made asks, absurd asks⟩
  | @run parts silent accounts =>
      have unhelped : transcript ≠ .help := by
        rw [made]
        exact ofReport_run_ne_help _ _ _
      rw [foldl_withPart] at given made ⊢
      refine ⟨iff_of_false nofun silent, iff_of_false unhelped silent, fun _ => ?_⟩
      refine ⟨parts, _, accounts, fun _ => accounts.unique, accounts.flatMap_arguments, rfl,
        made, ?_, ?_, rfl, Option.or_none, List.nil_append _⟩
      · simpa using accounts.flag_mem_iff (by decide) rfl
      · simpa using accounts.flag_mem_iff (by decide) rfl

/-- A flag after `--wait-ms` is a flag, and a time that is too large is a path. -/
theorem read_accounts_of_refused_times :
    let arguments : List String :=
      ["--wait-ms", "+70", "--wait-ms", "--mock", "--wait-ms", "18446744073709551616"]
    let parts : List Part :=
      [.wait "+70" 70, .unknown "--wait-ms", .demo, .unknown "--wait-ms",
        .path "18446744073709551616"]
    ¬("--help" ∈ arguments ∨ "-h" ∈ arguments) ∧ Accounts arguments parts ∧
      ∃ result, read arguments = .run result ∧ result.jsonLogs ≠ true ∧ result.demo = true ∧
        result.waitMillis = 70 ∧ result.settingsPath = some "18446744073709551616" ∧
        result.unknown = ["--wait-ms", "--wait-ms"] := by
  intro arguments parts
  have silent : ¬("--help" ∈ arguments ∨ "-h" ∈ arguments) := by decide
  have wait : Part.StandsBefore (arguments.drop 2) (.wait "+70" 70) :=
    readCount?_eq_some_iff.mp (by decide)
  have flagged : Part.StandsBefore (arguments.drop 3) (.unknown "--wait-ms") := by
    refine .inl ⟨rfl, fun text next => ?_⟩
    obtain rfl : "--mock" = text := Option.some.inj next
    exact not_counts (by decide)
  have demo : Part.StandsBefore (arguments.drop 4) .demo := trivial
  have refused : Part.StandsBefore (arguments.drop 5) (.unknown "--wait-ms") := by
    refine .inl ⟨rfl, fun text next => ?_⟩
    obtain rfl : "18446744073709551616" = text := Option.some.inj next
    exact not_counts (by decide)
  have path : Part.StandsBefore [] (.path "18446744073709551616") :=
    fun dashed => absurd dashed (by decide)
  have accounts : Accounts arguments parts :=
    .cons wait (.cons flagged (.cons demo (.cons refused (.cons path .nil))))
  obtain ⟨_, result, _, unique, _, given, _, logs, mock, waits, paths, unknown⟩ :=
    (read_accounts ⟨fun _ => none, fun _ => .down⟩ arguments).2.2 silent
  rw [← unique parts accounts] at waits paths unknown
  exact ⟨silent, accounts, result, given, mt logs.mp (by decide), mock.mpr (by decide), waits,
    paths, unknown⟩

end CommandLine

end VehicleRelay

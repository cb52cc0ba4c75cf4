import DdlModels.Proofs.OutputOption
import DdlModels.Proofs.WrittenFiles
import DdlModels.Command.Run

/-!
# All or nothing

A run that fails prints nothing and leaves all files as they are. A conversion that is written to a file writes
there what it would print, and changes no other file.
-/

namespace DdlModels

variable {fs : Files} {path : String}

private theorem run_bind {α β : Type} (program : StateM Files α) (next : α → StateM Files β) (fs : Files) :
    (program >>= next).run fs = (next (program.run fs).1).run (program.run fs).2 := rfl

private theorem run_readText (path : String) (fs : Files) :
    (FileAccess.readText path : StateM Files _).run fs = (fs.readText path, fs) := rfl

private theorem run_isFile (path : String) (fs : Files) :
    (FileAccess.isFile path : StateM Files _).run fs = (fs.isFile path, fs) := rfl

private theorem run_writeText (path text : String) (fs : Files) :
    (FileAccess.writeText path text : StateM Files _).run fs =
      match fs.writeText path text with
      | .error reason => (.error reason, fs)
      | .ok written => (.ok (), written) := by
  have got : (get : StateM Files Files).run fs = (fs, fs) := rfl
  simp only [FileAccess.writeText, run_bind, got]
  cases fs.writeText path text <;> rfl

theorem Settings.load_keeps (userDirectory explicit : Option String) (fs : Files) :
    ∃ settings, (Settings.load userDirectory explicit : StateM Files _).run fs = (settings, fs) := by
  have ofFile (path : String) : ∃ settings, (Settings.ofFile path : StateM Files _).run fs = (settings, fs) := by
    rw [Settings.ofFile, run_bind, run_readText]
    cases fs.readText path with
    | error reason => exact ⟨_, rfl⟩
    | ok source =>
      cases found : Settings.ofDocument? source with
      | none => exact ⟨_, by simp only [found]; rfl⟩
      | some settings => exact ⟨_, by simp only [found]; rfl⟩
  have ofFirstFile (paths : List String) :
      ∃ settings, (Settings.ofFirstFile paths : StateM Files _).run fs = (settings, fs) := by
    induction paths with
    | nil => exact ⟨_, rfl⟩
    | cons path paths ih =>
      rw [Settings.ofFirstFile, run_bind, run_isFile]
      cases fs.isFile path with
      | true => exact ofFile path
      | false => exact ih
  cases explicit with
  | some path => exact ofFile path
  | none => exact ofFirstFile _

namespace Command

variable {environment : Environment} {options : Options} {arguments front back given : List String} {file : String}

/-- What a run on files in memory comes to, and what it makes of them. -/
def runOn (fs : Files) (environment : Environment) (arguments : List String) : Outcome × Files :=
  (run environment arguments : StateM Files Outcome).run fs

theorem printTree_cases (path : String) (fs : Files) :
    (∃ failure notices, (printTree path : StateM Files _).run fs = (Failure.outcome failure notices, fs)) ∨
      ∃ text notices, (printTree path : StateM Files _).run fs = ({ output := text, notices }, fs) := by
  rw [printTree, run_bind, run_readText]
  cases fs.readText path with
  | error reason => exact .inl ⟨_, _, rfl⟩
  | ok source =>
    cases found : (Sql.readScript source).tree source.toList with
    | error cause => exact .inl ⟨_, _, by simp only [found]; rfl⟩
    | ok tree => exact .inr ⟨_, _, by simp only [found]; rfl⟩

/-- Up to its delivery a conversion changes no file, and does not depend on where it is delivered. -/
theorem generate_cases (environment : Environment) (options : Options) (file : String) (fs : Files) :
    (∃ failure notices, ∀ output, (generate environment { options with output } file : StateM Files _).run fs =
      (Failure.outcome failure notices, fs)) ∨
    ∃ tables text notices, ∀ output, (generate environment { options with output } file : StateM Files _).run fs =
      (deliver output tables text notices : StateM Files _).run fs := by
  obtain ⟨loaded, load⟩ := Settings.load_keeps environment.userDirectory options.config fs
  simp only [generate, run_bind, load]
  cases loaded with
  | error cause => exact .inl ⟨_, _, fun _ => rfl⟩
  | ok settings =>
    simp only [convertTo, run_bind, run_readText]
    cases fs.readText file with
    | error reason => exact .inl ⟨_, _, fun _ => rfl⟩
    | ok source =>
      simp only
      cases (buildPackage (settings.override (options.package <|> environment.package)) source).result with
      | error cause => exact .inl ⟨_, _, fun _ => rfl⟩
      | ok package => exact .inr ⟨_, _, _, fun _ => rfl⟩

theorem deliver_cases (output : Option String) (tables : Nat) (text : String) (notices : List Notice) (fs : Files) :
    (∃ failure, (deliver output tables text notices : StateM Files _).run fs = (Failure.outcome failure notices, fs)) ∨
      ((deliver output tables text notices : StateM Files _).run fs).1.code = 0 := by
  cases output with
  | none => exact .inr rfl
  | some path =>
    simp only [deliver, run_bind, run_writeText]
    cases fs.writeText path text with
    | error reason => exact .inl ⟨_, rfl⟩
    | ok written => exact .inr rfl

theorem deliver_written {place : List String} (h : fs.target path = .ok place) (tables : Nat) (text : String)
    (notices : List Notice) : ∃ errors, (deliver (some path) tables text notices : StateM Files _).run fs =
      ({ errors, notices }, fs.put place (.text text)) := by
  simp only [deliver, run_bind, run_writeText, Files.writeText_eq_ok h]
  exact ⟨_, rfl⟩

/-- A conversion that fails changes no file. -/
theorem generate_fails_or_ends (environment : Environment) (options : Options) (file : String) (fs : Files) :
    (∃ failure notices, (generate environment options file : StateM Files _).run fs =
        (Failure.outcome failure notices, fs)) ∨
      ((generate environment options file : StateM Files _).run fs).1.code = 0 := by
  rcases generate_cases environment options file fs with ⟨failure, notices, failed⟩ | ⟨tables, text, notices, delivered⟩
  · exact .inl ⟨failure, notices, failed options.output⟩
  · rw [show options = { options with output := options.output } from rfl, delivered options.output]
    rcases deliver_cases options.output tables text notices fs with ⟨failure, failed⟩ | ended
    · exact .inl ⟨failure, notices, failed⟩
    · exact .inr ended

theorem runOn_generate (h : Request.ofArguments arguments = .ok (.generate file options)) :
    runOn fs environment arguments =
      (((generate environment options file : StateM Files _).run fs).1.filtered options.verbose,
        ((generate environment options file : StateM Files _).run fs).2) := by
  rw [runOn, run, h]
  rfl

theorem runOn_tree (h : Request.ofArguments arguments = .ok (.tree file options)) :
    runOn fs environment arguments =
      (((printTree file : StateM Files _).run fs).1.filtered options.verbose,
        ((printTree file : StateM Files _).run fs).2) := by
  rw [runOn, run, h]
  rfl

/-- A run with the exit code of a failure prints nothing and changes no file. -/
theorem runOn_failed (failed : (runOn fs environment arguments).1.code = 1) :
    (runOn fs environment arguments).1.output = "" ∧ (runOn fs environment arguments).2 = fs := by
  cases asked : Request.ofArguments arguments with
  | error interruption =>
    have told : runOn fs environment arguments = (interruption.outcome, fs) := by
      rw [runOn, run, asked]
      rfl
    rw [told] at failed
    cases interruption <;> simp [Interruption.outcome] at failed
  | ok request =>
    cases request with
    | tree file options =>
      rw [runOn_tree asked] at failed ⊢
      rcases printTree_cases file fs with ⟨failure, notices, found⟩ | ⟨text, notices, found⟩
      · rw [found]
        exact ⟨rfl, rfl⟩
      · rw [found] at failed
        contradiction
    | generate file options =>
      rw [runOn_generate asked] at failed ⊢
      rcases generate_fails_or_ends environment options file fs with ⟨failure, notices, found⟩ | ended
      · rw [found]
        exact ⟨rfl, rfl⟩
      · exact absurd (ended.symm.trans failed) (by decide)
    | hint =>
      have told : runOn fs environment arguments = ({ output := hint }, fs) := by
        rw [runOn, run, asked]
        rfl
      rw [told] at failed
      contradiction

/-- A conversion that goes well changes no file but the one that it is delivered to, which then has the text that is
printed if no file is given. -/
theorem runOn_withOutput {place : List String} (asked : Request.ofArguments arguments = .ok (.generate file options))
    (printing : options.output = none)
    (writing : Request.ofArguments given = .ok (.generate file (options.withOutput path)))
    (ended : (runOn fs environment arguments).1.code = 0) (writable : fs.target path = .ok place) :
    (runOn fs environment arguments).2 = fs ∧
      (runOn fs environment given).1.code = 0 ∧ (runOn fs environment given).1.output = "" ∧
      (runOn fs environment given).2 = fs.put place (.text (runOn fs environment arguments).1.output) := by
  rw [runOn_generate asked] at ended ⊢
  rw [runOn_generate writing]
  rcases generate_cases environment options file fs with ⟨failure, notices, failed⟩ | ⟨tables, text, notices, delivered⟩
  · rw [show options = { options with output := options.output } from rfl, failed options.output] at ended
    contradiction
  · obtain ⟨errors, written⟩ := deliver_written writable tables text notices
    have printed : (generate environment options file : StateM Files _).run fs = ({ output := text, notices }, fs) := by
      rw [show options = { options with output := none } by rw [← printing], delivered none]
      rfl
    have whole : (generate environment (options.withOutput path) file : StateM Files _).run fs =
        ({ errors, notices }, fs.put place (.text text)) := (delivered (some path)).trans written
    rw [printed, whole]
    exact ⟨rfl, rfl, rfl, rfl⟩

private theorem namesOf_plain : ∀ name ∈ ["a", "b", "c", "p", "-p"], Files.namesOf name = .ok [name] := by
  have plain : ∀ name ∈ ["a", "b", "c", "p", "-p"], '/' ∉ name.toList ∧ '\x00' ∉ name.toList ∧ name ≠ "" ∧
      name.utf8ByteSize ≤ Files.pathLimit := by decide +kernel
  intro name mem
  obtain ⟨slashless, whole, nonempty, short⟩ := plain name mem
  exact Files.namesOf_slashless slashless whole nonempty short

private theorem startOf_rooted (files : List File) (path : String) : (⟨[], files⟩ : Files).startOf path = [] :=
  ite_self []

private theorem schema_and_settings :
    let fs : Files := ⟨[], [⟨["a"], .text "CREATE TABLE t (id INT);"⟩, ⟨["c"], .text "package = 'entity'"⟩]⟩
    (fs.readText "a" = .ok "CREATE TABLE t (id INT);" ∧ fs.readText "c" = .ok "package = 'entity'" ∧
        fs.readText "b" = .error .missing) ∧
      fs.target "c" = .ok ["c"] ∧ fs.target "p" = .ok ["p"] ∧ fs.target "-p" = .ok ["-p"] := by
  have names : ∀ name ∈ ["a", "b", "c", "p", "-p"], Files.namesOf name = .ok [name] := namesOf_plain
  simp only [List.forall_mem_cons] at names
  simp only [Files.readText, Files.target, Files.locate, names, startOf_rooted]
  decide +kernel

private theorem converts_with_settings (schema : fs.readText "a" = .ok "CREATE TABLE t (id INT);")
    (settings : fs.readText "c" = .ok "package = 'entity'") : (runOn fs {} ["--file", "a", "-c", "c"]).1.code = 0 := by
  have asked : Request.ofArguments ["--file", "a", "-c", "c"] =
      .ok (.generate "a" { file := some "a", config := some "c" }) := rfl
  have load : (Settings.load none (some "c") : StateM Files _).run fs = (.ok ⟨"entity"⟩, fs) := by
    have document : Settings.ofDocument? "package = 'entity'" = some ⟨"entity"⟩ := by decide +kernel
    simp only [Settings.load, Settings.ofFile, run_bind, run_readText, settings]
    rw [document]
    rfl
  have built : (buildPackage ⟨"entity"⟩ "CREATE TABLE t (id INT);").result.toBool := by decide +kernel
  rw [runOn_generate asked]
  simp only [generate, convertTo, run_bind, load, run_readText, schema]
  rw [show Settings.override ⟨"entity"⟩ (none <|> none) = ⟨"entity"⟩ from rfl]
  cases found : (buildPackage ⟨"entity"⟩ "CREATE TABLE t (id INT);").result with
  | error cause =>
    rw [found] at built
    contradiction
  | ok package => rfl

/-- A run writes all or nothing. One that fails prints nothing and changes no file. If a conversion goes well and is
printed, then a path for the output, given between the other options, has it in that file instead, and in no other. -/
theorem all_or_nothing_is_written (fs : Files) (environment : Environment) :
    (∀ arguments, (runOn fs environment arguments).1.code = 1 →
      (runOn fs environment arguments).1.output = "" ∧ (runOn fs environment arguments).2 = fs) ∧
    ∀ front back file options path given place,
      Request.ofArguments (front ++ back) = .ok (.generate file options) → options.output = none →
      (runOn fs environment (front ++ back)).1.code = 0 →
      AfterOptions front → GivesOutput path given → fs.target path = .ok place →
      (runOn fs environment (front ++ back)).2 = fs ∧
      (runOn fs environment (front ++ given ++ back)).1.code = 0 ∧
      (runOn fs environment (front ++ given ++ back)).1.output = "" ∧
      (runOn fs environment (front ++ given ++ back)).2.readText path =
        .ok (runOn fs environment (front ++ back)).1.output ∧
      ∀ other, other ≠ place → Files.entry? (runOn fs environment (front ++ given ++ back)).2 other = fs.entry? other := by
  refine ⟨fun _ => runOn_failed, ?_⟩
  intro front back file options path given place asked printing ended after output writable
  have writing := ofArguments_withOutput asked printing after output (Files.ne_empty_of_target writable)
  obtain ⟨kept, code, silent, written⟩ := runOn_withOutput asked printing writing ended writable
  refine ⟨kept, code, silent, ?_, ?_⟩
  · rw [written]
    exact Files.readText_put writable _
  · intro other apart
    rw [written]
    exact Files.entry?_put_of_ne (Files.target_eq_ok writable).2.1 apart

/-- The file of the settings can be the one that is written. A run for a file that is not there changes nothing. -/
theorem settings_are_replaced_by_models :
    let fs : Files := ⟨[], [⟨["a"], .text "CREATE TABLE t (id INT);"⟩, ⟨["c"], .text "package = 'entity'"⟩]⟩
    ((runOn fs {} ["--file", "a", "-c", "c"]).1.code = 0 ∧ fs.target "c" = .ok ["c"] ∧
      (runOn fs {} ["--file", "a", "-o", "c", "-c", "c"]).1.output = "" ∧
      (runOn fs {} ["--file", "a", "-o", "c", "-c", "c"]).2.readText "c" =
        .ok (runOn fs {} ["--file", "a", "-c", "c"]).1.output) ∧
    (runOn fs {} ["tree", "b"]).1.code = 1 ∧ (runOn fs {} ["tree", "b"]).2 = fs := by
  intro fs
  obtain ⟨⟨schema, settings, absent⟩, writable, -, -⟩ := schema_and_settings
  have ended := converts_with_settings schema settings
  have failed : (runOn fs {} ["tree", "b"]).1.code = 1 := by
    have asked : Request.ofArguments ["tree", "b"] = .ok (.tree "b" {}) := rfl
    rw [runOn_tree asked]
    simp only [printTree, run_bind, run_readText]
    rw [absent]
    rfl
  obtain ⟨nothing, all⟩ := all_or_nothing_is_written fs {}
  have asked : Request.ofArguments (["--file", "a"] ++ ["-c", "c"]) =
      .ok (.generate "a" { file := some "a", config := some "c" }) := rfl
  obtain ⟨-, -, silent, written, -⟩ :=
    all _ _ _ _ "c" ["-o", "c"] _ asked rfl ended ⟨_, _, rfl, rfl⟩ (.short (.inl (by decide))) writable
  exact ⟨⟨ended, writable, silent, written⟩, failed, (nothing _ failed).2⟩

/-- A path for the output is left alone where the version is asked for, and a path that begins with a dash is no value
of an option that stands by itself. -/
theorem version_and_dash_leave_output_alone :
    let fs : Files := ⟨[], [⟨["a"], .text "CREATE TABLE t (id INT);"⟩, ⟨["c"], .text "package = 'entity'"⟩]⟩
    (fs.target "p" = .ok ["p"] ∧ (runOn fs {} ["--file", "a", "--version"]).1.code = 0 ∧
      (runOn fs {} ["--file", "a", "--version", "--output", "p"]).1.output = "sql2gorm 0.3.0\n" ∧
      Files.entry? (runOn fs {} ["--file", "a", "--version", "--output", "p"]).2 ["p"] = none) ∧
    fs.target "-p" = .ok ["-p"] ∧ (runOn fs {} ["--file", "a", "-c", "c"]).1.code = 0 ∧
      (runOn fs {} ["--file", "a", "-c", "c", "--output", "-p"]).1.code = 2 ∧
      Files.entry? (runOn fs {} ["--file", "a", "-c", "c", "--output", "-p"]).2 ["-p"] = none := by
  intro fs
  obtain ⟨⟨schema, settings, -⟩, -, plain, dashed⟩ := schema_and_settings
  exact ⟨⟨plain, rfl, rfl, by decide⟩, dashed, converts_with_settings schema settings, rfl, by decide⟩

end Command
end DdlModels

import Mathlib.Data.List.TakeDrop
import DdlModels.Command.Options

/-!
# Adding the option for the output

Options may come in any order. If the path of the output is given between the other options of a command line,
then what it asks for changes in nothing but that path.
-/

namespace DdlModels.Command

def Options.withOutput (path : String) (options : Options) : Options := { options with output := some path }

namespace Reading

/-- Reads one argument that is an option, the value of one, or both. -/
def take (reading : Reading) (argument : String) : Except Interruption Reading :=
  match Argument.ofString argument, reading.open? with
  | .long name value, _ =>
    match Switch.ofName? name with
    | none => throw .misuse
    | some switch => reading.switch switch value
  | .short letters, _ => reading.letters letters
  | .word value, some setting => return { reading with pending := some ⟨setting, some value⟩ }
  | .separator, _ | .word _, none => throw .misuse

/-- No path for the output has been given so far. -/
def prints (reading : Reading) : Prop :=
  reading.options.output = none ∧ ∀ value, reading.pending ≠ some ⟨.output, value⟩

/-- The same has been read, but for a path for the output that was given in addition. -/
structure WithOutput (path : String) (reading other : Reading) : Prop where
  waits : other.open? = reading.open?
  settles : other.settle = reading.settle.map (·.withOutput path)
  options : reading.open?.isSome → other.options = reading.options.withOutput path

end Reading

/-- A place on a command line where all options before it have their values. -/
def AfterOptions (front : List String) : Prop :=
  ∃ reading options, front.foldlM Reading.take {} = .ok reading ∧ reading.settle = .ok options

/-- The arguments by which a path for the output can be given. -/
inductive GivesOutput (path : String) : List String → Prop
  | long (word : '-' ∉ path.toList.head? ∨ path = "-") : GivesOutput path ["--output", path]
  | short (word : '-' ∉ path.toList.head? ∨ path = "-") : GivesOutput path ["-o", path]
  | attached : GivesOutput path ["--output=" ++ path]

variable {reading next other : Reading} {options : Options} {setting : Setting} {value path file argument : String}
  {front back arguments given : List String}

theorem Options.set_withOutput (h : setting ≠ .output) :
    (options.withOutput path).set value setting = (options.set value setting).map (·.withOutput path) := by
  cases setting with
  | output => contradiction
  | file =>
    simp only [Options.set, Options.withOutput]
    cases once options.file (path? value) <;> rfl
  | package =>
    simp only [Options.set, Options.withOutput]
    cases once options.package (some value) <;> rfl
  | config =>
    simp only [Options.set, Options.withOutput]
    cases once options.config (path? value) <;> rfl
  | format =>
    simp only [Options.set, Options.withOutput]
    cases once options.format (Format.ofName? value) <;> rfl

private theorem exists_of_bind {ε α β : Type} {result : Except ε α} {next : α → Except ε β} {b : β}
    (h : (result >>= next) = .ok b) : ∃ a, result = .ok a ∧ next a = .ok b := by
  cases result with
  | error reason => contradiction
  | ok a => exact ⟨a, rfl, h⟩

theorem once_eq_ok {α : Type} {former given value : Option α} (h : once former given = .ok value) :
    former = none ∧ value.isSome := by
  rw [once.eq_def] at h
  split at h
  case h_1 given =>
    obtain rfl := Except.ok.inj h
    exact ⟨rfl, rfl⟩
  case h_2 => contradiction

theorem Options.set_output {changed : Options} (h : options.set value setting = .ok changed) :
    changed.output = none ↔ options.output = none ∧ setting ≠ .output := by
  cases setting with
  | output =>
    obtain ⟨output, given, same⟩ := exists_of_bind h
    obtain rfl := Except.ok.inj same
    have some_output := (once_eq_ok given).2
    simp [Option.isSome_iff_ne_none.mp some_output]
  | file =>
    obtain ⟨file, -, same⟩ := exists_of_bind h
    obtain rfl := Except.ok.inj same
    simp
  | package =>
    obtain ⟨package, -, same⟩ := exists_of_bind h
    obtain rfl := Except.ok.inj same
    simp
  | config =>
    obtain ⟨config, -, same⟩ := exists_of_bind h
    obtain rfl := Except.ok.inj same
    simp
  | format =>
    obtain ⟨format, -, same⟩ := exists_of_bind h
    obtain rfl := Except.ok.inj same
    simp

theorem Options.set_output_path (absent : options.output = none) (nonempty : path ≠ "") :
    options.set path .output = .ok (options.withOutput path) := by
  simp [Options.set, path?, nonempty, absent, once, withOutput, bind, Except.bind, pure, Except.pure]

theorem Options.setVerbose_withOutput :
    (options.withOutput path).setVerbose = options.setVerbose.map (·.withOutput path) := by
  cases verbose : options.verbose <;> simp [setVerbose, withOutput, verbose, Except.map]

theorem Options.setVerbose_output {changed : Options} (h : options.setVerbose = .ok changed) :
    changed.output = options.output := by
  rw [setVerbose] at h
  split at h
  · contradiction
  · obtain rfl := Except.ok.inj h
    rfl

namespace Reading

theorem prints_iff_of_settle (h : reading.settle = .ok options) : reading.prints ↔ options.output = none := by
  obtain ⟨former, pending⟩ := reading
  rcases pending with _ | ⟨setting, _ | value⟩
  · obtain rfl : former = options := Except.ok.inj h
    exact ⟨fun printing => printing.1, fun absent => ⟨absent, nofun⟩⟩
  · contradiction
  · rw [Options.set_output h]
    constructor
    · rintro ⟨absent, other⟩
      refine ⟨absent, ?_⟩
      rintro rfl
      exact other (some value) rfl
    · rintro ⟨absent, other⟩
      refine ⟨absent, ?_⟩
      rintro value ⟨⟩
      exact other rfl

theorem open?_of_settle (h : reading.settle = .ok options) : reading.open? = none := by
  obtain ⟨given, _ | ⟨setting, _ | value⟩⟩ := reading
  · rfl
  · contradiction
  · rfl

variable {switch : Switch} {given? : Option String} {letters : List Char}

theorem switch_eq_ok_iff : reading.switch switch given? = .ok next ↔
    ∃ options, reading.settle = .ok options ∧ Reading.switch { options } switch given? = .ok next := by
  constructor
  · exact exists_of_bind
  · rintro ⟨options, settled, same⟩
    rw [Reading.switch, settled]
    exact same

theorem switch_settled (h : Reading.switch { options } switch given? = .ok next) :
    (∃ setting value changed, switch = .setting setting ∧ given? = some value ∧
      options.set value setting = .ok changed ∧ next = { options := changed }) ∨
    (∃ setting, switch = .setting setting ∧ given? = none ∧ next = { options, pending := some { setting } }) ∨
    ∃ changed, switch = .verbose ∧ given? = none ∧ options.setVerbose = .ok changed ∧
      next = { options := changed } := by
  cases switch with
  | setting setting =>
    cases given? with
    | some value =>
      obtain ⟨settled, start, h⟩ := exists_of_bind h
      obtain rfl : options = settled := Except.ok.inj start
      obtain ⟨changed, set, same⟩ := exists_of_bind h
      exact .inl ⟨setting, value, changed, rfl, rfl, set, (Except.ok.inj same).symm⟩
    | none => exact .inr (.inl ⟨setting, rfl, rfl, (Except.ok.inj h).symm⟩)
  | verbose =>
    cases given? with
    | some value => contradiction
    | none =>
      obtain ⟨settled, start, h⟩ := exists_of_bind h
      obtain rfl : options = settled := Except.ok.inj start
      obtain ⟨changed, set, same⟩ := exists_of_bind h
      exact .inr (.inr ⟨changed, rfl, rfl, set, (Except.ok.inj same).symm⟩)
  | help => cases given? <;> contradiction
  | version => cases given? <;> contradiction

theorem prints_of_switch (h : reading.switch switch given? = .ok next) (printing : next.prints) : reading.prints := by
  obtain ⟨options, settled, h⟩ := switch_eq_ok_iff.mp h
  refine (prints_iff_of_settle settled).mpr ?_
  rcases switch_settled h with ⟨setting, value, changed, -, -, set, rfl⟩ | ⟨setting, -, -, rfl⟩ |
    ⟨changed, -, -, set, rfl⟩
  · exact ((Options.set_output set).mp printing.1).1
  · exact printing.1
  · exact (Options.setVerbose_output set).symm.trans printing.1

/-- Reading an option that is not the one for the output does not depend on whether that was given. -/
theorem WithOutput.of_switch (h : WithOutput path reading other) (found : reading.switch switch given? = .ok next)
    (printing : next.prints) : ∃ after, other.switch switch given? = .ok after ∧ WithOutput path next after := by
  obtain ⟨options, settled, found⟩ := switch_eq_ok_iff.mp found
  have settles : other.settle = .ok (options.withOutput path) := by
    rw [h.settles, settled]
    rfl
  -- what was read before matters only by the options that it comes to
  suffices goes : ∃ after, Reading.switch { options := options.withOutput path } switch given? = .ok after ∧
      WithOutput path next after by
    obtain ⟨after, again, related⟩ := goes
    exact ⟨after, switch_eq_ok_iff.mpr ⟨_, settles, again⟩, related⟩
  rcases switch_settled found with ⟨setting, value, changed, rfl, rfl, set, rfl⟩ | ⟨setting, rfl, rfl, rfl⟩ |
    ⟨changed, rfl, rfl, set, rfl⟩
  · have same := ((Options.set_output set).mp printing.1).2
    refine ⟨{ options := changed.withOutput path }, ?_, ⟨rfl, rfl, nofun⟩⟩
    show (do return ({ options := ← (options.withOutput path).set value setting } : Reading)) = _
    rw [Options.set_withOutput same, set]
    rfl
  · exact ⟨_, rfl, ⟨rfl, rfl, fun _ => rfl⟩⟩
  · refine ⟨{ options := changed.withOutput path }, ?_, ⟨rfl, rfl, nofun⟩⟩
    show (do return ({ options := ← (options.withOutput path).setVerbose } : Reading)) = _
    rw [Options.setVerbose_withOutput, set]
    rfl

theorem letters_cons_eq_ok {c : Char} (h : reading.letters (c :: letters) = .ok next) :
    ∃ switch, Switch.ofLetter? c = some switch ∧
      ((∃ setting, switch = .setting setting ∧ reading.switch switch (attached? letters) = .ok next) ∨
        ((∀ setting, switch ≠ .setting setting) ∧
          ∃ between, reading.switch switch none = .ok between ∧ between.letters letters = .ok next)) := by
  rw [Reading.letters] at h
  split at h
  case h_1 => contradiction
  case h_2 setting letter => exact ⟨_, letter, .inl ⟨setting, rfl, h⟩⟩
  case h_3 switch plain letter =>
    obtain ⟨between, turn, rest⟩ := exists_of_bind h
    refine ⟨switch, letter, .inr ⟨?_, between, turn, rest⟩⟩
    rintro setting rfl
    exact plain setting rfl

theorem prints_of_letters (h : reading.letters letters = .ok next) (printing : next.prints) : reading.prints := by
  induction letters generalizing reading with
  | nil =>
    obtain rfl : reading = next := Except.ok.inj h
    exact printing
  | cons c letters ih =>
    obtain ⟨switch, -, ⟨setting, -, last⟩ | ⟨-, between, turn, rest⟩⟩ := letters_cons_eq_ok h
    · exact prints_of_switch last printing
    · exact prints_of_switch turn (ih rest)

theorem WithOutput.of_letters (h : WithOutput path reading other) (found : reading.letters letters = .ok next)
    (printing : next.prints) : ∃ after, other.letters letters = .ok after ∧ WithOutput path next after := by
  induction letters generalizing reading other with
  | nil =>
    obtain rfl : reading = next := Except.ok.inj found
    exact ⟨other, rfl, h⟩
  | cons c letters ih =>
    obtain ⟨switch, letter, ⟨setting, rfl, last⟩ | ⟨plain, between, turn, rest⟩⟩ := letters_cons_eq_ok found
    · obtain ⟨after, again, related⟩ := h.of_switch last printing
      refine ⟨after, ?_, related⟩
      rw [Reading.letters, letter]
      exact again
    · obtain ⟨middle, first, related⟩ := h.of_switch turn (prints_of_letters rest printing)
      obtain ⟨after, again, related⟩ := ih related rest
      refine ⟨after, ?_, related⟩
      rw [Reading.letters, letter]
      cases switch with
      | setting setting => exact absurd rfl (plain setting)
      | verbose | help | version =>
        simp only [first]
        exact again

theorem prints_of_take (h : reading.take argument = .ok next) (printing : next.prints) : reading.prints := by
  rw [take] at h
  cases form : Argument.ofString argument with
  | separator =>
    simp only [form] at h
    contradiction
  | long name given? =>
    simp only [form] at h
    split at h
    · contradiction
    · exact prints_of_switch h printing
  | short letters =>
    simp only [form] at h
    exact prints_of_letters h printing
  | word value =>
    cases waits : reading.open? with
    | none =>
      simp only [form, waits] at h
      contradiction
    | some setting =>
      -- had the option for the output been waiting, this would be its value
      simp only [form, waits] at h
      obtain rfl := Except.ok.inj h
      refine ⟨printing.1, ?_⟩
      intro other same
      rw [open?, same] at waits
      cases other with
      | some value => contradiction
      | none =>
        obtain rfl := Option.some.inj waits
        exact printing.2 (some value) rfl

theorem WithOutput.of_take (h : WithOutput path reading other) (found : reading.take argument = .ok next)
    (printing : next.prints) : ∃ after, other.take argument = .ok after ∧ WithOutput path next after := by
  rw [take] at found ⊢
  rw [h.waits]
  cases form : Argument.ofString argument with
  | separator =>
    simp only [form] at found
    contradiction
  | long name given? =>
    simp only [form] at found ⊢
    cases known : Switch.ofName? name with
    | none =>
      simp only [known] at found
      contradiction
    | some switch =>
      simp only [known] at found ⊢
      exact h.of_switch found printing
  | short letters =>
    simp only [form] at found ⊢
    exact h.of_letters found printing
  | word value =>
    cases waits : reading.open? with
    | none =>
      simp only [form, waits] at found
      contradiction
    | some setting =>
      simp only [form, waits] at found ⊢
      obtain rfl := Except.ok.inj found
      refine ⟨_, rfl, rfl, ?_, nofun⟩
      have same : setting ≠ .output := by
        rintro rfl
        exact printing.2 (some value) rfl
      have options := h.options (by rw [waits]; rfl)
      change other.options.set value setting = _
      rw [options, Options.set_withOutput same]
      rfl

end Reading

open Reading

theorem readArguments_cons_eq_ok (h : readArguments reading (argument :: arguments) = .ok (.generate file options)) :
    (∃ next, reading.take argument = .ok next ∧ readArguments next arguments = .ok (.generate file options)) ∨
      (Argument.ofString argument = .separator ∧ arguments = [] ∧
        readArguments reading [] = .ok (.generate file options)) := by
  rw [readArguments] at h
  rw [take]
  cases form : Argument.ofString argument with
  | separator =>
    simp only [form] at h
    split at h
    case isTrue ended => exact .inr ⟨rfl, List.isEmpty_iff.mp ended, h⟩
    case isFalse => contradiction
  | long name given? =>
    simp only [form] at h
    cases known : Switch.ofName? name with
    | none =>
      simp only [known] at h
      contradiction
    | some switch =>
      simp only [known] at h
      obtain ⟨next, turn, rest⟩ := exists_of_bind h
      exact .inl ⟨next, by simpa only [known] using turn, rest⟩
  | short letters =>
    simp only [form] at h
    obtain ⟨next, turn, rest⟩ := exists_of_bind h
    exact .inl ⟨next, turn, rest⟩
  | word value =>
    cases waits : reading.open? with
    | some setting =>
      simp only [form, waits] at h
      exact .inl ⟨_, rfl, h⟩
    | none =>
      simp only [form, waits] at h
      split at h
      case h_1 | h_2 | h_3 | h_4 => contradiction
      case h_6 | h_7 => contradiction
      case h_5 =>
        obtain ⟨tree, -, rest⟩ := exists_of_bind h
        obtain ⟨settled, -, same⟩ := exists_of_bind rest
        exact nomatch Except.ok.inj same

/-- Reading an argument and then the others is reading them all. -/
theorem readArguments_cons (h : reading.take argument = .ok next) :
    readArguments reading (argument :: arguments) = readArguments next arguments := by
  rw [take] at h
  rw [readArguments]
  cases form : Argument.ofString argument with
  | separator =>
    simp only [form] at h
    contradiction
  | long name given? =>
    simp only [form] at h ⊢
    cases known : Switch.ofName? name with
    | none =>
      simp only [known] at h
      contradiction
    | some switch =>
      simp only [known] at h ⊢
      rw [h]
      rfl
  | short letters =>
    simp only [form] at h ⊢
    rw [h]
    rfl
  | word value =>
    cases waits : reading.open? with
    | none =>
      simp only [form, waits] at h
      contradiction
    | some setting =>
      simp only [form, waits] at h ⊢
      obtain rfl := Except.ok.inj h
      rfl

theorem readArguments_append (h : front.foldlM take reading = .ok next) :
    readArguments reading (front ++ back) = readArguments next back := by
  induction front generalizing reading with
  | nil =>
    obtain rfl : reading = next := Except.ok.inj h
    rfl
  | cons argument front ih =>
    rw [List.foldlM_cons] at h
    obtain ⟨between, turn, rest⟩ := exists_of_bind h
    rw [List.cons_append, readArguments_cons turn, ih rest]

theorem readArguments_nil_eq_ok (h : readArguments reading [] = .ok (.generate file options)) :
    reading.settle = .ok options ∧ options.file = some file := by
  obtain ⟨settled, found, same⟩ := exists_of_bind h
  have request : settled.request = .generate file options := Except.ok.inj same
  rw [Options.request] at request
  split at request
  case h_1 path asked =>
    obtain ⟨rfl, rfl⟩ := Request.generate.inj request
    exact ⟨found, asked⟩
  case h_2 => contradiction

theorem prints_of_readArguments (h : readArguments reading arguments = .ok (.generate file options))
    (absent : options.output = none) : reading.prints := by
  induction arguments generalizing reading with
  | nil => exact (prints_iff_of_settle (readArguments_nil_eq_ok h).1).mpr absent
  | cons argument arguments ih =>
    rcases readArguments_cons_eq_ok h with ⟨next, turn, rest⟩ | ⟨-, -, ended⟩
    · exact prints_of_take turn (ih rest)
    · exact (prints_iff_of_settle (readArguments_nil_eq_ok ended).1).mpr absent

theorem Reading.WithOutput.readArguments (h : WithOutput path reading other)
    (found : Command.readArguments reading arguments = .ok (.generate file options)) (absent : options.output = none) :
    Command.readArguments other arguments = .ok (.generate file (options.withOutput path)) := by
  have ended {reading other : Reading} (h : WithOutput path reading other)
      (found : Command.readArguments reading [] = .ok (.generate file options)) :
      Command.readArguments other [] = .ok (.generate file (options.withOutput path)) := by
    obtain ⟨settled, asked⟩ := readArguments_nil_eq_ok found
    have request : (options.withOutput path).request = .generate file (options.withOutput path) := by
      simp [Options.request, Options.withOutput, asked]
    rw [Command.readArguments, h.settles, settled, ← request]
    rfl
  induction arguments generalizing reading other with
  | nil => exact ended h found
  | cons argument arguments ih =>
    rcases readArguments_cons_eq_ok found with ⟨next, turn, rest⟩ | ⟨form, rfl, last⟩
    · obtain ⟨after, again, related⟩ := h.of_take turn (prints_of_readArguments rest absent)
      rw [readArguments_cons again]
      exact ih related rest
    · have same : Command.readArguments other [argument] = Command.readArguments other [] := by
        rw [Command.readArguments, Command.readArguments]
        simp only [form]
        rfl
      rw [same]
      exact ended h last

theorem ofString_word (word : '-' ∉ path.toList.head? ∨ path = "-") : Argument.ofString path = .word path := by
  rw [Argument.ofString]
  rcases word with absent | rfl
  · split
    case h_1 same | h_2 same | h_3 same => simp [same] at absent
    case h_4 => rfl
  · rfl

theorem ofString_attached (path : String) : Argument.ofString ("--output=" ++ path) = .long "output" (some path) := by
  have chars : ("--output=" ++ path).toList = '-' :: '-' :: ("output".toList ++ '=' :: path.toList) := by
    rw [String.toList_append]
    rfl
  rw [Argument.ofString, chars]
  simp [List.span_eq_takeWhile_dropWhile]

theorem Reading.WithOutput.settled (settled : reading.settle = .ok options) :
    WithOutput path reading { options := options.withOutput path } := by
  refine ⟨(open?_of_settle settled).symm, ?_, ?_⟩
  · rw [settled]
    rfl
  · rw [open?_of_settle settled]
    nofun

theorem Reading.WithOutput.pending (settled : reading.settle = .ok options) (absent : options.output = none)
    (nonempty : path ≠ "") :
    WithOutput path reading { options, pending := some ⟨.output, some path⟩ } := by
  refine ⟨(open?_of_settle settled).symm, ?_, ?_⟩
  · change options.set path .output = _
    rw [settled, Options.set_output_path absent nonempty]
    rfl
  · rw [open?_of_settle settled]
    nofun

theorem take_output (settled : reading.settle = .ok options) :
    reading.take "--output" = .ok { options, pending := some { setting := .output } } ∧
    reading.take "-o" = .ok { options, pending := some { setting := .output } } := by
  have long : Argument.ofString "--output" = .long "output" none := by rfl
  have short : Argument.ofString "-o" = .short ['o'] := by rfl
  have turn : reading.switch (.setting .output) none = .ok { options, pending := some { setting := .output } } := by
    rw [Reading.switch, settled]
    rfl
  constructor
  · rw [take, long]
    exact turn
  · rw [take, short]
    exact turn

/-- However a path for the output is given, it is read as one. -/
theorem GivesOutput.take (h : GivesOutput path given) (nonempty : path ≠ "") (settled : reading.settle = .ok options)
    (absent : options.output = none) :
    ∃ after, given.foldlM Reading.take reading = .ok after ∧ WithOutput path reading after := by
  obtain ⟨long, short⟩ := take_output settled
  have follows (word : '-' ∉ path.toList.head? ∨ path = "-") :
      Reading.take { options, pending := some { setting := .output } } path =
        .ok { options, pending := some ⟨.output, some path⟩ } := by
    rw [Reading.take, ofString_word word]
    rfl
  cases h with
  | long word =>
    refine ⟨_, ?_, .pending settled absent nonempty⟩
    rw [List.foldlM_cons, long]
    change Reading.take _ path >>= _ = _
    rw [follows word]
    rfl
  | short word =>
    refine ⟨_, ?_, .pending settled absent nonempty⟩
    rw [List.foldlM_cons, short]
    change Reading.take _ path >>= _ = _
    rw [follows word]
    rfl
  | attached =>
    refine ⟨_, ?_, .settled settled⟩
    have turn : reading.take ("--output=" ++ path) = .ok { options := options.withOutput path } := by
      rw [Reading.take, ofString_attached]
      change reading.switch (.setting .output) (some path) = _
      rw [Reading.switch, settled]
      change (do return ({ options := ← options.set path .output } : Reading)) = _
      rw [Options.set_output_path absent nonempty]
      rfl
    rw [List.foldlM_cons, turn]
    rfl

/-- A path for the output that is given between other options changes nothing else of what is asked for. -/
theorem ofArguments_withOutput (h : Request.ofArguments (front ++ back) = .ok (.generate file options))
    (absent : options.output = none) (place : AfterOptions front) (output : GivesOutput path given)
    (nonempty : path ≠ "") :
    Request.ofArguments (front ++ given ++ back) = .ok (.generate file (options.withOutput path)) := by
  obtain ⟨reading, former, read, settled⟩ := place
  rw [Request.ofArguments, readArguments_append read] at h
  have before := (prints_iff_of_settle settled).mp (prints_of_readArguments h absent)
  obtain ⟨after, taken, related⟩ := output.take nonempty settled before
  rw [Request.ofArguments, List.append_assoc, readArguments_append read, readArguments_append taken]
  exact related.readArguments h absent

end DdlModels.Command

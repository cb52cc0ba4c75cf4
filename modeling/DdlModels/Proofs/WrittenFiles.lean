import Mathlib.Data.String.Basic
import DdlModels.Files.Memory

/-!
# Written files

A text that is written to a path is what is read there afterwards, and every other place holds what it held:
the directories on the way to a file are there before it is.
-/

namespace DdlModels.Files

variable {fs : Files} {place other next : List String} {content : Content} {name path text : String}

/-- A directory starts paths or has a file somewhere in it. -/
def HasBelow (fs : Files) (place : List String) : Prop :=
  place <+: fs.start ∨ ∃ file ∈ fs.files, place <+: file.place

/-- All directories above a place are there. -/
def Anchored (fs : Files) (place : List String) : Prop :=
  ∀ above, above <+: place → above ≠ place → fs.HasBelow above

theorem hasBelow_iff :
    (place.isPrefixOf fs.start || fs.files.any (place.isPrefixOf ·.place)) = true ↔ fs.HasBelow place := by
  rw [Bool.or_eq_true, List.any_eq_true, HasBelow]
  simp only [List.isPrefixOf_iff_prefix]

theorem HasBelow.above (h : fs.HasBelow place) (front : other <+: place) : fs.HasBelow other := by
  rcases h with start | ⟨file, hfile, below⟩
  · exact .inl (front.trans start)
  · exact .inr ⟨file, hfile, front.trans below⟩

theorem hasBelow_of_directory (h : fs.entry? place = some .directory) : fs.HasBelow place := by
  rw [ entry?] at h
  split at h
  case h_1 => simp at h
  case h_2 =>
    split at h
    case isTrue below => exact hasBelow_iff.mp below
    case isFalse => contradiction

private theorem splitOnAux_slashless (before : List Char) {rest : List Char} (slashless : '/' ∉ rest) :
    String.splitOnAux (.ofList (before ++ rest)) "/" 0 ⟨String.utf8Len before⟩ 0 [] = [.ofList (before ++ rest)] := by
  induction rest generalizing before with
  | nil =>
    have whole := String.extract_of_valid [] before []
    rw [String.splitOnAux, if_pos ((String.atEnd_of_valid before []).mpr rfl)]
    simp only [List.nil_append, List.append_nil, String.utf8Len_nil, Nat.zero_add] at whole
    simpa [-String.ofList_append] using whole
  | cons c rest ih =>
    have slash : String.Pos.Raw.get "/" 0 = '/' := by decide
    have other : c ≠ '/' := fun same => slashless (same ▸ List.mem_cons_self)
    have within : ¬ String.Pos.Raw.atEnd (.ofList (before ++ c :: rest)) ⟨String.utf8Len before⟩ :=
      fun ended => List.cons_ne_nil c rest ((String.atEnd_of_valid before (c :: rest)).mp ended)
    have later := ih (before ++ [c]) (List.not_mem_of_not_mem_cons slashless)
    rw [List.append_assoc, List.singleton_append] at later
    rw [String.splitOnAux, if_neg within, String.get_of_valid, slash, if_neg (by simpa using other), ← later]
    congr 1
    simpa [String.Pos.Raw.unoffsetBy] using String.next_of_valid before c rest

/-- A path without a slash is the name of a file. -/
theorem namesOf_slashless (slashless : '/' ∉ path.toList) (whole : '\x00' ∉ path.toList) (nonempty : path ≠ "")
    (short : path.utf8ByteSize ≤ pathLimit) : namesOf path = .ok [path] := by
  have names := splitOnAux_slashless [] slashless
  rw [List.nil_append, String.ofList_toList] at names
  rw [namesOf, String.contains_char_eq, if_neg (by simpa using whole), if_neg nonempty, if_neg (Nat.not_lt.mpr short),
    String.splitOn, if_neg (by decide)]
  exact congrArg Except.ok names

theorem anchored_startOf (fs : Files) (path : String) : fs.Anchored (fs.startOf path) := by
  intro above front _
  rw [startOf] at front
  split at front
  · exact .inl (List.prefix_nil.mp front ▸ List.nil_prefix)
  · exact .inl front

theorem step_eq_ok (h : fs.step place name = .ok next) :
    fs.entry? place = some .directory ∧ (next <+: place ∨ next = place ++ [name]) := by
  rw [step] at h
  split at h
  case h_1 | h_2 => contradiction
  case h_3 directory =>
    refine ⟨directory, ?_⟩
    split at h
    · contradiction
    split at h
    · exact .inl (Except.ok.inj h ▸ List.prefix_rfl)
    split at h
    · exact .inl (Except.ok.inj h ▸ List.dropLast_prefix place)
    · exact .inr (Except.ok.inj h).symm

theorem step_anchored (h : fs.step place name = .ok next) : fs.Anchored next := by
  obtain ⟨directory, inside⟩ := step_eq_ok h
  have below := hasBelow_of_directory directory
  intro above front proper
  rcases inside with inside | rfl
  · exact below.above (front.trans inside)
  · exact below.above ((List.prefix_concat_iff.mp front).resolve_left proper)

theorem resolve_cons {names : List String} :
    fs.resolve place (name :: names) = (fs.step place name).bind fun between => fs.resolve between names :=
  List.foldlM_cons

theorem resolve_anchored {names : List String} (anchored : fs.Anchored place)
    (h : fs.resolve place names = .ok next) : fs.Anchored next := by
  induction names generalizing place with
  | nil =>
    obtain rfl := Except.ok.inj h
    exact anchored
  | cons name names ih =>
    rw [resolve_cons] at h
    cases found : fs.step place name with
    | error reason =>
      rw [found] at h
      contradiction
    | ok between =>
      rw [found] at h
      exact ih (step_anchored found) h

theorem entry?_put (fs : Files) (place : List String) (content : Content) :
    Files.entry? (fs.put place content) place = some (.file content) := by
  simp [ entry?, put]

theorem hasBelow_put_iff (anchored : fs.Anchored place) (h : other ≠ place) :
    (fs.put place content).HasBelow other ↔ fs.HasBelow other := by
  constructor
  · rintro (start | ⟨file, hfile, front⟩)
    · exact .inl start
    · rcases List.mem_cons.mp hfile with rfl | kept
      · exact anchored other front h
      · exact .inr ⟨file, (List.mem_filter.mp kept).1, front⟩
  · rintro (start | ⟨file, hfile, front⟩)
    · exact .inl start
    · by_cases same : file.place = place
      · exact .inr ⟨⟨place, content⟩, List.mem_cons_self, same ▸ front⟩
      · exact .inr ⟨file, List.mem_cons_of_mem _ (List.mem_filter.mpr ⟨hfile, by simpa using same⟩), front⟩

theorem entry?_put_of_ne (anchored : fs.Anchored place) (h : other ≠ place) :
    Files.entry? (fs.put place content) other = fs.entry? other := by
  have found : (fs.put place content).files.find? (·.place = other) = fs.files.find? (·.place = other) := by
    simp only [put, List.find?_cons, Ne.symm h, decide_false, List.find?_filter]
    congr 1
    funext file
    by_cases same : file.place = other
    · simp [same, h]
    · simp [same]
  have below : (fs.put place content).HasBelow other ↔ fs.HasBelow other := hasBelow_put_iff anchored h
  rw [← hasBelow_iff, ← hasBelow_iff, ← Bool.eq_iff_iff] at below
  rw [ entry?, entry?, found, below]

theorem resolve_put {start names : List String} (anchored : fs.Anchored place)
    (file : fs.entry? place ≠ some .directory)
    (h : fs.resolve start names = .ok next) : (fs.put place content).resolve start names = .ok next := by
  induction names generalizing start with
  | nil => exact h
  | cons name names ih =>
    rw [resolve_cons] at h ⊢
    cases found : fs.step start name with
    | error reason =>
      rw [found] at h
      contradiction
    | ok between =>
      have directory := (step_eq_ok found).1
      have apart : start ≠ place := by
        rintro rfl
        exact file directory
      have same : (fs.put place content).step start name = fs.step start name := by
        rw [step, step, entry?_put_of_ne anchored apart]
      rw [found] at h
      rw [same, found]
      exact ih h

theorem names_of_no_shorter {names : List String}
    (h : ¬ (names.reverse.dropWhile (· = "")).reverse.length < names.length) :
    (names.reverse.dropWhile (· = "")).reverse = names := by
  have back := List.dropWhile_suffix (· = "") (l := names.reverse)
  have whole : names.reverse.dropWhile (· = "") = names.reverse := by
    refine back.eq_of_length_le ?_
    rw [List.length_reverse] at h ⊢
    omega
  rw [whole, List.reverse_reverse]

theorem target_eq_ok (h : fs.target path = .ok place) :
    fs.locate path = .ok place ∧ fs.Anchored place ∧ fs.entry? place ≠ some .directory := by
  rw [target] at h
  cases named : namesOf path with
  | error reason =>
    rw [named] at h
    contradiction
  | ok names =>
    simp only [named, bind, Except.bind] at h
    split at h
    case isTrue => split at h <;> contradiction
    case isFalse same =>
      rw [names_of_no_shorter same] at h
      cases found : fs.resolve (fs.startOf path) names with
      | error reason =>
        rw [found] at h
        contradiction
      | ok reached =>
        simp only [found] at h
        split at h
        case isTrue => contradiction
        case isFalse file =>
          obtain rfl : reached = place := Except.ok.inj h
          refine ⟨?_, resolve_anchored (anchored_startOf fs path) found, file⟩
          rw [locate, named]
          exact found

theorem ne_empty_of_target (h : fs.target path = .ok place) : path ≠ "" := by
  rintro rfl
  obtain ⟨reason, unnamed⟩ : ∃ reason, namesOf "" = .error reason := by
    rw [namesOf]
    split
    · exact ⟨_, rfl⟩
    · exact ⟨_, rfl⟩
  rw [target, unnamed] at h
  contradiction

/-- What is written to a path is read there. -/
theorem readText_put (h : fs.target path = .ok place) (text : String) :
    (fs.put place (.text text)).readText path = .ok text := by
  obtain ⟨located, anchored, file⟩ := target_eq_ok h
  have again : (fs.put place (.text text)).locate path = .ok place := by
    rw [locate] at located ⊢
    cases named : namesOf path with
    | error reason =>
      rw [named] at located
      contradiction
    | ok names =>
      rw [named] at located
      exact resolve_put anchored file located
  rw [readText, again]
  simp only [bind, Except.bind, entry?_put]

theorem writeText_eq_ok (h : fs.target path = .ok place) (text : String) :
    fs.writeText path text = .ok (fs.put place (.text text)) := by
  rw [writeText, h]
  rfl

end DdlModels.Files

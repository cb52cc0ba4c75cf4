import DdlModels.Proofs.Blanks
import DdlModels.Proofs.Stopping

/-!
# Steps through a script

What comes next in a script is decided by what stands after its blanks.
-/

namespace DdlModels.Sql

theorem ParseError.at_append (before rest : List Char) (message : String) :
    ParseError.at (before ++ rest) rest message = ⟨Text.byteSize before, message⟩ := by
  rw [ParseError.at, Text.byteSize_append, Nat.add_sub_cancel]

/-- The same error, so many bytes later. -/
def ParseError.later (error : ParseError) (count : Nat) : ParseError :=
  { error with position := error.position + count }

/-- A fault in the end of a script is reported later by what comes before. -/
theorem Fault.Within.report_later {fault : Fault} {text script : List Char} {names : List String}
    (h : fault.Within text names) (ends : text <:+ script) :
    fault.report script = (fault.report text).later (Text.byteSize script - Text.byteSize text) := by
  have later {place : List Char} (suffix : place <:+ text) (message : String) :
      ParseError.at script place message =
        (ParseError.at text place message).later (Text.byteSize script - Text.byteSize text) := by
    obtain ⟨before, rfl⟩ := ends
    obtain ⟨read, rfl⟩ := suffix
    simp only [ParseError.at, ParseError.later, Text.byteSize_append, ParseError.mk.injEq, and_true]
    omega
  rcases h.cases with ⟨place, kind, outer, rfl, suffix⟩ | ⟨rest, rfl, suffix⟩
  · exact later suffix _
  · exact later suffix _

namespace Script

open Grammar

variable {text start rest taken : List Char} {nodes : List Node} {c : Char}

theorem tableStatement_misses_semicolon (text : List Char) : tableStatement.Misses (';' :: text) :=
  misses_of_blocked (refuses_at ';' text) (by decide)

theorem next_statement (skips : skipBlanks text = c :: rest) (visible : c ≠ ';') :
    next text =
      match tableStatement.read (c :: rest) with
      | .ok nodes _ left => .statement (.ofTable nodes (c :: rest)) left
      | .fail failure => .halted (.failed failure)
      | .miss _ =>
        match statementTail.read (c :: rest) with
        | .ok _ (d :: taken) left => .statement (.skipped (d :: taken)) left
        | _ => .halted (.unterminatedLiteral (c :: rest)) := by
  rw [next_eq_step, step, skips]
  split
  case h_1 empty => contradiction
  case h_2 other same => exact absurd (List.cons.inj same).1 visible
  case h_3 => rfl

theorem next_of_table (skips : skipBlanks text = start)
    (read : tableStatement.read start = .ok nodes taken rest) :
    next text = .statement (.ofTable nodes start) rest := by
  cases start with
  | nil => contradiction
  | cons c start =>
    have visible : c ≠ ';' := by
      rintro rfl
      exact Reads.not_misses ⟨taken, read⟩ (tableStatement_misses_semicolon start)
    rw [next_statement skips visible, read]

theorem next_of_failed {failure : Failure} (skips : skipBlanks text = start)
    (failed : tableStatement.read start = .fail failure) : next text = .halted (.failed failure) := by
  cases start with
  | nil => contradiction
  | cons c start =>
    have visible : c ≠ ';' := by
      rintro rfl
      obtain ⟨errors, missed⟩ := tableStatement_misses_semicolon start
      rw [failed] at missed
      contradiction
    rw [next_statement skips visible, failed]

theorem next_of_skipped (skips : skipBlanks text = start) (visible : ∀ left, start ≠ ';' :: left)
    (missed : tableStatement.Misses start) (read : statementTail.read start = .ok nodes (c :: taken) rest) :
    next text = .statement (.skipped (c :: taken)) rest := by
  obtain ⟨errors, missed⟩ := missed
  cases start with
  | nil =>
    have split := statementTail.read_splits []
    rw [read] at split
    exact absurd (show [] = c :: taken ++ rest from split) (by simp)
  | cons d start =>
    have apart : d ≠ ';' := by
      rintro rfl
      exact visible start rfl
    rw [next_statement skips apart, missed]
    simp only [read]

theorem next_of_stuck (skips : skipBlanks text = c :: rest) (visible : c ≠ ';')
    (missed : tableStatement.Misses (c :: rest)) (read : statementTail.read (c :: rest) = .ok nodes [] start) :
    next text = .halted (.unterminatedLiteral (c :: rest)) := by
  obtain ⟨errors, missed⟩ := missed
  rw [next_statement skips visible, missed]
  simp only [read]

theorem readFrom_space (hc : isSpace c) (text : List Char) : readFrom (c :: text) = readFrom text := by
  have same : next (c :: text) = next text := by rw [next, next, skipBlanks_space hc]
  rw [readFrom_eq, same, ← readFrom_eq]

/-- What comes next leaves an end of the text, or a fault in it. -/
def Next.StopsIn (text : List Char) : Next → Prop
  | ended => True
  | separator rest | statement _ rest => rest <:+ text
  | halted fault => fault.Within text tableStatement.names

theorem next_stops (text : List Char) : (next text).StopsIn text := by
  have skip := skipBlanks_suffix text
  have table := read_stops (List.Subset.refl tableStatement.names) (skipBlanks text)
  rw [next_eq_step]
  fun_cases step text with
  | case1 => trivial
  | case2 rest skips =>
    rw [skips] at skip
    exact (List.suffix_cons ';' rest).trans skip
  | case3 nodes taken rest _ _ found =>
    rw [found] at table
    exact List.IsSuffix.trans table skip
  | case4 failure _ _ found =>
    rw [found] at table
    exact Failure.Within.trans table skip
  | case5 _ nodes c taken rest _ _ _ found => exact (Reads.suffix ⟨_, found⟩).trans skip
  | case6 => exact skip

theorem halted_of_fault {fault : Fault} (h : (readFrom text).fault = some fault) :
    ∃ left, left <:+ text ∧ next left = .halted fault := by
  fun_induction readFrom text with
  | case1 => contradiction
  | case2 text left step ih =>
    have stops := next_stops text
    rw [step] at stops
    obtain ⟨place, suffix, halts⟩ := ih h
    exact ⟨place, suffix.trans stops, halts⟩
  | case3 text statement left step ih =>
    have stops := next_stops text
    rw [step] at stops
    obtain ⟨place, suffix, halts⟩ := ih h
    exact ⟨place, suffix.trans stops, halts⟩
  | case4 text other step =>
    obtain rfl := Option.some.inj h
    exact ⟨text, List.suffix_refl text, step⟩

/-- A fault is found in the text. -/
theorem fault_within {fault : Fault} (h : (readFrom text).fault = some fault) :
    fault.Within text tableStatement.names := by
  obtain ⟨place, suffix, halts⟩ := halted_of_fault h
  have stops := next_stops place
  rw [halts] at stops
  exact Fault.Within.trans stops suffix

theorem tree_eq_ok {source : List Char} {script : Script} {tree : Node} :
    script.tree source = .ok tree ↔ script.fault = none ∧ tree = ⟨.root, "", script.tables⟩ := by
  rw [Script.tree]
  cases script.fault with
  | none => simp [eq_comm]
  | some fault => simp

/-- The beginning of a script with these tables, which is read alike whatever follows it. -/
def Foregoing (front : List Char) (tables : List Node) : Prop :=
  ∀ rest, (readFrom (front ++ rest)).tables = tables ++ (readFrom rest).tables ∧
    (readFrom (front ++ rest)).fault = (readFrom rest).fault

theorem foregoing_nothing : Foregoing [] [] := fun _ => ⟨rfl, rfl⟩

theorem Foregoing.append {front more : List Char} {tables others : List Node} (h : Foregoing front tables)
    (next : Foregoing more others) : Foregoing (front ++ more) (tables ++ others) := by
  intro rest
  obtain ⟨first, fault⟩ := h (more ++ rest)
  obtain ⟨second, same⟩ := next rest
  rw [List.append_assoc, List.append_assoc, first, fault, second]
  exact ⟨rfl, same⟩

end Script

end DdlModels.Sql

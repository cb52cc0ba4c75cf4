import DdlModels.Tree.Node

/-!
# Replies of a reader

A reader takes a beginning of the text, or misses, so that another alternative may be tried, or fails, which ends the
reading. A miss and a failure keep the places at which something was looked for, the innermost one first.
-/

namespace DdlModels.Sql

/-- What was looked for at a place, or what looked for something there. -/
inductive ErrorKind where
  /-- A part that the grammar names. -/
  | context (what : String)
  | char (c : Char)
  | tag
  | takeWhile1
  | takeUntil
  | isNot
  | multiSpace
  | digit
  | not
  | alt
  | many0
  deriving DecidableEq, Repr

def ErrorKind.context? : ErrorKind → Option String
  | context what => some what
  | _ => none

/-- Places, each as the text from there on, with what was looked for. -/
abbrev Errors := List (List Char × ErrorKind)

/-- Why reading ends. -/
inductive Failure where
  /-- More text is needed to tell. -/
  | incomplete
  | errors (errors : Errors)
  deriving DecidableEq, Repr

/-- Adds a place around the ones that are known. -/
def Failure.within (place : List Char) (kind : ErrorKind) : Failure → Failure
  | incomplete => incomplete
  | errors known => errors (known ++ [(place, kind)])

/-- The reply to a text. -/
inductive Reply where
  /-- The nodes that were read, the text they were read from, and the rest. -/
  | ok (nodes : List Node) (taken rest : List Char)
  | miss (errors : Errors)
  | fail (failure : Failure)

namespace Reply

/-- Adds what was read before. -/
def after (nodes : List Node) (taken : List Char) : Reply → Reply
  | ok moreNodes moreTaken rest => ok (nodes ++ moreNodes) (taken ++ moreTaken) rest
  | miss errors => miss errors
  | fail failure => fail failure

def andThen (reply : Reply) (next : List Char → Reply) : Reply :=
  match reply with
  | ok nodes taken rest => (next rest).after nodes taken
  | miss errors => miss errors
  | fail failure => fail failure

/-- Tries something else after a miss, of which nothing is kept. -/
def orElse (reply : Reply) (other : Unit → Reply) : Reply :=
  match reply with
  | miss _ => other ()
  | reply => reply

/-- Notes that all alternatives were missed, after the last one of them. -/
def alt (last : Bool) (place : List Char) : Reply → Reply
  | miss errors => miss (if last then errors ++ [(place, .alt)] else errors)
  | reply => reply

/-- Turns a miss into a failure. -/
def cut : Reply → Reply
  | miss errors => fail (.errors errors)
  | reply => reply

/-- Names what was missed. -/
def context (what : String) (place : List Char) : Reply → Reply
  | ok nodes taken rest => ok nodes taken rest
  | miss errors => miss (errors ++ [(place, .context what)])
  | fail failure => fail (failure.within place (.context what))

/-- Replaces the nodes by ones made of the text. -/
def gather (make : List Char → List Node) : Reply → Reply
  | ok _ taken rest => ok (make taken) taken rest
  | reply => reply

/-- Puts the nodes of a body under one that is named by the text before it. -/
def branch (kind : NodeKind) (name : Reply) (body : List Char → Reply) : Reply :=
  match name with
  | ok _ text rest =>
    match body rest with
    | ok children taken rest => ok [⟨kind, String.ofList text, children⟩] (text ++ taken) rest
    | miss errors => miss errors
    | fail failure => fail failure
  | miss errors => miss errors
  | fail failure => fail failure

/-- Lets another reader try where this one missed, and misses the whole text where it did not. -/
def bar (reply : Reply) (text : List Char) (other : Unit → Reply) : Reply :=
  match reply with
  | ok .. => miss [(text, .not)]
  | miss _ => other ()
  | fail failure => fail failure

/-- A condition for each of the ways in which reading may end. -/
def Obeys (P : List Node → List Char → List Char → Prop) (Missed : Errors → Prop) (Failed : Failure → Prop) :
    Reply → Prop
  | ok nodes taken rest => P nodes taken rest
  | miss errors => Missed errors
  | fail failure => Failed failure

/-- What is read, if anything, has a property. -/
def Holds (P : List Node → List Char → List Char → Prop) : Reply → Prop :=
  Obeys P (fun _ => True) fun _ => True

variable {P R : List Node → List Char → List Char → Prop} {Missed Missed' : Errors → Prop}
  {Failed Failed' : Failure → Prop} {reply : Reply} {next : List Char → Reply} {other : Unit → Reply}
  {Q : List Char → List Node → List Char → List Char → Prop} {text place : List Char}

theorem Obeys.mono (h : reply.Obeys P Missed Failed)
    (imp : ∀ {nodes taken rest}, P nodes taken rest → R nodes taken rest)
    (missed : ∀ errors, Missed errors → Missed' errors) (failed : ∀ failure, Failed failure → Failed' failure) :
    reply.Obeys R Missed' Failed' := by
  cases reply with
  | ok nodes taken rest => exact imp h
  | miss errors => exact missed errors h
  | fail failure => exact failed failure h

theorem Obeys.after {before : List Node} {taken : List Char}
    (h : reply.Obeys (fun nodes more rest => R (before ++ nodes) (taken ++ more) rest) Missed Failed) :
    (reply.after before taken).Obeys R Missed Failed := by
  cases reply <;> exact h

theorem Obeys.andThen (h : reply.Obeys P Missed Failed)
    (hnext : ∀ {before taken between}, P before taken between →
      (next between).Obeys (fun nodes more rest => R (before ++ nodes) (taken ++ more) rest) Missed Failed) :
    (reply.andThen next).Obeys R Missed Failed := by
  cases reply with
  | ok nodes taken rest => exact (hnext h).after
  | _ => exact h

theorem Obeys.orElse (h : reply.Obeys P Missed Failed) (hother : (other ()).Obeys P Missed' Failed) :
    (reply.orElse other).Obeys P Missed' Failed := by
  cases reply with
  | miss errors => exact hother
  | _ => exact h

theorem Obeys.alt {last : Bool} (h : reply.Obeys P Missed Failed)
    (noted : ∀ errors, Missed errors → Missed (errors ++ [(place, .alt)])) :
    (reply.alt last place).Obeys P Missed Failed := by
  cases reply with
  | miss errors =>
    cases last with
    | true => exact noted errors h
    | false => exact h
  | _ => exact h

theorem Obeys.bar (h : reply.Obeys R Missed' Failed) (barred : Missed [(text, .not)])
    (hother : (other ()).Obeys P Missed Failed) : (reply.bar text other).Obeys P Missed Failed := by
  cases reply with
  | ok nodes taken rest => exact barred
  | miss errors => exact hother
  | fail failure => exact h

theorem Obeys.cut (h : reply.Obeys P Missed Failed) (fails : ∀ errors, Missed errors → Failed (.errors errors)) :
    reply.cut.Obeys P Missed' Failed := by
  cases reply with
  | miss errors => exact fails errors h
  | _ => exact h

theorem Obeys.context {what : String} (h : reply.Obeys P Missed Failed)
    (missed : ∀ errors, Missed errors → Missed' (errors ++ [(place, .context what)]))
    (failed : ∀ failure, Failed failure → Failed' (failure.within place (.context what))) :
    (reply.context what place).Obeys P Missed' Failed' := by
  cases reply with
  | ok nodes taken rest => exact h
  | miss errors => exact missed errors h
  | fail failure => exact failed failure h

theorem Obeys.gather {make : List Char → List Node} (h : reply.Obeys P Missed Failed)
    (hmake : ∀ {nodes taken rest}, P nodes taken rest → R (make taken) taken rest) :
    (reply.gather make).Obeys R Missed Failed := by
  cases reply with
  | ok nodes taken rest => exact hmake h
  | _ => exact h

theorem Obeys.branch {kind : NodeKind} (h : reply.Obeys P Missed Failed)
    (hnext : ∀ {nodes name between}, P nodes name between →
      (next between).Obeys (fun children taken rest => R [⟨kind, String.ofList name, children⟩] (name ++ taken) rest)
        Missed Failed) :
    (reply.branch kind next).Obeys R Missed Failed := by
  cases reply with
  | ok nodes name between =>
    have below := hnext h
    rw [Reply.branch]
    cases found : next between <;> rwa [found] at below
  | _ => exact h

theorem Holds.mono (h : reply.Holds P) (imp : ∀ {nodes taken rest}, P nodes taken rest → R nodes taken rest) :
    reply.Holds R :=
  Obeys.mono h imp (fun _ => id) fun _ => id

theorem Holds.always (reply : Reply) (h : ∀ nodes taken rest, P nodes taken rest) : reply.Holds P := by
  cases reply with
  | ok nodes taken rest => exact h nodes taken rest
  | _ => trivial

theorem Holds.of_imp {given : Prop} (h : given → reply.Holds P) :
    reply.Holds fun nodes taken rest => given → P nodes taken rest := by
  cases reply with
  | ok nodes taken rest => exact h
  | _ => trivial

theorem Holds.after (h : reply.Holds P) {before : List Node} {taken : List Char}
    (join : ∀ {nodes more rest}, P nodes more rest → R (before ++ nodes) (taken ++ more) rest) :
    (reply.after before taken).Holds R :=
  Obeys.after (h.mono join)

theorem Holds.andThen (h : reply.Holds P) (hnext : ∀ rest, (next rest).Holds (Q rest))
    (join : ∀ {before taken between after more rest}, P before taken between → Q between after more rest →
      R (before ++ after) (taken ++ more) rest) :
    (reply.andThen next).Holds R :=
  Obeys.andThen h fun {_ _ between} first => (hnext between).mono (join first)

theorem Holds.orElse (h : reply.Holds P) (hother : (other ()).Holds P) : (reply.orElse other).Holds P :=
  Obeys.orElse h hother

theorem Holds.alt (h : reply.Holds P) (last : Bool) (place : List Char) : (reply.alt last place).Holds P :=
  Obeys.alt h fun _ => id

theorem Holds.bar (hother : ∀ u, (other u).Holds P) : (reply.bar text other).Holds P :=
  Obeys.bar (Holds.always reply fun _ _ _ => trivial) trivial (hother ())

theorem Holds.cut (h : reply.Holds P) : reply.cut.Holds P := Obeys.cut h fun _ => id

theorem Holds.context (h : reply.Holds P) (what : String) (place : List Char) :
    (reply.context what place).Holds P :=
  Obeys.context h (fun _ => id) fun _ => id

theorem Holds.gather {make : List Char → List Node} (h : reply.Holds P)
    (hmake : ∀ {nodes taken rest}, P nodes taken rest → R (make taken) taken rest) :
    (reply.gather make).Holds R :=
  Obeys.gather h hmake

theorem Holds.branch {kind : NodeKind} (h : reply.Holds P) (hnext : ∀ rest, (next rest).Holds (Q rest))
    (join : ∀ {nodes name between children taken rest}, P nodes name between → Q between children taken rest →
      R [⟨kind, String.ofList name, children⟩] (name ++ taken) rest) :
    (reply.branch kind next).Holds R :=
  Obeys.branch h fun {_ _ between} named => (hnext between).mono (join named)

/-- What is taken and what is left make up the text. -/
def Splits (text : List Char) : Reply → Prop := Holds fun _ taken rest => text = taken ++ rest

theorem Splits.after {taken rest : List Char} (h : reply.Splits rest) (nodes : List Node) :
    (reply.after nodes taken).Splits (taken ++ rest) :=
  Holds.after h fun split => by rw [split, List.append_assoc]

theorem Splits.andThen (h : reply.Splits text) (hnext : ∀ rest, (next rest).Splits rest) :
    (reply.andThen next).Splits text :=
  Holds.andThen h hnext fun first second => by rw [first, second, List.append_assoc]

theorem Splits.branch (h : reply.Splits text) (hnext : ∀ rest, (next rest).Splits rest) (kind : NodeKind) :
    (reply.branch kind next).Splits text :=
  Holds.branch h hnext fun first second => by rw [first, second, List.append_assoc]

def Advances : Reply → Prop := Holds fun _ taken _ => taken ≠ []

theorem Advances.after {taken : List Char} (h : taken ≠ [] ∨ reply.Advances) (nodes : List Node) :
    (reply.after nodes taken).Advances := by
  rcases h with h | h
  · exact Holds.after (Holds.always reply fun _ more _ => List.append_ne_nil_of_left_ne_nil h more) id
  · exact Holds.after h fun more => List.append_ne_nil_of_right_ne_nil taken more

theorem Advances.andThen (h : reply.Advances ∨ ∀ rest, (next rest).Advances) : (reply.andThen next).Advances := by
  rcases h with h | h
  · exact Obeys.andThen h fun {_ _ between} first =>
      Holds.always (next between) fun _ more _ => List.append_ne_nil_of_left_ne_nil first more
  · exact Obeys.andThen (Holds.always reply fun _ _ _ => trivial) fun {_ taken between} _ =>
      (h between).mono fun more => List.append_ne_nil_of_right_ne_nil taken more

theorem Advances.branch (h : reply.Advances ∨ ∀ rest, (next rest).Advances) (kind : NodeKind) :
    (reply.branch kind next).Advances := by
  rcases h with h | h
  · exact Obeys.branch h fun {_ _ between} first =>
      Holds.always (next between) fun _ more _ => List.append_ne_nil_of_left_ne_nil first more
  · exact Obeys.branch (Holds.always reply fun _ _ _ => trivial) fun {_ name between} _ =>
      (h between).mono fun more => List.append_ne_nil_of_right_ne_nil name more

end Reply

end DdlModels.Sql

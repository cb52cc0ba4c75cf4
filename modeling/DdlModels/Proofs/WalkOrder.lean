import DdlModels.Tree.Node

/-!
# The order of a walk

A walk through a tree delivers the tree's events to its listener, from left to right. The first error that the
listener answers with ends the walk, in the state that the event left: no later event is delivered.
-/

namespace DdlModels

/-- A listener with a state of its own. It answers an event with success or with an error. -/
abbrev Listener (ε σ : Type) := Event → ExceptT ε (StateM σ) Unit

namespace Listener

variable {ε σ : Type}

def answer (listener : Listener ε σ) (event : Event) (state : σ) : Except ε Unit × σ :=
  (listener event).run.run state

def walk (listener : Listener ε σ) (tree : Node) (state : σ) : Except ε Unit × σ :=
  (tree.walk listener).run.run state

/-- The outcome of events that are delivered one after another, up to the first error. -/
def deliver (listener : Listener ε σ) : List Event → σ → Except ε Unit × σ
  | [], state => (.ok (), state)
  | event :: events, state =>
    match listener.answer event state with
    | (.ok (), next) => listener.deliver events next
    | (.error error, left) => (.error error, left)

/-- The events before the one of that number are answered with success, and this one with an error. -/
def FailsAt (listener : Listener ε σ) (events : List Event) (state : σ) (number : Nat) (error : ε)
    (left : σ) : Prop :=
  ∃ event next, events[number]? = some event ∧ listener.deliver (events.take number) state = (.ok (), next) ∧
    listener.answer event next = (.error error, left)

/-- The listener with a record of the events that it was asked to answer. -/
def recorded (listener : Listener ε σ) : Listener ε (σ × List Event) :=
  fun event => ExceptT.mk fun (state, record) =>
    ((listener.answer event state).1, (listener.answer event state).2, record ++ [event])

/-- Records every event, and answers with an error once it has recorded the event of that number. -/
def recorder (number : Nat) (error : ε) : Listener ε (List Event) := fun event => do
  let record ← get
  set (record ++ [event])
  if record.length = number then throw error

end Listener

namespace Node

mutual
theorem walk_eq_forM {m : Type → Type} [Monad m] [LawfulMonad m] (listen : Event → m Unit) (node : Node) :
    node.walk listen = node.events.forM listen := by
  cases node with
  | mk kind text children =>
    have last (event : Event) : (listen event >>= fun _ => pure ⟨⟩) = listen event := bind_pure (listen event)
    rw [walk, events, walkAll_eq_forM listen children]
    simp only [List.forM_eq_forM, List.cons_append, List.forM_cons, List.forM_append, List.forM_nil, last]
theorem walkAll_eq_forM {m : Type → Type} [Monad m] [LawfulMonad m] (listen : Event → m Unit) :
    (nodes : List Node) → walkAll listen nodes = (eventsOfAll nodes).forM listen
  | [] => rfl
  | node :: nodes => by
    rw [walkAll, eventsOfAll, walk_eq_forM listen node, walkAll_eq_forM listen nodes]
    simp only [List.forM_eq_forM, List.forM_append]
end

mutual
theorem length_events (node : Node) : node.events.length = 2 * node.size := by
  cases node with
  | mk kind text children =>
    simp only [events, size, List.length_append, List.length_cons, List.length_nil, length_eventsOfAll children]
    omega
theorem length_eventsOfAll : (nodes : List Node) → (eventsOfAll nodes).length = 2 * sizeOfAll nodes
  | [] => rfl
  | node :: nodes => by
    rw [eventsOfAll, sizeOfAll, List.length_append, length_events node, length_eventsOfAll nodes]
    omega
end

end Node

namespace Listener

variable {ε σ : Type} (listener : Listener ε σ)

theorem forM_eq_deliver (events : List Event) (state : σ) :
    (events.forM listener).run.run state = listener.deliver events state := by
  induction events generalizing state with
  | nil => rfl
  | cons event events ih =>
    change (listener event >>= fun _ => events.forM listener).run.run state = _
    rw [ExceptT.run_bind, StateT.run_bind, deliver]
    rcases found : listener.answer event state with ⟨error | ⟨⟩, next⟩
    · rw [show (listener event).run.run state = (.error error, next) from found]
      rfl
    · rw [show (listener event).run.run state = (.ok (), next) from found]
      exact ih next

theorem walk_eq_deliver (tree : Node) (state : σ) : listener.walk tree state = listener.deliver tree.events state := by
  rw [walk, Node.walk_eq_forM, forM_eq_deliver]

variable {listener} {events : List Event} {state left : σ} {error : ε}

theorem failsAt_zero {event : Event} : listener.FailsAt (event :: events) state 0 error left ↔
    listener.answer event state = (.error error, left) := by
  constructor
  · rintro ⟨_, _, ⟨⟩, ⟨⟩, answered⟩
    exact answered
  · intro answered
    exact ⟨event, state, rfl, rfl, answered⟩

theorem failsAt_succ {event : Event} {number : Nat} :
    listener.FailsAt (event :: events) state (number + 1) error left ↔
      ∃ next, listener.answer event state = (.ok (), next) ∧ listener.FailsAt events next number error left := by
  simp only [FailsAt, List.getElem?_cons_succ, List.take_succ_cons, deliver]
  constructor
  · rintro ⟨last, before, found, delivered, answered⟩
    rcases first : listener.answer event state with ⟨refused | ⟨⟩, next⟩
    · simp [first] at delivered
    · rw [first] at delivered
      exact ⟨next, rfl, last, before, found, delivered, answered⟩
  · rintro ⟨next, first, last, before, found, delivered, answered⟩
    rw [first]
    exact ⟨last, before, found, delivered, answered⟩

theorem recorded_answer (event : Event) (state : σ) (record : List Event) :
    listener.recorded.answer event (state, record) =
      ((listener.answer event state).1, (listener.answer event state).2, record ++ [event]) := rfl

/-- All events are answered with success, or one of them is the first to be answered with an error. -/
theorem delivers_or_fails (listener : Listener ε σ) (events : List Event) (state : σ) :
    (∃ left, listener.deliver events state = (.ok (), left)) ∨
      ∃ number error left, listener.FailsAt events state number error left := by
  induction events generalizing state with
  | nil => exact .inl ⟨state, rfl⟩
  | cons event events ih =>
    rcases first : listener.answer event state with ⟨error | ⟨⟩, next⟩
    · exact .inr ⟨0, error, next, failsAt_zero.mpr first⟩
    · rcases ih next with ⟨left, delivered⟩ | ⟨number, error, left, fails⟩
      · exact .inl ⟨left, by rw [deliver, first]; exact delivered⟩
      · exact .inr ⟨number + 1, error, left, failsAt_succ.mpr ⟨next, first, fails⟩⟩

theorem deliver_recorded (delivered : listener.deliver events state = (.ok (), left)) (record : List Event) :
    listener.recorded.deliver events (state, record) = (.ok (), left, record ++ events) := by
  induction events generalizing state record with
  | nil =>
    obtain ⟨-, rfl⟩ := Prod.mk.inj delivered
    rw [List.append_nil]
    rfl
  | cons event events ih =>
    rw [deliver] at delivered
    rcases first : listener.answer event state with ⟨error | ⟨⟩, next⟩
    · simp [first] at delivered
    · rw [first] at delivered
      simp only [deliver, recorded_answer, first, ih delivered, List.append_assoc, List.singleton_append]

theorem FailsAt.deliver_recorded {number : Nat} (fails : listener.FailsAt events state number error left)
    (record : List Event) : listener.recorded.deliver events (state, record) =
      (.error error, left, record ++ events.take (number + 1)) := by
  induction events generalizing state number record with
  | nil =>
    obtain ⟨event, next, found, -⟩ := fails
    simp at found
  | cons event events ih =>
    cases number with
    | zero =>
      have first := failsAt_zero.mp fails
      simp only [deliver, recorded_answer, first, List.take_succ_cons, List.take_zero]
    | succ number =>
      obtain ⟨next, first, later⟩ := failsAt_succ.mp fails
      simp only [deliver, recorded_answer, first, ih later, List.take_succ_cons, List.append_assoc,
        List.singleton_append]

theorem deliver_recorder {number : Nat} {record : List Event} (behind : record.length ≤ number) (error : ε)
    (events : List Event) : (recorder number error).deliver events record =
      if number < record.length + events.length then
        (.error error, record ++ events.take (number + 1 - record.length))
      else (.ok (), record ++ events) := by
  induction events generalizing record with
  | nil => simp [deliver, Nat.not_lt.mpr behind]
  | cons event events ih =>
    have first : (recorder number error).answer event record =
        (if record.length = number then .error error else .ok (), record ++ [event]) := by
      change (if record.length = number then throw error else pure () :
        ExceptT ε (StateM (List Event)) Unit).run.run (record ++ [event]) = _
      split <;> rfl
    rw [deliver, first]
    by_cases last : record.length = number
    · have one : number + 1 - record.length = 1 := by omega
      have inside : number < record.length + (event :: events).length := by simp [last]
      rw [if_pos last, if_pos inside, one]
      rfl
    · have next : (record ++ [event]).length ≤ number := by
        rw [List.length_append, List.length_singleton]
        omega
      have left : number + 1 - record.length = number - record.length + 1 := by omega
      have after : number + 1 - (record.length + 1) = number - record.length := by omega
      rw [if_neg last]
      simp only [ih next, List.length_append, List.length_cons, List.length_nil, left, after, List.take_succ_cons,
        List.append_assoc, List.singleton_append, Nat.add_comm, Nat.add_left_comm]

/-- A walk delivers the events of the tree from left to right, twice as many as there are nodes, and ends with the
first error, in the state that the event left. Of any listener the record holds the events up to this one, and all
of them if there is none. -/
theorem walk_delivers_events (listener : Listener ε σ) (tree : Node) (state : σ) :
    listener.walk tree state = listener.deliver tree.events state ∧
    tree.events.length = 2 * tree.size ∧
    (∀ error left record, listener.recorded.walk tree (state, []) = (.error error, left, record) ↔
      ∃ number, listener.FailsAt tree.events state number error left ∧ record = tree.events.take (number + 1)) ∧
    (∀ left record, listener.recorded.walk tree (state, []) = (.ok (), left, record) ↔
      listener.deliver tree.events state = (.ok (), left) ∧ record = tree.events) ∧
    ∀ (number : Nat) (error : ε), (recorder number error).walk tree [] =
      if number < 2 * tree.size then (.error error, tree.events.take (number + 1)) else (.ok (), tree.events) := by
  have recorded := listener.recorded.walk_eq_deliver tree (state, [])
  refine ⟨listener.walk_eq_deliver tree state, tree.length_events, ?_, ?_, ?_⟩
  · intro error left record
    constructor
    · intro walked
      rw [recorded] at walked
      rcases listener.delivers_or_fails tree.events state with ⟨last, delivered⟩ | ⟨number, other, last, fails⟩
      · rw [deliver_recorded delivered] at walked
        simp at walked
      · rw [fails.deliver_recorded] at walked
        simp only [Prod.mk.injEq, Except.error.injEq, List.nil_append] at walked
        obtain ⟨rfl, rfl, rfl⟩ := walked
        exact ⟨number, fails, rfl⟩
    · rintro ⟨number, fails, rfl⟩
      rw [recorded, fails.deliver_recorded, List.nil_append]
  · intro left record
    constructor
    · intro walked
      rw [recorded] at walked
      rcases listener.delivers_or_fails tree.events state with ⟨last, delivered⟩ | ⟨number, other, last, fails⟩
      · rw [deliver_recorded delivered] at walked
        simp only [Prod.mk.injEq, List.nil_append, true_and] at walked
        obtain ⟨rfl, rfl⟩ := walked
        exact ⟨delivered, rfl⟩
      · rw [fails.deliver_recorded] at walked
        simp at walked
    · rintro ⟨delivered, rfl⟩
      rw [recorded, deliver_recorded delivered, List.nil_append]
  · intro number error
    rw [walk_eq_deliver, deliver_recorder (Nat.zero_le number), Node.length_events]
    simp only [List.length_nil, Nat.zero_add, Nat.sub_zero, List.nil_append]

end Listener

end DdlModels

/-
This file is about runs of a step that may fail, over a list of events, and
about events that open and close something.

A run goes through when every step of it does. What one step keeps a whole run
keeps, and a model that can follow every step can follow every run. Events are
well nested when everything that is opened is closed again, in the opposite
order. Where an opening pushes one item, a closing drops the latest and nothing
else touches the items, a well-nested run ends with the items it started with.
-/

import Mathlib.Data.List.Basic

namespace PartialRun

variable {State Model Event : Type*}

theorem cons_iff (step : State → Event → Option State) (event : Event) (rest : List Event)
    (start finish : State) :
    (event :: rest).foldlM step start = some finish ↔
      ∃ next, step start event = some next ∧ rest.foldlM step next = some finish := by
  rw [List.foldlM_cons, Option.bind_eq_bind, Option.bind_eq_some_iff]

theorem append_iff (step : State → Event → Option State) (front back : List Event)
    (start finish : State) :
    (front ++ back).foldlM step start = some finish ↔
      ∃ middle, front.foldlM step start = some middle ∧
        back.foldlM step middle = some finish := by
  rw [List.foldlM_append, Option.bind_eq_bind, Option.bind_eq_some_iff]

/-- An invariant that counts the steps holds after every run. -/
theorem invariant (step : State → Event → Option State) (holds : Nat → State → Prop)
    (keeps : ∀ count state event next, holds count state → step state event = some next →
      holds (count + 1) next)
    (events : List Event) (count : Nat) (start finish : State) (before : holds count start)
    (run : events.foldlM step start = some finish) : holds (count + events.length) finish := by
  induction events generalizing count start with
  | nil =>
    cases run
    exact before
  | cons event rest inductionHypothesis =>
    obtain ⟨next, first, others⟩ := (cons_iff step event rest start finish).mp run
    have after := inductionHypothesis (count + 1) next (keeps count start event next before first)
      others
    rwa [List.length_cons, Nat.add_comm rest.length 1, ← Nat.add_assoc]

/-- A model that can follow every step can follow every run. -/
theorem simulates (step : State → Event → Option State) (modelStep : Model → Event → Option Model)
    (related : State → Model → Prop)
    (follows : ∀ state model event next, related state model → step state event = some next →
      ∃ modelNext, modelStep model event = some modelNext ∧ related next modelNext)
    (events : List Event) (start finish : State) (model : Model) (before : related start model)
    (run : events.foldlM step start = some finish) :
    ∃ modelFinish, events.foldlM modelStep model = some modelFinish ∧
      related finish modelFinish := by
  induction events generalizing start model with
  | nil =>
    cases run
    exact ⟨model, rfl, before⟩
  | cons event rest inductionHypothesis =>
    obtain ⟨next, first, others⟩ := (cons_iff step event rest start finish).mp run
    obtain ⟨modelNext, modelFirst, middle⟩ := follows start model event next before first
    obtain ⟨modelFinish, modelOthers, after⟩ := inductionHypothesis next modelNext middle others
    exact ⟨modelFinish,
      (cons_iff modelStep event rest model modelFinish).mpr ⟨modelNext, modelFirst, modelOthers⟩,
      after⟩

end PartialRun

/-- Every event that opens is followed by a well-nested body and an event that closes. -/
inductive Nested {Event : Type*} (opens closes : Event → Prop) : List Event → Prop
  | nil : Nested opens closes []
  | inner (event : Event) (rest : List Event) (neither : ¬ opens event ∧ ¬ closes event)
      (restNested : Nested opens closes rest) : Nested opens closes (event :: rest)
  | pair (first last : Event) (body rest : List Event) (opening : opens first)
      (closing : closes last) (bodyNested : Nested opens closes body)
      (restNested : Nested opens closes rest) :
      Nested opens closes (first :: (body ++ last :: rest))

namespace Nested

variable {State Item Event : Type*}

/-- Opening pushes one item, closing drops the latest, and any other event leaves the items. -/
structure ActsAsStack (opens closes : Event → Prop) (step : State → Event → Option State)
    (items : State → List Item) : Prop where
  pushes : ∀ state event next, opens event → step state event = some next →
    ∃ item, items next = item :: items state
  drops : ∀ state event next, closes event → step state event = some next →
    items next = (items state).tail
  leaves : ∀ state event next, ¬ opens event ∧ ¬ closes event → step state event = some next →
    items next = items state

/-- A well-nested run ends with the items it started with. -/
theorem items_eq {opens closes : Event → Prop} {step : State → Event → Option State}
    {items : State → List Item} (acts : ActsAsStack opens closes step items) {events : List Event}
    (nested : Nested opens closes events) (start finish : State)
    (run : events.foldlM step start = some finish) : items finish = items start := by
  induction nested generalizing start finish with
  | nil =>
    cases run
    rfl
  | inner event rest neither _ restHypothesis =>
    obtain ⟨next, first, others⟩ := (PartialRun.cons_iff step event rest start finish).mp run
    rw [restHypothesis next finish others]
    exact acts.leaves start event next neither first
  | pair first last body rest opening closing _ _ bodyHypothesis restHypothesis =>
    obtain ⟨opened, starts, followed⟩ := (PartialRun.cons_iff step first _ start finish).mp run
    obtain ⟨inside, bodyRun, ended⟩ :=
      (PartialRun.append_iff step body (last :: rest) opened finish).mp followed
    obtain ⟨closed, ends, others⟩ := (PartialRun.cons_iff step last rest inside finish).mp ended
    obtain ⟨item, pushed⟩ := acts.pushes start first opened opening starts
    have dropped := acts.drops inside last closed closing ends
    rw [restHypothesis closed finish others, dropped, bodyHypothesis opened inside bodyRun, pushed,
      List.tail_cons]

end Nested

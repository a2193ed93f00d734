/-
This file is a stack with a fixed capacity: a push fails when it is full, and
what was pushed last is popped first.

Two stacks are adjacent when one push or one pop, or nothing, leads from the one
to the other. Along a path of adjacent stacks that never falls below some height
the items up to that height stay as they are. That is why balanced operations
leave the stack as they found it.
-/

import Mathlib.Data.List.Infix

/-- A stack of at most `capacity` items, the latest first. -/
structure BoundedStack (Item : Type*) (capacity : Nat) where
  items : List Item
  bounded : items.length ≤ capacity

namespace BoundedStack

variable {Item : Type*} {capacity : Nat}

def empty : BoundedStack Item capacity := ⟨[], Nat.zero_le _⟩

def height (stack : BoundedStack Item capacity) : Nat := stack.items.length

/-- A full stack refuses. -/
def push (stack : BoundedStack Item capacity) (item : Item) :
    Option (BoundedStack Item capacity) :=
  if room : stack.items.length < capacity then some ⟨item :: stack.items, room⟩ else none

def pop (stack : BoundedStack Item capacity) : BoundedStack Item capacity where
  items := stack.items.tail
  bounded := by
    rw [List.length_tail]
    exact (Nat.sub_le _ _).trans stack.bounded

@[simp] theorem items_pop (stack : BoundedStack Item capacity) :
    stack.pop.items = stack.items.tail := rfl

theorem height_le (stack : BoundedStack Item capacity) : stack.height ≤ capacity := stack.bounded

theorem push_of_full (stack : BoundedStack Item capacity) (item : Item)
    (full : stack.height = capacity) : stack.push item = none :=
  dif_neg (by unfold height at full; omega)

theorem push_of_room (stack : BoundedStack Item capacity) (item : Item)
    (room : stack.height < capacity) :
    stack.push item = some ⟨item :: stack.items, room⟩ :=
  dif_pos room

/-- One push, one pop or nothing leads from `before` to `after`. -/
def Adjacent (before after : BoundedStack Item capacity) : Prop :=
  after.items = before.items ∨ (∃ item, after.items = item :: before.items) ∨
    after.items = before.items.tail

theorem adjacent_refl (stack : BoundedStack Item capacity) : Adjacent stack stack := Or.inl rfl

theorem adjacent_pop (stack : BoundedStack Item capacity) : Adjacent stack stack.pop :=
  Or.inr (Or.inr rfl)

/-- A step that does not fall below some items keeps them. -/
theorem suffix_of_adjacent (base : List Item) (before after : BoundedStack Item capacity)
    (step : Adjacent before after) (held : base <:+ before.items)
    (above : base.length ≤ after.height) : base <:+ after.items := by
  rcases step with same | ⟨item, pushed⟩ | popped
  · rw [same]
    exact held
  · rw [pushed]
    exact held.trans (List.suffix_cons item before.items)
  · obtain ⟨front, split⟩ := held
    rw [popped, ← split]
    cases front with
    | nil =>
      rw [height, popped, ← split, List.nil_append, List.length_tail] at above
      have none : base = [] := List.eq_nil_of_length_eq_zero (by omega)
      rw [none]
      exact List.nil_suffix
    | cons item front => exact List.suffix_append front base

/-- Along a run whose steps are adjacent, the items that the run never falls below stay. -/
theorem suffix_of_run {State Operation : Type*} (stackOf : State → BoundedStack Item capacity)
    (step : State → Operation → State)
    (adjacent : ∀ state operation, Adjacent (stackOf state) (stackOf (step state operation)))
    (base : List Item) (operations : List Operation) (start : State)
    (held : base <:+ (stackOf start).items)
    (above : ∀ front, front <+: operations →
      base.length ≤ (stackOf (front.foldl step start)).height) :
    base <:+ (stackOf (operations.foldl step start)).items := by
  induction operations generalizing start with
  | nil => exact held
  | cons operation rest inductionHypothesis =>
    have first := above [operation] ⟨rest, rfl⟩
    refine inductionHypothesis (step start operation)
      (suffix_of_adjacent base _ _ (adjacent start operation) held first) fun front before => ?_
    exact above (operation :: front) ((List.cons_prefix_cons).mpr ⟨rfl, before⟩)

/-- A run that never falls below its start and ends at its height ends with the same items. -/
theorem items_of_balanced {State Operation : Type*}
    (stackOf : State → BoundedStack Item capacity) (step : State → Operation → State)
    (adjacent : ∀ state operation, Adjacent (stackOf state) (stackOf (step state operation)))
    (operations : List Operation) (start : State)
    (above : ∀ front, front <+: operations →
      (stackOf start).height ≤ (stackOf (front.foldl step start)).height)
    (level : (stackOf (operations.foldl step start)).height = (stackOf start).height) :
    (stackOf (operations.foldl step start)).items = (stackOf start).items :=
  ((suffix_of_run stackOf step adjacent (stackOf start).items operations start
    (List.suffix_refl _) above).eq_of_length level.symm).symm

end BoundedStack

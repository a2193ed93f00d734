/-
This file is about a bounded queue that drops what is pushed into it when it is
full, and that someone else empties from the front.

The order of pushes and drains is one list of events. An item is lost exactly
when it is pushed at a moment the queue is full, and whether that happens
depends on the order of the events and not on the items: `keepsUp` follows the
fill level alone.
-/

import Mathlib.Data.List.Basic

/-- A queue of at most `capacity` items, and the items that have left it. -/
structure LossyQueue (Item : Type) (capacity : Nat) where
  queued : List Item
  sent : List Item
  fits : queued.length ≤ capacity

namespace LossyQueue

variable {Item : Type} {capacity : Nat}

/-- What can happen to the queue: `count` items leave it, or an item is pushed. -/
inductive Event (Item : Type) where
  | drain (count : Nat)
  | push (item : Item)

/-- The items pushed by some events. -/
def items : List (Event Item) → List Item
  | [] => []
  | .drain _ :: events => items events
  | .push item :: events => item :: items events

def empty : LossyQueue Item capacity := { queued := [], sent := [], fits := Nat.zero_le _ }

/-- The `count` oldest items leave the queue. -/
def drain (queue : LossyQueue Item capacity) (count : Nat) : LossyQueue Item capacity where
  queued := queue.queued.drop count
  sent := queue.sent ++ queue.queued.take count
  fits := by
    have fits := queue.fits
    rw [List.length_drop]
    omega

/-- An item is appended when there is room and dropped when there is none. -/
def push (queue : LossyQueue Item capacity) (item : Item) : LossyQueue Item capacity :=
  if room : queue.queued.length < capacity then
    { queue with
      queued := queue.queued ++ [item]
      fits := by rw [List.length_append, List.length_singleton]; exact room }
  else queue

def step (queue : LossyQueue Item capacity) : Event Item → LossyQueue Item capacity
  | .drain count => queue.drain count
  | .push item => queue.push item

def run (queue : LossyQueue Item capacity) (events : List (Event Item)) :
    LossyQueue Item capacity :=
  events.foldl step queue

/-- The items that have left the queue or are still in it, in order. -/
def kept (queue : LossyQueue Item capacity) : List Item := queue.sent ++ queue.queued

/-- No push of the events meets a full queue, when `level` items are queued at first. -/
def keepsUp (capacity : Nat) : Nat → List (Event Item) → Bool
  | _, [] => true
  | level, .drain count :: events => keepsUp capacity (level - count) events
  | level, .push _ :: events => decide (level < capacity) && keepsUp capacity (level + 1) events

theorem kept_drain (queue : LossyQueue Item capacity) (count : Nat) :
    (queue.drain count).kept = queue.kept := by
  rw [kept, drain, List.append_assoc, List.take_append_drop, kept]

theorem kept_push (queue : LossyQueue Item capacity) (item : Item)
    (room : queue.queued.length < capacity) : (queue.push item).kept = queue.kept ++ [item] := by
  rw [push, dif_pos room, kept, kept, List.append_assoc]

theorem push_full (queue : LossyQueue Item capacity) (item : Item)
    (full : ¬ queue.queued.length < capacity) : queue.push item = queue := by
  rw [push, dif_neg full]

theorem length_queued_push (queue : LossyQueue Item capacity) (item : Item)
    (room : queue.queued.length < capacity) :
    (queue.push item).queued.length = queue.queued.length + 1 := by
  rw [push, dif_pos room, List.length_append, List.length_singleton]

theorem length_queued_drain (queue : LossyQueue Item capacity) (count : Nat) :
    (queue.drain count).queued.length = queue.queued.length - count :=
  List.length_drop

/-- Draining a whole queue sends everything it kept. -/
theorem sent_drain_capacity (queue : LossyQueue Item capacity) :
    (queue.drain capacity).sent = queue.kept := by
  rw [drain, List.take_of_length_le queue.fits, kept]

theorem run_cons (queue : LossyQueue Item capacity) (event : Event Item)
    (events : List (Event Item)) : queue.run (event :: events) = (queue.step event).run events :=
  rfl

theorem run_append (queue : LossyQueue Item capacity) (first second : List (Event Item)) :
    queue.run (first ++ second) = (queue.run first).run second :=
  List.foldl_append

theorem items_append (first second : List (Event Item)) :
    items (first ++ second) = items first ++ items second := by
  induction first with
  | nil => rfl
  | cons event rest inductionHypothesis =>
    cases event with
    | drain count => exact inductionHypothesis
    | push item => exact congrArg (item :: ·) inductionHypothesis

/-- No run keeps more than what was there and what was pushed. -/
theorem length_kept_run_le (queue : LossyQueue Item capacity) (events : List (Event Item)) :
    (queue.run events).kept.length ≤ queue.kept.length + (items events).length := by
  induction events generalizing queue with
  | nil => exact Nat.le_refl _
  | cons event rest inductionHypothesis =>
    rw [run_cons]
    cases event with
    | drain count =>
      have bound := inductionHypothesis (queue.drain count)
      rwa [kept_drain] at bound
    | push item =>
      have bound := inductionHypothesis (queue.push item)
      rw [step, items, List.length_cons]
      by_cases room : queue.queued.length < capacity
      · rw [kept_push queue item room, List.length_append, List.length_singleton] at bound
        omega
      · rw [push_full queue item room] at bound ⊢
        omega

/-- A run keeps every item pushed, in order, exactly when no push meets a full queue. -/
theorem kept_run_iff (queue : LossyQueue Item capacity) (events : List (Event Item)) :
    (queue.run events).kept = queue.kept ++ items events ↔
      keepsUp capacity queue.queued.length events = true := by
  induction events generalizing queue with
  | nil => simp [run, items, keepsUp]
  | cons event rest inductionHypothesis =>
    rw [run_cons]
    cases event with
    | drain count =>
      have tail := inductionHypothesis (queue.drain count)
      rwa [kept_drain, length_queued_drain] at tail
    | push item =>
      rw [items, keepsUp, Bool.and_eq_true, decide_eq_true_eq]
      by_cases room : queue.queued.length < capacity
      · have tail := inductionHypothesis (queue.push item)
        rw [kept_push queue item room, length_queued_push queue item room, List.append_assoc,
          List.singleton_append] at tail
        exact tail.trans (and_iff_right room).symm
      · refine iff_of_false (fun equal => ?_) fun both => room both.1
        have bound := length_kept_run_le queue rest
        rw [step, push_full queue item room] at equal
        rw [equal, List.length_append, List.length_cons] at bound
        omega

/-- Items that fit the room there is at first are all kept, however the queue is drained. -/
theorem keepsUp_of_room (level : Nat) (events : List (Event Item))
    (room : level + (items events).length ≤ capacity) : keepsUp capacity level events = true := by
  induction events generalizing level with
  | nil => rfl
  | cons event rest inductionHypothesis =>
    cases event with
    | drain count =>
      rw [items] at room
      exact inductionHypothesis (level - count) (by omega)
    | push item =>
      rw [items, List.length_cons] at room
      rw [keepsUp, Bool.and_eq_true, decide_eq_true_eq]
      exact ⟨by omega, inductionHypothesis (level + 1) (by omega)⟩

/-- What is kept of the items pushed is kept in their order, and nothing is kept twice. -/
theorem kept_run_sublist (queue : LossyQueue Item capacity) (events : List (Event Item)) :
    (queue.run events).kept.Sublist (queue.kept ++ items events) := by
  induction events generalizing queue with
  | nil => exact List.sublist_append_left _ _
  | cons event rest inductionHypothesis =>
    rw [run_cons]
    cases event with
    | drain count =>
      have tail := inductionHypothesis (queue.drain count)
      rwa [kept_drain] at tail
    | push item =>
      have tail := inductionHypothesis (queue.push item)
      by_cases room : queue.queued.length < capacity
      · rwa [kept_push queue item room, List.append_assoc, List.singleton_append] at tail
      · rw [push_full queue item room] at tail
        rw [step, push_full queue item room]
        exact tail.trans (List.Sublist.append_left (List.sublist_cons_self item _) _)

end LossyQueue

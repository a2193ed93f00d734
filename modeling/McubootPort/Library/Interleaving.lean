/-
This file is about several parties that move in turn, in any order.

A schedule says whose turn it is, and it is fair when no party is left out for
ever. What every move keeps, every order of moves keeps. For something to happen
under every fair schedule it is enough to name, in each state, one party that
brings it closer, as long as no move of the others takes it away again.
-/

import Mathlib.Data.List.Basic
import Mathlib.Order.WellFounded

namespace Interleaving

variable {Party State Rank : Type} (move : Party → State → State)

/-- The state after some turns. -/
def after (state : State) (turns : List Party) : State :=
  turns.foldl (fun state party => move party state) state

/-- The state at a moment of a schedule. -/
def stateAt (schedule : Nat → Party) (state : State) : Nat → State
  | 0 => state
  | moment + 1 => move (schedule moment) (stateAt schedule state moment)

/-- Every party has a turn after any moment. -/
def Fair (schedule : Nat → Party) : Prop :=
  ∀ party moment, ∃ later, moment ≤ later ∧ schedule later = party

variable {move}

theorem after_append (state : State) (turns more : List Party) :
    after move state (turns ++ more) = after move (after move state turns) more :=
  List.foldl_append

/-- What every move keeps holds after any turns. -/
theorem after_invariant {holds : State → Prop}
    (keeps : ∀ party state, holds state → holds (move party state)) (turns : List Party)
    (state : State) (initially : holds state) : holds (after move state turns) := by
  induction turns generalizing state with
  | nil => exact initially
  | cons party turns inductionHypothesis =>
    exact inductionHypothesis (move party state) (keeps party state initially)

theorem stateAt_eq_after (schedule : Nat → Party) (state : State) (moment : Nat) :
    stateAt move schedule state moment =
      after move state ((List.range moment).map schedule) := by
  induction moment with
  | zero => rfl
  | succ moment inductionHypothesis =>
    rw [stateAt, inductionHypothesis, List.range_succ, List.map_append, after, after,
      List.foldl_append]
    rfl

theorem stateAt_invariant {holds : State → Prop}
    (keeps : ∀ party state, holds state → holds (move party state)) (schedule : Nat → Party)
    (state : State) (initially : holds state) (moment : Nat) :
    holds (stateAt move schedule state moment) := by
  rw [stateAt_eq_after]
  exact after_invariant keeps _ state initially

/-- What every move keeps holds from the moment on at which it first does. -/
theorem stateAt_stays {holds : State → Prop}
    (keeps : ∀ party state, holds state → holds (move party state)) (schedule : Nat → Party)
    (state : State) (moment later : Nat) (ordered : moment ≤ later)
    (now : holds (stateAt move schedule state moment)) :
    holds (stateAt move schedule state later) := by
  induction later, ordered using Nat.le_induction with
  | base => exact now
  | succ later _ inductionHypothesis => exact keeps _ _ inductionHypothesis

/-! ### Progress -/

/-- How a goal is reached from the states of an invariant. Each state has a rank that no move
raises, and a helper whose move reaches the goal or lowers the rank. As long as the rank stays, the
helper stays. -/
structure Progress [Preorder Rank] (move : Party → State → State)
    (invariant goal : State → Prop) (rank : State → Rank) (helper : State → Party) : Prop where
  keeps : ∀ party state, invariant state → invariant (move party state)
  stays : ∀ party state, invariant state → goal (move party state) ∨
    rank (move party state) < rank state ∨
    (rank (move party state) = rank state ∧ helper (move party state) = helper state)
  helps : ∀ state, invariant state → ¬ goal state →
    goal (move (helper state) state) ∨ rank (move (helper state) state) < rank state

section Progress

variable [Preorder Rank] {invariant goal : State → Prop} {rank : State → Rank}
  {helper : State → Party}

/-- Until the rank is lowered or the goal is reached, the helper waits for its turn. -/
theorem Progress.waits (progress : Progress move invariant goal rank helper)
    (schedule : Nat → Party) (state : State) (initially : invariant state) (moment turns : Nat) :
    (∃ later, moment ≤ later ∧ (goal (stateAt move schedule state later) ∨
      rank (stateAt move schedule state later) < rank (stateAt move schedule state moment))) ∨
    (rank (stateAt move schedule state (moment + turns)) =
        rank (stateAt move schedule state moment) ∧
      helper (stateAt move schedule state (moment + turns)) =
        helper (stateAt move schedule state moment)) := by
  induction turns with
  | zero => exact Or.inr ⟨rfl, rfl⟩
  | succ turns inductionHypothesis =>
    rcases inductionHypothesis with done | ⟨sameRank, sameHelper⟩
    · exact Or.inl done
    · have holds := stateAt_invariant progress.keeps schedule state initially (moment + turns)
      rcases progress.stays (schedule (moment + turns)) _ holds with reached | lower | same
      · exact Or.inl ⟨moment + turns + 1, by omega, Or.inl reached⟩
      · refine Or.inl ⟨moment + turns + 1, by omega, Or.inr ?_⟩
        rw [← sameRank]
        exact lower
      · exact Or.inr ⟨same.1.trans sameRank, same.2.trans sameHelper⟩

/-- Every fair schedule lowers the rank or reaches the goal. -/
theorem Progress.lowers (progress : Progress move invariant goal rank helper)
    (schedule : Nat → Party) (fair : Fair schedule) (state : State) (initially : invariant state)
    (moment : Nat) :
    ∃ later, moment ≤ later ∧ (goal (stateAt move schedule state later) ∨
      rank (stateAt move schedule state later) < rank (stateAt move schedule state moment)) := by
  obtain ⟨turn, ordered, scheduled⟩ := fair (helper (stateAt move schedule state moment)) moment
  obtain ⟨turns, rfl⟩ := Nat.exists_eq_add_of_le ordered
  rcases progress.waits schedule state initially moment turns with done | ⟨sameRank, sameHelper⟩
  · exact done
  · have holds := stateAt_invariant progress.keeps schedule state initially (moment + turns)
    by_cases reached : goal (stateAt move schedule state (moment + turns))
    · exact ⟨moment + turns, ordered, Or.inl reached⟩
    · have helps := progress.helps _ holds reached
      rw [sameHelper, ← scheduled, sameRank] at helps
      exact ⟨moment + turns + 1, by omega, helps⟩

/-- Every fair schedule reaches the goal, from any moment on. -/
theorem Progress.reaches [WellFoundedLT Rank]
    (progress : Progress move invariant goal rank helper) (schedule : Nat → Party)
    (fair : Fair schedule) (state : State) (initially : invariant state) (moment : Nat) :
    ∃ later, moment ≤ later ∧ goal (stateAt move schedule state later) := by
  obtain ⟨current, isRank⟩ : ∃ current, rank (stateAt move schedule state moment) = current :=
    ⟨_, rfl⟩
  induction current using WellFoundedLT.induction generalizing moment with
  | ind current inductionHypothesis =>
    obtain ⟨later, ordered, reached | lower⟩ :=
      progress.lowers schedule fair state initially moment
    · exact ⟨later, ordered, reached⟩
    · rw [isRank] at lower
      obtain ⟨last, after, reached⟩ := inductionHypothesis _ lower later rfl
      exact ⟨last, ordered.trans after, reached⟩

end Progress

end Interleaving

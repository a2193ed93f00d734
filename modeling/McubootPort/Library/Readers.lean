/-
This file is about reading values one after another from positions.

A reader says which value stands at a position and where the next one starts. An
ordered choice reads with the first of several readers that finds something. A
greedy reader goes on until it finds nothing more, or has read as much as it
may. What it reads is the only chain of values that is as long as that.
-/

import Mathlib.Data.List.Basic

/-- The value at a position and the position behind it, if there is one. -/
abbrev Reader (Position Value : Type) := Position → Option (Value × Position)

namespace Reader

variable {Position Value Other Result : Type}

/-- One value and then another. The first is only looked for. -/
def after (first : Reader Position Other) (second : Reader Position Value) :
    Reader Position Value :=
  fun position => (first position).bind fun found => second found.2

/-- Another form of the value. -/
def map (form : Value → Result) (read : Reader Position Value) : Reader Position Result :=
  fun position => (read position).map fun found => (form found.1, found.2)

/-- The first of several readers that finds something. -/
def choice : List (Reader Position Value) → Reader Position Value
  | [] => fun _ => none
  | read :: others => fun position => (read position).or (choice others position)

theorem choice_cons (read : Reader Position Value) (others : List (Reader Position Value))
    (position : Position) :
    choice (read :: others) position = (read position).or (choice others position) := rfl

/-- A choice finds what one reader finds at whose position no reader before it finds anything. -/
theorem choice_eq_some_iff (readers : List (Reader Position Value)) (position : Position)
    (found : Value × Position) :
    choice readers position = some found ↔
      ∃ before read behind, readers = before ++ read :: behind ∧ read position = some found ∧
        ∀ other ∈ before, other position = none := by
  induction readers with
  | nil => simp [choice]
  | cons read others inductionHypothesis =>
    rw [choice_cons]
    cases first : read position with
    | some earlier =>
      rw [Option.some_or]
      constructor
      · intro same
        exact ⟨[], read, others, rfl, first.trans same, fun _ member => by cases member⟩
      · rintro ⟨before, chosen, behind, split, finds, misses⟩
        cases before with
        | nil =>
          rw [List.nil_append, List.cons.injEq] at split
          rw [split.1] at first
          exact first.symm.trans finds
        | cons head before =>
          rw [List.cons_append, List.cons.injEq] at split
          have nothing := misses head (List.mem_cons_self ..)
          rw [← split.1, first] at nothing
          cases nothing
    | none =>
      rw [Option.none_or, inductionHypothesis]
      constructor
      · rintro ⟨before, chosen, behind, rfl, finds, misses⟩
        refine ⟨read :: before, chosen, behind, rfl, finds, fun other member => ?_⟩
        rcases List.mem_cons.mp member with rfl | later
        · exact first
        · exact misses other later
      · rintro ⟨before, chosen, behind, split, finds, misses⟩
        cases before with
        | nil =>
          rw [List.nil_append, List.cons.injEq] at split
          rw [← split.1, first] at finds
          cases finds
        | cons head before =>
          rw [List.cons_append, List.cons.injEq] at split
          exact ⟨before, chosen, behind, split.2, finds, fun other member =>
            misses other (List.mem_cons_of_mem _ member)⟩

/-- Values that stand one behind the other, from a position to another. -/
inductive Chain (read : Reader Position Value) : Position → List Value → Position → Prop
  | nil (position : Position) : Chain read position [] position
  | cons {position next last : Position} {value : Value} {values : List Value}
    (here : read position = some (value, next)) (rest : Chain read next values last) :
    Chain read position (value :: values) last

/-- Read as long as there is something, but at most so many values. -/
def greedy (read : Reader Position Value) : Nat → Position → List Value × Position
  | 0, position => ([], position)
  | most + 1, position =>
    match read position with
    | none => ([], position)
    | some (value, next) => (value :: (greedy read most next).1, (greedy read most next).2)

section Greedy

variable (read : Reader Position Value)

theorem greedy_none (most : Nat) (position : Position) (missing : read position = none) :
    greedy read most position = ([], position) := by
  cases most with
  | zero => rfl
  | succ most => rw [greedy, missing]

theorem greedy_some (most : Nat) (position next : Position) (value : Value)
    (here : read position = some (value, next)) :
    greedy read (most + 1) position =
      (value :: (greedy read most next).1, (greedy read most next).2) := by
  rw [greedy, here]

theorem length_greedy_le (most : Nat) (position : Position) :
    (greedy read most position).1.length ≤ most := by
  induction most generalizing position with
  | zero => exact Nat.le_refl _
  | succ most inductionHypothesis =>
    cases here : read position with
    | none =>
      rw [greedy_none read (most + 1) position here]
      exact Nat.zero_le _
    | some found =>
      rw [greedy_some read most position found.2 found.1 here, List.length_cons]
      exact Nat.succ_le_succ (inductionHypothesis found.2)

theorem chain_greedy (most : Nat) (position : Position) :
    Chain read position (greedy read most position).1 (greedy read most position).2 := by
  induction most generalizing position with
  | zero => exact .nil position
  | succ most inductionHypothesis =>
    cases here : read position with
    | none =>
      rw [greedy_none read (most + 1) position here]
      exact .nil position
    | some found =>
      rw [greedy_some read most position found.2 found.1 here]
      exact .cons here (inductionHypothesis found.2)

/-- A greedy reader that has read less than it may finds nothing more. -/
theorem greedy_stops (most : Nat) (position : Position)
    (short : (greedy read most position).1.length < most) :
    read (greedy read most position).2 = none := by
  induction most generalizing position with
  | zero => exact absurd short (Nat.not_lt_zero _)
  | succ most inductionHypothesis =>
    cases here : read position with
    | none =>
      rw [greedy_none read (most + 1) position here]
      exact here
    | some found =>
      rw [greedy_some read most position found.2 found.1 here] at short ⊢
      exact inductionHypothesis found.2 (Nat.lt_of_succ_lt_succ short)

/-- There is only one chain that a greedy reader can read. -/
theorem greedy_eq_of_chain {position last : Position} {values : List Value}
    (chain : Chain read position values last) (most : Nat) (fits : values.length ≤ most)
    (stops : values.length < most → read last = none) :
    greedy read most position = (values, last) := by
  induction chain generalizing most with
  | nil position =>
    cases most with
    | zero => rfl
    | succ most => exact greedy_none read _ _ (stops (Nat.succ_pos _))
  | cons here rest inductionHypothesis =>
    cases most with
    | zero => exact absurd fits (Nat.not_succ_le_zero _)
    | succ most =>
      rw [greedy_some read most _ _ _ here, inductionHypothesis most (Nat.le_of_succ_le_succ fits)
        fun short => stops (Nat.succ_lt_succ short)]

end Greedy

/-- A chain that is not empty ends where one of its values ends. -/
theorem Chain.last_mem {read : Reader Position Value} {position last : Position}
    {values : List Value} (chain : Chain read position values last) (some : values ≠ []) :
    ∃ before value, read before = Option.some (value, last) := by
  induction chain with
  | nil position => exact absurd rfl some
  | cons here rest inductionHypothesis =>
    cases rest with
    | nil position => exact ⟨_, _, here⟩
    | cons next further => exact inductionHypothesis (List.cons_ne_nil _ _)

end Reader

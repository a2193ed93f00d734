/-
This file is about putting messages together from pieces.

An assembler holds some symbols. An input gives a piece, which goes behind what
is held, or it gives nothing, which changes nothing. What an input gives may
depend on what is held, as on the room that is left. A piece that makes what is
held whole is accepted, and a part of it is kept. The relation `Assembles` says
what an assembler answers to its inputs and what it holds behind them.
-/

import Mathlib.Data.List.Basic

namespace Reassembly

variable {Symbol Input : Type}

/-- What an assembler answers to an input. -/
inductive Answer where
  | refused
  | waiting
  | accepted

/-- The piece that an input gives, when something is held already; what is whole; and what is kept
of it. -/
structure Assembler (Symbol Input : Type) where
  piece : List Symbol → Input → Option (List Symbol)
  Whole : List Symbol → Prop
  kept : List Symbol → List Symbol

/-- From what is held, the inputs lead to the answers and to what is held behind them. -/
inductive Assembles (assembler : Assembler Symbol Input) :
    List Symbol → List Input → List Answer → List Symbol → Prop where
  | done (held : List Symbol) : Assembles assembler held [] [] held
  | refuses {held final : List Symbol} {input : Input} {inputs : List Input}
      {answers : List Answer} (nothing : assembler.piece held input = none)
      (rest : Assembles assembler held inputs answers final) :
      Assembles assembler held (input :: inputs) (.refused :: answers) final
  | waits {held piece final : List Symbol} {input : Input} {inputs : List Input}
      {answers : List Answer} (gives : assembler.piece held input = some piece)
      (part : ¬ assembler.Whole (held ++ piece))
      (rest : Assembles assembler (held ++ piece) inputs answers final) :
      Assembles assembler held (input :: inputs) (.waiting :: answers) final
  | accepts {held piece final : List Symbol} {input : Input} {inputs : List Input}
      {answers : List Answer} (gives : assembler.piece held input = some piece)
      (whole : assembler.Whole (held ++ piece))
      (rest : Assembles assembler (assembler.kept (held ++ piece)) inputs answers final) :
      Assembles assembler held (input :: inputs) (.accepted :: answers) final

variable {assembler : Assembler Symbol Input}

/-- The inputs determine the answers and what is held behind them. -/
theorem Assembles.unique {held final other : List Symbol} {inputs : List Input}
    {answers others : List Answer} (first : Assembles assembler held inputs answers final)
    (second : Assembles assembler held inputs others other) :
    answers = others ∧ final = other := by
  induction first generalizing others with
  | done held =>
    cases second
    exact ⟨rfl, rfl⟩
  | refuses nothing _ inductionHypothesis =>
    cases second with
    | refuses _ rest =>
      obtain ⟨rfl, rfl⟩ := inductionHypothesis rest
      exact ⟨rfl, rfl⟩
    | waits gives => cases nothing.symm.trans gives
    | accepts gives => cases nothing.symm.trans gives
  | waits gives part _ inductionHypothesis =>
    cases second with
    | refuses nothing => cases gives.symm.trans nothing
    | waits same _ rest =>
      cases gives.symm.trans same
      obtain ⟨rfl, rfl⟩ := inductionHypothesis rest
      exact ⟨rfl, rfl⟩
    | accepts same whole =>
      cases gives.symm.trans same
      exact absurd whole part
  | accepts gives whole _ inductionHypothesis =>
    cases second with
    | refuses nothing => cases gives.symm.trans nothing
    | waits same part =>
      cases gives.symm.trans same
      exact absurd whole part
    | accepts same _ rest =>
      cases gives.symm.trans same
      obtain ⟨rfl, rfl⟩ := inductionHypothesis rest
      exact ⟨rfl, rfl⟩

/-- The inputs of two runs, one behind the other. -/
theorem Assembles.append {held middle final : List Symbol} {inputs others : List Input}
    {answers later : List Answer} (first : Assembles assembler held inputs answers middle)
    (second : Assembles assembler middle others later final) :
    Assembles assembler held (inputs ++ others) (answers ++ later) final := by
  induction first with
  | done held => exact second
  | refuses nothing _ inductionHypothesis => exact .refuses nothing (inductionHypothesis second)
  | waits gives part _ inductionHypothesis => exact .waits gives part (inductionHypothesis second)
  | accepts gives whole _ inductionHypothesis =>
    exact .accepts gives whole (inductionHypothesis second)

/-- The symbols of the pieces that some inputs mean, in order. -/
def symbols (meaning : Input → Option (List Symbol)) (inputs : List Input) : List Symbol :=
  (inputs.filterMap meaning).flatten

/-- The answer to an input that does not make anything whole. -/
def notYet (meaning : Input → Option (List Symbol)) (input : Input) : Answer :=
  if (meaning input).isSome then .waiting else .refused

theorem symbols_nil (meaning : Input → Option (List Symbol)) : symbols meaning [] = [] := rfl

theorem symbols_cons (meaning : Input → Option (List Symbol)) (input : Input)
    (inputs : List Input) :
    symbols meaning (input :: inputs) = (meaning input).getD [] ++ symbols meaning inputs := by
  cases gives : meaning input with
  | none => rw [symbols, List.filterMap_cons_none gives]; rfl
  | some piece => rw [symbols, List.filterMap_cons_some gives]; rfl

theorem symbols_append (meaning : Input → Option (List Symbol)) (first second : List Input) :
    symbols meaning (first ++ second) = symbols meaning first ++ symbols meaning second := by
  rw [symbols, List.filterMap_append, List.flatten_append, symbols, symbols]

/-- While no prefix of the pieces is whole, the assembler waits and holds them all. Inputs that mean
nothing are refused on the way. -/
theorem assembles_notYet (meaning : Input → Option (List Symbol)) (inputs : List Input)
    (held : List Symbol)
    (gives : ∀ front input behind, front ++ input :: behind = inputs →
      assembler.piece (held ++ symbols meaning front) input = meaning input)
    (part : ∀ front behind, front ++ behind = inputs →
      ¬ assembler.Whole (held ++ symbols meaning front)) :
    Assembles assembler held inputs (inputs.map (notYet meaning))
      (held ++ symbols meaning inputs) := by
  induction inputs generalizing held with
  | nil =>
    rw [symbols_nil, List.append_nil]
    exact .done held
  | cons input inputs inductionHypothesis =>
    have first := gives [] input inputs rfl
    have unfinished := part [input] inputs rfl
    have others := inductionHypothesis (held ++ (meaning input).getD []) ?_ ?_
    · rw [symbols_nil, List.append_nil] at first
      rw [symbols_cons, symbols_nil, List.append_nil] at unfinished
      rw [symbols_cons, ← List.append_assoc, List.map_cons, notYet]
      cases meant : meaning input with
      | none =>
        rw [meant, Option.getD_none, List.append_nil] at others
        rw [Option.getD_none, List.append_nil]
        exact .refuses (first.trans meant) others
      | some piece =>
        rw [meant, Option.getD_some] at others unfinished
        exact .waits (first.trans meant) unfinished others
    · intro front next behind split
      have later := gives (input :: front) next behind (by rw [List.cons_append, split])
      rwa [symbols_cons, ← List.append_assoc] at later
    · intro front behind split
      have later := part (input :: front) behind (by rw [List.cons_append, split])
      rwa [symbols_cons, ← List.append_assoc] at later

end Reassembly

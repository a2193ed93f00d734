/-
This file is about cutting a stream of symbols into frames, and about readers
that see the stream only in batches.

A frame is complete when one of its symbols ends it or when it fills the
capacity the reader offered. `takeFrame` is the specification: the shortest
complete prefix of the stream, with the symbols behind it left alone. A batch
reader cannot stop inside a batch: `gather` takes whole batches until what it
holds is complete. The two agree exactly when every frame of the stream ends
where a batch ends, and that is a condition on the stream and on the batches
alone.
-/

import Mathlib.Data.List.Basic
import Mathlib.Data.List.Infix

namespace Framing

variable {Symbol : Type} (isEnd : Symbol → Bool)

/-! ### Complete symbols and the first frame -/

/-- Some symbols are complete when one of them is an end symbol or they fill the capacity. -/
def complete (capacity : Nat) (symbols : List Symbol) : Bool :=
  decide (capacity ≤ symbols.length) || symbols.any isEnd

/-- The first frame of a stream and the symbols behind it, when the stream holds one. -/
def takeFrame : Nat → List Symbol → Option (List Symbol × List Symbol)
  | _, [] => none
  | capacity, symbol :: rest =>
    if decide (capacity ≤ 1) || isEnd symbol then some ([symbol], rest)
    else (takeFrame (capacity - 1) rest).map fun pair => (symbol :: pair.1, pair.2)

theorem complete_nil (capacity : Nat) (positive : 1 ≤ capacity) :
    complete isEnd capacity [] = false := by
  simp only [complete, List.length_nil, List.any_nil, Bool.or_false, decide_eq_false_iff_not]
  omega

theorem complete_cons (capacity : Nat) (symbol : Symbol) (rest : List Symbol)
    (more : (decide (capacity ≤ 1) || isEnd symbol) = false) :
    complete isEnd capacity (symbol :: rest) = complete isEnd (capacity - 1) rest := by
  simp only [Bool.or_eq_false_iff, decide_eq_false_iff_not] at more
  have lengths : (capacity ≤ rest.length + 1) = (capacity - 1 ≤ rest.length) :=
    propext ⟨by omega, by omega⟩
  simp only [complete, List.length_cons, List.any_cons, more.2, Bool.false_or, lengths]

/-- Completeness is kept by every longer list. -/
theorem complete_append (capacity : Nat) (first second : List Symbol)
    (done : complete isEnd capacity first = true) :
    complete isEnd capacity (first ++ second) = true := by
  simp only [complete, Bool.or_eq_true, decide_eq_true_eq, List.any_append,
    List.length_append] at done ⊢
  rcases done with filled | ended
  · exact Or.inl (by omega)
  · exact Or.inr (Or.inl ended)

/-- Complete symbols are not none at all. -/
theorem length_of_complete (capacity : Nat) (positive : 1 ≤ capacity) (symbols : List Symbol)
    (done : complete isEnd capacity symbols = true) : 1 ≤ symbols.length := by
  cases symbols with
  | nil => rw [complete_nil isEnd capacity positive] at done; cases done
  | cons symbol rest => exact Nat.succ_le_succ (Nat.zero_le _)

/-- What the first frame of a stream is: a nonempty prefix within the capacity that is complete
and no longer than any other complete prefix. -/
structure FirstFrame (capacity : Nat) (stream frame rest : List Symbol) : Prop where
  split : frame ++ rest = stream
  nonempty : 1 ≤ frame.length
  bounded : frame.length ≤ capacity
  done : complete isEnd capacity frame = true
  shortest : ∀ first second, first ++ second = stream →
    complete isEnd capacity first = true → frame.length ≤ first.length

theorem takeFrame_some (capacity : Nat) (positive : 1 ≤ capacity) (stream frame rest : List Symbol)
    (taken : takeFrame isEnd capacity stream = some (frame, rest)) :
    FirstFrame isEnd capacity stream frame rest := by
  induction stream generalizing capacity frame with
  | nil => simp only [takeFrame, reduceCtorEq] at taken
  | cons symbol tail inductionHypothesis =>
    rw [takeFrame] at taken
    cases ended : (decide (capacity ≤ 1) || isEnd symbol) with
    | true =>
      rw [if_pos ended] at taken
      simp only [Option.some.injEq, Prod.mk.injEq] at taken
      obtain ⟨rfl, rfl⟩ := taken
      refine ⟨rfl, le_rfl, positive, ?_, ?_⟩
      · simp only [Bool.or_eq_true, decide_eq_true_eq] at ended
        simpa [complete] using ended
      · intro first second _ done
        cases first with
        | nil => rw [complete_nil isEnd capacity positive] at done; cases done
        | cons head more => simp
    | false =>
      rw [if_neg (by simp [ended])] at taken
      obtain ⟨⟨inner, behind⟩, innerTaken, equal⟩ := Option.map_eq_some_iff.mp taken
      simp only [Prod.mk.injEq] at equal
      obtain ⟨rfl, rfl⟩ := equal
      have large : 1 ≤ capacity - 1 := by
        simp only [Bool.or_eq_false_iff, decide_eq_false_iff_not] at ended
        omega
      have spec := inductionHypothesis (capacity - 1) large inner innerTaken
      refine ⟨by rw [List.cons_append, spec.split], by simp, ?_, ?_, ?_⟩
      · have bound := spec.bounded
        simp only [List.length_cons]
        omega
      · rw [complete_cons isEnd capacity symbol inner ended]
        exact spec.done
      · intro first second split done
        cases first with
        | nil => rw [complete_nil isEnd capacity positive] at done; cases done
        | cons head more =>
          rw [List.cons_append, List.cons.injEq] at split
          obtain ⟨rfl, split⟩ := split
          rw [complete_cons isEnd capacity head more ended] at done
          exact Nat.succ_le_succ (spec.shortest more second split done)

theorem takeFrame_none (capacity : Nat) (positive : 1 ≤ capacity) (stream : List Symbol)
    (waiting : takeFrame isEnd capacity stream = none) :
    complete isEnd capacity stream = false := by
  induction stream generalizing capacity with
  | nil => exact complete_nil isEnd capacity positive
  | cons symbol tail inductionHypothesis =>
    rw [takeFrame] at waiting
    cases ended : (decide (capacity ≤ 1) || isEnd symbol) with
    | true => rw [if_pos ended] at waiting; cases waiting
    | false =>
      rw [if_neg (by simp [ended]), Option.map_eq_none_iff] at waiting
      rw [complete_cons isEnd capacity symbol tail ended]
      refine inductionHypothesis (capacity - 1) ?_ waiting
      simp only [Bool.or_eq_false_iff, decide_eq_false_iff_not] at ended
      omega

/-- A complete stream has a first frame. -/
theorem takeFrame_of_complete (capacity : Nat) (positive : 1 ≤ capacity) (stream : List Symbol)
    (done : complete isEnd capacity stream = true) :
    ∃ frame rest, takeFrame isEnd capacity stream = some (frame, rest) ∧
      FirstFrame isEnd capacity stream frame rest := by
  cases taken : takeFrame isEnd capacity stream with
  | none =>
    rw [takeFrame_none isEnd capacity positive stream taken] at done
    cases done
  | some pair => exact ⟨pair.1, pair.2, rfl, takeFrame_some isEnd capacity positive _ _ _ taken⟩

/-! ### Reading in whole batches -/

/-- Take whole batches, after the symbols already held, until what is held is complete. The
result is what was gathered and the batches left over. -/
def gather (capacity : Nat) : List Symbol → List (List Symbol) →
    Option (List Symbol × List (List Symbol))
  | _, [] => none
  | held, batch :: batches =>
    if complete isEnd capacity (held ++ batch) then some (held ++ batch, batches)
    else gather capacity (held ++ batch) batches

/-- What a batch reader gathered: the batches up to the first whose symbols, with those before,
are complete. -/
structure Gathered (capacity : Nat) (held : List Symbol) (batches : List (List Symbol))
    (gathered : List Symbol) (used later : List (List Symbol)) : Prop where
  split : used ++ later = batches
  symbols : held ++ used.flatten = gathered
  done : complete isEnd capacity gathered = true
  earliest : ∀ first second, first ++ second = used →
    complete isEnd capacity (held ++ first.flatten) = true → first = used

variable {isEnd} in
/-- What was gathered from nothing is what the used batches hold. -/
theorem Gathered.flatten_used {capacity : Nat} {batches used later : List (List Symbol)}
    {gathered : List Symbol} (spec : Gathered isEnd capacity [] batches gathered used later) :
    used.flatten = gathered := by
  rw [← spec.symbols, List.nil_append]

variable {isEnd} in
theorem Gathered.flatten_eq {capacity : Nat} {batches used later : List (List Symbol)}
    {gathered : List Symbol} (spec : Gathered isEnd capacity [] batches gathered used later) :
    gathered ++ later.flatten = batches.flatten := by
  rw [← spec.flatten_used, ← List.flatten_append, spec.split]

variable {isEnd} in
theorem Gathered.used_ne_nil {capacity : Nat} {batches used later : List (List Symbol)}
    {gathered : List Symbol} (spec : Gathered isEnd capacity [] batches gathered used later)
    (positive : 1 ≤ capacity) : used ≠ [] := by
  rintro rfl
  have filled := spec.done
  rw [← spec.flatten_used, List.flatten_nil, complete_nil isEnd capacity positive] at filled
  cases filled

theorem gather_some (capacity : Nat) (held : List Symbol) (batches : List (List Symbol))
    (gathered : List Symbol) (later : List (List Symbol))
    (waiting : complete isEnd capacity held = false)
    (result : gather isEnd capacity held batches = some (gathered, later)) :
    ∃ used, Gathered isEnd capacity held batches gathered used later := by
  induction batches generalizing held with
  | nil => simp only [gather, reduceCtorEq] at result
  | cons batch rest inductionHypothesis =>
    rw [gather] at result
    cases done : complete isEnd capacity (held ++ batch) with
    | true =>
      rw [if_pos done] at result
      simp only [Option.some.injEq, Prod.mk.injEq] at result
      obtain ⟨rfl, rfl⟩ := result
      refine ⟨[batch], rfl, by simp, done, ?_⟩
      intro first second split already
      cases first with
      | nil =>
        rw [List.flatten_nil, List.append_nil, waiting] at already
        cases already
      | cons head more =>
        rw [List.cons_append, List.cons.injEq, List.append_eq_nil_iff] at split
        rw [split.1, split.2.1]
    | false =>
      rw [if_neg (by simp [done])] at result
      obtain ⟨used, spec⟩ := inductionHypothesis (held ++ batch) done result
      refine ⟨batch :: used, by rw [List.cons_append, spec.split], ?_, spec.done, ?_⟩
      · rw [List.flatten_cons, ← List.append_assoc, spec.symbols]
      · intro first second split already
        cases first with
        | nil =>
          rw [List.flatten_nil, List.append_nil, waiting] at already
          cases already
        | cons head more =>
          rw [List.cons_append, List.cons.injEq] at split
          obtain ⟨rfl, split⟩ := split
          rw [List.flatten_cons, ← List.append_assoc] at already
          rw [spec.earliest more second split already]

theorem gather_none (capacity : Nat) (held : List Symbol) (batches : List (List Symbol))
    (waiting : complete isEnd capacity held = false)
    (result : gather isEnd capacity held batches = none) :
    complete isEnd capacity (held ++ batches.flatten) = false := by
  induction batches generalizing held with
  | nil => rw [List.flatten_nil, List.append_nil, waiting]
  | cons batch rest inductionHypothesis =>
    rw [gather] at result
    cases done : complete isEnd capacity (held ++ batch) with
    | true => rw [if_pos done] at result; cases result
    | false =>
      rw [if_neg (by simp [done])] at result
      rw [List.flatten_cons, ← List.append_assoc]
      exact inductionHypothesis (held ++ batch) done result

/-- Batches that leave the reader waiting are taken on the way. -/
theorem gather_append (capacity : Nat) (held : List Symbol) (earlier later : List (List Symbol))
    (waiting : complete isEnd capacity (held ++ earlier.flatten) = false) :
    gather isEnd capacity held (earlier ++ later) =
      gather isEnd capacity (held ++ earlier.flatten) later := by
  induction earlier generalizing held with
  | nil => rw [List.nil_append, List.flatten_nil, List.append_nil]
  | cons batch rest inductionHypothesis =>
    rw [List.flatten_cons, ← List.append_assoc] at waiting ⊢
    have still : complete isEnd capacity (held ++ batch) = false := by
      by_contra done
      rw [Bool.not_eq_false] at done
      rw [complete_append isEnd capacity _ rest.flatten done] at waiting
      cases waiting
    rw [List.cons_append, gather, if_neg (by simp [still])]
    exact inductionHypothesis (held ++ batch) waiting

theorem gather_last (capacity : Nat) (held batch : List Symbol) (later : List (List Symbol))
    (done : complete isEnd capacity (held ++ batch) = true) :
    gather isEnd capacity held (batch :: later) = some (held ++ batch, later) := by
  rw [gather, if_pos done]

/-- No batch overfills the capacity: as long as the batches before it are not complete, a batch
fits what they leave. -/
def Fits (capacity : Nat) (batches : List (List Symbol)) : Prop :=
  ∀ earlier batch later, earlier ++ batch :: later = batches →
    complete isEnd capacity earlier.flatten = false →
    earlier.flatten.length + batch.length ≤ capacity

/-- What is gathered stays within the capacity exactly when every batch fits. -/
theorem gather_length_le_iff (capacity : Nat) (positive : 1 ≤ capacity)
    (batches : List (List Symbol)) :
    (∀ gathered later, gather isEnd capacity [] batches = some (gathered, later) →
        gathered.length ≤ capacity) ↔ Fits isEnd capacity batches := by
  constructor
  · intro bounded earlier batch later split waiting
    cases done : complete isEnd capacity (earlier.flatten ++ batch) with
    | true =>
      have result : gather isEnd capacity [] batches =
          some (earlier.flatten ++ batch, later) := by
        rw [← split, gather_append isEnd capacity [] earlier _ waiting]
        exact gather_last isEnd capacity _ batch later done
      have bound := bounded _ _ result
      rwa [List.length_append] at bound
    | false =>
      simp only [complete, Bool.or_eq_false_iff, decide_eq_false_iff_not,
        List.length_append] at done
      omega
  · intro fits gathered later result
    obtain ⟨used, spec⟩ :=
      gather_some isEnd capacity [] batches gathered later (complete_nil isEnd capacity positive)
        result
    have symbols := spec.flatten_used
    rcases List.eq_nil_or_concat used with empty | ⟨earlier, batch, concat⟩
    · rw [← symbols, empty, List.flatten_nil]
      exact Nat.zero_le _
    · rw [List.concat_eq_append] at concat
      have waiting : complete isEnd capacity earlier.flatten = false := by
        by_contra done
        rw [Bool.not_eq_false] at done
        have same := spec.earliest earlier [batch] concat.symm done
        rw [concat] at same
        exact absurd (congrArg List.length same) (by simp)
      have bound := fits earlier batch later (by rw [← spec.split, concat]; simp) waiting
      rw [← symbols, concat, List.flatten_append, List.length_append, List.flatten_singleton]
      exact bound

/-- Batches that fill the capacity at most together all fit. -/
theorem fits_of_flatten_length_le (capacity : Nat) (batches : List (List Symbol))
    (bound : batches.flatten.length ≤ capacity) : Fits isEnd capacity batches := by
  intro earlier batch later split _
  rw [← split, List.flatten_append, List.flatten_cons, List.length_append,
    List.length_append] at bound
  omega

/-! ### Successive reads -/

/-- The frames that successive reads with the given capacities are to return. -/
def frames : List Nat → List Symbol → List (List Symbol)
  | [], _ => []
  | capacity :: capacities, stream =>
    match takeFrame isEnd capacity stream with
    | none => []
    | some (frame, rest) => frame :: frames capacities rest

/-- What successive batch reads with the given capacities gather. -/
def gatherAll : List Nat → List (List Symbol) → List (List Symbol)
  | [], _ => []
  | capacity :: capacities, batches =>
    match gather isEnd capacity [] batches with
    | none => []
    | some (gathered, later) => gathered :: gatherAll capacities later

/-- The positions, counted from `start`, at which the pieces of a stream end. -/
def ends : Nat → List (List Symbol) → List Nat
  | _, [] => []
  | start, piece :: pieces => (start + piece.length) :: ends (start + piece.length) pieces

theorem mem_ends (start position : Nat) (pieces : List (List Symbol)) :
    position ∈ ends start pieces ↔ ∃ first second, first ++ second = pieces ∧ first ≠ [] ∧
      position = start + first.flatten.length := by
  induction pieces generalizing start with
  | nil =>
    simp only [ends, List.not_mem_nil, List.append_eq_nil_iff, false_iff, not_exists]
    rintro first second ⟨⟨empty, _⟩, nonempty, _⟩
    exact nonempty empty
  | cons piece rest inductionHypothesis =>
    rw [ends, List.mem_cons, inductionHypothesis]
    constructor
    · rintro (head | ⟨first, second, split, _, position⟩)
      · exact ⟨[piece], rest, rfl, by simp, by simpa using head⟩
      · refine ⟨piece :: first, second, by rw [List.cons_append, split], by simp, ?_⟩
        rw [position, List.flatten_cons, List.length_append, Nat.add_assoc]
    · rintro ⟨first, second, split, nonempty, position⟩
      cases first with
      | nil => exact absurd rfl nonempty
      | cons head more =>
        rw [List.cons_append, List.cons.injEq] at split
        obtain ⟨rfl, split⟩ := split
        rw [List.flatten_cons, List.length_append, ← Nat.add_assoc] at position
        by_cases empty : more = []
        · exact Or.inl (by simpa [empty] using position)
        · exact Or.inr ⟨more, second, split, empty, position⟩

theorem ends_append (start : Nat) (first second : List (List Symbol)) :
    ends start (first ++ second) =
      ends start first ++ ends (start + first.flatten.length) second := by
  induction first generalizing start with
  | nil => rfl
  | cons piece rest inductionHypothesis =>
    rw [List.cons_append, ends, ends, inductionHypothesis, List.cons_append, List.flatten_cons,
      List.length_append, Nat.add_assoc]

theorem ends_le (start position : Nat) (pieces : List (List Symbol))
    (member : position ∈ ends start pieces) : position ≤ start + pieces.flatten.length := by
  obtain ⟨first, second, split, _, equal⟩ := (mem_ends start position pieces).mp member
  rw [equal, ← split, List.flatten_append, List.length_append]
  omega

theorem lt_ends (start position : Nat) (pieces : List (List Symbol))
    (nonempty : ∀ piece ∈ pieces, 1 ≤ piece.length) (member : position ∈ ends start pieces) :
    start < position := by
  obtain ⟨first, second, split, notEmpty, equal⟩ := (mem_ends start position pieces).mp member
  cases first with
  | nil => exact absurd rfl notEmpty
  | cons piece more =>
    have bound := nonempty piece (by rw [← split]; simp)
    rw [equal, List.flatten_cons, List.length_append]
    omega

theorem frames_nonempty (capacities : List Nat) (positive : ∀ capacity ∈ capacities, 1 ≤ capacity)
    (stream : List Symbol) : ∀ frame ∈ frames isEnd capacities stream, 1 ≤ frame.length := by
  induction capacities generalizing stream with
  | nil => intro frame member; cases member
  | cons capacity rest inductionHypothesis =>
    intro frame member
    rw [frames] at member
    cases taken : takeFrame isEnd capacity stream with
    | none => rw [taken] at member; cases member
    | some pair =>
      rw [taken] at member
      rcases List.mem_cons.mp member with head | tail
      · rw [head]
        exact (takeFrame_some isEnd capacity (positive _ List.mem_cons_self) _ _ _ taken).nonempty
      · exact inductionHypothesis (fun other inside => positive _ (List.mem_cons_of_mem _ inside))
          _ frame tail

/-- A batch that ends where the first frame of the stream ends is the last batch gathered, so
what is gathered is the frame. -/
theorem gathered_eq_frame (capacity : Nat) (batches used later : List (List Symbol))
    (gathered frame rest : List Symbol)
    (spec : Gathered isEnd capacity [] batches gathered used later)
    (first : FirstFrame isEnd capacity batches.flatten frame rest)
    (aligned : frame.length ∈ ends 0 batches) : gathered = frame := by
  obtain ⟨earlier, behind, split, _, position⟩ := (mem_ends 0 _ batches).mp aligned
  rw [Nat.zero_add] at position
  have streams := spec.flatten_eq
  have short := first.shortest gathered later.flatten streams spec.done
  have same : earlier.flatten = frame := by
    have whole : earlier.flatten ++ behind.flatten = frame ++ rest := by
      rw [← List.flatten_append, split, first.split]
    exact (List.append_inj whole position.symm).1
  have long : gathered.length ≤ frame.length := by
    rcases List.append_eq_append_iff.mp (split.trans spec.split.symm) with
      ⟨middle, usedSplit, _⟩ | ⟨middle, earlierSplit, _⟩
    · have done : complete isEnd capacity ([] ++ earlier.flatten) = true := by
        rw [List.nil_append, same]
        exact first.done
      rw [← spec.flatten_used, ← spec.earliest earlier middle usedSplit.symm done, same]
    · rw [← same, earlierSplit, List.flatten_append, List.length_append, spec.flatten_used]
      omega
  exact (List.append_inj (streams.trans first.split.symm) (by omega)).1

/-- While the batches are not complete the stream has no frame. -/
theorem takeFrame_of_gather_none (capacity : Nat) (positive : 1 ≤ capacity)
    (batches : List (List Symbol)) (result : gather isEnd capacity [] batches = none) :
    takeFrame isEnd capacity batches.flatten = none := by
  have waiting := gather_none isEnd capacity [] batches (complete_nil isEnd capacity positive)
    result
  rw [List.nil_append] at waiting
  cases taken : takeFrame isEnd capacity batches.flatten with
  | none => rfl
  | some pair =>
    have first := takeFrame_some isEnd capacity positive _ _ _ taken
    have done := complete_append isEnd capacity pair.1 pair.2 first.done
    rw [first.split, waiting] at done
    cases done

variable {isEnd} in
theorem Gathered.ends_eq {capacity : Nat} {batches used later : List (List Symbol)}
    {gathered : List Symbol} (spec : Gathered isEnd capacity [] batches gathered used later)
    (start : Nat) :
    ends start batches = ends start used ++ ends (start + gathered.length) later := by
  rw [← spec.split, ends_append, spec.flatten_used]

/-- Successive batch reads return the frames of the stream exactly when every one of these
frames ends where a batch ends. -/
theorem gatherAll_eq_frames_iff (capacities : List Nat)
    (positive : ∀ capacity ∈ capacities, 1 ≤ capacity) (start : Nat)
    (batches : List (List Symbol)) :
    gatherAll isEnd capacities batches = frames isEnd capacities batches.flatten ↔
      ends start (frames isEnd capacities batches.flatten) ⊆ ends start batches := by
  induction capacities generalizing start batches with
  | nil => simp [gatherAll, frames, ends]
  | cons capacity capacities inductionHypothesis =>
    have large := positive capacity List.mem_cons_self
    have rest := inductionHypothesis fun other inside => positive _ (List.mem_cons_of_mem _ inside)
    have empty := complete_nil isEnd capacity large
    rw [gatherAll, frames]
    cases result : gather isEnd capacity [] batches with
    | none =>
      rw [takeFrame_of_gather_none isEnd capacity large batches result]
      simp [ends]
    | some pair =>
      obtain ⟨gathered, later⟩ := pair
      obtain ⟨used, spec⟩ := gather_some isEnd capacity [] batches gathered later empty result
      have streams := spec.flatten_eq
      have split := spec.ends_eq start
      have done := complete_append isEnd capacity gathered later.flatten spec.done
      rw [streams] at done
      obtain ⟨frame, behind, taken, first⟩ :=
        takeFrame_of_complete isEnd capacity large batches.flatten done
      simp only [taken]
      have tail : gathered = frame → behind = later.flatten := by
        intro same
        rw [same] at streams
        exact (List.append_cancel_left (streams.trans first.split.symm)).symm
      rw [ends, List.cons_subset]
      constructor
      · intro equal
        obtain ⟨same, others⟩ := List.cons.inj equal
        rw [tail same] at others ⊢
        rw [← same]
        refine ⟨(mem_ends start _ batches).mpr
          ⟨used, later, spec.split, spec.used_ne_nil large, ?_⟩, ?_⟩
        · rw [spec.flatten_used]
        · rw [split]
          exact List.subset_append_of_subset_right _ ((rest _ later).mp others)
      · rintro ⟨head, others⟩
        have aligned : frame.length ∈ ends 0 batches := by
          obtain ⟨earlier, more, whole, notEmpty, position⟩ := (mem_ends start _ batches).mp head
          exact (mem_ends 0 _ batches).mpr ⟨earlier, more, whole, notEmpty, by omega⟩
        have same := gathered_eq_frame isEnd capacity batches used later gathered frame behind spec
          first aligned
        rw [tail same] at others ⊢
        rw [same, (rest (start + frame.length) later).mpr]
        intro position member
        have above := lt_ends _ _ _ (frames_nonempty isEnd capacities
          (fun other inside => positive _ (List.mem_cons_of_mem _ inside)) later.flatten) member
        have inside := others member
        rw [split, List.mem_append, same] at inside
        rcases inside with below | inside
        · have bound := ends_le _ _ _ below
          rw [spec.flatten_used, same] at bound
          omega
        · exact inside

/-! ### Lines -/

/-- A line: one end symbol, at its end. -/
def IsLine (symbols : List Symbol) : Prop :=
  ∃ content last, symbols = content ++ [last] ∧ isEnd last = true ∧
    ∀ symbol ∈ content, isEnd symbol = false

theorem takeFrame_line (capacity : Nat) (line rest : List Symbol) (isLine : IsLine isEnd line)
    (room : line.length ≤ capacity) :
    takeFrame isEnd capacity (line ++ rest) = some (line, rest) := by
  obtain ⟨content, last, rfl, final, inner⟩ := isLine
  induction content generalizing capacity with
  | nil =>
    rw [List.nil_append, List.singleton_append, takeFrame, if_pos (by simp [final])]
  | cons symbol content inductionHypothesis =>
    simp only [List.cons_append, List.length_cons, List.length_append, List.length_nil] at room
    have open' : (decide (capacity ≤ 1) || isEnd symbol) = false := by
      rw [inner symbol List.mem_cons_self, Bool.or_false, decide_eq_false_iff_not]
      omega
    rw [List.cons_append, List.cons_append, takeFrame, if_neg (by simp [open']),
      inductionHypothesis (capacity - 1)
        (by simp only [List.length_append, List.length_cons, List.length_nil]; omega)
        fun other member => inner other (List.mem_cons_of_mem _ member)]
    rfl

/-- The frames of lines that fit their capacities are the lines. -/
theorem frames_lines {capacities : List Nat} {lines : List (List Symbol)}
    (rooms : List.Forall₂ (fun capacity line => line.length ≤ capacity) capacities lines)
    (isLine : ∀ line ∈ lines, IsLine isEnd line) :
    frames isEnd capacities lines.flatten = lines := by
  induction rooms with
  | nil => rfl
  | cons room _ inductionHypothesis =>
    rw [List.flatten_cons, frames,
      takeFrame_line isEnd _ _ _ (isLine _ List.mem_cons_self) room]
    simp only [inductionHypothesis fun line member => isLine line (List.mem_cons_of_mem _ member)]

/-- Pieces that are made of whole batches end where a batch ends. -/
theorem ends_flatten_subset (start : Nat) (groups : List (List (List Symbol)))
    (nonempty : ∀ group ∈ groups, group ≠ []) :
    ends start (groups.map List.flatten) ⊆ ends start groups.flatten := by
  intro position member
  obtain ⟨first, second, split, some, equal⟩ := (mem_ends _ _ _).mp member
  obtain ⟨front, back, rfl, rfl, rfl⟩ := List.map_eq_append_iff.mp split.symm
  refine (mem_ends _ _ _).mpr ⟨front.flatten, back.flatten, List.flatten_append.symm, ?_, ?_⟩
  · intro none
    cases front with
    | nil => exact some rfl
    | cons group front =>
      rw [List.flatten_cons, List.append_eq_nil_iff] at none
      exact nonempty group List.mem_cons_self none.1
  · rw [equal, List.flatten_flatten]

end Framing

/-
This file proves what the containers of the patched decoder promise to the
code around them.

A start that fails should leave no trace, a container should count as one
element of what it stands in, and it should close exactly where its header
says. The third holds. The first fails for a map whose number of elements
collides with the highest bit only when it is doubled, since the state was
already saved then. The second fails for every header that leaves the number
open, since such a header takes no element from the counter.
-/

import McubootPort.CborDecode

namespace McubootPort

/-! ### Starting and closing in the model -/

/-- The elements that one entry of the container takes. -/
def ContainerKind.perEntry : ContainerKind → Nat
  | .list => 1
  | .map => 2

/-- The counter that a container starts with. -/
def ContainerKind.elemCount (kind : ContainerKind) (count : BitVec 32) : BitVec 32 :=
  match kind with
  | .list => count
  | .map => if IndetLen count then count else count * 2

/-- A count that fits before it is doubled and no longer fits behind. -/
def DoublesPast (count : BitVec 32) : Prop := 2 ^ 30 ≤ count.toNat ∧ count.toNat < 2 ^ 31

instance (count : BitVec 32) : Decidable (DoublesPast count) :=
  inferInstanceAs (Decidable (_ ∧ _))

theorem toNat_double (count : BitVec 32) (fits : ¬ IndetLen count) :
    (count * 2).toNat = 2 * count.toNat := by
  rw [indetLen_iff] at fits
  rw [BitVec.toNat_mul]
  show count.toNat * 2 % 2 ^ 32 = 2 * count.toNat
  omega

theorem indetLen_double_iff (count : BitVec 32) (fits : ¬ IndetLen count) :
    IndetLen (count * 2) ↔ DoublesPast count := by
  rw [indetLen_iff, toNat_double count fits, DoublesPast]
  rw [indetLen_iff] at fits
  omega

theorem ContainerKind.elemCount_open (kind : ContainerKind) :
    kind.elemCount indetLenElemCount = indetLenElemCount := by
  cases kind with
  | list => rfl
  | map => rw [ContainerKind.elemCount, if_pos indetLen_indetLenElemCount]

/-- A count that is not too high stands for as many elements as it should, and does not look like an
open one. -/
theorem ContainerKind.elemCount_definite (kind : ContainerKind) (count : BitVec 32)
    (fits : ¬ IndetLen count) (early : ¬ (kind = .map ∧ DoublesPast count)) :
    (kind.elemCount count).toNat = kind.perEntry * count.toNat ∧
      ¬ IndetLen (kind.elemCount count) := by
  cases kind with
  | list => exact ⟨(Nat.one_mul _).symm, fits⟩
  | map =>
    rw [ContainerKind.elemCount, if_neg fits, indetLen_double_iff count fits]
    exact ⟨toNat_double count fits, fun past => early ⟨rfl, past⟩⟩

namespace CborStack

variable {capacity : Nat}

theorem startDecode_none (input : CborInput) (kind : ContainerKind) (stack : CborStack capacity)
    (after : CborState) (fails : headerDecode input kind.majorType stack.live = (none, after)) :
    stack.startDecode input kind = (false, ⟨after, stack.saved⟩) := by
  cases kind with
  | list =>
    rw [ContainerKind.majorType] at fails
    rw [startDecode, listMapStartDecode, fails]
  | map =>
    rw [ContainerKind.majorType] at fails
    rw [startDecode, mapStartDecode, listMapStartDecode, fails]

theorem startDecode_full (input : CborInput) (kind : ContainerKind) (stack : CborStack capacity)
    (header : CborState) (count : BitVec 32)
    (reads : headerDecode input kind.majorType stack.live = (some count, header))
    (full : stack.saved.height = capacity) :
    stack.startDecode input kind = (false, ⟨header, stack.saved⟩) := by
  have refuses := newBackup_full ⟨header, stack.saved⟩ count full
  cases kind with
  | list =>
    rw [ContainerKind.majorType] at reads
    rw [startDecode, listMapStartDecode, reads]
    exact refuses
  | map =>
    rw [ContainerKind.majorType] at reads
    rw [startDecode, mapStartDecode, listMapStartDecode, reads]
    simp only [refuses]

/-- With room for a backup the state behind the header is saved. A map may be given up after
that. -/
theorem startDecode_room (input : CborInput) (kind : ContainerKind) (stack : CborStack capacity)
    (header : CborState) (count : BitVec 32)
    (reads : headerDecode input kind.majorType stack.live = (some count, header))
    (room : stack.saved.height < capacity) :
    stack.startDecode input kind =
      if kind = .map ∧ DoublesPast count then
        (false, ⟨failRestore { header with elemCount := count },
          ⟨header :: stack.saved.items, room⟩⟩)
      else (true, ⟨{ header with elemCount := kind.elemCount count },
        ⟨header :: stack.saved.items, room⟩⟩) := by
  have saves := newBackup_room ⟨header, stack.saved⟩ count room
  cases kind with
  | list =>
    rw [ContainerKind.majorType] at reads
    rw [startDecode, listMapStartDecode, reads, if_neg fun late => ContainerKind.noConfusion late.1]
    exact saves
  | map =>
    rw [ContainerKind.majorType] at reads
    rw [startDecode, mapStartDecode, listMapStartDecode, reads]
    simp only [saves, onLive, mapElemCount, ContainerKind.elemCount, true_and]
    by_cases isOpen : IndetLen count
    · have small : ¬ DoublesPast count := fun past =>
        Nat.not_le.mpr past.2 ((indetLen_iff count).mp isOpen)
      simp only [if_pos isOpen, if_neg small]
    · simp only [if_neg isOpen, indetLen_double_iff count isOpen]
      by_cases past : DoublesPast count
      · simp only [if_pos past]
      · simp only [if_neg past]

/-- A start that succeeds saves the state behind the header, and the counter starts with what the
header gives. -/
theorem startDecode_true (input : CborInput) (kind : ContainerKind)
    (stack next : CborStack capacity) (starts : stack.startDecode input kind = (true, next)) :
    ∃ header count, HeaderGives input stack.live header count ∧
      next.live = { header with elemCount := kind.elemCount count } ∧
      ¬ (kind = .map ∧ DoublesPast count) ∧
      next.saved.items = header :: stack.saved.items := by
  cases decoded : headerDecode input kind.majorType stack.live with
  | mk result header =>
    cases result with
    | none =>
      rw [startDecode_none input kind stack header decoded] at starts
      cases starts
    | some count =>
      have gives := ((headerDecode_some_iff input kind.majorType stack.live header count).mp
        decoded).2
      by_cases full : stack.saved.height = capacity
      · rw [startDecode_full input kind stack header count decoded full] at starts
        cases starts
      have bound := stack.saved.height_le
      rw [startDecode_room input kind stack header count decoded (by omega)] at starts
      split at starts
      · cases starts
      · rename_i early
        cases starts
        exact ⟨header, count, gives, rfl, early, rfl⟩

/-- The end of a container in a model that saved something: it goes back, unless the counter is
above what is allowed. -/
theorem processBackup_close (stack : CborStack capacity) (latest : CborState)
    (older : List CborState) (items : stack.saved.items = latest :: older)
    (maxElemCount : BitVec 32) :
    stack.processBackup (flagRestore ||| flagConsume ||| flagTransferPayload) maxElemCount =
      if stack.live.elemCount > maxElemCount then (false, ⟨latest, stack.saved.pop⟩)
      else (true, ⟨{ latest with payload := stack.live.payload }, stack.saved.pop⟩) := by
  rw [processBackup, items]
  rfl

/-- A container whose number was left open ends at an unread byte 0xFF. -/
theorem listMapEndDecode_open (input : CborInput) (stack : CborStack capacity)
    (latest : CborState) (older : List CborState) (items : stack.saved.items = latest :: older)
    (isOpen : IndetLen stack.live.elemCount) :
    stack.listMapEndDecode input =
      if stack.live.payload < stack.live.payloadEnd ∧ input.byte stack.live.payload = 0xFF then
        (true, ⟨{ latest with payload := stack.live.payload + 1 }, stack.saved.pop⟩)
      else (false, stack) := by
  simp only [listMapEndDecode, if_pos isOpen, arrayEndExpect]
  by_cases inside : stack.live.payload ≥ stack.live.payloadEnd
  · rw [if_pos inside, if_neg fun ends => Nat.not_le.mpr ends.1 inside]
  by_cases unlike : input.byte stack.live.payload ≠ 0xFF
  · rw [if_neg inside, if_pos unlike, if_neg fun ends => unlike ends.2]
  have allowed : ¬ stack.live.elemCount > 0xFFFFFFFF :=
    BitVec.not_lt.mpr (BitVec.le_def.mpr (Nat.le_of_lt_succ stack.live.elemCount.isLt))
  rw [if_neg inside, if_neg unlike, if_pos ⟨Nat.not_le.mp inside, not_not.mp unlike⟩]
  exact (processBackup_close ⟨{ stack.live with payload := stack.live.payload + 1 }, stack.saved⟩
    latest older items 0xFFFFFFFF).trans (if_neg allowed)

/-- A container that gave its number ends when all its elements were taken. -/
theorem listMapEndDecode_definite (input : CborInput) (stack : CborStack capacity)
    (latest : CborState) (older : List CborState) (items : stack.saved.items = latest :: older)
    (isDefinite : ¬ IndetLen stack.live.elemCount) :
    stack.listMapEndDecode input =
      if stack.live.elemCount = 0 then
        (true, ⟨{ latest with payload := stack.live.payload }, stack.saved.pop⟩)
      else (false, ⟨latest, stack.saved.pop⟩) := by
  simp only [listMapEndDecode, if_neg isDefinite]
  rw [processBackup_close stack latest older items]
  by_cases used : stack.live.elemCount = 0
  · rw [if_pos used, used, if_neg (BitVec.lt_irrefl _)]
  · have above : stack.live.elemCount > 0 := (BitVec.pos_iff_ne_zero _).mpr used
    rw [if_neg used, if_pos above]

theorem listMapEndDecode_nothing (input : CborInput) (stack : CborStack capacity)
    (items : stack.saved.items = []) : (stack.listMapEndDecode input).1 = false := by
  rw [listMapEndDecode]
  split
  · cases arrayEndExpect input stack.live with
    | mk result live =>
      cases result with
      | false => rfl
      | true => simp only [processBackup, items]
  · simp only [processBackup, items]

/-- The end of a container goes back to the state that was saved last, at another position. -/
theorem listMapEndDecode_true (input : CborInput) (stack next : CborStack capacity)
    (ends : stack.listMapEndDecode input = (true, next)) :
    ∃ latest older, stack.saved.items = latest :: older ∧ next.saved.items = older ∧
      next.live.elemCount = latest.elemCount := by
  cases items : stack.saved.items with
  | nil =>
    have fails := stack.listMapEndDecode_nothing input items
    rw [ends] at fails
    cases fails
  | cons latest older =>
    have popped : stack.saved.pop.items = older := by
      rw [BoundedStack.items_pop, items, List.tail_cons]
    by_cases isOpen : IndetLen stack.live.elemCount
    · rw [listMapEndDecode_open input stack latest older items isOpen] at ends
      split at ends
      · cases ends
        exact ⟨latest, older, rfl, popped, rfl⟩
      · cases ends
    · rw [listMapEndDecode_definite input stack latest older items isOpen] at ends
      split at ends
      · cases ends
        exact ⟨latest, older, rfl, popped, rfl⟩
      · cases ends

/-- An alternative of a union starts from what was saved last. -/
theorem unionElem_eq (stack : CborStack capacity) (latest : CborState) (older : List CborState)
    (items : stack.saved.items = latest :: older) :
    stack.call .unionElemCode = (true, ⟨latest, stack.saved⟩) := by
  rw [call, processBackup, items]
  simp only [if_neg (BitVec.lt_irrefl stack.live.elemCount)]
  rfl

end CborStack

/-! ### A start that fails -/

/-- The header of a map whose number of elements fits before it is doubled and not behind. -/
def LateExit (input : CborInput) (kind : ContainerKind) (state : CborState) : Prop :=
  kind = .map ∧ majorType (input.byte state.payload) = kind.majorType ∧
    ¬ Indeterminate input state ∧
    ∃ count, (uint32Decode input state).1 = some count ∧ DoublesPast count

namespace CborStack

variable {capacity : Nat}

/-- The map is given up after the state was saved. -/
theorem startDecode_late (input : CborInput) (kind : ContainerKind) (stack : CborStack capacity)
    (late : LateExit input kind stack.live) (room : stack.saved.height < capacity) :
    ∃ next, stack.startDecode input kind = (false, next) ∧
      next.saved.height = stack.saved.height + 1 := by
  obtain ⟨isMap, matching, isDefinite, count, decoded, past⟩ := late
  have fits : ¬ IndetLen count := by
    rw [indetLen_iff]
    exact Nat.not_le.mpr past.2
  have reads := (headerDecode_some_iff input kind.majorType stack.live _ count).mpr
    ⟨matching, Or.inr ⟨isDefinite, Prod.ext decoded rfl, fits⟩⟩
  rw [startDecode_room input kind stack _ count reads room, if_pos ⟨isMap, past⟩]
  exact ⟨_, rfl, rfl⟩

/-- Any other start that fails with room for a backup leaves the model as it was. -/
theorem startDecode_false (input : CborInput) (kind : ContainerKind)
    (stack next : CborStack capacity) (early : ¬ LateExit input kind stack.live)
    (room : stack.saved.height < capacity) (fails : stack.startDecode input kind = (false, next)) :
    SamePlace stack.live next.live ∧ next.saved = stack.saved := by
  cases decoded : headerDecode input kind.majorType stack.live with
  | mk result header =>
    cases result with
    | none =>
      rw [startDecode_none input kind stack header decoded] at fails
      cases fails
      exact ⟨headerDecode_none input kind.majorType stack.live header decoded, rfl⟩
    | some count =>
      rw [startDecode_room input kind stack header count decoded room] at fails
      split at fails
      · rename_i past
        obtain ⟨matching, ⟨_, rfl, _⟩ | ⟨isDefinite, reads, _⟩⟩ :=
          (headerDecode_some_iff input kind.majorType stack.live header count).mp decoded
        · exact absurd past.2 (by decide)
        · exact absurd
            ⟨past.1, matching, isDefinite, count, congrArg Prod.fst reads, past.2⟩ early
      · cases fails

end CborStack

/-- A failure leaves no trace: the decoder stands where it stood, with the same elements to take and
the same live backups, and an alternative of the union around it starts from the same state. -/
structure RollsBack (before after : CborStates) : Prop where
  payload : (after.stateAt 0).map CborState.payload = (before.stateAt 0).map CborState.payload
  elemCount :
    (after.stateAt 0).map CborState.elemCount = (before.stateAt 0).map CborState.elemCount
  liveBackups : after.liveBackups = before.liveBackups
  union : ∀ restored, unionElemCode before = some (true, restored) →
    ∃ other, unionElemCode after = some (true, other) ∧ other.stateAt 0 = restored.stateAt 0

section Start

variable {stateArray : Nat → CborState} {nStates : Nat} {states after : CborStates}
  {stack next : CborStack (nStates - 2)}

theorem Represents.rollsBack (represents : Represents stateArray nStates states stack)
    (afterRepresents : Represents stateArray nStates after next) (nonempty : 1 ≤ nStates)
    (same : SamePlace stack.live next.live) (saved : next.saved = stack.saved) :
    RollsBack states after where
  payload := by
    rw [CborStates.stateAt_of_slot _ _ _ represents.live,
      CborStates.stateAt_of_slot _ _ _ afterRepresents.live]
    exact congrArg some same.payload
  elemCount := by
    rw [CborStates.stateAt_of_slot _ _ _ represents.live,
      CborStates.stateAt_of_slot _ _ _ afterRepresents.live]
    exact congrArg some same.elemCount
  liveBackups := by rw [represents.liveBackups_eq, afterRepresents.liveBackups_eq, saved]
  union restored restores := by
    obtain ⟨first, firstRuns, firstRepresents⟩ := represents.run_eq nonempty .unionElemCode
    obtain ⟨second, secondRuns, secondRepresents⟩ :=
      afterRepresents.run_eq nonempty .unionElemCode
    rw [CborCall.run] at firstRuns secondRuns
    rw [firstRuns] at restores
    cases items : stack.saved.items with
    | nil =>
      rw [CborStack.call, CborStack.processBackup, items] at restores
      cases restores
    | cons latest older =>
      rw [stack.unionElem_eq latest older items] at restores firstRepresents
      rw [next.unionElem_eq latest older (by rw [saved, items])] at secondRuns secondRepresents
      cases restores
      refine ⟨second, secondRuns, ?_⟩
      rw [CborStates.stateAt_of_slot _ _ _ firstRepresents.live,
        CborStates.stateAt_of_slot _ _ _ secondRepresents.live]

/-- With a free slot a start that fails leaves no trace, whatever the input is, unless the header is
that of a map whose number of elements fits before it is doubled and not behind. -/
theorem startDecode_rollsBack_iff (represents : Represents stateArray nStates states stack)
    (free : states.liveBackups < nStates - 2) (input : CborInput) (kind : ContainerKind)
    (state : CborState) (live : states.stateAt 0 = some state) :
    (∃ result after, startDecode input kind states = some (result, after) ∧
      (result = false → RollsBack states after)) ↔ ¬ LateExit input kind state := by
  rw [represents.liveBackups_eq] at free
  rw [CborStates.stateAt_of_slot _ _ _ represents.live] at live
  cases live
  obtain ⟨after, starts, afterRepresents⟩ := represents.startDecode_eq (by omega) input kind
  constructor
  · rintro ⟨result, other, otherStarts, rollsBack⟩ late
    rw [starts] at otherStarts
    cases otherStarts
    obtain ⟨next, fails, higher⟩ := stack.startDecode_late input kind late free
    rw [fails] at rollsBack afterRepresents
    have level := (rollsBack rfl).liveBackups
    rw [represents.liveBackups_eq, afterRepresents.liveBackups_eq, higher] at level
    omega
  · intro early
    refine ⟨_, after, starts, fun fails => ?_⟩
    obtain ⟨same, saved⟩ :=
      stack.startDecode_false input kind _ early free (Prod.ext fails rfl)
    exact represents.rollsBack afterRepresents (by omega) same saved

end Start

/-- The header of a map of 2 ^ 31 entries, which looks like an open one: the start fails and leaves
no trace. -/
theorem startDecode_rollsBack_iff_colliding :
    ∃ result after, startDecode (cborBytes [0xBA, 0x80, 0, 0, 0]) .map
        (newState (fun _ => ⟨0, 0, 0, 0, none⟩) 6 0 5 5) = some (result, after) ∧
      (result = false →
        RollsBack (newState (fun _ => ⟨0, 0, 0, 0, none⟩) 6 0 5 5) after) := by
  refine (startDecode_rollsBack_iff
    (newState_represents (fun _ => ⟨0, 0, 0, 0, none⟩) 6 0 5 5 (by decide)) (by decide)
    (cborBytes [0xBA, 0x80, 0, 0, 0]) .map _ rfl).mpr ?_
  rintro ⟨_, _, _, count, decoded, past⟩
  have number : 0x80000000 = count := Option.some.inj decoded
  rw [← number] at past
  exact absurd past (by decide)

/-- The header of a map of 2 ^ 30 entries inside a union: the start fails, and the state that it
saved stays live. The next alternative of the union then starts behind the header, with one element
less. -/
theorem startDecode_leavesBackup :
    ∃ started after restored,
      unionStartCode (newState (fun _ => ⟨0, 0, 0, 0, none⟩) 6 0 5 5) = some (true, started) ∧
      started.liveBackups < 6 - 2 ∧
      startDecode (cborBytes [0xBA, 0x40, 0, 0, 0]) .map started = some (false, after) ∧
      ¬ RollsBack started after ∧
      started.stateAt 0 = some ⟨0, 0, 5, 5, some 5⟩ ∧
      after.stateAt 0 = some ⟨0, 0, 5, 0x40000001, some 5⟩ ∧
      unionElemCode after = some (true, restored) ∧
      restored.stateAt 0 = some ⟨5, 0, 5, 4, some 5⟩ := by
  refine ⟨_, _, _, rfl, by decide, rfl, fun rollsBack => ?_, rfl, rfl, rfl, rfl⟩
  exact absurd rollsBack.liveBackups (by decide)

/-! ### One element of what it stands in -/

namespace CborStack

variable {capacity : Nat}

theorem succeed_eq_some_iff (input : CborInput) (stack next : CborStack capacity)
    (event : CborEvent) :
    stack.succeed input event = some next ↔ stack.event input event = (true, next) := by
  rw [succeed]
  constructor
  · intro succeeds
    split at succeeds
    · rename_i result
      cases succeeds
      exact Prod.ext result rfl
    · cases succeeds
  · intro succeeds
    rw [succeeds]
    rfl

/-- A start saves one state, an end drops the latest, and anything else leaves them. -/
theorem actsAsStack (input : CborInput) :
    Nested.ActsAsStack CborEvent.IsStart CborEvent.IsStop (succeed input)
      fun stack : CborStack capacity => stack.saved.items where
  pushes stack event next isStart succeeds := by
    rw [succeed_eq_some_iff] at succeeds
    cases event with
    | start kind =>
      obtain ⟨header, _, _, _, _, saved⟩ := startDecode_true input kind stack next succeeds
      exact ⟨header, saved⟩
    | stop => exact isStart.elim
    | element => exact isStart.elim
    | other => exact isStart.elim
  drops stack event next isStop succeeds := by
    rw [succeed_eq_some_iff] at succeeds
    cases event with
    | stop =>
      obtain ⟨latest, older, items, popped, _⟩ :=
        listMapEndDecode_true input stack next succeeds
      rw [items, popped, List.tail_cons]
    | start => exact isStop.elim
    | element => exact isStop.elim
    | other => exact isStop.elim
  leaves stack event next neither succeeds := by
    rw [succeed_eq_some_iff] at succeeds
    cases event with
    | start => exact absurd trivial neither.1
    | stop => exact absurd trivial neither.2
    | element resultLen skip =>
      exact (congrArg (fun outcome => outcome.2.saved.items) succeeds).symm
    | other payload payloadBak payloadEnd elemCount =>
      exact (congrArg (fun outcome => outcome.2.saved.items) succeeds).symm

/-- After a start, a well-nested content and the matching end the counter is the one that the header
left. -/
theorem elemCount_of_nested (input : CborInput) (kind : ContainerKind)
    (stack started ended closed : CborStack capacity) (content : List CborEvent)
    (starts : stack.startDecode input kind = (true, started))
    (nested : Nested CborEvent.IsStart CborEvent.IsStop content)
    (run : content.foldlM (succeed input) started = some ended)
    (ends : ended.listMapEndDecode input = (true, closed)) :
    ∃ header count, HeaderGives input stack.live header count ∧
      closed.live.elemCount = header.elemCount := by
  obtain ⟨header, count, gives, _, _, saved⟩ := startDecode_true input kind stack started starts
  have same := nested.items_eq (actsAsStack input) started ended run
  obtain ⟨latest, older, items, _, elemCount⟩ := listMapEndDecode_true input ended closed ends
  simp only [saved, items, List.cons.injEq] at same
  exact ⟨header, count, gives, elemCount.trans (congrArg CborState.elemCount same.1)⟩

end CborStack

/-- A header takes one element exactly when it gives the number. -/
theorem headerGives_elemCount (input : CborInput) (state header : CborState) (count : BitVec 32)
    (gives : HeaderGives input state header count) :
    header.elemCount.toNat + 1 = state.elemCount.toNat ↔ ¬ Indeterminate input state := by
  rcases gives with ⟨isOpen, _, rfl⟩ | ⟨isDefinite, decoded, _⟩
  · exact ⟨fun less => absurd less (Nat.succ_ne_self _), fun isDefinite => absurd isOpen isDefinite⟩
  · have takes := uint32Decode_taken input state header count decoded
    refine ⟨fun _ => isDefinite, fun _ => ?_⟩
    rw [takes.elemCount, toNat_pred state.elemCount takes.more]

/-- With no element left, a header is read exactly when it leaves the number open. -/
theorem headerDecode_used (input : CborInput) (expMajorType : UInt8) (state : CborState)
    (used : ¬ HasElement state.elemCount) :
    (headerDecode input expMajorType state).1 =
      if majorType (input.byte state.payload) = expMajorType ∧ Indeterminate input state then
        some indetLenElemCount
      else none := by
  cases decoded : headerDecode input expMajorType state with
  | mk result header =>
    cases result with
    | none =>
      rw [if_neg]
      intro reads
      have gives := (headerDecode_some_iff input expMajorType state _ _).mpr
        ⟨reads.1, Or.inl ⟨reads.2, rfl, rfl⟩⟩
      rw [decoded] at gives
      cases gives
    | some count =>
      obtain ⟨matching, ⟨isOpen, rfl, _⟩ | ⟨_, taken, _⟩⟩ :=
        (headerDecode_some_iff input expMajorType state header count).mp decoded
      · rw [if_pos ⟨matching, isOpen⟩]
      · exact absurd (uint32Decode_taken input state header count taken).more used

/-- With no element left, a start is refused unless it is an open header of the right kind and there
is room for a backup. -/
theorem CborStack.startDecode_used (input : CborInput) (kind : ContainerKind) {capacity : Nat}
    (stack : CborStack capacity) (used : ¬ HasElement stack.live.elemCount) :
    (stack.startDecode input kind).1 = false ↔ ¬ Indeterminate input stack.live ∨
      majorType (input.byte stack.live.payload) ≠ kind.majorType ∨
      stack.saved.height = capacity := by
  have first := headerDecode_used input kind.majorType stack.live used
  by_cases reads : majorType (input.byte stack.live.payload) = kind.majorType ∧
      Indeterminate input stack.live
  · rw [if_pos reads] at first
    have decoded := Prod.ext (y := (_, _)) first rfl
    simp only [reads.1, reads.2, not_true, ne_eq, false_or]
    by_cases full : stack.saved.height = capacity
    · rw [startDecode_full input kind stack _ _ decoded full]
      exact ⟨fun _ => full, fun _ => rfl⟩
    · have bound := stack.saved.height_le
      rw [startDecode_room input kind stack _ _ decoded (by omega), if_neg fun late =>
        absurd late.2 (by decide)]
      exact ⟨fun refused => Bool.noConfusion refused, fun isFull => absurd isFull full⟩
  · rw [if_neg reads] at first
    rw [startDecode_none input kind stack _ (Prod.ext first rfl)]
    refine ⟨fun _ => ?_, fun _ => rfl⟩
    rcases not_and_or.mp reads with other | isDefinite
    · exact Or.inr (Or.inl other)
    · exact Or.inl isDefinite

section Nesting

variable {stateArray : Nat → CborState} {nStates : Nat} {states : CborStates}
  {stack : CborStack (nStates - 2)}

/-- A list or map with a well-nested content takes one element of what it stands in exactly when its
header gives the number of elements. With no element left, a start is refused exactly when the
header gives the number, is not of the right kind or finds no room for a backup. -/
theorem nestedContainer_countsOne_iff (represents : Represents stateArray nStates states stack)
    (nonempty : 1 ≤ nStates) (input : CborInput) (kind : ContainerKind) (state : CborState)
    (live : states.stateAt 0 = some state) :
    (∀ started content ended after, startDecode input kind states = some (true, started) →
      Nested CborEvent.IsStart CborEvent.IsStop content →
      runEvents input started content = some ended →
      listMapEndDecode input ended = some (true, after) →
      ∃ current, after.stateAt 0 = some current ∧
        (current.elemCount.toNat + 1 = state.elemCount.toNat ↔ ¬ Indeterminate input state)) ∧
    (¬ HasElement state.elemCount →
      ((∃ after, startDecode input kind states = some (false, after)) ↔
        ¬ Indeterminate input state ∨
        majorType (input.byte state.payload) ≠ kind.majorType ∨
        states.liveBackups = nStates - 2)) := by
  rw [CborStates.stateAt_of_slot _ _ _ represents.live] at live
  cases live
  constructor
  · intro started content ended after starts nested run ends
    obtain ⟨succeeds, startedRepresents⟩ :=
      Represents.outcome (represents.startDecode_eq nonempty input kind) true started starts
    obtain ⟨endedStack, endedRun, endedRepresents⟩ :=
      startedRepresents.runEvents_eq nonempty input content ended run
    obtain ⟨closes, afterRepresents⟩ :=
      Represents.outcome (endedRepresents.listMapEndDecode_eq nonempty input) true after ends
    obtain ⟨header, count, gives, same⟩ := CborStack.elemCount_of_nested input kind stack _
      endedStack _ content succeeds nested endedRun closes
    refine ⟨_, CborStates.stateAt_of_slot _ _ _ afterRepresents.live, ?_⟩
    rw [same]
    exact headerGives_elemCount input stack.live header count gives
  · intro used
    obtain ⟨first, starts, _⟩ := represents.startDecode_eq nonempty input kind
    rw [starts, represents.liveBackups_eq, ← stack.startDecode_used input kind used]
    constructor
    · rintro ⟨after, refuses⟩
      simp only [Option.some.injEq, Prod.mk.injEq] at refuses
      exact refuses.1
    · intro refused
      exact ⟨first, by rw [refused]⟩

end Nesting

/-- The list [[1], 2] takes one of seven elements, and is refused when there is none. -/
theorem nestedContainer_countsOne_iff_list :
    (∃ started ended after current,
      startDecode (cborBytes [0x82, 0x81, 1, 2]) .list
        (newState (fun _ => ⟨0, 0, 0, 0, none⟩) 5 0 4 7) = some (true, started) ∧
      runEvents (cborBytes [0x82, 0x81, 1, 2]) started
        [.start .list, .element 4 0, .stop, .element 4 0] = some ended ∧
      listMapEndDecode (cborBytes [0x82, 0x81, 1, 2]) ended = some (true, after) ∧
      after.stateAt 0 = some current ∧ current.elemCount.toNat + 1 = 7) ∧
    ∃ after, startDecode (cborBytes [0x82, 0x81, 1, 2]) .list
      (newState (fun _ => ⟨0, 0, 0, 0, none⟩) 5 0 4 0) = some (false, after) := by
  have element : Nested CborEvent.IsStart CborEvent.IsStop [.element 4 0] :=
    .inner _ _ ⟨id, id⟩ .nil
  have nested : Nested CborEvent.IsStart CborEvent.IsStop
      [.start .list, .element 4 0, .stop, .element 4 0] :=
    .pair _ _ [.element 4 0] _ trivial trivial element element
  constructor
  · obtain ⟨current, currentEq, counts⟩ := (nestedContainer_countsOne_iff
      (newState_represents (fun _ => ⟨0, 0, 0, 0, none⟩) 5 0 4 7 (by decide)) (by decide)
      (cborBytes [0x82, 0x81, 1, 2]) .list _ rfl).1 _ _ _ _ rfl nested rfl rfl
    exact ⟨_, _, _, current, rfl, rfl, rfl, currentEq, counts.mpr (by decide)⟩
  · exact ((nestedContainer_countsOne_iff
      (newState_represents (fun _ => ⟨0, 0, 0, 0, none⟩) 5 0 4 0 (by decide)) (by decide)
      (cborBytes [0x82, 0x81, 1, 2]) .list _ rfl).2 (by decide)).mpr (Or.inl (by decide))

/-- An empty list whose number was left open takes no element: one is left before it and behind it,
and it starts where none is left. -/
theorem nestedContainer_takesNone :
    (∃ started after,
      startDecode (cborBytes [0x9F, 0xFF]) .list
        (newState (fun _ => ⟨0, 0, 0, 0, none⟩) 4 0 2 1) = some (true, started) ∧
      listMapEndDecode (cborBytes [0x9F, 0xFF]) started = some (true, after) ∧
      after.stateAt 0 = some ⟨2, 0, 2, 1, some 3⟩) ∧
    ∃ started, startDecode (cborBytes [0x9F, 0xFF]) .list
      (newState (fun _ => ⟨0, 0, 0, 0, none⟩) 4 0 2 0) = some (true, started) :=
  ⟨⟨_, _, rfl, rfl, rfl⟩, _, rfl⟩

/-! ### Closing where the header says -/

namespace CborStack

variable {capacity : Nat}

/-- What has become of a container after some of its elements were taken. -/
structure Counted (first : CborStack capacity) (taken : Nat) (stack : CborStack capacity) :
    Prop where
  saved : stack.saved = first.saved
  payloadEnd : stack.live.payloadEnd = first.live.payloadEnd
  elemCount : stack.live.elemCount.toNat + taken = first.live.elemCount.toNat
  indetLen : IndetLen stack.live.elemCount ↔ IndetLen first.live.elemCount

/-- An element is taken from a counter that is not used up, and makes it one less. -/
theorem Counted.element {first stack : CborStack capacity} {taken : Nat}
    (counted : Counted first taken stack) (input : CborInput) (resultLen skip : Nat)
    (next : CborStack capacity)
    (succeeds : stack.succeed input (.element resultLen skip) = some next) :
    Counted first (taken + 1) next := by
  rw [succeed_eq_some_iff, event, onLive, takeElement] at succeeds
  cases extracted : valueExtract input resultLen stack.live with
  | mk result after =>
    rw [extracted] at succeeds
    cases result with
    | none => cases succeeds
    | some value =>
      cases succeeds
      have takes := valueExtract_taken input resultLen value stack.live after extracted
      have less := toNat_pred stack.live.elemCount takes.more
      refine ⟨counted.saved, takes.payloadEnd.trans counted.payloadEnd, ?_, ?_⟩
      · rw [← counted.elemCount, ← less, takes.elemCount]
        omega
      · rw [takes.elemCount, indetLen_pred stack.live.elemCount takes.more]
        exact counted.indetLen

theorem counted_of_run (input : CborInput) (first ended : CborStack capacity)
    (elements : List (Nat × Nat))
    (run : (elements.map fun element => CborEvent.element element.1 element.2).foldlM
      (succeed input) first = some ended) : Counted first elements.length ended := by
  rw [List.foldlM_map] at run
  have counted := PartialRun.invariant
    (fun stack element => succeed input stack (.element element.1 element.2)) (Counted first)
    (fun _ _ element next before succeeds =>
      before.element input element.1 element.2 next succeeds)
    elements 0 first ended ⟨rfl, rfl, rfl, Iff.rfl⟩ run
  rwa [Nat.zero_add] at counted

/-- A container whose number was left open closes at an unread byte 0xFF. -/
theorem Counted.closes_open {first ended : CborStack capacity} {taken : Nat}
    (counted : Counted first taken ended) (input : CborInput) (header : CborState)
    (older : List CborState) (items : first.saved.items = header :: older)
    (isOpen : IndetLen first.live.elemCount) :
    ((ended.listMapEndDecode input).1 = true ↔
        ended.live.payload < ended.live.payloadEnd ∧ input.byte ended.live.payload = 0xFF) ∧
      ((ended.listMapEndDecode input).1 = true →
        (ended.listMapEndDecode input).2.live.payload = ended.live.payload + 1) := by
  rw [listMapEndDecode_open input ended header older (by rw [counted.saved, items])
    (counted.indetLen.mpr isOpen)]
  by_cases ends : ended.live.payload < ended.live.payloadEnd ∧
      input.byte ended.live.payload = 0xFF
  · rw [if_pos ends]
    exact ⟨⟨fun _ => ends, fun _ => rfl⟩, fun _ => rfl⟩
  · rw [if_neg ends]
    exact ⟨⟨fun result => Bool.noConfusion result, fun closes => absurd closes ends⟩,
      fun result => Bool.noConfusion result⟩

/-- A container that gave its number closes when so many elements were taken, and then gives out no
more. -/
theorem Counted.closes_definite {first ended : CborStack capacity} {taken : Nat}
    (counted : Counted first taken ended) (input : CborInput) (header : CborState)
    (older : List CborState) (items : first.saved.items = header :: older)
    (isDefinite : ¬ IndetLen first.live.elemCount) :
    taken ≤ first.live.elemCount.toNat ∧
      (taken = first.live.elemCount.toNat →
        ∀ resultLen, (valueExtract input resultLen ended.live).1 = none) ∧
      ((ended.listMapEndDecode input).1 = true ↔ taken = first.live.elemCount.toNat) ∧
      ((ended.listMapEndDecode input).1 = true →
        (ended.listMapEndDecode input).2.live.payload = ended.live.payload) := by
  have sum := counted.elemCount
  have used : ended.live.elemCount = 0 ↔ taken = first.live.elemCount.toNat := by
    constructor
    · intro zero
      rw [zero] at sum
      exact (Nat.zero_add taken).symm.trans sum
    · intro all
      refine BitVec.eq_of_toNat_eq ?_
      show ended.live.elemCount.toNat = 0
      omega
  refine ⟨by omega, fun all resultLen => ?_, ?_⟩
  · have noMore : ¬ HasElement ended.live.elemCount := fun more => more.1 (used.mpr all)
    rw [valueExtract_of_used input resultLen ended.live noMore]
  · rw [listMapEndDecode_definite input ended header older (by rw [counted.saved, items])
      (fun isOpen => isDefinite (counted.indetLen.mp isOpen)), ← used]
    by_cases zero : ended.live.elemCount = 0
    · rw [if_pos zero]
      exact ⟨⟨fun _ => zero, fun _ => rfl⟩, fun _ => rfl⟩
    · rw [if_neg zero]
      exact ⟨⟨fun result => Bool.noConfusion result, fun closes => absurd closes zero⟩,
        fun result => Bool.noConfusion result⟩

end CborStack

section Close

variable {stateArray : Nat → CborState} {nStates : Nat} {states : CborStates}
  {stack : CborStack (nStates - 2)}

/-- A container closes where its header says, after any run of elements. The highest bit of the
counter is what the header chose. A container whose number was left open closes exactly at an unread
byte 0xFF, and the position is behind it. One that gave its number closes exactly when all its
elements were taken, and never gives out more. -/
theorem listMapEndDecode_closes (represents : Represents stateArray nStates states stack)
    (nonempty : 1 ≤ nStates) (input : CborInput) (kind : ContainerKind) (state : CborState)
    (live : states.stateAt 0 = some state) (started : CborStates)
    (starts : startDecode input kind states = some (true, started))
    (elements : List (Nat × Nat)) (ended : CborStates)
    (run : runEvents input started
      (elements.map fun element => .element element.1 element.2) = some ended) :
    ∃ current result after closed, ended.stateAt 0 = some current ∧
      listMapEndDecode input ended = some (result, after) ∧ after.stateAt 0 = some closed ∧
      current.payloadEnd = state.payloadEnd ∧
      (IndetLen current.elemCount ↔ Indeterminate input state) ∧
      (Indeterminate input state →
        (result = true ↔
          current.payload < current.payloadEnd ∧ input.byte current.payload = 0xFF) ∧
        (result = true → closed.payload = current.payload + 1)) ∧
      (¬ Indeterminate input state →
        ∃ count, (uint32Decode input state).1 = some count ∧
          elements.length ≤ kind.perEntry * count.toNat ∧
          (elements.length = kind.perEntry * count.toNat →
            ∀ resultLen, (valueExtract input resultLen current).1 = none) ∧
          (result = true ↔ elements.length = kind.perEntry * count.toNat) ∧
          (result = true → closed.payload = current.payload)) := by
  rw [CborStates.stateAt_of_slot _ _ _ represents.live] at live
  cases live
  obtain ⟨succeeds, startedRepresents⟩ :=
    Represents.outcome (represents.startDecode_eq nonempty input kind) true started starts
  obtain ⟨endedStack, endedRun, endedRepresents⟩ :=
    startedRepresents.runEvents_eq nonempty input _ ended run
  obtain ⟨after, ends, afterRepresents⟩ := endedRepresents.listMapEndDecode_eq nonempty input
  obtain ⟨header, count, gives, firstLive, early, saved⟩ :=
    CborStack.startDecode_true input kind stack _ succeeds
  have counted := CborStack.counted_of_run input _ endedStack elements endedRun
  refine ⟨endedStack.live, _, after, _, CborStates.stateAt_of_slot _ _ _ endedRepresents.live, ends,
    CborStates.stateAt_of_slot _ _ _ afterRepresents.live, ?_, ?_, ?_, ?_⟩
  · rw [counted.payloadEnd, firstLive]
    exact headerGives_payloadEnd input stack.live header count gives
  · rw [counted.indetLen, firstLive]
    rcases gives with ⟨isOpen, rfl, _⟩ | ⟨isDefinite, _, fits⟩
    · rw [kind.elemCount_open]
      exact ⟨fun _ => isOpen, fun _ => indetLen_indetLenElemCount⟩
    · exact ⟨fun high => absurd high (kind.elemCount_definite count fits early).2,
        fun isOpen => absurd isOpen isDefinite⟩
  · intro isOpen
    obtain ⟨_, rfl, _⟩ | ⟨isDefinite, _, _⟩ := gives
    · refine counted.closes_open input header stack.saved.items saved ?_
      rw [firstLive, kind.elemCount_open]
      exact indetLen_indetLenElemCount
    · exact absurd isOpen isDefinite
  · intro isDefinite
    obtain ⟨isOpen, _, _⟩ | ⟨_, decoded, fits⟩ := gives
    · exact absurd isOpen isDefinite
    · obtain ⟨number, low⟩ := kind.elemCount_definite count fits early
      have closes := counted.closes_definite input header stack.saved.items saved
        (by rw [firstLive]; exact low)
      rw [firstLive] at closes
      simp only [number] at closes
      exact ⟨count, congrArg Prod.fst decoded, closes⟩

end Close

/-- The map {1: 2} closes behind its two elements. -/
theorem listMapEndDecode_closes_map :
    ∃ started ended after closed,
      startDecode (cborBytes [0xA1, 1, 2]) .map
        (newState (fun _ => ⟨0, 0, 0, 0, none⟩) 4 0 3 1) = some (true, started) ∧
      runEvents (cborBytes [0xA1, 1, 2]) started [.element 4 0, .element 4 0] = some ended ∧
      listMapEndDecode (cborBytes [0xA1, 1, 2]) ended = some (true, after) ∧
      after.stateAt 0 = some closed ∧ closed.payload = 3 := by
  obtain ⟨current, result, after, closed, currentEq, ends, closedEq, _, _, _, definite⟩ :=
    listMapEndDecode_closes
      (newState_represents (fun _ => ⟨0, 0, 0, 0, none⟩) 4 0 3 1 (by decide)) (by decide)
      (cborBytes [0xA1, 1, 2]) .map _ rfl _ rfl [(4, 0), (4, 0)] _ rfl
  obtain ⟨count, decoded, _, _, closes, position⟩ := definite (by decide)
  have number : 1 = count := Option.some.inj decoded
  have succeeds : result = true := closes.mpr (by rw [← number]; rfl)
  rw [succeeds] at ends
  have place : 3 = current.payload := congrArg CborState.payload (Option.some.inj currentEq)
  exact ⟨_, _, after, closed, rfl, rfl, ends, closedEq, (position succeeds).trans place.symm⟩

end McubootPort

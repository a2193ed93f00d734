/-
This file models the backup store of the patched `cbor_common.c` and proves
that it is a bounded stack.

The decoder works on an array of states. Slot 0 is the live state, the last slot
is reused for the bookkeeping, and the slots between are the backups. All three
are reached through pointers that are stored in the same array, so every
function below reads them afresh, and a slot that is read as what it does not
hold is a failure of the model, not a value. The abstract model over it is a
live state and a bounded stack of saved states. The array represents them after
any sequence of calls, whatever the decoder does to the live state between two
calls.
-/

import McubootPort.Library.BoundedStack
import Mathlib.Logic.Function.Basic

namespace McubootPort

/-! ### The array of states -/

/-- `cbor_state_t`. Pointers into the payload are positions in it, and `payloadBak` is the start of
the last header that was read. `backups` points to a slot of the array. -/
structure CborState where
  payload : Nat
  payloadBak : Nat
  payloadEnd : Nat
  elemCount : BitVec 32
  backups : Option Nat
deriving DecidableEq

/-- `cbor_state_backups_t`. `backupList` is the slot the list starts with. -/
structure CborStateBackups where
  backupList : Nat
  currentBackup : Nat
  numBackups : Nat
deriving DecidableEq

/-- What a slot of the array holds: a state, or the bookkeeping that is stored over one. -/
inductive CborSlot
  | state (state : CborState)
  | backups (backups : CborStateBackups)
deriving DecidableEq

/-- The array, with a log of the slots that were written or read as a backup. -/
structure CborStates where
  slot : Nat → CborSlot
  used : List Nat

namespace CborStates

/-- The state in a slot. -/
def stateAt (states : CborStates) (index : Nat) : Option CborState :=
  match states.slot index with
  | .state state => some state
  | .backups _ => none

/-- The bookkeeping in a slot. -/
def backupsAt (states : CborStates) (index : Nat) : Option CborStateBackups :=
  match states.slot index with
  | .state _ => none
  | .backups backups => some backups

def set (states : CborStates) (index : Nat) (value : CborSlot) : CborStates :=
  { states with slot := Function.update states.slot index value }

/-- The copy of the state in one slot to another. -/
def copy (states : CborStates) (target source : Nat) : Option CborStates := do
  let state ← states.stateAt source
  return states.set target (.state state)

def use (states : CborStates) (index : Nat) : CborStates :=
  { states with used := index :: states.used }

/-- The bookkeeping that the live state points to, and where it is. -/
def bookkeeping (states : CborStates) : Option (Option (Nat × CborStateBackups)) := do
  let state ← states.stateAt 0
  match state.backups with
  | none => return none
  | some pointer => return some (pointer, ← states.backupsAt pointer)

/-- The number of live backups. -/
def liveBackups (states : CborStates) : Nat :=
  match states.bookkeeping with
  | some (some (_, backups)) => backups.currentBackup
  | _ => 0

end CborStates

def flagRestore : BitVec 32 := 1

def flagConsume : BitVec 32 := 2

def flagTransferPayload : BitVec 32 := 4

/-- `new_state`, on an array with any contents. -/
def newState (stateArray : Nat → CborState) (nStates payload payloadLen : Nat)
    (elemCount : BitVec 32) : CborStates :=
  let live : CborState :=
    { stateArray 0 with payload, payloadEnd := payload + payloadLen, elemCount, backups := none }
  let states : CborStates :=
    CborStates.set ⟨fun index => .state (stateArray index), []⟩ 0 (.state live)
  if nStates > 2 then
    let states := states.set 0 (.state { live with backups := some (nStates - 1) })
    states.set (nStates - 1)
      (.backups { backupList := 1, currentBackup := 0, numBackups := nStates - 2 })
  else states

/-- `new_backup`. -/
def newBackup (states : CborStates) (newElemCount : BitVec 32) : Option (Bool × CborStates) := do
  match ← states.bookkeeping with
  | none => return (false, states)
  | some (pointer, backups) =>
    if backups.currentBackup ≥ backups.numBackups then return (false, states)
    let backups := { backups with currentBackup := backups.currentBackup + 1 }
    let states := states.set pointer (.backups backups)
    let index := backups.currentBackup - 1
    let states ← (states.use (backups.backupList + index)).copy (backups.backupList + index) 0
    let state ← states.stateAt 0
    return (true, states.set 0 (.state { state with elemCount := newElemCount }))

/-- The copy that `process_backup` makes when it has to restore. -/
def restoreBackup (states : CborStates) (flags : BitVec 32) (backups : CborStateBackups) :
    Option CborStates :=
  if flags &&& flagRestore ≠ 0 then
    let index := backups.currentBackup - 1
    (states.use (backups.backupList + index)).copy 0 (backups.backupList + index)
  else return states

/-- The decrement that `process_backup` makes when it has to consume. -/
def consumeBackup (states : CborStates) (flags : BitVec 32) : Option CborStates :=
  if flags &&& flagConsume ≠ 0 then do
    match ← states.bookkeeping with
    | none => failure
    | some (pointer, backups) =>
      return states.set pointer
        (.backups { backups with currentBackup := backups.currentBackup - 1 })
  else return states

/-- `process_backup`. -/
def processBackup (states : CborStates) (flags maxElemCount : BitVec 32) :
    Option (Bool × CborStates) := do
  let before ← states.stateAt 0
  match ← states.bookkeeping with
  | none => return (false, states)
  | some (_, backups) =>
    if backups.currentBackup = 0 then return (false, states)
    let states ← restoreBackup states flags backups
    let states ← consumeBackup states flags
    if before.elemCount > maxElemCount then return (false, states)
    if flags &&& flagTransferPayload ≠ 0 then
      let state ← states.stateAt 0
      return (true, states.set 0 (.state { state with payload := before.payload }))
    return (true, states)

/-- `union_start_code`. -/
def unionStartCode (states : CborStates) : Option (Bool × CborStates) := do
  let state ← states.stateAt 0
  newBackup states state.elemCount

/-- `union_elem_code`. -/
def unionElemCode (states : CborStates) : Option (Bool × CborStates) := do
  let state ← states.stateAt 0
  processBackup states flagRestore state.elemCount

/-- `union_end_code`. -/
def unionEndCode (states : CborStates) : Option (Bool × CborStates) := do
  let state ← states.stateAt 0
  processBackup states flagConsume state.elemCount

/-- A call of the decoder: one of the five, or any other, which may move the live state and leaves
its pointer to the bookkeeping alone. -/
inductive CborCall
  | newBackup (newElemCount : BitVec 32)
  | processBackup (flags maxElemCount : BitVec 32)
  | unionStartCode
  | unionElemCode
  | unionEndCode
  | decode (payload payloadBak payloadEnd : Nat) (elemCount : BitVec 32)
deriving DecidableEq

def CborCall.run (call : CborCall) (states : CborStates) : Option (Bool × CborStates) :=
  match call with
  | .newBackup newElemCount => McubootPort.newBackup states newElemCount
  | .processBackup flags maxElemCount => McubootPort.processBackup states flags maxElemCount
  | .unionStartCode => McubootPort.unionStartCode states
  | .unionElemCode => McubootPort.unionElemCode states
  | .unionEndCode => McubootPort.unionEndCode states
  | .decode payload payloadBak payloadEnd elemCount => do
    let state ← states.stateAt 0
    return (true, states.set 0
      (.state { state with payload, payloadBak, payloadEnd, elemCount }))

/-- A sequence of calls: their results and the array at the end. -/
def runCalls (states : CborStates) : List CborCall → Option (List Bool × CborStates)
  | [] => some ([], states)
  | call :: rest => do
    let (result, states) ← call.run states
    let (results, states) ← runCalls states rest
    return (result :: results, states)

/-! ### The abstract model -/

/-- A live state and the stack of saved ones. -/
structure CborStack (capacity : Nat) where
  live : CborState
  saved : BoundedStack CborState capacity

namespace CborStack

variable {capacity : Nat}

/-- The model of a fresh array: the live state, and nothing saved. -/
def start (live : CborState) : CborStack capacity := ⟨live, BoundedStack.empty⟩

/-- Save the live state, if there is room. -/
def newBackup (stack : CborStack capacity) (newElemCount : BitVec 32) :
    Bool × CborStack capacity :=
  match stack.saved.push stack.live with
  | none => (false, stack)
  | some saved => (true, ⟨{ stack.live with elemCount := newElemCount }, saved⟩)

theorem newBackup_room (stack : CborStack capacity) (newElemCount : BitVec 32)
    (room : stack.saved.height < capacity) :
    stack.newBackup newElemCount =
      (true, ⟨{ stack.live with elemCount := newElemCount },
        ⟨stack.live :: stack.saved.items, room⟩⟩) := by
  rw [newBackup, BoundedStack.push_of_room _ _ room]

theorem newBackup_full (stack : CborStack capacity) (newElemCount : BitVec 32)
    (full : stack.saved.height = capacity) :
    stack.newBackup newElemCount = (false, stack) := by
  rw [newBackup, BoundedStack.push_of_full _ _ full]

/-- Go back to the state saved last, give it up, or both. -/
def processBackup (stack : CborStack capacity) (flags maxElemCount : BitVec 32) :
    Bool × CborStack capacity :=
  match stack.saved.items with
  | [] => (false, stack)
  | latest :: _ =>
    let live := if flags &&& flagRestore ≠ 0 then latest else stack.live
    let saved := if flags &&& flagConsume ≠ 0 then stack.saved.pop else stack.saved
    if stack.live.elemCount > maxElemCount then (false, ⟨live, saved⟩)
    else if flags &&& flagTransferPayload ≠ 0 then
      (true, ⟨{ live with payload := stack.live.payload }, saved⟩)
    else (true, ⟨live, saved⟩)

def call (stack : CborStack capacity) : CborCall → Bool × CborStack capacity
  | .newBackup newElemCount => stack.newBackup newElemCount
  | .processBackup flags maxElemCount => stack.processBackup flags maxElemCount
  | .unionStartCode => stack.newBackup stack.live.elemCount
  | .unionElemCode => stack.processBackup flagRestore stack.live.elemCount
  | .unionEndCode => stack.processBackup flagConsume stack.live.elemCount
  | .decode payload payloadBak payloadEnd elemCount =>
    (true, ⟨{ stack.live with payload, payloadBak, payloadEnd, elemCount }, stack.saved⟩)

/-- The model after some calls. -/
def after (stack : CborStack capacity) (calls : List CborCall) : CborStack capacity :=
  calls.foldl (fun stack call => (stack.call call).2) stack

/-- The results of some calls. -/
def results (stack : CborStack capacity) : List CborCall → List Bool
  | [] => []
  | call :: rest => (stack.call call).1 :: (stack.call call).2.results rest

end CborStack

/-! ### The array represents the model -/

namespace CborStates

@[simp] theorem slot_set_self (states : CborStates) (index : Nat) (value : CborSlot) :
    (states.set index value).slot index = value :=
  Function.update_self ..

theorem slot_set_of_ne (states : CborStates) (index other : Nat) (value : CborSlot)
    (different : other ≠ index) : (states.set index value).slot other = states.slot other :=
  Function.update_of_ne different ..

theorem use_set (states : CborStates) (index other : Nat) (value : CborSlot) :
    (states.set index value).use other = (states.use other).set index value := rfl

theorem stateAt_of_slot (states : CborStates) (index : Nat) (state : CborState)
    (holds : states.slot index = .state state) : states.stateAt index = some state := by
  rw [stateAt, holds]

theorem backupsAt_of_slot (states : CborStates) (index : Nat) (backups : CborStateBackups)
    (holds : states.slot index = .backups backups) :
    states.backupsAt index = some backups := by
  rw [backupsAt, holds]

theorem copy_of_slot (states : CborStates) (target source : Nat) (state : CborState)
    (holds : states.slot source = .state state) :
    states.copy target source = some (states.set target (.state state)) := by
  rw [copy, stateAt_of_slot states source state holds]
  rfl

end CborStates

/-- The saved states stand in the slots from 1 on, the latest last. -/
def Stored (states : CborStates) : List CborState → Prop
  | [] => True
  | latest :: older => states.slot (1 + older.length) = .state latest ∧ Stored states older

/-- The pointer to the bookkeeping in an array of `nStates`. -/
def backupsPointer (nStates : Nat) : Option Nat :=
  if 2 < nStates then some (nStates - 1) else none

/-- The bookkeeping of an array of `nStates` with some live backups. -/
def bookkeepingWith (nStates live : Nat) : CborStateBackups where
  backupList := 1
  currentBackup := live
  numBackups := nStates - 2

/-- The array holds the live state in slot 0, the saved ones from slot 1 on and the bookkeeping in
the last slot. No other slot was used as a backup, and what lies behind the array is as it was. -/
structure Represents (stateArray : Nat → CborState) (nStates : Nat) (states : CborStates)
    (stack : CborStack (nStates - 2)) : Prop where
  live : states.slot 0 = .state stack.live
  bookkeeping : 2 < nStates →
    states.slot (nStates - 1) = .backups (bookkeepingWith nStates stack.saved.height)
  saved : Stored states stack.saved.items
  livePointer : stack.live.backups = backupsPointer nStates
  savedPointers : ∀ state ∈ stack.saved.items, state.backups = backupsPointer nStates
  used : ∀ index ∈ states.used, 1 ≤ index ∧ index ≤ nStates - 2
  behind : ∀ index, nStates ≤ index → states.slot index = .state (stateArray index)

theorem stored_set (states : CborStates) (items : List CborState) (index : Nat)
    (value : CborSlot) (apart : index = 0 ∨ items.length < index) (stored : Stored states items) :
    Stored (states.set index value) items := by
  induction items with
  | nil => trivial
  | cons latest older inductionHypothesis =>
    rw [List.length_cons] at apart
    refine ⟨?_, inductionHypothesis (by omega) stored.2⟩
    rw [CborStates.slot_set_of_ne states index _ value (by omega)]
    exact stored.1

theorem stored_of_slot_eq (states other : CborStates) (same : other.slot = states.slot)
    (items : List CborState) (stored : Stored states items) : Stored other items := by
  induction items with
  | nil => trivial
  | cons latest older inductionHypothesis =>
    exact ⟨by rw [same]; exact stored.1, inductionHypothesis stored.2⟩

section Represents

variable {stateArray : Nat → CborState} {nStates : Nat} {states : CborStates}
  {stack : CborStack (nStates - 2)}

theorem Represents.bookkeeping_eq (represents : Represents stateArray nStates states stack) :
    states.bookkeeping = some (if 2 < nStates then
      some (nStates - 1, bookkeepingWith nStates stack.saved.height) else none) := by
  rw [CborStates.bookkeeping, CborStates.stateAt_of_slot states 0 _ represents.live]
  simp only [Option.bind_eq_bind, Option.bind_some, represents.livePointer, backupsPointer]
  by_cases many : 2 < nStates
  · simp only [if_pos many]
    rw [CborStates.backupsAt_of_slot states _ _ (represents.bookkeeping many)]
    rfl
  · simp only [if_neg many]
    rfl

theorem Represents.liveBackups_eq (represents : Represents stateArray nStates states stack) :
    states.liveBackups = stack.saved.height := by
  rw [CborStates.liveBackups, represents.bookkeeping_eq]
  by_cases many : 2 < nStates
  · rw [if_pos many]
    rfl
  · rw [if_neg many]
    have low := stack.saved.height_le
    show 0 = stack.saved.height
    omega

/-- The live state moves and keeps its pointer. -/
theorem Represents.setLive (represents : Represents stateArray nStates states stack)
    (nonempty : 1 ≤ nStates) (live : CborState) (pointer : live.backups = backupsPointer nStates) :
    Represents stateArray nStates (states.set 0 (.state live)) ⟨live, stack.saved⟩ where
  live := CborStates.slot_set_self ..
  bookkeeping many := by
    rw [CborStates.slot_set_of_ne _ _ _ _ (by omega)]
    exact represents.bookkeeping many
  saved := stored_set _ _ _ _ (Or.inl rfl) represents.saved
  livePointer := pointer
  savedPointers := represents.savedPointers
  used := represents.used
  behind index outside := by
    rw [CborStates.slot_set_of_ne _ _ _ _ (by omega)]
    exact represents.behind index outside

/-- A backup slot is read or written. -/
theorem Represents.useSlot (represents : Represents stateArray nStates states stack) (index : Nat)
    (low : 1 ≤ index) (high : index ≤ nStates - 2) :
    Represents stateArray nStates (states.use index) stack where
  live := represents.live
  bookkeeping := represents.bookkeeping
  saved := stored_of_slot_eq states (states.use index) rfl _ represents.saved
  livePointer := represents.livePointer
  savedPointers := represents.savedPointers
  used other member := by
    rcases List.mem_cons.mp member with here | before
    · rw [here]
      exact ⟨low, high⟩
    · exact represents.used other before
  behind := represents.behind

/-- The bookkeeping counts one backup less. -/
theorem Represents.popSaved (represents : Represents stateArray nStates states stack)
    (many : 2 < nStates) :
    Represents stateArray nStates
      (states.set (nStates - 1) (.backups (bookkeepingWith nStates (stack.saved.height - 1))))
      ⟨stack.live, stack.saved.pop⟩ where
  live := by
    rw [CborStates.slot_set_of_ne _ _ _ _ (by omega)]
    exact represents.live
  bookkeeping _ := by
    rw [CborStates.slot_set_self, BoundedStack.height, BoundedStack.height,
      BoundedStack.items_pop, List.length_tail]
  saved := by
    have bound := stack.saved.pop.height_le
    refine stored_set _ _ _ _ (Or.inr ?_) ?_
    · rw [BoundedStack.height] at bound
      show stack.saved.pop.items.length < nStates - 1
      omega
    · have stored := represents.saved
      show Stored states stack.saved.items.tail
      cases items : stack.saved.items with
      | nil => trivial
      | cons latest older =>
        rw [items] at stored
        exact stored.2
  livePointer := represents.livePointer
  savedPointers state member := represents.savedPointers state (List.mem_of_mem_tail member)
  used := represents.used
  behind index outside := by
    rw [CborStates.slot_set_of_ne _ _ _ _ (by omega)]
    exact represents.behind index outside

/-- The live state is written to the next slot, and the bookkeeping counts it. -/
theorem Represents.pushSaved (represents : Represents stateArray nStates states stack)
    (many : 2 < nStates) (room : stack.saved.height < nStates - 2) :
    Represents stateArray nStates
      ((states.set (nStates - 1)
        (.backups (bookkeepingWith nStates (stack.saved.height + 1)))).set
          (1 + stack.saved.height) (.state stack.live))
      ⟨stack.live, ⟨stack.live :: stack.saved.items, room⟩⟩ where
  live := by
    rw [CborStates.slot_set_of_ne _ _ _ _ (by omega),
      CborStates.slot_set_of_ne _ _ _ _ (by omega)]
    exact represents.live
  bookkeeping _ := by
    rw [CborStates.slot_set_of_ne _ _ _ _ (by omega), CborStates.slot_set_self]
    rfl
  saved := by
    refine ⟨CborStates.slot_set_self .., ?_⟩
    refine stored_set _ _ _ _ (Or.inr ?_) (stored_set _ _ _ _ (Or.inr ?_) represents.saved)
    · show stack.saved.height < 1 + stack.saved.height
      omega
    · show stack.saved.height < nStates - 1
      omega
  livePointer := represents.livePointer
  savedPointers state member := by
    rcases List.mem_cons.mp member with here | before
    · rw [here]
      exact represents.livePointer
    · exact represents.savedPointers state before
  used := represents.used
  behind index outside := by
    rw [CborStates.slot_set_of_ne _ _ _ _ (by omega),
      CborStates.slot_set_of_ne _ _ _ _ (by omega)]
    exact represents.behind index outside

/-- A full store refuses and changes nothing. -/
theorem Represents.newBackup_full (represents : Represents stateArray nStates states stack)
    (full : stack.saved.height = nStates - 2) (newElemCount : BitVec 32) :
    newBackup states newElemCount = some (false, states) := by
  rw [newBackup, represents.bookkeeping_eq]
  by_cases many : 2 < nStates
  · rw [if_pos many]
    simp only [Option.bind_eq_bind, Option.bind_some, bookkeepingWith]
    rw [if_pos (by omega)]
    rfl
  · rw [if_neg many]
    rfl

theorem Represents.newBackup_room (represents : Represents stateArray nStates states stack)
    (room : stack.saved.height < nStates - 2) (newElemCount : BitVec 32) :
    ∃ after, newBackup states newElemCount = some (true, after) ∧
      Represents stateArray nStates after
        ⟨{ stack.live with elemCount := newElemCount },
          ⟨stack.live :: stack.saved.items, room⟩⟩ := by
  have many : 2 < nStates := by omega
  have pushed := (represents.useSlot (1 + stack.saved.height) (by omega) (by omega)).pushSaved
    many room
  have first : ((states.use (1 + stack.saved.height)).set (nStates - 1)
      (.backups (bookkeepingWith nStates (stack.saved.height + 1)))).slot 0 =
        .state stack.live := by
    rw [CborStates.slot_set_of_ne _ _ _ _ (by omega)]
    exact represents.live
  refine ⟨_, ?_, pushed.setLive (by omega) { stack.live with elemCount := newElemCount }
    represents.livePointer⟩
  simp only [bookkeepingWith] at first pushed
  rw [newBackup, represents.bookkeeping_eq, if_pos many]
  simp only [Option.bind_eq_bind, Option.bind_some, bookkeepingWith, Nat.add_sub_cancel,
    CborStates.use_set]
  rw [if_neg (by omega), CborStates.copy_of_slot _ _ _ stack.live first, Option.bind_some,
    CborStates.stateAt_of_slot _ _ stack.live pushed.live]
  rfl

theorem Represents.restoreBackup_eq (represents : Represents stateArray nStates states stack)
    (latest : CborState) (older : List CborState) (items : stack.saved.items = latest :: older)
    (flags : BitVec 32) :
    ∃ after, restoreBackup states flags (bookkeepingWith nStates stack.saved.height) =
        some after ∧
      Represents stateArray nStates after
        ⟨if flags &&& flagRestore ≠ 0 then latest else stack.live, stack.saved⟩ := by
  have height : stack.saved.height = older.length + 1 := by
    rw [BoundedStack.height, items, List.length_cons]
  have bound := stack.saved.height_le
  by_cases restores : flags &&& flagRestore ≠ 0
  · have stored := represents.saved
    rw [items] at stored
    have used := represents.useSlot (1 + older.length) (by omega) (by omega)
    refine ⟨_, ?_, by
      rw [if_pos restores]
      exact used.setLive (by omega) latest (represents.savedPointers latest (by simp [items]))⟩
    rw [restoreBackup, if_pos restores, height]
    exact CborStates.copy_of_slot _ _ _ latest stored.1
  · refine ⟨states, ?_, by
      rw [if_neg restores]
      exact represents⟩
    rw [restoreBackup, if_neg restores]
    rfl

theorem Represents.consumeBackup_eq (represents : Represents stateArray nStates states stack)
    (many : 2 < nStates) (flags : BitVec 32) :
    ∃ after, consumeBackup states flags = some after ∧
      Represents stateArray nStates after
        ⟨stack.live, if flags &&& flagConsume ≠ 0 then stack.saved.pop else stack.saved⟩ := by
  by_cases consumes : flags &&& flagConsume ≠ 0
  · refine ⟨_, ?_, by
      rw [if_pos consumes]
      exact represents.popSaved many⟩
    rw [consumeBackup, if_pos consumes, represents.bookkeeping_eq, if_pos many]
    rfl
  · refine ⟨states, ?_, by
      rw [if_neg consumes]
      exact represents⟩
    rw [consumeBackup, if_neg consumes]
    rfl

/-- `process_backup` does to the array what it should do to the model. -/
theorem Represents.processBackup_eq (represents : Represents stateArray nStates states stack)
    (flags maxElemCount : BitVec 32) :
    ∃ after, processBackup states flags maxElemCount =
        some ((stack.processBackup flags maxElemCount).1, after) ∧
      Represents stateArray nStates after (stack.processBackup flags maxElemCount).2 := by
  have bound := stack.saved.height_le
  rw [processBackup, CborStates.stateAt_of_slot _ _ _ represents.live, represents.bookkeeping_eq]
  cases items : stack.saved.items with
  | nil =>
    have height : stack.saved.height = 0 := by rw [BoundedStack.height, items, List.length_nil]
    refine ⟨states, ?_, by simpa only [CborStack.processBackup, items] using represents⟩
    by_cases many : 2 < nStates
    · simp only [if_pos many, Option.bind_eq_bind, Option.bind_some, CborStack.processBackup,
        items, bookkeepingWith, height]
      rfl
    · simp only [if_neg many, CborStack.processBackup, items]
      rfl
  | cons latest older =>
    have height : stack.saved.height = older.length + 1 := by
      rw [BoundedStack.height, items, List.length_cons]
    have many : 2 < nStates := by omega
    obtain ⟨restored, restoredEq, restoredRepresents⟩ :=
      represents.restoreBackup_eq latest older items flags
    obtain ⟨consumed, consumedEq, consumedRepresents⟩ :=
      restoredRepresents.consumeBackup_eq many flags
    have some : ¬ (bookkeepingWith nStates stack.saved.height).currentBackup = 0 := by
      rw [bookkeepingWith, height]
      exact Nat.succ_ne_zero _
    simp only [if_pos many, Option.bind_eq_bind, Option.bind_some, if_neg some, restoredEq,
      consumedEq, CborStack.processBackup, items]
    by_cases above : stack.live.elemCount > maxElemCount
    · simp only [if_pos above]
      exact ⟨consumed, rfl, consumedRepresents⟩
    · simp only [if_neg above]
      by_cases transfers : flags &&& flagTransferPayload ≠ 0
      · simp only [if_pos transfers]
        rw [CborStates.stateAt_of_slot _ _ _ consumedRepresents.live]
        exact ⟨_, rfl, consumedRepresents.setLive (by omega) _ consumedRepresents.livePointer⟩
      · simp only [if_neg transfers]
        exact ⟨consumed, rfl, consumedRepresents⟩

theorem Represents.newBackup_eq (represents : Represents stateArray nStates states stack)
    (newElemCount : BitVec 32) :
    ∃ after, newBackup states newElemCount = some ((stack.newBackup newElemCount).1, after) ∧
      Represents stateArray nStates after (stack.newBackup newElemCount).2 := by
  by_cases full : stack.saved.height = nStates - 2
  · rw [stack.newBackup_full newElemCount full]
    exact ⟨states, represents.newBackup_full full newElemCount, represents⟩
  · have bound := stack.saved.height_le
    have room : stack.saved.height < nStates - 2 := by omega
    rw [stack.newBackup_room newElemCount room]
    exact represents.newBackup_room room newElemCount

/-- Every call does to the array what it does to the model. -/
theorem Represents.run_eq (represents : Represents stateArray nStates states stack)
    (nonempty : 1 ≤ nStates) (call : CborCall) :
    ∃ after, call.run states = some ((stack.call call).1, after) ∧
      Represents stateArray nStates after (stack.call call).2 := by
  have live := CborStates.stateAt_of_slot _ _ _ represents.live
  cases call with
  | newBackup newElemCount => exact represents.newBackup_eq newElemCount
  | processBackup flags maxElemCount => exact represents.processBackup_eq flags maxElemCount
  | unionStartCode =>
    rw [CborCall.run, unionStartCode, live]
    exact represents.newBackup_eq stack.live.elemCount
  | unionElemCode =>
    rw [CborCall.run, unionElemCode, live]
    exact represents.processBackup_eq flagRestore stack.live.elemCount
  | unionEndCode =>
    rw [CborCall.run, unionEndCode, live]
    exact represents.processBackup_eq flagConsume stack.live.elemCount
  | decode payload payloadBak payloadEnd elemCount =>
    rw [CborCall.run, live]
    exact ⟨_, rfl, represents.setLive nonempty _ represents.livePointer⟩

/-- A whole sequence of calls does to the array what it does to the model. -/
theorem Represents.runCalls_eq (represents : Represents stateArray nStates states stack)
    (nonempty : 1 ≤ nStates) (calls : List CborCall) :
    ∃ after, runCalls states calls = some (stack.results calls, after) ∧
      Represents stateArray nStates after (stack.after calls) := by
  induction calls generalizing states stack with
  | nil => exact ⟨states, rfl, represents⟩
  | cons call rest inductionHypothesis =>
    obtain ⟨middle, first, middleRepresents⟩ := represents.run_eq nonempty call
    obtain ⟨after, others, afterRepresents⟩ := inductionHypothesis middleRepresents
    refine ⟨after, ?_, afterRepresents⟩
    rw [runCalls, first, Option.bind_eq_bind, Option.bind_some]
    simp only [others]
    rfl

/-- A new backup that fails leaves the array as it was, and every slot was live. -/
theorem Represents.newBackup_fails (represents : Represents stateArray nStates states stack)
    (newElemCount : BitVec 32) (after : CborStates)
    (fails : newBackup states newElemCount = some (false, after)) :
    after = states ∧ states.liveBackups = nStates - 2 := by
  rw [represents.liveBackups_eq]
  by_cases full : stack.saved.height = nStates - 2
  · rw [represents.newBackup_full full] at fails
    cases fails
    exact ⟨rfl, full⟩
  · have bound := stack.saved.height_le
    obtain ⟨other, succeeds, _⟩ := represents.newBackup_room (by omega) newElemCount
    rw [succeeds] at fails
    cases fails

theorem Represents.newBackup_saves (represents : Represents stateArray nStates states stack)
    (newElemCount : BitVec 32) (started : CborStates)
    (saves : newBackup states newElemCount = some (true, started)) :
    ∃ next : CborStack (nStates - 2), Represents stateArray nStates started next ∧
      next.saved.items = stack.live :: stack.saved.items := by
  have bound := stack.saved.height_le
  have room : stack.saved.height < nStates - 2 := by
    by_contra full
    rw [represents.newBackup_full (by omega)] at saves
    cases saves
  obtain ⟨after, succeeds, afterRepresents⟩ := represents.newBackup_room room newElemCount
  rw [succeeds] at saves
  cases saves
  exact ⟨_, afterRepresents, rfl⟩

end Represents

/-- No call of the model does more than one push or one pop. -/
theorem CborStack.call_adjacent {capacity : Nat} (stack : CborStack capacity) (call : CborCall) :
    BoundedStack.Adjacent stack.saved (stack.call call).2.saved := by
  have newBackup (newElemCount : BitVec 32) :
      BoundedStack.Adjacent stack.saved (stack.newBackup newElemCount).2.saved := by
    by_cases full : stack.saved.height = capacity
    · rw [stack.newBackup_full newElemCount full]
      exact BoundedStack.adjacent_refl _
    · have bound := stack.saved.height_le
      rw [stack.newBackup_room newElemCount (by omega)]
      exact Or.inr (Or.inl ⟨stack.live, rfl⟩)
  have processBackup (flags maxElemCount : BitVec 32) :
      BoundedStack.Adjacent stack.saved (stack.processBackup flags maxElemCount).2.saved := by
    rw [CborStack.processBackup]
    cases stack.saved.items with
    | nil => exact BoundedStack.adjacent_refl _
    | cons latest older =>
      have either : BoundedStack.Adjacent stack.saved
          (if flags &&& flagConsume ≠ 0 then stack.saved.pop else stack.saved) := by
        by_cases consumes : flags &&& flagConsume ≠ 0
        · rw [if_pos consumes]
          exact BoundedStack.adjacent_pop _
        · rw [if_neg consumes]
          exact BoundedStack.adjacent_refl _
      by_cases above : stack.live.elemCount > maxElemCount
      · simp only [if_pos above]
        exact either
      · simp only [if_neg above]
        by_cases transfers : flags &&& flagTransferPayload ≠ 0
        · simp only [if_pos transfers]
          exact either
        · simp only [if_neg transfers]
          exact either
  cases call with
  | newBackup newElemCount => exact newBackup newElemCount
  | processBackup flags maxElemCount => exact processBackup flags maxElemCount
  | unionStartCode => exact newBackup stack.live.elemCount
  | unionElemCode => exact processBackup flagRestore stack.live.elemCount
  | unionEndCode => exact processBackup flagConsume stack.live.elemCount
  | decode => exact BoundedStack.adjacent_refl _

/-! ### Runs -/

/-- Calls that leave no fewer live backups at any point than they started with, and as many at the
end. -/
def Balanced (states : CborStates) (calls : List CborCall) : Prop :=
  (∀ front results middle, front <+: calls → runCalls states front = some (results, middle) →
      states.liveBackups ≤ middle.liveBackups) ∧
    ∀ results ended, runCalls states calls = some (results, ended) →
      ended.liveBackups = states.liveBackups

/-- The state that `new_state` makes live. -/
def initialState (stateArray : Nat → CborState) (nStates payload payloadLen : Nat)
    (elemCount : BitVec 32) : CborState :=
  { stateArray 0 with
    payload, payloadEnd := payload + payloadLen, elemCount, backups := backupsPointer nStates }

theorem newState_represents (stateArray : Nat → CborState) (nStates payload payloadLen : Nat)
    (elemCount : BitVec 32) (nonempty : 1 ≤ nStates) :
    Represents stateArray nStates (newState stateArray nStates payload payloadLen elemCount)
      (CborStack.start (initialState stateArray nStates payload payloadLen elemCount)) := by
  by_cases many : nStates > 2
  · rw [newState, if_pos many]
    exact {
      live := by
        rw [CborStates.slot_set_of_ne _ _ _ _ (by omega), CborStates.slot_set_self,
          CborStack.start, initialState, backupsPointer, if_pos many]
      bookkeeping := fun _ => CborStates.slot_set_self ..
      saved := trivial
      livePointer := rfl
      savedPointers := fun _ member => by cases member
      used := fun _ member => by cases member
      behind := fun index outside => by
        rw [CborStates.slot_set_of_ne _ _ _ _ (by omega),
          CborStates.slot_set_of_ne _ _ _ _ (by omega),
          CborStates.slot_set_of_ne _ _ _ _ (by omega)] }
  · rw [newState, if_neg many]
    exact {
      live := by
        rw [CborStates.slot_set_self, CborStack.start, initialState, backupsPointer, if_neg many]
      bookkeeping := fun few => absurd few many
      saved := trivial
      livePointer := rfl
      savedPointers := fun _ member => by cases member
      used := fun _ member => by cases member
      behind := fun index outside => CborStates.slot_set_of_ne _ _ _ _ (by omega) }

section Restore

variable {stateArray : Nat → CborState} {nStates : Nat} {states : CborStates}
  {stack : CborStack (nStates - 2)}

/-- Balanced calls leave the saved states as they are. -/
theorem Represents.balanced (represents : Represents stateArray nStates states stack)
    (nonempty : 1 ≤ nStates) (calls : List CborCall) (balanced : Balanced states calls)
    (results : List Bool) (ended : CborStates)
    (run : runCalls states calls = some (results, ended)) :
    Represents stateArray nStates ended (stack.after calls) ∧
      (stack.after calls).saved.items = stack.saved.items := by
  obtain ⟨after, runs, afterRepresents⟩ := represents.runCalls_eq nonempty calls
  rw [runs] at run
  cases run
  refine ⟨afterRepresents, ?_⟩
  refine BoundedStack.items_of_balanced CborStack.saved
    (fun stack call => (stack.call call).2) CborStack.call_adjacent calls stack ?_ ?_
  · intro front before
    obtain ⟨middle, reaches, middleRepresents⟩ := represents.runCalls_eq nonempty front
    have above := balanced.1 front _ middle before reaches
    rwa [represents.liveBackups_eq, middleRepresents.liveBackups_eq] at above
  · have level := balanced.2 _ ended runs
    rwa [represents.liveBackups_eq, afterRepresents.liveBackups_eq] at level

/-- A restore brings back the state that was saved last and is still saved. -/
theorem Represents.restore_balanced (represents : Represents stateArray nStates states stack)
    (nonempty : 1 ≤ nStates) (newElemCount : BitVec 32) (started : CborStates)
    (saves : newBackup states newElemCount = some (true, started)) (between : List CborCall)
    (balanced : Balanced started between) (results : List Bool) (ended : CborStates)
    (run : runCalls started between = some (results, ended)) :
    ∃ current, ended.stateAt 0 = some current ∧
      ∀ flags maxElemCount, flags &&& flagRestore ≠ 0 →
      ∃ after, processBackup ended flags maxElemCount =
          some (decide (current.elemCount ≤ maxElemCount), after) ∧
        after.stateAt 0 = some (if current.elemCount ≤ maxElemCount ∧
          flags &&& flagTransferPayload ≠ 0 then { stack.live with payload := current.payload }
          else stack.live) := by
  obtain ⟨next, nextRepresents, items⟩ := represents.newBackup_saves newElemCount started saves
  obtain ⟨endedRepresents, same⟩ := nextRepresents.balanced nonempty between balanced results ended
    run
  rw [items] at same
  refine ⟨_, CborStates.stateAt_of_slot _ _ _ endedRepresents.live,
    fun flags maxElemCount restores => ?_⟩
  obtain ⟨after, processed, afterRepresents⟩ :=
    endedRepresents.processBackup_eq flags maxElemCount
  refine ⟨after, ?_, ?_⟩
  · rw [processed, CborStack.processBackup, same]
    by_cases above : (next.after between).live.elemCount > maxElemCount
    · simp only [if_pos above, BitVec.not_le.mpr above, decide_false]
    · simp only [if_neg above, BitVec.not_lt.mp above, decide_true]
      split <;> rfl
  · rw [CborStates.stateAt_of_slot _ _ _ afterRepresents.live, CborStack.processBackup, same]
    by_cases above : (next.after between).live.elemCount > maxElemCount
    · simp only [if_pos above, if_pos restores, BitVec.not_le.mpr above, false_and, if_false]
    · simp only [if_neg above, if_pos restores, BitVec.not_lt.mp above, true_and]
      split <;> rfl

end Restore

/-- The backup store is a bounded stack. After any calls the array holds what the model of a live
state and a stack of saved ones holds, in the slots meant for each; a new backup fails exactly when
all slots are live, and then changes nothing; a restore brings back the state that was saved last;
and every alternative of a union starts from the state its start left. -/
theorem cborBackups_boundedStack (stateArray : Nat → CborState) (nStates payload payloadLen : Nat)
    (elemCount : BitVec 32) (nonempty : 1 ≤ nStates) (calls : List CborCall) :
    ∃ results states,
      runCalls (newState stateArray nStates payload payloadLen elemCount) calls =
        some (results, states) ∧
      (∃ stack : CborStack (nStates - 2), stack = (CborStack.start
          (initialState stateArray nStates payload payloadLen elemCount)).after calls ∧
        results = (CborStack.start
          (initialState stateArray nStates payload payloadLen elemCount) :
            CborStack (nStates - 2)).results calls ∧
        states.liveBackups = stack.saved.height ∧ Represents stateArray nStates states stack) ∧
      states.liveBackups ≤ nStates - 2 ∧
      (∀ index ∈ states.used, 1 ≤ index ∧ index ≤ nStates - 2) ∧
      (∀ newElemCount, (∃ after, newBackup states newElemCount = some (false, after)) ↔
        states.liveBackups = nStates - 2) ∧
      (∀ newElemCount after, newBackup states newElemCount = some (false, after) →
        after = states) ∧
      (∀ newElemCount started between outcomes ended flags maxElemCount,
        newBackup states newElemCount = some (true, started) → Balanced started between →
        runCalls started between = some (outcomes, ended) → flags &&& flagRestore ≠ 0 →
        ∃ saved current after, states.stateAt 0 = some saved ∧ ended.stateAt 0 = some current ∧
          processBackup ended flags maxElemCount =
            some (decide (current.elemCount ≤ maxElemCount), after) ∧
          after.stateAt 0 = some (if current.elemCount ≤ maxElemCount ∧
            flags &&& flagTransferPayload ≠ 0 then { saved with payload := current.payload }
            else saved)) ∧
      (∀ started between outcomes ended, unionStartCode states = some (true, started) →
        Balanced started between → runCalls started between = some (outcomes, ended) →
        ∃ after, unionElemCode ended = some (true, after) ∧
          after.stateAt 0 = states.stateAt 0) := by
  obtain ⟨states, run, represents⟩ :=
    (newState_represents stateArray nStates payload payloadLen elemCount nonempty).runCalls_eq
      nonempty calls
  have live := CborStates.stateAt_of_slot _ _ _ represents.live
  refine ⟨_, states, run, ⟨_, rfl, rfl, represents.liveBackups_eq, represents⟩, ?_,
    represents.used, ?_, ?_, ?_, ?_⟩
  · rw [represents.liveBackups_eq]
    exact BoundedStack.height_le _
  · intro newElemCount
    refine ⟨fun ⟨after, fails⟩ => (represents.newBackup_fails newElemCount after fails).2,
      fun full => ⟨states, represents.newBackup_full ?_ newElemCount⟩⟩
    rwa [represents.liveBackups_eq] at full
  · exact fun newElemCount after fails => (represents.newBackup_fails newElemCount after fails).1
  · intro newElemCount started between outcomes ended flags maxElemCount saves balanced reaches
      restores
    obtain ⟨current, currentEq, restored⟩ := represents.restore_balanced nonempty newElemCount
      started saves between balanced outcomes ended reaches
    obtain ⟨after, processed, afterEq⟩ := restored flags maxElemCount restores
    exact ⟨_, current, after, live, currentEq, processed, afterEq⟩
  · intro started between outcomes ended starts balanced reaches
    rw [unionStartCode, live] at starts
    obtain ⟨current, currentEq, restored⟩ := represents.restore_balanced nonempty _ started starts
      between balanced outcomes ended reaches
    obtain ⟨after, processed, afterEq⟩ := restored flagRestore current.elemCount (by decide)
    refine ⟨after, ?_, ?_⟩
    · rw [unionElemCode, currentEq, Option.bind_eq_bind, Option.bind_some, processed,
        decide_eq_true (BitVec.le_refl _)]
    · have keeps : ¬ (current.elemCount ≤ current.elemCount ∧
          flagRestore &&& flagTransferPayload ≠ 0) := fun both => both.2 (by decide)
      rw [afterEq, if_neg keeps, live]

/-- A union in an array of four: an alternative that opens and closes a list, and the next one. -/
theorem cborBackups_boundedStack_four :
    ∃ started outcomes ended after,
      unionStartCode (newState (fun _ => ⟨0, 0, 0, 0, none⟩) 4 0 10 7) = some (true, started) ∧
      runCalls started [.decode 1 0 10 6, .newBackup 3, .decode 5 4 10 0, .processBackup 7 0] =
        some (outcomes, ended) ∧
      unionElemCode ended = some (true, after) ∧
      after.stateAt 0 = some ⟨0, 0, 10, 7, some 3⟩ := by
  obtain ⟨results, states, run, _, _, _, _, _, _, union⟩ :=
    cborBackups_boundedStack (fun _ => ⟨0, 0, 0, 0, none⟩) 4 0 10 7 (by decide) []
  cases run
  have balanced (started : CborStates) (starts : unionStartCode
      (newState (fun _ => ⟨0, 0, 0, 0, none⟩) 4 0 10 7) = some (true, started)) :
      Balanced started
        [.decode 1 0 10 6, .newBackup 3, .decode 5 4 10 0, .processBackup 7 0] := by
    cases starts
    refine ⟨fun front results middle before reaches => ?_, fun results ended reaches => ?_⟩
    · rw [← List.mem_inits] at before
      simp only [List.inits, List.mem_cons, List.map_cons, List.map_nil, List.not_mem_nil,
        or_false] at before
      rcases before with rfl | rfl | rfl | rfl | rfl <;> cases reaches <;> decide
    · cases reaches
      rfl
  obtain ⟨after, alternative, same⟩ := union _
    [.decode 1 0 10 6, .newBackup 3, .decode 5 4 10 0, .processBackup 7 0] _ _ rfl
    (balanced _ rfl) rfl
  exact ⟨_, _, _, after, rfl, rfl, alternative, same⟩

end McubootPort

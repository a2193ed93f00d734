/-
This file models the patched `cbor_decode.c`: what starts and ends a list or a
map, and what takes one element.

A header starts a container. It gives a number of elements or leaves the number
open, and the live state is saved while the content is read. One 32-bit counter
holds how many elements are left, and its highest bit says that the number is
open. The functions work on the array of states, and each of them does to the
array what it should do to a live state and a stack of saved ones.
-/

import McubootPort.CborCommon
import McubootPort.Library.Nesting
import Mathlib.Algebra.Ring.Nat

namespace McubootPort

/-! ### The counter -/

/-- `MIN_INDET_LEN_ELEM_COUNT`. -/
def minIndetLenElemCount : BitVec 32 := 0x80000000

/-- `INDET_LEN_ELEM_COUNT`. -/
def indetLenElemCount : BitVec 32 := 0xFFFFFFF0

/-- `INDET_LEN`. -/
def IndetLen (elemCount : BitVec 32) : Prop := elemCount ≥ minIndetLenElemCount

instance (elemCount : BitVec 32) : Decidable (IndetLen elemCount) :=
  inferInstanceAs (Decidable (elemCount ≥ minIndetLenElemCount))

theorem indetLen_iff (elemCount : BitVec 32) : IndetLen elemCount ↔ 2 ^ 31 ≤ elemCount.toNat :=
  BitVec.le_def

theorem indetLen_indetLenElemCount : IndetLen indetLenElemCount := by decide

/-- A counter that an element can be taken from. -/
def HasElement (elemCount : BitVec 32) : Prop :=
  elemCount ≠ 0 ∧ elemCount ≠ minIndetLenElemCount

instance (elemCount : BitVec 32) : Decidable (HasElement elemCount) :=
  inferInstanceAs (Decidable (_ ∧ _))

theorem toNat_pred (elemCount : BitVec 32) (more : HasElement elemCount) :
    (elemCount - 1).toNat + 1 = elemCount.toNat := by
  have positive : elemCount.toNat ≠ 0 := fun zero => more.1 (BitVec.eq_of_toNat_eq zero)
  have below := elemCount.isLt
  rw [BitVec.toNat_sub]
  show (2 ^ 32 - 1 + elemCount.toNat) % 2 ^ 32 + 1 = elemCount.toNat
  omega

/-- Taking an element does not change what the highest bit says. -/
theorem indetLen_pred (elemCount : BitVec 32) (more : HasElement elemCount) :
    IndetLen (elemCount - 1) ↔ IndetLen elemCount := by
  have less := toNat_pred elemCount more
  have notLowest : elemCount.toNat ≠ 2 ^ 31 := fun lowest =>
    more.2 (BitVec.eq_of_toNat_eq lowest)
  rw [indetLen_iff, indetLen_iff]
  omega

/-! ### Reading -/

/-- `MAJOR_TYPE`. -/
def majorType (headerByte : UInt8) : UInt8 := headerByte >>> 5

/-- `ADDITIONAL`. -/
def additional (headerByte : UInt8) : UInt8 := headerByte &&& 0x1F

def majorTypeList : UInt8 := 4

def majorTypeMap : UInt8 := 5

/-- The bytes of the payload, and the lines of `value_extract` that the patch leaves as they are:
they read the header and the value behind it into `resultLen` bytes. A value that is read takes one
element, and a header that is refused takes nothing. -/
structure CborInput where
  byte : Nat → UInt8
  extractValue : Nat → CborState → Option Nat × CborState
  taken : ∀ resultLen state value after, extractValue resultLen state = (some value, after) →
    after.payloadBak = state.payload ∧ after.payloadEnd = state.payloadEnd ∧
      after.elemCount = state.elemCount - 1 ∧ after.backups = state.backups
  refused : ∀ resultLen state after, extractValue resultLen state = (none, after) →
    after.payload = state.payload ∧ after.payloadEnd = state.payloadEnd ∧
      after.elemCount = state.elemCount ∧ after.backups = state.backups

/-- The low bits of the header byte at a position. -/
def headerInfo (byte : Nat → UInt8) (position : Nat) : Nat := (additional (byte position)).toNat

/-- The number of bytes that the value of a header takes behind the header byte. -/
def headerLen (byte : Nat → UInt8) (position : Nat) : Nat :=
  if headerInfo byte position ≤ 23 then 0 else 2 ^ (headerInfo byte position - 24)

/-- The value of a header: its low bits, or the bytes behind it with the highest first. -/
def headerValue (byte : Nat → UInt8) (position : Nat) : Nat :=
  if headerInfo byte position ≤ 23 then headerInfo byte position
  else (List.range (headerLen byte position)).foldl
    (fun value index => 256 * value + (byte (position + 1 + index)).toNat) 0

/-- A payload whose headers are as CBOR has them. -/
def cborBytes (bytes : List UInt8) : CborInput where
  byte position := bytes.getD position 0
  extractValue resultLen state :=
    if headerInfo (bytes.getD · 0) state.payload > 27 ∨
        headerLen (bytes.getD · 0) state.payload > resultLen ∨
        state.payload + 1 + headerLen (bytes.getD · 0) state.payload > state.payloadEnd then
      (none, { state with payloadBak := state.payload })
    else
      (some (headerValue (bytes.getD · 0) state.payload),
        { state with
          payload := state.payload + 1 + headerLen (bytes.getD · 0) state.payload
          payloadBak := state.payload
          elemCount := state.elemCount - 1 })
  taken resultLen state value after extracts := by
    split at extracts
    · cases extracts
    · cases extracts
      exact ⟨rfl, rfl, rfl, rfl⟩
  refused resultLen state after extracts := by
    split at extracts
    · cases extracts
      exact ⟨rfl, rfl, rfl, rfl⟩
    · cases extracts

/-- `value_extract`. -/
def valueExtract (input : CborInput) (resultLen : Nat) (state : CborState) :
    Option Nat × CborState :=
  if state.elemCount = 0 ∨ state.elemCount = minIndetLenElemCount ∨
      state.payload ≥ state.payloadEnd then (none, state)
  else input.extractValue resultLen state

/-- `uint32_decode`. -/
def uint32Decode (input : CborInput) (state : CborState) : Option (BitVec 32) × CborState :=
  match valueExtract input 4 state with
  | (none, state) => (none, state)
  | (some value, state) => (some (BitVec.ofNat 32 value), state)

/-- What `FAIL_RESTORE` does before it returns. -/
def failRestore (state : CborState) : CborState :=
  { state with payload := state.payloadBak, elemCount := state.elemCount + 1 }

/-- An element that starts with a header, and what the decoder of the element skips behind it. -/
def takeElement (input : CborInput) (resultLen skip : Nat) (state : CborState) :
    Bool × CborState :=
  match valueExtract input resultLen state with
  | (none, state) => (false, state)
  | (some _, state) => (true, { state with payload := state.payload + skip })

/-- The header of a container up to the point where the backup is made: the number of elements, or
nothing on failure. -/
def headerDecode (input : CborInput) (expMajorType : UInt8) (state : CborState) :
    Option (BitVec 32) × CborState :=
  if majorType (input.byte state.payload) ≠ expMajorType then (none, state)
  else if additional (input.byte state.payload) = 0x1F then
    (some indetLenElemCount, { state with payload := state.payload + 1 })
  else
    match uint32Decode input state with
    | (none, state) => (none, state)
    | (some newElemCount, state) =>
      if IndetLen newElemCount then (none, failRestore state) else (some newElemCount, state)

/-- `array_end_expect`. -/
def arrayEndExpect (input : CborInput) (state : CborState) : Bool × CborState :=
  if state.payload ≥ state.payloadEnd then (false, state)
  else if input.byte state.payload ≠ 0xFF then (false, state)
  else (true, { state with payload := state.payload + 1 })

/-! ### Containers -/

/-- A function that only moves the live state. -/
def onLive (states : CborStates) (decode : CborState → Bool × CborState) :
    Option (Bool × CborStates) := do
  let state ← states.stateAt 0
  return ((decode state).1, states.set 0 (.state (decode state).2))

/-- `list_map_start_decode`. -/
def listMapStartDecode (input : CborInput) (expMajorType : UInt8) (states : CborStates) :
    Option (Bool × CborStates) := do
  let state ← states.stateAt 0
  match headerDecode input expMajorType state with
  | (none, state) => return (false, states.set 0 (.state state))
  | (some newElemCount, state) => newBackup (states.set 0 (.state state)) newElemCount

/-- `list_start_decode`. -/
def listStartDecode (input : CborInput) (states : CborStates) : Option (Bool × CborStates) :=
  listMapStartDecode input majorTypeList states

/-- What `map_start_decode` does to the live state when the map was started. -/
def mapElemCount (state : CborState) : Bool × CborState :=
  if IndetLen state.elemCount then (true, state)
  else if IndetLen (state.elemCount * 2) then (false, failRestore state)
  else (true, { state with elemCount := state.elemCount * 2 })

/-- `map_start_decode`. -/
def mapStartDecode (input : CborInput) (states : CborStates) : Option (Bool × CborStates) := do
  let (ret, states) ← listMapStartDecode input majorTypeMap states
  if ret then onLive states mapElemCount else return (false, states)

/-- `list_map_end_decode`. -/
def listMapEndDecode (input : CborInput) (states : CborStates) : Option (Bool × CborStates) := do
  let state ← states.stateAt 0
  let flags := flagRestore ||| flagConsume ||| flagTransferPayload
  if IndetLen state.elemCount then
    match arrayEndExpect input state with
    | (false, state) => return (false, states.set 0 (.state state))
    | (true, state) => processBackup (states.set 0 (.state state)) flags 0xFFFFFFFF
  else processBackup states flags 0

inductive ContainerKind
  | list
  | map
deriving DecidableEq

def ContainerKind.majorType : ContainerKind → UInt8
  | .list => majorTypeList
  | .map => majorTypeMap

/-- The start of a list or of a map. -/
def startDecode (input : CborInput) : ContainerKind → CborStates → Option (Bool × CborStates)
  | .list => listStartDecode input
  | .map => mapStartDecode input

/-- A step of a decoder: the start or the end of a container, an element, or anything else that
moves the live state. -/
inductive CborEvent
  | start (kind : ContainerKind)
  | stop
  | element (resultLen skip : Nat)
  | other (payload payloadBak payloadEnd : Nat) (elemCount : BitVec 32)
deriving DecidableEq

def CborEvent.IsStart : CborEvent → Prop
  | .start _ => True
  | _ => False

def CborEvent.IsStop : CborEvent → Prop
  | .stop => True
  | _ => False

def CborEvent.run (input : CborInput) (event : CborEvent) (states : CborStates) :
    Option (Bool × CborStates) :=
  match event with
  | .start kind => startDecode input kind states
  | .stop => listMapEndDecode input states
  | .element resultLen skip => onLive states (takeElement input resultLen skip)
  | .other payload payloadBak payloadEnd elemCount =>
    (CborCall.decode payload payloadBak payloadEnd elemCount).run states

/-- A step that succeeds. -/
def succeed (input : CborInput) (states : CborStates) (event : CborEvent) :
    Option CborStates := do
  let (result, states) ← event.run input states
  if result then return states else failure

/-- Steps that all succeed. -/
def runEvents (input : CborInput) (states : CborStates) (events : List CborEvent) :
    Option CborStates :=
  events.foldlM (succeed input) states

/-! ### What happens to the live state -/

/-- The state after a header was read: the counter is one less. -/
structure TakesOne (before after : CborState) : Prop where
  more : HasElement before.elemCount
  payloadBak : after.payloadBak = before.payload
  payloadEnd : after.payloadEnd = before.payloadEnd
  elemCount : after.elemCount = before.elemCount - 1
  backups : after.backups = before.backups

/-- The state after a failure: it reads the same bytes and may take the same elements. -/
structure SamePlace (before after : CborState) : Prop where
  payload : after.payload = before.payload
  payloadEnd : after.payloadEnd = before.payloadEnd
  elemCount : after.elemCount = before.elemCount
  backups : after.backups = before.backups

theorem samePlace_refl (state : CborState) : SamePlace state state := ⟨rfl, rfl, rfl, rfl⟩

section State

variable (input : CborInput)

theorem valueExtract_taken (resultLen value : Nat) (state after : CborState)
    (takes : valueExtract input resultLen state = (some value, after)) : TakesOne state after := by
  rw [valueExtract] at takes
  split at takes
  · cases takes
  · rename_i passes
    obtain ⟨payloadBak, payloadEnd, elemCount, backups⟩ :=
      input.taken resultLen state value after takes
    exact ⟨⟨fun zero => passes (Or.inl zero), fun lowest => passes (Or.inr (Or.inl lowest))⟩,
      payloadBak, payloadEnd, elemCount, backups⟩

theorem valueExtract_refused (resultLen : Nat) (state after : CborState)
    (refuses : valueExtract input resultLen state = (none, after)) : SamePlace state after := by
  rw [valueExtract] at refuses
  split at refuses
  · cases refuses
    exact samePlace_refl state
  · obtain ⟨payload, payloadEnd, elemCount, backups⟩ :=
      input.refused resultLen state after refuses
    exact ⟨payload, payloadEnd, elemCount, backups⟩

/-- No element is taken when the counter is used up. -/
theorem valueExtract_of_used (resultLen : Nat) (state : CborState)
    (used : ¬ HasElement state.elemCount) :
    valueExtract input resultLen state = (none, state) := by
  rw [valueExtract, if_pos]
  rw [HasElement, not_and_or, not_not, not_not] at used
  exact used.elim Or.inl fun lowest => Or.inr (Or.inl lowest)

/-- After a rollback the decoder stands before the header again. -/
theorem samePlace_failRestore (before after : CborState) (takes : TakesOne before after) :
    SamePlace before (failRestore after) where
  payload := takes.payloadBak
  payloadEnd := takes.payloadEnd
  elemCount := by
    rw [failRestore, takes.elemCount]
    exact BitVec.sub_add_cancel ..
  backups := takes.backups

/-- The header at the read position leaves the number of elements open. -/
def Indeterminate (state : CborState) : Prop := additional (input.byte state.payload) = 0x1F

instance (state : CborState) : Decidable (Indeterminate input state) :=
  inferInstanceAs (Decidable (_ = _))

theorem uint32Decode_eq (state : CborState) :
    uint32Decode input state = ((valueExtract input 4 state).1.map (BitVec.ofNat 32),
      (valueExtract input 4 state).2) := by
  unfold uint32Decode
  rcases valueExtract input 4 state with ⟨_ | value, after⟩
  · rfl
  · rfl

theorem uint32Decode_taken (state after : CborState) (value : BitVec 32)
    (takes : uint32Decode input state = (some value, after)) : TakesOne state after := by
  rw [uint32Decode_eq, Prod.mk.injEq, Option.map_eq_some_iff] at takes
  obtain ⟨⟨number, extracted, _⟩, rfl⟩ := takes
  exact valueExtract_taken input 4 number state _ (Prod.ext extracted rfl)

theorem uint32Decode_refused (state after : CborState)
    (refuses : uint32Decode input state = (none, after)) : SamePlace state after := by
  rw [uint32Decode_eq, Prod.mk.injEq, Option.map_eq_none_iff] at refuses
  obtain ⟨extracted, rfl⟩ := refuses
  exact valueExtract_refused input 4 state _ (Prod.ext extracted rfl)

/-- A header that fails leaves the decoder where it was. -/
theorem headerDecode_none (expMajorType : UInt8) (state after : CborState)
    (fails : headerDecode input expMajorType state = (none, after)) : SamePlace state after := by
  rw [headerDecode] at fails
  split at fails
  · cases fails
    exact samePlace_refl state
  split at fails
  · cases fails
  cases decoded : uint32Decode input state with
  | mk result other =>
    rw [decoded] at fails
    cases result with
    | none =>
      cases fails
      exact uint32Decode_refused input state after decoded
    | some count =>
      by_cases collides : IndetLen count
      · simp only [if_pos collides] at fails
        cases fails
        exact samePlace_failRestore state other (uint32Decode_taken input state other count decoded)
      · simp only [if_neg collides] at fails
        cases fails

/-- What a header gives when it is read: the number is left open, or it is one that does not look
like an open one. -/
def HeaderGives (state header : CborState) (count : BitVec 32) : Prop :=
  (Indeterminate input state ∧ count = indetLenElemCount ∧
    header = { state with payload := state.payload + 1 }) ∨
  (¬ Indeterminate input state ∧ uint32Decode input state = (some count, header) ∧
    ¬ IndetLen count)

theorem headerDecode_some_iff (expMajorType : UInt8) (state header : CborState)
    (count : BitVec 32) :
    headerDecode input expMajorType state = (some count, header) ↔
      majorType (input.byte state.payload) = expMajorType ∧
        HeaderGives input state header count := by
  rw [headerDecode, HeaderGives, Indeterminate]
  by_cases other : majorType (input.byte state.payload) ≠ expMajorType
  · rw [if_pos other]
    simp only [Prod.mk.injEq, reduceCtorEq, false_and, false_iff, not_and]
    exact fun same => absurd same other
  rw [if_neg other, not_not.mp other]
  by_cases isOpen : additional (input.byte state.payload) = 0x1F
  · rw [if_pos isOpen]
    simp only [isOpen, Prod.mk.injEq, Option.some.injEq, not_true, false_and, or_false, true_and]
    exact and_congr eq_comm eq_comm
  rw [if_neg isOpen]
  simp only [isOpen, false_and, false_or, not_false_eq_true, true_and]
  cases decoded : uint32Decode input state with
  | mk result after =>
    cases result with
    | none => simp only [Prod.mk.injEq, reduceCtorEq, false_and]
    | some number =>
      by_cases collides : IndetLen number
      · simp only [if_pos collides, Prod.mk.injEq, reduceCtorEq, false_and, Option.some.injEq,
          false_iff, not_and, not_not]
        rintro ⟨rfl, _⟩
        exact collides
      · simp only [if_neg collides, Prod.mk.injEq, Option.some.injEq]
        refine ⟨fun same => ⟨same, same.1 ▸ collides⟩, fun both => both.1⟩

theorem headerGives_backups (state header : CborState) (count : BitVec 32)
    (gives : HeaderGives input state header count) : header.backups = state.backups := by
  rcases gives with ⟨_, _, rfl⟩ | ⟨_, decoded, _⟩
  · rfl
  · exact (uint32Decode_taken input state header count decoded).backups

theorem headerGives_payloadEnd (state header : CborState) (count : BitVec 32)
    (gives : HeaderGives input state header count) : header.payloadEnd = state.payloadEnd := by
  rcases gives with ⟨_, _, rfl⟩ | ⟨_, decoded, _⟩
  · rfl
  · exact (uint32Decode_taken input state header count decoded).payloadEnd

theorem headerDecode_backups (expMajorType : UInt8) (state : CborState) :
    (headerDecode input expMajorType state).2.backups = state.backups := by
  cases decoded : headerDecode input expMajorType state with
  | mk result after =>
    cases result with
    | none => exact (headerDecode_none input expMajorType state after decoded).backups
    | some count =>
      exact headerGives_backups input state after count
        ((headerDecode_some_iff input expMajorType state after count).mp decoded).2

theorem takeElement_backups (resultLen skip : Nat) (state : CborState) :
    (takeElement input resultLen skip state).2.backups = state.backups := by
  unfold takeElement
  cases extracted : valueExtract input resultLen state with
  | mk result after =>
    cases result with
    | none => exact (valueExtract_refused input resultLen state after extracted).backups
    | some value => exact (valueExtract_taken input resultLen value state after extracted).backups

theorem arrayEndExpect_backups (state : CborState) :
    (arrayEndExpect input state).2.backups = state.backups := by
  unfold arrayEndExpect
  split
  · rfl
  · split <;> rfl

theorem mapElemCount_backups (state : CborState) :
    (mapElemCount state).2.backups = state.backups := by
  unfold mapElemCount
  split
  · rfl
  · split <;> rfl

end State

/-! ### The model -/

namespace CborStack

variable {capacity : Nat}

def onLive (stack : CborStack capacity) (decode : CborState → Bool × CborState) :
    Bool × CborStack capacity :=
  ((decode stack.live).1, ⟨(decode stack.live).2, stack.saved⟩)

/-- Read the header, and save the state behind it. -/
def listMapStartDecode (input : CborInput) (expMajorType : UInt8) (stack : CborStack capacity) :
    Bool × CborStack capacity :=
  match headerDecode input expMajorType stack.live with
  | (none, live) => (false, ⟨live, stack.saved⟩)
  | (some newElemCount, live) => CborStack.newBackup ⟨live, stack.saved⟩ newElemCount

def mapStartDecode (input : CborInput) (stack : CborStack capacity) : Bool × CborStack capacity :=
  match stack.listMapStartDecode input majorTypeMap with
  | (true, started) => started.onLive mapElemCount
  | (false, failed) => (false, failed)

def startDecode (input : CborInput) (stack : CborStack capacity) :
    ContainerKind → Bool × CborStack capacity
  | .list => stack.listMapStartDecode input majorTypeList
  | .map => stack.mapStartDecode input

/-- Go back to the saved state, at the position behind the content. -/
def listMapEndDecode (input : CborInput) (stack : CborStack capacity) :
    Bool × CborStack capacity :=
  let flags := flagRestore ||| flagConsume ||| flagTransferPayload
  if IndetLen stack.live.elemCount then
    match arrayEndExpect input stack.live with
    | (false, live) => (false, ⟨live, stack.saved⟩)
    | (true, live) => CborStack.processBackup ⟨live, stack.saved⟩ flags 0xFFFFFFFF
  else stack.processBackup flags 0

def event (input : CborInput) (stack : CborStack capacity) : CborEvent → Bool × CborStack capacity
  | .start kind => stack.startDecode input kind
  | .stop => stack.listMapEndDecode input
  | .element resultLen skip => stack.onLive (takeElement input resultLen skip)
  | .other payload payloadBak payloadEnd elemCount =>
    stack.call (.decode payload payloadBak payloadEnd elemCount)

def succeed (input : CborInput) (stack : CborStack capacity) (event : CborEvent) :
    Option (CborStack capacity) :=
  if (stack.event input event).1 then some (stack.event input event).2 else none

end CborStack

/-! ### The array follows the model -/

section Represents

variable {stateArray : Nat → CborState} {nStates : Nat} {states : CborStates}
  {stack : CborStack (nStates - 2)}

theorem Represents.onLive_eq (represents : Represents stateArray nStates states stack)
    (nonempty : 1 ≤ nStates) (decode : CborState → Bool × CborState)
    (backups : ∀ state, (decode state).2.backups = state.backups) :
    ∃ after, onLive states decode = some ((stack.onLive decode).1, after) ∧
      Represents stateArray nStates after (stack.onLive decode).2 := by
  refine ⟨_, ?_, represents.setLive nonempty (decode stack.live).2
    ((backups stack.live).trans represents.livePointer)⟩
  rw [onLive, CborStates.stateAt_of_slot _ _ _ represents.live]
  rfl

theorem Represents.listMapStartDecode_eq (represents : Represents stateArray nStates states stack)
    (nonempty : 1 ≤ nStates) (input : CborInput) (expMajorType : UInt8) :
    ∃ after, listMapStartDecode input expMajorType states =
        some ((stack.listMapStartDecode input expMajorType).1, after) ∧
      Represents stateArray nStates after (stack.listMapStartDecode input expMajorType).2 := by
  have backups := headerDecode_backups input expMajorType stack.live
  rw [listMapStartDecode, CborStates.stateAt_of_slot _ _ _ represents.live,
    CborStack.listMapStartDecode]
  cases header : headerDecode input expMajorType stack.live with
  | mk result live =>
    rw [header] at backups
    have moved := represents.setLive nonempty live (backups.trans represents.livePointer)
    simp only [Option.bind_eq_bind, Option.bind_some, header]
    cases result with
    | none => exact ⟨_, rfl, moved⟩
    | some newElemCount => exact moved.newBackup_eq newElemCount

theorem Represents.mapStartDecode_eq (represents : Represents stateArray nStates states stack)
    (nonempty : 1 ≤ nStates) (input : CborInput) :
    ∃ after, mapStartDecode input states = some ((stack.mapStartDecode input).1, after) ∧
      Represents stateArray nStates after (stack.mapStartDecode input).2 := by
  obtain ⟨started, starts, startedRepresents⟩ :=
    represents.listMapStartDecode_eq nonempty input majorTypeMap
  rw [mapStartDecode, starts, CborStack.mapStartDecode]
  cases outcome : stack.listMapStartDecode input majorTypeMap with
  | mk ret next =>
    rw [outcome] at startedRepresents
    cases ret with
    | false => exact ⟨started, rfl, startedRepresents⟩
    | true => exact startedRepresents.onLive_eq nonempty mapElemCount mapElemCount_backups

theorem Represents.startDecode_eq (represents : Represents stateArray nStates states stack)
    (nonempty : 1 ≤ nStates) (input : CborInput) (kind : ContainerKind) :
    ∃ after, startDecode input kind states = some ((stack.startDecode input kind).1, after) ∧
      Represents stateArray nStates after (stack.startDecode input kind).2 := by
  cases kind with
  | list => exact represents.listMapStartDecode_eq nonempty input majorTypeList
  | map => exact represents.mapStartDecode_eq nonempty input

theorem Represents.listMapEndDecode_eq (represents : Represents stateArray nStates states stack)
    (nonempty : 1 ≤ nStates) (input : CborInput) :
    ∃ after, listMapEndDecode input states = some ((stack.listMapEndDecode input).1, after) ∧
      Represents stateArray nStates after (stack.listMapEndDecode input).2 := by
  have backups := arrayEndExpect_backups input stack.live
  rw [listMapEndDecode, CborStates.stateAt_of_slot _ _ _ represents.live,
    CborStack.listMapEndDecode]
  simp only [Option.bind_eq_bind, Option.bind_some]
  by_cases isOpen : IndetLen stack.live.elemCount
  · simp only [if_pos isOpen]
    cases expected : arrayEndExpect input stack.live with
    | mk result live =>
      rw [expected] at backups
      have moved := represents.setLive nonempty live (backups.trans represents.livePointer)
      cases result with
      | false => exact ⟨_, rfl, moved⟩
      | true => exact moved.processBackup_eq _ _
  · simp only [if_neg isOpen]
    exact represents.processBackup_eq _ _

/-- When a call does to the array what it does to the model, what it is known to do to the array it
does to the model. -/
theorem Represents.outcome {call : Option (Bool × CborStates)}
    {model : Bool × CborStack (nStates - 2)}
    (follows : ∃ after, call = some (model.1, after) ∧
      Represents stateArray nStates after model.2)
    (result : Bool) (after : CborStates) (runs : call = some (result, after)) :
    model = (result, model.2) ∧ Represents stateArray nStates after model.2 := by
  obtain ⟨other, otherRuns, represents⟩ := follows
  rw [runs, Option.some.injEq, Prod.mk.injEq] at otherRuns
  obtain ⟨sameResult, sameAfter⟩ := otherRuns
  exact ⟨Prod.ext sameResult.symm rfl, sameAfter ▸ represents⟩

/-- Every step of a decoder does to the array what it does to the model. -/
theorem Represents.event_eq (represents : Represents stateArray nStates states stack)
    (nonempty : 1 ≤ nStates) (input : CborInput) (event : CborEvent) :
    ∃ after, event.run input states = some ((stack.event input event).1, after) ∧
      Represents stateArray nStates after (stack.event input event).2 := by
  cases event with
  | start kind => exact represents.startDecode_eq nonempty input kind
  | stop => exact represents.listMapEndDecode_eq nonempty input
  | element resultLen skip =>
    exact represents.onLive_eq nonempty _ (takeElement_backups input resultLen skip)
  | other payload payloadBak payloadEnd elemCount =>
    exact represents.run_eq nonempty (.decode payload payloadBak payloadEnd elemCount)

theorem Represents.succeed_eq (represents : Represents stateArray nStates states stack)
    (nonempty : 1 ≤ nStates) (input : CborInput) (event : CborEvent) (next : CborStates)
    (succeeds : succeed input states event = some next) :
    ∃ nextStack, stack.succeed input event = some nextStack ∧
      Represents stateArray nStates next nextStack := by
  obtain ⟨after, runs, afterRepresents⟩ := represents.event_eq nonempty input event
  rw [succeed, runs] at succeeds
  rw [CborStack.succeed]
  by_cases result : (stack.event input event).1 = true
  · simp only [Option.bind_eq_bind, Option.bind_some, if_pos result] at succeeds
    cases succeeds
    exact ⟨_, if_pos result, afterRepresents⟩
  · simp only [Option.bind_eq_bind, Option.bind_some, if_neg result] at succeeds
    cases succeeds

/-- The model follows every run of steps that succeed. -/
theorem Represents.runEvents_eq (represents : Represents stateArray nStates states stack)
    (nonempty : 1 ≤ nStates) (input : CborInput) (events : List CborEvent) (finish : CborStates)
    (run : runEvents input states events = some finish) :
    ∃ finishStack, events.foldlM (CborStack.succeed input) stack = some finishStack ∧
      Represents stateArray nStates finish finishStack :=
  PartialRun.simulates (succeed input) (CborStack.succeed input) (Represents stateArray nStates)
    (fun _ _ event next represents succeeds =>
      represents.succeed_eq nonempty input event next succeeds)
    events states finish stack represents run

end Represents

end McubootPort

/-
This file models the patched `serial_recovery_cbor.c`, the decoder of an upload
request, and proves which requests it accepts and what it makes of them.

A request is a map of at most five members, and each member is one of five
alternatives with a key and a value. An alternative that fails may have read
anything, so each one starts from a backup of the live state, and the map itself
holds another backup. What the decoder should read is a matter of positions in
the payload alone: an ordered choice for a member, and a greedy row of them for
the map. The theorems below say that the array of four states, its backups and
its counters come to exactly that.
-/

import McubootPort.CborContainers
import McubootPort.Library.Readers
import Mathlib.Algebra.Ring.Nat

namespace McubootPort

/-! ### How many elements a counter still gives -/

/-- The elements that can be taken from a counter. -/
def remaining (elemCount : BitVec 32) : Nat := elemCount.toNat % 2 ^ 31

theorem hasElement_iff (elemCount : BitVec 32) :
    HasElement elemCount ↔ 0 < remaining elemCount := by
  have below := elemCount.isLt
  rw [HasElement, remaining, ne_eq, ne_eq, ← BitVec.toNat_inj, ← BitVec.toNat_inj]
  show ¬ elemCount.toNat = 0 ∧ ¬ elemCount.toNat = 2 ^ 31 ↔ 0 < elemCount.toNat % 2 ^ 31
  omega

theorem remaining_pred (elemCount : BitVec 32) (more : HasElement elemCount) :
    remaining (elemCount - 1) + 1 = remaining elemCount := by
  have positive := (hasElement_iff elemCount).mp more
  have less := toNat_pred elemCount more
  rw [remaining] at positive ⊢
  rw [remaining]
  omega

theorem remaining_definite (elemCount : BitVec 32) (definite : ¬ IndetLen elemCount) :
    remaining elemCount = elemCount.toNat := by
  rw [indetLen_iff] at definite
  exact Nat.mod_eq_of_lt (by omega)

/-! ### The decoders of single items -/

/-- A decoder of one item, of which the patch shows no line. What stands at a position of a payload
is a matter of the payload alone. An item that is there takes one element, if there is one left, and
moves the live state behind it. -/
structure CborItem (Value : Type) where
  read : Nat → Reader Nat Value
  decode : CborState → Option Value × CborState
  forward : ∀ payloadEnd position value next, read payloadEnd position = some (value, next) →
    position < next ∧ next ≤ payloadEnd
  taken : ∀ state value next, HasElement state.elemCount →
    read state.payloadEnd state.payload = some (value, next) →
    (decode state).1 = some value ∧ (decode state).2.payload = next ∧
      (decode state).2.elemCount = state.elemCount - 1
  refused : ∀ state, ¬ HasElement state.elemCount ∨ read state.payloadEnd state.payload = none →
    (decode state).1 = none
  keeps : ∀ state, (decode state).2.payloadEnd = state.payloadEnd ∧
    (decode state).2.backups = state.backups

/-- `cbor_string_type_t`: the position of a string and its length. -/
structure CborString where
  value : Nat
  len : Nat
deriving DecidableEq

/-- What the decoder of a request takes from `cbor_decode.c`. When an element of `multi_decode`
fails, the live state goes back to where the element started. -/
structure UploadItems where
  tstrxExpect : List Char → CborItem Unit
  intx32Decode : CborItem (BitVec 32)
  bstrxDecode : CborItem CborString
  giveUp : CborState → CborState → CborState
  gaveUp : ∀ before failed, (giveUp before failed).payload = before.payload ∧
    (giveUp before failed).payloadEnd = failed.payloadEnd ∧
    (giveUp before failed).elemCount = before.elemCount ∧
    (giveUp before failed).backups = failed.backups

/-! ### The decoder of a request -/

/-- A function that takes the array of states and a place for a value. -/
abbrev CborDecoder (Value : Type) := CborStates → Option (Option Value × CborStates)

def CborItem.decoder {Value : Type} (item : CborItem Value) : CborDecoder Value := fun states => do
  let state ← states.stateAt 0
  return ((item.decode state).1, states.set 0 (.state (item.decode state).2))

/-- `struct Member_`: the choice, and the part of the union that it stands for. -/
inductive Member
  | image (value : BitVec 32)
  | data (value : CborString)
  | len (value : BitVec 32)
  | off (value : BitVec 32)
  | sha (value : CborString)
deriving DecidableEq

/-- An alternative of a member: its key, its value, and the choice that is set when both are
there. -/
def alternative {Value : Type} (key : CborItem Unit) (value : CborItem Value)
    (choose : Value → Member) : CborDecoder Member := fun states => do
  match ← key.decoder states with
  | (none, states) => return (none, states)
  | (some _, states) =>
    let (result, states) ← value.decoder states
    return (result.map choose, states)

section Members

variable (items : UploadItems)

def memberImage : CborDecoder Member :=
  alternative (items.tstrxExpect ['i', 'm', 'a', 'g', 'e']) items.intx32Decode .image

def memberData : CborDecoder Member :=
  alternative (items.tstrxExpect ['d', 'a', 't', 'a']) items.bstrxDecode .data

def memberLen : CborDecoder Member :=
  alternative (items.tstrxExpect ['l', 'e', 'n']) items.intx32Decode .len

def memberOff : CborDecoder Member :=
  alternative (items.tstrxExpect ['o', 'f', 'f']) items.intx32Decode .off

def memberSha : CborDecoder Member :=
  alternative (items.tstrxExpect ['s', 'h', 'a']) items.bstrxDecode .sha

/-- The alternatives behind the first: each goes back to the backup before it starts. -/
def laterAlternatives {Value : Type} : List (CborDecoder Value) → CborDecoder Value
  | [], states => return (none, states)
  | decode :: rest, states => do
    let (restored, states) ← unionElemCode states
    if restored then
      match ← decode states with
      | (some value, states) => return (some value, states)
      | (none, states) => laterAlternatives rest states
    else laterAlternatives rest states

/-- All alternatives, of which the first starts where it is. -/
def alternatives {Value : Type} (first : CborDecoder Value) (rest : List (CborDecoder Value)) :
    CborDecoder Value := fun states => do
  match ← first states with
  | (some value, states) => return (some value, states)
  | (none, states) => laterAlternatives rest states

/-- A union of alternatives, from `union_start_code` to `union_end_code`. -/
def unionDecode {Value : Type} (first : CborDecoder Value) (rest : List (CborDecoder Value)) :
    CborDecoder Value := fun states => do
  let (started, states) ← unionStartCode states
  if started then
    let (result, states) ← alternatives first rest states
    let (_, states) ← unionEndCode states
    return (result, states)
  else return (none, states)

/-- `decode_Member`. -/
def decodeMember : CborDecoder Member :=
  unionDecode (memberImage items)
    [memberData items, memberLen items, memberOff items, memberSha items]

/-- `decode_repeated_Upload_members`. -/
def decodeRepeatedUploadMembers : CborDecoder Member := decodeMember items

/-- `multi_decode`: the elements found so far, and how many more there may be. -/
def multiDecodeLoop {Value : Type} (minDecode : Nat) (decode : CborDecoder Value)
    (giveUp : CborState → CborState → CborState) :
    Nat → List Value → CborStates → Option (Option (List Value) × CborStates)
  | 0, found, states => return (some found, states)
  | left + 1, found, states => do
    let before ← states.stateAt 0
    match ← decode states with
    | (some value, states) => multiDecodeLoop minDecode decode giveUp left (found ++ [value]) states
    | (none, states) =>
      let failed ← states.stateAt 0
      let states := states.set 0 (.state (giveUp before failed))
      return (if found.length < minDecode then none else some found, states)

def multiDecode {Value : Type} (minDecode maxDecode : Nat) (decode : CborDecoder Value)
    (giveUp : CborState → CborState → CborState) : CborDecoder (List Value) :=
  multiDecodeLoop minDecode decode giveUp maxDecode []

/-- `decode_Upload`. The map is closed whether or not its members were there. -/
def decodeUpload (input : CborInput) : CborDecoder (List Member) := fun states => do
  let (started, states) ← mapStartDecode input states
  if started then
    let (result, states) ← multiDecode 1 5 (decodeRepeatedUploadMembers items) items.giveUp states
    let (ended, states) ← listMapEndDecode input states
    return (if ended then result else none, states)
  else return (none, states)

/-- The body of `cbor_decode_Upload`, with an array of any length: the members, and the value of
`payload_len_out`. -/
def decodeUploadIn (input : CborInput) (nStates : Nat) (stateArray : Nat → CborState)
    (payload payloadLen : Nat) : Option (Option (List Member × Nat)) := do
  let (ret, states) ←
    decodeUpload items input (newState stateArray nStates payload payloadLen 1)
  let state ← states.stateAt 0
  return ret.map fun members => (members, min payloadLen (state.payload - payload))

/-- `cbor_decode_Upload`, on an array of four states with any contents. -/
def cborDecodeUpload (input : CborInput) (stateArray : Nat → CborState)
    (payload payloadLen : Nat) : Option (Option (List Member × Nat)) :=
  decodeUploadIn items input 4 stateArray payload payloadLen

end Members

/-! ### What there is to read -/

/-- A key and the value behind it. -/
def alternativeReader {Value : Type} (key : CborItem Unit) (value : CborItem Value)
    (choose : Value → Member) (payloadEnd : Nat) : Reader Nat Member :=
  Reader.map choose (Reader.after (key.read payloadEnd) (value.read payloadEnd))

/-- The five alternatives of a member, in their order. -/
def memberReaders (items : UploadItems) (payloadEnd : Nat) : List (Reader Nat Member) :=
  [alternativeReader (items.tstrxExpect ['i', 'm', 'a', 'g', 'e']) items.intx32Decode .image
      payloadEnd,
    alternativeReader (items.tstrxExpect ['d', 'a', 't', 'a']) items.bstrxDecode .data payloadEnd,
    alternativeReader (items.tstrxExpect ['l', 'e', 'n']) items.intx32Decode .len payloadEnd,
    alternativeReader (items.tstrxExpect ['o', 'f', 'f']) items.intx32Decode .off payloadEnd,
    alternativeReader (items.tstrxExpect ['s', 'h', 'a']) items.bstrxDecode .sha payloadEnd]

/-- A member is the first alternative that is there. -/
def memberReader (items : UploadItems) (payloadEnd : Nat) : Reader Nat Member :=
  Reader.choice (memberReaders items payloadEnd)

/-! ### A decoder reads -/

/-- What a decoder does to the live state when it reads what stands at its position, which takes
some elements. -/
structure Outcome {Value : Type} (count : Nat) (read : Reader Nat Value) (before : CborState)
    (result : Option Value) (after : CborState) : Prop where
  payloadEnd : after.payloadEnd = before.payloadEnd
  finds : count ≤ remaining before.elemCount → ∀ value next,
    read before.payload = some (value, next) →
    result = some value ∧ after.payload = next ∧
      remaining after.elemCount + count = remaining before.elemCount ∧
      (IndetLen after.elemCount ↔ IndetLen before.elemCount)
  misses : remaining before.elemCount < count ∨ read before.payload = none → result = none

/-- A decoder that reads what stands at its position and leaves the saved states as they are. It
needs room for some backups while it runs. -/
def Decodes {Value : Type} (stateArray : Nat → CborState) (nStates payloadEnd depth count : Nat)
    (read : Reader Nat Value) (decode : CborDecoder Value) : Prop :=
  ∀ states (stack : CborStack (nStates - 2)), Represents stateArray nStates states stack →
    stack.live.payloadEnd = payloadEnd → stack.saved.height + depth ≤ nStates - 2 →
    ∃ result after live, decode states = some (result, after) ∧
      Represents stateArray nStates after ⟨live, stack.saved⟩ ∧
      Outcome count read stack.live result live

section Decodes

variable {Value : Type} {stateArray : Nat → CborState} {nStates payloadEnd depth count : Nat}

theorem Outcome.refused {read : Reader Nat Value} {before after : CborState}
    (keeps : after.payloadEnd = before.payloadEnd)
    (refuses : remaining before.elemCount < count ∨ read before.payload = none) :
    Outcome count read before none after where
  payloadEnd := keeps
  finds enough value next found := by
    rcases refuses with few | missing
    · exact absurd enough (Nat.not_le.mpr few)
    · rw [missing] at found
      cases found
  misses _ := rfl

/-- A choice whose first reader gave something. -/
theorem Outcome.choice_some {read : Reader Nat Value} {before after : CborState} {value : Value}
    (outcome : Outcome count read before (some value) after) (readers : List (Reader Nat Value)) :
    Outcome count (Reader.choice (read :: readers)) before (some value) after where
  payloadEnd := outcome.payloadEnd
  finds enough other next found := by
    rw [Reader.choice_cons] at found
    cases here : read before.payload with
    | none =>
      have gives := outcome.misses (Or.inr here)
      cases gives
    | some reads =>
      rw [here, Option.some_or] at found
      exact outcome.finds enough other next (here.trans found)
  misses refuses := by
    refine outcome.misses (refuses.imp_right fun missing => ?_)
    rw [Reader.choice_cons, Option.or_eq_none_iff] at missing
    exact missing.1

/-- A choice whose first reader gave nothing. -/
theorem Outcome.choice_none {read : Reader Nat Value} {before failed after : CborState}
    {readers : List (Reader Nat Value)} {result : Option Value}
    (first : Outcome count read before none failed)
    (rest : Outcome count (Reader.choice readers) before result after) :
    Outcome count (Reader.choice (read :: readers)) before result after where
  payloadEnd := rest.payloadEnd
  finds enough value next found := by
    cases here : read before.payload with
    | none =>
      rw [Reader.choice_cons, here, Option.none_or] at found
      exact rest.finds enough value next found
    | some reads =>
      have gives := (first.finds enough reads.1 reads.2 here).1
      cases gives
  misses refuses := by
    refine rest.misses (refuses.imp_right fun missing => ?_)
    rw [Reader.choice_cons, Option.or_eq_none_iff] at missing
    exact missing.2

theorem outcome_item (item : CborItem Value) (state : CborState) :
    Outcome 1 (item.read state.payloadEnd) state (item.decode state).1 (item.decode state).2 where
  payloadEnd := (item.keeps state).1
  finds enough value next found := by
    have more := (hasElement_iff state.elemCount).mpr enough
    obtain ⟨result, payload, elemCount⟩ := item.taken state value next more found
    rw [elemCount]
    exact ⟨result, payload, remaining_pred state.elemCount more,
      indetLen_pred state.elemCount more⟩
  misses refuses := by
    refine item.refused state (refuses.imp_left fun few more => ?_)
    exact absurd ((hasElement_iff state.elemCount).mp more) (Nat.not_lt.mpr (Nat.le_of_lt_succ few))

theorem decodes_item (nonempty : 1 ≤ nStates) (item : CborItem Value) :
    Decodes stateArray nStates payloadEnd 0 1 (item.read payloadEnd) item.decoder := by
  intro states stack represents ends _
  refine ⟨(item.decode stack.live).1, _, (item.decode stack.live).2, ?_,
    represents.setLive nonempty _ ((item.keeps stack.live).2.trans represents.livePointer), ?_⟩
  · rw [CborItem.decoder, CborStates.stateAt_of_slot _ _ _ represents.live]
    rfl
  · rw [← ends]
    exact outcome_item item stack.live

/-- An alternative takes two elements. -/
theorem decodes_alternative (nonempty : 1 ≤ nStates) (key : CborItem Unit) (value : CborItem Value)
    (choose : Value → Member) :
    Decodes stateArray nStates payloadEnd 0 2 (alternativeReader key value choose payloadEnd)
      (alternative key value choose) := by
  have keyDecodes : Decodes stateArray nStates payloadEnd 0 1 (key.read payloadEnd) key.decoder :=
    decodes_item nonempty key
  have valueDecodes : Decodes stateArray nStates payloadEnd 0 1 (value.read payloadEnd)
      value.decoder := decodes_item nonempty value
  intro states stack represents ends room
  obtain ⟨found, middle, live, keyRuns, keyRepresents, keyOutcome⟩ :=
    keyDecodes states stack represents ends room
  simp only [alternative, keyRuns, Option.bind_eq_bind, Option.bind_some]
  cases found with
  | none =>
    refine ⟨none, middle, live, rfl, keyRepresents, .refused keyOutcome.payloadEnd ?_⟩
    cases here : key.read payloadEnd stack.live.payload with
    | none =>
      refine Or.inr ?_
      simp only [alternativeReader, Reader.map, Reader.after, here, Option.bind_none,
        Option.map_none]
    | some reads =>
      refine Or.inl (Nat.lt_of_not_le fun enough => ?_)
      have result := (keyOutcome.finds (Nat.le_of_succ_le enough) _ _ here).1
      cases result
  | some _ =>
    have enough : 1 ≤ remaining stack.live.elemCount := by
      by_contra few
      have result := keyOutcome.misses (Or.inl (Nat.lt_of_not_le few))
      cases result
    obtain ⟨other, next, here⟩ : ∃ other next,
        key.read payloadEnd stack.live.payload = some (other, next) := by
      cases reads : key.read payloadEnd stack.live.payload with
      | none =>
        have result := keyOutcome.misses (Or.inr reads)
        cases result
      | some pair => exact ⟨pair.1, pair.2, rfl⟩
    obtain ⟨_, payload, elements, isOpen⟩ := keyOutcome.finds enough other next here
    obtain ⟨result, after, last, valueRuns, valueRepresents, outcome⟩ :=
      valueDecodes middle ⟨live, stack.saved⟩ keyRepresents (keyOutcome.payloadEnd.trans ends) room
    have reads : alternativeReader key value choose payloadEnd stack.live.payload =
        (value.read payloadEnd live.payload).map fun found => (choose found.1, found.2) := by
      simp only [alternativeReader, Reader.map, Reader.after, here, Option.bind_some, payload]
    simp only [valueRuns, Option.bind_some]
    refine ⟨result.map choose, after, last, rfl, valueRepresents, ?_⟩
    exact
      { payloadEnd := outcome.payloadEnd.trans keyOutcome.payloadEnd
        finds := fun more member behind found => by
          rw [reads, Option.map_eq_some_iff] at found
          obtain ⟨⟨content, position⟩, contentThere, same⟩ := found
          rw [Prod.mk.injEq] at same
          have fits : 1 ≤ remaining live.elemCount := by omega
          obtain ⟨gives, moves, counted, stays⟩ := outcome.finds fits content position contentThere
          refine ⟨by rw [gives, ← same.1]; rfl, moves.trans same.2, ?_, stays.trans isOpen⟩
          have less : remaining last.elemCount + 1 = remaining live.elemCount := counted
          omega
        misses := fun refuses => by
          rw [outcome.misses ?_]
          · rfl
          · rcases refuses with few | missing
            · refine Or.inl ?_
              show remaining live.elemCount < 1
              omega
            · rw [reads, Option.map_eq_none_iff] at missing
              exact Or.inr missing }

/-- What stands in a row of alternatives, when the first of the saved states is where all of them
start. -/
theorem decodes_laterAlternatives (nonempty : 1 ≤ nStates) (decoders : List (CborDecoder Value))
    (readers : List (Reader Nat Value))
    (each : List.Forall₂ (fun decode read =>
      Decodes stateArray nStates payloadEnd depth count read decode) decoders readers)
    (states : CborStates) (stack : CborStack (nStates - 2)) (start : CborState)
    (older : List CborState) (represents : Represents stateArray nStates states stack)
    (items : stack.saved.items = start :: older) (ends : start.payloadEnd = payloadEnd)
    (liveEnds : stack.live.payloadEnd = payloadEnd)
    (room : stack.saved.height + depth ≤ nStates - 2) :
    ∃ result after live, laterAlternatives decoders states = some (result, after) ∧
      Represents stateArray nStates after ⟨live, stack.saved⟩ ∧
      Outcome count (Reader.choice readers) start result live := by
  induction each generalizing states stack with
  | nil =>
    exact ⟨none, states, stack.live, rfl, represents,
      .refused (liveEnds.trans ends.symm) (Or.inr rfl)⟩
  | @cons decode read decoders readers first rest inductionHypothesis =>
    obtain ⟨restored, restores, restoredRepresents⟩ := represents.run_eq nonempty .unionElemCode
    rw [stack.unionElem_eq start older items] at restores restoredRepresents
    obtain ⟨result, after, live, runs, afterRepresents, outcome⟩ :=
      first restored ⟨start, stack.saved⟩ restoredRepresents ends room
    have elemRuns : unionElemCode states = some (true, restored) := restores
    simp only [laterAlternatives, elemRuns, Option.bind_eq_bind, Option.bind_some, if_true, runs]
    cases result with
    | some value => exact ⟨some value, after, live, rfl, afterRepresents, outcome.choice_some _⟩
    | none =>
      obtain ⟨other, last, lastLive, lastRuns, lastRepresents, lastOutcome⟩ :=
        inductionHypothesis after ⟨live, stack.saved⟩ afterRepresents items
          (outcome.payloadEnd.trans ends) room
      exact ⟨other, last, lastLive, lastRuns, lastRepresents, outcome.choice_none lastOutcome⟩

theorem decodes_alternatives (nonempty : 1 ≤ nStates) (decode : CborDecoder Value)
    (read : Reader Nat Value) (decoders : List (CborDecoder Value))
    (readers : List (Reader Nat Value))
    (first : Decodes stateArray nStates payloadEnd depth count read decode)
    (each : List.Forall₂ (fun decode read =>
      Decodes stateArray nStates payloadEnd depth count read decode) decoders readers)
    (states : CborStates) (stack : CborStack (nStates - 2)) (older : List CborState)
    (represents : Represents stateArray nStates states stack)
    (items : stack.saved.items = stack.live :: older) (ends : stack.live.payloadEnd = payloadEnd)
    (room : stack.saved.height + depth ≤ nStates - 2) :
    ∃ result after live, alternatives decode decoders states = some (result, after) ∧
      Represents stateArray nStates after ⟨live, stack.saved⟩ ∧
      Outcome count (Reader.choice (read :: readers)) stack.live result live := by
  obtain ⟨result, middle, live, runs, middleRepresents, outcome⟩ :=
    first states stack represents ends room
  simp only [alternatives, runs, Option.bind_eq_bind, Option.bind_some]
  cases result with
  | some value =>
    exact ⟨some value, middle, live, rfl, middleRepresents, outcome.choice_some _⟩
  | none =>
    obtain ⟨other, after, last, lastRuns, lastRepresents, lastOutcome⟩ :=
      decodes_laterAlternatives nonempty decoders readers each middle ⟨live, stack.saved⟩ stack.live
        older middleRepresents items ends (outcome.payloadEnd.trans ends) room
    exact ⟨other, after, last, lastRuns, lastRepresents, outcome.choice_none lastOutcome⟩

/-- The end of a union gives up what was saved last and goes on where it is. -/
theorem CborStack.unionEnd_eq {capacity : Nat} (stack : CborStack capacity) (latest : CborState)
    (older : List CborState) (items : stack.saved.items = latest :: older) :
    stack.call .unionEndCode = (true, ⟨stack.live, stack.saved.pop⟩) := by
  rw [call, processBackup, items]
  simp only [if_neg (BitVec.lt_irrefl stack.live.elemCount)]
  rfl

/-- A union reads as an ordered choice. It needs one backup more than its alternatives. -/
theorem decodes_unionDecode (nonempty : 1 ≤ nStates) (decode : CborDecoder Value)
    (read : Reader Nat Value) (decoders : List (CborDecoder Value))
    (readers : List (Reader Nat Value))
    (first : Decodes stateArray nStates payloadEnd depth count read decode)
    (each : List.Forall₂ (fun decode read =>
      Decodes stateArray nStates payloadEnd depth count read decode) decoders readers) :
    Decodes stateArray nStates payloadEnd (depth + 1) count (Reader.choice (read :: readers))
      (unionDecode decode decoders) := by
  intro states stack represents ends room
  have space : stack.saved.height < nStates - 2 := by omega
  have deeper : stack.saved.items.length + 1 + depth ≤ nStates - 2 := by
    rw [BoundedStack.height] at room
    omega
  obtain ⟨started, starts, startedRepresents⟩ := represents.run_eq nonempty .unionStartCode
  rw [CborStack.call, stack.newBackup_room stack.live.elemCount space] at starts startedRepresents
  have startRuns : unionStartCode states = some (true, started) := starts
  obtain ⟨result, middle, live, runs, middleRepresents, outcome⟩ :=
    decodes_alternatives nonempty decode read decoders readers first each started
      ⟨stack.live, ⟨stack.live :: stack.saved.items, space⟩⟩ stack.saved.items startedRepresents
      rfl ends deeper
  obtain ⟨after, closing, afterRepresents⟩ := middleRepresents.run_eq nonempty .unionEndCode
  rw [CborStack.unionEnd_eq _ stack.live stack.saved.items rfl] at closing afterRepresents
  have endRuns : unionEndCode middle = some (true, after) := closing
  refine ⟨result, after, live, ?_, afterRepresents, outcome⟩
  simp only [unionDecode, startRuns, Option.bind_eq_bind, Option.bind_some, if_true, runs, endRuns]
  rfl

/-- A union that has no room for its backup gives nothing. -/
theorem unionDecode_full (nonempty : 1 ≤ nStates) (decode : CborDecoder Value)
    (decoders : List (CborDecoder Value)) (states : CborStates) (stack : CborStack (nStates - 2))
    (represents : Represents stateArray nStates states stack)
    (full : stack.saved.height = nStates - 2) :
    ∃ after, unionDecode decode decoders states = some (none, after) ∧
      Represents stateArray nStates after stack := by
  obtain ⟨after, starts, afterRepresents⟩ := represents.run_eq nonempty .unionStartCode
  rw [CborStack.call, stack.newBackup_full stack.live.elemCount full] at starts afterRepresents
  have startRuns : unionStartCode states = some (false, after) := starts
  refine ⟨after, ?_, afterRepresents⟩
  simp only [unionDecode, startRuns, Option.bind_eq_bind, Option.bind_some, Bool.false_eq_true,
    if_false]
  rfl

theorem decodes_decodeMember (nonempty : 1 ≤ nStates) (items : UploadItems) :
    Decodes stateArray nStates payloadEnd 1 2 (memberReader items payloadEnd)
      (decodeMember items) :=
  decodes_unionDecode nonempty _ _ _ _ (decodes_alternative nonempty _ _ _)
    (.cons (decodes_alternative nonempty _ _ _) (.cons (decodes_alternative nonempty _ _ _)
      (.cons (decodes_alternative nonempty _ _ _) (.cons (decodes_alternative nonempty _ _ _)
        .nil))))

/-- A member is decoded exactly when there is room for its backup, two elements are left, and one of
the alternatives stands at the position, of which the first counts. What the others have read does
not matter. The union leaves the saved states as they were, whatever the outcome, and a member takes
two elements. -/
theorem decodeMember_iff (items : UploadItems) {states : CborStates}
    {stack : CborStack (nStates - 2)} (represents : Represents stateArray nStates states stack)
    (nonempty : 1 ≤ nStates) :
    ∃ result after live, decodeMember items states = some (result, after) ∧
      Represents stateArray nStates after ⟨live, stack.saved⟩ ∧
      (∀ member, result = some member →
        remaining live.elemCount + 2 = remaining stack.live.elemCount) ∧
      ∀ member next, (result = some member ∧ live.payload = next) ↔
        stack.saved.height < nStates - 2 ∧ 2 ≤ remaining stack.live.elemCount ∧
          ∃ before read behind,
            memberReaders items stack.live.payloadEnd = before ++ read :: behind ∧
            read stack.live.payload = some (member, next) ∧
            ∀ other ∈ before, other stack.live.payload = none := by
  by_cases room : stack.saved.height < nStates - 2
  · obtain ⟨result, after, live, runs, afterRepresents, outcome⟩ :=
      decodes_decodeMember nonempty items states stack represents rfl room
    have decoded : ∀ member, result = some member → 2 ≤ remaining stack.live.elemCount ∧
        memberReader items stack.live.payloadEnd stack.live.payload = some (member, live.payload) ∧
        remaining live.elemCount + 2 = remaining stack.live.elemCount := by
      intro member gives
      have enough : 2 ≤ remaining stack.live.elemCount := by
        by_contra few
        have nothing := outcome.misses (Or.inl (Nat.lt_of_not_le few))
        cases gives.symm.trans nothing
      cases here : memberReader items stack.live.payloadEnd stack.live.payload with
      | none =>
        have nothing := outcome.misses (Or.inr here)
        cases gives.symm.trans nothing
      | some reads =>
        obtain ⟨found, place, counted, _⟩ := outcome.finds enough reads.1 reads.2 here
        cases gives.symm.trans found
        exact ⟨enough, by rw [place], counted⟩
    refine ⟨result, after, live, runs, afterRepresents,
      fun member gives => (decoded member gives).2.2, fun member next => ?_⟩
    constructor
    · rintro ⟨gives, rfl⟩
      obtain ⟨enough, here, _⟩ := decoded member gives
      exact ⟨room, enough, (Reader.choice_eq_some_iff _ _ _).mp here⟩
    · rintro ⟨_, enough, first⟩
      obtain ⟨gives, place, _⟩ := outcome.finds enough member next
        ((Reader.choice_eq_some_iff _ _ _).mpr first)
      exact ⟨gives, place⟩
  · have bound := stack.saved.height_le
    obtain ⟨after, runs, afterRepresents⟩ := unionDecode_full nonempty (memberImage items)
      [memberData items, memberLen items, memberOff items, memberSha items] states stack represents
      (by omega)
    exact ⟨none, after, stack.live, runs, afterRepresents, nofun,
      fun member next => ⟨nofun, fun there => absurd there.1 room⟩⟩

end Decodes

/-! ### A row of elements -/

/-- What `multi_decode` comes to: as many elements as there are in a row, as fit the counter and as
may be. When it stops early with too few of them it fails. -/
structure RowOutcome {Value : Type} (minDecode count left : Nat) (read : Reader Nat Value)
    (found : List Value) (before : CborState) (result : Option (List Value)) (after : CborState)
    (more : List Value) : Prop where
  greedy : Reader.greedy read (min left (remaining before.elemCount / count)) before.payload =
    (more, after.payload)
  payloadEnd : after.payloadEnd = before.payloadEnd
  elements : remaining after.elemCount + count * more.length = remaining before.elemCount
  isOpen : IndetLen after.elemCount ↔ IndetLen before.elemCount
  result : result =
    if more.length = left ∨ minDecode ≤ found.length + more.length then some (found ++ more)
    else none

section Row

variable {Value : Type} {stateArray : Nat → CborState} {nStates payloadEnd depth count : Nat}

/-- An element that fails ends the row where the element started. -/
theorem RowOutcome.stops {minDecode left : Nat} {read : Reader Nat Value} {found : List Value}
    {before after : CborState} (place : after.payload = before.payload)
    (elemCount : after.elemCount = before.elemCount)
    (payloadEnd : after.payloadEnd = before.payloadEnd)
    (refuses : remaining before.elemCount < count ∨ read before.payload = none) :
    RowOutcome minDecode count (left + 1) read found before
      (if found.length < minDecode then none else some found) after [] where
  greedy := by
    rw [place]
    rcases refuses with few | missing
    · rw [Nat.div_eq_of_lt few, Nat.min_zero]
      rfl
    · exact Reader.greedy_none read _ _ missing
  payloadEnd := payloadEnd
  elements := by rw [elemCount, List.length_nil, Nat.mul_zero, Nat.add_zero]
  isOpen := by rw [elemCount]
  result := by
    by_cases few : found.length < minDecode
    · have stopped : ¬ (([] : List Value).length = left + 1 ∨
          minDecode ≤ found.length + ([] : List Value).length) := by
        rw [List.length_nil]
        omega
      rw [if_pos few, if_neg stopped]
    · have reached : ([] : List Value).length = left + 1 ∨
          minDecode ≤ found.length + ([] : List Value).length :=
        Or.inr (Nat.le_of_not_lt few)
      rw [if_neg few, if_pos reached, List.append_nil]

/-- An element that is there comes before the rest of the row. -/
theorem RowOutcome.goesOn {minDecode left : Nat} {read : Reader Nat Value}
    {found more : List Value} {before middle after : CborState} {value : Value}
    {result : Option (List Value)} (positive : 0 < count)
    (here : read before.payload = some (value, middle.payload))
    (payloadEnd : middle.payloadEnd = before.payloadEnd)
    (elements : remaining middle.elemCount + count = remaining before.elemCount)
    (isOpen : IndetLen middle.elemCount ↔ IndetLen before.elemCount)
    (rest : RowOutcome minDecode count left read (found ++ [value]) middle result after more) :
    RowOutcome minDecode count (left + 1) read found before result after (value :: more) where
  greedy := by
    have quotient :
        remaining before.elemCount / count = remaining middle.elemCount / count + 1 := by
      rw [← elements, Nat.add_div_right _ positive]
    rw [quotient, Nat.succ_min_succ, Reader.greedy_some read _ _ _ _ here, rest.greedy]
  payloadEnd := rest.payloadEnd.trans payloadEnd
  elements := by
    have counted := rest.elements
    rw [List.length_cons, Nat.mul_succ]
    omega
  isOpen := rest.isOpen.trans isOpen
  result := by
    rw [rest.result, List.length_append, List.length_cons, List.length_cons, List.length_nil,
      List.append_assoc, List.singleton_append]
    have same : (more.length = left ∨ minDecode ≤ found.length + (0 + 1) + more.length) ↔
        (more.length + 1 = left + 1 ∨ minDecode ≤ found.length + (more.length + 1)) := by omega
    simp only [same]

theorem decodes_multiDecodeLoop (nonempty : 1 ≤ nStates) (minDecode : Nat)
    (decode : CborDecoder Value) (read : Reader Nat Value) (items : UploadItems)
    (positive : 0 < count)
    (each : Decodes stateArray nStates payloadEnd depth count read decode) (left : Nat)
    (found : List Value) (states : CborStates) (stack : CborStack (nStates - 2))
    (represents : Represents stateArray nStates states stack)
    (ends : stack.live.payloadEnd = payloadEnd) (room : stack.saved.height + depth ≤ nStates - 2) :
    ∃ result after live more,
      multiDecodeLoop minDecode decode items.giveUp left found states = some (result, after) ∧
      Represents stateArray nStates after ⟨live, stack.saved⟩ ∧
      RowOutcome minDecode count left read found stack.live result live more := by
  induction left generalizing found states stack with
  | zero =>
    refine ⟨some found, states, stack.live, [], rfl, represents, ?_⟩
    exact
      { greedy := by rw [Nat.zero_min]; rfl
        payloadEnd := rfl
        elements := by rw [List.length_nil, Nat.mul_zero, Nat.add_zero]
        isOpen := Iff.rfl
        result := by
          have reached : ([] : List Value).length = 0 ∨
              minDecode ≤ found.length + ([] : List Value).length := Or.inl rfl
          rw [if_pos reached, List.append_nil] }
  | succ left inductionHypothesis =>
    obtain ⟨result, middle, live, runs, middleRepresents, outcome⟩ :=
      each states stack represents ends room
    simp only [multiDecodeLoop, CborStates.stateAt_of_slot _ _ _ represents.live,
      Option.bind_eq_bind, Option.bind_some, runs]
    cases result with
    | none =>
      obtain ⟨payload, samePayloadEnd, elemCount, backups⟩ := items.gaveUp stack.live live
      have refuses : remaining stack.live.elemCount < count ∨ read stack.live.payload = none := by
        cases here : read stack.live.payload with
        | none => exact Or.inr rfl
        | some reads =>
          refine Or.inl (Nat.lt_of_not_le fun enough => ?_)
          have gives := (outcome.finds enough reads.1 reads.2 here).1
          cases gives
      have back := middleRepresents.setLive nonempty (items.giveUp stack.live live)
        (backups.trans middleRepresents.livePointer)
      simp only [CborStates.stateAt_of_slot _ _ _ middleRepresents.live, Option.bind_some]
      exact ⟨_, _, _, [], rfl, back,
        .stops payload elemCount (samePayloadEnd.trans outcome.payloadEnd) refuses⟩
    | some value =>
      have enough : count ≤ remaining stack.live.elemCount := by
        by_contra few
        have gives := outcome.misses (Or.inl (Nat.lt_of_not_le few))
        cases gives
      obtain ⟨other, next, here⟩ : ∃ other next, read stack.live.payload = some (other, next) := by
        cases reads : read stack.live.payload with
        | none =>
          have gives := outcome.misses (Or.inr reads)
          cases gives
        | some pair => exact ⟨pair.1, pair.2, rfl⟩
      obtain ⟨gives, moves, elements, isOpen⟩ := outcome.finds enough other next here
      cases gives
      obtain ⟨final, after, last, more, loops, afterRepresents, row⟩ :=
        inductionHypothesis (found ++ [value]) middle ⟨live, stack.saved⟩ middleRepresents
          (outcome.payloadEnd.trans ends) room
      refine ⟨final, after, last, value :: more, loops, afterRepresents, ?_⟩
      exact row.goesOn positive (by rw [moves]; exact here) outcome.payloadEnd elements isOpen

end Row

/-! ### Requests -/

/-- A request at the place of a live state: a map header, and one to five members behind it. A
header that gives a number gives that of the members. Behind an open one the members go on as long
as there are any, up to five, and the byte 0xFF stands behind them. -/
inductive UploadAt (items : UploadItems) (input : CborInput) (start : CborState) :
    List Member → Nat → Prop
  | definite {header : CborState} {count : BitVec 32} {members : List Member} {next : Nat}
    (reads : headerDecode input majorTypeMap start = (some count, header))
    (isDefinite : ¬ IndetLen count)
    (chain : Reader.Chain (memberReader items start.payloadEnd) header.payload members next)
    (counts : members.length = count.toNat) (few : members.length ≤ 5)
    (nonempty : 1 ≤ members.length) : UploadAt items input start members next
  | openEnded {header : CborState} {count : BitVec 32} {members : List Member} {next : Nat}
    (reads : headerDecode input majorTypeMap start = (some count, header))
    (isOpen : IndetLen count)
    (chain : Reader.Chain (memberReader items start.payloadEnd) header.payload members next)
    (stops : members.length < 5 → memberReader items start.payloadEnd next = none)
    (few : members.length ≤ 5) (nonempty : 1 ≤ members.length) (inside : next < start.payloadEnd)
    (closed : input.byte next = 0xFF) : UploadAt items input start members (next + 1)

section Upload

variable (items : UploadItems) (input : CborInput)

theorem UploadAt.reads {start : CborState} {members : List Member} {behind : Nat}
    (upload : UploadAt items input start members behind) :
    ∃ count header, headerDecode input majorTypeMap start = (some count, header) ∧
      ¬ DoublesPast count := by
  cases upload with
  | definite reads isDefinite chain counts few nonempty =>
    refine ⟨_, _, reads, fun past => ?_⟩
    have large := past.1
    omega
  | openEnded reads isOpen chain stops few nonempty inside closed =>
    exact ⟨_, _, reads, fun past =>
      Nat.not_le.mpr past.2 ((indetLen_iff _).mp isOpen)⟩

/-- Every member ends inside the payload. -/
theorem memberReader_le {payloadEnd position next : Nat} {member : Member}
    (found : memberReader items payloadEnd position = some (member, next)) : next ≤ payloadEnd := by
  obtain ⟨before, read, behind, split, finds, _⟩ :=
    (Reader.choice_eq_some_iff _ _ _).mp found
  have one : read ∈ memberReaders items payloadEnd := by
    rw [split]
    exact List.mem_append_right _ (List.mem_cons_self ..)
  have ends : ∀ {Value : Type} (key : CborItem Unit) (value : CborItem Value)
      (choose : Value → Member), alternativeReader key value choose payloadEnd position =
        some (member, next) → next ≤ payloadEnd := by
    intro Value key value choose reads
    rw [alternativeReader, Reader.map, Option.map_eq_some_iff] at reads
    obtain ⟨⟨content, last⟩, here, same⟩ := reads
    obtain ⟨⟨other, middle⟩, _, there⟩ := Option.bind_eq_some_iff.mp here
    cases same
    exact (value.forward payloadEnd middle content last there).2
  simp only [memberReaders, List.mem_cons, List.not_mem_nil, or_false] at one
  rcases one with rfl | rfl | rfl | rfl | rfl <;> exact ends _ _ _ finds

theorem UploadAt.inside {start : CborState} {members : List Member} {behind : Nat}
    (upload : UploadAt items input start members behind) : behind ≤ start.payloadEnd := by
  cases upload with
  | definite reads isDefinite chain counts few nonempty =>
    obtain ⟨before, value, last⟩ := chain.last_mem (List.ne_nil_of_length_pos nonempty)
    exact memberReader_le items last
  | openEnded reads isOpen chain stops few nonempty inside closed => exact inside

/-- The row behind a header that gives a number, when the counter is used up at its end. -/
theorem RowOutcome.definite_iff {read : Reader Nat Member} {before after : CborState}
    {result : Option (List Member)} {more members : List Member} {count next : Nat}
    (row : RowOutcome 1 2 5 read [] before result after more)
    (elements : remaining before.elemCount = 2 * count) (definite : ¬ IndetLen before.elemCount) :
    (result = some members ∧ after.elemCount = 0 ∧ after.payload = next) ↔
      Reader.Chain read before.payload members next ∧ members.length = count ∧
        members.length ≤ 5 ∧ 1 ≤ members.length := by
  have greedy := row.greedy
  have taken := row.elements
  have given := row.result
  rw [elements, Nat.mul_div_cancel_left count (by decide)] at greedy
  have chain := Reader.chain_greedy read (min 5 count) before.payload
  have short := Reader.length_greedy_le read (min 5 count) before.payload
  rw [greedy] at chain short
  dsimp only at chain short
  have used : after.elemCount = 0 ↔ remaining after.elemCount = 0 := by
    rw [remaining_definite _ (fun isOpen => definite (row.isOpen.mp isOpen)), ← BitVec.toNat_inj]
    rfl
  rw [used]
  constructor
  · rintro ⟨gives, zero, rfl⟩
    have reached : more.length = 5 ∨ 1 ≤ ([] : List Member).length + more.length := by
      by_contra few
      rw [if_neg few] at given
      cases given.symm.trans gives
    rw [if_pos reached, List.nil_append] at given
    cases given.symm.trans gives
    rw [List.length_nil] at reached
    exact ⟨chain, by omega, by omega, by omega⟩
  · rintro ⟨there, counts, few, nonempty⟩
    have only := Reader.greedy_eq_of_chain read there (min 5 count) (by omega)
      (fun less => by omega)
    rw [greedy, Prod.mk.injEq] at only
    obtain ⟨rfl, place⟩ := only
    have reached : more.length = 5 ∨ 1 ≤ ([] : List Member).length + more.length :=
      Or.inr (by rw [List.length_nil]; omega)
    rw [if_pos reached, List.nil_append] at given
    exact ⟨given, by omega, place⟩

/-- The row behind an open header. -/
theorem RowOutcome.open_iff {read : Reader Nat Member} {before after : CborState}
    {result : Option (List Member)} {more members : List Member} {next : Nat}
    (row : RowOutcome 1 2 5 read [] before result after more)
    (elements : 10 ≤ remaining before.elemCount) :
    (result = some members ∧ after.payload = next) ↔
      Reader.Chain read before.payload members next ∧
        (members.length < 5 → read next = none) ∧ members.length ≤ 5 ∧ 1 ≤ members.length := by
  have enough : min 5 (remaining before.elemCount / 2) = 5 := by omega
  have greedy := row.greedy
  have given := row.result
  rw [enough] at greedy
  have chain := Reader.chain_greedy read 5 before.payload
  have short := Reader.length_greedy_le read 5 before.payload
  have stops := Reader.greedy_stops read 5 before.payload
  rw [greedy] at chain short stops
  dsimp only at chain short stops
  constructor
  · rintro ⟨gives, rfl⟩
    have reached : more.length = 5 ∨ 1 ≤ ([] : List Member).length + more.length := by
      by_contra few
      rw [if_neg few] at given
      cases given.symm.trans gives
    rw [if_pos reached, List.nil_append] at given
    cases given.symm.trans gives
    rw [List.length_nil] at reached
    exact ⟨chain, stops, short, by omega⟩
  · rintro ⟨there, ends, few, nonempty⟩
    have only := Reader.greedy_eq_of_chain read there 5 few ends
    rw [greedy, Prod.mk.injEq] at only
    obtain ⟨rfl, place⟩ := only
    have reached : more.length = 5 ∨ 1 ≤ ([] : List Member).length + more.length :=
      Or.inr (by rw [List.length_nil]; omega)
    rw [if_pos reached, List.nil_append] at given
    exact ⟨given, place⟩

/-- A request with a given header. -/
theorem uploadAt_iff {start header : CborState} {count : BitVec 32} {members : List Member}
    {behind : Nat} (reads : headerDecode input majorTypeMap start = (some count, header)) :
    UploadAt items input start members behind ↔
      ∃ next, Reader.Chain (memberReader items start.payloadEnd) header.payload members next ∧
        members.length ≤ 5 ∧ 1 ≤ members.length ∧
        ((¬ IndetLen count ∧ members.length = count.toNat ∧ behind = next) ∨
          (IndetLen count ∧
            (members.length < 5 → memberReader items start.payloadEnd next = none) ∧
            next < start.payloadEnd ∧ input.byte next = 0xFF ∧ behind = next + 1)) := by
  constructor
  · intro upload
    cases upload with
    | definite others isDefinite chain counts few nonempty =>
      cases reads.symm.trans others
      exact ⟨behind, chain, few, nonempty, Or.inl ⟨isDefinite, counts, rfl⟩⟩
    | openEnded others isOpen chain stops few nonempty inside closed =>
      cases reads.symm.trans others
      exact ⟨_, chain, few, nonempty, Or.inr ⟨isOpen, stops, inside, closed, rfl⟩⟩
  · rintro ⟨next, chain, few, nonempty, ⟨isDefinite, counts, rfl⟩ |
      ⟨isOpen, stops, inside, closed, rfl⟩⟩
    · exact .definite reads isDefinite chain counts few nonempty
    · exact .openEnded reads isOpen chain stops few nonempty inside closed

/-- An open map gives its members when the byte 0xFF stands behind them. -/
theorem closes_open {capacity : Nat} (stack : CborStack capacity) (latest : CborState)
    (older : List CborState) (saved : stack.saved.items = latest :: older)
    (isOpen : IndetLen stack.live.elemCount) (result : Option (List Member))
    (members : List Member) (behind : Nat) :
    ((if (stack.listMapEndDecode input).1 then result else none) = some members ∧
        (stack.listMapEndDecode input).2.live.payload = behind) ↔
      ∃ next, (result = some members ∧ stack.live.payload = next) ∧
        next < stack.live.payloadEnd ∧ input.byte next = 0xFF ∧ behind = next + 1 := by
  rw [stack.listMapEndDecode_open input latest older saved isOpen]
  by_cases closed : stack.live.payload < stack.live.payloadEnd ∧
      input.byte stack.live.payload = 0xFF
  · rw [if_pos closed, if_pos rfl]
    constructor
    · rintro ⟨gives, rfl⟩
      exact ⟨_, ⟨gives, rfl⟩, closed.1, closed.2, rfl⟩
    · rintro ⟨next, ⟨gives, rfl⟩, _, _, rfl⟩
      exact ⟨gives, rfl⟩
  · rw [if_neg closed, if_neg Bool.false_ne_true]
    constructor
    · rintro ⟨gives, _⟩
      cases gives
    · rintro ⟨next, ⟨_, rfl⟩, inside, last, _⟩
      exact absurd ⟨inside, last⟩ closed

/-- A map that gave its number gives its members when the counter is used up. -/
theorem closes_definite {capacity : Nat} (stack : CborStack capacity) (latest : CborState)
    (older : List CborState) (saved : stack.saved.items = latest :: older)
    (isDefinite : ¬ IndetLen stack.live.elemCount) (result : Option (List Member))
    (members : List Member) (behind : Nat) :
    ((if (stack.listMapEndDecode input).1 then result else none) = some members ∧
        (stack.listMapEndDecode input).2.live.payload = behind) ↔
      result = some members ∧ stack.live.elemCount = 0 ∧ stack.live.payload = behind := by
  rw [stack.listMapEndDecode_definite input latest older saved isDefinite]
  by_cases used : stack.live.elemCount = 0
  · rw [if_pos used, if_pos rfl]
    exact and_congr_right fun _ => ⟨fun place => ⟨used, place⟩, fun both => both.2⟩
  · rw [if_neg used, if_neg Bool.false_ne_true]
    constructor
    · rintro ⟨gives, _⟩
      cases gives
    · rintro ⟨_, zero, _⟩
      exact absurd zero used

/-- The row of members behind a header, and the end of the map. -/
theorem members_iff {start header : CborState} {count : BitVec 32} {capacity : Nat}
    (reads : headerDecode input majorTypeMap start = (some count, header))
    (small : ¬ DoublesPast count) (stack : CborStack capacity) (older : List CborState)
    (saved : stack.saved.items = header :: older) {result : Option (List Member)}
    {more : List Member}
    (row : RowOutcome 1 2 5 (memberReader items start.payloadEnd) []
      { header with elemCount := ContainerKind.map.elemCount count } result stack.live more)
    (members : List Member) (behind : Nat) :
    ((if (stack.listMapEndDecode input).1 then result else none) = some members ∧
        (stack.listMapEndDecode input).2.live.payload = behind) ↔
      UploadAt items input start members behind := by
  have gives := ((headerDecode_some_iff input majorTypeMap start header count).mp reads).2
  have ends : stack.live.payloadEnd = start.payloadEnd :=
    row.payloadEnd.trans (headerGives_payloadEnd input start header count gives)
  rw [uploadAt_iff items input reads]
  by_cases isOpen : IndetLen count
  · have whole : count = indetLenElemCount := by
      rcases gives with ⟨_, same, _⟩ | ⟨_, _, definite⟩
      · exact same
      · exact absurd isOpen definite
    have same : ContainerKind.map.elemCount count = count := by
      rw [whole, ContainerKind.elemCount_open]
    have elements : 10 ≤ remaining (ContainerKind.map.elemCount count) := by
      rw [same, whole]
      decide
    have liveOpen : IndetLen stack.live.elemCount :=
      row.isOpen.mpr (by show IndetLen (ContainerKind.map.elemCount count); rwa [same])
    rw [closes_open input stack header older saved liveOpen]
    refine exists_congr fun next => ?_
    rw [row.open_iff elements, ends]
    constructor
    · rintro ⟨⟨chain, stops, few, nonempty⟩, inside, closed, place⟩
      exact ⟨chain, few, nonempty, Or.inr ⟨isOpen, stops, inside, closed, place⟩⟩
    · rintro ⟨chain, few, nonempty, ⟨definite, _⟩ | ⟨_, stops, inside, closed, place⟩⟩
      · exact absurd isOpen definite
      · exact ⟨⟨chain, stops, few, nonempty⟩, inside, closed, place⟩
  · obtain ⟨double, definite⟩ :=
      ContainerKind.elemCount_definite .map count isOpen fun late => small late.2
    have elements : remaining (ContainerKind.map.elemCount count) = 2 * count.toNat := by
      rw [remaining_definite _ definite, double]
      rfl
    have liveDefinite : ¬ IndetLen stack.live.elemCount := fun liveOpen =>
      definite (row.isOpen.mp liveOpen)
    rw [closes_definite input stack header older saved liveDefinite,
      row.definite_iff elements definite]
    constructor
    · rintro ⟨chain, counts, few, nonempty⟩
      exact ⟨behind, chain, few, nonempty, Or.inl ⟨isOpen, counts, rfl⟩⟩
    · rintro ⟨next, chain, few, nonempty, ⟨_, counts, rfl⟩ | ⟨opens, _⟩⟩
      · exact ⟨chain, counts, few, nonempty⟩
      · exact absurd opens isOpen

/-- With room for two backups a request is decoded exactly when it is there, and the live state then
stands behind it. The array keeps its form on every outcome. -/
theorem decodeUpload_iff {stateArray : Nat → CborState} {nStates : Nat} {states : CborStates}
    {stack : CborStack (nStates - 2)} (represents : Represents stateArray nStates states stack)
    (nonempty : 1 ≤ nStates) (room : stack.saved.height + 2 ≤ nStates - 2) :
    ∃ (result : Option (List Member)) (after : CborStates) (left : CborStack (nStates - 2)),
      decodeUpload items input states = some (result, after) ∧
      Represents stateArray nStates after left ∧ ∀ members next,
        (result = some members ∧ left.live.payload = next) ↔
          UploadAt items input stack.live members next := by
  obtain ⟨started, starts, startedRepresents⟩ := represents.startDecode_eq nonempty input .map
  have mapRuns : mapStartDecode input states =
      some ((stack.startDecode input .map).1, started) := starts
  have fails : (stack.startDecode input .map).1 = false →
      (∀ members next, ¬ UploadAt items input stack.live members next) →
      ∃ (result : Option (List Member)) (after : CborStates) (left : CborStack (nStates - 2)),
        decodeUpload items input states = some (result, after) ∧
        Represents stateArray nStates after left ∧ ∀ members next,
          (result = some members ∧ left.live.payload = next) ↔
            UploadAt items input stack.live members next := by
    intro refuses nothing
    refine ⟨none, started, _, ?_, startedRepresents,
      fun members next => ⟨nofun, fun upload => absurd upload (nothing members next)⟩⟩
    simp only [decodeUpload, mapRuns, Option.bind_eq_bind, Option.bind_some, refuses,
      Bool.false_eq_true, if_false]
    rfl
  cases decoded : headerDecode input majorTypeMap stack.live with
  | mk outcome header =>
    cases outcome with
    | none =>
      refine fails (by rw [stack.startDecode_none input .map header decoded]) fun members next
        upload => ?_
      obtain ⟨count, other, reads, _⟩ := upload.reads
      rw [decoded] at reads
      cases reads
    | some count =>
      by_cases past : DoublesPast count
      · refine fails ?_ fun members next upload => ?_
        · rw [stack.startDecode_room input .map header count decoded (by omega), if_pos ⟨rfl, past⟩]
        · obtain ⟨other, same, reads, small⟩ := upload.reads
          rw [decoded] at reads
          cases reads
          exact small past
      · have space : stack.saved.height < nStates - 2 := by omega
        have deeper : stack.saved.items.length + 1 + 1 ≤ nStates - 2 := by
          rw [BoundedStack.height] at room
          omega
        have ends : header.payloadEnd = stack.live.payloadEnd :=
          headerGives_payloadEnd input stack.live header count
            ((headerDecode_some_iff input majorTypeMap stack.live header count).mp decoded).2
        have starting := stack.startDecode_room input .map header count decoded space
        rw [if_neg fun late => past late.2] at starting
        rw [starting] at mapRuns startedRepresents
        obtain ⟨result, middle, live, more, loops, middleRepresents, row⟩ :=
          decodes_multiDecodeLoop nonempty 1 (decodeRepeatedUploadMembers items) _ items
            (Nat.succ_pos 1) (decodes_decodeMember nonempty items) 5 [] started _
            startedRepresents ends deeper
        obtain ⟨after, closing, afterRepresents⟩ :=
          middleRepresents.listMapEndDecode_eq nonempty input
        have multiRuns : multiDecode 1 5 (decodeRepeatedUploadMembers items) items.giveUp started =
            some (result, middle) := loops
        have runs : decodeUpload items input states = some (if (CborStack.listMapEndDecode input
            ⟨live, ⟨header :: stack.saved.items, space⟩⟩).1 then result else none, after) := by
          simp only [decodeUpload, mapRuns, Option.bind_eq_bind, Option.bind_some, if_true,
            multiRuns, closing]
          rfl
        refine ⟨_, after, _, runs, afterRepresents, fun members next => ?_⟩
        exact members_iff items input decoded past ⟨live, ⟨header :: stack.saved.items, space⟩⟩
          stack.saved.items rfl row members next

/-- The entry gives what the decoding gives, with the length of what it has read. -/
theorem decodeUploadIn_eq {nStates : Nat} {stateArray : Nat → CborState} {payload payloadLen : Nat}
    {ret : Option (List Member)} {after : CborStates} {left : CborStack (nStates - 2)}
    (runs : decodeUpload items input (newState stateArray nStates payload payloadLen 1) =
      some (ret, after)) (represents : Represents stateArray nStates after left) :
    decodeUploadIn items input nStates stateArray payload payloadLen =
      some (ret.map fun members => (members, min payloadLen (left.live.payload - payload))) := by
  simp only [decodeUploadIn, runs, Option.bind_eq_bind, Option.bind_some,
    CborStates.stateAt_of_slot _ _ _ represents.live]
  rfl

/-- The entry with four states or more gives the members of a request that stands at the start of
the payload, and the length of it. -/
theorem decodeUploadIn_iff (nStates : Nat) (enough : 4 ≤ nStates) (stateArray : Nat → CborState)
    (payload payloadLen : Nat) :
    ∃ result ret after,
      decodeUploadIn items input nStates stateArray payload payloadLen = some result ∧
      decodeUpload items input (newState stateArray nStates payload payloadLen 1) =
        some (ret, after) ∧
      (∃ left, Represents stateArray nStates after left) ∧
      ∀ members payloadLenOut, result = some (members, payloadLenOut) ↔
        ∃ behind, UploadAt items input (initialState stateArray nStates payload payloadLen 1)
            members behind ∧
          behind ≤ payload + payloadLen ∧ payloadLenOut = behind - payload := by
  have represents := newState_represents stateArray nStates payload payloadLen 1 (by omega)
  obtain ⟨ret, after, left, runs, afterRepresents, exactly⟩ :=
    decodeUpload_iff items input represents (by omega) (by
      show 0 + 2 ≤ nStates - 2
      omega)
  refine ⟨_, ret, after, decodeUploadIn_eq items input runs afterRepresents, runs,
    ⟨left, afterRepresents⟩, fun members payloadLenOut => ?_⟩
  rw [Option.map_eq_some_iff]
  constructor
  · rintro ⟨found, gives, same⟩
    rw [Prod.mk.injEq] at same
    obtain ⟨rfl, rfl⟩ := same
    have upload := (exactly found left.live.payload).mp ⟨gives, rfl⟩
    have inside : left.live.payload ≤ payload + payloadLen := upload.inside
    exact ⟨left.live.payload, upload, inside, Nat.min_eq_right (by omega)⟩
  · rintro ⟨behind, upload, inside, rfl⟩
    obtain ⟨gives, rfl⟩ := (exactly members behind).mpr upload
    exact ⟨members, gives, Prod.ext rfl (Nat.min_eq_right (by omega))⟩

/-- `cbor_decode_Upload` accepts exactly the requests that stand at the start of the payload. It
then gives their members, and the length of what it has read. On every payload its backups lie in
the slots 1 and 2, and what lies behind the array of four states is as it was. -/
theorem cborDecodeUpload_iff (stateArray : Nat → CborState) (payload payloadLen : Nat) :
    ∃ result ret after,
      cborDecodeUpload items input stateArray payload payloadLen = some result ∧
      decodeUpload items input (newState stateArray 4 payload payloadLen 1) = some (ret, after) ∧
      (∀ index ∈ after.used, 1 ≤ index ∧ index ≤ 2) ∧
      (∀ index, 4 ≤ index → after.slot index = .state (stateArray index)) ∧
      ∀ members payloadLenOut, result = some (members, payloadLenOut) ↔
        ∃ behind, UploadAt items input (initialState stateArray 4 payload payloadLen 1) members
            behind ∧
          behind ≤ payload + payloadLen ∧ payloadLenOut = behind - payload := by
  obtain ⟨result, ret, after, gives, runs, ⟨left, represents⟩, exactly⟩ :=
    decodeUploadIn_iff items input 4 (Nat.le_refl 4) stateArray payload payloadLen
  exact ⟨result, ret, after, gives, runs, represents.used, represents.behind, exactly⟩

/-- A row whose first element has no room for its backup gives nothing. -/
theorem multiDecode_full {stateArray : Nat → CborState} {nStates : Nat} {states : CborStates}
    {stack : CborStack (nStates - 2)} (represents : Represents stateArray nStates states stack)
    (nonempty : 1 ≤ nStates) (full : stack.saved.height = nStates - 2) :
    ∃ after next, multiDecode 1 5 (decodeRepeatedUploadMembers items) items.giveUp states =
        some (none, after) ∧ Represents stateArray nStates after next := by
  obtain ⟨failed, fails, failedRepresents⟩ := unionDecode_full nonempty (memberImage items)
    [memberData items, memberLen items, memberOff items, memberSha items] states stack represents
    full
  have member : decodeRepeatedUploadMembers items states = some (none, failed) := fails
  have back := failedRepresents.setLive nonempty (items.giveUp stack.live stack.live)
    ((items.gaveUp stack.live stack.live).2.2.2.trans represents.livePointer)
  refine ⟨_, _, ?_, back⟩
  simp only [multiDecode, multiDecodeLoop, CborStates.stateAt_of_slot _ _ _ represents.live,
    CborStates.stateAt_of_slot _ _ _ failedRepresents.live, Option.bind_eq_bind, Option.bind_some,
    member]
  rfl

/-- With less than four states no payload is decoded: the map takes the only backup, and a member
needs another. -/
theorem decodeUploadIn_none (nStates : Nat) (nonempty : 1 ≤ nStates) (small : nStates ≤ 3)
    (stateArray : Nat → CborState) (payload payloadLen : Nat) :
    decodeUploadIn items input nStates stateArray payload payloadLen = some none := by
  have represents := newState_represents stateArray nStates payload payloadLen 1 nonempty
  obtain ⟨started, starts, startedRepresents⟩ := represents.startDecode_eq nonempty input .map
  have mapRuns : mapStartDecode input (newState stateArray nStates payload payloadLen 1) =
      some (_, started) := starts
  cases outcome : (CborStack.start (initialState stateArray nStates payload payloadLen 1) :
      CborStack (nStates - 2)).startDecode input .map with
  | mk opens next =>
    rw [outcome] at mapRuns startedRepresents
    cases opens with
    | false =>
      have fails : decodeUpload items input (newState stateArray nStates payload payloadLen 1) =
          some (none, started) := by
        simp only [decodeUpload, mapRuns, Option.bind_eq_bind, Option.bind_some,
          Bool.false_eq_true, if_false]
        rfl
      exact decodeUploadIn_eq items input fails startedRepresents
    | true =>
      obtain ⟨header, count, _, _, _, items_eq⟩ := CborStack.startDecode_true input .map _ _ outcome
      have bound := next.saved.height_le
      have full : next.saved.height = nStates - 2 := by
        rw [BoundedStack.height, items_eq, List.length_cons] at bound ⊢
        omega
      obtain ⟨middle, failed, multiRuns, middleRepresents⟩ :=
        multiDecode_full items startedRepresents nonempty full
      obtain ⟨after, closing, afterRepresents⟩ :=
        middleRepresents.listMapEndDecode_eq nonempty input
      have fails : decodeUpload items input (newState stateArray nStates payload payloadLen 1) =
          some (none, after) := by
        simp only [decodeUpload, mapRuns, Option.bind_eq_bind, Option.bind_some, if_true,
          multiRuns, closing, ite_self]
        rfl
      exact decodeUploadIn_eq items input fails afterRepresents

/-- Four states are the least that decode: with less every payload is refused, and with four or more
every request that stands at the start of the payload is decoded. -/
theorem decodeUploadIn_small (nStates : Nat) (nonempty : 1 ≤ nStates) (small : nStates ≤ 3)
    (stateArray : Nat → CborState) (payload payloadLen : Nat) :
    decodeUploadIn items input nStates stateArray payload payloadLen = some none ∧
      ∀ enough members behind, 4 ≤ enough →
        UploadAt items input (initialState stateArray enough payload payloadLen 1) members behind →
        decodeUploadIn items input enough stateArray payload payloadLen =
          some (some (members, behind - payload)) := by
  refine ⟨decodeUploadIn_none items input nStates nonempty small stateArray payload payloadLen, ?_⟩
  intro enough members behind four upload
  obtain ⟨result, _, _, entry, _, _, exactly⟩ :=
    decodeUploadIn_iff items input enough four stateArray payload payloadLen
  rw [entry, (exactly members (behind - payload)).mpr ⟨behind, upload, upload.inside, rfl⟩]

end Upload

/-! ### A concrete payload -/

/-- An item that is read by a reader. -/
def itemOf {Value : Type} (read : Nat → Reader Nat Value)
    (forward : ∀ payloadEnd position value next, read payloadEnd position = some (value, next) →
      position < next ∧ next ≤ payloadEnd) : CborItem Value where
  read
  decode state :=
    if HasElement state.elemCount then
      match read state.payloadEnd state.payload with
      | some (value, next) =>
        (some value, { state with payload := next, elemCount := state.elemCount - 1 })
      | none => (none, state)
    else (none, state)
  forward
  taken state value next more found := by
    rw [if_pos more, found]
    exact ⟨rfl, rfl, rfl⟩
  refused state refuses := by
    rcases refuses with used | missing
    · rw [if_neg used]
    · rw [missing, ite_self]
  keeps state := by
    split
    · split
      · exact ⟨rfl, rfl⟩
      · exact ⟨rfl, rfl⟩
    · exact ⟨rfl, rfl⟩

section Concrete

variable (bytes : List UInt8)

/-- A header of a major type, and something that stands behind it. -/
def headerReader {Value : Type} (major : UInt8) (content : Nat → Nat → Option (Value × Nat))
    (payloadEnd : Nat) : Reader Nat Value := fun position =>
  let behind := position + 1 + headerLen (bytes.getD · 0) position
  if majorType (bytes.getD position 0) = major ∧ headerInfo (bytes.getD · 0) position ≤ 26 then
    match content (headerValue (bytes.getD · 0) position) behind with
    | some (value, next) =>
      if behind ≤ next ∧ next ≤ payloadEnd then some (value, next) else none
    | none => none
  else none

theorem headerReader_forward {Value : Type} (major : UInt8)
    (content : Nat → Nat → Option (Value × Nat)) (payloadEnd position : Nat) (value : Value)
    (next : Nat)
    (found : headerReader bytes major content payloadEnd position = some (value, next)) :
    position < next ∧ next ≤ payloadEnd := by
  rw [headerReader] at found
  split at found
  · split at found
    · split at found
      · cases found
        omega
      · cases found
    · cases found
  · cases found

/-- The decoders of the three kinds of item that a request has, on given bytes. -/
def cborUploadItems : UploadItems where
  tstrxExpect text := itemOf
    (headerReader bytes 3 fun len behind =>
      if ((bytes.drop behind).take len).map UInt8.toNat = text.map Char.toNat ∧
          len = text.length then
        some ((), behind + len)
      else none) (headerReader_forward bytes 3 _)
  intx32Decode := itemOf
    (fun payloadEnd position =>
      (headerReader bytes 0 (fun value behind =>
        if value < 2 ^ 31 then some (BitVec.ofNat 32 value, behind) else none)
        payloadEnd position).or
      (headerReader bytes 1 (fun value behind =>
        if value < 2 ^ 31 then some (BitVec.ofNat 32 (2 ^ 32 - 1 - value), behind) else none)
        payloadEnd position))
    fun payloadEnd position value next found => by
      rcases Option.or_eq_some_iff.mp found with positive | ⟨_, negative⟩
      · exact headerReader_forward bytes 0 _ _ _ _ _ positive
      · exact headerReader_forward bytes 1 _ _ _ _ _ negative
  bstrxDecode := itemOf
    (headerReader bytes 2 fun len behind => some (⟨behind, len⟩, behind + len))
    (headerReader_forward bytes 2 _)
  giveUp before failed :=
    { failed with payload := before.payload, elemCount := before.elemCount }
  gaveUp _ _ := ⟨rfl, rfl, rfl, rfl⟩

end Concrete

/-- The payload {"off": 0}. -/
def offZero : List UInt8 := [0xA1, 0x63, 0x6F, 0x66, 0x66, 0x00]

/-- A request for the offset 0 stands in its payload and is decoded. The slot behind the array holds
the state of the caller. -/
theorem cborDecodeUpload_iff_off :
    cborDecodeUpload (cborUploadItems offZero) (cborBytes offZero)
        (fun _ => ⟨0, 0, 0, 0, none⟩) 0 6 = some (some ([.off 0], 6)) ∧
      (∃ behind, UploadAt (cborUploadItems offZero) (cborBytes offZero)
        (initialState (fun _ => ⟨0, 0, 0, 0, none⟩) 4 0 6 1) [.off 0] behind ∧
        behind ≤ 0 + 6 ∧ 6 = behind - 0) ∧
      ∃ ret after, decodeUpload (cborUploadItems offZero) (cborBytes offZero)
          (newState (fun _ => ⟨0, 0, 0, 0, none⟩) 4 0 6 1) = some (ret, after) ∧
        (∀ index ∈ after.used, 1 ≤ index ∧ index ≤ 2) ∧
        after.slot 4 = .state ⟨0, 0, 0, 0, none⟩ := by
  obtain ⟨result, ret, after, gives, runs, used, outside, exactly⟩ := cborDecodeUpload_iff
    (cborUploadItems offZero) (cborBytes offZero) (fun _ => ⟨0, 0, 0, 0, none⟩) 0 6
  have decoded : cborDecodeUpload (cborUploadItems offZero) (cborBytes offZero)
      (fun _ => ⟨0, 0, 0, 0, none⟩) 0 6 = some (some ([.off 0], 6)) := by decide
  cases gives.symm.trans decoded
  exact ⟨decoded, (exactly [.off 0] 6).mp rfl, ret, after, runs, used, outside 4 (Nat.le_refl 4)⟩

/-- Three states are not enough for a request that stands in the payload, four are. -/
theorem decodeUploadIn_small_three :
    decodeUploadIn (cborUploadItems offZero) (cborBytes offZero) 3
        (fun _ => ⟨0, 0, 0, 0, none⟩) 0 6 = some none ∧
      decodeUploadIn (cborUploadItems offZero) (cborBytes offZero) 4
        (fun _ => ⟨0, 0, 0, 0, none⟩) 0 6 = some (some ([.off 0], 6)) := by
  obtain ⟨refused, decodes⟩ := decodeUploadIn_small (cborUploadItems offZero) (cborBytes offZero) 3
    (by decide) (by decide) (fun _ => ⟨0, 0, 0, 0, none⟩) 0 6
  obtain ⟨result, _, _, entry, _, _, exactly⟩ := decodeUploadIn_iff (cborUploadItems offZero)
    (cborBytes offZero) 4 (Nat.le_refl 4) (fun _ => ⟨0, 0, 0, 0, none⟩) 0 6
  have decoded : decodeUploadIn (cborUploadItems offZero) (cborBytes offZero) 4
      (fun _ => ⟨0, 0, 0, 0, none⟩) 0 6 = some (some ([.off 0], 6)) := by decide
  cases entry.symm.trans decoded
  obtain ⟨behind, upload, _, length⟩ := (exactly [.off 0] 6).mp rfl
  have same := decodes 4 [.off 0] behind (Nat.le_refl 4) upload
  rw [← length] at same
  exact ⟨refused, same⟩

/-- Behind the header of {"off": 0} the fourth alternative stands, and none of the three before it.
-/
theorem decodeMember_iff_off :
    ∃ result after, ∃ live : CborState,
      decodeMember (cborUploadItems offZero)
        (newState (fun _ => ⟨0, 0, 0, 0, none⟩) 4 1 5 2) = some (result, after) ∧
      result = some (.off 0) ∧ live.payload = 6 ∧ remaining live.elemCount + 2 = 2 := by
  obtain ⟨result, after, live, runs, _, counts, exactly⟩ :=
    decodeMember_iff (cborUploadItems offZero)
      (newState_represents (fun _ => ⟨0, 0, 0, 0, none⟩) 4 1 5 2 (by decide)) (by decide)
  have first := Reader.choice_eq_some_iff (memberReaders (cborUploadItems offZero) 6) 1
    (Member.off 0, 6)
  obtain ⟨gives, place⟩ := (exactly (.off 0) 6).mpr
    ⟨by decide, by decide, first.mp (by decide)⟩
  exact ⟨result, after, live, runs, gives, place, counts _ gives⟩

end McubootPort

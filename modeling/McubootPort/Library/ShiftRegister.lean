/-
This file is about linear feedback shift registers that take their input at the
most significant bit, which is how a cyclic redundancy code is computed bit by
bit.

One step shifts the register left and adds the taps when a bit falls out. The
step is linear over exclusive or, so everything the register does to a
difference of two inputs it does to the inputs apart. It is injective when the
lowest tap is set, it keeps the parity when the number of taps is odd, and the
number of steps after which it comes back to where it was follows from a few
powers, which square-and-multiply computes.
-/

import Mathlib.Dynamics.PeriodicPts.Defs
import Mathlib.Data.Nat.Prime.Basic

namespace ShiftRegister

variable {width : Nat} (taps : BitVec width)

/-! ### The step -/

/-- One step of the register: shift left, and add the taps when the top bit was set. -/
def shift (register : BitVec width) : BitVec width :=
  if register.msb then register <<< 1 ^^^ taps else register <<< 1

/-- An input bit stands at the top of the register. -/
def top (bit : Bool) : BitVec width := if bit then BitVec.twoPow width (width - 1) else 0

/-- Take one input bit. -/
def feed (register : BitVec width) (bit : Bool) : BitVec width :=
  shift taps (register ^^^ top bit)

/-- Take some input bits, the first one first. -/
def feedAll (register : BitVec width) (bits : List Bool) : BitVec width :=
  bits.foldl (feed taps) register

theorem shift_zero : shift taps (BitVec.ofNat width 0) = BitVec.ofNat width 0 := by
  simp [shift]

theorem shift_xor (first second : BitVec width) :
    shift taps (first ^^^ second) = shift taps first ^^^ shift taps second := by
  unfold shift
  rw [BitVec.msb_xor, BitVec.shiftLeft_xor_distrib]
  cases first.msb <;> cases second.msb
  · rfl
  · exact BitVec.xor_assoc ..
  · rw [Bool.xor_false, if_pos rfl, if_pos rfl, if_neg Bool.false_ne_true, BitVec.xor_assoc,
      BitVec.xor_assoc, BitVec.xor_comm taps]
  · rw [Bool.xor_true, Bool.not_true, if_neg Bool.false_ne_true, if_pos rfl, if_pos rfl,
      BitVec.xor_assoc, BitVec.xor_comm taps, BitVec.xor_assoc, BitVec.xor_self, BitVec.xor_zero]

theorem iterate_zero (count : Nat) :
    (shift taps)^[count] (BitVec.ofNat width 0) = BitVec.ofNat width 0 :=
  Function.iterate_fixed (shift_zero taps) count

theorem iterate_xor (count : Nat) (first second : BitVec width) :
    (shift taps)^[count] (first ^^^ second) =
      (shift taps)^[count] first ^^^ (shift taps)^[count] second := by
  induction count generalizing first second with
  | zero => rfl
  | succ count inductionHypothesis =>
    simp only [Function.iterate_succ_apply, shift_xor, inductionHypothesis]

/-- The register tells the top bit it lost from its lowest bit, when the lowest tap is set. -/
theorem shift_injective (positive : 0 < width) (lowest : taps.getLsbD 0 = true) :
    Function.Injective (shift taps) := by
  have lost (register : BitVec width) : (shift taps register).getLsbD 0 = register.msb := by
    unfold shift
    split <;> rename_i out <;> simp_all
  have kept (register : BitVec width) (index : Nat) (below : index + 1 < width) :
      (shift taps register).getLsbD (index + 1) =
        (register.getLsbD index ^^ (register.msb && taps.getLsbD (index + 1))) := by
    have bit := BitVec.getLsbD_eq_getElem (x := register) (i := index) (by omega)
    unfold shift
    split <;> rename_i out <;> simp [out, below, bit]
  intro first second same
  have tops : first.msb = second.msb := by rw [← lost first, ← lost second, same]
  refine BitVec.eq_of_getLsbD_eq fun index bound => ?_
  by_cases last : index + 1 < width
  · have bits := congrArg (BitVec.getLsbD · (index + 1)) same
    simpa only [kept _ index last, tops, Bool.xor_left_inj, Bool.xor_right_inj] using bits
  · have place : index = width - 1 := by omega
    rw [BitVec.msb_eq_getLsbD_last, BitVec.msb_eq_getLsbD_last] at tops
    rw [place, tops]

theorem iterate_ne_zero (positive : 0 < width) (lowest : taps.getLsbD 0 = true) (count : Nat)
    (register : BitVec width) (nonzero : register ≠ BitVec.ofNat width 0) :
    (shift taps)^[count] register ≠ BitVec.ofNat width 0 := by
  intro zero
  rw [← iterate_zero taps count] at zero
  exact nonzero ((shift_injective taps positive lowest).iterate count zero)

/-! ### Taking input -/

theorem top_xor (first second : Bool) :
    (top (first ^^ second) : BitVec width) = top first ^^^ top second := by
  cases first <;> cases second <;> simp [top]

/-- The register is linear in its start and its input together. -/
theorem feedAll_xor (first second : BitVec width) (bits others : List Bool)
    (lengths : bits.length = others.length) :
    feedAll taps (first ^^^ second) (List.zipWith xor bits others) =
      feedAll taps first bits ^^^ feedAll taps second others := by
  induction bits generalizing first second others with
  | nil =>
    rw [List.length_nil] at lengths
    rw [List.eq_nil_of_length_eq_zero lengths.symm]
    rfl
  | cons bit rest inductionHypothesis =>
    cases others with
    | nil => cases lengths
    | cons other others =>
      have step : feed taps (first ^^^ second) (bit ^^ other) =
          feed taps first bit ^^^ feed taps second other := by
        rw [feed, feed, feed, top_xor, ← shift_xor]
        congr 1
        ac_rfl
      simp only [feedAll, List.zipWith_cons_cons, List.foldl_cons, step]
      exact inductionHypothesis _ _ others (Nat.succ.inj lengths)

theorem feedAll_append (register : BitVec width) (first second : List Bool) :
    feedAll taps register (first ++ second) = feedAll taps (feedAll taps register first) second :=
  List.foldl_append

/-- Zero bits only shift. -/
theorem feedAll_replicate_false (register : BitVec width) (count : Nat) :
    feedAll taps register (List.replicate count false) = (shift taps)^[count] register := by
  induction count generalizing register with
  | zero => rfl
  | succ count inductionHypothesis =>
    rw [List.replicate_succ, feedAll, List.foldl_cons, Function.iterate_succ_apply,
      ← inductionHypothesis, feed, top, if_neg Bool.false_ne_true, BitVec.ofNat_eq_ofNat,
      BitVec.xor_zero]
    rfl

/-- Some bits at the top of a register, the first one highest. -/
def load : List Bool → BitVec width
  | [] => 0
  | bit :: rest => top bit ^^^ (load rest >>> 1)

theorem load_getLsbD (bits : List Bool) (index : Nat) (below : index < width) :
    (load bits : BitVec width).getLsbD index = bits.getD (width - 1 - index) false := by
  induction bits generalizing index with
  | nil => simp [load]
  | cons bit rest inductionHypothesis =>
    have tops : (top bit : BitVec width).getLsbD index = (bit && decide (index + 1 = width)) := by
      cases bit
      · simp [top]
      · simp only [top, if_true, BitVec.getLsbD_twoPow, Bool.true_and]
        rw [Bool.eq_iff_iff]
        simp only [Bool.and_eq_true, decide_eq_true_eq]
        omega
    rw [load, BitVec.getLsbD_xor, BitVec.getLsbD_ushiftRight, tops]
    by_cases last : index + 1 = width
    · rw [show 1 + index = width by omega, show width - 1 - index = 0 by omega,
        BitVec.getLsbD_of_ge _ _ (Nat.le_refl _)]
      simp [last]
    · rw [inductionHypothesis (1 + index) (by omega),
        show width - 1 - index = (width - 1 - (1 + index)) + 1 by omega]
      simp [last]

/-- Bits that fit the register can be added at once and then shifted out. -/
theorem feedAll_eq_load (register : BitVec width) (bits : List Bool)
    (short : bits.length ≤ width) :
    feedAll taps register bits = (shift taps)^[bits.length] (register ^^^ load bits) := by
  induction bits generalizing register with
  | nil => simp [feedAll, load]
  | cons bit rest inductionHypothesis =>
    rw [List.length_cons] at short ⊢
    have low : shift taps (load rest >>> 1) = load rest := by
      have high : (load rest >>> 1 : BitVec width).msb = false := by
        rw [BitVec.msb_eq_getLsbD_last, BitVec.getLsbD_ushiftRight,
          BitVec.getLsbD_of_ge _ _ (by omega)]
      rw [shift, high, if_neg Bool.false_ne_true]
      refine BitVec.eq_of_getLsbD_eq fun index bound => ?_
      rw [BitVec.getLsbD_shiftLeft, BitVec.getLsbD_ushiftRight]
      by_cases zero : index = 0
      · rw [load_getLsbD rest index bound, List.getD_eq_getElem?_getD,
          List.getElem?_eq_none (by omega)]
        simp [zero]
      · rw [show 1 + (index - 1) = index by omega]
        simp [bound, zero]
    rw [feedAll, List.foldl_cons]
    refine (inductionHypothesis (feed taps register bit) (by omega)).trans ?_
    rw [Function.iterate_succ_apply, load, ← BitVec.xor_assoc, shift_xor, low, feed]

theorem load_ne_zero (bits : List Bool) (short : bits.length ≤ width) (set : true ∈ bits) :
    (load bits : BitVec width) ≠ BitVec.ofNat width 0 := by
  intro zero
  obtain ⟨place, inside, bit⟩ := List.getElem_of_mem set
  have read := load_getLsbD bits (width - 1 - place) (by omega : width - 1 - place < width)
  have back : width - 1 - (width - 1 - place) = place := by omega
  rw [zero, back, List.getD_eq_getElem?_getD, List.getElem?_eq_getElem inside, bit] at read
  simp at read

/-- Feeding a register its own bits clears it. -/
theorem feedAll_self (register : BitVec width) (bits : List Bool) (whole : bits.length = width)
    (same : load bits = register) : feedAll taps register bits = BitVec.ofNat width 0 := by
  rw [feedAll_eq_load taps register bits whole.le, same, BitVec.xor_self, iterate_zero]

/-- Feeding a register any other bits of its width leaves it nonzero. -/
theorem feedAll_ne_zero (positive : 0 < width) (lowest : taps.getLsbD 0 = true)
    (register : BitVec width) (bits : List Bool) (whole : bits.length = width)
    (different : load bits ≠ register) : feedAll taps register bits ≠ BitVec.ofNat width 0 := by
  rw [feedAll_eq_load taps register bits whole.le]
  refine iterate_ne_zero taps positive lowest _ _ fun equal => different ?_
  exact (BitVec.xor_eq_zero_iff.mp equal).symm

/-! ### Errors a register cannot miss -/

theorem eq_replicate_of_clear (bits : List Bool)
    (clear : ∀ index : Nat, bits[index]? ≠ some true) :
    bits = List.replicate bits.length false := by
  refine List.eq_replicate_iff.mpr ⟨rfl, fun bit member => ?_⟩
  obtain ⟨index, inside, rfl⟩ := List.getElem_of_mem member
  cases bit : bits[index]
  · rfl
  · exact absurd (by rw [List.getElem?_eq_getElem inside, bit]) (clear index)

/-- A burst no longer than the register leaves it nonzero. -/
theorem feedAll_burst_ne_zero (positive : 0 < width) (lowest : taps.getLsbD 0 = true)
    (bits : List Bool) (start : Nat) (set : true ∈ bits)
    (within : ∀ index : Nat, bits[index]? = some true → start ≤ index ∧ index < start + width) :
    feedAll taps (BitVec.ofNat width 0) bits ≠ BitVec.ofNat width 0 := by
  have before : bits.take start = List.replicate (bits.take start).length false := by
    refine eq_replicate_of_clear _ fun index bit => ?_
    rw [List.getElem?_take] at bit
    split at bit
    · exact absurd (within index bit).1 (by omega)
    · cases bit
  have behind : (bits.drop start).drop width =
      List.replicate ((bits.drop start).drop width).length false := by
    refine eq_replicate_of_clear _ fun index bit => ?_
    rw [List.drop_drop, List.getElem?_drop] at bit
    exact absurd (within _ bit).2 (by omega)
  have burst : true ∈ (bits.drop start).take width := by
    obtain ⟨index, inside, bit⟩ := List.getElem_of_mem set
    have range := within index (by rw [List.getElem?_eq_getElem inside, bit])
    refine List.mem_of_getElem? (i := index - start) ?_
    rw [List.getElem?_take, if_pos (by omega), List.getElem?_drop,
      show start + (index - start) = index by omega, List.getElem?_eq_getElem inside, bit]
  have short : ((bits.drop start).take width).length ≤ width := by
    rw [List.length_take]
    omega
  rw [← List.take_append_drop start bits, ← List.take_append_drop width (bits.drop start),
    feedAll_append, feedAll_append, before, feedAll_replicate_false, iterate_zero, behind,
    feedAll_replicate_false, feedAll_eq_load taps _ _ short, BitVec.zero_xor]
  exact iterate_ne_zero taps positive lowest _ _
    (iterate_ne_zero taps positive lowest _ _ (load_ne_zero _ short burst))

/-- `length` bits of which only the one at `index` is set. -/
def unit (length index : Nat) : List Bool :=
  List.replicate index false ++ true :: List.replicate (length - index - 1) false

theorem unit_getElem? (length index other : Nat) (inside : index < length) :
    (unit length index)[other]? =
      if other < length then some (decide (other = index)) else none := by
  rw [unit, List.getElem?_append, List.length_replicate, List.getElem?_replicate]
  by_cases low : other < index
  · rw [if_pos low, if_pos low, if_pos (by omega), decide_eq_false (by omega)]
  · rw [if_neg low]
    by_cases here : other = index
    · rw [here, Nat.sub_self, List.getElem?_cons_zero, if_pos inside, decide_eq_true rfl]
    · rw [show other - index = (other - index - 1) + 1 by omega, List.getElem?_cons_succ,
        List.getElem?_replicate, decide_eq_false here]
      exact if_congr (by omega) rfl rfl

theorem feedAll_unit (length index : Nat) (inside : index < length) :
    feedAll taps (BitVec.ofNat width 0) (unit length index) =
      (shift taps)^[length - index] (top true) := by
  rw [unit, feedAll_append, feedAll_replicate_false, iterate_zero, feedAll, List.foldl_cons, feed,
    BitVec.zero_xor, ← feedAll, feedAll_replicate_false, ← Function.iterate_succ_apply]
  congr 1
  omega

/-- Two set bits leave the register nonzero unless it comes back to the input place in as many
steps as they are apart. -/
theorem feedAll_two_ne_zero (positive : 0 < width) (lowest : taps.getLsbD 0 = true)
    (bits : List Bool) (first second : Nat) (ordered : first < second)
    (set : ∀ index : Nat, bits[index]? = some true ↔ index = first ∨ index = second)
    (apart : (shift taps)^[second - first] (top true) ≠ top true) :
    feedAll taps (BitVec.ofNat width 0) bits ≠ BitVec.ofNat width 0 := by
  have last : second < bits.length :=
    (List.getElem?_eq_some_iff.mp ((set second).mpr (Or.inr rfl))).1
  have sum : bits = List.zipWith xor (unit bits.length first) (unit bits.length second) := by
    refine List.ext_getElem? fun index => ?_
    rw [List.getElem?_zipWith, unit_getElem? _ _ _ (by omega), unit_getElem? _ _ _ last]
    by_cases inside : index < bits.length
    · have bit := set index
      rw [List.getElem?_eq_getElem inside, Option.some.injEq] at bit
      rw [List.getElem?_eq_getElem inside, if_pos inside, if_pos inside, Option.some.injEq,
        Bool.eq_iff_iff, bit]
      by_cases here : index = first
      · simp [here, show ¬ first = second by omega]
      · simp [here]
    · rw [List.getElem?_eq_none (by omega), if_neg inside, if_neg inside]
  have lengths (index : Nat) (inside : index < bits.length) :
      (unit bits.length index).length = bits.length := by
    rw [unit, List.length_append, List.length_cons, List.length_replicate, List.length_replicate]
    omega
  have split := feedAll_xor taps (BitVec.ofNat width 0) (BitVec.ofNat width 0)
    (unit bits.length first) (unit bits.length second)
    (by rw [lengths first (by omega), lengths second last])
  rw [BitVec.xor_self, ← sum, feedAll_unit taps _ _ (by omega), feedAll_unit taps _ _ last,
    show bits.length - first = (bits.length - second) + (second - first) by omega,
    Function.iterate_add_apply, ← iterate_xor] at split
  rw [split]
  exact iterate_ne_zero taps positive lowest _ _ fun zero =>
    apart (BitVec.xor_eq_zero_iff.mp zero)

/-! ### Parity -/

/-- The parity of the lowest `count` bits of a register. -/
def parityBelow (register : BitVec width) : Nat → Bool
  | 0 => false
  | count + 1 => parityBelow register count ^^ register.getLsbD count

/-- Whether the number of set bits of a register is odd. -/
def parity (register : BitVec width) : Bool := parityBelow register width

theorem parityBelow_xor (first second : BitVec width) (count : Nat) :
    parityBelow (first ^^^ second) count =
      (parityBelow first count ^^ parityBelow second count) := by
  induction count with
  | zero => rfl
  | succ count inductionHypothesis =>
    simp only [parityBelow, inductionHypothesis, BitVec.getLsbD_xor, Bool.xor_assoc,
      Bool.xor_left_comm]

theorem parity_xor (first second : BitVec width) :
    parity (first ^^^ second) = (parity first ^^ parity second) :=
  parityBelow_xor first second width

theorem parityBelow_zero (count : Nat) : parityBelow (BitVec.ofNat width 0) count = false := by
  induction count with
  | zero => rfl
  | succ count inductionHypothesis =>
    rw [parityBelow, inductionHypothesis, BitVec.getLsbD_zero, Bool.xor_false]

theorem parity_zero : parity (BitVec.ofNat width 0) = false := parityBelow_zero width

theorem parityBelow_shiftLeft (register : BitVec width) (count : Nat) (bound : count < width) :
    parityBelow (register <<< 1) (count + 1) = parityBelow register count := by
  induction count with
  | zero => simp [parityBelow]
  | succ count inductionHypothesis =>
    rw [parityBelow, inductionHypothesis (by omega), parityBelow, BitVec.getLsbD_shiftLeft]
    simp [bound]

/-- A shift loses the top bit. -/
theorem parity_shiftLeft (register : BitVec width) (positive : 0 < width) :
    parity (register <<< 1) = (parity register ^^ register.msb) := by
  obtain ⟨last, rfl⟩ : ∃ last, width = last + 1 := ⟨width - 1, by omega⟩
  rw [parity, parity, parityBelow_shiftLeft register last (Nat.lt_succ_self last), parityBelow,
    BitVec.msb_eq_getLsbD_last, Nat.add_sub_cancel, Bool.xor_assoc, Bool.xor_self,
    Bool.xor_false]

/-- A step keeps the parity when the number of taps is odd: the taps make up for the bit that
falls out. -/
theorem parity_shift (positive : 0 < width) (odd : parity taps = true) (register : BitVec width) :
    parity (shift taps register) = parity register := by
  unfold shift
  split
  · rename_i out
    rw [parity_xor, parity_shiftLeft register positive, out, odd, Bool.xor_assoc, Bool.xor_self,
      Bool.xor_false]
  · rename_i out
    rw [parity_shiftLeft register positive, Bool.eq_false_of_not_eq_true out, Bool.xor_false]

theorem parityBelow_top (count : Nat) (bit : Bool) (bound : count < width) :
    parityBelow (top bit : BitVec width) count = false := by
  induction count with
  | zero => rfl
  | succ count inductionHypothesis =>
    have clear : (top bit : BitVec width).getLsbD count = false := by
      cases bit <;> simp [top]
      omega
    rw [parityBelow, inductionHypothesis (by omega), clear, Bool.xor_false]

theorem parity_top (positive : 0 < width) (bit : Bool) :
    parity (top bit : BitVec width) = bit := by
  obtain ⟨last, rfl⟩ : ∃ last, width = last + 1 := ⟨width - 1, by omega⟩
  rw [parity, parityBelow, parityBelow_top last bit (Nat.lt_succ_self last), Bool.false_xor]
  cases bit <;> simp [top]

/-- The parity of the register is the parity of all it was fed. -/
theorem parity_feedAll (positive : 0 < width) (odd : parity taps = true)
    (register : BitVec width) (bits : List Bool) :
    parity (feedAll taps register bits) =
      (parity register ^^ decide (bits.count true % 2 = 1)) := by
  induction bits generalizing register with
  | nil => simp [feedAll]
  | cons bit rest inductionHypothesis =>
    rw [feedAll, List.foldl_cons]
    refine (inductionHypothesis (feed taps register bit)).trans ?_
    rw [feed, parity_shift taps positive odd, parity_xor, parity_top positive, Bool.xor_assoc]
    congr 1
    cases bit
    · simp
    · rw [List.count_cons_self, Bool.true_xor, Bool.eq_iff_iff, Bool.not_eq_true',
        decide_eq_false_iff_not, decide_eq_true_eq]
      omega

/-! ### Powers and periods -/

/-- The sum of the registers `count` and fewer steps on, over the set bits of `factor`. -/
def mulBelow (factor register : BitVec width) : Nat → BitVec width
  | 0 => (BitVec.ofNat width 0)
  | count + 1 =>
    mulBelow factor register count ^^^
      (if factor.getLsbD count then (shift taps)^[count] register else (BitVec.ofNat width 0))

/-- The product of two registers, read as polynomials, modulo the polynomial of the taps. -/
def mul (factor register : BitVec width) : BitVec width := mulBelow taps factor register width

theorem mulBelow_xor (factor first second : BitVec width) (count : Nat) :
    mulBelow taps factor (first ^^^ second) count =
      mulBelow taps factor first count ^^^ mulBelow taps factor second count := by
  induction count with
  | zero => exact BitVec.xor_self.symm
  | succ count inductionHypothesis =>
    simp only [mulBelow, inductionHypothesis]
    cases factor.getLsbD count
    · simp only [Bool.false_eq_true, if_false, BitVec.xor_zero]
    · simp only [if_true, iterate_xor]
      ac_rfl

theorem mulBelow_shift (factor register : BitVec width) (count : Nat) :
    mulBelow taps factor (shift taps register) count =
      shift taps (mulBelow taps factor register count) := by
  induction count with
  | zero => exact (shift_zero taps).symm
  | succ count inductionHypothesis =>
    rw [mulBelow, mulBelow, inductionHypothesis, shift_xor]
    cases factor.getLsbD count
    · simp only [Bool.false_eq_true, if_false, shift_zero]
    · simp only [if_true, ← Function.iterate_succ_apply, ← Function.iterate_succ_apply']

theorem mulBelow_zero (factor : BitVec width) (count : Nat) :
    mulBelow taps factor (BitVec.ofNat width 0) count = BitVec.ofNat width 0 := by
  induction count with
  | zero => rfl
  | succ count inductionHypothesis =>
    rw [mulBelow, inductionHypothesis, iterate_zero, ite_self, BitVec.xor_zero]

/-- The first steps from one only move the bit up. -/
theorem iterate_one (count : Nat) (below : count < width) :
    (shift taps)^[count] (BitVec.ofNat width 1) = BitVec.twoPow width count := by
  induction count with
  | zero => exact (BitVec.twoPow_zero).symm
  | succ count inductionHypothesis =>
    have clear : (BitVec.twoPow width count).msb = false := by
      rw [BitVec.msb_eq_getLsbD_last, BitVec.getLsbD_twoPow, Bool.and_eq_false_iff,
        decide_eq_false_iff_not, decide_eq_false_iff_not]
      omega
    rw [Function.iterate_succ_apply', inductionHypothesis (by omega), shift, clear,
      if_neg Bool.false_ne_true, BitVec.twoPow_eq, ← BitVec.shiftLeft_add, ← BitVec.twoPow_eq]

theorem mulBelow_one (factor : BitVec width) (count : Nat) (bound : count ≤ width) (index : Nat) :
    (mulBelow taps factor (BitVec.ofNat width 1) count).getLsbD index =
      (factor.getLsbD index && decide (index < count)) := by
  induction count with
  | zero => simp [mulBelow]
  | succ count inductionHypothesis =>
    rw [mulBelow, BitVec.getLsbD_xor, inductionHypothesis (by omega),
      iterate_one taps count (by omega)]
    by_cases here : index = count
    · subst here
      cases bit : factor.getLsbD index
      · simp
      · simp [show index < width by omega]
    · have apart : decide (index < count + 1) = decide (index < count) := by
        rw [decide_eq_decide]
        omega
      rw [apart]
      cases factor.getLsbD count <;> simp [BitVec.getLsbD_twoPow, Ne.symm here]

theorem mul_one (factor : BitVec width) : mul taps factor (BitVec.ofNat width 1) = factor := by
  refine BitVec.eq_of_getLsbD_eq fun index bound => ?_
  rw [mul, mulBelow_one taps factor width (Nat.le_refl _) index]
  simp [bound]

/-- Going some steps on is multiplying by the register that as many steps reach from one. -/
theorem iterate_eq_mul (count : Nat) (register : BitVec width) :
    (shift taps)^[count] register =
      mul taps ((shift taps)^[count] (BitVec.ofNat width 1)) register := by
  have powers : ∀ index, (shift taps)^[count] ((shift taps)^[index] (BitVec.ofNat width 1)) =
      mul taps ((shift taps)^[count] (BitVec.ofNat width 1))
        ((shift taps)^[index] (BitVec.ofNat width 1)) := by
    intro index
    induction index with
    | zero => exact (mul_one taps _).symm
    | succ index inductionHypothesis =>
      rw [Function.iterate_succ_apply', mul, mulBelow_shift, ← mul, ← inductionHypothesis,
        ← Function.iterate_succ_apply, Function.iterate_succ_apply']
  have sums : ∀ below, (shift taps)^[count] (mulBelow taps register (BitVec.ofNat width 1) below) =
      mul taps ((shift taps)^[count] (BitVec.ofNat width 1))
        (mulBelow taps register (BitVec.ofNat width 1) below) := by
    intro below
    induction below with
    | zero => rw [mulBelow, iterate_zero, mul, mulBelow_zero]
    | succ below inductionHypothesis =>
      rw [mulBelow, iterate_xor, mul, mulBelow_xor, ← mul, ← mul, inductionHypothesis]
      congr 1
      cases register.getLsbD below
      · simp only [Bool.false_eq_true, if_false, iterate_zero, mul, mulBelow_zero]
      · simp only [if_true, powers]
  have whole := sums width
  rwa [← mul, mul_one] at whole

theorem iterate_one_add (first second : Nat) :
    (shift taps)^[first + second] (BitVec.ofNat width 1) =
      mul taps ((shift taps)^[first] (BitVec.ofNat width 1))
        ((shift taps)^[second] (BitVec.ofNat width 1)) := by
  rw [Function.iterate_add_apply, iterate_eq_mul taps first]

/-- The number with the given binary digits, the highest first. -/
def value (digits : List Bool) : Nat :=
  digits.foldl (fun number digit => 2 * number + digit.toNat) 0

/-- Square and multiply: the register as many steps from one as the digits say. -/
def power (digits : List Bool) : BitVec width :=
  digits.foldl (fun register digit =>
    if digit then shift taps (mul taps register register) else mul taps register register)
    (BitVec.ofNat width 1)

theorem power_eq (digits : List Bool) :
    power taps digits = (shift taps)^[value digits] (BitVec.ofNat width 1) := by
  have steps : ∀ count, digits.foldl (fun register digit =>
      if digit then shift taps (mul taps register register) else mul taps register register)
        ((shift taps)^[count] (BitVec.ofNat width 1)) =
      (shift taps)^[digits.foldl (fun number digit => 2 * number + digit.toNat) count]
        (BitVec.ofNat width 1) := by
    induction digits with
    | nil => exact fun _ => rfl
    | cons digit rest inductionHypothesis =>
      intro count
      rw [List.foldl_cons, List.foldl_cons, ← inductionHypothesis, ← iterate_one_add,
        ← two_mul]
      cases digit
      · rfl
      · rw [if_pos rfl, ← Function.iterate_succ_apply' (shift taps)]
        rfl
  exact steps 0

/-- A point of period `period` returns no earlier when it does not return after any of the
quotients of the period by its prime divisors. -/
theorem iterate_ne_of_lt_period {Point : Type} (next : Point → Point) (point : Point)
    (period : Nat) (back : next^[period] point = point)
    (quotients : ∀ prime, prime.Prime → prime ∣ period → next^[period / prime] point ≠ point)
    (count : Nat) (moved : 0 < count) (below : count < period) : next^[count] point ≠ point := by
  intro early
  have least : Function.minimalPeriod next point ∣ period :=
    Function.IsPeriodicPt.minimalPeriod_dvd back
  have smaller : Function.minimalPeriod next point ≤ count :=
    Function.IsPeriodicPt.minimalPeriod_le moved early
  obtain ⟨cofactor, product⟩ := least
  have proper : cofactor ≠ 1 := by
    rintro rfl
    omega
  obtain ⟨prime, isPrime, rest, divides⟩ := Nat.exists_prime_and_dvd proper
  refine quotients prime isPrime ⟨Function.minimalPeriod next point * rest, ?_⟩ ?_
  · rw [product, divides]
    ac_rfl
  · have quotient : period / prime = Function.minimalPeriod next point * rest := by
      refine Nat.div_eq_of_eq_mul_right isPrime.pos ?_
      rw [product, divides]
      ac_rfl
    rw [quotient]
    exact (Function.isPeriodicPt_minimalPeriod next point).mul_const rest

end ShiftRegister

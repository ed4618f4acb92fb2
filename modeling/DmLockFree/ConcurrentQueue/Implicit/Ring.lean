import DmLockFree.ConcurrentQueue.Implicit.Index
import Mathlib.Data.List.Rotate
import Mathlib.Data.Nat.ModEq

/-!
# Where the blocks are in a `BlockIndex`

Blocks are numbered in the order in which they are inserted. Every ring, also one
that was replaced, still has the entries of the blocks in its window at the places
that the distance to its tail says.
-/

set_option autoImplicit false

namespace DmLockFree.ConcurrentQueue

/-- The key of a block. -/
def baseOf (number : Nat) : UInt64 := .ofNat (32 * number)

theorem baseOf_ne_invalid (number : Nat) : baseOf number ≠ INVALID_BLOCK_BASE := by
  intro same
  have words := congrArg UInt64.toNat same
  rw [baseOf, UInt64.toNat_ofNat', INVALID_BLOCK_BASE] at words
  change 32 * number % 2 ^ 64 = 1 at words
  omega

theorem baseOf_inj {left right : Nat} (same : baseOf left = baseOf right)
    (close : right < left + 2 ^ 59) (far : left < right + 2 ^ 59) : left = right := by
  have words := congrArg UInt64.toNat same
  rw [baseOf, baseOf, UInt64.toNat_ofNat', UInt64.toNat_ofNat'] at words
  omega

theorem toNat_pred {capacity : UInt64} (positive : 0 < capacity.toNat) :
    (capacity - 1).toNat = capacity.toNat - 1 :=
  UInt64.toNat_sub_of_le capacity 1 (UInt64.le_iff_toNat_le.mpr positive)

theorem mask_toNat {header : BlockIndexHeader} {exponent : Nat}
    (power : header.capacity.toNat = 2 ^ exponent) (position : UInt64) :
    (header.mask position).toNat = position.toNat % header.capacity.toNat := by
  have positive : 0 < header.capacity.toNat := by
    rw [power]
    exact Nat.two_pow_pos exponent
  rw [BlockIndexHeader.mask, UInt64.toNat_and, toNat_pred positive, power,
    Nat.and_two_pow_sub_one_eq_mod]

/-- The blocks from `low` on have their entries in a ring, up to `reach`; the tail is
at the last one below `top`. -/
structure Window where
  offset : Nat
  low : Nat
  top : Nat
  reach : Nat

/-- The entry of every block, and what every ring covers. -/
structure Slots where
  slot : Nat → Nat
  window : Nat → Window
  reach : Nat

/-- The place of a block in a ring. -/
def Window.place (window : Window) (header : BlockIndexHeader) (number : Nat) : Nat :=
  (window.offset + number) % header.capacity.toNat

structure Covers (entries : Nat) (slot : Nat → Nat) (header : BlockIndexHeader) (tail : UInt64)
    (window : Window) : Prop where
  power : ∃ exponent ≤ 58, header.capacity.toNat = 2 ^ exponent
  length : header.index.length = header.capacity.toNat
  nodup : header.index.Nodup
  bounded : ∀ entry ∈ header.index, entry < entries
  slots : ∀ number, window.low ≤ number → number < window.reach →
    header.index[window.place header number]? = some (slot number)
  low_le : window.low ≤ window.top
  top_le : window.top ≤ window.reach
  short : tail.toNat < header.capacity.toNat
  tail : (tail.toNat + 1) % header.capacity.toNat = window.place header window.top

/-- `used` has the blocks that stand in their entries. -/
structure Indexed (index : BlockIndex) (slots : Slots) (used : Nat → Option Nat) : Prop where
  covers : ∀ pointer header, index.header pointer = some header →
    Covers index.entries.length slots.slot header (index.tails pointer) (slots.window pointer)
  reach_le : ∀ pointer header, index.header pointer = some header →
    (slots.window pointer).reach ≤ slots.reach
  current : ∀ pointer, index.blockIndex = some pointer → ∃ header,
    index.header pointer = some header ∧ (slots.window pointer).reach = slots.reach ∧
      slots.reach ≤ (slots.window pointer).top + 1 ∧
      index.nextBlockIndexCapacity.toNat = 2 * header.capacity.toNat
  stands : ∀ number block, used number = some block → ∃ pointer header,
    index.blockIndex = some pointer ∧ index.header pointer = some header ∧
      (slots.window pointer).low ≤ number ∧ number < (slots.window pointer).top ∧
      (slots.window pointer).top ≤ number + header.capacity.toNat ∧
      index.entries[slots.slot number]? = some ⟨baseOf number, some block⟩
  keyed : ∀ first block, used first = some block → ∀ number, first ≤ number →
    number < slots.reach → ∃ value,
      index.entries[slots.slot number]? = some ⟨baseOf number, value⟩

section Places

variable {entries : Nat} {slot : Nat → Nat} {header : BlockIndexHeader} {tail : UInt64}
  {window : Window} {number other : Nat}

theorem Covers.positive (covers : Covers entries slot header tail window) :
    0 < header.capacity.toNat := by
  obtain ⟨exponent, _, power⟩ := covers.power
  rw [power]
  exact Nat.two_pow_pos exponent

theorem Covers.le (covers : Covers entries slot header tail window) :
    header.capacity.toNat ≤ 2 ^ 58 := by
  obtain ⟨exponent, small, power⟩ := covers.power
  rw [power]
  exact Nat.pow_le_pow_right (by decide) small

theorem Covers.place_lt (covers : Covers entries slot header tail window) (number : Nat) :
    window.place header number < header.index.length := by
  rw [covers.length]
  exact Nat.mod_lt _ covers.positive

/-- Equal places are a multiple of the capacity apart. -/
theorem Window.place_inj (same : window.place header number = window.place header other)
    (ordered : number ≤ other) (close : other < number + header.capacity.toNat) :
    number = other := by
  obtain ⟨distance, rfl⟩ := Nat.exists_eq_add_of_le ordered
  have cancelled : 0 ≡ distance [MOD header.capacity.toNat] := by
    apply Nat.ModEq.add_left_cancel' (window.offset + number)
    rw [Nat.add_zero, Nat.add_assoc]
    exact same
  have small : distance < header.capacity.toNat := by omega
  rw [Nat.ModEq, Nat.zero_mod, Nat.mod_eq_of_lt small] at cancelled
  omega

/-- The same with the entries. -/
theorem Covers.entry_inj (covers : Covers entries slot header tail window) {entry : Nat}
    (here : header.index[window.place header number]? = some entry)
    (there : header.index[window.place header other]? = some entry) (ordered : number ≤ other)
    (close : other < number + header.capacity.toNat) : number = other := by
  have same : window.place header number = window.place header other :=
    (List.getElem?_inj (covers.place_lt number) covers.nodup).mp (here.trans there.symm)
  exact Window.place_inj same ordered close

theorem Covers.mask_toNat (covers : Covers entries slot header tail window) (position : UInt64) :
    (header.mask position).toNat = position.toNat % header.capacity.toNat := by
  obtain ⟨exponent, _, power⟩ := covers.power
  exact ConcurrentQueue.mask_toNat power position

/-- The place behind another. -/
theorem Covers.mask_succ (covers : Covers entries slot header tail window) {position : UInt64}
    (short : position.toNat < header.capacity.toNat) :
    (header.mask (position + 1)).toNat = (position.toNat + 1) % header.capacity.toNat := by
  have small := covers.le
  rw [covers.mask_toNat, UInt64.toNat_add]
  change (position.toNat + 1) % 2 ^ 64 % _ = _
  rw [Nat.mod_eq_of_lt (by omega : position.toNat + 1 < 2 ^ 64)]

theorem Covers.place_succ (covers : Covers entries slot header tail window) {position : UInt64}
    (here : position.toNat = window.place header number) :
    (header.mask (position + 1)).toNat = window.place header (number + 1) := by
  have short : position.toNat < header.capacity.toNat := by
    rw [here]
    exact Nat.mod_lt _ covers.positive
  rw [covers.mask_succ short, here, Window.place, Window.place, Nat.mod_add_mod, Nat.add_assoc]

/-- The place behind the tail is that of the next block. -/
theorem Covers.behind_tail (covers : Covers entries slot header tail window) :
    (header.mask (tail + 1)).toNat = window.place header window.top := by
  rw [covers.mask_succ covers.short, covers.tail]

theorem Covers.tail_place (covers : Covers entries slot header tail window)
    (last : window.top = number + 1) : tail.toNat = window.place header number := by
  have same : tail.toNat ≡ window.offset + number [MOD header.capacity.toNat] := by
    apply Nat.ModEq.add_right_cancel' 1
    rw [Nat.add_assoc, ← last]
    exact covers.tail
  rw [Nat.ModEq, Nat.mod_eq_of_lt covers.short] at same
  exact same

/-- The place before the tail. -/
theorem Covers.before_tail (covers : Covers entries slot header tail window)
    (last : window.top = number + 1) :
    (header.mask (tail - 1)).toNat < header.capacity.toNat ∧
      ((header.mask (tail - 1)).toNat + 1) % header.capacity.toNat =
        window.place header number := by
  have positive := covers.positive
  have here := covers.tail_place last
  have short := covers.short
  obtain ⟨exponent, small, power⟩ := covers.power
  have divides : header.capacity.toNat ∣ 2 ^ 64 := by
    rw [power]
    exact Nat.pow_dvd_pow 2 (by omega)
  rw [covers.mask_toNat]
  refine ⟨Nat.mod_lt _ positive, ?_⟩
  rw [Nat.mod_add_mod, ← here, UInt64.toNat_sub]
  change ((2 ^ 64 - 1 + tail.toNat) % 2 ^ 64 + 1) % header.capacity.toNat = tail.toNat
  rw [Nat.add_mod, Nat.mod_mod_of_dvd _ divides, ← Nat.add_mod,
    show 2 ^ 64 - 1 + tail.toNat + 1 = 2 ^ 64 + tail.toNat by omega, Nat.add_mod,
    Nat.mod_eq_zero_of_dvd divides, Nat.zero_add, Nat.mod_mod, Nat.mod_eq_of_lt short]

/-- The distance of two bases leads from the place of one block to that of the other. -/
theorem Covers.locate (covers : Covers entries slot header tail window) {position : UInt64}
    (here : position.toNat = window.place header other) (ordered : number ≤ other)
    (close : other < number + 2 ^ 59) :
    (header.locate position (baseOf other) (baseOf number)).toNat =
      window.place header number := by
  obtain ⟨distance, rfl⟩ := Nat.exists_eq_add_of_le ordered
  obtain ⟨exponent, small, power⟩ := covers.power
  have divides : header.capacity.toNat ∣ 2 ^ 59 := by
    rw [power]
    exact Nat.pow_dvd_pow 2 (by omega)
  have short : position.toNat < 2 ^ 58 := by
    have most := covers.le
    have within := Nat.mod_lt (window.offset + (number + distance)) covers.positive
    rw [here]
    exact Nat.lt_of_lt_of_le within most
  have steps : ((baseOf number - baseOf (number + distance)) / BLOCK_SIZE).toNat =
      (2 ^ 59 - distance) % 2 ^ 59 := by
    rw [UInt64.toNat_div, UInt64.toNat_sub, baseOf, baseOf, UInt64.toNat_ofNat',
      UInt64.toNat_ofNat']
    change (2 ^ 64 - 32 * (number + distance) % 2 ^ 64 + 32 * number % 2 ^ 64) % 2 ^ 64 / 32 = _
    omega
  rw [BlockIndexHeader.locate, covers.mask_toNat, UInt64.toNat_add, steps,
    Nat.mod_eq_of_lt (by omega : position.toNat + (2 ^ 59 - distance) % 2 ^ 59 < 2 ^ 64)]
  have whole : position.toNat + (2 ^ 59 - distance) % 2 ^ 59 ≡ window.offset + number
      [MOD header.capacity.toNat] := by
    apply Nat.ModEq.add_right_cancel' distance
    have there : position.toNat ≡ window.offset + number + distance
        [MOD header.capacity.toNat] := by
      rw [here, Nat.add_assoc]
      exact Nat.mod_modEq ..
    have around : (2 ^ 59 - distance) % 2 ^ 59 + distance ≡ 0 [MOD header.capacity.toNat] := by
      refine (Nat.modEq_zero_iff_dvd).mpr (Nat.dvd_trans divides ?_)
      omega
    rw [Nat.add_assoc]
    exact there.add around
  exact whole

end Places

end DmLockFree.ConcurrentQueue

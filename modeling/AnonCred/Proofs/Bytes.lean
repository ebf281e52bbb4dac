import AnonCred.Bytes
import Mathlib.Data.List.Induction
import Mathlib.Tactic.Ring

/-!
# Byte strings tell numbers apart

The value of a byte string is below the capacity of its length, and strings of one length with one
value are the same. So the forms of a number are known by their length: `ofNat` is the form without
zeros in front, `ofNatWidth` the one at a given width.

* `toNat_inj` — at one length, a value has one form
* `toNat_ofNat` — the shortest form loses nothing
* `length_ofNat_le` — what fits into a width
* `zeros_append_ofNat` — the shortest form with zeros in front is the one at full width
* `exceeds_iff` — which numbers have no form at a width or below
-/

namespace AnonCred.Bytes

/-! ## The value of bytes -/

theorem capacity_pos (width : Nat) : 0 < capacity width := Nat.pow_pos (by omega)

theorem toNat_append (front back : Bytes) :
    toNat (front ++ back) = toNat front * capacity back.length + toNat back := by
  induction back using List.reverseRecOn with
  | nil => simp [toNat, capacity]
  | append_singleton back b ih =>
    rw [← List.append_assoc, toNat_append_singleton, toNat_append_singleton, ih,
      List.length_append, List.length_singleton, capacity_succ]
    ring

theorem toNat_lt (bytes : Bytes) : toNat bytes < capacity bytes.length := by
  induction bytes using List.reverseRecOn with
  | nil => decide
  | append_singleton bytes b ih =>
    have hb := b.toNat_lt
    rw [toNat_append_singleton, List.length_append, List.length_singleton, capacity_succ]
    omega

theorem toNat_replicate_zero (n : Nat) : toNat (List.replicate n 0) = 0 := by
  induction n with
  | zero => rfl
  | succ n ih =>
    rw [List.replicate_succ', toNat_append_singleton, ih]
    rfl

/-- Bytes are the form of their value at their own length. -/
theorem ofNatWidth_toNat (bytes : Bytes) : ofNatWidth bytes.length (toNat bytes) = bytes := by
  induction bytes using List.reverseRecOn with
  | nil => rfl
  | append_singleton bytes b ih =>
    have hb := b.toNat_lt
    rw [List.length_append, List.length_singleton, ofNatWidth, toNat_append_singleton,
      show (toNat bytes * 256 + b.toNat) / 256 = toNat bytes by omega,
      show (toNat bytes * 256 + b.toNat) % 256 = b.toNat by omega, ih, UInt8.ofNat_toNat]

/-- At one length, a value has one form. -/
theorem toNat_inj {a b : Bytes} (hlength : a.length = b.length) (h : toNat a = toNat b) :
    a = b := by
  rw [← ofNatWidth_toNat a, ← ofNatWidth_toNat b, hlength, h]

theorem toNat_ofNatWidth_of_lt {width n : Nat} (h : n < capacity width) :
    toNat (ofNatWidth width n) = n := by
  rw [toNat_ofNatWidth, Nat.mod_eq_of_lt h]

/-! ## The shortest form -/

theorem ofNatAppend_eq (n : Nat) (tail : Bytes) : ofNatAppend n tail = ofNat n ++ tail := by
  unfold ofNat
  induction n using Nat.strongRecOn generalizing tail with
  | _ n ih =>
    rw [ofNatAppend]
    conv_rhs => rw [ofNatAppend]
    split
    · rfl
    · next h =>
      rw [ih (n / 256) (by omega), ih (n / 256) (by omega) [_], List.append_assoc]
      rfl

theorem ofNat_of_lt {n : Nat} (h : n < 256) : ofNat n = [UInt8.ofNat n] := by
  rw [ofNat, ofNatAppend, if_pos h]

/-- The last byte is the remainder. -/
theorem ofNat_of_le {n : Nat} (h : 256 ≤ n) :
    ofNat n = ofNat (n / 256) ++ [UInt8.ofNat (n % 256)] := by
  rw [ofNat, ofNatAppend, if_neg (by omega), ofNatAppend_eq]

theorem ofNat_ne_nil (n : Nat) : ofNat n ≠ [] := by
  by_cases h : n < 256
  · rw [ofNat_of_lt h]
    exact List.cons_ne_nil _ _
  · rw [ofNat_of_le (by omega)]
    exact List.concat_ne_nil _ _

/-- The shortest form loses nothing. -/
theorem toNat_ofNat (n : Nat) : toNat (ofNat n) = n := by
  induction n using Nat.strongRecOn with
  | _ n ih =>
    by_cases h : n < 256
    · rw [ofNat_of_lt h]
      simp [toNat, Nat.mod_eq_of_lt h]
    · rw [ofNat_of_le (by omega), toNat_append_singleton, ih (n / 256) (by omega),
        UInt8.toNat_ofNat']
      omega

theorem ofNat_injective : Function.Injective ofNat := by
  intro m n h
  rw [← toNat_ofNat m, h, toNat_ofNat]

/-- The numbers whose shortest form fits into a width are those below its capacity. -/
theorem length_ofNat_le {width n : Nat} (hwidth : 0 < width) :
    (ofNat n).length ≤ width ↔ n < capacity width := by
  induction width generalizing n with
  | zero => omega
  | succ width ih =>
    rw [capacity_succ]
    have hpos := capacity_pos width
    by_cases h : n < 256
    · rw [ofNat_of_lt h, List.length_singleton]
      refine iff_of_true (by omega) (Nat.lt_of_lt_of_le h (Nat.le_mul_of_pos_right 256 hpos))
    · rw [ofNat_of_le (by omega), List.length_append, List.length_singleton,
        Nat.add_le_add_iff_right]
      rcases Nat.eq_zero_or_pos width with rfl | hpos
      · have hne := List.length_pos_iff.mpr (ofNat_ne_nil (n / 256))
        refine iff_of_false (by omega) ?_
        change ¬n < 256 * 1
        omega
      · rw [ih hpos, Nat.div_lt_iff_lt_mul (by omega), Nat.mul_comm]

/-- With zeros in front up to a width, the shortest form is the one of that width. -/
theorem zeros_append_ofNat {width n : Nat} (h : (ofNat n).length ≤ width) :
    List.replicate (width - (ofNat n).length) 0 ++ ofNat n = ofNatWidth width n := by
  have hpos := List.length_pos_iff.mpr (ofNat_ne_nil n)
  have hlt : n < capacity width := (length_ofNat_le (by omega)).mp h
  refine toNat_inj ?_ ?_
  · rw [List.length_append, List.length_replicate, length_ofNatWidth]
    omega
  · rw [toNat_append, toNat_replicate_zero, toNat_ofNat, toNat_ofNatWidth_of_lt hlt]
    omega

/-! ## Numbers too long for a width -/

/-- Whatever bytes stand for the number are more than so many. -/
def Exceeds (width n : Nat) : Prop := ∀ bytes : Bytes, bytes.toNat = n → width < bytes.length

theorem exceeds_iff {width n : Nat} : Exceeds width n ↔ capacity width ≤ n := by
  constructor
  · intro h
    by_contra hlt
    have hself := h _ (toNat_ofNatWidth_of_lt (Nat.lt_of_not_le hlt))
    rw [length_ofNatWidth] at hself
    exact Nat.lt_irrefl width hself
  · rintro hle bytes rfl
    by_contra hshort
    have hcapacity : capacity bytes.length ≤ capacity width :=
      Nat.pow_le_pow_right (by omega) (Nat.le_of_not_lt hshort)
    exact absurd (Nat.lt_of_lt_of_le (toNat_lt bytes) hcapacity) (Nat.not_lt.mpr hle)

end AnonCred.Bytes

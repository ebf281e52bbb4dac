import Mathlib.Algebra.Group.Nat.Even
import AnonCred.Group

/-!
# What a draw can answer

A draw is read in two directions here. From an answer back to the draws that it is made of
(`Draw.bind_eq_some`, `below_lt`, `randomUnit_range`); and from an answer that is wanted forward to
a stream that leads to it (`Draw.Steerable`).

* `Draw.accepted_kept` — an accepted value was drawn where the draws before it left the stream
* `Draw.steerable_below`, `CyclicGroup.steerable_scalar` — every value in range can be drawn
* `Draw.Steerable.possible` — one stream leads to a whole sequence of wanted answers
-/

namespace AnonCred

namespace Draw

variable {α β : Type}

/-! ## Steps of a draw -/

theorem bind_eq_some {d : Draw α} {f : α → Draw β} {source next : Source} {b : β} :
    (d >>= f) source = some (b, next) ↔
      ∃ a middle, d source = some (a, middle) ∧ f a middle = some (b, next) := by
  simp only [bind, StateT.bind, Option.bind_eq_some_iff, Prod.exists]

theorem pure_eq_some {source next : Source} {a b : α} :
    (pure a : Draw α) source = some (b, next) ↔ a = b ∧ source = next := by
  rw [show (pure a : Draw α) source = some (a, source) from rfl, Option.some.injEq, Prod.mk.injEq]

theorem bind_of_eq_some {d : Draw α} {source middle : Source} {a : α}
    (h : d source = some (a, middle)) (f : α → Draw β) : (d >>= f) source = f a middle := by
  simp only [bind, StateT.bind, h, Option.bind_some]

theorem bind_of_eq_none {d : Draw α} {source : Source} (h : d source = none) (f : α → Draw β) :
    (d >>= f) source = none := by
  simp only [bind, StateT.bind, h, Option.bind_none]

/-- A sequence ends where its steps do. -/
theorem isSome_bind_iff {d : Draw α} {f : α → Draw β} {source : Source} :
    ((d >>= f) source).isSome ↔
      ∃ a middle, d source = some (a, middle) ∧ (f a middle).isSome := by
  simp only [Option.isSome_iff_exists, Prod.exists, bind_eq_some]
  constructor
  · rintro ⟨b, next, a, middle, hd, hf⟩
    exact ⟨a, middle, hd, b, next, hf⟩
  · rintro ⟨a, middle, hd, b, next, hf⟩
    exact ⟨b, next, a, middle, hd, hf⟩

/-! ## Rejection -/

/-- What a loop answers comes from its last attempt. What every attempt before it keeps of the stream
still holds there. -/
theorem attempts_kept {attempt : Draw (Option α)} {P : Source → Prop}
    (hkept : ∀ source middle, P source → attempt source = some (none, middle) → P middle)
    {n : Nat} {source next : Source} {a : α} (hsource : P source)
    (h : attempts attempt n source = some (a, next)) :
    ∃ before, P before ∧ attempt before = some (some a, next) := by
  induction n generalizing source with
  | zero => cases h
  | succ n ih =>
    obtain ⟨outcome, middle, hfirst, hrest⟩ := bind_eq_some.mp h
    cases outcome with
    | some a' =>
      obtain ⟨rfl, rfl⟩ := pure_eq_some.mp hrest
      exact ⟨source, hsource, hfirst⟩
    | none => exact ih (hkept source middle hsource hfirst) hrest

theorem untilSome_kept {attempt : Draw (Option α)} {P : Source → Prop}
    (hkept : ∀ source middle, P source → attempt source = some (none, middle) → P middle)
    {source next : Source} {a : α} (hsource : P source)
    (h : untilSome attempt source = some (a, next)) :
    ∃ before, P before ∧ attempt before = some (some a, next) := by
  obtain ⟨current, middle, hget, hrest⟩ := bind_eq_some.mp h
  obtain ⟨rfl, rfl⟩ : source = current ∧ source = middle := Prod.mk.inj (Option.some.inj hget)
  exact attempts_kept hkept hsource hrest

theorem untilSome_eq_some {attempt : Draw (Option α)} {source next : Source} {a : α}
    (h : untilSome attempt source = some (a, next)) :
    ∃ before, attempt before = some (some a, next) := by
  obtain ⟨before, -, hbefore⟩ := untilSome_kept (P := fun _ => True) (fun _ _ _ _ => trivial) trivial h
  exact ⟨before, hbefore⟩

/-- What a rejection loop answers was accepted, and was the last that it drew. -/
theorem accepted_kept {draw : Draw α} {accept : α → Bool} {P : Source → Prop}
    (hkept : ∀ source middle a, P source → draw source = some (a, middle) → P middle)
    {source next : Source} {a : α} (hsource : P source)
    (h : accepted draw accept source = some (a, next)) :
    accept a = true ∧ ∃ before, P before ∧ draw before = some (a, next) := by
  have hrejected : ∀ source middle, P source →
      (draw >>= fun a => pure (if accept a then some a else none) : Draw (Option α)) source
        = some (none, middle) → P middle := by
    intro source middle hP hattempt
    obtain ⟨drawn, last, hdraw, hrest⟩ := bind_eq_some.mp hattempt
    obtain ⟨-, rfl⟩ := pure_eq_some.mp hrest
    exact hkept source last drawn hP hdraw
  obtain ⟨before, hbefore, hattempt⟩ := untilSome_kept hrejected hsource h
  obtain ⟨drawn, middle, hdraw, hrest⟩ := bind_eq_some.mp hattempt
  obtain ⟨hsome, rfl⟩ := pure_eq_some.mp hrest
  obtain ⟨haccept, heq⟩ := Option.ite_none_right_eq_some.mp hsome
  cases heq
  exact ⟨haccept, before, hbefore, hdraw⟩

/-- What a rejection loop answers was accepted, and drawn at some point of the stream. -/
theorem accepted_eq_some {draw : Draw α} {accept : α → Bool} {source next : Source} {a : α}
    (h : accepted draw accept source = some (a, next)) :
    accept a = true ∧ ∃ before, draw before = some (a, next) := by
  obtain ⟨haccept, before, -, hbefore⟩ :=
    accepted_kept (P := fun _ => True) (fun _ _ _ _ _ => trivial) trivial h
  exact ⟨haccept, before, hbefore⟩

theorem below_lt {bound k : Nat} {source next : Source}
    (h : below bound source = some (k, next)) : k < bound := by
  unfold below at h
  split at h
  · cases h
  · exact of_decide_eq_true (accepted_eq_some h).1

theorem range_bounds {low high k : Nat} {source next : Source}
    (h : range low high source = some (k, next)) : low ≤ k ∧ k < high := by
  obtain ⟨offset, middle, hbelow, hrest⟩ := bind_eq_some.mp h
  obtain ⟨rfl, -⟩ := pure_eq_some.mp hrest
  have hlt := below_lt hbelow
  omega

/-! ## Wanted answers -/

/-- Some stream leads to the answer. -/
def Possible (d : Draw α) (a : α) : Prop := ∃ source next, d source = some (a, next)

theorem possible_of_map {d : Draw α} {a : α} (source : Source)
    (h : (d source).map Prod.fst = some a) : d.Possible a := by
  obtain ⟨⟨a', next⟩, hd, rfl⟩ := Option.map_eq_some_iff.mp h
  exact ⟨source, next, hd⟩

end Draw

/-- The bytes that are read next. -/
def Source.Shows (source : Source) (tape : Bytes) : Prop :=
  ∀ i, (h : i < tape.length) → source.byte (source.drawn + i) = tape[i]

/-- The stream after so many bytes. -/
def Source.skip (source : Source) (n : Nat) : Source := { source with drawn := source.drawn + n }

namespace Draw

variable {α β : Type}

/-- A tape leads to the answer from wherever it stands in a stream, and is read to its end. -/
def Steerable (d : Draw α) (a : α) : Prop :=
  ∃ tape : Bytes, ∀ source : Source, source.patience ≠ 0 → source.Shows tape →
    d source = some (a, source.skip tape.length)

theorem shows_append {source : Source} {first second : Bytes}
    (h : source.Shows (first ++ second)) :
    source.Shows first ∧ (source.skip first.length).Shows second := by
  constructor
  · intro i hi
    rw [h i (by rw [List.length_append]; omega), List.getElem_append_left hi]
  · intro i hi
    have hbyte := h (first.length + i) (by rw [List.length_append]; omega)
    rw [List.getElem_append_right (by omega)] at hbyte
    simp only [Nat.add_sub_cancel_left, ← Nat.add_assoc] at hbyte
    exact hbyte

namespace Steerable

theorem pure (a : α) : Steerable (pure a) a := ⟨[], fun _ _ _ => rfl⟩

theorem bind {d : Draw α} {f : α → Draw β} {a : α} {b : β} (hd : Steerable d a)
    (hf : Steerable (f a) b) : Steerable (d >>= f) b := by
  obtain ⟨first, hfirst⟩ := hd
  obtain ⟨second, hsecond⟩ := hf
  refine ⟨first ++ second, fun source hpatience hshows => ?_⟩
  obtain ⟨hleft, hright⟩ := shows_append hshows
  rw [bind_of_eq_some (hfirst source hpatience hleft),
    hsecond (source.skip first.length) hpatience hright, List.length_append]
  simp only [Source.skip, Nat.add_assoc]

/-- A wanted value that is accepted is drawn at the first attempt. -/
theorem accepted {draw : Draw α} {accept : α → Bool} {a : α} (h : Steerable draw a)
    (haccept : accept a = true) : Steerable (accepted draw accept) a := by
  obtain ⟨tape, htape⟩ := h
  refine ⟨tape, fun source hpatience hshows => ?_⟩
  obtain ⟨tries, htries⟩ := Nat.exists_eq_succ_of_ne_zero hpatience
  have hattempt :
      (draw >>= fun a => Pure.pure (if accept a then some a else none) : Draw (Option α)) source
      = some (some a, source.skip tape.length) := by
    rw [bind_of_eq_some (htape source hpatience hshows), if_pos haccept]
    rfl
  unfold Draw.accepted untilSome
  rw [bind_of_eq_some (show (get : Draw Source) source = some (source, source) from rfl), htries,
    attempts, bind_of_eq_some hattempt]
  rfl

/-- An answer that a tape leads to is possible: the stream may start with the tape. -/
theorem possible {d : Draw α} {a : α} (h : Steerable d a) : Possible d a := by
  obtain ⟨tape, htape⟩ := h
  refine ⟨⟨fun i => tape.getD i 0, 0, 1⟩, _, htape _ Nat.one_ne_zero ?_⟩
  intro i hi
  simp only [Nat.zero_add, List.getD_eq_getElem?_getD, List.getElem?_eq_getElem hi,
    Option.getD_some]

end Steerable

/-! ## Every number in range -/

/-- The little-endian digits of a number. -/
def littleDigits : Nat → Nat → Bytes
  | 0, _ => []
  | width + 1, n => UInt8.ofNat (n % 256) :: littleDigits width (n / 256)

theorem length_littleDigits (width n : Nat) : (littleDigits width n).length = width := by
  induction width generalizing n with
  | zero => rfl
  | succ width ih => rw [littleDigits, List.length_cons, ih]

theorem toNatLittle_littleDigits {width n : Nat} (h : n < 256 ^ width) :
    (littleDigits width n).toNatLittle = n := by
  induction width generalizing n with
  | zero =>
    rw [pow_zero] at h
    simp only [littleDigits, Bytes.toNatLittle]
    omega
  | succ width ih =>
    have hdiv : n / 256 < 256 ^ width := by
      rw [Nat.div_lt_iff_lt_mul (by decide), ← pow_succ]
      exact h
    have hdigit : (UInt8.ofNat (n % 256)).toNat = n % 256 := by
      rw [UInt8.toNat_ofNat']
      omega
    rw [littleDigits, Bytes.toNatLittle, ih hdiv, hdigit]
    omega

theorem steerable_bytes (tape : Bytes) : Steerable (bytes tape.length) tape := by
  refine ⟨tape, fun source _ hshows => ?_⟩
  have hread : (List.range tape.length).map (fun i => source.byte (source.drawn + i)) = tape := by
    apply List.ext_getElem
    · rw [List.length_map, List.length_range]
    · intro i hleft hright
      rw [List.getElem_map, List.getElem_range, hshows i hright]
  unfold bytes
  rw [hread]
  rfl

/-- A number of so many bytes can be read as little-endian bytes. -/
theorem exists_digits {width n : Nat} (h : n < 256 ^ width) :
    ∃ tape, tape.toNatLittle = n ∧ Steerable (bytes width) tape := by
  refine ⟨littleDigits width n, toNatLittle_littleDigits h, ?_⟩
  have hread := steerable_bytes (littleDigits width n)
  rwa [length_littleDigits] at hread

theorem steerable_bits {k n : Nat} (h : n < 2 ^ k) : Steerable (bits k) n := by
  unfold bits
  by_cases hk : k = 0
  · rw [if_pos hk]
    rw [hk, pow_zero] at h
    rw [show n = 0 by omega]
    exact Steerable.pure 0
  · rw [if_neg hk]
    -- `n` is its low words and a last word, which the draw cuts down by `2 ^ shift`
    obtain ⟨full, hfull⟩ : ∃ full, (k - 1) / 32 = full := ⟨_, rfl⟩
    obtain ⟨shift, hshift⟩ : ∃ shift, 32 * (full + 1) - k = shift := ⟨_, rfl⟩
    have hlow : n % 2 ^ (32 * full) < 256 ^ (4 * full) := by
      rw [show (256 : Nat) = 2 ^ 8 from rfl, ← pow_mul, show 8 * (4 * full) = 32 * full by omega]
      exact Nat.mod_lt _ (Nat.two_pow_pos _)
    have hhigh : n / 2 ^ (32 * full) * 2 ^ shift < 256 ^ 4 := by
      have hdiv : n / 2 ^ (32 * full) < 2 ^ (k - 32 * full) := by
        rw [Nat.div_lt_iff_lt_mul (Nat.two_pow_pos _), ← pow_add,
          show k - 32 * full + 32 * full = k by omega]
        exact h
      calc n / 2 ^ (32 * full) * 2 ^ shift
          < 2 ^ (k - 32 * full) * 2 ^ shift := Nat.mul_lt_mul_of_pos_right hdiv (Nat.two_pow_pos _)
        _ = 256 ^ 4 := by
          rw [← pow_add, show k - 32 * full + shift = 32 by omega]
          rfl
    obtain ⟨low, hlowValue, hlowRead⟩ := exists_digits hlow
    obtain ⟨high, hhighValue, hhighRead⟩ := exists_digits hhigh
    have hvalue : low.toNatLittle + Nat.pow 2 (32 * full) * (high.toNatLittle / Nat.pow 2 shift)
        = n := by
      rw [hlowValue, hhighValue]
      show n % 2 ^ (32 * full) + 2 ^ (32 * full) * (n / 2 ^ (32 * full) * 2 ^ shift / 2 ^ shift)
        = n
      rw [Nat.mul_div_cancel _ (Nat.two_pow_pos _), Nat.mod_add_div]
    rw [hfull]
    dsimp only
    rw [hshift]
    refine Steerable.bind hlowRead (Steerable.bind hhighRead ?_)
    rw [hvalue]
    exact Steerable.pure n

theorem lt_two_pow_bitLength (n : Nat) : n < 2 ^ bitLength n := by
  unfold bitLength
  split
  · next h => rw [h, pow_zero]; omega
  · exact Nat.lt_log2_self

theorem steerable_below {bound k : Nat} (h : k < bound) : Steerable (below bound) k := by
  unfold below
  rw [if_neg (by omega)]
  exact (steerable_bits (Nat.lt_trans h (lt_two_pow_bitLength bound))).accepted (decide_eq_true h)

theorem steerable_range {low high k : Nat} (hlow : low ≤ k) (hhigh : k < high) :
    Steerable (range low high) k := by
  unfold range
  refine (steerable_below (k := k - low) (by omega)).bind ?_
  rw [Nat.add_sub_cancel' hlow]
  exact Steerable.pure k

end Draw

/-! ## Exponents and elements -/

namespace CyclicGroup

open Draw

variable {E : Type} {G : CyclicGroup E} {source next : Source}

theorem randomScalar_lt {k : Nat} (h : G.randomScalar source = some (k, next)) : k < G.order :=
  below_lt h

theorem randomUnit_range {k : Nat} (h : G.randomUnit source = some (k, next)) :
    0 < k ∧ k < G.order := by
  obtain ⟨hne, before, hbefore⟩ := accepted_eq_some h
  exact ⟨Nat.pos_of_ne_zero (of_decide_eq_true hne), randomScalar_lt hbefore⟩

theorem randomElement_eq_some {x : E} (h : G.randomElement source = some (x, next)) :
    ∃ k < G.order, x = G.power k := by
  obtain ⟨k, middle, hk, hrest⟩ := bind_eq_some.mp h
  obtain ⟨rfl, rfl⟩ := pure_eq_some.mp hrest
  exact ⟨k, randomScalar_lt hk, rfl⟩

/-- So many random exponents. -/
def randomScalars (G : CyclicGroup E) : Nat → Draw (List Nat)
  | 0 => pure []
  | n + 1 => do
    let k ← G.randomScalar
    let rest ← G.randomScalars n
    pure (k :: rest)

theorem steerable_scalar {k : Nat} (h : k < G.order) : Steerable G.randomScalar k :=
  steerable_below h

theorem steerable_unit {k : Nat} (hpos : 0 < k) (h : k < G.order) : Steerable G.randomUnit k :=
  (steerable_scalar h).accepted (decide_eq_true (by omega))

end CyclicGroup

end AnonCred

import AnonCred.Proofs.Random.Uniform

/-!
# Draws read on in their stream

What a draw leaves behind is the stream that it started in, at the same place or further on. So the
attempts of a rejection loop all read one stream, and the one that succeeds is the last.

* `Draw.Advances` — a draw reads on
* `Draw.Advances.untilSome_eq_some` — where the attempt that succeeds starts
* `Draw.advances_bits`, `Draw.advances_range` — the draws that others are made of
-/

namespace AnonCred

theorem Source.skip_skip (source : Source) (m n : Nat) :
    (source.skip m).skip n = source.skip (m + n) := by
  simp only [skip, Nat.add_assoc]

namespace Draw

variable {α β : Type} {attempt : Draw (Option α)} {source next : Source} {a : α}

/-- The draw ends in the stream that it starts in, and not before the place where it starts. -/
def Advances (d : Draw α) : Prop :=
  ∀ source a next, d source = some (a, next) → ∃ n, next = source.skip n

namespace Advances

theorem pure (a : α) : Advances (pure a) := by
  intro source b next h
  obtain ⟨-, rfl⟩ := pure_eq_some.mp h
  exact ⟨0, rfl⟩

theorem bind {d : Draw α} {f : α → Draw β} (hd : Advances d) (hf : ∀ a, Advances (f a)) :
    Advances (d >>= f) := by
  intro source b next h
  obtain ⟨a, middle, hfirst, hrest⟩ := bind_eq_some.mp h
  obtain ⟨m, rfl⟩ := hd _ _ _ hfirst
  obtain ⟨n, rfl⟩ := hf a _ _ _ hrest
  exact ⟨m + n, source.skip_skip m n⟩

/-- A place that is reached by reading on stays so when one reads further. -/
theorem reached_of_eq_some {d : Draw β} (hd : Advances d) {before middle : Source} {b : β}
    (hbefore : ∃ k, before = source.skip k) (h : d before = some (b, middle)) :
    ∃ k, middle = source.skip k := by
  obtain ⟨k, rfl⟩ := hbefore
  obtain ⟨n, rfl⟩ := hd _ _ _ h
  exact ⟨k + n, source.skip_skip k n⟩

/-- What a loop answers comes from an attempt further on in the stream, at the end of the loop. -/
theorem untilSome_eq_some (hattempt : Advances attempt)
    (h : untilSome attempt source = some (a, next)) :
    ∃ k, attempt (source.skip k) = some (some a, next) := by
  obtain ⟨before, ⟨k, rfl⟩, hbefore⟩ :=
    untilSome_kept (fun _ _ hreached => hattempt.reached_of_eq_some hreached) ⟨0, rfl⟩ h
  exact ⟨k, hbefore⟩

theorem untilSome (hattempt : Advances attempt) : Advances (untilSome attempt) := by
  intro source a next h
  obtain ⟨k, hk⟩ := hattempt.untilSome_eq_some h
  exact hattempt.reached_of_eq_some ⟨k, rfl⟩ hk

theorem accepted_eq_some {draw : Draw α} {accept : α → Bool} (hdraw : Advances draw)
    (h : accepted draw accept source = some (a, next)) :
    accept a = true ∧ ∃ k, draw (source.skip k) = some (a, next) := by
  obtain ⟨haccept, before, ⟨k, rfl⟩, hbefore⟩ :=
    accepted_kept (fun _ _ _ hreached => hdraw.reached_of_eq_some hreached) ⟨0, rfl⟩ h
  exact ⟨haccept, k, hbefore⟩

end Advances

theorem advances_bits (k : Nat) : Advances (bits k) := by
  intro source n next h
  by_cases hk : k = 0
  · rw [bits, if_pos hk] at h
    exact Advances.pure 0 _ _ _ h
  · rw [bits_eq hk, Option.some.injEq, Prod.mk.injEq] at h
    exact ⟨_, h.2.symm⟩

theorem advances_below (bound : Nat) : Advances (below bound) := by
  unfold below
  split
  · intro source a next h
    cases h
  · exact ((advances_bits _).bind fun _ => Advances.pure _).untilSome

theorem advances_range (low high : Nat) : Advances (range low high) :=
  (advances_below _).bind fun _ => Advances.pure _

end Draw

end AnonCred

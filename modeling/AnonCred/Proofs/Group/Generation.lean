import AnonCred.Proofs.Group.Membership
import AnonCred.Proofs.Prime
import AnonCred.Proofs.Prime.Generation

/-!
# Groups of a random order

`generate` draws an order, tries the even cofactors from two on, and raises random bases to the
cofactor that it found until one power is not one. All three loops read the same stream. What a run
of them leaves behind is a `Generation`, and of the second loop a `CofactorSearch`, with the place in
the stream at which each cofactor was tested.

The last step checks the parameters like any others. Where the modulus is prime they pass: of
`p - 1 = r * q` and Fermat, a power `h ^ r` is a unit with the `q`-th power one. Where the order is
prime, too, the generator has it.

* `findCofactor_two` — the even cofactors before the one that is found were all refused
* `CofactorSearch.isLeast` — the cofactor is the least even one that makes a prime, if it makes one
* `generate_eq_some` — the run behind an outcome
* `generate_consistent` — what the parameters of a run are, and when they make a group
-/

namespace AnonCred.SchnorrGroup

open CyclicGroup Draw

variable {S : SchnorrGroup} {bits q r g : Nat} {source next : Source}

/-! ## The search for a cofactor -/

/-- The candidates are tested one after another from `start` on, each where the test before it left
the stream, and all but the last are refused. -/
theorem findCofactor_eq_some {tries start : Nat} :
    findCofactor q tries start source = some (r, next) ↔
      ∃ (stand : Nat → Source) (i : Nat), i < tries ∧ r = start + 2 * i ∧ stand 0 = source ∧
        stand (i + 1) = next ∧
        (∀ j < i, Prime.isProbablePrime ((start + 2 * j) * q + 1) Prime.rounds (stand j) =
          some (false, stand (j + 1))) ∧
        Prime.isProbablePrime (r * q + 1) Prime.rounds (stand i) = some (true, stand (i + 1)) := by
  induction tries generalizing start source with
  | zero =>
    refine ⟨fun h => ?_, fun ⟨_, i, hi, _⟩ => absurd hi (Nat.not_lt_zero i)⟩
    cases h
  | succ tries ih =>
    have hshift (j : Nat) : start + 2 + 2 * j = start + 2 * (j + 1) := by omega
    have hrest (source : Source) := @ih source (start + 2)
    simp only [hshift] at hrest
    constructor
    · intro h
      obtain ⟨accepted, middle, htest, hlater⟩ := bind_eq_some.mp h
      cases accepted with
      | true =>
        obtain ⟨rfl, rfl⟩ := pure_eq_some.mp hlater
        exact ⟨fun j => Nat.casesOn j source fun _ => middle, 0, Nat.succ_pos _, rfl, rfl, rfl,
          fun j hj => absurd hj (Nat.not_lt_zero j), htest⟩
      | false =>
        obtain ⟨stand, i, hi, hr, hstart, hend, hrefused, haccepted⟩ := (hrest middle).mp hlater
        -- the places of the later attempts, put after that of the first
        refine ⟨fun j => Nat.casesOn j source stand, i + 1, Nat.succ_lt_succ hi, hr, rfl, hend,
          fun j hj => ?_, haccepted⟩
        cases j with
        | zero =>
          show _ = some (false, stand 0)
          rw [hstart]
          exact htest
        | succ j => exact hrefused j (Nat.lt_of_succ_lt_succ hj)
    · rintro ⟨stand, i, hi, hr, rfl, hend, hrefused, haccepted⟩
      rw [findCofactor]
      cases i with
      | zero =>
        obtain rfl : r = start := hr
        rw [bind_of_eq_some haccepted, ← hend]
        rfl
      | succ i =>
        have htest : Prime.isProbablePrime (start * q + 1) Prime.rounds (stand 0) =
            some (false, stand 1) := hrefused 0 (Nat.succ_pos i)
        rw [bind_of_eq_some htest]
        exact (hrest _).mpr ⟨fun j => stand (j + 1), i, Nat.lt_of_succ_lt_succ hi, hr, rfl, hend,
          fun j hj => hrefused (j + 1) (Nat.succ_lt_succ hj), haccepted⟩

/-- A search for a cofactor of `q`: where the stream stood before the test of each even candidate, and
that all candidates below `r` were refused there and `r` was not. -/
structure CofactorSearch (q : Nat) (source : Source) (r : Nat) (next : Source) where
  stand : Nat → Source
  starts : stand 2 = source
  ends : stand (r + 2) = next
  two_le : 2 ≤ r
  even : Even r
  refused : ∀ k, 2 ≤ k → k < r → Even k →
    Prime.isProbablePrime (k * q + 1) Prime.rounds (stand k) = some (false, stand (k + 2))
  accepted : Prime.isProbablePrime (r * q + 1) Prime.rounds (stand r) = some (true, stand (r + 2))

/-- From two on the candidates are the even numbers. -/
theorem findCofactor_two {tries : Nat} :
    findCofactor q tries 2 source = some (r, next) ↔
      ∃ _ : CofactorSearch q source r next, r ≤ 2 * tries := by
  rw [findCofactor_eq_some]
  constructor
  · rintro ⟨stand, i, hi, rfl, hstart, hend, hrefused, haccepted⟩
    have hattempt (j : Nat) : (2 + 2 * j) / 2 - 1 = j := by omega
    have hattempt' (j : Nat) : (2 + 2 * j + 2) / 2 - 1 = j + 1 := by omega
    refine ⟨⟨fun k => stand (k / 2 - 1), ?_, ?_, by omega, ⟨i + 1, by omega⟩, ?_, ?_⟩, by omega⟩
    · exact hstart
    · rw [hattempt', hend]
    · rintro k hlow hhigh ⟨j, hj⟩
      obtain rfl : k = 2 + 2 * (j - 1) := by omega
      rw [hattempt, hattempt']
      exact hrefused (j - 1) (by omega)
    · rwa [hattempt, hattempt']
  · rintro ⟨search, hr⟩
    have hlow := search.two_le
    obtain ⟨i, rfl⟩ : ∃ i, r = 2 + 2 * i := by
      obtain ⟨j, hj⟩ := search.even
      exact ⟨j - 1, by omega⟩
    exact ⟨fun j => search.stand (2 + 2 * j), i, by omega, rfl, search.starts, search.ends,
      fun j hj => search.refused (2 + 2 * j) (by omega) (by omega) ⟨j + 1, by omega⟩,
      search.accepted⟩

/-- What the test refuses is not prime. So where the modulus is prime, no smaller cofactor makes a
prime. -/
theorem CofactorSearch.isLeast (search : CofactorSearch q source r next)
    (hp : (r * q + 1).Prime) : IsLeast {k | 2 ≤ k ∧ Even k ∧ (k * q + 1).Prime} r := by
  refine ⟨⟨search.two_le, search.even, hp⟩, fun k ⟨hlow, heven, hprime⟩ => ?_⟩
  by_contra hlt
  exact Bool.false_ne_true
    (Prime.eq_true_of_prime hprime (search.refused k hlow (Nat.lt_of_not_le hlt) heven))

/-! ## A run -/

/-- A run of `generate` up to its last step: the order `q`, the cofactor `r` and the generator `g`
that it found one after another. -/
structure Generation (bits : Nat) (source : Source) (q r g : Nat) (next : Source) where
  orderEnd : Source
  cofactorEnd : Source
  order_drawn : Prime.randomPrime bits source = some (q, orderEnd)
  search : CofactorSearch q orderEnd r cofactorEnd
  generator_drawn : findGenerator (r * q + 1) r cofactorEnd = some (g, next)

/-- The outcomes are those of the checks on what a run found; and every run has one, if there is
patience for its cofactor. -/
theorem generate_eq_some {outcome : Except Error SchnorrGroup} (hbits : 16 ≤ bits) :
    generate bits source = some (outcome, next) ↔
      ∃ q r g, ∃ run : Generation bits source q r g next,
        r ≤ 2 * run.orderEnd.patience ∧ outcome = ofParams (r * q + 1) q g := by
  rw [generate, if_neg (by omega)]
  constructor
  · intro h
    obtain ⟨q, middle, horder, hrest⟩ := bind_eq_some.mp h
    obtain ⟨current, middle', hget, hrest⟩ := bind_eq_some.mp hrest
    obtain ⟨rfl, rfl⟩ : middle = current ∧ middle = middle' :=
      Prod.mk.inj (Option.some.inj hget)
    obtain ⟨r, after, hcofactor, hrest⟩ := bind_eq_some.mp hrest
    obtain ⟨g, last, hgenerator, hlast⟩ := bind_eq_some.mp hrest
    obtain ⟨rfl, rfl⟩ := pure_eq_some.mp hlast
    obtain ⟨search, hpatience⟩ := findCofactor_two.mp hcofactor
    exact ⟨q, r, g, ⟨middle, after, horder, search, hgenerator⟩, hpatience, rfl⟩
  · rintro ⟨q, r, g, run, hpatience, rfl⟩
    have hcofactor := findCofactor_two.mpr ⟨run.search, hpatience⟩
    have hget : (get : Draw Source) run.orderEnd = some (run.orderEnd, run.orderEnd) := rfl
    rw [bind_of_eq_some run.order_drawn, bind_of_eq_some hget, bind_of_eq_some hcofactor]
    show (findGenerator (r * q + 1) r >>= _) run.cofactorEnd = _
    rw [bind_of_eq_some run.generator_drawn]
    rfl

namespace Generation

variable (run : Generation bits source q r g next)

include run

theorem odd_order (hbits : 16 ≤ bits) : Odd q :=
  (Prime.randomPrime_eq_some (by omega) run.order_drawn).1

theorem bitLength_order (hbits : 16 ≤ bits) : bitLength q = bits :=
  (Prime.randomPrime_eq_some (by omega) run.order_drawn).2.1

theorem two_le_order (hbits : 16 ≤ bits) : 2 ≤ q := by
  have hlength := (bitLength_eq_iff (by omega)).mp (run.bitLength_order hbits)
  have htwo : 2 ^ 1 ≤ 2 ^ (bits - 1) := Nat.pow_le_pow_right (by decide) (by omega)
  omega

end Generation

/-! ## The generator -/

/-- What is raised is a power of a base in range, and not one. -/
theorem findGenerator_eq_some {p : Nat} (h : findGenerator p r source = some (g, next)) :
    g ≠ 1 ∧ ∃ base, 2 ≤ base ∧ base < p ∧ g = base ^ r % p := by
  obtain ⟨before, hattempt⟩ := untilSome_eq_some h
  obtain ⟨base, middle, hbase, hrest⟩ := bind_eq_some.mp hattempt
  obtain ⟨hlow, hhigh⟩ := range_bounds hbase
  obtain ⟨hsome, -⟩ := pure_eq_some.mp hrest
  split at hsome
  · cases hsome
  · next hne =>
    obtain rfl := Option.some.inj hsome
    exact ⟨hne, base, hlow, hhigh, Arith.modPow_eq base r p⟩

/-- Modulo a prime `r * q + 1` the power of a base to `r` passes for a generator. -/
theorem wellFormed_of_prime (hp : (r * q + 1).Prime) (heven : Even r) (hr : 2 ≤ r) (hq : 2 ≤ q)
    (hg : g ≠ 1) {base : Nat} (hlow : 2 ≤ base) (hhigh : base < r * q + 1)
    (hpower : g = base ^ r % (r * q + 1)) : WellFormed (r * q + 1) q g where
  odd := by
    obtain ⟨i, rfl⟩ := heven
    have heq : (i + i) * q + 1 = 2 * (i * q) + 1 := by ring
    omega
  three_lt := by
    have hmul := Nat.mul_le_mul hr hq
    omega
  order_pos := by omega
  order_dvd := dvd_mul_left q r
  one_lt := by
    have hbase : ¬(r * q + 1) ∣ base ^ r := fun hdvd =>
      absurd (Nat.le_of_dvd (by omega) (hp.dvd_of_dvd_pow hdvd)) (by omega)
    rw [Nat.dvd_iff_mod_eq_zero, ← hpower] at hbase
    omega
  lt_modulus := by
    rw [hpower]
    exact Nat.mod_lt _ (Nat.succ_pos _)
  power_order := by
    have hcoprime : base.Coprime (r * q + 1) :=
      (Nat.coprime_of_lt_prime (by omega) hhigh hp).symm
    have hfermat : base ^ (r * q) ≡ 1 [MOD r * q + 1] := by
      have htotient := Nat.ModEq.pow_totient hcoprime
      rwa [Nat.totient_prime hp, Nat.add_sub_cancel] at htotient
    show g ^ q % (r * q + 1) = 1
    rw [hpower, ← Nat.pow_mod, ← pow_mul, hfermat, Nat.mod_eq_of_lt hp.one_lt]

theorem Generation.wellFormed (run : Generation bits source q r g next) (hbits : 16 ≤ bits)
    (hp : (r * q + 1).Prime) : WellFormed (r * q + 1) q g := by
  obtain ⟨hg, base, hlow, hhigh, hpower⟩ := findGenerator_eq_some run.generator_drawn
  exact wellFormed_of_prime hp run.search.even run.search.two_le (run.two_le_order hbits) hg hlow
    hhigh hpower

/-! ## The outcome -/

/-- Every run has an outcome, and every group that is generated has the order, the modulus and the
generator of a run: the order odd and of the length, the cofactor the first even one whose modulus
was accepted in that run. Where the modulus is prime there is a group, and where the order is prime
its generator has it. -/
theorem generate_consistent (hbits : 16 ≤ bits) :
    (∀ q r g next, ∀ run : Generation bits source q r g next, r ≤ 2 * run.orderEnd.patience →
      generate bits source = some (ofParams (r * q + 1) q g, next)) ∧
    ∀ outcome next, generate bits source = some (outcome, next) →
      ∃ q r g, Nonempty (Generation bits source q r g next) ∧ Odd q ∧ bitLength q = bits ∧
        (∀ S, outcome = .ok S → S.group.order = q ∧ S.p = r * q + 1 ∧ S.group.generator = g ∧
          1 < g ∧ g < S.p ∧ g ^ q % S.p = 1) ∧
        ((r * q + 1).Prime → ∃ S, outcome = .ok S) ∧
        (q.Prime → ∀ S, outcome = .ok S → S.group.HasOrder S.group.generator S.group.order) := by
  refine ⟨fun q r g next run hpatience => (generate_eq_some hbits).mpr
    ⟨q, r, g, run, hpatience, rfl⟩, fun outcome next h => ?_⟩
  obtain ⟨q, r, g, run, -, rfl⟩ := (generate_eq_some hbits).mp h
  refine ⟨q, r, g, ⟨run⟩, run.odd_order hbits, run.bitLength_order hbits, fun S hS => ?_,
    fun hp => ⟨_, ofParams_eq_ok.mpr ⟨run.wellFormed hbits hp, rfl⟩⟩, fun hq S hS => ?_⟩
  · obtain ⟨hwell, rfl⟩ := ofParams_eq_ok.mp hS
    exact ⟨rfl, rfl, rfl, hwell.one_lt, hwell.lt_modulus, hwell.power_order⟩
  · exact hasOrder_generator (wellFormed_of_ofParams hS) ((params_of_ofParams hS).2.1.symm ▸ hq)

/-- The stream of tens. -/
def tens : Source := ⟨fun _ => 10, 0, 16⟩

/-- From the stream of tens comes an order of 16 bits, with a cofactor after two, four and six. -/
def tensGroup : SchnorrGroup := ⟨282713, 35339, 234019, "Schnorr-19"⟩

theorem generate_tens : (generate 16 tens).map Prod.fst = some (.ok tensGroup) := by
  decide +kernel

theorem generate_consistent_tens :
    ∃ next, generate 16 tens = some (.ok tensGroup, next) ∧
      Nonempty (Generation 16 tens 35339 8 234019 next) ∧
      tensGroup.group.HasOrder tensGroup.group.generator 35339 := by
  obtain ⟨⟨outcome, next⟩, hrun, rfl⟩ := Option.map_eq_some_iff.mp generate_tens
  obtain ⟨q, r, g, hgeneration, -, -, hgroup, -, horder⟩ :=
    (generate_consistent (by decide)).2 _ _ hrun
  obtain ⟨rfl, hmodulus, rfl, -⟩ := hgroup tensGroup rfl
  obtain rfl : r = 8 := by
    have heq : 282713 = r * 35339 + 1 := hmodulus
    omega
  exact ⟨next, hrun, hgeneration, horder (by norm_num [group, tensGroup]) tensGroup rfl⟩

end AnonCred.SchnorrGroup

import Mathlib.FieldTheory.Finite.Basic
import Mathlib.Tactic.NormNum.Prime
import ContractPipeline.Curve.Point

/-! The order of the field and the order of the group are prime, by Pocklington's criterion. It asks
for a part of the factorization of `n - 1` with a product above the square root of `n`, and for a
base `a` with `a ^ (n - 1) = 1` modulo `n` where no `a ^ ((n - 1) / q) - 1` has a factor in common
with `n`. -/
namespace ContractPipeline.Curve

/-- A power modulo `m`, whose exponent has at most the given number of binary digits. -/
def powerMod (m : Nat) : (digits base exponent : Nat) → Nat
  | 0, _, _ => 1 % m
  | digits + 1, base, exponent =>
    let half := powerMod m digits (base * base % m) (exponent / 2)
    if exponent % 2 = 1 then base * half % m else half

theorem powerMod_eq (m : Nat) {digits base exponent : Nat} (h : exponent < 2 ^ digits) :
    powerMod m digits base exponent = base ^ exponent % m := by
  induction digits generalizing base exponent with
  | zero =>
    obtain rfl : exponent = 0 := by simpa using h
    rfl
  | succ digits ih =>
    have hlt : exponent / 2 < 2 ^ digits := by
      rw [pow_succ] at h
      omega
    have hsquare : (base * base % m) ^ (exponent / 2) % m = base ^ (2 * (exponent / 2)) % m := by
      rw [← Nat.pow_mod, pow_mul, sq]
    have hexp := Nat.div_add_mod exponent 2
    rw [powerMod, ih hlt, hsquare]
    split
    case isTrue ho =>
      rw [ho] at hexp
      rw [Nat.mul_mod_mod, ← pow_succ', hexp]
    case isFalse ho =>
      have hz : exponent % 2 = 0 := by omega
      rw [hz, Nat.add_zero] at hexp
      rw [hexp]

/-- The criterion for a number of at most 256 binary digits. -/
def passes (n base : Nat) (primes : List Nat) : Bool :=
  n ≤ 2 ^ 256 && n < primes.prod * primes.prod && (n - 1) % primes.prod == 0 &&
    powerMod n 256 base (n - 1) == 1 &&
    primes.all fun q => Nat.gcd (powerMod n 256 base ((n - 1) / q) + (n - 1)) n == 1

/-- A prime power that divides a number divides each divisor of it that does not divide the quotient
by the prime. -/
theorem pow_dvd_of_not_dvd_div {q k d m : Nat} (hq : q.Prime) (hk : q ^ k ∣ m) (hd : d ∣ m)
    (hn : ¬d ∣ m / q) : q ^ k ∣ d := by
  obtain ⟨e, rfl⟩ := hd
  have hqe : ¬q ∣ e := by
    rintro ⟨c, rfl⟩
    rw [mul_left_comm, Nat.mul_div_cancel_left _ hq.pos] at hn
    exact hn (Nat.dvd_mul_right d c)
  have hc : Nat.Coprime (q ^ k) e := Nat.Coprime.pow_left k ((Nat.Prime.coprime_iff_not_dvd hq).mpr hqe)
  exact hc.dvd_of_dvd_mul_right hk

section Passing

variable {n base : Nat} {primes : List Nat}

/-- What a passed test says, in the unit group of a prime factor. -/
theorem exists_order_of_passes (hn : 1 < n) (h : passes n base primes = true) {r : Nat}
    (hr : r.Prime) (hrn : r ∣ n) :
    ∃ d, d ∣ r - 1 ∧ d ∣ n - 1 ∧ ∀ q ∈ primes, ¬d ∣ (n - 1) / q := by
  have : Fact r.Prime := ⟨hr⟩
  simp only [passes, Bool.and_eq_true, decide_eq_true_eq, beq_iff_eq, List.all_eq_true] at h
  obtain ⟨⟨⟨⟨hsize, -⟩, -⟩, hone⟩, hgcd⟩ := h
  have hpower {e : Nat} (he : e ≤ n - 1) : powerMod n 256 base e = base ^ e % n :=
    powerMod_eq n (by omega)
  have hcast {a : Nat} : (a : ZMod r) = 1 ↔ a ≡ 1 [MOD r] := by
    rw [← Nat.cast_one, ZMod.natCast_eq_natCast_iff]
  have hunit : (base : ZMod r) ^ (n - 1) = 1 := by
    rw [hpower le_rfl] at hone
    have hm : base ^ (n - 1) ≡ 1 [MOD n] := by
      rw [Nat.ModEq, hone, Nat.mod_eq_of_lt hn]
    rw [← Nat.cast_pow, hcast]
    exact hm.of_dvd hrn
  have hne : (base : ZMod r) ≠ 0 := by
    intro hz
    rw [hz, zero_pow (by omega)] at hunit
    exact zero_ne_one hunit
  refine ⟨orderOf (base : ZMod r), ZMod.orderOf_dvd_card_sub_one hne,
    orderOf_dvd_of_pow_eq_one hunit, ?_⟩
  intro q hq hd
  have hpow := orderOf_dvd_iff_pow_eq_one.mp hd
  rw [← Nat.cast_pow, hcast] at hpow
  have hg := hgcd q hq
  rw [hpower (Nat.div_le_self _ _)] at hg
  -- The power is one modulo the factor, which so divides both numbers.
  have hsum : base ^ ((n - 1) / q) % n + (n - 1) ≡ 1 + (n - 1) [MOD r] :=
    (((Nat.mod_modEq _ n).of_dvd hrn).trans hpow).add_right _
  rw [Nat.add_sub_cancel' hn.le] at hsum
  have hzero : r ∣ base ^ ((n - 1) / q) % n + (n - 1) := (hsum.dvd_iff dvd_rfl).mpr hrn
  have hdvd := Nat.dvd_gcd hzero hrn
  rw [hg] at hdvd
  exact hr.one_lt.ne' (Nat.dvd_one.mp hdvd)

theorem prod_dvd_sub_one_of_passes (hn : 1 < n) (hprimes : ∀ q ∈ primes, q.Prime)
    (h : passes n base primes = true) {r : Nat} (hr : r.Prime) (hrn : r ∣ n) :
    primes.prod ∣ r - 1 := by
  obtain ⟨d, hdr, hdn, hnot⟩ := exists_order_of_passes hn h hr hrn
  simp only [passes, Bool.and_eq_true, beq_iff_eq] at h
  have hf : primes.prod ∣ n - 1 := Nat.dvd_of_mod_eq_zero h.1.1.2
  rw [Nat.dvd_iff_prime_pow_dvd_dvd]
  intro p k hp hk
  rcases Nat.eq_zero_or_pos k with rfl | hpos
  · exact one_dvd _
  obtain ⟨q, hq, hpq⟩ := (Prime.dvd_prod_iff hp.prime).mp ((dvd_pow_self p hpos.ne').trans hk)
  obtain rfl := (Nat.prime_dvd_prime_iff_eq hp (hprimes q hq)).mp hpq
  exact (pow_dvd_of_not_dvd_div hp (hk.trans hf) hdn (hnot p hq)).trans hdr

/-- A number that passes for primes has no prime factor up to its square root. -/
theorem prime_of_passes (hn : 1 < n) (hprimes : ∀ q ∈ primes, q.Prime)
    (h : passes n base primes = true) : n.Prime := by
  by_contra hc
  have hr := Nat.minFac_prime hn.ne'
  have hd := prod_dvd_sub_one_of_passes hn hprimes h hr (Nat.minFac_dvd n)
  have hle : primes.prod ≤ n.minFac :=
    (Nat.le_of_dvd (Nat.sub_pos_of_lt hr.one_lt) hd).trans (Nat.sub_le _ _)
  have hsq := Nat.minFac_sq_le_self (Nat.zero_lt_of_lt hn) hc
  simp only [passes, Bool.and_eq_true, decide_eq_true_eq] at h
  have hlt := h.1.1.1.2
  have hmul := Nat.mul_le_mul hle hle
  rw [sq] at hsq
  omega

end Passing

theorem prime_fieldOrder : fieldOrder.Prime := by
  have h₁ : Nat.Prime 107590001 :=
    @prime_of_passes _ 3 [7, 29, 53] (by decide) (by norm_num) (by decide +kernel)
  have h₂ : Nat.Prime 7240687 :=
    @prime_of_passes _ 3 [1206781] (by decide) (List.forall_mem_singleton.mpr (by norm_num))
      (by decide +kernel)
  have h₃ : Nat.Prime 255515944373312847190720520512484175977 := by
    refine @prime_of_passes _ 3 [107590001, 7240687, 41201] (by decide) ?_ (by decide +kernel)
    refine List.forall_mem_cons.mpr ⟨h₁, List.forall_mem_cons.mpr ⟨h₂, ?_⟩⟩
    exact List.forall_mem_singleton.mpr (by norm_num)
  have h₄ : Nat.Prime 205115282021455665897114700593932402728804164701536103180137503955397371 :=
    @prime_of_passes _ 10 [255515944373312847190720520512484175977] (by decide)
      (List.forall_mem_singleton.mpr h₃) (by decide +kernel)
  exact @prime_of_passes _ 3
    [205115282021455665897114700593932402728804164701536103180137503955397371] (by decide)
    (List.forall_mem_singleton.mpr h₄) (by decide +kernel)

theorem prime_groupOrder : Point.groupOrder.Prime := by
  have h₁ : Nat.Prime 297159362677 :=
    @prime_of_passes _ 2 [1627771] (by decide) (List.forall_mem_singleton.mpr (by norm_num))
      (by decide +kernel)
  have h₂ : Nat.Prime 545358713 :=
    @prime_of_passes _ 3 [28181] (by decide) (List.forall_mem_singleton.mpr (by norm_num))
      (by decide +kernel)
  have h₃ : Nat.Prime 29047611873442575647497758179 :=
    @prime_of_passes _ 2 [297159362677, 545358713] (by decide)
      (List.forall_mem_cons.mpr ⟨h₁, List.forall_mem_singleton.mpr h₂⟩) (by decide +kernel)
  have h₄ : Nat.Prime 341948486974166000522343609283189 :=
    @prime_of_passes _ 2 [29047611873442575647497758179] (by decide)
      (List.forall_mem_singleton.mpr h₃) (by decide +kernel)
  have h₅ : Nat.Prime 44706919 :=
    @prime_of_passes _ 3 [9349] (by decide) (List.forall_mem_singleton.mpr (by norm_num))
      (by decide +kernel)
  have h₆ : Nat.Prime 174723607534414371449 :=
    @prime_of_passes _ 3 [44706919, 4051] (by decide)
      (List.forall_mem_cons.mpr ⟨h₅, List.forall_mem_singleton.mpr (by norm_num)⟩)
      (by decide +kernel)
  exact @prime_of_passes _ 7 [341948486974166000522343609283189, 174723607534414371449] (by decide)
    (List.forall_mem_cons.mpr ⟨h₄, List.forall_mem_singleton.mpr h₆⟩) (by decide +kernel)

end ContractPipeline.Curve

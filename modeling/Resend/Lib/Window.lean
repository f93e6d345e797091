import Resend.Lib.Word

/-!
# A circular bitmap over a window of positions

Position `p` is kept at bit `p % n`. Only the `n` positions from `base` on are represented, so a
bit means a different position every time `base` has moved `n` places. `Sound` says that the bitmap
never claims more than the set `R` of positions that were marked; `Exact` says that it knows all of
`R`. Clearing the bit of `base` and advancing `base` are separate operations here.
-/

/-- The bits of an array of words. -/
def bitOf (m : Nat → Word) (i : Nat) : Bool := (m (i / 64)).bit (i % 64)

theorem bitOf_set (m : Nat → Word) (i j : Nat) :
    bitOf (Function.update m (i / 64) ((m (i / 64)).testAndSet (i % 64)).2) j =
      (bitOf m j || decide (j = i)) := by
  have hi : i % 64 < 64 := Nat.mod_lt _ (by decide)
  unfold bitOf
  by_cases h : j / 64 = i / 64
  · rw [h, Function.update_self, Word.bit_testAndSet _ hi]
    congr 1
    exact decide_eq_decide.2 ⟨fun h' => by omega, fun h' => by rw [h']⟩
  · rw [Function.update_of_ne h]
    have : j ≠ i := fun h' => h (by rw [h'])
    simp [this]

theorem bitOf_reset (m : Nat → Word) (i j : Nat) :
    bitOf (Function.update m (i / 64) ((m (i / 64)).testAndReset (i % 64)).2) j =
      (bitOf m j && !decide (j = i)) := by
  have hi : i % 64 < 64 := Nat.mod_lt _ (by decide)
  unfold bitOf
  by_cases h : j / 64 = i / 64
  · rw [h, Function.update_self, Word.bit_testAndReset _ hi]
    congr 2
    exact decide_eq_decide.2 ⟨fun h' => by omega, fun h' => by rw [h']⟩
  · rw [Function.update_of_ne h]
    have : j ≠ i := fun h' => h (by rw [h'])
    simp [this]

theorem oldBit_bitOf (m : Nat → Word) (i : Nat) :
    (m (i / 64)).oldBit (i % 64) = 0 ↔ bitOf m i = false :=
  Word.oldBit_eq_zero _ (Nat.mod_lt _ (by decide))

namespace Window
variable {n base p q : Nat} {bit bit' : Nat → Bool} {R R' : Nat → Prop}

/-- Two positions of one window never share a bit. -/
theorem mod_inj (hp : base ≤ p) (hp' : p < base + n) (hq : base ≤ q) (hq' : q < base + n)
    (h : p % n = q % n) : p = q := by
  have hn : 0 < n := by omega
  have key : ∀ {a b : Nat}, base ≤ a → a ≤ b → b < base + n → a % n = b % n → a = b := by
    intro a b ha hab hb h
    obtain ⟨k, hk⟩ := (Nat.modEq_iff_dvd' hab).1 h
    rcases Nat.eq_zero_or_pos k with rfl | hk'
    · omega
    · have : n * 1 ≤ n * k := Nat.mul_le_mul_left n hk'
      omega
  rcases Nat.le_total p q with hpq | hpq
  · exact key hp hpq hq' h
  · exact (key hq hpq hp' h.symm).symm

/-- Everything below `base` is marked, and so is every position whose bit is set. -/
structure Sound (n : Nat) (bit : Nat → Bool) (base : Nat) (R : Nat → Prop) : Prop where
  below : ∀ p < base, R p
  bits : ∀ p, base ≤ p → p < base + n → bit (p % n) = true → R p

/-- `Sound`, and the bitmap knows every marked position. -/
structure Exact (n : Nat) (bit : Nat → Bool) (base : Nat) (R : Nat → Prop) : Prop
    extends Sound n bit base R where
  known : ∀ p, base ≤ p → R p → p < base + n ∧ bit (p % n) = true

/-- The positions that the bitmap says are marked. -/
def Marked (n : Nat) (bit : Nat → Bool) (base p : Nat) : Prop :=
  p < base ∨ p < base + n ∧ bit (p % n) = true

namespace Sound

theorem init : Sound n (fun _ => false) 0 R := ⟨fun _ h => by omega, fun _ _ _ h => by cases h⟩

theorem mono (h : Sound n bit base R) (hR : ∀ p, R p → R' p) : Sound n bit base R' :=
  ⟨fun p hp => hR p (h.below p hp), fun p h1 h2 h3 => hR p (h.bits p h1 h2 h3)⟩

theorem set (h : Sound n bit base R) (hp : base ≤ p) (hp' : p < base + n)
    (hbit : ∀ i, bit' i = (bit i || decide (i = p % n))) : Sound n bit' base fun q => R q ∨ q = p := by
  refine ⟨fun q hq => .inl (h.below q hq), fun q h1 h2 h3 => ?_⟩
  rw [hbit, Bool.or_eq_true, decide_eq_true_eq] at h3
  rcases h3 with h3 | h3
  · exact .inl (h.bits q h1 h2 h3)
  · exact .inr (mod_inj h1 h2 hp hp' h3)

theorem clear (h : Sound n bit base R) {i : Nat} (hbit : ∀ j, bit' j = (bit j && !decide (j = i))) :
    Sound n bit' base R := by
  refine ⟨h.below, fun q h1 h2 h3 => h.bits q h1 h2 ?_⟩
  rw [hbit, Bool.and_eq_true] at h3
  exact h3.1

theorem advance (h : Sound n bit base R) (hR : R base) (hb : bit (base % n) = false) :
    Sound n bit (base + 1) R := by
  refine ⟨fun q hq => ?_, fun q h1 h2 h3 => ?_⟩
  · rcases Nat.lt_succ_iff_lt_or_eq.1 hq with hq | rfl
    · exact h.below q hq
    · exact hR
  · by_cases hq : q < base + n
    · exact h.bits q (by omega) hq h3
    · have : q = base + n := by omega
      rw [this, Nat.add_mod_right, hb] at h3
      cases h3

end Sound

namespace Exact

theorem init : Exact n (fun _ => false) 0 fun _ => False := ⟨Sound.init, fun _ _ h => h.elim⟩

theorem set (h : Exact n bit base R) (hp : base ≤ p) (hp' : p < base + n)
    (hbit : ∀ i, bit' i = (bit i || decide (i = p % n))) : Exact n bit' base fun q => R q ∨ q = p := by
  refine ⟨h.toSound.set hp hp' hbit, fun q h1 h2 => ?_⟩
  rw [hbit]
  rcases h2 with h2 | rfl
  · obtain ⟨h3, h4⟩ := h.known q h1 h2
    exact ⟨h3, by rw [h4, Bool.true_or]⟩
  · exact ⟨hp', by simp⟩

theorem mem_iff (h : Exact n bit base R) (hp : base ≤ p) (hp' : p < base + n) :
    bit (p % n) = true ↔ R p :=
  ⟨h.bits p hp hp', fun hR => (h.known p hp hR).2⟩

theorem base_mem_iff (h : Exact n bit base R) (hn : 0 < n) : bit (base % n) = true ↔ R base :=
  h.mem_iff (Nat.le_refl _) (by omega)

/-- An exact bitmap determines the set. -/
theorem eq_marked (h : Exact n bit base R) : R = Marked n bit base := by
  funext p
  refine propext ⟨fun hR => ?_, ?_⟩
  · rcases Nat.lt_or_ge p base with hlt | hge
    exacts [.inl hlt, .inr (h.known p hge hR)]
  · rintro (hlt | ⟨hlt, hbit⟩)
    · exact h.below p hlt
    · rcases Nat.lt_or_ge p base with hlt' | hge
      exacts [h.below p hlt', h.bits p hge hlt hbit]

theorem advance (h : Exact n bit base R) (hn : 0 < n) (hb : bit (base % n) = true)
    (hbit : ∀ j, bit' j = (bit j && !decide (j = base % n))) : Exact n bit' (base + 1) R := by
  have hR := (h.base_mem_iff hn).1 hb
  refine ⟨(h.toSound.clear hbit).advance hR (by simp [hbit]), fun q h1 h2 => ?_⟩
  obtain ⟨h3, h4⟩ := h.known q (by omega) h2
  refine ⟨by omega, ?_⟩
  rw [hbit, h4, Bool.true_and]
  have : q % n ≠ base % n := fun he => by
    have := mod_inj (n := n) (by omega : base ≤ q) h3 (Nat.le_refl _) (by omega) he
    omega
  simp [this]

theorem clear_of_not (h : Exact n bit base R) {i : Nat} (hb : bit i = false)
    (hbit : ∀ j, bit' j = (bit j && !decide (j = i))) : Exact n bit' base R := by
  have : bit' = bit := by
    funext j
    rw [hbit]
    by_cases hj : j = i
    · rw [hj, hb, Bool.false_and]
    · simp [hj]
  rw [this]; exact h

end Exact

end Window

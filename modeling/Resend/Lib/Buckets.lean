import Mathlib.Tactic
import Mathlib.Algebra.BigOperators.Group.Finset.Basic
import Mathlib.Data.Multiset.Basic

/-!
# Arrays of lists

An array of lists, as a function, holds a multiset of entries: all entries of its first `n` lists.
-/

namespace Buckets
variable {α : Type} {a : Nat → List α} {n i : Nat} {x : α}

/-- All entries of the first `n` lists. -/
@[irreducible] def content (n : Nat) (a : Nat → List α) : Multiset α :=
  ∑ i ∈ Finset.range n, (a i : Multiset α)

theorem mem_content : x ∈ content n a ↔ ∃ i < n, x ∈ a i := by
  simp [content, Multiset.mem_sum]

theorem content_update (hi : i < n) (l : List α) :
    content n (Function.update a i l) + (a i : Multiset α) = content n a + (l : Multiset α) := by
  have hmem : i ∈ Finset.range n := Finset.mem_range.2 hi
  have hsame : ∀ j ∈ (Finset.range n).erase i,
      ((Function.update a i l j : List α) : Multiset α) = a j := by
    intro j hj
    rw [Function.update_of_ne (Finset.ne_of_mem_erase hj)]
  rw [content, content, ← Finset.add_sum_erase _ _ hmem,
    ← Finset.add_sum_erase _ (fun j => (a j : Multiset α)) hmem,
    Finset.sum_congr rfl hsame, Function.update_self]
  abel

theorem content_cons (hi : i < n) (x : α) :
    content n (Function.update a i (x :: a i)) = x ::ₘ content n a := by
  have h := content_update (a := a) hi (x :: a i)
  rw [← Multiset.cons_coe, Multiset.add_cons, ← Multiset.cons_add] at h
  exact add_right_cancel h

theorem content_tail (hi : i < n) {l : List α} (h : a i = x :: l) :
    content n a = x ::ₘ content n (Function.update a i l) := by
  have hu := content_update (a := a) hi l
  rw [h, ← Multiset.cons_coe, Multiset.add_cons, ← Multiset.cons_add] at hu
  exact (add_right_cancel hu).symm

theorem content_eq_zero : content n a = 0 ↔ ∀ i < n, a i = [] := by
  rw [Multiset.eq_zero_iff_forall_notMem]
  constructor
  · intro h i hi
    refine List.eq_nil_iff_forall_not_mem.2 fun x hx => h x (mem_content.2 ⟨i, hi, hx⟩)
  · intro h x hx
    obtain ⟨i, hi, hx⟩ := mem_content.1 hx
    rw [h i hi] at hx
    cases hx

/-! ### Moving a list into an array -/

/-- Put every entry of a list where `f` says. -/
def spread (f : α → Nat) (a : Nat → List α) : List α → Nat → List α
  | [] => a
  | x :: l => spread f (Function.update a (f x) (x :: a (f x))) l

theorem mem_spread {f : α → Nat} {l : List α} : x ∈ spread f a l i ↔ x ∈ a i ∨ (x ∈ l ∧ f x = i) := by
  induction l generalizing a with
  | nil => simp [spread]
  | cons y l ih =>
    rw [spread, ih]
    by_cases hy : f y = i
    · subst hy
      rw [Function.update_self, List.mem_cons, List.mem_cons]
      constructor
      · rintro ((rfl | h) | ⟨h, hf⟩)
        exacts [.inr ⟨.inl rfl, rfl⟩, .inl h, .inr ⟨.inr h, hf⟩]
      · rintro (h | ⟨rfl | h, hf⟩)
        exacts [.inl (.inr h), .inl (.inl rfl), .inr ⟨h, hf⟩]
    · rw [Function.update_of_ne (Ne.symm hy), List.mem_cons]
      constructor
      · rintro (h | ⟨h, hf⟩)
        exacts [.inl h, .inr ⟨.inr h, hf⟩]
      · rintro (h | ⟨rfl | h, hf⟩)
        exacts [.inl h, absurd hf hy, .inr ⟨h, hf⟩]

theorem content_spread {f : α → Nat} {l : List α} (hf : ∀ x ∈ l, f x < n) :
    content n (spread f a l) = content n a + (l : Multiset α) := by
  induction l generalizing a with
  | nil => simp [spread]
  | cons y l ih =>
    obtain ⟨hy, hl⟩ := List.forall_mem_cons.1 hf
    rw [spread, ih hl, content_cons hy, Multiset.cons_add, ← Multiset.cons_coe, Multiset.add_cons]

/-! ### Looking for an entry -/

/-- The first of the `n` places from `lo` on that is not empty, or `lo + n`. -/
def firstFrom (a : Nat → List α) : Nat → Nat → Nat
  | lo, 0 => lo
  | lo, n + 1 => if (a lo).isEmpty then firstFrom a (lo + 1) n else lo

theorem firstFrom_spec (a : Nat → List α) (lo n : Nat) :
    lo ≤ firstFrom a lo n ∧ (∀ i, lo ≤ i → i < firstFrom a lo n → a i = []) ∧
      (firstFrom a lo n < lo + n ∧ a (firstFrom a lo n) ≠ [] ∨ firstFrom a lo n = lo + n) := by
  induction n generalizing lo with
  | zero => exact ⟨le_rfl, fun i h h' => absurd h' (by simp [firstFrom]; omega), .inr rfl⟩
  | succ n ih =>
    rw [firstFrom]
    split
    · rename_i hempty
      obtain ⟨h1, h2, h3⟩ := ih (lo + 1)
      refine ⟨by omega, fun i hi hlt => ?_, ?_⟩
      · by_cases hlo : i = lo
        · rw [hlo]; exact List.isEmpty_iff.1 hempty
        · exact h2 i (by omega) hlt
      · rcases h3 with ⟨h3, h4⟩ | h3
        · exact .inl ⟨by omega, h4⟩
        · exact .inr (by omega)
    · rename_i hfull
      exact ⟨le_rfl, fun i h h' => absurd h' (by omega), .inl ⟨by omega, by simpa using hfull⟩⟩

end Buckets

import Mathlib.Algebra.Order.BigOperators.Group.Finset
import Mathlib.Data.Multiset.Count
import Mathlib.Tactic

/-!
# Taking turns by weight

Every member of a finite set has a number of turns left. A turn goes to a member that has most of
them left, and when nobody has any, all of them get as many as their share says. `Draws` is a
sequence of turns; who has had how many is read off the turns that are left (`Draws.balance`), and
nobody gets ahead of the others (`Level`).
-/

namespace Turns
variable {ι : Type}

/-- The turns left once those who have none are served again. -/
def topUp (live : Finset ι) (share left : ι → Nat) : ι → Nat :=
  if ∀ j ∈ live, left j = 0 then share else left

/-- One turn, taken by `i`. -/
structure Draw (live : Finset ι) (share left : ι → Nat) (i : ι) (left' : ι → Nat) : Prop where
  mem : i ∈ live
  pos : 0 < topUp live share left i
  most : ∀ j ∈ live, topUp live share left j ≤ topUp live share left i
  self : left' i = topUp live share left i - 1
  others : ∀ j ∈ live, j ≠ i → left' j = topUp live share left j

inductive Draws (live : Finset ι) (share : ι → Nat) : (ι → Nat) → List ι → (ι → Nat) → Prop
  | nil {left left' : ι → Nat} (h : ∀ j ∈ live, left' j = left j) : Draws live share left [] left'
  | cons {left left₁ left' : ι → Nat} {i : ι} {is : List ι} (h : Draw live share left i left₁)
      (hs : Draws live share left₁ is left') : Draws live share left (i :: is) left'

/-- Nobody who has had a turn since the last serving is more than one turn behind another. -/
structure Level (live : Finset ι) (share left : ι → Nat) : Prop where
  le : ∀ j ∈ live, left j ≤ share j
  near : ∀ i ∈ live, ∀ j ∈ live, left i < share i → left j ≤ left i + 1

variable {live : Finset ι} {share left left' : ι → Nat} {i j : ι} {is : List ι}

theorem topUp_eq (live : Finset ι) (share left : ι → Nat) :
    ∃ q, (∀ j ∈ live, topUp live share left j = left j + q * share j) ∧
      (0 < q → topUp live share left = share) := by
  unfold topUp
  split
  · rename_i h
    exact ⟨1, fun j hj => by rw [h j hj]; omega, fun _ => rfl⟩
  · exact ⟨0, fun j _ => by omega, fun h0 => absurd h0 (lt_irrefl 0)⟩

theorem Level.topUp (h : Level live share left) : Level live share (topUp live share left) := by
  unfold Turns.topUp
  split
  · exact ⟨fun _ _ => le_rfl, fun _ _ _ _ hlt => absurd hlt (lt_irrefl _)⟩
  · exact h

theorem Level.congr (h : Level live share left) (heq : ∀ j ∈ live, left' j = left j) :
    Level live share left' := by
  refine ⟨fun j hj => ?_, fun i hi j hj hlt => ?_⟩
  · rw [heq j hj]; exact h.le j hj
  · rw [heq i hi] at hlt ⊢; rw [heq j hj]; exact h.near i hi j hj hlt

theorem Draw.level (hd : Draw live share left i left') (h : Level live share left) :
    Level live share left' := by
  have ht := h.topUp
  have hpos := hd.pos
  refine ⟨fun j hj => ?_, fun a ha j hj hlt => ?_⟩
  · rcases eq_or_ne j i with rfl | hne
    · rw [hd.self]; exact (Nat.sub_le _ _).trans (ht.le j hj)
    · rw [hd.others j hj hne]; exact ht.le j hj
  have hj' : left' j ≤ Turns.topUp live share left j := by
    rcases eq_or_ne j i with rfl | hne
    · rw [hd.self]; exact Nat.sub_le _ _
    · rw [hd.others j hj hne]
  rcases eq_or_ne a i with rfl | hne
  · -- whoever has just had a turn had most of them left
    have := hd.most j hj
    rw [hd.self]; omega
  · rw [hd.others a ha hne] at hlt ⊢
    exact hj'.trans (ht.near a ha j hj hlt)

theorem Draw.balance [DecidableEq ι] (hd : Draw live share left i left') :
    ∃ q, (∀ j ∈ live, [i].count j + left' j = left j + q * share j) ∧
      (0 < q → ∀ j ∈ live, left' j ≤ share j) := by
  obtain ⟨q, hq, hshare⟩ := topUp_eq live share left
  refine ⟨q, fun j hj => ?_, fun h0 j hj => ?_⟩
  · rw [← hq j hj]
    rcases eq_or_ne j i with rfl | hne
    · have := hd.pos
      rw [hd.self, List.count_singleton_self]; omega
    · rw [hd.others j hj hne, List.count_singleton, if_neg (by simpa using hne.symm), Nat.zero_add]
  · rcases eq_or_ne j i with rfl | hne
    · rw [hd.self, hshare h0]; exact Nat.sub_le _ _
    · rw [hd.others j hj hne, hshare h0]

theorem topUp_congr {left₁ : ι → Nat} (heq : ∀ j ∈ live, left₁ j = left j) (hj : j ∈ live) :
    topUp live share left₁ j = topUp live share left j := by
  unfold topUp
  have hiff : (∀ j ∈ live, left₁ j = 0) ↔ ∀ j ∈ live, left j = 0 := forall₂_congr fun j hj => by
    rw [heq j hj]
  simp only [hiff]
  split
  · rfl
  · exact heq j hj

theorem Draw.congr {left₁ : ι → Nat} (heq : ∀ j ∈ live, left₁ j = left j)
    (hd : Draw live share left i left') :
    Draw live share left₁ i left' := by
  have ht : ∀ j ∈ live, topUp live share left₁ j = topUp live share left j :=
    fun j hj => topUp_congr heq hj
  refine ⟨hd.mem, ?_, fun j hj => ?_, ?_, fun j hj hne => ?_⟩
  · rw [ht i hd.mem]; exact hd.pos
  · rw [ht i hd.mem, ht j hj]; exact hd.most j hj
  · rw [ht i hd.mem]; exact hd.self
  · rw [ht j hj]; exact hd.others j hj hne

theorem Draw.congr_share {share₁ : ι → Nat} (heq : ∀ j ∈ live, share₁ j = share j)
    (hd : Draw live share₁ left i left') :
    Draw live share left i left' := by
  have ht : ∀ j ∈ live, topUp live share left j = topUp live share₁ left j := fun j hj => by
    unfold topUp
    split
    · exact (heq j hj).symm
    · rfl
  refine ⟨hd.mem, ?_, fun j hj => ?_, ?_, fun j hj hne => ?_⟩
  · rw [ht i hd.mem]; exact hd.pos
  · rw [ht i hd.mem, ht j hj]; exact hd.most j hj
  · rw [ht i hd.mem]; exact hd.self
  · rw [ht j hj]; exact hd.others j hj hne

namespace Draws

theorem congr {left₁ : ι → Nat} (heq : ∀ j ∈ live, left₁ j = left j)
    (h : Draws live share left is left') :
    Draws live share left₁ is left' := by
  cases h with
  | nil h => exact .nil fun j hj => (h j hj).trans (heq j hj).symm
  | cons hd hs => exact .cons (hd.congr heq) hs

theorem mem (h : Draws live share left is left') : ∀ i ∈ is, i ∈ live := by
  induction h with
  | nil _ => simp
  | cons hd _ ih =>
    intro j hj
    rcases List.mem_cons.1 hj with rfl | hj
    · exact hd.mem
    · exact ih j hj

theorem level (h : Draws live share left is left') (hl : Level live share left) :
    Level live share left' := by
  induction h with
  | nil heq => exact hl.congr heq
  | cons hd _ ih => exact ih (hd.level hl)

theorem eq_nil (h : Draws live share left is left') (hle : ∀ j ∈ live, left j ≤ share j)
    (hs : ∑ j ∈ live, share j = 0) : is = [] := by
  have hzero : ∀ j ∈ live, share j = 0 := Finset.sum_eq_zero_iff.1 hs
  cases h with
  | nil _ => rfl
  | @cons _ _ _ i _ hd _ =>
    have hpos := hd.pos
    unfold topUp at hpos
    have hi := hzero i hd.mem
    have hli := hle i hd.mem
    split_ifs at hpos <;> omega

variable [DecidableEq ι]

/-- Turns had and turns left add up to what was there and what was served since; and once everybody
has been served again, nobody has more turns left than their share. -/
theorem balance (h : Draws live share left is left') :
    ∃ q, (∀ j ∈ live, is.count j + left' j = left j + q * share j) ∧
      (0 < q → ∀ j ∈ live, left' j ≤ share j) := by
  induction h with
  | nil heq => exact ⟨0, fun j hj => by rw [heq j hj, List.count_nil]; omega,
    fun h0 => absurd h0 (lt_irrefl 0)⟩
  | @cons left left₁ left' i is hd _ ih =>
    obtain ⟨q₁, h₁, hle₁⟩ := hd.balance
    obtain ⟨q₂, h₂, hle₂⟩ := ih
    refine ⟨q₁ + q₂, fun j hj => ?_, fun hq j hj => ?_⟩
    · have e₁ := h₁ j hj
      have e₂ := h₂ j hj
      rw [← List.singleton_append, List.count_append, Nat.add_mul]
      omega
    · rcases Nat.eq_zero_or_pos q₂ with rfl | hpos
      · -- not served again after the first turn
        have e₂ := h₂ j hj
        have := hle₁ hq j hj
        omega
      · exact hle₂ hpos j hj

theorem sum_count (h : Draws live share left is left') : ∑ j ∈ live, is.count j = is.length := by
  have := Multiset.sum_count_eq_card (s := live) (m := (is : Multiset ι)) fun j hj =>
    h.mem j (by simpa using hj)
  simpa using this

theorem count_le_succ (h : Draws live share share is left') (hi : i ∈ live) (hj : j ∈ live)
    (hij : share i = share j) :
    is.count i ≤ is.count j + 1 := by
  obtain ⟨q, hq, -⟩ := h.balance
  have hl := h.level ⟨fun _ _ => le_rfl, fun _ _ _ _ hlt => absurd hlt (lt_irrefl _)⟩
  have ei := hq i hi
  have ej := hq j hj
  rw [hij] at ei
  have : left' j ≤ left' i + 1 := by
    by_cases hlt : left' i < share i
    · exact hl.near i hi j hj hlt
    · have := hl.le j hj
      omega
  omega

theorem length_balance {q : Nat} (h : Draws live share left is left')
    (hq : ∀ j ∈ live, is.count j + left' j = left j + q * share j) :
    is.length + ∑ j ∈ live, left' j = ∑ j ∈ live, left j + q * ∑ j ∈ live, share j := by
  calc is.length + ∑ j ∈ live, left' j = ∑ j ∈ live, (is.count j + left' j) := by
        rw [Finset.sum_add_distrib, h.sum_count]
    _ = ∑ j ∈ live, (left j + q * share j) := Finset.sum_congr rfl hq
    _ = ∑ j ∈ live, left j + q * ∑ j ∈ live, share j := by rw [Finset.sum_add_distrib, ← Finset.mul_sum]

theorem count_le (h : Draws live share left is left') (hi : i ∈ live)
    (hlen : is.length ≤ ∑ j ∈ live, left j) :
    is.count i ≤ left i := by
  obtain ⟨q, hq, hle⟩ := h.balance
  have hsum := h.length_balance hq
  have hei := hq i hi
  rcases Nat.eq_zero_or_pos q with rfl | hq0
  · omega
  · obtain ⟨r, rfl⟩ : ∃ r, q = r + 1 := ⟨q - 1, by omega⟩
    have hle := hle hq0
    have hleP : ∑ j ∈ live, left' j ≤ ∑ j ∈ live, share j := Finset.sum_le_sum hle
    rw [Nat.succ_mul] at hsum hei
    -- the last of them was the last turn, so that all shares are whole
    have hr : r * ∑ j ∈ live, share j = 0 := by omega
    have heq : ∑ j ∈ live, left' j = ∑ j ∈ live, share j := by omega
    have hi' : left' i = share i := (Finset.sum_eq_sum_iff_of_le hle).1 heq i hi
    have hsi : share i ≤ ∑ j ∈ live, share j :=
        Finset.single_le_sum (f := share) (fun _ _ => Nat.zero_le _) hi
    have hri : r * share i = 0 := Nat.le_zero.1 (hr ▸ Nat.mul_le_mul_left r hsi)
    omega

/-- From any state on, the turns that are left are taken first; then everybody has had their share
once in every round of as many turns as all shares together, and in the round that is not over
nobody has had more than their share or than the turns of it. -/
theorem count_bounds (h : Draws live share left is left') (hi : i ∈ live)
    (hfit : ∀ j ∈ live, left j ≤ share j) (hlen : ∑ j ∈ live, left j ≤ is.length) :
    left i + (is.length - ∑ j ∈ live, left j) / (∑ j ∈ live, share j) * share i ≤ is.count i ∧
      is.count i ≤ left i + (is.length - ∑ j ∈ live, left j) / (∑ j ∈ live, share j) * share i +
        min (share i) ((is.length - ∑ j ∈ live, left j) % ∑ j ∈ live, share j) := by
  rcases Nat.eq_zero_or_pos (∑ j ∈ live, share j) with h0 | hs
  · have hli := hfit i hi
    rw [Finset.sum_eq_zero_iff.1 h0 i hi] at hli ⊢
    rw [h.eq_nil hfit h0, List.count_nil]
    omega
  obtain ⟨q, hq, hle⟩ := h.balance
  set P := ∑ j ∈ live, share j with hP
  have hsum := h.length_balance hq
  rw [← hP] at hsum
  have hei := hq i hi
  have hi0 : ∑ j ∈ live, left' j = 0 → left' i = 0 := fun h0 =>
    Nat.eq_zero_of_le_zero (h0 ▸ Finset.single_le_sum (f := left') (fun _ _ => Nat.zero_le _) hi)
  rcases Nat.eq_zero_or_pos (∑ j ∈ live, left' j) with h0 | hpos
  · -- the round is over and nobody has been served again
    have hn : is.length - ∑ j ∈ live, left j = q * P := by omega
    have hcount : is.count i = left i + q * share i := by rw [hi0 h0] at hei; exact hei
    rw [hn, Nat.mul_div_cancel _ hs, hcount]
    exact ⟨le_rfl, Nat.le_add_right _ _⟩
  · have hq0 : 0 < q := by
      rcases Nat.eq_zero_or_pos q with rfl | hq0
      · omega
      · exact hq0
    obtain ⟨r, rfl⟩ : ∃ r, q = r + 1 := ⟨q - 1, by omega⟩
    have hle := hle hq0
    have hleP : ∑ j ∈ live, left' j ≤ P := Finset.sum_le_sum hle
    rw [Nat.succ_mul] at hsum hei
    have hn : is.length - ∑ j ∈ live, left j = (P - ∑ j ∈ live, left' j) + r * P := by omega
    have hlt : P - ∑ j ∈ live, left' j < P := by omega
    have hdiv : ((P - ∑ j ∈ live, left' j) + r * P) / P = r := by
      rw [Nat.add_mul_div_right _ _ hs, Nat.div_eq_of_lt hlt, Nat.zero_add]
    have hmod : ((P - ∑ j ∈ live, left' j) + r * P) % P = P - ∑ j ∈ live, left' j := by
      rw [Nat.add_mul_mod_self_right, Nat.mod_eq_of_lt hlt]
    have hone : share i - left' i ≤ P - ∑ j ∈ live, left' j := by
      have hsub : ∑ j ∈ live, (share j - left' j) = P - ∑ j ∈ live, left' j :=
        Finset.sum_tsub_distrib _ hle
      rw [← hsub]
      exact Finset.single_le_sum (f := fun j => share j - left' j) (fun _ _ => Nat.zero_le _) hi
    rw [hn, hdiv, hmod]
    have hli := hle i hi
    refine ⟨by omega, ?_⟩
    have hmin : share i - left' i ≤ min (share i) (P - ∑ j ∈ live, left' j) :=
      le_min (Nat.sub_le _ _) hone
    omega

end Draws
end Turns

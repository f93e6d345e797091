import Mathlib.Data.List.InsertIdx
import Mathlib.Tactic

/-!
# Lists as numbers

Two devices for writing a list as a sequence of numbers. `Radix` writes a number in digits of which
the last one is told by its size: every digit but the last is at least the threshold of its place.
`built u n j` is a list on its way to `u` when its members are put in by size and, among equal ones,
from left to right: those below `n`, and those equal to `n` among the first `j`. The next member
goes to the place that the count of those before it says.
-/

/-- Digits below `base`, with the threshold that marks the last digit of a number at each place. -/
structure Radix where
  base : Nat
  threshold : Nat → Nat
  pos : ∀ i, 0 < threshold i
  lt : ∀ i, threshold i < base

namespace Radix

/-- The digits of `q` from place `i` on. -/
def digits (R : Radix) (i q : Nat) : List Nat :=
  if q < R.threshold i then [q]
  else (R.threshold i + (q - R.threshold i) % (R.base - R.threshold i)) ::
    digits R (i + 1) ((q - R.threshold i) / (R.base - R.threshold i))
termination_by q
decreasing_by
  have := R.pos i
  exact lt_of_le_of_lt (Nat.div_le_self _ _) (by omega)

/-- The number at the head of a sequence of digits, and what is left of them. -/
def read (R : Radix) (i : Nat) : List Nat → Option (Nat × List Nat)
  | [] => none
  | d :: ds =>
    if d < R.threshold i then some (d, ds)
    else (read R (i + 1) ds).map fun r => (d + (R.base - R.threshold i) * r.1, r.2)

variable (R : Radix)

theorem digits_ne_nil (i q : Nat) : R.digits i q ≠ [] := by
  rw [digits]
  split <;> exact List.cons_ne_nil _ _

theorem digits_lt (i q : Nat) : ∀ d ∈ R.digits i q, d < R.base := by
  induction i, q using digits.induct R with
  | case1 i q h =>
    rw [digits, if_pos h]
    intro d hd
    rw [List.mem_singleton.1 hd]
    exact h.trans (R.lt i)
  | case2 i q h ih =>
    rw [digits, if_neg h]
    intro d hd
    rcases List.mem_cons.1 hd with rfl | hd
    · have := Nat.mod_lt (q - R.threshold i) (Nat.sub_pos_of_lt (R.lt i))
      omega
    · exact ih d hd

theorem read_digits (i q : Nat) (rest : List Nat) :
    R.read i (R.digits i q ++ rest) = some (q, rest) := by
  induction i, q using digits.induct R with
  | case1 i q h =>
    rw [digits, if_pos h]
    exact if_pos h
  | case2 i q h ih =>
    rw [digits, if_neg h, List.cons_append, read, if_neg (by omega), ih]
    have hdm := Nat.mod_add_div (q - R.threshold i) (R.base - R.threshold i)
    have hq : R.threshold i + (q - R.threshold i) % (R.base - R.threshold i) +
        (R.base - R.threshold i) * ((q - R.threshold i) / (R.base - R.threshold i)) = q := by
      rw [Nat.add_assoc, hdm]
      omega
    rw [Option.map_some, hq]

theorem read_length {i : Nat} {ds rest : List Nat} {q : Nat} (h : R.read i ds = some (q, rest)) :
    rest.length < ds.length := by
  induction ds generalizing i q with
  | nil => cases h
  | cons d ds ih =>
    unfold read at h
    split_ifs at h
    · cases h
      exact Nat.lt_succ_self _
    · obtain ⟨r, hr, he⟩ := Option.map_eq_some_iff.1 h
      cases he
      exact (ih hr).trans (Nat.lt_succ_self _)

end Radix

namespace Insertion
variable {α : Type} [LinearOrder α]

/-- What `u` has been built up to: its members below `n`, and those equal to `n` among its first `j`. -/
def built (u : List α) (n : α) (j : Nat) : List α :=
  (u.take j).filter (· ≤ n) ++ (u.drop j).filter (· < n)

/-- Where the next member goes. -/
def place (u : List α) (n : α) (j : Nat) : Nat := ((u.take j).filter (· ≤ n)).length

variable {u : List α} {n : α} {j : Nat}

theorem place_le : place u n j ≤ (built u n j).length := by
  unfold place built
  rw [List.length_append]
  exact Nat.le_add_right _ _

theorem built_zero : built u n 0 = u.filter (· < n) := rfl

theorem place_zero : place u n 0 = 0 := rfl

theorem built_length : built u n u.length = u.filter (· ≤ n) := by
  unfold built
  rw [List.take_length, List.drop_length, List.filter_nil, List.append_nil]

theorem place_length : place u n u.length = (u.filter (· ≤ n)).length := by
  unfold place
  rw [List.take_length]

omit [LinearOrder α] in
theorem insertIdx_append_length (l r : List α) (x : α) :
    (l ++ r).insertIdx l.length x = l ++ x :: r := by
  induction l with
  | nil => rfl
  | cons y l ih =>
    rw [List.cons_append, List.length_cons, List.insertIdx_succ_cons, ih, List.cons_append]

section Next
variable (hj : j < u.length)
include hj

omit [LinearOrder α] in
theorem take_succ_filter (p : α → Bool) :
    (u.take (j + 1)).filter p = (u.take j).filter p ++ if p u[j] then [u[j]] else [] := by
  rw [List.take_succ_eq_append_getElem hj, List.filter_append, List.filter_singleton]
  cases p u[j] <;> rfl

omit [LinearOrder α] in
theorem drop_filter (p : α → Bool) :
    (u.drop j).filter p = (if p u[j] then [u[j]] else []) ++ (u.drop (j + 1)).filter p := by
  rw [List.drop_eq_getElem_cons hj, List.filter_cons]
  split <;> rfl

theorem below (h : u[j] < n) :
    built u n (j + 1) = built u n j ∧ place u n (j + 1) = place u n j + 1 := by
  unfold built place
  rw [take_succ_filter hj, drop_filter hj]
  simp [h, h.le]

theorem above (h : n < u[j]) : built u n (j + 1) = built u n j ∧ place u n (j + 1) = place u n j := by
  unfold built place
  rw [take_succ_filter hj, drop_filter hj]
  simp [h.not_ge, h.le.not_gt]

theorem insert (h : u[j] = n) :
    built u n (j + 1) = (built u n j).insertIdx (place u n j) n ∧
      place u n (j + 1) = place u n j + 1 := by
  unfold built place
  rw [take_succ_filter hj, drop_filter hj]
  subst h
  simp [insertIdx_append_length]

end Next
end Insertion

import Mathlib.Tactic

/-!
# Writes into a buffer

A buffer is a list. `store` writes at an offset and fails where the buffer ends; `Holds` says what
stands at an offset. What is next to a write stays as it was, and two writes in a row are one.
-/

namespace Memory

variable {α : Type*} {mem mem' bs cs : List α} {i j : Nat}

/-- `bs` written at `i`; `none` where they go over the end. -/
def store (mem : List α) (i : Nat) (bs : List α) : Option (List α) :=
  if i + bs.length ≤ mem.length then some (mem.take i ++ bs ++ mem.drop (i + bs.length)) else none

/-- `bs` stand at `i`. -/
def Holds (mem : List α) (i : Nat) (bs : List α) : Prop := ∀ k b, bs[k]? = some b → mem[i + k]? = some b

/-- The two buffers are the same before `n`. -/
def Agree (n : Nat) (mem mem' : List α) : Prop := ∀ j < n, mem'[j]? = mem[j]?

theorem store_isSome_iff : (store mem i bs).isSome ↔ i + bs.length ≤ mem.length := by
  unfold store
  split_ifs with h
  · exact iff_of_true rfl h
  · exact iff_of_false (by simp) h

theorem le_of_store (h : store mem i bs = some mem') : i + bs.length ≤ mem.length :=
  store_isSome_iff.1 (by rw [h]; rfl)

theorem length_store (h : store mem i bs = some mem') : mem'.length = mem.length := by
  have hle := le_of_store h
  unfold store at h
  rw [if_pos hle, Option.some.injEq] at h
  rw [← h, List.length_append, List.length_append, List.length_take, List.length_drop]
  omega

theorem getElem?_store (h : store mem i bs = some mem') (j : Nat) :
    mem'[j]? = if j < i then mem[j]? else if j < i + bs.length then bs[j - i]? else mem[j]? := by
  have hle := le_of_store h
  have htake : (mem.take i).length = i := by
    rw [List.length_take]
    omega
  unfold store at h
  rw [if_pos hle, Option.some.injEq] at h
  rw [← h, List.append_assoc]
  split_ifs with h1 h2
  · rw [List.getElem?_append_left (by omega), List.getElem?_take, if_pos h1]
  · rw [List.getElem?_append_right (by omega), List.getElem?_append_left (by omega), htake]
  · rw [List.getElem?_append_right (by omega), List.getElem?_append_right (by omega),
      List.getElem?_drop, htake]
    congr 1
    omega

theorem agree_store (h : store mem i bs = some mem') : Agree i mem mem' := fun j hj => by
  rw [getElem?_store h, if_pos hj]

theorem agree_take_append (mem rest : List α) {n : Nat} (hn : n ≤ mem.length) :
    Agree n mem (mem.take n ++ rest) := fun j hj => by
  rw [List.getElem?_append_left (by rw [List.length_take]; omega), List.getElem?_take, if_pos hj]

theorem Agree.trans {n : Nat} {mem'' : List α} (h : Agree n mem mem') (h' : Agree n mem' mem'') :
    Agree n mem mem'' :=
  fun j hj => (h' j hj).trans (h j hj)

theorem Agree.mono {m n : Nat} (h : Agree n mem mem') (hm : m ≤ n) : Agree m mem mem' :=
  fun j hj => h j (hj.trans_le hm)

theorem store_append (mem : List α) (i : Nat) (bs cs : List α) :
    store mem i (bs ++ cs) = (store mem i bs).bind fun m => store m (i + bs.length) cs := by
  by_cases hb : i + bs.length ≤ mem.length
  · obtain ⟨m, hm⟩ := Option.isSome_iff_exists.1 (store_isSome_iff.2 hb)
    have hlen := length_store hm
    rw [hm, Option.bind_some]
    by_cases hc : i + (bs ++ cs).length ≤ mem.length
    · obtain ⟨m₁, hm₁⟩ := Option.isSome_iff_exists.1 (store_isSome_iff.2 hc)
      rw [List.length_append] at hc
      have hc' : i + bs.length + cs.length ≤ m.length := by omega
      obtain ⟨m₂, hm₂⟩ := Option.isSome_iff_exists.1 (store_isSome_iff.2 hc')
      rw [hm₁, hm₂, Option.some.injEq]
      refine List.ext_getElem? fun j => ?_
      rw [getElem?_store hm₁, getElem?_store hm₂, getElem?_store hm, List.length_append]
      split_ifs with h1 h2 h3 h4 h5 h6
      all_goals first
        | rfl
        | omega
        | skip
      · rw [List.getElem?_append_left (by omega)]
      · rw [List.getElem?_append_right (by omega)]
        congr 1
        omega
    · rw [List.length_append] at hc
      have h1 : store mem i (bs ++ cs) = none := if_neg (by rw [List.length_append]; exact hc)
      have h2 : store m (i + bs.length) cs = none := if_neg (by omega)
      rw [h1, h2]
  · have h1 : store mem i bs = none := if_neg hb
    have h2 : store mem i (bs ++ cs) = none := if_neg (by rw [List.length_append]; omega)
    rw [h1, h2, Option.bind_none]

namespace Holds

theorem nil : Holds mem i [] := fun k b h => by simp at h

theorem append_iff : Holds mem i (bs ++ cs) ↔ Holds mem i bs ∧ Holds mem (i + bs.length) cs := by
  constructor
  · intro h
    refine ⟨fun k b hk => h k b ?_, fun k b hk => ?_⟩
    · rw [List.getElem?_append_left (List.getElem?_eq_some_iff.1 hk).1]
      exact hk
    · rw [add_assoc]
      refine h _ b ?_
      rw [List.getElem?_append_right (Nat.le_add_right _ _), Nat.add_sub_cancel_left]
      exact hk
  · rintro ⟨hb, hc⟩ k b hk
    rcases Nat.lt_or_ge k bs.length with hlt | hge
    · rw [List.getElem?_append_left hlt] at hk
      exact hb k b hk
    · rw [List.getElem?_append_right hge] at hk
      have := hc _ b hk
      rwa [show i + bs.length + (k - bs.length) = i + k by omega] at this

theorem cons_iff {b : α} : Holds mem i (b :: bs) ↔ mem[i]? = some b ∧ Holds mem (i + 1) bs := by
  rw [← List.singleton_append, append_iff]
  refine and_congr_left fun _ => ⟨fun h => h 0 b rfl, fun h k c hk => ?_⟩
  obtain ⟨hlt, rfl⟩ := List.getElem?_eq_some_iff.1 hk
  have h0 : k = 0 := by simpa using hlt
  subst h0
  exact h

theorem store_self (h : store mem i bs = some mem') : Holds mem' i bs := by
  intro k b hk
  have hlt := (List.getElem?_eq_some_iff.1 hk).1
  rw [getElem?_store h, if_neg (by omega), if_pos (by omega), Nat.add_sub_cancel_left]
  exact hk

theorem of_agree {n : Nat} (h : Holds mem i bs) (hn : i + bs.length ≤ n) (ha : Agree n mem mem') :
    Holds mem' i bs := by
  intro k b hk
  have hlt := (List.getElem?_eq_some_iff.1 hk).1
  rw [ha _ (by omega)]
  exact h k b hk

theorem le_length (h : Holds mem i bs) (hne : bs ≠ []) : i + bs.length ≤ mem.length := by
  have hpos := List.length_pos_iff.2 hne
  have hlast := h (bs.length - 1) (bs.get ⟨bs.length - 1, by omega⟩)
    (List.getElem?_eq_getElem (by omega))
  have := (List.getElem?_eq_some_iff.1 hlast).1
  omega

theorem slice (h : Holds mem i bs) : (mem.drop i).take bs.length = bs := by
  refine List.ext_getElem? fun k => ?_
  rw [List.getElem?_take]
  split_ifs with hk
  · rw [List.getElem?_drop, List.getElem?_eq_getElem hk]
    exact h k _ (List.getElem?_eq_getElem hk)
  · exact (List.getElem?_eq_none (not_lt.1 hk)).symm

end Holds

end Memory

import Resend.Lib.LinkedList
import Resend.Udp.Wire

/-!
# The list behind the queues

`s_list` with its node pool. It goes by `cur_size`, an `unsigned int`, and not by its pointers: a
push that finds `cur_size` at `0` starts the list anew, also where `2 ^ 32` nodes hang on it.
-/

namespace Resend.Udp

structure SList (α : Type) where
  memory : Cells α
  head : Option Nat
  tail : Option Nat
  curSize : Nat

namespace SList
variable {α : Type}

/-- `s_list()`. -/
def new : SList α := ⟨fun _ => none, none, none, 0⟩

/-- `int size()`. -/
def size (l : SList α) : Int := toInt32 l.curSize

/-- `push_back` with the node that `Pool_node.malloc` returned; `none` where `tail` is not to be
written through. -/
def pushBack (l : SList α) (temp : Nat) (x : α) : Option (SList α) :=
  let m := Function.update l.memory temp (some ⟨x, none⟩)
  if l.curSize = 0 then some ⟨m, some temp, some temp, u32 (l.curSize + 1)⟩
  else l.tail.bind fun a => (m a).map fun c =>
    ⟨Function.update m a (some { c with next := some temp }), l.head, some temp, u32 (l.curSize + 1)⟩

/-- `dequeue_head`: the list and what was stored in `t1`, nothing where it returns `-1`. The node
goes back to the pool. -/
def dequeueHead (l : SList α) : Option (SList α × Option α) :=
  if l.curSize = 0 then some (l, none)
  else l.head.bind fun temp => (l.memory temp).map fun c =>
    let m := Function.update l.memory temp none
    if l.curSize = 1 then (⟨m, none, none, l.curSize - 1⟩, some c.data)
    else (⟨m, c.next, l.tail, l.curSize - 1⟩, some c.data)

/-- The list has the items `xs`, at most as many as `cur_size` can count once around. -/
structure Holds (l : SList α) (xs : List α) : Prop where
  cells : ∃ cs, cs.map Prod.snd = xs ∧ l.head = Cells.head cs none ∧ l.tail = cs.getLast?.map Prod.fst ∧
    Cells.Linked l.memory cs none
  count : l.curSize = u32 xs.length
  le : xs.length ≤ 2 ^ 32

variable {l l' : SList α} {xs : List α} {x y : α} {temp : Nat}

theorem holds_new : (new : SList α).Holds [] where
  cells := ⟨[], rfl, rfl, rfl, trivial⟩
  count := (u32_of_lt (Nat.pow_pos Nat.zero_lt_two)).symm
  le := Nat.zero_le _

theorem Holds.head_eq_none_iff (h : l.Holds xs) : l.head = none ↔ xs = [] := by
  obtain ⟨cs, rfl, hhead, -⟩ := h.cells
  rw [hhead, List.map_eq_nil_iff]
  cases cs with
  | nil => exact ⟨fun _ => rfl, fun _ => rfl⟩
  | cons c cs => exact ⟨fun he => (nomatch he), fun he => (nomatch he)⟩

theorem Holds.curSize_eq (h : l.Holds xs) (hlt : xs.length < 2 ^ 32) : l.curSize = xs.length :=
  h.count.trans (u32_of_lt hlt)

theorem Holds.curSize_eq_zero (h : l.Holds xs) (hfull : xs.length = 2 ^ 32) : l.curSize = 0 := by
  rw [h.count, hfull]
  decide +kernel

theorem Holds.size_pos_iff (h : l.Holds xs) : 0 < l.size ↔ xs ≠ [] ∧ xs.length < 2 ^ 31 := by
  have hne : xs ≠ [] ↔ 0 < xs.length := List.length_pos_iff.symm
  rw [hne, size, toInt32]
  by_cases hfull : xs.length = 2 ^ 32
  · rw [h.curSize_eq_zero hfull]
    simp only [Nat.ofNat_pos, pow_pos, ↓reduceIte, CharP.cast_eq_zero, lt_self_iff_false, false_iff]
    omega
  · have hle := h.le
    rw [h.curSize_eq (by omega)]
    split <;> omega

theorem Holds.push (h : l.Holds xs) (hlt : xs.length < 2 ^ 32) (hfree : l.memory temp = none) :
    ∃ l', l.pushBack temp x = some l' ∧ l'.Holds (xs ++ [x]) := by
  have hcount : u32 (l.curSize + 1) = u32 (xs ++ [x]).length := by
    rw [h.curSize_eq hlt, List.length_append]; rfl
  have hle : (xs ++ [x]).length ≤ 2 ^ 32 := by simpa using hlt
  obtain ⟨cs, rfl, hhead, htail, hlinked⟩ := h.cells
  rcases List.eq_nil_or_concat' cs with rfl | ⟨cs, ⟨a, y⟩, rfl⟩
  · have hzero : l.curSize = 0 := h.curSize_eq hlt
    refine ⟨_, if_pos hzero, ⟨[(temp, x)], rfl, rfl, rfl, ?_⟩, hcount, hle⟩
    exact ⟨Function.update_self .., trivial⟩
  · have hpos : ¬ l.curSize = 0 := by
      rw [h.curSize_eq hlt]
      simp
    have htemp := hlinked.not_mem hfree
    have hne : a ≠ temp := by
      rintro rfl
      exact htemp (by simp)
    have ha : a ∉ cs.map Prod.fst := by
      have hnodup := hlinked.nodup
      rw [List.map_append, List.nodup_append] at hnodup
      exact fun hin => hnodup.2.2 a hin a (List.mem_singleton_self a) rfl
    have hcell : Function.update l.memory temp (some ⟨x, none⟩) a = some ⟨y, none⟩ := by
      rw [Function.update_of_ne hne]
      exact (Cells.linked_concat.1 hlinked).2
    have htail' : l.tail = some a := by rw [htail, List.getLast?_concat]; rfl
    refine ⟨⟨_, l.head, some temp, u32 (l.curSize + 1)⟩, ?_,
      ⟨cs ++ [(a, y)] ++ [(temp, x)], ?_, ?_, ?_, hlinked.push ha htemp⟩, hcount, hle⟩
    · rw [pushBack, if_neg hpos, htail', Option.bind_some, hcell, Option.map_some]
      rfl
    · rw [List.map_append, List.map_singleton]
    · rw [Cells.head_append, hhead]
      cases cs <;> rfl
    · rw [List.getLast?_concat]
      rfl

/-- A push behind `2 ^ 32` items loses them. -/
theorem Holds.push_full (h : l.Holds xs) (hfull : xs.length = 2 ^ 32) (temp : Nat) (x : α) :
    ∃ l', l.pushBack temp x = some l' ∧ l'.Holds [x] := by
  have hzero := h.curSize_eq_zero hfull
  refine ⟨_, if_pos hzero, ⟨[(temp, x)], rfl, rfl, rfl, Function.update_self .., trivial⟩, ?_,
    Nat.one_le_two_pow⟩
  show u32 (l.curSize + 1) = _
  rw [hzero]
  rfl

theorem free_pushBack {a : Nat} (hl : l.pushBack temp x = some l') (hfree : l.memory a = none)
    (ha : a ≠ temp) :
    l'.memory a = none := by
  have hm : Function.update l.memory temp (some ⟨x, none⟩) a = none := by
    rw [Function.update_of_ne ha, hfree]
  rw [pushBack] at hl
  split at hl
  · cases hl
    exact hm
  · obtain ⟨b, -, hl⟩ := Option.bind_eq_some_iff.1 hl
    obtain ⟨c, hc, rfl⟩ := Option.map_eq_some_iff.1 hl
    have hab : a ≠ b := by
      rintro rfl
      rw [hm] at hc
      cases hc
    exact (Function.update_of_ne hab ..).trans hm

theorem Holds.dequeue_nil (h : l.Holds []) : l.dequeueHead = some (l, none) :=
  if_pos (h.curSize_eq (Nat.pow_pos Nat.zero_lt_two))

theorem Holds.dequeue_cons (h : l.Holds (x :: xs)) (hlt : (x :: xs).length < 2 ^ 32) :
    ∃ l', l.dequeueHead = some (l', some x) ∧ l'.Holds xs := by
  have hcount := h.curSize_eq hlt
  obtain ⟨cs, hcs, hhead, htail, hlinked⟩ := h.cells
  obtain ⟨⟨a, y⟩, cs, rfl, rfl, rfl⟩ := List.map_eq_cons_iff.1 hcs
  have ha : a ∉ cs.map Prod.fst := (List.nodup_cons.1 hlinked.nodup).1
  obtain ⟨hcell, hrest⟩ := hlinked
  have hrest' := hrest.update ha none
  rw [List.length_cons, List.length_map] at hcount hlt
  have hlen : (cs.map Prod.snd).length = cs.length := List.length_map _
  have hcount' : l.curSize - 1 = u32 (cs.map Prod.snd).length := by
    rw [hcount, hlen, u32_of_lt (by omega)]; rfl
  have hcell' : l.memory a = some ⟨y, Cells.head cs none⟩ := hcell
  rw [dequeueHead, if_neg (by omega), hhead, Cells.head, Option.bind_some, hcell', Option.map_some]
  by_cases hone : l.curSize = 1
  · obtain rfl : cs = [] := List.length_eq_zero_iff.1 (by omega)
    rw [if_pos hone]
    exact ⟨_, rfl, ⟨[], rfl, rfl, rfl, trivial⟩, hcount', by simp⟩
  · obtain ⟨c, cs, rfl⟩ := List.exists_cons_of_length_pos (l := cs) (by omega)
    rw [if_neg hone]
    exact ⟨_, rfl, ⟨c :: cs, rfl, rfl, htail, hrest'⟩, hcount', by rw [hlen]; omega⟩

end SList

end Resend.Udp

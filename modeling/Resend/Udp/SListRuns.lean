import Resend.Lib.Machine
import Resend.Udp.SList

/-!
# Runs of the list behind the queues

All operations of `s_list` next to those of a list. `find_and_del` leaves `tail` on the node that it
frees, so that a list which loses its last node that way hangs what comes next on a free node.
-/

namespace Resend.Udp

namespace SList
variable {α : Type}

/-- `clear`; `Pool_node.purge_memory` frees all nodes. -/
def clear (_ : SList α) : SList α := new

section search
variable [BEq α]

/-- The loop of `find` at `temp`: what it returns, unless it follows a bad pointer or meets more
than `fuel` nodes. -/
def findFrom (l : SList α) (t1 : α) : Nat → Option Nat → Option Int
  | _, none => some (-1)
  | 0, some _ => none
  | fuel + 1, some temp => (l.memory temp).bind fun c =>
    if c.data == t1 then some 0 else l.findFrom t1 fuel c.next

def find (l : SList α) (t1 : α) (fuel : Nat) : Option Int := l.findFrom t1 fuel l.head

/-- `cur_size--`, which wraps. -/
def decSize (l : SList α) : Nat := sub32 l.curSize 1

/-- The loop of `find_and_del` at `temp` behind `xtemp`. -/
def findAndDelFrom (l : SList α) (t1 : α) : Nat → Option Nat → Option Nat → Option (SList α × Int)
  | _, _, none => some (l, -1)
  | 0, _, some _ => none
  | fuel + 1, xtemp, some temp => (l.memory temp).bind fun c =>
    if c.data == t1 then
      if some temp = l.head then
        some (⟨Function.update l.memory temp none, c.next, l.tail, l.decSize⟩, 0)
      else xtemp.bind fun b => (l.memory b).map fun d =>
        let m := Function.update l.memory b (some { d with next := c.next })
        (⟨Function.update m temp none, l.head, l.tail, l.decSize⟩, 0)
    else l.findAndDelFrom t1 fuel (some temp) c.next

def findAndDel (l : SList α) (t1 : α) (fuel : Nat) : Option (SList α × Int) :=
  l.findAndDelFrom t1 fuel none l.head

end search

/-- A call; a push comes with the node that `Pool_node.malloc` returns. -/
inductive Op (α : Type)
  | pushBack (temp : Nat) (t1 : α)
  | dequeueHead
  | find (t1 : α)
  | findAndDel (t1 : α)
  | clear
  | size

/-- A list with the number of nodes that its pool has given out, and the list that it stands for. -/
structure Run (α : Type) where
  list : SList α
  mallocs : Nat
  spec : List α

section run
variable [BEq α]

/-- A call: the list after it, what it returns, and what it stores in the caller's `t1`. -/
def call (l : SList α) (fuel : Nat) : Op α → Option (SList α × Int × Option α)
  | .pushBack temp t1 => (l.pushBack temp t1).map fun l' => (l', toInt32 l'.curSize, none)
  | .dequeueHead => l.dequeueHead.map fun r => (r.1, if r.2.isSome then 0 else -1, r.2)
  | .find t1 => (l.find t1 fuel).map fun r => (l, r, none)
  | .findAndDel t1 => (l.findAndDel t1 fuel).map fun r => (r.1, r.2, none)
  | .clear => some (l.clear, 0, none)
  | .size => some (l, l.size, none)

/-- The list after the call. -/
def Op.next (xs : List α) : Op α → List α
  | .pushBack _ t1 => xs ++ [t1]
  | .dequeueHead => xs.tail
  | .find _ | .size => xs
  | .findAndDel t1 => xs.eraseP (· == t1)
  | .clear => []

/-- What the call gives on a list. -/
def Op.result (xs : List α) : Op α → Int × Option α
  | .pushBack _ _ => (xs.length + 1, none)
  | .dequeueHead => (if xs = [] then -1 else 0, xs.head?)
  | .find t1 | .findAndDel t1 => (if xs.any (· == t1) then 0 else -1, none)
  | .clear => (0, none)
  | .size => (xs.length, none)

/-- The pool gives out nodes that are free. -/
def Op.possible (l : SList α) : Op α → Bool
  | .pushBack temp _ => (l.memory temp).isNone
  | _ => true

/-- `Pool_node.malloc` calls. -/
def Op.mallocs : Op α → Nat
  | .pushBack _ _ => 1
  | _ => 0

/-- Calls one after the other, on a new list to begin with. No loop meets more nodes than the pool
has given out. -/
def machine : Machine (Run α) (Op α) where
  init s := s = ⟨new, 0, []⟩
  step s op :=
    if op.possible s.list then
      (s.list.call s.mallocs op).map fun r => ⟨r.1, s.mallocs + op.mallocs, op.next s.spec⟩
    else none

/-- What `begin()` and `++` visit are the items `xs`, and the other fields agree with that. -/
def Consistent (l : SList α) (fuel : Nat) (xs : List α) : Prop :=
  ∃ cs, Cells.walk l.memory fuel l.head = some cs ∧ cs.map Prod.snd = xs ∧
    (cs ≠ [] → l.tail = cs.getLast?.map Prod.fst) ∧ l.curSize = xs.length

/-- The call gives what it gives on a list, and leaves all fields right. -/
def Right (s : Run α) (op : Op α) : Prop :=
  op.possible s.list = true → ∃ l, s.list.call s.mallocs op = some (l, op.result s.spec) ∧
    l.Consistent (s.mallocs + op.mallocs) (op.next s.spec)

/-- No push from `2 ^ 31 - 1` items on, and `find_and_del` does not take the last of several items. -/
def Fits (s : Run α) : Op α → Prop
  | .pushBack temp t1 => (Op.pushBack temp t1).possible s.list = true → s.spec.length + 1 < 2 ^ 31
  | .findAndDel t1 => 2 ≤ s.spec.length → s.spec.any (· == t1) → s.spec.dropLast.any (· == t1)
  | _ => True

end run

/-! ### The loops -/

section loops
variable [BEq α] {l : SList α} {cs ds : List (Nat × α)} {c : Nat × α} {t1 y : α} {fuel b : Nat}
  {xtemp : Option Nat}

theorem findFrom_eq (h : Cells.Linked l.memory cs none) (hle : cs.length ≤ fuel) :
    l.findFrom t1 fuel (Cells.head cs none) =
      some (if (cs.map Prod.snd).any (· == t1) then 0 else -1) := by
  induction cs generalizing fuel with
  | nil => cases fuel <;> rfl
  | cons c cs ih =>
    obtain ⟨fuel, rfl⟩ := Nat.exists_eq_add_of_lt hle
    rw [Cells.head, findFrom, h.1, Option.bind_some, ih h.2 (Nat.le_add_right ..),
      List.map_cons, List.any_cons]
    cases c.2 == t1 <;> rfl

theorem findAndDelFrom_skip (h : Cells.Linked l.memory (cs ++ ds) none)
    (hcs : ∀ c ∈ cs, (c.2 == t1) = false) :
    l.findAndDelFrom t1 (fuel + cs.length) xtemp (Cells.head (cs ++ ds) none) =
      l.findAndDelFrom t1 fuel ((cs.getLast?.map Prod.fst).or xtemp) (Cells.head ds none) := by
  induction cs generalizing xtemp with
  | nil => rfl
  | cons c cs ih =>
    obtain ⟨hc, hcs⟩ := List.forall_mem_cons.1 hcs
    rw [List.length_cons, ← Nat.add_assoc, List.cons_append, Cells.head,
      findAndDelFrom, h.1, Option.bind_some, if_neg (ne_true_of_eq_false hc), List.getLast?_cons]
    refine (ih h.2 hcs).trans ?_
    cases cs.getLast? <;> rfl

theorem findAndDel_head (h : Cells.Linked l.memory (c :: ds) none) (hhead : l.head = some c.1)
    (hc : (c.2 == t1) = true) (hle : (c :: ds).length ≤ fuel) : l.findAndDel t1 fuel =
      some (⟨Function.update l.memory c.1 none, Cells.head ds none, l.tail, l.decSize⟩, 0) := by
  obtain ⟨fuel, rfl⟩ := Nat.exists_eq_add_of_lt hle
  rw [findAndDel, hhead, findAndDelFrom, h.1, Option.bind_some, if_pos hc, if_pos hhead.symm]

theorem findAndDel_behind (h : Cells.Linked l.memory (cs ++ (b, y) :: c :: ds) none)
    (hhead : l.head = Cells.head (cs ++ (b, y) :: c :: ds) none)
    (hcs : ∀ d ∈ cs ++ [(b, y)], (d.2 == t1) = false) (hc : (c.2 == t1) = true)
    (hle : (cs ++ (b, y) :: c :: ds).length ≤ fuel) : l.findAndDel t1 fuel =
      some (⟨Function.update (Function.update l.memory b (some ⟨y, Cells.head ds none⟩)) c.1 none,
        l.head, l.tail, l.decSize⟩,
        0) := by
  have hsplit : cs ++ (b, y) :: c :: ds = cs ++ [(b, y)] ++ c :: ds := by simp
  rw [hsplit] at hhead hle h
  have hne : some c.1 ≠ l.head := by
    have hnodup := h.nodup
    rw [List.map_append, List.nodup_append] at hnodup
    rw [hhead, Cells.head_append]
    intro he
    cases cs with
    | nil => exact hnodup.2.2 b List.mem_cons_self c.1 List.mem_cons_self (Option.some.inj he).symm
    | cons d cs =>
      exact hnodup.2.2 d.1 List.mem_cons_self c.1 List.mem_cons_self (Option.some.inj he).symm
  rw [List.length_append] at hle
  obtain ⟨fuel, rfl⟩ := Nat.exists_eq_add_of_le hle
  obtain ⟨hcs', hcell, -⟩ := Cells.linked_append.1 h
  obtain ⟨-, hb⟩ := Cells.linked_concat.1 hcs'
  rw [findAndDel, hhead, show (cs ++ [(b, y)]).length + (c :: ds).length + fuel =
      (ds.length + fuel) + 1 + (cs ++ [(b, y)]).length by simp only [List.length_cons]; omega,
    findAndDelFrom_skip h hcs, ← hhead, List.getLast?_concat, Cells.head,
    findAndDelFrom, hcell, Option.bind_some,
    if_pos hc, if_neg hne]
  show Option.map _ (l.memory b) = _
  rw [hb]
  rfl

theorem findAndDel_none (h : Cells.Linked l.memory cs none) (hhead : l.head = Cells.head cs none)
    (hcs : ∀ d ∈ cs, (d.2 == t1) = false) (hle : cs.length ≤ fuel) :
    l.findAndDel t1 fuel = some (l, -1) := by
  obtain ⟨fuel, rfl⟩ := Nat.exists_eq_add_of_le' hle
  have hskip := @findAndDelFrom_skip α _ l cs [] t1 fuel none (by rwa [List.append_nil]) hcs
  rw [List.append_nil] at hskip
  rw [findAndDel, hhead, hskip]
  cases fuel <;> rfl

end loops

/-! ### The invariant -/

/-- The list with `tail` only where it counts: that of an empty list may be on a free node. -/
def tidy (l : SList α) : SList α := { l with tail := if l.head = none then none else l.tail }

section holds
variable {l : SList α} {xs : List α} {cs : List (Nat × α)} {x : α} {temp fuel : Nat}

theorem tidy_holds_iff : l.tidy.Holds xs ↔ (∃ cs, cs.map Prod.snd = xs ∧ l.head = Cells.head cs none ∧
    (cs ≠ [] → l.tail = cs.getLast?.map Prod.fst) ∧ Cells.Linked l.memory cs none) ∧
      l.curSize = u32 xs.length ∧ xs.length ≤ 2 ^ 32 := by
  have htail : ∀ cs : List (Nat × α), l.head = Cells.head cs none →
      (l.tidy.tail = cs.getLast?.map Prod.fst ↔ (cs ≠ [] → l.tail = cs.getLast?.map Prod.fst)) := by
    intro cs hhead
    rw [tidy, hhead]
    cases cs with
    | nil => exact ⟨fun _ hne => absurd rfl hne, fun _ => rfl⟩
    | cons c cs => exact ⟨fun he _ => he, fun he => he (List.cons_ne_nil _ _)⟩
  constructor
  · rintro ⟨⟨cs, hxs, hhead, hlast, hlinked⟩, hcount, hle⟩
    exact ⟨⟨cs, hxs, hhead, (htail cs hhead).1 hlast, hlinked⟩, hcount, hle⟩
  · rintro ⟨⟨cs, hxs, hhead, hlast, hlinked⟩, hcount, hle⟩
    exact ⟨⟨cs, hxs, hhead, (htail cs hhead).2 hlast, hlinked⟩, hcount, hle⟩

theorem tidy_eq (h : l.tidy.Holds xs) (hne : xs ≠ []) : l.tidy = l := by
  have hhead : l.head ≠ none := fun he => hne (h.head_eq_none_iff.1 he)
  rw [tidy, if_neg hhead]

theorem Holds.tidy (h : l.Holds xs) : l.tidy.Holds xs := by
  obtain ⟨⟨cs, hxs, hhead, hlast, hlinked⟩, hcount, hle⟩ := h
  exact tidy_holds_iff.2 ⟨⟨cs, hxs, hhead, fun _ => hlast, hlinked⟩, hcount, hle⟩

theorem pushBack_tidy (h : l.tidy.Holds xs) : l.tidy.pushBack temp x = l.pushBack temp x := by
  rcases eq_or_ne xs [] with rfl | hne
  · have hzero : l.curSize = 0 := h.curSize_eq (Nat.pow_pos Nat.zero_lt_two)
    exact (if_pos hzero).trans (if_pos hzero).symm
  · rw [tidy_eq h hne]

theorem consistent_of_holds (h : l.tidy.Holds xs) (hlt : xs.length < 2 ^ 32) (hle : xs.length ≤ fuel) :
    l.Consistent fuel xs := by
  obtain ⟨⟨cs, rfl, hhead, htail, hlinked⟩, hcount, -⟩ := tidy_holds_iff.1 h
  rw [List.length_map] at hle
  exact ⟨cs, hhead ▸ hlinked.walk hle, rfl, htail, hcount.trans (u32_of_lt hlt)⟩

end holds

/-- The fields are those of the list `spec`, which is not too long. -/
structure Tracks (s : Run α) : Prop where
  holds : s.list.tidy.Holds s.spec
  lt : s.spec.length < 2 ^ 31
  le : s.spec.length ≤ s.mallocs

theorem tracks_new : Tracks (⟨new, 0, []⟩ : Run α) where
  holds := holds_new.tidy
  lt := Nat.pow_pos Nat.zero_lt_two
  le := le_rfl

theorem first_cases {β : Type} (p : β → Bool) (cs : List β) : (∀ c ∈ cs, p c = false) ∨
    (∃ c ds, cs = c :: ds ∧ p c = true) ∨
    ∃ qs b c ds, cs = qs ++ b :: c :: ds ∧ (∀ d ∈ qs ++ [b], p d = false) ∧ p c = true := by
  rcases List.exists_or_eq_self_of_eraseP p cs with h | ⟨c, ds, es, hds, hc, rfl, -⟩
  · exact .inl fun c hc => Bool.eq_false_iff.2 (List.eraseP_eq_self_iff.1 h c hc)
  · rcases List.eq_nil_or_concat' ds with rfl | ⟨qs, b, rfl⟩
    · exact .inr (.inl ⟨c, es, rfl, hc⟩)
    · exact .inr (.inr ⟨qs, b, c, es, by simp, fun d hd => Bool.eq_false_iff.2 (hds d hd), hc⟩)

theorem eraseP_behind {p : α → Bool} {qs ds : List (Nat × α)} {c : Nat × α}
    (hqs : ∀ d ∈ qs, p d.2 = false) (hc : p c.2 = true) :
    ((qs ++ c :: ds).map Prod.snd).eraseP p = (qs ++ ds).map Prod.snd := by
  have hskip : ∀ x ∈ qs.map Prod.snd, ¬ p x = true := by
    intro x hx
    obtain ⟨d, hd, rfl⟩ := List.mem_map.1 hx
    exact ne_true_of_eq_false (hqs d hd)
  rw [List.map_append, List.eraseP_append_right _ hskip, List.map_cons,
    List.eraseP_cons_of_pos hc, List.map_append]

theorem any_behind {p : α → Bool} {qs ds : List (Nat × α)} {c : Nat × α} (hc : p c.2 = true) :
    ((qs ++ c :: ds).map Prod.snd).any p = true :=
  List.any_eq_true.2 ⟨c.2, by simp, hc⟩

theorem decSize_eq {l : SList α} {n : Nat} (hn : n + 1 < 2 ^ 32) (h : l.curSize = n + 1) :
    l.decSize = u32 n := by
  rw [decSize, h, sub32_of_le hn (Nat.le_add_left 1 n),
    u32_of_lt (Nat.lt_of_succ_lt hn), Nat.add_sub_cancel]

theorem Tracks.nodes {s : Run α} (h : Tracks s) :
    ∃ cs, cs.map Prod.snd = s.spec ∧ cs.length ≤ s.mallocs ∧
      s.list.head = Cells.head cs none ∧ (cs ≠ [] → s.list.tail = cs.getLast?.map Prod.fst) ∧
      Cells.Linked s.list.memory cs none := by
  obtain ⟨⟨cs, hcs, hrest⟩, -⟩ := tidy_holds_iff.1 h.holds
  have hle : cs.length ≤ s.mallocs := by rw [← List.length_map Prod.snd, hcs]; exact h.le
  exact ⟨cs, hcs, hle, hrest⟩

theorem Tracks.erased {s : Run α} (h : Tracks s) {l : SList α} {cs : List (Nat × α)} {mallocs : Nat}
    {xs : List α} (hcs : cs.map Prod.snd = xs) (hhead : l.head = Cells.head cs none)
    (htail : cs ≠ [] → l.tail = cs.getLast?.map Prod.fst) (hlinked : Cells.Linked l.memory cs none)
    (hcount : l.curSize = s.list.decSize) (hlen : s.spec.length = xs.length + 1)
    (hm : s.mallocs ≤ mallocs) :
    Tracks ⟨l, mallocs, xs⟩ := by
  have hlt := h.lt
  have hsmall : xs.length + 1 < 2 ^ 32 := by omega
  have hsize : s.list.curSize = xs.length + 1 := (h.holds.curSize_eq (hlt.trans (by decide))).trans hlen
  refine ⟨tidy_holds_iff.2 ⟨⟨cs, hcs, hhead, htail, hlinked⟩,
    hcount.trans (decSize_eq hsmall hsize), ?_⟩, ?_, ?_⟩
  · show xs.length ≤ 2 ^ 32
    omega
  · show xs.length < 2 ^ 31
    omega
  · have hle := h.le
    show xs.length ≤ mallocs
    omega

/-! ### The calls -/

section calls
variable [BEq α] {s : Run α} {op : Op α} {t1 : α} {temp : Nat}

/-- What is to be shown of a call. -/
def Serves (s : Run α) (op : Op α) : Prop :=
  ∃ l, s.list.call s.mallocs op = some (l, op.result s.spec) ∧
    Tracks ⟨l, s.mallocs + op.mallocs, op.next s.spec⟩

theorem Serves.right (h : Serves s op) : Right s op := by
  obtain ⟨l, hl, ht⟩ := h
  exact fun _ => ⟨l, hl, consistent_of_holds ht.holds (ht.lt.trans (by decide)) ht.le⟩

theorem toInt32_of_lt {n : Nat} (h : n < 2 ^ 31) : toInt32 n = n := if_pos h

theorem Tracks.pushBack (h : Tracks s) (hfree : s.list.memory temp = none)
    (hlt : s.spec.length + 1 < 2 ^ 31) :
    Serves s (.pushBack temp t1) := by
  obtain ⟨l, hl, hholds⟩ := h.holds.push (x := t1) (h.lt.trans (by decide)) hfree
  rw [pushBack_tidy h.holds] at hl
  have hlen : (s.spec ++ [t1]).length = s.spec.length + 1 := List.length_append
  have hsize : l.curSize = s.spec.length + 1 := by rw [hholds.curSize_eq (by omega), hlen]
  refine ⟨l, ?_, hholds.tidy, ?_, ?_⟩
  · rw [call, hl, Option.map_some, hsize, toInt32_of_lt hlt]
    rfl
  · exact hlen ▸ hlt
  · exact hlen ▸ Nat.succ_le_succ h.le

theorem Tracks.dequeueHead (h : Tracks s) : Serves s .dequeueHead := by
  obtain ⟨l, mallocs, spec⟩ := s
  obtain ⟨hholds, hlt, hle⟩ := h
  cases spec with
  | nil =>
    have hzero : l.curSize = 0 := hholds.curSize_eq (Nat.pow_pos Nat.zero_lt_two)
    refine ⟨l, ?_, hholds, hlt, hle⟩
    rw [call, SList.dequeueHead, if_pos hzero]
    rfl
  | cons x xs =>
    have htidy := tidy_eq hholds (List.cons_ne_nil x xs)
    obtain ⟨l', hl, hholds'⟩ := hholds.dequeue_cons (hlt.trans (by decide))
    rw [htidy] at hl
    refine ⟨l', ?_, hholds'.tidy, Nat.lt_of_succ_lt hlt, Nat.le_of_succ_le hle⟩
    rw [call, hl]
    rfl

theorem Tracks.find (h : Tracks s) : Serves s (.find t1) := by
  obtain ⟨⟨cs, hcs, hhead, -, hlinked⟩, -⟩ := tidy_holds_iff.1 h.holds
  have hle : cs.length ≤ s.mallocs := by rw [← List.length_map Prod.snd, hcs]; exact h.le
  refine ⟨s.list, ?_, h⟩
  rw [call, SList.find, hhead, findFrom_eq hlinked hle, hcs]
  rfl

theorem Tracks.size (h : Tracks s) : Serves s .size := by
  refine ⟨s.list, ?_, h⟩
  have hsize : s.list.curSize = s.spec.length := h.holds.curSize_eq (h.lt.trans (by decide))
  rw [call, SList.size, hsize, toInt32_of_lt h.lt]
  rfl

theorem serves_clear : Serves s .clear :=
  ⟨new, rfl, holds_new.tidy, Nat.pow_pos Nat.zero_lt_two, Nat.zero_le _⟩

theorem serves_findAndDel {l : SList α} (hdel : s.list.findAndDel t1 s.mallocs = some (l, 0))
    (hfound : s.spec.any (· == t1) = true)
    (ht : Tracks ⟨l, s.mallocs, (Op.findAndDel t1).next s.spec⟩) :
    Serves s (.findAndDel t1) := by
  refine ⟨l, ?_, ht⟩
  rw [call, hdel, Op.result, if_pos hfound]
  rfl

theorem Tracks.findAndDel (h : Tracks s) (hfits : Fits s (.findAndDel t1)) :
    Serves s (.findAndDel t1) := by
  obtain ⟨cs, hcs, hle, hhead, htail, hlinked⟩ := h.nodes
  obtain ⟨l, mallocs, spec⟩ := s
  obtain rfl : cs.map Prod.snd = spec := hcs
  rcases first_cases (·.2 == t1) cs with hnone | ⟨c, ds, rfl, hc⟩ | ⟨qs, ⟨b, y⟩, c, ds, rfl, hqs, hc⟩
  · have hany : ∀ x ∈ cs.map Prod.snd, ¬ (x == t1) = true := by
      intro x hx
      obtain ⟨d, hd, rfl⟩ := List.mem_map.1 hx
      exact ne_true_of_eq_false (hnone d hd)
    have hnext : (Op.findAndDel t1).next (cs.map Prod.snd) = cs.map Prod.snd :=
      List.eraseP_of_forall_not hany
    refine ⟨l, ?_, ?_⟩
    · rw [call, findAndDel_none hlinked hhead hnone hle, Op.result, List.any_eq_false.2 hany]
      rfl
    · rw [hnext]
      exact h
  · have hnext : (Op.findAndDel t1).next ((c :: ds).map Prod.snd) = ds.map Prod.snd :=
      @eraseP_behind α (· == t1) [] ds c nofun hc
    refine serves_findAndDel (findAndDel_head hlinked hhead hc hle)
      (@any_behind α (· == t1) [] ds c hc) ?_
    rw [hnext]
    refine h.erased rfl rfl (fun hne => ?_) (hlinked.2.update (List.nodup_cons.1 hlinked.nodup).1 _) rfl
      (List.length_cons ..) le_rfl
    obtain ⟨d, ds, rfl⟩ := List.exists_cons_of_ne_nil hne
    exact htail (List.cons_ne_nil _ _)
  · have hsplit : qs ++ (b, y) :: c :: ds = qs ++ [(b, y)] ++ c :: ds := by simp
    have hnext : (Op.findAndDel t1).next ((qs ++ (b, y) :: c :: ds).map Prod.snd) =
        (qs ++ (b, y) :: ds).map Prod.snd := by
      rw [hsplit]
      refine (eraseP_behind hqs hc).trans ?_
      rw [List.append_assoc]
      rfl
    have hfound : ((qs ++ (b, y) :: c :: ds).map Prod.snd).any (· == t1) = true := by
      rw [hsplit]
      exact any_behind hc
    -- the node found is not the last one
    have hds : ds ≠ [] := by
      rintro rfl
      have hin := hfits (by simp) hfound
      obtain ⟨x, hx, hxt⟩ := List.any_eq_true.1 hin
      rw [hsplit, List.map_append, List.map_singleton, List.dropLast_concat] at hx
      obtain ⟨d, hd, rfl⟩ := List.mem_map.1 hx
      exact ne_true_of_eq_false (hqs d hd) hxt
    refine serves_findAndDel (findAndDel_behind hlinked hhead hqs hc hle) hfound ?_
    rw [hnext]
    refine h.erased rfl ?_ (fun _ => ?_) hlinked.unlink rfl ?_ le_rfl
    · rw [Cells.head_append] at hhead ⊢
      exact hhead
    · obtain ⟨d, ds, rfl⟩ := List.exists_cons_of_ne_nil hds
      refine (htail (by simp)).trans ?_
      simp only [List.getLast?_append, List.getLast?_cons_cons]
    · simp [Nat.add_assoc]

theorem Tracks.serves (h : Tracks s) (hp : op.possible s.list = true) (hfits : Fits s op) :
    Serves s op := by
  cases op with
  | pushBack temp t1 => exact h.pushBack (Option.isNone_iff_eq_none.1 hp) (hfits hp)
  | dequeueHead => exact h.dequeueHead
  | find t1 => exact h.find
  | findAndDel t1 => exact h.findAndDel hfits
  | clear => exact serves_clear
  | size => exact h.size

theorem Tracks.step (h : Tracks s) {s' : Run α} (hfits : Fits s op)
    (hs : machine.step s op = some s') : Tracks s' := by
  rw [machine] at hs
  dsimp only at hs
  split at hs
  case isFalse => cases hs
  case isTrue hp =>
    obtain ⟨l, hl, ht⟩ := h.serves hp hfits
    rw [hl] at hs
    cases hs
    exact ht

/-- Where a push finds `2 ^ 31 - 1` items, what it returns is negative. -/
theorem fits_of_pushBack (h : Tracks s) (hright : Right s (.pushBack temp t1)) :
    Fits s (.pushBack temp t1) := by
  intro hp
  obtain ⟨l, hl, -⟩ := hright hp
  obtain ⟨l', hl', hholds⟩ := h.holds.push (x := t1) (h.lt.trans (by decide))
    (Option.isNone_iff_eq_none.1 hp)
  rw [pushBack_tidy h.holds] at hl'
  rw [call, hl', Option.map_some] at hl
  have hsize : toInt32 l'.curSize = s.spec.length + 1 := congrArg (fun r => r.2.1) (Option.some.inj hl)
  have hlt := h.lt
  rw [hholds.curSize_eq (by simp; omega), List.length_append, List.length_singleton, toInt32] at hsize
  split at hsize <;> omega

/-- Where `find_and_del` takes the last of several nodes, `tail` stays on it. -/
theorem fits_of_findAndDel (h : Tracks s) (hright : Right s (.findAndDel t1)) :
    Fits s (.findAndDel t1) := by
  intro htwo hfound
  obtain ⟨cs, hcs, hle, hhead, htail, hlinked⟩ := h.nodes
  obtain ⟨l, mallocs, spec⟩ := s
  obtain rfl : cs.map Prod.snd = spec := hcs
  rcases first_cases (·.2 == t1) cs with hnone | ⟨c, ds, rfl, hc⟩ | ⟨qs, ⟨b, y⟩, c, ds, rfl, hqs, hc⟩
  · obtain ⟨x, hx, hxt⟩ := List.any_eq_true.1 hfound
    obtain ⟨d, hd, rfl⟩ := List.mem_map.1 hx
    exact absurd hxt (ne_true_of_eq_false (hnone d hd))
  · rcases List.eq_nil_or_concat' ds with rfl | ⟨ds, d, rfl⟩
    · simp at htwo
    · rw [← List.cons_append, List.map_append, List.map_singleton, List.dropLast_concat]
      exact @any_behind α (· == t1) [] ds c hc
  · rcases List.eq_nil_or_concat' ds with rfl | ⟨ds, d, rfl⟩
    · -- `tail` is on the node taken out, and the list ends in another one
      obtain ⟨l', hl', ds, hwalk, hds, htail', -⟩ := hright rfl
      rw [call, findAndDel_behind hlinked hhead hqs hc hle] at hl'
      obtain ⟨rfl, -⟩ := Prod.mk.inj (Option.some.inj hl')
      have hhead' : l.head = Cells.head (qs ++ [(b, y)]) none := by
        rw [Cells.head_append] at hhead ⊢
        exact hhead
      have hle' : (qs ++ [(b, y)]).length ≤ mallocs := by
        simp only [List.length_append, List.length_cons, List.length_nil] at hle ⊢
        omega
      have hwalk' := hlinked.unlink.walk hle'
      rw [← hhead'] at hwalk'
      obtain rfl := Option.some.inj (hwalk.symm.trans hwalk')
      have hb : l.tail = some b := (htail' (by simp)).trans (by simp)
      have hc' : l.tail = some c.1 := (htail (by simp)).trans (by simp)
      obtain rfl := Option.some.inj (hb.symm.trans hc')
      have hnodup := (List.nodup_append.1 (List.map_append ▸ hlinked.nodup)).2.1
      exact absurd List.mem_cons_self (List.nodup_cons.1 hnodup).1
    · have hsplit : qs ++ (b, y) :: c :: (ds ++ [d]) = (qs ++ [(b, y)] ++ c :: ds) ++ [d] := by simp
      rw [hsplit, List.map_append, List.map_singleton, List.dropLast_concat]
      exact any_behind hc

theorem right_iff_fits (h : Tracks s) : Right s op ↔ Fits s op := by
  constructor
  · intro hright
    cases op with
    | pushBack temp t1 => exact fits_of_pushBack h hright
    | findAndDel t1 => exact fits_of_findAndDel h hright
    | dequeueHead | find t1 | clear | size => trivial
  · intro hfits hp
    exact (h.serves hp hfits).right hp

/-- In every run the calls give what they give on a list, and leave all fields right, just as long
as no push makes the list longer than an `int` can tell and `find_and_del` does not take the last of
several items. -/
theorem agrees_iff_last_kept (ops : List (Op α)) :
    machine.Along Right (⟨new, 0, []⟩ : Run α) ops ↔ machine.Along Fits (⟨new, 0, []⟩ : Run α) ops :=
  Machine.along_congr_of (I := Tracks) (fun _ _ _ h hfits hs => h.step hfits hs)
    (fun _ _ h => right_iff_fits h) tracks_new

/-- The last of two items goes, and the next one is hung on its node: it is in the list and is not
found. -/
theorem exists_item_lost : ¬ ∀ ops : List (Op Nat), machine.Along Right ⟨new, 0, []⟩ ops := by
  intro hall
  have hrun : ((machine.run ⟨new, 0, []⟩
      [.pushBack 0 10, .pushBack 1 20, .findAndDel 20, .pushBack 1 30]).bind
        fun s => (s.list.find 30 s.mallocs).map fun r => (r, s.spec)) = some (-1, [10, 30]) := by
    decide +kernel
  obtain ⟨s, hs, hfind⟩ := Option.bind_eq_some_iff.1 hrun
  obtain ⟨r, hr, heq⟩ := Option.map_eq_some_iff.1 hfind
  obtain ⟨rfl, hspec⟩ := Prod.mk.inj heq
  obtain ⟨l, hl, -⟩ := Machine.Along.at_end (hall (_ ++ [.find 30])) hs rfl
  rw [call, hr, hspec] at hl
  have hresult : (-1 : Int) = 0 := congrArg (fun r => r.2.1) (Option.some.inj hl)
  cases hresult

end calls

end SList

end Resend.Udp

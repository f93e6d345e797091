import Mathlib.Tactic
import Mathlib.Data.List.Nodup

/-!
# Linked lists in memory

Cells with a `next` pointer, and what it means that a memory holds a list from one pointer on.
-/

/-- A node with its `next` pointer. -/
structure Cell (α : Type) where
  data : α
  next : Option Nat
deriving DecidableEq, Repr

abbrev Cells (α : Type) := Nat → Option (Cell α)

namespace Cells
variable {α : Type} {m m' : Cells α} {cs ds : List (Nat × α)} {e e' : Option Nat} {a b : Nat} {x y : α}

/-- Where a list starts that is followed by `e`. -/
def head : List (Nat × α) → Option Nat → Option Nat
  | [], e => e
  | c :: _, _ => some c.1

/-- The cells of `cs`, each at its address, point to one another; the last one points to `e`. -/
def Linked (m : Cells α) : List (Nat × α) → Option Nat → Prop
  | [], _ => True
  | c :: cs, e => m c.1 = some ⟨c.2, head cs e⟩ ∧ Linked m cs e

theorem head_append : head (cs ++ ds) e = head cs (head ds e) := by
  cases cs <;> rfl

theorem linked_append : Linked m (cs ++ ds) e ↔ Linked m cs (head ds e) ∧ Linked m ds e := by
  induction cs with
  | nil => exact (true_and _).to_iff.symm
  | cons c cs ih => rw [List.cons_append, Linked, Linked, ih, head_append, and_assoc]

theorem linked_concat : Linked m (cs ++ [(a, x)]) e ↔ Linked m cs (some a) ∧ m a = some ⟨x, e⟩ := by
  rw [linked_append]
  exact and_congr_right' (and_iff_left trivial)

theorem Linked.congr (h : Linked m cs e) (hm : ∀ c ∈ cs, m' c.1 = m c.1) : Linked m' cs e := by
  induction cs with
  | nil => trivial
  | cons c cs ih =>
    obtain ⟨hc, hcs⟩ := List.forall_mem_cons.1 hm
    exact ⟨hc.trans h.1, ih h.2 hcs⟩

theorem Linked.not_mem (h : Linked m cs e) (ha : m a = none) : a ∉ cs.map Prod.fst := by
  induction cs with
  | nil => exact List.not_mem_nil
  | cons c cs ih =>
    rw [List.map_cons, List.mem_cons, not_or]
    refine ⟨?_, ih h.2⟩
    rintro rfl
    have hc := h.1
    rw [ha] at hc
    cases hc

theorem Linked.update (h : Linked m cs e) (ha : a ∉ cs.map Prod.fst) (v : Option (Cell α)) :
    Linked (Function.update m a v) cs e := by
  refine h.congr fun c hc => Function.update_of_ne ?_ _ _
  rintro rfl
  exact ha (List.mem_map_of_mem hc)

theorem Linked.setLast (h : Linked m (cs ++ [(a, x)]) e) (ha : a ∉ cs.map Prod.fst) :
    Linked (Function.update m a (some ⟨x, e'⟩)) (cs ++ [(a, x)]) e' := by
  rw [linked_concat] at h ⊢
  exact ⟨h.1.update ha _, Function.update_self ..⟩

theorem Linked.push (h : Linked m (cs ++ [(a, x)]) e) (ha : a ∉ cs.map Prod.fst)
    (hb : b ∉ (cs ++ [(a, x)]).map Prod.fst) :
    Linked (Function.update (Function.update m b (some ⟨y, e'⟩)) a (some ⟨x, some b⟩))
      (cs ++ [(a, x)] ++ [(b, y)]) e' := by
  have hab : b ≠ a := by
    rintro rfl
    exact hb (by simp)
  rw [linked_concat, Function.update_of_ne hab, Function.update_self]
  exact ⟨(h.update hb _).setLast ha, rfl⟩

/-- The list from pointer `p` on. -/
def Holds (m : Cells α) (p : Option Nat) (xs : List α) : Prop :=
  ∃ cs, cs.map Prod.snd = xs ∧ p = head cs none ∧ Linked m cs none

theorem holds_nil_iff {p : Option Nat} : Holds m p [] ↔ p = none := by
  constructor
  · rintro ⟨cs, hcs, rfl, -⟩
    rw [List.map_eq_nil_iff.1 hcs]
    rfl
  · rintro rfl
    exact ⟨[], rfl, rfl, trivial⟩

theorem holds_cons_iff {p : Option Nat} {xs : List α} :
    Holds m p (x :: xs) ↔ ∃ a next, p = some a ∧ m a = some ⟨x, next⟩ ∧ Holds m next xs := by
  constructor
  · rintro ⟨cs, hcs, rfl, hm⟩
    obtain ⟨c, cs, rfl, rfl, rfl⟩ := List.map_eq_cons_iff.1 hcs
    exact ⟨c.1, head cs none, rfl, hm.1, cs, rfl, rfl, hm.2⟩
  · rintro ⟨a, next, rfl, hm, cs, rfl, rfl, hcs⟩
    exact ⟨(a, x) :: cs, rfl, rfl, hm, hcs⟩

theorem Holds.unique {p : Option Nat} {xs ys : List α} (h : Holds m p xs) (h' : Holds m p ys) :
    xs = ys := by
  induction xs generalizing p ys with
  | nil =>
    rw [holds_nil_iff] at h
    cases ys with
    | nil => rfl
    | cons y ys =>
      obtain ⟨a, _, hp, -⟩ := holds_cons_iff.1 h'
      rw [h] at hp
      cases hp
  | cons x xs ih =>
    obtain ⟨a, next, rfl, hm, hnext⟩ := holds_cons_iff.1 h
    cases ys with
    | nil => cases holds_nil_iff.1 h'
    | cons y ys =>
      obtain ⟨a', next', hp, hm', hnext'⟩ := holds_cons_iff.1 h'
      cases hp
      rw [hm] at hm'
      cases hm'
      rw [ih hnext hnext']

theorem Linked.nodup (h : Linked m cs none) : (cs.map Prod.fst).Nodup := by
  induction cs with
  | nil => exact List.nodup_nil
  | cons c cs ih =>
    refine List.nodup_cons.2 ⟨fun hin => ?_, ih h.2⟩
    obtain ⟨d, hd, hdc⟩ := List.mem_map.1 hin
    obtain ⟨l₁, l₂, rfl⟩ := List.append_of_mem hd
    -- both copies have the same successor, so what follows them has the same length
    have hcell := (linked_append.1 h.2).2.1
    rw [hdc, h.1] at hcell
    have hhead : head (l₁ ++ d :: l₂) none = head l₂ none := congrArg Cell.next (Option.some.inj hcell)
    have heq : (l₁ ++ d :: l₂).map Prod.snd = l₂.map Prod.snd :=
      Holds.unique ⟨_, rfl, rfl, h.2⟩ ⟨l₂, rfl, hhead, (linked_append.1 h.2).2.2⟩
    have hlen := congrArg List.length heq
    simp only [List.length_map, List.length_append, List.length_cons] at hlen
    omega

/-- The cells met from `p` on until a pointer is `none`, if these are at most `fuel`. -/
def walk (m : Cells α) : Nat → Option Nat → Option (List (Nat × α))
  | _, none => some []
  | 0, some _ => none
  | fuel + 1, some a => (m a).bind fun c => (walk m fuel c.next).map ((a, c.data) :: ·)

theorem Linked.walk (h : Linked m cs none) {fuel : Nat} (hle : cs.length ≤ fuel) :
    walk m fuel (head cs none) = some cs := by
  induction cs generalizing fuel with
  | nil => cases fuel <;> rfl
  | cons c cs ih =>
    obtain ⟨fuel, rfl⟩ := Nat.exists_eq_add_of_lt hle
    rw [head, Cells.walk, h.1, Option.bind_some, ih h.2 (Nat.le_add_right ..)]
    rfl

theorem Linked.unlink (h : Linked m (cs ++ (b, y) :: (a, x) :: ds) none) :
    Linked (Function.update (Function.update m b (some ⟨y, head ds none⟩)) a none)
      (cs ++ (b, y) :: ds) none := by
  have hnodup := h.nodup
  rw [List.map_append, List.map_cons, List.map_cons, List.nodup_append, List.nodup_cons,
    List.nodup_cons] at hnodup
  obtain ⟨-, ⟨hb, ha, -⟩, hdisj⟩ := hnodup
  have hab : a ≠ b := fun he => hb (he ▸ List.mem_cons_self)
  have hcs : ∀ d, d ∈ (b, y) :: (a, x) :: ds → d.1 ∉ cs.map Prod.fst := fun d hd hin =>
    hdisj _ hin _ (List.mem_map_of_mem hd) rfl
  obtain ⟨hcs', -, -, hds⟩ := linked_append.1 h
  refine linked_append.2 ⟨(hcs'.update (hcs (b, y) (by simp)) _).update (hcs (a, x) (by simp)) _,
    ?_, ?_⟩
  · exact (Function.update_of_ne hab.symm ..).trans (Function.update_self ..)
  · exact (hds.update (fun hin => hb (List.mem_cons_of_mem _ hin)) _).update ha _

end Cells

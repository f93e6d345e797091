import Resend.Lib.Machine
import Resend.Lib.Turns

/-!
# The servers of the resolver (upstream.h)

The macros that keep the servers of a resolver: a server is given up after too many errors and taken
back later, and the requests are spread over the servers that are not dead by their weights. `alive`
counts the servers that are not dead, but `UPSTREAM_FAIL` takes one off it also for a server that is
dead already; `surplus` counts how often that happened since the last `UPSTREAM_REVIVE_ALL`, and
with it the counter is exact (`Counted`). That decides when `UPSTREAM_SELECT_ROUND_ROBIN` finds no
server and writes through `NULL`.
-/

namespace Resend.Dns

/-- `upstream_entry_t`: the counts are unsigned short. -/
structure UpstreamEntry where
  errors : Nat
  dead : Bool
  priority : Nat
  weight : Nat
  time : Int
  deriving DecidableEq, Repr

namespace Upstream

def ERROR_TIME : Int := 10
def REVIVE_TIME : Int := 30
def MAX_ERRORS : Nat := 10

end Upstream

/-- The list from `head` on, its entries and the `upstream_common_data` they share. -/
structure Upstream (ι : Type) where
  order : List ι
  up : ι → UpstreamEntry
  nelts : Nat
  alive : Nat

namespace Upstream
variable {ι : Type} [DecidableEq ι]

/-- `alive ++` and `alive --` on an unsigned int. -/
def incr (n : Nat) : Nat := (n + 1) % 2 ^ 32
@[irreducible] def decr (n : Nat) : Nat := (n + 4294967295) % 2 ^ 32

/-- `head == NULL` -/
def empty : Upstream ι := { order := [], up := fun _ => ⟨0, false, 0, 0, 0⟩, nelts := 0, alive := 0 }

def setEntry (s : Upstream ι) (u : ι) (e : UpstreamEntry) : Upstream ι :=
  { s with up := Function.update s.up u e }

/-- `UPSTREAM_FAIL` takes the server down: the errors are old and there are enough of them. -/
def Kills (s : Upstream ι) (u : ι) (now : Int) : Prop :=
  (s.up u).time ≠ 0 ∧ ERROR_TIME ≤ now - (s.up u).time ∧ MAX_ERRORS ≤ (s.up u).errors

instance (s : Upstream ι) (u : ι) (now : Int) : Decidable (s.Kills u now) := by
  unfold Kills; infer_instance

/-- `UPSTREAM_FAIL` -/
def fail (s : Upstream ι) (u : ι) (now : Int) : Upstream ι :=
  let e := s.up u
  if e.time ≠ 0 then
    if ERROR_TIME ≤ now - e.time then
      if MAX_ERRORS ≤ e.errors then
        { s.setEntry u { e with dead := true, time := now } with alive := decr s.alive }
      else s.setEntry u { e with errors := 1, time := now }
    else s.setEntry u { e with errors := (e.errors + 1) % 2 ^ 16 }
  else s.setEntry u { e with errors := (e.errors + 1) % 2 ^ 16, time := now }

/-- `UPSTREAM_OK` -/
def ok (s : Upstream ι) (u : ι) : Upstream ι := s.setEntry u { s.up u with errors := 0, time := 0 }

/-- The unsigned short that a `priority` argument becomes. -/
def priorityOf (priority : Int) : Nat := if 0 < priority then (priority % 2 ^ 16).toNat else 65535

/-- `UPSTREAM_ADD` -/
def add (s : Upstream ι) (u : ι) (priority : Int) : Upstream ι :=
  { order := u :: s.order
    up := Function.update s.up u ⟨0, false, priorityOf priority, priorityOf priority, 0⟩
    nelts := if s.order = [] then 1 else incr s.nelts
    alive := if s.order = [] then 1 else incr s.alive }

/-- `UPSTREAM_REVIVE_ALL` -/
def reviveAll (s : Upstream ι) : Upstream ι :=
  { s with
    up := fun u => if u ∈ s.order then { s.up u with dead := false, errors := 0, time := 0 } else s.up u
    alive := s.nelts }

/-- One round of the loop of `UPSTREAM_RESCAN`. -/
def rescanOne (now : Int) (s : Upstream ι) (elt : ι) : Upstream ι :=
  let e := s.up elt
  if e.dead then
    if REVIVE_TIME ≤ now - e.time then
      { s.setEntry elt { e with dead := false, errors := 0, weight := e.priority } with
        alive := incr s.alive }
    else s
  else if ERROR_TIME ≤ now - e.time ∧ MAX_ERRORS ≤ e.errors then
    { s.setEntry elt { e with dead := true, time := now } with alive := decr s.alive }
  else s

/-- `UPSTREAM_RESCAN`; nothing is read of an empty list. -/
def rescan (s : Upstream ι) (now : Int) : Option (Upstream ι) :=
  if s.order = [] then none
  else if s.alive = 0 then some s.reviveAll
  else some (s.order.foldl (rescanOne now) s)

/-- The loops of `UPSTREAM_SELECT_ROUND_ROBIN`: `max_weight` and `selected` over the rest of the
list. -/
def selectLoop (up : ι → UpstreamEntry) (value : UpstreamEntry → Nat) :
    List ι → Nat → Option ι → Nat × Option ι
  | [], max_weight, selected => (max_weight, selected)
  | elt :: next, max_weight, selected =>
    if (up elt).dead = false ∧ max_weight < value (up elt) then selectLoop up value next
      (value (up elt)) (some elt)
    else selectLoop up value next max_weight selected

/-- `elt->up.weight = elt->up.priority` for the whole list. -/
def refill (s : Upstream ι) : Upstream ι :=
  { s with up := fun u => if u ∈ s.order then { s.up u with weight := (s.up u).priority } else s.up u }

def revived (s : Upstream ι) : Upstream ι := if s.alive = 0 then s.reviveAll else s

/-- `UPSTREAM_SELECT_ROUND_ROBIN`: `none` where it reads or writes through `NULL`. -/
def select (s : Upstream ι) : Option (ι × Upstream ι) :=
  if s.order = [] then none
  else
    let s := s.revived
    let first := selectLoop s.up (·.weight) s.order 0 none
    let t := if first.1 = 0 then s.refill else s
    let selected := if first.1 = 0 then (selectLoop s.up (·.priority) s.order 0 first.2).2 else first.2
    selected.map fun u => (u, t.setEntry u { t.up u with weight := (t.up u).weight - 1 })

/-- The servers that are not dead. -/
def live (s : Upstream ι) : Finset ι := s.order.toFinset.filter fun u => (s.up u).dead = false

variable {s s' : Upstream ι} {u v : ι} {e : UpstreamEntry} {now : Int}

theorem mem_live : u ∈ s.live ↔ u ∈ s.order ∧ (s.up u).dead = false := by
  simp [live]

@[simp] theorem setEntry_order : (s.setEntry u e).order = s.order := rfl
@[simp] theorem setEntry_self : (s.setEntry u e).up u = e := Function.update_self ..
theorem setEntry_of_ne (h : v ≠ u) : (s.setEntry u e).up v = s.up v := Function.update_of_ne h ..

theorem live_congr (ho : s'.order = s.order) (hd : ∀ v ∈ s.order, (s'.up v).dead = (s.up v).dead) :
    s'.live = s.live := by
  ext v
  rw [mem_live, mem_live, ho]
  constructor <;> rintro ⟨hv, h⟩
  · exact ⟨hv, by rw [← hd v hv]; exact h⟩
  · exact ⟨hv, by rw [hd v hv]; exact h⟩

theorem live_alive (s : Upstream ι) (n : Nat) : live { s with alive := n } = s.live := rfl

theorem live_setEntry_dead (he : e.dead = true) : (s.setEntry u e).live = s.live.erase u := by
  ext v
  rw [Finset.mem_erase, mem_live, mem_live, setEntry_order]
  rcases eq_or_ne v u with rfl | hne
  · simp [he]
  · rw [setEntry_of_ne hne]; simp [hne]

theorem live_setEntry_live (hu : u ∈ s.order) (he : e.dead = false) :
    (s.setEntry u e).live = insert u s.live := by
  ext v
  rw [Finset.mem_insert, mem_live, mem_live, setEntry_order]
  rcases eq_or_ne v u with rfl | hne
  · simp [he, hu]
  · rw [setEntry_of_ne hne]; simp [hne]

theorem live_setEntry_same (he : e.dead = (s.up u).dead) : (s.setEntry u e).live = s.live := by
  refine live_congr rfl fun v _ => ?_
  rcases eq_or_ne v u with rfl | hne
  · rw [setEntry_self, he]
  · rw [setEntry_of_ne hne]

theorem reviveAll_up (hu : u ∈ s.order) :
    s.reviveAll.up u = { s.up u with dead := false, errors := 0, time := 0 } := if_pos hu

theorem live_reviveAll : s.reviveAll.live = s.order.toFinset := by
  ext v
  rw [mem_live, List.mem_toFinset]
  refine ⟨fun h => h.1, fun h => ⟨h, ?_⟩⟩
  rw [reviveAll_up h]

theorem refill_up (hu : u ∈ s.order) :
    s.refill.up u = { s.up u with weight := (s.up u).priority } := if_pos hu

theorem revived_order (s : Upstream ι) : s.revived.order = s.order := by
  unfold revived
  split_ifs <;> rfl

theorem revived_up (v : ι) :
    (s.revived.up v).priority = (s.up v).priority ∧ (s.revived.up v).weight = (s.up v).weight := by
  unfold revived reviveAll
  split_ifs
  · dsimp only
    split_ifs <;> exact ⟨rfl, rfl⟩
  · exact ⟨rfl, rfl⟩

omit [DecidableEq ι] in
theorem selectLoop_spec (up : ι → UpstreamEntry) (value : UpstreamEntry → Nat) (order : List ι)
    (m : Nat) (sel : Option ι) :
    (selectLoop up value order m sel = (m, sel) ∧ ∀ j ∈ order, (up j).dead = false → value (up j) ≤ m) ∨
      ∃ i ∈ order, selectLoop up value order m sel = (value (up i), some i) ∧
      (up i).dead = false ∧ m < value (up i) ∧
        ∀ j ∈ order, (up j).dead = false → value (up j) ≤ value (up i) := by
  induction order generalizing m sel with
  | nil => exact .inl ⟨rfl, by simp⟩
  | cons elt next ih =>
    unfold selectLoop
    split
    · rename_i h
      rcases ih (value (up elt)) (some elt) with ⟨he, hle⟩ | ⟨i, hi, he, hd, hlt, hle⟩
      · refine .inr ⟨elt, List.mem_cons_self, he, h.1, h.2, fun j hj hjd => ?_⟩
        rcases List.mem_cons.1 hj with rfl | hj
        · exact le_rfl
        · exact hle j hj hjd
      · refine .inr ⟨i, List.mem_cons_of_mem _ hi, he, hd, h.2.trans hlt, fun j hj hjd => ?_⟩
        rcases List.mem_cons.1 hj with rfl | hj
        · exact hlt.le
        · exact hle j hj hjd
    · rename_i h
      have helt : (up elt).dead = false → value (up elt) ≤ m :=
        fun hd => not_lt.1 fun hlt => h ⟨hd, hlt⟩
      rcases ih m sel with ⟨he, hle⟩ | ⟨i, hi, he, hd, hlt, hle⟩
      · refine .inl ⟨he, fun j hj hjd => ?_⟩
        rcases List.mem_cons.1 hj with rfl | hj
        · exact helt hjd
        · exact hle j hj hjd
      · refine .inr ⟨i, List.mem_cons_of_mem _ hi, he, hd, hlt, fun j hj hjd => ?_⟩
        rcases List.mem_cons.1 hj with rfl | hj
        · exact (helt hjd).trans hlt.le
        · exact hle j hj hjd

/-- `UPSTREAM_SELECT_ROUND_ROBIN` by its outcome: a turn of the live servers, or nothing to select. -/
theorem select_spec (s : Upstream ι) (hne : s.order ≠ []) :
    (s.select = none ∧ ∀ u ∈ s.revived.live, (s.revived.up u).weight = 0 ∧
      (s.revived.up u).priority = 0) ∨
      ∃ u t, s.select = some (u, t.setEntry u { t.up u with weight := (t.up u).weight - 1 }) ∧
        (t = s.revived ∨ t = s.revived.refill) ∧ u ∈ s.revived.live ∧ 0 < (t.up u).weight ∧
        (∀ v ∈ s.revived.live, (t.up v).weight =
          Turns.topUp s.revived.live (fun v => (s.revived.up v).priority) (fun v =>
            (s.revived.up v).weight) v) ∧
        ∀ v ∈ s.revived.live, (t.up v).weight ≤ (t.up u).weight := by
  have ho := revived_order s
  unfold select
  rw [if_neg hne]
  generalize s.revived = r at ho ⊢
  dsimp only
  rcases selectLoop_spec r.up (·.weight) r.order 0 none with ⟨he, hle⟩ | ⟨i, hi, he, hd, hlt, hle⟩
  · -- nobody has any weight left
    have hzero : ∀ j ∈ r.live, (r.up j).weight = 0 := fun j hj =>
      Nat.le_zero.1 (hle j (mem_live.1 hj).1 (mem_live.1 hj).2)
    rw [he, if_pos rfl, if_pos rfl]
    rcases selectLoop_spec r.up (·.priority) r.order 0 none with ⟨he', hle'⟩ |
        ⟨i, hi, he', hd, hlt, hle'⟩
    · refine .inl ⟨?_, fun j hj => ⟨hzero j hj, ?_⟩⟩
      · rw [he']; rfl
      · exact Nat.le_zero.1 (hle' j (mem_live.1 hj).1 (mem_live.1 hj).2)
    · refine .inr ⟨i, r.refill, ?_, .inr rfl, mem_live.2 ⟨hi, hd⟩, ?_, fun v hv => ?_, fun v hv => ?_⟩
      · rw [he']; rfl
      · rw [refill_up hi]; exact hlt
      · rw [refill_up (mem_live.1 hv).1, Turns.topUp, if_pos hzero]
      · rw [refill_up (mem_live.1 hv).1, refill_up hi]
        exact hle' v (mem_live.1 hv).1 (mem_live.1 hv).2
  · have hpos : (r.up i).weight ≠ 0 := by omega
    rw [he]
    dsimp only
    rw [if_neg hpos, if_neg hpos]
    refine .inr ⟨i, r, rfl, .inl rfl, mem_live.2 ⟨hi, hd⟩, hlt, fun v _ => ?_, fun v hv => ?_⟩
    · rw [Turns.topUp, if_neg fun hall => hpos (hall i (mem_live.2 ⟨hi, hd⟩))]
    · exact hle v (mem_live.1 hv).1 (mem_live.1 hv).2

/-- What a selection leaves: the server that had most turns left among the live ones has one less. -/
structure Selected (s : Upstream ι) (u : ι) (s' : Upstream ι) : Prop where
  nonempty : s.order ≠ []
  order : s'.order = s.order
  nelts : s'.nelts = s.revived.nelts
  alive : s'.alive = s.revived.alive
  dead : ∀ v, (s'.up v).dead = (s.revived.up v).dead
  priority : ∀ v, (s'.up v).priority = (s.revived.up v).priority
  weight : ∀ v, (s'.up v).weight ≤ max (s.revived.up v).weight (s.revived.up v).priority
  draw : Turns.Draw s.revived.live (fun v => (s.revived.up v).priority)
    (fun v => (s.revived.up v).weight) u fun v => (s'.up v).weight

theorem Selected.served (h : Selected s u s') (hw : (s.up u).weight ≤ (s.up u).priority) :
    0 < (s.up u).priority := by
  have hpos := h.draw.pos
  unfold Turns.topUp at hpos
  split_ifs at hpos
  · rw [← (revived_up u).1]
    exact hpos
  · rw [← (revived_up u).2] at hw
    exact lt_of_lt_of_le hpos hw

theorem select_some (h : s.select = some (u, s')) : Selected s u s' := by
  have hne : s.order ≠ [] := fun hnil => by
    unfold select at h
    rw [if_pos hnil] at h
    cases h
  rcases select_spec s hne with ⟨hn, -⟩ | ⟨i, t, hs, ht, hlive, hpos, htop, hmost⟩
  · rw [hn] at h; cases h
  rw [hs] at h
  cases h
  have hkeep : ∀ v, (t.up v).dead = (s.revived.up v).dead ∧
      (t.up v).priority = (s.revived.up v).priority ∧
      (t.up v).weight ≤ max (s.revived.up v).weight (s.revived.up v).priority := fun v => by
    rcases ht with rfl | rfl
    · exact ⟨rfl, rfl, le_max_left ..⟩
    · unfold refill
      dsimp only
      split_ifs
      · exact ⟨rfl, rfl, le_max_right ..⟩
      · exact ⟨rfl, rfl, le_max_left ..⟩
  refine ⟨hne, ?_, ?_, ?_, fun v => ?_, fun v => ?_, fun v => ?_,
    ⟨hlive, ?_, fun j hj => ?_, ?_, fun j hj hji => ?_⟩⟩
  · rcases ht with rfl | rfl <;> exact revived_order s
  · rcases ht with rfl | rfl <;> rfl
  · rcases ht with rfl | rfl <;> rfl
  · rw [← (hkeep v).1]
    rcases eq_or_ne v u with rfl | hne
    · rw [setEntry_self]
    · rw [setEntry_of_ne hne]
  · rw [← (hkeep v).2.1]
    rcases eq_or_ne v u with rfl | hne
    · rw [setEntry_self]
    · rw [setEntry_of_ne hne]
  · refine le_trans ?_ (hkeep v).2.2
    rcases eq_or_ne v u with rfl | hne
    · rw [setEntry_self]; exact Nat.sub_le _ _
    · rw [setEntry_of_ne hne]
  · rw [← htop u hlive]; exact hpos
  · rw [← htop u hlive, ← htop j hj]; exact hmost j hj
  · rw [setEntry_self, ← htop u hlive]
  · rw [setEntry_of_ne hji, ← htop j hj]

end Upstream
end Resend.Dns

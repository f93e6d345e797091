import Resend.Dns.Upstream

/-!
# Runs of the server list

`Counted` ties `alive` to the servers that are not dead over every run, with the surplus of failures
that were reported of a dead server. While no server dies or comes back the selections are turns
taken by weight, so that the results about `Turns` say how the requests are spread.
-/

namespace Resend.Dns
namespace Upstream
variable {ι : Type} [DecidableEq ι]

inductive Act (ι : Type)
  | add (u : ι) (priority : Int)
  | fail (u : ι) (now : Int)
  | ok (u : ι)
  | rescan (now : Int)
  | select

/-- One macro of the resolver's code; a server is added once, and failures and replies are those of
servers in the list. -/
def step (s : Upstream ι) : Act ι → Option (Upstream ι)
  | .add u priority => if u ∈ s.order then none else some (s.add u priority)
  | .fail u now => if u ∈ s.order then some (s.fail u now) else none
  | .ok u => if u ∈ s.order then some (s.ok u) else none
  | .rescan now => s.rescan now
  | .select => s.select.map (·.2)

/-- How often a failure has taken a dead server off `alive` since all servers were revived last. -/
def surplusAfter (s : Upstream ι) (surplus : Nat) : Act ι → Nat
  | .fail u now => if (s.up u).dead ∧ s.Kills u now then surplus + 1 else surplus
  | .rescan _ | .select => if s.alive = 0 then 0 else surplus
  | _ => surplus

def machine (ι : Type) [DecidableEq ι] : Machine (Upstream ι × Nat) (Act ι) where
  init s := s = (empty, 0)
  step s a := (s.1.step a).map fun s' => (s', s.1.surplusAfter s.2 a)

/-- `alive` counts the live servers but for the surplus, and no server has more weight than its
priority. -/
structure Counted (s : Upstream ι) (surplus : Nat) : Prop where
  nodup : s.order.Nodup
  nelts : s.nelts = s.order.length % 2 ^ 32
  alive_lt : s.alive < 2 ^ 32
  count : (s.alive + surplus) % 2 ^ 32 = s.live.card % 2 ^ 32
  weight : ∀ u ∈ s.order, (s.up u).weight ≤ (s.up u).priority

variable {s s' : Upstream ι} {surplus : Nat} {u : ι} {e : UpstreamEntry} {now : Int}

theorem incr_lt (n : Nat) : incr n < 2 ^ 32 := Nat.mod_lt _ (by norm_num)
theorem decr_lt (n : Nat) : decr n < 2 ^ 32 := by
  unfold decr
  exact Nat.mod_lt _ (by norm_num)

theorem decr_add {n k c : Nat} (h : (n + k) % 2 ^ 32 = (c + 1) % 2 ^ 32) :
    (decr n + k) % 2 ^ 32 = c % 2 ^ 32 := by
  unfold decr
  omega

theorem incr_add {n k c : Nat} (h : (n + k) % 2 ^ 32 = c % 2 ^ 32) :
    (incr n + k) % 2 ^ 32 = (c + 1) % 2 ^ 32 := by
  unfold incr
  omega

namespace Counted

theorem setEntry_weight (h : Counted s surplus) (hw : e.weight ≤ e.priority) :
    ∀ v ∈ s.order, ((s.setEntry u e).up v).weight ≤ ((s.setEntry u e).up v).priority := by
  intro v hv
  rcases eq_or_ne v u with rfl | hne
  · rw [setEntry_self]; exact hw
  · rw [setEntry_of_ne hne]; exact h.weight v hv

theorem setEntry_same (h : Counted s surplus) (hd : e.dead = (s.up u).dead)
    (hw : e.weight ≤ e.priority) :
    Counted (s.setEntry u e) surplus where
  nodup := h.nodup
  nelts := h.nelts
  alive_lt := h.alive_lt
  count := by rw [live_setEntry_same hd]; exact h.count
  weight := h.setEntry_weight hw

theorem kill (h : Counted s surplus) (hu : u ∈ s.live) (hd : e.dead = true)
    (hw : e.weight ≤ e.priority) :
    Counted { s.setEntry u e with alive := decr s.alive } surplus where
  nodup := h.nodup
  nelts := h.nelts
  alive_lt := decr_lt s.alive
  count := by
    rw [live_alive, live_setEntry_dead hd]
    refine decr_add ?_
    rw [Finset.card_erase_add_one hu]
    exact h.count
  weight := h.setEntry_weight hw

theorem kill_again (h : Counted s surplus) (hu : (s.up u).dead = true) (hd : e.dead = true)
    (hw : e.weight ≤ e.priority) :
    Counted { s.setEntry u e with alive := decr s.alive } (surplus + 1) where
  nodup := h.nodup
  nelts := h.nelts
  alive_lt := decr_lt s.alive
  count := by
    have hc := h.count
    rw [live_alive, live_setEntry_same (hd.trans hu.symm)]
    exact decr_add (by omega)
  weight := h.setEntry_weight hw

theorem wake (h : Counted s surplus) (hu : u ∈ s.order) (hdead : (s.up u).dead = true)
    (hd : e.dead = false) (hw : e.weight ≤ e.priority) :
    Counted { s.setEntry u e with alive := incr s.alive } surplus where
  nodup := h.nodup
  nelts := h.nelts
  alive_lt := incr_lt _
  count := by
    have hnot : u ∉ s.live := fun hmem => by rw [mem_live, hdead] at hmem; exact Bool.noConfusion hmem.2
    rw [live_alive, live_setEntry_live hu hd, Finset.card_insert_of_notMem hnot]
    exact incr_add h.count
  weight := h.setEntry_weight hw

theorem fail (h : Counted s surplus) (hu : u ∈ s.order) (now : Int) :
    Counted (s.fail u now) (s.surplusAfter surplus (.fail u now)) := by
  have hw := h.weight u hu
  unfold Upstream.fail surplusAfter Kills
  dsimp only
  split_ifs with h1 h2 h3 h4 h4 h4 h4
  · exact h.kill_again h4.1 rfl hw
  · have hlive : (s.up u).dead = false := by
      cases hd : (s.up u).dead
      · rfl
      · exact absurd ⟨hd, h1, h2, h3⟩ h4
    exact h.kill (mem_live.2 ⟨hu, hlive⟩) rfl hw
  · exact absurd h4.2.2.2 h3
  · exact h.setEntry_same rfl hw
  · exact absurd h4.2.2.1 h2
  · exact h.setEntry_same rfl hw
  · exact absurd h4.2.1 h1
  · exact h.setEntry_same rfl hw

theorem reviveAll (h : Counted s surplus) : Counted s.reviveAll 0 where
  nodup := h.nodup
  nelts := h.nelts
  alive_lt := by
    show s.nelts < 2 ^ 32
    rw [h.nelts]
    exact Nat.mod_lt _ (by norm_num)
  count := by
    rw [live_reviveAll, List.toFinset_card_of_nodup h.nodup]
    show (s.nelts + 0) % 2 ^ 32 = _
    rw [h.nelts]
    omega
  weight v hv := by
    have hv' : v ∈ s.order := hv
    rw [reviveAll_up hv']
    exact h.weight v hv

theorem revived (h : Counted s surplus) : Counted s.revived (if s.alive = 0 then 0 else surplus) := by
  unfold Upstream.revived
  split_ifs
  · exact h.reviveAll
  · exact h

theorem rescanOne (h : Counted s surplus) (hu : u ∈ s.order) : Counted (s.rescanOne now u) surplus := by
  unfold Upstream.rescanOne
  dsimp only
  split_ifs with h1 h2 h3
  · exact h.wake hu h1 rfl le_rfl
  · exact h
  · exact h.kill (mem_live.2 ⟨hu, by simpa using h1⟩) rfl (h.weight u hu)
  · exact h

end Counted

theorem rescanOne_order (s : Upstream ι) (now : Int) (u : ι) : (s.rescanOne now u).order = s.order := by
  unfold rescanOne
  dsimp only
  split_ifs <;> rfl

namespace Counted

theorem rescanLoop (h : Counted s surplus) (elts : List ι) (hsub : ∀ u ∈ elts, u ∈ s.order) :
    Counted (elts.foldl (Upstream.rescanOne now) s) surplus := by
  induction elts generalizing s with
  | nil => exact h
  | cons u elts ih =>
    refine ih (h.rescanOne (hsub u List.mem_cons_self)) fun v hv => ?_
    rw [rescanOne_order]
    exact hsub v (List.mem_cons_of_mem _ hv)

theorem add (h : Counted s surplus) (hu : u ∉ s.order) (priority : Int)
    (hs : s.order = [] → surplus = 0) : Counted (s.add u priority) surplus := by
  have hup : ∀ v ∈ s.order, (s.add u priority).up v = s.up v := fun v hv =>
    Function.update_of_ne (ne_of_mem_of_not_mem hv hu) ..
  have hself : (s.add u priority).up u = ⟨0, false, priorityOf priority, priorityOf priority, 0⟩ :=
    Function.update_self ..
  have hlive : (s.add u priority).live = insert u s.live := by
    ext v
    rw [Finset.mem_insert, mem_live, mem_live]
    show v ∈ u :: s.order ∧ _ ↔ _
    rw [List.mem_cons]
    constructor
    · rintro ⟨rfl | hv, hd⟩
      · exact .inl rfl
      · rw [hup v hv] at hd; exact .inr ⟨hv, hd⟩
    · rintro (rfl | ⟨hv, hd⟩)
      · exact ⟨.inl rfl, by rw [hself]⟩
      · exact ⟨.inr hv, by rw [hup v hv]; exact hd⟩
  have hcard : (s.add u priority).live.card = s.live.card + 1 := by
    rw [hlive]
    exact Finset.card_insert_of_notMem fun hmem => hu (mem_live.1 hmem).1
  refine ⟨List.nodup_cons.2 ⟨hu, h.nodup⟩, ?_, ?_, ?_, ?_⟩
  · show (if s.order = [] then 1 else incr s.nelts) = (s.order.length + 1) % 2 ^ 32
    split_ifs with hnil
    · rw [hnil]; rfl
    · rw [h.nelts]; unfold incr; omega
  · show (if s.order = [] then 1 else incr s.alive) < 2 ^ 32
    split_ifs
    · norm_num
    · exact incr_lt _
  · have hc := h.count
    rw [hcard]
    show ((if s.order = [] then 1 else incr s.alive) + surplus) % 2 ^ 32 = _
    split_ifs with hnil
    · have hempty : s.live = ∅ := by
        ext v
        rw [mem_live, hnil]
        simp
      rw [hs hnil, hempty]
      rfl
    · unfold incr; omega
  · intro v hv
    rcases List.mem_cons.1 hv with rfl | hv
    · rw [hself]
    · rw [hup v hv]; exact h.weight v hv

end Counted

theorem fail_order (s : Upstream ι) (u : ι) (now : Int) : (s.fail u now).order = s.order := by
  unfold fail
  dsimp only
  split_ifs <;> rfl

theorem rescan_spec (h : s.rescan now = some s') :
    s.order ≠ [] ∧ (s.alive = 0 ∧ s' = s.reviveAll ∨
      s.alive ≠ 0 ∧ s' = s.order.foldl (rescanOne now) s) := by
  unfold rescan at h
  split_ifs at h with h1 h2
  · cases h; exact ⟨h1, .inl ⟨h2, rfl⟩⟩
  · cases h; exact ⟨h1, .inr ⟨h2, rfl⟩⟩

theorem foldl_rescanOne_order (elts : List ι) : (elts.foldl (rescanOne now) s).order = s.order := by
  induction elts generalizing s with
  | nil => rfl
  | cons u elts ih => rw [List.foldl_cons, ih, rescanOne_order]

/-- What a run keeps; the surplus is of servers, so that an empty list has none. -/
structure Tracked (s : Upstream ι) (surplus : Nat) : Prop extends Counted s surplus where
  none_yet : s.order = [] → surplus = 0

namespace Counted

theorem select (h : Counted s surplus) (hs : s.select = some (u, s')) :
    Counted s' (if s.alive = 0 then 0 else surplus) := by
  have hsel := select_some hs
  have hr := h.revived
  have ho : s'.order = s.revived.order := hsel.order.trans (revived_order s).symm
  refine ⟨by rw [ho]; exact hr.nodup, by rw [hsel.nelts, ho]; exact hr.nelts,
    by rw [hsel.alive]; exact hr.alive_lt, ?_,
    fun v hv => ?_⟩
  · rw [hsel.alive, live_congr ho fun v _ => hsel.dead v]
    exact hr.count
  · rw [hsel.priority]
    exact (hsel.weight v).trans (max_le (hr.weight v (by rw [← ho]; exact hv)) le_rfl)

theorem rescan (h : Counted s surplus) (hs : s.rescan now = some s') :
    Counted s' (if s.alive = 0 then 0 else surplus) := by
  obtain ⟨-, ⟨ha, rfl⟩ | ⟨ha, rfl⟩⟩ := rescan_spec hs
  · rw [if_pos ha]; exact h.reviveAll
  · rw [if_neg ha]; exact h.rescanLoop _ fun _ hv => hv

end Counted

theorem Tracked.step (h : Tracked s surplus) {a : Act ι} (hs : s.step a = some s') :
    Tracked s' (s.surplusAfter surplus a) := by
  cases a with
  | add u priority =>
    simp only [Upstream.step] at hs
    split_ifs at hs with hu
    cases hs
    exact ⟨h.toCounted.add hu priority h.none_yet, fun hnil => by cases hnil⟩
  | fail u now =>
    simp only [Upstream.step] at hs
    split_ifs at hs with hu
    cases hs
    refine ⟨h.toCounted.fail hu now, fun hnil => ?_⟩
    rw [fail_order] at hnil
    rw [hnil] at hu
    cases hu
  | ok u =>
    simp only [Upstream.step] at hs
    split_ifs at hs with hu
    cases hs
    exact ⟨h.toCounted.setEntry_same rfl (h.weight u hu), h.none_yet⟩
  | rescan now =>
    have ho := (rescan_spec hs).1
    refine ⟨h.toCounted.rescan hs, fun hnil => absurd hnil ?_⟩
    obtain ⟨-, ⟨-, rfl⟩ | ⟨-, rfl⟩⟩ := rescan_spec hs
    · exact ho
    · rw [foldl_rescanOne_order]; exact ho
  | select =>
    obtain ⟨⟨u, t⟩, hsel, rfl⟩ := Option.map_eq_some_iff.1 hs
    refine ⟨h.toCounted.select hsel, fun hnil => absurd hnil ?_⟩
    rw [(select_some hsel).order]
    exact (select_some hsel).nonempty

theorem reach_tracked {t : Upstream ι × Nat} (h : (machine ι).Reach t) : Tracked t.1 t.2 := by
  refine h.invariant (I := fun t => Tracked t.1 t.2) (fun t ht => ?_) fun t a t' ht _ hs => ?_
  · have ht : t = (empty, 0) := ht
    rw [ht]
    exact ⟨⟨List.nodup_nil, rfl, by norm_num [empty], rfl, by simp [empty]⟩, fun _ => rfl⟩
  · obtain ⟨s', hs', rfl⟩ := Option.map_eq_some_iff.1 hs
    exact ht.step hs'

/-- No server has a priority that is not 0, or those that have one are dead and `alive` is not 0 all
the same, so that they are not revived. -/
def Spent (s : Upstream ι) (surplus : Nat) : Prop :=
  (∀ u ∈ s.order, (s.up u).priority = 0) ∨
    (∀ u ∈ s.order, (s.up u).priority ≠ 0 → (s.up u).dead = true) ∧
    surplus % 2 ^ 32 ≠ s.live.card % 2 ^ 32

theorem selects_nothing_iff (hc : Counted s surplus) : s.select = none ↔ s.Spent surplus := by
  have hcount := hc.count
  have halive := hc.alive_lt
  by_cases hnil : s.order = []
  · refine iff_of_true ?_ (.inl ?_)
    · unfold select
      rw [if_pos hnil]
    · simp [hnil]
  rcases select_spec s hnil with ⟨hn, hz⟩ | ⟨u, t, hs, -⟩
  · refine iff_of_true hn ?_
    by_cases ha : s.alive = 0
    · -- all servers have been revived first
      refine .inl fun v hv => ?_
      rw [← (revived_up v).1]
      refine (hz v ?_).2
      rw [show s.revived = s.reviveAll from if_pos ha, live_reviveAll]
      exact List.mem_toFinset.2 hv
    · rw [show s.revived = s from if_neg ha] at hz
      refine .inr ⟨fun v hv hp => ?_, by omega⟩
      rw [← Bool.not_eq_false]
      exact fun hd => hp (hz v (mem_live.2 ⟨hv, hd⟩)).2
  · have hsel := select_some hs
    have hlive := mem_live.1 hsel.draw.mem
    rw [revived_order] at hlive
    have hpos := hsel.served (hc.weight u hlive.1)
    refine iff_of_false (fun hn => ?_) ?_
    · rw [hn] at hs; cases hs
    rintro (hall | ⟨hall, hsur⟩)
    · exact hpos.ne' (hall u hlive.1)
    · have ha : s.alive ≠ 0 := by omega
      rw [show s.revived = s from if_neg ha, hall u hlive.1 hpos.ne'] at hlive
      exact Bool.noConfusion hlive.2

/-- In every run `UPSTREAM_SELECT_ROUND_ROBIN` has no server to select, and writes through `NULL`,
exactly when none has a priority, or all that have one are dead and failures of dead servers that
have been counted since the last revival keep them so. -/
theorem select_eq_none_iff {t : Upstream ι × Nat} (h : (machine ι).Reach t) :
    t.1.select = none ↔ (∀ u ∈ t.1.order, (t.1.up u).priority = 0) ∨
      (∀ u ∈ t.1.order, (t.1.up u).priority ≠ 0 → (t.1.up u).dead = true) ∧
      t.2 % 2 ^ 32 ≠ t.1.live.card % 2 ^ 32 :=
  selects_nothing_iff (reach_tracked h).toCounted

/-- One server that is given up and then fails once more. -/
def failedTwice : List (Act Unit) :=
  .add () 0 :: List.replicate 10 (.fail () 1) ++ [.fail () 11, .fail () 21]

theorem select_eq_none_iff_failedTwice :
    ∃ t ∈ (machine Unit).run (empty, 0) failedTwice,
      (t.1.select = none ↔ (∀ u ∈ t.1.order, (t.1.up u).priority = 0) ∨
        (∀ u ∈ t.1.order, (t.1.up u).priority ≠ 0 → (t.1.up u).dead = true) ∧
        t.2 % 2 ^ 32 ≠ t.1.live.card % 2 ^ 32) ∧
        t.1.select = none := by
  have hnone : ((machine Unit).run (empty, 0) failedTwice).map (·.1.select.isNone) = some true := by
    decide +kernel
  obtain ⟨t, ht, hsel⟩ := Option.map_eq_some_iff.1 hnone
  exact ⟨t, ht, select_eq_none_iff (Machine.ReachUnder.run (.init rfl) ht),
    Option.isNone_iff_eq_none.1 hsel⟩

/-! ## How the requests are spread -/

/-- The server that a step selects. -/
def picked (s : Upstream ι) : Act ι → List ι
  | .select => (s.select.map (·.1)).toList
  | _ => []

/-- The servers selected in a run, and the list after it. -/
def serve (s : Upstream ι) : List (Act ι) → Option (List ι × Upstream ι)
  | [] => some ([], s)
  | a :: as => do
    let s' ← s.step a
    let (us, t) ← serve s' as
    some (s.picked a ++ us, t)

/-- The step leaves the same servers alive. -/
def Steady (live : Finset ι) (s : Upstream ι) : List (Act ι) → Prop
  | [] => True
  | a :: as => ∀ s', s.step a = some s' → s'.live = live ∧ Steady live s' as

theorem fail_up_of_ne {v : ι} (h : v ≠ u) : (s.fail u now).up v = s.up v := by
  unfold fail
  dsimp only
  split_ifs <;> exact setEntry_of_ne h

theorem fail_self :
    ((s.fail u now).up u).weight = (s.up u).weight ∧
      ((s.fail u now).up u).priority = (s.up u).priority := by
  unfold fail
  dsimp only
  split_ifs
  · exact ⟨congrArg (·.weight) (setEntry_self (s := s)), congrArg (·.priority) (setEntry_self (s := s))⟩
  all_goals rw [setEntry_self]; exact ⟨rfl, rfl⟩

theorem rescanOne_of_ne {v : ι} (h : v ≠ u) : (s.rescanOne now u).up v = s.up v := by
  unfold rescanOne
  dsimp only
  split_ifs
  · exact setEntry_of_ne h
  · rfl
  · exact setEntry_of_ne h
  · rfl

theorem rescanOne_self : ((s.rescanOne now u).up u).priority = (s.up u).priority ∧
    ((s.up u).dead = false → ((s.rescanOne now u).up u).weight = (s.up u).weight) := by
  unfold rescanOne
  dsimp only
  split_ifs with h
  · exact ⟨congrArg (·.priority) (setEntry_self (s := s)),
      fun hd => absurd (h.symm.trans hd) (by decide)⟩
  · exact ⟨rfl, fun _ => rfl⟩
  · exact ⟨congrArg (·.priority) (setEntry_self (s := s)),
      fun _ => congrArg (·.weight) (setEntry_self (s := s))⟩
  · exact ⟨rfl, fun _ => rfl⟩

theorem rescanLoop_keeps (now : Int) (elts : List ι) (hnd : elts.Nodup) (v : ι) :
    ((elts.foldl (rescanOne now) s).up v).priority = (s.up v).priority ∧
      ((s.up v).dead = false → ((elts.foldl (rescanOne now) s).up v).weight = (s.up v).weight) := by
  induction elts generalizing s with
  | nil => exact ⟨rfl, fun _ => rfl⟩
  | cons u elts ih =>
    obtain ⟨hu, hnd⟩ := List.nodup_cons.1 hnd
    rw [List.foldl_cons]
    have hv := ih hnd (s := s.rescanOne now u)
    rcases eq_or_ne v u with rfl | hne
    · -- visited now and not again
      have hrest : ∀ (elts : List ι) (t : Upstream ι), v ∉ elts →
          (elts.foldl (rescanOne now) t).up v = t.up v := by
        intro elts
        induction elts with
        | nil => exact fun _ _ => rfl
        | cons w elts ih' =>
          intro t hw
          rw [List.foldl_cons, ih' _ fun h => hw (List.mem_cons_of_mem _ h)]
          exact rescanOne_of_ne fun h => hw (h ▸ List.mem_cons_self)
      rw [hrest _ _ hu]
      exact rescanOne_self
    · rw [rescanOne_of_ne hne] at hv
      exact hv

/-- A step that leaves the same servers alive takes a turn if it selects and leaves all weights
otherwise. -/
theorem step_draw (hnd : s.order.Nodup) {a : Act ι} (hs : s.step a = some s')
    (hlive : s'.live = s.live) :
    (∀ v ∈ s.live, (s'.up v).priority = (s.up v).priority) ∧
      ((s.picked a = [] ∧ ∀ v ∈ s.live, (s'.up v).weight = (s.up v).weight) ∨
        ∃ u, s.picked a = [u] ∧ Turns.Draw s.live (fun v =>
          (s.up v).priority) (fun v => (s.up v).weight) u
          fun v => (s'.up v).weight) := by
  cases a with
  | add u priority =>
    simp only [step] at hs
    split_ifs at hs with hu
    cases hs
    have hup : ∀ v ∈ s.live, (s.add u priority).up v = s.up v := fun v hv =>
      Function.update_of_ne (ne_of_mem_of_not_mem (mem_live.1 hv).1 hu) ..
    exact ⟨fun v hv => by rw [hup v hv], .inl ⟨rfl, fun v hv => by rw [hup v hv]⟩⟩
  | fail u now =>
    simp only [step] at hs
    split_ifs at hs with hu
    cases hs
    have hup : ∀ v, ((s.fail u now).up v).weight = (s.up v).weight ∧
        ((s.fail u now).up v).priority = (s.up v).priority := by
      intro v
      rcases eq_or_ne v u with rfl | hne
      · exact fail_self
      · rw [fail_up_of_ne hne]; exact ⟨rfl, rfl⟩
    exact ⟨fun v _ => (hup v).2, .inl ⟨rfl, fun v _ => (hup v).1⟩⟩
  | ok u =>
    simp only [step] at hs
    split_ifs at hs with hu
    cases hs
    have hup : ∀ v, ((s.ok u).up v).weight = (s.up v).weight ∧
        ((s.ok u).up v).priority = (s.up v).priority := by
      intro v
      unfold ok
      rcases eq_or_ne v u with rfl | hne
      · rw [setEntry_self]; exact ⟨rfl, rfl⟩
      · rw [setEntry_of_ne hne]; exact ⟨rfl, rfl⟩
    exact ⟨fun v _ => (hup v).2, .inl ⟨rfl, fun v _ => (hup v).1⟩⟩
  | rescan now =>
    obtain ⟨-, ⟨ha, rfl⟩ | ⟨-, rfl⟩⟩ := rescan_spec hs
    · have hrev : s.revived = s.reviveAll := if_pos ha
      rw [← hrev]
      exact ⟨fun v _ => (revived_up v).1, .inl ⟨rfl, fun v _ => (revived_up v).2⟩⟩
    · have hup := fun v => rescanLoop_keeps (s := s) now s.order hnd v
      exact ⟨fun v _ => (hup v).1, .inl ⟨rfl, fun v hv => (hup v).2 (mem_live.1 hv).2⟩⟩
  | select =>
    obtain ⟨⟨u, t⟩, hsel, rfl⟩ := Option.map_eq_some_iff.1 hs
    have h := select_some hsel
    have hlive' : s.revived.live = s.live := by
      rw [← hlive]
      exact (live_congr (h.order.trans (revived_order s).symm) fun v _ => h.dead v).symm
    have hdraw := h.draw
    rw [hlive'] at hdraw
    simp only [(revived_up _).1, (revived_up _).2] at hdraw
    refine ⟨fun v _ => (h.priority v).trans (revived_up v).1, .inr ⟨u, ?_, hdraw⟩⟩
    simp [picked, hsel]

theorem step_nodup (hnd : s.order.Nodup) {a : Act ι} (hs : s.step a = some s') : s'.order.Nodup := by
  cases a with
  | add u priority =>
    simp only [step] at hs
    split_ifs at hs with hu
    cases hs
    exact List.nodup_cons.2 ⟨hu, hnd⟩
  | fail u now =>
    simp only [step] at hs
    split_ifs at hs with hu
    cases hs
    rw [fail_order]; exact hnd
  | ok u =>
    simp only [step] at hs
    split_ifs at hs with hu
    cases hs
    exact hnd
  | rescan now =>
    obtain ⟨-, ⟨-, rfl⟩ | ⟨-, rfl⟩⟩ := rescan_spec hs
    · exact hnd
    · rw [foldl_rescanOne_order]; exact hnd
  | select =>
    obtain ⟨⟨u, t⟩, hsel, rfl⟩ := Option.map_eq_some_iff.1 hs
    rw [(select_some hsel).order]; exact hnd

theorem serve_cons {a : Act ι} {as : List (Act ι)} {us : List ι} {t : Upstream ι}
    (h : s.serve (a :: as) = some (us, t)) :
    ∃ s₁ us₁, s.step a = some s₁ ∧ s₁.serve as = some (us₁, t) ∧ us = s.picked a ++ us₁ := by
  unfold serve at h
  obtain ⟨s₁, hs₁, h⟩ := Option.bind_eq_some_iff.1 h
  obtain ⟨⟨us₁, t₁⟩, hs₂, h⟩ := Option.bind_eq_some_iff.1 h
  cases h
  exact ⟨s₁, us₁, hs₁, hs₂, rfl⟩

theorem serve_draws {live : Finset ι} {share : ι → Nat} {as : List (Act ι)} {us : List ι}
    {t : Upstream ι} (hnd : s.order.Nodup) (hlive : s.live = live)
    (hshare : ∀ v ∈ live, (s.up v).priority = share v) (hst : Steady live s as)
    (hs : s.serve as = some (us, t)) :
    Turns.Draws live share (fun v => (s.up v).weight) us fun v => (t.up v).weight := by
  induction as generalizing s us with
  | nil =>
    cases hs
    exact .nil fun _ _ => rfl
  | cons a as ih =>
    obtain ⟨s₁, us₁, hs₁, hrest, rfl⟩ := serve_cons hs
    obtain ⟨hlive₁, hst₁⟩ := hst s₁ hs₁
    obtain ⟨hprio, hturn⟩ := step_draw hnd hs₁ (hlive₁.trans hlive.symm)
    rw [hlive] at hprio hturn
    have hshare₁ : ∀ v ∈ live, (s₁.up v).priority = share v :=
      fun v hv => (hprio v hv).trans (hshare v hv)
    have hdraws := ih (step_nodup hnd hs₁) hlive₁ hshare₁ hst₁ hrest
    rcases hturn with ⟨hnone, hw⟩ | ⟨u, hone, hdraw⟩
    · rw [hnone]
      exact hdraws.congr fun v hv => (hw v hv).symm
    · rw [hone]
      exact .cons (hdraw.congr_share hshare) hdraws

/-- How the requests are spread while the same servers stay alive. The weights that are left are
used up first: until then no server is selected more often than its weight. From then on every
server is selected as often as its priority says in every round of as many selections as all
priorities together, and never more often within the round. And if all weights were full, servers of
equal priority are never more than one selection apart. -/
theorem served_by_priority {t : Upstream ι × Nat} (h : (machine ι).Reach t) {as : List (Act ι)}
    {us : List ι} {t' : Upstream ι} (hst : Steady t.1.live t.1 as)
    (hs : t.1.serve as = some (us, t')) {u : ι} (hu : u ∈ t.1.live) :
    let weight v := (t.1.up v).weight
    let priority v := (t.1.up v).priority
    let used := ∑ v ∈ t.1.live, weight v
    let round := ∑ v ∈ t.1.live, priority v
    (us.length ≤ used → us.count u ≤ weight u) ∧
      (used ≤ us.length → weight u + (us.length - used) / round * priority u ≤ us.count u ∧
        us.count u ≤ weight u + (us.length - used) / round * priority u + min (priority u)
          ((us.length - used) % round)) ∧
      ((∀ v ∈ t.1.live, weight v = priority v) → ∀ v ∈ t.1.live, priority u = priority v →
        us.count u ≤ us.count v + 1) := by
  have hc := (reach_tracked h).toCounted
  have hd := serve_draws hc.nodup rfl (fun _ _ => rfl) hst hs
  have hw : ∀ v ∈ t.1.live, (t.1.up v).weight ≤ (t.1.up v).priority :=
    fun v hv => hc.weight v (mem_live.1 hv).1
  refine ⟨hd.count_le hu, hd.count_bounds hu hw, fun hfull v hv heq => ?_⟩
  exact (hd.congr fun w hw => (hfull w hw).symm).count_le_succ hu hv heq

/-- Two servers of priorities 2 and 1. -/
def pair : Upstream Bool := (empty.add true 2).add false 1

theorem served_by_priority_pair :
    ∃ us t', pair.serve [.select, .select, .select] = some (us, t') ∧ us.length = 3 ∧
      (us.length ≤ 3 → us.count true ≤ 2) ∧
      (3 ≤ us.length → 2 + (us.length - 3) / 3 * 2 ≤ us.count true ∧
        us.count true ≤ 2 + (us.length - 3) / 3 * 2 + min 2 ((us.length - 3) % 3)) := by
  have hreach : (machine Bool).Reach (pair, 0) :=
    .step (a := .add false 1) (.step (a := .add true 2) (.init rfl) trivial rfl) trivial rfl
  refine ⟨_, _, rfl, rfl, ?_⟩
  have hst : Steady pair.live pair [.select, .select, .select] := by
    refine fun s hs => ⟨?_, fun s₁ hs₁ => ⟨?_, fun s₂ hs₂ => ⟨?_, trivial⟩⟩⟩
    · cases hs; decide +kernel
    · cases hs; cases hs₁; decide +kernel
    · cases hs; cases hs₁; cases hs₂; decide +kernel
  have h := served_by_priority hreach hst rfl (u := true) (by decide +kernel)
  exact ⟨h.1, h.2.1⟩

end Upstream
end Resend.Dns

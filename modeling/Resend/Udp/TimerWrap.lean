import Resend.Udp.TimerExpiry

/-!
# The timer wheel when the clock wraps

The clock is read modulo `2 ^ 32` and the slots are numbered modulo 65536, but `add_timer` does not
reduce the slot it computes, and the loop of `expire` resets `_slot_cursor` where it should reset
its own variable. The wheel works until a timer is due behind the wrap, or until the loop finds
nothing before slot 65535 and the clock has wrapped.
-/

namespace Resend.Udp
namespace TimerWheel
open Buckets

/-- The slot that `add_timer` puts a timer into, unless it goes into a bucket. -/
def addTimerSlots (w : TimerWheel) (dueTime clock : Int) : List Int :=
  if dueTime > 0x0fffffff then []
  else
    let slotNum := wrapInt ((dueTime + clock) / 65536)
    if slotNum = w.slotCursor ∧ w.nearlyCursor < 65536 then [] else [slotNum]

/-- The slots that the loop of `expire` looks into. -/
def turnSlots (slotArray : Nat → List TimerNode) (curTime : Int) : Nat → Nat → List Nat
  | 0, _ => []
  | fuel + 1, nextSlotCursor =>
    if timeBeforeEq (wrapInt ((nextSlotCursor + 1 : Nat) * 65536)) curTime then
      (nextSlotCursor + 1) ::
        if (slotArray (nextSlotCursor + 1)).isEmpty then turnSlots slotArray curTime fuel
          (nextSlotCursor + 1) else []
    else []

def expireSlots (w : TimerWheel) (clock : Int) : List Nat :=
  if w.totalTimerCount = 0 ∨ w.nearlyCount ≠ 0 ∨
    timeBeforeEq clock (orMask (wrapInt (w.slotCursor * 65536))) then []
  else turnSlots w.slotArray clock 65536 w.slotCursor

/-- Slot `k` lies between the slot of `w` and that of `w'`, in the direction in which the wheel
turns. -/
def Passed (w w' : TimerWheel) (k : Nat) : Prop :=
  k < 65536 ∧ if w.slotCursor ≤ w'.slotCursor then w.slotCursor < k ∧ k ≤ w'.slotCursor
    else w.slotCursor < k ∨ k ≤ w'.slotCursor

/-- The wheel has timers, but none in a bucket and none in a slot before the end, and the clock has
wrapped: the loop of `expire` goes over the end. -/
def Overruns (w : TimerWheel) (clock : Int) : Prop :=
  w.totalTimerCount ≠ 0 ∧ w.nearlyCount = 0 ∧
    clock + 2147483648 < ((w.slotCursor + 1 : Nat) : Int) * 65536 ∧ ∀ k, w.slotCursor < k →
    k < 65536 → w.slotArray k = []

section turn
variable {w w' : TimerWheel} {clock : Int} {fuel next : Nat}

theorem timeBeforeEq_iff_emod (a b : Int) :
    timeBeforeEq a b = true ↔ (b - a) % 4294967296 < 2147483648 := by
  rw [timeBeforeEq, timeAfterEq, decide_eq_true_eq, wrapInt, wrapInt, wrapInt,
    ← Int.sub_bmod, Int.bmod_def]
  split <;> omega

theorem timeBeforeEq_slot (k : Nat) (b : Int) :
    timeBeforeEq (wrapInt (k * 65536)) b = true ↔ (b - k * 65536) % 4294967296 < 2147483648 := by
  rw [← timeBeforeEq_iff_emod, timeBeforeEq, timeBeforeEq, timeAfterEq, timeAfterEq]
  have hidem : wrapInt (wrapInt (k * 65536)) = wrapInt (k * 65536) := Int.bmod_bmod
  rw [hidem]

theorem mem_turnSlots {k : Nat} :
    k ∈ turnSlots w.slotArray clock fuel next ↔ next < k ∧ k ≤ next + fuel ∧
      (∀ j, next < j → j ≤ k → timeBeforeEq (wrapInt (j * 65536)) clock = true) ∧
      ∀ j, next < j → j < k → w.slotArray j = [] := by
  induction fuel generalizing next with
  | zero =>
    refine ⟨fun h => absurd h List.not_mem_nil, fun h => ?_⟩
    omega
  | succ fuel ih =>
    unfold turnSlots
    by_cases ht : timeBeforeEq (wrapInt ((next + 1 : Nat) * 65536)) clock = true
    · rw [if_pos ht, List.mem_cons]
      by_cases he : w.slotArray (next + 1) = []
      · rw [he, List.isEmpty_nil, if_pos rfl, ih]
        constructor
        · rintro (rfl | ⟨hlt, hle, htime, hempty⟩)
          · refine ⟨by omega, by omega, fun j hj hj' => ?_, fun j hj hj' => by omega⟩
            rw [show j = next + 1 by omega]
            exact ht
          · refine ⟨by omega, by omega, fun j hj hj' => ?_, fun j hj hj' => ?_⟩
            · rcases Nat.eq_or_lt_of_le (Nat.succ_le_of_lt hj) with rfl | hj
              exacts [ht, htime j hj hj']
            · rcases Nat.eq_or_lt_of_le (Nat.succ_le_of_lt hj) with rfl | hj
              exacts [he, hempty j hj hj']
        · rintro ⟨hlt, hle, htime, hempty⟩
          rcases Nat.eq_or_lt_of_le (Nat.succ_le_of_lt hlt) with rfl | hlt
          · exact .inl rfl
          · exact .inr ⟨hlt, by omega, fun j hj => htime j (by omega), fun j hj => hempty j (by omega)⟩
      · rw [if_neg (by rw [List.isEmpty_iff]; exact he), or_iff_left List.not_mem_nil]
        constructor
        · rintro rfl
          refine ⟨by omega, by omega, fun j hj hj' => ?_, fun j hj hj' => by omega⟩
          rw [show j = next + 1 by omega]
          exact ht
        · rintro ⟨hlt, -, -, hempty⟩
          rcases Nat.eq_or_lt_of_le (Nat.succ_le_of_lt hlt) with h | hlt
          · exact h.symm
          · exact absurd (hempty (next + 1) (by omega) hlt) he
    · rw [if_neg ht]
      refine ⟨fun h => absurd h List.not_mem_nil, fun ⟨hlt, _, htime, _⟩ => ?_⟩
      exact absurd (htime (next + 1) (by omega) hlt) ht

theorem getNode_slots (w : TimerWheel) (curTime : Int) :
    (w.getNodeFromNearlyArray curTime).1.slotCursor = w.slotCursor ∧
      (w.getNodeFromNearlyArray curTime).1.slotArray = w.slotArray := by
  simp only [getNodeFromNearlyArray]
  split <;> exact ⟨rfl, rfl⟩

/-- What the loop leaves: it stands at the last slot it has looked into, and none of these slots has
a timer. -/
theorem turn_stops {res : Expired} (hw : turn fuel w next clock = some (w', res)) :
    next ≤ w'.slotCursor ∧ (∀ k, k ∈ turnSlots w.slotArray clock fuel next ↔
      next < k ∧ k ≤ w'.slotCursor) ∧
      (∀ k, next < k → k ≤ w'.slotCursor → w'.slotArray k = []) ∧ ∀ k, w.slotArray k = [] →
      w'.slotArray k = [] := by
  induction fuel generalizing w next with
  | zero => cases hw
  | succ fuel ih =>
    obtain ⟨w₁, hw₁⟩ : ∃ w₁, (if next + 1 = 65536 then { w with slotCursor := 0 } else w) =
        w₁ := ⟨_, rfl⟩
    have hsame : w₁.slotArray = w.slotArray := by
      rw [← hw₁]
      split <;> rfl
    simp only [turn, hw₁, hsame] at hw
    unfold turnSlots
    split at hw
    · rename_i htime
      rw [if_pos htime]
      split at hw
      · rename_i hempty
        obtain ⟨hle, hmem, hpassed, hkept⟩ := ih hw
        simp only at hmem hkept
        rw [if_pos hempty]
        refine ⟨by omega, fun k => ?_, fun k hk hk' => ?_, hkept⟩
        · rw [List.mem_cons, hmem]
          omega
        · rcases Nat.eq_or_lt_of_le (Nat.succ_le_of_lt hk) with rfl | hk
          · exact hkept _ (List.isEmpty_iff.1 hempty)
          · exact hpassed k hk hk'
      · rename_i hempty
        rw [Option.some.injEq] at hw
        have hslots := congrArg (fun r => (r.1.slotCursor, r.1.slotArray)) hw
        simp only [(getNode_slots _ _).1, (getNode_slots _ _).2, Prod.mk.injEq] at hslots
        obtain ⟨hcursor, harray⟩ := hslots
        rw [if_neg hempty, ← hcursor, ← harray]
        refine ⟨by omega, fun k => ?_, fun k hk hk' => ?_, fun k hk => ?_⟩
        · rw [List.mem_singleton]
          omega
        · rw [show k = next + 1 by omega, Function.update_self]
        · by_cases hkn : k = next + 1
          · rw [hkn, Function.update_self]
          · rw [Function.update_of_ne hkn]
            exact hk
    · rename_i htime
      cases hw
      rw [if_neg htime]
      exact ⟨by simp, fun k => by simp, fun k hk hk' => by simp at hk'; omega, fun k hk => hsame ▸ hk⟩

theorem turn_isSome_of {j : Nat} (hj : next < j) (hj' : j ≤ next + fuel)
    (hlate : ¬ timeBeforeEq (wrapInt (j * 65536)) clock = true) : (turn fuel w next clock).isSome := by
  induction fuel generalizing w next with
  | zero => omega
  | succ fuel ih =>
    obtain ⟨w₁, hw₁⟩ : ∃ w₁, (if next + 1 = 65536 then { w with slotCursor := 0 } else w) =
        w₁ := ⟨_, rfl⟩
    simp only [turn, hw₁]
    split
    · rename_i htime
      split
      · refine ih ?_ (by omega)
        rcases Nat.eq_or_lt_of_le (Nat.succ_le_of_lt hj) with rfl | hj
        · exact absurd htime hlate
        · exact hj
      · rfl
    · rfl

theorem turn_isSome (w : TimerWheel) (next : Nat) (clock : Int) : (turn 65536 w next clock).isSome := by
  refine turn_isSome_of (j := next + 1 + ((clock / 65536 - next) % 65536).toNat) (by omega)
    (by omega) ?_
  rw [timeBeforeEq_slot]
  omega

/-- The loop goes over the end only if it finds nothing before, and the clock is less than half a
turn behind it. -/
theorem end_mem_turnSlots (hs : w.slotCursor < 65536) (hclock : 0 ≤ clock)
    (hclock' : clock < 4294967296) :
    65536 ∈ turnSlots w.slotArray clock 65536 w.slotCursor ↔
      clock + 2147483648 < ((w.slotCursor + 1 : Nat) : Int) * 65536 ∧
      ∀ k, w.slotCursor < k → k < 65536 → w.slotArray k = [] := by
  have htimes : (∀ j : Nat, w.slotCursor < j → j ≤ 65536 →
    timeBeforeEq (wrapInt (j * 65536)) clock = true) ↔
      clock + 2147483648 < ((w.slotCursor + 1 : Nat) : Int) * 65536 := by
    simp only [timeBeforeEq_slot]
    constructor
    · intro h
      have hend := h 65536 hs le_rfl
      by_contra hlt
      rcases Nat.lt_or_ge (clock / 65536 + 1).toNat (w.slotCursor + 1) with hc | hc
      · have := h (w.slotCursor + 1) (by omega) (by omega)
        omega
      · have := h (clock / 65536 + 1).toNat (by omega) (by omega)
        omega
    · intro h j hj hj'
      omega
  rw [mem_turnSlots, htimes]
  constructor
  · rintro ⟨-, -, h, hempty⟩
    exact ⟨h, fun k hk hk' => hempty k hk hk'⟩
  · rintro ⟨h, hempty⟩
    exact ⟨hs, by omega, h, hempty⟩

theorem expire_isSome (w : TimerWheel) (clock : Int) : (w.expire clock).isSome := by
  unfold expire
  split
  · rfl
  dsimp only
  split
  · rfl
  split
  · rfl
  · exact turn_isSome _ _ _

theorem expire_stops {res : Expired} (hw : w.expire clock = some (w', res)) :
    w.slotCursor ≤ w'.slotCursor ∧ (∀ k, k ∈ w.expireSlots clock ↔
      w.slotCursor < k ∧ k ≤ w'.slotCursor) ∧
      ∀ k, w.slotCursor < k → k ≤ w'.slotCursor → w'.slotArray k = [] := by
  have hstay : w'.slotCursor = w.slotCursor → w.expireSlots clock = [] →
      w.slotCursor ≤ w'.slotCursor ∧ (∀ k, k ∈ w.expireSlots clock ↔
        w.slotCursor < k ∧ k ≤ w'.slotCursor) ∧ ∀ k, w.slotCursor < k → k ≤ w'.slotCursor →
        w'.slotArray k = [] := by
    intro hcursor hslots
    rw [hslots, hcursor]
    exact ⟨le_rfl, fun k => ⟨fun h => absurd h List.not_mem_nil, fun h => by omega⟩,
      fun k hk hk' => by omega⟩
  unfold expire at hw
  split at hw
  · rename_i h0
    cases hw
    exact hstay rfl (if_pos (.inl h0))
  rename_i h0
  dsimp only at hw
  split at hw
  · rename_i hnear
    have hslots := congrArg (fun r => r.1.slotCursor) (Option.some.inj hw)
    simp only [(getNode_slots _ _).1] at hslots
    exact hstay hslots.symm (if_pos (.inr (.inl hnear)))
  rename_i hnear
  split at hw
  · rename_i htime
    cases hw
    exact hstay rfl (if_pos (.inr (.inr htime)))
  · rename_i htime
    obtain ⟨hle, hmem, hpassed, -⟩ := turn_stops hw
    have hslots : w.expireSlots clock = turnSlots w.slotArray clock 65536 w.slotCursor :=
      if_neg (by simp only [not_or]; exact ⟨h0, hnear, htime⟩)
    rw [hslots]
    exact ⟨hle, hmem, hpassed⟩

theorem reading_of_slot {k : Nat} (hk : k < 65536) (hclock : 0 ≤ clock) (hclock' : clock < 4294967296)
    (hin : timeBeforeEq (wrapInt (k * 65536)) clock = true)
    (hout : ¬ timeBeforeEq (wrapInt ((k + 1 : Nat) * 65536)) clock = true) :
    clock = k * 65536 + clock % 65536 := by
  rw [timeBeforeEq_slot] at hin hout
  omega

/-- The timers of the slot that the loop stops at are spread over the buckets and looked through.
None is lost, and if none is returned, none of them is due. -/
theorem unload_getNode {w₁ : TimerWheel} {res : Expired} {k : Nat} (h : Loaded w)
    (hcursor : w.nearlyCursor = 0)
    (hk : k < 65536) (hclock : 0 ≤ clock) (hclock' : clock < 4294967296)
    (hin : timeBeforeEq (wrapInt (k * 65536)) clock = true)
    (hw₁ : w₁ = { w with
      slotCursor := k
      slotArray := Function.update w.slotArray k []
      nearlyArray := spread (fun n => (n.expersTime.tmod 65536).toNat) w.nearlyArray (w.slotArray k)
      nearlyCount := w.nearlyCount + (w.slotArray k).length })
    (hres : w₁.getNodeFromNearlyArray
      (if timeBeforeEq (wrapInt ((k + 1 : Nat) * 65536)) clock then orMask clock else clock) =
        (w', res)) :
    Loaded w' ∧ Keeps w w' res ∧ ∀ t, res = .sleep t → ∀ n ∈ w.slotArray k, clock < n.expersTime := by
  obtain ⟨hloaded, hpending⟩ := unload_keeps h hcursor hk hw₁
  generalize hcur : (if timeBeforeEq (wrapInt ((k + 1 : Nat) * 65536)) clock then orMask clock
    else clock) = cur at hres
  have hspec := getNode_keeps hloaded cur (Int.toNat_of_nonneg (by omega : 0 ≤ cur % 65536))
  rw [hres] at hspec
  obtain ⟨hloaded', hkeeps, hlooked⟩ := hspec
  refine ⟨hloaded', (keeps_congr hpending).1 hkeeps, fun t ht n hn => ?_⟩
  have hbucket : ∀ n ∈ w.slotArray k, n ∈ w₁.nearlyArray (n.expersTime.tmod 65536).toNat :=
      fun n hn => by
    rw [hw₁]
    exact mem_spread.2 (.inr ⟨hn, rfl⟩)
  have hafter : ∀ n ∈ w.slotArray k, (cur % 65536).toNat < (n.expersTime.tmod 65536).toNat :=
      fun n hn => by
    by_contra hle
    have hmem := hbucket n hn
    rw [hlooked t ht _ (not_lt.1 hle)] at hmem
    cases hmem
  have hlast := (hloaded.near _ _ (hbucket n hn)).1
  have hlate := hafter n hn
  by_cases hpast : timeBeforeEq (wrapInt ((k + 1 : Nat) * 65536)) clock = true
  · -- the reading was clipped to the end of the slot, behind which there is no bucket
    rw [if_pos hpast] at hcur
    rw [← hcur, orMask] at hlate
    omega
  · rw [if_neg hpast] at hcur
    have hslot := reading_of_slot hk hclock hclock' hin hpast
    have hdue := (h.far k n hn).2
    rw [← hcur, Int.tmod_eq_emod_of_nonneg (by omega)] at hlate
    omega

/-- The loop loses no timer on its way to the slot it stops at, if that is not behind the end. -/
theorem turn_keeps {res : Expired} (h : Loaded w) (hcursor : w.nearlyCursor = 0)
    (hclock : 0 ≤ clock) (hclock' : clock < 4294967296)
    (hw : turn fuel w next clock = some (w', res)) (hend : w'.slotCursor < 65536) :
    Loaded w' ∧ Keeps w w' res ∧
      ∀ t, res = .sleep t → ∀ k, next < k → k ≤ w'.slotCursor →
      ∀ n ∈ w.slotArray k, clock < n.expersTime := by
  induction fuel generalizing w next with
  | zero => cases hw
  | succ fuel ih =>
    obtain ⟨c, hc⟩ : ∃ c, (if next + 1 = 65536 then { w with slotCursor := 0 } else w) =
        { w with slotCursor := c } := by
      split
      exacts [⟨0, rfl⟩, ⟨w.slotCursor, rfl⟩]
    simp only [turn, hc] at hw
    split at hw
    · rename_i htime
      split at hw
      · rename_i hempty
        obtain ⟨hloaded, hkeeps, hlate⟩ := ih (h.moved (next + 1)) hcursor hw
        refine ⟨hloaded, (keeps_congr rfl).1 hkeeps, fun t ht k hk hk' n hn => ?_⟩
        rcases Nat.eq_or_lt_of_le (Nat.succ_le_of_lt hk) with rfl | hk
        · rw [List.isEmpty_iff.1 hempty] at hn
          cases hn
        · exact hlate t ht k hk hk' n hn
      · rw [Option.some.injEq] at hw
        have hstop := (getNode_slots _ _).1.symm.trans (congrArg (·.1.slotCursor) hw)
        simp only at hstop
        obtain ⟨hloaded, hkeeps, hlate⟩ := unload_getNode h hcursor (by omega) hclock hclock'
          htime rfl hw
        refine ⟨hloaded, hkeeps, fun t ht k hk hk' n hn => ?_⟩
        rw [show k = next + 1 by omega] at hn
        exact hlate t ht n hn
    · cases hw
      refine ⟨h.moved _, rfl, fun t ht k hk hk' => ?_⟩
      simp only [Nat.add_sub_cancel] at hk'
      omega

theorem expire_keeps {res : Expired} (h : Loaded w) (hclock : 0 ≤ clock)
    (hclock' : clock < 4294967296) (hw : w.expire clock = some (w', res))
    (hend : w'.slotCursor < 65536) :
    Loaded w' ∧ Keeps w w' res ∧
      ∀ t, res = .sleep t → ∀ k, w.slotCursor < k → k ≤ w'.slotCursor →
      ∀ n ∈ w.slotArray k, clock < n.expersTime := by
  unfold expire at hw
  split at hw
  · cases hw
    exact ⟨h, rfl, fun t _ k hk hk' => by omega⟩
  dsimp only at hw
  split at hw
  · rw [Option.some.injEq] at hw
    have hspec := getNode_keeps h (if timeAfter clock (orMask (wrapInt (w.slotCursor * 65536)))
      then orMask (wrapInt (w.slotCursor * 65536)) else clock)
        (Int.toNat_of_nonneg (Int.emod_nonneg _ (by norm_num)))
    have hstop := (getNode_slots w (if timeAfter clock (orMask (wrapInt (w.slotCursor * 65536)))
      then orMask (wrapInt (w.slotCursor * 65536)) else clock)).1
    rw [hw] at hspec hstop
    exact ⟨hspec.1, hspec.2.1, fun t _ k hk hk' => by simp only at hstop; omega⟩
  rename_i hnear
  split at hw
  · cases hw
    exact ⟨h, rfl, fun t _ k hk hk' => by omega⟩
  · have hnil : (fun _ => []) = w.nearlyArray :=
      funext fun b => (h.near_empty (not_not.1 hnear) b).symm
    have hloaded : Loaded { w with nearlyArray := fun _ => [], nearlyCursor := 0 } := by
      refine ⟨fun b n hn => absurd hn List.not_mem_nil, h.far, ?_, ?_⟩
      · rw [hnil]
        exact h.nearCount
      · simp only [hnil]
        exact h.total
    have hspec := turn_keeps hloaded rfl hclock hclock' hw hend
    refine ⟨hspec.1, (keeps_congr ?_).1 hspec.2.1, hspec.2.2⟩
    simp only [hnil, pending]

theorem overruns_iff (hs : w.slotCursor < 65536) (hclock : 0 ≤ clock) (hclock' : clock < 4294967296) :
    w.Overruns clock ↔ 65536 ∈ w.expireSlots clock := by
  have hbehind : clock + 2147483648 < ((w.slotCursor + 1 : Nat) : Int) * 65536 →
      ¬ timeBeforeEq clock (orMask (wrapInt (w.slotCursor * 65536))) = true := by
    intro h
    have hwrap : wrapInt (w.slotCursor * 65536) = w.slotCursor * 65536 ∨
        wrapInt (w.slotCursor * 65536) = w.slotCursor * 65536 - 4294967296 := by
      rw [wrapInt, Int.bmod_def]
      split <;> omega
    rw [timeBeforeEq_iff_emod, orMask]
    omega
  unfold Overruns expireSlots
  rw [← end_mem_turnSlots hs hclock hclock']
  by_cases h0 : w.totalTimerCount = 0
  · simp [h0]
  by_cases hnear : w.nearlyCount = 0
  · by_cases htime : timeBeforeEq clock (orMask (wrapInt (w.slotCursor * 65536))) = true
    · rw [if_pos (.inr (.inr htime)), end_mem_turnSlots hs hclock hclock']
      exact ⟨fun h => absurd htime (hbehind h.2.2.1), fun h => absurd h List.not_mem_nil⟩
    · rw [if_neg (by simp [h0, hnear, htime]), and_iff_right h0, and_iff_right hnear]
  · simp [h0, hnear]

theorem addTimer_loaded (h : Loaded w) {dueTime : Int} {number : Nat} {thread : Option Nat}
    (hpos : 0 ≤ dueTime + clock) (hlap : dueTime + clock < 4294967296)
    (hw : w.addTimer dueTime clock number = some (w', thread)) : Loaded w' := by
  have hwrap : wrapInt ((dueTime + clock) / 65536) = (dueTime + clock) / 65536 :=
    wrapInt_of_fits (by omega) (by omega)
  simp only [addTimer, hwrap] at hw
  split at hw
  · cases hw
  split at hw
  · rename_i hcur
    cases hw
    have hmod := Int.tmod_lt_of_pos (dueTime + clock) (by norm_num : (0 : Int) < 65536)
    obtain ⟨bucket, hbucket⟩ : ∃ bucket,
        (if w.nearlyCursor > ((dueTime + clock).tmod 65536).toNat then w.nearlyCursor
        else ((dueTime + clock).tmod 65536).toNat) = bucket := ⟨_, rfl⟩
    rw [hbucket]
    refine (loaded_near h ⟨dueTime + clock, number⟩ ?_ ?_ rfl).1.woken
    · rw [← hbucket]
      split <;> omega
    · rw [← hbucket]
      split <;> omega
  · obtain ⟨k, hk⟩ : ∃ k, ((dueTime + clock) / 65536).toNat = k := ⟨_, rfl⟩
    rw [hk] at hw
    have hloaded := loaded_far h ⟨dueTime + clock, number⟩ (k := k) (by omega) (by simp only; omega)
      rfl
    split at hw
    · cases hw
      exact hloaded.1.woken
    · cases hw
      exact hloaded.1

theorem slotCursor_addTimer {dueTime : Int} {number : Nat} {thread : Option Nat}
    (hw : w.addTimer dueTime clock number = some (w', thread)) : w'.slotCursor = w.slotCursor := by
  simp only [addTimer, wakeUp] at hw
  split at hw
  · cases hw
  split at hw
  · cases hw
    rfl
  · split at hw <;> (cases hw; rfl)

theorem addTimerSlots_iff (hs : w.slotCursor < 65536) {dueTime : Int} (h0 : 0 ≤ dueTime)
    (hdue : dueTime ≤ 0x0fffffff) (hclock : 0 ≤ clock) (hclock' : clock < 4294967296) :
    (∀ k ∈ w.addTimerSlots dueTime clock, 0 ≤ k ∧ k ≤ 65535) ↔ dueTime + clock < 4294967296 := by
  have hwrap : wrapInt ((dueTime + clock) / 65536) = (dueTime + clock) / 65536 :=
    wrapInt_of_fits (by omega) (by omega)
  unfold addTimerSlots
  rw [if_neg (not_lt.2 hdue), hwrap]
  dsimp only
  split
  · refine ⟨fun _ => by omega, fun _ k hk => absurd hk List.not_mem_nil⟩
  · rw [List.forall_mem_singleton]
    omega

end turn

end TimerWheel

/-! ### Any sequence of calls -/

/-- A wheel, the milliseconds since it was made and those at the last call of `expire`. -/
structure WrapCalls where
  wheel : TimerWheel
  elapsed : Nat
  lastExpire : Nat
  added : Nat

/-- A call and the milliseconds that have gone by when it is made. -/
inductive WrapCall
  | addTimer (dueTime elapsed : Nat)
  | expire (elapsed : Nat)

namespace WrapCalls
open TimerWheel

/-- `wl_clock`. -/
def wlClock (elapsed : Nat) : Int := (elapsed % 4294967296 : Nat)

/-- Time does not go back, and `expire` is called at least once in `2 ^ 31` ms. -/
def Allowed (s : WrapCalls) : WrapCall → Prop
  | .addTimer dueTime elapsed =>
    dueTime ≤ 0x0fffffff ∧ s.elapsed ≤ elapsed ∧ elapsed ≤ s.lastExpire + 2147483648
  | .expire elapsed => s.elapsed ≤ elapsed ∧ elapsed ≤ s.lastExpire + 2147483648

instance (s : WrapCalls) : (c : WrapCall) → Decidable (s.Allowed c)
  | .addTimer _ _ | .expire _ => inferInstanceAs (Decidable (_ ∧ _))

def step (s : WrapCalls) (c : WrapCall) : Option WrapCalls :=
  if s.Allowed c then
    match c with
    | .addTimer dueTime elapsed => (s.wheel.addTimer dueTime (wlClock elapsed) s.added).map fun r =>
        { s with wheel := r.1, elapsed := elapsed, added := s.added + 1 }
    | .expire elapsed => (s.wheel.expire (wlClock elapsed)).map fun r =>
        { s with wheel := r.1, elapsed := elapsed, lastExpire := elapsed }
  else none

def start (threadNum : Nat) : WrapCalls := ⟨.new threadNum, 0, 0, 0⟩

def machine : Machine WrapCalls WrapCall where
  init s := ∃ threadNum, s = start threadNum
  step := step

/-- The call uses slots of the array only. `expire` comes to an end and loses no timer but the one
it returns; no slot that the wheel has passed has a timer any more, and if none is returned, no
timer of these slots was due. -/
def Safe (s : WrapCalls) (c : WrapCall) : Prop :=
  s.Allowed c → match c with
    | .addTimer dueTime elapsed =>
      ∀ k ∈ s.wheel.addTimerSlots dueTime (wlClock elapsed), 0 ≤ k ∧ k ≤ 65535
    | .expire elapsed => ∃ w' res, s.wheel.expire (wlClock elapsed) = some (w', res) ∧
        (∀ k ∈ s.wheel.expireSlots (wlClock elapsed), k ≤ 65535) ∧ Keeps s.wheel w' res ∧
        ∀ k, Passed s.wheel w' k → w'.slotArray k = [] ∧
          ∀ t, res = .sleep t → ∀ n ∈ s.wheel.slotArray k, wlClock elapsed < n.expersTime

/-- The call has nothing to do with the wrap: no timer is due behind it, and the loop does not go
over the end. -/
def InLap (s : WrapCalls) (c : WrapCall) : Prop :=
  s.Allowed c → match c with
    | .addTimer dueTime elapsed => dueTime + wlClock elapsed < 4294967296
    | .expire elapsed => ¬ s.wheel.Overruns (wlClock elapsed)

variable {s s' : WrapCalls} {c : WrapCall}

theorem wlClock_lt (elapsed : Nat) : 0 ≤ wlClock elapsed ∧ wlClock elapsed < 4294967296 := by
  unfold wlClock
  omega

theorem expire_lt_iff (hs : s.wheel.slotCursor < 65536) {elapsed : Nat} {w' : TimerWheel}
    {res : Expired} (hw : s.wheel.expire (wlClock elapsed) = some (w', res)) :
    ¬ s.wheel.Overruns (wlClock elapsed) ↔ w'.slotCursor < 65536 := by
  rw [overruns_iff hs (wlClock_lt elapsed).1 (wlClock_lt elapsed).2, (expire_stops hw).2.1]
  omega

theorem safe_iff (hs : s.wheel.slotCursor < 65536) (hl : Loaded s.wheel) : s.Safe c ↔ s.InLap c := by
  refine imp_congr_right fun hallowed => ?_
  cases c with
  | addTimer dueTime elapsed =>
    have hdue : dueTime ≤ 0x0fffffff := hallowed.1
    exact addTimerSlots_iff hs (by omega) (by omega) (wlClock_lt elapsed).1 (wlClock_lt elapsed).2
  | expire elapsed =>
    obtain ⟨⟨w', res⟩, hw⟩ := Option.isSome_iff_exists.1 (expire_isSome s.wheel (wlClock elapsed))
    obtain ⟨hle, hmem, hpassed⟩ := expire_stops hw
    show (∃ _ _, _) ↔ ¬ s.wheel.Overruns (wlClock elapsed)
    rw [expire_lt_iff hs hw]
    constructor
    · rintro ⟨w₁, res₁, hw₁, hslots, -⟩
      rw [hw] at hw₁
      cases hw₁
      by_contra hend
      have := hslots 65536 ((hmem 65536).2 ⟨hs, not_lt.1 hend⟩)
      omega
    · intro hend
      obtain ⟨-, hkeeps, hlate⟩ := expire_keeps hl (wlClock_lt elapsed).1 (wlClock_lt elapsed).2 hw hend
      refine ⟨w', res, hw, fun k hk => ?_, hkeeps, fun k hk => ?_⟩
      · have := (hmem k).1 hk
        omega
      · have hbetween := hk.2
        rw [if_pos hle] at hbetween
        exact ⟨hpassed k hbetween.1 hbetween.2, fun t ht => hlate t ht k hbetween.1 hbetween.2⟩

theorem loaded_of_step (hs : s.wheel.slotCursor < 65536) (hl : Loaded s.wheel) (hc : s.InLap c)
    (hstep : s.step c = some s') : s'.wheel.slotCursor < 65536 ∧ Loaded s'.wheel := by
  unfold WrapCalls.step at hstep
  split at hstep
  · rename_i hallowed
    cases c with
    | addTimer dueTime elapsed =>
      obtain ⟨⟨w', thread⟩, hw, rfl⟩ := Option.map_eq_some_iff.1 hstep
      have hclock := (wlClock_lt elapsed).1
      exact ⟨(slotCursor_addTimer hw).trans_lt hs, addTimer_loaded hl (by omega) (hc hallowed) hw⟩
    | expire elapsed =>
      obtain ⟨⟨w', res⟩, hw, rfl⟩ := Option.map_eq_some_iff.1 hstep
      have hend := (expire_lt_iff hs hw).1 (hc hallowed)
      exact ⟨hend, (expire_keeps hl (wlClock_lt elapsed).1 (wlClock_lt elapsed).2 hw hend).1⟩
  · cases hstep

/-- A run is safe to the end just when none of its calls has to do with the wrap. -/
theorem along_safe_iff (threadNum : Nat) (cs : List WrapCall) :
    machine.Along Safe (start threadNum) cs ↔ machine.Along InLap (start threadNum) cs :=
  Machine.along_congr_of (I := fun s => s.wheel.slotCursor < 65536 ∧ Loaded s.wheel)
    (fun _ _ _ hs hc hstep => loaded_of_step hs.1 hs.2 hc hstep) (fun _ _ hs => safe_iff hs.1 hs.2)
    ⟨Nat.zero_lt_succ _, (new_ok threadNum).loaded⟩

/-- A timer of 1 ms, one millisecond before the clock wraps. -/
theorem exists_slot_65536 : ¬ ∀ threadNum cs, machine.Along Safe (start threadNum) cs := by
  intro h
  have hrun := h 1 [.expire 2147483648, .expire 4294967295, .addTimer 1 4294967295]
  have hsafe := (((hrun.2 _ rfl).2 _ rfl).1 (by decide)) 65536 (by decide)
  exact absurd hsafe.2 (by decide)

end WrapCalls

end Resend.Udp

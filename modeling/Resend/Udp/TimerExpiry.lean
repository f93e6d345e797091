import Resend.Udp.TimerWheel

/-!
# Every timer expires once, and in time

The invariant `Ok` ties each timer to its bucket: a near timer lies in the bucket of its time or, if
that was passed when it was added, in the next one; a far timer lies in its slot, which is still to
come; and no bucket before `_current_nearly_array_cursor` holds anything. `expire` may skip any
number of empty slots, clip its reading to the end of a slot that still has timers, or find nothing;
in each case what it says about the timers left follows from the invariant.
-/

namespace Resend.Udp
namespace TimerWheel
open Buckets

/-- All timers that have not been returned. -/
def pending (w : TimerWheel) : Multiset TimerNode :=
  content 65536 w.nearlyArray + content 65536 w.slotArray

/-- The first reading of the current slot. -/
def slotBase (w : TimerWheel) : Int := w.slotCursor * 65536

structure Ok (w : TimerWheel) (now : Int) : Prop where
  nowLt : now < 2147483648
  slotLe : w.slotBase ≤ now
  cursorLt : w.nearlyCursor < 65536
  cursorLe : w.slotBase + w.nearlyCursor ≤ now + 1
  near : ∀ b n, n ∈ w.nearlyArray b → b < 65536 ∧ w.nearlyCursor ≤ b ∧ w.slotBase ≤ n.expersTime ∧
    n.expersTime ≤ w.slotBase + b ∧ w.slotBase + b ≤ n.expersTime + 1
  far : ∀ k n, n ∈ w.slotArray k → w.slotCursor < k ∧ (k : Int) * 65536 ≤ n.expersTime ∧
    n.expersTime < k * 65536 + 65536 ∧ n.expersTime < 2147483648
  nearCount : w.nearlyCount = (content 65536 w.nearlyArray).card
  total : w.totalTimerCount = w.pending.card

/-- The counts are right, the buckets before the cursor are empty, and a timer that waits in a
slot is due in it; nothing is said of the clock. -/
structure Loaded (w : TimerWheel) : Prop where
  near : ∀ b n, n ∈ w.nearlyArray b → b < 65536 ∧ w.nearlyCursor ≤ b
  far : ∀ k n, n ∈ w.slotArray k → k < 65536 ∧ n.expersTime / 65536 = k
  nearCount : w.nearlyCount = (content 65536 w.nearlyArray).card
  total : w.totalTimerCount = w.pending.card

/-- The timer that is returned is pending no more, and all others are. -/
def Keeps (w w' : TimerWheel) : Expired → Prop
  | .node n => w.pending = n ::ₘ w'.pending
  | .sleep _ => w'.pending = w.pending

/-- No timer's bucket comes before reading `t`. -/
structure NotBefore (w : TimerWheel) (t : Int) : Prop where
  near : ∀ b n, n ∈ w.nearlyArray b → t ≤ w.slotBase + b
  far : ∀ k n, n ∈ w.slotArray k → t ≤ n.expersTime

/-- What `expire` may answer at reading `clock`: a timer that is due and no longer pending, or a
time to sleep; then nothing is overdue, nothing is to be returned before the time is up, and the
time ends with the slot. -/
def Answers (w : TimerWheel) (clock : Int) (w' : TimerWheel) : Expired → Prop
  | .node n => w.pending = n ::ₘ w'.pending ∧ n.expersTime ≤ clock
  | .sleep t => w'.pending = w.pending ∧ (∀ n ∈ w.pending, clock ≤ n.expersTime) ∧
    (t = infinite ∧ w.pending = 0 ∨ 0 < t ∧ clock + t ≤ w'.slotBase + 65536 ∧ w'.NotBefore (clock + t))

variable {w w' : TimerWheel} {now clock : Int}

theorem answers_congr {w₁ : TimerWheel} (h : w₁.pending = w.pending) {res : Expired} :
    Answers w₁ clock w' res ↔ Answers w clock w' res := by
  cases res <;> simp only [Answers, h]

theorem keeps_congr {w₁ : TimerWheel} (h : w₁.pending = w.pending) {res : Expired} :
    Keeps w₁ w' res ↔ Keeps w w' res := by
  cases res <;> simp only [Keeps, h]

theorem Loaded.moved (h : Loaded w) (k : Nat) : Loaded { w with slotCursor := k } :=
  ⟨h.near, h.far, h.nearCount, h.total⟩

theorem Loaded.woken (h : Loaded w) : Loaded w.wakeUp.1 := ⟨h.near, h.far, h.nearCount, h.total⟩

theorem Loaded.near_empty (h : Loaded w) (h0 : w.nearlyCount = 0) (b : Nat) :
    w.nearlyArray b = [] := by
  have hzero : content 65536 w.nearlyArray = 0 := by
    rw [← Multiset.card_eq_zero]
    have := h.nearCount
    omega
  refine List.eq_nil_iff_forall_not_mem.2 fun n hn => ?_
  have hb := (h.near b n hn).1
  rw [content_eq_zero.1 hzero b hb] at hn
  cases hn

namespace Ok

theorem later (h : Ok w now) (hle : now ≤ clock) (hlt : clock < 2147483648) : Ok w clock :=
  ⟨hlt, by have := h.slotLe; omega, h.cursorLt, by have := h.cursorLe; omega, h.near,
    h.far, h.nearCount, h.total⟩

theorem slot_lt (h : Ok w now) : w.slotCursor < 32768 := by
  have h1 := h.slotLe
  have h2 := h.nowLt
  simp only [slotBase] at h1
  omega

theorem far_lt (h : Ok w now) {k : Nat} {n : TimerNode} (hn : n ∈ w.slotArray k) : k < 32768 := by
  obtain ⟨-, h1, -, h2⟩ := h.far k n hn
  omega

theorem mem_pending (h : Ok w now) {n : TimerNode} :
    n ∈ w.pending ↔ (∃ b, n ∈ w.nearlyArray b) ∨ ∃ k, n ∈ w.slotArray k := by
  rw [pending, Multiset.mem_add, mem_content, mem_content]
  constructor
  · rintro (⟨b, -, hn⟩ | ⟨k, -, hn⟩)
    exacts [.inl ⟨b, hn⟩, .inr ⟨k, hn⟩]
  · rintro (⟨b, hn⟩ | ⟨k, hn⟩)
    · exact .inl ⟨b, (h.near b n hn).1, hn⟩
    · exact .inr ⟨k, by have := h.far_lt hn; omega, hn⟩

theorem loaded (h : Ok w now) : Loaded w := by
  refine ⟨fun b n hn => ⟨(h.near b n hn).1, (h.near b n hn).2.1⟩,
    fun k n hn => ?_, h.nearCount, h.total⟩
  obtain ⟨-, h1, h2, h3⟩ := h.far k n hn
  omega

theorem near_empty (h : Ok w now) (h0 : w.nearlyCount = 0) (b : Nat) : w.nearlyArray b = [] :=
  h.loaded.near_empty h0 b

end Ok

theorem new_ok (threadNum : Nat) : Ok (new threadNum) 0 := by
  refine ⟨by omega, by simp [new, slotBase], by simp [new], by simp [new, slotBase],
    by simp [new], by simp [new], ?_, ?_⟩
  · simp [new, content]
  · simp [new, pending, content]

/-! ### Looking into the buckets -/

theorem getNode_cases (hnear : ∀ b n, n ∈ w.nearlyArray b → b < 65536 ∧ w.nearlyCursor ≤ b)
    (curTime : Int)
    {index : Nat} (hindex : (index : Int) = curTime % 65536) :
    (∃ b n rest, b ≤ index ∧ w.nearlyArray b = n :: rest ∧
      w.getNodeFromNearlyArray curTime = ({ w with
        nearlyCursor := b, totalTimerCount := w.totalTimerCount - 1, nearlyCount := w.nearlyCount - 1,
        nearlyArray := Function.update w.nearlyArray b rest }, .node n) ∧
          ∀ i < b, w.nearlyArray i = []) ∨
    (∃ t : Nat, w.getNodeFromNearlyArray curTime =
        ({ w with nearlyCursor := max w.nearlyCursor (index + 1) }, .sleep (t - curTime % 65536)) ∧
      index < t ∧ t ≤ 65536 ∧ (∀ i < t, w.nearlyArray i = []) ∧
        (t < 65536 → w.nearlyArray t ≠ [])) := by
  have hlow : ∀ i < w.nearlyCursor, w.nearlyArray i = [] := by
    intro i hi
    refine List.eq_nil_iff_forall_not_mem.2 fun n hn => ?_
    have := (hnear i n hn).2
    omega
  have hindex' : (curTime % 65536).toNat = index := by omega
  obtain ⟨h1, h2, h3⟩ := firstFrom_spec w.nearlyArray w.nearlyCursor (index + 1 - w.nearlyCursor)
  obtain ⟨c, hfirst⟩ : ∃ c, firstFrom w.nearlyArray w.nearlyCursor (index + 1 - w.nearlyCursor) =
      c := ⟨_, rfl⟩
  rw [hfirst] at h1 h2 h3
  rcases h3 with ⟨hlt, hne⟩ | heq
  · obtain ⟨n, rest, hc⟩ := List.exists_cons_of_ne_nil hne
    have hle : c ≤ index := by omega
    refine .inl ⟨c, n, rest, hle, hc,
      by simp only [getNodeFromNearlyArray, hindex', hfirst, if_pos hle, hc], fun i hi => ?_⟩
    by_cases hi' : i < w.nearlyCursor
    · exact hlow i hi'
    · exact h2 i (by omega) hi
  · have hgt : ¬ c ≤ index := by omega
    have hmax : max w.nearlyCursor (index + 1) = c := by omega
    have hempty : ∀ i < c, w.nearlyArray i = [] := by
      intro i hi
      by_cases hi' : i < w.nearlyCursor
      · exact hlow i hi'
      · exact h2 i (by omega) hi
    obtain ⟨g1, g2, g3⟩ := firstFrom_spec w.nearlyArray index (65536 - index)
    have hlt : index < 65536 := by omega
    have hfull : ∀ i < firstFrom w.nearlyArray index (65536 - index), w.nearlyArray i = [] := by
      intro i hi
      by_cases hi' : i < index
      · exact hempty i (by omega)
      · exact g2 i (by omega) hi
    refine .inr ⟨firstFrom w.nearlyArray index (65536 - index),
      by simp only [getNodeFromNearlyArray, hindex', hfirst, if_neg hgt, hmax], ?_,
      by omega, hfull, fun ht => ?_⟩
    · by_contra hle
      have hsame : firstFrom w.nearlyArray index (65536 - index) = index := by omega
      rw [hsame] at g3
      rcases g3 with ⟨-, g3⟩ | g3
      · exact g3 (hempty index (by omega))
      · omega
    · rcases g3 with ⟨-, g3⟩ | g3
      · exact g3
      · omega

/-- Whatever the reading, no timer is lost, and none is left in a bucket that has been looked at. -/
theorem getNode_keeps (h : Loaded w) (curTime : Int) {index : Nat}
    (hindex : (index : Int) = curTime % 65536) :
    Loaded (w.getNodeFromNearlyArray curTime).1 ∧
      Keeps w (w.getNodeFromNearlyArray curTime).1 (w.getNodeFromNearlyArray curTime).2 ∧
      ∀ t, (w.getNodeFromNearlyArray curTime).2 = .sleep t → ∀ i ≤ index, w.nearlyArray i = [] := by
  rcases getNode_cases h.near curTime hindex with
    ⟨b, n, rest, hb, hbn, heq, hlow⟩ | ⟨t, heq, ht, ht', hempty, -⟩
  · rw [heq]
    have hcontent := content_tail (h.near b n (hbn ▸ List.mem_cons_self)).1 hbn
    have hpending : w.pending = n ::ₘ TimerWheel.pending { w with
        nearlyCursor := b, totalTimerCount := w.totalTimerCount - 1, nearlyCount := w.nearlyCount - 1,
        nearlyArray := Function.update w.nearlyArray b rest } := by
      rw [pending, pending, hcontent, Multiset.cons_add]
    refine ⟨⟨fun i x hx => ?_, h.far, ?_, ?_⟩, hpending, fun t ht => by cases ht⟩
    · have hx' : x ∈ w.nearlyArray i := by
        by_cases hi : i = b
        · subst hi
          simp only [Function.update_self] at hx
          rw [hbn]
          exact List.mem_cons_of_mem _ hx
        · simpa only [Function.update_of_ne hi] using hx
      refine ⟨(h.near i x hx').1, not_lt.1 fun hlt => ?_⟩
      rw [hlow i hlt] at hx'
      cases hx'
    · have hc := h.nearCount
      rw [hcontent, Multiset.card_cons] at hc
      change w.nearlyCount - 1 = ((content 65536 (Function.update w.nearlyArray b rest)).card : Int)
      push_cast at hc
      omega
    · have hc := h.total
      rw [hpending, Multiset.card_cons] at hc
      push_cast at hc
      exact sub_eq_of_eq_add hc
  · rw [heq]
    have hpending : TimerWheel.pending { w with nearlyCursor := max w.nearlyCursor (index + 1) } =
        w.pending := by
      rw [pending, pending]
    refine ⟨⟨fun i x hx => ?_, h.far, h.nearCount, h.total.trans (by rw [hpending])⟩, hpending,
      fun _ _ i hi => hempty i (by omega)⟩
    have hge : t ≤ i := not_lt.1 fun hlt => by
      simp only [hempty i hlt, List.not_mem_nil] at hx
    exact ⟨(h.near i x hx).1, Nat.max_le.2 ⟨(h.near i x hx).2, by omega⟩⟩

/-- `get_node_from_nearly_array` at a reading in the current slot, or at its end when the clock is
past it. -/
theorem getNode_spec (h : Ok w clock) (hcount : w.nearlyCount ≠ 0) (curTime : Int) {index : Nat}
    (hindex : (index : Int) = curTime % 65536) (hcur : w.slotBase + index ≤ clock)
    (hclip : w.slotBase + index = clock ∨ index = 65535) :
    Ok (w.getNodeFromNearlyArray curTime).1 clock ∧
      Answers w clock (w.getNodeFromNearlyArray curTime).1 (w.getNodeFromNearlyArray curTime).2 := by
  obtain ⟨hloaded, hkeeps, -⟩ := getNode_keeps h.loaded curTime hindex
  rcases getNode_cases h.loaded.near curTime hindex with
    ⟨b, n, rest, hb, hbn, heq, -⟩ | ⟨t, heq, ht, ht', hempty, hnext⟩
  · rw [heq] at hloaded hkeeps ⊢
    have hn : n ∈ w.nearlyArray b := hbn ▸ List.mem_cons_self
    obtain ⟨hb', -, -, htime, -⟩ := h.near b n hn
    have hsub : ∀ i x, x ∈ Function.update w.nearlyArray b rest i → x ∈ w.nearlyArray i := by
      intro i x hx
      by_cases hi : i = b
      · subst hi
        rw [Function.update_self] at hx
        rw [hbn]
        exact List.mem_cons_of_mem _ hx
      · rwa [Function.update_of_ne hi] at hx
    refine ⟨⟨h.nowLt, h.slotLe, hb', ?_, fun i x hx => ?_, h.far, hloaded.nearCount, hloaded.total⟩,
      hkeeps, by omega⟩
    · change w.slotBase + (b : Int) ≤ clock + 1
      omega
    · exact ⟨(hloaded.near i x hx).1, (hloaded.near i x hx).2, (h.near i x (hsub i x hx)).2.2⟩
  · rw [heq] at hloaded hkeeps ⊢
    -- if the reading was clipped, every bucket has been looked at
    have hlt : t < 65536 := by
      by_contra hge
      have hzero : content 65536 w.nearlyArray = 0 := content_eq_zero.2 fun i hi => hempty i (by omega)
      have hc := h.nearCount
      rw [hzero, Multiset.card_zero] at hc
      exact hcount hc
    have hnow : w.slotBase + index = clock := by
      rcases hclip with hclip | hclip
      · exact hclip
      · omega
    have hnear' : ∀ i x, x ∈ w.nearlyArray i → t ≤ i := by
      intro i x hx
      by_contra hi
      rw [hempty i (by omega)] at hx
      cases hx
    have hover : ∀ n ∈ w.pending, clock ≤ n.expersTime := by
      intro n hn
      rcases h.mem_pending.1 hn with ⟨b, hb⟩ | ⟨k, hk⟩
      · have := hnear' b n hb
        obtain ⟨-, -, -, -, g⟩ := h.near b n hb
        omega
      · obtain ⟨g1, g2, -, -⟩ := h.far k n hk
        simp only [slotBase] at hnow
        omega
    refine ⟨⟨h.nowLt, h.slotLe, ?_, ?_, fun i x hx => ?_, h.far, hloaded.nearCount, hloaded.total⟩,
      hkeeps, hover, .inr ⟨by omega, ?_, ?_⟩⟩
    · have := h.cursorLt
      change max w.nearlyCursor (index + 1) < 65536
      omega
    · have := h.cursorLe
      change w.slotBase + ((max w.nearlyCursor (index + 1) : Nat) : Int) ≤ clock + 1
      omega
    · exact ⟨(hloaded.near i x hx).1, (hloaded.near i x hx).2, (h.near i x hx).2.2⟩
    · change clock + (t - curTime % 65536) ≤ w.slotBase + 65536
      omega
    · refine ⟨fun b n hb => ?_, fun k n hk => ?_⟩
      · have := hnear' b n hb
        change clock + (t - curTime % 65536) ≤ w.slotBase + (b : Int)
        omega
      · obtain ⟨g1, g2, -, -⟩ := h.far k n hk
        simp only [slotBase] at hnow
        omega

/-! ### `add_timer` -/

/-- The turn of the threads after `add_timer`. The next one is woken unless an earlier timer is
pending and the new one lies in a later slot. -/
def Wakes (w w' : TimerWheel) (xtime : Int) : Option Nat → Prop
  | some i => i = w.waitUpThreadCursor ∧
    w'.waitUpThreadCursor = (if i + 1 ≥ w.threadCount then 0 else i + 1) ∧
    (xtime / 65536 = w.slotCursor ∨ w.totalTimerCount = 0)
  | none => w'.waitUpThreadCursor = w.waitUpThreadCursor ∧ w.totalTimerCount ≠ 0 ∧
    w.slotBase + 65536 ≤ xtime

theorem addTimer_wakes {dueTime : Int} {number : Nat} {thread : Option Nat} (h : Ok w clock)
    (h0 : 0 ≤ dueTime) (hfits : dueTime + clock < 2147483648)
    (hw : w.addTimer dueTime clock number = some (w', thread)) :
    Wakes w w' (dueTime + clock) thread ∧ w'.threadCount = w.threadCount ∧
      w'.slotBase = w.slotBase := by
  have hslot := h.slotLe
  have hwrap : wrapInt ((dueTime + clock) / 65536) = (dueTime + clock) / 65536 :=
    wrapInt_of_fits (by simp only [slotBase] at hslot; omega) (by omega)
  simp only [addTimer, hwrap, h.cursorLt, and_true] at hw
  split at hw
  · cases hw
  split at hw
  · rename_i hnear
    cases hw
    exact ⟨⟨rfl, rfl, .inl hnear⟩, rfl, rfl⟩
  · rename_i hfar
    split at hw
    · rename_i hcount
      cases hw
      exact ⟨⟨rfl, rfl, .inr (by omega)⟩, rfl, rfl⟩
    · rename_i hcount
      cases hw
      refine ⟨⟨rfl, fun hz => hcount (by rw [hz]; rfl), ?_⟩, rfl, rfl⟩
      simp only [slotBase] at hslot ⊢
      omega

theorem wakeUp_ok (h : Ok w now) : Ok w.wakeUp.1 now :=
  ⟨h.nowLt, h.slotLe, h.cursorLt, h.cursorLe, h.near, h.far, h.nearCount, h.total⟩

theorem loaded_near (h : Loaded w) (node : TimerNode) {bucket : Nat} (hb : bucket < 65536)
    (hcur : w.nearlyCursor ≤ bucket) {w' : TimerWheel} (hw : w' = { w with
      totalTimerCount := w.totalTimerCount + 1, nearlyCount := w.nearlyCount + 1,
      nearlyArray := Function.update w.nearlyArray bucket (node :: w.nearlyArray bucket) }) :
    Loaded w' ∧ w'.pending = node ::ₘ w.pending := by
  have hcontent := content_cons (a := w.nearlyArray) hb node
  have hpending : w'.pending = node ::ₘ w.pending := by
    rw [hw, pending, pending, hcontent, Multiset.cons_add]
  refine ⟨⟨fun i x hx => ?_, ?_, ?_, ?_⟩, hpending⟩
  · rw [hw] at hx ⊢
    by_cases hi : i = bucket
    · subst hi
      simp only [Function.update_self, List.mem_cons] at hx
      exact hx.elim (fun _ => ⟨hb, hcur⟩) (h.near i x)
    · simp only [Function.update_of_ne hi] at hx
      exact h.near i x hx
  · rw [hw]
    exact h.far
  · rw [hw]
    simp only [hcontent, Multiset.card_cons, h.nearCount, Nat.cast_add, Nat.cast_one]
  · rw [hpending, Multiset.card_cons, Nat.cast_add, Nat.cast_one, ← h.total, hw]

theorem loaded_far (h : Loaded w) (node : TimerNode) {k : Nat} (hk : k < 65536)
    (hdue : node.expersTime / 65536 = k) {w' : TimerWheel} (hw : w' = { w with
      totalTimerCount := w.totalTimerCount + 1
      slotArray := Function.update w.slotArray k (node :: w.slotArray k) }) :
    Loaded w' ∧ w'.pending = node ::ₘ w.pending := by
  have hpending : w'.pending = node ::ₘ w.pending := by
    rw [hw, pending, pending, content_cons hk, Multiset.add_cons]
  refine ⟨⟨?_, fun i x hx => ?_, ?_, ?_⟩, hpending⟩
  · rw [hw]
    exact h.near
  · rw [hw] at hx
    by_cases hi : i = k
    · subst hi
      simp only [Function.update_self, List.mem_cons] at hx
      rcases hx with rfl | hx
      · exact ⟨hk, hdue⟩
      · exact h.far i x hx
    · simp only [Function.update_of_ne hi] at hx
      exact h.far i x hx
  · rw [hw]
    exact h.nearCount
  · rw [hpending, Multiset.card_cons, Nat.cast_add, Nat.cast_one, ← h.total, hw]

theorem addTimer_near (h : Ok w now) (node : TimerNode) {bucket : Nat} (hb : bucket < 65536)
    (hcur : w.nearlyCursor ≤ bucket) (hlo : w.slotBase ≤ node.expersTime)
    (hhi : node.expersTime ≤ w.slotBase + bucket)
    (hhi' : w.slotBase + bucket ≤ node.expersTime + 1) {w' : TimerWheel} (hw : w' = { w with
      totalTimerCount := w.totalTimerCount + 1, nearlyCount := w.nearlyCount + 1,
      nearlyArray := Function.update w.nearlyArray bucket (node :: w.nearlyArray bucket) }) :
    Ok w' now ∧ w'.pending = node ::ₘ w.pending := by
  obtain ⟨hloaded, hpending⟩ := loaded_near h.loaded node hb hcur hw
  subst hw
  refine ⟨⟨h.nowLt, h.slotLe, h.cursorLt, h.cursorLe, fun i x hx => ?_, h.far,
    hloaded.nearCount, hloaded.total⟩, hpending⟩
  by_cases hi : i = bucket
  · subst hi
    simp only [Function.update_self, List.mem_cons] at hx
    rcases hx with rfl | hx
    · exact ⟨hb, hcur, hlo, hhi, hhi'⟩
    · exact h.near i x hx
  · simp only [Function.update_of_ne hi] at hx
    exact h.near i x hx

theorem addTimer_far (h : Ok w now) (node : TimerNode) {k : Nat} (hk : w.slotCursor < k)
    (hlo : (k : Int) * 65536 ≤ node.expersTime)
    (hhi : node.expersTime < k * 65536 + 65536) (hlt : node.expersTime < 2147483648)
    {w' : TimerWheel} (hw : w' = { w with
      totalTimerCount := w.totalTimerCount + 1
      slotArray := Function.update w.slotArray k (node :: w.slotArray k) }) :
    Ok w' now ∧ w'.pending = node ::ₘ w.pending := by
  obtain ⟨hloaded, hpending⟩ := loaded_far h.loaded node (by omega) (by omega) hw
  subst hw
  refine ⟨⟨h.nowLt, h.slotLe, h.cursorLt, h.cursorLe, h.near, fun i x hx => ?_,
    hloaded.nearCount, hloaded.total⟩, hpending⟩
  by_cases hi : i = k
  · subst hi
    simp only [Function.update_self, List.mem_cons] at hx
    rcases hx with rfl | hx
    · exact ⟨hk, hlo, hhi, hlt⟩
    · exact h.far i x hx
  · simp only [Function.update_of_ne hi] at hx
    exact h.far i x hx

theorem addTimer_spec (h : Ok w clock) {dueTime : Int} (h0 : 0 ≤ dueTime) (hdue : dueTime ≤ 0x0fffffff)
    (hfits : dueTime + clock < 2147483648) (number : Nat) :
    ∃ w' thread, w.addTimer dueTime clock number = some (w', thread) ∧ Ok w' clock ∧
      w'.pending = ⟨dueTime + clock, number⟩ ::ₘ w.pending := by
  have hslot := h.slotLe
  have hcur := h.cursorLt
  have hle := h.cursorLe
  have hwrap : wrapInt ((dueTime + clock) / 65536) = (dueTime + clock) / 65536 :=
    wrapInt_of_fits (by simp only [slotBase] at hslot; omega) (by omega)
  have hnonneg : 0 ≤ clock := by simp only [slotBase] at hslot; omega
  rw [addTimer, if_neg (by omega)]
  by_cases hnear : (dueTime + clock) / 65536 = w.slotCursor
  · -- the cursor is at most one past the clock, so a clipped timer moves by at most one bucket
    have hmod : (dueTime + clock).tmod 65536 = (dueTime + clock) % 65536 :=
      Int.tmod_eq_emod_of_nonneg (by omega)
    have hbase : w.slotBase + (dueTime + clock) % 65536 = dueTime + clock := by
      simp only [slotBase]; omega
    have hin := hwrap.trans hnear
    simp only [hin, hcur, hmod, and_self, if_true]
    obtain ⟨bucket, hbucket⟩ : ∃ b,
      (if w.nearlyCursor > ((dueTime + clock) % 65536).toNat then w.nearlyCursor
        else ((dueTime + clock) % 65536).toNat) = b := ⟨_, rfl⟩
    have hmax : max w.nearlyCursor ((dueTime + clock) % 65536).toNat = bucket := by
      rw [← hbucket]
      split <;> omega
    rw [hbucket]
    have hspec := addTimer_near h ⟨dueTime + clock, number⟩ (by omega : bucket < 65536) (by omega)
      (by simp only; omega) (by simp only; omega) (by simp only; omega) rfl
    exact ⟨_, _, rfl, wakeUp_ok hspec.1, hspec.2⟩
  · have hout : ¬ wrapInt ((dueTime + clock) / 65536) = w.slotCursor := by rwa [hwrap]
    simp only [hout, false_and, if_false]
    rw [hwrap]
    have hk : (((dueTime + clock) / 65536).toNat : Int) = (dueTime + clock) / 65536 :=
      Int.toNat_of_nonneg (by omega)
    have hspec := addTimer_far h ⟨dueTime + clock, number⟩ (k := ((dueTime + clock) / 65536).toNat)
      (by simp only [slotBase] at hslot; omega) (by simp only; omega) (by simp only; omega) hfits rfl
    split
    · exact ⟨_, _, rfl, wakeUp_ok hspec.1, hspec.2⟩
    · exact ⟨_, _, rfl, hspec.1, hspec.2⟩

/-! ### `expire` -/

theorem advance_ok (h : Ok w clock) (hcount : w.nearlyCount = 0) (hcursor : w.nearlyCursor = 0)
    (hle : ((w.slotCursor + 1 : Nat) : Int) * 65536 ≤ clock)
    (hempty : w.slotArray (w.slotCursor + 1) = []) :
    Ok { w with slotCursor := w.slotCursor + 1 } clock := by
  refine ⟨h.nowLt, hle, h.cursorLt, ?_, fun b n hn => ?_, fun k n hn => ?_, h.nearCount, h.total⟩
  · simp only [slotBase, hcursor]
    omega
  · rw [h.near_empty hcount b] at hn
    cases hn
  · obtain ⟨h1, h2⟩ := h.far k n hn
    refine ⟨lt_of_le_of_ne h1 ?_, h2⟩
    rintro rfl
    change n ∈ w.slotArray (w.slotCursor + 1) at hn
    rw [hempty] at hn
    cases hn

theorem unload_keeps (h : Loaded w) (hcursor : w.nearlyCursor = 0) {k : Nat}
    (hk : k < 65536) {w' : TimerWheel}
    (hw : w' = { w with
      slotCursor := k
      slotArray := Function.update w.slotArray k []
      nearlyArray := spread (fun n => (n.expersTime.tmod 65536).toNat) w.nearlyArray (w.slotArray k)
      nearlyCount := w.nearlyCount + (w.slotArray k).length }) :
    Loaded w' ∧ w'.pending = w.pending := by
  have hbucket : ∀ n : TimerNode, (n.expersTime.tmod 65536).toNat < 65536 := fun n => by
    have := Int.tmod_lt_of_pos n.expersTime (by norm_num : (0 : Int) < 65536)
    omega
  have hspread : content 65536 w'.nearlyArray =
      content 65536 w.nearlyArray + (w.slotArray k : Multiset TimerNode) := by
    rw [hw]
    exact content_spread fun n _ => hbucket n
  have hslots : content 65536 w'.slotArray + (w.slotArray k : Multiset TimerNode) =
      content 65536 w.slotArray := by
    have hupdate := content_update (a := w.slotArray) hk []
    rw [Multiset.coe_nil, add_zero] at hupdate
    rw [hw]
    exact hupdate
  have hpending : w'.pending = w.pending := by
    rw [pending, pending, hspread, ← hslots]
    abel
  refine ⟨⟨fun b n hn => ?_, fun i n hn => ?_, ?_, ?_⟩, hpending⟩
  · rw [hw] at hn
    rw [hw, hcursor]
    rcases mem_spread.1 hn with hn | ⟨-, rfl⟩
    · exact ⟨(h.near b n hn).1, Nat.zero_le b⟩
    · exact ⟨hbucket n, Nat.zero_le _⟩
  · rw [hw] at hn
    by_cases hi : i = k
    · subst hi
      simp only [Function.update_self, List.not_mem_nil] at hn
    · simp only [Function.update_of_ne hi] at hn
      exact h.far i n hn
  · rw [hspread, Multiset.card_add, Nat.cast_add, ← h.nearCount, Multiset.coe_card, hw]
  · rw [hpending, ← h.total, hw]

theorem unload_ok (h : Ok w clock) (hcount : w.nearlyCount = 0) (hcursor : w.nearlyCursor = 0)
    (hle : ((w.slotCursor + 1 : Nat) : Int) * 65536 ≤ clock) {w' : TimerWheel} (hw : w' = { w with
      slotCursor := w.slotCursor + 1
      slotArray := Function.update w.slotArray (w.slotCursor + 1) []
      nearlyArray := spread (fun n => (n.expersTime.tmod 65536).toNat) w.nearlyArray
        (w.slotArray (w.slotCursor + 1))
      nearlyCount := w.nearlyCount + (w.slotArray (w.slotCursor + 1)).length }) :
    Ok w' clock ∧ w'.pending = w.pending := by
  have hslot := h.slot_lt
  obtain ⟨hloaded, hpending⟩ := unload_keeps h.loaded hcursor (by omega) hw
  have htimes : ∀ n ∈ w.slotArray (w.slotCursor + 1), w'.slotBase ≤ n.expersTime ∧
    n.expersTime < w'.slotBase + 65536 ∧
      ((n.expersTime.tmod 65536).toNat : Int) = n.expersTime - w'.slotBase := by
    intro n hn
    obtain ⟨-, h1, h2, -⟩ := h.far _ n hn
    have hbase : w'.slotBase = ((w.slotCursor + 1 : Nat) : Int) * 65536 := by rw [hw, slotBase]
    rw [hbase, Int.tmod_eq_emod_of_nonneg (by omega)]
    omega
  have hnear : ∀ b n, n ∈ w'.nearlyArray b →
      n ∈ w.slotArray (w.slotCursor + 1) ∧ (n.expersTime.tmod 65536).toNat = b := by
    intro b n hn
    rw [hw] at hn
    rcases mem_spread.1 hn with hn | hn
    · rw [h.near_empty hcount b] at hn
      cases hn
    · exact hn
  refine ⟨⟨h.nowLt, ?_, ?_, ?_, fun b n hn => ?_, fun k n hn => ?_, hloaded.nearCount,
    hloaded.total⟩, hpending⟩
  · rw [hw]
    exact hle
  · rw [hw]
    exact h.cursorLt
  · rw [hw]
    simp only [slotBase, hcursor]
    omega
  · obtain ⟨hmem, hb⟩ := hnear b n hn
    obtain ⟨h1, h2, h3⟩ := htimes n hmem
    have hzero : w'.nearlyCursor = 0 := by rw [hw]; exact hcursor
    omega
  · rw [hw] at hn ⊢
    by_cases hk : k = w.slotCursor + 1
    · subst hk
      simp only [Function.update_self, List.not_mem_nil] at hn
    · simp only [Function.update_of_ne hk] at hn
      obtain ⟨h1, h2⟩ := h.far k n hn
      exact ⟨by simp only; omega, h2⟩

theorem turn_spec (fuel : Nat) (h : Ok w clock) (hcount : w.nearlyCount = 0)
    (hcursor : w.nearlyCursor = 0) (hfuel : 32768 ≤ w.slotCursor + fuel) :
    ∃ w' res, turn fuel w w.slotCursor clock = some (w', res) ∧ Ok w' clock ∧
      Answers w clock w' res := by
  induction fuel generalizing w with
  | zero =>
    have := h.slot_lt
    omega
  | succ fuel ih =>
    have hlt := h.slot_lt
    have hslot := h.slotLe
    have hnow := h.nowLt
    have hnonneg : 0 ≤ clock := by simp only [slotBase] at hslot; omega
    have hne : ¬ w.slotCursor + 1 = 65536 := by omega
    have hcmp := timeBeforeEq_slot_iff (k := w.slotCursor + 1) (by omega) hnonneg hnow
    simp only [turn, hne, if_false]
    by_cases hle : ((w.slotCursor + 1 : Nat) : Int) * 65536 ≤ clock
    · rw [if_pos (hcmp.2 hle)]
      by_cases hempty : w.slotArray (w.slotCursor + 1) = []
      · rw [if_pos (List.isEmpty_iff.2 hempty)]
        exact ih (advance_ok h hcount hcursor hle hempty) hcount hcursor (by simp only; omega)
      · rw [if_neg (by rwa [List.isEmpty_iff])]
        have hcmp' := timeBeforeEq_slot_iff (k := w.slotCursor + 1 + 1) (by omega) hnonneg hnow
        rw [Nat.cast_succ] at hcmp'
        obtain ⟨w₁, hw₁⟩ : ∃ w₁ : TimerWheel, w₁ = { w with
            slotCursor := w.slotCursor + 1
            slotArray := Function.update w.slotArray (w.slotCursor + 1) []
            nearlyArray := spread (fun n => (n.expersTime.tmod 65536).toNat) w.nearlyArray
              (w.slotArray (w.slotCursor + 1))
            nearlyCount := w.nearlyCount + (w.slotArray (w.slotCursor + 1)).length } := ⟨_, rfl⟩
        obtain ⟨hok, hpending⟩ := unload_ok h hcount hcursor hle hw₁
        have hbase : w₁.slotBase = ((w.slotCursor + 1 : Nat) : Int) * 65536 := by rw [hw₁, slotBase]
        have hcount₁ : w₁.nearlyCount ≠ 0 := by
          have := List.length_pos_of_ne_nil hempty
          rw [hw₁]
          simp only [hcount]
          omega
        obtain ⟨curTime, hcur⟩ : ∃ t, (if timeBeforeEq
          (wrapInt (((w.slotCursor + 1 : Nat) + 1) * 65536)) clock
            then orMask clock else clock) = t := ⟨_, rfl⟩
        -- the reading is clipped to the end of the slot if the clock is past it
        have hclip : w₁.slotBase + curTime % 65536 = clock ∨
            w₁.slotBase + curTime % 65536 ≤ clock ∧ curTime % 65536 = 65535 := by
          rw [← hcur, hbase]
          by_cases hpast : (((w.slotCursor + 1 : Nat) : Int) + 1) * 65536 ≤ clock
          · rw [if_pos (hcmp'.2 hpast), orMask]
            omega
          · rw [if_neg (mt hcmp'.1 hpast)]
            omega
        have hspec := getNode_spec hok hcount₁ curTime
          (Int.toNat_of_nonneg (by omega : 0 ≤ curTime % 65536)) (by omega) (by omega)
        rw [hcur, ← hw₁]
        exact ⟨_, _, rfl, hspec.1, (answers_congr hpending).1 hspec.2⟩
    · rw [if_neg (mt hcmp.1 hle)]
      refine ⟨_, _, rfl,
        ⟨h.nowLt, h.slotLe, h.cursorLt, h.cursorLe, h.near, h.far, h.nearCount, h.total⟩,
        by rw [pending, pending], fun n hn => ?_,
        .inr ⟨by omega, ?_, fun b n hn => ?_, fun k n hn => ?_⟩⟩
      · rcases h.mem_pending.1 hn with ⟨b, hb⟩ | ⟨k, hk⟩
        · rw [h.near_empty hcount b] at hb
          cases hb
        · obtain ⟨h1, h2, -⟩ := h.far k n hk
          omega
      · change clock + (65535 - clock % 65536 + 1) ≤ w.slotBase + 65536
        simp only [slotBase] at hslot ⊢
        omega
      · simp only [h.near_empty hcount b, List.not_mem_nil] at hn
      · obtain ⟨h1, h2, -⟩ := h.far k n hn
        simp only [slotBase] at hslot
        omega

/-- `expire` always answers, and keeps the invariant. -/
theorem expire_spec (h : Ok w clock) :
    ∃ w' res, w.expire clock = some (w', res) ∧ Ok w' clock ∧ Answers w clock w' res := by
  have hlt := h.slot_lt
  have hslot := h.slotLe
  have hnow := h.nowLt
  have hnonneg : 0 ≤ clock := by simp only [slotBase] at hslot; omega
  have hend : orMask (wrapInt (w.slotCursor * 65536)) = w.slotBase + 65535 := by
    rw [wrapInt_slot hlt, orMask, slotBase]
    omega
  have hend' : w.slotBase + 65535 < 2147483648 := by simp only [slotBase]; omega
  have hbase : 0 ≤ w.slotBase := by simp only [slotBase]; omega
  rw [expire]
  by_cases htotal : w.totalTimerCount = 0
  · have hzero : w.pending = 0 := by
      rw [← Multiset.card_eq_zero]
      have := h.total
      omega
    rw [if_pos htotal]
    refine ⟨_, _, rfl, h, rfl, fun n hn => ?_, .inl ⟨rfl, hzero⟩⟩
    rw [hzero] at hn
    exact absurd hn (Multiset.notMem_zero n)
  rw [if_neg htotal]
  simp only [hend]
  by_cases hcount : w.nearlyCount = 0
  · rw [if_neg (not_not.2 hcount)]
    have hcmp := timeBeforeEq_iff (a := clock) (b := w.slotBase + 65535) hnonneg hnow (by omega) hend'
    by_cases hin : clock ≤ w.slotBase + 65535
    · rw [if_pos (hcmp.2 hin)]
      refine ⟨_, _, rfl, h, rfl, fun n hn => ?_,
        .inr ⟨by omega, ?_, fun b n hn => ?_, fun k n hn => ?_⟩⟩
      · rcases h.mem_pending.1 hn with ⟨b, hb⟩ | ⟨k, hk⟩
        · rw [h.near_empty hcount b] at hb
          cases hb
        · obtain ⟨h1, h2, -⟩ := h.far k n hk
          simp only [slotBase] at hin
          omega
      · simp only [slotBase] at hin hslot ⊢
        omega
      · rw [h.near_empty hcount b] at hn
        cases hn
      · obtain ⟨h1, h2, -⟩ := h.far k n hn
        simp only [slotBase] at hin hslot
        omega
    · rw [if_neg (mt hcmp.1 hin)]
      have hnil : (fun _ => []) = w.nearlyArray := funext fun b => (h.near_empty hcount b).symm
      have hok : Ok { w with nearlyArray := fun _ => [], nearlyCursor := 0 } clock := by
        refine ⟨h.nowLt, h.slotLe, by simp only; omega, ?_, fun b n hn => ?_, h.far, ?_, ?_⟩
        · simp only [slotBase] at hslot ⊢
          omega
        · cases hn
        · rw [hnil]
          exact h.nearCount
        · simp only [hnil]
          exact h.total
      have hpending : TimerWheel.pending { w with nearlyArray := fun _ => [], nearlyCursor := 0 } =
          w.pending := by
        simp only [hnil, pending]
      obtain ⟨w', res, heq, hok', hans⟩ := turn_spec 65536 hok hcount rfl (by omega)
      exact ⟨w', res, heq, hok', (answers_congr hpending).1 hans⟩
  · rw [if_pos hcount]
    have hcmp := timeAfter_iff (a := clock) (b := w.slotBase + 65535) hnonneg hnow (by omega) hend'
    obtain ⟨curTime, hcur⟩ : ∃ t, (if timeAfter clock (w.slotBase + 65535) then w.slotBase + 65535
        else clock) = t :=
      ⟨_, rfl⟩
    have hclip : w.slotBase + curTime % 65536 = clock ∨
        w.slotBase + curTime % 65536 ≤ clock ∧ curTime % 65536 = 65535 := by
      rw [← hcur]
      by_cases hpast : w.slotBase + 65535 < clock
      · rw [if_pos (hcmp.2 hpast)]
        simp only [slotBase] at hpast ⊢
        omega
      · rw [if_neg (mt hcmp.1 hpast)]
        simp only [slotBase] at hpast hslot ⊢
        omega
    have hspec := getNode_spec h hcount curTime
      (Int.toNat_of_nonneg (by omega : 0 ≤ curTime % 65536)) (by omega) (by omega)
    rw [hcur]
    exact ⟨_, _, rfl, hspec.1, hspec.2⟩

/-- `expire` never turns back, and leaves the turn of the threads alone. -/
structure Turned (w w' : TimerWheel) : Prop where
  slot : w.slotCursor ≤ w'.slotCursor
  threads : w'.threadCount = w.threadCount
  turn : w'.waitUpThreadCursor = w.waitUpThreadCursor

theorem turned_getNode (w : TimerWheel) (curTime : Int) :
    Turned w (w.getNodeFromNearlyArray curTime).1 := by
  simp only [getNodeFromNearlyArray]
  split <;> exact ⟨le_rfl, rfl, rfl⟩

theorem turned_turn {res : Expired} (fuel next : Nat) (hnext : w.slotCursor ≤ next)
    (hw : turn fuel w next clock = some (w', res)) : Turned w w' := by
  induction fuel generalizing w next with
  | zero => cases hw
  | succ fuel ih =>
    obtain ⟨w₁, hw₁⟩ : ∃ w₁, (if next + 1 = 65536 then { w with slotCursor := 0 } else w) =
        w₁ := ⟨_, rfl⟩
    have hsame : w₁.threadCount = w.threadCount ∧ w₁.waitUpThreadCursor = w.waitUpThreadCursor := by
      rw [← hw₁]
      split <;> exact ⟨rfl, rfl⟩
    simp only [turn, hw₁] at hw
    split at hw
    · split at hw
      · have h := ih (next + 1) le_rfl hw
        exact ⟨by have := h.slot; simp only at this; omega,
          h.threads.trans hsame.1, h.turn.trans hsame.2⟩
      · rw [Option.some.injEq] at hw
        have h := turned_getNode { w₁ with
          slotCursor := next + 1
          slotArray := Function.update w₁.slotArray (next + 1) []
          nearlyArray := spread (fun n => (n.expersTime.tmod 65536).toNat) w₁.nearlyArray
            (w₁.slotArray (next + 1))
          nearlyCount := w₁.nearlyCount + (w₁.slotArray (next + 1)).length }
        have h := h (if timeBeforeEq (wrapInt (((next + 1 : Nat) + 1) * 65536)) clock then
          orMask clock else clock)
        rw [hw] at h
        exact ⟨by have := h.slot; simp only at this; omega,
          h.threads.trans hsame.1, h.turn.trans hsame.2⟩
    · cases hw
      exact ⟨by simp only [Nat.add_sub_cancel]; exact hnext, hsame.1, hsame.2⟩

theorem turned_expire {res : Expired} (hw : w.expire clock = some (w', res)) : Turned w w' := by
  simp only [expire] at hw
  split at hw
  · cases hw
    exact ⟨le_rfl, rfl, rfl⟩
  split at hw
  · rw [Option.some.injEq] at hw
    have h := turned_getNode w (if timeAfter clock (orMask (wrapInt (w.slotCursor * 65536)))
      then orMask (wrapInt (w.slotCursor * 65536)) else clock)
    rwa [hw] at h
  split at hw
  · cases hw
    exact ⟨le_rfl, rfl, rfl⟩
  · have h := turned_turn (w := { w with nearlyArray := fun _ => [], nearlyCursor := 0 })
      65536 w.slotCursor le_rfl hw
    exact ⟨h.slot, h.threads, h.turn⟩

end TimerWheel

/-! ### Any sequence of calls -/

/-- A wheel and its past: the last reading, the timers added and the timers returned. -/
structure WheelCalls where
  wheel : TimerWheel
  now : Int
  added : List TimerNode
  returned : List TimerNode

inductive WheelCall
  | addTimer (dueTime clock : Int)
  | expire (clock : Int)

namespace WheelCalls
open TimerWheel

/-- Readings do not decrease, and neither they nor the times added to them leave the range of an
`int`. -/
def step (s : WheelCalls) : WheelCall → Option WheelCalls
  | .addTimer dueTime clock =>
    if 0 ≤ dueTime ∧ dueTime ≤ 0x0fffffff ∧ s.now ≤ clock ∧ dueTime + clock < 2147483648 then
      (s.wheel.addTimer dueTime clock s.added.length).map fun r =>
        { s with wheel := r.1, now := clock, added := ⟨dueTime + clock, s.added.length⟩ :: s.added }
    else none
  | .expire clock =>
    if s.now ≤ clock ∧ clock < 2147483648 then
      (s.wheel.expire clock).map fun r =>
        match r.2 with
        | .node n => { s with wheel := r.1, now := clock, returned := n :: s.returned }
        | .sleep _ => { s with wheel := r.1, now := clock }
    else none

def machine : Machine WheelCalls WheelCall where
  init s := ∃ threadNum, s = ⟨.new threadNum, 0, [], []⟩
  step := step

/-- No timer is in two places, and none is missing. -/
structure Conserved (s : WheelCalls) : Prop where
  ok : Ok s.wheel s.now
  fresh : ∀ n ∈ s.added, n.number < s.added.length
  nodup : s.added.Nodup
  conserved : (s.returned : Multiset TimerNode) + s.wheel.pending = s.added

variable {s s' : WheelCalls}

theorem Conserved.addTimer (h : Conserved s) {dueTime clock : Int}
    (hs : step s (.addTimer dueTime clock) = some s') :
    Conserved s' := by
  simp only [step, Option.ite_none_right_eq_some] at hs
  obtain ⟨⟨h0, hdue, hle, hfits⟩, hs⟩ := hs
  obtain ⟨w', thread, heq, hok, hpending⟩ :=
    addTimer_spec (h.ok.later hle (by omega)) h0 hdue hfits s.added.length
  rw [heq, Option.map_some, Option.some.injEq] at hs
  subst hs
  refine ⟨hok, ?_, ?_, ?_⟩
  · rw [List.forall_mem_cons, List.length_cons]
    exact ⟨by simp only; omega, fun n hn => (h.fresh n hn).trans (by omega)⟩
  · rw [List.nodup_cons]
    exact ⟨fun hn => absurd (h.fresh _ hn) (lt_irrefl _), h.nodup⟩
  · simp only [hpending, Multiset.add_cons, h.conserved, Multiset.cons_coe]

theorem Conserved.expire (h : Conserved s) {clock : Int} (hs : step s (.expire clock) = some s') :
    Conserved s' := by
  simp only [step, Option.ite_none_right_eq_some] at hs
  obtain ⟨⟨hle, hlt⟩, hs⟩ := hs
  obtain ⟨w', res, heq, hok, hans⟩ := expire_spec (h.ok.later hle hlt)
  rw [heq, Option.map_some, Option.some.injEq] at hs
  cases res with
  | node n =>
    obtain ⟨hpending, -⟩ := hans
    subst hs
    refine ⟨hok, h.fresh, h.nodup, ?_⟩
    have hc := h.conserved
    rw [hpending, Multiset.add_cons] at hc
    rw [← hc, ← Multiset.cons_coe, Multiset.cons_add]
  | sleep t =>
    obtain ⟨hpending, -⟩ := hans
    subst hs
    exact ⟨hok, h.fresh, h.nodup, by rw [hpending]; exact h.conserved⟩

theorem conserved_of_reach (h : machine.Reach s) : Conserved s := by
  refine Machine.ReachUnder.invariant ?_ ?_ h
  · rintro s ⟨threadNum, rfl⟩
    refine ⟨new_ok threadNum, by simp, List.nodup_nil, ?_⟩
    have hnil : Buckets.content 65536 (fun _ => ([] : List TimerNode)) = 0 :=
      Buckets.content_eq_zero.2 fun _ _ => rfl
    simp only [pending, new, hnil, Multiset.coe_nil, add_zero]
  · rintro s (⟨dueTime, clock⟩ | ⟨clock⟩) s' hI - hs
    · exact hI.addTimer hs
    · exact hI.expire hs

/-- Whatever was called before: each timer added is either pending or was returned once, and the
next `expire` returns a timer that is due if one is overdue, and otherwise a time to sleep that ends
before no bucket. -/
theorem expire_correct (h : machine.Reach s) :
    (s.returned : Multiset TimerNode) + s.wheel.pending = s.added ∧ s.added.Nodup ∧
    (∀ dueTime clock, 0 ≤ dueTime → dueTime ≤ 0x0fffffff → s.now ≤ clock →
      dueTime + clock < 2147483648 →
      ∃ w' thread, s.wheel.addTimer dueTime clock s.added.length = some (w', thread)) ∧
    ∀ clock, s.now ≤ clock → clock < 2147483648 → ∃ w' res, s.wheel.expire clock = some (w', res) ∧
      match res with
      | .node n => s.wheel.pending = n ::ₘ w'.pending ∧ n.expersTime ≤ clock
      | .sleep t => w'.pending = s.wheel.pending ∧ (∀ n ∈ s.wheel.pending, ¬ n.expersTime < clock) ∧
        if t = infinite then s.wheel.pending = 0 else w'.NotBefore (clock + t) := by
  have hI := conserved_of_reach h
  refine ⟨hI.conserved, hI.nodup, fun dueTime clock h0 hdue hle hfits => ?_, fun clock hle hlt => ?_⟩
  · obtain ⟨w', thread, heq, -⟩ :=
      addTimer_spec (hI.ok.later hle (by omega)) h0 hdue hfits s.added.length
    exact ⟨w', thread, heq⟩
  · obtain ⟨w', res, heq, -, hans⟩ := expire_spec (hI.ok.later hle hlt)
    refine ⟨w', res, heq, ?_⟩
    cases res with
    | node n => exact hans
    | sleep t =>
      obtain ⟨hpending, hover, hsleep⟩ := hans
      refine ⟨hpending, fun n hn => not_lt.2 (hover n hn), ?_⟩
      rcases hsleep with ⟨rfl, hzero⟩ | ⟨hpos, -, hbefore⟩
      · rw [if_pos rfl]
        exact hzero
      · rw [if_neg (by rw [infinite]; omega)]
        exact hbefore

theorem expire_correct_early : ∃ s : WheelCalls, machine.Reach s ∧
    (s.wheel.pending.card = 1 ∧ s.returned = []) ∧
    (s.returned : Multiset TimerNode) + s.wheel.pending = s.added := by
  have hrun : ((machine.run ⟨.new 2, 0, [], []⟩ [.addTimer 10 0, .expire 5]).map fun s =>
      (s.returned, s.added, s.now)) = some ([], [⟨10, 0⟩], 5) := by decide +kernel
  obtain ⟨s, hs, heq⟩ := Option.map_eq_some_iff.1 hrun
  simp only [Prod.mk.injEq] at heq
  have hreach : machine.Reach s := Machine.ReachUnder.run (M := machine) (.init ⟨2, rfl⟩) hs
  have hc := (expire_correct hreach).1
  refine ⟨s, hreach, ⟨?_, heq.1⟩, hc⟩
  rw [heq.1, heq.2.1, Multiset.coe_nil, zero_add] at hc
  rw [hc]
  rfl

end WheelCalls

end Resend.Udp

import Resend.Lib.Buckets
import Resend.Lib.Machine

/-!
# The timer wheel

`HDS_timer_wheel`: timers of the current slot of 65536 ms lie in the buckets of `_nearly_array`,
later ones in `_slot_array` by slot. `expire` returns one timer that is due or says how long nothing
will be. The clock is a `long` of milliseconds; slots are shifted and times compared as 32-bit
integers.
-/

namespace Resend.Udp

/-- `HDS_Timer_Node`; `number` tells one timer from another. -/
structure TimerNode where
  expersTime : Int
  number : Nat
deriving DecidableEq, Repr

/-- Conversion to `int`. -/
def wrapInt (x : Int) : Int := Int.bmod x (2 ^ 32)

def timeAfter (a b : Int) : Bool := wrapInt (wrapInt b - wrapInt a) < 0

def timeAfterEq (a b : Int) : Bool := 0 ≤ wrapInt (wrapInt a - wrapInt b)

def timeBeforeEq (a b : Int) : Bool := timeAfterEq b a

/-- `x | WHEEL_SHIFT_MASK`. -/
def orMask (x : Int) : Int := x - x % 65536 + 65535

structure TimerWheel where
  nearlyArray : Nat → List TimerNode
  slotArray : Nat → List TimerNode
  nearlyCursor : Nat
  nearlyCount : Int
  totalTimerCount : Int
  slotCursor : Nat
  threadCount : Nat
  waitUpThreadCursor : Nat

/-- What `expire` gives: a timer, or how long to sleep (`-1` for ever). -/
inductive Expired
  | node (n : TimerNode)
  | sleep (nextExpireTime : Int)
deriving DecidableEq, Repr

namespace TimerWheel

def infinite : Int := -1

def new (threadNum : Nat) : TimerWheel := ⟨fun _ => [], fun _ => [], 0, 0, 0, 0, threadNum, 0⟩

/-- `HDS_Event_Set` of the next thread in turn. -/
def wakeUp (w : TimerWheel) : TimerWheel × Option Nat :=
  let next := w.waitUpThreadCursor + 1
  ({ w with waitUpThreadCursor := if next ≥ w.threadCount then 0 else next }, some w.waitUpThreadCursor)

/-- `add_timer` at clock reading `clock`: the wheel after it and the thread whose event it sets. -/
def addTimer (w : TimerWheel) (dueTime clock : Int) (number : Nat) : Option (TimerWheel × Option Nat) :=
  if dueTime > 0x0fffffff then none
  else
    let w := { w with totalTimerCount := w.totalTimerCount + 1 }
    let xtime := dueTime + clock
    let node : TimerNode := ⟨xtime, number⟩
    let slotNum := wrapInt (xtime / 65536)
    if slotNum = w.slotCursor ∧ w.nearlyCursor < 65536 then
      let bucket := (xtime.tmod 65536).toNat
      let bucket := if w.nearlyCursor > bucket then w.nearlyCursor else bucket
      some { w with
        nearlyArray := Function.update w.nearlyArray bucket (node :: w.nearlyArray bucket)
        nearlyCount := w.nearlyCount + 1 }.wakeUp
    else
      let w := { w with
        slotArray := Function.update w.slotArray slotNum.toNat (node :: w.slotArray slotNum.toNat) }
      some (if w.totalTimerCount = 1 then w.wakeUp else (w, none))

/-- `get_node_from_nearly_array`: two loops, one for a timer that is due, one for the next. -/
def getNodeFromNearlyArray (w : TimerWheel) (curTime : Int) : TimerWheel × Expired :=
  let index := (curTime % 65536).toNat
  let cursor := Buckets.firstFrom w.nearlyArray w.nearlyCursor (index + 1 - w.nearlyCursor)
  let w := { w with nearlyCursor := cursor }
  match if cursor ≤ index then w.nearlyArray cursor else [] with
  | n :: rest =>
    ({ w with
        totalTimerCount := w.totalTimerCount - 1
        nearlyCount := w.nearlyCount - 1
        nearlyArray := Function.update w.nearlyArray cursor rest }, .node n)
  | [] => (w, .sleep (Buckets.firstFrom w.nearlyArray index (65536 - index) - curTime % 65536))

/-- The loop of `expire` that turns to the next slot with timers. -/
def turn : Nat → TimerWheel → Nat → Int → Option (TimerWheel × Expired)
  | 0, _, _, _ => none
  | fuel + 1, w, nextSlotCursor, curTime =>
    let nextSlotCursor := nextSlotCursor + 1
    let w := if nextSlotCursor = 65536 then { w with slotCursor := 0 } else w
    if timeBeforeEq (wrapInt (nextSlotCursor * 65536)) curTime then
      let w := { w with slotCursor := nextSlotCursor }
      if (w.slotArray nextSlotCursor).isEmpty then turn fuel w nextSlotCursor curTime
      else
        let nodes := w.slotArray nextSlotCursor
        let w := { w with
          slotArray := Function.update w.slotArray nextSlotCursor []
          nearlyArray := Buckets.spread (fun n => (n.expersTime.tmod 65536).toNat) w.nearlyArray nodes
          nearlyCount := w.nearlyCount + nodes.length }
        let curTime := if timeBeforeEq (wrapInt ((nextSlotCursor + 1) * 65536)) curTime then
          orMask curTime else curTime
        some (w.getNodeFromNearlyArray curTime)
    else some ({ w with slotCursor := nextSlotCursor - 1 }, .sleep (65535 - curTime % 65536 + 1))

/-- `expire` at clock reading `clock`. The loop makes at most 65536 rounds. -/
def expire (w : TimerWheel) (clock : Int) : Option (TimerWheel × Expired) :=
  if w.totalTimerCount = 0 then some (w, .sleep infinite)
  else
    let slotBase := wrapInt (w.slotCursor * 65536)
    if w.nearlyCount ≠ 0 then
      let curTime := if timeAfter clock (orMask slotBase) then orMask slotBase else clock
      some (w.getNodeFromNearlyArray curTime)
    else if timeBeforeEq clock (orMask slotBase) then some (w, .sleep (65535 - clock % 65536 + 1))
    else turn 65536 { w with nearlyArray := fun _ => [], nearlyCursor := 0 } w.slotCursor clock

/-! ### The clock -/

theorem wrapInt_of_fits {x : Int} (h : -2147483648 ≤ x) (h' : x < 2147483648) : wrapInt x = x := by
  rw [wrapInt, Int.bmod_def]
  split <;> omega

theorem timeAfter_iff {a b : Int} (ha : 0 ≤ a) (ha' : a < 2147483648) (hb : 0 ≤ b)
    (hb' : b < 2147483648) :
    timeAfter a b = true ↔ b < a := by
  rw [timeAfter, wrapInt_of_fits (by omega) ha', wrapInt_of_fits (by omega) hb',
    wrapInt_of_fits (by omega) (by omega), decide_eq_true_eq]
  omega

theorem timeBeforeEq_iff {a b : Int} (ha : 0 ≤ a) (ha' : a < 2147483648) (hb : 0 ≤ b)
    (hb' : b < 2147483648) :
    timeBeforeEq a b = true ↔ a ≤ b := by
  rw [timeBeforeEq, timeAfterEq, wrapInt_of_fits (by omega) ha', wrapInt_of_fits (by omega) hb',
    wrapInt_of_fits (by omega) (by omega), decide_eq_true_eq]
  omega

theorem wrapInt_slot {k : Nat} (hk : k < 32768) : wrapInt (k * 65536) = k * 65536 :=
  wrapInt_of_fits (by omega) (by omega)

/-- Slots are compared correctly up to the one that no longer fits an `int`. -/
theorem timeBeforeEq_slot_iff {k : Nat} (hk : k ≤ 32768) {b : Int} (hb : 0 ≤ b) (hb' : b < 2147483648) :
    timeBeforeEq (wrapInt (k * 65536)) b = true ↔ (k : Int) * 65536 ≤ b := by
  rcases Nat.lt_or_eq_of_le hk with hk | rfl
  · rw [wrapInt_slot hk, timeBeforeEq_iff (by omega) (by omega) hb hb']
  · have hwrap : wrapInt ((32768 : Nat) * 65536) = -2147483648 := by decide
    have hdiff : wrapInt (b - -2147483648) = b - 2147483648 := by
      rw [wrapInt, Int.bmod_def]
      split <;> omega
    have hself : wrapInt (-2147483648) = -2147483648 := by decide
    rw [timeBeforeEq, timeAfterEq, hwrap, wrapInt_of_fits (by omega) hb', hself,
      hdiff, decide_eq_true_eq]
    omega

end TimerWheel

end Resend.Udp

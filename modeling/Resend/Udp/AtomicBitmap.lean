import Resend.Lib.Machine
import Resend.Lib.Window

/-!
# The atomic bitmap

`Atomic_Bitmap` as a set of positions. What its operations return is the old bit as the word
operations give it, with the top bit of a word read as a sign, and `clear` has its two cases the
wrong way round.
-/

namespace Resend.Udp

/-- `Atomic_Bitmap`; `pbits` has `lsize` words. -/
structure AtomicBitmap where
  bitNum : Nat
  lsize : Nat
  pbits : Nat → Word

namespace AtomicBitmap

/-- `Atomic_Bitmap(bitNum)`. -/
def new (bitNum : Nat) : AtomicBitmap :=
  ⟨bitNum, bitNum / 64 + (if bitNum - bitNum / 64 > 0 then 1 else 0), fun _ => 0#64⟩

def set (bm : AtomicBitmap) (pos : Nat) : Int × AtomicBitmap :=
  if bm.bitNum ≤ pos then (-1, bm)
  else
    let r := (bm.pbits (pos / 64)).testAndSet (pos % 64)
    (r.1, { bm with pbits := Function.update bm.pbits (pos / 64) r.2 })

def reset (bm : AtomicBitmap) (pos : Nat) : Int × AtomicBitmap :=
  if bm.bitNum ≤ pos then (-1, bm)
  else
    let r := (bm.pbits (pos / 64)).testAndReset (pos % 64)
    (r.1, { bm with pbits := Function.update bm.pbits (pos / 64) r.2 })

/-- `memset(_pbits, tagClear ? 0xff : 0, _lsize * sizeof(long))`. -/
def clear (bm : AtomicBitmap) (tagClear : Bool) : AtomicBitmap :=
  { bm with
    pbits := fun i => if i < bm.lsize then (if tagClear then BitVec.allOnes 64 else 0#64)
      else bm.pbits i }

def test (bm : AtomicBitmap) (pos : Nat) : Bool :=
  if bm.bitNum ≤ pos then false else (0#64).slt (bm.pbits (pos / 64) &&& Word.mask (pos % 64))

inductive Op
  | set (pos : Nat)
  | reset (pos : Nat)
  | clear (tagClear : Bool)
  | test (pos : Nat)

/-- What a call returns, a `bool` as `0` or `1` and `0` for nothing, and the bitmap after it. -/
def step (bm : AtomicBitmap) : Op → Int × AtomicBitmap
  | .set pos => bm.set pos
  | .reset pos => bm.reset pos
  | .clear tagClear => (0, bm.clear tagClear)
  | .test pos => (if bm.test pos then 1 else 0, bm)

/-- Calls one after the other on a bitmap of `n` bits. -/
def machine (n : Nat) : Machine AtomicBitmap Op where
  init bm := bm = new n
  step bm op := some (bm.step op).2

/-! ### As a set of positions -/

/-- The positions whose bit is set. -/
def content (bm : AtomicBitmap) : Set Nat := {p | p < bm.bitNum ∧ bitOf bm.pbits p = true}

open Classical in
/-- What the call returns for the set `S`. -/
noncomputable def Op.result (S : Set Nat) : Op → Int
  | .set pos | .reset pos | .test pos => if pos ∈ S then 1 else 0
  | .clear _ => 0

/-- What the call makes of the set `S` of positions below `n`. -/
def Op.next (n : Nat) (S : Set Nat) : Op → Set Nat
  | .set pos => insert pos S
  | .reset pos => S \ {pos}
  | .clear tagClear => if tagClear then ∅ else {p | p < n}
  | .test _ => S

def Op.InRange (n : Nat) : Op → Prop
  | .set pos | .reset pos | .test pos => pos < n
  | .clear _ => True

/-- A call within the bitmap does to its content and returns what the set does. -/
def Right (bm : AtomicBitmap) (op : Op) : Prop :=
  op.InRange bm.bitNum → (bm.step op).1 = op.result bm.content ∧
    (bm.step op).2.content = op.next bm.bitNum bm.content

/-- The call does not meet the top bit of a word set, and clears nothing. -/
def Fits (bm : AtomicBitmap) : Op → Prop
  | .set pos | .reset pos | .test pos => pos < bm.bitNum → pos % 64 = 63 → pos ∉ bm.content
  | .clear _ => bm.bitNum = 0

/-- All bits lie in the words of the bitmap. -/
def Covered (bm : AtomicBitmap) : Prop := ∀ p < bm.bitNum, p / 64 < bm.lsize

section step
variable {bm : AtomicBitmap} {op : Op} {pos n : Nat}

theorem covered_new (n : Nat) : (new n).Covered := by
  intro p hp
  have hp : p < n := hp
  show p / 64 < n / 64 + (if n - n / 64 > 0 then 1 else 0)
  rw [if_pos (by omega)]
  omega

@[simp] theorem bitNum_set : (bm.set pos).2.bitNum = bm.bitNum := by
  rw [set]
  split <;> rfl

@[simp] theorem bitNum_reset : (bm.reset pos).2.bitNum = bm.bitNum := by
  rw [reset]
  split <;> rfl

@[simp] theorem lsize_set : (bm.set pos).2.lsize = bm.lsize := by
  rw [set]
  split <;> rfl

@[simp] theorem lsize_reset : (bm.reset pos).2.lsize = bm.lsize := by
  rw [reset]
  split <;> rfl

theorem bitNum_step : (bm.step op).2.bitNum = bm.bitNum := by
  cases op with
  | set => exact bitNum_set
  | reset => exact bitNum_reset
  | clear => rfl
  | test => rfl

theorem lsize_step : (bm.step op).2.lsize = bm.lsize := by
  cases op with
  | set => exact lsize_set
  | reset => exact lsize_reset
  | clear => rfl
  | test => rfl

theorem Covered.step (h : bm.Covered) : (bm.step op).2.Covered := by
  intro p hp
  rw [lsize_step]
  rw [bitNum_step] at hp
  exact h p hp

theorem mem_content (hpos : pos < bm.bitNum) :
    pos ∈ bm.content ↔ (bm.pbits (pos / 64)).bit (pos % 64) = true :=
  and_iff_right hpos

theorem content_set (hpos : pos < bm.bitNum) : (bm.set pos).2.content = insert pos bm.content := by
  rw [set, if_neg (Nat.not_le.2 hpos)]
  ext p
  simp only [content, Set.mem_ofPred_eq, Set.mem_insert_iff, bitOf_set,
    Bool.or_eq_true, decide_eq_true_eq]
  constructor
  · rintro ⟨hp, hb | rfl⟩
    · exact .inr ⟨hp, hb⟩
    · exact .inl rfl
  · rintro (rfl | ⟨hp, hb⟩)
    · exact ⟨hpos, .inr rfl⟩
    · exact ⟨hp, .inl hb⟩

theorem content_reset (hpos : pos < bm.bitNum) : (bm.reset pos).2.content = bm.content \ {pos} := by
  rw [reset, if_neg (Nat.not_le.2 hpos)]
  ext p
  simp only [content, Set.mem_ofPred_eq, Set.mem_sdiff, Set.mem_singleton_iff,
    bitOf_reset, Bool.and_eq_true, Bool.not_eq_true', decide_eq_false_iff_not, and_assoc]

theorem content_clear (h : bm.Covered) (tagClear : Bool) :
    (bm.clear tagClear).content = if tagClear then {p | p < bm.bitNum} else ∅ := by
  have hbit : ∀ p < bm.bitNum, bitOf (bm.clear tagClear).pbits p = tagClear := by
    intro p hp
    have hlt : p % 64 < 64 := Nat.mod_lt _ (by decide)
    show Word.bit (if p / 64 < bm.lsize then _ else _) (p % 64) = tagClear
    rw [if_pos (h p hp)]
    cases tagClear with
    | true => exact (BitVec.getLsbD_allOnes).trans (decide_eq_true hlt)
    | false => exact Word.bit_zero _
  ext p
  cases tagClear with
  | true => exact and_iff_left_of_imp (hbit p)
  | false =>
    refine iff_of_false (fun hp => ?_) (Set.notMem_empty p)
    have hb := hbit p hp.1
    rw [hp.2] at hb
    cases hb

theorem old_eq_iff (hpos : pos < bm.bitNum) :
    (bm.pbits (pos / 64)).oldBit (pos % 64) = (Op.set pos).result bm.content ↔
      (pos % 64 = 63 → pos ∉ bm.content) := by
  have hold := Word.oldBit_eq_iff (bm.pbits (pos / 64)) (Nat.mod_lt pos (by decide : 0 < 64))
  have hmem : (Op.set pos).result bm.content = if (bm.pbits (pos / 64)).bit (pos % 64) then 1 else 0 :=
    @if_congr _ _ _ (Classical.propDecidable _) _ _ _ _ _ (mem_content hpos) rfl rfl
  rw [hmem, mem_content hpos, Bool.not_eq_true]
  exact hold

theorem test_eq_iff (hpos : pos < bm.bitNum) :
    (bm.step (.test pos)).1 = (Op.test pos).result bm.content ↔ (pos % 64 = 63 → pos ∉ bm.content) := by
  have htest := Word.slt_and_mask_iff (bm.pbits (pos / 64)) (Nat.mod_lt pos (by decide : 0 < 64))
  rw [step, test, if_neg (Nat.not_le.2 hpos), Op.result, mem_content hpos, Bool.not_eq_true, ← htest]
  split_ifs with h1 h2 h2
  · exact iff_of_true rfl (h1.trans h2.symm)
  · exact iff_of_false Int.one_ne_zero fun he => h2 (he.symm.trans h1)
  · exact iff_of_false Int.zero_ne_one fun he => h1 (he.trans h2)
  · exact iff_of_true rfl ((Bool.eq_false_iff.2 h1).trans (Bool.eq_false_iff.2 h2).symm)

theorem right_iff_fits (h : bm.Covered) : bm.Right op ↔ bm.Fits op := by
  cases op with
  | set pos =>
    refine forall_congr' fun hpos => ?_
    have hold : (bm.step (.set pos)).1 = (bm.pbits (pos / 64)).oldBit (pos % 64) := by
      rw [step, set, if_neg (Nat.not_le.2 hpos)]
      rfl
    rw [hold, old_eq_iff hpos]
    exact and_iff_left (content_set hpos)
  | reset pos =>
    refine forall_congr' fun hpos => ?_
    have hold : (bm.step (.reset pos)).1 = (bm.pbits (pos / 64)).oldBit (pos % 64) := by
      rw [step, reset, if_neg (Nat.not_le.2 hpos)]
      rfl
    rw [hold]
    exact (and_iff_left (content_reset hpos)).trans (old_eq_iff hpos)
  | test pos =>
    refine forall_congr' fun hpos => ?_
    rw [test_eq_iff hpos]
    exact and_iff_left rfl
  | clear tagClear =>
    -- both branches are right only where there is nothing to clear
    have hempty : ({p | p < bm.bitNum} : Set Nat) = ∅ ↔ bm.bitNum = 0 := by
      rw [Set.eq_empty_iff_forall_notMem]
      exact ⟨fun hall => Nat.eq_zero_of_not_pos (hall 0), fun hz p hp => Nat.not_lt_zero p (hz ▸ hp)⟩
    have hcontent : (bm.step (.clear tagClear)).2.content =
        (Op.clear tagClear).next bm.bitNum bm.content ↔ bm.bitNum = 0 := by
      show (bm.clear tagClear).content = (if tagClear then ∅ else {p | p < bm.bitNum}) ↔ _
      rw [content_clear h]
      cases tagClear with
      | true => exact hempty
      | false => exact eq_comm.trans hempty
    exact ⟨fun hr => hcontent.1 (hr trivial).2, fun hz _ => ⟨rfl, hcontent.2 hz⟩⟩

end step

/-- The old-value contract of a word operation. -/
def OldValue (w : Word) (offset : Nat) (r : Int) : Prop := r = if w.bit offset then 1 else 0

/-- In every run the bitmap is a set of positions just as long as no call meets the top bit of a
word set or clears; and a word operation returns the old bit but for a set top bit. -/
theorem right_iff_fits_along (n : Nat) (ops : List Op) :
    ((machine n).Along Right (new n) ops ↔ (machine n).Along Fits (new n) ops) ∧
      ∀ (w : Word) (offset : Nat), offset < 64 →
        (OldValue w offset (w.testAndSet offset).1 ↔ (offset = 63 → w.bit offset = false)) ∧
        (OldValue w offset (w.testAndReset offset).1 ↔ (offset = 63 → w.bit offset = false)) ∧
        (OldValue w offset (w.bitTest offset) ↔ (offset = 63 → w.bit offset = false)) := by
  refine ⟨?_, fun w offset ho => ?_⟩
  · refine Machine.along_congr (I := Covered) (fun bm op bm' h hs => ?_)
      (fun bm op h => right_iff_fits h) (covered_new n)
    cases hs
    exact h.step
  · have hold := Word.oldBit_eq_iff w ho
    refine ⟨hold, hold, ?_⟩
    rw [OldValue, Word.bitTest, ← Word.slt_and_mask_iff w ho]
    split_ifs with h1 h2 h2
    · exact iff_of_true rfl (h1.trans h2.symm)
    · exact iff_of_false Int.one_ne_zero fun he => h2 (he.symm.trans h1)
    · exact iff_of_false Int.zero_ne_one fun he => h1 (he.trans h2)
    · exact iff_of_true rfl ((Bool.eq_false_iff.2 h1).trans (Bool.eq_false_iff.2 h2).symm)

/-- A position that ends a word, set twice: the second call returns `-1`. -/
theorem exists_wrong_old_bit : ¬ ∀ n ops, (machine n).Along Right (new n) ops := by
  intro hall
  have hsecond := ((hall 64 [.set 63, .set 63]).2 _ rfl).1 (show 63 < 64 by decide)
  have hmem : 63 ∈ ((new 64).set 63).2.content := ⟨by decide, by decide⟩
  have hresult : (Op.set 63).result ((new 64).set 63).2.content = 1 := if_pos hmem
  have hold : (((new 64).set 63).2.set 63).1 = -1 := by decide
  have h1 : (((new 64).set 63).2.set 63).1 = 1 := hsecond.1.trans hresult
  rw [hold] at h1
  cases h1

end AtomicBitmap

end Resend.Udp

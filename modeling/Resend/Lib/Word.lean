import Mathlib.Tactic

/-!
# Bit operations on a 64-bit signed word

The old-value contract of atomic test-and-set and test-and-reset as the compiler builtins give it:
the bit is masked out and moved down with an arithmetic shift, so bit 63 reads back as `-1`.
-/

/-- A `long` of the 64-bit build. -/
abbrev Word := BitVec 64

namespace Word

/-- Bit `i`. -/
def bit (w : Word) (i : Nat) : Bool := w.getLsbD i

/-- `1L << off`. -/
def mask (off : Nat) : Word := 1#64 <<< off

/-- `(w & (1L << off)) >> off` on a signed word. -/
def oldBit (w : Word) (off : Nat) : Int := ((w &&& mask off).sshiftRight off).toInt

/-- Set bit `off`; the old bit is returned. -/
def testAndSet (w : Word) (off : Nat) : Int × Word := (oldBit w off, w ||| mask off)

/-- Clear bit `off`; the old bit is returned. -/
def testAndReset (w : Word) (off : Nat) : Int × Word := (oldBit w off, w &&& ~~~mask off)

/-- `(w & (1L << off)) > 0 ? 1 : 0`, a signed comparison. -/
def bitTest (w : Word) (off : Nat) : Int := if (0#64).slt (w &&& mask off) then 1 else 0

theorem bit_mask {off i : Nat} (ho : off < 64) : (mask off).bit i = decide (i = off) := by
  simp only [bit, mask, BitVec.getLsbD_shiftLeft, BitVec.getLsbD_one]
  by_cases h : i = off
  · subst h; simp [ho]
  · simp only [h, decide_false]
    by_cases h' : i < off
    · simp [h']
    · have : i - off ≠ 0 := by omega
      simp [this]

theorem bit_or (w v : Word) (i : Nat) : (w ||| v).bit i = (w.bit i || v.bit i) := BitVec.getLsbD_or

theorem bit_and (w v : Word) (i : Nat) : (w &&& v).bit i = (w.bit i && v.bit i) := BitVec.getLsbD_and

@[simp] theorem bit_zero (i : Nat) : bit 0#64 i = false := BitVec.getLsbD_zero

@[simp] theorem bit_testAndSet (w : Word) {off i : Nat} (ho : off < 64) :
    (w.testAndSet off).2.bit i = (w.bit i || decide (i = off)) := by
  simp only [testAndSet, bit_or, bit_mask ho]

@[simp] theorem bit_testAndReset (w : Word) {off i : Nat} (ho : off < 64) :
    (w.testAndReset off).2.bit i = (w.bit i && !decide (i = off)) := by
  rw [← bit_mask ho]
  simp only [testAndReset, bit, BitVec.getLsbD_and, BitVec.getLsbD_not]
  by_cases hi : i < 64
  · simp [hi]
  · simp [BitVec.getLsbD_of_ge _ _ (Nat.le_of_not_lt hi)]

theorem and_mask (w : Word) {off : Nat} (ho : off < 64) :
    w &&& mask off = if w.bit off then mask off else 0#64 := by
  apply BitVec.eq_of_getLsbD_eq
  intro i _
  show (w &&& mask off).bit i = bit (if w.bit off then mask off else 0#64) i
  rw [bit_and, bit_mask ho]
  by_cases h : i = off
  · subst h; split <;> simp_all [bit_mask ho]
  · split <;> simp [h, bit_mask ho]

theorem sshiftRight_mask :
    ∀ off < 64, ((mask off).sshiftRight off).toInt = if off = 63 then -1 else 1 := by
  decide

theorem oldBit_eq (w : Word) {off : Nat} (ho : off < 64) :
    oldBit w off = if w.bit off then (if off = 63 then -1 else 1) else 0 := by
  unfold oldBit
  rw [and_mask w ho]
  split
  · exact sshiftRight_mask off ho
  · simp

theorem slt_mask : ∀ off < 64, (0#64).slt (mask off) = decide (off ≠ 63) := by
  decide

theorem bitTest_eq (w : Word) {off : Nat} (ho : off < 63) :
    bitTest w off = if w.bit off then 1 else 0 := by
  unfold bitTest
  rw [and_mask w (by omega)]
  have hne : off ≠ 63 := by omega
  by_cases h : w.bit off
  · simp [h, slt_mask off (by omega), hne]
  · simp [h, BitVec.slt]

theorem oldBit_eq_zero (w : Word) {off : Nat} (ho : off < 64) :
    oldBit w off = 0 ↔ w.bit off = false := by
  rw [oldBit_eq w ho]
  split
  · rename_i h; split <;> simp [h]
  · rename_i h; simp [h]

/-- The old bit comes back as `0` or `1`, but for a set top bit. -/
theorem oldBit_eq_iff (w : Word) {off : Nat} (ho : off < 64) :
    oldBit w off = (if w.bit off then 1 else 0) ↔ (off = 63 → w.bit off = false) := by
  rw [oldBit_eq w ho]
  cases w.bit off with
  | false => exact iff_of_true rfl fun _ => rfl
  | true => by_cases h63 : off = 63 <;> simp [h63]

/-- A test is right but for a set top bit. -/
theorem slt_and_mask_iff (w : Word) {off : Nat} (ho : off < 64) :
    (0#64).slt (w &&& mask off) = w.bit off ↔ (off = 63 → w.bit off = false) := by
  rw [and_mask w ho]
  cases w.bit off with
  | false => exact iff_of_true rfl fun _ => rfl
  | true =>
    rw [if_pos rfl, slt_mask off ho]
    by_cases h63 : off = 63 <;> simp [h63]

theorem testAndReset_eq_self_iff (w : Word) {off : Nat} (ho : off < 64) :
    (w.testAndReset off).2 = w ↔ w.bit off = false := by
  constructor
  · intro h
    rw [← h, bit_testAndReset w ho]
    simp
  · intro h
    apply BitVec.eq_of_getLsbD_eq
    intro i _
    show (w.testAndReset off).2.bit i = w.bit i
    rw [bit_testAndReset w ho]
    by_cases hi : i = off
    · rw [hi, h]; rfl
    · simp [hi]

/-! ### Bit scans -/

/-- `bsf` on a word that is not zero: its lowest set bit. -/
def bsf (w : Word) : Nat := (List.range 64).findIdx fun i => w.bit i

/-- `bsr` on a word that is not zero: its highest set bit. -/
def bsr (w : Word) : Nat := 63 - (List.range 64).findIdx fun i => w.bit (63 - i)

theorem ne_zero_iff (w : Word) : w ≠ 0#64 ↔ ∃ i < 64, w.bit i = true := by
  constructor
  · intro hne
    by_contra hall
    push Not at hall
    refine hne (BitVec.eq_of_getLsbD_eq fun i hi => ?_)
    rw [BitVec.getLsbD_zero]
    exact Bool.eq_false_iff.2 (hall i hi)
  · rintro ⟨i, -, hi⟩ rfl
    rw [bit_zero] at hi
    cases hi

theorem findIdx_range {p : Nat → Bool} {n : Nat} (h : ∃ i < n, p i = true) :
    (List.range n).findIdx p < n ∧ p ((List.range n).findIdx p) = true ∧
      ∀ j < (List.range n).findIdx p, p j = false := by
  obtain ⟨i, hi, hp⟩ := h
  have hlt : (List.range n).findIdx p < (List.range n).length :=
    List.findIdx_lt_length_of_exists ⟨i, List.mem_range.2 hi, hp⟩
  refine ⟨by rwa [List.length_range] at hlt, ?_, fun j hj => ?_⟩
  · have hget := List.findIdx_getElem (w := hlt)
    rwa [List.getElem_range] at hget
  · have hnot := List.not_of_lt_findIdx hj
    rwa [List.getElem_range] at hnot

theorem bsf_spec {w : Word} (h : w ≠ 0#64) :
    w.bsf < 64 ∧ w.bit w.bsf = true ∧ ∀ j < w.bsf, w.bit j = false :=
  findIdx_range ((ne_zero_iff w).1 h)

theorem bsr_spec {w : Word} (h : w ≠ 0#64) :
    w.bsr < 64 ∧ w.bit w.bsr = true ∧ ∀ j < 64, w.bsr < j → w.bit j = false := by
  obtain ⟨i, hi, hb⟩ := (ne_zero_iff w).1 h
  have hrange : ∃ i < 64, w.bit (63 - i) = true :=
    ⟨63 - i, by omega, by rwa [Nat.sub_sub_self (by omega)]⟩
  obtain ⟨h1, h2, h3⟩ := findIdx_range hrange
  refine ⟨by rw [bsr]; omega, h2, fun j hj hlt => ?_⟩
  rw [bsr] at hlt
  have hj' := h3 (63 - j) (by omega)
  rwa [Nat.sub_sub_self (by omega)] at hj'

end Word

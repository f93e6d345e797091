import Resend.Udp.AtomicBitmap

/-!
# Searching the bitmap

The four searches look at a word before they look at its index, so a search that finds nothing reads
a word outside the array; only `findFirstUnsetBit` always stops before, at the first of the spare
bits behind the last position.
-/

namespace Resend.Udp

namespace AtomicBitmap

/-- What goes wrong in a search: a word outside the array is read, or the bound on the loops is too
small. -/
inductive Fault
  | outside
  | fuel
deriving DecidableEq

/-- `_pbits[eleIndex].value()`. -/
def word (bm : AtomicBitmap) (eleIndex : Int) : Except Fault Word :=
  if 0 ≤ eleIndex ∧ eleIndex < bm.lsize then .ok (bm.pbits eleIndex.toNat) else .error .outside

section model
variable (bm : AtomicBitmap) (skipped : Word) (masked : Word → Word → Word)

/-- The inner loop of the searches upwards: whole words are passed over. -/
def skipForward : Nat → Int → Nat → Except Fault (Int × Nat)
  | 0, _, _ => .error .fuel
  | fuel + 1, eleIndex, bitIndex => do
    let value ← bm.word eleIndex
    if value = skipped ∧ eleIndex < bm.lsize then skipForward fuel (eleIndex + 1) 0
    else return (eleIndex, bitIndex)

/-- The searches upwards; `masked` is what is left of a word under a mask. -/
def findForward : Nat → Int → Nat → Except Fault Int
  | 0, _, _ => .error .fuel
  | fuel + 1, eleIndex, bitIndex => do
    let (eleIndex, bitIndex) ← bm.skipForward skipped (bm.lsize + 1) eleIndex bitIndex
    if eleIndex = bm.lsize then return -1
    let value ← bm.word eleIndex
    let val := masked value (BitVec.allOnes 64 <<< bitIndex)
    if val = 0#64 then findForward fuel (eleIndex + 1) 0
    else return eleIndex * 64 + val.bsf

/-- The inner loop of the searches downwards. -/
def skipBackward : Nat → Int → Nat → Except Fault (Int × Nat)
  | 0, _, _ => .error .fuel
  | fuel + 1, eleIndex, bitIndex => do
    let value ← bm.word eleIndex
    if value = skipped ∧ eleIndex ≥ 0 then skipBackward fuel (eleIndex - 1) 63
    else return (eleIndex, bitIndex)

/-- The searches downwards. -/
def findBackward : Nat → Int → Nat → Except Fault Int
  | 0, _, _ => .error .fuel
  | fuel + 1, eleIndex, bitIndex => do
    let (eleIndex, bitIndex) ← bm.skipBackward skipped (bm.lsize + 1) eleIndex bitIndex
    if eleIndex = -1 then return -1
    let value ← bm.word eleIndex
    let val := masked value (BitVec.allOnes 64 >>> (64 - bitIndex - 1))
    if val = 0#64 then findBackward fuel (eleIndex - 1) 63
    else return eleIndex * 64 + val.bsr

def findFirstSetBit (startPos : Nat) : Except Fault Int :=
  if bm.bitNum ≤ startPos then .ok (-1)
  else bm.findForward 0#64 (fun value mask => value &&& mask) (bm.lsize + 1)
    (startPos / 64 : Nat) (startPos % 64)

def findFirstUnsetBit (startPos : Nat) : Except Fault Int :=
  if bm.bitNum ≤ startPos then .ok (-1)
  else bm.findForward (-1#64) (fun value mask => ~~~(value ||| ~~~mask)) (bm.lsize + 1)
    (startPos / 64 : Nat) (startPos % 64)

def findFirstSetBitR (startPos : Nat) : Except Fault Int :=
  if bm.bitNum ≤ startPos then .ok (-1)
  else bm.findBackward 0#64 (fun value mask => value &&& mask) (bm.lsize + 1)
    (startPos / 64 : Nat) (startPos % 64)

def findFirstUnsetBitR (startPos : Nat) : Except Fault Int :=
  if bm.bitNum ≤ startPos then .ok (-1)
  else bm.findBackward (-1#64) (fun value mask => ~~~(value ||| ~~~mask)) (bm.lsize + 1)
    (startPos / 64 : Nat) (startPos % 64)

end model

/-! ### Words -/

/-- A search for bits that are `v`: it passes over words without one, and the masks leave those. -/
structure Scans (v : Bool) (skipped : Word) (masked : Word → Word → Word) : Prop where
  skipped : ∀ i < 64, skipped.bit i = !v
  masked : ∀ value mask i, i < 64 → (masked value mask).bit i = ((value.bit i == v) && mask.bit i)

theorem scans_set : Scans true 0#64 fun value mask => value &&& mask where
  skipped i _ := Word.bit_zero i
  masked value mask i _ := by rw [Word.bit_and, beq_true]

theorem scans_unset : Scans false (-1#64) fun value mask => ~~~(value ||| ~~~mask) where
  skipped i hi := by
    rw [Word.bit, BitVec.neg_one_eq_allOnes, BitVec.getLsbD_allOnes]
    exact decide_eq_true hi
  masked value mask i hi := by
    rw [Word.bit, BitVec.getLsbD_not, BitVec.getLsbD_or, BitVec.getLsbD_not, beq_false,
      decide_eq_true hi, Bool.true_and, Bool.true_and, Bool.not_or, Bool.not_not]
    rfl

theorem bit_forward (bitIndex : Nat) {i : Nat} (hi : i < 64) :
    Word.bit (BitVec.allOnes 64 <<< bitIndex) i = decide (bitIndex ≤ i) := by
  rw [Word.bit, BitVec.getLsbD_shiftLeft, BitVec.getLsbD_allOnes, decide_eq_true hi, Bool.true_and,
    decide_eq_true (by omega : i - bitIndex < 64), Bool.and_true, ← decide_not]
  exact decide_eq_decide.2 Nat.not_lt

theorem bit_backward {bitIndex : Nat} (hb : bitIndex < 64) (i : Nat) :
    Word.bit (BitVec.allOnes 64 >>> (64 - bitIndex - 1)) i = decide (i ≤ bitIndex) := by
  rw [Word.bit, BitVec.getLsbD_ushiftRight, BitVec.getLsbD_allOnes]
  exact decide_eq_decide.2 (by omega)

/-! ### Upwards -/

section search
variable {bm : AtomicBitmap} {v : Bool} {skipped : Word} {masked : Word → Word → Word}
  {fuel ele bit p : Nat}

theorem word_of_lt (h : ele < bm.lsize) : bm.word ele = .ok (bm.pbits ele) :=
  if_pos ⟨Int.natCast_nonneg ele, Int.ofNat_lt.2 h⟩

theorem word_end : bm.word bm.lsize = .error .outside := if_neg fun h => Int.lt_irrefl _ h.2

theorem word_neg_one : bm.word (-1) = .error .outside := if_neg fun h => absurd h.1 (by decide)

theorem bitOf_at (m : Nat → Word) (ele : Nat) {i : Nat} (hi : i < 64) :
    bitOf m (64 * ele + i) = (m ele).bit i := by
  rw [bitOf, Nat.mul_add_div (by decide), Nat.mul_add_mod, Nat.div_eq_of_lt hi,
    Nat.mod_eq_of_lt hi, Nat.add_zero]

theorem Scans.ne_skipped (hs : Scans v skipped masked) (hv : bitOf bm.pbits p = v) :
    bm.pbits (p / 64) ≠ skipped := by
  intro he
  rw [bitOf, he, hs.skipped _ (Nat.mod_lt _ (by decide))] at hv
  exact Bool.not_ne_self v hv

/-- The inner loop stops at the first word that is not to be passed over, or behind the last word. -/
theorem skipForward_spec (hle : ele ≤ bm.lsize) (hfuel : bm.lsize - ele < fuel) :
    (bm.skipForward skipped fuel ele bit = .error .outside ∧ ∀ j, ele ≤ j →
      j < bm.lsize → bm.pbits j = skipped) ∨
      ∃ ele' bit' : Nat, bm.skipForward skipped fuel ele bit = .ok ((ele' : Int), bit') ∧
      ele ≤ ele' ∧ ele' < bm.lsize ∧
        (∀ j, ele ≤ j → j < ele' → bm.pbits j = skipped) ∧
        (ele' = ele ∧ bit' = bit ∨ ele < ele' ∧ bit' = 0) := by
  induction fuel generalizing ele bit with
  | zero => exact absurd hfuel (Nat.not_lt_zero _)
  | succ fuel ih =>
    rcases Nat.lt_or_eq_of_le hle with hlt | rfl
    · by_cases hw : bm.pbits ele = skipped
      · have hstep : bm.skipForward skipped (fuel + 1) ele bit =
            bm.skipForward skipped fuel ((ele + 1 : Nat) : Int) 0 := by
          rw [skipForward, word_of_lt hlt]
          exact if_pos ⟨hw, Int.ofNat_lt.2 hlt⟩
        rw [hstep]
        rcases @ih (ele + 1) 0 hlt (by omega) with ⟨herr, hall⟩ | ⟨ele', bit', hok, h1, h2, h3, h4⟩
        · refine .inl ⟨herr, fun j hj hj' => ?_⟩
          rcases Nat.lt_or_eq_of_le hj with hj | rfl
          · exact hall j hj hj'
          · exact hw
        · refine .inr ⟨ele', bit', hok, by omega, h2, fun j hj hj' => ?_, .inr ⟨h1, ?_⟩⟩
          · rcases Nat.lt_or_eq_of_le hj with hj | rfl
            · exact h3 j hj hj'
            · exact hw
          · rcases h4 with ⟨-, hb⟩ | ⟨-, hb⟩ <;> exact hb
      · refine .inr ⟨ele, bit, ?_, le_rfl, hlt, fun j hj hj' => absurd hj' (Nat.not_lt.2 hj),
          .inl ⟨rfl, rfl⟩⟩
        rw [skipForward, word_of_lt hlt]
        exact if_neg fun h => hw h.1
    · refine .inl ⟨?_, fun j hj hj' => absurd hj' (Nat.not_lt.2 hj)⟩
      rw [skipForward, word_end]
      rfl

/-- One turn of the outer loop at the word where the inner loop stopped. -/
theorem findForward_turn {ele' bit' : Nat}
    (hskip : bm.skipForward skipped (bm.lsize + 1) ele bit = .ok ((ele' : Int), bit'))
    (hlt : ele' < bm.lsize) : bm.findForward skipped masked (fuel + 1) ele bit =
      if masked (bm.pbits ele') (BitVec.allOnes 64 <<< bit') = 0#64 then
        bm.findForward skipped masked fuel ((ele' + 1 : Nat) : Int) 0
      else
        .ok ((64 * ele' + (masked (bm.pbits ele') (BitVec.allOnes 64 <<< bit')).bsf : Nat) : Int) :=
        by
  have hne : ¬ (ele' : Int) = bm.lsize := fun he => Nat.ne_of_lt hlt (Int.ofNat_inj.1 he)
  rw [findForward, hskip]
  show (if (ele' : Int) = bm.lsize then Except.ok (-1) else (bm.word ele').bind _) = _
  rw [if_neg hne, word_of_lt hlt, Nat.mul_comm, Int.natCast_add (ele' * 64), Int.natCast_mul]
  rfl

theorem findForward_least (hs : Scans v skipped masked) (hbit : bit < 64) (hp : p < 64 * bm.lsize)
    (hv : bitOf bm.pbits p = v) (hlo : 64 * ele + bit ≤ p)
    (hleast : ∀ q, 64 * ele + bit ≤ q → q < p → bitOf bm.pbits q ≠ v)
    (hfuel : bm.lsize - ele < fuel) :
    bm.findForward skipped masked fuel ele bit = .ok (p : Int) := by
  induction fuel generalizing ele bit with
  | zero => exact absurd hfuel (Nat.not_lt_zero _)
  | succ fuel ih =>
    have hne := hs.ne_skipped hv
    rcases @skipForward_spec bm skipped (bm.lsize + 1) ele bit (by omega) (by omega) with
      ⟨-, hall⟩ | ⟨ele', bit', hok, h1, h2, h3, h4⟩
    · exact absurd (hall (p / 64) (by omega) (by omega)) hne
    · have hele : ele' ≤ p / 64 := by
        by_contra hgt
        exact hne (h3 (p / 64) (by omega) (by omega))
      have hlo' : 64 * ele + bit ≤ 64 * ele' + bit' ∧ 64 * ele' + bit' ≤ p ∧ bit' < 64 := by
        rcases h4 with ⟨rfl, rfl⟩ | ⟨hgt, rfl⟩ <;> omega
      obtain ⟨val, hval⟩ : ∃ val, masked (bm.pbits ele') (BitVec.allOnes 64 <<< bit') = val := ⟨_, rfl⟩
      have hbits : ∀ i < 64, val.bit i =
          (bitOf bm.pbits (64 * ele' + i) == v && decide (bit' ≤ i)) := fun i hi => by
        rw [← hval, hs.masked _ _ i hi, bit_forward bit' hi, bitOf_at _ _ hi]
      -- `p` shows in the word it lies in
      have hsee : p / 64 = ele' → val.bit (p % 64) = true := fun he => by
        have hp' : 64 * ele' + p % 64 = p := by omega
        rw [hbits _ (Nat.mod_lt _ (by decide)), hp', hv, beq_self_eq_true, Bool.true_and]
        exact decide_eq_true (by omega)
      rw [findForward_turn hok h2, hval]
      by_cases hzero : val = 0#64
      · rw [if_pos hzero]
        have hnext : ele' ≠ p / 64 := by
          rintro he
          have hsee' := hsee he.symm
          rw [hzero, Word.bit_zero] at hsee'
          cases hsee'
        exact ih (by decide) (by omega) (fun q hq hq' => hleast q (by omega) hq') (by omega)
      · rw [if_neg hzero]
        obtain ⟨hb, hset, hbefore⟩ := Word.bsf_spec hzero
        rw [hbits _ hb, Bool.and_eq_true, beq_iff_eq, decide_eq_true_eq] at hset
        have hge : p ≤ 64 * ele' + val.bsf := Nat.not_lt.1 fun hlt => hleast _ (by omega) hlt hset.1
        have hle : 64 * ele' + val.bsf ≤ p := by
          by_contra hlt
          have hunset := hbefore (p % 64) (by omega)
          rw [hsee (by omega)] at hunset
          cases hunset
        rw [Nat.le_antisymm hge hle]

theorem findForward_none (hs : Scans v skipped masked) (hbit : bit < 64) (hle : ele ≤ bm.lsize)
    (hnone : ∀ q, 64 * ele + bit ≤ q → q < 64 * bm.lsize → bitOf bm.pbits q ≠ v)
    (hfuel : bm.lsize - ele < fuel) :
    bm.findForward skipped masked fuel ele bit = .error .outside := by
  induction fuel generalizing ele bit with
  | zero => exact absurd hfuel (Nat.not_lt_zero _)
  | succ fuel ih =>
    rcases @skipForward_spec bm skipped (bm.lsize + 1) ele bit hle (by omega) with ⟨herr, -⟩ |
        ⟨ele', bit', hok, h1, h2, h3, h4⟩
    · rw [findForward, herr]
      rfl
    · have hlo' : 64 * ele + bit ≤ 64 * ele' + bit' := by
        rcases h4 with ⟨rfl, rfl⟩ | ⟨hgt, rfl⟩ <;> omega
      have hzero : masked (bm.pbits ele') (BitVec.allOnes 64 <<< bit') = 0#64 := by
        by_contra hne
        obtain ⟨i, hi, hb⟩ := (Word.ne_zero_iff _).1 hne
        rw [hs.masked _ _ i hi, bit_forward bit' hi, ← bitOf_at _ _ hi, Bool.and_eq_true,
          beq_iff_eq, decide_eq_true_eq] at hb
        exact hnone (64 * ele' + i) (by omega) (by omega) hb.1
      rw [findForward_turn hok h2, if_pos hzero]
      exact ih (by decide) h2 (fun q hq hq' => hnone q (by omega) hq') (by omega)

/-! ### Downwards -/

theorem skipBackward_spec {top : Int} (hle : -1 ≤ top) (hlt : top < bm.lsize)
    (hfuel : top + 1 < fuel) :
    (bm.skipBackward skipped fuel top bit = .error .outside ∧
      ∀ j : Nat, (j : Int) ≤ top → bm.pbits j = skipped) ∨
      ∃ ele' bit' : Nat, bm.skipBackward skipped fuel top bit = .ok ((ele' : Int), bit') ∧
        (ele' : Int) ≤ top ∧
        (∀ j : Nat, ele' < j → (j : Int) ≤ top → bm.pbits j = skipped) ∧
        ((ele' : Int) = top ∧ bit' = bit ∨ (ele' : Int) < top ∧ bit' = 63) := by
  induction fuel generalizing top bit with
  | zero => omega
  | succ fuel ih =>
    rcases Int.lt_or_eq_of_le hle with hpos | rfl
    · obtain ⟨ele, rfl⟩ := Int.eq_ofNat_of_zero_le (Int.add_one_le_of_lt hpos)
      have hlt' : ele < bm.lsize := Int.ofNat_lt.1 hlt
      by_cases hw : bm.pbits ele = skipped
      · have hstep : bm.skipBackward skipped (fuel + 1) ele bit =
            bm.skipBackward skipped fuel ((ele : Int) - 1) 63 := by
          rw [skipBackward, word_of_lt hlt']
          exact if_pos ⟨hw, Int.natCast_nonneg ele⟩
        rw [hstep]
        rcases @ih 63 ((ele : Int) - 1) (by omega) (by omega) (by omega) with ⟨herr, hall⟩ |
            ⟨ele', bit', hok, h1, h3, h4⟩
        · refine .inl ⟨herr, fun j hj => ?_⟩
          rcases Int.lt_or_eq_of_le hj with hj | hj
          · exact hall j (by omega)
          · exact Int.ofNat_inj.1 hj ▸ hw
        · refine .inr ⟨ele', bit', hok, by omega, fun j hj hj' => ?_, .inr ⟨by omega, ?_⟩⟩
          · rcases Int.lt_or_eq_of_le hj' with hj' | hj'
            · exact h3 j hj (by omega)
            · exact Int.ofNat_inj.1 hj' ▸ hw
          · rcases h4 with ⟨-, hb⟩ | ⟨-, hb⟩ <;> exact hb
      · refine .inr ⟨ele, bit, ?_, le_rfl, fun j hj hj' => ?_, .inl ⟨rfl, rfl⟩⟩
        · rw [skipBackward, word_of_lt hlt']
          exact if_neg fun h => hw h.1
        · omega
    · refine .inl ⟨?_, fun j hj => ?_⟩
      · rw [skipBackward, word_neg_one]
        rfl
      · omega

theorem findBackward_turn {top : Int} {ele' bit' : Nat}
    (hskip : bm.skipBackward skipped (bm.lsize + 1) top bit = .ok ((ele' : Int), bit'))
    (hlt : ele' < bm.lsize) :
    bm.findBackward skipped masked (fuel + 1) top bit =
      if masked (bm.pbits ele') (BitVec.allOnes 64 >>> (64 - bit' - 1)) = 0#64 then
        bm.findBackward skipped masked fuel ((ele' : Int) - 1) 63
      else
        .ok ((64 * ele' + (masked (bm.pbits ele') (BitVec.allOnes 64 >>> (64 - bit' - 1))).bsr :
            Nat) : Int) := by
  have hne : ¬ (ele' : Int) = -1 := by omega
  rw [findBackward, hskip]
  show (if (ele' : Int) = -1 then Except.ok (-1) else (bm.word ele').bind _) = _
  rw [if_neg hne, word_of_lt hlt, Nat.mul_comm, Int.natCast_add (ele' * 64), Int.natCast_mul]
  rfl

theorem findBackward_greatest (hs : Scans v skipped masked) {top : Int} (hbit : bit < 64)
    (hle : -1 ≤ top) (hlt : top < bm.lsize) (hv : bitOf bm.pbits p = v)
    (hhi : (p : Int) ≤ 64 * top + bit)
    (hlast : ∀ q : Nat, p < q → (q : Int) ≤ 64 * top + bit → bitOf bm.pbits q ≠ v)
    (hfuel : top + 1 < fuel) :
    bm.findBackward skipped masked fuel top bit = .ok (p : Int) := by
  induction fuel generalizing top bit with
  | zero => omega
  | succ fuel ih =>
    have hne := hs.ne_skipped hv
    rcases @skipBackward_spec bm skipped (bm.lsize + 1) bit top hle hlt (by omega) with
      ⟨-, hall⟩ | ⟨ele', bit', hok, h1, h3, h4⟩
    · exact absurd (hall (p / 64) (by omega)) hne
    · have hele : p / 64 ≤ ele' := by
        by_contra hgt
        exact hne (h3 (p / 64) (by omega) (by omega))
      have hhi' : (64 * ele' + bit' : Nat) ≤ 64 * top + bit ∧ p ≤ 64 * ele' + bit' ∧ bit' < 64 := by
        rcases h4 with ⟨rfl, rfl⟩ | ⟨hgt, rfl⟩ <;> omega
      obtain ⟨val, hval⟩ : ∃ val, masked (bm.pbits ele') (BitVec.allOnes 64 >>> (64 - bit' - 1)) =
          val := ⟨_, rfl⟩
      have hbits : ∀ i < 64, val.bit i =
          (bitOf bm.pbits (64 * ele' + i) == v && decide (i ≤ bit')) := fun i hi => by
        rw [← hval, hs.masked _ _ i hi, bit_backward hhi'.2.2, bitOf_at _ _ hi]
      have hsee : p / 64 = ele' → val.bit (p % 64) = true := fun he => by
        have hp' : 64 * ele' + p % 64 = p := by omega
        rw [hbits _ (Nat.mod_lt _ (by decide)), hp', hv, beq_self_eq_true, Bool.true_and]
        exact decide_eq_true (by omega)
      rw [findBackward_turn hok (by omega), hval]
      by_cases hzero : val = 0#64
      · rw [if_pos hzero]
        have hnext : ele' ≠ p / 64 := by
          rintro he
          have hsee' := hsee he.symm
          rw [hzero, Word.bit_zero] at hsee'
          cases hsee'
        exact ih (by decide) (by omega) (by omega) (by omega)
          (fun q hq hq' => hlast q hq (by omega)) (by omega)
      · rw [if_neg hzero]
        obtain ⟨hb, hset, hafter⟩ := Word.bsr_spec hzero
        rw [hbits _ hb, Bool.and_eq_true, beq_iff_eq, decide_eq_true_eq] at hset
        have hge : 64 * ele' + val.bsr ≤ p := Nat.not_lt.1 fun hlt => hlast _ hlt (by omega) hset.1
        have hle : p ≤ 64 * ele' + val.bsr := by
          by_contra hlt
          have hunset := hafter (p % 64) (Nat.mod_lt _ (by decide)) (by omega)
          rw [hsee (by omega)] at hunset
          cases hunset
        rw [Nat.le_antisymm hge hle]

theorem findBackward_none (hs : Scans v skipped masked) {top : Int} (hbit : bit < 64)
    (hle : -1 ≤ top) (hlt : top < bm.lsize)
    (hnone : ∀ q : Nat, (q : Int) ≤ 64 * top + bit → bitOf bm.pbits q ≠ v) (hfuel : top + 1 < fuel) :
    bm.findBackward skipped masked fuel top bit = .error .outside := by
  induction fuel generalizing top bit with
  | zero => omega
  | succ fuel ih =>
    rcases @skipBackward_spec bm skipped (bm.lsize + 1) bit top hle hlt (by omega) with
      ⟨herr, -⟩ | ⟨ele', bit', hok, h1, h3, h4⟩
    · rw [findBackward, herr]
      rfl
    · have hhi' : (64 * ele' + bit' : Nat) ≤ 64 * top + bit ∧ bit' < 64 := by
        rcases h4 with ⟨rfl, rfl⟩ | ⟨hgt, rfl⟩ <;> omega
      have hzero : masked (bm.pbits ele') (BitVec.allOnes 64 >>> (64 - bit' - 1)) = 0#64 := by
        by_contra hne
        obtain ⟨i, hi, hb⟩ := (Word.ne_zero_iff _).1 hne
        rw [hs.masked _ _ i hi, bit_backward hhi'.2, ← bitOf_at _ _ hi, Bool.and_eq_true,
          beq_iff_eq, decide_eq_true_eq] at hb
        exact hnone (64 * ele' + i) (by omega) hb.1
      rw [findBackward_turn hok (by omega), if_pos hzero]
      exact ih (by decide) (by omega) (by omega) (fun q hq => hnone q (by omega)) (by omega)

end search

/-! ### Answers -/

/-- `r` is the least position with `P` from `start` on and below `n`, or `-1` if there is none. -/
def FirstFrom (P : Nat → Prop) (start n : Nat) (r : Int) : Prop :=
  (∃ p : Nat, r = p ∧ start ≤ p ∧ p < n ∧ P p ∧ ∀ q, start ≤ q → q < p → ¬ P q) ∨
    (r = -1 ∧ ∀ p, start ≤ p → p < n → ¬ P p)

/-- `r` is the greatest position with `P` up to `start`, or `-1` if there is none. -/
def LastUpTo (P : Nat → Prop) (start : Nat) (r : Int) : Prop :=
  (∃ p : Nat, r = p ∧ p ≤ start ∧ P p ∧ ∀ q, p < q → q ≤ start → ¬ P q) ∨ (r = -1 ∧ ∀ p ≤ start, ¬ P p)

/-- `set` and `reset` alone. -/
def Op.Sets : Op → Prop
  | .set _ | .reset _ => True
  | .clear _ | .test _ => False

/-- The words reach past the last position, and the bits there are clear. -/
structure Padded (n : Nat) (bm : AtomicBitmap) : Prop where
  bitNum : bm.bitNum = n
  lsize : n / 64 < bm.lsize
  clear : ∀ p, n ≤ p → bitOf bm.pbits p = false

section answers
variable {bm bm' : AtomicBitmap} {n start : Nat}

theorem padded_new (hn : 0 < n) : Padded n (new n) where
  bitNum := rfl
  lsize := by
    show n / 64 < n / 64 + (if n - n / 64 > 0 then 1 else 0)
    rw [if_pos (by omega)]
    exact Nat.lt_succ_self _
  clear p _ := Word.bit_zero _

theorem Padded.step (h : Padded n bm) {op : Op} (hop : op.Sets) : Padded n (bm.step op).2 where
  bitNum := bitNum_step.trans h.bitNum
  lsize := by
    rw [lsize_step]
    exact h.lsize
  clear p hp := by
    cases op with
    | set pos =>
      rw [AtomicBitmap.step, set]
      split
      · exact h.clear p hp
      · rename_i hpos
        rw [bitOf_set, h.clear p hp, Bool.false_or, decide_eq_false_iff_not]
        rintro rfl
        exact hpos (h.bitNum ▸ hp)
    | reset pos =>
      rw [AtomicBitmap.step, reset]
      split
      · exact h.clear p hp
      · rw [bitOf_reset, h.clear p hp, Bool.false_and]
    | clear => exact hop.elim
    | test => exact hop.elim

theorem padded_of_reach (hn : 0 < n) (h : (machine n).ReachUnder (fun _ op => op.Sets) bm) :
    Padded n bm := by
  refine h.invariant (fun bm hbm => ?_) fun bm op bm' hp hop hs => ?_
  · rw [show bm = new n from hbm]
    exact padded_new hn
  · cases hs
    exact hp.step hop

theorem firstFrom_iff {P : Nat → Prop} {find : Except Fault Int}
    (hleast : ∀ p, start ≤ p → p < n → P p → (∀ q, start ≤ q → q < p → ¬ P q) → find = .ok p)
    (hnone : (∀ p, start ≤ p → p < n → ¬ P p) → find = .error .outside ∨ find = .ok n) :
    (∃ r, find = .ok r ∧ FirstFrom P start n r) ↔ ∃ p, start ≤ p ∧ p < n ∧ P p := by
  classical
  constructor
  · rintro ⟨r, hr, ⟨p, -, hp⟩ | ⟨rfl, hall⟩⟩
    · exact ⟨p, hp.1, hp.2.1, hp.2.2.1⟩
    · rcases hnone hall with he | he <;> rw [he] at hr
      · cases hr
      · have hneg : (n : Int) = -1 := Except.ok.inj hr
        omega
  · intro hex
    obtain ⟨h1, h2, h3⟩ := Nat.find_spec hex
    have hmin : ∀ q, start ≤ q → q < Nat.find hex → ¬ P q :=
      fun q hq hlt hP => Nat.find_min hex hlt ⟨hq, hlt.trans h2, hP⟩
    exact ⟨_, hleast _ h1 h2 h3 hmin, .inl ⟨_, rfl, h1, h2, h3, hmin⟩⟩

theorem lastUpTo_iff {P : Nat → Prop} {find : Except Fault Int}
    (hgreatest : ∀ p, p ≤ start → P p → (∀ q, p < q → q ≤ start → ¬ P q) → find = .ok p)
    (hnone : (∀ p ≤ start, ¬ P p) → find = .error .outside) :
    (∃ r, find = .ok r ∧ LastUpTo P start r) ↔ ∃ p, p ≤ start ∧ P p := by
  classical
  constructor
  · rintro ⟨r, hr, ⟨p, -, hp⟩ | ⟨rfl, hall⟩⟩
    · exact ⟨p, hp.1, hp.2.1⟩
    · rw [hnone hall] at hr
      cases hr
  · rintro ⟨p, hp, hP⟩
    obtain ⟨h1, h2⟩ := Nat.findGreatest_spec (P := P) hp hP, Nat.findGreatest_le (P := P) start
    have hmax : ∀ q, Nat.findGreatest P start < q → q ≤ start → ¬ P q :=
      fun q hq hle => Nat.findGreatest_is_greatest hq hle
    exact ⟨_, hgreatest _ h2 h1 hmax, .inl ⟨_, rfl, h2, h1, hmax⟩⟩

section padded
variable (h : Padded n bm) (hs : start < n)
include h hs

theorem start_spec : ¬ bm.bitNum ≤ start ∧ 64 * (start / 64) + start % 64 = start ∧ start % 64 < 64 ∧
    start / 64 < bm.lsize ∧ n < 64 * bm.lsize := by
  have hsize := h.lsize
  rw [h.bitNum]
  omega

theorem findFirstSetBit_iff :
    (∃ r, bm.findFirstSetBit start = .ok r ∧ FirstFrom (bitOf bm.pbits · = true) start n r) ↔
      ∃ p, start ≤ p ∧ p < n ∧ bitOf bm.pbits p = true := by
  obtain ⟨hnum, hstart, hbit, hele, hn⟩ := start_spec h hs
  rw [findFirstSetBit, if_neg hnum]
  refine firstFrom_iff (fun p hp hlt hP hmin => ?_) fun hall => .inl ?_
  · exact findForward_least scans_set hbit (by omega) hP (by omega)
      (fun q hq hlt' => hmin q (by omega) hlt') (by omega)
  · refine findForward_none scans_set hbit hele.le (fun q hq _ => ?_) (by omega)
    rcases Nat.lt_or_ge q n with hqn | hqn
    · exact hall q (by omega) hqn
    · exact Bool.eq_false_iff.1 (h.clear q hqn)

theorem findFirstUnsetBit_iff :
    (∃ r, bm.findFirstUnsetBit start = .ok r ∧ FirstFrom (bitOf bm.pbits · = false) start n r) ↔
      ∃ p, start ≤ p ∧ p < n ∧ bitOf bm.pbits p = false := by
  obtain ⟨hnum, hstart, hbit, hele, hn⟩ := start_spec h hs
  rw [findFirstUnsetBit, if_neg hnum]
  refine firstFrom_iff (fun p hp hlt hP hmin => ?_) fun hall => .inr ?_
  · exact findForward_least scans_unset hbit (by omega) hP (by omega)
      (fun q hq hlt' => hmin q (by omega) hlt') (by omega)
  · -- the first spare bit
    exact findForward_least scans_unset hbit hn (h.clear n le_rfl) (by omega)
      (fun q hq hlt' => hall q (by omega) hlt') (by omega)

theorem findFirstSetBitR_iff :
    (∃ r, bm.findFirstSetBitR start = .ok r ∧ LastUpTo (bitOf bm.pbits · = true) start r) ↔
      ∃ p, p ≤ start ∧ bitOf bm.pbits p = true := by
  obtain ⟨hnum, hstart, hbit, hele, hn⟩ := start_spec h hs
  rw [findFirstSetBitR, if_neg hnum]
  refine lastUpTo_iff (fun p hp hP hmax => ?_) fun hall => ?_
  · exact findBackward_greatest scans_set hbit (by omega) (by omega) hP (by omega)
      (fun q hq hle => hmax q hq (by omega)) (by omega)
  · exact findBackward_none scans_set hbit (by omega) (by omega)
      (fun q hq => hall q (by omega)) (by omega)

theorem findFirstUnsetBitR_iff :
    (∃ r, bm.findFirstUnsetBitR start = .ok r ∧ LastUpTo (bitOf bm.pbits · = false) start r) ↔
      ∃ p, p ≤ start ∧ bitOf bm.pbits p = false := by
  obtain ⟨hnum, hstart, hbit, hele, hn⟩ := start_spec h hs
  rw [findFirstUnsetBitR, if_neg hnum]
  refine lastUpTo_iff (fun p hp hP hmax => ?_) fun hall => ?_
  · exact findBackward_greatest scans_unset hbit (by omega) (by omega) hP (by omega)
      (fun q hq hle => hmax q hq (by omega)) (by omega)
  · exact findBackward_none scans_unset hbit (by omega) (by omega)
      (fun q hq => hall q (by omega)) (by omega)

end padded

/-- Each search answers as it should just where there is something to find. -/
theorem answers_iff_exists (h : (machine n).ReachUnder (fun _ op => op.Sets) bm) (hs : start < n) :
    ((∃ r, bm.findFirstSetBit start = .ok r ∧ FirstFrom (bitOf bm.pbits · = true) start n r) ↔
      ∃ p, start ≤ p ∧ p < n ∧ bitOf bm.pbits p = true) ∧
    ((∃ r, bm.findFirstUnsetBit start = .ok r ∧ FirstFrom (bitOf bm.pbits · = false) start n r) ↔
      ∃ p, start ≤ p ∧ p < n ∧ bitOf bm.pbits p = false) ∧
    ((∃ r, bm.findFirstSetBitR start = .ok r ∧ LastUpTo (bitOf bm.pbits · = true) start r) ↔
      ∃ p, p ≤ start ∧ bitOf bm.pbits p = true) ∧
    ((∃ r, bm.findFirstUnsetBitR start = .ok r ∧ LastUpTo (bitOf bm.pbits · = false) start r) ↔
      ∃ p, p ≤ start ∧ bitOf bm.pbits p = false) := by
  have hp := padded_of_reach (Nat.zero_lt_of_lt hs) h
  exact ⟨findFirstSetBit_iff hp hs, findFirstUnsetBit_iff hp hs, findFirstSetBitR_iff hp hs,
    findFirstUnsetBitR_iff hp hs⟩

/-- Position 92 of 100, from 70 on and from 99 down. -/
theorem answers_iff_exists_92 : ∃ bm : AtomicBitmap, (machine 100).ReachUnder (fun _ op => op.Sets) bm ∧
    (∃ r, bm.findFirstSetBit 70 = .ok r ∧ FirstFrom (bitOf bm.pbits · = true) 70 100 r) ∧
    ∃ r, bm.findFirstSetBitR 99 = .ok r ∧ LastUpTo (bitOf bm.pbits · = true) 99 r := by
  have hreach : (machine 100).ReachUnder (fun _ op => op.Sets) ((new 100).set 92).2 :=
    .step (a := .set 92) (.init rfl) trivial rfl
  have hbit : bitOf ((new 100).set 92).2.pbits 92 = true := by decide
  obtain ⟨hset, -, -, -⟩ := answers_iff_exists hreach (show 70 < 100 by decide)
  obtain ⟨-, -, hsetR, -⟩ := answers_iff_exists hreach (show 99 < 100 by decide)
  exact ⟨_, hreach, hset.2 ⟨92, by decide, by decide, hbit⟩, hsetR.2 ⟨92, by decide, hbit⟩⟩

/-- One bit, and it is clear: the word behind the array is read. -/
theorem exists_read_outside : ¬ ∀ (n : Nat) (bm : AtomicBitmap) (start : Nat),
    (machine n).ReachUnder (fun _ op => op.Sets) bm → start < n →
    ∃ r, bm.findFirstSetBit start = .ok r ∧ FirstFrom (bitOf bm.pbits · = true) start n r := by
  intro hall
  obtain ⟨r, hr, -⟩ := hall 1 (new 1) 0 (.init rfl) Nat.one_pos
  have hfault : (new 1).findFirstSetBit 0 = .error .outside := by decide
  rw [hfault] at hr
  cases hr

end answers

end AtomicBitmap

end Resend.Udp

import Mathlib.Tactic

/-!
# Names in a DNS message (parse.c)

`rdns_parse_labels` goes through the labels of a name twice: it adds up their lengths, allocates the
name and then copies them. A length byte with one of the upper bits set is an offset to a label
elsewhere in the message. `Walk` is the labels that both loops meet; the first loop is left with
their count and their lengths, the second with their text.
-/

namespace Resend.Dns

/-- How a parse fails: a read outside the buffer or a write outside the allocation, or
`return false`. -/
inductive Fault
  | overrun
  | invalid
  deriving DecidableEq, Repr

def COMPRESSION_BITS : Nat := 0xC0
def MAX_RECURSION_LEVEL : Nat := 10

/-- `*(in + i)` -/
def byteAt (mem : List UInt8) (i : Nat) : Except Fault Nat :=
  match mem[i]? with
  | some b => .ok b.toNat
  | none => .error .overrun

/-- `memcpy (.., in + start, n)` -/
def memcpy (mem : List UInt8) (start n : Nat) : Except Fault (List UInt8) :=
  if start + n ≤ mem.length then .ok ((mem.drop start).take n) else .error .overrun

/-- `UNCOMPRESS_DNS_OFFSET` of two bytes. -/
def uncompressOffset (b₀ b₁ : Nat) : Nat := (b₀ ^^^ COMPRESSION_BITS) * 2 ^ 8 + b₁

/-- `rdns_decompress_label`: where the label is and its length; `none` is `NULL`. -/
def decompressLabel (mem : List UInt8) (offset max : Nat) : Except Fault (Option (Nat × Nat)) :=
  if max < offset then .ok none
  else
    match byteAt mem offset with
    | .ok len => .ok (some (offset, len))
    | .error e => .error e

/-- The variables of the first loop; `begin + length` is always `end`. -/
structure LabelScan where
  p : Nat
  ptrs : Nat
  labels : Nat
  namelen : Nat
  newPos : Nat
  newRemain : Int
  gotCompression : Bool
  deriving DecidableEq, Repr

namespace LabelScan

/-- The position after the name moves on, unless the name went on elsewhere before. -/
def advance (s : LabelScan) (n : Nat) : LabelScan :=
  if s.gotCompression then s else { s with newPos := s.newPos + n, newRemain := s.newRemain - n }

/-- A label of `n` bytes has been met, the next one is at `p`. -/
def label (s : LabelScan) (p n : Nat) : LabelScan :=
  { s with p := p, labels := s.labels + 1, namelen := (s.namelen + n) % 2 ^ 16 }

/-- The pointer at `p` leads to a label at `l`. -/
def jump (s : LabelScan) (l n : Nat) : LabelScan :=
  { (s.advance 2).label (l + n + 1) n with ptrs := s.ptrs + 1, gotCompression := true }

end LabelScan

/-- The first loop of `rdns_parse_labels`. -/
def scanLabels (mem : List UInt8) (fin : Int) (s : LabelScan) : Except Fault LabelScan :=
  if s.p < fin then
    if MAX_RECURSION_LEVEL < s.ptrs then .error .invalid
    else
      match byteAt mem s.p with
      | .error e => .error e
      | .ok llen =>
        if llen = 0 then .ok (s.advance 1)
        else if llen &&& COMPRESSION_BITS ≠ 0 then
          if 1 < fin - s.p then
            match byteAt mem (s.p + 1) with
            | .error e => .error e
            | .ok b₁ =>
              match decompressLabel mem (uncompressOffset llen b₁) (fin.toNat % 2 ^ 16) with
              | .error e => .error e
              | .ok none => .error .invalid
              | .ok (some (l, n)) =>
                if fin < l then .error .invalid else scanLabels mem fin (s.jump l n)
          else .error .invalid
        else scanLabels mem fin ((s.advance (llen + 1)).label (s.p + llen + 1) llen)
  else .ok s
termination_by (MAX_RECURSION_LEVEL + 1 - s.ptrs, (fin - s.p).toNat)
decreasing_by
  · left
    show MAX_RECURSION_LEVEL + 1 - (s.ptrs + 1) < _
    omega
  · have hptrs : ((s.advance (llen + 1)).label (s.p + llen + 1) llen).ptrs = s.ptrs := by
      unfold LabelScan.advance LabelScan.label
      split <;> rfl
    rw [hptrs]
    right
    show (fin - ((s.p + llen + 1 : Nat) : Int)).toNat < _
    omega

/-- The second loop of `rdns_parse_labels`; `fuel` is for its rounds. -/
def copyLabels (mem : List UInt8) (fin : Int) : Nat → Nat → Except Fault (List UInt8)
  | 0, _ => .error .overrun
  | fuel + 1, p =>
    if p < fin then do
      let llen ← byteAt mem p
      if llen = 0 then .ok []
      else if llen &&& COMPRESSION_BITS ≠ 0 then do
        let b₁ ← byteAt mem (p + 1)
        match ← decompressLabel mem (uncompressOffset llen b₁) (fin.toNat % 2 ^ 16) with
        | none => .error .overrun
        | some (l, n) => do
          let text ← memcpy mem (l + 1) n
          let rest ← copyLabels mem fin fuel (l + n + 1)
          .ok (text ++ '.'.toUInt8 :: rest)
      else do
        let text ← memcpy mem (p + 1) llen
        let rest ← copyLabels mem fin fuel (p + llen + 1)
        .ok (text ++ '.'.toUInt8 :: rest)
    else .ok []

/-- `rdns_parse_labels`: the name if `make_name`, and what becomes of `*pos` and `*remain`. -/
def parseLabels (mem : List UInt8) (pos : Nat) (remain : Int) (makeName : Bool) :
    Except Fault (Option (List UInt8) × Nat × Int) := do
  let fin := pos + remain
  let s ← scanLabels mem fin ⟨pos, 0, 0, 0, pos, remain, false⟩
  if makeName then do
    let t ← copyLabels mem fin (s.labels + 1) pos
    -- the name that was allocated
    if t.length ≤ s.namelen + s.labels + 3 then .ok (some t.dropLast, s.newPos, s.newRemain)
    else .error .overrun
  else .ok (none, s.newPos, s.newRemain)

/-- The labels met from `p` on, by where they start and how long they are, the pointers followed on
the way, and the position after the name. -/
inductive Walk (mem : List UInt8) (fin : Int) : Nat → Nat → List (Nat × Nat) → Nat → Prop
  | past {p : Nat} (hp : fin ≤ p) : Walk mem fin p 0 [] p
  | root {p : Nat} (hp : p < fin) (hb : byteAt mem p = .ok 0) : Walk mem fin p 0 [] (p + 1)
  | label {p n k q : Nat} {ls : List (Nat × Nat)} (hp : p < fin) (hb : byteAt mem p = .ok n)
      (h0 : n ≠ 0) (hc : n &&& COMPRESSION_BITS = 0) (hw : Walk mem fin (p + n + 1) k ls q) :
      Walk mem fin p k ((p + 1, n) :: ls) q
  | pointer {p b₀ b₁ l n k q : Nat} {ls : List (Nat × Nat)} (hp : p < fin) (hb : byteAt mem p = .ok b₀)
      (hc : b₀ &&& COMPRESSION_BITS ≠ 0) (h2 : 1 < fin - p) (hb₁ : byteAt mem (p + 1) = .ok b₁)
      (hd : decompressLabel mem (uncompressOffset b₀ b₁) (fin.toNat % 2 ^ 16) = .ok (some (l, n)))
      (hl : l ≤ fin)
      (hw : Walk mem fin (l + n + 1) k ls q) : Walk mem fin p (k + 1) ((l + 1, n) :: ls) (p + 2)

/-- The lengths of the labels together. -/
def total (ls : List (Nat × Nat)) : Nat := (ls.map (·.2)).sum

variable {mem : List UInt8} {fin : Int} {p k q n : Nat} {ls : List (Nat × Nat)} {s s' : LabelScan}

theorem byteAt_lt (h : byteAt mem p = .ok n) : n < 256 := by
  unfold byteAt at h
  split at h
  · rename_i b _
    cases h
    exact b.toNat_lt
  · cases h

theorem byteAt_ok (h : p < mem.length) : ∃ n, byteAt mem p = .ok n := by
  unfold byteAt
  rw [List.getElem?_eq_getElem h]
  exact ⟨_, rfl⟩

theorem byteAt_error {e : Fault} (h : byteAt mem p = .error e) : mem.length ≤ p := by
  by_contra hlt
  obtain ⟨n, hn⟩ := byteAt_ok (not_le.1 hlt)
  rw [hn] at h
  cases h

theorem decompressLabel_some {offset max l : Nat}
    (h : decompressLabel mem offset max = .ok (some (l, n))) :
    l = offset ∧ offset ≤ max ∧ byteAt mem l = .ok n := by
  unfold decompressLabel at h
  split_ifs at h with hm
  · cases h
  split at h
  · rename_i len hb
    cases h
    exact ⟨rfl, not_lt.1 hm, hb⟩
  · cases h

theorem decompressLabel_error {offset max : Nat} {e : Fault}
    (h : decompressLabel mem offset max = .error e) :
    offset ≤ max ∧ mem.length ≤ offset := by
  unfold decompressLabel at h
  split_ifs at h with hm
  split at h
  · cases h
  · rename_i e' hb
    exact ⟨not_lt.1 hm, byteAt_error hb⟩

theorem and_compression (hn : n < 256) : n &&& COMPRESSION_BITS = 0 ↔ n < 64 := by
  have hall : ∀ m : Fin 256, m.val &&& COMPRESSION_BITS = 0 ↔ m.val < 64 := by decide +kernel
  exact hall ⟨n, hn⟩

namespace Walk

theorem le (h : Walk mem fin p k ls q) : p ≤ q := by
  induction h with
  | past _ => exact le_rfl
  | root _ _ => exact Nat.le_succ _
  | label _ _ _ _ _ ih => omega
  | pointer _ _ _ _ _ _ _ _ _ => omega

theorem bounded (h : Walk mem fin p k ls q) : ∀ l ∈ ls, (l.1 + l.2 : Int) ≤ fin + 256 := by
  induction h with
  | past _ => simp
  | root _ _ => simp
  | label hp hb _ hc _ ih =>
    intro l hl
    rcases List.mem_cons.1 hl with rfl | hl
    · have := (and_compression (byteAt_lt hb)).1 hc
      dsimp only
      omega
    · exact ih l hl
  | pointer _ _ _ _ _ hd hl _ ih =>
    intro l' hl'
    rcases List.mem_cons.1 hl' with rfl | hl'
    · have := byteAt_lt (decompressLabel_some hd).2.2
      dsimp only
      omega
    · exact ih l' hl'

theorem after_le (h : Walk mem fin p k ls q) : (q : Int) ≤ max (p : Int) (fin + 64) := by
  induction h with
  | past _ => omega
  | root _ _ => omega
  | label hp hb _ hc _ ih =>
    have := (and_compression (byteAt_lt hb)).1 hc
    omega
  | pointer _ _ _ _ _ _ _ _ _ => omega

theorem total_le (h : Walk mem fin p k ls q) :
    total ls + ls.length ≤ k * (fin.toNat + 256) + (fin.toNat + 64 - p) := by
  induction h with
  | past _ => simp [total]
  | root _ _ => simp [total]
  | @label p n k q ls hp hb _ hc _ ih =>
    have := (and_compression (byteAt_lt hb)).1 hc
    have ht : total ((p + 1, n) :: ls) = n + total ls := by simp [total]
    rw [ht, List.length_cons]
    omega
  | @pointer p b₀ b₁ l n k q ls hp hb _ _ _ hd hl _ ih =>
    have := byteAt_lt (decompressLabel_some hd).2.2
    have ht : total ((l + 1, n) :: ls) = n + total ls := by simp [total]
    rw [ht, List.length_cons, Nat.succ_mul]
    omega

end Walk

/-- What the first loop makes of its variables when it meets the labels `ls`. -/
structure LabelScan.Met (s : LabelScan) (ls : List (Nat × Nat)) (q : Nat) (s' : LabelScan) : Prop where
  labels : s'.labels = s.labels + ls.length
  namelen : s'.namelen = (s.namelen + total ls) % 2 ^ 16
  newPos : s'.newPos = if s.gotCompression then s.newPos else s.newPos + (q - s.p)
  newRemain : s'.newRemain = if s.gotCompression then s.newRemain else s.newRemain - (q - s.p : Nat)

namespace LabelScan

@[simp] theorem advance_ptrs (s : LabelScan) (n : Nat) : (s.advance n).ptrs = s.ptrs := by
  unfold advance; split <;> rfl
@[simp] theorem advance_labels (s : LabelScan) (n : Nat) : (s.advance n).labels = s.labels := by
  unfold advance; split <;> rfl
@[simp] theorem advance_namelen (s : LabelScan) (n : Nat) : (s.advance n).namelen = s.namelen := by
  unfold advance; split <;> rfl
@[simp] theorem advance_got (s : LabelScan) (n : Nat) :
    (s.advance n).gotCompression = s.gotCompression := by
  unfold advance; split <;> rfl

theorem advance_newPos (s : LabelScan) (n : Nat) :
    (s.advance n).newPos = if s.gotCompression then s.newPos else s.newPos + n := by
  unfold advance; split <;> rfl

theorem advance_newRemain (s : LabelScan) (n : Nat) :
    (s.advance n).newRemain = if s.gotCompression then s.newRemain else s.newRemain - n := by
  unfold advance; split <;> rfl

theorem met_nil (hn : s.namelen < 2 ^ 16) : s.Met [] s.p s :=
  ⟨rfl, (Nat.mod_eq_of_lt hn).symm, by simp, by simp⟩

theorem met_root (hn : s.namelen < 2 ^ 16) : s.Met [] (s.p + 1) (s.advance 1) := by
  refine ⟨by simp, (advance_namelen s 1).trans (Nat.mod_eq_of_lt hn).symm, ?_, ?_⟩
  · rw [advance_newPos, Nat.add_sub_cancel_left]
  · rw [advance_newRemain, Nat.add_sub_cancel_left]

theorem Met.label (h : ((s.advance (n + 1)).label (s.p + n + 1) n).Met ls q s') (hq : s.p + n + 1 ≤ q) :
    s.Met ((s.p + 1, n) :: ls) q s' := by
  have h1 := h.labels
  have h2 := h.namelen
  have h3 := h.newPos
  have h4 := h.newRemain
  simp only [LabelScan.label, advance_labels, advance_namelen, advance_got, advance_newPos,
    advance_newRemain] at h1 h2 h3 h4
  have ht : total ((s.p + 1, n) :: ls) = n + total ls := by simp [total]
  refine ⟨by rw [h1, List.length_cons]; omega, by rw [h2, ht]; omega, ?_, ?_⟩
  · rw [h3]; split <;> omega
  · rw [h4]; split <;> omega

theorem Met.jump {l : Nat} (h : (s.jump l n).Met ls q s') : s.Met ((l + 1, n) :: ls) (s.p + 2) s' := by
  have h1 := h.labels
  have h2 := h.namelen
  have h3 := h.newPos
  have h4 := h.newRemain
  simp only [LabelScan.jump, LabelScan.label, advance_labels, advance_namelen,
    advance_newPos, advance_newRemain, if_true] at h1 h2 h3 h4
  have ht : total ((l + 1, n) :: ls) = n + total ls := by simp [total]
  refine ⟨by rw [h1, List.length_cons]; omega, by rw [h2, ht]; omega, ?_, ?_⟩
  · rw [h3, Nat.add_sub_cancel_left]
  · rw [h4, Nat.add_sub_cancel_left]

end LabelScan

section Rounds
variable (hp : s.p < fin) (hk : s.ptrs ≤ MAX_RECURSION_LEVEL)
include hp hk

theorem scanLabels_root (hb : byteAt mem s.p = .ok 0) : scanLabels mem fin s = .ok (s.advance 1) := by
  unfold scanLabels
  rw [if_pos hp, if_neg (not_lt.2 hk)]
  simp only [hb, if_true]

theorem scanLabels_label (hb : byteAt mem s.p = .ok n) (h0 : n ≠ 0) (hc : n &&& COMPRESSION_BITS = 0) :
    scanLabels mem fin s = scanLabels mem fin ((s.advance (n + 1)).label (s.p + n + 1) n) := by
  rw [scanLabels, if_pos hp, if_neg (not_lt.2 hk)]
  simp only [hb]
  rw [if_neg h0, if_neg (not_not.2 hc)]

theorem scanLabels_pointer {b₀ b₁ l : Nat} (hb : byteAt mem s.p = .ok b₀)
    (hc : b₀ &&& COMPRESSION_BITS ≠ 0) (h2 : 1 < fin - s.p) (hb₁ : byteAt mem (s.p + 1) = .ok b₁)
    (hd : decompressLabel mem (uncompressOffset b₀ b₁) (fin.toNat % 2 ^ 16) = .ok (some (l, n)))
    (hl : l ≤ fin) :
    scanLabels mem fin s = scanLabels mem fin (s.jump l n) := by
  have h0 : b₀ ≠ 0 := fun h0 => hc (by rw [h0, Nat.zero_and])
  rw [scanLabels, if_pos hp, if_neg (not_lt.2 hk)]
  simp only [hb]
  rw [if_neg h0, if_pos hc, if_pos h2]
  simp only [hb₁, hd]
  rw [if_neg (not_lt.2 hl)]

end Rounds

theorem scanLabels_past (hp : fin ≤ s.p) : scanLabels mem fin s = .ok s := by
  rw [scanLabels, if_neg (not_lt.2 hp)]

/-- The first loop ends with the labels it has met, or with `return false`. -/
theorem scanLabels_spec (mem : List UInt8) (fin : Int) (s : LabelScan) (hbuf : fin + 1 ≤ mem.length)
    (hn : s.namelen < 2 ^ 16) :
    scanLabels mem fin s = .error .invalid ∨
      ∃ s' k ls q, scanLabels mem fin s = .ok s' ∧ Walk mem fin s.p k ls q ∧
        s.ptrs + k ≤ max s.ptrs (MAX_RECURSION_LEVEL + 1) ∧ s.Met ls q s' := by
  have hmod : ∀ m, m % 2 ^ 16 < 2 ^ 16 := fun m => Nat.mod_lt _ (by norm_num)
  induction s using scanLabels.induct mem fin with
  | case1 s hp hk => exact .inl (by rw [scanLabels, if_pos hp, if_pos hk])
  | case2 s hp hk e hb =>
    have := byteAt_error hb
    omega
  | case3 s hp hk hb =>
    exact .inr ⟨_, 0, [], _, scanLabels_root hp (not_lt.1 hk) hb, .root hp hb,
      le_max_left _ _, s.met_root hn⟩
  | case4 s hp hk b₀ hb h0 hc h2 e hb₁ =>
    have := byteAt_error hb₁
    omega
  | case5 s hp hk b₀ hb h0 hc h2 b₁ hb₁ e hd =>
    obtain ⟨hmax, hlen⟩ := decompressLabel_error hd
    have := Nat.mod_le fin.toNat (2 ^ 16)
    omega
  | case6 s hp hk b₀ hb h0 hc h2 b₁ hb₁ hd =>
    refine .inl ?_
    rw [scanLabels, if_pos hp, if_neg hk]
    simp only [hb]
    rw [if_neg h0, if_pos hc, if_pos h2]
    simp only [hb₁, hd]
  | case7 s hp hk b₀ hb h0 hc h2 b₁ hb₁ l n hd hl =>
    refine .inl ?_
    rw [scanLabels, if_pos hp, if_neg hk]
    simp only [hb]
    rw [if_neg h0, if_pos hc, if_pos h2]
    simp only [hb₁, hd]
    rw [if_pos hl]
  | case8 s hp hk b₀ hb h0 hc h2 b₁ hb₁ l n hd hl ih =>
    rw [scanLabels_pointer hp (not_lt.1 hk) hb hc h2 hb₁ hd (not_lt.1 hl)]
    rcases ih (hmod _) with he | ⟨s', k, ls, q, hs', hw, hle, hmet⟩
    · exact .inl he
    · have hptrs : (s.jump l n).ptrs = s.ptrs + 1 := rfl
      rw [hptrs] at hle
      refine .inr ⟨s', k + 1, _, _, hs', .pointer hp hb hc h2 hb₁ hd (not_lt.1 hl) hw, ?_, hmet.jump⟩
      omega
  | case9 s hp hk b₀ hb h0 hc h2 =>
    refine .inl ?_
    rw [scanLabels, if_pos hp, if_neg hk]
    simp only [hb]
    rw [if_neg h0, if_pos hc, if_neg h2]
  | case10 s hp hk n hb h0 hc ih =>
    rw [scanLabels_label hp (not_lt.1 hk) hb h0 (not_not.1 hc)]
    rcases ih (hmod _) with he | ⟨s', k, ls, q, hs', hw, hle, hmet⟩
    · exact .inl he
    · have hptrs : ((s.advance (n + 1)).label (s.p + n + 1) n).ptrs = s.ptrs := s.advance_ptrs _
      rw [hptrs] at hle
      exact .inr ⟨s', k, _, q, hs', .label hp hb h0 (not_not.1 hc) hw, hle, hmet.label hw.le⟩
  | case11 s hp => exact .inr ⟨s, 0, [], _, scanLabels_past (not_lt.1 hp), .past (not_lt.1 hp),
    le_max_left _ _, s.met_nil hn⟩

/-- The first loop meets every label of a name that takes at most 10 pointers. -/
theorem scanLabels_of_walk (hw : Walk mem fin s.p k ls q) (hk : s.ptrs + k ≤ MAX_RECURSION_LEVEL)
    (hn : s.namelen < 2 ^ 16) :
    ∃ s', scanLabels mem fin s = .ok s' ∧ s.Met ls q s' := by
  have hmod : ∀ m, m % 2 ^ 16 < 2 ^ 16 := fun m => Nat.mod_lt _ (by norm_num)
  generalize hp : s.p = p at hw
  induction hw generalizing s with
  | past h =>
    subst hp
    exact ⟨s, scanLabels_past h, s.met_nil hn⟩
  | root h hb =>
    subst hp
    exact ⟨_, scanLabels_root h (by omega) hb, s.met_root hn⟩
  | @label p n k q ls h hb h0 hc hw ih =>
    subst hp
    obtain ⟨s', hs', hmet⟩ := ih (s := (s.advance (n + 1)).label (s.p + n + 1) n)
      (by simpa [LabelScan.label] using hk) (hmod _) rfl
    exact ⟨s', by rw [scanLabels_label h (by omega) hb h0 hc]; exact hs', hmet.label hw.le⟩
  | @pointer p b₀ b₁ l n k q ls h hb hc h2 hb₁ hd hl hw ih =>
    subst hp
    obtain ⟨s', hs', hmet⟩ := ih (s := s.jump l n) (by show s.ptrs + 1 + k ≤ _; omega) (hmod _) rfl
    exact ⟨s', by rw [scanLabels_pointer h (by omega) hb hc h2 hb₁ hd hl]; exact hs', hmet.jump⟩

/-- The text of a label in the message. -/
def textOf (mem : List UInt8) (l : Nat × Nat) : List UInt8 := (mem.drop l.1).take l.2

/-- Labels with a dot after each. -/
def dotted (labels : List (List UInt8)) : List UInt8 := labels.flatMap fun t => t ++ ['.'.toUInt8]

theorem copyLabels_of_walk (hw : Walk mem fin p k ls q) (hin : ∀ l ∈ ls, l.1 + l.2 ≤ mem.length)
    {fuel : Nat} (hfuel : ls.length < fuel) :
    copyLabels mem fin fuel p = .ok (dotted (ls.map (textOf mem))) := by
  induction hw generalizing fuel with
  | past hp =>
    obtain ⟨f, rfl⟩ := Nat.exists_eq_add_one_of_ne_zero (Nat.ne_zero_of_lt hfuel)
    unfold copyLabels
    rw [if_neg (not_lt.2 hp)]
    rfl
  | root hp hb =>
    obtain ⟨f, rfl⟩ := Nat.exists_eq_add_one_of_ne_zero (Nat.ne_zero_of_lt hfuel)
    unfold copyLabels
    rw [if_pos hp, hb]
    rfl
  | @label p n k q ls hp hb h0 hc _ ih =>
    obtain ⟨f, rfl⟩ := Nat.exists_eq_add_one_of_ne_zero (Nat.ne_zero_of_lt hfuel)
    have htext : memcpy mem (p + 1) n = .ok (textOf mem (p + 1, n)) := if_pos (hin _ List.mem_cons_self)
    have hrest := ih (fun l hl => hin l (List.mem_cons_of_mem _ hl)) (Nat.lt_of_succ_lt_succ hfuel)
    unfold copyLabels
    rw [if_pos hp, hb]
    show (if n = 0 then _ else _) = _
    rw [if_neg h0, if_neg (not_not.2 hc), htext]
    show (copyLabels mem fin f (p + n + 1) >>= _) = _
    rw [hrest]
    simp [dotted, Bind.bind, Except.bind]
  | @pointer p b₀ b₁ l n k q ls hp hb hc h2 hb₁ hd hl _ ih =>
    obtain ⟨f, rfl⟩ := Nat.exists_eq_add_one_of_ne_zero (Nat.ne_zero_of_lt hfuel)
    have h0 : b₀ ≠ 0 := fun h0 => hc (by rw [h0, Nat.zero_and])
    have htext : memcpy mem (l + 1) n = .ok (textOf mem (l + 1, n)) := if_pos (hin _ List.mem_cons_self)
    have hrest := ih (fun l hl => hin l (List.mem_cons_of_mem _ hl)) (Nat.lt_of_succ_lt_succ hfuel)
    unfold copyLabels
    rw [if_pos hp, hb]
    show (if b₀ = 0 then _ else _) = _
    rw [if_neg h0, if_pos hc, hb₁]
    show (decompressLabel mem (uncompressOffset b₀ b₁) (fin.toNat % 2 ^ 16) >>= _) = _
    rw [hd]
    show (memcpy mem (l + 1) n >>= _) = _
    rw [htext]
    show (copyLabels mem fin f (l + n + 1) >>= _) = _
    rw [hrest]
    simp [dotted, Bind.bind, Except.bind]

theorem length_dotted (hin : ∀ l ∈ ls, l.1 + l.2 ≤ mem.length) :
    (dotted (ls.map (textOf mem))).length = total ls + ls.length := by
  induction ls with
  | nil => rfl
  | cons l ls ih =>
    have hl := hin l List.mem_cons_self
    have hrest := ih fun l' hl' => hin l' (List.mem_cons_of_mem _ hl')
    have ht : total (l :: ls) = l.2 + total ls := by simp [total]
    have hlen : (textOf mem l).length = l.2 := by
      unfold textOf
      rw [List.length_take, List.length_drop]
      omega
    have hcons : dotted ((l :: ls).map (textOf mem)) =
        textOf mem l ++ '.'.toUInt8 :: dotted (ls.map (textOf mem)) := by
      simp [dotted]
    rw [hcons, List.length_append, List.length_cons, hrest, ht, hlen, List.length_cons]
    omega

theorem parseLabels_of_met {pos : Nat} {remain : Int} {r : Nat} (hr : pos + remain = r)
    (hsize : r ≤ 4096) (hbuf : r + 256 ≤ mem.length)
    (hs : scanLabels mem r ⟨pos, 0, 0, 0, pos, remain, false⟩ = .ok s') (hw : Walk mem r pos k ls q)
    (hk : k ≤ MAX_RECURSION_LEVEL + 1)
    (hmet : LabelScan.Met ⟨pos, 0, 0, 0, pos, remain, false⟩ ls q s') (makeName : Bool) :
    parseLabels mem pos remain makeName =
      .ok (if makeName then some (dotted (ls.map (textOf mem))).dropLast
        else none, q, (r : Int) - q) := by
  have hpos : s'.newPos = q := by
    have h := hmet.newPos
    have := hw.le
    simp only [Bool.false_eq_true, if_false] at h
    omega
  have hremain : s'.newRemain = (r : Int) - q := by
    have h := hmet.newRemain
    have := hw.le
    simp only [Bool.false_eq_true, if_false] at h
    omega
  have hin : ∀ l ∈ ls, l.1 + l.2 ≤ mem.length := fun l hl => by
    have := hw.bounded l hl
    omega
  have hlabels : s'.labels = ls.length := hmet.labels.trans (Nat.zero_add _)
  have hnamelen : s'.namelen = total ls := by
    have h := hmet.namelen
    have htot := hw.total_le
    have : k * ((r : Int).toNat + 256) ≤ 11 * (4096 + 256) := Nat.mul_le_mul hk (by omega)
    dsimp only at h
    omega
  unfold parseLabels
  dsimp only
  rw [hr, hs]
  show (if makeName then _ else _) = _
  cases makeName
  · rw [if_neg Bool.false_ne_true, if_neg Bool.false_ne_true, hpos, hremain]
  · rw [if_pos rfl, if_pos rfl]
    have hcopy : copyLabels mem r (s'.labels + 1) pos = _ := copyLabels_of_walk hw hin (by omega)
    show (copyLabels mem r (s'.labels + 1) pos >>= _) = _
    rw [hcopy]
    show (if _ then _ else _) = _
    rw [length_dotted hin, if_pos (by omega), hpos, hremain]

/-- In a message of at most 4096 bytes, with 256 bytes of the buffer behind it, `rdns_parse_labels`
ends, reads the buffer only and keeps to what it has allocated, whatever the bytes are; and `*pos`
and `*remain` stay in step. What it takes for the name is what the labels and the pointers spell. -/
theorem parseLabels_safe {pos : Nat} {remain : Int} {r : Nat} (hr : pos + remain = r)
    (hsize : r ≤ 4096) (hbuf : r + 256 ≤ mem.length) (makeName : Bool) :
    parseLabels mem pos remain makeName = .error .invalid ∨
      ∃ k ls q, Walk mem r pos k ls q ∧ k ≤ MAX_RECURSION_LEVEL + 1 ∧ pos ≤ q ∧
      (q : Int) ≤ max (pos : Int) (r + 64) ∧
        parseLabels mem pos remain makeName =
          .ok (if makeName then some (dotted (ls.map (textOf mem))).dropLast
            else none, q, (r : Int) - q) := by
  have hspec := scanLabels_spec mem r ⟨pos, 0, 0, 0, pos, remain, false⟩ (by omega) (by norm_num)
  rcases hspec with he | ⟨s', k, ls, q, hs, hw, hk, hmet⟩
  · left
    unfold parseLabels
    dsimp only
    rw [hr, he]
    rfl
  · have hk' : k ≤ MAX_RECURSION_LEVEL + 1 := by
      dsimp only at hk
      omega
    exact .inr ⟨k, ls, q, hw, hk', hw.le, hw.after_le,
      parseLabels_of_met hr hsize hbuf hs hw hk' hmet makeName⟩

/-- A label, then a pointer to a label that is met again: the bytes go round, the parser does not. -/
theorem parseLabels_safe_loop :
    ∃ mem : List UInt8, mem = [1, 0x61, 0xC0, 0] ++ List.replicate 256 0 ∧
      (parseLabels mem 0 4 true = .error .invalid ∨
        ∃ k ls q, Walk mem (4 : Nat) 0 k ls q ∧ k ≤ MAX_RECURSION_LEVEL + 1 ∧ 0 ≤ q ∧
        (q : Int) ≤ max 0 (4 + 64) ∧
          parseLabels mem 0 4 true =
            .ok (if true then some (dotted (ls.map (textOf mem))).dropLast
              else none, q, (4 : Int) - q)) :=
  ⟨_, rfl, parseLabels_safe (r := 4) (by decide) (by decide)
    (by rw [List.length_append, List.length_replicate]; decide) true⟩

theorem parseLabels_of_walk {pos : Nat} {remain : Int} {r : Nat} (hr : pos + remain = r)
    (hsize : r ≤ 4096) (hbuf : r + 256 ≤ mem.length) (hw : Walk mem r pos k ls q)
    (hk : k ≤ MAX_RECURSION_LEVEL) (makeName : Bool) :
    parseLabels mem pos remain makeName =
      .ok (if makeName then some (dotted (ls.map (textOf mem))).dropLast
        else none, q, (r : Int) - q) := by
  obtain ⟨s', hs, hmet⟩ := scanLabels_of_walk (s := ⟨pos, 0, 0, 0, pos, remain, false⟩) hw
    (by dsimp only; omega) (by norm_num)
  exact parseLabels_of_met hr hsize hbuf hs hw (by omega) hmet makeName

end Resend.Dns

import Resend.Lib.Bootstring

/-!
# Labels in ASCII (punycode.c)

`rdns_punycode_label_toascii` writes the code points of a label that are not ASCII as numbers, by
size and from left to right. A decoder that reads these numbers keeps pace with it: after every code
point that has been written it has built the label up to there (`Encodes`), so that it gets the
label back from what is written.
-/

namespace Resend.Dns
namespace Punycode

def base : Nat := 36
def tMin : Nat := 1
def tMax : Nat := 26
def skew : Nat := 38
def damp : Nat := 700
def initialN : Nat := 128
def initialBias : Nat := 72

def ascii : List Char := "abcdefghijklmnopqrstuvwxyz0123456789".toList

def digit (n : Nat) : UInt8 := (ascii.getD n ' ').toNat.toUInt8

def adaptLoop (delta k : Nat) : Nat × Nat :=
  if ((base - tMin) * tMax) / 2 < delta then adaptLoop (delta / (base - tMin)) (k + base)
  else (delta, k)
termination_by delta
decreasing_by exact Nat.div_lt_self (by omega) (by decide)

def adapt (delta numpoints : Nat) (first : Bool) : Nat :=
  let delta := if first then delta / damp else delta / 2
  let delta := delta + delta / numpoints
  let r := adaptLoop delta 0
  r.2 + ((base - tMin + 1) * r.1) / (r.1 + skew)

def threshold (bias k : Nat) : Nat :=
  if k ≤ bias then tMin else if bias + tMax ≤ k then tMax else k - bias

theorem threshold_pos (bias k : Nat) : 0 < threshold bias k := by
  unfold threshold tMin tMax
  split_ifs <;> omega

theorem threshold_lt (bias k : Nat) : threshold bias k < base := by
  unfold threshold tMin tMax base
  split_ifs <;> omega

/-- `if (o >= *out_len) return ..; out[o++] = c`: what was written before is left in `out`. -/
def put (cap : Nat) (out : List UInt8) (c : UInt8) : Except (List UInt8) (List UInt8) :=
  if cap ≤ out.length then .error out else .ok (out ++ [c])

/-- The loop over `k` that writes `delta`. -/
def emitDelta (cap bias k q : Nat) (out : List UInt8) : Except (List UInt8) (List UInt8) :=
  if q < threshold bias k then put cap out (digit q)
  else
    match put cap out
      (digit (threshold bias k + (q - threshold bias k) % (base - threshold bias k))) with
    | .error e => .error e
    | .ok out => emitDelta cap bias (k + base) ((q - threshold bias k) / (base - threshold bias k)) out
termination_by q
decreasing_by
  have := threshold_pos bias k
  exact lt_of_le_of_lt (Nat.div_le_self _ _) (by omega)

/-- `delta`, `bias`, `h` and `out`; the sums of unsigned ints wrap. -/
structure Encoder where
  delta : Nat
  bias : Nat
  h : Nat
  out : List UInt8
  deriving DecidableEq, Repr

/-- One round of the inner loop, with `n` the code point that is written now. -/
def scanPoint (cap b n : Nat) (st : Encoder) (c : Nat) : Except (List UInt8) Encoder :=
  if c < n then .ok { st with delta := (st.delta + 1) % 2 ^ 32 }
  else if c = n then
    match emitDelta cap st.bias base st.delta st.out with
    | .error e => .error e
    | .ok out => .ok ⟨0, adapt st.delta (st.h + 1) (st.h == b), st.h + 1, out⟩
  else .ok st

/-- The inner loop. -/
def scanPoints (cap b n : Nat) (u : List Nat) (st : Encoder) : Except (List UInt8) Encoder :=
  u.foldlM (scanPoint cap b n) st

/-- The loop that looks for the next code point. -/
def smallest (u : List Nat) (n : Nat) : Nat :=
  u.foldl (fun m c => if c < m ∧ n ≤ c then c else m) (2 ^ 32 - 1)

/-- The outer loop. The inner check is the model's own: while code points are left, one of them is
not below `n`. -/
def encodeLoop (cap b : Nat) (u : List Nat) (n : Nat) (st : Encoder) :
    Except (List UInt8) (List UInt8) :=
  if st.h < u.length then
    if _hm : smallest u n ∈ u ∧ n ≤ smallest u n then
      match scanPoints cap b (smallest u n) u
        { st with delta := (st.delta + (smallest u n - n) * (st.h + 1)) % 2 ^ 32 } with
      | .error e => .error e
      | .ok st => encodeLoop cap b u (smallest u n + 1) { st with delta := (st.delta + 1) % 2 ^ 32 }
    else .error st.out
  else .ok st.out
termination_by (u.filter (n ≤ ·)).length
decreasing_by
  have hsub : u.filter (smallest u n + 1 ≤ ·) = (u.filter (n ≤ ·)).filter (smallest u n + 1 ≤ ·) := by
    rw [List.filter_filter]
    refine List.filter_congr fun c _ => ?_
    have := _hm.2
    by_cases h : smallest u n + 1 ≤ c
    · have : n ≤ c := by omega
      simp [h, this]
    · simp [h]
  rw [hsub]
  refine List.length_filter_lt_length_iff_exists.2 ⟨smallest u n,
    List.mem_filter.2 ⟨_hm.1, by simpa using _hm.2⟩, by simp⟩

/-- The ASCII code points of the label are written first. -/
def putBasic (cap : Nat) (out : List UInt8) (c : Nat) : Except (List UInt8) (List UInt8) :=
  if c < 0x80 then put cap out c.toUInt8 else .ok out

def hyphen : UInt8 := 0x2D
def acePrefix : List UInt8 := [0x78, 0x6E, 0x2D, 0x2D]

def putHyphen (cap b : Nat) (out : List UInt8) : Except (List UInt8) (List UInt8) :=
  if 0 < b then put cap out hyphen else .ok out

/-- `memmove (out + 4, out, o); memcpy (out, "xn--", 4)` -/
def putPrefix (cap b len : Nat) (out : List UInt8) : Except (List UInt8) (List UInt8) :=
  if b < len then if cap ≤ out.length + 4 then .error out else .ok (acePrefix ++ out) else .ok out

/-- `rdns_punycode_label_toascii` with room for `cap` bytes; `error` is a return before `*out_len`
is set. -/
def labelToAscii (cap : Nat) (u : List Nat) : Except (List UInt8) (List UInt8) := do
  let out ← u.foldlM (putBasic cap) []
  let b := (u.filter (· < 0x80)).length
  let out ← putHyphen cap b out
  let out ← putPrefix cap b u.length out
  encodeLoop cap b u initialN ⟨0, initialBias, b, out⟩

/-! ## The decoder -/

/-- The numbers of the encoder while its bias is `bias`. -/
def radix (bias : Nat) : Radix where
  base := base
  threshold i := threshold bias (base * (i + 1))
  pos _ := threshold_pos _ _
  lt _ := threshold_lt _ _

def digitValue (c : UInt8) : Option Nat := ascii.findIdx? fun a => a.toNat.toUInt8 == c

/-- What a decoder knows: the code point and the place that the next number is counted from, and the
label so far. -/
structure Decoder where
  n : Nat
  i : Nat
  bias : Nat
  out : List Nat

namespace Decoder

/-- The next code point, `delta` steps on. -/
def next (d : Decoder) (delta : Nat) : Decoder where
  n := d.n + (d.i + delta) / (d.out.length + 1)
  i := (d.i + delta) % (d.out.length + 1) + 1
  bias := adapt delta (d.out.length + 1) (d.i == 0)
  out := d.out.insertIdx ((d.i + delta) % (d.out.length + 1)) (d.n + (d.i + delta) / (d.out.length + 1))

def run (d : Decoder) (ds : List Nat) : Option (List Nat) :=
  if ds = [] then some d.out
  else
    match _h : (radix d.bias).read 0 ds with
    | none => none
    | some (delta, rest) => run (d.next delta) rest
termination_by ds.length
decreasing_by exact Radix.read_length _ _h

end Decoder

/-- The label that an ASCII label stands for: the code points after the last hyphen go into the ones
before it. -/
def decodeLabel (bs : List UInt8) : Option (List Nat) :=
  if bs.take 4 = acePrefix then
    let s := (bs.drop 4).reverse
    let basic := ((s.dropWhile (· ≠ hyphen)).drop 1).reverse
    let numbers := (s.takeWhile (· ≠ hyphen)).reverse
    (numbers.mapM digitValue).bind (Decoder.run ⟨initialN, 0, initialBias, basic.map (·.toNat)⟩)
  else none

variable {cap b n j bias q : Nat} {u : List Nat} {out out' : List UInt8} {st st' : Encoder}
  {d : Decoder}

theorem digitValue_digit {n : Nat} (hn : n < base) : digitValue (digit n) = some n := by
  have hall : ∀ m : Fin base, digitValue (digit m.val) = some m.val := by decide +kernel
  exact hall ⟨n, hn⟩

theorem digit_ne_hyphen {n : Nat} (hn : n < base) : digit n ≠ hyphen := by
  have hall : ∀ m : Fin base, digit m.val ≠ hyphen := by decide +kernel
  exact hall ⟨n, hn⟩

theorem put_ok {c : UInt8} (h : put cap out c = .ok out') : out' = out ++ [c] ∧ out'.length ≤ cap := by
  unfold put at h
  split_ifs at h with hc
  cases h
  rw [List.length_append, List.length_singleton]
  exact ⟨rfl, by omega⟩

theorem emitDelta_ok (i : Nat) (h : emitDelta cap bias (base * (i + 1)) q out = .ok out') :
    out' = out ++ ((radix bias).digits i q).map digit ∧ out'.length ≤ cap := by
  induction i, q using Radix.digits.induct (radix bias) generalizing out with
  | case1 i q hq =>
    have hq' : q < threshold bias (base * (i + 1)) := hq
    rw [emitDelta, if_pos hq'] at h
    rw [Radix.digits, if_pos hq]
    exact put_ok h
  | case2 i q hq ih =>
    have hq' : ¬ q < threshold bias (base * (i + 1)) := hq
    rw [emitDelta, if_neg hq'] at h
    rw [Radix.digits, if_neg hq]
    split at h
    · cases h
    · rename_i out₁ hput
      have hk : base * (i + 1) + base = base * (i + 1 + 1) := by ring
      rw [hk] at h
      obtain ⟨he, hlen⟩ := ih h
      refine ⟨?_, hlen⟩
      rw [he, (put_ok hput).1, List.append_assoc]
      rfl

namespace Decoder

theorem run_nil (d : Decoder) : d.run [] = some d.out := by
  rw [run, if_pos rfl]

theorem run_digits (d : Decoder) (delta : Nat) (rest : List Nat) :
    d.run ((radix d.bias).digits 0 delta ++ rest) = (d.next delta).run rest := by
  have hne : (radix d.bias).digits 0 delta ++ rest ≠ [] := fun h =>
    Radix.digits_ne_nil _ _ _ (List.append_eq_nil_iff.1 h).1
  rw [run, if_neg hne]
  have hread := (radix d.bias).read_digits 0 delta rest
  split
  · rename_i hnone
    rw [hread] at hnone
    cases hnone
  · rename_i delta' rest' hsome
    rw [hread] at hsome
    cases hsome
    rfl

end Decoder

/-- The decoder `d` is where the encoder is: it has read what has been written after `before`, it
has built `u` up to the code points below `n` and those equal to `n` among the first `j`, and it is
`delta` steps behind. -/
structure Encodes (cap : Nat) (u : List Nat) (d₀ : Decoder) (before : List UInt8) (b n j : Nat)
    (st : Encoder) (d : Decoder) : Prop where
  written : ∃ ds, st.out = before ++ ds.map digit ∧ (∀ x ∈ ds, x < base) ∧
    ∀ rest, d₀.run (ds ++ rest) = d.run rest
  out : d.out = Insertion.built u n j
  len : d.out.length = st.h
  bias : d.bias = st.bias
  behind : d.n * (st.h + 1) + d.i + st.delta = n * (st.h + 1) + Insertion.place u n j
  first : d.i = 0 ↔ st.h = b
  basic : b ≤ st.h
  room : st.h ≤ st.out.length ∧ st.out.length ≤ cap

namespace Encodes
variable {d₀ : Decoder} {before : List UInt8}

/-- The sums do not wrap: the encoder is never further ahead than the code points there are. -/
theorem delta_le (h : Encodes cap u d₀ before b n j st d) (hn : n ≤ 2 ^ 21) (hcap : cap < 2 ^ 10) :
    st.delta + 1 < 2 ^ 32 := by
  have hb := h.behind
  have hp : Insertion.place u n j ≤ st.h := by
    rw [← h.len, h.out]
    exact Insertion.place_le
  have hmul : n * (st.h + 1) ≤ 2 ^ 21 * 2 ^ 10 := Nat.mul_le_mul hn (by have := h.room; omega)
  have := h.room
  omega

theorem n_le (h : Encodes cap u d₀ before b n j st d) :
    d.n + (d.i + st.delta) / (st.h + 1) = n ∧
      (d.i + st.delta) % (st.h + 1) = Insertion.place u n j := by
  have hb := h.behind
  have hp : Insertion.place u n j < st.h + 1 := by
    rw [← h.len, h.out]
    exact Nat.lt_succ_of_le Insertion.place_le
  constructor
  · have hdiv : (d.n * (st.h + 1) + (d.i + st.delta)) / (st.h + 1) =
        d.n + (d.i + st.delta) / (st.h + 1) := by
      rw [Nat.add_comm, Nat.add_mul_div_right _ _ (Nat.succ_pos _), Nat.add_comm]
    rw [← hdiv, ← Nat.add_assoc, hb, Nat.add_comm,
      Nat.add_mul_div_right _ _ (Nat.succ_pos _), Nat.div_eq_of_lt hp, Nat.zero_add]
  · have hmod : (d.n * (st.h + 1) + (d.i + st.delta)) % (st.h + 1) = (d.i + st.delta) % (st.h + 1) := by
      rw [Nat.add_comm, Nat.add_mul_mod_self_right]
    rw [← hmod, ← Nat.add_assoc, hb, Nat.add_comm, Nat.add_mul_mod_self_right, Nat.mod_eq_of_lt hp]

theorem scanPoint (h : Encodes cap u d₀ before b n j st d) (hj : j < u.length) (hn : n ≤ 2 ^ 21)
    (hcap : cap < 2 ^ 10) (hs : Punycode.scanPoint cap b n st u[j] = .ok st') :
    ∃ d', Encodes cap u d₀ before b n (j + 1) st' d' := by
  unfold Punycode.scanPoint at hs
  split_ifs at hs with hlt heq
  · cases hs
    obtain ⟨hbuilt, hplace⟩ := Insertion.below hj hlt
    have hb := h.behind
    refine ⟨d, h.written, h.out.trans hbuilt.symm, h.len, h.bias, ?_, h.first, h.basic, h.room⟩
    dsimp only
    rw [Nat.mod_eq_of_lt (h.delta_le hn hcap), hplace]
    omega
  · split at hs
    · cases hs
    · rename_i out hemit
      cases hs
      obtain ⟨hout, hlen⟩ := emitDelta_ok 0 hemit
      obtain ⟨hbuilt, hplace⟩ := Insertion.insert hj heq
      obtain ⟨hdiv, hmod⟩ := h.n_le
      obtain ⟨ds, hds, hlt, hrun⟩ := h.written
      have hd : d.next st.delta = ⟨n, Insertion.place u n j + 1, adapt st.delta (st.h + 1) (st.h == b),
          Insertion.built u n (j + 1)⟩ := by
        have hfirst : (d.i == 0) = (st.h == b) := by
          rw [Bool.eq_iff_iff, beq_iff_eq, beq_iff_eq]
          exact h.first
        unfold Decoder.next
        rw [h.len, hdiv, hmod, hfirst, hbuilt, h.out]
      refine ⟨d.next st.delta, ⟨ds ++ (radix st.bias).digits 0 st.delta, ?_, ?_, fun rest => ?_⟩,
        ?_, ?_, ?_, ?_, ?_, h.basic.trans (Nat.le_succ _), ?_⟩
      · dsimp only
        rw [hout, hds, List.map_append, List.append_assoc]
      · intro x hx
        rcases List.mem_append.1 hx with hx | hx
        · exact hlt x hx
        · exact (radix st.bias).digits_lt 0 st.delta x hx
      · rw [List.append_assoc, hrun, ← h.bias]
        exact d.run_digits st.delta rest
      · rw [hd]
      · rw [hd]
        dsimp only
        rw [hbuilt, ← h.out, List.length_insertIdx_of_le_length, h.len]
        rw [h.out]
        exact Insertion.place_le
      · rw [hd]
      · rw [hd]
        dsimp only
        rw [hplace]
        omega
      · have := h.basic
        rw [hd]
        dsimp only
        omega
      · dsimp only
        have := h.room
        have hne := (radix st.bias).digits_ne_nil 0 st.delta
        have hpos := List.length_pos_iff.2 hne
        rw [hout, List.length_append, List.length_map] at hlen ⊢
        omega
  · cases hs
    obtain ⟨hbuilt, hplace⟩ := Insertion.above hj (lt_of_le_of_ne (not_lt.1 hlt) (Ne.symm heq))
    refine ⟨d, h.written, h.out.trans hbuilt.symm, h.len, h.bias, ?_, h.first, h.basic, h.room⟩
    rw [hplace]
    exact h.behind

theorem scan (h : Encodes cap u d₀ before b n j st d) (hn : n ≤ 2 ^ 21) (hcap : cap < 2 ^ 10)
    (hj : j ≤ u.length) (hs : scanPoints cap b n (u.drop j) st = .ok st') :
    ∃ d', Encodes cap u d₀ before b n u.length st' d' := by
  unfold scanPoints at hs
  obtain ⟨k, hk⟩ : ∃ k, j + k = u.length := ⟨u.length - j, by omega⟩
  induction k generalizing j st d with
  | zero =>
    have hj : j = u.length := hk
    rw [hj, List.drop_length] at hs
    cases hs
    exact ⟨d, hj ▸ h⟩
  | succ k ih =>
    have hlt : j < u.length := by omega
    rw [List.drop_eq_getElem_cons hlt, List.foldlM_cons] at hs
    cases hp : Punycode.scanPoint cap b n st u[j] with
    | error e => rw [hp] at hs; cases hs
    | ok st₁ =>
      rw [hp] at hs
      obtain ⟨d₁, h₁⟩ := h.scanPoint hlt hn hcap hp
      exact ih h₁ hlt hs (by omega)

theorem skip {m : Nat} (h : Encodes cap u d₀ before b n 0 st d) (hnm : n ≤ m) (hm : m ≤ 2 ^ 21)
    (hcap : cap < 2 ^ 10) (hnone : ∀ c ∈ u, n ≤ c → m ≤ c) :
    Encodes cap u d₀ before b m 0 { st with delta := (st.delta + (m - n) * (st.h + 1)) % 2 ^ 32 }
      d := by
  have hb := h.behind
  have hmul : (m - n) * (st.h + 1) + n * (st.h + 1) = m * (st.h + 1) := by
    rw [← Nat.add_mul, Nat.sub_add_cancel hnm]
  have hle : m * (st.h + 1) ≤ 2 ^ 21 * 2 ^ 10 := Nat.mul_le_mul hm (by have := h.room; omega)
  have hplace : ∀ k, Insertion.place u k 0 = 0 := fun _ => Insertion.place_zero
  rw [hplace] at hb
  have hbuilt : Insertion.built u n 0 = Insertion.built u m 0 := by
    rw [Insertion.built_zero, Insertion.built_zero]
    refine List.filter_congr fun c hc => ?_
    have := hnone c hc
    by_cases hcn : c < n
    · simp [hcn, hcn.trans_le hnm]
    · have : ¬ c < m := by omega
      simp [hcn, this]
  refine ⟨h.written, h.out.trans hbuilt, h.len, h.bias, ?_, h.first, h.basic, h.room⟩
  dsimp only
  rw [Nat.mod_eq_of_lt (by omega), hplace]
  omega

theorem finish (h : Encodes cap u d₀ before b n u.length st d) (hn : n ≤ 2 ^ 21) (hcap : cap < 2 ^ 10) :
    Encodes cap u d₀ before b (n + 1) 0 { st with delta := (st.delta + 1) % 2 ^ 32 } d := by
  have hb := h.behind
  have hplace : Insertion.place u n u.length = st.h := by
    rw [Insertion.place_length, ← h.len, h.out, Insertion.built_length]
  have hbuilt : Insertion.built u n u.length = Insertion.built u (n + 1) 0 := by
    rw [Insertion.built_length, Insertion.built_zero]
    exact List.filter_congr fun c _ => decide_eq_decide.2 Nat.lt_succ_iff.symm
  refine ⟨h.written, h.out.trans hbuilt, h.len, h.bias, ?_, h.first, h.basic, h.room⟩
  dsimp only
  rw [Nat.mod_eq_of_lt (h.delta_le hn hcap), Insertion.place_zero, Nat.add_mul]
  omega

theorem complete (h : Encodes cap u d₀ before b n 0 st d) (hge : u.length ≤ st.h) : d.out = u := by
  have hlen := h.len
  rw [h.out, Insertion.built_zero] at hlen ⊢
  exact List.length_filter_eq_length_iff.1 (le_antisymm (List.length_filter_le _ _) (by omega))
    |> List.filter_eq_self.2

end Encodes

theorem smallest_le {c : Nat} (hc : c ∈ u) (hn : n ≤ c) : smallest u n ≤ c := by
  have hloop : ∀ (v : List Nat) (m : Nat), v.foldl (fun m c => if c < m ∧ n ≤ c then c else m) m ≤ m ∧
      ∀ c ∈ v, n ≤ c → v.foldl (fun m c => if c < m ∧ n ≤ c then c else m) m ≤ c := by
    intro v
    induction v with
    | nil => exact fun m => ⟨le_rfl, by simp⟩
    | cons x v ih =>
      intro m
      rw [List.foldl_cons]
      obtain ⟨h1, h2⟩ := ih (if x < m ∧ n ≤ x then x else m)
      refine ⟨h1.trans (by split_ifs <;> omega), fun c hc hnc => ?_⟩
      rcases List.mem_cons.1 hc with rfl | hc
      · exact h1.trans (by split_ifs <;> omega)
      · exact h2 c hc hnc
  exact (hloop u _).2 c hc hn

theorem encodeLoop_ok {d₀ : Decoder} {before : List UInt8} (hu : ∀ c ∈ u, c < 2 ^ 21)
    (hcap : cap < 2 ^ 10) (h : Encodes cap u d₀ before b n 0 st d)
    (hs : encodeLoop cap b u n st = .ok out) :
    ∃ ds, out = before ++ ds.map digit ∧ (∀ x ∈ ds, x < base) ∧
      d₀.run ds = some u ∧ out.length ≤ cap := by
  induction n, st using encodeLoop.induct cap b u generalizing d with
  | case1 n st hlt hm e hscan =>
    rw [encodeLoop, if_pos hlt, dif_pos hm] at hs
    rw [hscan] at hs
    cases hs
  | case2 n st hlt hm st' hscan ih =>
    rw [encodeLoop, if_pos hlt, dif_pos hm] at hs
    rw [hscan] at hs
    have hm21 : smallest u n ≤ 2 ^ 21 := (hu _ hm.1).le
    obtain ⟨d', h'⟩ := (h.skip hm.2 hm21 hcap fun c hc hnc => smallest_le hc hnc).scan hm21 hcap
      (Nat.zero_le _) hscan
    exact ih (h'.finish hm21 hcap) hs
  | case3 n st hlt hm =>
    rw [encodeLoop, if_pos hlt, dif_neg hm] at hs
    cases hs
  | case4 n st hge =>
    rw [encodeLoop, if_neg hge] at hs
    cases hs
    obtain ⟨ds, hds, hlt, hrun⟩ := h.written
    refine ⟨ds, hds, hlt, ?_, h.room.2⟩
    have hlast := hrun []
    rw [List.append_nil, Decoder.run_nil, h.complete (not_lt.1 hge)] at hlast
    exact hlast

theorem foldlM_putBasic (hs : u.foldlM (putBasic cap) out = .ok out') :
    out' = out ++ (u.filter (· < 0x80)).map Nat.toUInt8 ∧ (out.length ≤ cap → out'.length ≤ cap) := by
  induction u generalizing out with
  | nil =>
    cases hs
    exact ⟨by simp, id⟩
  | cons c u ih =>
    rw [List.foldlM_cons] at hs
    unfold putBasic at hs
    split_ifs at hs with hc
    · cases hp : put cap out c.toUInt8 with
      | error e => rw [hp] at hs; cases hs
      | ok out₁ =>
        rw [hp] at hs
        obtain ⟨he, hlen⟩ := put_ok hp
        obtain ⟨hout, hcap⟩ := ih hs
        refine ⟨?_, fun _ => hcap hlen⟩
        rw [hout, he, List.filter_cons_of_pos (by simpa using hc), List.map_cons, List.append_assoc]
        rfl
    · obtain ⟨hout, hcap⟩ := ih hs
      refine ⟨?_, hcap⟩
      rw [hout, List.filter_cons_of_neg (by simpa using hc)]

theorem mapM_digitValue {ds : List Nat} (h : ∀ x ∈ ds, x < base) :
    (ds.map digit).mapM digitValue = some ds := by
  induction ds with
  | nil => rfl
  | cons x ds ih =>
    rw [List.map_cons, List.mapM_cons, digitValue_digit (h x List.mem_cons_self),
      ih fun y hy => h y (List.mem_cons_of_mem _ hy)]
    rfl

/-- The ASCII bytes of a label and the hyphen after them. -/
def basicBytes (u : List Nat) : List UInt8 := (u.filter (· < 0x80)).map Nat.toUInt8

def delimited (u : List Nat) : List UInt8 :=
  basicBytes u ++ if 0 < (u.filter (· < 0x80)).length then [hyphen] else []

theorem basicBytes_toNat (u : List Nat) : (basicBytes u).map (·.toNat) = u.filter (· < 0x80) := by
  unfold basicBytes
  rw [List.map_map]
  refine (List.map_congr_left fun c hc => ?_).trans (List.map_id _)
  have hlt : c < 0x80 := by simpa using (List.mem_filter.1 hc).2
  show c.toUInt8.toNat = c
  simp only [Nat.toUInt8, UInt8.toNat_ofNat']
  omega

theorem labelToAscii_ok (hne : ∃ c ∈ u, 0x80 ≤ c) (hs : labelToAscii cap u = .ok out) :
    ∃ before, before = acePrefix ++ delimited u ∧ before.length ≤ cap ∧
      encodeLoop cap (u.filter (· < 0x80)).length u initialN
        ⟨0, initialBias, (u.filter (· < 0x80)).length, before⟩ = .ok out := by
  have hlt : (u.filter (· < 0x80)).length < u.length := by
    obtain ⟨c, hc, hc80⟩ := hne
    exact List.length_filter_lt_length_iff_exists.2 ⟨c, hc, by simpa using hc80⟩
  unfold labelToAscii at hs
  cases hb : u.foldlM (putBasic cap) [] with
  | error e => rw [hb] at hs; cases hs
  | ok out₁ =>
    rw [hb] at hs
    have hout₁ : out₁ = basicBytes u := (foldlM_putBasic hb).1
    cases hd : putHyphen cap (u.filter (· < 0x80)).length out₁ with
    | error e => simp only [Bind.bind, Except.bind, hd] at hs; cases hs
    | ok out₂ =>
      have hout₂ : out₂ = delimited u := by
        unfold putHyphen at hd
        unfold delimited
        split_ifs at hd ⊢
        · rw [(put_ok hd).1, hout₁]
        · cases hd
          rw [hout₁, List.append_nil]
      simp only [Bind.bind, Except.bind, hd, putPrefix] at hs
      rw [if_pos hlt] at hs
      split_ifs at hs with hcap
      refine ⟨_, rfl, ?_, by rw [← hout₂]; exact hs⟩
      rw [← hout₂, List.length_append]
      show 4 + _ ≤ _
      omega

theorem encodes_start {before : List UInt8} (hb : before = acePrefix ++ delimited u)
    (hcap : before.length ≤ cap) :
    Encodes cap u ⟨initialN, 0, initialBias,
      u.filter (· < 0x80)⟩ before (u.filter (· < 0x80)).length initialN 0
      ⟨0, initialBias, (u.filter (· < 0x80)).length, before⟩ ⟨initialN, 0, initialBias,
        u.filter (· < 0x80)⟩ where
  written := ⟨[], by simp, by simp, fun _ => rfl⟩
  out := rfl
  len := rfl
  bias := rfl
  behind := rfl
  first := by simp
  basic := le_rfl
  room := by
    refine ⟨?_, hcap⟩
    show (u.filter (· < 0x80)).length ≤ before.length
    rw [hb, List.length_append, delimited, List.length_append, basicBytes, List.length_map]
    omega

/-- A decoder finds the parts of the ASCII label again. -/
theorem decodeLabel_append {ds : List Nat} (hds : ∀ x ∈ ds, x < base) :
    decodeLabel (acePrefix ++ delimited u ++ ds.map digit) =
      Decoder.run ⟨initialN, 0, initialBias, u.filter (· < 0x80)⟩ ds := by
  have hnot : ∀ a ∈ (ds.map digit).reverse, (a ≠ hyphen : Bool) = true := by
    intro a ha
    obtain ⟨x, hx, rfl⟩ := List.mem_map.1 (List.mem_reverse.1 ha)
    simpa using digit_ne_hyphen (hds x hx)
  unfold decodeLabel
  have htake : (acePrefix ++ (delimited u ++ ds.map digit)).take 4 = acePrefix :=
    List.take_left' (by rfl)
  have hdrop : (acePrefix ++ (delimited u ++ ds.map digit)).drop 4 = delimited u ++ ds.map digit :=
    List.drop_left' (by rfl)
  rw [List.append_assoc, if_pos htake, hdrop]
  dsimp only
  rw [List.reverse_append, List.takeWhile_append_of_pos hnot, List.dropWhile_append_of_pos hnot]
  have htail : ((delimited u).reverse.takeWhile fun a => a ≠ hyphen) = [] ∧
      (((delimited u).reverse.dropWhile fun a => a ≠ hyphen).drop 1).reverse = basicBytes u := by
    unfold delimited
    split_ifs with hpos
    · rw [List.reverse_append]
      simp
    · have hnil : basicBytes u = [] := by
        have hempty : u.filter (· < 0x80) = [] :=
          List.eq_nil_of_length_eq_zero (Nat.eq_zero_of_not_pos hpos)
        unfold basicBytes
        rw [hempty, List.map_nil]
      rw [hnil]
      simp
  rw [htail.1, htail.2, List.append_nil, List.reverse_reverse, mapM_digitValue hds, basicBytes_toNat]
  rfl

theorem labelToAscii_parts (hu : ∀ c ∈ u, c < 2 ^ 21) (hne : ∃ c ∈ u, 0x80 ≤ c) (hcap : cap < 2 ^ 10)
    (hs : labelToAscii cap u = .ok out) :
    ∃ ds, out = acePrefix ++ delimited u ++ ds.map digit ∧ (∀ x ∈ ds, x < base) ∧
      Decoder.run ⟨initialN, 0, initialBias, u.filter (· < 0x80)⟩ ds = some u ∧ out.length ≤ cap := by
  obtain ⟨before, hb, hlen, hloop⟩ := labelToAscii_ok hne hs
  obtain ⟨ds, hout, hds, hrun, hle⟩ := encodeLoop_ok hu hcap (encodes_start hb hlen) hloop
  exact ⟨ds, by rw [hout, hb], hds, hrun, hle⟩

/-- What a label with a code point that is not ASCII is written as stands for that label alone. -/
theorem decodeLabel_labelToAscii (hu : ∀ c ∈ u, c < 2 ^ 21) (hne : ∃ c ∈ u, 0x80 ≤ c)
    (hcap : cap < 2 ^ 10) (hs : labelToAscii cap u = .ok out) : decodeLabel out = some u := by
  obtain ⟨ds, hout, hds, hrun, -⟩ := labelToAscii_parts hu hne hcap hs
  rw [hout, decodeLabel_append hds]
  exact hrun

theorem digit_ne_dot {n : Nat} (hn : n < base) : digit n ≠ 0x2E := by
  have hall : ∀ m : Fin base, digit m.val ≠ 0x2E := by decide +kernel
  exact hall ⟨n, hn⟩

theorem dot_notMem_labelToAscii (hu : ∀ c ∈ u, c < 2 ^ 21) (hne : ∃ c ∈ u, 0x80 ≤ c)
    (hcap : cap < 2 ^ 10) (hdot : 0x2E ∉ u) (hs : labelToAscii cap u = .ok out) : 0x2E ∉ out := by
  obtain ⟨ds, hout, hds, -, -⟩ := labelToAscii_parts hu hne hcap hs
  rw [hout, List.mem_append, List.mem_append]
  rintro ((hmem | hmem) | hmem)
  · exact absurd hmem (by decide)
  · unfold delimited basicBytes at hmem
    rcases List.mem_append.1 hmem with hmem | hmem
    · obtain ⟨c, hc, hcd⟩ := List.mem_map.1 hmem
      obtain ⟨hcu, hlt⟩ := List.mem_filter.1 hc
      have hlt : c < 0x80 := by simpa using hlt
      have hcd := congrArg UInt8.toNat hcd
      simp only [Nat.toUInt8, UInt8.toNat_ofNat'] at hcd
      have hc46 : c = 0x2E := by
        have : (0x2E : UInt8).toNat = 0x2E := rfl
        omega
      exact hdot (hc46 ▸ hcu)
    · split_ifs at hmem
      · exact absurd hmem (by decide)
      · cases hmem
  · obtain ⟨x, hx, hxd⟩ := List.mem_map.1 hmem
    exact digit_ne_dot (hds x hx) hxd

end Punycode
end Resend.Dns

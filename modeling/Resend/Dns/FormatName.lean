import Resend.Dns.Punycode

/-!
# Names as they are asked for (packet.c, punycode.c)

`rdns_format_dns_name` copies an ASCII name as it is. In any other name it goes from label to label,
reads the ones that are not ASCII as UTF-8 and writes them in ASCII. `decodeName` reads the result:
it gets the labels of the name back.
-/

namespace Resend.Dns

open Punycode (labelToAscii decodeLabel acePrefix)

/-- `utf8toutf32` on what is left of a label: a code point and the bytes after it. -/
def utf8toutf32 : List UInt8 → Option (Nat × List UInt8)
  | [] => none
  | c₁ :: p =>
    let c := c₁.toNat
    if c &&& 0x80 ≠ 0 then
      if c &&& 0xE0 = 0xC0 then
        match p with
        | c₂ :: p => if c₂.toNat &&& 0xC0 =
          0x80 then some ((c &&& 0x1F) <<< 6 ||| (c₂.toNat &&& 0x3F), p) else none
        | _ => none
      else if c &&& 0xF0 = 0xE0 then
        match p with
        | c₂ :: c₃ :: p =>
          if c₂.toNat &&& 0xC0 = 0x80 ∧ c₃.toNat &&& 0xC0 = 0x80 then
            some ((c &&& 0x0F) <<< 12 ||| (c₂.toNat &&& 0x3F) <<< 6 ||| (c₃.toNat &&& 0x3F), p)
          else none
        | _ => none
      else if c &&& 0xF8 = 0xF0 then
        match p with
        | c₂ :: c₃ :: c₄ :: p =>
          if c₂.toNat &&& 0xC0 = 0x80 ∧ c₃.toNat &&& 0xC0 = 0x80 ∧ c₄.toNat &&& 0xC0 = 0x80 then
            some ((c &&& 0x07) <<< 18 ||| (c₂.toNat &&& 0x3F) <<< 12 |||
              (c₃.toNat &&& 0x3F) <<< 6 ||| (c₄.toNat &&& 0x3F), p)
          else none
        | _ => none
      else none
    else some (c, p)

theorem utf8toutf32_length {bs p : List UInt8} {c : Nat} (h : utf8toutf32 bs = some (c, p)) :
    p.length < bs.length := by
  unfold utf8toutf32 at h
  split at h
  · cases h
  · dsimp only at h
    split_ifs at h
    all_goals first
      | (split at h
         · split_ifs at h
           cases h
           simp only [List.length_cons]
           omega
         · cases h)
      | (cases h; simp)

/-- `rdns_utf8_to_ucs4` -/
def utf8ToUcs4 (bs : List UInt8) : Option (List Nat) :=
  if bs = [] then some []
  else
    match _h : utf8toutf32 bs with
    | none => none
    | some (c, p) => (utf8ToUcs4 p).map (c :: ·)
termination_by bs.length
decreasing_by exact utf8toutf32_length _h

def MAXLABEL : Nat := 63

def dot : UInt8 := 0x2E

/-- The label at the head of a name, and the name after the dot if there is one. -/
def splitDot : List UInt8 → List UInt8 × Option (List UInt8)
  | [] => ([], none)
  | c :: p => if c = dot then ([], some p) else (c :: (splitDot p).1, (splitDot p).2)

theorem splitDot_length {p rest : List UInt8} (h : (splitDot p).2 = some rest) :
    rest.length < p.length := by
  induction p with
  | nil => cases h
  | cons c p ih =>
    unfold splitDot at h
    split_ifs at h
    · cases h
      exact Nat.lt_succ_self _
    · exact (ih h).trans (Nat.lt_succ_self _)

/-- `rdns_maybe_punycode_label` -/
def isUnicode (label : List UInt8) : Bool := label.any fun c => c.toNat &&& 0x80 ≠ 0

/-- The output so far, how much of it is left, and `tmp_label`. -/
structure Format where
  out : List UInt8
  remain : Nat
  tmpLabel : List UInt8
  deriving DecidableEq, Repr

/-- `memcpy (o, ..); *o++ = '.'; remain -= ..` where there is room. -/
def Format.copy (f : Format) (bytes : List UInt8) : Option Format :=
  if bytes.length + 1 ≤ f.remain then
    some { f with out := f.out ++ bytes ++ [dot], remain := f.remain - (bytes.length + 1) }
  else none

/-- A label in punycode. Where `rdns_punycode_label_toascii` returns early `punylabel_len` is still
63, and as many bytes of `tmp_label` are taken. -/
def Format.punycode (f : Format) (uc : List Nat) : Option Format :=
  match labelToAscii MAXLABEL uc with
  | .ok o => { f with tmpLabel := o ++ f.tmpLabel.drop o.length }.copy o
  | .error o => { f with tmpLabel := o ++ f.tmpLabel.drop o.length }.copy
    ((o ++ f.tmpLabel.drop o.length).take MAXLABEL)

/-- The loop of `rdns_format_dns_name` that encodes; `none` is `goto err`. -/
def formatLoop (p : List UInt8) (f : Format) : Option Format :=
  if p = [] then some f
  else
    let label := (splitDot p).1
    if isUnicode label then
      match utf8ToUcs4 label with
      | none => some f
      | some uc =>
        match f.punycode uc with
        | none => none
        | some f =>
          match _h : (splitDot p).2 with
          | none => some f
          | some rest => if f.remain = 0 then none else formatLoop rest f
    else
      match _h : (splitDot p).2 with
      | none => if label = [] then some f else f.copy (label.take MAXLABEL)
      | some rest =>
        match f.copy (label.take MAXLABEL) with
        | none => none
        | some f' =>
          -- two dots in a row
          if label = [] then formatLoop rest f
          else if f'.remain = 0 then none
          else formatLoop rest f'
termination_by p.length
decreasing_by all_goals exact splitDot_length _h

/-- `rdns_format_dns_name`; `junk` is what the stack holds of `tmp_label`. -/
def formatDnsName (junk name : List UInt8) : Option (List UInt8) :=
  if name.any fun c => 0x80 ≤ c.toNat then
    (formatLoop name ⟨[], name.length * 4 + 1 + 5 * name.count dot, junk⟩).map (·.out)
  else some name

/-! ## Reading UTF-8 -/

/-- UTF-8 up to 21 bits. -/
def utf8Bytes (c : Nat) : List Nat :=
  if c < 0x80 then [c]
  else if c < 0x800 then [0xC0 + c / 64, 0x80 + c % 64]
  else if c < 0x10000 then [0xE0 + c / 64 / 64, 0x80 + c / 64 % 64, 0x80 + c % 64]
  else [0xF0 + c / 64 / 64 / 64, 0x80 + c / 64 / 64 % 64, 0x80 + c / 64 % 64, 0x80 + c % 64]

def utf8 (u : List Nat) : List UInt8 := (u.flatMap utf8Bytes).map Nat.toUInt8

theorem toUInt8_toNat {n : Nat} (h : n < 256) : n.toUInt8.toNat = n := by
  simp only [Nat.toUInt8, UInt8.toNat_ofNat']
  omega

theorem lead_bits (b : Nat) (h : b < 256) :
    (b &&& 0x80 ≠ 0 ↔ 0x80 ≤ b) ∧ (b &&& 0xC0 = 0x80 ↔ 0x80 ≤ b ∧ b < 0xC0) ∧
      (b &&& 0xE0 = 0xC0 ↔ 0xC0 ≤ b ∧ b < 0xE0) ∧
      (b &&& 0xF0 = 0xE0 ↔ 0xE0 ≤ b ∧ b < 0xF0) ∧ (b &&& 0xF8 = 0xF0 ↔ 0xF0 ≤ b ∧ b < 0xF8) := by
  have hall : ∀ b : Fin 256, (b.val &&& 0x80 ≠ 0 ↔ 0x80 ≤ b.val) ∧
    (b.val &&& 0xC0 = 0x80 ↔ 0x80 ≤ b.val ∧ b.val < 0xC0) ∧
      (b.val &&& 0xE0 = 0xC0 ↔ 0xC0 ≤ b.val ∧ b.val < 0xE0) ∧
      (b.val &&& 0xF0 = 0xE0 ↔ 0xE0 ≤ b.val ∧ b.val < 0xF0) ∧
      (b.val &&& 0xF8 = 0xF0 ↔ 0xF0 ≤ b.val ∧ b.val < 0xF8) := by decide +kernel
  exact hall ⟨b, h⟩

theorem and_low (b i : Nat) : b &&& (2 ^ i - 1) = b % 2 ^ i := Nat.and_two_pow_sub_one_eq_mod b i

theorem shift_or {a b i : Nat} (h : b < 2 ^ i) : a <<< i ||| b = a * 2 ^ i + b := by
  rw [← Nat.shiftLeft_add_eq_or_of_lt h, Nat.shiftLeft_eq]

theorem utf8toutf32_utf8Bytes {c : Nat} (hc : c < 2 ^ 21) (rest : List UInt8) :
    utf8toutf32 ((utf8Bytes c).map Nat.toUInt8 ++ rest) = some (c, rest) := by
  have hcont : ∀ d, d < 64 → (0x80 + d).toUInt8.toNat = 0x80 + d := fun d hd => toUInt8_toNat (by omega)
  have hmask : ∀ d, d < 64 → 0x80 + d &&& 0xC0 = 0x80 :=
    fun d hd => (lead_bits _ (by omega)).2.1.2 (by omega)
  have hlow : ∀ d, d < 64 → 0x80 + d &&& 0x3F = d := fun d hd => (and_low _ 6).trans (by omega)
  unfold utf8Bytes
  split_ifs with h1 h2 h3
  · have hb : c.toUInt8.toNat = c := toUInt8_toNat (by omega)
    have hl := lead_bits c (by omega)
    simp only [List.map_cons, List.map_nil, List.cons_append, List.nil_append, utf8toutf32, hb]
    rw [if_neg fun h => absurd (hl.1.1 h) (by omega)]
  · have hd := Nat.mod_lt c (show 0 < 64 by norm_num)
    have hb : (0xC0 + c / 64).toUInt8.toNat = 0xC0 + c / 64 := toUInt8_toNat (by omega)
    have hl := lead_bits (0xC0 + c / 64) (by omega)
    have hlead : 0xC0 + c / 64 &&& 0x1F = c / 64 := (and_low _ 5).trans (by omega)
    simp only [List.map_cons, List.map_nil, List.cons_append, List.nil_append,
      utf8toutf32, hb, hcont _ hd]
    rw [if_pos (hl.1.2 (by omega)), if_pos (hl.2.2.1.2 (by omega)),
      if_pos (hmask _ hd), hlead, hlow _ hd, shift_or (by omega)]
    exact congrArg (fun n => some (n, rest)) (by omega)
  · have hd := Nat.mod_lt c (show 0 < 64 by norm_num)
    have hd' := Nat.mod_lt (c / 64) (show 0 < 64 by norm_num)
    have hb : (0xE0 + c / 64 / 64).toUInt8.toNat = 0xE0 + c / 64 / 64 := toUInt8_toNat (by omega)
    have hl := lead_bits (0xE0 + c / 64 / 64) (by omega)
    have hlead : 0xE0 + c / 64 / 64 &&& 0x0F = c / 64 / 64 := (and_low _ 4).trans (by omega)
    simp only [List.map_cons, List.map_nil, List.cons_append, List.nil_append, utf8toutf32,
      hb, hcont _ hd, hcont _ hd']
    rw [if_pos (hl.1.2 (by omega)), if_neg fun h => absurd (hl.2.2.1.1 h).2 (by omega),
      if_pos (hl.2.2.2.1.2 (by omega)), if_pos ⟨hmask _ hd', hmask _ hd⟩, hlead, hlow _ hd,
      hlow _ hd', Nat.or_assoc, shift_or (a := c / 64 % 64) (by omega),
      shift_or (by omega)]
    exact congrArg (fun n => some (n, rest)) (by omega)
  · have hd := Nat.mod_lt c (show 0 < 64 by norm_num)
    have hd' := Nat.mod_lt (c / 64) (show 0 < 64 by norm_num)
    have hd'' := Nat.mod_lt (c / 64 / 64) (show 0 < 64 by norm_num)
    have hb : (0xF0 + c / 64 / 64 / 64).toUInt8.toNat = 0xF0 + c / 64 / 64 / 64 :=
      toUInt8_toNat (by omega)
    have hl := lead_bits (0xF0 + c / 64 / 64 / 64) (by omega)
    have hlead : 0xF0 + c / 64 / 64 / 64 &&& 0x07 = c / 64 / 64 / 64 := (and_low _ 3).trans (by omega)
    simp only [List.map_cons, List.map_nil, List.cons_append, List.nil_append, utf8toutf32,
      hb, hcont _ hd, hcont _ hd', hcont _ hd'']
    rw [if_pos (hl.1.2 (by omega)), if_neg fun h => absurd (hl.2.2.1.1 h).2 (by omega),
      if_neg fun h => absurd (hl.2.2.2.1.1 h).2 (by omega), if_pos (hl.2.2.2.2.2 (by omega)),
      if_pos ⟨hmask _ hd'', hmask _ hd', hmask _ hd⟩, hlead, hlow _ hd, hlow _ hd', hlow _ hd'',
      Nat.or_assoc, Nat.or_assoc,
      shift_or (a := c / 64 % 64) (by omega),
      shift_or (a := c / 64 / 64 % 64) (by omega), shift_or (by omega)]
    exact congrArg (fun n => some (n, rest)) (by omega)

theorem utf8_cons (c : Nat) (u : List Nat) :
    utf8 (c :: u) = (utf8Bytes c).map Nat.toUInt8 ++ utf8 u := by
  unfold utf8
  rw [List.flatMap_cons, List.map_append]

theorem utf8Bytes_ne_nil (c : Nat) : utf8Bytes c ≠ [] := by
  unfold utf8Bytes
  split_ifs <;> exact List.cons_ne_nil _ _

theorem utf8ToUcs4_utf8 {u : List Nat} (hu : ∀ c ∈ u, c < 2 ^ 21) : utf8ToUcs4 (utf8 u) = some u := by
  induction u with
  | nil =>
    rw [utf8ToUcs4]
    rfl
  | cons c u ih =>
    have hread := utf8toutf32_utf8Bytes (hu c List.mem_cons_self) (utf8 u)
    rw [utf8_cons, utf8ToUcs4, if_neg fun h =>
      utf8Bytes_ne_nil c (List.map_eq_nil_iff.1 (List.append_eq_nil_iff.1 h).1)]
    split
    · rename_i hnone
      rw [hread] at hnone
      cases hnone
    · rename_i c' p hsome
      rw [hread] at hsome
      cases hsome
      rw [ih fun x hx => hu x (List.mem_cons_of_mem _ hx)]
      rfl

/-! ## What a name becomes -/

/-- A label that can be asked for: it is not empty, it fits, and it is not taken for punycode when
it is not. -/
structure GoodLabel (u : List Nat) : Prop where
  nonempty : u ≠ []
  bound : ∀ c ∈ u, c < 2 ^ 21
  noDot : 0x2E ∉ u
  plain : (∀ c ∈ u, c < 0x80) → u.length ≤ MAXLABEL ∧ (utf8 u).take 4 ≠ acePrefix
  fits : (∃ c ∈ u, 0x80 ≤ c) → ∃ out, labelToAscii MAXLABEL u = .ok out

/-- A name as text, with or without a dot at its end. -/
def nameText (trailing : Bool) : List (List Nat) → List UInt8
  | [] => []
  | [u] => utf8 u ++ if trailing then [dot] else []
  | u :: us => utf8 u ++ dot :: nameText trailing us

/-- A label in ASCII. -/
def asciiLabel (u : List Nat) : List UInt8 :=
  if ∀ c ∈ u, c < 0x80 then utf8 u else (labelToAscii MAXLABEL u).toOption.getD []

def readLabel (bs : List UInt8) : Option (List Nat) :=
  if bs.take 4 = acePrefix then decodeLabel bs else some (bs.map (·.toNat))

/-- The labels of a name in ASCII. -/
def decodeName (p : List UInt8) : Option (List (List Nat)) :=
  if p = [] then some []
  else
    match readLabel (splitDot p).1 with
    | none => none
    | some u =>
      match _h : (splitDot p).2 with
      | none => some [u]
      | some rest => (decodeName rest).map (u :: ·)
termination_by p.length
decreasing_by exact splitDot_length _h

variable {u : List Nat} {us : List (List Nat)} {f f' : Format} {l p rest : List UInt8} {trailing : Bool}

theorem splitDot_append (h : dot ∉ l) : splitDot (l ++ dot :: rest) = (l, some rest) := by
  induction l with
  | nil => exact if_pos rfl
  | cons c l ih =>
    have hc : c ≠ dot := fun he => h (he ▸ List.mem_cons_self)
    rw [List.cons_append, splitDot, if_neg hc, ih fun hm => h (List.mem_cons_of_mem _ hm)]

theorem splitDot_self (h : dot ∉ l) : splitDot l = (l, none) := by
  induction l with
  | nil => rfl
  | cons c l ih =>
    have hc : c ≠ dot := fun he => h (he ▸ List.mem_cons_self)
    rw [splitDot, if_neg hc, ih fun hm => h (List.mem_cons_of_mem _ hm)]

theorem utf8_ascii (h : ∀ c ∈ u, c < 0x80) : utf8 u = u.map Nat.toUInt8 := by
  induction u with
  | nil => rfl
  | cons c u ih =>
    rw [utf8_cons, ih fun x hx => h x (List.mem_cons_of_mem _ hx), utf8Bytes,
      if_pos (h c List.mem_cons_self)]
    rfl

theorem utf8Bytes_high {c b : Nat} (hc : c < 2 ^ 21) (hc80 : 0x80 ≤ c) (hb : b ∈ utf8Bytes c) :
    0x80 ≤ b ∧ b < 256 := by
  unfold utf8Bytes at hb
  split_ifs at hb
  · omega
  all_goals
    simp only [List.mem_cons, List.not_mem_nil, or_false] at hb
    omega

theorem mem_utf8 {b : UInt8} (hu : ∀ c ∈ u, c < 2 ^ 21) (hb : b ∈ utf8 u) :
    (b.toNat ∈ u ∧ b.toNat < 0x80) ∨ 0x80 ≤ b.toNat := by
  unfold utf8 at hb
  obtain ⟨n, hn, rfl⟩ := List.mem_map.1 hb
  obtain ⟨c, hc, hn⟩ := List.mem_flatMap.1 hn
  rcases Nat.lt_or_ge c 0x80 with hlt | hge
  · have hnc : n = c := by
      unfold utf8Bytes at hn
      rw [if_pos hlt] at hn
      exact List.mem_singleton.1 hn
    subst hnc
    rw [toUInt8_toNat (by omega)]
    exact .inl ⟨hc, hlt⟩
  · obtain ⟨hlo, hhi⟩ := utf8Bytes_high (hu c hc) hge hn
    rw [toUInt8_toNat hhi]
    exact .inr hlo

theorem isUnicode_iff (l : List UInt8) : isUnicode l = true ↔ ∃ b ∈ l, 0x80 ≤ b.toNat := by
  unfold isUnicode
  rw [List.any_eq_true]
  refine exists_congr fun b => and_congr_right fun _ => ?_
  rw [decide_eq_true_iff]
  exact (lead_bits _ b.toNat_lt).1

namespace GoodLabel
variable (h : GoodLabel u)
include h

theorem dot_notMem : dot ∉ utf8 u := by
  intro hmem
  rcases mem_utf8 h.bound hmem with ⟨hin, -⟩ | hge
  · exact h.noDot hin
  · exact absurd hge (by decide)

theorem utf8_ne_nil : utf8 u ≠ [] := by
  intro hnil
  obtain ⟨c, v, rfl⟩ := List.exists_cons_of_ne_nil h.nonempty
  rw [utf8_cons] at hnil
  exact utf8Bytes_ne_nil c (List.map_eq_nil_iff.1 (List.append_eq_nil_iff.1 hnil).1)

theorem isUnicode_utf8 : isUnicode (utf8 u) = true ↔ ∃ c ∈ u, 0x80 ≤ c := by
  rw [isUnicode_iff]
  constructor
  · rintro ⟨b, hb, hge⟩
    by_contra hnone
    have hall : ∀ c ∈ u, c < 0x80 := fun c hc => not_le.1 fun hle => hnone ⟨c, hc, hle⟩
    rw [utf8_ascii hall] at hb
    obtain ⟨c, hc, rfl⟩ := List.mem_map.1 hb
    have := hall c hc
    rw [toUInt8_toNat (by omega)] at hge
    omega
  · rintro ⟨c, hc, hge⟩
    obtain ⟨b, bs, hbs⟩ := List.exists_cons_of_ne_nil (utf8Bytes_ne_nil c)
    have hb : b ∈ utf8Bytes c := hbs ▸ List.mem_cons_self
    obtain ⟨hlo, hhi⟩ := utf8Bytes_high (h.bound c hc) hge hb
    refine ⟨b.toUInt8, List.mem_map.2 ⟨b, List.mem_flatMap.2 ⟨c, hc, hb⟩, rfl⟩, ?_⟩
    rw [toUInt8_toNat hhi]
    exact hlo

theorem readLabel_asciiLabel : readLabel (asciiLabel u) = some u ∧ dot ∉ asciiLabel u := by
  unfold asciiLabel
  split_ifs with hall
  · have hread : readLabel (utf8 u) = some ((utf8 u).map (·.toNat)) := if_neg (h.plain hall).2
    refine ⟨?_, h.dot_notMem⟩
    rw [hread, utf8_ascii hall, List.map_map]
    refine congrArg some ((List.map_congr_left fun c hc => ?_).trans (List.map_id _))
    have := hall c hc
    exact toUInt8_toNat (by omega)
  · have hne : ∃ c ∈ u, 0x80 ≤ c := by
      by_contra hnone
      exact hall fun c hc => not_le.1 fun hle => hnone ⟨c, hc, hle⟩
    obtain ⟨out, hout⟩ := h.fits hne
    obtain ⟨ds, hparts, -⟩ := Punycode.labelToAscii_parts h.bound hne (by decide) hout
    have htake : out.take 4 = acePrefix := by
      rw [hparts, List.append_assoc]
      exact List.take_left' (by rfl)
    rw [hout]
    refine ⟨?_, Punycode.dot_notMem_labelToAscii h.bound hne (by decide) h.noDot hout⟩
    exact (if_pos htake).trans (Punycode.decodeLabel_labelToAscii h.bound hne (by decide) hout)

theorem nameText_cons (trailing : Bool) (us : List (List Nat)) :
    us = [] ∧ trailing = false ∨
      splitDot (nameText trailing (u :: us)) = (utf8 u, some (nameText trailing us)) := by
  cases us with
  | nil =>
    cases trailing
    · exact .inl ⟨rfl, rfl⟩
    · exact .inr (splitDot_append h.dot_notMem)
  | cons v vs => exact .inr (splitDot_append h.dot_notMem)

theorem copied
    (hcopy : (if isUnicode (utf8 u) then f.punycode u else f.copy ((utf8 u).take MAXLABEL)) = some f') :
    f'.out = f.out ++ (asciiLabel u ++ [dot]) := by
  have hout : ∀ {g g' : Format} {bs : List UInt8}, g.copy bs = some g' →
      g'.out = g.out ++ (bs ++ [dot]) := by
    intro g g' bs hg
    unfold Format.copy at hg
    split_ifs at hg
    cases hg
    exact List.append_assoc _ _ _
  split_ifs at hcopy with huni
  · have hne := h.isUnicode_utf8.1 huni
    obtain ⟨out, ho⟩ := h.fits hne
    have hascii : asciiLabel u = out := by
      unfold asciiLabel
      rw [if_neg fun hall => by obtain ⟨c, hc, hge⟩ := hne; exact absurd (hall c hc) (by omega), ho]
      rfl
    unfold Format.punycode at hcopy
    rw [ho] at hcopy
    rw [hascii]
    exact hout (g := { f with tmpLabel := out ++ f.tmpLabel.drop out.length }) hcopy
  · have hall : ∀ c ∈ u, c < 0x80 := fun c hc => not_le.1 fun hle =>
      huni (h.isUnicode_utf8.2 ⟨c, hc, hle⟩)
    have hlen : (utf8 u).take MAXLABEL = utf8 u := by
      rw [utf8_ascii hall]
      exact List.take_of_length_le (by rw [List.length_map]; exact (h.plain hall).1)
    have hascii : asciiLabel u = utf8 u := if_pos hall
    rw [hlen] at hcopy
    rw [hascii]
    exact hout hcopy

end GoodLabel

theorem formatLoop_label (h : GoodLabel u) (hp : splitDot p = (utf8 u, some rest))
    (hs : formatLoop p f = some f') :
    ∃ f₁, f₁.out = f.out ++ (asciiLabel u ++ [dot]) ∧ formatLoop rest f₁ = some f' := by
  have hne : p ≠ [] := fun hnil => by
    rw [hnil] at hp
    exact h.utf8_ne_nil (congrArg Prod.fst hp).symm
  have h1 : (splitDot p).1 = utf8 u := congrArg Prod.fst hp
  have h2 : (splitDot p).2 = some rest := congrArg Prod.snd hp
  rw [formatLoop, if_neg hne] at hs
  dsimp only at hs
  rw [h1, utf8ToUcs4_utf8 h.bound] at hs
  simp only [if_neg h.utf8_ne_nil] at hs
  by_cases huni : isUnicode (utf8 u) = true
  · rw [if_pos huni] at hs
    split at hs
    · cases hs
    · rename_i f₁ hcopy
      split at hs
      · rename_i hnone
        rw [h2] at hnone
        cases hnone
      · rename_i r hsome
        rw [h2] at hsome
        cases hsome
        split_ifs at hs
        exact ⟨f₁, h.copied (by rw [if_pos huni]; exact hcopy), hs⟩
  · rw [if_neg huni] at hs
    split at hs
    · rename_i hnone
      rw [h2] at hnone
      cases hnone
    · rename_i r hsome
      rw [h2] at hsome
      cases hsome
      split at hs
      · cases hs
      · rename_i f₁ hcopy
        split_ifs at hs
        exact ⟨f₁, h.copied (by rw [if_neg huni]; exact hcopy), hs⟩

theorem formatLoop_last (h : GoodLabel u) (hs : formatLoop (utf8 u) f = some f') :
    f'.out = f.out ++ (asciiLabel u ++ [dot]) := by
  have hp := splitDot_self h.dot_notMem
  have h1 : (splitDot (utf8 u)).1 = utf8 u := congrArg Prod.fst hp
  have h2 : (splitDot (utf8 u)).2 = none := congrArg Prod.snd hp
  rw [formatLoop, if_neg h.utf8_ne_nil] at hs
  dsimp only at hs
  rw [h1, utf8ToUcs4_utf8 h.bound] at hs
  simp only [if_neg h.utf8_ne_nil] at hs
  refine h.copied ?_
  by_cases huni : isUnicode (utf8 u) = true
  · rw [if_pos huni] at hs ⊢
    split at hs
    · cases hs
    · rename_i f₁ hcopy
      split at hs
      · cases hs
        exact hcopy
      · rename_i r hsome
        rw [h2] at hsome
        cases hsome
  · rw [if_neg huni] at hs ⊢
    split at hs
    · exact hs
    · rename_i r hsome
      rw [h2] at hsome
      cases hsome

theorem formatLoop_nameText (hus : ∀ u ∈ us, GoodLabel u)
    (hs : formatLoop (nameText trailing us) f = some f') :
    f'.out = f.out ++ us.flatMap fun u => asciiLabel u ++ [dot] := by
  induction us generalizing f with
  | nil =>
    rw [nameText, formatLoop, if_pos rfl] at hs
    cases hs
    exact (List.append_nil _).symm
  | cons u us ih =>
    have hu := hus u List.mem_cons_self
    rw [List.flatMap_cons]
    rcases hu.nameText_cons trailing us with ⟨rfl, rfl⟩ | hsplit
    · have htext : nameText false [u] = utf8 u := List.append_nil _
      rw [htext] at hs
      rw [formatLoop_last hu hs, List.flatMap_nil, List.append_nil]
    · obtain ⟨f₁, hout, hs₁⟩ := formatLoop_label hu hsplit hs
      rw [ih (fun v hv => hus v (List.mem_cons_of_mem _ hv)) hs₁, hout, List.append_assoc]

theorem decodeName_cons {label : List Nat} (hp : p ≠ []) (hread : readLabel (splitDot p).1 = some label)
    (hrest : (splitDot p).2 = some rest) : decodeName p = (decodeName rest).map (label :: ·) := by
  rw [decodeName, if_neg hp, hread]
  dsimp only
  split
  · rename_i hnone
    rw [hrest] at hnone
    cases hnone
  · rename_i r hsome
    rw [hrest] at hsome
    cases hsome
    rfl

theorem decodeName_last {label : List Nat} (hp : p ≠ []) (hread : readLabel (splitDot p).1 = some label)
    (hrest : (splitDot p).2 = none) : decodeName p = some [label] := by
  rw [decodeName, if_neg hp, hread]
  dsimp only
  split
  · rfl
  · rename_i r hsome
    rw [hrest] at hsome
    cases hsome

theorem decodeName_labels (hus : ∀ u ∈ us, GoodLabel u) :
    decodeName (us.flatMap fun u => asciiLabel u ++ [dot]) = some us := by
  induction us with
  | nil => rw [List.flatMap_nil, decodeName, if_pos rfl]
  | cons u us ih =>
    obtain ⟨hread, hdot⟩ := (hus u List.mem_cons_self).readLabel_asciiLabel
    have hsplit : splitDot ((u :: us).flatMap fun u => asciiLabel u ++ [dot]) =
        (asciiLabel u, some (us.flatMap fun u => asciiLabel u ++ [dot])) := by
      rw [List.flatMap_cons, List.append_assoc]
      exact splitDot_append hdot
    have hne : ((u :: us).flatMap fun u => asciiLabel u ++ [dot]) ≠ [] := by simp
    rw [decodeName_cons hne (by rw [hsplit]; exact hread) (by rw [hsplit]),
      ih fun v hv => hus v (List.mem_cons_of_mem _ hv)]
    rfl

/-- An ASCII name is its own text, with or without the last dot. -/
theorem decodeName_nameText (hus : ∀ u ∈ us, GoodLabel u) (hall : ∀ u ∈ us, ∀ c ∈ u, c < 0x80) :
    decodeName (nameText trailing us) = some us := by
  induction us with
  | nil => rw [nameText, decodeName, if_pos rfl]
  | cons u us ih =>
    have hu := hus u List.mem_cons_self
    have hascii : asciiLabel u = utf8 u := if_pos (hall u List.mem_cons_self)
    have hread := hu.readLabel_asciiLabel.1
    rw [hascii] at hread
    rcases hu.nameText_cons trailing us with ⟨rfl, rfl⟩ | hsplit
    · have htext : nameText false [u] = utf8 u := List.append_nil _
      have hsplit := splitDot_self hu.dot_notMem
      rw [htext]
      exact decodeName_last hu.utf8_ne_nil (by rw [hsplit]; exact hread) (by rw [hsplit])
    · have hne : nameText trailing (u :: us) ≠ [] := fun hnil => by
        rw [hnil] at hsplit
        exact hu.utf8_ne_nil (congrArg Prod.fst hsplit).symm
      rw [decodeName_cons hne (by rw [hsplit]; exact hread) (by rw [hsplit]),
        ih (fun v hv => hus v (List.mem_cons_of_mem _ hv)) fun v hv =>
          hall v (List.mem_cons_of_mem _ hv)]
      rfl

theorem mem_nameText {b : UInt8} (hu : u ∈ us) (hb : b ∈ utf8 u) : b ∈ nameText trailing us := by
  induction us with
  | nil => cases hu
  | cons v vs ih =>
    cases vs with
    | nil =>
      rw [List.mem_singleton.1 hu] at hb
      exact List.mem_append_left _ hb
    | cons w ws =>
      rcases List.mem_cons.1 hu with rfl | hu
      · exact List.mem_append_left _ hb
      · exact List.mem_append_right _ (List.mem_cons_of_mem _ (ih hu))

/-- Whatever name of good labels is asked for, what `rdns_format_dns_name` makes of it is read as
the labels of that name: no two names are asked for under one. -/
theorem decodeName_formatDnsName {junk out : List UInt8} (hus : ∀ u ∈ us, GoodLabel u)
    (hs : formatDnsName junk (nameText trailing us) = some out) : decodeName out = some us := by
  unfold formatDnsName at hs
  split_ifs at hs with hany
  · obtain ⟨f, hf, rfl⟩ := Option.map_eq_some_iff.1 hs
    rw [formatLoop_nameText hus hf, List.nil_append]
    exact decodeName_labels hus
  · cases hs
    refine decodeName_nameText hus fun u hu c hc => not_le.1 fun hge => hany ?_
    obtain ⟨b, hb, hb80⟩ := (isUnicode_iff _).1 ((hus u hu).isUnicode_utf8.2 ⟨c, hc, hge⟩)
    exact List.any_eq_true.2 ⟨b, mem_nameText hu hb, decide_eq_true hb80⟩

/-- `é.a` is asked for as `xn--9ca.a.` -/
theorem decodeName_formatDnsName_accent :
    ∃ out, formatDnsName (List.replicate 63 0) (nameText false [[0xE9], [0x61]]) = some out ∧
      decodeName out = some [[0xE9], [0x61]] := by
  have hgood : ∀ u ∈ [[0xE9], [0x61]], GoodLabel u := by
    intro u hu
    rcases List.mem_cons.1 hu with rfl | hu
    · refine ⟨by decide, by decide, by decide, fun h => absurd (h 0xE9 (by decide)) (by decide),
        fun _ => ?_⟩
      exact ⟨[0x78, 0x6E, 0x2D, 0x2D, 0x39, 0x63, 0x61], by decide +kernel⟩
    · rw [List.mem_singleton.1 hu]
      exact ⟨by decide, by decide, by decide, fun _ => ⟨by decide, by decide⟩,
        fun h => absurd h (by decide)⟩
  have hs : formatDnsName (List.replicate 63 0) (nameText false [[0xE9], [0x61]]) =
      some [0x78, 0x6E, 0x2D, 0x2D, 0x39, 0x63, 0x61, 0x2E, 0x61, 0x2E] := by decide +kernel
  exact ⟨_, hs, decodeName_formatDnsName hgood hs⟩

end Resend.Dns

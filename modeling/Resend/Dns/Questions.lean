import Resend.Dns.QueryRoom

/-!
# What a server reads of a request

`readQuestions` reads the questions of a message with `rdns_parse_labels`. On a request it reads the
names and the types that were asked for, as long as a name that ends like one before is an end of
that one: where only a part of it is, the pointer is written behind the first labels but `req->pos`
moves on by the pointer alone.
-/

namespace Resend.Dns

open Memory

/-- Two bytes of a message. -/
def get16 (mem : List UInt8) (p : Nat) : Except Fault Nat := do
  let b₀ ← byteAt mem p
  let b₁ ← byteAt mem (p + 1)
  .ok (b₀ * 2 ^ 8 + b₁)

structure Question where
  name : List UInt8
  type : Nat
  cls : Nat
  deriving DecidableEq, Repr

def readQuestion (mem : List UInt8) (pos : Nat) (remain : Int) :
    Except Fault (Question × Nat × Int) := do
  let (name, pos, remain) ← parseLabels mem pos remain true
  let type ← get16 mem pos
  let cls ← get16 mem (pos + 2)
  .ok (⟨name.getD [], type, cls⟩, pos + 4, remain - 4)

def readQuestions (mem : List UInt8) : Nat → Nat → Int → Except Fault (List Question × Nat × Int)
  | 0, pos, remain => .ok ([], pos, remain)
  | n + 1, pos, remain => do
    let (q, pos, remain) ← readQuestion mem pos remain
    let (qs, pos, remain) ← readQuestions mem n pos remain
    .ok (q :: qs, pos, remain)

/-- The labels of a name. -/
def labelsOf (name : List UInt8) : List (List UInt8) :=
  if calculateLabelLen name = 0 then []
  else name.take (calculateLabelLen name) :: labelsOf (name.drop (calculateLabelLen name + 1))
termination_by name.length
decreasing_by
  have := List.length_pos_iff.2 (labelLen_pos_ne_nil ‹_›)
  rw [List.length_drop]
  omega

/-- What is asked for. -/
def question (n : List UInt8 × Nat) : Question := ⟨(dotted (labelsOf n.1)).dropLast, n.2 % 2 ^ 16, C_IN⟩

/-- A name that ends like one before is an end of one before. -/
def WholeNames (before : List (List UInt8)) : List (List UInt8) → Prop
  | [] => True
  | name :: names =>
    ((∃ d ∈ before, name ∈ suffixes d) ∨ ∀ d ∈ before, ∀ s ∈ suffixes name, s ∉ suffixes d) ∧
      WholeNames (before ++ [name]) names

instance WholeNames.dec (before : List (List UInt8)) :
    (names : List (List UInt8)) → Decidable (WholeNames before names)
  | [] => .isTrue trivial
  | name :: names =>
    have := WholeNames.dec (before ++ [name]) names
    inferInstanceAs (Decidable (((∃ d ∈ before, name ∈ suffixes d) ∨
      ∀ d ∈ before, ∀ s ∈ suffixes name, s ∉ suffixes d) ∧ WholeNames (before ++ [name]) names))

variable {name : List UInt8} {ls : List (List UInt8)} {mem mem' : List UInt8} {p m e r : Nat}
  {names : List (List UInt8 × Nat)}

theorem Spells.labelsOf_eq (h : Spells name ls) : labelsOf name = ls := by
  induction ls generalizing name with
  | nil => rw [labelsOf, if_pos (h.labelLen_zero_iff.2 rfl)]
  | cons l ls ih =>
    have h0 : calculateLabelLen name ≠ 0 := fun h0 => List.cons_ne_nil _ _ (h.labelLen_zero_iff.1 h0)
    obtain ⟨-, ls', hcons, hrest⟩ := h.uncons h0
    obtain ⟨rfl, rfl⟩ := List.cons.inj hcons
    rw [labelsOf, if_neg h0, ih hrest]

theorem Spells.isLabel (h : Spells name ls) : ∀ l ∈ ls, IsLabel l := by
  induction h with
  | nil => simp
  | root => simp
  | last hl => simpa using hl
  | label hl _ ih => exact List.forall_mem_cons.2 ⟨hl, ih⟩

theorem suffixes_trans {s t : List UInt8} (hs : s ∈ suffixes name) (ht : t ∈ suffixes s) :
    t ∈ suffixes name := by
  induction name using suffixes.induct with
  | case1 name h0 =>
    rw [suffixes_nil h0] at hs
    cases hs
  | case2 name h0 ih =>
    rw [suffixes_cons h0] at hs
    rcases List.mem_cons.1 hs with rfl | hs
    · exact ht
    · rw [suffixes_cons h0]
      exact List.mem_cons_of_mem _ (ih hs)

/-! ## Reading a name -/

theorem byteAt_of_toUInt8 {n : Nat} (h : mem[p]? = some n.toUInt8) :
    byteAt mem p = .ok (n % 2 ^ 8) := by
  unfold byteAt
  rw [h]
  show Except.ok n.toUInt8.toNat = _
  rw [Nat.toUInt8, UInt8.toNat_ofNat']

theorem byteAt_of_getElem? {n : Nat} (h : mem[p]? = some n.toUInt8) (hn : n < 2 ^ 8) :
    byteAt mem p = .ok n := by
  rw [byteAt_of_toUInt8 h, Nat.mod_eq_of_lt hn]

theorem get16_be16 {n : Nat} (h : Holds mem p (be16 n)) : get16 mem p = .ok (n % 2 ^ 16) := by
  obtain ⟨h₀, h₁⟩ := Holds.cons_iff.1 h
  unfold get16
  rw [byteAt_of_toUInt8 h₀, byteAt_of_toUInt8 (Holds.cons_iff.1 h₁).1]
  show Except.ok (n / 2 ^ 8 % 2 ^ 8 * 2 ^ 8 + n % 2 ^ 8) = _
  exact congrArg _ (by omega)

theorem walk_wire (h : Holds mem p (wire ls)) (hls : ∀ l ∈ ls, IsLabel l)
    (hr : p + (wire ls).length ≤ r) :
    ∃ spans, Walk mem r p 0 spans (p + (wire ls).length) ∧ spans.map (textOf mem) = ls := by
  induction ls generalizing p with
  | nil =>
    have hb : byteAt mem p = .ok 0 := byteAt_of_getElem? (Holds.cons_iff.1 h).1 (by norm_num)
    have hlen : (wire []).length = 1 := rfl
    exact ⟨[], .root (by omega) hb, rfl⟩
  | cons l ls ih =>
    obtain ⟨hl, hrest⟩ := List.forall_mem_cons.1 hls
    have hshort : l.length ≤ 63 := hl.short
    have hpos := List.length_pos_iff.2 hl.nonempty
    rw [wire_cons, List.length_append, List.length_cons] at hr
    rw [wire_cons] at h ⊢
    obtain ⟨hlabel, htail⟩ := Holds.append_iff.1 h
    obtain ⟨hlen, htext⟩ := Holds.cons_iff.1 hlabel
    have hb := byteAt_of_getElem? hlen (by omega)
    rw [List.length_cons] at htail
    obtain ⟨spans, hw, hspans⟩ := ih htail hrest (by omega)
    refine ⟨(p + 1, l.length) :: spans, ?_, ?_⟩
    · have hnext := Walk.label (by omega) hb (by omega) ((and_compression (by omega)).2 (by omega)) hw
      rwa [show p + (l.length + 1) + (wire ls).length = p + (l.length.toUInt8 :: l ++ wire ls).length by
        rw [List.length_append, List.length_cons]; omega] at hnext
    · rw [List.map_cons, hspans]
      exact congrArg (· :: ls) htext.slice

theorem pointer_bits {h : Nat} (hh : h < 64) :
    (h ||| COMPRESSION_BITS) < 256 ∧ (h ||| COMPRESSION_BITS) &&& COMPRESSION_BITS ≠ 0 ∧
      (h ||| COMPRESSION_BITS) ^^^ COMPRESSION_BITS = h := by
  have hall : ∀ h : Fin 64, (h.val ||| COMPRESSION_BITS) < 256 ∧
    (h.val ||| COMPRESSION_BITS) &&& COMPRESSION_BITS ≠ 0 ∧
      (h.val ||| COMPRESSION_BITS) ^^^ COMPRESSION_BITS = h.val := by decide +kernel
  exact hall ⟨h, hh⟩

theorem walk_pointer {offset : Nat} (hp : Holds mem p (pointerBytes offset))
    (h : Holds mem offset (wire ls)) (hne : ls ≠ []) (hls : ∀ l ∈ ls, IsLabel l)
    (hr : offset + (wire ls).length ≤ r) (hpr : p + 2 ≤ r) (hsize : r ≤ 4096) :
    ∃ spans, Walk mem r p 1 spans (p + 2) ∧ spans.map (textOf mem) = ls := by
  obtain ⟨l, ls, rfl⟩ := List.exists_cons_of_ne_nil hne
  obtain ⟨hl, hrest⟩ := List.forall_mem_cons.1 hls
  have hshort : l.length ≤ 63 := hl.short
  rw [wire_cons, List.length_append, List.length_cons] at hr
  rw [wire_cons] at h
  obtain ⟨hlabel, htail⟩ := Holds.append_iff.1 h
  obtain ⟨hlen, htext⟩ := Holds.cons_iff.1 hlabel
  rw [List.length_cons] at htail
  obtain ⟨spans, hw, hspans⟩ := walk_wire htail hrest (r := r) (by omega)
  obtain ⟨hbyte, hmark, hback⟩ := pointer_bits (h := offset / 2 ^ 8) (by omega)
  obtain ⟨hp₀, hp₁⟩ := Holds.cons_iff.1 hp
  have hoff : offset / 2 ^ 8 % 2 ^ 8 = offset / 2 ^ 8 := Nat.mod_eq_of_lt (by omega)
  rw [hoff] at hp₀
  have hb₀ := byteAt_of_getElem? hp₀ (by omega)
  have hb₁ := byteAt_of_toUInt8 (Holds.cons_iff.1 hp₁).1
  have hb := byteAt_of_getElem? hlen (by omega)
  have huncompress : uncompressOffset (offset / 2 ^ 8 ||| COMPRESSION_BITS) (offset % 2 ^ 8) =
      offset := by
    unfold uncompressOffset
    rw [hback]
    omega
  have hd : decompressLabel mem (uncompressOffset
    (offset / 2 ^ 8 ||| COMPRESSION_BITS) (offset % 2 ^ 8))
      (Int.toNat (r : Int) % 2 ^ 16) = .ok (some (offset, l.length)) := by
    unfold decompressLabel
    rw [huncompress, if_neg (by omega), hb]
  refine ⟨(offset + 1, l.length) :: spans, ?_, ?_⟩
  · exact .pointer (by omega) hb₀ hmark (by omega) hb₁ hd (by omega) hw
  · rw [List.map_cons, hspans]
    exact congrArg (· :: ls) htext.slice

/-! ## The questions of a request -/

/-- A name at `p` that ends at `m`: its labels, or a pointer to labels before `p`. -/
inductive NameAt (mem : List UInt8) (p : Nat) (ls : List (List UInt8)) : Nat → Prop
  | labels (h : Holds mem p (wire ls)) : NameAt mem p ls (p + (wire ls).length)
  | pointer {offset : Nat} (hp : Holds mem p (pointerBytes offset))
      (h : Holds mem offset (wire ls)) (hne : ls ≠ []) (hlt : offset + (wire ls).length ≤ p) :
      NameAt mem p ls (p + 2)

inductive QuestionsAt (mem : List UInt8) : Nat → List (List UInt8 × Nat) → Nat → Prop
  | nil {p : Nat} : QuestionsAt mem p [] p
  | cons {p m e : Nat} {name : List UInt8} {type : Nat} {ls : List (List UInt8)}
      {names : List (List UInt8 × Nat)} (hls : Spells name ls) (hn : NameAt mem p ls m)
      (ht : Holds mem m (be16 type ++ be16 C_IN))
      (h : QuestionsAt mem (m + 4) names e) : QuestionsAt mem p ((name, type) :: names) e

theorem NameAt.lt (h : NameAt mem p ls m) : p < m := by
  cases h with
  | labels _ =>
    have : 0 < (wire ls).length := by
      unfold wire
      rw [List.length_append]
      exact Nat.lt_add_left _ Nat.one_pos
    omega
  | pointer _ _ _ _ => omega

theorem NameAt.agree (h : NameAt mem p ls m) (he : m ≤ e) (ha : Agree e mem mem') :
    NameAt mem' p ls m := by
  cases h with
  | labels h => exact .labels (h.of_agree he ha)
  | pointer hp h hne hlt => exact .pointer (hp.of_agree he ha) (h.of_agree (by omega) ha) hne hlt

theorem QuestionsAt.le (h : QuestionsAt mem p names e) : p ≤ e := by
  induction h with
  | nil => exact le_rfl
  | cons _ hn _ _ ih =>
    have := hn.lt
    omega

theorem QuestionsAt.agree {n : Nat} (h : QuestionsAt mem p names e) (he : e ≤ n)
    (ha : Agree n mem mem') :
    QuestionsAt mem' p names e := by
  induction h with
  | nil => exact .nil
  | cons hls hn ht h ih =>
    have hle := h.le
    exact .cons hls (hn.agree (by omega) ha) (ht.of_agree (hle.trans he) ha) (ih he)

theorem QuestionsAt.append {more : List (List UInt8 × Nat)} {e' : Nat} (h : QuestionsAt mem p names e)
    (h' : QuestionsAt mem e more e') : QuestionsAt mem p (names ++ more) e' := by
  induction h with
  | nil => exact h'
  | cons hls hn ht _ ih => exact .cons hls hn ht (ih h')

theorem NameAt.parse {remain : Int} (h : NameAt mem p ls m) (hls : ∀ l ∈ ls, IsLabel l) (hm : m ≤ r)
    (hsize : r ≤ 4096) (hbuf : r + 256 ≤ mem.length) (hr : p + remain = r) :
    parseLabels mem p remain true = .ok (some (dotted ls).dropLast, m, (r : Int) - m) := by
  obtain ⟨k, spans, hk, hw, hspans⟩ : ∃ k spans, k ≤ MAX_RECURSION_LEVEL ∧ Walk mem r p k spans m ∧
      spans.map (textOf mem) = ls := by
    cases h with
    | labels h =>
      obtain ⟨spans, hw, hspans⟩ := walk_wire h hls hm
      exact ⟨0, spans, by decide, hw, hspans⟩
    | pointer hp h hne hlt =>
      obtain ⟨spans, hw, hspans⟩ := walk_pointer hp h hne hls (r := r) (by omega) hm hsize
      exact ⟨1, spans, by decide, hw, hspans⟩
  rw [parseLabels_of_walk hr hsize hbuf hw hk true, if_pos rfl, hspans]

theorem QuestionsAt.read {remain : Int} (h : QuestionsAt mem p names e) (he : e ≤ r) (hsize : r ≤ 4096)
    (hbuf : r + 256 ≤ mem.length) (hr : p + remain = r) :
    readQuestions mem names.length p remain = .ok (names.map question, e, (r : Int) - e) := by
  induction h generalizing remain with
  | @nil p =>
    have hremain : remain = (r : Int) - p := by omega
    rw [hremain]
    rfl
  | @cons p m e name type ls names hls hn ht h ih =>
    have hle := h.le
    obtain ⟨htype, hcls⟩ := Holds.append_iff.1 ht
    have hparse := hn.parse hls.isLabel (r := r) (by omega) hsize hbuf hr
    have hrest : readQuestions mem names.length (m + 4) ((r : Int) - m - 4) =
        .ok (names.map question, e, (r : Int) - e) :=
      ih he (by push_cast; omega)
    have hone : readQuestion mem p remain = .ok (question (name, type), m + 4, (r : Int) - m - 4) := by
      unfold readQuestion
      rw [hparse]
      show (get16 mem m >>= _) = _
      have hcls : get16 mem (m + 2) = .ok (C_IN % 2 ^ 16) := get16_be16 hcls
      rw [get16_be16 htype]
      show (get16 mem (m + 2) >>= _) = _
      rw [hcls, ← hls.labelsOf_eq]
      rfl
    show (readQuestion mem p remain >>= _) = _
    rw [hone]
    show (readQuestions mem names.length (m + 4) ((r : Int) - m - 4) >>= _) = _
    rw [hrest]
    rfl

theorem Spells.label_le (h : Spells name ls) : ∀ l ∈ ls, l.length ≤ name.length := by
  induction h with
  | nil => simp
  | root => simp
  | last _ => simp
  | label _ _ ih =>
    rw [List.length_append, List.length_cons]
    refine List.forall_mem_cons.2 ⟨by omega, fun l hl => ?_⟩
    have := ih l hl
    omega

theorem Spells.suffix (h : Spells name ls) (hm : Holds mem p (wire ls)) {s : List UInt8}
    (hs : s ∈ suffixes name) :
    ∃ ls', ls' ≠ [] ∧ Spells s ls' ∧ Holds mem (p + (name.length - s.length)) (wire ls') ∧
      p + (name.length - s.length) + (wire ls').length ≤ p + (wire ls).length := by
  induction name using suffixes.induct generalizing ls p with
  | case1 name h0 =>
    rw [suffixes_nil h0] at hs
    cases hs
  | case2 name h0 ih =>
    rw [suffixes_cons h0] at hs
    rcases List.mem_cons.1 hs with rfl | hs
    · rw [Nat.sub_self]
      exact ⟨ls, fun hnil => h0 (h.labelLen_zero_iff.2 hnil), h, hm, le_rfl⟩
    · obtain ⟨-, ls', rfl, hrest⟩ := h.uncons h0
      have hlen : (name.take (calculateLabelLen name)).length = calculateLabelLen name := by
        rw [List.length_take]
        exact min_eq_left (labelLen_split name).2.1
      rw [wire_cons] at hm
      have htail := (Holds.append_iff.1 hm).2
      rw [List.length_cons, hlen] at htail
      obtain ⟨ls₁, hne, hsp, hh, hle⟩ := ih hrest htail hs
      have hlong : calculateLabelLen name + 1 ≤ name.length := by
        by_contra hlong
        have hnil : name.drop (calculateLabelLen name + 1) = [] := List.drop_eq_nil_of_le (by omega)
        rw [hnil, suffixes_nil rfl] at hs
        cases hs
      have hshort := length_suffix hs
      rw [List.length_drop] at hh hle hshort
      rw [wire_cons, List.length_append, List.length_cons, hlen]
      refine ⟨ls₁, hne, hsp, ?_, by omega⟩
      rwa [show p + (name.length - s.length) =
        p + (calculateLabelLen name + 1) +
          (name.length - (calculateLabelLen name + 1) - s.length) by omega]

/-- What has been written of a request: the questions `done`, and in the table the ends of their
names. -/
structure Sent (q : Query) (done : List (List UInt8 × Nat)) : Prop where
  questions : QuestionsAt q.packet 12 done q.pos
  table : ∀ s offset, q.canCompress s = some offset →
    ∃ ls, ls ≠ [] ∧ Spells s ls ∧ Holds q.packet offset (wire ls) ∧ offset + (wire ls).length ≤ q.pos
  known : q.comp.isSome → ∀ s, (q.canCompress s).isSome ↔ ∃ d ∈ done, s ∈ suffixes d.1

variable {q q' : Query} {done : List (List UInt8 × Nat)} {type : Nat}

theorem addRr_inv (h : addRr q name type = .ok q') :
    ∃ q₁, writeNameCompressed q name = .ok q₁ ∧
      store q₁.packet q₁.pos (be16 type ++ be16 C_IN) = some q'.packet ∧
      q'.pos = q₁.pos + 4 ∧ q'.comp = q₁.comp := by
  unfold addRr at h
  cases hw : writeNameCompressed q name with
  | error e =>
    rw [hw] at h
    cases h
  | ok q₁ =>
    rw [hw] at h
    cases hput : q₁.put q₁.pos (be16 type ++ be16 C_IN) with
    | error e =>
      have h : Except.map (fun q : Query => { q with pos := q.pos + 4 })
          (q₁.put q₁.pos (be16 type ++ be16 C_IN)) = .ok q' := h
      rw [hput] at h
      cases h
    | ok q₂ =>
      have h : Except.map (fun q : Query => { q with pos := q.pos + 4 })
          (q₁.put q₁.pos (be16 type ++ be16 C_IN)) = .ok q' := h
      rw [hput] at h
      obtain ⟨hcomp, hpos, hstore⟩ := Query.canCompress_put hput
      cases h
      exact ⟨q₁, rfl, hstore, by rw [← hpos], hcomp⟩

theorem Sent.table_of_agree (hs : Sent q done) (hle : q.pos ≤ q'.pos)
    (hagree : Agree q.pos q.packet q'.packet) {s : List UInt8} {offset : Nat}
    (h : q.canCompress s = some offset) :
    ∃ ls, ls ≠ [] ∧ Spells s ls ∧ Holds q'.packet offset (wire ls) ∧
      offset + (wire ls).length ≤ q'.pos := by
  obtain ⟨ls, hls, hsp, hholds, hend⟩ := hs.table s offset h
  exact ⟨ls, hls, hsp, hholds.of_agree hend hagree, by omega⟩

theorem Sent.canCompress_root (hs : Sent q done) : q.canCompress [dot] = none := by
  refine Option.eq_none_iff_forall_ne_some.2 fun offset hoff => ?_
  obtain ⟨ls, hls, hsp, -⟩ := hs.table _ _ hoff
  exact hls (hsp.labelLen_zero_iff.1 rfl)

theorem Sent.canCompress_none (hs : Sent q done) {s : List UInt8}
    (hnew : ∀ d ∈ done, s ∉ suffixes d.1) :
    q.canCompress s = none := by
  by_contra hne
  obtain ⟨offset, hoff⟩ := Option.ne_none_iff_exists'.1 hne
  have hsome : q.comp.isSome = true := by
    unfold Query.canCompress at hoff
    obtain ⟨t, ht, -⟩ := Option.bind_eq_some_iff.1 hoff
    rw [ht]
    rfl
  obtain ⟨d, hd, hin⟩ := (hs.known hsome s).1 (by rw [hoff]; rfl)
  exact hnew d hd hin

/-- A name that is in the table as a whole is sent as a pointer. -/
theorem Sent.addRr_known (hs : Sent q done) (hne : name ≠ []) (hrem : 2 ≤ q.remain)
    (hcomp : q.comp.isSome ∨ done = []) {d : List UInt8 × Nat} (hd : d ∈ done)
    (hin : name ∈ suffixes d.1) (h : addRr q name type = .ok q') :
    Sent q' (done ++ [(name, type)]) ∧ q'.comp.isSome = q.comp.isSome ∧ q.pos ≤ q'.pos ∧
      Agree q.pos q.packet q'.packet := by
  obtain ⟨q₁, hw, hstore, hpos, hcomp'⟩ := addRr_inv h
  have hsome : q.comp.isSome = true := hcomp.resolve_right fun hnil => by
    rw [hnil] at hd
    cases hd
  obtain ⟨offset, hhit⟩ := Option.isSome_iff_exists.1 ((hs.known hsome name).2 ⟨d, hd, hin⟩)
  obtain ⟨ls, hls, hsp, hholds, hle⟩ := hs.table name offset hhit
  unfold writeNameCompressed at hw
  rw [writeLabels_hit hne hrem (q.head_of_hit hhit) hhit] at hw
  cases hput : q.put q.pos (pointerBytes offset) with
  | error e =>
    rw [hput] at hw
    cases hw
  | ok q₂ =>
    rw [hput] at hw
    obtain ⟨hcomp₂, hpos₂, hstore₂⟩ := Query.canCompress_put hput
    cases hw
    dsimp only at hstore hpos hcomp'
    have hagree := agree_store hstore
    have htype := Holds.store_self hstore
    have hptr := Holds.store_self hstore₂
    have hboth : Agree q.pos q.packet q'.packet := (agree_store hstore₂).trans (hagree.mono (by omega))
    have hfound : ∀ s, q'.canCompress s = q.canCompress s :=
      Query.canCompress_congr (hcomp'.trans hcomp₂)
    refine ⟨⟨?_, fun s o hso => ?_, fun hc s => ?_⟩, by rw [hcomp', hcomp₂], by omega, hboth⟩
    · refine (hs.questions.agree le_rfl hboth).append
        (.cons hsp (.pointer (hptr.of_agree ?_ hagree) (hholds.of_agree hle hboth) hls hle) ?_ ?_)
      · show q.pos + 2 ≤ q₂.pos + 2
        omega
      · rw [← hpos₂]
        exact htype
      · have hend : q.pos + 2 + 4 = q'.pos := by omega
        rw [hend]
        exact .nil
    · rw [hfound] at hso
      exact hs.table_of_agree (by omega) hboth hso
    · rw [hfound, hs.known hsome s]
      constructor
      · rintro ⟨d', hd', hs'⟩
        exact ⟨d', List.mem_append_left _ hd', hs'⟩
      · rintro ⟨d', hd', hs'⟩
        rcases List.mem_append.1 hd' with hd' | hd'
        · exact ⟨d', hd', hs'⟩
        · rw [List.mem_singleton.1 hd'] at hs'
          exact ⟨d, hd, suffixes_trans hin hs'⟩

/-- A name that ends like no name before it is sent label by label. -/
theorem Sent.addRr_new (hs : Sent q done) {ls : List (List UInt8)} (hsp : Spells name ls)
    (hlabels : ∀ l ∈ ls, l.length + 1 ≤ q.remain)
    (hmiss : ∀ s ∈ suffixes name, q.canCompress s = none) (h : addRr q name type = .ok q') :
    Sent q' (done ++ [(name, type)]) ∧ q'.comp.isSome = q.comp.isSome ∧ q.pos ≤ q'.pos ∧
      Agree q.pos q.packet q'.packet := by
  obtain ⟨q₁, hw, hstore, hpos, hcomp'⟩ := addRr_inv h
  have hagree := agree_store hstore
  have htype := Holds.store_self hstore
  have hsame := Query.canCompress_congr hcomp'
  unfold writeNameCompressed at hw
  rcases writeLabels_plain q.remain q.head q.pos hsp hlabels hs.canCompress_root fun _ => hmiss with
    ⟨q₂, hq₂, hwr⟩ | ⟨-, hover⟩
  · rw [hw] at hq₂
    cases hq₂
    have hholds := Holds.store_self hwr.stored
    have hpos₁ := hwr.pos
    have hboth : Agree q.pos q.packet q'.packet :=
      (agree_store hwr.stored).trans (hagree.mono (by omega))
    have hname := hholds.of_agree (by omega) hagree
    refine ⟨⟨?_, fun s o hso => ?_, fun hc s => ?_⟩, by rw [hcomp', hwr.table], by omega, hboth⟩
    · refine (hs.questions.agree le_rfl hboth).append (.cons hsp (.labels hname) ?_ ?_)
      · rw [← hpos₁]
        exact htype
      · have hend : q.pos + (wire ls).length + 4 = q'.pos := by omega
        rw [hend]
        exact .nil
    · rw [hsame, hwr.found] at hso
      split_ifs at hso with hin
      · cases hso
        obtain ⟨ls', h1, h2, h3, h4⟩ := hsp.suffix hname hin.2
        exact ⟨ls', h1, h2, h3, by omega⟩
      · exact hs.table_of_agree (by omega) hboth hso
    · have hsome : q.comp.isSome = true := by rw [← hwr.table, ← hcomp']; exact hc
      rw [hsame, hwr.found]
      simp only [hsome, true_and, List.mem_append, List.mem_singleton]
      split_ifs with hin
      · exact iff_of_true rfl ⟨_, .inr rfl, hin⟩
      · rw [hs.known hsome s]
        constructor
        · rintro ⟨d, hd, hs'⟩
          exact ⟨d, .inl hd, hs'⟩
        · rintro ⟨d, hd | rfl, hs'⟩
          · exact ⟨d, hd, hs'⟩
          · exact absurd hs' hin
  · rw [hw] at hover
    cases hover

/-- A question behind the ones that have been written, if its name is an end of one before or ends
like none. -/
theorem Sent.addRr (hs : Sent q done) (hname : Named name) (hne : name ≠ []) (hrem : 2 ≤ q.remain)
    (hfit : (q.canCompress name).isSome ∨ calculateLabelLen name = 0 ∨ room name ≤ q.remain + 1)
    (hcomp : q.comp.isSome ∨ done = [])
    (hwhole : (∃ d ∈ done, name ∈ suffixes d.1) ∨ ∀ d ∈ done, ∀ s ∈ suffixes name, s ∉ suffixes d.1)
    (h : addRr q name type = .ok q') :
    Sent q' (done ++ [(name, type)]) ∧ q'.comp.isSome = q.comp.isSome ∧ q.pos ≤ q'.pos ∧
      Agree q.pos q.packet q'.packet := by
  rcases hwhole with ⟨d, hd, hin⟩ | hnew
  · exact hs.addRr_known hne hrem hcomp hd hin h
  · obtain ⟨ls, hsp⟩ := hname
    have hmiss : ∀ s ∈ suffixes name, q.canCompress s = none :=
      fun s hs' => hs.canCompress_none fun d hd => hnew d hd s hs'
    refine hs.addRr_new hsp (fun l hl => ?_) hmiss h
    -- every label leaves room for its length in front of it
    have hle := hsp.label_le l hl
    have h0 : calculateLabelLen name ≠ 0 := fun h0 => by
      rw [hsp.labelLen_zero_iff.1 h0] at hl
      cases hl
    rcases hfit with hfit | hfit | hfit
    · rw [hmiss name (by rw [suffixes_cons h0]; exact List.mem_cons_self)] at hfit
      cases hfit
    · exact absurd hfit h0
    · have hroom : room name = name.length + 2 := if_neg hne
      omega

theorem Asks.sent (h : Asks q names q') (hs : Sent q done)
    (hcomp : q.comp.isSome ∨ done = [] ∧ names.length ≤ 1)
    (hwhole : WholeNames (done.map (·.1)) (names.map (·.1))) :
    Sent q' (done ++ names) ∧ Agree q.pos q.packet q'.packet := by
  induction h generalizing done with
  | nil =>
    rw [List.append_nil]
    exact ⟨hs, fun _ _ => rfl⟩
  | @cons q q₁ q' name type names hname hne hrem hfit hq hasks ih =>
    obtain ⟨hsplit, hwhole⟩ := hwhole
    have hone : (∃ d ∈ done, name ∈ suffixes d.1) ∨
        ∀ d ∈ done, ∀ s ∈ suffixes name, s ∉ suffixes d.1 := by
      refine hsplit.imp (fun ⟨d, hd, hin⟩ => ?_) fun hnew d hd => hnew d.1 (List.mem_map_of_mem hd)
      obtain ⟨e, he, rfl⟩ := List.mem_map.1 hd
      exact ⟨e, he, hin⟩
    obtain ⟨hs₁, hcomp₁, hpos₁, hagree₁⟩ :=
      hs.addRr hname hne hrem hfit (hcomp.imp_right And.left) hone hq
    have happend : done ++ (name, type) :: names = done ++ [(name, type)] ++ names := by
      rw [List.append_assoc]
      rfl
    have hwhole : WholeNames ((done ++ [(name, type)]).map (·.1)) (names.map (·.1)) := by
      rw [List.map_append]
      exact hwhole
    rw [happend]
    rcases eq_or_ne names [] with rfl | hnames
    · cases hasks
      rw [List.append_nil]
      exact ⟨hs₁, hagree₁⟩
    · have hsome : q.comp.isSome = true := hcomp.resolve_right fun h => by
        have := List.length_pos_iff.2 hnames
        rw [List.length_cons] at h
        omega
      obtain ⟨hs', hagree'⟩ := ih hs₁ (.inl (hcomp₁.trans hsome)) hwhole
      exact ⟨hs', hagree₁.trans (hagree'.mono hpos₁)⟩

theorem length_resolve (last : Option (List UInt8)) (args : List (Option (List UInt8) × Nat)) :
    (resolve last args).length = args.length := by
  induction args generalizing last with
  | nil => rfl
  | cons a args ih =>
    obtain ⟨_ | cur, type⟩ := a
    · exact congrArg (· + 1) (ih last)
    · exact congrArg (· + 1) (ih (some cur))

/-- Up to 15 questions about ASCII names are read as they were asked: the header says how many there
are, each of them has the name and the type that were given, and behind them are the eleven bytes of
EDNS. -/
theorem makeRequest_read (stack : Nat → List UInt8) (heap : Nat → UInt8) (id : Nat)
    {args : List (Option (List UInt8) × Nat)} {behind : List UInt8}
    (hascii : ∀ a ∈ args, ∀ cur, a.1 = some cur → ∀ c ∈ cur, c.toNat < 0x80)
    (hcount : args.length ≤ 15) (hsize : textLength args + 113 ≤ UDP_PACKET_SIZE) (ht : Takes args)
    (hwhole : WholeNames [] ((resolve none args).map (·.1))) (hbehind : 256 ≤ behind.length) :
    ∃ q, makeRequest stack heap id args = .ok q ∧ Holds q.packet 0 (headerBytes id args.length) ∧
      readQuestions (q.packet.take q.pos ++ behind) args.length 12 (q.pos - 12) =
        .ok ((resolve none args).map question, q.pos - 11, 11) ∧
      Holds q.packet (q.pos - 11) edns0Bytes := by
  unfold UDP_PACKET_SIZE at hsize
  rcases makeRequest_makes stack heap id hascii hcount (by omega) with ⟨-, q, hq, hm⟩ | ⟨hbad, -⟩
  · have hlen := hm.length
    obtain ⟨q₀, q₁, q₂, -, hstore₁, hpos₁, hcomp₁, hasks, hpos, hle, hstore₃⟩ := hm.steps
    have hempty : ∀ s, q₁.canCompress s = none := by
      intro s
      unfold Query.canCompress
      rw [hcomp₁]
      split_ifs <;> rfl
    have hsent₁ : Sent q₁ [] := by
      refine ⟨?_, fun s o hso => ?_, fun _ s => ?_⟩
      · rw [hpos₁]
        exact .nil
      · rw [hempty] at hso
        cases hso
      · rw [hempty]
        simp
    obtain ⟨hsent, hkeep⟩ := hasks.sent hsent₁ (by
        rw [hcomp₁, length_resolve]
        split_ifs with h1
        · exact .inl rfl
        · exact .inr ⟨rfl, by omega⟩) hwhole
    have hstart := hsent.questions.le
    have hhead : Holds q₁.packet 0 (headerBytes id args.length) := Holds.store_self hstore₁
    have hend : q.pos - 11 = q₂.pos := by omega
    refine ⟨q, hq, ?_, ?_, by rw [hend]; exact Holds.store_self hstore₃⟩
    · have hstore : Agree 12 q₁.packet q.packet := by
        refine Agree.trans (hkeep.mono (by omega)) ((agree_store hstore₃).mono (by omega))
      exact hhead.of_agree (le_refl 12) hstore
    · have hagree := (agree_store hstore₃).trans
        ((agree_take_append q.packet behind hle).mono (by omega))
      have hread : readQuestions _ _ 12 ((q.pos : Int) - 12) = _ :=
        (hsent.questions.agree le_rfl hagree).read (r := q.pos) (by omega) (by omega)
          (by rw [List.length_append, List.length_take]; omega) (by push_cast; omega)
      have hrest : (q.pos : Int) - q₂.pos = 11 := by omega
      rw [List.nil_append, length_resolve] at hread
      rw [hread, hrest, hend]
  · exact absurd ht hbad

/-- `a.b` twice, then `b`. -/
theorem makeRequest_read_ends :
    ∃ q, makeRequest (fun _ => []) (fun _ => 0) 7 [(some [0x61, dot, 0x62], 1), (none, 28),
      (some [0x62], 1)] = .ok q ∧
      Holds q.packet 0 (headerBytes 7 3) ∧
      readQuestions (q.packet.take q.pos ++ List.replicate 256 0) 3 12 (q.pos - 12) =
        .ok ((resolve none [(some [0x61, dot, 0x62], 1), (none, 28), (some [0x62], 1)]).map question,
          q.pos - 11, 11) ∧
      Holds q.packet (q.pos - 11) edns0Bytes := by
  have hlb : IsLabel [0x62] := ⟨by decide, by decide, by decide⟩
  have hla : IsLabel [0x61] := ⟨by decide, by decide, by decide⟩
  have hb : Named [0x62] := ⟨_, .last hlb⟩
  have hab : Named [0x61, dot, 0x62] := ⟨_, .label hla (.last hlb)⟩
  refine makeRequest_read _ _ _ (by decide +kernel) (by decide) (by decide)
    ⟨by decide, fun a ha cur hcur => ?_⟩ (by decide +kernel) (by rw [List.length_replicate])
  rcases List.mem_cons.1 ha with rfl | ha
  · cases hcur
    exact hab
  rcases List.mem_cons.1 ha with rfl | ha
  · cases hcur
  · rw [List.mem_singleton.1 ha] at hcur
    cases hcur
    exact hb

end Resend.Dns

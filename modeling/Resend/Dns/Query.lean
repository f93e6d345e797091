import Resend.Lib.Memory
import Resend.Dns.FormatName
import Resend.Dns.Labels

/-!
# Requests (packet.c, compression.c, resolver.c)

A request is written into a packet that was allocated from the lengths of the names as they were
given. `rdns_write_name_compressed` writes a name label by label and remembers where each of its
ends stands, so that a later name can point there. `Spells` says which labels a name has, `Named`
that it has some: those are the names that are taken.
-/

namespace Resend.Dns

open Memory

def UDP_PACKET_SIZE : Nat := 4096

/-- `*req` as the packet is written: `packet` is the allocation, `comp` is what `*comp` has, most
recent first; `none` is `comp == NULL`. -/
structure Query where
  packet : List UInt8
  pos : Nat
  comp : Option (List (List UInt8 × Nat))
  deriving DecidableEq, Repr

/-- `htons` -/
def be16 (n : Nat) : List UInt8 := [(n / 2 ^ 8).toUInt8, n.toUInt8]

/-- The bytes of a pointer, `htons (offset) | DNS_COMPRESSION_BITS`. -/
def pointerBytes (offset : Nat) : List UInt8 :=
  [(offset / 2 ^ 8 % 2 ^ 8 ||| COMPRESSION_BITS).toUInt8, offset.toUInt8]

/-- `rdns_calculate_label_len` -/
def calculateLabelLen : List UInt8 → Nat
  | [] => 0
  | c :: p => if c = dot then 0 else calculateLabelLen p + 1

namespace Query

/-- `memcpy (req->packet + i, ..)` -/
def put (q : Query) (i : Nat) (bytes : List UInt8) : Except Fault Query :=
  match store q.packet i bytes with
  | some m => .ok { q with packet := m }
  | none => .error .overrun

/-- `rdns_can_compress` -/
def canCompress (q : Query) (pos : List UInt8) : Option Nat := q.comp.bind fun t => t.lookup pos

/-- `rdns_add_compressed` -/
def addCompressed (q : Query) (pos : List UInt8) (offset : Nat) : Query :=
  { q with comp := q.comp.map fun t => (pos, offset) :: t }

/-- The termination label. -/
def terminate (q : Query) (target : Nat) : Except Fault Query :=
  (q.put target [0]).map fun q => { q with pos := target + 1 }

/-- `req->packet_len - req->pos - 5` -/
def remain (q : Query) : Nat := (((q.packet.length : Int) - q.pos - 5) % 2 ^ 32).toNat

/-- `head != NULL` -/
def head (q : Query) : Bool := q.comp.any fun t => !t.isEmpty

end Query

/-- The loop of `rdns_write_name_compressed`. -/
def writeLabels (remain : Nat) (head : Bool) (pos : List UInt8) (target : Nat) (q : Query) :
    Except Fault Query :=
  if pos = [] ∨ remain = 0 then q.terminate target
  else
    match if head then q.canCompress pos else none with
    | some offset =>
      if remain < 2 then .error .invalid
      else (q.put target (pointerBytes offset)).map fun q => { q with pos := q.pos + 2 }
    | none =>
      if calculateLabelLen pos = 0 then if pos.length = 1 then q.terminate target else .error .invalid
      else if MAXLABEL < calculateLabelLen pos then .error .invalid
      else if remain < calculateLabelLen pos + 1 then
        -- a label that does not fit is cut
        match (q.addCompressed pos target).put target
          ((remain - 1).toUInt8 :: pos.take (remain - 1)) with
        | .error e => .error e
        | .ok q => writeLabels remain head (pos.drop (remain - 1 + 1)) (target + (remain - 1) + 1) q
      else
        match (q.addCompressed pos target).put target
          ((calculateLabelLen pos).toUInt8 :: pos.take (calculateLabelLen pos)) with
        | .error e => .error e
        | .ok q => writeLabels remain head (pos.drop (calculateLabelLen pos + 1))
          (target + calculateLabelLen pos + 1) q
termination_by pos.length
decreasing_by
  all_goals
    have := List.length_pos_iff.2 fun h => ‹¬(pos = [] ∨ remain = 0)› (.inl h)
    rw [List.length_drop]
    omega

/-- `rdns_write_name_compressed` -/
def writeNameCompressed (q : Query) (name : List UInt8) : Except Fault Query :=
  writeLabels q.remain q.head name q.pos q

def T_OPT : Nat := 41
def C_IN : Nat := 1

/-- `rdns_add_rr` -/
def addRr (q : Query) (name : List UInt8) (type : Nat) : Except Fault Query := do
  let q ← writeNameCompressed q name
  (q.put q.pos (be16 type ++ be16 C_IN)).map fun q => { q with pos := q.pos + 4 }

/-- `rdns_allocate_packet`; `heap` is what `malloc` leaves there. -/
def allocatePacket (heap : Nat → UInt8) (namelen : Nat) (comp : Option (List (List UInt8 × Nat))) :
    Query :=
  ⟨(List.range (namelen + 96 + 2 + 4 + 11)).map heap, 0, comp⟩

/-- The twelve bytes of `struct dns_header`; `qid` is not swapped. -/
def headerBytes (id qcount : Nat) : List UInt8 :=
  [id.toUInt8, (id / 2 ^ 8).toUInt8, 1, 0] ++ be16 qcount ++ be16 0 ++ be16 0 ++ be16 1

/-- `rdns_make_dns_header` -/
def makeDnsHeader (q : Query) (id qcount : Nat) : Except Fault Query :=
  (q.put 0 (headerBytes id qcount)).map fun q => { q with pos := q.pos + 12 }

def edns0Bytes : List UInt8 := 0 :: (be16 T_OPT ++ be16 UDP_PACKET_SIZE ++ be16 0 ++ be16 0 ++ be16 0)

/-- `rdns_add_edns0` -/
def addEdns0 (q : Query) : Except Fault Query :=
  (q.put q.pos edns0Bytes).map fun q => { q with pos := q.pos + 11 }

/-- The loop of `rdns_make_request_full` that adds the questions. -/
def addRrs (q : Query) : List (List UInt8 × Nat) → Except Fault Query
  | [] => .ok q
  | (name, type) :: names => do
    let q ← addRr q name type
    addRrs q names

/-- The loop of `rdns_make_request_full` over its arguments: `requested_names` and `tlen`; `format` is
`rdns_format_dns_name` at each of them and `NULL` stands for the name before. -/
def requestedNames (format : Nat → List UInt8 → Option (List UInt8)) (i : Nat)
    (last : Option (List UInt8)) (tlen : Nat) :
    List (Option (List UInt8) × Nat) → Option (List (List UInt8 × Nat) × Nat)
  | [] => some ([], tlen)
  | (some cur, type) :: args =>
    if cur = [] then none
    else
      match format i cur, requestedNames format (i + 1) (some cur) (tlen + cur.length) args with
      | some name, some (names, tlen) => some ((name, type) :: names, tlen)
      | _, _ => none
  | (none, type) :: args =>
    match last with
    | none => none
    | some cur =>
      match format i cur, requestedNames format (i + 1) last tlen args with
      | some name, some (names, tlen) => some ((name, type) :: names, tlen)
      | _, _ => none

/-- What `rdns_make_request_full` writes before it selects a server. -/
def makeRequest (stack : Nat → List UInt8) (heap : Nat → UInt8) (id : Nat)
    (args : List (Option (List UInt8) × Nat)) :
    Except Fault Query :=
  match requestedNames (fun i => formatDnsName (stack i)) 0 none 0 args with
  | none => .error .invalid
  | some (names, tlen) => do
    let q ← makeDnsHeader (allocatePacket heap tlen (if 1 < args.length then some []
      else none)) id args.length
    let q ← addRrs q names
    addEdns0 q

/-! ## Which labels a name has -/

/-- A label that is written. -/
structure IsLabel (l : List UInt8) : Prop where
  nonempty : l ≠ []
  short : l.length ≤ MAXLABEL
  noDot : dot ∉ l

/-- The labels of a name; there may be a dot behind the last, and one more. -/
inductive Spells : List UInt8 → List (List UInt8) → Prop
  | nil : Spells [] []
  | root : Spells [dot] []
  | last {l : List UInt8} (hl : IsLabel l) : Spells l [l]
  | label {l p : List UInt8} {ls : List (List UInt8)} (hl : IsLabel l) (h : Spells p ls) :
      Spells (l ++ dot :: p) (l :: ls)

def Named (name : List UInt8) : Prop := ∃ ls, Spells name ls

/-- The bytes of the labels and of the root behind them. -/
def wire (ls : List (List UInt8)) : List UInt8 := ls.flatMap (fun l => l.length.toUInt8 :: l) ++ [0]

variable {name p l : List UInt8} {ls : List (List UInt8)} {q q' : Query} {target : Nat}

theorem wire_cons (l : List UInt8) (ls : List (List UInt8)) :
    wire (l :: ls) = (l.length.toUInt8 :: l) ++ wire ls := by
  unfold wire
  rw [List.flatMap_cons, List.append_assoc]

theorem labelLen_of_notMem (h : dot ∉ l) : calculateLabelLen l = l.length := by
  induction l with
  | nil => rfl
  | cons c l ih =>
    have hc : c ≠ dot := fun he => h (he ▸ List.mem_cons_self)
    rw [calculateLabelLen, if_neg hc, ih fun hm => h (List.mem_cons_of_mem _ hm), List.length_cons]

theorem labelLen_append (h : dot ∉ l) (p : List UInt8) :
    calculateLabelLen (l ++ dot :: p) = l.length := by
  induction l with
  | nil => exact if_pos rfl
  | cons c l ih =>
    have hc : c ≠ dot := fun he => h (he ▸ List.mem_cons_self)
    rw [List.cons_append, calculateLabelLen, if_neg hc,
      ih fun hm => h (List.mem_cons_of_mem _ hm), List.length_cons]

/-- The name is its first label, or a dot stands behind that. -/
theorem labelLen_split (name : List UInt8) :
    dot ∉ name.take (calculateLabelLen name) ∧ calculateLabelLen name ≤ name.length ∧
      (calculateLabelLen name = name.length ∨
        name = name.take (calculateLabelLen name) ++ dot ::
          name.drop (calculateLabelLen name + 1)) := by
  induction name with
  | nil => exact ⟨List.not_mem_nil, le_rfl, .inl rfl⟩
  | cons c p ih =>
    unfold calculateLabelLen
    split_ifs with hc
    · subst hc
      exact ⟨List.not_mem_nil, Nat.zero_le _, .inr rfl⟩
    · obtain ⟨h1, h2, h3⟩ := ih
      refine ⟨?_, by rw [List.length_cons]; omega, ?_⟩
      · rw [List.take_succ_cons, List.mem_cons, not_or]
        exact ⟨fun h => hc h.symm, h1⟩
      · rcases h3 with h3 | h3
        · exact .inl (by rw [List.length_cons, h3])
        · refine .inr ?_
          rw [List.take_succ_cons, List.drop_succ_cons, List.cons_append, ← h3]

theorem Spells.of_labelLen_zero (h : Spells name ls) (hne : name ≠ [])
    (h0 : calculateLabelLen name = 0) :
    name = [dot] ∧ ls = [] := by
  cases h with
  | nil => exact absurd rfl hne
  | root => exact ⟨rfl, rfl⟩
  | last hl =>
    rw [labelLen_of_notMem hl.noDot] at h0
    exact absurd (List.length_eq_zero_iff.1 h0) hl.nonempty
  | label hl _ =>
    rw [labelLen_append hl.noDot] at h0
    exact absurd (List.length_eq_zero_iff.1 h0) hl.nonempty

theorem Spells.uncons (h : Spells name ls) (h0 : calculateLabelLen name ≠ 0) :
    IsLabel (name.take (calculateLabelLen name)) ∧
      ∃ ls', ls = name.take (calculateLabelLen name) :: ls' ∧
      Spells (name.drop (calculateLabelLen name + 1)) ls' := by
  cases h with
  | nil => exact absurd rfl h0
  | root => exact absurd (if_pos rfl) h0
  | last hl =>
    rw [labelLen_of_notMem hl.noDot, List.take_length, List.drop_eq_nil_of_le (Nat.le_succ _)]
    exact ⟨hl, [], rfl, .nil⟩
  | @label l p ls hl h =>
    have hdrop : (l ++ dot :: p).drop (l.length + 1) = p := by
      rw [List.drop_length_add_append, List.drop_succ_cons, List.drop_zero]
    rw [labelLen_append hl.noDot, List.take_left, hdrop]
    exact ⟨hl, ls, rfl, h⟩

theorem Spells.labelLen_zero_iff (h : Spells name ls) : calculateLabelLen name = 0 ↔ ls = [] := by
  cases h with
  | nil => exact iff_of_true rfl rfl
  | root => exact iff_of_true (if_pos rfl) rfl
  | last hl =>
    rw [labelLen_of_notMem hl.noDot]
    exact iff_of_false (fun h0 => hl.nonempty (List.length_eq_zero_iff.1 h0)) (List.cons_ne_nil _ _)
  | label hl _ =>
    rw [labelLen_append hl.noDot]
    exact iff_of_false (fun h0 => hl.nonempty (List.length_eq_zero_iff.1 h0)) (List.cons_ne_nil _ _)

theorem labelLen_pos_ne_nil (h0 : calculateLabelLen name ≠ 0) : name ≠ [] :=
  fun h => h0 (by rw [h]; rfl)

theorem Spells.cons (hl : calculateLabelLen name ≤ MAXLABEL) (h0 : calculateLabelLen name ≠ 0)
    (h : Spells (name.drop (calculateLabelLen name + 1)) ls) :
    Spells name (name.take (calculateLabelLen name) :: ls) := by
  obtain ⟨hdot, hle, hsplit⟩ := labelLen_split name
  have hlen : (name.take (calculateLabelLen name)).length = calculateLabelLen name := by
    rw [List.length_take]
    exact min_eq_left hle
  have hlabel : IsLabel (name.take (calculateLabelLen name)) :=
    ⟨fun hnil => h0 (by rw [← hlen, hnil]; rfl), by rw [hlen]; exact hl, hdot⟩
  rcases hsplit with heq | hsplit
  · have hall : name.take (calculateLabelLen name) = name := List.take_of_length_le heq.ge
    rw [List.drop_eq_nil_of_le (by omega)] at h
    rw [hall] at hlabel ⊢
    have hls : ls = [] := h.labelLen_zero_iff.1 rfl
    rw [hls]
    exact .last hlabel
  · have hcons := Spells.label hlabel h
    rwa [← hsplit] at hcons

theorem Spells.label_short (h : Spells name ls) : ∀ l ∈ ls, l.length ≤ MAXLABEL := by
  induction h with
  | nil => simp
  | root => simp
  | last hl => simpa using hl.short
  | label hl _ ih => exact List.forall_mem_cons.2 ⟨hl.short, ih⟩

theorem spells_dotted (h : ∀ l ∈ ls, IsLabel l) : Spells (dotted ls) ls := by
  induction ls with
  | nil => exact .nil
  | cons l ls ih =>
    obtain ⟨hl, hls⟩ := List.forall_mem_cons.1 h
    have hcons : dotted (l :: ls) = l ++ dot :: dotted ls := by
      unfold dotted
      rw [List.flatMap_cons, List.append_assoc]
      rfl
    rw [hcons]
    exact .label hl (ih hls)

/-- The name and its ends, each from a label on. -/
def suffixes (name : List UInt8) : List (List UInt8) :=
  if calculateLabelLen name = 0 then [] else name :: suffixes (name.drop (calculateLabelLen name + 1))
termination_by name.length
decreasing_by
  have := List.length_pos_iff.2 (labelLen_pos_ne_nil ‹_›)
  rw [List.length_drop]
  omega

theorem suffixes_cons (h0 : calculateLabelLen name ≠ 0) :
    suffixes name = name :: suffixes (name.drop (calculateLabelLen name + 1)) := by
  rw [suffixes, if_neg h0]

theorem suffixes_nil (h0 : calculateLabelLen name = 0) : suffixes name = [] := by
  rw [suffixes, if_pos h0]

theorem length_suffix {s : List UInt8} (hs : s ∈ suffixes name) : s.length ≤ name.length := by
  induction name using suffixes.induct with
  | case1 name h0 =>
    rw [suffixes_nil h0] at hs
    cases hs
  | case2 name h0 ih =>
    rw [suffixes_cons h0] at hs
    rcases List.mem_cons.1 hs with rfl | hs
    · exact le_rfl
    · have := ih hs
      rw [List.length_drop] at this
      omega

theorem self_notMem_suffixes (h0 : calculateLabelLen name ≠ 0) :
    name ∉ suffixes (name.drop (calculateLabelLen name + 1)) := by
  intro hs
  have := length_suffix hs
  have := List.length_pos_iff.2 (labelLen_pos_ne_nil h0)
  rw [List.length_drop] at *
  omega

namespace Query

theorem canCompress_put {i : Nat} {bytes : List UInt8} (h : q.put i bytes = .ok q') :
    q'.comp = q.comp ∧ q'.pos = q.pos ∧ store q.packet i bytes = some q'.packet := by
  unfold put at h
  split at h
  · rename_i m hm
    cases h
    exact ⟨rfl, rfl, hm⟩
  · cases h

theorem canCompress_addCompressed (s : List UInt8) :
    (q.addCompressed name target).canCompress s =
      if q.comp.isSome ∧ s = name then some target else q.canCompress s := by
  unfold canCompress addCompressed
  cases q.comp with
  | none => simp
  | some t =>
    rw [Option.map_some, Option.bind_some, List.lookup_cons]
    by_cases hs : s = name
    · rw [if_pos ⟨rfl, hs⟩, beq_iff_eq.2 hs]
    · rw [if_neg fun h => hs h.2, beq_eq_false_iff_ne.2 hs]
      rfl

end Query

section Steps
variable {remain : Nat} {head : Bool}

theorem writeLabels_root (h : name = [] ∨ name = [dot] ∧ (head = true → q.canCompress name = none)) :
    writeLabels remain head name target q = q.terminate target := by
  rw [writeLabels]
  by_cases hstop : name = [] ∨ remain = 0
  · rw [if_pos hstop]
  · obtain ⟨hname, hmiss⟩ := h.resolve_left fun h => hstop (.inl h)
    have hnone : (if head = true then q.canCompress name else none) = none := by
      split_ifs with hh
      · exact hmiss hh
      · rfl
    rw [if_neg hstop, hnone]
    subst hname
    rfl

theorem writeLabels_label (h0 : calculateLabelLen name ≠ 0) (hs : calculateLabelLen name ≤ MAXLABEL)
    (hfit : calculateLabelLen name + 1 ≤ remain) (hmiss : head = true → q.canCompress name = none) :
    writeLabels remain head name target q =
      match (q.addCompressed name target).put target
        ((calculateLabelLen name).toUInt8 :: name.take (calculateLabelLen name)) with
      | .error e => .error e
      | .ok q => writeLabels remain head (name.drop (calculateLabelLen name + 1))
        (target + calculateLabelLen name + 1) q := by
  have hnone : (if head = true then q.canCompress name else none) = none := by
    split_ifs with hh
    · exact hmiss hh
    · rfl
  have hgo : ¬(name = [] ∨ remain = 0) := by
    rintro (h | h)
    · exact labelLen_pos_ne_nil h0 h
    · omega
  rw [writeLabels, if_neg hgo, hnone]
  dsimp only
  rw [if_neg h0, if_neg (not_lt.2 hs), if_neg (not_lt.2 hfit)]

theorem writeLabels_hit {offset : Nat} (hne : name ≠ []) (hrem : 2 ≤ remain) (hhead : head = true)
    (hhit : q.canCompress name = some offset) :
    writeLabels remain head name target q =
      (q.put target (pointerBytes offset)).map fun q => { q with pos := q.pos + 2 } := by
  have hgo : ¬(name = [] ∨ remain = 0) := by
    rintro (h | h)
    · exact hne h
    · omega
  rw [writeLabels, if_neg hgo, if_pos hhead, hhit]
  dsimp only
  rw [if_neg (by omega)]

end Steps

/-- A name written label by label: its bytes are at `target`, and each of its ends is in the table. -/
structure Written (q : Query) (name : List UInt8) (target : Nat) (ls : List (List UInt8))
    (q' : Query) : Prop where
  stored : store q.packet target (wire ls) = some q'.packet
  pos : q'.pos = target + (wire ls).length
  table : q'.comp.isSome = q.comp.isSome
  found : ∀ s, q'.canCompress s =
    if q.comp.isSome ∧ s ∈ suffixes name then some (target + (name.length - s.length))
    else q.canCompress s

theorem Query.terminate_written (h0 : calculateLabelLen name = 0) :
    (∃ q', q.terminate target = .ok q' ∧ Written q name target [] q') ∨
      store q.packet target (wire []) = none ∧ q.terminate target = .error .overrun := by
  unfold Query.terminate Query.put
  cases hm : store q.packet target [0] with
  | none => exact .inr ⟨hm, rfl⟩
  | some m =>
    refine .inl ⟨_, rfl, hm, rfl, rfl, fun s => ?_⟩
    rw [suffixes_nil h0, if_neg (by simp)]
    rfl

theorem Query.put_error {i : Nat} {bytes : List UInt8} {e : Fault} (h : q.put i bytes = .error e) :
    e = .overrun ∧ store q.packet i bytes = none := by
  unfold Query.put at h
  split at h
  · cases h
  · rename_i hnone
    cases h
    exact ⟨rfl, hnone⟩

section label
variable {q₂ : Query} {bytes : List UInt8}

theorem canCompress_label (h : (q.addCompressed name target).put target bytes = .ok q₂)
    (s : List UInt8) : q₂.canCompress s =
      if q.comp.isSome ∧ s = name then some target else q.canCompress s := by
  rw [← Query.canCompress_addCompressed]
  unfold Query.canCompress
  rw [(Query.canCompress_put h).1]

theorem comp_isSome_label (h : (q.addCompressed name target).put target bytes = .ok q₂) :
    q₂.comp.isSome = q.comp.isSome := by
  rw [(Query.canCompress_put h).1]
  exact Option.isSome_map

theorem drop_of_mem_suffixes {s : List UInt8} {n : Nat} (hs : s ∈ suffixes (name.drop n)) :
    n ≤ name.length := by
  by_contra hlong
  rw [List.drop_eq_nil_of_le (by omega), suffixes_nil rfl] at hs
  cases hs

/-- The first label of a name, with the rest written behind it. -/
theorem Written.cons (h0 : calculateLabelLen name ≠ 0)
    (hput : (q.addCompressed name target).put target
      ((calculateLabelLen name).toUInt8 :: name.take (calculateLabelLen name)) = .ok q₂)
    (hw : Written q₂ (name.drop (calculateLabelLen name + 1)) (target + calculateLabelLen name + 1)
      ls q') :
    Written q name target (name.take (calculateLabelLen name) :: ls) q' := by
  have hlen : (name.take (calculateLabelLen name)).length = calculateLabelLen name := by
    rw [List.length_take]
    exact min_eq_left (labelLen_split name).2.1
  have hstore : store q.packet target
      ((calculateLabelLen name).toUInt8 :: name.take (calculateLabelLen name)) = some q₂.packet :=
    (Query.canCompress_put hput).2.2
  refine ⟨?_, ?_, hw.table.trans (comp_isSome_label hput), fun s => ?_⟩
  · rw [wire_cons, hlen, store_append, hstore, Option.bind_some, List.length_cons, hlen]
    exact hw.stored
  · rw [hw.pos, wire_cons, List.length_append, List.length_cons, hlen]
    omega
  rw [hw.found, comp_isSome_label hput, canCompress_label hput, suffixes_cons h0]
  by_cases hc : q.comp.isSome = true
  · simp only [hc, true_and]
    by_cases hin : s ∈ suffixes (name.drop (calculateLabelLen name + 1))
    · have hlt := length_suffix hin
      have hlong := drop_of_mem_suffixes hin
      rw [if_pos hin, if_pos (List.mem_cons_of_mem _ hin)]
      rw [List.length_drop] at hlt ⊢
      congr 1
      omega
    · rw [if_neg hin]
      by_cases hs : s = name
      · rw [if_pos hs, if_pos (List.mem_cons.2 (.inl hs)), hs, Nat.sub_self]
        rfl
      · rw [if_neg hs, if_neg fun h => (List.mem_cons.1 h).elim hs hin]
  · simp only [hc, false_and, if_false, Bool.false_eq_true]

end label

/-- The loop where no end of the name has been seen before. -/
theorem writeLabels_plain (remain : Nat) (head : Bool) (target : Nat) (h : Spells name ls)
    (hfit : ∀ l ∈ ls, l.length + 1 ≤ remain) (hroot : q.canCompress [dot] = none)
    (hmiss : head = true → ∀ s ∈ suffixes name, q.canCompress s = none) :
    (∃ q', writeLabels remain head name target q = .ok q' ∧ Written q name target ls q') ∨
      store q.packet target (wire ls) = none ∧
      writeLabels remain head name target q = .error .overrun := by
  induction ls generalizing name target q with
  | nil =>
    have h0 := h.labelLen_zero_iff.2 rfl
    rw [writeLabels_root ?_]
    · exact Query.terminate_written h0
    · rcases eq_or_ne name [] with hnil | hne
      · exact .inl hnil
      · obtain ⟨hname, -⟩ := h.of_labelLen_zero hne h0
        subst hname
        exact .inr ⟨rfl, fun _ => hroot⟩
  | cons l ls ih =>
    have h0 : calculateLabelLen name ≠ 0 := fun h0 => List.cons_ne_nil _ _ (h.labelLen_zero_iff.1 h0)
    obtain ⟨hlabel, ls', hcons, hrest⟩ := h.uncons h0
    obtain ⟨rfl, rfl⟩ := List.cons.inj hcons
    have hlen : (name.take (calculateLabelLen name)).length = calculateLabelLen name := by
      rw [List.length_take]
      exact min_eq_left (labelLen_split name).2.1
    have hfit0 := hfit _ List.mem_cons_self
    have hshort := hlabel.short
    rw [hlen] at hfit0 hshort
    rw [writeLabels_label h0 hshort hfit0 fun hh =>
      hmiss hh _ (by rw [suffixes_cons h0]; exact List.mem_cons_self),
        wire_cons, hlen, store_append]
    cases hput : (q.addCompressed name target).put target
      ((calculateLabelLen name).toUInt8 :: name.take (calculateLabelLen name)) with
    | error e =>
      obtain ⟨rfl, hnone⟩ := Query.put_error hput
      rw [show store q.packet target _ = none from hnone]
      exact .inr ⟨rfl, rfl⟩
    | ok q₂ =>
      have hroot₂ : q₂.canCompress [dot] = none := by
        rw [canCompress_label hput, if_neg fun h => h0 (by rw [← h.2]; exact if_pos rfl)]
        exact hroot
      have hmiss₂ : head = true → ∀ s ∈ suffixes (name.drop (calculateLabelLen name + 1)),
          q₂.canCompress s = none := by
        intro hh s hs
        rw [canCompress_label hput,
          if_neg fun h => self_notMem_suffixes h0 (by rw [h.2] at hs; exact hs)]
        exact hmiss hh s (by rw [suffixes_cons h0]; exact List.mem_cons_of_mem _ hs)
      have hstore : store q.packet target _ = some q₂.packet := (Query.canCompress_put hput).2.2
      rw [hstore, Option.bind_some, List.length_cons, hlen]
      rcases ih (target + calculateLabelLen name + 1) hrest
        (fun l hl => hfit l (List.mem_cons_of_mem _ hl)) hroot₂ hmiss₂ with
          ⟨q', hq', hw⟩ | ⟨hnone, hover⟩
      · exact .inl ⟨q', hq', hw.cons h0 hput⟩
      · exact .inr ⟨hnone, hover⟩

end Resend.Dns

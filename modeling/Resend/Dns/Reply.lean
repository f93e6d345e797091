import Resend.Dns.Questions

/-!
# Replies (parse.c, resolver.c)

`rdns_parse_reply` compares the questions of a reply with those in the packet of the request and
then takes the records that it knows out of the answers. Positions are kept beside `remain`, which
is what is left of the message and may be less than nothing. Where `rdns_parse_rr` gives -1 the
model has `Fault.invalid`. An offset in a question is counted from where its comparison begins, and
not from the header.
-/

namespace Resend.Dns

open Memory

def T_A : Nat := 1
def T_NS : Nat := 2
def T_SOA : Nat := 6
def T_PTR : Nat := 12
def T_MX : Nat := 15
def T_TXT : Nat := 16
def T_AAAA : Nat := 28
def T_SRV : Nat := 33
def T_TLSA : Nat := 52
def T_SPF : Nat := 99
def T_ALL : Nat := 255

def RC_NOERROR : Nat := 0
def RC_NOREC : Nat := 13

/-- One side of a round of `rdns_request_reply_cmp`: the length of the label at `p`, where its text
is, the next position, and 1 for a pointer. An offset counts from `base`. -/
def cmpLabel (mem : List UInt8) (base : Nat) (len : Int) (p : Nat) :
    Except Fault (Option (Nat × Nat × Nat × Nat)) :=
  match byteAt mem p with
  | .error e => .error e
  | .ok b₀ =>
    if b₀ &&& COMPRESSION_BITS ≠ 0 then
      match byteAt mem (p + 1) with
      | .error e => .error e
      | .ok b₁ =>
        match decompressLabel (mem.drop base) (uncompressOffset b₀ b₁) (len % 2 ^ 16).toNat with
        | .error e => .error e
        | .ok none => .ok none
        | .ok (some (l, n)) => .ok (some (n, base + l + 1, p + 2, 1))
    else .ok (some (b₀, p + 1, p + 1 + b₀, 0))

theorem cmpLabel_lt {mem : List UInt8} {base p n l p' d : Nat} {len : Int}
    (h : cmpLabel mem base len p = .ok (some (n, l, p', d))) : p < p' := by
  unfold cmpLabel at h
  split at h
  · cases h
  · split_ifs at h
    · split at h
      · cases h
      · split at h
        · cases h
        · cases h
        · cases h
          omega
    · cases h
      omega

/-- `memcmp (p, c, 4) == 0`, for the type and the class behind a name. -/
def cmpType (mem pkt : List UInt8) (p c : Nat) : Except Fault (Option (Nat × Nat)) :=
  match memcpy mem p 4, memcpy pkt c 4 with
  | .ok a, .ok b => if a = b then .ok (some (p + 4, c + 4)) else .ok none
  | _, _ => .error .overrun

/-- The rounds of `rdns_request_reply_cmp`: where the question ends in the reply and in the request,
if they are the same. -/
def requestReplyCmp (mem pkt : List UInt8) (base : Nat) (len : Int) (p c decompressed : Nat) :
    Except Fault (Option (Nat × Nat)) :=
  match byteAt mem p, byteAt pkt c with
  | .error e, _ => .error e
  | .ok _, .error e => .error e
  | .ok _, .ok _ =>
    if len < (p : Int) - base then .ok none
    else
      match _h : cmpLabel mem base len p with
      | .error e => .error e
      | .ok none => .ok none
      | .ok (some (len1, l1, p', d1)) =>
        match cmpLabel pkt c len c with
        | .error e => .error e
        | .ok none => .ok none
        | .ok (some (len2, l2, c', d2)) =>
          if len1 ≠ len2 then .ok none
          else if len1 = 0 then cmpType mem pkt p' c'
          else
            match memcpy mem l1 len1, memcpy pkt l2 len1 with
            | .ok t1, .ok t2 =>
              if t1 ≠ t2 then .ok none
              else if decompressed + d1 + d2 = 2 then cmpType mem pkt p' c'
              else requestReplyCmp mem pkt base len p' c' (decompressed + d1 + d2)
            | _, _ => .error .overrun
termination_by (len + 1 - ((p : Int) - base)).toNat
decreasing_by
  have := cmpLabel_lt _h
  omega

/-- `GET32` -/
def get32 (mem : List UInt8) (p : Nat) : Except Fault Nat := do
  let hi ← get16 mem p
  let lo ← get16 mem (p + 2)
  .ok (hi * 2 ^ 16 + lo)

/-- What an `int32_t` holds. -/
def int32 (n : Nat) : Int := if n < 2 ^ 31 then n else n - 2 ^ 32

/-- `union rdns_reply_element_un` -/
inductive Content
  | a (addr : List UInt8)
  | aaaa (addr : List UInt8)
  | ptr (name : List UInt8)
  | ns (name : List UInt8)
  | soa (mname admin : List UInt8) (serial : Nat) (refresh retry expire : Int) (minimum : Nat)
  | mx (priority : Nat) (name : List UInt8)
  | txt (data : List UInt8)
  | srv (priority weight port : Nat) (target : List UInt8)
  | tlsa (usage selector matchType : Nat) (data : List UInt8)
  deriving DecidableEq, Repr

structure ReplyEntry where
  type : Nat
  ttl : Int
  content : Content
  deriving DecidableEq, Repr

/-- The loop over the strings of a TXT record; `copied` is an `uint16_t` and `parts` an `uint8_t`. -/
def copyStrings (mem : List UInt8) (datalen p : Nat) (remain : Int) (copied parts : Nat)
    (data : List UInt8) :
    Except Fault (List UInt8 × Nat × Int) :=
  if copied + parts < datalen then
    match _h : byteAt mem p with
    | .error e => .error e
    | .ok txtlen =>
      if txtlen + copied + parts ≤ datalen then
        match memcpy mem (p + 1) txtlen with
        | .error e => .error e
        | .ok text =>
          copyStrings mem datalen (p + txtlen + 1) (remain - (txtlen + 1))
            ((copied + txtlen) % 2 ^ 16) ((parts + 1) % 2 ^ 8) (data ++ text)
      else .ok (data, p, remain)
  else .ok (data, p, remain)
termination_by mem.length - p
decreasing_by
  have hp : p < mem.length := by
    unfold byteAt at _h
    split at _h
    · rename_i b hb
      exact (List.getElem?_eq_some_iff.1 hb).1
    · cases _h
  omega

/-- A name of a record, which has to be there. -/
def getName (mem : List UInt8) (p : Nat) (remain : Int) : Except Fault (List UInt8 × Nat × Int) := do
  let (name, p, remain) ← parseLabels mem p remain true
  .ok (name.getD [], p, remain)

/-- The cases of `rdns_parse_rr` by the type of the record, whose data begins at `p`; the record
itself begins at `pos`. -/
def parseData (mem : List UInt8) (pos p : Nat) (remain : Int) (type datalen : Nat) :
    Except Fault (Option Content × Nat × Int) :=
  if type = T_A then
    if datalen % 4 = 0 ∧ (datalen : Int) ≤ remain then do
      let addr ← memcpy mem p 4
      .ok (some (.a addr), p + datalen, remain - datalen)
    else .error .invalid
  else if type = T_AAAA then
    if datalen = 16 ∧ (datalen : Int) ≤ remain then do
      let addr ← memcpy mem p 16
      .ok (some (.aaaa addr), p + datalen, remain - datalen)
    else .error .invalid
  else if type = T_PTR then do
    let (name, p, remain) ← getName mem p remain
    .ok (some (.ptr name), p, remain)
  else if type = T_NS then do
    let (name, p, remain) ← getName mem p remain
    .ok (some (.ns name), p, remain)
  else if type = T_SOA then do
    let (mname, p, remain) ← getName mem p remain
    let (admin, p, remain) ← getName mem p remain
    let serial ← get32 mem p
    let refresh ← get32 mem (p + 4)
    let retry ← get32 mem (p + 8)
    let expire ← get32 mem (p + 12)
    let minimum ← get32 mem (p + 16)
    .ok (some (.soa mname admin serial (int32 refresh) (int32 retry) (int32 expire) minimum),
      p + 20, remain - 20)
  else if type = T_MX then do
    let priority ← get16 mem p
    let (name, p, remain) ← getName mem (p + 2) (remain - 2)
    .ok (some (.mx priority name), p, remain)
  else if type = T_TXT ∨ type = T_SPF then do
    let (data, p, remain) ← copyStrings mem datalen p remain 0 0 []
    .ok (some (.txt data), p, remain)
  else if type = T_SRV then
    if remain - 6 < (p : Int) - pos then .error .invalid
    else do
      let priority ← get16 mem p
      let weight ← get16 mem (p + 2)
      let port ← get16 mem (p + 4)
      let (target, p, remain) ← getName mem (p + 6) (remain - 6)
      .ok (some (.srv priority weight port target), p, remain)
  else if type = T_TLSA then
    if remain - 3 < (p : Int) - pos ∨ datalen ≤ 3 then .error .invalid
    else do
      let usage ← byteAt mem p
      let selector ← byteAt mem (p + 1)
      let matchType ← byteAt mem (p + 2)
      let data ← memcpy mem (p + 3) (datalen - 3)
      .ok (some (.tlsa usage selector matchType data), p + datalen, remain - datalen)
  else .ok (none, p + datalen, remain - datalen)

/-- `rdns_parse_rr`: the entry if there is one, and `*pos` and `*remain` behind the record. -/
def parseRr (mem : List UInt8) (pos : Nat) (remain : Int) :
    Except Fault (Option ReplyEntry × Nat × Int) := do
  let (_, p, remain) ← parseLabels mem pos remain false
  if remain < 12 then .error .invalid
  else do
    let type ← get16 mem p
    let ttl ← get32 mem (p + 4)
    let datalen ← get16 mem (p + 8)
    let (content, p, remain) ← parseData mem pos (p + 10) (remain - 10) type datalen
    .ok (content.map fun content =>
      ⟨if type = T_SPF then T_TXT else type, int32 ttl, content⟩, p, remain)

/-- The loop of `rdns_parse_reply` over the answers, which stops at one that is not complete. -/
def parseRrs (mem : List UInt8) : Nat → Nat → Int → Except Fault (List ReplyEntry)
  | 0, _, _ => .ok []
  | n + 1, pos, remain =>
    match parseRr mem pos remain with
    | .error .invalid => .ok []
    | .error .overrun => .error .overrun
    | .ok (elt, pos, remain) => (parseRrs mem n pos remain).map (elt.toList ++ ·)

/-- The loop of `rdns_parse_reply` over the questions, with `req->pos`. -/
def cmpQuestions (mem pkt : List UInt8) : Nat → Nat → Int → Nat → Except Fault (Option Nat × Nat)
  | 0, pos, _, c => .ok (some pos, c)
  | n + 1, pos, t, c => do
    match ← requestReplyCmp mem pkt pos t pos c 0 with
    | none => .ok (none, c)
    | some (npos, c') => cmpQuestions mem pkt n npos (t - ((npos : Int) - pos)) c'

structure Reply where
  code : Nat
  entries : List ReplyEntry
  deriving DecidableEq, Repr

/-- `rdns_parse_reply` for a message of `r` bytes: the reply if it is accepted, and `req->pos`. -/
def parseReply (mem : List UInt8) (r : Nat) (req : Query) (names : List (List UInt8 × Nat)) :
    Except Fault (Option Reply × Nat) := do
  let flags ← byteAt mem 2
  let rcode ← byteAt mem 3
  let qdcount ← get16 mem 4
  let ancount ← get16 mem 6
  if flags / 2 ^ 7 = 0 ∨ qdcount ≠ names.length then .ok (none, req.pos)
  else do
    match ← cmpQuestions mem req.packet qdcount 12 (r - 12) 12 with
    | (none, c) => .ok (none, c)
    | (some pos, c) =>
      match names with
      | [] => .error .overrun
      | (_, type) :: _ => do
        let entries ← if rcode % 2 ^ 4 = RC_NOERROR then parseRrs mem ancount pos (r - pos) else .ok []
        let code := if type ≠ T_ALL ∧ ∀ elt ∈ entries, elt.type ≠ type then RC_NOREC else rcode % 2 ^ 4
        .ok (some ⟨code, entries⟩, c)

/-! ## Replies whose questions are written in full -/

variable {mem pkt l t t' : List UInt8} {ls ls' : List (List UInt8)} {p c base n m : Nat} {len : Int}

theorem memcpy_of_holds (h : Holds mem p l) (hne : l ≠ []) : memcpy mem p l.length = .ok l := by
  unfold memcpy
  rw [if_pos (h.le_length hne), h.slice]

theorem cmpLabel_of_short (hb : byteAt mem p = .ok n) (hn : n < 64) :
    cmpLabel mem base len p = .ok (some (n, p + 1, p + 1 + n, 0)) := by
  unfold cmpLabel
  rw [hb]
  exact if_neg (not_not.2 ((and_compression (by omega)).2 hn))

theorem cmpType_of_holds (h : Holds mem p t) (ht : t.length = 4) (h' : Holds pkt c t')
    (ht' : t'.length = 4) :
    cmpType mem pkt p c = .ok (if t = t' then some (p + 4, c + 4) else none) := by
  have hm : memcpy mem p 4 = .ok t := by
    rw [← ht]
    exact memcpy_of_holds h (List.ne_nil_of_length_pos (by omega))
  have hm' : memcpy pkt c 4 = .ok t' := by
    rw [← ht']
    exact memcpy_of_holds h' (List.ne_nil_of_length_pos (by omega))
  unfold cmpType
  rw [hm, hm']
  dsimp only
  split_ifs <;> rfl

theorem requestReplyCmp_round (hp : byteAt mem p = .ok n) (hn : n < 64) (hc : byteAt pkt c = .ok m)
    (hm : m < 64) (hlen : (p : Int) - base ≤ len) :
    requestReplyCmp mem pkt base len p c 0 =
      if n ≠ m then .ok none
      else if n = 0 then cmpType mem pkt (p + 1 + n) (c + 1 + m)
      else
        match memcpy mem (p + 1) n, memcpy pkt (c + 1) n with
        | .ok t, .ok t' =>
          if t ≠ t' then .ok none else requestReplyCmp mem pkt base len (p + 1 + n) (c + 1 + m) 0
        | _, _ => .error .overrun := by
  have hl : cmpLabel mem base len p = _ := cmpLabel_of_short hp hn
  have hl' : cmpLabel pkt c len c = _ := cmpLabel_of_short hc hm
  rw [requestReplyCmp, hp, hc]
  dsimp only
  rw [if_neg (not_lt.2 hlen)]
  split
  · rename_i h
    rw [hl] at h
    cases h
  · rename_i h
    rw [hl] at h
    cases h
  · rename_i h
    rw [hl] at h
    cases h
    rw [hl']
    rfl

theorem requestReplyCmp_of_wire (hls : ∀ l ∈ ls, l ≠ [] ∧ l.length ≤ MAXLABEL)
    (hls' : ∀ l ∈ ls', l ≠ [] ∧ l.length ≤ MAXLABEL) (ht : t.length = 4) (ht' : t'.length = 4)
    (h : Holds mem p (wire ls ++ t)) (h' : Holds pkt c (wire ls' ++ t'))
    (hlen : (p : Int) + (wire ls).length ≤ base + len) :
    requestReplyCmp mem pkt base len p c 0 =
      .ok (if ls = ls' ∧ t = t' then some (p + (wire ls ++ t).length, c + (wire ls' ++ t').length)
        else none) := by
  induction ls generalizing p c ls' with
  | nil =>
    obtain ⟨h₀, htail⟩ := Holds.append_iff.1 h
    have hp : byteAt mem p = .ok 0 := byteAt_of_getElem? (Holds.cons_iff.1 h₀).1 (by norm_num)
    have hlen : (p : Int) - base ≤ len := by omega
    cases ls' with
    | nil =>
      obtain ⟨h₀', htail'⟩ := Holds.append_iff.1 h'
      have hc : byteAt pkt c = .ok 0 := byteAt_of_getElem? (Holds.cons_iff.1 h₀').1 (by norm_num)
      have htail : Holds mem (p + 1 + 0) t := htail
      have htail' : Holds pkt (c + 1 + 0) t' := htail'
      rw [requestReplyCmp_round hp (by norm_num) hc (by norm_num) hlen,
        if_neg (not_not.2 rfl), if_pos rfl, cmpType_of_holds htail ht htail' ht',
        List.length_append, List.length_append, ht, ht']
      simp only [true_and]
      rfl
    | cons l' ls' =>
      obtain ⟨⟨hne, hshort⟩, -⟩ := List.forall_mem_cons.1 hls'
      have hpos := List.length_pos_iff.2 hne
      unfold MAXLABEL at hshort
      rw [wire_cons, List.append_assoc] at h'
      have hc : byteAt pkt c = .ok l'.length := byteAt_of_getElem? (Holds.cons_iff.1 h').1 (by omega)
      rw [requestReplyCmp_round hp (by norm_num) hc (by omega) hlen, if_pos (by omega), if_neg]
      rintro ⟨hnil, -⟩
      cases hnil
  | cons l ls ih =>
    obtain ⟨⟨hne, hshort⟩, hrest⟩ := List.forall_mem_cons.1 hls
    have hpos := List.length_pos_iff.2 hne
    unfold MAXLABEL at hshort
    rw [wire_cons, List.length_append, List.length_cons] at hlen
    rw [wire_cons, List.append_assoc] at h
    obtain ⟨hhead, htail⟩ := Holds.append_iff.1 h
    obtain ⟨hsize, htext⟩ := Holds.cons_iff.1 hhead
    have hp : byteAt mem p = .ok l.length := byteAt_of_getElem? hsize (by omega)
    have hlen' : (p : Int) - base ≤ len := by omega
    cases ls' with
    | nil =>
      obtain ⟨h₀', -⟩ := Holds.append_iff.1 h'
      have hc : byteAt pkt c = .ok 0 := byteAt_of_getElem? (Holds.cons_iff.1 h₀').1 (by norm_num)
      rw [requestReplyCmp_round hp (by omega) hc (by norm_num) hlen', if_pos (by omega), if_neg]
      rintro ⟨hnil, -⟩
      cases hnil
    | cons l' ls' =>
      obtain ⟨⟨hne', hshort'⟩, hrest'⟩ := List.forall_mem_cons.1 hls'
      unfold MAXLABEL at hshort'
      rw [wire_cons, List.append_assoc] at h'
      obtain ⟨hhead', htail'⟩ := Holds.append_iff.1 h'
      obtain ⟨hsize', htext'⟩ := Holds.cons_iff.1 hhead'
      have hc : byteAt pkt c = .ok l'.length := byteAt_of_getElem? hsize' (by omega)
      rw [requestReplyCmp_round hp (by omega) hc (by omega) hlen']
      by_cases hlength : l.length = l'.length
      · have hcopy' : memcpy pkt (c + 1) l.length = .ok l' := by
          rw [hlength]
          exact memcpy_of_holds htext' hne'
        rw [if_neg (not_not.2 hlength), if_neg (by omega), memcpy_of_holds htext hne, hcopy']
        dsimp only
        by_cases heq : l = l'
        · subst heq
          have hend (i : Nat) (ks : List (List UInt8)) (u : List UInt8) :
              i + (l.length + 1) + (wire ks ++ u).length = i + (wire (l :: ks) ++ u).length := by
            rw [wire_cons]
            simp only [List.length_append, List.length_cons]
            omega
          rw [List.length_cons] at htail htail'
          rw [if_neg (not_not.2 rfl), add_assoc p, add_assoc c, add_comm 1,
            ih hrest hrest' htail htail' (by push_cast at hlen ⊢; omega), hend, hend]
          simp only [List.cons.injEq, true_and]
        · rw [if_pos heq, if_neg]
          rintro ⟨hcons, -⟩
          exact heq (List.cons.inj hcons).1
      · rw [if_pos hlength, if_neg]
        rintro ⟨hcons, -⟩
        exact hlength (congrArg List.length (List.cons.inj hcons).1)

/-- A question with no pointer in its name: the labels, and the type and the class as they are sent. -/
structure FullQuestion where
  labels : List (List UInt8)
  typeClass : List UInt8
  short : ∀ l ∈ labels, l ≠ [] ∧ l.length ≤ MAXLABEL
  four : typeClass.length = 4
  deriving DecidableEq

def FullQuestion.bytes (x : FullQuestion) : List UInt8 := wire x.labels ++ x.typeClass

def questionBytes (xs : List FullQuestion) : List UInt8 := xs.flatMap FullQuestion.bytes

/-- The questions up to the first that differs. -/
def commonQuestions : List FullQuestion → List FullQuestion → List FullQuestion
  | x :: xs, y :: ys => if x = y then x :: commonQuestions xs ys else []
  | _, _ => []

variable {x y : FullQuestion} {xs ys : List FullQuestion} {pos : Nat}

theorem requestReplyCmp_of_full (h : Holds mem p x.bytes) (h' : Holds pkt c y.bytes)
    (hlen : (x.bytes.length : Int) ≤ len) :
    requestReplyCmp mem pkt p len p c 0 =
      .ok (if x = y then some (p + x.bytes.length, c + y.bytes.length) else none) := by
  have hle : ((wire x.labels).length : Int) ≤ len := by
    unfold FullQuestion.bytes at hlen
    rw [List.length_append] at hlen
    omega
  rw [requestReplyCmp_of_wire x.short y.short x.four y.four h h' (by omega)]
  refine congrArg _ (if_congr ?_ rfl rfl)
  cases x
  cases y
  exact (FullQuestion.mk.injEq ..).to_iff.symm

theorem cmpQuestions_of_full {len : Int} (hcount : xs.length = ys.length)
    (h : Holds mem pos (questionBytes xs)) (h' : Holds pkt c (questionBytes ys))
    (hlen : ((questionBytes xs).length : Int) ≤ len) :
    cmpQuestions mem pkt xs.length pos len c =
      .ok (if xs = ys then some (pos + (questionBytes xs).length) else none,
        c + (questionBytes (commonQuestions xs ys)).length) := by
  induction xs generalizing pos c ys len with
  | nil =>
    rw [List.length_eq_zero_iff.1 hcount.symm]
    rfl
  | cons x xs ih =>
    cases ys with
    | nil => cases hcount
    | cons y ys =>
      have happend (x : FullQuestion) (xs : List FullQuestion) : questionBytes (x :: xs) =
          x.bytes ++ questionBytes xs :=
        List.flatMap_cons
      rw [happend] at h h'
      rw [happend, List.length_append] at hlen
      obtain ⟨hx, hxs⟩ := Holds.append_iff.1 h
      obtain ⟨hy, hys⟩ := Holds.append_iff.1 h'
      have hone : requestReplyCmp mem pkt pos len pos c 0 = _ :=
        requestReplyCmp_of_full hx hy (by push_cast at hlen; omega)
      show (requestReplyCmp mem pkt pos len pos c 0 >>= _) = _
      rw [hone]
      by_cases heq : x = y
      · subst heq
        rw [if_pos rfl]
        show cmpQuestions mem pkt xs.length (pos + x.bytes.length) _ (c + x.bytes.length) = _
        rw [ih (Nat.succ.inj hcount) hxs hys (by push_cast at hlen ⊢; omega)]
        simp only [commonQuestions, if_true, happend, List.length_append,
          List.cons.injEq, true_and, add_assoc]
      · rw [if_neg heq, if_neg fun hcons => heq (List.cons.inj hcons).1, commonQuestions, if_neg heq]
        rfl

/-- A reply of `r` bytes with the header byte `flags`, which says that it has `count` questions;
these are `bytes`. -/
structure Replies (mem : List UInt8) (r flags count : Nat) (bytes : List UInt8) : Prop where
  header : 12 ≤ mem.length
  flags : byteAt mem 2 = .ok flags
  few : count < 2 ^ 16
  qdcount : Holds mem 4 (be16 count)
  questions : Holds mem 12 bytes
  inside : 12 + bytes.length ≤ r

variable {r flags count : Nat} {bytes : List UInt8} {req : Query} {names : List (List UInt8 × Nat)}
  {res : Option Nat}

theorem Replies.header_ok (h : Replies mem r flags count bytes) :
    ∃ rcode ancount, byteAt mem 3 = .ok rcode ∧
      get16 mem 4 = .ok count ∧ get16 mem 6 = .ok ancount := by
  have hlen := h.header
  have hbyte (i : Nat) (hi : i < 12) : ∃ n, byteAt mem i = .ok n := byteAt_ok (by omega)
  obtain ⟨rcode, hrcode⟩ := hbyte 3 (by norm_num)
  obtain ⟨hi, hhi⟩ := hbyte 6 (by norm_num)
  obtain ⟨lo, hlo⟩ := hbyte 7 (by norm_num)
  refine ⟨rcode, hi * 2 ^ 8 + lo, hrcode, ?_, ?_⟩
  · rw [get16_be16 h.qdcount, Nat.mod_eq_of_lt h.few]
  · unfold get16
    rw [hhi, hlo]
    rfl

/-- A reply is turned down because of its header, or because its questions are not the ones of the
request. -/
theorem parseReply_eq_none_iff (h : Replies mem r flags count bytes)
    (hcmp : count = names.length →
      cmpQuestions mem req.packet count 12 ((r : Int) - 12) 12 = .ok (res, c)) :
    parseReply mem r req names = .ok (none, pos) ↔
      if flags < 2 ^ 7 ∨ count ≠ names.length then pos = req.pos else res = none ∧ pos = c := by
  obtain ⟨rcode, ancount, hrcode, hcount, hancount⟩ := h.header_ok
  unfold parseReply
  rw [h.flags, hrcode, hcount, hancount]
  simp only [bind, Except.bind]
  by_cases hbad : flags < 2 ^ 7 ∨ count ≠ names.length
  · rw [if_pos hbad, if_pos (hbad.imp_left Nat.div_eq_of_lt)]
    exact ⟨fun heq => (Prod.mk.inj (Except.ok.inj heq)).2.symm, fun heq => by rw [heq]⟩
  · have hgood : ¬(flags / 2 ^ 7 = 0 ∨ count ≠ names.length) := by omega
    rw [if_neg hbad, if_neg hgood, hcmp (not_not.1 (not_or.1 hbad).2)]
    cases res with
    | none =>
      exact ⟨fun heq => ⟨rfl, (Prod.mk.inj (Except.ok.inj heq)).2.symm⟩, fun heq => by rw [heq.2]⟩
    | some p =>
      refine iff_of_false ?_ fun heq => absurd heq.1 (Option.some_ne_none p)
      cases names with
      | nil =>
        intro heq
        cases heq
      | cons n names =>
        dsimp only
        by_cases hcode : rcode % 2 ^ 4 = RC_NOERROR
        · rw [if_pos hcode]
          cases parseRrs mem ancount p ((r : Int) - p) with
          | error e =>
            intro heq
            cases heq
          | ok entries =>
            intro heq
            cases heq
        · rw [if_neg hcode]
          intro heq
          cases heq

theorem makeRequest_one (stack : Nat → List UInt8) (heap : Nat → UInt8) (id : Nat)
    {name out : List UInt8} {type : Nat} (hne : name ≠ [])
    (hout : formatDnsName (stack 0) name = some out) (hls : Spells out ls)
    (hsmall : name.length + 113 < 2 ^ 32) {q : Query}
    (hq : makeRequest stack heap id [(some name, type)] = .ok q) :
    Holds q.packet 12 (wire ls ++ (be16 type ++ be16 C_IN)) := by
  rw [makeRequest_one_eq stack heap id type hne hout] at hq
  have hlen₀ := length_allocatePacket heap name.length none
  obtain ⟨q₁, hq₁, hcomp₁, hpos₁, hlen₁, -⟩ :=
    makeDnsHeader_ok (q := allocatePacket heap name.length none) id 1 (by omega) rfl
  rw [hq₁] at hq
  have hq : (addRr q₁ out type >>= addEdns0) = .ok q := hq
  cases hadd : addRr q₁ out type with
  | error e =>
    rw [hadd] at hq
    cases hq
  | ok q₂ =>
    rw [hadd] at hq
    have hq : addEdns0 q₂ = .ok q := hq
    obtain ⟨q₃, hname, hstore, hpos, -⟩ := addRr_inv hadd
    have hrem := q₁.remain_eq (by omega) (by omega)
    rcases writeNameCompressed_first hcomp₁ (by unfold MAXLABEL; omega) hls with
        ⟨q₄, hq₄, hw⟩ | ⟨-, hover⟩
    · rw [hname] at hq₄
      cases hq₄
      have hpos₃ := hw.pos
      have hwire := (Holds.store_self hw.stored).of_agree (by omega) (agree_store hstore)
      have htype := Holds.store_self hstore
      rw [hpos₃] at htype
      have hboth := Holds.append_iff.2 ⟨hwire, htype⟩
      rw [hpos₁] at hboth
      unfold addEdns0 at hq
      cases hput : q₂.put q₂.pos edns0Bytes with
      | error e =>
        rw [hput] at hq
        cases hq
      | ok q₅ =>
        rw [hput] at hq
        obtain ⟨-, -, hstore₅⟩ := Query.canCompress_put hput
        cases hq
        refine hboth.of_agree ?_ (agree_store hstore₅)
        have hfour : (be16 type ++ be16 C_IN).length = 4 := rfl
        rw [List.length_append, hfour]
        omega
    · rw [hname] at hover
      cases hover

variable {name out : List UInt8} {q : Query} {type : Nat}

/-- The question that a request for `out` asks. -/
def asked (hls : Spells out ls) (type : Nat) : FullQuestion :=
  ⟨ls, be16 type ++ be16 C_IN, fun l hl => ⟨(hls.isLabel l hl).nonempty, (hls.isLabel l hl).short⟩, rfl⟩

/-- A reply to a request with one question is turned down exactly when it is none or asks something
else. Where its question is another one, no more than the header of the request is left to be sent
again. -/
theorem parseReply_rejected_iff (stack : Nat → List UInt8) (heap : Nat → UInt8) (id pos : Nat)
    (hne : name ≠ []) (hout : formatDnsName (stack 0) name = some out) (hls : Spells out ls)
    (hsmall : name.length + 113 < 2 ^ 32)
    (hq : makeRequest stack heap id [(some name, type)] = .ok q)
    (h : Replies mem r flags xs.length (questionBytes xs)) :
    parseReply mem r q [(out, type)] = .ok (none, pos) ↔
      (flags < 2 ^ 7 ∨ xs ≠ [asked hls type]) ∧ pos = if flags < 2 ^ 7 ∨ xs.length ≠ 1 then q.pos
        else 12 := by
  have hreq : Holds q.packet 12 (questionBytes [asked hls type]) := by
    show Holds q.packet 12 (wire ls ++ (be16 type ++ be16 C_IN) ++ [])
    rw [List.append_nil]
    exact makeRequest_one stack heap id hne hout hls hsmall hq
  have hlen : ((questionBytes xs).length : Int) ≤ (r : Int) - 12 := by
    have := h.inside
    omega
  have hiff : parseReply mem r q [(out, type)] = .ok (none, pos) ↔
      if flags < 2 ^ 7 ∨ xs.length ≠ 1 then pos = q.pos else _ :=
    parseReply_eq_none_iff h fun hcount => cmpQuestions_of_full hcount h.questions hreq hlen
  rw [hiff]
  by_cases hbad : flags < 2 ^ 7 ∨ xs.length ≠ 1
  · rw [if_pos hbad, if_pos hbad]
    exact ⟨fun hpos => ⟨hbad.imp_right fun hlength heq => hlength (congrArg List.length heq), hpos⟩,
      And.right⟩
  · obtain ⟨hflags, hlength⟩ := not_or.1 hbad
    obtain ⟨x, rfl⟩ := List.length_eq_one_iff.1 (not_not.1 hlength)
    rw [if_neg hbad, if_neg hbad]
    by_cases hsame : [x] = [asked hls type]
    · rw [if_pos hsame]
      exact iff_of_false (fun heq => absurd heq.1 (Option.some_ne_none _)) fun heq =>
        heq.1.resolve_left hflags hsame
    · rw [if_neg hsame, commonQuestions, if_neg fun heq => hsame (congrArg (fun y => [y]) heq)]
      exact ⟨fun hpos => ⟨.inr hsame, hpos.2⟩, fun hpos => ⟨rfl, hpos.2⟩⟩

/-- A request for `a`, and a reply about `b`. -/
theorem parseReply_rejected_iff_other :
    ∃ q, makeRequest (fun _ => []) (fun _ => 0) 7 [(some [0x61], 1)] = .ok q ∧
      parseReply [0, 7, 0x80, 0, 0, 1, 0, 0, 0, 0, 0, 0, 1, 0x62, 0, 0, 1, 0, 1] 19 q [([0x61], 1)] =
        .ok (none, 12) := by
  have ha : Spells [0x61] [[0x61]] := .last ⟨by decide, by decide, by decide⟩
  have hb : Spells [0x62] [[0x62]] := .last ⟨by decide, by decide, by decide⟩
  have hout : formatDnsName [] [0x61] = some [0x61] := by decide +kernel
  have hreply : Replies [0, 7, 0x80, 0, 0, 1, 0, 0, 0, 0, 0, 0, 1, 0x62, 0, 0, 1, 0,
    1] 19 0x80 [asked hb 1].length
      (questionBytes [asked hb 1]) := by
    have hcount : be16 [asked hb 1].length = [0, 1] := show be16 1 = [0, 1] by decide
    refine ⟨by decide, by decide, by norm_num, ?_, ?_, le_refl 19⟩
    · rw [hcount]
      exact Holds.cons_iff.2 ⟨rfl, Holds.cons_iff.2 ⟨rfl, .nil⟩⟩
    · have hall : Holds ([0, 7, 0x80, 0, 0, 1, 0, 0, 0, 0, 0, 0] ++ questionBytes [asked hb 1]) 0
          ([0, 7, 0x80, 0, 0, 1, 0, 0, 0, 0, 0, 0] ++ questionBytes [asked hb 1]) := fun k b h => by
            rwa [Nat.zero_add]
      exact (Holds.append_iff.1 hall).2
  have hdiff : [asked hb 1] ≠ [asked ha 1] := fun heq =>
    absurd (congrArg FullQuestion.labels (List.cons.inj heq).1) (show ¬[[0x62]] = [[0x61]] by decide)
  have hmakes : _ ∨ ¬Takes [(some [0x61], 1)] ∧ _ :=
    makeRequest_makes (fun _ => []) (fun _ => 0) 7 (by decide +kernel) (by decide) (by decide)
  rcases hmakes with ⟨-, q, hq, -⟩ | ⟨hbad, -⟩
  · exact ⟨q, hq, (parseReply_rejected_iff (fun _ => []) (fun _ => 0) 7 12
      (by decide) hout ha (by decide) hq hreply).2 ⟨.inr hdiff, (if_neg (by norm_num)).symm⟩⟩
  · refine absurd ⟨by decide, fun a hmem cur hcur => ?_⟩ hbad
    rw [List.mem_singleton.1 hmem] at hcur
    cases hcur
    exact ⟨_, ha⟩

/-! ## A name that is asked for twice -/

/-- Offsets are counted from `base`, which is not where the message begins. -/
theorem cmpLabel_pointer {offset : Nat} (h : Holds mem p (pointerBytes offset))
    (ho : offset < 2 ^ 14) (hb : byteAt mem (base + offset) = .ok n) :
    cmpLabel mem base len p =
      if (len % 2 ^ 16).toNat < offset then .ok none
        else .ok (some (n, base + offset + 1, p + 2, 1)) := by
  obtain ⟨hbyte, hmark, hback⟩ := pointer_bits (h := offset / 2 ^ 8) (by omega)
  obtain ⟨hp₀, hp₁⟩ := Holds.cons_iff.1 h
  have hoff : offset / 2 ^ 8 % 2 ^ 8 = offset / 2 ^ 8 := Nat.mod_eq_of_lt (by omega)
  rw [hoff] at hp₀
  have hb₀ := byteAt_of_getElem? hp₀ (by omega)
  have hb₁ := byteAt_of_toUInt8 (Holds.cons_iff.1 hp₁).1
  have huncompress : uncompressOffset (offset / 2 ^ 8 ||| COMPRESSION_BITS) (offset % 2 ^ 8) =
      offset := by
    unfold uncompressOffset
    rw [hback]
    omega
  have hdrop : byteAt (mem.drop base) offset = .ok n := by
    rw [← hb]
    unfold byteAt
    rw [List.getElem?_drop]
  unfold cmpLabel
  rw [hb₀]
  dsimp only
  rw [if_pos hmark, hb₁]
  dsimp only
  rw [huncompress, decompressLabel]
  split_ifs with hmax
  · rfl
  · rw [hdrop]

/-- Two questions that are the same pointer: what is compared stands `offset` bytes behind them. -/
theorem requestReplyCmp_pointers {offset : Nat} (ho : offset < 2 ^ 14)
    (h : Holds mem p (pointerBytes offset)) (h' : Holds pkt c (pointerBytes offset)) (h0 : 0 ≤ len)
    (hlen : len < 2 ^ 16) (hb : byteAt mem (p + offset) = .ok n)
    (hz : byteAt pkt (c + offset) = .ok 0) :
    requestReplyCmp mem pkt p len p c 0 =
      if len < offset then .ok none else if n ≠ 0 then .ok none
        else cmpType mem pkt (p + 2) (c + 2) := by
  obtain ⟨b₀, hb₀⟩ := byteAt_ok (List.getElem?_eq_some_iff.1 (Holds.cons_iff.1 h).1).1
  obtain ⟨b₀', hb₀'⟩ := byteAt_ok (List.getElem?_eq_some_iff.1 (Holds.cons_iff.1 h').1).1
  have hmod : (len % 2 ^ 16).toNat < offset ↔ len < offset := by
    rw [Int.emod_eq_of_lt h0 hlen]
    omega
  have hl : cmpLabel mem p len p = _ := cmpLabel_pointer h ho hb
  have hl' : cmpLabel pkt c len c = _ := cmpLabel_pointer h' ho hz
  rw [requestReplyCmp, hb₀, hb₀']
  dsimp only
  rw [if_neg (by omega)]
  by_cases hshort : len < offset
  · rw [if_pos (hmod.2 hshort)] at hl
    rw [if_pos hshort]
    split
    · rename_i heq
      rw [hl] at heq
      cases heq
    · rfl
    · rename_i heq
      rw [hl] at heq
      cases heq
  · rw [if_neg fun hlt => hshort (hmod.1 hlt)] at hl hl'
    rw [if_neg hshort]
    split
    · rename_i heq
      rw [hl] at heq
      cases heq
    · rename_i heq
      rw [hl] at heq
      cases heq
    · rename_i heq
      rw [hl] at heq
      cases heq
      rw [hl']
      dsimp only
      by_cases hn : n ≠ 0
      · rw [if_pos hn, if_pos hn]
      · rw [if_neg hn, if_neg hn, if_pos (not_not.1 hn)]

/-- Two questions about one name, as they are in the packet, and what is behind them. -/
def twiceBytes (ls : List (List UInt8)) (type type' : Nat) : List UInt8 :=
  wire ls ++ (be16 type ++ be16 C_IN) ++ (pointerBytes 12 ++ (be16 type' ++ be16 C_IN))

theorem makeRequest_twice (stack : Nat → List UInt8) (heap : Nat → UInt8) (id : Nat)
    {name : List UInt8} {type type' : Nat} (hascii : ∀ c ∈ name, c.toNat < 0x80)
    (hls : Spells name ls) (hroot : ls ≠ []) (hsmall : name.length + 113 < 2 ^ 32) {q : Query}
    (hq : makeRequest stack heap id [(some name, type), (none, type')] = .ok q) :
    Holds q.packet 12 (twiceBytes ls type type' ++ edns0Bytes) := by
  have hlength : textLength [(some name, type), (none, type')] = name.length := rfl
  have hmakes : _ ∨ ¬Takes [(some name, type), (none, type')] ∧ _ :=
    makeRequest_makes stack heap id (fun a ha cur hcur => by
      rcases List.mem_cons.1 ha with rfl | ha
      · cases hcur
        exact hascii
      · rw [List.mem_singleton.1 ha] at hcur
        cases hcur) (by norm_num) (by rw [hlength]; exact hsmall)
  rcases hmakes with ⟨-, q', hq', hm⟩ | ⟨-, herror⟩
  · rw [hq] at hq'
    cases hq'
    obtain ⟨q₀, q₁, q₂, hlen₀, hstore₁, hpos₁, hcomp₁, hasks, hpos, hle, hstore₃⟩ := hm.steps
    have hlen₁ := length_store hstore₁
    have hcomp₁ : q₁.comp = some [] := hcomp₁
    have hself : name ∈ suffixes name := by
      rw [suffixes_cons fun h0 => hroot (hls.labelLen_zero_iff.1 h0)]
      exact List.mem_cons_self
    have hempty : ∀ s, q₁.canCompress s = none := by
      intro s
      unfold Query.canCompress
      rw [hcomp₁]
      rfl
    have hrem₁ := q₁.remain_eq (by omega) (by omega)
    have hlabels : ∀ l ∈ ls, l.length + 1 ≤ q₁.remain := by
      intro l hl
      have := hls.label_short l hl
      unfold MAXLABEL at this
      omega
    cases hasks with
    | @cons _ qa _ _ _ _ _ hne _ _ hadd hasks =>
      cases hasks with
      | cons _ _ hrem _ hadd' hasks =>
        cases hasks
        obtain ⟨q₃, hw, hstore₂, hpos₂, hcomp₂⟩ := addRr_inv hadd
        have hadd' : addRr qa name type' = .ok q₂ := hadd'
        obtain ⟨q₅, hw', hstore₅, hpos₅, -⟩ := addRr_inv hadd'
        unfold writeNameCompressed at hw hw'
        rcases writeLabels_plain q₁.remain q₁.head q₁.pos hls hlabels (hempty _) fun _ s _ =>
          hempty s with
          ⟨q₄, hq₄, hwr⟩ | ⟨-, hover⟩
        · rw [hw] at hq₄
          cases hq₄
          have hhit : qa.canCompress name = some 12 := by
            rw [Query.canCompress_congr hcomp₂, hwr.found,
              if_pos ⟨by rw [hcomp₁]; rfl, hself⟩, Nat.sub_self, hpos₁]
          rw [writeLabels_hit hne hrem (Query.head_of_hit hhit) hhit] at hw'
          cases hput : qa.put qa.pos (pointerBytes 12) with
          | error e =>
            rw [hput] at hw'
            cases hw'
          | ok q₆ =>
            rw [hput] at hw'
            obtain ⟨-, hpos₆, hstore₆⟩ := Query.canCompress_put hput
            cases hw'
            dsimp only at hstore₅ hpos₅
            have hstored := hwr.stored
            have hpos₄ := hwr.pos
            rw [hpos₁] at hstored hpos₄
            have hbytes : twiceBytes ls type type' ++ edns0Bytes =
              wire ls ++ ((be16 type ++ be16 C_IN) ++ (pointerBytes 12 ++
                ((be16 type' ++ be16 C_IN) ++ edns0Bytes))) := by
              unfold twiceBytes
              simp only [List.append_assoc]
            have hnext (t n : Nat) : n + (be16 t ++ be16 C_IN).length = n + 4 := rfl
            have hbehind : qa.pos + (pointerBytes 12).length = q₆.pos + 2 := congrArg (· + 2) hpos₆.symm
            have hall : store q₁.packet 12 (twiceBytes ls type type' ++ edns0Bytes) =
                some q.packet := by
              rw [hbytes, store_append, hstored, Option.bind_some, ← hpos₄, store_append,
                hstore₂, Option.bind_some, hnext, ← hpos₂, store_append, hstore₆, Option.bind_some,
                hbehind, store_append, hstore₅, Option.bind_some, hnext,
                ← hpos₅, hstore₃]
            exact Holds.store_self hall
        · rw [hw] at hover
          cases hover
  · rw [hq] at herror
    cases herror

/-- The two questions against themselves: it depends on the byte that stands six bytes behind them. -/
theorem cmpQuestions_twice {type' : Nat} (hinside : 12 + (twiceBytes ls type type').length ≤ r)
    (hr : r < 2 ^ 16) (hbuf : (twiceBytes ls type type').length + 18 < mem.length)
    (hls : ∀ l ∈ ls, l ≠ [] ∧ l.length ≤ MAXLABEL)
    (hreply : Holds mem 12 (twiceBytes ls type type'))
    (hpacket : Holds pkt 12 (twiceBytes ls type type' ++ edns0Bytes)) :
    cmpQuestions mem pkt 2 12 ((r : Int) - 12) 12 = .ok (
      if r < (twiceBytes ls type type').length + 18 ∨
      mem[(twiceBytes ls type type').length + 18]? ≠ some 0 then
        (none, (wire ls).length + 16)
      else
        (some ((twiceBytes ls type type').length + 12), (twiceBytes ls type type').length + 12)) := by
  obtain ⟨x, hxbytes⟩ : ∃ x : FullQuestion, x.bytes = wire ls ++ (be16 type ++ be16 C_IN) :=
    ⟨⟨ls, be16 type ++ be16 C_IN, hls, rfl⟩, rfl⟩
  have htwice : twiceBytes ls type type' =
      x.bytes ++ (pointerBytes 12 ++ (be16 type' ++ be16 C_IN)) := by
    rw [hxbytes]
    rfl
  have hxlen : (wire ls).length + 16 = 12 + x.bytes.length := by
    rw [hxbytes, List.length_append]
    exact Nat.add_comm _ 12
  have hlen : (twiceBytes ls type type').length = x.bytes.length + 6 := by
    rw [htwice, List.length_append]
    rfl
  rw [htwice] at hpacket hreply
  rw [List.append_assoc, List.append_assoc] at hpacket
  obtain ⟨hone, hrest⟩ := Holds.append_iff.1 hreply
  obtain ⟨hptr, htype⟩ := Holds.append_iff.1 hrest
  obtain ⟨hone', hrest'⟩ := Holds.append_iff.1 hpacket
  obtain ⟨hptr', hrest'⟩ := Holds.append_iff.1 hrest'
  obtain ⟨htype', hedns⟩ := Holds.append_iff.1 hrest'
  have hzero : byteAt pkt (12 + x.bytes.length + 12) = .ok 0 :=
    byteAt_of_getElem? (hedns 6 0 rfl) (by norm_num)
  obtain ⟨b, hb⟩ : ∃ b, mem[(twiceBytes ls type type').length + 18]? = some b :=
    ⟨_, List.getElem?_eq_getElem hbuf⟩
  have hbyte : byteAt mem (12 + x.bytes.length + 12) = .ok b.toNat := by
    unfold byteAt
    rw [show 12 + x.bytes.length + 12 = (twiceBytes ls type type').length + 18 by omega, hb]
  have hfirst : requestReplyCmp mem pkt 12 ((r : Int) - 12) 12 12 0 = _ :=
    requestReplyCmp_of_full hone hone' (by omega)
  obtain ⟨rest, hleft⟩ : ∃ rest : Int, rest =
      (r : Int) - 12 - ((12 + x.bytes.length : Nat) - (12 : Nat)) := ⟨_, rfl⟩
  have hsecond : requestReplyCmp mem pkt (12 + x.bytes.length) rest (12 + x.bytes.length)
      (12 + x.bytes.length) 0 = _ :=
    requestReplyCmp_pointers (by norm_num) hptr hptr' (by omega) (by omega) hbyte hzero
  have htypes : cmpType mem pkt (12 + x.bytes.length + 2) (12 + x.bytes.length + 2) =
      .ok (some (12 + x.bytes.length + 2 + 4, 12 + x.bytes.length + 2 + 4)) :=
    (cmpType_of_holds htype rfl htype' rfl).trans (congrArg _ (if_pos rfl))
  rw [hxlen, hb]
  show (requestReplyCmp mem pkt 12 ((r : Int) - 12) 12 12 0 >>= _) = _
  rw [hfirst, if_pos rfl]
  show (requestReplyCmp mem pkt (12 + x.bytes.length)
    ((r : Int) - 12 - ((12 + x.bytes.length : Nat) - (12 : Nat))) (12 + x.bytes.length)
      (12 + x.bytes.length) 0 >>= _) = _
  rw [← hleft, hsecond]
  by_cases hshort : r < (twiceBytes ls type type').length + 18
  · rw [if_pos (show rest < (12 : Nat) by omega), if_pos (.inl hshort)]
    rfl
  · rw [if_neg (by omega)]
    by_cases hb0 : b = 0
    · rw [if_neg (not_not.2 (show b.toNat = 0 by rw [hb0]; rfl)), htypes,
        if_neg fun hbad => hbad.elim hshort fun hne => hne (congrArg some hb0)]
      show Except.ok (some (12 + x.bytes.length + 2 + 4), 12 + x.bytes.length + 2 + 4) = _
      rw [show 12 + x.bytes.length + 2 + 4 = (twiceBytes ls type type').length + 12 by omega]
    · rw [if_pos (show b.toNat ≠ 0 from fun heq => hb0 (UInt8.toNat_inj.1 heq)),
        if_pos (.inr fun heq => hb0 (Option.some.inj heq))]
      rfl

/-- A reply that repeats the questions of a request for two types of one name is turned down unless
there is a zero six bytes behind them: there the pointer of the second question leads to, which is
counted from the question itself. -/
theorem parseReply_twice_rejected_iff (stack : Nat → List UInt8) (heap : Nat → UInt8) (id pos : Nat)
    {type' : Nat} (hascii : ∀ c ∈ name, c.toNat < 0x80) (hls : Spells name ls) (hroot : ls ≠ [])
    (hsmall : name.length + 113 < 2 ^ 32)
    (hq : makeRequest stack heap id [(some name, type), (none, type')] = .ok q)
    (h : Replies mem r flags 2 (twiceBytes ls type type')) (hr : r < 2 ^ 16)
    (hbuf : (twiceBytes ls type type').length + 18 < mem.length) :
    parseReply mem r q [(name, type), (name, type')] = .ok (none, pos) ↔
      (flags < 2 ^ 7 ∨ r < (twiceBytes ls type type').length + 18 ∨
        mem[(twiceBytes ls type type').length + 18]? ≠ some 0) ∧
        pos = if flags < 2 ^ 7 then q.pos else (wire ls).length + 16 := by
  have hpacket := makeRequest_twice stack heap id hascii hls hroot hsmall hq
  have hcmp := cmpQuestions_twice h.inside hr hbuf
    (fun l hl => ⟨(hls.isLabel l hl).nonempty, (hls.isLabel l hl).short⟩) h.questions hpacket
  have hiff {res : Option Nat} {c : Nat}
    (hcmp : cmpQuestions mem q.packet 2 12 ((r : Int) - 12) 12 = .ok (res, c)) :
      parseReply mem r q [(name, type), (name, type')] = .ok (none, pos) ↔
        if flags < 2 ^ 7 then pos = q.pos else res = none ∧ pos = c :=
    (parseReply_eq_none_iff h fun _ => hcmp).trans
      (if_congr (or_iff_left (not_not.2 rfl)) rfl rfl).to_iff
  split_ifs at hcmp with hbad
  · rw [hiff hcmp]
    split_ifs with hflags
    · exact ⟨fun hpos => ⟨.inl hflags, hpos⟩, And.right⟩
    · exact ⟨fun hpos => ⟨.inr hbad, hpos.2⟩, fun hpos => ⟨rfl, hpos.2⟩⟩
  · rw [hiff hcmp]
    split_ifs with hflags
    · exact ⟨fun hpos => ⟨.inl hflags, hpos⟩, And.right⟩
    · exact iff_of_false (fun heq => heq.1) fun heq => heq.1.elim hflags hbad

/-- `a` is asked for with two types, and there are no answers. -/
theorem parseReply_twice_rejected_iff_negative :
    ∃ q, makeRequest (fun _ => []) (fun _ => 0) 7 [(some [0x61], 1), (none, 28)] = .ok q ∧
      parseReply
        ([0, 7, 0x80, 0, 0, 2, 0, 0, 0, 0, 0, 0] ++ twiceBytes [[0x61]] 1 28 ++
          List.replicate 32 0) 25 q
        [([0x61], 1), ([0x61], 28)] = .ok (none, 19) := by
  have ha : Spells [0x61] [[0x61]] := .last ⟨by decide, by decide, by decide⟩
  have hreply : Replies ([0, 7, 0x80, 0, 0, 2, 0, 0, 0, 0, 0, 0] ++ twiceBytes
    [[0x61]] 1 28 ++ List.replicate 32 0) 25 0x80 2
      (twiceBytes [[0x61]] 1 28) := by
    have hcount : be16 2 = [0, 2] := by decide
    refine ⟨by decide, by decide, by norm_num, ?_, ?_, le_refl 25⟩
    · rw [hcount]
      exact Holds.cons_iff.2 ⟨rfl, Holds.cons_iff.2 ⟨rfl, .nil⟩⟩
    · have hall : Holds ([0, 7, 0x80, 0, 0, 2, 0, 0, 0, 0, 0, 0] ++ twiceBytes
        [[0x61]] 1 28 ++ List.replicate 32 0) 0
          ([0, 7, 0x80, 0, 0, 2, 0, 0, 0, 0, 0, 0] ++ twiceBytes
            [[0x61]] 1 28 ++ List.replicate 32 0) :=
        fun k b h => by rwa [Nat.zero_add]
      exact (Holds.append_iff.1 (Holds.append_iff.1 hall).1).2
  have hmakes : _ ∨ ¬Takes [(some [0x61], 1), (none, 28)] ∧ _ :=
    makeRequest_makes (fun _ => []) (fun _ => 0) 7 (by decide +kernel) (by decide) (by decide)
  rcases hmakes with ⟨-, q, hq, -⟩ | ⟨hbad, -⟩
  · exact ⟨q, hq, (parseReply_twice_rejected_iff (fun _ => []) (fun _ => 0) 7 19
      (by decide +kernel) ha (by decide) (by decide) hq hreply (by norm_num) (by decide)).2
        ⟨.inr (.inl (by decide)), rfl⟩⟩
  · refine absurd ⟨by decide, fun a hmem cur hcur => ?_⟩ hbad
    rcases List.mem_cons.1 hmem with rfl | hmem
    · cases hcur
      exact ⟨_, ha⟩
    · rw [List.mem_singleton.1 hmem] at hcur
      cases hcur

end Resend.Dns

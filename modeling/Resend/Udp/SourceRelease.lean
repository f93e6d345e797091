import Resend.Udp.LinkSend

/-!
# What a finished send gives back

`writer_do_connection_sended_handle_and_clean_data` walks the copied chain twice. The second walk
returns a node to the pool before it reads the node's `next`: the free list overwrites the first
word only, but another thread may take the node out of the pool in between. A flat send frees its
block only behind a handler.
-/

namespace Resend.Udp

/-- What the function does. A source buffer is named by the node it hangs on, that of a flat send by
`none`. -/
inductive Release
  | sendHandle (owner : Option Nat) (handle : Nat) (data : List UInt8) (code : TransResultCode)
  | freeSource (owner : Option Nat) (data : List UInt8)
  | releaseAceBlock
  | freeMessageNode (a : Nat) (node : MessageNode)
deriving DecidableEq

namespace Release

def isCall : Release → Bool
  | sendHandle .. => true
  | _ => false

def isFree : Release → Bool
  | freeSource .. | releaseAceBlock => true
  | _ => false

def isReturn : Release → Bool
  | freeMessageNode .. => true
  | _ => false

def owner : Release → Option Nat
  | sendHandle o .. | freeSource o _ => o
  | _ => none

def returned : Release → Option Nat
  | freeMessageNode a _ => some a
  | _ => none

/-- The same action on a connection that has its nodes by value. -/
def effect : Release → Effect
  | sendHandle _ handle data code => .sendHandle handle data code
  | freeSource _ data => .freeSource data
  | releaseAceBlock => .releaseAceBlock
  | freeMessageNode _ node => .freeMessageNode node

end Release

/-- The fields the function reads, and the memory of the message nodes. -/
structure SentWriter where
  memory : Cells MessageNode
  poolHead : Option Nat
  transMessageNode : Option Nat
  sendedHandle : Option Nat
  transmitBuf : Option (List UInt8)
  delType : SendedDelType
  aceTransmitBlock : Bool
  transResultCode : TransResultCode

namespace SentWriter

/-- One turn of the first walk. -/
def nodeSended (code : TransResultCode) (a : Nat) (n : MessageNode) : List Release :=
  (n.sendHandle.toList.map fun h => .sendHandle (some a) h n.sourceData code) ++
    (if n.delType = .deleteAfterSend then [.freeSource (some a) n.sourceData] else [])

/-- `while (temp_node)`. -/
def sendedLoop (code : TransResultCode) (m : Cells MessageNode) :
    Nat → Option Nat → Option (List Release)
  | _, none => some []
  | 0, some _ => none
  | fuel + 1, some a => (m a).bind fun c =>
    (sendedLoop code m fuel c.next).map fun es => nodeSended code a c.data ++ es

/-- `release_object`: the first word of a message node is its `send_handle`. -/
def releaseObject (head : Option Nat) (c : Cell MessageNode) : Cell MessageNode :=
  { c with data.sendHandle := head }

/-- `while (this->_trans_message_node)`. For every turn `taken` says whether another thread takes
the node that has just been returned, and what `next` it writes there. -/
def freeLoop :
    List (Option (Option Nat)) → Cells MessageNode → Option Nat → Option Nat → Option (List Release)
  | _, _, _, none => some []
  | [], _, _, some _ => none
  | t :: ts, m, head, some a => (m a).bind fun c =>
    let c' := releaseObject head c
    let c'' := { c' with next := t.getD c'.next }
    (freeLoop ts (Function.update m a (some c'')) (some a) c''.next).map fun es =>
      .freeMessageNode a c.data :: es

/-- The flat branch. -/
def blockSended (w : SentWriter) : List Release :=
  match w.sendedHandle with
  | none => []
  | some h =>
    .sendHandle none h (w.transmitBuf.getD []) w.transResultCode ::
      (if w.delType = .deleteAfterSend then
        [if w.aceTransmitBlock then .releaseAceBlock else .freeSource none (w.transmitBuf.getD [])]
          else [])

/-- `writer_do_connection_sended_handle_and_clean_data`. -/
def doSendedHandleAndCleanData (w : SentWriter) (taken : List (Option (Option Nat))) :
    Option (List Release) :=
  match w.transMessageNode with
  | some a => (sendedLoop w.transResultCode w.memory taken.length (some a)).bind fun es =>
    (freeLoop taken w.memory w.poolHead (some a)).map fun es' => es ++ es'
  | none => some w.blockSended

/-! ### What is owed -/

/-- A source buffer with its handler and its delete type. -/
structure Source where
  owner : Option Nat
  data : List UInt8
  delType : SendedDelType
  sendHandle : Option Nat
  aceBlock : Bool

namespace Source

def calls (code : TransResultCode) (s : Source) : List Release :=
  s.sendHandle.toList.map fun h => .sendHandle s.owner h s.data code

def free (s : Source) : Release := if s.aceBlock then .releaseAceBlock else .freeSource s.owner s.data

def marked (s : Source) : Bool := s.delType = .deleteAfterSend

def frees (s : Source) : List Release := if s.marked then [s.free] else []

def ofNode (c : Nat × MessageNode) : Source :=
  ⟨some c.1, c.2.sourceData, c.2.delType, c.2.sendHandle, false⟩

end Source

/-- The writer of a chain that was copied to `cs`, or with no nodes that of one block. -/
structure Of (w : SentWriter) (cs : List (Nat × MessageNode)) : Prop where
  start : w.transMessageNode = Cells.head cs none
  linked : Cells.Linked w.memory cs none
  link : cs ≠ [] → w.sendedHandle = none

def sources (w : SentWriter) : List (Nat × MessageNode) → List Source
  | [] => [⟨none, w.transmitBuf.getD [], w.delType, w.sendedHandle, w.aceTransmitBlock⟩]
  | cs => cs.map Source.ofNode

/-- Nothing happens twice; of calls, frees and returns exactly those happen that are owed, and a
buffer is freed behind its handler. -/
structure Released (code : TransResultCode) (sources : List Source) (copied : List (Nat × MessageNode))
    (trace : List Release) : Prop where
  once : trace.Nodup
  called : (trace.filter Release.isCall).Perm (sources.flatMap (Source.calls code))
  freed : (trace.filter Release.isFree).Perm (sources.flatMap Source.frees)
  returned : (trace.filter Release.isReturn).Perm (copied.map fun c => .freeMessageNode c.1 c.2)
  after : ∀ s ∈ sources, (s.calls code ++ s.frees).Sublist trace

/-- The nodes that this thread has not returned yet are known to no other thread. -/
def Hidden : List (Option (Option Nat)) → List (Nat × MessageNode) → Prop
  | some (some q) :: ts, _ :: cs => q ∉ cs.map Prod.fst ∧ Hidden ts cs
  | _ :: ts, _ :: cs => Hidden ts cs
  | _, _ => True

/-- Whoever takes a node that has just been returned leaves in it the `next` that is still to be
read. -/
def Undisturbed : List (Option (Option Nat)) → List (Nat × MessageNode) → Prop
  | t :: ts, _ :: cs => t.getD (Cells.head cs none) = Cells.head cs none ∧ Undisturbed ts cs
  | _, _ => True

/-! ### The two walks -/

section walks
variable {m : Cells MessageNode} {cs : List (Nat × MessageNode)} {code : TransResultCode}
  {ts : List (Option (Option Nat))} {head : Option Nat} {es : List Release}

theorem nodeSended_eq (a : Nat) (n : MessageNode) :
    nodeSended code a n = (Source.ofNode (a, n)).calls code ++ (Source.ofNode (a, n)).frees := by
  unfold nodeSended Source.frees Source.marked
  by_cases hn : n.delType = .deleteAfterSend <;> simp [Source.calls, Source.ofNode, Source.free, hn]

theorem mem_nodeSended {a : Nat} {n : MessageNode} {e : Release} (he : e ∈ nodeSended code a n) :
    e.isReturn = false ∧ e.owner = some a := by
  rcases List.mem_append.1 he with he | he
  · obtain ⟨h, -, rfl⟩ := List.mem_map.1 he
    exact ⟨rfl, rfl⟩
  · split at he
    · rw [List.mem_singleton.1 he]
      exact ⟨rfl, rfl⟩
    · cases he

theorem sendedLoop_eq (h : Cells.Linked m cs none) {fuel : Nat} (hfuel : cs.length ≤ fuel) :
    sendedLoop code m fuel (Cells.head cs none) =
      some (cs.flatMap fun c => nodeSended code c.1 c.2) := by
  induction cs generalizing fuel with
  | nil => cases fuel <;> rfl
  | cons c cs ih =>
    obtain ⟨fuel, rfl⟩ : ∃ n, fuel = n + 1 :=
      ⟨fuel - 1, by simp only [List.length_cons] at hfuel; omega⟩
    show ((m c.1).bind fun c' => (sendedLoop code m fuel c'.next).map _) = _
    rw [h.1, Option.bind_some, ih h.2 (Nat.le_of_succ_le_succ hfuel),
      Option.map_some, List.flatMap_cons]

theorem linked_turn {c : Nat × MessageNode} (h : Cells.Linked m (c :: cs) none)
    (v : Option (Cell MessageNode)) :
    Cells.Linked (Function.update m c.1 v) cs none :=
  h.2.update (List.nodup_cons.1 h.nodup).1 v

theorem freeLoop_cons {c : Nat × MessageNode} (t : Option (Option Nat))
    (ts : List (Option (Option Nat))) (head : Option Nat) (h : Cells.Linked m (c :: cs) none) :
    ∃ v, freeLoop (t :: ts) m head (Cells.head (c :: cs) none) =
      (freeLoop ts (Function.update m c.1 v) (some c.1) (t.getD (Cells.head cs none))).map
        fun es => .freeMessageNode c.1 c.2 :: es := by
  refine ⟨some ⟨{ c.2 with sendHandle := head }, t.getD (Cells.head cs none)⟩, ?_⟩
  show ((m c.1).bind _) = _
  rw [h.1]
  rfl

theorem freeLoop_eq (h : Cells.Linked m cs none) (hlen : cs.length ≤ ts.length)
    (hsame : Undisturbed ts cs) :
    freeLoop ts m head (Cells.head cs none) = some (cs.map fun c => .freeMessageNode c.1 c.2) := by
  induction cs generalizing ts m head with
  | nil => cases ts <;> rfl
  | cons c cs ih =>
    cases ts with
    | nil => cases hlen
    | cons t ts =>
      obtain ⟨v, hv⟩ := freeLoop_cons t ts head h
      rw [hv, hsame.1, ih (linked_turn h v) (Nat.le_of_succ_le_succ hlen) hsame.2]
      rfl

theorem isReturn_of_freeLoop {p : Option Nat} (h : freeLoop ts m head p = some es) :
    ∀ e ∈ es, e.isReturn = true := by
  induction ts generalizing m head p es with
  | nil =>
    cases p with
    | none => cases h; exact fun e he => nomatch he
    | some a => cases h
  | cons t ts ih =>
    cases p with
    | none => cases h; exact fun e he => nomatch he
    | some a =>
      obtain ⟨c, -, h⟩ := Option.bind_eq_some_iff.1 h
      obtain ⟨es', h', rfl⟩ := Option.map_eq_some_iff.1 h
      exact List.forall_mem_cons.2 ⟨rfl, ih h'⟩

theorem freeLoop_head {a : Nat} (h : freeLoop ts m head (some a) = some es) :
    ∃ n, Release.freeMessageNode a n ∈ es := by
  cases ts with
  | nil => cases h
  | cons t ts =>
    obtain ⟨c, -, h⟩ := Option.bind_eq_some_iff.1 h
    obtain ⟨es', -, rfl⟩ := Option.map_eq_some_iff.1 h
    exact ⟨c.data, List.mem_cons_self⟩

/-- A walk that returns just the copied nodes was not disturbed. -/
theorem undisturbed_of_perm (h : Cells.Linked m cs none) (hhid : Hidden ts cs)
    (hes : freeLoop ts m head (Cells.head cs none) = some es)
    (hperm : es.Perm (cs.map fun c => .freeMessageNode c.1 c.2)) : Undisturbed ts cs := by
  induction cs generalizing ts m head es with
  | nil => cases ts <;> trivial
  | cons c cs ih =>
    cases ts with
    | nil => cases hes
    | cons t ts =>
      obtain ⟨v, hv⟩ := freeLoop_cons t ts head h
      rw [hv] at hes
      obtain ⟨es', hes', rfl⟩ := Option.map_eq_some_iff.1 hes
      have hperm' := (List.perm_cons _).1 hperm
      have hrest : Hidden ts cs := by
        cases t with
        | none => exact hhid
        | some p =>
          cases p with
          | none => exact hhid
          | some q => exact hhid.2
      have hsame : t.getD (Cells.head cs none) = Cells.head cs none := by
        cases t with
        | none => rfl
        | some p =>
          cases p with
          | none =>
            -- the walk ends here, so nothing was left to return
            have hnil : es' = [] := by cases ts <;> (cases hes'; rfl)
            rw [hnil] at hperm'
            rw [List.map_eq_nil_iff.1 hperm'.nil_eq.symm]
            rfl
          | some q =>
            obtain ⟨n, hn⟩ := freeLoop_head hes'
            obtain ⟨d, hd, hdq⟩ := List.mem_map.1 (hperm'.subset hn)
            cases hdq
            exact absurd (List.mem_map_of_mem hd) hhid.1
      rw [hsame] at hes'
      exact ⟨hsame, ih (linked_turn h v) hrest hes' hperm'⟩

end walks

/-! ### A run against what is owed -/

section owed
variable {code : TransResultCode} {ss : List Source} {cs : List (Nat × MessageNode)}

namespace Source

/-- What the function owes to one source buffer. -/
def dues (code : TransResultCode) (s : Source) : List Release := s.calls code ++ s.frees

theorem kind_of_mem_calls {s : Source} :
    ∀ e ∈ s.calls code, e.isCall = true ∧ e.isFree = false ∧ e.isReturn = false := by
  intro e he
  obtain ⟨h, -, rfl⟩ := List.mem_map.1 he
  exact ⟨rfl, rfl, rfl⟩

theorem kind_of_mem_frees {s : Source} :
    ∀ e ∈ s.frees, e.isCall = false ∧ e.isFree = true ∧ e.isReturn = false := by
  intro e he
  unfold frees at he
  split at he
  · rw [List.mem_singleton.1 he]
    unfold free
    split <;> exact ⟨rfl, rfl, rfl⟩
  · cases he

theorem filter_isCall_dues (s : Source) : (s.dues code).filter Release.isCall = s.calls code := by
  rw [dues, List.filter_append, List.filter_eq_self.2 fun e he => (kind_of_mem_calls e he).1,
    List.filter_eq_nil_iff.2 fun e he =>
      Bool.eq_false_iff.1 (kind_of_mem_frees e he).1, List.append_nil]

theorem filter_isFree_dues (s : Source) : (s.dues code).filter Release.isFree = s.frees := by
  rw [dues, List.filter_append, List.filter_eq_self.2 fun e he => (kind_of_mem_frees e he).2.1,
    List.filter_eq_nil_iff.2 fun e he =>
      Bool.eq_false_iff.1 (kind_of_mem_calls e he).2.1, List.nil_append]

theorem isReturn_of_mem_dues {s : Source} {e : Release} (he : e ∈ s.dues code) : e.isReturn = false :=
  (List.mem_append.1 he).elim (fun he => (kind_of_mem_calls e he).2.2) fun he =>
    (kind_of_mem_frees e he).2.2

theorem nodup_dues (s : Source) : (s.dues code).Nodup := by
  unfold dues calls frees free
  cases s.sendHandle <;> cases s.marked <;> cases s.aceBlock <;> simp

end Source

theorem released_dues (hss : (ss.flatMap (Source.dues code)).Nodup) (hcs : (cs.map Prod.fst).Nodup) :
    Released code ss cs (ss.flatMap (Source.dues code) ++ cs.map fun c =>
      .freeMessageNode c.1 c.2) := by
  have hkeep : ∀ e ∈ ss.flatMap (Source.dues code), e.isReturn = false := fun e he => by
    obtain ⟨s, -, hs⟩ := List.mem_flatMap.1 he
    exact Source.isReturn_of_mem_dues hs
  have hret : ∀ e ∈ cs.map fun c => Release.freeMessageNode c.1 c.2,
      e.isCall = false ∧ e.isFree = false ∧ e.isReturn = true := fun e he => by
    obtain ⟨c, -, rfl⟩ := List.mem_map.1 he
    exact ⟨rfl, rfl, rfl⟩
  refine ⟨List.nodup_append.2 ⟨hss, ?_, ?_⟩, ?_, ?_, ?_, fun s hs => ?_⟩
  · refine List.Nodup.of_map Release.returned ?_
    rw [List.map_map]
    have hsome := hcs.map (Option.some_injective Nat)
    rwa [List.map_map] at hsome
  · rintro e he e' he' rfl
    exact absurd ((hret e he').2.2.symm.trans (hkeep e he)) (by decide)
  · rw [List.filter_append, List.filter_flatMap, funext Source.filter_isCall_dues,
      List.filter_eq_nil_iff.2 fun e he => Bool.eq_false_iff.1 (hret e he).1, List.append_nil]
  · rw [List.filter_append, List.filter_flatMap, funext Source.filter_isFree_dues,
      List.filter_eq_nil_iff.2 fun e he => Bool.eq_false_iff.1 (hret e he).2.1, List.append_nil]
  · rw [List.filter_append, List.filter_eq_nil_iff.2 fun e he => Bool.eq_false_iff.1 (hkeep e he),
      List.nil_append, List.filter_eq_self.2 fun e he => (hret e he).2.2]
  · refine List.Sublist.trans ?_ (List.sublist_append_left _ _)
    exact List.sublist_flatten_of_mem (List.mem_map_of_mem hs)

theorem nodup_flatMap_dues (hcs : (cs.map Prod.fst).Nodup) :
    ((cs.map Source.ofNode).flatMap (Source.dues code)).Nodup := by
  refine List.nodup_flatMap.2 ⟨fun s _ => s.nodup_dues, List.pairwise_map.2 ?_⟩
  refine (List.pairwise_map.1 hcs).imp fun {c d} hcd e hc hd => hcd ?_
  have howner : ∀ c : Nat × MessageNode, e ∈ (Source.ofNode c).dues code →
      e.owner = some c.1 := fun c hc => by
    rw [Source.dues, ← nodeSended_eq] at hc
    exact (mem_nodeSended hc).2
  exact Option.some.inj ((howner c hc).symm.trans (howner d hd))

end owed

/-! ### When everything is given back once -/

section result
variable {w : SentWriter} {cs : List (Nat × MessageNode)} {taken : List (Option (Option Nat))}

theorem dues_chain (code : TransResultCode) (cs : List (Nat × MessageNode)) :
    (cs.map Source.ofNode).flatMap (Source.dues code) =
      cs.flatMap fun c => nodeSended code c.1 c.2 := by
  rw [List.flatMap_map]
  exact congrArg (List.flatMap · cs) (funext fun c => (nodeSended_eq c.1 c.2).symm)

theorem done_chain (h : w.Of cs) (hne : cs ≠ []) (hlen : cs.length ≤ taken.length) :
    w.doSendedHandleAndCleanData taken =
      (freeLoop taken w.memory w.poolHead (Cells.head cs none)).map fun es =>
      (w.sources cs).flatMap (Source.dues w.transResultCode) ++ es := by
  obtain ⟨c, cs, rfl⟩ := List.exists_cons_of_ne_nil hne
  have hsended := @sendedLoop_eq _ _ w.transResultCode h.linked _ hlen
  have hstart := h.start
  rw [Cells.head] at hsended hstart
  have hdues : (w.sources (c :: cs)).flatMap (Source.dues w.transResultCode) = _ :=
    dues_chain w.transResultCode (c :: cs)
  unfold doSendedHandleAndCleanData
  rw [hstart, hdues]
  simp only [hsended, Option.bind_some, Cells.head]

theorem done_flat (h : w.Of []) : w.doSendedHandleAndCleanData taken = some w.blockSended := by
  unfold doSendedHandleAndCleanData
  rw [h.start]
  rfl

theorem blockSended_eq (hh : w.delType = .deleteAfterSend → w.sendedHandle ≠ none) :
    w.blockSended = (w.sources []).flatMap (Source.dues w.transResultCode) := by
  show _ = [_].flatMap _
  rw [List.flatMap_singleton]
  unfold blockSended Source.dues Source.calls Source.frees Source.marked Source.free
  cases hw : w.sendedHandle with
  | some handle => by_cases hd : w.delType = .deleteAfterSend <;> simp [hd]
  | none =>
    have hd : w.delType ≠ .deleteAfterSend := fun hd => hh hd hw
    simp [hd]

/-- A block that is marked for deletion and has no handler stays behind. -/
theorem not_released_flat (hd : w.delType = .deleteAfterSend) (hh : w.sendedHandle = none) :
    ¬ Released w.transResultCode (w.sources []) [] w.blockSended := by
  intro hr
  have hnil : w.blockSended = [] := by
    unfold blockSended
    rw [hh]
  have hfreed := hr.freed
  rw [hnil, List.filter_nil] at hfreed
  have hfrees : (w.sources []).flatMap Source.frees ≠ [] := by
    simp [sources, Source.frees, Source.marked, hd]
  exact hfrees hfreed.nil_eq.symm

/-- Everything is given back once, unless a flat send marked for deletion has no handler, or another
thread takes a returned node and changes its `next` before it is read. -/
theorem released_iff (h : w.Of cs) (hlen : cs.length ≤ taken.length) (hhid : Hidden taken cs) :
    (∃ trace, w.doSendedHandleAndCleanData taken = some trace ∧
      Released w.transResultCode (w.sources cs) cs trace) ↔
    (cs = [] → w.delType = .deleteAfterSend → w.sendedHandle ≠ none) ∧ Undisturbed taken cs := by
  cases cs with
  | nil =>
    rw [done_flat h, and_iff_left (by cases taken <;> trivial)]
    constructor
    · rintro ⟨trace, htrace, hr⟩ - hd hh
      cases htrace
      exact not_released_flat hd hh hr
    · intro hh
      have hss : ((w.sources []).flatMap (Source.dues w.transResultCode)).Nodup := by
        show ([_].flatMap _).Nodup
        rw [List.flatMap_singleton]
        exact Source.nodup_dues _
      refine ⟨_, rfl, ?_⟩
      have hr := @released_dues _ _ [] hss List.nodup_nil
      rwa [List.map_nil, List.append_nil, ← blockSended_eq (hh rfl)] at hr
  | cons c cs =>
    have hnodup := h.linked.nodup
    rw [done_chain h (List.cons_ne_nil c cs) hlen, and_iff_right fun hnil => nomatch hnil]
    constructor
    · rintro ⟨trace, htrace, hr⟩
      obtain ⟨es, hes, rfl⟩ := Option.map_eq_some_iff.1 htrace
      have hret := hr.returned
      have hkeep : ∀ e ∈ (w.sources (c :: cs)).flatMap (Source.dues w.transResultCode), e.isReturn =
          false := fun e he => by
        obtain ⟨s, -, hs⟩ := List.mem_flatMap.1 he
        exact Source.isReturn_of_mem_dues hs
      rw [List.filter_append, List.filter_eq_nil_iff.2 fun e he => Bool.eq_false_iff.1 (hkeep e he),
        List.nil_append, List.filter_eq_self.2 (isReturn_of_freeLoop hes)] at hret
      exact undisturbed_of_perm h.linked hhid hes hret
    · intro hsame
      refine ⟨_, congrArg (Option.map _) (freeLoop_eq h.linked hlen hsame), ?_⟩
      exact released_dues (nodup_flatMap_dues hnodup) hnodup

/-- A chain of two nodes; the first is to be deleted behind its handler, nobody takes the nodes. -/
theorem released_iff_pair :
    ∃ trace, (SentWriter.mk (fun a => if a = 1 then some ⟨⟨[7], .deleteAfterSend, some 4⟩, some 2⟩
      else if a = 2 then some ⟨⟨[8, 9], .noDeleteAfterSend, none⟩, none⟩
        else none) none (some 1) none none .deleteAfterSend
      false .successfully).doSendedHandleAndCleanData [none, none] = some trace ∧ trace.Nodup := by
  obtain ⟨m, hm⟩ : ∃ m : Cells MessageNode, m = fun a =>
    if a = 1 then some ⟨⟨[7], .deleteAfterSend, some 4⟩, some 2⟩
    else if a = 2 then some ⟨⟨[8, 9], .noDeleteAfterSend, none⟩, none⟩ else none := ⟨_, rfl⟩
  have h : (SentWriter.mk m none (some 1) none none .deleteAfterSend false .successfully).Of
      [(1, ⟨[7], .deleteAfterSend, some 4⟩), (2, ⟨[8, 9], .noDeleteAfterSend, none⟩)] := by
    subst hm
    exact ⟨rfl, ⟨rfl, rfl, trivial⟩, fun _ => rfl⟩
  obtain ⟨trace, htrace, hr⟩ := (@released_iff _ _ [none, none] h le_rfl trivial).2
    ⟨fun hnil => absurd hnil (by simp), rfl, rfl, trivial⟩
  subst hm
  exact ⟨trace, htrace, hr.once⟩

/-- `CSend` with its default arguments: the block stays behind. -/
theorem exists_kept_source :
    ¬ ∀ (w : SentWriter) (cs : List (Nat × MessageNode)) (taken : List (Option (Option Nat))),
      w.Of cs → cs.length ≤ taken.length → Hidden taken cs →
      ∃ trace, w.doSendedHandleAndCleanData taken = some trace ∧
      Released w.transResultCode (w.sources cs) cs trace := by
  intro h
  obtain ⟨w, hw⟩ : ∃ w : SentWriter, w =
    ⟨fun _ => none, none, none, none, some [1], .deleteAfterSend, false, .successfully⟩ := ⟨_, rfl⟩
  have hof : w.Of [] := by
    subst hw
    exact ⟨rfl, trivial, fun hnil => absurd rfl hnil⟩
  obtain ⟨trace, htrace, hr⟩ := h w [] [] hof le_rfl trivial
  rw [done_flat hof] at htrace
  cases htrace
  exact not_released_flat (by rw [hw]) (by rw [hw]) hr

/-! ### Towards the connection by value -/

theorem effect_nodeSended (code : TransResultCode) (a : Nat) (n : MessageNode) :
    (nodeSended code a n).map Release.effect = ConM.nodeDone code n := by
  unfold nodeSended ConM.nodeDone
  cases n.sendHandle <;> by_cases hd : n.delType = .deleteAfterSend <;> simp [hd, Release.effect]

/-- A run that nobody disturbs is `writer_do_connection_sended_handle_and_clean_data` of the
connection. -/
theorem effects_done (h : w.Of cs) (hlen : cs.length ≤ taken.length) (hsame : Undisturbed taken cs)
    {c : Connection} (hnodes : c.transMessageNode = cs.map Prod.snd)
    (hbuf : c.transmitBuf = w.transmitBuf) (hhandle : c.sendedHandle = w.sendedHandle)
    (hdel : c.delType = w.delType) (hace : c.aceTransmitBlock = w.aceTransmitBlock)
    (hcode : c.transResultCode = w.transResultCode) :
    (w.doSendedHandleAndCleanData taken).map (List.map Release.effect) = some (ConM.writerDone c) := by
  unfold ConM.writerDone
  cases cs with
  | nil =>
    rw [done_flat h, if_neg (by rw [hnodes]; simp), hhandle, hbuf, hdel, hace, hcode]
    unfold blockSended
    cases w.sendedHandle with
    | none => rfl
    | some handle => by_cases hd : w.delType = .deleteAfterSend <;> cases w.aceTransmitBlock <;>
      simp [hd, Release.effect]
  | cons d cs =>
    rw [done_chain h (List.cons_ne_nil d cs) hlen, freeLoop_eq h.linked hlen hsame,
      if_pos (by rw [hnodes]; simp), hnodes, hcode]
    show some (List.map _ (((d :: cs).map Source.ofNode).flatMap
      (Source.dues w.transResultCode) ++ _)) = _
    rw [dues_chain, List.map_append, List.map_flatMap, List.flatMap_map, List.map_map, List.map_map]
    simp only [effect_nodeSended]
    rfl

end result

/-- The chain that `start_link_send` made is given back node by node; its nodes are none of the
caller's. -/
theorem done_startLinkSend {m : Cells MessageNode} {p : Option Nat} {ns : List MessageNode}
    {pool : List Nat} (hm : Cells.Holds m p ns) (hne : ns ≠ []) (hlen : ns.length ≤ pool.length)
    (hnodup : pool.Nodup) (hfree : ∀ t ∈ pool, m t = none) :
    ∃ s cs, startLinkSend pool m p = some s ∧ cs.map Prod.snd = ns ∧ (∀ c ∈ cs, m c.1 = none) ∧
      ∀ (w : SentWriter) (taken : List (Option (Option Nat))), w.memory = s.memory →
      w.transMessageNode = s.newMsgNode →
        w.sendedHandle = none → ns.length ≤ taken.length → Undisturbed taken cs →
        ∃ trace, w.doSendedHandleAndCleanData taken = some trace ∧
          Released w.transResultCode (cs.map Source.ofNode) cs trace := by
  obtain ⟨s, cs, hs, hcs, hnew, hlinked, hfresh, -, -⟩ := startLinkSend_cells hm hne hlen hnodup hfree
  refine ⟨s, cs, hs, hcs, hfresh, fun w taken hmem hstart hhandle htaken hsame => ?_⟩
  have h : w.Of cs := ⟨hstart.trans hnew, hmem ▸ hlinked, fun _ => hhandle⟩
  have hne' : cs ≠ [] := by
    rintro rfl
    exact hne hcs.symm
  have hlen' : cs.length ≤ taken.length := by rwa [← hcs, List.length_map] at htaken
  refine ⟨_, (done_chain h hne' hlen').trans
    (congrArg (Option.map _) (freeLoop_eq h.linked hlen' hsame)), ?_⟩
  have hsources : w.sources cs = cs.map Source.ofNode := by
    cases cs <;> first | rfl | exact absurd rfl hne'
  rw [hsources]
  exact released_dues (nodup_flatMap_dues h.linked.nodup) h.linked.nodup

end SentWriter

end Resend.Udp

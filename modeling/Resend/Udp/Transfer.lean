import Resend.Udp.WriterCursors
import Resend.Udp.ReaderSteps

/-!
# One send and its readers

A writer, the readers that its REQUIRE datagrams create and the network in between: every datagram
ever sent may be delivered at any time, any number of times or never. Timers expire, senders run and
connections are stopped or reset at any time; a timer is that of the connection that armed it.
`Readers` collects what a transfer needs to know about its readers, and `Inv` is the invariant that
both kinds of transfer share.
-/

namespace Resend.Udp
open Handler Connection ConM

namespace Transfer

/-! ### The machine -/

structure State where
  writer : Life
  readers : List Life
  waitAck : WaitAckQueue

inductive Act
  | writer (act : Life.Act)
  | reader (i : Nat) (act : Life.Act)
  | require (d : Datagram) (newId : Option Nat) (attr : Option RecvVerificationAttribute)
      (buffer : Option (List UInt8))

/-- The datagrams among the effects of a connection so far. -/
def sentBy (l : Life) : List Datagram :=
  l.history.flatten.filterMap fun
    | .kernelSend d _ => some d
    | _ => none

def State.toReaders (s : State) : List Datagram := sentBy s.writer

def State.toWriter (s : State) : List Datagram := s.readers.flatMap sentBy

/-- A connection gets only datagrams that were sent, and `filter_data` takes them to it. -/
def Deliverable (net : List Datagram) : Life.Act → Prop
  | .networkData _ _ d recvDataLength =>
    d ∈ net ∧ d.msgType.target = .networkData ∧ recvDataLength = d.data.length
  | _ => True

instance (net : List Datagram) : (act : Life.Act) → Decidable (Deliverable net act)
  | .networkData .. => inferInstanceAs (Decidable (_ ∧ _ ∧ _))
  | .reset _ | .stop | .timeOut _ | .sender _ => inferInstanceAs (Decidable True)

/-- What a step has done outside of the connection. -/
def newEffects (l l' : Life) : List Effect :=
  (l'.history.take (l'.history.length - l.history.length)).flatten

def eraseWaitAck (q : WaitAckQueue) : Effect → WaitAckQueue
  | .eraseWaitAck label id => q.erase (label, id)
  | _ => q

/-- The reader that holds a slot of the connection table. -/
def State.inSlot (s : State) (offset : Nat) : Option Nat :=
  s.readers.findIdx? fun r => r.slot ≠ .null ∧ r.con.offset = offset

/-- Every receive buffer has room for the whole block. -/
def Fits (length : Nat) (attr : Option RecvVerificationAttribute) (buffer : Option (List UInt8)) :
    Prop :=
  (∀ b ∈ buffer, b.length = length) ∧ ∀ v ∈ attr, ∀ b ∈ v.recvBuf, b.length = length

instance (length : Nat) (attr : Option RecvVerificationAttribute) (buffer : Option (List UInt8)) :
    Decidable (Fits length attr buffer) := inferInstanceAs (Decidable (_ ∧ _))

/-- A refused reader without an id of its own releases slot 0. -/
def State.releaseZero (s : State) : State :=
  { s with readers := s.readers.map fun r => if r.con.offset = 0 then { r with slot := .null } else r }

/-- `start_recver` for a datagram from `addr`. `newId` is what `create_connectionID` finds, unless a
reader holds that slot; other connections of the process may have it as well. A refused transfer
leaves its entry in the queue. The rejections that go out then are resets, which the writer gets at
any time. -/
def State.startRecver (s : State) (addr : Nat) (complex : Bool) (d : Datagram) (newId : Option Nat)
    (attr : Option RecvVerificationAttribute) (buffer : Option (List UInt8)) : Option State :=
  if d.dtNote = 0 then some s
  else
    match newId.filter fun id => (s.inSlot (id % maxConnectionCount)).isNone with
    | none => some s.releaseZero
    | some id =>
      if Fits d.dtNote attr buffer then
        let s := { s with waitAck := s.waitAck.insert (d.toId, d.fromId) (id % maxConnectionCount) }
        match equipReader attr buffer (waitingReader (newReader complex d) id addr) with
        | none => some s
        | some c => some { s with readers := s.readers ++ [Life.startRecver complex d d.data.length c] }
      else none

/-- `connection_do_require_duplicate` once the queue has the entry. -/
def State.answerDuplicate (s : State) (addr : Nat) (complex : Bool) (d : Datagram) (offset : Nat) :
    State :=
  match s.inSlot offset with
  | none => s
  | some i =>
    match s.readers[i]? with
    | none => s
    | some r =>
      if r.slot = .live then
        { s with readers := s.readers.set i (r.ran (ConM.connectionDoRequireDuplicate complex d addr)) }
      else s

/-- The readers' sender queue is empty; apart from that they run as any connection does. -/
def readerStep (net : List Datagram) (r : Life) : Life.Act → Option Life
  | .sender _ => none
  | act => if Deliverable net act then r.step act else none

def step (addr : Nat) (s : State) : Act → Option State
  | .writer act =>
    if Deliverable s.toWriter act then (s.writer.step act).map fun l => { s with writer := l } else none
  | .reader i act =>
    (s.readers[i]?).bind fun r => (readerStep s.toReaders r act).map fun r' =>
      { s with
        readers := s.readers.set i r', waitAck := (newEffects r r').foldl eraseWaitAck s.waitAck }
  | .require d newId attr buffer =>
    if d ∈ s.toReaders then
      match d.msgType.target with
      | .startRecver complex => s.startRecver addr complex d newId attr buffer
      | .requireDuplicate complex =>
        match s.waitAck.lookup (d.toId, d.fromId) with
        | none => s.startRecver addr complex d newId attr buffer
        | some offset => some (s.answerDuplicate addr complex d offset)
      | _ => none
    else none

/-- The send `a` from address `addr`, with id `id0` and label `id1`. -/
def machine (a : SendArgs) (id0 id1 addr : Nat) : Machine State Act where
  init s := s = ⟨Life.startSender a id0 id1, [], []⟩
  step := step addr

/-! ### The invariant -/

/-- What a transfer needs to know of its readers: `Ok` holds of all of them, and an ack that covers the
block comes from one that is `Done`. -/
structure Readers (a : SendArgs) (addr : Nat) (Ok Done : Life → Prop) : Prop where
  start : ∀ {complex d newId attr buffer c}, d.PacketOf a →
    (d.msgType.target = .startRecver complex ∨ d.msgType.target = .requireDuplicate complex) →
    Fits d.dtNote attr buffer →
    equipReader attr buffer (waitingReader (newReader complex d) newId addr) = some c →
    Ok (Life.startRecver complex d d.data.length c)
  step : ∀ {r r' act}, Ok r → (∀ clock, act ≠ .sender clock) →
    (∀ inc now d len, act = .networkData inc now d len →
      d.PacketOf a ∧ d.msgType.target = .networkData ∧ len = d.data.length) →
    r.step act = some r' → Ok r' ∧ (Done r → Done r')
  duplicate : ∀ {r complex d}, Ok r → Ok (r.ran (connectionDoRequireDuplicate complex d addr)) ∧
    (Done r → Done (r.ran (connectionDoRequireDuplicate complex d addr)))
  thins : ∀ {r r'}, Ok r → Life.Thins r r' → Ok r' ∧ (Done r → Done r')
  acks : ∀ {r d}, Ok r → d ∈ sentBy r → d.msgType.target = .networkData →
    Boundary d.dtNote ∧ (a.blockLength ≤ d.dtNote → Done r)

structure Inv (a : SendArgs) (Ok Done : Life → Prop) (s : State) : Prop where
  emits : s.writer.Emits a
  kind : s.writer.con.kind.isWriter = true
  type : s.writer.con.has connectionTypeBit = true
  length : s.writer.con.transmitBufLength = a.blockLength
  live : s.writer.slot = .live → s.writer.Sending ∧ Cursors a s.writer.con
  success : s.writer.con.transResultCode = .successfully → ∃ r ∈ s.readers, Done r
  readers : ∀ r ∈ s.readers, Ok r

section inv
variable {a : SendArgs} {addr : Nat} {Ok Done : Life → Prop} {s : State} {l : Life} {x : ConM Unit}

theorem mem_sentBy {d : Datagram} :
    d ∈ sentBy l ↔ ∃ es ∈ l.history, ∃ addr, Effect.kernelSend d addr ∈ es := by
  simp only [sentBy, List.mem_filterMap, List.mem_flatten]
  constructor
  · rintro ⟨e, ⟨es, hes, he⟩, hd⟩
    cases e <;> simp at hd
    subst hd
    exact ⟨es, hes, _, he⟩
  · rintro ⟨es, hes, addr, he⟩
    exact ⟨_, ⟨es, hes, he⟩, rfl⟩

theorem Inv.toReaders (h : Inv a Ok Done s) {d : Datagram} (hd : d ∈ s.toReaders) : d.PacketOf a := by
  obtain ⟨es, hes, addr, he⟩ := mem_sentBy.1 hd
  exact h.emits es hes d addr he

theorem Inv.toWriter (hR : Readers a addr Ok Done) (h : Inv a Ok Done s) {d : Datagram}
    (hd : d ∈ s.toWriter) (ht : d.msgType.target = .networkData) :
    Boundary d.dtNote ∧ (a.blockLength ≤ d.dtNote → ∃ r ∈ s.readers, Done r) := by
  obtain ⟨r, hr, hd⟩ := List.mem_flatMap.1 hd
  obtain ⟨h1, h2⟩ := hR.acks (h.readers r hr) hd ht
  exact ⟨h1, fun hle => ⟨r, hr, h2 hle⟩⟩

theorem Inv.writerMoves (h : Inv a Ok Done s) (hl : l.history = s.writer.history)
    (hcon : l.con = s.writer.con) {seq : Nat}
    (hx : wp x (fun _ c' es => Moves seq l.con c' es) l.con)
    (hlive : (l.ran x).slot = .live → (l.ran x).Sending ∧ Cursors a (l.ran x).con)
    (hfin : seq > sub32 a.blockLength 1 → ∃ r ∈ s.readers, Done r) :
    Inv a Ok Done { s with writer := l.ran x } := by
  have hem : l.Emits a := fun es hes => h.emits es (hl ▸ hes)
  have hx' : Moves seq s.writer.con (l.ran x).con (exec x l.con).2 := by
    rw [Life.con_ran, ← hcon]; exact hx
  refine ⟨hem.ran hx'.packetsOf, ?_, hx'.type.trans h.type,
    hx'.source.length.trans h.length, hlive, fun hc => ?_, h.readers⟩
  · rw [hx'.source.kind]; exact h.kind
  · rcases hx'.code hc with hc | hc
    · exact h.success hc
    · rw [h.length] at hc; exact hfin hc

theorem Inv.readerSet (h : Inv a Ok Done s) {i : Nat} {r r' : Life} (hi : s.readers[i]? = some r)
    (hr' : Ok r') (hd : Done r → Done r') {waitAck : WaitAckQueue} :
    Inv a Ok Done { s with readers := s.readers.set i r', waitAck := waitAck } := by
  refine ⟨h.emits, h.kind, h.type, h.length, h.live, fun hc => ?_, fun r₀ hr₀ => ?_⟩
  · obtain ⟨r₀, hr₀, hdone⟩ := h.success hc
    obtain ⟨j, hj⟩ := List.getElem?_of_mem hr₀
    by_cases hij : i = j
    · subst hij
      rw [hi, Option.some.injEq] at hj
      subst hj
      have hlt : i < s.readers.length := (List.getElem?_eq_some_iff.1 hi).1
      exact ⟨r', List.mem_of_getElem? (i := i) (by simp [hlt]), hd hdone⟩
    · exact ⟨r₀, List.mem_of_getElem? (i := j) (by rw [List.getElem?_set_ne hij]; exact hj), hdone⟩
  · rcases List.mem_or_eq_of_mem_set hr₀ with hr₀ | rfl
    exacts [h.readers r₀ hr₀, hr']

theorem Inv.readerAdd (h : Inv a Ok Done s) {r : Life} (hr : Ok r) {waitAck : WaitAckQueue} :
    Inv a Ok Done { s with readers := s.readers ++ [r], waitAck := waitAck } := by
  refine ⟨h.emits, h.kind, h.type, h.length, h.live, fun hc => ?_, fun r₀ hr₀ => ?_⟩
  · obtain ⟨r₀, hr₀, hdone⟩ := h.success hc
    exact ⟨r₀, List.mem_append_left _ hr₀, hdone⟩
  · rcases List.mem_append.1 hr₀ with hr₀ | hr₀
    · exact h.readers r₀ hr₀
    · rw [List.mem_singleton.1 hr₀]; exact hr

theorem Inv.releaseZero (hR : Readers a addr Ok Done) (h : Inv a Ok Done s) :
    Inv a Ok Done s.releaseZero := by
  have hmap : ∀ r : Life, Life.Thins r (if r.con.offset = 0 then { r with slot := .null } else r) := by
    intro r
    split <;> exact ⟨rfl, rfl, fun _ => id⟩
  refine ⟨h.emits, h.kind, h.type, h.length, h.live, fun hc => ?_, fun r hr => ?_⟩
  · obtain ⟨r, hr, hdone⟩ := h.success hc
    exact ⟨_, List.mem_map_of_mem hr, (hR.thins (h.readers r hr) (hmap r)).2 hdone⟩
  · obtain ⟨r₀, hr₀, rfl⟩ := List.mem_map.1 hr
    exact (hR.thins (h.readers r₀ hr₀) (hmap r₀)).1

theorem Inv.writerIdle (h : Inv a Ok Done s) (hl : l.history = s.writer.history)
    (hcon : l.con = s.writer.con) (hlive : l.slot = .live → l.Sending ∧ Cursors a l.con) :
    Inv a Ok Done { s with writer := l } :=
  ⟨fun es hes => h.emits es (hl ▸ hes), hcon ▸ h.kind, hcon ▸ h.type, hcon ▸ h.length, hlive,
    fun hc => h.success (hcon ▸ hc), h.readers⟩

variable (ha : a.WF) (hpos : 0 < a.blockLength) (hmax : a.blockLength ≤ 2 ^ 32 - packetMaxDataLength)
  (hR : Readers a addr Ok Done)
include ha hpos hmax hR

theorem Inv.writer (h : Inv a Ok Done s) {act : Life.Act} (hd : Deliverable s.toWriter act) {l' : Life}
    (hs : s.writer.step act = some l') : Inv a Ok Done { s with writer := l' } := by
  have hsend : l'.slot = .live → l'.Sending := fun hl => (h.live (Life.live_of_step hs hl)).1.step hs hl
  have hcur : l'.slot = .live → Cursors a s.writer.con := fun hl => (h.live (Life.live_of_step hs hl)).2
  -- what an ack, a timeout, a stop or a reset leave
  have hmoves : ∀ {seq : Nat} {l : Life} {x : ConM Unit}, l' = l.ran x →
    l.con = s.writer.con → Boundary seq →
      wp x (fun _ c' es => Moves seq l.con c' es) l.con → l'.slot = .live →
      l'.Sending ∧ Cursors a l'.con := by
    intro seq l x hl' hcon hseq hx hl
    refine ⟨hsend hl, ?_⟩
    rw [hl', Life.con_ran]
    exact (hcon ▸ hcur hl).moves hseq hx
  have hzero : 0 > sub32 a.blockLength 1 → ∃ r ∈ s.readers, Done r :=
    fun h => absurd h (Nat.not_lt_zero _)
  cases act with
  | networkData inc now d len =>
    obtain ⟨hmem, htype, -⟩ := hd
    obtain ⟨hseq, hfin⟩ := h.toWriter hR hmem htype
    simp only [Life.step] at hs
    split at hs <;> cases hs
    have hx := Moves.connectionDoNetworkData h.kind inc now d len
    refine h.writerMoves rfl rfl hx (hmoves rfl rfl hseq hx) fun hgt => hfin ?_
    rw [sub32_of_le ha.length hpos] at hgt
    omega
  | reset msgType =>
    simp only [Life.step] at hs
    split at hs <;> cases hs
    have hx := (moves 0).connectionDoConnectionReset msgType s.writer.con
    exact h.writerMoves rfl rfl hx (hmoves rfl rfl boundary_zero hx) hzero
  | stop =>
    simp only [Life.step] at hs
    split at hs <;> cases hs
    have hx := (moves 0).connectionDoConnectionStop s.writer.con
    exact h.writerMoves rfl rfl hx (hmoves rfl rfl boundary_zero hx) hzero
  | timeOut j =>
    simp only [Life.step] at hs
    split at hs
    · cases hs
    rename_i t rc ht
    split at hs <;> cases hs
    · exact h.writerIdle rfl rfl fun hl => ⟨hsend hl, hcur hl⟩
    by_cases htimer : t = .connectionSuspendTimer
    · subst htimer
      rcases suspendTimeOut_cases h.kind h.type rc with hx | hx
      · exact h.writerMoves (l := { s.writer with timers := s.writer.timers.eraseIdx j }) rfl rfl hx
          (hmoves rfl rfl boundary_zero hx) hzero
      · have hslot := hx.slot s.writer.slot
        refine ⟨Life.Emits.ran (l := { s.writer with timers := s.writer.timers.eraseIdx j }) h.emits
          fun d addr hd => absurd hd (hx.silent d addr), ?_, ?_, ?_, fun hl => ?_,
          fun hc => h.success ?_, h.readers⟩
        · rw [Life.con_ran]; exact hx.kind ▸ h.kind
        · rw [Life.con_ran]; exact hx.type.trans h.type
        · rw [Life.con_ran]; exact hx.length.trans h.length
        · rw [Life.slot_ran] at hl
          exact absurd (hl.symm.trans hslot) (by decide)
        · rw [Life.con_ran] at hc; exact hx.code.symm.trans hc
    · have hx : wp (doTimeOut t rc) (fun _ c' es => Moves 0 s.writer.con c' es) s.writer.con :=
        Moves.doTimeOut h.kind htimer rc
      exact h.writerMoves (l := { s.writer with timers := s.writer.timers.eraseIdx j }) rfl rfl hx
        (hmoves rfl rfl boundary_zero hx) hzero
  | sender clock =>
    simp only [Life.step] at hs
    split at hs
    · cases hs
    split at hs <;> cases hs
    · rename_i hl
      obtain ⟨hsending, hc⟩ := h.live hl
      have hx := connectionDoSender_packets ha hpos hmax hc hsending.stop clock
      have hq := connectionDoSender_quiet hsending.stop clock
      refine ⟨Life.Emits.ran (l := { s.writer with queued := s.writer.queued - 1 }) h.emits hx.1,
        ?_, ?_, ?_, fun hl => ⟨hsend hl, ?_⟩, fun hc => h.success ?_, h.readers⟩
      · rw [Life.con_ran]; exact hq.source.kind ▸ h.kind
      · rw [Life.con_ran]; exact (hq.bits _ (by decide)).trans h.type
      · rw [Life.con_ran]; exact hq.source.length.trans h.length
      · rw [Life.con_ran]; exact hx.2
      · rw [Life.con_ran] at hc; exact hq.code.symm.trans hc
    · exact h.writerIdle rfl rfl fun hl => ⟨hsend hl, hcur hl⟩

omit ha hpos hmax in
theorem Inv.startRecver (h : Inv a Ok Done s) {complex : Bool} {d : Datagram} {newId : Option Nat}
    {attr : Option RecvVerificationAttribute} {buffer : Option (List UInt8)} (hd : d.PacketOf a)
    (ht : d.msgType.target = .startRecver complex ∨ d.msgType.target = .requireDuplicate complex)
    {s' : State} (hs : s.startRecver addr complex d newId attr buffer = some s') :
    Inv a Ok Done s' := by
  simp only [State.startRecver] at hs
  split at hs
  · cases hs; exact h
  split at hs
  · cases hs; exact h.releaseZero hR
  split at hs
  · rename_i hfit
    split at hs <;> cases hs
    · exact ⟨h.emits, h.kind, h.type, h.length, h.live, h.success, h.readers⟩
    · exact h.readerAdd (hR.start hd ht hfit ‹_›)
  · cases hs

omit ha hpos hmax in
theorem Inv.answerDuplicate (h : Inv a Ok Done s) (complex : Bool) (d : Datagram) (offset : Nat) :
    Inv a Ok Done (s.answerDuplicate addr complex d offset) := by
  unfold State.answerDuplicate
  split
  · exact h
  split
  · exact h
  split
  · rename_i r hr _
    have hok : Ok (r.ran (connectionDoRequireDuplicate complex d addr)) ∧
        (Done r → Done (r.ran (connectionDoRequireDuplicate complex d addr))) :=
      hR.duplicate (h.readers r (List.mem_of_getElem? hr))
    exact h.readerSet hr hok.1 hok.2
  · exact h

theorem Inv.step (h : Inv a Ok Done s) {act : Act} {s' : State} (hs : step addr s act = some s') :
    Inv a Ok Done s' := by
  cases act with
  | writer act =>
    simp only [Transfer.step] at hs
    split at hs
    · obtain ⟨l', hl', rfl⟩ := Option.map_eq_some_iff.1 hs
      exact h.writer ha hpos hmax hR ‹_› hl'
    · cases hs
  | reader i act =>
    obtain ⟨r, hr, hs⟩ := Option.bind_eq_some_iff.1 hs
    obtain ⟨r', hr', rfl⟩ := Option.map_eq_some_iff.1 hs
    have hok : Ok r' ∧ (Done r → Done r') := by
      have hr := h.readers r (List.mem_of_getElem? hr)
      cases act with
      | sender clock => cases hr'
      | networkData inc now d len =>
        simp only [readerStep] at hr'
        split at hr'
        · rename_i hd
          refine hR.step hr (fun _ h => (by cases h)) ?_ hr'
          intro _ _ _ _ he
          cases he
          exact ⟨h.toReaders hd.1, hd.2⟩
        · cases hr'
      | _ =>
        simp only [readerStep] at hr'
        split at hr'
        · exact hR.step hr (fun _ h => (by cases h)) (fun _ _ _ _ h => (by cases h)) hr'
        · cases hr'
    exact h.readerSet hr hok.1 hok.2
  | require d newId attr buffer =>
    simp only [Transfer.step] at hs
    split at hs
    · rename_i hd
      have hd := h.toReaders hd
      split at hs
      · exact h.startRecver hR hd (.inl ‹_›) hs
      · rename_i complex _
        split at hs
        · exact h.startRecver hR hd (.inr ‹_›) hs
        · cases hs
          exact h.answerDuplicate hR complex d _
      · cases hs
    · cases hs

omit ha hpos hmax hR in
theorem inv_init (id0 id1 : Nat) : Inv a Ok Done ⟨Life.startSender a id0 id1, [], []⟩ := by
  have hx := (moves 0).addToSenderQueue (newWriter a id0 id1)
  have hc : Cursors a (Life.startSender a id0 id1).con := by
    rw [Life.startSender, Life.con_ran]; exact (Cursors.start a id0 id1).moves boundary_zero hx
  refine ⟨?_, hc.writer, hc.type, hc.len, fun _ => ⟨.start a id0 id1, hc⟩, fun hcode => ?_, by simp⟩
  · exact Life.Emits.ran (l := ⟨newWriter a id0 id1, .live, [], 0, []⟩)
      (by simp [Life.Emits]) hx.packetsOf
  · rw [Life.startSender, Life.con_ran] at hcode
    rcases hx.code hcode with hcode | hcode
    · simp only [newWriter] at hcode
      split at hcode <;> cases hcode
    · exact absurd hcode (Nat.not_lt_zero _)

theorem inv_of_reach {id0 id1 : Nat} (h : (machine a id0 id1 addr).Reach s) : Inv a Ok Done s := by
  refine Machine.ReachUnder.invariant ?_ ?_ h
  · intro s hs
    cases hs
    exact inv_init id0 id1
  · exact fun _ _ _ hi _ hs => hi.step ha hpos hmax hR hs

end inv

end Transfer

end Resend.Udp

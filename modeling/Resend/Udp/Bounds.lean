import Resend.Udp.Table

/-!
# Bounds of the receive side

`CONNECTION_UNFILL_HEADER` reads twenty bytes of whatever came in and takes the rest for payload,
and the readers copy that payload to the offset the datagram names. Neither the length of the
datagram nor the end of the receive buffer is ever checked. `Sized` is the condition on a datagram
under which no read and no copy leaves its buffer; it is exact for every datagram of every run.
-/

namespace Resend.Udp
open Handler Connection ConM

def Effect.isCopy : Effect → Bool
  | .memcpy .. => true
  | _ => false

/-- Nothing is copied. -/
def NoCopy (_ _ : Connection) (es : List Effect) : Prop := ∀ e ∈ es, e.isCopy = false

theorem NoCopy.emit {c : Connection} {e : Effect} (he : e.isCopy = false) : NoCopy c c [e] := by
  intro e' he'
  rwa [List.mem_singleton.1 he']

theorem noCopy : StopFrame NoCopy where
  refl _ := by simp [NoCopy]
  trans h h' e he := by
    rcases List.mem_append.1 he with he | he
    · exact h e he
    · exact h' e he
  times _ := by simp [NoCopy]
  set _ _ := keeps_modifyGet fun _ => by simp [NoCopy]
  reset _ _ := keeps_modifyGet fun _ => by simp [NoCopy]
  bookkeeping {e c} he := by
    refine NoCopy.emit ?_
    cases e <;> first | rfl | cases he
  code _ := keeps_modify fun _ => by simp [NoCopy]
  setClean := keeps_modifyGet fun _ => by simp [NoCopy]
  setStop := keeps_modifyGet fun _ => by simp [NoCopy]
  suspend _ := NoCopy.emit rfl
  suspendTimer _ _ := NoCopy.emit rfl
  resetDatagram _ := NoCopy.emit rfl

namespace Connection

/-- The reader takes the packet at `seq`. -/
def Takes (c : Connection) (seq sendTime : Nat) : Prop :=
  c.has forceStopBit = false ∧ c.has transSucBit = false ∧
    match c.kind with
    | .simpleReader => c.leftWindowCursor = seq
    | .complexReader => (c.ackInfoCollector.set seq sendTime).1 ≠ none ∧
      (c.ackInfoCollector.set seq sendTime).1 ≠ some 1
    | .simpleWriter | .complexWriter => False

end Connection

/-- The copies among the effects: one of `len` bytes at `seq`, if `p` holds. -/
def CopiesIff (p : Prop) (seq : Nat) (len : Int) (es : List Effect) : Prop :=
  ∀ off l, .memcpy off l ∈ es ↔ p ∧ off = seq ∧ l = len

theorem copiesIff_of_none {es : List Effect} {p : Prop} {seq : Nat} {len : Int}
    (h : ∀ e ∈ es, e.isCopy = false) (hp : ¬ p) : CopiesIff p seq len es := by
  intro off l
  constructor
  · intro hmem
    cases h _ hmem
  · rintro ⟨hp', -⟩
    exact absurd hp' hp

theorem CopiesIff.append {es es' : List Effect} {p : Prop} {seq : Nat} {len : Int}
    (h : CopiesIff p seq len es) (h' : ∀ e ∈ es', e.isCopy = false) :
    CopiesIff p seq len (es ++ es') := by
  intro off l
  rw [List.mem_append, h off l, or_iff_left]
  intro hmem
  cases h' _ hmem

theorem copiesIff_singleton {p : Prop} {seq : Nat} {len : Int} (hp : p) :
    CopiesIff p seq len [.memcpy seq len] := by
  intro off l
  simp [hp]

section readers
variable {c : Connection} (seq sendTime : Nat) (data : List UInt8) (len : Int)

theorem noCopy_sendDatagram (t : MsgType) (time dtNote : Nat) (bytes : List UInt8) :
    Keeps NoCopy (ConM.sendDatagram t time dtNote bytes) :=
  noCopy.bind noCopy.get fun _ => keeps_emit fun _ => NoCopy.emit rfl

theorem copies_simpleReader (hk : c.kind = .simpleReader) :
    wp (SimpleConnection.readerConnectionDoNetworkData seq sendTime data len)
      (fun _ _ es => CopiesIff (c.Takes seq sendTime) seq len es) c := by
  have hcomplete : Keeps NoCopy SimpleConnection.readerCheckComplete :=
    noCopy.bind noCopy.get fun _ =>
      noCopy.when <| noCopy.bind (keeps_modifyGet fun _ => by simp [NoCopy]) fun _ =>
      noCopy.when <| noCopy.bind (keeps_modify fun _ => by simp [NoCopy]) fun _ =>
      noCopy.bind noCopy.get fun _ => keeps_emit fun _ => NoCopy.emit rfl
  have hanswer : Keeps NoCopy (do
      let c ← Handler.get
      ConM.sendDatagram .simpleFileAck sendTime c.leftWindowCursor []) :=
    noCopy.bind noCopy.get fun _ => noCopy_sendDatagram _ _ _ _
  have hdone : Keeps NoCopy (do
      Handler.modify fun c => { c with memcpyCount := c.memcpyCount + 1 }
      SimpleConnection.readerCheckComplete) :=
    noCopy.bind (keeps_modify fun _ => by simp [NoCopy]) fun _ => hcomplete
  rw [SimpleConnection.readerConnectionDoNetworkData, wp_bind, wp_bitTest (by decide), wp_bind,
    wp_bitTest (by decide), wp_ite]
  cases hstop : c.has forceStopBit || c.has transSucBit with
  | true =>
    have hno : ¬ c.Takes seq sendTime := by
      rintro ⟨h1, h2, -⟩
      rw [h1, h2] at hstop
      cases hstop
    rw [if_pos (by simpa using hstop), SimpleConnection.readerAnswerStopped, wp_bind, wp_get, wp_ite]
    split
    · exact copiesIff_of_none (noCopy_sendDatagram _ _ _ _ c) hno
    · exact copiesIff_of_none (noCopy_sendDatagram _ _ _ _ c) hno
  | false =>
    have hiff : c.Takes seq sendTime ↔ c.leftWindowCursor = seq := by
      unfold Takes
      rw [hk, (Bool.or_eq_false_iff.1 hstop).1, (Bool.or_eq_false_iff.1 hstop).2]
      simp
    rw [if_neg (by simpa using hstop), wp_bind, increaseRunningCount, wp_modify, wp_bind,
      wp_get, wp_bind, wp_when]
    by_cases hseq : c.leftWindowCursor = seq
    · rw [if_pos hseq, wp_bind, wp_modify, wp_bind, copyData, wp_bind, wp_modify, wp_emit]
      refine wp_mono _ (hdone _) fun _ c₁ es₁ h1 => ?_
      refine wp_mono _ (hanswer c₁) fun _ c₂ es₂ h2 => ?_
      exact ((copiesIff_singleton (hiff.2 hseq)).append h1).append h2
    · rw [if_neg hseq]
      exact wp_mono _ (hanswer _) fun _ _ _ h => copiesIff_of_none h fun ht => hseq (hiff.1 ht)

theorem copies_complexReader (hk : c.kind = .complexReader) :
    wp (ComplexConnection.readerConnectionDoNetworkData seq sendTime data len)
      (fun _ _ es => CopiesIff (c.Takes seq sendTime) seq len es) c := by
  have hstopped : Keeps NoCopy ComplexConnection.readerAnswerStopped :=
    noCopy.bind (keeps_modifyGet fun _ => by simp [NoCopy]) fun _ => noCopy.bind noCopy.get fun _ =>
      keeps_ite (noCopy_sendDatagram _ _ _ _) (noCopy_sendDatagram _ _ _ _)
  rw [ComplexConnection.readerConnectionDoNetworkData, wp_bind, wp_bitTest (by decide), wp_bind,
    wp_bitTest (by decide), wp_ite]
  cases hstop : c.has forceStopBit || c.has transSucBit with
  | true =>
    have hno : ¬ c.Takes seq sendTime := by
      rintro ⟨h1, h2, -⟩
      rw [h1, h2] at hstop
      cases hstop
    rw [if_pos (by simpa using hstop)]
    exact wp_mono _ (hstopped c) fun _ _ _ h => copiesIff_of_none h hno
  | false =>
    have hiff : c.Takes seq sendTime ↔ ¬ ((c.ackInfoCollector.set seq sendTime).1 = none ∨
        (c.ackInfoCollector.set seq sendTime).1 = some 1) := by
      unfold Takes
      rw [hk, (Bool.or_eq_false_iff.1 hstop).1, (Bool.or_eq_false_iff.1 hstop).2]
      simp
    rw [if_neg (by simpa using hstop), wp_bind, increaseRunningCount, wp_modify, wp_bind,
      ComplexConnection.collectorSet, wp_modifyGet, wp_when]
    by_cases hset : ¬ ((c.ackInfoCollector.set seq sendTime).1 = none ∨
      (c.ackInfoCollector.set seq sendTime).1 = some 1)
    · rw [if_pos hset, copyData, wp_bind, wp_modify, wp_emit]
      exact copiesIff_singleton (hiff.2 hset)
    · rw [if_neg hset]
      exact copiesIff_of_none (noCopy.refl c) fun ht => hset (hiff.1 ht)

theorem copies_doNetworkData (hr : c.kind.isWriter = false) (inc now : Nat) :
    wp (doNetworkData inc now seq sendTime data len)
      (fun _ _ es => CopiesIff (c.Takes seq sendTime) seq len es) c := by
  rw [doNetworkData, wp_bind, wp_get]
  cases hk : c.kind with
  | simpleReader => exact copies_simpleReader seq sendTime data len hk
  | complexReader => exact copies_complexReader seq sendTime data len hk
  | simpleWriter | complexWriter => rw [hk] at hr; cases hr

end readers

theorem copies_connectionDoNetworkData {c : Connection} (hr : c.kind.isWriter = false)
    (inc now : Nat) (d : Datagram) (len : Int) : wp (ConM.connectionDoNetworkData inc now d len)
      (fun _ _ es => CopiesIff (c.Takes d.dtNote d.sendTime) d.dtNote len es) c := by
  have hrun : ∀ (c₁ : Connection) (es₁ : List Effect), c₁.kind.isWriter = false →
    (∀ e ∈ es₁, e.isCopy = false) →
      (c₁.Takes d.dtNote d.sendTime ↔ c.Takes d.dtNote d.sendTime) →
      wp (doNetworkData inc now d.dtNote d.sendTime d.data len)
        (fun _ _ es => CopiesIff (c.Takes d.dtNote d.sendTime) d.dtNote len (es₁ ++ es)) c₁ := by
    intro c₁ es₁ hk hes hiff
    refine wp_mono _ (copies_doNetworkData d.dtNote d.sendTime d.data len hk inc now) fun _ _ es h => ?_
    intro off l
    rw [List.mem_append, h off l, hiff, or_iff_right]
    intro hmem
    cases hes _ hmem
  rw [ConM.connectionDoNetworkData, wp_bind, wp_when]
  split
  · have herase : ∀ e ∈ (if c.has inRecvWaitAckQueueBit then
        [Effect.eraseWaitAck c.labelField d.fromId] else []), e.isCopy = false := by
      intro e he
      split at he
      · rw [List.mem_singleton.1 he]; rfl
      · cases he
    rw [wp_adoptPeer]
    cases d.msgType with
    | simpleFileData | complexFileData => exact hrun _ _ hr herase (by simp [Takes])
    | simpleFileAck | complexFileAck | complexFileSack => exact hrun _ _ hr (by simp) Iff.rfl
    | _ => exact hrun c _ hr (by simp) Iff.rfl
  · exact hrun c _ hr (by simp) Iff.rfl

theorem copies_receiveFirst {c : Connection} (hr : c.kind.isWriter = false) (complex : Bool)
    (d : Datagram) (len : Int) :
    wp (ConM.receiveFirst complex d len) (fun _ _ es =>
      CopiesIff (c.Takes 0 d.sendTime) 0 len es) c := by
  have harm : Keeps NoCopy (do
      ConM.addToTimerQueue connectionRecvCheckDeadTime .recverCheckDeadTimer
      Handler.when (complex = true) (ConM.addToTimerQueue recvAckTimer .recverAckTimer)) :=
    noCopy.bind (noCopy.addToTimerQueue (by decide)) fun _ =>
      noCopy.when (noCopy.addToTimerQueue (by decide))
  rw [ConM.receiveFirst, wp_bind]
  refine wp_mono _ (copies_doNetworkData 0 d.sendTime d.data len hr 0 0) fun _ c₁ es₁ h => ?_
  exact wp_mono _ (harm c₁) fun _ _ _ h' => h.append h'

theorem takes_newReader {complex : Bool} {d : Datagram} {id addr : Nat}
    {attr : Option RecvVerificationAttribute} {buffer : Option (List UInt8)} {c : Connection}
    (hc : equipReader attr buffer (waitingReader (newReader complex d) id addr) = some c)
    (sendTime : Nat) :
    c.kind.isWriter = false ∧ c.Takes 0 sendTime ∧ c.transmitBufLength = d.dtNote := by
  obtain ⟨_, _, _, rfl⟩ := equipReader_some hc
  have hbits : ∀ k, k = 2 ∨ k = 0 → (waitingReader (newReader complex d) id addr).has k = false := by
    rintro k (rfl | rfl) <;> simp [waitingReader, newReader, construct]
  cases complex with
  | false => exact ⟨rfl, ⟨hbits 2 (.inl rfl), hbits 0 (.inr rfl), rfl⟩, rfl⟩
  | true =>
    refine ⟨rfl, ⟨hbits 2 (.inl rfl), hbits 0 (.inr rfl), ?_⟩, rfl⟩
    have hset : (AckInfoCollector.zero.set 0 sendTime).1 = some 0 := by
      simp [AckInfoCollector.set, AckInfoCollector.zero, AckInfoCollector.bitTestAndSet,
        Word.testAndSet, Word.oldBit]
    have htakes : (AckInfoCollector.zero.set 0 sendTime).1 ≠ none ∧
        (AckInfoCollector.zero.set 0 sendTime).1 ≠ some 1 := by
      rw [hset]
      decide
    exact htakes

/-! ### What handling a datagram reads and writes -/

namespace Endpoint

/-- Every field read lies inside the datagram, its payload has a length, and a reader copies inside its
buffer. -/
structure Bounded (r : KernelRecvData) (report : Report) : Prop where
  fields : ∀ pos ∈ report.fields, pos + 4 ≤ r.dataLength
  length : ∀ l ∈ report.recvDataLength, 0 ≤ l
  copies : ∀ p ∈ report.ran, p.1.kind.isWriter = false → ∀ off len, .memcpy off len ∈ p.2 →
    0 ≤ len ∧ ∀ i : Nat, off ≤ i → (i : Int) < off + len → i < p.1.transmitBufLength

variable {s : Endpoint} {r : KernelRecvData} {e : RecvEnv}

theorem bounded_kind_iff {ans : Option (Datagram × Nat)} :
    Bounded r ⟨[0], none, none, ans⟩ ↔ 4 ≤ r.dataLength := by
  constructor
  · intro h
    have := h.fields 0 (by simp)
    omega
  · intro h
    exact ⟨by simpa using h, by simp, by simp⟩

theorem bounded_header_iff {ans : Option (Datagram × Nat)} {len : Int}
    (hlen : len = r.dataLength - packetMaxHeaderLength) :
    Bounded r ⟨allFields, some len, none, ans⟩ ↔ 20 ≤ r.dataLength := by
  constructor
  · intro h
    exact h.fields 16 (by simp [allFields])
  · intro h
    refine ⟨?_, ?_, by simp⟩
    · intro pos hpos
      simp only [allFields, List.mem_cons, List.not_mem_nil, or_false] at hpos
      omega
    · rintro l ⟨⟩
      simp only [hlen, packetMaxHeaderLength]
      omega

theorem bounded_ran_iff {ans : Option (Datagram × Nat)} {c : Connection} {es : List Effect}
    {len : Int} {p : Prop} {seq : Nat} (hlen : len = r.dataLength - packetMaxHeaderLength)
    (hes : c.kind.isWriter = false → CopiesIff p seq len es) :
    Bounded r ⟨allFields, some len, some (c, es), ans⟩ ↔ 20 ≤ r.dataLength ∧
      (c.kind.isWriter = false → p →
        r.dataLength = 20 ∨ seq + (r.dataLength - 20) ≤ c.transmitBufLength) := by
  have hheader : 20 ≤ r.dataLength → Bounded r ⟨allFields, some len, none, ans⟩ :=
    (bounded_header_iff hlen).2
  simp only [packetMaxHeaderLength] at hlen
  constructor
  · intro h
    have h20 : 20 ≤ r.dataLength := h.fields 16 (by simp [allFields])
    refine ⟨h20, fun hk hp => ?_⟩
    by_cases hzero : r.dataLength = 20
    · exact .inl hzero
    · obtain ⟨-, hin⟩ := h.copies (c, es) rfl hk seq len ((hes hk seq len).2 ⟨hp, rfl, rfl⟩)
      have hlast : seq + (r.dataLength - 20) - 1 < c.transmitBufLength := hin _ (by omega) (by omega)
      exact .inr (by omega)
  · rintro ⟨h20, hfit⟩
    refine ⟨(hheader h20).fields, (hheader h20).length, ?_⟩
    rintro q ⟨⟩ hk off l hmem
    obtain ⟨hp, rfl, rfl⟩ := (hes hk off l).1 hmem
    refine ⟨by omega, fun i hi hi' => ?_⟩
    rcases hfit hk hp with hzero | hle
    · omega
    · show i < c.transmitBufLength
      omega

theorem bounded_dispatch_iff {found : Option Object} {x : ConM Unit} {len : Int}
    (hlen : len = r.dataLength - packetMaxHeaderLength)
    (hx : ∀ o, found = some o → wp x (fun _ _ es => ∀ e ∈ es, e.isCopy = false) o.con) :
    Bounded r (s.dispatch len x found).2 ↔ 20 ≤ r.dataLength := by
  cases found with
  | none => exact bounded_header_iff hlen
  | some o =>
    have hes : CopiesIff False 0 len (exec x o.con).2 := copiesIff_of_none (hx o rfl) id
    refine (bounded_ran_iff hlen fun _ => hes).trans ?_
    simp

/-! ### The condition -/

/-- `start_recver` makes a reader for the REQUIRE. -/
def Accepts (s : Endpoint) (addr : Nat) (e : RecvEnv) (complex : Bool) (d : Datagram) : Prop :=
  RecvEnv.Admits e complex ∧ d.dtNote ≠ 0 ∧ s.cidArray s.cidArrayOffset = .null ∧
    (equipReader e.attr e.buffer (waitingReader (newReader complex d) s.newId addr)).isSome = true

/-- The header is decoded: always but for a first REQUIRE that no reader can be made for. -/
def Decodes (e : RecvEnv) (t : MsgType) : Prop :=
  ∀ complex, t.target = .startRecver complex → RecvEnv.Admits e complex

/-- The datagram has room for what is read of it, and what a reader copies ends inside its buffer. -/
structure Sized (s : Endpoint) (r : KernelRecvData) (e : RecvEnv) : Prop where
  kind : 4 ≤ r.dataLength
  header : ∀ t ∈ MsgType.ofCode (readUlong r.data 0), Decodes e t → 20 ≤ r.dataLength
  first : ∀ q ∈ s.required r, s.Accepts r.remoteAddr e q.1 q.2.1 → r.dataLength ≤ 20 + q.2.1.dtNote
  packet : ∀ p ∈ s.delivered r, p.1.con.kind.isWriter = false → p.1.con.Takes p.2.dtNote p.2.sendTime →
    r.dataLength = 20 ∨ p.2.dtNote + (r.dataLength - 20) ≤ p.1.con.transmitBufLength

theorem bounded_startRecver_iff {complex : Bool} {d : Datagram} {len : Int} {addr : Nat}
    {res : Endpoint × Report} (h : Recver s complex d len addr e res)
    (hlen : len = r.dataLength - packetMaxHeaderLength) :
    Bounded r { res.2 with fields := allFields, recvDataLength := some len } ↔
      20 ≤ r.dataLength ∧ (s.Accepts addr e complex d → r.dataLength ≤ 20 + d.dtNote) := by
  cases h with
  | turned hadm =>
    rw [bounded_header_iff hlen]
    exact ⟨fun h => ⟨h, fun hacc => absurd hacc.1 hadm⟩, And.left⟩
  | empty _ _ h0 =>
    rw [bounded_header_iff hlen]
    exact ⟨fun h => ⟨h, fun hacc => absurd h0 hacc.2.1⟩, And.left⟩
  | taken _ _ hslot =>
    rw [bounded_header_iff hlen]
    exact ⟨fun h => ⟨h, fun hacc => absurd hacc.2.2.1 hslot⟩, And.left⟩
  | refused _ _ _ hc =>
    rw [bounded_header_iff hlen]
    refine ⟨fun h => ⟨h, fun hacc => ?_⟩, And.left⟩
    have hsome := hacc.2.2.2
    rw [hc] at hsome
    cases hsome
  | accepted hp hadm h0 hslot huid hc =>
    rename_i o
    obtain ⟨hk, htakes, hbuf⟩ := takes_newReader hc d.sendTime
    have hes : CopiesIff _ 0 len (exec (ConM.receiveFirst complex d len) o.con).2 :=
      copies_receiveFirst hk complex d len
    refine (bounded_ran_iff hlen fun _ => hes).trans ?_
    rw [hbuf]
    refine and_congr_right fun h20 => ⟨fun h _ => ?_, fun h _ _ => ?_⟩
    · have := h hk htakes
      omega
    · have := h ⟨hadm, h0, hslot, by simp [hc]⟩
      omega

/-- A datagram stays within its bounds if and only if it is `Sized`. -/
theorem bounded_filterData_iff (hcur : s.cidArrayOffset < maxConnectionCount) :
    Bounded r (s.filterData r e).2 ↔ s.Sized r e := by
  have hsized : s.Sized r e ↔ 4 ≤ r.dataLength ∧
      (∀ t ∈ MsgType.ofCode (readUlong r.data 0), Decodes e t → 20 ≤ r.dataLength) ∧
      (∀ q ∈ s.required r, s.Accepts r.remoteAddr e q.1 q.2.1 → r.dataLength ≤ 20 + q.2.1.dtNote) ∧
      ∀ p ∈ s.delivered r, p.1.con.kind.isWriter = false → p.1.con.Takes p.2.dtNote p.2.sendTime →
        r.dataLength = 20 ∨ p.2.dtNote + (r.dataLength - 20) ≤ p.1.con.transmitBufLength :=
    ⟨fun h => ⟨h.kind, h.header, h.first, h.packet⟩, fun h => ⟨h.1, h.2.1, h.2.2.1, h.2.2.2⟩⟩
  rw [hsized]
  unfold filterData required delivered
  generalize MsgType.ofCode (readUlong r.data 0) = msg
  cases msg with
  | none =>
    refine bounded_kind_iff.trans ?_
    simp
  | some t =>
    have hlen : (unfillHeader t r).2 = r.dataLength - packetMaxHeaderLength := rfl
    simp only [filterMsg, requiredMsg, Option.bind_some]
    generalize (unfillHeader t r).1 = d
    generalize (unfillHeader t r).2 = len at hlen
    cases ht : t.target with
    | startRecver complex =>
      have hrec := startRecver_cases hcur complex d len r.remoteAddr e
      by_cases hadm : RecvEnv.Admits e complex
      · have hdec : Decodes e t := by
          intro complex' heq
          rw [ht] at heq
          cases heq
          exact hadm
        have hrep : (s.startRecver complex d len r.remoteAddr e).2 =
            { (s.startRecver complex d len r.remoteAddr e).2 with
              fields := allFields, recvDataLength := some len } := by
          generalize s.startRecver complex d len r.remoteAddr e = res at hrec ⊢
          cases hrec with
          | turned h => exact absurd hadm h
          | _ => rfl
        rw [hrep]
        refine (bounded_startRecver_iff hrec hlen).trans ?_
        simp [hdec]
        omega
      · have hdec : ¬ Decodes e t := fun h => hadm (h complex ht)
        have hrep : (s.startRecver complex d len r.remoteAddr e).2 = ⟨[0], none, none, none⟩ := by
          generalize s.startRecver complex d len r.remoteAddr e = res at hrec ⊢
          cases hrec with
          | turned => rfl
          | empty _ h | taken h | refused h | accepted _ h => exact absurd h hadm
        rw [hrep]
        refine bounded_kind_iff.trans ?_
        simp [hdec, Accepts, hadm]
    | networkData =>
      have hdec : Decodes e t := fun complex heq => (by rw [ht] at heq; cases heq)
      simp only [connectionDoNetworkData]
      cases ho : s.addressed d.toId with
      | none =>
        refine (bounded_header_iff hlen).trans ?_
        simp [hdec]
        omega
      | some o =>
        have hes : o.con.kind.isWriter = false →
          CopiesIff (o.con.Takes d.dtNote d.sendTime) d.dtNote len
            (exec (ConM.connectionDoNetworkData e.inc e.now d len) o.con).2 := fun hk =>
          copies_connectionDoNetworkData hk e.inc e.now d len
        refine (bounded_ran_iff hlen hes).trans ?_
        simp [hdec]
        omega
    | requireDuplicate complex =>
      have hdec : Decodes e t := fun complex heq => (by rw [ht] at heq; cases heq)
      simp only [connectionDoRequireDuplicate]
      cases hk : s.waitAck.lookup (d.toId, d.fromId) with
      | none =>
        refine (bounded_startRecver_iff
          (startRecver_cases hcur complex d len r.remoteAddr e) hlen).trans ?_
        simp [hdec]
        omega
      | some k =>
        refine (bounded_dispatch_iff hlen fun o _ => ?_).trans ?_
        · exact (noCopy.bind noCopy.get fun _ => noCopy.when (noCopy_sendDatagram _ _ _ _)) o.con
        · simp [hdec]
          omega
    | connectionReset =>
      have hdec : Decodes e t := fun complex heq => (by rw [ht] at heq; cases heq)
      simp only [connectionDoConnectionReset]
      refine (bounded_dispatch_iff hlen fun o _ =>
        noCopy.connectionDoConnectionReset d.msgType o.con).trans ?_
      simp [hdec]
      omega

/-! ### Runs -/

/-- The datagram of an action stays within its bounds. -/
def BoundedAct (s : Endpoint) : Act → Prop
  | .recv r e => Bounded r (s.filterData r e).2
  | _ => True

def SizedAct (s : Endpoint) : Act → Prop
  | .recv r e => s.Sized r e
  | _ => True

/-- In every run, all datagrams stay within their bounds if and only if each of them is `Sized` when
it comes in. -/
theorem bounded_run_iff {cursor : Nat} (hcur : cursor < maxConnectionCount) (actor : Nat)
    (acts : List Act) :
    machine.Along BoundedAct (start cursor actor) acts ↔
      machine.Along SizedAct (start cursor actor) acts := by
  refine Machine.along_congr (I := Sane) (fun _ _ _ h hs => h.step hs) ?_ (.started cursor actor hcur)
  intro s act hs
  cases act with
  | recv r e => exact bounded_filterData_iff hs.cursor
  | _ => exact Iff.rfl

/-- A REQUIRE for one byte with one byte. -/
theorem bounded_run_iff_oneByte :
    machine.Along BoundedAct (start 5 0) [.recv (oneByte.received 0) willing] := by
  have ht : MsgType.ofCode (readUlong (oneByte.received 0).data 0) = some oneByte.msgType :=
    oneByte.ofCode_encode []
  have hd : unfillHeader oneByte.msgType (oneByte.received 0) = (oneByte, 1) :=
    unfillHeader_encode ⟨by decide, by decide, by decide, by decide⟩ 0 []
  refine (bounded_run_iff (by decide) 0 _).2 ⟨⟨by decide, fun _ _ _ => by decide, ?_, ?_⟩,
    fun _ _ => trivial⟩
  · intro q hq _
    rw [required_of_header ht hd] at hq
    cases hq
    decide
  · intro p hp
    rw [delivered, ht] at hp
    cases hp

/-- A REQUIRE for one byte with four. -/
theorem exists_copy_past_end :
    ¬ ∀ acts, machine.Along BoundedAct (start 5 0) acts := by
  intro hall
  have h :=
    (hall [.recv (Datagram.received ⟨.simpleFileRequire, 9, 1, 0, 1, [1, 2, 3, 4]⟩ 0) willing]).1
  have hran :
      (((start 5 0).filterData (Datagram.received ⟨.simpleFileRequire, 9, 1, 0, 1, [1, 2, 3, 4]⟩ 0)
        willing).2.ran.map fun p => (p.1.kind, p.1.transmitBufLength, decide (.memcpy 0 4 ∈ p.2))) =
      some (.simpleReader, 1, true) := by decide +kernel
  obtain ⟨⟨c, es⟩, hp, hres⟩ := Option.map_eq_some_iff.1 hran
  simp only [Prod.mk.injEq, decide_eq_true_eq] at hres
  obtain ⟨-, hin⟩ := h.copies (c, es) hp (by rw [hres.1]; rfl) 0 4 hres.2.2
  have hlast : 3 < c.transmitBufLength := hin 3 (by decide) (by decide)
  rw [hres.2.1] at hlast
  exact absurd hlast (by decide)

end Endpoint

end Resend.Udp

import Resend.Udp.Table

/-!
# Message kinds and roles

`connection_do_network_data` finds a connection by its id and calls the connection's own handler;
neither looks whether the message kind is one for a writer or a reader, for a simple or a complex
file. A datagram of the wrong kind leaves a connection as it is only if it comes at a moment when
its handler has nothing to do (`AtRest`) and the part for sequence number 1452 finds nothing to
change.
-/

namespace Resend.Udp
open Handler Connection ConM

/-- The message kind is one for connections of this kind. -/
def MsgType.fits : MsgType → ConnKind → Bool
  | .simpleFileAck, .simpleWriter => true
  | .complexFileAck, .complexWriter => true
  | .complexFileSack, .complexWriter => true
  | .simpleFileData, .simpleReader => true
  | .complexFileData, .complexReader => true
  | _, _ => false

namespace Connection

/-- The handler has nothing to do with sequence number `seq`: to a writer it is old news, and a
reader has stopped; a complex reader also has nothing more to acknowledge. -/
def AtRest (c : Connection) (seq : Nat) : Prop :=
  match c.kind with
  | .simpleWriter | .complexWriter => seq < c.leftWindowCursor ∧ c.tryTime = 0
  | .simpleReader => c.has forceStopBit = true ∨ c.has transSucBit = true
  | .complexReader =>
    (c.has forceStopBit = true ∨ c.has transSucBit = true) ∧ c.ackInfoCollector.Settled

/-- The part for sequence number 1452 finds nothing to change. -/
def NothingToAdopt (c : Connection) (d : Datagram) : Prop :=
  d.dtNote = packetMaxDataLength →
    match d.msgType with
    | .simpleFileData | .complexFileData => c.has inRecvWaitAckQueueBit = false
    | .simpleFileAck | .complexFileAck | .complexFileSack => c.id1 = d.fromId
    | _ => True

/-- What every handler that does something changes. -/
def pulse (c : Connection) : Nat × Nat × AckInfoCollector :=
  (c.runningCount, c.tryTime, c.ackInfoCollector)

end Connection

/-! ### Counting what was handled -/

/-- The running count stays. -/
def Counted (c c' : Connection) (_ : List Effect) : Prop := c'.runningCount = c.runningCount

theorem counted : Frame Counted where
  refl _ := rfl
  trans h h' := h'.trans h

namespace Counted

theorem modify {f : Connection → Connection} (hf : ∀ c, (f c).runningCount = c.runningCount) :
    Keeps Counted (Handler.modify f : ConM Unit) :=
  keeps_modify hf

theorem testAndSet (k : Nat) : Keeps Counted (ConM.testAndSet k) := keeps_modifyGet fun _ => rfl

theorem testAndReset (k : Nat) : Keeps Counted (ConM.testAndReset k) := keeps_modifyGet fun _ => rfl

theorem addToTimerQueue (due : Int) (t : TimerType) : Keeps Counted (ConM.addToTimerQueue due t) :=
  counted.bind counted.get fun _ => keeps_emit fun _ => rfl

theorem transSuspend : Keeps Counted ConM.transSuspend :=
  counted.bind (testAndSet _) fun _ => counted.when <| counted.bind counted.get fun _ =>
    counted.bind (keeps_emit fun _ => rfl) fun _ => addToTimerQueue _ _

theorem addToSenderQueue : Keeps Counted ConM.addToSenderQueue :=
  counted.bind (testAndSet _) fun _ => keeps_ite
    (counted.bind counted.get fun _ => keeps_emit fun _ => rfl)
    (counted.bind (testAndSet _) fun _ => counted.pure _)

theorem setConnectionRTO (now sendTime : Nat) : Keeps Counted (ConM.setConnectionRTO now sendTime) := by
  have hsample : Keeps Counted (Handler.modify
      (rtoSample (toInt32 (sub32 now sendTime))) : ConM Unit) := by
    refine modify fun c => ?_
    unfold rtoSample
    split <;> rfl
  exact counted.bind (testAndSet _) fun _ => counted.when <| counted.bind hsample fun _ =>
    counted.bind (testAndReset _) fun _ => counted.pure _

theorem finish : Keeps Counted (do setTransResultCode .successfully; ConM.transSuspend) :=
  counted.bind (modify fun _ => rfl) fun _ => transSuspend

theorem recordSack (seq : Nat) : Keeps Counted (ComplexConnection.recordSack seq) :=
  counted.bind counted.get fun _ => keeps_ite
    (counted.bind (modify fun _ => rfl) fun _ => keeps_ite (testAndReset _) (counted.pure _))
    (counted.bind (modify fun _ => rfl) fun _ => counted.pure _)

theorem adjustWindow (inc : Nat) (isNewSack : Int) :
    Keeps Counted (ComplexConnection.adjustWindow inc isNewSack) := by
  have hnext : Keeps Counted (Handler.modify (ComplexConnection.nextWindow inc) : ConM Unit) := by
    refine modify fun c => ?_
    unfold ComplexConnection.nextWindow
    split <;> rfl
  have hgrow : Keeps Counted (ComplexConnection.growWindow inc isNewSack) :=
    counted.bind (keeps_ite
      (counted.bind (modify fun _ => rfl) fun _ =>
        counted.bind (testAndSet _) fun _ => counted.pure _) hnext)
      fun _ => counted.bind counted.refl fun _ => counted.when (modify fun _ => rfl)
  exact counted.bind counted.get fun _ => keeps_ite
    (counted.bind (modify fun _ => rfl) fun _ =>
      counted.bind (testAndSet _) fun _ => counted.pure _) hgrow

theorem copyData (seq : Nat) (data : List UInt8) (len : Int) :
    Keeps Counted (ConM.copyData seq data len) :=
  counted.bind (modify fun _ => rfl) fun _ => keeps_emit fun _ => rfl

theorem sendDatagram (t : MsgType) (sendTime dtNote : Nat) (data : List UInt8) :
    Keeps Counted (ConM.sendDatagram t sendTime dtNote data) :=
  counted.bind counted.get fun _ => keeps_emit fun _ => rfl

end Counted

/-! ### At rest or not -/

/-- Nothing has happened to a connection at rest, and something has to any other. -/
def Answered (c : Connection) (seq : Nat) (c' : Connection) : Prop :=
  (c.AtRest seq → c' = c) ∧ (¬ c.AtRest seq → c'.pulse ≠ c.pulse)

variable {c c' : Connection} {seq : Nat}

/-- A handler that has counted the datagram is not at rest. -/
theorem answered_of_counted (hrest : ¬ c.AtRest seq) (hc : c'.runningCount = c.runningCount + 1) :
    Answered c seq c' := by
  refine ⟨fun h => absurd h hrest, fun _ heq => ?_⟩
  have hrun : c'.runningCount = c.runningCount := congrArg Prod.fst heq
  omega

theorem answered_writer {rest : ConM Unit} (hrest : Keeps Counted rest) (hk : c.kind.isWriter = true) :
    wp (do
      Handler.modify fun c => { c with tryTime := 0 }
      let res ← setConnectionLeftWindowCursor seq
      Handler.when (¬ res = -1) do
        increaseRunningCount
        rest) (fun _ c' _ => Answered c seq c') c := by
  have hiff : c.AtRest seq ↔ seq < c.leftWindowCursor ∧ c.tryTime = 0 := by
    unfold AtRest
    cases hkind : c.kind <;> rw [hkind] at hk <;> first | rfl | cases hk
  simp only [wp_bind, wp_modify, wp_setConnectionLeftWindowCursor, wp_when]
  split
  · rename_i hle
    rw [if_pos (by decide), increaseRunningCount, wp_modify]
    refine wp_mono _ (hrest _) fun _ c' es h => ?_
    exact answered_of_counted (fun h => absurd (hiff.1 h).1 (Nat.not_lt.2 hle)) h
  · rename_i hlt
    rw [if_neg (by simp)]
    have hlt : seq < c.leftWindowCursor := Nat.lt_of_not_le hlt
    constructor
    · intro h
      rw [← (hiff.1 h).2]
    · intro h heq
      refine h (hiff.2 ⟨hlt, ?_⟩)
      exact (congrArg (fun p => p.2.1) heq).symm

theorem answered_simpleReader (sendTime : Nat) (data : List UInt8) (len : Int)
    (hk : c.kind = .simpleReader) :
    wp (SimpleConnection.readerConnectionDoNetworkData seq sendTime data len) (fun _ c' _ =>
      Answered c seq c') c := by
  have hiff : c.AtRest seq ↔ c.has forceStopBit = true ∨ c.has transSucBit = true := by
    unfold AtRest
    rw [hk]
  have hcomplete : Keeps Counted SimpleConnection.readerCheckComplete :=
    counted.bind counted.get fun _ => counted.when <| counted.bind (Counted.testAndSet _) fun _ =>
      counted.when <| counted.bind (Counted.modify fun _ => rfl) fun _ =>
        counted.bind counted.get fun _ => keeps_emit fun _ => rfl
  have htake : Keeps Counted (do
      Handler.modify fun c => { c with leftWindowCursor := u32 (seq + packetMaxDataLength) }
      ConM.copyData seq data len
      Handler.modify fun c => { c with memcpyCount := c.memcpyCount + 1 }
      SimpleConnection.readerCheckComplete) :=
    counted.bind (Counted.modify fun _ => rfl) fun _ => counted.bind (Counted.copyData _ _ _) fun _ =>
      counted.bind (Counted.modify fun _ => rfl) fun _ => hcomplete
  have hrest : Keeps Counted (do
      let c ← Handler.get
      Handler.when (c.leftWindowCursor = seq) do
        Handler.modify fun c => { c with leftWindowCursor := u32 (seq + packetMaxDataLength) }
        ConM.copyData seq data len
        Handler.modify fun c => { c with memcpyCount := c.memcpyCount + 1 }
        SimpleConnection.readerCheckComplete
      let c ← Handler.get
      ConM.sendDatagram .simpleFileAck sendTime c.leftWindowCursor []) :=
    counted.bind counted.get fun _ => counted.bind (counted.when htake) fun _ =>
      counted.bind counted.get fun _ => Counted.sendDatagram _ _ _ _
  rw [SimpleConnection.readerConnectionDoNetworkData, wp_bind, wp_bitTest (by decide), wp_bind,
    wp_bitTest (by decide), wp_ite]
  cases hstop : c.has forceStopBit || c.has transSucBit with
  | true =>
    have hrest : c.AtRest seq := hiff.2 (by simpa using hstop)
    rw [if_pos (by simpa using hstop), SimpleConnection.readerAnswerStopped, wp_bind, wp_get, wp_ite]
    split
    · exact ⟨fun _ => rfl, fun h => absurd hrest h⟩
    · exact ⟨fun _ => rfl, fun h => absurd hrest h⟩
  | false =>
    rw [if_neg (by simpa using hstop), wp_bind, increaseRunningCount, wp_modify]
    refine wp_mono _ (hrest _) fun _ c' es h => ?_
    refine answered_of_counted (fun h => ?_) h
    rw [hiff, ← Bool.or_eq_true, hstop] at h
    cases h

theorem answered_complexReader (sendTime : Nat) (data : List UInt8) (len : Int)
    (hk : c.kind = .complexReader) :
    wp (ComplexConnection.readerConnectionDoNetworkData seq sendTime data len) (fun _ c' _ =>
      Answered c seq c') c := by
  have hiff : c.AtRest seq ↔ (c.has forceStopBit = true ∨ c.has transSucBit = true) ∧
      c.ackInfoCollector.Settled := by
    unfold AtRest
    rw [hk]
  have hrest : Keeps Counted (do
      let bitValue ← ComplexConnection.collectorSet seq sendTime
      Handler.when (¬ (bitValue = none ∨ bitValue = some 1)) (ConM.copyData seq data len)) :=
    counted.bind (keeps_modifyGet fun _ => rfl) fun _ => counted.when (Counted.copyData _ _ _)
  rw [ComplexConnection.readerConnectionDoNetworkData, wp_bind, wp_bitTest (by decide), wp_bind,
    wp_bitTest (by decide), wp_ite]
  cases hstop : c.has forceStopBit || c.has transSucBit with
  | true =>
    have hanswer : Answered c seq { c with ackInfoCollector := c.ackInfoCollector.getNextAck.2 } := by
      constructor
      · intro h
        rw [(AckInfoCollector.getNextAck_eq_self_iff _).2 (hiff.1 h).2]
      · intro h heq
        refine h (hiff.2 ⟨by simpa using hstop, ?_⟩)
        exact (AckInfoCollector.getNextAck_eq_self_iff _).1 (congrArg (fun p => p.2.2) heq)
    rw [if_pos (by simpa using hstop), ComplexConnection.readerAnswerStopped, wp_bind,
      ComplexConnection.nextAck, wp_modifyGet, wp_bind, wp_get, wp_ite]
    split
    · exact hanswer
    · exact hanswer
  | false =>
    rw [if_neg (by simpa using hstop), wp_bind, increaseRunningCount, wp_modify]
    refine wp_mono _ (hrest _) fun _ c' es h => ?_
    refine answered_of_counted (fun h => ?_) h
    have hor := (hiff.1 h).1
    rw [← Bool.or_eq_true, hstop] at hor
    cases hor

theorem answered_doNetworkData (c : Connection) (inc now seq sendTime : Nat) (data : List UInt8)
    (len : Int) :
    wp (doNetworkData inc now seq sendTime data len) (fun _ c' _ => Answered c seq c') c := by
  rw [doNetworkData, wp_bind, wp_get]
  cases hk : c.kind with
  | simpleWriter =>
    refine answered_writer (counted.bind counted.get fun _ => keeps_ite Counted.finish ?_)
      (by rw [hk]; rfl)
    exact counted.bind (Counted.setConnectionRTO _ _) fun _ => Counted.addToSenderQueue
  | complexWriter =>
    refine answered_writer (counted.bind counted.get fun _ => keeps_ite Counted.finish ?_)
      (by rw [hk]; rfl)
    exact counted.bind (Counted.testAndSet _) fun _ => counted.when <|
      counted.bind (Counted.setConnectionRTO _ _) fun _ => counted.bind (Counted.recordSack _) fun _ =>
      counted.bind (Counted.adjustWindow _ _) fun _ => counted.bind (Counted.testAndReset _) fun _ =>
      Counted.addToSenderQueue
  | simpleReader => exact answered_simpleReader sendTime data len hk
  | complexReader => exact answered_complexReader sendTime data len hk

/-! ### A datagram of any kind -/

theorem unchanged_iff {c₁ : Connection} (hp : c₁.pulse = c.pulse) (hr : c₁.AtRest seq ↔ c.AtRest seq)
    (h : Answered c₁ seq c') : c' = c ↔ c₁ = c ∧ c.AtRest seq := by
  constructor
  · rintro rfl
    by_cases hrest : c₁.AtRest seq
    · exact ⟨(h.1 hrest).symm, hr.1 hrest⟩
    · exact absurd hp.symm (h.2 hrest)
  · rintro ⟨heq, hrest⟩
    exact (h.1 (hr.2 hrest)).trans heq

theorem unchanged_connectionDoNetworkData (c : Connection) (inc now : Nat) (d : Datagram) (len : Int) :
    wp (ConM.connectionDoNetworkData inc now d len)
      (fun _ c' _ => c' = c ↔ c.NothingToAdopt d ∧ c.AtRest d.dtNote) c := by
  have hrun : ∀ c₁ : Connection, c₁.pulse = c.pulse → (c₁.AtRest d.dtNote ↔ c.AtRest d.dtNote) →
      (c₁ = c ↔ c.NothingToAdopt d) → wp (doNetworkData inc now d.dtNote d.sendTime d.data len)
        (fun _ c' _ => c' = c ↔ c.NothingToAdopt d ∧ c.AtRest d.dtNote) c₁ := by
    intro c₁ hp hr hadopt
    refine wp_mono _ (answered_doNetworkData c₁ inc now d.dtNote d.sendTime
      d.data len) fun _ c' _ h => ?_
    rw [unchanged_iff hp hr h, hadopt]
  rw [ConM.connectionDoNetworkData, wp_bind, wp_when]
  split
  · rename_i hseq
    have hdata : c.NothingToAdopt d = (c.has inRecvWaitAckQueueBit = false) →
        wp (doNetworkData inc now d.dtNote d.sendTime d.data len)
          (fun _ c' _ => c' = c ↔ c.NothingToAdopt d ∧ c.AtRest d.dtNote)
          { c with status := (c.status.testAndReset inRecvWaitAckQueueBit).2 } := by
      intro hnone
      refine hrun _ rfl (by simp [AtRest]) ?_
      rw [hnone, ← Word.testAndReset_eq_self_iff c.status (by decide)]
      exact ⟨fun heq => congrArg (fun c => c.status) heq, fun heq => by rw [heq]⟩
    have hack : c.NothingToAdopt d = (c.id1 = d.fromId) →
        wp (doNetworkData inc now d.dtNote d.sendTime d.data len)
          (fun _ c' _ => c' = c ↔ c.NothingToAdopt d ∧ c.AtRest d.dtNote)
            { c with id1 := d.fromId } := by
      intro hnone
      refine hrun _ rfl Iff.rfl ?_
      rw [hnone]
      exact ⟨fun heq => (congrArg (fun c => c.id1) heq).symm, fun heq => by rw [← heq]⟩
    have hidle : c.NothingToAdopt d = True → wp (doNetworkData inc now d.dtNote d.sendTime d.data len)
        (fun _ c' _ => c' = c ↔ c.NothingToAdopt d ∧ c.AtRest d.dtNote) c :=
      fun hnone => hrun c rfl Iff.rfl (by simp [hnone])
    have hnothing : c.NothingToAdopt d = match d.msgType with
        | .simpleFileData | .complexFileData => c.has inRecvWaitAckQueueBit = false
        | .simpleFileAck | .complexFileAck | .complexFileSack => c.id1 = d.fromId
        | _ => True := by simp [NothingToAdopt, hseq]
    rw [wp_adoptPeer]
    cases hm : d.msgType <;> rw [hm] at hnothing
    all_goals first | exact hdata hnothing | exact hack hnothing | exact hidle hnothing
  · rename_i hseq
    exact hrun c rfl Iff.rfl (by simp [NothingToAdopt, hseq])

namespace Endpoint
variable {s : Endpoint} {o : Object} {d : Datagram}

theorem object_runOn {x : ConM Unit} (ho : s.object o.addr = some o)
    (hx : wp x (fun _ c' es => Local o.con c' es) o.con) :
    (s.runOn o x).object o.addr = some { o with con := (exec x o.con).1 } := by
  have hstore : ∀ heap : List Object, heap.find? (·.addr = o.addr) = some o →
      (heap.map fun q => if q.addr = o.addr then { q with con := (exec x o.con).1 }
        else q).find? (·.addr = o.addr) = some { o with con := (exec x o.con).1 } := by
    intro heap
    induction heap with
    | nil => intro h; cases h
    | cons q heap ih =>
      intro h
      by_cases hq : q.addr = o.addr
      · simp only [List.find?_cons, hq, decide_true, Option.some.injEq] at h
        simp [h]
      · simp only [List.find?_cons, hq, decide_false] at h
        simp [hq, ih h]
  rw [object, (runOn_touched hx).heap]
  exact hstore s.heap ho

theorem filterData_delivered {r : KernelRecvData} (hd : s.delivered r = some (o, d)) (e : RecvEnv) :
    ∃ len, (s.filterData r e).1 = s.runOn o (ConM.connectionDoNetworkData e.inc e.now d len) := by
  obtain ⟨t, ht, h⟩ := Option.bind_eq_some_iff.1 hd
  split at h
  · rename_i htarget
    obtain ⟨o', ho, heq⟩ := Option.map_eq_some_iff.1 h
    cases heq
    refine ⟨(unfillHeader t r).2, ?_⟩
    rw [filterData, ht, filterMsg, htarget]
    simp only [connectionDoNetworkData, ho, dispatch]
  · cases h

/-- A connection is safe from datagrams of the wrong kind if and only if they come when it is at
rest and has nothing to adopt. -/
theorem unchanged_unless_fits_iff {r : KernelRecvData} (hd : s.delivered r = some (o, d))
    (e : RecvEnv) :
    (d.msgType.fits o.con.kind = false → (s.filterData r e).1.object o.addr = some o) ↔
      (d.msgType.fits o.con.kind = false → o.con.NothingToAdopt d ∧ o.con.AtRest d.dtNote) := by
  obtain ⟨len, heq⟩ := filterData_delivered hd e
  have hobj : s.object o.addr = some o := by
    obtain ⟨hslot, -⟩ := delivered_some hd
    have hcid := (inSlot_some hslot).2
    rwa [inSlot, hcid] at hslot
  have hiff : (exec (ConM.connectionDoNetworkData e.inc e.now d len) o.con).1 = o.con ↔
      o.con.NothingToAdopt d ∧ o.con.AtRest d.dtNote :=
        unchanged_connectionDoNetworkData o.con e.inc e.now d len
  have hsome : (some
      { o with con := (exec (ConM.connectionDoNetworkData e.inc e.now d len) o.con).1 } = some o) ↔
        (exec (ConM.connectionDoNetworkData e.inc e.now d len) o.con).1 = o.con :=
    ⟨fun h => congrArg Object.con (Option.some.inj h), fun h => by rw [h]⟩
  rw [heq, object_runOn hobj (Local.connectionDoNetworkData e.inc e.now d len o.con), hsome, hiff]

/-- The first data packet of a simple file, addressed to connection 1. -/
def strayData : Datagram := ⟨.simpleFileData, 1, 5, 0, 0, []⟩

/-- Nobody asks for anything. -/
def noEnv : RecvEnv := ⟨none, false, none, none, 0, 0⟩

/-- A writer whose first packet was acknowledged does not mind a stray data packet. -/
theorem unchanged_unless_fits_iff_old :
    ∃ (s : Endpoint) (o : Object) (d : Datagram), s.delivered (strayData.received 0) = some (o, d) ∧
      d.msgType.fits o.con.kind = false ∧
      (s.filterData (strayData.received 0) noEnv).1.object o.addr = some o := by
  have hrun : ((machine.run (start 1 0) [
      .startSender ⟨[], some (List.replicate 3000 0), 3000, 0, .noDeleteAfterSend, none, 0, 0⟩ 7 9,
      .recv (Datagram.received ⟨.simpleFileAck, 1, 5, 0, 1452, []⟩ 0) noEnv]).bind fun s =>
        (s.delivered (strayData.received 0)).map fun p =>
          (p.1.con.kind, p.1.con.leftWindowCursor, p.1.con.tryTime, p.2.msgType, p.2.dtNote)) =
            some (.simpleWriter, 1452, 0, .simpleFileData, 0) := by decide +kernel
  obtain ⟨s, -, hs⟩ := Option.bind_eq_some_iff.1 hrun
  obtain ⟨⟨o, d⟩, hd, hres⟩ := Option.map_eq_some_iff.1 hs
  simp only [Prod.mk.injEq] at hres
  obtain ⟨hk, hleft, htry, hmsg, hseq⟩ := hres
  have hfits : d.msgType.fits o.con.kind = false := by rw [hk, hmsg]; rfl
  refine ⟨s, o, d, hd, hfits, (unchanged_unless_fits_iff hd noEnv).2 (fun _ => ⟨?_, ?_⟩) hfits⟩
  · simp [NothingToAdopt, hseq]
  · simp [AtRest, hk, hleft, htry, hseq]

/-- A new writer takes a stray data packet for an ack. -/
theorem exists_changed_by_stray :
    ∃ s o d, machine.Reach s ∧ s.delivered (strayData.received 0) = some (o, d) ∧
      d.msgType.fits o.con.kind = false ∧
      (s.filterData (strayData.received 0) noEnv).1.object o.addr ≠ some o := by
  have hrun : (machine.run (start 1 0) [.startSender smallSend 7 9]).map (fun s =>
      (s.delivered (strayData.received 0)).map fun p =>
        (p.2.msgType.fits p.1.con.kind, p.1.con.runningCount,
          ((s.filterData (strayData.received 0) noEnv).1.object p.1.addr).map
            (·.con.runningCount))) =
      some (some (false, 0, some 1)) := by decide +kernel
  obtain ⟨s, hs, hres⟩ := Option.map_eq_some_iff.1 hrun
  obtain ⟨⟨o, d⟩, hd, hres⟩ := Option.map_eq_some_iff.1 hres
  simp only [Prod.mk.injEq] at hres
  refine ⟨s, o, d, Machine.ReachUnder.run (M := machine) (.init ⟨1, by decide, 0, rfl⟩) hs,
    hd, hres.1, fun heq => ?_⟩
  rw [heq, Option.map_some, hres.2.1] at hres
  cases hres.2.2

end Endpoint

end Resend.Udp

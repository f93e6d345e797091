import Resend.Udp.WriterCursors

/-!
# The loop of the complex sender, step by step

The sender thread of a complex writer with the loop of `_writer_conneciton_do_send` cut into its loop
test, `process_sender_msg_bit`, the packet and the cursor; acks and timeouts are handled between any two
of these steps. `process_sender_msg_bit` runs after the test, so a cursor that it restores is sent from
without being compared with the length: `InBounds` is the condition that this does no harm.
-/

namespace Resend.Udp
open Handler Connection ConM

namespace SenderLoop
open ComplexConnection

/-! ### The machine -/

/-- Where the sender thread is; the number is that of the packets it may still send. -/
inductive Pc
  | idle
  | process
  | test (n : Nat)
  | processAgain (n : Nat)
  | build (n : Nat)
  | advance (n : Nat)
deriving DecidableEq

structure State where
  life : Life
  pc : Pc

inductive Act
  | handler (act : Life.Act)
  | sender (now : Nat)

/-- What `connection_do_sender` does after `_do_send`. -/
def leave : ConM Unit := do
  let _ ← testAndReset inSenderBit
  let back ← testAndReset rebackSenderBit
  when (back = 1) addToSenderQueue

/-- The next step of the sender thread. -/
def senderStep (s : State) (now : Nat) : Option State :=
  match s.pc with
  | .idle =>
    if s.life.queued = 0 then none
    else
      let l := { s.life with queued := s.life.queued - 1 }
      if l.slot = .live then
        if l.con.has forceStopBit then some ⟨l.ran (connectionDoSender fun _ => now), .idle⟩
        else some ⟨l.ran (do let _ ← testAndReset rebackSenderBit), .process⟩
      else some ⟨l, .idle⟩
  | .process => some ⟨s.life.ran processSenderMsgBit, .test 16⟩
  | .test n =>
    if canSend s.life.con then some { s with pc := .processAgain n }
    else some ⟨s.life.ran (do armKeepingTimer; leave), .idle⟩
  | .processAgain 0 => some ⟨s.life.ran (do processSenderMsgBit; rebackSender; leave), .idle⟩
  | .processAgain (n + 1) => some ⟨s.life.ran processSenderMsgBit, .build n⟩
  | .build n => some ⟨s.life.ran (buildAndSend now), .advance n⟩
  | .advance n => some ⟨s.life.ran advanceCursor, .test n⟩

/-- Any other dispatcher than the sender's. -/
def isHandler : Life.Act → Bool
  | .sender _ => false
  | _ => true

/-- One writer whose readers are honest. The sender thread goes on while the connection is allocated. -/
def machine (a : SendArgs) (id0 id1 : Nat) : Machine State Act where
  init s := s = ⟨Life.startSender a id0 id1, .idle⟩
  step s
    | .handler act =>
      if isHandler act ∧ s.life.Honest act then (s.life.step act).map fun l => { s with life := l }
      else none
    | .sender now => if s.life.slot = .null then none else senderStep s now

/-- Every data packet that went out is one of the block. -/
def ValidPackets (a : SendArgs) (l : Life) : Prop :=
  ∀ es ∈ l.history, ∀ e ∈ es, ∀ seq, e.dataSeq = some seq → e.Valid a seq

/-- A cursor that `process_sender_msg_bit` restores after the loop test is inside the block, and neither
the current cursor nor an ack wraps past `2 ^ 32`. -/
def InBounds (s : State) : Act → Prop
  | .handler (.networkData _ _ d _) => packetMaxDataLength ∣ d.dtNote
  | .handler _ => True
  | .sender _ =>
    match s.pc with
    | .processAgain (_ + 1) =>
      if s.life.con.has sackHasNewAckBit then
        s.life.con.oldCurrentWindowCursor < s.life.con.transmitBufLength
      else s.life.con.has hasTimeOutBit ∨ s.life.con.has hasSackBit →
        s.life.con.leftWindowCursor < s.life.con.transmitBufLength
    | .advance _ => s.life.con.currentWindowCursor + packetMaxDataLength < 2 ^ 32
    | _ => True

instance (s : State) (act : Act) : Decidable (InBounds s act) := by
  unfold InBounds
  split
  · infer_instance
  · infer_instance
  · split
    · infer_instance
    · infer_instance
    · infer_instance

/-! ### The invariant -/

/-- The thread is past the loop test of this round. -/
def Pc.inLoop : Pc → Bool
  | .processAgain _ | .build _ | .advance _ => true
  | _ => false

structure Inv (a : SendArgs) (s : State) : Prop where
  emits : s.life.Emits a
  cursors : s.life.slot ≠ .null → Cursors a s.life.con
  inside : s.life.slot ≠ .null → s.pc.inLoop = true → s.life.con.currentWindowCursor < a.blockLength

section inv
variable {a : SendArgs} {l : Life} {pc pc' : Pc} {x : ConM Unit}

/-- A handler that only moves cursors, with the sender staying where it is or leaving the loop. -/
theorem Inv.ofMoves (h : l.Emits a) (hc : Cursors a l.con)
    (hin : pc.inLoop = true → l.con.currentWindowCursor < a.blockLength) {seq : Nat}
    (hseq : Boundary seq) (hx : wp x (fun _ c' es => Moves seq l.con c' es) l.con) :
    Inv a ⟨l.ran x, pc⟩ := by
  refine ⟨h.ran fun d addr hd => Datagram.packetOf_reset (hx.silent d addr hd),
    fun _ => ?_, fun _ hp => ?_⟩
  · rw [Life.con_ran]; exact hc.moves hseq hx
  · rw [Life.con_ran, show (exec x l.con).1.currentWindowCursor = _ from hx.cur]; exact hin hp

theorem Inv.ofSilent (h : l.Emits a) {c' : Connection}
    (hx : wp x (fun _ c es => es = [] ∧ c = c') l.con) (hc : Cursors a c')
    (hin : pc.inLoop = true → c'.currentWindowCursor < a.blockLength) : Inv a ⟨l.ran x, pc⟩ := by
  obtain ⟨hes, rfl⟩ := hx
  refine ⟨h.ran fun d addr hd => ?_, fun _ => ?_, fun _ hp => ?_⟩
  · rw [show (exec x l.con).2 = [] from hes] at hd; cases hd
  · rw [Life.con_ran]; exact hc
  · rw [Life.con_ran]; exact hin hp

theorem leave_moves : Keeps (Moves 0) leave :=
  (moves 0).bind ((moves 0).reset (by decide) (by decide)) fun _ =>
  (moves 0).bind ((moves 0).reset (by decide) (by decide)) fun _ =>
    (moves 0).when (moves 0).addToSenderQueue

theorem suspendTimeOut (h : l.Emits a) (hc : Cursors a l.con)
    (hin : pc.inLoop = true → l.con.currentWindowCursor < a.blockLength) (rc : Nat) :
    Inv a ⟨l.ran (doTimeOut .connectionSuspendTimer rc), pc⟩ := by
  rcases suspendTimeOut_cases hc.writer hc.type rc with hx | hx
  · exact .ofMoves h hc hin boundary_zero hx
  · have hslot : (l.ran (doTimeOut .connectionSuspendTimer rc)).slot = .null := by
      rw [Life.slot_ran]; exact hx.slot _
    exact ⟨h.ran fun d addr hd => absurd hd (hx.silent d addr), fun hn => absurd hslot hn,
      fun hn => absurd hslot hn⟩

theorem Inv.handler {s : State} {act : Life.Act} {l' : Life} (h : Inv a s)
    (hack : InBounds s (.handler act)) (hact : isHandler act = true) (hh : s.life.Honest act)
    (hs : s.life.step act = some l') : Inv a { s with life := l' } := by
  obtain ⟨l, pc⟩ := s
  obtain ⟨hp, hc, hin⟩ := h
  have hlive : l.slot = .live → l.slot ≠ .null := fun h => by rw [h]; decide
  simp only at hs hp hc hin hh ⊢
  cases act with
  | networkData inc now d len =>
    simp only [Life.step] at hs
    split at hs <;> cases hs
    rename_i hl
    obtain ⟨⟨-, k, -, -, hseq, -⟩, -⟩ := hh
    have hseq : Boundary d.dtNote := ⟨hack, by rw [hseq]; exact u32_lt _⟩
    have hl := hlive hl.1
    exact .ofMoves hp (hc hl) (hin hl) hseq (Moves.connectionDoNetworkData (hc hl).writer inc now d len)
  | reset msgType =>
    simp only [Life.step] at hs
    split at hs <;> cases hs
    rename_i hl
    exact .ofMoves hp (hc (hlive hl)) (hin (hlive hl)) boundary_zero
      ((moves 0).connectionDoConnectionReset msgType _)
  | stop =>
    simp only [Life.step] at hs
    split at hs <;> cases hs
    rename_i hl
    exact .ofMoves hp (hc (hlive hl)) (hin (hlive hl)) boundary_zero
      ((moves 0).connectionDoConnectionStop _)
  | timeOut j =>
    simp only [Life.step] at hs
    split at hs
    · cases hs
    rename_i t rc ht
    split at hs <;> cases hs
    · exact ⟨hp, fun hn => absurd ‹_› hn, fun hn => absurd ‹_› hn⟩
    · rename_i hn
      by_cases htimer : t = .connectionSuspendTimer
      · subst htimer
        exact suspendTimeOut (l := { l with timers := l.timers.eraseIdx j }) hp (hc hn) (hin hn) rc
      · exact .ofMoves (l := { l with timers := l.timers.eraseIdx j }) hp (hc hn) (hin hn) boundary_zero
          (Moves.doTimeOut (hc hn).writer htimer rc)
  | sender clock => cases hact

theorem stopped_moves {c : Connection} (hk : c.kind = .complexWriter)
    (hstop : c.has forceStopBit = true) (clock : Nat → Nat) :
    wp (connectionDoSender clock) (fun _ c' es => Moves 0 c c' es) c := by
  have h0 : wp (ConM.testAndReset rebackSenderBit) (fun _ c' es => Moves 0 c c' es ∧ Quiet c c' es) c :=
    ⟨(moves 0).reset (by decide) (by decide) c, quiet.reset (by decide) (by decide) c⟩
  rw [connectionDoSender, wp_bind]
  refine wp_mono _ h0 fun _ c₁ es₁ hrun => ?_
  obtain ⟨h1, hq⟩ := hrun
  have hstop₁ : c₁.has forceStopBit = true := (hq.bits _ (by decide)).trans hstop
  rw [wp_bind, doSend, wp_bind, wp_get, hq.source.kind, hk]
  show wp (writerConnectionDoSend clock) _ c₁
  rw [writerConnectionDoSend, wp_bind, wp_bitTest (by decide), wp_ite, if_pos (by rw [hstop₁]; rfl)]
  refine wp_mono _ ((moves 0).transSuspend c₁) fun _ c₂ es₂ h2 => ?_
  exact wp_mono _ (leave_moves c₂) fun _ c₃ es₃ h3 => (moves 0).trans h1 ((moves 0).trans h2 h3)

theorem Inv.sender (ha : a.WF) (hlen : smallFileMaxSize < a.blockLength) {s s' : State} {now : Nat}
    (h : Inv a s) (hb : InBounds s (.sender now)) (hslot : s.life.slot ≠ .null)
    (hs : senderStep s now = some s') : Inv a s' := by
  obtain ⟨l, pc⟩ := s
  obtain ⟨hp, hc, hin⟩ := h
  simp only at hp hslot hc hin
  have hc := hc hslot
  have hin := hin hslot
  cases pc with
  | idle =>
    simp only [senderStep] at hs
    split at hs
    · cases hs
    split at hs
    · split at hs <;> cases hs
      · have hk : l.con.kind = .complexWriter := hc.kind.trans (if_neg (Nat.not_le.2 hlen))
        exact .ofMoves (l := { l with queued := l.queued - 1 }) hp hc
          (by simp [Pc.inLoop]) boundary_zero (stopped_moves hk ‹_› _)
      · have hx : Keeps (Moves 0) (do let _ ← testAndReset rebackSenderBit : ConM Unit) :=
          (moves 0).bind ((moves 0).reset (by decide) (by decide)) fun _ => (moves 0).pure _
        exact .ofMoves (l := { l with queued := l.queued - 1 }) hp hc
          (by simp [Pc.inLoop]) boundary_zero (hx _)
    · cases hs
      exact ⟨hp, fun _ => hc, fun _ => hin⟩
  | process =>
    cases hs
    have hx := process_cursors hc
    exact .ofSilent hp ⟨hx.1, rfl⟩ hx.2.1 (by simp [Pc.inLoop])
  | test n =>
    simp only [senderStep] at hs
    split at hs <;> cases hs
    · rename_i hcan
      exact ⟨hp, fun _ => hc, fun _ _ => hc.len ▸ hcan.2⟩
    · have hx : Keeps (Moves 0) (do armKeepingTimer; leave) :=
        (moves 0).bind (moves 0).armKeepingTimer fun _ => leave_moves
      exact .ofMoves hp hc (by simp [Pc.inLoop]) boundary_zero (hx _)
  | processAgain n =>
    have hproc := process_cursors hc
    cases n with
    | zero =>
      cases hs
      have hrest : Keeps (Moves 0) (do rebackSender; leave) :=
        (moves 0).bind (moves 0).rebackSender fun _ => leave_moves
      have hx : wp (do processSenderMsgBit; rebackSender; leave)
          (fun _ c' es => (∀ d addr, Effect.kernelSend d addr ∈ es → d.msgType = .transReset) ∧
            Cursors a c') l.con := by
        rw [wp_bind]
        refine wp_mono _ hproc fun _ c₁ es₁ ⟨hes, h1, _⟩ => ?_
        refine wp_mono _ (hrest c₁) fun _ c₂ es₂ h2 => ?_
        rw [hes]
        exact ⟨h2.silent, h1.moves boundary_zero h2⟩
      refine ⟨hp.ran fun d addr hd => Datagram.packetOf_reset (hx.1 d addr hd), fun _ => ?_,
        fun _ hpc => (by cases hpc)⟩
      rw [Life.con_ran]; exact hx.2
    | succ n =>
      cases hs
      refine .ofSilent hp ⟨hproc.1, rfl⟩ hproc.2.1 fun _ => ?_
      have hin := hin rfl
      refine lt_of_eq_of_lt (congrArg SendWindow.cur hproc.2.2) ?_
      simp only [InBounds, hc.len] at hb
      rcases l.con.window.process_cur with ⟨hn, hcur⟩ | ⟨hn, hbits, hcur⟩ | hcur <;> rw [hcur]
      · rw [if_pos (show l.con.has sackHasNewAckBit = true from hn)] at hb
        exact hb
      · have hn : l.con.has sackHasNewAckBit = false := hn
        rw [if_neg (by simp [hn])] at hb
        exact Nat.lt_of_le_of_lt (u32_le _) (hb hbits)
      · exact hin
  | build n =>
    cases hs
    have hx := buildAndSend_packetOf hc ha hlen (hin rfl) now
    refine ⟨hp.ran hx.1, fun _ => ?_, fun _ _ => ?_⟩
    · rw [Life.con_ran]; exact hx.2.1
    · rw [Life.con_ran, show (exec (buildAndSend now) l.con).1.currentWindowCursor = _ from
        congrArg SendWindow.cur hx.2.2]
      exact hin rfl
  | advance n =>
    cases hs
    have hx := advance_cursors hc hb
    exact .ofSilent hp ⟨hx.1, rfl⟩ hx.2.1 (by simp [Pc.inLoop])

theorem inv_init (a : SendArgs) (id0 id1 : Nat) : Inv a ⟨Life.startSender a id0 id1, .idle⟩ :=
  .ofMoves (l := ⟨newWriter a id0 id1, .live, [], 0, []⟩) (by simp [Life.Emits]) (.start a id0 id1)
    (by simp [Pc.inLoop]) boundary_zero ((moves 0).addToSenderQueue _)

theorem Inv.valid {s : State} (h : Inv a s) : ValidPackets a s.life := by
  intro es hes e he seq hseq
  cases e with
  | kernelSend d addr => exact (h.emits es hes d addr he).valid hseq
  | _ => cases hseq

end inv

/-- In a run that stays in bounds the complex sender sends nothing but the packets of its block. -/
theorem validPackets_of_inBounds {a : SendArgs} {id0 id1 : Nat} (ha : a.WF)
    (hlen : smallFileMaxSize < a.blockLength) {s : State}
    (h : (machine a id0 id1).ReachUnder InBounds s) :
    ValidPackets a s.life := by
  refine (h.invariant (I := Inv a) (fun s hs => ?_) ?_).valid
  · cases hs
    exact inv_init a id0 id1
  intro s act s' hi hb hs
  cases act with
  | handler act =>
    simp only [machine] at hs
    split at hs
    · rename_i hh
      obtain ⟨l', hstep, rfl⟩ := Option.map_eq_some_iff.1 hs
      exact hi.handler hb hh.1 hh.2 hstep
    · cases hs
  | sender now =>
    simp only [machine] at hs
    split at hs
    · cases hs
    · exact hi.sender ha hlen hb ‹_› hs

/-- An ack for writer 1 from reader 2. -/
def ack (seq : Nat) : Act := .handler (.networkData 0 0 ⟨.complexFileAck, 1, 2, 0, seq, []⟩ 0)

/-- The next `n` steps of the sender thread. -/
def sends (n : Nat) : List Act := List.replicate n (.sender 0)

/-- Three packets go out, with an ack between the test and the first packet of the second run. -/
theorem validPackets_of_inBounds_three :
    ∃ s, (machine shortestComplex 1 0).ReachUnder InBounds s ∧ s.life.sentSeqs = [2904, 1452, 0] ∧
      ValidPackets shortestComplex s.life := by
  have hrun : ((machine shortestComplex 1 0).runUnder InBounds
    ⟨Life.startSender shortestComplex 1 0, .idle⟩
      (sends 7 ++ ack 1452 :: sends 3 ++ ack 1452 :: sends 7)).map (fun s => s.life.sentSeqs) =
      some [2904, 1452, 0] := by decide +kernel
  obtain ⟨s, hs, hsent⟩ := Option.map_eq_some_iff.1 hrun
  have hreach := Machine.ReachUnder.run (.init rfl) hs
  exact ⟨s, hreach, hsent, validPackets_of_inBounds shortestComplex_wf (by decide) hreach⟩

/-- All packets are out when the third equal ack of packet 5 comes in. The sender goes back to it
and has passed the loop test when packet 5 is acknowledged: it returns to the old cursor, past the
end, and sends from there. -/
def pastTheEnd : List Act :=
  sends 7 ++ [ack 1452, ack 1452] ++ sends 19 ++ [ack 7260, ack 7260] ++ sends 51 ++
    ack 7260 :: sends 3 ++ ack 8712 :: sends 2

theorem exists_invalidPacket :
    ¬ ∀ (a : SendArgs) (id0 id1 : Nat), a.WF → smallFileMaxSize < a.blockLength →
      ∀ s, (machine a id0 id1).Reach s → ValidPackets a s.life := by
  intro hall
  have hrun : ((machine shortestComplex 1 0).run ⟨Life.startSender shortestComplex 1 0,
    .idle⟩ pastTheEnd).map
      (fun s => s.life.history.head?.map (List.filterMap Effect.dataSeq)) = some (some [24684]) :=
        by decide +kernel
  obtain ⟨s, hs, hhead⟩ := Option.map_eq_some_iff.1 hrun
  obtain ⟨es, hes, hseq⟩ := Option.map_eq_some_iff.1 hhead
  obtain ⟨e, he, hseq⟩ := List.mem_filterMap.1
    (show 24684 ∈ es.filterMap Effect.dataSeq by rw [hseq]; simp)
  have hvalid := hall _ _ _ shortestComplex_wf (by decide) s (Machine.ReachUnder.run (.init rfl) hs) es
    (List.mem_of_mem_head? hes) e he _ hseq
  exact absurd hvalid.lt (by decide)

end SenderLoop

end Resend.Udp

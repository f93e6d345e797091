import Resend.Udp.WriterSteps

/-!
# How a send ends

A writer ends with the first of: the final ack, a reset, a rejection, a forced stop, the seventh
timeout. In runs in which no seventh timeout reaches a writer that is already suspended, every callback
is called once, in the step that releases the slot, with the code of the first terminal event.
-/

namespace Resend.Udp
open Handler Connection ConM

/-! ### The machine -/

namespace SendOutcome

/-- The terminal event that an enabled step is, if it is one. -/
def terminalEvent (l : Life) : Life.Act → Option TransResultCode
  | .networkData _ _ d _ => if l.con.finalAck d.dtNote then some .successfully else none
  | .reset msgType => some (if msgType = .transReset then .reset else .rejected)
  | .stop => some .forceStop
  | .timeOut j =>
    match l.timers[j]? with
    | some (t, runningCount) =>
      if l.slot ≠ .null ∧ l.con.seventhTimeOut t runningCount then some .timeOut else none
    | none => none
  | .sender _ => none

/-- One writer, with the code of its first terminal event. -/
def machine (a : SendArgs) (id0 id1 : Nat) : Machine (Life × Option TransResultCode) Life.Act where
  init s := s = (Life.startSender a id0 id1, none)
  step s act := (s.1.step act).map fun l => (l, s.2.or (terminalEvent s.1 act))

/-- The callbacks among the effects of a step: which one, its data and the result code. -/
def calls (es : List Effect) : List (Nat × List UInt8 × TransResultCode) :=
  es.filterMap fun
    | .sendHandle h data code => some (h, data, code)
    | _ => none

/-- One call of every callback of the send. -/
def callbacks (a : SendArgs) (code : TransResultCode) : List (Nat × List UInt8 × TransResultCode) :=
  if a.node ≠ [] then a.node.flatMap fun n => n.sendHandle.toList.map fun h => (h, n.sourceData, code)
  else a.handler.toList.map fun h => (h, a.block.getD [], code)

/-- No callback before the slot is released; the releasing step calls each of them once, with the code
of the first terminal event. -/
structure Outcome (a : SendArgs) (s : Life × Option TransResultCode) : Prop where
  before : s.1.slot ≠ .null → s.1.history.flatMap calls = []
  after : s.1.slot = .null → ∃ code, s.2 = some code ∧ s.1.history.flatMap calls = callbacks a code
  released : ∀ es ∈ s.1.history, calls es ≠ [] → ∃ off, Effect.releaseConnectionID off ∈ es

/-- No seventh timeout reaches a writer that is suspended already. -/
def NoLateTimeOut (s : Life × Option TransResultCode) (act : Life.Act) : Prop :=
  ¬ (s.1.slot = .suspended ∧ terminalEvent s.1 act = some .timeOut)

instance (s : Life × Option TransResultCode) (act : Life.Act) : Decidable (NoLateTimeOut s act) :=
  inferInstanceAs (Decidable (¬ _))

/-! ### The invariant -/

section inv
variable {a : SendArgs} {l : Life} {f : Option TransResultCode} {x : ConM Unit} {c' : Connection}
  {es : List Effect}

/-- The connection while it has a slot. -/
structure Open (a : SendArgs) (l : Life) (f : Option TransResultCode) : Prop where
  writer : l.con.kind.isWriter = true
  type : l.con.has connectionTypeBit = true
  node : l.con.transMessageNode = a.node
  buf : l.con.transmitBuf = a.block
  handle : l.con.sendedHandle = a.handler
  suc : l.con.has transSucBit = false
  live : l.slot = .live → f = none ∧ l.con.has bufCleanBit = false ∧ l.con.has forceStopBit = false ∧
    ∀ p ∈ l.timers, p.1 ≠ .connectionSuspendTimer
  suspended : l.slot = .suspended → f = some l.con.transResultCode ∧ l.con.has bufCleanBit = true

structure Inv (a : SendArgs) (s : Life × Option TransResultCode) : Prop where
  isOpen : s.1.slot ≠ .null → Open a s.1 s.2
  outcome : Outcome a s

theorem calls_append (es es' : List Effect) : calls (es ++ es') = calls es ++ calls es' :=
  List.filterMap_append

theorem calls_eq_nil (h : ∀ e ∈ es, e.quiet = true ∨ (∃ off, e = .suspendConnectionID off) ∨
    ∃ due rc off, e = .addTimer due .connectionSuspendTimer rc off) : calls es = [] := by
  refine List.filterMap_eq_nil_iff.2 fun e he => ?_
  rcases h e he with h | ⟨_, rfl⟩ | ⟨_, _, _, rfl⟩
  · cases e <;> first | rfl | simp [Effect.quiet] at h
  · rfl
  · rfl

theorem Outcome.silent (h : Outcome a (l, f)) (hslot : l.slot ≠ .null) {l' : Life}
    {f' : Option TransResultCode} (hslot' : l'.slot ≠ .null) (hh : l'.history = es :: l.history)
    (hes : calls es = []) : Outcome a (l', f') := by
  refine ⟨fun _ => ?_, fun h0 => absurd h0 hslot', fun es' hes' hc => ?_⟩
  · rw [hh, List.flatMap_cons, hes, h.before hslot, List.append_nil]
  · rw [hh] at hes'
    rcases List.mem_cons.1 hes' with rfl | hes'
    · exact absurd hes hc
    · exact h.released es' hes' hc

theorem Inv.quiet (h : Inv a (l, f)) (hslot : l.slot ≠ .null)
    (hx : wp x (fun _ c' es => Quiet l.con c' es) l.con) : Inv a (l.ran x, f) := by
  have ho := h.isOpen hslot
  have hs : (l.ran x).slot = l.slot := by rw [Life.slot_ran]; exact foldl_slotAfter_quiet hx.effects _
  refine ⟨fun _ => ?_, h.outcome.silent hslot (hs ▸ hslot) (Life.history_ran _ _)
    (calls_eq_nil fun e he => .inl (hx.effects e he))⟩
  refine ⟨?_, ?_, ?_, ?_, ?_, ?_, fun hl => ?_, fun hl => ?_⟩
  · rw [Life.con_ran]; exact hx.source.kind ▸ ho.writer
  · rw [Life.con_ran]; exact (hx.bits _ (by decide)).trans ho.type
  · rw [Life.con_ran]; exact hx.source.node.trans ho.node
  · rw [Life.con_ran]; exact hx.source.buf.trans ho.buf
  · rw [Life.con_ran]; exact hx.source.handle.trans ho.handle
  · rw [Life.con_ran]; exact (hx.bits _ (by decide)).trans ho.suc
  · obtain ⟨h1, h2, h3, h4⟩ := ho.live (hs ▸ hl)
    rw [Life.con_ran, Life.timers_ran]
    refine ⟨h1, (hx.bits _ (by decide)).trans h2, (hx.bits _ (by decide)).trans h3, fun p hp => ?_⟩
    rcases List.mem_append.1 hp with hp | hp
    exacts [h4 p hp, Life.Sending.armed_quiet hx.effects hp]
  · obtain ⟨h1, h2⟩ := ho.suspended (hs ▸ hl)
    rw [Life.con_ran]
    exact ⟨h1.trans (congrArg some hx.code.symm), (hx.bits _ (by decide)).trans h2⟩

theorem Inv.ended (h : Inv a (l, f)) (hlive : l.slot = .live) {code : TransResultCode}
    (hx : wp x (fun _ c' es => Ended code l.con c' es) l.con) : Inv a (l.ran x, some code) := by
  have hslot : l.slot ≠ .null := by rw [hlive]; decide
  have ho := h.isOpen hslot
  have hs : (l.ran x).slot = .suspended := by rw [Life.slot_ran]; exact hx.slot (ho.live hlive).2.1 _
  refine ⟨fun _ => ?_, h.outcome.silent hslot (by rw [hs]; decide) (Life.history_ran _ _)
    (calls_eq_nil hx.effects)⟩
  refine ⟨?_, ?_, ?_, ?_, ?_, ?_, fun hl => ?_, fun _ => ?_⟩
  · rw [Life.con_ran]; exact hx.source.kind ▸ ho.writer
  · rw [Life.con_ran]; exact hx.type.trans ho.type
  · rw [Life.con_ran]; exact hx.source.node.trans ho.node
  · rw [Life.con_ran]; exact hx.source.buf.trans ho.buf
  · rw [Life.con_ran]; exact hx.source.handle.trans ho.handle
  · rw [Life.con_ran]; exact hx.suc.trans ho.suc
  · rw [hs] at hl; cases hl
  · rw [Life.con_ran]
    exact ⟨congrArg some hx.code.symm, hx.clean⟩

theorem calls_nodeDone (code : TransResultCode) (ns : List MessageNode) :
    calls (ns.flatMap (nodeDone code)) =
      ns.flatMap fun n => n.sendHandle.toList.map fun h => (h, n.sourceData, code) := by
  induction ns with
  | nil => rfl
  | cons n ns ih =>
    have hn : calls (nodeDone code n) = n.sendHandle.toList.map fun h => (h, n.sourceData, code) := by
      unfold nodeDone
      cases n.sendHandle <;> split <;> rfl
    rw [List.flatMap_cons, List.flatMap_cons, calls_append, ih, hn]

theorem calls_writerDone {c : Connection} (hn : c.transMessageNode = a.node)
    (hb : c.transmitBuf = a.block) (hh : c.sendedHandle = a.handler) :
    calls (writerDone c) = callbacks a c.transResultCode := by
  unfold writerDone callbacks
  rw [hn, hb, hh]
  split
  · rw [calls_append, calls_nodeDone]
    have : calls (a.node.map .freeMessageNode) = [] :=
      List.filterMap_eq_nil_iff.2 fun e he => by obtain ⟨n, -, rfl⟩ := List.mem_map.1 he; rfl
    rw [this, List.append_nil]
  · cases a.handler with
    | none => rfl
    | some h => dsimp only; split <;> first | rfl | (split <;> rfl)

theorem slotAfter_writerDone (c : Connection) (slot : Slot) :
    (writerDone c ++ [Effect.releaseConnectionID c.offset,
      .freeConnection]).foldl Life.slotAfter slot = .null := by
  rw [List.foldl_append]; rfl

theorem Inv.done (h : Inv a (l, f)) (hsus : l.slot = .suspended) (runningCount : Nat) :
    Inv a (l.ran (doTimeOut .connectionSuspendTimer runningCount), f) := by
  have hslot : l.slot ≠ .null := by rw [hsus]; decide
  have ho := h.isOpen hslot
  have hes : (exec (doTimeOut .connectionSuspendTimer runningCount) l.con).2 = _ :=
    doTimeOut_suspend ho.writer ho.type ho.suc runningCount
  have hs : (l.ran (doTimeOut .connectionSuspendTimer runningCount)).slot = .null := by
    rw [Life.slot_ran, hes, slotAfter_writerDone]
  have hcalls : calls (writerDone l.con ++ [.releaseConnectionID l.con.offset, .freeConnection]) =
      callbacks a l.con.transResultCode := by
    rw [calls_append, calls_writerDone ho.node ho.buf ho.handle]
    exact List.append_nil _
  refine ⟨fun hn => absurd hs hn, fun hn => absurd hs hn, fun _ => ⟨_, (ho.suspended hsus).1, ?_⟩, ?_⟩
  · rw [Life.history_ran, List.flatMap_cons, hes, hcalls, h.outcome.before hslot, List.append_nil]
  · intro es' hes' hc
    rw [Life.history_ran, hes] at hes'
    rcases List.mem_cons.1 hes' with rfl | hes'
    · exact ⟨l.con.offset, by simp⟩
    · exact h.outcome.released es' hes' hc

theorem inv_init (id0 id1 : Nat) : Inv a (Life.startSender a id0 id1, none) := by
  refine Inv.quiet (l := ⟨newWriter a id0 id1, .live, [], 0, []⟩) ⟨fun _ => ?_, ?_⟩ (by simp)
    (quiet.addToSenderQueue _)
  · refine ⟨?_, ?_, rfl, rfl, rfl, ?_, fun _ => ⟨rfl, ?_, ?_, by simp⟩, fun h => by cases h⟩ <;>
      (simp only [newWriter]; split <;> simp [construct, ConnKind.isWriter])
  · exact ⟨fun _ => rfl, fun h => (by cases h), by simp⟩

theorem Inv.eraseTimer (h : Inv a (l, f)) (j : Nat) :
    Inv a ({ l with timers := l.timers.eraseIdx j }, f) := by
  refine ⟨fun hs => ?_, h.outcome.before, h.outcome.after, h.outcome.released⟩
  have ho := h.isOpen hs
  refine ⟨ho.writer, ho.type, ho.node, ho.buf, ho.handle, ho.suc, fun hl => ?_, ho.suspended⟩
  obtain ⟨h1, h2, h3, h4⟩ := ho.live hl
  exact ⟨h1, h2, h3, fun p hp => h4 p (List.mem_of_mem_eraseIdx hp)⟩

theorem Inv.dequeue (h : Inv a (l, f)) (n : Nat) : Inv a ({ l with queued := n }, f) :=
  ⟨fun hs => let ho := h.isOpen hs
    ⟨ho.writer, ho.type, ho.node, ho.buf, ho.handle, ho.suc, ho.live, ho.suspended⟩,
    h.outcome.before, h.outcome.after, h.outcome.released⟩

theorem inv_step {s s' : Life × Option TransResultCode} {act : Life.Act} {id0 id1 : Nat} (h : Inv a s)
    (hc : NoLateTimeOut s act) (hs : (machine a id0 id1).step s act = some s') : Inv a s' := by
  obtain ⟨l, f⟩ := s
  obtain ⟨l', hstep, rfl⟩ := Option.map_eq_some_iff.1 hs
  simp only at hstep
  have hlive : l.slot = .live → l.slot ≠ .null := fun h => by rw [h]; decide
  have hnone : l.slot = .live → f = none := fun hl => ((h.isOpen (hlive hl)).live hl).1
  cases act with
  | networkData inc now d len =>
    simp only [Life.step] at hstep
    split at hstep <;> cases hstep
    rename_i hl
    have hx := connectionDoNetworkData_cases (h.isOpen (hlive hl.1)).writer inc now d len
    simp only [terminalEvent]
    split <;> rename_i hf
    · simp only [if_pos hf] at hx
      rw [hnone hl.1]
      exact h.ended hl.1 hx
    · simp only [if_neg hf] at hx
      rw [Option.or_none]
      exact h.quiet (hlive hl.1) hx
  | reset msgType =>
    simp only [Life.step] at hstep
    split at hstep <;> cases hstep
    rename_i hl
    have ho := h.isOpen (hlive hl)
    rw [hnone hl]
    exact h.ended hl (connectionDoConnectionReset_ended ho.type (ho.live hl).2.2.1 msgType)
  | stop =>
    simp only [Life.step] at hstep
    split at hstep <;> cases hstep
    rename_i hl
    have ho := h.isOpen (hlive hl)
    rw [hnone hl]
    exact h.ended hl (connectionDoConnectionStop_ended ho.type (ho.live hl).2.2.1)
  | timeOut j =>
    simp only [Life.step] at hstep
    split at hstep
    · cases hstep
    rename_i t runningCount ht
    have hterm : terminalEvent l (.timeOut j) =
        if l.slot ≠ .null ∧ l.con.seventhTimeOut t runningCount then some .timeOut else none := by
      simp only [terminalEvent, ht]
    have he := h.eraseTimer j
    split at hstep <;> cases hstep <;> rename_i hn
    · rw [hterm, if_neg fun h => h.1 hn, Option.or_none]
      exact he
    by_cases hsusp : t = .connectionSuspendTimer
    · subst hsusp
      have hsus : l.slot = .suspended := by
        cases hsl : l.slot with
        | null => exact absurd hsl hn
        | suspended => rfl
        | live => exact absurd rfl (((h.isOpen hn).live hsl).2.2.2 _ (List.mem_of_getElem? ht))
      rw [hterm, if_neg fun h => (by simpa using h.2.1), Option.or_none]
      exact he.done hsus runningCount
    · have hx := doTimeOut_cases (h.isOpen hn).writer hsusp runningCount
      by_cases hf : l.con.seventhTimeOut t runningCount
      · simp only [if_pos hf] at hx
        rw [hterm, if_pos ⟨hn, hf⟩]
        have hl : l.slot = .live := by
          cases hsl : l.slot with
          | null => exact absurd hsl hn
          | live => rfl
          | suspended => exact absurd ⟨hsl, by rw [hterm, if_pos ⟨hn, hf⟩]⟩ hc
        rw [hnone hl]
        exact he.ended hl hx
      · simp only [if_neg hf] at hx
        rw [hterm, if_neg fun h => hf h.2, Option.or_none]
        exact he.quiet hn hx
  | sender clock =>
    simp only [Life.step] at hstep
    split at hstep
    · cases hstep
    rw [terminalEvent, Option.or_none]
    split at hstep <;> cases hstep
    · rename_i hl
      exact (h.dequeue _).quiet (hlive hl)
        (connectionDoSender_quiet ((h.isOpen (hlive hl)).live hl).2.2.1 clock)
    · exact h.dequeue _

end inv

/-- In a run without a seventh timeout after the end, a send reports its outcome once, when its slot
is released, and reports what ended it. -/
theorem outcome_of_noLateTimeOut {a : SendArgs} {id0 id1 : Nat} {s : Life × Option TransResultCode}
    (h : (machine a id0 id1).ReachUnder NoLateTimeOut s) : Outcome a s :=
  (h.invariant (fun _ hs => hs ▸ inv_init id0 id1) fun _ _ _ hi hc hs => inv_step hi hc hs).outcome

/-- A block of one byte: it goes out, the final ack comes in and the slot is released. -/
theorem outcome_of_noLateTimeOut_acked :
    ∃ s, (machine ⟨[], some [7], 1, 0, .noDeleteAfterSend, some 0, 0,
      0⟩ 1 0).ReachUnder NoLateTimeOut s ∧
      s.1.slot = .null ∧ Outcome ⟨[], some [7], 1, 0, .noDeleteAfterSend, some 0, 0, 0⟩ s := by
  have hrun :
      ((machine ⟨[], some [7], 1, 0, .noDeleteAfterSend, some 0, 0, 0⟩ 1 0).runUnder NoLateTimeOut
        (Life.startSender ⟨[], some [7], 1, 0, .noDeleteAfterSend, some 0, 0, 0⟩ 1 0, none)
      [.sender fun _ => 0, .networkData 0 0 ⟨.simpleFileAck, 1, 2, 0, 1452, []⟩ 0, .timeOut 1]).map
        (fun s => s.1.slot) = some .null := by decide +kernel
  obtain ⟨s, hs, hslot⟩ := Option.map_eq_some_iff.1 hrun
  have hreach := Machine.ReachUnder.run (.init rfl) hs
  exact ⟨s, hreach, hslot, outcome_of_noLateTimeOut hreach⟩

/-- The peer resets the transfer while the packet is out for the seventh time; its keeping timer then
expires before the suspend timer and the reset is reported as a timeout. -/
theorem exists_wrongOutcome : ¬ ∀ (a : SendArgs) (id0 id1 : Nat) (s : Life × Option TransResultCode),
    (machine a id0 id1).Reach s → Outcome a s := by
  intro hall
  have hrun : ((machine ⟨[], some [7], 1, 0, .noDeleteAfterSend, some 0, 0, 0⟩ 1 0).run
      (Life.startSender ⟨[], some [7], 1, 0, .noDeleteAfterSend, some 0, 0, 0⟩ 1 0, none)
      ([.sender fun _ => 0] ++ (List.replicate 6 [.timeOut 0, .sender fun _ => 0]).flatten ++
        [.reset .transReset, .timeOut 0, .timeOut 0])).map
        (fun s => (s.1.slot, s.2, (s.1.history.flatMap calls).map (·.2.2))) =
      some (.null, some .reset, [.timeOut]) := by decide +kernel
  obtain ⟨s, hs, hfin⟩ := Option.map_eq_some_iff.1 hrun
  simp only [Prod.mk.injEq] at hfin
  obtain ⟨code, hcode, hcalls⟩ := (hall _ _ _ _ (Machine.ReachUnder.run (.init rfl) hs)).after hfin.1
  rw [hfin.2.1] at hcode
  cases hcode
  rw [hcalls] at hfin
  exact absurd hfin.2.2 (by decide)

end SendOutcome

end Resend.Udp

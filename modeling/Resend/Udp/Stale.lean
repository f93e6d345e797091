import Resend.Udp.Table

/-!
# Timers and queue entries that outlive their connection

A timer knows the slot, the address and the running count of the connection that armed it, a queue
entry only the slot. While a slot is in use or suspended both find the connection they belong to,
and once it is released they find nothing (`Fresh`). Nothing keeps `create_connectionID` from
handing out a released slot before the last of them has come in, and then they act on a stranger.
-/

namespace Resend.Udp
open Handler Connection ConM

namespace Endpoint

/-- Timers and queue entries act on the connection they come from, which is still allocated, or on
none. -/
structure NoStranger (s : Endpoint) : Prop where
  timer : ∀ t ∈ s.timers, ∀ p, s.target t = some p → ∃ o, s.object p = some o ∧ o.uid = t.armedBy
  entry : ∀ q ∈ s.sendQueue, ∀ p, s.cidArray q.offset = .con p →
    ∃ o, s.object p = some o ∧ o.uid = q.addedBy

structure Fresh (s : Endpoint) : Prop extends Sane s where
  slot : ∀ k p, s.cidArray k = .con p → ∃ o ∈ s.heap, o.addr = p ∧ o.con.offset = k
  timer : ∀ t ∈ s.timers, s.cidArray t.connectionOffset ≠ .null →
    ∃ o ∈ s.heap, o.addr = t.connectionAddr ∧ o.uid = t.armedBy ∧ o.con.offset = t.connectionOffset ∧
      (s.cidArray o.con.offset = .con o.addr ∨ s.cidArray o.con.offset = .suspend)
  entry : ∀ q ∈ s.sendQueue, ∀ p, s.cidArray q.offset = .con p →
    ∃ o ∈ s.heap, o.addr = p ∧ o.uid = q.addedBy

namespace Fresh
variable {s s' : Endpoint} {o : Object}

theorem object_of_mem (h : Fresh s) {p : Nat} (ho : o ∈ s.heap) (haddr : o.addr = p) :
    s.object p = some o := by
  obtain ⟨x, hx⟩ : ∃ x, s.object p = some x :=
    Option.isSome_iff_exists.1 (List.find?_isSome.2 ⟨o, ho, by simpa using haddr⟩)
  obtain ⟨hmem, hxaddr⟩ := object_some hx
  rw [hx, eq_of_addr h.addrs ho hmem (hxaddr.trans haddr.symm)]

theorem noStranger (h : Fresh s) : NoStranger s := by
  constructor
  · intro t ht p hp
    have hne : s.cidArray t.connectionOffset ≠ .null := by
      intro hnull
      simp [target, hnull] at hp
    obtain ⟨o, ho, haddr, huid, hoff, hslot⟩ := h.timer t ht hne
    rw [hoff] at hslot
    have hpo : o.addr = p := by
      rcases hslot with hslot | hslot <;> simp only [target, hslot, Option.some.injEq] at hp
      · exact hp
      · exact haddr.trans hp
    exact ⟨o, h.object_of_mem ho hpo, huid⟩
  · intro q hq p hp
    obtain ⟨o, ho, haddr, huid⟩ := h.entry q hq p hp
    exact ⟨o, h.object_of_mem ho haddr, huid⟩

/-- What is pending stays correct when the table only loses entries. -/
theorem touched {c : Connection} {es : List Effect} (h : Fresh s) (ho : o ∈ s.heap)
    (hown : s.cidArray o.con.offset = .con o.addr ∨ s.cidArray o.con.offset = .suspend)
    (hc : Local o.con c es) (ht : Touched o (s.store o.addr c) s') : Fresh s' := by
  have hoff : c.offset = o.con.offset := by rw [offset, offset, hc.id0]
  -- every object is still there, with its address, its identity and its slot
  have hkeep : ∀ q ∈ s.heap, ∃ q' ∈ s'.heap, q'.addr = q.addr ∧ q'.uid = q.uid ∧
      q'.con.offset = q.con.offset := by
    intro q hq
    rw [ht.heap]
    by_cases ha : q.addr = o.addr
    · obtain rfl := eq_of_addr h.addrs ho hq ha
      exact ⟨_, (mem_store h.addrs ho).2 (.inl rfl), rfl, rfl, hoff⟩
    · exact ⟨q, (mem_store h.addrs ho).2 (.inr ⟨hq, ha⟩), rfl, rfl, rfl⟩
  have hslot : ∀ k, s'.cidArray k = s.cidArray k ∨ (s'.cidArray k = .suspend ∧ k = o.con.offset) := by
    intro k
    by_cases hk : k = o.con.offset
    · subst hk
      exact ht.slot.imp_right fun hsusp => ⟨hsusp, rfl⟩
    · exact .inl (ht.slots k hk)
  have hcon : ∀ k p, s'.cidArray k = .con p → s.cidArray k = .con p := by
    intro k p hk
    rcases hslot k with heq | ⟨hsusp, -⟩
    · exact heq ▸ hk
    · rw [hsusp] at hk; cases hk
  have hown' : s'.cidArray o.con.offset = .con o.addr ∨ s'.cidArray o.con.offset = .suspend := by
    rcases ht.slot with heq | heq
    · rw [heq]; exact hown
    · exact .inr heq
  refine ⟨h.toSane.touched ht, ?_, ?_, ?_⟩
  · intro k p hk
    obtain ⟨q, hq, hqaddr, hqoff⟩ := h.slot k p (hcon k p hk)
    obtain ⟨q', hq', ha', -, ho'⟩ := hkeep q hq
    exact ⟨q', hq', ha'.trans hqaddr, ho'.trans hqoff⟩
  · intro t htm hne
    rcases ht.timers t htm with htm | ⟨htoff, htaddr, htuid⟩
    · have hne' : s.cidArray t.connectionOffset ≠ .null := by
        intro hnull
        rcases hslot t.connectionOffset with heq | ⟨-, hk⟩
        · exact hne (heq.trans hnull)
        · rw [hk] at hnull
          rcases hown with hown | hown <;> rw [hnull] at hown <;> cases hown
      obtain ⟨q, hq, hqaddr, hquid, hqoff, hqslot⟩ := h.timer t htm hne'
      obtain ⟨q', hq', ha', hu', ho'⟩ := hkeep q hq
      refine ⟨q', hq', ha'.trans hqaddr, hu'.trans hquid, ho'.trans hqoff, ?_⟩
      rw [ho', ha']
      rcases hslot q.con.offset with heq | ⟨hsusp, -⟩
      · rw [heq]; exact hqslot
      · exact .inr hsusp
    · refine ⟨{ o with con := c }, ht.heap ▸ (mem_store h.addrs ho).2 (.inl rfl),
        htaddr.symm, htuid.symm, hoff.trans htoff.symm, ?_⟩
      rw [hoff]
      exact hown'
  · intro q hq p hp
    rcases ht.queue q hq with hq | ⟨hqoff, hquid⟩
    · obtain ⟨x, hx, hxaddr, hxuid⟩ := h.entry q hq p (hcon _ _ hp)
      obtain ⟨x', hx', ha', hu', -⟩ := hkeep x hx
      exact ⟨x', hx', ha'.trans hxaddr, hu'.trans hxuid⟩
    · refine ⟨{ o with con := c }, ht.heap ▸ (mem_store h.addrs ho).2 (.inl rfl), ?_, hquid.symm⟩
      rw [hqoff] at hp
      rcases hown' with hown' | hown' <;> rw [hp] at hown' <;> cases hown'
      rfl

theorem freed (h : Fresh s) (ho : o ∈ s.heap) (hf : Freed o s s') : Fresh s' := by
  have hmem : ∀ q ∈ s.heap, q.con.offset ≠ o.con.offset → q ∈ s'.heap := by
    intro q hq hne
    have ha : q.addr ≠ o.addr := fun ha => hne (by rw [eq_of_addr h.addrs ho hq ha])
    rw [hf.heap]
    exact List.mem_filter.2 ⟨hq, by simpa using ha⟩
  have hslot : ∀ k, s'.cidArray k ≠ .null → k ≠ o.con.offset ∧ s'.cidArray k = s.cidArray k := by
    intro k hk
    rw [hf.slots] at hk ⊢
    by_cases hko : k = o.con.offset
    · rw [hko, Function.update_self] at hk
      exact absurd rfl hk
    · exact ⟨hko, Function.update_of_ne hko _ _⟩
  refine ⟨h.toSane.freed hf, ?_, ?_, ?_⟩
  · intro k p hk
    obtain ⟨hko, heq⟩ := hslot k (by simp [hk])
    obtain ⟨q, hq, hqaddr, hqoff⟩ := h.slot k p (heq ▸ hk)
    exact ⟨q, hmem q hq (hqoff ▸ hko), hqaddr, hqoff⟩
  · intro t ht hne
    obtain ⟨hko, heq⟩ := hslot _ hne
    obtain ⟨q, hq, hqaddr, hquid, hqoff, hqslot⟩ := h.timer t (hf.timers ▸ ht) (heq ▸ hne)
    refine ⟨q, hmem q hq (hqoff ▸ hko), hqaddr, hquid, hqoff, ?_⟩
    rw [hqoff, heq, ← hqoff]
    exact hqslot
  · intro q hq p hp
    obtain ⟨hko, heq⟩ := hslot q.offset (by simp [hp])
    obtain ⟨x, hx, hxaddr, hxuid⟩ := h.entry q (hf.queue ▸ hq) p (heq ▸ hp)
    obtain ⟨y, hy, hyaddr, hyoff⟩ := h.slot q.offset p (heq ▸ hp)
    obtain rfl := eq_of_addr h.addrs hy hx (hxaddr.trans hyaddr.symm)
    exact ⟨x, hmem x hx (hyoff ▸ hko), hxaddr, hxuid⟩

theorem started (cursor actor : Nat) (h : cursor < maxConnectionCount) : Fresh (start cursor actor) :=
  ⟨.started cursor actor h, fun _ _ hk => (by cases hk), by simp [start], by simp [start]⟩

theorem moved (h : Fresh s) (actor : Nat) (q : WaitAckQueue) :
    Fresh { s with cidArrayOffset := s.nextCursor, verificationActor := actor, waitAck := q } :=
  ⟨h.toSane.moved actor q, h.slot, h.timer, h.entry⟩

theorem thinned {timers : List TimerParm} {queue : List SendEntry} (h : Fresh s)
    (ht : ∀ t ∈ timers, t ∈ s.timers) (hq : ∀ q ∈ queue, q ∈ s.sendQueue) :
    Fresh { s with timers := timers, sendQueue := queue } :=
  ⟨⟨h.cursor, h.addrs⟩, h.slot, fun t htm => h.timer t (ht t htm), fun q hqm => h.entry q (hq q hqm)⟩

theorem released (h : Fresh s) (k : Nat) : Fresh (s.setSlot k .null) := by
  have hslot : ∀ j, (s.setSlot k .null).cidArray j ≠ .null →
      (s.setSlot k .null).cidArray j = s.cidArray j := by
    intro j hj
    by_cases hjk : j = k
    · simp [setSlot, hjk] at hj
    · simp [setSlot, Function.update_of_ne hjk]
  refine ⟨⟨h.cursor, h.addrs⟩, ?_, ?_, ?_⟩
  · intro j p hj
    exact h.slot j p (hslot j (by simp [hj]) ▸ hj)
  · intro t ht hne
    have heq := hslot _ hne
    obtain ⟨q, hq, hqaddr, hquid, hqoff, hqslot⟩ := h.timer t ht (heq ▸ hne)
    refine ⟨q, hq, hqaddr, hquid, hqoff, ?_⟩
    rw [hqoff, heq, ← hqoff]
    exact hqslot
  · intro q hq p hp
    exact h.entry q hq p (hslot q.offset (by simp [hp]) ▸ hp)

theorem alloc (h : Fresh s) (hfree : s.Free o.addr) (counts : ConnKind → Int) :
    Fresh ({ s with counts := counts }.alloc o) := by
  refine ⟨h.toSane.alloc hfree counts, ?_, ?_, ?_⟩
  · intro k p hk
    obtain ⟨q, hq, hrest⟩ := h.slot k p hk
    exact ⟨q, List.mem_cons_of_mem _ hq, hrest⟩
  · intro t ht hne
    obtain ⟨q, hq, hrest⟩ := h.timer t ht hne
    exact ⟨q, List.mem_cons_of_mem _ hq, hrest⟩
  · intro q hq p hp
    obtain ⟨x, hx, hrest⟩ := h.entry q hq p hp
    exact ⟨x, List.mem_cons_of_mem _ hx, hrest⟩

end Fresh

/-- No timer and no queue entry for slot `k` is pending. -/
def Rests (s : Endpoint) (k : Nat) : Prop :=
  (∀ t ∈ s.timers, t.connectionOffset ≠ k) ∧ ∀ q ∈ s.sendQueue, q.offset ≠ k

instance (s : Endpoint) (k : Nat) : Decidable (s.Rests k) := inferInstanceAs (Decidable (_ ∧ _))

theorem Fresh.enroll {s : Endpoint} {o : Object} (h : Fresh s) (hfree : s.Free o.addr)
    (hoff : o.con.offset = s.cidArrayOffset) (hrest : s.Rests s.cidArrayOffset) (w : WaitAckQueue) :
    Fresh (s.enroll o w) := by
  have hmem : o ∈ (s.enroll o w).heap := List.mem_cons_self
  refine ⟨h.toSane.enroll hfree w, ?_, ?_, ?_⟩
  · intro k p hk
    by_cases hkc : k = s.cidArrayOffset
    · subst hkc
      rw [enroll_slot_self] at hk
      cases hk
      exact ⟨o, hmem, rfl, hoff⟩
    · rw [enroll_slot_of_ne _ _ hkc] at hk
      obtain ⟨q, hq, hrest⟩ := h.slot k p hk
      exact ⟨q, List.mem_cons_of_mem _ hq, hrest⟩
  · intro t ht hne
    have hk := enroll_slot_of_ne o w (hrest.1 t ht)
    obtain ⟨q, hq, hqaddr, hquid, hqoff, hqslot⟩ := h.timer t ht (hk ▸ hne)
    refine ⟨q, List.mem_cons_of_mem _ hq, hqaddr, hquid, hqoff, ?_⟩
    rw [hqoff, hk, ← hqoff]
    exact hqslot
  · intro q hq p hp
    rw [enroll_slot_of_ne _ _ (hrest.2 q hq)] at hp
    obtain ⟨x, hx, hrest⟩ := h.entry q hq p hp
    exact ⟨x, List.mem_cons_of_mem _ hx, hrest⟩

/-! ### Runs -/

/-- The action gives the slot at the cursor to a new connection. -/
def Creates (s : Endpoint) : Act → Prop
  | .startSender .. => s.cidArray s.cidArrayOffset = .null
  | .recv r e => s.cidArray s.cidArrayOffset = .null ∧ ∃ q ∈ s.required r,
    RecvEnv.Admits e q.1 ∧ q.2.1.dtNote ≠ 0 ∧
    (equipReader e.attr e.buffer (waitingReader (newReader q.1 q.2.1) s.newId r.remoteAddr)).isSome
  | _ => False

instance (s : Endpoint) : (act : Act) → Decidable (s.Creates act)
  | .startSender .. => inferInstanceAs (Decidable (_ = _))
  | .recv .. => inferInstanceAs (Decidable (_ ∧ ∃ q ∈ _, _ ∧ _ ∧ _))
  | .timeOut _ | .sender .. | .stop _ => inferInstanceAs (Decidable False)

/-- A slot is handed out only when nothing is pending for it. -/
def Rested (s : Endpoint) (act : Act) : Prop := s.Creates act → s.Rests s.cidArrayOffset

instance (s : Endpoint) (act : Act) : Decidable (s.Rested act) := inferInstanceAs (Decidable (_ → _))

namespace Fresh
variable {s s' : Endpoint} {o : Object}

theorem runOn {x : ConM Unit} (h : Fresh s) (ho : o ∈ s.heap)
    (hown : s.cidArray o.con.offset = .con o.addr ∨ s.cidArray o.con.offset = .suspend)
    (hx : wp x (fun _ c' es => Local o.con c' es) o.con) : Fresh (s.runOn o x) :=
  h.touched ho hown (wp_exec x hx) (runOn_touched hx)

theorem inSlot (h : Fresh s) {k : Nat} (hk : s.inSlot k = some o) :
    o ∈ s.heap ∧ s.cidArray o.con.offset = .con o.addr := by
  obtain ⟨ho, hslot⟩ := inSlot_some hk
  obtain ⟨q, hq, hqaddr, hqoff⟩ := h.slot k o.addr hslot
  rw [eq_of_addr h.addrs ho hq hqaddr] at hqoff
  exact ⟨ho, hqoff ▸ hslot⟩

theorem connectionDoTimeOut (h : Fresh s) {t : TimerParm} {timers : List TimerParm}
    (ht : t ∈ s.timers) (hsub : ∀ t ∈ timers, t ∈ s.timers) :
    Fresh ({ s with timers := timers }.connectionDoTimeOut t) := by
  have h' : Fresh { s with timers := timers } := h.thinned hsub fun _ hq => hq
  unfold Endpoint.connectionDoTimeOut
  cases htgt : (Endpoint.target { s with timers := timers } t).bind
    (Endpoint.object { s with timers := timers }) with
  | none => exact h'
  | some o =>
    obtain ⟨p, hp, hobj⟩ := Option.bind_eq_some_iff.1 htgt
    obtain ⟨ho, haddr⟩ := object_some hobj
    have hne : s.cidArray t.connectionOffset ≠ .null := by
      intro hnull
      simp [Endpoint.target, hnull] at hp
    obtain ⟨q, hq, hqaddr, -, hqoff, hqslot⟩ := h.timer t ht hne
    have hpq : p = q.addr := by
      rw [hqoff] at hqslot
      rcases hqslot with hslot | hslot <;> simp only [Endpoint.target, hslot, Option.some.injEq] at hp
      · exact hp.symm
      · exact hp.symm.trans hqaddr.symm
    have hoq : o = q := eq_of_addr h.addrs hq ho (haddr.trans hpq)
    rcases doTimeOut_own_or_frees o.con t.timeoutType t.runningCount with hx | hx
    · exact h'.runOn ho (hoq ▸ hqslot) hx.1.local
    · exact h'.freed ho (runOn_freed hx)

theorem step {act : Act} (h : Fresh s) (hrest : s.Rested act) (hs : s.step act = some s') :
    Fresh s' := by
  cases step_cases hs with
  | startSender hfree =>
    rename_i a addr label
    rcases s.startSender_cases a addr label with ⟨hslot, o, rfl, -, hcon, heq⟩ | ⟨-, heq⟩
    · rw [heq]
      have hoff : o.con.offset = s.cidArrayOffset := by
        rw [hcon, offset]
        exact newId_mod h.cursor
      refine (h.enroll hfree hoff (hrest hslot) _).runOn List.mem_cons_self (.inl ?_)
        (own.addToSenderQueue o.con).local
      rw [hoff, enroll_slot_self]
    · rw [heq]; exact h.moved _ _
  | startRecver hfree hreq =>
    rename_i r e complex d len
    generalize hres : s.startRecver complex d len r.remoteAddr e = res
    have hcases : Recver s complex d len r.remoteAddr e res := hres ▸ startRecver_cases h.cursor ..
    cases hcases with
    | turned => exact h
    | empty hp => exact h.alloc (hfree _ hp) _
    | taken => exact (h.moved _ _).released 0
    | refused => exact h.moved _ _
    | accepted hp hadm h0 hslot huid hc =>
      rename_i o
      have hoff : o.con.offset = s.cidArrayOffset := by
        obtain ⟨_, _, _, hcon⟩ := equipReader_some hc
        rw [hcon, offset]
        exact newId_mod h.cursor
      have hrest : s.Rests s.cidArrayOffset := hrest ⟨hslot, _, hreq, hadm, h0, by simp [hc]⟩
      refine (h.enroll (hfree _ hp) hoff hrest _).runOn List.mem_cons_self (.inl ?_)
        (Own.receiveFirst complex d len o.con).local
      rw [hoff, enroll_slot_self]
  | data hd =>
    obtain ⟨ho, hown⟩ := h.inSlot (delivered_some hd).1
    exact h.runOn ho (.inl hown) (Local.connectionDoNetworkData _ _ _ _ _)
  | request hslot hx =>
    exact h.runOn (h.inSlot hslot).1 (.inl (h.inSlot hslot).2) (hx.stays _).toOwn.local
  | timeOut ht => exact h.connectionDoTimeOut (List.mem_of_getElem? ht) fun _ =>
    List.mem_of_mem_eraseIdx
  | sender hq =>
    rename_i j q clock
    have h' : Fresh { s with sendQueue := s.sendQueue.eraseIdx j } :=
      h.thinned (fun _ ht => ht) fun _ => List.mem_of_mem_eraseIdx
    unfold Endpoint.connectionDoSender
    split
    · exact h'
    · rename_i o ho
      exact h'.runOn (h'.inSlot ho).1 (.inl (h'.inSlot ho).2) (Own.connectionDoSender _ o.con).local
  | idle => exact h

end Fresh

/-- As long as slots are handed out only when nothing is pending for them, no timer and no queue
entry ever acts on another connection than its own. -/
theorem noStranger_of_rested {s : Endpoint} (h : machine.ReachUnder Rested s) : s.NoStranger := by
  refine (h.invariant (I := Fresh) ?_ fun s act s' hI hc hs => hI.step hc hs).noStranger
  rintro s ⟨cursor, hcursor, actor, rfl⟩
  exact Fresh.started cursor actor hcursor

/-- A send that was stopped and freed, with its timer still to come. -/
theorem noStranger_of_rested_stopped : ∃ s, machine.ReachUnder Rested s ∧
    (s.heap.map (·.addr), s.timers.map (·.connectionOffset)) = ([], [1]) ∧ s.NoStranger := by
  have hrun : (machine.runUnder Rested (start 1 0)
      [.startSender smallSend 7 9, .sender 0 fun _ => 0, .stop 1, .timeOut 1]).map
        (fun s => (s.heap.map (·.addr), s.timers.map (·.connectionOffset))) = some ([], [1]) := by
          decide +kernel
  obtain ⟨s, hs, hres⟩ := Option.map_eq_some_iff.1 hrun
  have hreach : machine.ReachUnder Rested s :=
    Machine.ReachUnder.run (M := machine) (.init ⟨1, by decide, 0, rfl⟩) hs
  exact ⟨s, hreach, hres, noStranger_of_rested hreach⟩

/-- With all connections gone, a refused REQUIRE only moves the cursor. -/
theorem step_refused {s : Endpoint} (h : Table s) (hheap : s.heap = []) :
    s.TableSafe (.recv (oneByte.received 0) unwilling) ∧
    ∃ s', s.step (.recv (oneByte.received 0) unwilling) = some s' ∧
      s'.heap = [] ∧ s'.timers = s.timers ∧
      s'.nextUid = s.nextUid ∧ s'.cidArrayOffset = s.nextCursor := by
  have hnull : s.cidArray s.cidArrayOffset = .null := h.others _ (by simp [hheap])
  have hfree : ∀ addr ∈ unwilling.addr, s.Free addr := fun addr _ => object_none.2 (by simp [hheap])
  have ht : MsgType.ofCode (readUlong (oneByte.received 0).data 0) = some oneByte.msgType :=
    oneByte.ofCode_encode []
  have hd : unfillHeader oneByte.msgType (oneByte.received 0) = (oneByte, 1) :=
    unfillHeader_encode ⟨by decide, by decide, by decide, by decide⟩ 0 []
  refine ⟨?_, (s.startRecver false oneByte 1 0 unwilling).1, ?_, ?_⟩
  · intro q hq _
    rw [required_of_header ht hd] at hq
    cases hq
    exact ⟨by decide, fun hne => absurd hnull hne⟩
  · rw [step, if_pos hfree, filterData_of_header ht hd]
    rfl
  · have hcases := startRecver_cases h.cursor false oneByte 1 0 unwilling
    generalize s.startRecver false oneByte 1 0 unwilling = res at hcases ⊢
    cases hcases with
    | turned hadm => exact absurd (by decide) hadm
    | empty _ _ h0 => cases h0
    | taken _ _ hslot => exact absurd hnull hslot
    | refused => exact ⟨hheap, rfl, rfl, rfl⟩
    | accepted _ _ _ _ _ hc => cases hc

theorem exists_cursor (n : Nat) (hn : n + 2 ≤ maxConnectionCount) :
    ∃ s, machine.ReachUnder TableSafe s ∧ s.heap = [] ∧ s.nextUid = 1 ∧
      s.timers.map (fun t => (t.connectionOffset, t.armedBy)) = [(1, 0)] ∧
      s.cidArrayOffset = if n + 2 = maxConnectionCount then 1 else n + 2 := by
  induction n with
  | zero =>
    have hrun : (machine.runUnder TableSafe (start 1 0)
        [.startSender smallSend 7 9, .sender 0 fun _ => 0, .stop 1, .timeOut 1]).map
          (fun s => (s.heap.map (·.addr), s.nextUid,
            s.timers.map (fun t => (t.connectionOffset, t.armedBy)), s.cidArrayOffset)) =
        some ([], 1, [(1, 0)], 2) := by decide +kernel
    obtain ⟨s, hs, hres⟩ := Option.map_eq_some_iff.1 hrun
    simp only [Prod.mk.injEq, List.map_eq_nil_iff] at hres
    exact ⟨s, Machine.ReachUnder.run (M := machine) (.init ⟨1, by decide, 0, rfl⟩) hs,
      hres.1, hres.2.1, hres.2.2.1, hres.2.2.2⟩
  | succ n ih =>
    obtain ⟨s, hreach, hheap, huid, htimers, hcur⟩ := ih (by omega)
    obtain ⟨hsafe, s', hs, hheap', htimers', huid', hcur'⟩ := step_refused (.reach hreach) hheap
    have hne : ¬ n + 2 = maxConnectionCount := by omega
    refine ⟨s', .step (M := machine) hreach hsafe hs, hheap', huid'.trans huid, htimers' ▸ htimers, ?_⟩
    rw [hcur', nextCursor, hcur, if_neg hne]

/-- The table has gone round before the timer of the stopped send comes in: it finds the next send. -/
theorem exists_stranger : ∃ s, machine.Reach s ∧ ¬ s.NoStranger := by
  obtain ⟨s, hreach, hheap, huid, htimers, hcur⟩ := exists_cursor (maxConnectionCount - 2) (by decide)
  have hfree : s.Free 7 := object_none.2 (by simp [hheap])
  have hslot : s.cidArray s.cidArrayOffset = .null := (Table.reach hreach).others _ (by simp [hheap])
  rw [if_pos (by decide)] at hcur
  obtain ⟨t, ht, htoff⟩ := List.mem_map.1 (htimers ▸ List.mem_singleton_self ((1, 0) : Nat × Nat))
  have hstep : s.step (.startSender smallSend 7 9) = some (s.startSender smallSend 7 9) := by
    rw [step, if_pos hfree]
  refine ⟨_, .step (M := machine) (a := .startSender smallSend 7 9)
    (hreach.mono fun _ _ _ => trivial) trivial hstep, fun h => ?_⟩
  rcases s.startSender_cases smallSend 7 9 with ⟨-, o, ho, huid', hcon, heq⟩ | ⟨hne, -⟩
  · have heffects : (exec ConM.addToSenderQueue o.con).2 = [.addToSendQueue o.con.offset] := by
      have hwp : wp ConM.addToSenderQueue
          (fun _ _ es => es = [.addToSendQueue o.con.offset]) o.con := by
        have hidle : ¬ (newWriter smallSend 0 9).has inSenderBit := by decide
        rw [wp_addToSenderQueue, if_neg (by rw [hcon]; exact hidle)]
      exact hwp
    have hobj : (s.startSender smallSend 7 9).object 7 =
        some { o with con := (exec ConM.addToSenderQueue o.con).1 } := by
      simp [heq, runOn, heffects, effect, object, store, ho]
    have hcid : (s.startSender smallSend 7 9).cidArray 1 = .con 7 := by
      simp [heq, runOn, heffects, effect, store, enroll, hcur, ho]
    have htarget : (s.startSender smallSend 7 9).target t = some 7 := by
      simp only [target, show t.connectionOffset = 1 from congrArg Prod.fst htoff, hcid]
    obtain ⟨x, hx, hsame⟩ := h.timer t
      (by simpa [heq, runOn, heffects, effect, store, enroll] using ht) 7 htarget
    rw [hobj] at hx
    cases hx
    rw [show t.armedBy = 0 from congrArg Prod.snd htoff] at hsame
    exact absurd (huid'.symm.trans hsame) (by rw [huid]; decide)
  · exact absurd hslot hne

end Endpoint

end Resend.Udp

import Resend.Udp.Dispatch

/-!
# Who owns which slot

`Table` is what `_cid_array` and the four counters are for: every allocated connection has the slot
its id names to itself, every other slot is free, and the counters count. Each handler keeps it and
so do creation and release. `start_recver` breaks it in two places: it leaves a reader of length 0
allocated without a slot, and a refusal without a slot of its own releases slot 0, whoever has it.
-/

namespace Resend.Udp
open Handler Connection ConM

namespace Endpoint

structure Table (s : Endpoint) : Prop extends Sane s where
  owns : ∀ o ∈ s.heap, s.cidArray o.con.offset = .con o.addr ∨ s.cidArray o.con.offset = .suspend
  alone : ∀ o ∈ s.heap, ∀ o' ∈ s.heap, o.con.offset = o'.con.offset → o = o'
  others : ∀ k, (∀ o ∈ s.heap, o.con.offset ≠ k) → s.cidArray k = .null
  counts : ∀ kind, s.counts kind = (s.heap.countP (·.con.kind = kind) : Nat)

/-! ### Stores and frees -/

theorem countP_store {s : Endpoint} {o : Object} {c : Connection}
    (h : s.heap.Pairwise (·.addr ≠ ·.addr)) (ho : o ∈ s.heap) (hk : c.kind = o.con.kind)
    (kind : ConnKind) :
    (s.store o.addr c).heap.countP (·.con.kind = kind) = s.heap.countP (·.con.kind = kind) := by
  rw [store, List.countP_map]
  refine List.countP_congr fun q hq => ?_
  by_cases ha : q.addr = o.addr
  · obtain rfl := eq_of_addr h ho hq ha
    simp [hk]
  · simp [ha]

theorem countP_filter {heap : List Object} {o : Object} (h : heap.Pairwise (·.addr ≠ ·.addr))
    (ho : o ∈ heap) (kind : ConnKind) :
    (heap.filter (·.addr ≠ o.addr)).countP (·.con.kind = kind) + (if o.con.kind = kind then 1 else 0) =
      heap.countP (·.con.kind = kind) := by
  induction heap with
  | nil => cases ho
  | cons q heap ih =>
    obtain ⟨hq, hheap⟩ := List.pairwise_cons.1 h
    rcases List.mem_cons.1 ho with rfl | ho
    · have hall : heap.filter (·.addr ≠ o.addr) = heap :=
        List.filter_eq_self.2 fun p hp => by simpa using (hq p hp).symm
      simp only [List.filter_cons, ne_eq, not_true_eq_false, decide_false, Bool.false_eq_true, if_false]
      simp only [ne_eq] at hall
      rw [hall, List.countP_cons]
      simp
    · have ha : q.addr ≠ o.addr := hq o ho
      simp only [List.filter_cons, ne_eq, ha, not_false_eq_true, decide_true, if_true, List.countP_cons]
      have := ih hheap ho
      simp only [ne_eq] at this
      omega

namespace Table
variable {s s' : Endpoint} {o : Object}

theorem touched {c : Connection} {es : List Effect} (h : Table s) (ho : o ∈ s.heap)
    (hc : Local o.con c es) (ht : Touched o (s.store o.addr c) s') : Table s' := by
  have hoff : c.offset = o.con.offset := by rw [offset, offset, hc.id0]
  have hmem : ∀ q ∈ s'.heap, q = { o with con := c } ∨ (q ∈ s.heap ∧ q.addr ≠ o.addr) := by
    intro q hq
    rw [ht.heap] at hq
    exact (mem_store h.addrs ho).1 hq
  have hne : ∀ q ∈ s.heap, q.addr ≠ o.addr → q.con.offset ≠ o.con.offset := by
    intro q hq ha he
    exact ha (by rw [h.alone q hq o ho he])
  have hslot : s'.cidArray o.con.offset = .con o.addr ∨ s'.cidArray o.con.offset = .suspend := by
    rcases ht.slot with heq | heq
    · rw [heq]; exact h.owns o ho
    · exact .inr heq
  refine ⟨h.toSane.touched ht, ?_, ?_, ?_, ?_⟩
  · intro q hq
    rcases hmem q hq with rfl | ⟨hq, ha⟩
    · rw [hoff]; exact hslot
    · rw [ht.slots _ (hne q hq ha)]; exact h.owns q hq
  · intro q hq q' hq' he
    rcases hmem q hq with rfl | ⟨hq, ha⟩ <;> rcases hmem q' hq' with rfl | ⟨hq', ha'⟩
    · rfl
    · exact absurd (he.symm.trans hoff) (hne q' hq' ha')
    · exact absurd (he.trans hoff) (hne q hq ha)
    · exact h.alone q hq q' hq' he
  · intro k hk
    have hko : k ≠ o.con.offset := fun he =>
      hk { o with con := c } (ht.heap ▸ (mem_store h.addrs ho).2 (.inl rfl)) (hoff.trans he.symm)
    rw [ht.slots k hko]
    refine h.others k fun q hq he => ?_
    have hqo : q.addr ≠ o.addr := fun ha => by
      rw [eq_of_addr h.addrs ho hq ha] at he
      exact hko he.symm
    exact hk q (ht.heap ▸ (mem_store h.addrs ho).2 (.inr ⟨hq, hqo⟩)) he
  · intro kind
    rw [ht.counts, ht.heap, countP_store h.addrs ho hc.kind]
    exact h.counts kind

theorem freed (h : Table s) (ho : o ∈ s.heap) (hf : Freed o s s') : Table s' := by
  have hmem : ∀ q, q ∈ s'.heap ↔ q ∈ s.heap ∧ q.addr ≠ o.addr := by simp [hf.heap]
  have hne : ∀ q ∈ s.heap, q.addr ≠ o.addr → q.con.offset ≠ o.con.offset := by
    intro q hq ha he
    exact ha (by rw [h.alone q hq o ho he])
  refine ⟨h.toSane.freed hf, ?_, ?_, ?_, ?_⟩
  · intro q hq
    obtain ⟨hq, ha⟩ := (hmem q).1 hq
    rw [hf.slots, Function.update_of_ne (hne q hq ha)]
    exact h.owns q hq
  · intro q hq q' hq' he
    exact h.alone q ((hmem q).1 hq).1 q' ((hmem q').1 hq').1 he
  · intro k hk
    rw [hf.slots]
    by_cases hko : k = o.con.offset
    · rw [hko, Function.update_self]
    · rw [Function.update_of_ne hko]
      refine h.others k fun q hq he => hk q ((hmem q).2 ⟨hq, fun ha => ?_⟩) he
      rw [eq_of_addr h.addrs ho hq ha] at he
      exact hko he.symm
  · intro kind
    have hcount := countP_filter h.addrs ho kind
    rw [hf.counts, hf.heap]
    by_cases hk : kind = o.con.kind
    · subst hk
      rw [Function.update_self, h.counts]
      simp only [if_true] at hcount
      omega
    · rw [Function.update_of_ne hk, h.counts]
      rw [if_neg (Ne.symm hk)] at hcount
      omega

theorem moved (h : Table s) (actor : Nat) (waitAck : WaitAckQueue) :
    Table { s with cidArrayOffset := s.nextCursor, verificationActor := actor, waitAck := waitAck } :=
  ⟨h.toSane.moved actor waitAck, h.owns, h.alone, h.others, h.counts⟩

theorem enroll (h : Table s) (hfree : s.Free o.addr) (hslot : s.cidArray s.cidArrayOffset = .null)
    (hoff : o.con.offset = s.cidArrayOffset) (q : WaitAckQueue) : Table (s.enroll o q) := by
  have hne : ∀ q ∈ s.heap, q.con.offset ≠ s.cidArrayOffset := by
    intro q hq he
    rcases h.owns q hq with hown | hown <;> rw [he, hslot] at hown <;> cases hown
  refine ⟨h.toSane.enroll hfree q, ?_, ?_, ?_, ?_⟩
  · intro q hq
    rcases List.mem_cons.1 hq with rfl | hq
    · exact .inl (hoff ▸ enroll_slot_self ..)
    · rw [enroll_slot_of_ne _ _ (hne q hq)]
      exact h.owns q hq
  · intro q hq q' hq' he
    rcases List.mem_cons.1 hq with rfl | hqs <;> rcases List.mem_cons.1 hq' with rfl | hqs'
    · rfl
    · exact absurd (he.symm.trans hoff) (hne q' hqs')
    · exact absurd (he.trans hoff) (hne q hqs)
    · exact h.alone q hqs q' hqs' he
  · intro k hk
    have hko : k ≠ s.cidArrayOffset := fun he => hk o (by simp) (hoff.trans he.symm)
    rw [enroll_slot_of_ne _ _ hko]
    exact h.others k fun q hq => hk q (by simp [hq])
  · intro kind
    simp only [Endpoint.enroll, List.countP_cons]
    by_cases hk : kind = o.con.kind
    · subst hk
      simp [h.counts]
    · rw [Function.update_of_ne hk, h.counts]
      simp [Ne.symm hk]

theorem started (cursor actor : Nat) (h : cursor < maxConnectionCount) : Table (start cursor actor) :=
  ⟨.started cursor actor h, by simp [start], by simp [start], fun _ _ => rfl, fun _ => rfl⟩

theorem thinned (h : Table s) (timers : List TimerParm) (sendQueue : List SendEntry) :
    Table { s with timers := timers, sendQueue := sendQueue } :=
  ⟨⟨h.cursor, h.addrs⟩, h.owns, h.alone, h.others, h.counts⟩

theorem runOn {x : ConM Unit} (h : Table s) (ho : o ∈ s.heap)
    (hx : wp x (fun _ c' es => Local o.con c' es) o.con) : Table (s.runOn o x) :=
  h.touched ho (wp_exec x hx) (runOn_touched hx)

theorem connectionDoTimeOut (h : Table s) (t : TimerParm) : Table (s.connectionDoTimeOut t) := by
  unfold Endpoint.connectionDoTimeOut
  cases htgt : (s.target t).bind s.object with
  | none => exact h
  | some o =>
    obtain ⟨addr, -, hobj⟩ := Option.bind_eq_some_iff.1 htgt
    have ho := (object_some hobj).1
    rcases doTimeOut_own_or_frees o.con t.timeoutType t.runningCount with hx | hx
    · exact h.runOn ho hx.1.local
    · exact h.freed ho (runOn_freed hx)

theorem connectionDoSender (h : Table s) (k : Nat) (clock : Nat → Nat) :
    Table (s.connectionDoSender k clock) := by
  unfold Endpoint.connectionDoSender
  cases hslot : s.inSlot k with
  | none => exact h
  | some o => exact h.runOn (inSlot_some hslot).1 (Own.connectionDoSender clock o.con).local

end Table

/-! ### Runs -/

/-- A REQUIRE that gets as far as a reader announces some data, and if there is no slot for it then
slot 0 is free. -/
def TableSafe (s : Endpoint) : Act → Prop
  | .recv r e => ∀ q ∈ s.required r, RecvEnv.Admits e q.1 →
    q.2.1.dtNote ≠ 0 ∧ (s.cidArray s.cidArrayOffset ≠ .null → s.cidArray 0 = .null)
  | _ => True

instance (s : Endpoint) : (act : Act) → Decidable (s.TableSafe act)
  | .recv r e => inferInstanceAs (Decidable (∀ q ∈ s.required r, RecvEnv.Admits e q.1 → _ ∧ _))
  | .startSender .. | .timeOut _ | .sender .. | .stop _ => inferInstanceAs (Decidable True)

theorem Table.step {s s' : Endpoint} {act : Act} (h : Table s) (hsafe : s.TableSafe act)
    (hs : s.step act = some s') : Table s' := by
  cases step_cases hs with
  | startSender hfree =>
    rename_i a addr label
    rcases s.startSender_cases a addr label with ⟨hslot, o, rfl, -, hcon, heq⟩ | ⟨-, heq⟩
    · rw [heq]
      have hoff : o.con.offset = s.cidArrayOffset := by
        rw [hcon, offset]
        exact newId_mod h.cursor
      exact (h.enroll hfree hslot hoff _).runOn (by simp) (own.addToSenderQueue o.con).local
    · rw [heq]; exact h.moved _ _
  | startRecver hfree hreq =>
    rename_i r e complex d len
    have hsafe : RecvEnv.Admits e complex → _ := hsafe (complex, d, len) hreq
    generalize hres : s.startRecver complex d len r.remoteAddr e = res
    have hcases : Recver s complex d len r.remoteAddr e res := hres ▸ startRecver_cases h.cursor ..
    cases hcases with
    | turned => exact h
    | empty _ hadm h0 => exact absurd h0 (hsafe hadm).1
    | taken hadm _ hslot =>
      have h0 : s.cidArray 0 = .null := (hsafe hadm).2 hslot
      have heq : Function.update s.cidArray 0 .null = s.cidArray := by
        rw [← h0, Function.update_eq_self]
      simp only [setSlot, heq]
      exact h.moved _ _
    | refused => exact h.moved _ _
    | accepted hp hadm h0 hslot huid hc =>
      rename_i o
      have hoff : o.con.offset = s.cidArrayOffset := by
        obtain ⟨_, _, _, hcon⟩ := equipReader_some hc
        rw [hcon, offset]
        exact newId_mod h.cursor
      exact (h.enroll (hfree _ hp) hslot hoff _).runOn (by simp)
        (Own.receiveFirst complex d len o.con).local
  | data hd =>
    exact h.runOn (inSlot_some (delivered_some hd).1).1 (Local.connectionDoNetworkData _ _ _ _ _)
  | request hslot hx => exact h.runOn (inSlot_some hslot).1 (hx.stays _).toOwn.local
  | timeOut => exact (h.thinned _ _).connectionDoTimeOut _
  | sender => exact (h.thinned _ _).connectionDoSender _ _
  | idle => exact h

theorem Table.reach {s : Endpoint} (h : machine.ReachUnder TableSafe s) : Table s := by
  refine h.invariant ?_ fun s act s' hI hc hs => hI.step hc hs
  rintro s ⟨cursor, hcursor, actor, rfl⟩
  exact Table.started cursor actor hcursor

/-- Every connection keeps its slot to itself, and the counters count, as long as no REQUIRE of length 0
gets a reader and no reader is refused a slot while slot 0 is in use. -/
theorem table_of_tableSafe : ∀ s, machine.ReachUnder TableSafe s → s.Table := fun _ h => .reach h

/-- One byte to be sent. -/
def smallSend : SendArgs := ⟨[], some [1], 1, 0, .noDeleteAfterSend, none, 0, 0⟩

/-- A simple REQUIRE for one byte. -/
def oneByte : Datagram := ⟨.simpleFileRequire, 9, 1, 0, 1, [1]⟩

/-- A simple REQUIRE for more than a packet. -/
def twoPackets : Datagram := ⟨.simpleFileRequire, 9, 1, 0, 1453, []⟩

/-- A user who takes what comes. -/
def willing : RecvEnv := ⟨some 8, false, none, some [0], 0, 0⟩

/-- A user who does not. -/
def unwilling : RecvEnv := ⟨some 7, false, some ⟨false, false, none, none⟩, none, 0, 0⟩

/-- A send of one byte has slot 5 and a reader for one byte slot 6. -/
theorem table_of_tableSafe_both : ∃ s, machine.ReachUnder TableSafe s ∧
    s.heap.map (fun o => (o.con.offset, s.cidArray o.con.offset)) = [(6, .con 8), (5, .con 7)] ∧
      s.Table := by
  have hrun : (machine.runUnder TableSafe (start 5 0)
      [.startSender smallSend 7 9, .recv (oneByte.received 0) willing]).map
      (fun s => s.heap.map (fun o => (o.con.offset, s.cidArray o.con.offset))) =
        some [(6, .con 8), (5, .con 7)] := by decide +kernel
  obtain ⟨s, hs, hheap⟩ := Option.map_eq_some_iff.1 hrun
  have hreach : machine.ReachUnder TableSafe s :=
    Machine.ReachUnder.run (M := machine) (.init ⟨5, by decide, 0, rfl⟩) hs
  exact ⟨s, hreach, hheap, table_of_tableSafe s hreach⟩

/-- A REQUIRE of length 0 leaves its reader without a slot. -/
theorem exists_reader_without_slot : ∃ s, machine.Reach s ∧ ¬ s.Table := by
  have hrun : (machine.run (start 5 0)
    [.recv (Datagram.received ⟨.simpleFileRequire, 9, 1, 0, 0, []⟩ 0) willing]).map
      (fun s => s.heap.map (s.cidArray ·.con.offset)) = some [.null] := by decide +kernel
  obtain ⟨s, hs, hheap⟩ := Option.map_eq_some_iff.1 hrun
  refine ⟨s, Machine.ReachUnder.run (M := machine) (.init ⟨5, by decide, 0, rfl⟩) hs, fun h => ?_⟩
  obtain ⟨o, ho, hslot⟩ := List.mem_map.1 (hheap ▸ List.mem_singleton_self CidEntry.null)
  rcases h.owns o ho with hown | hown <;> rw [hslot] at hown <;> cases hown

end Endpoint

end Resend.Udp

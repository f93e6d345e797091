import Resend.Udp.Table

/-!
# Readers that wait for their second packet

`Recv_Wait_Ack_Queue` maps the label and the writer's id of a REQUIRE to the slot of the reader that
answers its duplicates, until the packet with sequence number 1452 comes in. `WaitAckOk` says that
the map has exactly the entries of the waiting readers. The insertion keeps an older entry with the
same key, a refusal does not undo it, the removal takes the writer's id from the datagram and the
readers' status bit is also the writers' `in_sender`; `WaitSafe` is what a run has to avoid.
-/

namespace Resend.Udp
open Handler Connection ConM

/-! ### The map -/

namespace WaitAckQueue
variable {q : WaitAckQueue} {key key' : Nat × Nat} {offset : Nat}

theorem lookup_erase (q : WaitAckQueue) (key key' : Nat × Nat) :
    (q.erase key).lookup key' = if key' = key then none else q.lookup key' := by
  unfold WaitAckQueue.erase
  induction q with
  | nil => simp
  | cons p q ih =>
    obtain ⟨k, off⟩ := p
    by_cases hk' : key' = k
    · subst hk'
      by_cases hk : key' = key
      · simpa [hk] using ih
      · simp [hk]
    · have hbeq : (key' == k) = false := by simpa using hk'
      by_cases hk : k = key
      · simpa [hk, List.lookup_cons, hk ▸ hbeq] using ih
      · simpa [hk, List.lookup_cons, hbeq] using ih

theorem erase_of_none (h : q.lookup key = none) : (q.erase key).lookup key' = q.lookup key' := by
  rw [lookup_erase]
  split
  · rename_i heq
    rw [heq, h]
  · rfl

theorem lookup_insert (h : q.lookup key = none) :
    (q.insert key offset).lookup key' = if key' = key then some offset else q.lookup key' := by
  rw [WaitAckQueue.insert, if_neg (by simp [h]), List.lookup_cons]
  by_cases hk : key' = key
  · simp [hk]
  · have hbeq : (key' == key) = false := by simpa using hk
    simp [hk, hbeq]

theorem insert_of_some (h : (q.lookup key).isSome = true) : q.insert key offset = q := by
  rw [WaitAckQueue.insert, if_pos h]

end WaitAckQueue

/-! ### Waiting -/

namespace Endpoint

/-- A reader that waits under `key`, its label and the id of its writer. -/
def Waits (c : Connection) (key : Nat × Nat) : Prop :=
  c.kind.isWriter = false ∧ c.has inRecvWaitAckQueueBit = true ∧ (c.requireDuplicateLabel, c.id1) = key

instance (c : Connection) (key : Nat × Nat) : Decidable (Waits c key) :=
  inferInstanceAs (Decidable (_ ∧ _ ∧ _))

/-- The map has the entries of the waiting readers and no others. -/
def WaitAckOk (s : Endpoint) : Prop :=
  ∀ key k, s.waitAck.lookup key = some k ↔
    ∃ o ∈ s.heap, Waits o.con key ∧ o.con.offset = k ∧
    (s.cidArray k = .con o.addr ∨ s.cidArray k = .suspend)

structure WaitInv (s : Endpoint) : Prop where
  table : Table s
  typed : ∀ o ∈ s.heap, o.con.has connectionTypeBit = o.con.kind.isWriter
  waits : ∀ key k, s.waitAck.lookup key = some k ↔ ∃ o ∈ s.heap, Waits o.con key ∧ o.con.offset = k

/-- What leaves a connection's place in the queue alone. -/
def Still (c c' : Connection) (es : List Effect) : Prop :=
  Own c c' es ∧ (c.kind.isWriter = false → Stays c c' es)

theorem Stays.still {c c' : Connection} {es : List Effect} (h : Stays c c' es) : Still c c' es :=
  ⟨h.toOwn, fun _ => h⟩

theorem Still.waits {c c' : Connection} {es : List Effect} (h : Still c c' es) (key : Nat × Nat) :
    Waits c' key ↔ Waits c key := by
  unfold Waits
  rw [h.1.kind]
  cases hk : c.kind.isWriter with
  | true => simp
  | false =>
    have hs := h.2 hk
    rw [hs.waits, hs.label, hs.id1]

theorem still_doNetworkData (c : Connection) (inc now seq sendTime : Nat) (data : List UInt8)
    (len : Int) :
    wp (doNetworkData inc now seq sendTime data len) (fun _ c' es => Still c c' es) c :=
  ⟨Own.doNetworkData inc now seq sendTime data len c,
    fun hr => Stays.readerDoNetworkData hr inc now seq sendTime data len⟩

theorem foldl_waitAck {o : Object} {c : Connection} {s : Endpoint} {es : List Effect}
    (hes : ∀ e ∈ es, e.ordinary c = true) : (es.foldl (effect o) s).waitAck = s.waitAck := by
  induction es generalizing s with
  | nil => rfl
  | cons e es ih =>
    have he : (s.effect o e).waitAck = s.waitAck := by
      have := hes e (by simp)
      cases e <;> first | rfl | cases this
    rw [List.foldl_cons, ih fun e he => hes e (by simp [he]), he]

namespace WaitInv
variable {s s' : Endpoint} {o : Object}

theorem ok (h : WaitInv s) : WaitAckOk s := by
  intro key k
  rw [h.waits]
  constructor
  · rintro ⟨o, ho, hw, rfl⟩
    exact ⟨o, ho, hw, rfl, h.table.owns o ho⟩
  · rintro ⟨o, ho, hw, hk, -⟩
    exact ⟨o, ho, hw, hk⟩

theorem unique (h : WaitInv s) {q : Object} {key : Nat × Nat} (ho : o ∈ s.heap) (hq : q ∈ s.heap)
    (hwo : Waits o.con key) (hwq : Waits q.con key) : q = o := by
  have h1 := (h.waits key o.con.offset).2 ⟨o, ho, hwo, rfl⟩
  have h2 := (h.waits key q.con.offset).2 ⟨q, hq, hwq, rfl⟩
  exact h.table.alone q hq o ho (Option.some.inj (h2.symm.trans h1))

/-- The connection `o` has become `c`: the map may lose the key `o` waited under. -/
theorem touched {c : Connection} {es : List Effect} (h : WaitInv s) (ho : o ∈ s.heap)
    (hc : Local o.con c es) (ht : Touched o (s.store o.addr c) s')
    (hmap : ∀ key, (s'.waitAck.lookup key = s.waitAck.lookup key ∧ (Waits c key ↔
      Waits o.con key)) ∨ (s'.waitAck.lookup key = none ∧ Waits o.con key ∧ ¬ Waits c key)) :
    WaitInv s' := by
  have hoff : c.offset = o.con.offset := by rw [offset, offset, hc.id0]
  refine ⟨h.table.touched ho hc ht, ?_, ?_⟩
  · intro q hq
    rw [ht.heap] at hq
    rcases (mem_store h.table.addrs ho).1 hq with rfl | ⟨hq, -⟩
    · exact hc.type.trans ((h.typed o ho).trans (by rw [hc.kind]))
    · exact h.typed q hq
  · intro key k
    rw [ht.heap]
    rcases hmap key with ⟨heq, hiff⟩ | ⟨hnone, hold, hnew⟩
    · rw [heq, h.waits]
      constructor
      · rintro ⟨q, hq, hw, hk⟩
        by_cases ha : q.addr = o.addr
        · obtain rfl := eq_of_addr h.table.addrs ho hq ha
          exact ⟨_, (mem_store h.table.addrs ho).2 (.inl rfl), hiff.2 hw, hoff.trans hk⟩
        · exact ⟨q, (mem_store h.table.addrs ho).2 (.inr ⟨hq, ha⟩), hw, hk⟩
      · rintro ⟨q, hq, hw, hk⟩
        rcases (mem_store h.table.addrs ho).1 hq with rfl | ⟨hq, -⟩
        · exact ⟨o, ho, hiff.1 hw, hoff.symm.trans hk⟩
        · exact ⟨q, hq, hw, hk⟩
    · rw [hnone]
      refine ⟨fun hk => (by cases hk), ?_⟩
      rintro ⟨q, hq, hw, -⟩
      rcases (mem_store h.table.addrs ho).1 hq with rfl | ⟨hq, ha⟩
      · exact absurd hw hnew
      · exact absurd (h.unique ho hq hold hw) (fun heq => ha (by rw [heq]))

theorem runOn_still {x : ConM Unit} (h : WaitInv s) (ho : o ∈ s.heap)
    (hx : wp x (fun _ c' es => Still o.con c' es) o.con) : WaitInv (s.runOn o x) := by
  have hlocal : wp x (fun _ c' es => Local o.con c' es) o.con := wp_mono _ hx fun _ _ _ h => h.1.local
  have hstill := wp_exec x hx
  refine h.touched ho (wp_exec x hlocal) (runOn_touched hlocal) fun key => .inl ⟨?_, hstill.waits key⟩
  unfold runOn
  rw [foldl_waitAck hstill.1.effects]
  rfl

theorem freed (h : WaitInv s) (ho : o ∈ s.heap) (hf : Freed o s s') : WaitInv s' := by
  have hmem : ∀ q, q ∈ s'.heap ↔ q ∈ s.heap ∧ q.addr ≠ o.addr := by simp [hf.heap]
  have hmap : ∀ key, s'.waitAck.lookup key = if Waits o.con key then none
      else s.waitAck.lookup key := by
    intro key
    have htyped := h.typed o ho
    rw [hf.waitAck]
    cases hk : o.con.kind.isWriter with
    | true =>
      rw [hk] at htyped
      rw [if_neg (by simp [htyped]), if_neg (by simp [Waits, hk])]
    | false =>
      rw [hk] at htyped
      cases h4 : o.con.has inRecvWaitAckQueueBit with
      | true =>
        rw [if_pos (by simp [htyped]), WaitAckQueue.lookup_erase]
        simp [Waits, hk, h4, labelField, eq_comm]
      | false => rw [if_neg (by simp), if_neg (by simp [Waits, h4])]
  refine ⟨h.table.freed ho hf, fun q hq => h.typed q ((hmem q).1 hq).1, ?_⟩
  intro key k
  rw [hmap]
  by_cases hw : Waits o.con key
  · rw [if_pos hw]
    refine ⟨fun hk => (by cases hk), ?_⟩
    rintro ⟨q, hq, hwq, -⟩
    obtain ⟨hq, ha⟩ := (hmem q).1 hq
    exact absurd (h.unique ho hq hw hwq) (fun heq => ha (by rw [heq]))
  · rw [if_neg hw, h.waits]
    constructor
    · rintro ⟨q, hq, hwq, hk⟩
      have ha : q.addr ≠ o.addr := fun ha => hw (eq_of_addr h.table.addrs ho hq ha ▸ hwq)
      exact ⟨q, (hmem q).2 ⟨hq, ha⟩, hwq, hk⟩
    · rintro ⟨q, hq, hwq, hk⟩
      exact ⟨q, ((hmem q).1 hq).1, hwq, hk⟩

theorem started (cursor actor : Nat) (h : cursor < maxConnectionCount) : WaitInv (start cursor actor) :=
  ⟨.started cursor actor h, by simp [start], by simp [start]⟩

theorem thinned (h : WaitInv s) (timers : List TimerParm) (queue : List SendEntry) :
    WaitInv { s with timers := timers, sendQueue := queue } :=
  ⟨h.table.thinned timers queue, h.typed, h.waits⟩

theorem connectionDoTimeOut (h : WaitInv s) (t : TimerParm) : WaitInv (s.connectionDoTimeOut t) := by
  unfold Endpoint.connectionDoTimeOut
  cases htgt : (s.target t).bind s.object with
  | none => exact h
  | some o =>
    obtain ⟨addr, -, hobj⟩ := Option.bind_eq_some_iff.1 htgt
    have ho := (object_some hobj).1
    rcases doTimeOut_own_or_frees o.con t.timeoutType t.runningCount with hx | hx
    · exact h.runOn_still ho hx
    · exact h.freed ho (runOn_freed hx)

theorem enroll_writer (h : WaitInv s) (hfree : s.Free o.addr)
    (hslot : s.cidArray s.cidArrayOffset = .null) (hoff : o.con.offset = s.cidArrayOffset)
    (hw : o.con.kind.isWriter = true) (ht : o.con.has connectionTypeBit = true) :
    WaitInv (s.enroll o s.waitAck) := by
  refine ⟨h.table.enroll hfree hslot hoff _, ?_, ?_⟩
  · intro q hq
    rcases List.mem_cons.1 hq with rfl | hq
    · rw [ht, hw]
    · exact h.typed q hq
  · intro key k
    refine (h.waits key k).trans ⟨?_, ?_⟩
    · rintro ⟨q, hq, hrest⟩
      exact ⟨q, List.mem_cons_of_mem _ hq, hrest⟩
    · rintro ⟨q, hq, hwq, hk⟩
      rcases List.mem_cons.1 hq with rfl | hq
      · rw [Waits, hw] at hwq
        cases hwq.1
      · exact ⟨q, hq, hwq, hk⟩

theorem enroll_reader {key : Nat × Nat} (h : WaitInv s) (hfree : s.Free o.addr)
    (hslot : s.cidArray s.cidArrayOffset = .null) (hoff : o.con.offset = s.cidArrayOffset)
    (hw : Waits o.con key) (ht : o.con.has connectionTypeBit = false)
    (hkey : s.waitAck.lookup key = none) :
    WaitInv (s.enroll o (s.waitAck.insert key s.cidArrayOffset)) := by
  refine ⟨h.table.enroll hfree hslot hoff _, ?_, ?_⟩
  · intro q hq
    rcases List.mem_cons.1 hq with rfl | hq
    · rw [ht, hw.1]
    · exact h.typed q hq
  · intro key' k
    change (s.waitAck.insert key s.cidArrayOffset).lookup key' = some k ↔ _
    rw [WaitAckQueue.lookup_insert hkey]
    by_cases hk : key' = key
    · subst hk
      rw [if_pos rfl]
      constructor
      · rintro heq
        cases heq
        exact ⟨o, List.mem_cons_self, hw, hoff⟩
      · rintro ⟨q, hq, hwq, hk⟩
        rcases List.mem_cons.1 hq with rfl | hq
        · rw [← hk, hoff]
        · rw [(h.waits key' q.con.offset).2 ⟨q, hq, hwq, rfl⟩] at hkey
          cases hkey
    · rw [if_neg hk, h.waits]
      constructor
      · rintro ⟨q, hq, hrest⟩
        exact ⟨q, List.mem_cons_of_mem _ hq, hrest⟩
      · rintro ⟨q, hq, hwq, hkq⟩
        rcases List.mem_cons.1 hq with rfl | hq
        · exact absurd (hwq.2.2.symm.trans hw.2.2) hk
        · exact ⟨q, hq, hwq, hkq⟩

end WaitInv

/-! ### Sequence number 1452 -/

/-- A packet with sequence number 1452 comes from the writer that a waiting reader knows. To a
writer that is in the sender queue a data packet does no harm if its key is in nobody's use. -/
def AdoptSafe (s : Endpoint) (c : Connection) (d : Datagram) : Prop :=
  d.dtNote = packetMaxDataLength → c.has inRecvWaitAckQueueBit = true →
    if c.kind.isWriter = false then d.fromId = c.id1
    else d.msgType = .simpleFileData ∨ d.msgType = .complexFileData →
      s.waitAck.lookup (c.labelField, d.fromId) = none

instance (s : Endpoint) (c : Connection) (d : Datagram) : Decidable (AdoptSafe s c d) :=
  inferInstanceAs (Decidable (d.dtNote = packetMaxDataLength → c.has inRecvWaitAckQueueBit = true →
    if c.kind.isWriter = false then d.fromId = c.id1 else _ ∨ _ → _ = none))

/-- How the map follows a connection that has become `c'`. -/
def Follows (q q' : WaitAckQueue) (c c' : Connection) : Prop :=
  ∀ key, (q'.lookup key = q.lookup key ∧ (Waits c' key ↔ Waits c key)) ∨
    (q'.lookup key = none ∧ Waits c key ∧ ¬ Waits c' key)

theorem Follows.still {q q' : WaitAckQueue} {c c' c'' : Connection} {es : List Effect}
    (h : Follows q q' c c') (hs : Still c' c'' es) : Follows q q' c c'' := by
  intro key
  rw [hs.waits]
  exact h key

theorem follows_adoptPeer {s : Endpoint} {c : Connection} {d : Datagram} (hsafe : AdoptSafe s c d)
    (hseq : d.dtNote = packetMaxDataLength) (o : Object) (s₀ : Endpoint)
    (hs₀ : s₀.waitAck = s.waitAck) :
    wp (adoptPeer d.msgType d.fromId)
      (fun _ c' es => Follows s.waitAck (es.foldl (effect o) s₀).waitAck c c') c := by
  have hdata : (d.msgType = .simpleFileData ∨ d.msgType = .complexFileData) →
      Follows s.waitAck ((if c.has inRecvWaitAckQueueBit then
        [Effect.eraseWaitAck c.labelField d.fromId] else []).foldl (effect o) s₀).waitAck c
          { c with status := (c.status.testAndReset inRecvWaitAckQueueBit).2 } := by
    intro hm key
    cases h4 : c.has inRecvWaitAckQueueBit with
    | false => exact .inl ⟨by simp [hs₀], by simp [Waits, h4]⟩
    | true =>
      have hsafe := hsafe hseq h4
      have hmap : ([Effect.eraseWaitAck c.labelField d.fromId].foldl (effect o) s₀).waitAck =
          s.waitAck.erase (c.labelField, d.fromId) := by rw [← hs₀]; rfl
      rw [if_pos rfl, hmap]
      cases hk : c.kind.isWriter with
      | true =>
        rw [if_neg (by simp [hk])] at hsafe
        exact .inl ⟨WaitAckQueue.erase_of_none (hsafe hm), by simp [Waits, hk]⟩
      | false =>
        rw [if_pos hk] at hsafe
        rw [hsafe, WaitAckQueue.lookup_erase, labelField, hk]
        by_cases hkey : key = (c.requireDuplicateLabel, c.id1)
        · exact .inr ⟨by simp [hkey], by simp [Waits, hk, h4, hkey], by simp [Waits]⟩
        · exact .inl ⟨by simp [hkey], by simp [Waits, hk, Ne.symm hkey]⟩
  have hack : Follows s.waitAck s₀.waitAck c { c with id1 := d.fromId } := by
    intro key
    have hid : c.kind.isWriter = false → c.has inRecvWaitAckQueueBit = true → d.fromId = c.id1 := by
      intro hk h4
      have hsafe := hsafe hseq h4
      rwa [if_pos hk] at hsafe
    refine .inl ⟨by rw [hs₀], ?_⟩
    constructor
    · rintro ⟨hk, h4, hkey⟩
      exact ⟨hk, h4, by rw [← hkey, hid hk h4]⟩
    · rintro ⟨hk, h4, hkey⟩
      exact ⟨hk, h4, by rw [← hkey]; simp [hid hk h4]⟩
  have hidle : Follows s.waitAck s₀.waitAck c c := fun key => .inl ⟨by rw [hs₀], Iff.rfl⟩
  rw [wp_adoptPeer]
  cases hm : d.msgType with
  | simpleFileData => exact hdata (.inl hm)
  | complexFileData => exact hdata (.inr hm)
  | simpleFileAck | complexFileAck | complexFileSack => exact hack
  | _ => exact hidle

theorem follows_connectionDoNetworkData {s : Endpoint} {c : Connection} {d : Datagram}
    (hsafe : AdoptSafe s c d) (o : Object) (s₀ : Endpoint) (hs₀ : s₀.waitAck = s.waitAck)
    (inc now : Nat) (len : Int) :
    wp (ConM.connectionDoNetworkData inc now d len)
      (fun _ c' es => Follows s.waitAck (es.foldl (effect o) s₀).waitAck c c') c := by
  rw [ConM.connectionDoNetworkData, wp_bind, wp_when]
  split
  · rename_i hseq
    refine wp_mono _ (follows_adoptPeer hsafe hseq o s₀ hs₀) fun _ c₁ es₁ h => ?_
    refine wp_mono _ (still_doNetworkData c₁ inc now d.dtNote d.sendTime d.data
      len) fun _ c₂ es₂ h₂ => ?_
    rw [List.foldl_append, foldl_waitAck h₂.1.effects]
    exact h.still h₂
  · refine wp_mono _ (still_doNetworkData c inc now d.dtNote d.sendTime d.data
      len) fun _ c₂ es₂ h₂ => ?_
    rw [List.nil_append, foldl_waitAck h₂.1.effects, hs₀]
    intro key
    exact .inl ⟨rfl, h₂.waits key⟩

theorem WaitInv.data {s : Endpoint} {o : Object} {d : Datagram} (h : WaitInv s) (ho : o ∈ s.heap)
    (hsafe : AdoptSafe s o.con d) (inc now : Nat) (len : Int) :
    WaitInv (s.runOn o (ConM.connectionDoNetworkData inc now d len)) := by
  have hlocal := Local.connectionDoNetworkData inc now d len o.con
  refine h.touched ho (wp_exec _ hlocal) (runOn_touched hlocal) ?_
  exact follows_connectionDoNetworkData hsafe o (s.store o.addr _) rfl inc now len

/-! ### Runs -/

/-- What a run has to avoid: a table in disorder, a REQUIRE that is accepted under a key in use or
refused after its key was inserted, a strange sender of a packet 1452, and a sender run on a reader.
-/
def WaitSafe (s : Endpoint) : Act → Prop
  | .recv r e => s.TableSafe (.recv r e) ∧
    (∀ q ∈ s.required r, RecvEnv.Admits e q.1 → s.cidArray s.cidArrayOffset = .null →
      ((equipReader e.attr e.buffer (waitingReader (newReader q.1 q.2.1) s.newId r.remoteAddr)).isSome ↔
        (s.waitAck.lookup (q.2.1.toId, q.2.1.fromId)).isNone)) ∧
    ∀ p ∈ s.delivered r, AdoptSafe s p.1.con p.2
  | .sender j _ => ∀ q ∈ s.sendQueue[j]?, ∀ o ∈ s.inSlot q.offset, o.con.kind.isWriter = true
  | _ => True

instance (s : Endpoint) : (act : Act) → Decidable (s.WaitSafe act)
  | .recv r e =>
    inferInstanceAs (Decidable (s.TableSafe (.recv r e) ∧
      (∀ q ∈ s.required r, RecvEnv.Admits e q.1 → s.cidArray s.cidArrayOffset = .null → (_ ↔ _)) ∧
      ∀ p ∈ s.delivered r, AdoptSafe s p.1.con p.2))
  | .sender _ _ => inferInstanceAs (Decidable (∀ q ∈ _, ∀ o ∈ _, _))
  | .startSender .. | .timeOut _ | .stop _ => inferInstanceAs (Decidable True)

theorem waits_newReader {complex : Bool} {d : Datagram} {id addr : Nat}
    {attr : Option RecvVerificationAttribute} {buffer : Option (List UInt8)} {c : Connection}
    (hc : equipReader attr buffer (waitingReader (newReader complex d) id addr) = some c) :
    Waits c (d.toId, d.fromId) ∧ c.has connectionTypeBit = false ∧ c.id0 = id := by
  obtain ⟨_, _, _, rfl⟩ := equipReader_some hc
  cases complex
  all_goals
    exact ⟨⟨rfl, by simp [waitingReader, newReader], rfl⟩,
      by simp [waitingReader, newReader, construct], rfl⟩

theorem newWriter_type (a : SendArgs) (id0 id1 : Nat) :
    (newWriter a id0 id1).kind.isWriter = true ∧
      (newWriter a id0 id1).has connectionTypeBit = true := by
  unfold newWriter
  split
  · exact ⟨rfl, by simp⟩
  · exact ⟨rfl, by simp⟩

namespace WaitInv
variable {s s' : Endpoint} {o : Object}

theorem step {act : Act} (h : WaitInv s) (hsafe : s.WaitSafe act) (hs : s.step act = some s') :
    WaitInv s' := by
  cases step_cases hs with
  | startSender hfree =>
    rename_i a addr label
    rcases s.startSender_cases a addr label with ⟨hslot, o, rfl, -, hcon, heq⟩ | ⟨-, heq⟩
    · rw [heq]
      have hoff : o.con.offset = s.cidArrayOffset := by
        rw [hcon, offset]
        exact newId_mod h.table.cursor
      obtain ⟨hw, ht⟩ := newWriter_type a s.newId label
      rw [← hcon] at hw ht
      refine (h.enroll_writer hfree hslot hoff hw ht).runOn_still List.mem_cons_self
        ⟨own.addToSenderQueue o.con, ?_⟩
      intro hr
      rw [hw] at hr
      cases hr
    · rw [heq]; exact ⟨h.table.moved _ _, h.typed, h.waits⟩
  | startRecver hfree hreq =>
    rename_i r e complex d len
    obtain ⟨htable, hkey, -⟩ := hsafe
    have htable : RecvEnv.Admits e complex → _ := htable (complex, d, len) hreq
    have hkey : RecvEnv.Admits e complex → _ := hkey (complex, d, len) hreq
    generalize hres : s.startRecver complex d len r.remoteAddr e = res
    have hcases : Recver s complex d len r.remoteAddr e res :=
      hres ▸ startRecver_cases h.table.cursor ..
    cases hcases with
    | turned => exact h
    | empty _ hadm h0 => exact absurd h0 (htable hadm).1
    | taken hadm _ hslot =>
      have h0 : s.cidArray 0 = .null := (htable hadm).2 hslot
      have heq : Function.update s.cidArray 0 .null = s.cidArray := by
        rw [← h0, Function.update_eq_self]
      simp only [setSlot, heq]
      exact ⟨h.table.moved _ _, h.typed, h.waits⟩
    | refused hadm h0 hslot hc =>
      have hsome : (s.waitAck.lookup (d.toId, d.fromId)).isSome = true := by
        have hiff := hkey hadm hslot
        simp only [hc] at hiff
        cases hlook : s.waitAck.lookup (d.toId, d.fromId) with
        | none => simp [hlook] at hiff
        | some k => rfl
      rw [WaitAckQueue.insert_of_some hsome]
      exact ⟨h.table.moved _ _, h.typed, h.waits⟩
    | accepted hp hadm h0 hslot huid hc =>
      rename_i o
      obtain ⟨hw, ht, hid⟩ := waits_newReader hc
      have hoff : o.con.offset = s.cidArrayOffset := by rw [offset, hid, newId_mod h.table.cursor]
      have hnone : s.waitAck.lookup (d.toId, d.fromId) = none := by
        have hiff := hkey hadm hslot
        simp only [hc, Option.isSome_some, true_iff] at hiff
        exact Option.isNone_iff_eq_none.1 hiff
      exact (h.enroll_reader (hfree _ hp) hslot hoff hw ht hnone).runOn_still List.mem_cons_self
        (Stays.still (Stays.receiveFirst hw.1 complex d len))
  | data hd =>
    rename_i r e o d len
    have hadopt : AdoptSafe s o.con d := hsafe.2.2 (o, d) hd
    exact h.data (inSlot_some (delivered_some hd).1).1 hadopt _ _ _
  | request hslot hx => exact h.runOn_still (inSlot_some hslot).1 (Stays.still (hx.stays _))
  | timeOut => exact (h.thinned _ _).connectionDoTimeOut _
  | sender hq =>
    rename_i j q clock
    have h' : WaitInv { s with sendQueue := s.sendQueue.eraseIdx j } := h.thinned _ _
    unfold Endpoint.connectionDoSender
    split
    · exact h'
    · rename_i o ho
      have hw : o.con.kind.isWriter = true := hsafe q hq o ho
      refine h'.runOn_still (inSlot_some ho).1 ⟨Own.connectionDoSender clock o.con, fun hr => ?_⟩
      rw [hw] at hr
      cases hr
  | idle => exact h

end WaitInv

/-- The map has exactly the entries of the waiting readers in every run that keeps to `WaitSafe`. -/
theorem waitAckOk_of_waitSafe {s : Endpoint} (h : machine.ReachUnder WaitSafe s) : s.WaitAckOk := by
  refine (h.invariant (I := WaitInv) ?_ fun s act s' hI hc hs => hI.step hc hs).ok
  rintro s ⟨cursor, hcursor, actor, rfl⟩
  exact WaitInv.started cursor actor hcursor

/-- A reader for two packets waits with its entry, and the second packet takes the entry out. -/
theorem waitAckOk_of_waitSafe_second :
    ∃ s s', machine.ReachUnder WaitSafe s ∧ machine.ReachUnder WaitSafe s' ∧
      s.waitAck = [((9, 1), 5)] ∧ s'.waitAck = [] ∧ s.WaitAckOk ∧ s'.WaitAckOk := by
  have hrun : (machine.runUnder WaitSafe (start 5 0) [.recv (twoPackets.received 0) willing]).map
      (·.waitAck) = some [((9, 1), 5)] := by decide +kernel
  have hrun' : (machine.runUnder WaitSafe (start 5 0) [.recv (twoPackets.received 0) willing,
      .recv (Datagram.received ⟨.simpleFileData, 5, 1, 0, 1452, [1]⟩ 0)
        { willing with addr := none }]).map (·.waitAck) = some [] := by
    decide +kernel
  obtain ⟨s, hs, hres⟩ := Option.map_eq_some_iff.1 hrun
  obtain ⟨s', hs', hres'⟩ := Option.map_eq_some_iff.1 hrun'
  have hreach : machine.ReachUnder WaitSafe s :=
    Machine.ReachUnder.run (M := machine) (.init ⟨5, by decide, 0, rfl⟩) hs
  have hreach' : machine.ReachUnder WaitSafe s' :=
    Machine.ReachUnder.run (M := machine) (.init ⟨5, by decide, 0, rfl⟩) hs'
  exact ⟨s, s', hreach, hreach', hres, hres', waitAckOk_of_waitSafe hreach,
    waitAckOk_of_waitSafe hreach'⟩

/-- A refused REQUIRE leaves its entry behind. -/
theorem exists_entry_without_reader : ∃ s, machine.Reach s ∧ ¬ s.WaitAckOk := by
  have hrun : (machine.run (start 5 0) [.recv (oneByte.received 0) unwilling]).map
      (fun s => (s.heap.map (·.addr), s.waitAck)) = some ([], [((9, 1), 5)]) := by decide +kernel
  obtain ⟨s, hs, hres⟩ := Option.map_eq_some_iff.1 hrun
  simp only [Prod.mk.injEq, List.map_eq_nil_iff] at hres
  refine ⟨s, Machine.ReachUnder.run (M := machine) (.init ⟨5, by decide, 0, rfl⟩) hs, fun h => ?_⟩
  obtain ⟨o, ho, -⟩ := (h (9, 1) 5).1 (by rw [hres.2]; rfl)
  rw [hres.1] at ho
  cases ho

end Endpoint

end Resend.Udp

import Resend.Udp.Endpoint
import Resend.Udp.Locality

/-!
# Steps of the endpoint

What one action can do to the connection table. A connection that runs either only touches its own
slot (`Touched`) or releases it and is gone (`Freed`); everything else an action does is the
creation of a connection or its refusal. `step_cases` lists the possibilities, and the invariants of
the table are proved from it.
-/

namespace Resend.Udp
open Handler Connection ConM

namespace Endpoint

/-! ### Lookups -/

section lookups
variable {s : Endpoint} {addr k : Nat} {o : Object}

theorem object_some (h : s.object addr = some o) : o ∈ s.heap ∧ o.addr = addr :=
  ⟨List.mem_of_find?_eq_some h, by simpa using List.find?_some h⟩

theorem object_none : s.object addr = none ↔ ∀ o ∈ s.heap, o.addr ≠ addr := by simp [object]

theorem inSlot_some (h : s.inSlot k = some o) : o ∈ s.heap ∧ s.cidArray k = .con o.addr := by
  unfold inSlot at h
  split at h
  · rename_i addr hcid
    obtain ⟨hmem, rfl⟩ := object_some h
    exact ⟨hmem, hcid⟩
  · cases h

theorem addressed_some {id : Nat} (h : s.addressed id = some o) :
    s.inSlot (id % maxConnectionCount) = some o ∧ o.con.id0 = id := by
  simpa [addressed, Option.filter_eq_some_iff] using h

end lookups

/-! ### One connection runs -/

/-- The endpoint after `o` did things that concern its own slot only. -/
structure Touched (o : Object) (s s' : Endpoint) : Prop where
  heap : s'.heap = s.heap
  counts : s'.counts = s.counts
  cursor : s'.cidArrayOffset = s.cidArrayOffset
  uid : s'.nextUid = s.nextUid
  slots : ∀ k ≠ o.con.offset, s'.cidArray k = s.cidArray k
  slot : s'.cidArray o.con.offset = s.cidArray o.con.offset ∨ s'.cidArray o.con.offset = .suspend
  timers : ∀ t ∈ s'.timers, t ∈ s.timers ∨
    (t.connectionOffset = o.con.offset ∧ t.connectionAddr = o.addr ∧ t.armedBy = o.uid)
  queue : ∀ q ∈ s'.sendQueue, q ∈ s.sendQueue ∨ (q.offset = o.con.offset ∧ q.addedBy = o.uid)

namespace Touched
variable {o : Object} {s s' s'' : Endpoint}

theorem refl (o : Object) (s : Endpoint) : Touched o s s :=
  ⟨rfl, rfl, rfl, rfl, fun _ _ => rfl, .inl rfl, fun _ h => .inl h, fun _ h => .inl h⟩

theorem trans (h : Touched o s s') (h' : Touched o s' s'') : Touched o s s'' where
  heap := h'.heap.trans h.heap
  counts := h'.counts.trans h.counts
  cursor := h'.cursor.trans h.cursor
  uid := h'.uid.trans h.uid
  slots k hk := (h'.slots k hk).trans (h.slots k hk)
  slot := by
    rcases h'.slot with h1 | h1
    · rw [h1]; exact h.slot
    · exact .inr h1
  timers t ht := by
    rcases h'.timers t ht with ht | ht
    · exact h.timers t ht
    · exact .inr ht
  queue q hq := by
    rcases h'.queue q hq with hq | hq
    · exact h.queue q hq
    · exact .inr hq

theorem effect {e : Effect} (he : e.ordinary o.con = true ∨ ∃ label id, e = .eraseWaitAck label id) :
    Touched o s (s.effect o e) := by
  rcases he with he | ⟨label, id, rfl⟩
  · cases e with
    | addTimer due t rc off =>
      obtain rfl : off = o.con.offset := by simpa [Effect.ordinary] using he
      refine ⟨rfl, rfl, rfl, rfl, fun _ _ => rfl, .inl rfl, fun t ht => ?_, fun _ h => .inl h⟩
      rcases List.mem_append.1 ht with ht | ht
      · exact .inl ht
      · rw [List.mem_singleton.1 ht]; exact .inr ⟨rfl, rfl, rfl⟩
    | addToSendQueue off =>
      obtain rfl : off = o.con.offset := by simpa [Effect.ordinary] using he
      refine ⟨rfl, rfl, rfl, rfl, fun _ _ => rfl, .inl rfl, fun _ h => .inl h, fun q hq => ?_⟩
      rcases List.mem_append.1 hq with hq | hq
      · exact .inl hq
      · rw [List.mem_singleton.1 hq]; exact .inr ⟨rfl, rfl⟩
    | suspendConnectionID off =>
      obtain rfl : off = o.con.offset := by simpa [Effect.ordinary] using he
      exact ⟨rfl, rfl, rfl, rfl, fun k hk => Function.update_of_ne hk _ _,
        .inr (Function.update_self ..), fun _ h => .inl h, fun _ h => .inl h⟩
    | releaseConnectionID | freeConnection | eraseWaitAck => cases he
    | _ => exact refl o s
  · exact ⟨rfl, rfl, rfl, rfl, fun _ _ => rfl, .inl rfl, fun _ h => .inl h, fun _ h => .inl h⟩

theorem foldl {es : List Effect}
    (hes : ∀ e ∈ es, e.ordinary o.con = true ∨ ∃ label id, e = .eraseWaitAck label id) :
    Touched o s (es.foldl (Endpoint.effect o) s) := by
  induction es generalizing s with
  | nil => exact refl o s
  | cons e es ih =>
    exact (effect (hes e (by simp))).trans (ih fun e he => hes e (by simp [he]))

end Touched

theorem runOn_touched {s : Endpoint} {o : Object} {x : ConM Unit}
    (hx : wp x (fun _ c' es => Local o.con c' es) o.con) :
    Touched o (s.store o.addr (exec x o.con).1) (s.runOn o x) :=
  Touched.foldl (wp_exec x hx).effects

/-- The endpoint after `o` has released its slot and was freed. -/
structure Freed (o : Object) (s s' : Endpoint) : Prop where
  heap : s'.heap = s.heap.filter (·.addr ≠ o.addr)
  counts : s'.counts = Function.update s.counts o.con.kind (s.counts o.con.kind - 1)
  cursor : s'.cidArrayOffset = s.cidArrayOffset
  uid : s'.nextUid = s.nextUid
  slots : s'.cidArray = Function.update s.cidArray o.con.offset .null
  timers : s'.timers = s.timers
  queue : s'.sendQueue = s.sendQueue
  waitAck : s'.waitAck = if ¬ o.con.has connectionTypeBit ∧ o.con.has inRecvWaitAckQueueBit then
    s.waitAck.erase (o.con.labelField, o.con.id1) else s.waitAck

theorem foldl_inert {o : Object} {s : Endpoint} {es : List Effect} (hes : ∀ e ∈ es, e.inert = true) :
    es.foldl (effect o) s = s := by
  induction es with
  | nil => rfl
  | cons e es ih =>
    have he : s.effect o e = s := by
      have := hes e (by simp)
      cases e <;> first | rfl | cases this
    rw [List.foldl_cons, he]
    exact ih fun e he => hes e (by simp [he])

theorem filter_store {s : Endpoint} {addr : Nat} {c : Connection} :
    (s.store addr c).heap.filter (·.addr ≠ addr) = s.heap.filter (·.addr ≠ addr) := by
  simp only [store]
  induction s.heap with
  | nil => rfl
  | cons q heap ih =>
    by_cases hq : q.addr = addr
    · simpa [hq] using ih
    · simpa [hq] using ih

theorem runOn_freed {s : Endpoint} {o : Object} {x : ConM Unit}
    (hx : wp x (fun _ _ es => Frees o.con es) o.con) :
    Freed o s (s.runOn o x) := by
  obtain ⟨pre, hes, hpre⟩ := wp_exec x (P := fun _ es => Frees o.con es) hx
  unfold runOn
  rw [hes, List.foldl_append, foldl_inert hpre]
  unfold Connection.erased
  by_cases hw : ¬ o.con.has connectionTypeBit ∧ o.con.has inRecvWaitAckQueueBit
  · rw [if_pos hw]
    exact ⟨filter_store, rfl, rfl, rfl, rfl, rfl, rfl, by rw [if_pos hw]; rfl⟩
  · rw [if_neg hw]
    exact ⟨filter_store, rfl, rfl, rfl, rfl, rfl, rfl, by rw [if_neg hw]; rfl⟩

/-! ### Creation -/

/-- The cursor of `create_connectionID` after it has tried a slot. -/
def nextCursor (s : Endpoint) : Nat :=
  if s.cidArrayOffset + 1 = maxConnectionCount then 1 else s.cidArrayOffset + 1

/-- The id that goes with the slot at the cursor. -/
def newId (s : Endpoint) : Nat := s.cidArrayOffset + s.verificationActor % 2 ^ 12 * maxConnectionCount

theorem newId_mod {s : Endpoint} (h : s.cidArrayOffset < maxConnectionCount) :
    s.newId % maxConnectionCount = s.cidArrayOffset := by
  rw [newId, Nat.add_mul_mod_self_right, Nat.mod_eq_of_lt h]

theorem createConnectionID_null {s : Endpoint} (addr : Nat) (h : s.cidArray s.cidArrayOffset = .null) :
    s.createConnectionID addr = (some s.newId,
      { s with
        cidArray := Function.update s.cidArray s.cidArrayOffset (.con addr)
        cidArrayOffset := s.nextCursor
        verificationActor := s.verificationActor + 1 }) := by
  simp only [createConnectionID, h]
  rfl

theorem createConnectionID_taken {s : Endpoint} (addr : Nat) (h : s.cidArray s.cidArrayOffset ≠ .null) :
    s.createConnectionID addr = (none, { s with cidArrayOffset := s.nextCursor }) := by
  cases hcid : s.cidArray s.cidArrayOffset with
  | null => exact absurd hcid h
  | suspend | con => simp only [createConnectionID, hcid]; rfl

/-- The object `o` gets the slot at the cursor. -/
def enroll (s : Endpoint) (o : Object) (waitAck : WaitAckQueue) : Endpoint :=
  { s with
    cidArray := Function.update s.cidArray s.cidArrayOffset (.con o.addr)
    cidArrayOffset := s.nextCursor
    verificationActor := s.verificationActor + 1
    heap := o :: s.heap
    counts := Function.update s.counts o.con.kind (s.counts o.con.kind + 1)
    waitAck := waitAck
    nextUid := s.nextUid + 1 }

@[simp] theorem enroll_heap (s : Endpoint) (o : Object) (w : WaitAckQueue) :
    (s.enroll o w).heap = o :: s.heap := rfl

theorem enroll_slot_self (s : Endpoint) (o : Object) (w : WaitAckQueue) :
    (s.enroll o w).cidArray s.cidArrayOffset = .con o.addr :=
  Function.update_self ..

theorem enroll_slot_of_ne {s : Endpoint} {k : Nat} (o : Object) (w : WaitAckQueue)
    (hk : k ≠ s.cidArrayOffset) :
    (s.enroll o w).cidArray k = s.cidArray k :=
  Function.update_of_ne hk _ _

theorem startSender_cases (s : Endpoint) (a : SendArgs) (addr label : Nat) :
    (s.cidArray s.cidArrayOffset = .null ∧ ∃ o : Object, o.addr = addr ∧ o.uid = s.nextUid ∧
      o.con = newWriter a s.newId label ∧
      s.startSender a addr label = (s.enroll o s.waitAck).runOn o ConM.addToSenderQueue) ∨
    (s.cidArray s.cidArrayOffset ≠ .null ∧
      s.startSender a addr label = { s with cidArrayOffset := s.nextCursor }) := by
  by_cases h : s.cidArray s.cidArrayOffset = .null
  · refine .inl ⟨h, ⟨addr, s.nextUid, newWriter a s.newId label⟩, rfl, rfl, rfl, ?_⟩
    rw [startSender, createConnectionID_null addr h]
    rfl
  · refine .inr ⟨h, ?_⟩
    rw [startSender, createConnectionID_taken addr h]

/-- `start_recver` gets as far as a reader. -/
def RecvEnv.Admits (e : RecvEnv) (complex : Bool) : Prop :=
  e.addr.isSome ∧ ¬ (complex ∧ e.needVerification ∧ e.attr.isNone)

instance (e : RecvEnv) (complex : Bool) : Decidable (RecvEnv.Admits e complex) :=
  inferInstanceAs (Decidable (_ ∧ _))

/-- What `start_recver` can do: nothing for want of a reader, a reader of length 0 that is left
behind, a refusal without or with a slot, or a new reader. -/
inductive Recver (s : Endpoint) (complex : Bool) (d : Datagram) (len : Int) (addr : Nat) (e : RecvEnv) :
    Endpoint × Report → Prop
  | turned (h : ¬ RecvEnv.Admits e complex) : Recver s complex d len addr e (s, ⟨[0], none, none, none⟩)
  | empty {p : Nat} (hp : e.addr = some p) (h : RecvEnv.Admits e complex) (h0 : d.dtNote = 0) :
      Recver s complex d len addr e
        ((s.count (readerKind complex) 1).alloc ⟨p, s.nextUid, newReader complex d⟩,
          ⟨allFields, some len, none, none⟩)
  | taken (h : RecvEnv.Admits e complex) (h0 : d.dtNote ≠ 0)
      (hslot : s.cidArray s.cidArrayOffset ≠ .null) :
      Recver s complex d len addr e ({ s with cidArrayOffset := s.nextCursor }.setSlot 0 .null,
        ⟨allFields, some len, none, some (⟨rejected complex, 0, 0, d.sendTime, d.sendTime, []⟩, addr)⟩)
  | refused (h : RecvEnv.Admits e complex) (h0 : d.dtNote ≠ 0)
      (hslot : s.cidArray s.cidArrayOffset = .null)
      (hc : equipReader e.attr e.buffer (waitingReader (newReader complex d) s.newId addr) = none) :
      Recver s complex d len addr e ({ s with
          cidArrayOffset := s.nextCursor
          verificationActor := s.verificationActor + 1
          waitAck := s.waitAck.insert (d.toId, d.fromId) s.cidArrayOffset },
        ⟨allFields, some len, none,
          some (⟨rejected complex, d.fromId, s.newId, d.sendTime, d.sendTime, []⟩, addr)⟩)
  | accepted {o : Object} (hp : e.addr = some o.addr) (h : RecvEnv.Admits e complex) (h0 : d.dtNote ≠ 0)
      (hslot : s.cidArray s.cidArrayOffset = .null) (huid : o.uid = s.nextUid)
      (hc : equipReader e.attr e.buffer
        (waitingReader (newReader complex d) s.newId addr) = some o.con) :
      Recver s complex d len addr e
        ((s.enroll o (s.waitAck.insert (d.toId, d.fromId) s.cidArrayOffset)).runOn o
          (ConM.receiveFirst complex d len),
          ⟨allFields, some len, some (o.con, (exec (ConM.receiveFirst complex d len) o.con).2), none⟩)

theorem startRecver_cases {s : Endpoint} (hcur : s.cidArrayOffset < maxConnectionCount)
    (complex : Bool) (d : Datagram) (len : Int) (addr : Nat) (e : RecvEnv) :
    Recver s complex d len addr e (s.startRecver complex d len addr e) := by
  cases hp : e.addr with
  | none =>
    simp only [startRecver, hp]
    exact .turned (by simp [RecvEnv.Admits, hp])
  | some p =>
    by_cases hver : complex ∧ e.needVerification ∧ e.attr.isNone
    · simp only [startRecver, hp, if_pos hver]
      exact .turned fun h => h.2 hver
    have hadm : RecvEnv.Admits e complex := ⟨by simp [hp], hver⟩
    by_cases h0 : d.dtNote = 0
    · simp only [startRecver, hp, if_neg hver, if_pos h0]
      exact .empty hp hadm h0
    by_cases hslot : s.cidArray s.cidArrayOffset = .null
    · have hcreate : (s.count (readerKind complex) 1).createConnectionID p = _ :=
        createConnectionID_null p hslot
      have hid : (s.count (readerKind complex) 1).newId = s.newId := rfl
      cases hc : equipReader e.attr e.buffer (waitingReader (newReader complex d) s.newId addr) with
      | none =>
        have hS : ({ s.count (readerKind complex) 1 with
            cidArray := Function.update s.cidArray s.cidArrayOffset (.con p)
            cidArrayOffset := s.nextCursor
            verificationActor := s.verificationActor + 1
            waitAck := s.waitAck.insert (d.toId, d.fromId) s.cidArrayOffset }.setSlot
              s.cidArrayOffset .null).count
            (readerKind complex) (-1) = { s with
              cidArrayOffset := s.nextCursor
              verificationActor := s.verificationActor + 1
              waitAck := s.waitAck.insert (d.toId, d.fromId) s.cidArrayOffset } := by
          simp [count, setSlot, ← hslot]
        have h : Recver s complex d len addr e _ := .refused hadm h0 hslot hc
        rw [← hS] at h
        simp only [startRecver, hp, if_neg hver, if_neg h0, hcreate, hid, hc,
          recvReject, newId_mod hcur]
        exact h
      | some c =>
        have hkind : c.kind = readerKind complex := by
          obtain ⟨_, _, _, rfl⟩ := equipReader_some hc
          cases complex <;> rfl
        have h : Recver s complex d len addr e _ :=
            .accepted (o := ⟨p, s.nextUid, c⟩) hp hadm h0 hslot rfl hc
        simp only [enroll, hkind] at h
        simp only [startRecver, hp, if_neg hver, if_neg h0, hcreate, hid, hc, newId_mod hcur]
        exact h
    · have hcreate : (s.count (readerKind complex) 1).createConnectionID p = _ :=
        createConnectionID_taken p hslot
      have hS : ({ s.count (readerKind complex) 1 with cidArrayOffset := s.nextCursor }.setSlot 0
        .null).count
          (readerKind complex) (-1) = { s with cidArrayOffset := s.nextCursor }.setSlot 0 .null := by
        simp [count, setSlot]
      have h : Recver s complex d len addr e _ := .taken hadm h0 hslot
      rw [← hS] at h
      simp only [startRecver, hp, if_neg hver, if_neg h0, hcreate]
      exact h

/-! ### What an action does -/

/-- The handlers that a dispatcher runs on a connection because of its slot alone. -/
inductive Request : ConM Unit → Prop
  | duplicate (complex : Bool) (d : Datagram) (remoteAddr : Nat) :
      Request (ConM.connectionDoRequireDuplicate complex d remoteAddr)
  | reset (msgType : MsgType) : Request (ConM.connectionDoConnectionReset msgType)
  | stop : Request ConM.connectionDoConnectionStop

theorem Request.stays {x : ConM Unit} (h : Request x) : Keeps Stays x := by
  cases h with
  | duplicate complex d addr => exact Stays.connectionDoRequireDuplicate complex d addr
  | reset msgType => exact Stays.connectionDoConnectionReset msgType
  | stop => exact Stays.connectionDoConnectionStop

/-- The REQUIRE that a datagram of kind `t` is for `start_recver`: a first one, or a duplicate of
one that no reader waits on. -/
def requiredMsg (s : Endpoint) (r : KernelRecvData) (t : MsgType) : Option (Bool × Datagram × Int) :=
  let (d, recvDataLength) := unfillHeader t r
  match t.target with
  | .startRecver complex => some (complex, d, recvDataLength)
  | .requireDuplicate complex =>
    if (s.waitAck.lookup (d.toId, d.fromId)).isNone then some (complex, d, recvDataLength) else none
  | _ => none

def required (s : Endpoint) (r : KernelRecvData) : Option (Bool × Datagram × Int) :=
  (MsgType.ofCode (readUlong r.data 0)).bind (s.requiredMsg r)

/-- The connection that `connection_do_network_data` hands a datagram to, and what it decodes. -/
def delivered (s : Endpoint) (r : KernelRecvData) : Option (Object × Datagram) :=
  (MsgType.ofCode (readUlong r.data 0)).bind fun t =>
    if t.target = .networkData then (s.addressed (unfillHeader t r).1.toId).map fun o =>
      (o, (unfillHeader t r).1)
    else none

theorem delivered_some {s : Endpoint} {r : KernelRecvData} {o : Object} {d : Datagram}
    (h : s.delivered r = some (o, d)) :
    s.inSlot (d.toId % maxConnectionCount) = some o ∧ o.con.id0 = d.toId := by
  obtain ⟨t, -, h⟩ := Option.bind_eq_some_iff.1 h
  split at h
  · obtain ⟨o', ho, heq⟩ := Option.map_eq_some_iff.1 h
    cases heq
    exact addressed_some ho
  · cases h

theorem filterData_of_header {s : Endpoint} {r : KernelRecvData} {d : Datagram} {len : Int}
    (ht : MsgType.ofCode (readUlong r.data 0) = some d.msgType)
    (hd : unfillHeader d.msgType r = (d, len)) (e : RecvEnv) :
    s.filterData r e =
      match d.msgType.target with
      | .startRecver complex => s.startRecver complex d len r.remoteAddr e
      | .networkData => s.connectionDoNetworkData d len e
      | .requireDuplicate complex => s.connectionDoRequireDuplicate complex d len r.remoteAddr e
      | .connectionReset => s.connectionDoConnectionReset d len := by
  rw [filterData, ht]
  cases htarget : d.msgType.target <;> rw [filterMsg, hd, htarget]

theorem required_of_header {s : Endpoint} {r : KernelRecvData} {d : Datagram} {len : Int}
    (ht : MsgType.ofCode (readUlong r.data 0) = some d.msgType)
    (hd : unfillHeader d.msgType r = (d, len)) :
    s.required r =
      match d.msgType.target with
      | .startRecver complex => some (complex, d, len)
      | .requireDuplicate complex =>
        if (s.waitAck.lookup (d.toId, d.fromId)).isNone then some (complex, d, len) else none
      | _ => none := by
  rw [required, ht, Option.bind_some, requiredMsg, hd]

theorem dispatch_cases {s s' : Endpoint} {k : Nat} {x : ConM Unit} {len : Int} (hx : Request x)
    (hs : s' = (s.dispatch len x (s.inSlot k)).1) :
    (∃ k o x, s.inSlot k = some o ∧ Request x ∧ s' = s.runOn o x) ∨ s' = s := by
  cases ho : s.inSlot k with
  | none => exact .inr (by rw [hs, ho]; rfl)
  | some o => exact .inl ⟨k, o, x, ho, hx, by rw [hs, ho]; rfl⟩

theorem filterData_cases (s : Endpoint) (r : KernelRecvData) (e : RecvEnv) :
    (∃ complex d len, s.required r = some (complex, d, len) ∧
      (s.filterData r e).1 = (s.startRecver complex d len r.remoteAddr e).1) ∨
    (∃ o d len, s.delivered r = some (o, d) ∧
      (s.filterData r e).1 = s.runOn o (ConM.connectionDoNetworkData e.inc e.now d len)) ∨
    (∃ k o x, s.inSlot k = some o ∧ Request x ∧ (s.filterData r e).1 = s.runOn o x) ∨
    (s.filterData r e).1 = s := by
  unfold filterData required delivered
  generalize MsgType.ofCode (readUlong r.data 0) = msg
  cases msg with
  | none => exact .inr (.inr (.inr rfl))
  | some t =>
    simp only [filterMsg, requiredMsg, Option.bind_some]
    generalize (unfillHeader t r).1 = d
    generalize (unfillHeader t r).2 = len
    cases t.target with
    | startRecver complex => exact .inl ⟨complex, d, len, rfl, rfl⟩
    | networkData =>
      simp only [connectionDoNetworkData, if_true]
      cases ho : s.addressed d.toId with
      | none => exact .inr (.inr (.inr rfl))
      | some o => exact .inr (.inl ⟨o, d, len, rfl, rfl⟩)
    | requireDuplicate complex =>
      simp only [connectionDoRequireDuplicate]
      cases hk : s.waitAck.lookup (d.toId, d.fromId) with
      | none => exact .inl ⟨complex, d, len, by simp, rfl⟩
      | some k => exact .inr (.inr (dispatch_cases (.duplicate complex d r.remoteAddr) rfl))
    | connectionReset =>
      simp only [connectionDoConnectionReset]
      exact .inr (.inr (dispatch_cases (.reset d.msgType) rfl))

/-- What an action can do. -/
inductive Move (s : Endpoint) : Act → Endpoint → Prop
  | startSender {a : SendArgs} {addr label : Nat} (hfree : s.Free addr) :
      Move s (.startSender a addr label) (s.startSender a addr label)
  | startRecver {r : KernelRecvData} {e : RecvEnv} {complex : Bool} {d : Datagram} {len : Int}
      (hfree : ∀ addr ∈ e.addr, s.Free addr) (hreq : s.required r = some (complex, d, len)) :
      Move s (.recv r e) (s.startRecver complex d len r.remoteAddr e).1
  | data {r : KernelRecvData} {e : RecvEnv} {o : Object} {d : Datagram} {len : Int}
      (hd : s.delivered r = some (o, d)) :
      Move s (.recv r e) (s.runOn o (ConM.connectionDoNetworkData e.inc e.now d len))
  | request {act : Act} {k : Nat} {o : Object} {x : ConM Unit} (hslot : s.inSlot k = some o)
      (hx : Request x) :
      Move s act (s.runOn o x)
  | timeOut {j : Nat} {t : TimerParm} (ht : s.timers[j]? = some t) :
      Move s (.timeOut j) ({ s with timers := s.timers.eraseIdx j }.connectionDoTimeOut t)
  | sender {j : Nat} {q : SendEntry} {clock : Nat → Nat} (hq : s.sendQueue[j]? = some q) :
      Move s (.sender j clock)
        ({ s with sendQueue := s.sendQueue.eraseIdx j }.connectionDoSender q.offset clock)
  | idle {act : Act} : Move s act s

theorem step_cases {s s' : Endpoint} {act : Act} (hs : s.step act = some s') : Move s act s' := by
  cases act with
  | startSender a addr label =>
    simp only [step] at hs
    split at hs
    · rename_i hfree
      cases hs
      exact .startSender hfree
    · cases hs
  | recv r e =>
    simp only [step] at hs
    split at hs
    · rename_i hfree
      cases hs
      rcases s.filterData_cases r e with
        ⟨complex, d, len, hreq, heq⟩ | ⟨o, d, len, hd, heq⟩ | ⟨k, o, x, hslot, hx, heq⟩ | heq
      · rw [heq]; exact .startRecver hfree hreq
      · rw [heq]; exact .data hd
      · rw [heq]; exact .request hslot hx
      · rw [heq]; exact .idle
    · cases hs
  | timeOut j =>
    obtain ⟨t, ht, rfl⟩ := Option.map_eq_some_iff.1 hs
    exact .timeOut ht
  | sender j clock =>
    obtain ⟨q, hq, rfl⟩ := Option.map_eq_some_iff.1 hs
    exact .sender hq
  | stop id =>
    cases hs
    unfold connectionDoConnectionStop
    cases ho : s.inSlot (id % maxConnectionCount) with
    | none => exact .idle
    | some o => exact .request ho .stop

/-! ### What holds in every state -/

/-- The cursor is in the table and no two objects share an address. -/
structure Sane (s : Endpoint) : Prop where
  cursor : s.cidArrayOffset < maxConnectionCount
  addrs : s.heap.Pairwise (·.addr ≠ ·.addr)

theorem eq_of_addr {heap : List Object} {o q : Object} (h : heap.Pairwise (·.addr ≠ ·.addr))
    (ho : o ∈ heap) (hq : q ∈ heap) (ha : q.addr = o.addr) : q = o := by
  have : Std.Symm fun a b : Object => a.addr ≠ b.addr := ⟨fun _ _ h => h.symm⟩
  by_contra hne
  exact h.forall hq ho hne ha

theorem mem_store {s : Endpoint} {o q : Object} {c : Connection} (h : s.heap.Pairwise (·.addr ≠ ·.addr))
    (ho : o ∈ s.heap) :
    q ∈ (s.store o.addr c).heap ↔ q = { o with con := c } ∨ (q ∈ s.heap ∧ q.addr ≠ o.addr) := by
  simp only [store, List.mem_map]
  constructor
  · rintro ⟨p, hp, rfl⟩
    by_cases ha : p.addr = o.addr
    · obtain rfl := eq_of_addr h ho hp ha
      exact .inl (if_pos rfl)
    · rw [if_neg ha]
      exact .inr ⟨hp, ha⟩
  · rintro (rfl | ⟨hq, ha⟩)
    · exact ⟨o, ho, if_pos rfl⟩
    · exact ⟨q, hq, if_neg ha⟩

theorem pairwise_store {s : Endpoint} {addr : Nat} {c : Connection}
    (h : s.heap.Pairwise (·.addr ≠ ·.addr)) :
    (s.store addr c).heap.Pairwise (·.addr ≠ ·.addr) := by
  refine List.pairwise_map.2 (h.imp fun {p q} hpq => ?_)
  split <;> split <;> exact hpq

namespace Sane
variable {s s' : Endpoint} {o : Object}

theorem started (cursor actor : Nat) (h : cursor < maxConnectionCount) : Sane (start cursor actor) :=
  ⟨h, List.Pairwise.nil⟩

theorem nextCursor_lt (h : Sane s) : s.nextCursor < maxConnectionCount := by
  have hcur := h.cursor
  unfold nextCursor
  split
  · decide
  · omega

theorem touched {c : Connection} (h : Sane s) (ht : Touched o (s.store o.addr c) s') : Sane s' :=
  ⟨ht.cursor ▸ h.cursor, ht.heap ▸ pairwise_store h.addrs⟩

theorem freed (h : Sane s) (hf : Freed o s s') : Sane s' :=
  ⟨hf.cursor ▸ h.cursor, hf.heap ▸ h.addrs.filter _⟩

theorem moved (h : Sane s) (actor : Nat) (waitAck : WaitAckQueue) :
    Sane { s with cidArrayOffset := s.nextCursor, verificationActor := actor, waitAck := waitAck } :=
  ⟨h.nextCursor_lt, h.addrs⟩

theorem alloc (h : Sane s) (hfree : s.Free o.addr) (counts : ConnKind → Int) :
    Sane ({ s with counts := counts }.alloc o) :=
  ⟨h.cursor, List.pairwise_cons.2 ⟨fun q hq ha => object_none.1 hfree q hq ha.symm, h.addrs⟩⟩

theorem enroll (h : Sane s) (hfree : s.Free o.addr) (waitAck : WaitAckQueue) :
    Sane (s.enroll o waitAck) :=
  ⟨h.nextCursor_lt, List.pairwise_cons.2 ⟨fun q hq ha => object_none.1 hfree q hq ha.symm, h.addrs⟩⟩

theorem runOn {x : ConM Unit} (h : Sane s) (hx : wp x (fun _ c' es => Local o.con c' es) o.con) :
    Sane (s.runOn o x) :=
  h.touched (runOn_touched hx)

theorem step {act : Act} (h : Sane s) (hs : s.step act = some s') : Sane s' := by
  cases step_cases hs with
  | startSender hfree =>
    rename_i a addr label
    rcases s.startSender_cases a addr label with ⟨hslot, o, rfl, -, hcon, heq⟩ | ⟨-, heq⟩
    · rw [heq]
      exact (h.enroll hfree _).runOn (own.addToSenderQueue o.con).local
    · rw [heq]; exact h.moved _ _
  | startRecver hfree hreq =>
    rename_i r e complex d len
    generalize hres : s.startRecver complex d len r.remoteAddr e = res
    have hcases : Recver s complex d len r.remoteAddr e res := hres ▸ startRecver_cases h.cursor ..
    cases hcases with
    | turned => exact h
    | empty hp => exact h.alloc (hfree _ hp) _
    | taken => exact ⟨h.nextCursor_lt, h.addrs⟩
    | refused => exact h.moved _ _
    | accepted hp =>
      rename_i o _ _ _ _ _
      exact (h.enroll (hfree _ hp) _).runOn (Own.receiveFirst complex d len o.con).local
  | data => exact h.runOn (Local.connectionDoNetworkData _ _ _ _ _)
  | request _ hx => exact h.runOn (hx.stays _).toOwn.local
  | timeOut =>
    rename_i j t _
    have h' : Sane { s with timers := s.timers.eraseIdx j } := ⟨h.cursor, h.addrs⟩
    unfold connectionDoTimeOut
    split
    · exact h'
    · rename_i o _
      rcases doTimeOut_own_or_frees o.con t.timeoutType t.runningCount with hx | hx
      · exact h'.runOn hx.1.local
      · exact h'.freed (runOn_freed hx)
  | sender =>
    rename_i j _ _ _
    have h' : Sane { s with sendQueue := s.sendQueue.eraseIdx j } := ⟨h.cursor, h.addrs⟩
    unfold connectionDoSender
    split
    · exact h'
    · exact h'.runOn (Own.connectionDoSender _ _).local
  | idle => exact h

theorem reach {C : Endpoint → Act → Prop} (h : machine.ReachUnder C s) : Sane s := by
  refine h.invariant ?_ fun s act s' hI _ hs => hI.step hs
  rintro s ⟨cursor, hcursor, actor, rfl⟩
  exact started cursor actor hcursor

end Sane

end Endpoint

end Resend.Udp

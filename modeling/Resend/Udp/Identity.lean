import Resend.Udp.Table

/-!
# Operations on an id

An id names a slot and, in its upper bits, which of the connections that use the slot one after the
other is meant. `connection_do_network_data` compares the whole id. Resets,
`connection_do_connection_stop` and `get_connection_info` look at the slot only, so they respect an
id exactly as long as no other connection has its slot.
-/

namespace Resend.Udp
open Handler Connection ConM

namespace Endpoint

/-- What a reset or rejection for `id`, a stop and a question about `id` owe to the other
connections. -/
structure RespectsIdentity (s : Endpoint) (id : Nat) : Prop where
  reset : ∀ d len, d.toId = id → d.msgType.target = .connectionReset →
    ∀ o ∈ s.heap, o.con.id0 ≠ id → o ∈ (s.connectionDoConnectionReset d len).1.heap
  resetFails : ∀ d len, d.toId = id → d.msgType.target = .connectionReset → s.addressed id = none →
    (s.connectionDoConnectionReset d len).1 = s
  stop : ∀ o ∈ s.heap, o.con.id0 ≠ id → o ∈ (s.connectionDoConnectionStop id).2.heap
  stopFails : s.addressed id = none → s.connectionDoConnectionStop id = (-1, s)
  info : ∀ i, s.getConnectionInfo id = some i → ∃ o ∈ s.heap, o.con.id0 = id ∧
    i = ⟨o.con.leftWindowCursor, o.con.transmitBufLength, o.con.transResultCode, o.con.remoteAddr⟩
  infoFails : s.addressed id = none → s.getConnectionInfo id = none

theorem mem_runOn {s : Endpoint} {o q : Object} {x : ConM Unit} (h : Sane s) (ho : o ∈ s.heap)
    (hx : wp x (fun _ c' es => Local o.con c' es) o.con) (hq : q ∈ s.heap) (hne : q.addr ≠ o.addr) :
    q ∈ (s.runOn o x).heap := by
  rw [(runOn_touched hx).heap]
  exact (mem_store h.addrs ho).2 (.inr ⟨hq, hne⟩)

namespace RespectsIdentity
variable {s : Endpoint} {id : Nat}

theorem of_empty (h : s.inSlot (id % maxConnectionCount) = none) : RespectsIdentity s id := by
  have hreset : ∀ (d : Datagram) len, d.toId = id → (s.connectionDoConnectionReset d len).1 = s := by
    rintro d len rfl
    rw [connectionDoConnectionReset, h]
    rfl
  have hstop : s.connectionDoConnectionStop id = (-1, s) := by rw [connectionDoConnectionStop, h]
  have hinfo : s.getConnectionInfo id = none := by rw [getConnectionInfo, h]; rfl
  refine ⟨?_, fun d len hid _ _ => hreset d len hid, ?_, fun _ => hstop, ?_, fun _ => hinfo⟩
  · intro d len hid _ o ho _
    rwa [hreset d len hid]
  · intro o ho _
    rwa [hstop]
  · intro i hi
    rw [hinfo] at hi
    cases hi

theorem of_same {o : Object} (hs : Sane s) (h : s.inSlot (id % maxConnectionCount) = some o)
    (hid : o.con.id0 = id) :
    RespectsIdentity s id := by
  have ho : o ∈ s.heap := (inSlot_some h).1
  have haddr : s.addressed id = some o := by simp [addressed, h, hid]
  have hne : ∀ q ∈ s.heap, q.con.id0 ≠ id → q.addr ≠ o.addr := by
    intro q hq hqid ha
    rw [eq_of_addr hs.addrs ho hq ha] at hqid
    exact hqid hid
  have hnone : s.addressed id ≠ none := by simp [haddr]
  refine ⟨?_, fun _ _ _ _ hn => absurd hn hnone, ?_, fun hn => absurd hn hnone, ?_,
    fun hn => absurd hn hnone⟩
  · rintro d len rfl _ q hq hqid
    rw [connectionDoConnectionReset, h]
    exact mem_runOn hs ho (Stays.connectionDoConnectionReset d.msgType o.con).toOwn.local hq
      (hne q hq hqid)
  · intro q hq hqid
    rw [connectionDoConnectionStop, h]
    exact mem_runOn hs ho (Stays.connectionDoConnectionStop o.con).toOwn.local hq (hne q hq hqid)
  · intro i hi
    rw [getConnectionInfo, h] at hi
    exact ⟨o, ho, hid, (Option.some.inj hi).symm⟩

end RespectsIdentity

/-- The operations respect an id if and only if its slot is empty, suspended or the connection's own. -/
theorem respectsIdentity_iff {s : Endpoint} (h : machine.Reach s) (id : Nat) :
    RespectsIdentity s id ↔ ∀ o, s.inSlot (id % maxConnectionCount) = some o → o.con.id0 = id := by
  constructor
  · intro hr o ho
    by_contra hne
    have hnone : s.addressed id = none := by simp [addressed, ho, hne]
    have hinfo := hr.infoFails hnone
    rw [getConnectionInfo, ho] at hinfo
    cases hinfo
  · intro hid
    cases hslot : s.inSlot (id % maxConnectionCount) with
    | none => exact .of_empty hslot
    | some o => exact .of_same (.reach h) hslot (hid o hslot)

/-- A send from slot 1 has id 1. -/
theorem respectsIdentity_iff_own :
    ∃ s, machine.Reach s ∧ s.heap.map (·.con.id0) = [1] ∧ RespectsIdentity s 1 := by
  have hrun : (machine.run (start 1 0) [.startSender smallSend 7 9]).map
      (fun s => (s.heap.map (·.con.id0), (s.inSlot 1).map (·.con.id0))) = some ([1], some 1) := by
        decide +kernel
  obtain ⟨s, hs, hres⟩ := Option.map_eq_some_iff.1 hrun
  have hreach : machine.Reach s :=
      Machine.ReachUnder.run (M := machine) (.init ⟨1, by decide, 0, rfl⟩) hs
  refine ⟨s, hreach, congrArg Prod.fst hres, (respectsIdentity_iff hreach 1).2 fun o ho => ?_⟩
  have hid := congrArg Prod.snd hres
  rw [show 1 % maxConnectionCount = 1 from rfl] at ho
  simpa [ho] using hid

/-- An id with the same slot and another verification value gets an answer. -/
theorem exists_identity_ignored : ∃ s id, machine.Reach s ∧ ¬ RespectsIdentity s id := by
  have hrun : (machine.run (start 1 0) [.startSender smallSend 7 9]).map
      (fun s => ((s.addressed (1 + 2 ^ 20)).map (·.addr), s.getConnectionInfo (1 + 2 ^ 20))) =
        some (none, some ⟨0, 1, .unset, 0⟩) := by decide +kernel
  obtain ⟨s, hs, hres⟩ := Option.map_eq_some_iff.1 hrun
  refine ⟨s, 1 + 2 ^ 20, Machine.ReachUnder.run (M := machine) (.init ⟨1, by decide, 0, rfl⟩) hs,
    fun h => ?_⟩
  have hnone := h.infoFails (Option.map_eq_none_iff.1 (congrArg Prod.fst hres))
  rw [show s.getConnectionInfo (1 + 2 ^ 20) = some ⟨0, 1, .unset, 0⟩ from
    congrArg Prod.snd hres] at hnone
  cases hnone

end Endpoint

end Resend.Udp

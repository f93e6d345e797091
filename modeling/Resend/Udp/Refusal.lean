import Resend.Udp.Table

/-!
# Refusing a transfer

`start_recver` gives up on a reader it has allocated when it finds no slot, when the user does not
want the transfer and when there is no buffer. All three go through one label that releases the slot
and sends a REJECTED datagram. Without a slot the reader's id has been zeroed before, so the label
releases slot 0 and addresses the answer to id 0; with a slot the entry in `Recv_Wait_Ack_Queue`
stays.
-/

namespace Resend.Udp
open Handler Connection ConM

namespace Endpoint

/-- `start_recver` refuses `d` after it has allocated a reader. -/
def Refuses (s : Endpoint) (complex : Bool) (d : Datagram) (addr : Nat) (e : RecvEnv) : Prop :=
  RecvEnv.Admits e complex ∧ d.dtNote ≠ 0 ∧ (s.cidArray s.cidArrayOffset = .null →
    equipReader e.attr e.buffer (waitingReader (newReader complex d) s.newId addr) = none)

/-- A refusal leaves the table, the map and the counters as they were, and its answer finds the
writer. -/
structure CleanRefusal (s : Endpoint) (d : Datagram) (addr : Nat) (res : Endpoint × Report) : Prop where
  slots : res.1.cidArray = s.cidArray
  waitAck : res.1.waitAck = s.waitAck
  counts : res.1.counts = s.counts
  answer : ∃ a : Datagram, res.2.answer = some (a, addr) ∧ a.msgType.target = .connectionReset ∧
    ∀ writer junk, (unfillHeader a.msgType ⟨writer, a.encode.length, a.encode ++ junk⟩).1.toId =
      d.fromId

theorem rejected_target (complex : Bool) : (rejected complex).target = .connectionReset := by
  cases complex <;> rfl

theorem unfillHeader_toId {a : Datagram} (h : a.toId < 2 ^ 32) (addr : Nat) (junk : List UInt8) :
    (unfillHeader a.msgType ⟨addr, a.encode.length, a.encode ++ junk⟩).1.toId = a.toId := by
  simp only [unfillHeader, Datagram.toId_encode h]

theorem update_eq_self_iff {f : Nat → CidEntry} {k : Nat} {v : CidEntry} :
    Function.update f k v = f ↔ f k = v := by
  constructor
  · intro h
    rw [← h, Function.update_self]
  · rintro rfl
    exact Function.update_eq_self ..

theorem insert_eq_self_iff {q : WaitAckQueue} {key : Nat × Nat} {k : Nat} :
    q.insert key k = q ↔ (q.lookup key).isSome := by
  unfold WaitAckQueue.insert
  split
  · simp [*]
  · rename_i hnone
    simp [hnone]

/-- A refusal is clean if and only if the reader had a slot and its key was in the map already, or
it had none, slot 0 was free and the writer has id 0. -/
theorem cleanRefusal_iff {s : Endpoint} {complex : Bool} {d : Datagram} {addr : Nat} {e : RecvEnv}
    (hcur : s.cidArrayOffset < maxConnectionCount) (hd : d.WF) (h : s.Refuses complex d addr e)
    (len : Int) :
    CleanRefusal s d addr (s.startRecver complex d len addr e) ↔
      if s.cidArray s.cidArrayOffset = .null then (s.waitAck.lookup (d.toId, d.fromId)).isSome = true
      else s.cidArray 0 = .null ∧ d.fromId = 0 := by
  obtain ⟨hadm, h0, hequip⟩ := h
  generalize hres : s.startRecver complex d len addr e = res
  have hcases : Recver s complex d len addr e res := hres ▸ startRecver_cases hcur ..
  cases hcases with
  | turned hturned => exact absurd hadm hturned
  | empty _ _ hzero => exact absurd hzero h0
  | taken _ _ hslot =>
    rw [if_neg hslot]
    constructor
    · rintro ⟨hslots, -, -, a, ha, -, hid⟩
      refine ⟨update_eq_self_iff.1 hslots, ?_⟩
      cases ha
      rw [← hid 0 [], unfillHeader_toId (by exact Nat.two_pow_pos 32)]
    · rintro ⟨hnull, hfrom⟩
      refine ⟨update_eq_self_iff.2 hnull, rfl, rfl, _, rfl,
        rejected_target complex, fun writer junk => ?_⟩
      rw [unfillHeader_toId (by exact Nat.two_pow_pos 32), hfrom]
  | refused _ _ hslot =>
    rw [if_pos hslot]
    constructor
    · rintro ⟨-, hmap, -, -⟩
      exact insert_eq_self_iff.1 hmap
    · intro hkey
      refine ⟨rfl, insert_eq_self_iff.2 hkey, rfl, _, rfl,
        rejected_target complex, fun writer junk => ?_⟩
      rw [unfillHeader_toId (by exact hd.fromId)]
  | accepted _ _ _ hslot _ hc =>
    rw [hequip hslot] at hc
    cases hc

/-- The second refusal of a REQUIRE finds the entry that the first one left. -/
theorem cleanRefusal_iff_again :
    CleanRefusal { start 5 0 with waitAck := [((9, 1), 4)] } oneByte 0
      ({ start 5 0 with waitAck := [((9, 1), 4)] }.startRecver false oneByte 1 0 unwilling) := by
  refine (cleanRefusal_iff (by decide) ⟨by decide, by decide, by decide, by decide⟩
    ⟨by decide, by decide, ?_⟩ 1).2 ?_
  · intro _
    rfl
  · exact (if_pos rfl).mpr rfl

/-- A REQUIRE that the user does not want leaves an entry in the map. -/
theorem exists_unclean_refusal : (start 5 0).Refuses false oneByte 0 unwilling ∧
    ¬ CleanRefusal (start 5 0) oneByte 0 ((start 5 0).startRecver false oneByte 1 0 unwilling) := by
  refine ⟨⟨by decide, by decide, fun _ => rfl⟩, fun h => ?_⟩
  have hmap : ((start 5 0).startRecver false oneByte 1 0 unwilling).1.waitAck = [((9, 1), 5)] := by
    decide +kernel
  rw [h.waitAck] at hmap
  cases hmap

end Endpoint

end Resend.Udp

import Resend.Udp.RecvOutcome
import Resend.Udp.SimpleTransfer

/-!
# How often a message is delivered

Each reader of a send pushes at most once (`RecvOutcome`). Only the queue of waiting readers keeps a
second reader from being made, and only REQUIRE_DUPLICATE datagrams are looked up there: a REQUIRE that
arrives twice makes two readers, and so does a REQUIRE_DUPLICATE after the second data packet has taken
the reader out of the queue. As long as neither happens, the message is delivered at most once.
-/

namespace Resend.Udp.Delivery
open Handler Connection ConM Transfer RecvOutcome

def isPush : Effect → Bool
  | .pushMsg .. => true
  | _ => false

/-- How often the receiving process has pushed a message of this send. -/
def pushes (s : State) : Nat := (s.readers.map fun r => (trace r).countP isPush).sum

/-- While the first reader is in the connection table, the message was pushed at most once. -/
def AtMostOnce (s : State) : Prop := (∀ r, s.readers.head? = some r → r.slot ≠ .null) → pushes s ≤ 1

/-- The datagram gets to `start_recver`. -/
def reachesStartRecver (s : State) (d : Datagram) : Prop :=
  match d.msgType.target with
  | .startRecver _ => True
  | .requireDuplicate _ => s.waitAck.lookup (d.toId, d.fromId) = none
  | _ => False

instance (s : State) (d : Datagram) : Decidable (reachesStartRecver s d) := by
  unfold reachesStartRecver
  cases d.msgType.target <;> infer_instance

/-- No datagram gets to `start_recver` while the first reader is in the table. -/
def Deduplicated (s : State) : Act → Prop
  | .require d _ _ _ => reachesStartRecver s d → ∀ r ∈ s.readers.head?, r.slot = .null
  | _ => True

instance (s : State) : (act : Act) → Decidable (Deduplicated s act)
  | .require .. => inferInstanceAs (Decidable (_ → _))
  | .writer _ | .reader .. => inferInstanceAs (Decidable True)

/-! ### Single readers -/

section single
variable {l l' r : Life}

theorem countP_isPush_le (h : RecvOutcome.Inv r) : (trace r).countP isPush ≤ 1 := by
  obtain ⟨b, hb, -⟩ := h.scan
  calc (trace r).countP isPush ≤ (trace r).countP isOutcome := List.countP_mono_left fun e _ he => by
        cases e <;> first | rfl | cases he
    _ = ((trace r).filter isOutcome).length := List.countP_eq_length_filter
    _ ≤ 1 := (outcome_of_scan hb).once

theorem null_of_step (hnull : l.slot = .null) {act : Life.Act} (hs : l.step act = some l') :
    l'.slot = .null := by
  cases act with
  | networkData inc now d len => simp [Life.step, hnull] at hs
  | reset msgType => simp [Life.step, hnull] at hs
  | stop => simp [Life.step, hnull] at hs
  | timeOut j =>
    simp only [Life.step, hnull, if_true] at hs
    split at hs <;> cases hs
    rfl
  | sender clock =>
    simp only [Life.step, hnull] at hs
    split at hs <;> cases hs
    rfl

theorem inv_duplicate (h : RecvOutcome.Inv r) (complex : Bool) (d : Datagram) (addr : Nat) :
    RecvOutcome.Inv (r.ran (connectionDoRequireDuplicate complex d addr)) :=
  h.ran (guarded.bind guarded.get (fun _ => guarded.when (guardedReader.sendDatagram _ _ _ _)) _)

end single

/-! ### Runs -/

/-- Every reader pushes at most once, and there is no second one unless the first has left the table. -/
structure Inv (s : State) : Prop where
  readers : ∀ r ∈ s.readers, RecvOutcome.Inv r
  single : s.readers.length ≤ 1 ∨ ∃ r ∈ s.readers.head?, r.slot = .null

namespace Inv
variable {s s' : State} {addr : Nat}

theorem atMostOnce (h : Inv s) : AtMostOnce s := by
  intro hhead
  rcases h.single with hlen | ⟨r, hr, hnull⟩
  · rw [pushes]
    cases hreaders : s.readers with
    | nil => exact Nat.zero_le 1
    | cons r rs =>
      rw [hreaders, List.length_cons] at hlen
      obtain rfl : rs = [] := List.length_eq_zero_iff.1 (by omega)
      rw [List.map_singleton, List.sum_singleton]
      exact countP_isPush_le (h.readers r (by rw [hreaders]; exact List.mem_singleton.2 rfl))
  · exact absurd hnull (hhead r hr)

theorem set (h : Inv s) {i : Nat} {r r' : Life} (hi : s.readers[i]? = some r) (hr' : RecvOutcome.Inv r')
    (hnull : r.slot = .null → r'.slot = .null) (q : WaitAckQueue) :
    Inv { s with readers := s.readers.set i r', waitAck := q } := by
  refine ⟨fun r₀ hr₀ => ?_, ?_⟩
  · rcases List.mem_or_eq_of_mem_set hr₀ with hr₀ | rfl
    exacts [h.readers r₀ hr₀, hr']
  · rcases h.single with hlen | ⟨r₀, hr₀, hslot⟩
    · exact .inl (by simpa using hlen)
    · right
      rw [List.head?_eq_getElem?] at hr₀ ⊢
      cases i with
      | zero =>
        obtain rfl : r₀ = r := Option.some.inj (hr₀.symm.trans hi)
        exact ⟨r', by simp [(List.getElem?_eq_some_iff.1 hi).1], hnull hslot⟩
      | succ i => exact ⟨r₀, by rw [List.getElem?_set_ne (Nat.succ_ne_zero i)]; exact hr₀, hslot⟩

theorem releaseZero (h : Inv s) : Inv s.releaseZero := by
  refine ⟨fun r hr => ?_, ?_⟩
  · obtain ⟨r₀, hr₀, rfl⟩ := List.mem_map.1 hr
    have := h.readers r₀ hr₀
    split
    exacts [⟨this.reader, this.scan⟩, this]
  · rcases h.single with hlen | ⟨r, hr, hslot⟩
    · exact .inl (by simpa [State.releaseZero] using hlen)
    · refine .inr ⟨_, by rw [State.releaseZero, List.head?_map, hr]; rfl, ?_⟩
      beta_reduce
      split
      exacts [rfl, hslot]

theorem startRecver (h : Inv s) {complex : Bool} {d : Datagram} {newId : Option Nat}
    {attr : Option RecvVerificationAttribute} {buffer : Option (List UInt8)}
    (hhead : ∀ r ∈ s.readers.head?, r.slot = .null)
    (hs : s.startRecver addr complex d newId attr buffer = some s') : Inv s' := by
  simp only [State.startRecver] at hs
  split at hs
  · cases hs; exact h
  split at hs
  · cases hs; exact h.releaseZero
  split at hs
  · split at hs <;> cases hs
    · exact ⟨h.readers, h.single⟩
    · rename_i c hc
      refine ⟨fun r hr => ?_, ?_⟩
      · rcases List.mem_append.1 hr with hr | hr
        · exact h.readers r hr
        · rw [List.mem_singleton.1 hr]
          exact RecvOutcome.inv_init ⟨complex, d, _, _, addr, attr, buffer, c, hc, rfl⟩
      · cases hreaders : s.readers with
        | nil => exact .inl (by simp)
        | cons r rs =>
          rw [hreaders] at hhead
          exact .inr ⟨r, rfl, hhead r rfl⟩
  · cases hs

theorem answerDuplicate (h : Inv s) (complex : Bool) (d : Datagram) (offset : Nat) :
    Inv (s.answerDuplicate addr complex d offset) := by
  unfold State.answerDuplicate
  split
  · exact h
  split
  · exact h
  split
  · rename_i r hr hlive
    refine h.set hr (inv_duplicate (h.readers r (List.mem_of_getElem? hr)) complex d addr)
      (fun hnull => ?_) _
    rw [hlive] at hnull
    cases hnull
  · exact h

theorem step (h : Inv s) {act : Act} (hc : Deduplicated s act)
    (hs : Transfer.step addr s act = some s') :
    Inv s' := by
  cases act with
  | writer act =>
    simp only [Transfer.step] at hs
    split at hs
    · obtain ⟨l', -, rfl⟩ := Option.map_eq_some_iff.1 hs
      exact ⟨h.readers, h.single⟩
    · cases hs
  | reader i act =>
    obtain ⟨r, hr, hs⟩ := Option.bind_eq_some_iff.1 hs
    obtain ⟨r', hr', rfl⟩ := Option.map_eq_some_iff.1 hs
    have hstep : r.step act = some r' := by
      unfold readerStep at hr'
      split at hr'
      · cases hr'
      · split at hr'
        exacts [hr', by cases hr']
    exact h.set hr (RecvOutcome.inv_step (h.readers r (List.mem_of_getElem? hr)) hstep)
      (fun hnull => null_of_step hnull hstep) _
  | require d newId attr buffer =>
    simp only [Transfer.step] at hs
    split at hs
    · split at hs
      · rename_i ht
        exact h.startRecver (hc (by rw [reachesStartRecver, ht]; trivial)) hs
      · rename_i ht
        split at hs
        · rename_i hq
          exact h.startRecver (hc (by rw [reachesStartRecver, ht]; exact hq)) hs
        · cases hs
          exact h.answerDuplicate _ d _
      · cases hs
    · cases hs

end Inv

/-- **At-most-once delivery**, in every run in which no datagram gets to `start_recver` while the first
reader is in the table. -/
theorem atMostOnce_of_deduplicated {a : SendArgs} {id0 id1 addr : Nat} {s : State}
    (h : (machine a id0 id1 addr).ReachUnder Deduplicated s) : AtMostOnce s := by
  refine (h.invariant (I := Inv) (fun s hs => ?_) fun _ _ _ hi hc hs => hi.step hc hs).atMostOnce
  cases hs
  exact ⟨by simp, .inl (Nat.zero_le 1)⟩

/-- The only packet of `twoBytes` is received and pushed once. -/
theorem atMostOnce_of_deduplicated_twoBytes :
    ∃ s, (machine SimpleTransfer.twoBytes 1 9 0).ReachUnder Deduplicated s ∧
      pushes s = 1 ∧ AtMostOnce s := by
  have hrun : (((machine SimpleTransfer.twoBytes 1 9 0).runUnder Deduplicated
      ⟨Life.startSender SimpleTransfer.twoBytes 1 9, [], []⟩
      [.writer (.sender fun _ => 5),
        .require SimpleTransfer.require (some 100) none (some [0, 0])]).map pushes) =
      some 1 := by decide +kernel
  obtain ⟨s, hs, hres⟩ := Option.map_eq_some_iff.1 hrun
  have hreach := Machine.ReachUnder.run (M := machine SimpleTransfer.twoBytes 1 9 0) (.init rfl) hs
  exact ⟨s, hreach, hres, atMostOnce_of_deduplicated hreach⟩

/-- The REQUIRE datagram of `twoBytes` arrives twice. -/
theorem exists_deliveredTwice :
    ¬ ∀ (a : SendArgs) (id0 id1 addr : Nat) (s : State), a.WF → 0 < a.blockLength →
      (machine a id0 id1 addr).Reach s → AtMostOnce s := by
  intro hall
  have hrun : (((machine SimpleTransfer.twoBytes 1 9 0).run
    ⟨Life.startSender SimpleTransfer.twoBytes 1 9, [], []⟩
      [.writer (.sender fun _ => 5), .require SimpleTransfer.require (some 100) none (some [0, 0]),
        .require SimpleTransfer.require (some 101) none (some [0, 0])]).map fun s =>
      (pushes s, s.readers.map Life.slot)) = some (2, [.live, .live]) := by decide +kernel
  obtain ⟨s, hs, hres⟩ := Option.map_eq_some_iff.1 hrun
  have hreach := Machine.ReachUnder.run (M := machine SimpleTransfer.twoBytes 1 9 0) (.init rfl) hs
  have honce := hall _ _ _ _ s SimpleTransfer.twoBytes_wf (by decide) hreach fun r hr => ?_
  · rw [show pushes s = 2 from congrArg Prod.fst hres] at honce
    exact absurd honce (by decide)
  · have hslot : r.slot ∈ s.readers.map Life.slot := List.mem_map_of_mem (List.mem_of_mem_head? hr)
    rw [show s.readers.map Life.slot = [.live, .live] from congrArg Prod.snd hres] at hslot
    intro hnull
    rw [hnull] at hslot
    simp at hslot

end Resend.Udp.Delivery

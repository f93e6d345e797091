import Resend.Udp.Received

/-!
# Simple transfers

A simple reader takes only the packet at its cursor, so the packets it has are those below its copy
count, and its cursor is past the block only after the step that pushed the message. Acks carry the
cursor of some reader; hence a writer that gets an ack of the whole block has a reader that pushed it,
however many readers its REQUIRE datagrams have made.
-/

namespace Resend.Udp.SimpleTransfer
open Handler Connection ConM

/-- The packets of a simple reader. -/
def Taken (c : Connection) (p : Nat) : Prop := p < c.memcpyCount

/-- The cursor of a simple reader counts its copies. -/
structure Counts (c : Connection) : Prop where
  kind : c.kind = .simpleReader
  left : c.leftWindowCursor = c.memcpyCount * packetMaxDataLength

/-- What a handler of the reader `c` leaves. -/
structure Step (a : SendArgs) (c c' : Connection) (es : List Effect) : Prop where
  receives : Receives a (Taken c) (Taken c') c' es
  counts : Counts c'
  done : a.blockLength ≤ c'.leftWindowCursor →
    a.blockLength ≤ c.leftWindowCursor ∨ ∃ t, Effect.pushMsg a.message t ∈ es

section handlers
variable {a : SendArgs} {c c' c'' : Connection} {es es' : List Effect}

theorem Step.trans (h : Step a c c' es) (h' : Step a c' c'' es') : Step a c c'' (es ++ es') := by
  refine ⟨h.receives.trans h'.receives, h'.counts, fun hle => ?_⟩
  rcases h'.done hle with hle | ⟨t, ht⟩
  · exact (h.done hle).imp_right fun ⟨t, ht⟩ => ⟨t, List.mem_append_left _ ht⟩
  · exact .inr ⟨t, List.mem_append_right _ ht⟩

theorem Step.ofStill (h : Counts c) (hb : Buffer a (Taken c) c) (hs : Still c c' es) :
    Step a c c' es := by
  have htaken : Taken c' = Taken c := by unfold Taken; rw [hs.count]
  refine ⟨by rw [htaken]; exact hb.still hs, ⟨hs.kind.trans h.kind, ?_⟩, fun hle => .inl ?_⟩
  · rw [hs.left, hs.count]; exact h.left
  · rwa [hs.left] at hle

theorem acks_left (h : Counts c) (hlt : c.leftWindowCursor < 2 ^ 32) :
    ∃ k, u32 c.leftWindowCursor = k * packetMaxDataLength ∧ ∀ p < k, Taken c p :=
  ⟨c.memcpyCount, by rw [u32_of_lt hlt, h.left], fun _ hp => hp⟩

theorem Step.send (h : Counts c) (hb : Buffer a (Taken c) c) {d : Datagram} {addr : Nat}
    (hd : d.msgType.target = .networkData →
      ∃ k, d.dtNote = k * packetMaxDataLength ∧ ∀ p < k, Taken c p) :
    Step a c c [.kernelSend d addr] :=
  ⟨⟨hb, .send hd⟩, h, .inl⟩

theorem left_lt (h : Counts c) (hb : Buffer a (Taken c) c) :
    c.leftWindowCursor < a.blockLength + packetMaxDataLength := by
  rw [h.left]
  cases hcount : c.memcpyCount with
  | zero => simp
  | succ n =>
    rw [Nat.succ_mul]
    exact Nat.add_lt_add_right (hb.inside n (by rw [Taken, hcount]; exact n.lt_succ_self)) _

variable (ha : a.WF) (hpos : 0 < a.blockLength) (hmax : a.blockLength ≤ 2 ^ 32 - packetMaxDataLength)
include ha hpos

theorem readerCheckComplete (h : Counts c) (hb : Buffer a (Taken c) c)
    (hsuc : c.has transSucBit = false) (hcount : 0 < c.memcpyCount) :
    wp SimpleConnection.readerCheckComplete (fun _ c' es => c'.leftWindowCursor = c.leftWindowCursor ∧
      Counts c' ∧ Receives a (Taken c) (Taken c') c' es ∧
      (a.blockLength ≤ c.leftWindowCursor → ∃ t, Effect.pushMsg a.message t ∈ es)) c := by
  have hlast := hb.inside (c.memcpyCount - 1) (Nat.sub_lt hcount Nat.one_pos)
  have hsub : sub32 c.transmitBufLength 1 = a.blockLength - 1 := by
    rw [hb.length, sub32_of_le ha.length hpos]
  rw [SimpleConnection.readerCheckComplete, wp_bind, wp_get, wp_when, hsub]
  by_cases hfull : a.blockLength ≤ c.leftWindowCursor
  · -- all packets are in, so the count test passes as well
    rw [h.left] at hfull
    have hcond : c.leftWindowCursor > a.blockLength - 1 ∧
        c.memcpyCount = (a.blockLength - 1) / packetMaxDataLength + 1 := by
      rw [h.left]
      simp only [packetMaxDataLength] at hlast hfull ⊢
      omega
    have hmsg : c.transmitBuf = some a.message := by
      refine hb.eq_message ha fun p hp => ?_
      unfold Taken
      simp only [packetMaxDataLength] at hp hfull
      omega
    rw [if_pos hcond, wp_bind, wp_testAndSet (by decide), hsuc, wp_when, if_pos (by simp), wp_bind,
      wp_setTransResultCode, pushMsg, wp_bind, wp_get, wp_emit]
    refine ⟨rfl, ⟨h.kind, h.left⟩, ⟨hb.congr rfl rfl, ?_⟩, fun _ => ⟨c.recvBufType, ?_⟩⟩
    · simp only [hmsg, Option.getD_some]; exact .push
    · simp [hmsg]
  · rw [if_neg fun hc => hfull (by omega)]
    exact ⟨rfl, h, ⟨hb, .nil⟩, fun hle => absurd hle hfull⟩

include hmax

theorem takePacket (h : Counts c) (hb : Buffer a (Taken c) c) (hsuc : c.has transSucBit = false)
    {p : Nat} (hp : p * packetMaxDataLength < a.blockLength)
    (hseq : c.leftWindowCursor = p * packetMaxDataLength) :
    wp (do
        Handler.modify fun c =>
          { c with leftWindowCursor := u32 (p * packetMaxDataLength + packetMaxDataLength) }
        copyData (p * packetMaxDataLength) (a.chunk (p * packetMaxDataLength))
          (a.chunk (p * packetMaxDataLength)).length
        Handler.modify fun c => { c with memcpyCount := c.memcpyCount + 1 }
        SimpleConnection.readerCheckComplete) (fun _ c' es => Step a c c' es) c := by
  have hcount : c.memcpyCount = p := Nat.eq_of_mul_eq_mul_right (by decide) (h.left.symm.trans hseq)
  have hcur : u32 (p * packetMaxDataLength + packetMaxDataLength) = (p + 1) * packetMaxDataLength := by
    rw [u32_of_lt (Nat.lt_of_lt_of_le (Nat.add_lt_add_right hp _) (by omega)), Nat.succ_mul]
  rw [wp_bind, wp_modify, wp_bind, copyData, wp_bind, wp_modify, wp_emit, wp_bind, wp_modify]
  -- the connection after the copy
  generalize hc₁ : ({ c with
    memcpyCount := c.memcpyCount + 1,
    leftWindowCursor := u32 (p * packetMaxDataLength + packetMaxDataLength),
    transmitBuf := c.transmitBuf.map
      (memcpyAt · (p * packetMaxDataLength) (a.chunk (p * packetMaxDataLength))) } :
    Connection) = c₁
  have htaken : Taken c₁ = fun q => Taken c q ∨ q = p := by
    funext q
    rw [← hc₁]
    simp only [Taken, hcount, Nat.lt_succ_iff_lt_or_eq]
  have h1 : Counts c₁ := by
    rw [← hc₁]
    exact ⟨h.kind, by rw [hcur, hcount]⟩
  have hb1 : Buffer a (Taken c₁) c₁ := by
    rw [htaken, ← hc₁]
    exact hb.copy ha hp rfl rfl
  have hsuc1 : c₁.has transSucBit = false := by rw [← hc₁]; exact hsuc
  have hcopy : Receives a (Taken c) (Taken c₁) c₁ [a.copyOf p] := ⟨hb1, by rw [htaken]; exact .copy⟩
  refine wp_mono _ (readerCheckComplete ha hpos h1 hb1 hsuc1 (by rw [← hc₁]; exact Nat.succ_pos _))
    fun _ c₂ es₂ ⟨hleft, h2, hr2, hdone⟩ => ?_
  refine ⟨hcopy.trans hr2, h2, fun hle => .inr ?_⟩
  obtain ⟨t, ht⟩ := hdone (hleft ▸ hle)
  exact ⟨t, List.mem_cons_of_mem _ ht⟩

theorem readerConnectionDoNetworkData (h : Counts c) (hb : Buffer a (Taken c) c) {p : Nat}
    (hp : p * packetMaxDataLength < a.blockLength) (sendTime : Nat) :
    wp (SimpleConnection.readerConnectionDoNetworkData (p * packetMaxDataLength) sendTime
        (a.chunk (p * packetMaxDataLength)) (a.chunk (p * packetMaxDataLength)).length)
      (fun _ c' es => Step a c c' es) c := by
  have hack : ∀ c, Counts c → Buffer a (Taken c) c → wp (do
      let c ← Handler.get
      ConM.sendDatagram .simpleFileAck sendTime c.leftWindowCursor [])
        (fun _ c' es => Step a c c' es) c := by
    intro c h hb
    have hlt : c.leftWindowCursor < 2 ^ 32 := by
      have := left_lt h hb
      omega
    exact .send h hb fun _ => acks_left h hlt
  rw [SimpleConnection.readerConnectionDoNetworkData, wp_bind, wp_bitTest (by decide), wp_bind,
    wp_bitTest (by decide), wp_ite]
  cases hstop : c.has forceStopBit || c.has transSucBit with
  | true =>
    rw [if_pos (by simpa using hstop), SimpleConnection.readerAnswerStopped, wp_bind, wp_get, wp_ite]
    split
    · exact hack c h hb
    · exact .send h hb fun ht => by cases ht
  | false =>
    have hsuc := (Bool.or_eq_false_iff.1 hstop).2
    rw [if_neg (by simpa using hstop), wp_bind]
    refine wp_mono _ (wp_and _ (still.increaseRunningCount c) (show wp increaseRunningCount
      (fun _ c' _ => c'.status = c.status) c from rfl)) fun _ c₀ es₀ ⟨h0, hbits⟩ => ?_
    have hs0 := Step.ofStill h hb h0
    rw [wp_bind, wp_get, wp_bind, wp_when]
    by_cases hseq : c₀.leftWindowCursor = p * packetMaxDataLength
    · rw [if_pos hseq]
      refine wp_mono _ (takePacket ha hpos hmax hs0.counts hs0.receives.toBuffer
        (by rw [has, hbits]; exact hsuc) hp hseq) fun _ c₁ es₁ h1 => ?_
      exact wp_mono _ (hack c₁ h1.counts h1.receives.toBuffer) fun _ c₂ es₂ h2 =>
        hs0.trans (h1.trans h2)
    · rw [if_neg hseq]
      exact wp_mono _ (hack _ hs0.counts hs0.receives.toBuffer) fun _ _ _ h3 => hs0.trans h3

end handlers

/-! ### Readers of a simple send -/

structure Ok (a : SendArgs) (r : Life) : Prop extends Received a (Taken r.con) r where
  counts : Counts r.con
  done : a.blockLength ≤ r.con.leftWindowCursor → r.Pushed a

section readers
variable {a : SendArgs} {r r' : Life} {x : ConM Unit}

theorem Ok.ran (h : Ok a r) (hx : wp x (fun _ c' es => Step a r.con c' es) r.con) :
    Ok a (r.ran x) ∧ (r.Pushed a → (r.ran x).Pushed a) := by
  have hs : Step a r.con (r.ran x).con (exec x r.con).2 := by rw [Life.con_ran]; exact hx
  refine ⟨⟨h.toReceived.ran (x := x) ?_, hs.counts, fun hle => ?_⟩, fun hp => hp.ran x⟩
  · rw [Life.con_ran]; exact hx.receives
  · rcases hs.done hle with hle | ⟨t, ht⟩
    · exact (h.done hle).ran x
    · exact ⟨_, by rw [Life.history_ran]; exact List.mem_cons_self, t, ht⟩

theorem Ok.thins (h : Ok a r) (ht : Life.Thins r r') : Ok a r' ∧ (r.Pushed a → r'.Pushed a) := by
  have hp : r.Pushed a → r'.Pushed a := fun hp => hp.thins ht
  refine ⟨⟨?_, ?_, fun hle => hp (h.done ?_)⟩, hp⟩
  · rw [ht.1]; exact h.toReceived.thins ht
  · rw [ht.1]; exact h.counts
  · rwa [ht.1] at hle

/-- `connection_do_require_duplicate` acknowledges the first packet only while it is the only one. -/
theorem Step.duplicate {c : Connection} (h : Counts c) (hb : Buffer a (Taken c) c) (complex : Bool)
    (d : Datagram) (addr : Nat) :
    wp (connectionDoRequireDuplicate complex d addr) (fun _ c' es => Step a c c' es) c := by
  rw [connectionDoRequireDuplicate, wp_bind, wp_get, wp_when]
  split
  · rename_i hc
    refine .send h hb fun _ => ?_
    have hack := acks_left h (hc.2.2.1 ▸ (by decide))
    rwa [hc.2.2.1] at hack
  · exact .ofStill h hb (still.refl c)

variable (ha : a.WF) (hpos : 0 < a.blockLength) (hsmall : a.blockLength ≤ smallFileMaxSize)
include ha hpos hsmall

theorem Step.doNetworkData {c : Connection} (h : Counts c) (hb : Buffer a (Taken c) c) {p : Nat}
    (hp : p * packetMaxDataLength < a.blockLength) (inc now sendTime : Nat) :
    wp (ConM.doNetworkData inc now (p * packetMaxDataLength) sendTime
      (a.chunk (p * packetMaxDataLength))
      (a.chunk (p * packetMaxDataLength)).length) (fun _ c' es => Step a c c' es) c := by
  rw [wp_doNetworkData_simpleReader h.kind]
  exact readerConnectionDoNetworkData ha hpos (hsmall.trans (by decide)) h hb hp sendTime

theorem Step.connectionDoNetworkData {c : Connection} (h : Counts c) (hb : Buffer a (Taken c) c)
    {d : Datagram} (hd : d.PacketOf a) (ht : d.msgType.target = .networkData) (inc now : Nat) :
    wp (ConM.connectionDoNetworkData inc now d d.data.length) (fun _ c' es => Step a c c' es) c := by
  obtain ⟨p, hnote, hp, hdata⟩ := hd.later ht
  rw [ConM.connectionDoNetworkData, wp_bind]
  refine wp_mono _ (still.when (still.adoptPeer (fun c _ _ => .emit c rfl) _ _) c) fun _ c₁ es₁ h1 => ?_
  have h1 := Step.ofStill h hb h1
  rw [hnote, hdata]
  exact wp_mono _ (Step.doNetworkData ha hpos hsmall h1.counts h1.receives.toBuffer hp
    inc now _) fun _ _ _ h2 =>
    h1.trans h2

theorem readers (addr : Nat) : Transfer.Readers a addr (Ok a) (Life.Pushed a) where
  start {complex d newId attr buffer c} hd ht hfit hc := by
    obtain ⟨hcomplex, hnote, hdata⟩ := hd.first ht
    obtain rfl : complex = false :=
      Bool.eq_false_iff.2 fun h => absurd (hcomplex.1 h) (Nat.not_lt.2 hsmall)
    obtain ⟨hb, hkind, hleft, hcount, -⟩ := buffer_of_equipReader hnote hfit hc
    have hnone : Taken c = fun _ => False := by funext p; simp [Taken, hcount]
    have hcounts : Counts c := ⟨hkind, by rw [hleft, hcount]; rfl⟩
    have hok : Ok a ⟨c, .live, [], 0, []⟩ :=
      ⟨by rw [hnone]; exact .init _ rfl hb, hcounts,
        fun hle => absurd (hleft ▸ hle) (Nat.not_le.2 hpos)⟩
    refine (hok.ran ?_).1
    rw [receiveFirst, wp_bind, hdata]
    have hfirst := Step.doNetworkData ha hpos hsmall hcounts hok.toBuffer (p := 0)
      (by simpa using hpos) 0 0 d.sendTime
    rw [Nat.zero_mul] at hfirst
    refine wp_mono _ hfirst fun _ c₁ es₁ h1 => ?_
    exact h1.trans (.ofStill h1.counts h1.receives.toBuffer
      (still.bind (still.addToTimerQueue (by decide))
        (fun _ => still.when (still.addToTimerQueue (by decide))) c₁))
  step {r r' act} h hact hd hs := by
    have hkind := h.counts.kind
    rcases Life.reader_cases (by rw [hkind]; rfl) hact hs with
      ⟨inc, now, d, len, rfl, rfl⟩ | ⟨_, _, _, _, _, hk, _⟩ | ⟨r₀, hthin, rfl | ⟨x, rfl, hx⟩⟩
    · obtain ⟨hp, ht, rfl⟩ := hd inc now d len rfl
      exact h.ran (Step.connectionDoNetworkData ha hpos hsmall h.counts h.toBuffer hp ht inc now)
    · rw [hkind] at hk; cases hk
    · exact h.thins hthin
    · obtain ⟨h0, hp0⟩ := h.thins hthin
      obtain ⟨h1, hp1⟩ := h0.ran (x := x) (by
        rw [hthin.1]; exact .ofStill h.counts h.toBuffer hx)
      exact ⟨h1, fun hp => hp1 (hp0 hp)⟩
  duplicate {r complex d} h := h.ran (Step.duplicate h.counts h.toBuffer complex d addr)
  thins h ht := h.thins ht
  acks {r d} h hd ht := by
    obtain ⟨k, hk, hall⟩ := h.acks d hd ht
    have hle : d.dtNote ≤ r.con.leftWindowCursor := by
      rw [hk, h.counts.left]
      refine Nat.mul_le_mul_right _ (Nat.le_of_not_lt fun hlt => ?_)
      exact Nat.lt_irrefl _ (hall _ hlt)
    have hleft := left_lt h.counts h.toBuffer
    refine ⟨⟨⟨k, by rw [hk, Nat.mul_comm]⟩, ?_⟩, fun hlen => h.done (hlen.trans hle)⟩
    have : a.blockLength + packetMaxDataLength ≤ 2 ^ 32 :=
      (Nat.add_le_add_right hsmall _).trans (by decide)
    omega

/-- **Integrity of simple transfers.** Whatever the network loses, duplicates and reorders: every buffer
a reader hands over is the message, and a successful writer has a reader that handed it over. -/
theorem simpleTransfer_integrity {id0 id1 addr : Nat} {s : Transfer.State}
    (h : (Transfer.machine a id0 id1 addr).Reach s) :
    (∀ r ∈ s.readers, r.PushesOnly a) ∧
      (s.writer.con.transResultCode = .successfully → ∃ r ∈ s.readers, r.Pushed a) := by
  have hinv := Transfer.inv_of_reach ha hpos (hsmall.trans (by decide)) (readers ha hpos hsmall addr) h
  exact ⟨fun r hr => (hinv.readers r hr).pushes, hinv.success⟩

end readers

/-- A block of two bytes. -/
def twoBytes : SendArgs :=
  ⟨[], some [7, 9], 2, 0, .noDeleteAfterSend, none, defaultSsthreshSize, 2 ^ 20⟩

theorem twoBytes_wf : twoBytes.WF where
  length := by decide
  source := .inl ⟨rfl, _, rfl, rfl⟩
  ssthresh := by decide
  maxWindow := by decide

/-- The only packet of `twoBytes`, sent at time 5. -/
def require : Datagram := ⟨.simpleFileRequire, 9, 1, 5, 2, [7, 9]⟩

/-- The REQUIRE datagram arrives twice and makes two readers, and its ack comes back. -/
theorem simpleTransfer_integrity_twice : ∃ s, (Transfer.machine twoBytes 1 9 0).Reach s ∧
    (s.readers.length = 2 ∧ s.writer.con.transResultCode = .successfully) ∧
    (∀ r ∈ s.readers, r.PushesOnly twoBytes) ∧ ∃ r ∈ s.readers, r.Pushed twoBytes := by
  have hrun : (((Transfer.machine twoBytes 1 9 0).run ⟨Life.startSender twoBytes 1 9, [], []⟩
      [.writer (.sender fun _ => 5), .require require (some 100) none (some [0, 0]),
        .require require (some 101) none (some [0, 0]),
        .writer (.networkData 0 6 ⟨.simpleFileAck, 1, 101, 5, 1452, []⟩ 0)]).map fun s =>
      (s.readers.length, s.writer.con.transResultCode)) = some (2, .successfully) := by decide +kernel
  obtain ⟨s, hs, hres⟩ := Option.map_eq_some_iff.1 hrun
  have hreach := Machine.ReachUnder.run (M := Transfer.machine twoBytes 1 9 0) (.init rfl) hs
  obtain ⟨h1, h2⟩ := simpleTransfer_integrity twoBytes_wf (by decide) (by decide) hreach
  have hcode : s.writer.con.transResultCode = .successfully := congrArg Prod.snd hres
  exact ⟨s, hreach, ⟨congrArg Prod.fst hres, hcode⟩, h1, h2 hcode⟩

end Resend.Udp.SimpleTransfer

import Resend.Udp.OpenWindow
import Resend.Udp.WriterCursors

/-!
# The size of the send window

`_window_site` doubles while it is below `_window_ssthresh`, whatever the maximal window size is;
only additive growth looks at that. So the size stays between 1452 and the maximum just when the
doublings up to the `defaultSSTHRESH` of `start_sender` do: congestion halves the threshold, and
what is doubled up to half of it does not get past it.
-/

namespace Resend.Udp
open Handler Connection ConM

/-! ### Doublings -/

/-- The window size after `j` doublings. -/
def doubled (j : Nat) : Nat := u64 (packetMaxDataLength * 2 ^ j)

theorem doubled_zero : doubled 0 = packetMaxDataLength := u64_of_lt (by decide)

theorem doubled_succ (j : Nat) : doubled (j + 1) = u64 (2 * doubled j) := by
  have : packetMaxDataLength * 2 ^ (j + 1) = 2 * (packetMaxDataLength * 2 ^ j) := by ring
  rw [doubled, doubled, this, u64, u64, u64]
  omega

theorem doubled_last : doubled 62 = 0 := by
  rw [doubled, u64]
  decide

/-- The largest size that a window may have. -/
def siteMax (maxWindowSize : Nat) : Nat := max packetMaxDataLength maxWindowSize

/-- Every size that doublings below `ssthresh` lead to lies between 1452 and the largest one. The
62nd doubling of 1452 is 0 in 64 bits. -/
def DoublesWithin (ssthresh maxWindowSize : Nat) : Prop :=
  ∀ j < 63, (∀ i < j, doubled i < ssthresh) →
    packetMaxDataLength ≤ doubled j ∧ doubled j ≤ siteMax maxWindowSize

instance (ssthresh maxWindowSize : Nat) : Decidable (DoublesWithin ssthresh maxWindowSize) :=
  inferInstanceAs (Decidable (∀ j < 63, _))

namespace DoublesWithin
variable {s s' m : Nat}

theorem mono (h : DoublesWithin s m) (hle : s' ≤ s) : DoublesWithin s' m :=
  fun j hj hlow => h j hj fun i hi => Nat.lt_of_lt_of_le (hlow i hi) hle

theorem of_le (hs : s ≤ packetMaxDataLength) : DoublesWithin s m := by
  intro j _ hlow
  cases j with
  | zero =>
    rw [doubled_zero]
    exact ⟨Nat.le_refl _, Nat.le_max_left _ _⟩
  | succ j =>
    have := hlow 0 (Nat.succ_pos j)
    rw [doubled_zero] at this
    omega

theorem exists_ge (h : DoublesWithin s m) : ∃ j < 62, s ≤ doubled j := by
  by_contra hno
  push Not at hno
  have := (h 62 (by decide) hno).1
  rw [doubled_last] at this
  exact absurd this (by decide)

theorem le_siteMax (h : DoublesWithin s m) : s ≤ siteMax m := by
  classical
  have hex : ∃ j, j < 62 ∧ s ≤ doubled j := h.exists_ge
  obtain ⟨hlt, hge⟩ := Nat.find_spec hex
  have hlow : ∀ i < Nat.find hex, doubled i < s := by
    intro i hi
    by_contra hnot
    exact Nat.find_min hex hi ⟨Nat.lt_trans hi hlt, Nat.le_of_not_lt hnot⟩
  exact Nat.le_trans hge (h _ (Nat.lt_succ_of_lt hlt) hlow).2

theorem le_siteBound (h : DoublesWithin s m) : s ≤ SendWindow.siteBound := by
  obtain ⟨j, -, hj⟩ := h.exists_ge
  exact Nat.le_trans hj (SendWindow.Doubled.le ⟨j, by rw [doubled, u64]⟩)

/-- Half of a threshold that is allowed itself: what is doubled below it does not get past the whole. -/
theorem half (hs : s ≤ siteMax m) (hlt : s < 2 ^ 64) : DoublesWithin (s / 2) m := by
  intro j _ hlow
  induction j with
  | zero =>
    rw [doubled_zero]
    exact ⟨Nat.le_refl _, Nat.le_max_left _ _⟩
  | succ j ih =>
    have hj := (ih (by omega) fun i hi => hlow i (Nat.lt_succ_of_lt hi)).1
    have hlast := hlow j (Nat.lt_succ_self j)
    rw [doubled_succ, u64_of_lt (by omega)]
    omega

end DoublesWithin

/-! ### What the window keeps -/

namespace SendWindow

/-- The sizes of a window whose doublings stay below the largest one. -/
structure Within (m : Nat) (w : SendWindow) : Prop where
  maxSite : w.maxSite = m
  leftLt : w.left < 2 ^ 32
  low : packetMaxDataLength ≤ w.site
  high : w.site ≤ siteMax m
  ssthresh : w.ssthresh ≤ siteMax m
  siteLe : w.site ≤ siteBound + 2 * w.left
  ssthreshLe : w.ssthresh ≤ siteBound + 2 * w.left
  /-- What is below the threshold has been doubled only. -/
  growing : w.site < w.ssthresh →
    DoublesWithin w.ssthresh m ∧ ∃ j, w.site = doubled j ∧ ∀ i < j, doubled i < w.ssthresh
  collapse : DoublesWithin w.congestion.ssthresh m
  recovery : w.sack = true ∨ w.inSack = true → packetMaxDataLength ≤ w.ssthresh

namespace Within
variable {m inc seq : Nat} {w : SendWindow}

theorem left_add (h : Within m w) : w.left + w.site < 2 ^ 64 := by
  have := h.leftLt
  have := h.siteLe
  simp only [siteBound] at this
  omega

theorem congestion_low (w : SendWindow) : packetMaxDataLength ≤ w.congestion.ssthresh := by
  simp only [SendWindow.congestion]
  split <;> omega

theorem collapse_of_le {s : Nat} (h : DoublesWithin (s / 2) m) :
    DoublesWithin (if s / 2 < packetMaxDataLength then packetMaxDataLength else s / 2) m := by
  split
  · exact .of_le (Nat.le_refl _)
  · exact h

theorem congestion (h : Within m w) : Within m w.congestion where
  maxSite := h.maxSite
  leftLt := h.leftLt
  low := Nat.le_refl _
  high := Nat.le_max_left _ _
  ssthresh := h.collapse.le_siteMax
  siteLe := Nat.le_trans (show packetMaxDataLength ≤ siteBound by decide) (Nat.le_add_right _ _)
  ssthreshLe := Nat.le_trans h.collapse.le_siteBound (Nat.le_add_right _ _)
  growing _ := ⟨h.collapse, 0, doubled_zero.symm, fun i hi => absurd hi (Nat.not_lt_zero i)⟩
  collapse := collapse_of_le (h.collapse.mono (Nat.div_le_self _ _))
  recovery _ := congestion_low w

theorem expire (h : Within m w) : Within m w.expire :=
  { h.congestion with }

theorem grow (h : Within m w) (hinc : w.site + inc ≤ siteBound + 2 * w.left) :
    Within m (w.grow inc) := by
  have hfit : siteBound + 2 * w.left < 2 ^ 64 := by
    have := h.leftLt
    simp only [siteBound]
    omega
  unfold SendWindow.grow
  split
  · rename_i hge
    rw [u64_of_lt (Nat.lt_of_le_of_lt hinc hfit), h.maxSite]
    obtain ⟨next, hnext⟩ : ∃ next,
      (if (if w.site + inc > m then m else w.site + inc) < w.site then w.site
      else if w.site + inc > m then m else w.site + inc) = next := ⟨_, rfl⟩
    have hcases : next = w.site ∨ w.site ≤ next ∧ next ≤ m ∧ next ≤ w.site + inc := by
      rw [← hnext]
      split_ifs <;> omega
    have hlow : w.site ≤ next := by omega
    have hhigh : next ≤ siteMax m := by
      rcases hcases with rfl | hcases
      · exact h.high
      · exact Nat.le_trans hcases.2.1 (Nat.le_max_right _ _)
    have hle : next ≤ siteBound + 2 * w.left := by
      have := h.siteLe
      omega
    simp only [hnext]
    exact {
      maxSite := rfl
      leftLt := h.leftLt
      low := Nat.le_trans h.low hlow
      high := hhigh
      ssthresh := hhigh
      siteLe := hle
      ssthreshLe := hle
      growing := fun hlt => absurd hlt (Nat.lt_irrefl _)
      collapse := collapse_of_le (.half hhigh (Nat.lt_of_le_of_lt hle hfit))
      recovery := fun _ => Nat.le_trans h.low hlow }
  · rename_i hlt
    obtain ⟨hd, j, hj, hbelow⟩ := h.growing (Nat.lt_of_not_le hlt)
    have hbelow' : ∀ i < j + 1, doubled i < w.ssthresh := fun i hi => by
      rcases Nat.lt_succ_iff_lt_or_eq.1 hi with hi | rfl
      · exact hbelow i hi
      · rw [← hj]; exact Nat.lt_of_not_le hlt
    have hj62 : j + 1 < 63 := by
      obtain ⟨k, hk, hge⟩ := hd.exists_ge
      by_contra hnot
      exact absurd (hbelow' k (by omega)) (Nat.not_lt.2 hge)
    have hsite : u64 (2 * w.site) = doubled (j + 1) := by rw [hj, doubled_succ]
    have hbounds := hd (j + 1) hj62 hbelow'
    rw [hsite]
    exact {
      maxSite := h.maxSite
      leftLt := h.leftLt
      low := hbounds.1
      high := hbounds.2
      ssthresh := h.ssthresh
      siteLe := Nat.le_trans (Doubled.le ⟨j + 1, by rw [doubled, u64]⟩) (Nat.le_add_right _ _)
      ssthreshLe := h.ssthreshLe
      growing := fun _ => ⟨hd, j + 1, rfl, hbelow'⟩
      collapse := h.collapse
      recovery := h.recovery }

theorem count (h : Within m w) (hle : w.left ≤ seq) (hlt : seq < 2 ^ 32) : Within m (w.count seq) := by
  have hsite := h.siteLe
  have hssthresh := h.ssthreshLe
  unfold SendWindow.count
  split
  · refine { h with leftLt := hlt, siteLe := ?_, ssthreshLe := ?_, recovery := fun hp => h.recovery ?_ }
    · show w.site ≤ siteBound + 2 * seq
      omega
    · show w.ssthresh ≤ siteBound + 2 * seq
      omega
    · refine hp.imp id fun hp => ?_
      exact (Bool.and_eq_true_iff.1 hp).1
  · refine { h with leftLt := hlt, siteLe := ?_, ssthreshLe := ?_ }
    · show w.site ≤ siteBound + 2 * seq
      omega
    · show w.ssthresh ≤ siteBound + 2 * seq
      omega

theorem open_ (h : Within m w) : Within m w.open_ := by
  unfold SendWindow.open_
  split
  · exact h
  · exact { h with }

theorem ack (h : Within m w) (hle : w.left ≤ seq) (hlt : seq < 2 ^ 32) (hinc : inc ≤ seq - w.left) :
    Within m (w.ack inc seq) := by
  have hcount := h.count hle hlt
  have hsame : (w.count seq).site = w.site ∧ (w.count seq).ssthresh = w.ssthresh ∧
      (w.count seq).left = seq := by
    unfold SendWindow.count
    split <;> exact ⟨rfl, rfl, rfl⟩
  rw [SendWindow.ack]
  split
  · exact { hcount.congestion with recovery := fun _ => congestion_low _ }
  · split
    · -- the size becomes the threshold, and the loss that began the recovery has left 1452 of that
      rename_i hrec
      have hin : w.inSack = true := by
        simp only [recovers, Bool.and_eq_true] at hrec
        exact hrec.2
      refine Within.open_ { hcount with
        low := ?_, high := ?_, siteLe := ?_, growing := ?_ }
      · exact h.recovery (.inr hin)
      · exact h.ssthresh
      · have := hcount.ssthreshLe
        rwa [hsame.2.1] at this
      · intro hlt
        replace hlt : w.ssthresh < (w.count seq).ssthresh := hlt
        rw [hsame.2.1] at hlt
        exact absurd hlt (Nat.lt_irrefl _)
    · refine (hcount.grow ?_).open_
      have := h.siteLe
      rw [hsame.1, hsame.2.2]
      omega

theorem process (h : Within m w) : Within m w.process where
  maxSite := h.maxSite
  leftLt := h.leftLt
  low := h.low
  high := h.high
  ssthresh := h.ssthresh
  siteLe := h.siteLe
  ssthreshLe := h.ssthreshLe
  growing := h.growing
  collapse := h.collapse
  recovery hp := h.recovery (by simpa [SendWindow.process, or_comm] using hp)

theorem loop (n : Nat) (h : Within m w) : Within m (w.loop n) := by
  induction n generalizing w with
  | zero =>
    rw [SendWindow.loop]
    split
    exacts [h.process, h]
  | succ n ih =>
    rw [SendWindow.loop]
    split
    · exact ih { h.process with }
    · exact h

theorem send (h : Within m w) : Within m w.send := h.process.loop 16

end Within

end SendWindow

/-! ### Handlers -/

/-- The window stays, and the connection a writer or reader of its kind. -/
def Calm (c c' : Connection) (es : List Effect) : Prop := SameWindow c c' es ∧ c'.kind = c.kind

theorem Calm.refl (c : Connection) (es : List Effect) : Calm c c es := ⟨⟨rfl, rfl⟩, rfl⟩

theorem Calm.bits {k : Nat} (hk : k < 8) :
    Keeps Calm (ConM.testAndSet k) ∧ Keeps Calm (ConM.testAndReset k) := by
  have h64 : k < 64 := by omega
  have h8 : 8 ≠ k ∧ 9 ≠ k ∧ 10 ≠ k ∧ 11 ≠ k ∧ 12 ≠ k := by omega
  exact ⟨keeps_modifyGet fun c => by simp [Calm, SameWindow, window, h64, h8],
    keeps_modifyGet fun c => by simp [Calm, SameWindow, window, h64, h8]⟩

theorem calm : StopFrame Calm where
  refl c := .refl c []
  trans h h' := ⟨sameWindow.trans h.1 h'.1, h'.2.trans h.2⟩
  times h := by
    obtain ⟨_, _, _, _, _, _, rfl⟩ := h
    exact ⟨⟨rfl, rfl⟩, rfl⟩
  set _ hk := (Calm.bits hk).1
  reset _ hk := (Calm.bits hk).2
  bookkeeping _ := .refl _ _
  code _ := keeps_modify fun _ => ⟨⟨rfl, rfl⟩, rfl⟩
  setClean := (Calm.bits (by decide)).1
  setStop := (Calm.bits (by decide)).1
  suspend c := .refl c _
  suspendTimer _ c := .refl c _
  resetDatagram _ := .refl _ _

section handlers
variable {c : Connection}

theorem Calm.emit (e : Connection → Effect) : Keeps Calm (do
    let c ← Handler.get
    Handler.emit (e c) : ConM Unit) :=
  fun c => .refl c [e c]

theorem Calm.freeConnection : Keeps Calm ConM.freeConnection :=
  calm.bind (show Keeps Calm (ConM.bitTest connectionTypeBit) from fun c => .refl c []) fun _ =>
  calm.bind (calm.when <| calm.bind (bits (by decide)).2 fun _ => calm.when <|
    calm.bind (keeps_modify fun _ => ⟨⟨rfl, rfl⟩, rfl⟩) fun _ => emit fun c =>
      .eraseWaitAck c.id0 c.id1) fun _ =>
  keeps_emit fun c => .refl c [.freeConnection]

theorem Calm.writerSuspendTimeOut : Keeps Calm ConM.writerSuspendTimeOut :=
  calm.bind (bits (by decide)).1 fun _ => calm.when <|
  calm.bind (show Keeps Calm writerDoConnectionSendedHandleAndCleanData from fun _ =>
    ⟨⟨rfl, rfl⟩, rfl⟩) fun _ =>
  calm.bind calm.get fun c => calm.bind (keeps_emit fun c' =>
    .refl c' [.releaseConnectionID c.offset]) fun _ =>
  freeConnection

theorem calm_seventhTimeOut {rc : Nat} (hrc : c.runningCount = rc)
    (htry : c.tryTime + 1 = sendTryTime) :
    wp (ComplexConnection.writerConnectionDoTimeOut .senderKeepingTimer rc) (fun _ c' es =>
      Calm c c' es) c := by
  rw [ComplexConnection.writerConnectionDoTimeOut, wp_bind, wp_get, wp_when,
    if_pos hrc, wp_bind, wp_modify, wp_bind, wp_get, wp_ite, if_pos htry,
    wp_bind, wp_setTransResultCode]
  exact wp_mono _ (calm.transSuspend _) fun _ _ _ h => ⟨h.1, h.2⟩

theorem calm_or_expire (hk : c.kind = .complexWriter) (hlock : c.has doingAckBit = false)
    (t : TimerType) (rc : Nat) :
    wp (doTimeOut t rc) (fun _ c' es => Calm c c' es ∨ MovesTo c c.window.expire c' ∧
      c'.kind = c.kind) c := by
  by_cases ht : t = .connectionSuspendTimer
  · subst ht
    rw [doTimeOut, wp_bind, wp_get, hk]
    exact .inl (Calm.writerSuspendTimeOut c)
  · by_cases hsev : c.seventhTimeOut t rc
    · obtain ⟨rfl, hrc, htry⟩ := hsev
      rw [doTimeOut, wp_bind, wp_get, hk]
      exact .inl (calm_seventhTimeOut hrc htry)
    · have hkind := @Moves.doTimeOut 0 c (by rw [hk]; rfl) _ ht rc
      refine wp_mono _ (wp_and _ hkind (window_doTimeOut hk hlock ht hsev)) fun _ c' _ hrun => ?_
      obtain ⟨hm, hw⟩ := hrun
      split at hw
      · exact .inr ⟨hw, hm.source.kind⟩
      · exact .inl ⟨hw, hm.source.kind⟩

theorem window_finalAck (hk : c.kind = .complexWriter) (inc now : Nat) {d : Datagram} (len : Int)
    (hfin : c.finalAck d.dtNote) :
    wp (connectionDoNetworkData inc now d len)
      (fun _ c' _ => MovesTo c { c.window with left := d.dtNote } c') c := by
  have hpeer : Keeps SameWindow (Handler.when (d.dtNote = packetMaxDataLength)
      (adoptPeer d.msgType d.fromId)) :=
    sameWindow.when (sameWindow.adoptPeer (fun _ _ _ => ⟨rfl, rfl⟩) _ _)
  have hpeer' : Keeps Quiet (Handler.when (d.dtNote = packetMaxDataLength)
      (adoptPeer d.msgType d.fromId)) :=
    quiet.when (quiet.adoptPeer Quiet.erase _ _)
  rw [connectionDoNetworkData, wp_bind]
  refine wp_mono _ (wp_and _ (hpeer c) (hpeer' c)) fun _ c₁ _ hrun => ?_
  obtain ⟨h1, hq⟩ := hrun
  have hleft : c₁.leftWindowCursor = c.leftWindowCursor := congrArg SendWindow.left h1.1
  rw [doNetworkData, wp_bind, wp_get, hq.source.kind, hk]
  show wp (ComplexConnection.writerConnectionDoNetworkData inc now d.dtNote d.sendTime) _ c₁
  rw [ComplexConnection.writerConnectionDoNetworkData, wp_bind, wp_modify, wp_bind,
    wp_setConnectionLeftWindowCursor, if_pos (by rw [hleft]; exact hfin.1), wp_when,
    if_pos (by decide), wp_bind, wp_increaseRunningCount, wp_bind, wp_get,
    wp_ite, if_pos (by rw [hq.source.length]; exact hfin.2), wp_bind, wp_setTransResultCode]
  refine wp_mono _ (calm.transSuspend _) fun _ c₂ _ h2 => ⟨h2.1.1.trans ?_, h2.1.2.trans h1.2⟩
  rw [← h1.1]
  rfl

theorem calm_stoppedSender (hk : c.kind = .complexWriter) (hstop : c.has forceStopBit = true)
    (clock : Nat → Nat) :
    wp (connectionDoSender clock) (fun _ c' es => Calm c c' es) c := by
  rw [connectionDoSender, wp_bind]
  have hback := quiet_testAndReset (k := rebackSenderBit) (by decide) (by decide) c
  refine wp_mono _ (wp_and _ ((Calm.bits (k := rebackSenderBit) (by decide)).2 c)
    hback) fun _ c₁ _ hrun => ?_
  obtain ⟨h1, hq⟩ := hrun
  have hstop₁ : (if c₁.has forceStopBit then (1 : Int) else 0) = 1 := by
    rw [hq.bits _ (by decide), hstop]
    rfl
  rw [wp_bind, doSend, wp_bind, wp_get, h1.2, hk]
  show wp (ComplexConnection.writerConnectionDoSend clock) _ c₁
  rw [ComplexConnection.writerConnectionDoSend, wp_bind, wp_bitTest (by decide), wp_ite, if_pos hstop₁]
  refine wp_mono _ (calm.transSuspend c₁) fun _ c₂ _ h2 => ?_
  have hrest : Keeps Calm (do
      let _ ← ConM.testAndReset inSenderBit
      let back ← ConM.testAndReset rebackSenderBit
      Handler.when (back = 1) ConM.addToSenderQueue : ConM Unit) :=
    calm.bind (Calm.bits (by decide)).2 fun _ => calm.bind (Calm.bits (by decide)).2 fun _ =>
      calm.when calm.addToSenderQueue
  exact wp_mono _ (hrest c₂) fun _ c₃ _ h3 =>
    ⟨⟨h3.1.1.trans (h2.1.1.trans h1.1.1), h3.1.2.trans (h2.1.2.trans h1.1.2)⟩,
      h3.2.trans (h2.2.trans h1.2)⟩

end handlers

/-! ### The machine -/

namespace WindowSize
open SendWindow

/-- A sequence number of the wire, and a growth of at most the acknowledged interval. -/
def Plausible (l : Life) : Life.Act → Prop
  | .networkData inc _ d _ =>
    d.dtNote < 2 ^ 32 ∧ (l.con.leftWindowCursor ≤ d.dtNote → inc ≤ d.dtNote - l.con.leftWindowCursor)
  | _ => True

instance (l : Life) : (act : Life.Act) → Decidable (Plausible l act)
  | .networkData .. => inferInstanceAs (Decidable (_ ∧ (_ → _)))
  | .reset _ | .stop | .timeOut _ | .sender _ => inferInstanceAs (Decidable True)

def machine (a : SendArgs) (id0 id1 : Nat) : Machine Life Life.Act where
  init l := l = Life.startSender a id0 id1
  step l act := if Plausible l act then l.step act else none

def Bounded (a : SendArgs) (l : Life) : Prop :=
  packetMaxDataLength ≤ l.con.windowSite ∧ l.con.windowSite ≤ max packetMaxDataLength a.maxWindowSize ∧
    l.con.leftWindowCursor + l.con.windowSite < 2 ^ 64

structure Inv (a : SendArgs) (l : Life) : Prop where
  kind : l.con.kind = .complexWriter
  lock : l.con.has doingAckBit = false
  len : l.con.window.len = a.blockLength
  within : Within a.maxWindowSize l.con.window

section inv
variable {a : SendArgs} {l l' : Life} {act : Life.Act}

theorem Inv.bounded (h : Inv a l) : Bounded a l := ⟨h.within.low, h.within.high, h.within.left_add⟩

theorem Inv.ran (h : Inv a l) {x : ConM Unit} {w : SendWindow}
    (hx : wp x (fun _ c' _ => MovesTo l.con w c' ∧ c'.kind = l.con.kind) l.con)
    (hlen : w.len = l.con.window.len) (hw : Within a.maxWindowSize w) : Inv a (l.ran x) := by
  obtain ⟨⟨hwin, hlock⟩, hkind⟩ := hx
  refine ⟨?_, ?_, ?_, ?_⟩ <;> rw [Life.con_ran]
  · exact hkind.trans h.kind
  · exact hlock.trans h.lock
  · exact (congrArg SendWindow.len hwin).trans (hlen.trans h.len)
  · exact (congrArg (Within a.maxWindowSize) hwin).mpr hw

theorem Inv.stays (h : Inv a l) {x : ConM Unit} (hx : wp x (fun _ c' es => Calm l.con c' es) l.con) :
    Inv a (l.ran x) :=
  h.ran (w := l.con.window) hx rfl h.within

theorem loop_len (n : Nat) (w : SendWindow) : (w.loop n).len = w.len := by
  induction n generalizing w with
  | zero =>
    rw [SendWindow.loop]
    split <;> rfl
  | succ n ih =>
    rw [SendWindow.loop]
    split
    · exact ih _
    · rfl

theorem ack_len (inc seq : Nat) (w : SendWindow) : (w.ack inc seq).len = w.len := by
  have hcount : (w.count seq).len = w.len := by
    unfold SendWindow.count
    split <;> rfl
  have hopen : ∀ w : SendWindow, w.open_.len = w.len := fun w => by
    unfold SendWindow.open_
    split <;> rfl
  have hgrow : ∀ w : SendWindow, (w.grow inc).len = w.len := fun w => by
    unfold SendWindow.grow
    split <;> rfl
  rw [SendWindow.ack]
  split
  · exact hcount
  · split
    · exact (hopen _).trans hcount
    · exact (hopen _).trans ((hgrow _).trans hcount)

theorem Inv.step (h : Inv a l) (ha : a.WF) (hlen : smallFileMaxSize < a.blockLength)
    (hp : Plausible l act) (hs : l.step act = some l') : Inv a l' := by
  have hw : l.con.kind.isWriter = true := by rw [h.kind]; rfl
  have hlen' : l.con.transmitBufLength = a.blockLength := h.len
  cases act with
  | networkData inc now d len =>
    obtain ⟨hwire, hinc⟩ := hp
    simp only [Life.step, Option.ite_none_right_eq_some, Option.some.injEq] at hs
    obtain ⟨-, rfl⟩ := hs
    have hkind : wp (connectionDoNetworkData inc now d len)
        (fun _ c' _ => c'.kind = l.con.kind) l.con :=
      (Moves.connectionDoNetworkData hw inc now d len).source.kind
    by_cases hfin : l.con.finalAck d.dtNote
    · have hmoves := window_finalAck h.kind inc now len hfin
      have hsite := h.within.siteLe
      have hssthresh := h.within.ssthreshLe
      have hle : l.con.window.left ≤ d.dtNote := hfin.1
      refine h.ran ⟨hmoves, hkind⟩ rfl { h.within with leftLt := hwire, siteLe := ?_, ssthreshLe := ?_ }
      · show l.con.window.site ≤ siteBound + 2 * d.dtNote
        omega
      · show l.con.window.ssthresh ≤ siteBound + 2 * d.dtNote
        omega
    · have hpos : 0 < l.con.transmitBufLength ∧ l.con.transmitBufLength < 2 ^ 32 := by
        rw [hlen']
        exact ⟨Nat.lt_of_le_of_lt (Nat.zero_le _) hlen, ha.length⟩
      have hack := window_connectionDoNetworkData h.kind h.lock hpos inc now len hfin
      by_cases hle : l.con.leftWindowCursor ≤ d.dtNote
      · simp only [if_pos hle] at hack
        exact h.ran ⟨⟨hack.2.2, hack.1.trans h.lock.symm⟩, hkind⟩ (ack_len _ _ _)
          (h.within.ack hle hwire (hinc hle))
      · simp only [if_neg hle] at hack
        exact h.ran ⟨⟨hack.2, hack.1.trans h.lock.symm⟩, hkind⟩ rfl h.within
  | reset msgType =>
    simp only [Life.step, Option.ite_none_right_eq_some, Option.some.injEq] at hs
    obtain ⟨-, rfl⟩ := hs
    exact h.stays (calm.connectionDoConnectionReset msgType l.con)
  | stop =>
    simp only [Life.step, Option.ite_none_right_eq_some, Option.some.injEq] at hs
    obtain ⟨-, rfl⟩ := hs
    exact h.stays (calm.connectionDoConnectionStop l.con)
  | timeOut j =>
    simp only [Life.step] at hs
    split at hs
    · cases hs
    rename_i t rc ht
    have he : Inv a { l with timers := l.timers.eraseIdx j } := ⟨h.kind, h.lock, h.len, h.within⟩
    split at hs <;> cases hs
    · exact he
    · rcases calm_or_expire h.kind h.lock t rc with hx | hx
      · exact he.stays hx
      · exact he.ran hx rfl h.within.expire
  | sender clock =>
    simp only [Life.step] at hs
    split at hs
    · cases hs
    have he : Inv a { l with queued := l.queued - 1 } := ⟨h.kind, h.lock, h.len, h.within⟩
    split at hs <;> cases hs
    · cases hstop : l.con.has forceStopBit with
      | true => exact he.stays (calm_stoppedSender h.kind hstop clock)
      | false =>
        have hkind : wp (connectionDoSender clock) (fun _ c' _ => c'.kind = l.con.kind) l.con :=
          (connectionDoSender_quiet hstop clock).source.kind
        exact he.ran ⟨window_connectionDoSender h.kind hstop clock, hkind⟩ (loop_len 16 _) h.within.send
    · exact he

theorem inv_init (hlen : smallFileMaxSize < a.blockLength)
    (hd : DoublesWithin a.defaultSSTHRESH a.maxWindowSize) (id0 id1 : Nat) :
    Inv a (Life.startSender a id0 id1) := by
  have hnew : Inv a ⟨newWriter a id0 id1, .live, [], 0, []⟩ := by
    have hc : newWriter a id0 id1 = { newWriter a id0 id1 with kind := .complexWriter } := by
      rw [newWriter, if_neg (Nat.not_le.2 hlen)]
      rfl
    have hw : (newWriter a id0 id1).window =
        ⟨0, a.blockLength, 0, 0, packetMaxDataLength, packetMaxDataLength,
          a.defaultSSTHRESH, a.maxWindowSize, 0, 0, false, false, false, false⟩ := by
      simp only [newWriter, if_neg (Nat.not_le.2 hlen)]
      simp [window, construct]
    refine ⟨congrArg (·.kind) hc, ?_, ?_, ?_⟩
    · simp only [newWriter, if_neg (Nat.not_le.2 hlen)]
      simp [construct]
    · rw [hw]
    · rw [hw]
      exact {
        maxSite := rfl
        leftLt := Nat.two_pow_pos 32
        low := Nat.le_refl _
        high := Nat.le_max_left _ _
        ssthresh := hd.le_siteMax
        siteLe := by show packetMaxDataLength ≤ siteBound + 2 * 0; decide
        ssthreshLe := Nat.le_trans hd.le_siteBound (Nat.le_add_right _ _)
        growing := fun _ => ⟨hd, 0, doubled_zero.symm, fun i hi => absurd hi (Nat.not_lt_zero i)⟩
        collapse := Within.collapse_of_le (hd.mono (Nat.div_le_self _ _))
        recovery := fun hp => by rcases hp with hp | hp <;> cases hp }
  exact hnew.stays (calm.addToSenderQueue _)

end inv

/-! ### Doublings that a run makes -/

/-- The window after `j` acks of `1, ..., j`. -/
structure Doubling (a : SendArgs) (j : Nat) (l : Life) : Prop where
  sending : l.Sending
  kind : l.con.kind = .complexWriter
  lock : l.con.has doingAckBit = false
  len : l.con.window.len = a.blockLength
  left : l.con.window.left = j
  sackSeq : l.con.window.sackSeq = j
  inSack : l.con.window.inSack = false
  site : l.con.window.site = doubled j
  ssthresh : l.con.window.ssthresh = a.defaultSSTHRESH

section runs
variable {a : SendArgs} {id0 id1 : Nat} {l : Life} {j : Nat}

theorem Doubling.start (hlen : smallFileMaxSize < a.blockLength) :
    Doubling a 0 (Life.startSender a id0 id1) := by
  have hs : SameWindow (newWriter a id0 id1) (Life.startSender a id0 id1).con
      (exec ConM.addToSenderQueue (newWriter a id0 id1)).2 := by
    rw [Life.startSender, Life.con_ran]
    exact sameWindow.addToSenderQueue _
  have hw : (Life.startSender a id0 id1).con.window =
      ⟨0, a.blockLength, 0, 0, packetMaxDataLength, packetMaxDataLength,
        a.defaultSSTHRESH, a.maxWindowSize, 0, 0, false, false, false, false⟩ := by
    rw [hs.1]
    simp only [newWriter, if_neg (Nat.not_le.2 hlen)]
    simp [window, construct]
  refine ⟨.start a id0 id1, ?_, ?_, ?_, ?_, ?_, ?_, ?_, ?_⟩
  · rw [Life.startSender, Life.con_ran]
    refine (calm.addToSenderQueue (newWriter a id0 id1)).2.trans ?_
    rw [newWriter, if_neg (Nat.not_le.2 hlen)]
    rfl
  · refine hs.2.trans ?_
    simp only [newWriter, if_neg (Nat.not_le.2 hlen)]
    simp [construct]
  all_goals rw [hw]
  exact doubled_zero.symm

theorem Doubling.step (h : Doubling a j l) (ha : a.WF) (hj : j + 1 < a.blockLength)
    (hlow : doubled j < a.defaultSSTHRESH) :
    ∃ act l', Plausible l act ∧ l.step act = some l' ∧ Doubling a (j + 1) l' := by
  have hlen : l.con.transmitBufLength = a.blockLength := h.len
  have hleft : l.con.leftWindowCursor = j := h.left
  obtain ⟨d, hd⟩ : ∃ d : Datagram, d = ⟨.complexFileAck, l.con.id0, 0, 0, j + 1, []⟩ := ⟨_, rfl⟩
  have hnote : d.dtNote = j + 1 := by rw [hd]
  have hwriter : l.con.kind.isWriter = true := by rw [h.kind]; rfl
  have hfin : ¬ l.con.finalAck d.dtNote := by
    rintro ⟨-, hgt⟩
    rw [hlen, hnote, sub32_of_le ha.length (Nat.lt_of_le_of_lt (Nat.zero_le _) hj)] at hgt
    omega
  have hquiet := connectionDoNetworkData_cases hwriter 0 0 d 0
  simp only [if_neg hfin] at hquiet
  have hpos : 0 < l.con.transmitBufLength ∧ l.con.transmitBufLength < 2 ^ 32 := by
    rw [hlen]
    exact ⟨Nat.lt_of_le_of_lt (Nat.zero_le _) hj, ha.length⟩
  have hw := window_connectionDoNetworkData h.kind h.lock hpos 0 0 0 hfin
  simp only [hleft, hnote, Nat.le_succ, if_true] at hw
  have hthird : ¬ l.con.window.third (j + 1) :=
    fun ht => absurd (ht.1.symm.trans h.sackSeq) (Nat.succ_ne_self j)
  have hrec : ¬ l.con.window.recovers (j + 1) = true := by simp [recovers, h.inSack]
  have hgrow : ¬ l.con.window.ssthresh ≤ l.con.window.site := by
    rw [h.site, h.ssthresh]
    exact Nat.not_le.2 hlow
  obtain ⟨n, hn⟩ := @Ok.count_eq l.con.window (j + 1) hrec
  have hack : l.con.window.ack 0 (j + 1) = { l.con.window with
      left := j + 1, sackSeq := j + 1, same := n, site := doubled (j + 1),
      right := u64 (j + 1 + doubled (j + 1)) } := by
    rw [SendWindow.ack, if_neg hthird, if_neg hrec, hn, Ok.grow_moved, SendWindow.grow,
      if_neg hgrow, SendWindow.open_, if_neg (by simp [h.inSack]), h.site, ← doubled_succ]
  refine ⟨.networkData 0 0 d 0, l.ran (connectionDoNetworkData 0 0 d 0), ?_, ?_, ?_⟩
  · refine ⟨?_, fun _ => Nat.zero_le _⟩
    rw [hnote]
    exact Nat.lt_trans hj ha.length
  · rw [Life.step, if_pos ⟨h.sending.live, by rw [hd]⟩]
  · have hwin : (l.ran (connectionDoNetworkData 0 0 d 0)).con.window = l.con.window.ack 0 (j + 1) := by
      rw [Life.con_ran]
      exact hw.2.2
    rw [hack] at hwin
    refine ⟨h.sending.ran hquiet, ?_, ?_, ?_, ?_, ?_, ?_, ?_, ?_⟩
    · rw [Life.con_ran]
      exact hquiet.source.kind.trans h.kind
    · rw [Life.con_ran]
      exact hw.1
    all_goals rw [hwin]
    · exact h.len
    · exact h.inSack
    · exact h.ssthresh

theorem exists_doubling (ha : a.WF) (hlen : smallFileMaxSize < a.blockLength)
    (hj : j < smallFileMaxSize) (hlow : ∀ i < j, doubled i < a.defaultSSTHRESH) :
    ∃ l, (machine a id0 id1).Reach l ∧ Doubling a j l := by
  induction j with
  | zero => exact ⟨_, .init rfl, .start hlen⟩
  | succ j ih =>
    obtain ⟨l, hl, hd⟩ := ih (Nat.lt_of_succ_lt hj) fun i hi => hlow i (Nat.lt_succ_of_lt hi)
    obtain ⟨act, l', hp, hs, hd'⟩ := hd.step ha (Nat.lt_trans hj hlen) (hlow j (Nat.lt_succ_self j))
    refine ⟨l', .step hl (a := act) trivial ?_, hd'⟩
    show (if Plausible l act then l.step act else none) = some l'
    rw [if_pos hp, hs]

end runs

/-- The window keeps its bounds in every run just when the doublings up to the caller's threshold do. -/
theorem bounded_iff_doublesWithin {a : SendArgs} (ha : a.WF)
    (hlen : smallFileMaxSize < a.blockLength) (id0 id1 : Nat) :
    (∀ l, (machine a id0 id1).Reach l → Bounded a l) ↔
      DoublesWithin a.defaultSSTHRESH a.maxWindowSize := by
  constructor
  · intro h j hj hlow
    obtain ⟨l, hl, hd⟩ := @exists_doubling a id0 id1 j ha hlen (Nat.lt_of_lt_of_le hj (by decide)) hlow
    obtain ⟨h1, h2, -⟩ := h l hl
    have hsite : l.con.windowSite = doubled j := hd.site
    rw [hsite] at h1 h2
    exact ⟨h1, h2⟩
  · intro hd l hl
    refine (hl.invariant (I := Inv a) ?_ ?_).bounded
    · rintro s rfl
      exact inv_init hlen hd id0 id1
    · intro s act s' hI _ hs
      simp only [machine, Option.ite_none_right_eq_some] at hs
      exact hI.step ha hlen hs.1 hs.2

/-- The default threshold, 64 packets, under the maximum of 2 ^ 20 bytes: the sixth doubling reaches
it. -/
theorem bounded_iff_doublesWithin_default :
    DoublesWithin shortestComplex.defaultSSTHRESH shortestComplex.maxWindowSize ∧
      ∀ l, (machine shortestComplex 1 0).Reach l → Bounded shortestComplex l := by
  have hwithin : DoublesWithin shortestComplex.defaultSSTHRESH shortestComplex.maxWindowSize := by
    decide +kernel
  exact ⟨hwithin, (bounded_iff_doublesWithin shortestComplex_wf (by decide) 1 0).2 hwithin⟩

/-- A threshold of two packets and a largest window of one and a half. -/
def narrow : SendArgs := { shortestComplex with defaultSSTHRESH := 2904, maxWindowSize := 2178 }

theorem narrow_wf : narrow.WF :=
  ⟨shortestComplex_wf.length, shortestComplex_wf.source, by decide, by decide⟩

/-- The ack of the first packet doubles the window past the maximum. -/
theorem exists_window_above_max :
    ¬ ∀ (a : SendArgs) (id0 id1 : Nat), a.WF → smallFileMaxSize < a.blockLength →
      ∀ l, (machine a id0 id1).Reach l → Bounded a l := by
  intro hall
  have hrun : ((machine narrow 1 0).run (Life.startSender narrow 1 0)
      [.sender fun _ => 0, .networkData 0 0 ⟨.complexFileAck, 1, 2, 0, 1452, []⟩ 0]).map
        (·.con.windowSite) = some 2904 := by
    decide +kernel
  obtain ⟨l, hl, hsite⟩ := Option.map_eq_some_iff.1 hrun
  have hle := (hall narrow 1 0 narrow_wf (by decide) l
      (Machine.ReachUnder.run (M := machine narrow 1 0) (.init rfl) hl)).2.1
  rw [hsite] at hle
  exact absurd hle (by decide)

end WindowSize

end Resend.Udp

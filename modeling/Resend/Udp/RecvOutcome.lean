import Resend.Udp.Frames

/-!
# How a receive ends

Five timers, the data path and the stop paths share one buffer. A monitor over the effects of a reader
forbids a second outcome and every copy after the first; each handler keeps the link between the
monitor and the `trans_succ` bit (`Guarded`), so no run of a reader is ever stopped by it.
-/

namespace Resend.Udp.RecvOutcome
open Handler Connection ConM

/-- The buffer is handed to the method processor, or the failure is reported. -/
def isOutcome : Effect → Bool
  | .pushMsg .. | .recvFailed .. => true
  | _ => false

def isCopy : Effect → Bool
  | .memcpy .. => true
  | _ => false

/-- `true` once there was an outcome. -/
def monitor : Monitor Bool Effect where
  next ended e :=
    if ended && (isOutcome e || isCopy e) then none else some (ended || isOutcome e)

/-- All effects of a connection so far, the oldest first. -/
def trace (l : Life) : List Effect := l.history.reverse.flatten

/-- At most one outcome, and no copy after it. -/
structure Outcome (es : List Effect) : Prop where
  once : (es.filter isOutcome).length ≤ 1
  noCopy : ∀ pre e post, es = pre ++ e :: post → isOutcome e = true → ∀ e' ∈ post, isCopy e' = false

/-! ### Accepted traces -/

section monitor
variable {es : List Effect} {b : Bool}

theorem scan_true (h : monitor.scan true es = some b) :
    ∀ e ∈ es, isOutcome e = false ∧ isCopy e = false := by
  induction es with
  | nil => simp
  | cons e es ih =>
    obtain ⟨b', hb', hrest⟩ := Option.bind_eq_some_iff.1 h
    simp only [monitor, Bool.true_and, Bool.true_or] at hb'
    split at hb' <;> cases hb'
    rename_i he
    simp only [Bool.or_eq_true, not_or, Bool.not_eq_true] at he
    exact List.forall_mem_cons.2 ⟨he, ih hrest⟩

theorem outcome_of_scan (h : monitor.scan false es = some b) : Outcome es := by
  refine ⟨?_, fun pre e post hes he e' he' => ?_⟩
  · induction es with
    | nil => simp
    | cons e es ih =>
      obtain ⟨b', hb', hrest⟩ := Option.bind_eq_some_iff.1 h
      simp only [monitor, Bool.false_and, Bool.false_or, Bool.false_eq_true, if_false,
        Option.some.injEq] at hb'
      subst hb'
      cases he : isOutcome e with
      | false => rw [he] at hrest; simpa [he] using ih hrest
      | true =>
        rw [he] at hrest
        have : es.filter isOutcome = [] :=
          List.filter_eq_nil_iff.2 fun e' he' => by simp [(scan_true hrest e' he').1]
        simp [he, this]
  · rw [hes] at h
    obtain ⟨b', -, hrest⟩ := monitor.scan_split h
    obtain ⟨b'', hb'', hrest⟩ := Option.bind_eq_some_iff.1 hrest
    have : b'' = true := by
      simp only [monitor] at hb''
      split at hb'' <;> cases hb''
      rw [he, Bool.or_true]
    subst this
    exact (scan_true hrest e' he').2

end monitor

/-! ### The frame -/

/-- The monitor lets the effects pass, and after an outcome the `trans_succ` bit is set. -/
structure Guarded (c c' : Connection) (es : List Effect) : Prop where
  kind : c'.kind = c.kind
  suc : c.has transSucBit = true → c'.has transSucBit = true
  scan : ∀ b, (b = true → c.has transSucBit = true) →
    ∃ b', monitor.scan b es = some b' ∧ (b' = true → c'.has transSucBit = true)

namespace Guarded
variable {c : Connection}

theorem eq_false_of {b s : Bool} (hs : s = false) (hb : b = true → s = true) : b = false := by
  cases b with
  | false => rfl
  | true => rw [hs] at hb; cases hb rfl

theorem emit (c : Connection) {e : Effect} (ho : isOutcome e = false) (hc : isCopy e = false) :
    Guarded c c [e] :=
  ⟨rfl, id, fun b hb => ⟨b, by simp [Monitor.scan, monitor, ho, hc], hb⟩⟩

theorem update {c c' : Connection} (hk : c'.kind = c.kind) (hs : c'.status = c.status) :
    Guarded c c' [] :=
  ⟨hk, fun h => by rw [has, hs]; exact h, fun b hb => ⟨b, rfl, fun h => by rw [has, hs]; exact hb h⟩⟩

theorem testAndSet {k : Nat} (hk : k < 64) : Keeps Guarded (ConM.testAndSet k) :=
  keeps_modifyGet fun c => ⟨rfl, fun h => by simp at h; simp [hk, h], fun b hb =>
    ⟨b, rfl, fun h => by have := hb h; simp at this; simp [hk, this]⟩⟩

theorem testAndReset {k : Nat} (hk : k < 64) (h0 : k ≠ 0) : Keeps Guarded (ConM.testAndReset k) :=
  keeps_modifyGet fun c => ⟨rfl, fun h => by simp at h; simp [hk, h, h0.symm], fun b hb =>
    ⟨b, rfl, fun h => by have := hb h; simp at this; simp [hk, this, h0.symm]⟩⟩

end Guarded

theorem guarded : StopFrame Guarded where
  refl c := ⟨rfl, id, fun b hb => ⟨b, rfl, hb⟩⟩
  trans h h' := by
    refine ⟨h'.kind.trans h.kind, fun hs => h'.suc (h.suc hs), fun b hb => ?_⟩
    obtain ⟨b', h1, h2⟩ := h.scan b hb
    obtain ⟨b'', h3, h4⟩ := h'.scan b' h2
    exact ⟨b'', monitor.scan_trans h1 h3, h4⟩
  times h := by
    obtain ⟨_, _, _, _, _, _, rfl⟩ := h
    exact Guarded.update rfl rfl
  set _ hk := Guarded.testAndSet (by omega)
  reset hk hk' := Guarded.testAndReset (by omega) (by omega)
  bookkeeping {e c} he := Guarded.emit c (by cases e <;> simp_all [Effect.bookkeeping, isOutcome])
    (by cases e <;> simp_all [Effect.bookkeeping, isCopy])
  code _ := keeps_modify fun _ => Guarded.update rfl rfl
  setClean := Guarded.testAndSet (by decide)
  setStop := Guarded.testAndSet (by decide)
  suspend c := Guarded.emit c rfl rfl
  suspendTimer _ c := Guarded.emit c rfl rfl
  resetDatagram _ := Guarded.emit _ rfl rfl

namespace Guarded
variable {c : Connection}

/-- `trans_succ` is taken, then something that contains at most one outcome and no copy runs. -/
theorem taken {x : ConM Unit} (hk : ∀ c, wp x (fun _ c' es => c'.kind = c.kind ∧
      (c.has transSucBit = true → c'.has transSucBit = true) ∧ ∃ b, monitor.scan false es = some b) c) :
    Keeps Guarded (do
      let old ← ConM.testAndSet transSucBit
      Handler.when (old = 0) x) := by
  intro c
  rw [wp_bind, wp_testAndSet (by decide), wp_when]
  cases hsuc : c.has transSucBit with
  | true =>
    rw [if_neg (by simp)]
    exact testAndSet (k := transSucBit) (by decide) c
  | false =>
    rw [if_pos (by simp)]
    refine wp_mono _ (hk _) fun _ c' es ⟨h1, h2, b', h3⟩ => ?_
    have hset : c'.has transSucBit = true := h2 (by simp)
    refine ⟨h1, fun _ => hset, fun b hb => ⟨b', ?_, fun _ => hset⟩⟩
    rw [eq_false_of hsuc hb]; exact h3

theorem copyData (hs : c.has transSucBit = false) (seq : Nat) (data : List UInt8) (len : Int) :
    wp (ConM.copyData seq data len) (fun _ c' es => Guarded c c' es) c := by
  refine ⟨rfl, id, fun b hb => ⟨false, ?_, fun h => by cases h⟩⟩
  rw [eq_false_of hs hb]; rfl

end Guarded

theorem guardedReader : ReaderFrame Guarded where
  toStopFrame := guarded
  received h := by
    obtain ⟨_, _, _, _, rfl⟩ := h
    exact Guarded.update rfl rfl
  answer _ _ c := Guarded.emit c rfl rfl
  succTimer _ c := Guarded.emit c rfl rfl
  copy := Guarded.copyData
  push hf := Guarded.taken fun c => by
    obtain ⟨_, _, _, _, hc⟩ := hf c
    simp only [wp_bind, wp_modify, hc]
    exact ⟨rfl, id, _, rfl⟩

namespace Guarded
variable {c : Connection}

theorem freeConnection : Keeps Guarded ConM.freeConnection :=
  guarded.bind guarded.refl fun _ => guarded.bind (guarded.when <|
    guarded.bind (testAndReset (by decide) (by decide)) fun _ => guarded.when <|
    guarded.bind (keeps_modify fun _ => update rfl rfl) fun _ => guarded.bind guarded.get fun _ =>
      keeps_emit fun c => emit c rfl rfl) fun _ => keeps_emit fun c => emit c rfl rfl

theorem readerForceReset : Keeps Guarded ConM.readerForceReset := by
  refine taken fun c => ?_
  rw [wp_readerDone]
  refine ⟨rfl, id, ?_⟩
  unfold readerDone
  cases c.recvFailedHandle <;> cases c.recvBufType <;> split <;> exact ⟨_, rfl⟩

theorem readerSuspendTimeOut : Keeps Guarded ConM.readerSuspendTimeOut :=
  guarded.bind readerForceReset fun _ => guarded.bind guarded.get fun _ =>
    guarded.bind (keeps_emit fun c => emit c rfl rfl) fun _ => freeConnection

theorem doTimeOut (hr : c.kind.isWriter = false) (t : TimerType) (runningCount : Nat) :
    wp (ConM.doTimeOut t runningCount) (fun _ c' es => Guarded c c' es) c :=
  guardedReader.doTimeOut hr runningCount (fun _ => readerForceReset c) fun _ => readerSuspendTimeOut c

theorem connectionDoNetworkData (hr : c.kind.isWriter = false) (inc now : Nat) (d : Datagram)
    (len : Int) :
    wp (ConM.connectionDoNetworkData inc now d len) (fun _ c' es => Guarded c c' es) c := by
  rw [ConM.connectionDoNetworkData, wp_bind]
  refine wp_mono _ (guarded.when
    (guarded.adoptPeer (fun c _ _ => emit c rfl rfl) _ _) c) fun _ c₁ es₁ h1 => ?_
  exact wp_mono _ (guardedReader.doNetworkData (h1.kind ▸ hr) _ _ _ _ _ _) fun _ _ _ h2 =>
    guarded.trans h1 h2

end Guarded

/-! ### Runs -/

/-- One reader, from any REQUIRE that `start_recver` accepts. -/
def machine : Machine Life Life.Act where
  init l := ∃ complex d len id0 addr attr buffer c,
    equipReader attr buffer (waitingReader (newReader complex d) id0 addr) = some c ∧
    l = Life.startRecver complex d len c
  step := Life.step

structure Inv (l : Life) : Prop where
  reader : l.con.kind.isWriter = false
  scan : ∃ b, monitor.scan false (trace l) = some b ∧ (b = true → l.con.has transSucBit = true)

theorem Inv.ran {l : Life} (h : Inv l) {x : ConM Unit}
    (hx : wp x (fun _ c' es => Guarded l.con c' es) l.con) :
    Inv (l.ran x) := by
  obtain ⟨b, hb, hsuc⟩ := h.scan
  obtain ⟨b', hb', hsuc'⟩ := hx.scan b hsuc
  refine ⟨?_, b', ?_, ?_⟩
  · rw [Life.con_ran]; exact hx.kind ▸ h.reader
  · rw [trace, Life.history_ran, List.reverse_cons, List.flatten_append, List.flatten_singleton]
    exact monitor.scan_trans hb hb'
  · rw [Life.con_ran]; exact hsuc'

theorem inv_init {l : Life} (h : machine.init l) : Inv l := by
  obtain ⟨complex, d, len, id0, addr, attr, buffer, c, hc, rfl⟩ := h
  have hr : c.kind.isWriter = false := by
    obtain ⟨_, _, _, rfl⟩ := equipReader_some hc
    cases complex <;> rfl
  have h0 : Inv ⟨c, .live, [], 0, []⟩ := ⟨hr, false, rfl, fun h => by cases h⟩
  exact h0.ran (guardedReader.receiveFirst hr complex d len)

theorem inv_step {l l' : Life} {act : Life.Act} (h : Inv l) (hs : l.step act = some l') : Inv l' := by
  cases act with
  | networkData inc now d len =>
    simp only [Life.step] at hs
    split at hs <;> cases hs
    exact h.ran (Guarded.connectionDoNetworkData h.reader inc now d len)
  | reset msgType =>
    simp only [Life.step] at hs
    split at hs <;> cases hs
    exact h.ran (guarded.connectionDoConnectionReset msgType _)
  | stop =>
    simp only [Life.step] at hs
    split at hs <;> cases hs
    exact h.ran (guarded.connectionDoConnectionStop _)
  | timeOut j =>
    simp only [Life.step] at hs
    split at hs
    · cases hs
    have he : Inv { l with timers := l.timers.eraseIdx j } := ⟨h.reader, h.scan⟩
    split at hs <;> cases hs
    · exact he
    · exact he.ran (Guarded.doTimeOut h.reader _ _)
  | sender clock =>
    simp only [Life.step] at hs
    split at hs
    · cases hs
    have he : Inv { l with queued := l.queued - 1 } := ⟨h.reader, h.scan⟩
    split at hs <;> cases hs
    · exact he.ran (guardedReader.connectionDoSender h.reader (fun h => h.kind) clock)
    · exact he

/-- In every run of a reader it pushes its buffer or reports the failure at most once, never both, and
copies nothing afterwards. -/
theorem outcome_of_reach {l : Life} (h : machine.Reach l) : Outcome (trace l) := by
  obtain ⟨b, hb, -⟩ := (h.invariant (fun _ => inv_init) fun _ _ _ hi _ hs => inv_step hi hs).scan
  exact outcome_of_scan hb

/-- A one-packet message is received and pushed, and its reader times out. -/
theorem outcome_of_reach_pushed : ∃ l, machine.Reach l ∧ l.slot = .null ∧ Outcome (trace l) := by
  have hsome : (equipReader none (some [0])
    (waitingReader (newReader false ⟨.simpleFileRequire, 9, 1, 0, 1, [7]⟩) 5 0)).isSome := rfl
  obtain ⟨c, hc⟩ := Option.isSome_iff_exists.1 hsome
  have hrun : ((equipReader none (some [0]) (waitingReader (newReader false
      ⟨.simpleFileRequire, 9, 1, 0, 1, [7]⟩) 5 0)).bind fun c => (machine.run
      (Life.startRecver false ⟨.simpleFileRequire, 9, 1, 0, 1, [7]⟩ 1 c)
      [.timeOut 0, .timeOut 0]).map Life.slot) = some .null := by decide +kernel
  rw [hc, Option.bind_some] at hrun
  obtain ⟨l, hl, hslot⟩ := Option.map_eq_some_iff.1 hrun
  have hreach : machine.Reach l :=
    Machine.ReachUnder.run (.init ⟨_, _, _, _, _, _, _, c, hc, rfl⟩) hl
  exact ⟨l, hreach, hslot, outcome_of_reach hreach⟩

end Resend.Udp.RecvOutcome

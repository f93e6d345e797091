import Resend.Udp.RecvOutcome

/-!
# Who gives the receive buffer back

A buffer belongs to its reader until `trans_succ` is taken. Whoever takes it either pushes the buffer to
the method processor, which gives it back by its tag, or gives it back itself
(`reader_do_connection_sended_handle_and_clean_data`), also by its tag. The two switches do not agree
on `POOL_SPACE`: only the one of `_method_processor` ends that case with a `break`.
-/

namespace Resend.Udp.RecvBuffer
open Handler Connection ConM RecvOutcome

/-- `HDS_UDP_Result_Process_Data`. -/
structure ProcessData where
  data : List UInt8
  dataLength : Nat
  bufType : RecvBufType

/-- One round of `_method_processor`; `processor` is what `_method_tree` holds for the message type. -/
def methodProcessor (processor : Option (ProcessData → ProcessData)) (p : ProcessData) : List Effect :=
  let p := match processor with
    | none => p
    | some f => f p
  match p.bufType with
  | .userSpaceNoDel | .mallocSpaceNoDel => []
  | .poolSpace => [.releaseBuffer p.dataLength]
  | .mallocSpaceDel | .userSpaceDel => [.freeBuffer]
  | .unset => []

/-- What a reader for `length` bytes has pushed. -/
def pushed (length : Nat) : Effect → Option ProcessData
  | .pushMsg data bufType => some ⟨data, length, bufType⟩
  | _ => none

/-- The buffer is given back. -/
def isRelease : Effect → Bool
  | .releaseBuffer _ | .freeBuffer => true
  | _ => false

/-- A reader and what the method processor has done with its messages: how many it has taken out of
`_worker_data_queue`, and how it gave them back. `bufType` is the tag chosen at allocation. -/
structure Custody where
  bufType : RecvBufType
  life : Life
  dequeued : Nat
  processed : List Effect

namespace Custody

/-- `_worker_data_queue`. -/
def queue (s : Custody) : List ProcessData :=
  ((trace s.life).filterMap (pushed s.life.con.transmitBufLength)).drop s.dequeued

/-- All events that gave the buffer back. -/
def releases (s : Custody) : List Effect := (trace s.life).filter isRelease ++ s.processed

inductive Act
  | life (act : Life.Act)
  | process (processor : Option (ProcessData → ProcessData))

def step (s : Custody) : Act → Option Custody
  | .life act => (s.life.step act).map fun l => { s with life := l }
  | .process processor =>
    s.queue.head?.map fun p =>
      { s with dequeued := s.dequeued + 1, processed := s.processed ++ methodProcessor processor p }

end Custody

/-- One reader, from any REQUIRE that `start_recver` accepts, and the method processor. -/
def machine : Machine Custody Custody.Act where
  init s := ∃ complex d len id0 addr attr buffer c,
    equipReader attr buffer (waitingReader (newReader complex d) id0 addr) = some c ∧
    s = ⟨c.recvBufType, Life.startRecver complex d len c, 0, []⟩
  step := Custody.step

/-- How a buffer with this tag may be given back. -/
def GivesBack (bufType : RecvBufType) (e : Effect) : Prop :=
  match bufType with
  | .poolSpace => ∃ length, e = .releaseBuffer length
  | .mallocSpaceDel | .userSpaceDel => e = .freeBuffer
  | _ => False

/-- The buffer is given back at most once, and as its tag says. -/
structure Custody.Owned (s : Custody) : Prop where
  once : s.releases.length ≤ 1
  asTagged : ∀ e ∈ s.releases, GivesBack s.bufType e

/-! ### Handlers -/

def isPush : Effect → Bool
  | .pushMsg .. => true
  | _ => false

def settles (e : Effect) : Bool := isRelease e || isPush e

/-- What ends the reader's ownership of a buffer with this tag: a push or a release. -/
def Settles (bufType : RecvBufType) (e : Effect) : Prop :=
  (∃ data, e = .pushMsg data bufType) ∨ (isRelease e = true ∧ GivesBack bufType e)

/-- The buffer leaves the reader only with `trans_succ`, in one event. -/
structure Hands (c c' : Connection) (es : List Effect) : Prop where
  kind : c'.kind = c.kind
  bufType : c'.recvBufType = c.recvBufType
  suc : c.has transSucBit = true → c'.has transSucBit = true
  hand : es.filter settles = [] ∨
    c.has transSucBit = false ∧ c'.has transSucBit = true ∧
    ∃ e, es.filter settles = [e] ∧ Settles c.recvBufType e

namespace Hands
variable {c : Connection}

theorem emit (c : Connection) {e : Effect} (he : settles e = false) : Hands c c [e] :=
  ⟨rfl, rfl, id, .inl (by simp [he])⟩

theorem update {c c' : Connection} (hk : c'.kind = c.kind) (hb : c'.recvBufType = c.recvBufType)
    (hs : c'.status = c.status) : Hands c c' [] :=
  ⟨hk, hb, fun h => by rw [has, hs]; exact h, .inl rfl⟩

theorem testAndSet {k : Nat} (hk : k < 64) : Keeps Hands (ConM.testAndSet k) :=
  keeps_modifyGet fun c => ⟨rfl, rfl, fun h => by simp at h; simp [hk, h], .inl rfl⟩

theorem testAndReset {k : Nat} (hk : k < 64) (h0 : k ≠ 0) : Keeps Hands (ConM.testAndReset k) :=
  keeps_modifyGet fun c => ⟨rfl, rfl, fun h => by simp at h; simp [hk, h, h0.symm], .inl rfl⟩

end Hands

theorem hands : StopFrame Hands where
  refl _ := .update rfl rfl rfl
  trans {c c' c'' es es'} h h' := by
    refine ⟨h'.kind.trans h.kind, h'.bufType.trans h.bufType, fun hs => h'.suc (h.suc hs), ?_⟩
    rw [List.filter_append]
    rcases h.hand with h1 | ⟨h0, h1, e, he, hst⟩
    · rw [h1, List.nil_append]
      rcases h'.hand with h2 | ⟨h0, h2, e, he, hst⟩
      · exact .inl h2
      · refine .inr ⟨?_, h2, e, he, h.bufType ▸ hst⟩
        by_contra hc
        rw [h.suc (by simpa using hc)] at h0
        cases h0
    · refine .inr ⟨h0, h'.suc h1, e, ?_, hst⟩
      rcases h'.hand with h2 | ⟨h2, -⟩
      · rw [he, h2, List.append_nil]
      · rw [h1] at h2; cases h2
  times h := by
    obtain ⟨_, _, _, _, _, _, rfl⟩ := h
    exact .update rfl rfl rfl
  set _ hk := Hands.testAndSet (by omega)
  reset hk hk' := Hands.testAndReset (by omega) (by omega)
  bookkeeping {e c} he := Hands.emit c
    (by cases e <;> simp_all [Effect.bookkeeping, settles, isRelease, isPush])
  code _ := keeps_modify fun _ => .update rfl rfl rfl
  setClean := Hands.testAndSet (by decide)
  setStop := Hands.testAndSet (by decide)
  suspend c := Hands.emit c rfl
  suspendTimer _ c := Hands.emit c rfl
  resetDatagram _ := Hands.emit _ rfl

namespace Hands
variable {c : Connection}

/-- `trans_succ` is taken, then at most one event ends the ownership. -/
theorem taken {x : ConM Unit} {c : Connection}
    (hx : c.has transSucBit = false →
      wp x (fun _ c' es => c'.kind = c.kind ∧ c'.recvBufType = c.recvBufType ∧
        c'.has transSucBit = true ∧ (es.filter settles = [] ∨ ∃ e, es.filter settles = [e] ∧
          Settles c.recvBufType e)) { c with status := (c.status.testAndSet transSucBit).2 }) :
    wp (do
      let old ← ConM.testAndSet transSucBit
      Handler.when (old = 0) x) (fun _ c' es => Hands c c' es) c := by
  rw [wp_bind, wp_testAndSet (by decide), wp_when]
  cases hsuc : c.has transSucBit with
  | true =>
    rw [if_neg (by simp)]
    exact testAndSet (k := transSucBit) (by decide) c
  | false =>
    rw [if_pos (by simp)]
    refine wp_mono _ (hx hsuc) fun _ c' es ⟨hk, hb, hset, hes⟩ => ?_
    refine ⟨hk, hb, fun _ => hset, ?_⟩
    rcases hes with hes | hes
    · exact .inl hes
    · exact .inr ⟨hsuc, hset, hes⟩

end Hands

theorem handsReader : ReaderFrame Hands where
  toStopFrame := hands
  received h := by
    obtain ⟨_, _, _, _, rfl⟩ := h
    exact .update rfl rfl rfl
  answer _ _ c := Hands.emit c rfl
  succTimer _ c := Hands.emit c rfl
  copy _ _ _ _ := ⟨rfl, rfl, id, .inl rfl⟩
  push {f} hf c := by
    refine Hands.taken fun _ => ?_
    have hset : ({ c with status := (c.status.testAndSet transSucBit).2 } : Connection).has
        transSucBit = true := by
      simp
    obtain ⟨_, _, _, _, hc⟩ := hf { c with status := (c.status.testAndSet transSucBit).2 }
    rw [wp_bind, wp_modify, hc]
    exact ⟨rfl, rfl, hset, .inr ⟨_, rfl, .inl ⟨_, rfl⟩⟩⟩

namespace Hands
variable {c : Connection}

theorem freeConnection : Keeps Hands ConM.freeConnection :=
  hands.bind hands.refl fun _ => hands.bind (hands.when <|
    hands.bind (testAndReset (by decide) (by decide)) fun _ => hands.when <|
    hands.bind (keeps_modify fun _ => update rfl rfl rfl) fun _ => hands.bind hands.get fun _ =>
      keeps_emit fun c => emit c rfl) fun _ => keeps_emit fun c => emit c rfl

/-- A failed reader gives its buffer back properly unless it comes from the pool. -/
theorem readerForceReset (hpool : c.has transSucBit = false → c.transResultCode ≠ .successfully →
    c.recvBufType ≠ .poolSpace) : wp ConM.readerForceReset (fun _ c' es => Hands c c' es) c := by
  refine taken fun hsuc => ?_
  rw [wp_readerDone]
  refine ⟨rfl, rfl, by simp, ?_⟩
  have hfailed : ∀ h : Option Nat,
      (h.toList.map fun h => Effect.recvFailed h c.transResultCode).filter settles = [] := by
    intro h
    cases h <;> rfl
  unfold readerDone
  split
  · rename_i hcode
    rw [List.filter_append, hfailed, List.nil_append]
    cases hb : c.recvBufType with
    | poolSpace => exact absurd hb (hpool hsuc hcode)
    | mallocSpaceDel | userSpaceDel => exact .inr ⟨.freeBuffer, rfl, .inr ⟨rfl, rfl⟩⟩
    | _ => exact .inl rfl
  · exact .inl rfl

theorem readerSuspendTimeOut (hpool : c.has transSucBit = false → c.transResultCode ≠ .successfully →
    c.recvBufType ≠ .poolSpace) : wp ConM.readerSuspendTimeOut (fun _ c' es => Hands c c' es) c := by
  have hrest : Keeps Hands (do
      let c ← Handler.get
      Handler.emit (.releaseConnectionID c.offset)
      ConM.freeConnection) :=
    hands.bind hands.get fun _ => hands.bind (keeps_emit fun c => emit c rfl) fun _ => freeConnection
  rw [ConM.readerSuspendTimeOut, wp_bind]
  exact wp_mono _ (readerForceReset hpool) fun _ c₁ es₁ h => hands.trans h (hrest c₁)

theorem connectionDoNetworkData (hr : c.kind.isWriter = false) (inc now : Nat) (d : Datagram)
    (len : Int) :
    wp (ConM.connectionDoNetworkData inc now d len) (fun _ c' es => Hands c c' es) c := by
  rw [ConM.connectionDoNetworkData, wp_bind]
  refine wp_mono _ (hands.when (hands.adoptPeer (fun c _ _ => emit c rfl) _ _) c) fun _ c₁ es₁ h1 => ?_
  exact wp_mono _ (handsReader.doNetworkData (h1.kind ▸ hr) _ _ _ _ _ _) fun _ _ _ h2 =>
    hands.trans h1 h2

end Hands

/-! ### Runs -/

namespace Custody

/-- User callbacks leave the tag alone, and no reader with a pool buffer fails: its
`Force_Reset_Timer` and `Connection_Suspend_Timer` find the transfer ended or successful. -/
def Careful (s : Custody) : Act → Prop
  | .life (.timeOut j) => ∀ t ∈ s.life.timers[j]?, s.life.slot ≠ .null →
    t.1 = .forceResetTimer ∨ t.1 = .connectionSuspendTimer →
    s.life.con.has transSucBit = false →
    s.life.con.transResultCode ≠ .successfully → s.bufType ≠ .poolSpace
  | .life _ => True
  | .process processor => ∀ f ∈ processor, ∀ p ∈ s.queue.head?, (f p).bufType = p.bufType

instance (s : Custody) : (act : Act) → Decidable (s.Careful act)
  | .life (.timeOut j) => inferInstanceAs (Decidable (∀ t ∈ s.life.timers[j]?, _))
  | .life (.networkData ..) | .life (.reset _) | .life .stop | .life (.sender _) =>
    inferInstanceAs (Decidable True)
  | .process none => .isTrue fun f hf => by cases hf
  | .process (some f) =>
    decidable_of_iff (∀ p ∈ s.queue.head?, (f p).bufType = p.bufType) (by simp [Careful])

/-- Until the reader has handed the buffer over, nothing gives it back; a pushed buffer waits for
the method processor. -/
structure Inv (s : Custody) : Prop where
  reader : s.life.con.kind.isWriter = false
  tag : s.life.con.recvBufType = s.bufType
  hand : (trace s.life).filter settles = [] ∧ s.dequeued = 0 ∧ s.processed = [] ∨
    s.life.con.has transSucBit = true ∧ ∃ e, (trace s.life).filter settles = [e] ∧ Settles s.bufType e ∧
      (s.dequeued = 0 ∧ s.processed = [] ∨
        isRelease e = false ∧ 0 < s.dequeued ∧ s.processed.length ≤ 1 ∧
        ∀ e ∈ s.processed, GivesBack s.bufType e)

theorem filter_isRelease (es : List Effect) :
    es.filter isRelease = (es.filter settles).filter isRelease := by
  rw [List.filter_filter]
  refine List.filter_congr fun e _ => ?_
  cases h : isRelease e <;> simp [settles, h]

theorem filterMap_pushed (length : Nat) (es : List Effect) :
    es.filterMap (pushed length) = (es.filter settles).filterMap (pushed length) := by
  rw [List.filterMap_filter]
  refine List.filterMap_congr fun e _ => ?_
  cases e <;> rfl

theorem Inv.owned {s : Custody} (h : Inv s) : s.Owned := by
  rcases h.hand with ⟨hnone, -, hp⟩ | ⟨-, e, he, hst, hproc⟩
  · have hrel : s.releases = [] := by rw [releases, filter_isRelease, hnone, hp]; rfl
    constructor
    · rw [hrel]; exact Nat.zero_le 1
    · rw [hrel]; simp
  · have hrel : s.releases = [e].filter isRelease ++ s.processed := by
      rw [releases, filter_isRelease, he]
    rcases hproc with ⟨-, hp⟩ | ⟨hpush, -, hlen, hback⟩
    · rw [hp, List.append_nil] at hrel
      constructor
      · rw [hrel]; exact List.length_filter_le _ _
      · intro e' he'
        rw [hrel] at he'
        obtain ⟨hmem, hrel'⟩ := List.mem_filter.1 he'
        rw [List.mem_singleton.1 hmem] at hrel' ⊢
        rcases hst with ⟨data, rfl⟩ | ⟨-, hst⟩
        · cases hrel'
        · exact hst
    · rw [List.filter_cons, hpush] at hrel
      exact ⟨by rw [hrel]; exact hlen, fun e' he' => hback e' (by rw [hrel] at he'; exact he')⟩

theorem Inv.ran {s : Custody} (h : Inv s) {l : Life} (hcon : l.con = s.life.con)
    (hhist : l.history = s.life.history) {x : ConM Unit}
    (hx : wp x (fun _ c' es => Hands s.life.con c' es) s.life.con) :
    Inv { s with life := l.ran x } := by
  have hx : Hands s.life.con (exec x s.life.con).1 (exec x s.life.con).2 := hx
  have htrace : trace (l.ran x) = trace s.life ++ (exec x s.life.con).2 := by
    rw [trace, Life.history_ran, List.reverse_cons, List.flatten_append,
      List.flatten_singleton, hcon, hhist]
    rfl
  have hcon' : (l.ran x).con = (exec x s.life.con).1 := by rw [Life.con_ran, hcon]
  refine ⟨?_, ?_, ?_⟩
  · change (l.ran x).con.kind.isWriter = false
    rw [hcon', hx.kind]; exact h.reader
  · change (l.ran x).con.recvBufType = s.bufType
    rw [hcon', hx.bufType]; exact h.tag
  · change (trace (l.ran x)).filter settles = [] ∧ s.dequeued = 0 ∧ s.processed = [] ∨
      (l.ran x).con.has transSucBit = true ∧ ∃ e, (trace (l.ran x)).filter settles = [e] ∧ _
    rw [htrace, hcon', List.filter_append]
    rcases h.hand with ⟨hnone, hd, hp⟩ | ⟨hsuc, e, he, hst, hproc⟩
    · rw [hnone, List.nil_append]
      rcases hx.hand with hes | ⟨-, hsuc, e, he, hst⟩
      · exact .inl ⟨hes, hd, hp⟩
      · exact .inr ⟨hsuc, e, he, h.tag ▸ hst, .inl ⟨hd, hp⟩⟩
    · rcases hx.hand with hes | ⟨hclear, -⟩
      · refine .inr ⟨hx.suc hsuc, e, ?_, hst, hproc⟩
        rw [he, hes, List.append_nil]
      · rw [hsuc] at hclear; cases hclear

theorem givesBack_methodProcessor {processor : Option (ProcessData → ProcessData)} {p : ProcessData}
    (h : ∀ f ∈ processor, (f p).bufType = p.bufType) :
    (methodProcessor processor p).length ≤ 1 ∧ ∀ e ∈ methodProcessor processor p,
      GivesBack p.bufType e := by
  have hsame : ∀ q : ProcessData, q.bufType = p.bufType →
      (methodProcessor none q).length ≤ 1 ∧ ∀ e ∈ methodProcessor none q, GivesBack p.bufType e := by
    rintro ⟨data, length, bufType⟩ hq
    rw [← hq]
    cases bufType <;> simp [methodProcessor, GivesBack]
  cases processor with
  | none => exact hsame p rfl
  | some f => exact hsame (f p) (h f rfl)

theorem Inv.process {s : Custody} (h : Inv s) {processor : Option (ProcessData → ProcessData)}
    {p : ProcessData} (hp : s.queue.head? = some p)
    (htag : ∀ f ∈ processor, (f p).bufType = p.bufType) :
    Inv { s with
      dequeued := s.dequeued + 1, processed := s.processed ++ methodProcessor processor p } := by
  refine ⟨h.reader, h.tag, .inr ?_⟩
  rw [queue, filterMap_pushed] at hp
  rcases h.hand with ⟨hnone, -⟩ | ⟨hsuc, e, he, hst, hproc⟩
  · rw [hnone] at hp
    simp at hp
  · refine ⟨hsuc, e, he, hst, .inr ?_⟩
    rw [he] at hp
    rcases hst with ⟨data, rfl⟩ | ⟨hrel, -⟩
    · rcases hproc with ⟨hd, hnil⟩ | ⟨-, hd, -⟩
      · rw [hd] at hp
        cases hp
        rw [hnil, List.nil_append]
        obtain ⟨hlen, hback⟩ := givesBack_methodProcessor htag
        exact ⟨rfl, Nat.succ_pos _, hlen, hback⟩
      · obtain ⟨n, hn⟩ := Nat.exists_eq_succ_of_ne_zero hd.ne'
        rw [hn] at hp
        simp [pushed] at hp
    · have hnone : [e].filterMap (pushed s.life.con.transmitBufLength) = [] := by
        cases e <;> first | rfl | cases hrel
      rw [hnone] at hp
      simp at hp

theorem inv_init {s : Custody} (h : machine.init s) : Inv s := by
  obtain ⟨complex, d, len, id0, addr, attr, buffer, c, hc, rfl⟩ := h
  have hr : c.kind.isWriter = false := by
    obtain ⟨_, _, _, rfl⟩ := equipReader_some hc
    cases complex <;> rfl
  have h0 : Inv ⟨c.recvBufType, ⟨c, .live, [], 0, []⟩, 0, []⟩ := ⟨hr, rfl, .inl ⟨rfl, rfl, rfl⟩⟩
  exact h0.ran rfl rfl (handsReader.receiveFirst hr complex d len)

theorem Inv.life {s : Custody} {act : Life.Act} (h : Inv s) (hcare : s.Careful (.life act)) {l : Life}
    (hs : s.life.step act = some l) : Inv { s with life := l } := by
  cases act with
  | networkData inc now d len =>
    simp only [Life.step] at hs
    split at hs <;> cases hs
    exact h.ran rfl rfl (Hands.connectionDoNetworkData h.reader inc now d len)
  | reset msgType =>
    simp only [Life.step] at hs
    split at hs <;> cases hs
    exact h.ran rfl rfl (hands.connectionDoConnectionReset msgType _)
  | stop =>
    simp only [Life.step] at hs
    split at hs <;> cases hs
    exact h.ran rfl rfl (hands.connectionDoConnectionStop _)
  | timeOut j =>
    simp only [Life.step] at hs
    split at hs
    · cases hs
    rename_i t rc ht
    split at hs <;> cases hs
    · exact ⟨h.reader, h.tag, h.hand⟩
    · rename_i hslot
      have hpool : t = .forceResetTimer ∨ t = .connectionSuspendTimer →
        s.life.con.has transSucBit = false →
          s.life.con.transResultCode ≠ .successfully → s.life.con.recvBufType ≠ .poolSpace := by
        rw [h.tag]
        exact hcare (t, rc) ht hslot
      exact h.ran
        (l := { s.life with timers := s.life.timers.eraseIdx j }) rfl rfl (handsReader.doTimeOut
          h.reader rc
        (fun ht => Hands.readerForceReset (hpool (.inl ht))) fun ht =>
          Hands.readerSuspendTimeOut (hpool (.inr ht)))
  | sender clock =>
    simp only [Life.step] at hs
    split at hs
    · cases hs
    split at hs <;> cases hs
    · exact h.ran
        (l := { s.life with queued := s.life.queued - 1 }) rfl rfl (handsReader.connectionDoSender
          h.reader (fun h => h.kind) clock)
    · exact ⟨h.reader, h.tag, h.hand⟩

theorem Inv.step {s s' : Custody} {act : Act} (h : Inv s) (hcare : s.Careful act)
    (hs : s.step act = some s') :
    Inv s' := by
  cases act with
  | life act =>
    obtain ⟨l, hl, rfl⟩ := Option.map_eq_some_iff.1 hs
    exact h.life hcare hl
  | process processor =>
    obtain ⟨p, hp, rfl⟩ := Option.map_eq_some_iff.1 hs
    exact h.process hp fun f hf => hcare f hf p hp

end Custody

/-- In every run in which no reader with a pool buffer fails, the buffer is given back at most once
and as its tag says. -/
theorem owned_of_careful {s : Custody} (h : machine.ReachUnder Custody.Careful s) : s.Owned :=
  (h.invariant (I := Custody.Inv) (fun _ h => Custody.inv_init h) fun _ _ _ h hc hs =>
    h.step hc hs).owned

/-- A one-byte message is pushed, its buffer goes back to the pool, and its reader times out. -/
theorem owned_of_careful_pushed : ∃ s, machine.ReachUnder Custody.Careful s ∧ s.life.slot = .null ∧
    s.releases = [.releaseBuffer 1] ∧ s.Owned := by
  have hsome : (equipReader none (some [0])
    (waitingReader (newReader false ⟨.simpleFileRequire, 9, 1, 0, 1, [7]⟩) 5 0)).isSome := rfl
  obtain ⟨c, hc⟩ := Option.isSome_iff_exists.1 hsome
  have hrun : ((equipReader none (some [0]) (waitingReader (newReader false
      ⟨.simpleFileRequire, 9, 1, 0, 1, [7]⟩) 5 0)).bind fun c => (machine.runUnder Custody.Careful
      ⟨c.recvBufType, Life.startRecver false ⟨.simpleFileRequire, 9, 1, 0, 1, [7]⟩ 1 c, 0, []⟩
      [.process none, .life (.timeOut 0), .life (.timeOut 0)]).map fun s => (s.life.slot, s.releases)) =
      some (.null, [.releaseBuffer 1]) := by decide +kernel
  rw [hc, Option.bind_some] at hrun
  obtain ⟨s, hs, hres⟩ := Option.map_eq_some_iff.1 hrun
  have hreach : machine.ReachUnder Custody.Careful s :=
    Machine.ReachUnder.run (M := machine) (.init ⟨_, _, _, _, _, _, _, c, hc, rfl⟩) hs
  exact ⟨s, hreach, congrArg Prod.fst hres, congrArg Prod.snd hres, owned_of_careful hreach⟩

/-- A complex reader for one byte is stopped before its `Recver_ACK_Timer`. -/
theorem exists_released_twice : ∃ s, machine.Reach s ∧ ¬ s.Owned := by
  have hsome : (equipReader none (some [0])
    (waitingReader (newReader true ⟨.complexFileRequire, 9, 1, 0, 1, [7]⟩) 5 0)).isSome := rfl
  obtain ⟨c, hc⟩ := Option.isSome_iff_exists.1 hsome
  have hrun : ((equipReader none (some [0]) (waitingReader (newReader true
      ⟨.complexFileRequire, 9, 1, 0, 1, [7]⟩) 5 0)).bind fun c => (machine.run
      ⟨c.recvBufType, Life.startRecver true ⟨.complexFileRequire, 9, 1, 0, 1, [7]⟩ 1 c, 0, []⟩
      [.life .stop, .life (.timeOut 2)]).map Custody.releases) =
      some [.releaseBuffer 1, .freeBuffer] := by decide +kernel
  rw [hc, Option.bind_some] at hrun
  obtain ⟨s, hs, hres⟩ := Option.map_eq_some_iff.1 hrun
  refine ⟨s, Machine.ReachUnder.run (M := machine) (.init ⟨_, _, _, _, _, _, _, c, hc, rfl⟩) hs,
    fun h => ?_⟩
  have honce := h.once
  rw [hres] at honce
  exact absurd honce (by decide)

end Resend.Udp.RecvBuffer

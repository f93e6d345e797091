import Resend.Socks.Tunnel

/-!
# Connections that share an id

Nothing in a message says which of the connections that have used its id it is for. An id may
therefore only be used again when nothing of its last connection is left that the new one could be
taken for (`Clear`): no message to the client, nothing on the server that could still send one, and
no message to the server that would open a connection there. Messages that the server will only
throw away may be left; they are ahead of everything the new connection sends, which is why the
invariant looks at the order of `outbox`.
-/

namespace Resend.Socks
open Handler

namespace Tunnel

/-- Every message was handled for the connection it was sent for. -/
def Isolated (s : Tunnel) : Prop := ∀ e ∈ s.log, e.origin = e.owner

/-- The server has nothing to do with id `k`. -/
structure Untouched (s : Tunnel) (k : Nat) : Prop where
  handler : s.server.connList k = none
  connector : ∀ p ∈ s.connectors, p.connId ≠ k
  deleting : ∀ p ∈ s.server.deleting, p.connId ≠ k
  outbox : ∀ m ∈ s.server.outbox, m.msg.connId ≠ k

/-- The server throws the message away unless it has a handler. -/
def Idle (m : Sent) : Prop := m.msg.payload.head? ≠ some 0x05

/-- Id `k` can be used again. -/
structure Free (s : Tunnel) (k : Nat) : Prop extends Untouched s k where
  closing : ∀ p ∈ s.client.deleting, p.connId ≠ k
  idle : ∀ m ∈ s.client.outbox, m.msg.connId = k → Idle m

/-- No id is used again too early. -/
def Clear (s : Tunnel) : Act → Prop
  | .ioAccept clientSd => s.Free clientSd
  | _ => True

instance (s : Tunnel) (k : Nat) : Decidable (s.Free k) :=
  decidable_of_iff ((s.server.connList k).isNone ∧ (∀ p ∈ s.connectors, p.connId ≠ k) ∧
      (∀ p ∈ s.server.deleting, p.connId ≠ k) ∧ (∀ m ∈ s.server.outbox, m.msg.connId ≠ k) ∧
      (∀ p ∈ s.client.deleting, p.connId ≠ k) ∧
      ∀ m ∈ s.client.outbox, m.msg.connId = k → m.msg.payload.head? ≠ some 0x05)
    ⟨fun ⟨h1, h2, h3, h4, h5, h6⟩ => ⟨⟨Option.isNone_iff_eq_none.1 h1, h2, h3, h4⟩, h5, h6⟩,
      fun ⟨⟨h1, h2, h3, h4⟩, h5, h6⟩ => ⟨Option.isNone_iff_eq_none.2 h1, h2, h3, h4, h5, h6⟩⟩

instance (s : Tunnel) : (act : Act) → Decidable (s.Clear act)
  | .ioAccept clientSd => inferInstanceAs (Decidable (s.Free clientSd))
  | .clientRead .. | .clientDestroy _ | .clientOnData _ | .serverOnData .. |
      .connector .. | .serverRead ..
  | .serverDestroy _ | .control .. => inferInstanceAs (Decidable True)

end Tunnel

/-! ### One end -/

/-- `m` is for the last connection that has had its id. -/
def Sent.Own (last : Nat → Nat) (m : Sent) : Prop := ∀ k : Nat, m.msg.connId = k → m.origin = last k

/-- All of this end belongs to the last connection of its id. -/
structure Side.Ok (last : Nat → Nat) (s : Side) : Prop where
  entry : ∀ k e, s.connList k = some e →
    e.owner = last k ∧ e.handler.connId = k ∧ e.handler.listed = true
  deleting : ∀ p ∈ s.deleting, p.owner = last p.connId

/-- What the handlers of id `k` do to their end. -/
structure Side.Moves (last : Nat → Nat) (k : Nat) (s s' : Side) : Prop where
  ok : s.Ok last → s'.Ok last
  outbox : ∃ new, s'.outbox = s.outbox ++ new ∧ ∀ m ∈ new, m.msg.connId = k ∧ m.origin = last k
  others : ∀ j, j ≠ k → s'.connList j = s.connList j
  deleting : ∀ p ∈ s'.deleting, p ∈ s.deleting ∨ p.connId = k

namespace Side.Moves
variable {last : Nat → Nat} {k : Nat} {s s' s'' : Side}

theorem refl (s : Side) : Moves last k s s :=
  ⟨id, ⟨[], by simp, by simp⟩, fun _ _ => rfl, fun _ h => .inl h⟩

theorem trans (h : Moves last k s s') (h' : Moves last k s' s'') : Moves last k s s'' := by
  obtain ⟨new, hnew, hown⟩ := h.outbox
  obtain ⟨new', hnew', hown'⟩ := h'.outbox
  refine ⟨fun hs => h'.ok (h.ok hs),
    ⟨new ++ new', by rw [hnew', hnew, List.append_assoc], fun m hm => ?_⟩, fun j hj =>
      (h'.others j hj).trans (h.others j hj), fun p hp => ?_⟩
  · rcases List.mem_append.1 hm with hm | hm
    exacts [hown m hm, hown' m hm]
  · rcases h'.deleting p hp with hp | hp
    exacts [h.deleting p hp, .inr hp]

theorem post (payload : List UInt8) : Moves last k s (s.post ⟨⟨k, payload⟩, last k⟩) := by
  refine ⟨fun hs => ⟨hs.entry, hs.deleting⟩, ⟨_, rfl, fun m hm => ?_⟩,
    fun _ _ => rfl, fun _ h => .inl h⟩
  rw [List.mem_singleton.1 hm]
  exact ⟨rfl, rfl⟩

theorem list (h : TcpHandler) (hid : h.connId = k) (hl : h.listed = true) :
    Moves last k s { s with connList := Function.update s.connList k (some ⟨h, last k⟩) } := by
  refine ⟨fun hs => ⟨fun j e he => ?_, hs.deleting⟩, ⟨[], by simp, by simp⟩,
    fun j hj => ?_, fun _ h => .inl h⟩
  · by_cases hj : j = k
    · subst hj
      simp only [Function.update_self, Option.some.injEq] at he
      subst he
      exact ⟨rfl, hid, hl⟩
    · simp only [Function.update_of_ne hj] at he
      exact hs.entry j e he
  · exact Function.update_of_ne hj _ _

theorem shutdown : Moves last k s (s.shutdown k) := by
  unfold Side.shutdown
  split
  · exact .refl s
  · rename_i e he
    refine ⟨fun hs => ⟨fun j e' he' => ?_, fun p hp => ?_⟩, ⟨[], by simp, by simp⟩,
      fun j hj => ?_, fun p hp => ?_⟩
    · by_cases hj : j = k
      · subst hj
        simp at he'
      · simp only [Function.update_of_ne hj] at he'
        exact hs.entry j e' he'
    · rcases List.mem_append.1 hp with hp | hp
      · exact hs.deleting p hp
      · rw [List.mem_singleton.1 hp]
        exact (hs.entry k e he).1
    · exact Function.update_of_ne hj _ _
    · rcases List.mem_append.1 hp with hp | hp
      · exact .inl hp
      · rw [List.mem_singleton.1 hp]
        exact .inr rfl

theorem handle (m : Sent) (sendFails : Bool) : Moves last k s (s.handle k m sendFails) := by
  unfold Side.handle
  split
  · exact shutdown
  · exact .refl s

theorem destroy {j : Nat} (hs : s.Ok last) (h : s.destroy j = some s') :
    ∃ p ∈ s.deleting, Moves last p.connId s s' := by
  obtain ⟨p, hp, rfl⟩ := Option.map_eq_some_iff.1 h
  have hmem := List.mem_of_getElem? hp
  have hthin : Moves last p.connId s { s with deleting := s.deleting.eraseIdx j } :=
    ⟨fun hs => ⟨hs.entry, fun q hq => hs.deleting q (List.mem_of_mem_eraseIdx hq)⟩,
      ⟨[], by simp, by simp⟩, fun _ _ => rfl, fun q hq => .inl (List.mem_of_mem_eraseIdx hq)⟩
  refine ⟨p, hmem, hthin.trans ?_⟩
  rw [hs.deleting p hmem]
  exact .post []

theorem effects {es : List Effect} (hes : ∀ m : Message, .typrotoSend m ∈ es → m.connId = k) :
    Moves last k s (es.foldl (Side.effect k (last k)) s) := by
  induction es generalizing s with
  | nil => exact .refl s
  | cons e es ih =>
    have hone : Moves last k s (Side.effect k (last k) s e) := by
      cases e with
      | send data => exact .refl s
      | typrotoSend m =>
        obtain ⟨id, payload⟩ := m
        have hid : id = k := hes ⟨id, payload⟩ List.mem_cons_self
        subst hid
        exact .post payload
      | delete => exact .shutdown
    exact hone.trans (ih fun m hm => hes m (List.mem_cons_of_mem _ hm))

theorem readCb_sends (h : TcpHandler) (nread : Option (List UInt8)) (junk : Nat → UInt8)
    (hl : h.listed = true) :
    wp (TcpHandler.readCb nread junk)
      (fun _ h' es => h'.connId = h.connId ∧ ∀ m, .typrotoSend m ∈ es → m.connId = h.connId) h := by
  rcases nread with - | data
  · exact ⟨rfl, fun m hm => by cases hm⟩
  · by_cases hd : data = []
    · subst hd
      change wp TcpHandler.shutdown _ h
      rw [TcpHandler.wp_shutdown, if_pos hl]
      exact ⟨rfl, by simp⟩
    · rw [TcpHandler.wp_readCb hd hl]
      split
      · split
        · exact ⟨rfl, by simp⟩
        · exact ⟨rfl, by simp⟩
      · exact ⟨rfl, by simp⟩

theorem read {nread : Option (List UInt8)} {junk : Nat → UInt8} (hs : s.Ok last)
    (h : s.read k nread junk = some s') :
    (∃ e, s.connList k = some e) ∧ Moves last k s s' := by
  obtain ⟨e, he, rfl⟩ := Option.map_eq_some_iff.1 h
  obtain ⟨howner, hid, hl⟩ := hs.entry k e he
  obtain ⟨hid', hsends⟩ := wp_exec _ (readCb_sends e.handler nread junk hl)
  rw [hid] at hid'
  refine ⟨⟨e, he⟩, ?_⟩
  rw [howner]
  exact (Moves.list { (exec (TcpHandler.readCb nread junk) e.handler).1 with listed := true }
    hid' rfl).trans (Moves.effects fun m hm => (hsends m hm).trans hid)

end Side.Moves

/-! ### Both ends -/

namespace Tunnel

/-- Everything with id `k` belongs to the last connection that has had it, but for messages to the
server that are of no consequence and ahead of all others. -/
structure Inv (last : Nat → Nat) (s : Tunnel) : Prop where
  client : s.client.Ok last
  server : s.server.Ok last
  connectors : ∀ p ∈ s.connectors, p.owner = last p.connId
  toClient : ∀ m ∈ s.server.outbox, m.Own last
  toServer : ∀ m ∈ s.client.outbox, m.Own last ∨ Idle m
  order : s.client.outbox.Pairwise fun m m' => m.msg.connId = m'.msg.connId → m'.Own last ∨ Idle m
  stale : ∀ m ∈ s.client.outbox, ∀ k : Nat, m.msg.connId = k → m.origin ≠ last k → s.Untouched k
  log : s.Isolated

namespace Inv
variable {last : Nat → Nat} {s : Tunnel} {k : Nat}

theorem started (last : Nat → Nat) : Inv last start := by
  constructor <;> simp [start, Isolated]
  · constructor <;> simp
  · constructor <;> simp

theorem clientMoves {c : Side} (h : Inv last s) (hc : s.client.Moves last k c) :
    Inv last { s with client := c } := by
  obtain ⟨new, hnew, hown⟩ := hc.outbox
  have hown : ∀ m ∈ new, m.Own last := by
    intro m hm j hj
    obtain ⟨hk, ho⟩ := hown m hm
    rw [hk, Int.natCast_inj] at hj
    rw [ho, hj]
  refine ⟨hc.ok h.client, h.server, h.connectors, h.toClient, ?_, ?_, ?_, h.log⟩
  · intro m hm
    rw [show ({ s with client := c } : Tunnel).client.outbox = s.client.outbox ++ new from hnew] at hm
    rcases List.mem_append.1 hm with hm | hm
    exacts [h.toServer m hm, .inl (hown m hm)]
  · change c.outbox.Pairwise _
    rw [hnew, List.pairwise_append]
    refine ⟨h.order, ?_, fun m _ m' hm' _ => .inl (hown m' hm')⟩
    exact List.pairwise_of_forall_mem_list fun m _ m' hm' _ => .inl (hown m' hm')
  · intro m hm j hj hne
    rw [show ({ s with client := c } : Tunnel).client.outbox = s.client.outbox ++ new from hnew] at hm
    rcases List.mem_append.1 hm with hm | hm
    · obtain ⟨h1, h2, h3, h4⟩ := h.stale m hm j hj hne
      exact ⟨h1, h2, h3, h4⟩
    · exact absurd (hown m hm j hj) hne

/-- No message of an earlier connection is on its way to an id the server has to do with. -/
def Settled (last : Nat → Nat) (s : Tunnel) (k : Nat) : Prop :=
  ∀ m ∈ s.client.outbox, m.msg.connId = k → m.origin = last k

theorem settled (h : Inv last s) (hk : ¬ s.Untouched k) : Settled last s k := by
  intro m hm hid
  by_contra hne
  exact hk (h.stale m hm k hid hne)

theorem serverMoves {v : Side} {c : List Pending} (h : Inv last s) (hk : Settled last s k)
    (hv : s.server.Moves last k v) (hcs : ∀ p ∈ c, p ∈ s.connectors ∨ p = ⟨k, last k⟩) :
    Inv last { s with server := v, connectors := c } := by
  obtain ⟨new, hnew, hown⟩ := hv.outbox
  refine ⟨h.client, hv.ok h.server, fun p hp => ?_, fun m hm => ?_, h.toServer, h.order,
    fun m hm j hj hne => ?_, h.log⟩
  · rcases hcs p hp with hp | rfl
    exacts [h.connectors p hp, rfl]
  · rw [show ({ s with server := v, connectors := c } : Tunnel).server.outbox =
      s.server.outbox ++ new from hnew] at hm
    rcases List.mem_append.1 hm with hm | hm
    · exact h.toClient m hm
    · intro j hj
      obtain ⟨hid, ho⟩ := hown m hm
      rw [hid, Int.natCast_inj] at hj
      rw [ho, hj]
  · have hjk : j ≠ k := by
      rintro rfl
      exact hne (hk m hm hj)
    obtain ⟨h1, h2, h3, h4⟩ := h.stale m hm j hj hne
    refine ⟨?_, fun p hp => ?_, fun p hp => ?_, fun m' hm' => ?_⟩
    · exact (hv.others j hjk).trans h1
    · rcases hcs p hp with hp | rfl
      exacts [h2 p hp, hjk.symm]
    · rcases hv.deleting p hp with hp | hp
      · exact h3 p hp
      · rw [hp]; exact hjk.symm
    · rw [show ({ s with server := v, connectors := c } : Tunnel).server.outbox =
        s.server.outbox ++ new from hnew] at hm'
      rcases List.mem_append.1 hm' with hm' | hm'
      · exact h4 m' hm'
      · rw [(hown m' hm').1, Ne, Int.natCast_inj]
        exact hjk.symm

theorem ioAccept (h : Inv last s) (hfree : s.Free k) :
    Inv (Function.update last k s.nextOwner) (s.ioAccept k) := by
  have hother : ∀ j, j ≠ k → Function.update last k s.nextOwner j = last j :=
    fun j hj => Function.update_of_ne hj _ _
  have hown : ∀ m : Sent, m.msg.connId ≠ k →
      (m.Own (Function.update last k s.nextOwner) ↔ m.Own last) := by
    intro m hm
    refine forall_congr' fun j => imp_congr_right fun hj => ?_
    rw [hother j (by rintro rfl; exact hm hj)]
  refine ⟨⟨fun j e he => ?_, fun p hp => ?_⟩, ⟨fun j e he => ?_, fun p hp => ?_⟩,
    fun p hp => ?_, fun m hm => ?_, fun m hm => ?_, ?_, fun m hm j hj hne => ?_, h.log⟩
  · by_cases hj : j = k
    · subst hj
      simp only [Tunnel.ioAccept, Function.update_self, Option.some.injEq] at he
      subst he
      exact ⟨by simp, rfl, rfl⟩
    · simp only [Tunnel.ioAccept, Function.update_of_ne hj] at he
      rw [hother j hj]
      exact h.client.entry j e he
  · rw [hother _ (hfree.closing p hp)]
    exact h.client.deleting p hp
  · have hj : j ≠ k := by
      rintro rfl
      rw [show (s.ioAccept j).server.connList j = none from hfree.handler] at he
      cases he
    rw [hother j hj]
    exact h.server.entry j e he
  · rw [hother _ (hfree.deleting p hp)]
    exact h.server.deleting p hp
  · rw [hother _ (hfree.connector p hp)]
    exact h.connectors p hp
  · exact (hown m (hfree.outbox m hm)).2 (h.toClient m hm)
  · by_cases hid : m.msg.connId = k
    · exact .inr (hfree.idle m hm hid)
    · rw [hown m hid]
      exact h.toServer m hm
  · refine h.order.imp_of_mem fun {m m'} hm hm' hmm hid => ?_
    by_cases hk : m.msg.connId = k
    · exact .inr (hfree.idle m hm hk)
    · rw [hown m' (hid ▸ hk)]
      exact hmm hid
  · have hsame : s.Untouched j := by
      by_cases hjk : j = k
      · subst hjk
        exact hfree.toUntouched
      · rw [hother j hjk] at hne
        exact h.stale m hm j hj hne
    exact ⟨hsame.handler, hsame.connector, hsame.deleting, hsame.outbox⟩

theorem popServer {m : Sent} {rest : List Sent} (h : Inv last s) (hm : s.server.outbox = m :: rest) :
    Inv last { s with server := { s.server with outbox := rest } } := by
  have hsub : ∀ x ∈ rest, x ∈ s.server.outbox := fun x hx => hm ▸ List.mem_cons_of_mem _ hx
  refine ⟨h.client, ⟨h.server.entry, h.server.deleting⟩, h.connectors,
    fun x hx => h.toClient x (hsub x hx), h.toServer, h.order, fun x hx j hj hne => ?_, h.log⟩
  obtain ⟨h1, h2, h3, h4⟩ := h.stale x hx j hj hne
  exact ⟨h1, h2, h3, fun x hx => h4 x (hsub x hx)⟩

theorem clientOnData {m : Sent} {rest : List Sent} (h : Inv last s)
    (hm : s.server.outbox = m :: rest) (sendFails : Bool) :
    Inv last ({ s with server := { s.server with outbox := rest } }.clientOnData m sendFails) := by
  have hpop := h.popServer hm
  have hown : m.Own last := h.toClient m (hm ▸ List.mem_cons_self)
  unfold Tunnel.clientOnData
  split
  · exact hpop
  rename_i hid
  split
  · exact hpop
  rename_i e he
  obtain ⟨howner, -⟩ := h.client.entry _ e he
  obtain ⟨g1, g2, g3, g4, g5, g6, g7, g8⟩ := hpop.clientMoves (Side.Moves.handle m sendFails)
  refine ⟨g1, g2, g3, g4, g5, g6, fun x hx j hj hne => ?_, fun ev hev => ?_⟩
  · obtain ⟨h1, h2, h3, h4⟩ := g7 x hx j hj hne
    exact ⟨h1, h2, h3, h4⟩
  · rcases List.mem_append.1 hev with hev | hev
    · exact h.log ev hev
    · rw [List.mem_singleton.1 hev]
      exact (hown _ (Int.toNat_of_nonneg (by omega)).symm).trans howner.symm

/-- A message has reached the server: what follows it under its id is own, unless it is idle. -/
theorem popClient {m : Sent} {rest : List Sent} (h : Inv last s) (hm : s.client.outbox = m :: rest) :
    Inv last { s with client := { s.client with outbox := rest } } ∧
      ((m.Own last ∧ ∀ x ∈ rest, x.msg.connId = m.msg.connId → x.Own last) ∨ Idle m) := by
  have hsub : ∀ x ∈ rest, x ∈ s.client.outbox := fun x hx => hm ▸ List.mem_cons_of_mem _ hx
  have horder := h.order
  rw [hm, List.pairwise_cons] at horder
  refine ⟨⟨⟨h.client.entry, h.client.deleting⟩, h.server, h.connectors, h.toClient,
    fun x hx => h.toServer x (hsub x hx), horder.2, fun x hx j hj hne => ?_, h.log⟩, ?_⟩
  · obtain ⟨h1, h2, h3, h4⟩ := h.stale x (hsub x hx) j hj hne
    exact ⟨h1, h2, h3, h4⟩
  · by_cases hi : Idle m
    · exact .inr hi
    · refine .inl ⟨(h.toServer m (hm ▸ List.mem_cons_self)).resolve_right hi, fun x hx hid => ?_⟩
      exact (horder.1 x hx hid.symm).resolve_right hi

theorem serverOnData {m : Sent} {rest : List Sent} (h : Inv last s) (hm : s.client.outbox = m :: rest)
    (junk : Nat → UInt8) (sendFails : Bool) :
    Inv last ({ s with client := { s.client with outbox := rest } }.serverOnData m junk sendFails) := by
  obtain ⟨hpop, hcase⟩ := h.popClient hm
  unfold Tunnel.serverOnData
  simp only
  split
  · exact hpop
  rename_i hneg
  have hid : m.msg.connId = (m.msg.connId.toNat : Int) := (Int.toNat_of_nonneg (by omega)).symm
  generalize m.msg.connId.toNat = k at hid
  split
  · -- the server has a handler, so nothing of an earlier connection is on its way
    rename_i e he
    have hfull : ¬ s.Untouched k := fun hu => by rw [hu.handler] at he; cases he
    obtain ⟨howner, -⟩ := h.server.entry k e he
    have hown : m.origin = last k := h.settled hfull m (hm ▸ List.mem_cons_self) hid
    have hset : Settled last { s with client := { s.client with outbox := rest } } k := fun x hx hxid =>
      h.settled hfull x (hm ▸ List.mem_cons_of_mem _ hx) hxid
    obtain ⟨g1, g2, g3, g4, g5, g6, g7, g8⟩ :=
      hpop.serverMoves hset (Side.Moves.handle m sendFails) (c := s.connectors) fun p hp => .inl hp
    refine ⟨g1, g2, g3, g4, g5, g6, fun x hx j hj hne => ?_, fun ev hev => ?_⟩
    · obtain ⟨h1, h2, h3, h4⟩ := g7 x hx j hj hne
      exact ⟨h1, h2, h3, h4⟩
    · rcases List.mem_append.1 hev with hev | hev
      · exact h.log ev hev
      · rw [List.mem_singleton.1 hev]
        exact hown.trans howner.symm
  · split
    · -- a request: only the last connection of the id can have sent it
      rename_i hfive
      obtain ⟨hown, hrest⟩ := hcase.resolve_right fun hi => hi hfive
      have ho : m.origin = last k := hown k hid
      have hset : Settled last { s with client := { s.client with outbox := rest } } k :=
        fun x hx hxid =>
        hrest x hx (hxid.trans hid.symm) k hxid
      have hclose : Inv last
          ({ s with client := { s.client with outbox := rest } }.closeConnection k m.origin) := by
        rw [ho]
        exact hpop.serverMoves hset (Side.Moves.post []) (c := s.connectors) fun p hp => .inl hp
      split
      · exact hclose
      split
      · rw [ho]
        refine hpop.serverMoves hset (.refl _) fun p hp => ?_
        rcases List.mem_append.1 hp with hp | hp
        exacts [.inl hp, .inr (List.mem_singleton.1 hp)]
      · exact hclose
    · exact hpop

theorem connectorEnds {j : Nat} {p : Pending} (h : Inv last s) (hp : s.connectors[j]? = some p)
    (outcome : Outcome) :
    Inv last ({ s with connectors := s.connectors.eraseIdx j }.connectorEnds p outcome) := by
  have hmem := List.mem_of_getElem? hp
  have hset : Settled last s p.connId := h.settled fun hu => hu.connector p hmem rfl
  have howner := h.connectors p hmem
  have hsub : ∀ q ∈ s.connectors.eraseIdx j, q ∈ s.connectors ∨
      q = ⟨p.connId, last p.connId⟩ := fun q hq =>
    .inl (List.mem_of_mem_eraseIdx hq)
  cases outcome with
  | noSocket =>
    rw [Tunnel.connectorEnds, howner]
    exact h.serverMoves hset (.post []) hsub
  | failed status =>
    rw [Tunnel.connectorEnds, replyStatus, howner]
    exact h.serverMoves hset (.trans (.post _) (.post [])) hsub
  | connected =>
    rw [Tunnel.connectorEnds, createTCPHandler, replyStatus, howner]
    exact h.serverMoves hset (.trans .shutdown (.trans (.post _) (.list _ rfl rfl))) hsub

theorem control (h : Inv last s) {m : Message} (hm : m.connId < 0) (fromClient : Bool) :
    Inv last (if fromClient then { s with client := s.client.post ⟨m, 0⟩ }
      else { s with server := s.server.post ⟨m, 0⟩ }) := by
  have hnone : ∀ k : Nat, m.connId ≠ k := fun k hk => by omega
  have hown : Sent.Own last ⟨m, 0⟩ := fun k hk => absurd hk (hnone k)
  cases fromClient with
  | true =>
    refine ⟨⟨h.client.entry, h.client.deleting⟩, h.server, h.connectors, h.toClient, fun x hx => ?_, ?_,
      fun x hx j hj hne => ?_, h.log⟩
    · rcases List.mem_append.1 hx with hx | hx
      · exact h.toServer x hx
      · rw [List.mem_singleton.1 hx]
        exact .inl hown
    · refine List.pairwise_append.2 ⟨h.order, List.pairwise_singleton _ _, fun x _ x' hx' _ => .inl ?_⟩
      rw [List.mem_singleton.1 hx']
      exact hown
    · rcases List.mem_append.1 hx with hx | hx
      · obtain ⟨h1, h2, h3, h4⟩ := h.stale x hx j hj hne
        exact ⟨h1, h2, h3, h4⟩
      · rw [List.mem_singleton.1 hx] at hj
        exact absurd hj (hnone j)
  | false =>
    refine ⟨h.client, ⟨h.server.entry, h.server.deleting⟩, h.connectors,
      fun x hx => ?_, h.toServer, h.order, fun x hx j hj hne => ?_, h.log⟩
    · rcases List.mem_append.1 hx with hx | hx
      · exact h.toClient x hx
      · rw [List.mem_singleton.1 hx]
        exact hown
    · obtain ⟨h1, h2, h3, h4⟩ := h.stale x hx j hj hne
      refine ⟨h1, h2, h3, fun x hx => ?_⟩
      rcases List.mem_append.1 hx with hx | hx
      · exact h4 x hx
      · rw [List.mem_singleton.1 hx]
        exact hnone j

theorem step {s' : Tunnel} {act : Act} (h : Inv last s) (hclear : s.Clear act)
    (hs : s.step act = some s') :
    ∃ last', Inv last' s' := by
  cases act with
  | ioAccept clientSd =>
    simp only [Tunnel.step] at hs
    split at hs <;> cases hs
    exact ⟨_, h.ioAccept hclear⟩
  | clientRead k nread junk =>
    obtain ⟨c, hc, rfl⟩ := Option.map_eq_some_iff.1 hs
    exact ⟨last, h.clientMoves (Side.Moves.read h.client hc).2⟩
  | clientDestroy j =>
    obtain ⟨c, hc, rfl⟩ := Option.map_eq_some_iff.1 hs
    obtain ⟨p, -, hmoves⟩ := Side.Moves.destroy h.client hc
    exact ⟨last, h.clientMoves hmoves⟩
  | clientOnData sendFails =>
    simp only [Tunnel.step] at hs
    split at hs <;> cases hs
    rename_i m rest hm
    exact ⟨last, h.clientOnData hm sendFails⟩
  | serverOnData junk sendFails =>
    simp only [Tunnel.step] at hs
    split at hs <;> cases hs
    rename_i m rest hm
    exact ⟨last, h.serverOnData hm junk sendFails⟩
  | connector j outcome =>
    obtain ⟨p, hp, rfl⟩ := Option.map_eq_some_iff.1 hs
    exact ⟨last, h.connectorEnds hp outcome⟩
  | serverRead k nread junk =>
    obtain ⟨v, hv, rfl⟩ := Option.map_eq_some_iff.1 hs
    obtain ⟨⟨e, he⟩, hmoves⟩ := Side.Moves.read h.server hv
    have hfull : ¬ s.Untouched k := fun hu => by rw [hu.handler] at he; cases he
    exact ⟨last, h.serverMoves (h.settled hfull) hmoves fun p hp => .inl hp⟩
  | serverDestroy j =>
    obtain ⟨v, hv, rfl⟩ := Option.map_eq_some_iff.1 hs
    obtain ⟨p, hp, hmoves⟩ := Side.Moves.destroy h.server hv
    have hfull : ¬ s.Untouched p.connId := fun hu => hu.deleting p hp rfl
    exact ⟨last, h.serverMoves (h.settled hfull) hmoves fun p hp => .inl hp⟩
  | control fromClient m =>
    simp only [Tunnel.step] at hs
    split at hs <;> cases hs
    rename_i hm
    exact ⟨last, h.control hm fromClient⟩

end Inv

/-- In every run in which ids are used again only when they are free, no message reaches a stranger. -/
theorem isolated_of_clear {s : Tunnel} (h : machine.ReachUnder Clear s) : s.Isolated := by
  have hinv : ∃ last, Inv last s := by
    refine h.invariant (I := fun s => ∃ last, Inv last s) ?_ ?_
    · rintro s rfl
      exact ⟨fun _ => 0, .started _⟩
    · rintro s act s' ⟨last, hI⟩ hclear hs
      exact hI.step hclear hs
  obtain ⟨last, hI⟩ := hinv
  exact hI.log

/-- A greeting, a request and its answer. -/
def opened : List Act :=
  [.ioAccept 5, .clientRead 5 (some [5, 1, 0]) fun _ => 0, .clientRead 5 (some [5, 1, 0, 1]) fun _ => 0,
    .serverOnData (fun _ => 0) false, .connector 0 .connected]

/-- A connection is opened, answered and closed by the server, and its id is used again. -/
theorem isolated_of_clear_again : ∃ s, machine.ReachUnder Clear s ∧
    s.log = [⟨true, false, 0, 0⟩, ⟨true, true, 0, 0⟩] ∧ s.nextOwner = 2 ∧ s.Isolated := by
  have hrun : (machine.runUnder Clear start (List.append opened [.clientOnData false,
      .serverRead 5 (some []) fun _ => 0, .serverDestroy 0, .clientOnData false,
      .clientDestroy 0, .ioAccept 5,
      .serverOnData (fun _ => 0) false])).map
      (fun s => (s.log, s.nextOwner)) = some ([⟨true, false, 0, 0⟩, ⟨true, true, 0, 0⟩], 2) := by
        decide +kernel
  obtain ⟨s, hs, hres⟩ := Option.map_eq_some_iff.1 hrun
  have hreach : machine.ReachUnder Clear s := Machine.ReachUnder.run (M := machine) (.init rfl) hs
  exact ⟨s, hreach, congrArg Prod.fst hres, congrArg Prod.snd hres, isolated_of_clear hreach⟩

/-- The local program closes its connection and opens another, which gets the same id; the close
that the server echoes shuts the new connection down. -/
theorem exists_stranger_closed : ∃ s, machine.Reach s ∧ ¬ s.Isolated := by
  have hrun : (machine.run start
    (List.append opened [.clientOnData false, .clientRead 5 (some []) fun _ => 0, .clientDestroy 0,
      .ioAccept 5, .serverOnData (fun _ => 0) false, .serverDestroy 0, .clientOnData false])).map
        (·.log) =
      some [⟨true, false, 0, 0⟩, ⟨false, true, 0, 0⟩, ⟨true, true, 0, 1⟩] := by decide +kernel
  obtain ⟨s, hs, hres⟩ := Option.map_eq_some_iff.1 hrun
  refine ⟨s, Machine.ReachUnder.run (M := machine) (.init rfl) hs, fun h => ?_⟩
  have hev := h ⟨true, true, 0, 1⟩ (by rw [hres]; simp)
  cases hev

end Tunnel

end Resend.Socks

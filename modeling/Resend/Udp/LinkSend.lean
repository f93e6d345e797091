import Resend.Lib.LinkedList
import Resend.Udp.Packets

/-!
# Sending a chain

`start_link_send` copies the caller's chain of message nodes into nodes of its own, whose `next`
pointers first still lead into the caller's chain, and sends the copy. What `CONNECTION_FILL_DATA`
takes from the copy is what it takes from one block with the same bytes.
-/

namespace Resend.Udp

/-- The locals of the loop of `start_link_send`. -/
structure LinkState where
  memory : Cells MessageNode
  newMsgNode : Option Nat
  xnode : Option Nat
  totalLength : Nat

/-- `p->next = next`; `none` where `p` is null. -/
def setNext (m : Cells MessageNode) (p next : Option Nat) : Option (Cells MessageNode) :=
  p.bind fun a => (m a).map fun c => Function.update m a (some { c with next := next })

namespace LinkState

/-- One turn of the loop at the node `node`, with the new node at `tempNode`. -/
def copyNode (s : LinkState) (tempNode : Nat) (node : Cell MessageNode) : Option LinkState :=
  let m := Function.update s.memory tempNode (some node)
  let totalLength := u32 (s.totalLength + node.data.sourceData.length)
  match s.newMsgNode with
  | none => some ⟨m, some tempNode, some tempNode, totalLength⟩
  | some _ => (setNext m s.xnode (some tempNode)).map fun m =>
    ⟨m, s.newMsgNode, some tempNode, totalLength⟩

/-- `while (node)`; `pool` is what the node pool returns in turn, until it is out of memory. -/
def copyLoop : List Nat → LinkState → Option Nat → Option LinkState
  | _, s, none => some s
  | [], _, some _ => none
  | tempNode :: pool, s, some a =>
    (s.memory a).bind fun node => (copyNode s tempNode node).bind fun s' =>
      (s'.memory a).bind fun node => copyLoop pool s' node.next

end LinkState

/-- `start_link_send` up to `start_sender`: the copied chain and its total length. -/
def startLinkSend (pool : List Nat) (m : Cells MessageNode) (msgNode : Option Nat) : Option LinkState :=
  (LinkState.copyLoop pool ⟨m, none, none, 0⟩ msgNode).bind fun s =>
    (setNext s.memory s.xnode none).map fun m => { s with memory := m }

namespace LinkState
variable {m₀ : Cells MessageNode} {s : LinkState} {done rest : List MessageNode} {pool : List Nat}

/-- The nodes `done` have been copied, to nodes that were free; the last copy points anywhere. -/
structure Copied (m₀ : Cells MessageNode) (s : LinkState) (done : List MessageNode) (e : Option Nat) :
    Prop where
  total : s.totalLength = u32 (MessageNode.bytes done).length
  kept : ∀ a, m₀ a ≠ none → s.memory a = m₀ a
  start : done = [] → s.newMsgNode = none
  chain : done ≠ [] → ∃ cs a n, (cs ++ [(a, n)]).map Prod.snd = done ∧
    s.newMsgNode = Cells.head (cs ++ [(a, n)]) none ∧ s.xnode = some a ∧
    (∀ c ∈ cs ++ [(a, n)], m₀ c.1 = none) ∧ ((cs ++ [(a, n)]).map Prod.fst).Nodup ∧
    Cells.Linked s.memory (cs ++ [(a, n)]) e

namespace Copied

theorem length_concat (done : List MessageNode) (n : MessageNode) :
    u32 (u32 (MessageNode.bytes done).length + n.sourceData.length) =
      u32 (MessageNode.bytes (done ++ [n])).length := by
  simp only [u32, MessageNode.bytes, List.flatMap_append, List.flatMap_singleton,
    List.length_append, Nat.mod_add_mod]

theorem kept_update {m : Cells MessageNode} (hkept : ∀ a, m₀ a ≠ none → m a = m₀ a) {t : Nat}
    (ht : m₀ t = none) (v : Option (Cell MessageNode)) :
    ∀ a, m₀ a ≠ none → Function.update m t v a = m₀ a := by
  intro a ha
  rw [Function.update_of_ne (by rintro rfl; exact ha ht)]
  exact hkept a ha

theorem copyNode {e : Option Nat} (h : Copied m₀ s done e) {t : Nat} (ht : s.memory t = none)
    (ht₀ : m₀ t = none) (node : Cell MessageNode) :
    ∃ s', s.copyNode t node = some s' ∧ Copied m₀ s' (done ++ [node.data]) node.next ∧
      ∀ a, a ≠ t → s.memory a = none → s'.memory a = none := by
  have htotal : u32 (s.totalLength + node.data.sourceData.length) =
      u32 (MessageNode.bytes (done ++ [node.data])).length := by rw [h.total, length_concat]
  by_cases hdone : done = []
  · refine ⟨_, by rw [LinkState.copyNode, h.start hdone],
      ⟨htotal, kept_update h.kept ht₀ _, ?_, fun _ => ?_⟩, ?_⟩
    · intro hnil
      exact absurd hnil (by simp)
    · refine ⟨[], t, node.data, by rw [hdone]; rfl, rfl, rfl, by simpa using ht₀, by simp, ?_⟩
      exact ⟨Function.update_self .., trivial⟩
    · intro a ha hnone
      exact (Function.update_of_ne ha ..).trans hnone
  · obtain ⟨cs, a, n, hcs, hnew, hx, hfree, hnodup, hlinked⟩ := h.chain hdone
    have hlast : s.memory a = some ⟨n, e⟩ := (Cells.linked_concat.1 hlinked).2
    have hat : a ≠ t := by
      rintro rfl
      rw [ht] at hlast
      cases hlast
    have hmem : t ∉ (cs ++ [(a, n)]).map Prod.fst := hlinked.not_mem ht
    have hnew' : s.newMsgNode ≠ none := by rw [hnew]; cases cs <;> exact Option.some_ne_none _
    obtain ⟨p, hp⟩ := Option.ne_none_iff_exists'.1 hnew'
    have ha : a ∉ cs.map Prod.fst := by
      rw [List.map_append, List.nodup_append] at hnodup
      exact fun hin => hnodup.2.2 a hin a (List.mem_singleton_self a) rfl
    have ha₀ : m₀ a = none := hfree (a, n) (by simp)
    have hset : setNext (Function.update s.memory t (some node)) (some a) (some t) =
        some (Function.update (Function.update s.memory t (some node)) a (some ⟨n, some t⟩)) := by
      rw [setNext, Option.bind_some, Function.update_of_ne hat, hlast, Option.map_some]
    have hcopy : s.copyNode t node =
      some ⟨Function.update (Function.update s.memory t (some node)) a (some ⟨n, some t⟩),
        s.newMsgNode, some t, u32 (s.totalLength + node.data.sourceData.length)⟩ := by
      simp only [LinkState.copyNode, hp, hx, hset, Option.map_some]
    refine ⟨_, hcopy, ⟨htotal, ?_, ?_, fun _ => ?_⟩, ?_⟩
    · exact kept_update (kept_update h.kept ht₀ _) ha₀ _
    · intro hnil
      exact absurd hnil (by simp)
    · refine ⟨cs ++ [(a, n)], t, node.data, ?_, ?_, rfl, ?_, ?_, hlinked.push ha hmem⟩
      · rw [List.map_append, hcs]; rfl
      · simp only
        rw [hnew, @Cells.head_append _ _ [(t, node.data)]]
        cases cs <;> rfl
      · intro c hc
        rcases List.mem_append.1 hc with hc | hc
        · exact hfree c hc
        · rw [List.mem_singleton.1 hc]; exact ht₀
      · rw [List.map_append]
        exact hnodup.append (by simp) (by simpa using hmem)
    · intro b hb hnone
      have hba : b ≠ a := by
        rintro rfl
        rw [hlast] at hnone
        cases hnone
      simp only
      rw [Function.update_of_ne hba, Function.update_of_ne hb]
      exact hnone

theorem copyLoop {e : Option Nat} (h : Copied m₀ s done e) {p : Option Nat}
    (hrest : Cells.Holds m₀ p rest) (hlen : rest.length ≤ pool.length) (hnodup : pool.Nodup)
    (hfree : ∀ t ∈ pool, s.memory t = none ∧ m₀ t = none) :
    ∃ s' e', LinkState.copyLoop pool s p = some s' ∧ Copied m₀ s' (done ++ rest) e' := by
  induction rest generalizing pool s done p e with
  | nil =>
    rw [Cells.holds_nil_iff.1 hrest]
    exact ⟨s, e, by cases pool <;> rfl, by rwa [List.append_nil]⟩
  | cons n rest ih =>
    obtain ⟨a, next, rfl, hm, hnext⟩ := Cells.holds_cons_iff.1 hrest
    obtain _ | ⟨t, pool⟩ := pool
    · exact absurd hlen (by simp)
    obtain ⟨htpool, hnodup⟩ := List.nodup_cons.1 hnodup
    obtain ⟨ht, ht₀⟩ := hfree t List.mem_cons_self
    obtain ⟨s', hs', h', hfree'⟩ := h.copyNode ht ht₀ ⟨n, next⟩
    have ha : s.memory a = some ⟨n, next⟩ :=
      (h.kept a (by rw [hm]; exact Option.some_ne_none _)).trans hm
    have ha' : s'.memory a = some ⟨n, next⟩ :=
      (h'.kept a (by rw [hm]; exact Option.some_ne_none _)).trans hm
    obtain ⟨s'', e'', hs'', h''⟩ := ih h' hnext (by simpa using hlen) hnodup (fun b hb => by
      have hbt : b ≠ t := by
        rintro rfl
        exact htpool hb
      exact ⟨hfree' b hbt (hfree b (List.mem_cons_of_mem _ hb)).1,
        (hfree b (List.mem_cons_of_mem _ hb)).2⟩)
    refine ⟨s'', e'', ?_, by rwa [List.append_assoc] at h''⟩
    rw [LinkState.copyLoop, ha, Option.bind_some, hs', Option.bind_some, ha', Option.bind_some]
    exact hs''

end Copied
end LinkState

/-- The copy is a chain of the same nodes in cells that were free, and the caller's chain stays as
it was. -/
theorem startLinkSend_cells {m : Cells MessageNode} {p : Option Nat} {ns : List MessageNode}
    {pool : List Nat} (hm : Cells.Holds m p ns) (hne : ns ≠ []) (hlen : ns.length ≤ pool.length)
    (hnodup : pool.Nodup) (hfree : ∀ t ∈ pool, m t = none) :
    ∃ s cs, startLinkSend pool m p = some s ∧ cs.map Prod.snd = ns ∧ s.newMsgNode = Cells.head cs none ∧
      Cells.Linked s.memory cs none ∧ (∀ c ∈ cs, m c.1 = none) ∧
      s.totalLength = u32 (MessageNode.bytes ns).length ∧ ∀ a, m a ≠ none → s.memory a = m a := by
  have hstart : LinkState.Copied m ⟨m, none, none, 0⟩ [] none :=
    ⟨by simp [MessageNode.bytes, u32], fun _ _ => rfl, fun _ => rfl, fun hnil => absurd rfl hnil⟩
  obtain ⟨s, e, hs, hcopied⟩ := hstart.copyLoop hm hlen hnodup fun t ht => ⟨hfree t ht, hfree t ht⟩
  rw [List.nil_append] at hcopied
  obtain ⟨cs, a, n, hcs, hnew, hx, hfresh, hcsnodup, hlinked⟩ := hcopied.chain hne
  have hlast : s.memory a = some ⟨n, e⟩ := (Cells.linked_concat.1 hlinked).2
  have ha : a ∉ cs.map Prod.fst := by
    rw [List.map_append, List.nodup_append] at hcsnodup
    exact fun hin => hcsnodup.2.2 a hin a (List.mem_singleton_self a) rfl
  have hset : setNext s.memory s.xnode none = some (Function.update s.memory a (some ⟨n, none⟩)) := by
    rw [setNext, hx, Option.bind_some, hlast, Option.map_some]
  refine ⟨{ s with memory := Function.update s.memory a (some ⟨n, none⟩) }, cs ++ [(a, n)], ?_, hcs, ?_,
    hlinked.setLast ha, hfresh, hcopied.total, ?_⟩
  · rw [startLinkSend, hs, Option.bind_some, hset, Option.map_some]
  · cases cs <;> exact hnew
  · exact LinkState.Copied.kept_update hcopied.kept (hfresh (a, n) (by simp)) _

theorem startLinkSend_spec {m : Cells MessageNode} {p : Option Nat} {ns : List MessageNode}
    {pool : List Nat} (hm : Cells.Holds m p ns) (hne : ns ≠ []) (hlen : ns.length ≤ pool.length)
    (hnodup : pool.Nodup) (hfree : ∀ t ∈ pool, m t = none) :
    ∃ s, startLinkSend pool m p = some s ∧ Cells.Holds s.memory s.newMsgNode ns ∧
      s.totalLength = u32 (MessageNode.bytes ns).length := by
  obtain ⟨s, cs, hs, hcs, hnew, hlinked, -, htotal, -⟩ := startLinkSend_cells hm hne hlen hnodup hfree
  exact ⟨s, hs, ⟨cs, hcs, hnew, hlinked⟩, htotal⟩

/-- A writer of the copied chain and a writer of the same bytes in one block fill the same packets,
and neither follows a null pointer. -/
theorem fillData_link_eq_flat {m : Cells MessageNode} {p : Option Nat} {ns : List MessageNode}
    (pool : List Nat) (hm : Cells.Holds m p ns) (hne : ns ≠ [])
    (htotal : (MessageNode.bytes ns).length < 2 ^ 32) (hlen : ns.length ≤ pool.length)
    (hnodup : pool.Nodup) (hfree : ∀ t ∈ pool, m t = none) :
    ∃ s, startLinkSend pool m p = some s ∧ s.totalLength = (MessageNode.bytes ns).length ∧
      ∀ (link flat : Connection) (seq : Nat), seq < (MessageNode.bytes ns).length →
        link.transmitBuf = none → Cells.Holds s.memory s.newMsgNode link.transMessageNode →
        link.transmitBufLength = s.totalLength →
        flat.transmitBuf = some (MessageNode.bytes ns) →
        flat.transmitBufLength = (MessageNode.bytes ns).length →
        link.fillData seq = flat.fillData seq ∧
        link.fillData seq = some ((MessageNode.bytes ns).extract seq
          (min (seq + packetMaxDataLength) (MessageNode.bytes ns).length)) := by
  obtain ⟨s, hs, hchain, hlength⟩ := startLinkSend_spec hm hne hlen hnodup hfree
  rw [u32_of_lt htotal] at hlength
  refine ⟨s, hs, hlength, fun link flat seq hseq hlink hnodes hlinklen hflat hflatlen => ?_⟩
  have hbytes : link.source = MessageNode.bytes ns := by
    rw [Connection.source, hlink, Option.getD_none, hnodes.unique hchain]
  have hfill : ∀ c : Connection, c.transmitBufLength = (MessageNode.bytes ns).length →
      c.source = MessageNode.bytes ns → c.fillData seq = some ((MessageNode.bytes ns).extract seq
        (min (seq + packetMaxDataLength) (MessageNode.bytes ns).length)) := by
    intro c hc hsource
    rw [fillData_eq (by rwa [hc]) (by rwa [hc]) (by rw [hc, hsource]), hc, hsource,
      List.extract_eq_take_drop]
    congr 2
    omega
  have h := hfill link (hlinklen.trans hlength) hbytes
  exact ⟨h.trans (hfill flat hflatlen (by rw [Connection.source, hflat, Option.getD_some])).symm, h⟩

/-- Three nodes, the second one empty; the second byte is where the first node ends. -/
theorem fillData_link_eq_flat_emptyNode : ∃ s : LinkState, s.totalLength = 3 ∧
    ∀ (link flat : Connection), link.transmitBuf = none →
      Cells.Holds s.memory s.newMsgNode link.transMessageNode →
      link.transmitBufLength = s.totalLength → flat.transmitBuf = some [1, 2, 3] →
      flat.transmitBufLength = 3 →
      link.fillData 2 = flat.fillData 2 ∧ link.fillData 2 = some [3] := by
  obtain ⟨n, hn⟩ : ∃ n : List UInt8 →
      MessageNode, n = fun data => ⟨data, .deleteAfterSend, none⟩ := ⟨_, rfl⟩
  obtain ⟨m, hm⟩ : ∃ m : Cells MessageNode, m = fun a =>
    if a = 0 then some ⟨n [1, 2], some 1⟩ else if a = 1 then some ⟨n [], some 2⟩
    else if a = 2 then some ⟨n [3], none⟩ else none := ⟨_, rfl⟩
  have hholds : Cells.Holds m (some 0) [n [1, 2], n [], n [3]] := by
    refine ⟨[(0, n [1, 2]), (1, n []), (2, n [3])], rfl, rfl, ?_⟩
    subst hm
    exact ⟨rfl, rfl, rfl, trivial⟩
  have hbytes : MessageNode.bytes [n [1, 2], n [], n [3]] = [1, 2, 3] := by rw [hn]; rfl
  have h := fillData_link_eq_flat [10, 11, 12] hholds (by simp)
    (by rw [hbytes]; decide) le_rfl (by decide) (by rw [hm]; simp)
  rw [hbytes] at h
  obtain ⟨s, -, hlength, hfill⟩ := h
  exact ⟨s, hlength, fun link flat h1 h2 h3 h4 h5 => hfill link flat 2 (by decide) h1 h2 h3 h4 h5⟩

end Resend.Udp

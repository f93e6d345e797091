import Resend.Udp.HpMapRuns

/-!
# The red-black tree

What must hold of the tree after any calls, as long as an `int` can count its nodes, and the order
in which iterators meet the entries.
-/

namespace Resend.Udp

namespace HpMap
open ColorTree
variable {K V : Type} {m m' : HpMap K V} {T T' t : ColorTree Nat} {q q' : Option Nat} {a n : Nat}

/-- The weight of each node is the number of nodes below it. -/
def Weighed (m : HpMap K V) : ColorTree Nat → Prop
  | .nil => True
  | .node _ l a r => m.weight a = (l.size + r.size + 1 : Nat) ∧ m.Weighed l ∧ m.Weighed r

theorem Shape.unique (h : m.Shape q t) (h' : m.Shape q' T) (hroot : t.root = T.root) : t = T := by
  induction t generalizing q q' T with
  | nil => exact (root_eq_none_iff.1 hroot.symm).symm
  | node c l a r ihl ihr =>
    obtain ⟨c', l', b, r', rfl⟩ := exists_join .left fun hnil : T = nil => by
      rw [hnil] at hroot
      cases hroot
    obtain rfl : a = b := Option.some.inj hroot
    obtain ⟨hat, hl, hr⟩ := h
    obtain ⟨hat', hl', hr'⟩ := h'
    rw [ihl hl hl' (hat.child.symm.trans hat'.child), ihr hr hr' (hat.other.symm.trans hat'.other),
      hat.color.symm.trans hat'.color]
    rfl

theorem Shape.weighed (h : m.Shape q t) (hlt : t.size < 2 ^ 31) : m.Weighed t := by
  induction t generalizing q with
  | nil => trivial
  | node c l a r ihl ihr =>
    obtain ⟨hat, hl, hr⟩ := h
    rw [ColorTree.size] at hlt
    exact ⟨hat.weight.trans (wrapInt_of_lt hlt), ihl hl (by omega), ihr hr (by omega)⟩

theorem wrapInt_lt (x : Int) : wrapInt x < 2 ^ 31 := by
  rw [wrapInt]
  exact_mod_cast Int.bmod_lt (x := x) (m := 2 ^ 32) (by decide)

variable [LinearOrder K] {d : Dict K V} {ops : List (Op K V)}

/-- The map is the red-black search tree `T`, and counts its nodes. -/
structure RedBlack (m : HpMap K V) (T : ColorTree Nat) : Prop where
  view : m.View [] T
  ascending : m.Ascending T.toList
  isBlack : T.IsBlack
  balanced : ∃ n, Balanced T n
  size : m.size = T.size
  weighed : m.Weighed T
  select : ∀ n, n < T.size → ∃ a, T.toList[n]? = some a ∧ m.select (n + 1 : Nat) = some (some a)

/-- The tree is right as long as an `int` holds the number of its nodes. -/
theorem Rep.redBlack_iff (h : m.Rep T d) : (∃ T, m.RedBlack T) ↔ d.keys.card < 2 ^ 31 := by
  rw [h.card_keys]
  constructor
  · rintro ⟨T', hT'⟩
    have hroot : T'.root = T.root := hT'.view.around.symm.trans h.holds.view.around
    obtain rfl : T' = T := hT'.view.shape.unique h.holds.view.shape hroot
    have hsize : (T'.size : Int) = wrapInt T'.size := hT'.size.symm.trans h.size
    have hlt := wrapInt_lt T'.size
    omega
  · intro hlt
    have hsize : m.size = T.size := h.size.trans (wrapInt_of_lt hlt)
    refine ⟨T, h.holds.view, h.ascending, h.holds.isBlack, h.holds.balanced, hsize,
      h.holds.view.shape.weighed hlt, fun n hn => ?_⟩
    have hn' : n < T.toList.length := by rwa [length_toList]
    have hget := List.getElem?_eq_getElem hn'
    exact ⟨T.toList[n], hget, (h.holds.select hsize hlt hn).trans (congrArg some hget)⟩

/-- The keys below `n` from the last one on, each with a node of its own. -/
def inserts : Nat → List (Op Nat Nat)
  | 0 => []
  | n + 1 => .insert n n (some n) :: inserts n

theorem keys_insert {k : K} {v : V} : (d.insert k v).keys = Insert.insert k d.keys := by
  ext k'
  rw [Finmap.mem_keys, Finmap.mem_insert, Finset.mem_insert, Finmap.mem_keys]

theorem Rep.inserts {m : HpMap Nat Nat} {d : Dict Nat Nat} (h : m.Rep T d) (hlive : ∀ i < n, i ∉ m.live)
    (hd : ∀ i < n, i ∉ d) : (machine Nat Nat).Along Fresh m (HpMap.inserts n) ∧
      (d.run (HpMap.inserts n)).1.keys.card = d.keys.card + n := by
  induction n generalizing m T d with
  | zero => exact ⟨trivial, rfl⟩
  | succ n ih =>
    have hn := hlive n n.lt_succ_self
    have hnd := hd n n.lt_succ_self
    rcases h.insert_cases n n hn with ⟨hin, -⟩ | ⟨-, m', T', hrun, hrep, hlive'⟩
    · exact absurd hin hnd
    · obtain ⟨halong, hcard⟩ := ih hrep
        (fun i hi hin => by
          rw [hlive', List.mem_cons] at hin
          exact hin.elim hi.ne (hlive i (hi.trans n.lt_succ_self)))
        (fun i hi hin => (Finmap.mem_insert.1 hin).elim hi.ne (hd i (hi.trans n.lt_succ_self)))
      have hexec : d.exec (.insert n n (some n)) = (d.insert n n, ⟨some 0, none⟩) :=
        if_neg fun hor => hor.elim hnd nofun
      refine ⟨⟨hn, fun s hs => ?_⟩, ?_⟩
      · have hstep : (machine Nat Nat).step m (.insert n n (some n)) = some m' :=
          congrArg (Option.map Prod.fst) hrun
        obtain rfl : m' = s := Option.some.inj (hstep.symm.trans hs)
        exact halong
      · rw [HpMap.inserts, Dict.run, hexec]
        show (Dict.run (d.insert n n) (HpMap.inserts n)).1.keys.card = _
        rw [hcard, keys_insert, Finset.card_insert_of_notMem fun hin => hnd (Finmap.mem_keys.1 hin)]
        omega

theorem blank_inserts (n : Nat) :
    (machine Nat Nat).Along Fresh blank (inserts n) ∧ (Dict.run ∅ (inserts n)).1.keys.card = n := by
  have hempty : blank.IsEmpty := ⟨rfl, rfl, rfl⟩
  obtain ⟨halong, hcard⟩ := hempty.rep.inserts (n := n) (fun i _ => List.not_mem_nil) fun i _ =>
    Finmap.notMem_empty
  rw [Finmap.keys_empty, Finset.card_empty, Nat.zero_add] at hcard
  exact ⟨halong, hcard⟩

/-- No call follows a null pointer, and after any calls the tree is right if and only if it has
fewer than `2 ^ 31` nodes. -/
theorem redBlack_iff_fits (hempty : m.IsEmpty) (hfresh : (machine K V).Along Fresh m ops) :
    ∃ r, m.runOps ops = some r ∧ ((∃ T, r.1.RedBlack T) ↔ (Dict.run ∅ ops).1.keys.card < 2 ^ 31) := by
  obtain ⟨m', T, hrun, hrep⟩ := hempty.rep.runOps hfresh
  exact ⟨_, hrun, hrep.redBlack_iff⟩

/-- Three keys are few enough. -/
theorem redBlack_iff_fits_three : ∃ r, blank.runOps (inserts 3) = some r ∧ ∃ T, r.1.RedBlack T := by
  obtain ⟨r, hrun, hiff⟩ := redBlack_iff_fits (m := blank) ⟨rfl, rfl, rfl⟩ (blank_inserts 3).1
  refine ⟨r, hrun, hiff.2 ?_⟩
  rw [(blank_inserts 3).2]
  decide

/-- With `2 ^ 31` keys the number of nodes is no longer an `int`. -/
theorem exists_size_wrapped : (machine Nat Nat).Along Fresh blank (inserts (2 ^ 31)) ∧
    ∃ r, blank.runOps (inserts (2 ^ 31)) = some r ∧ ¬ ∃ T, r.1.RedBlack T := by
  have hempty : blank.IsEmpty := ⟨rfl, rfl, rfl⟩
  obtain ⟨halong, hcard⟩ := blank_inserts (2 ^ 31)
  obtain ⟨m', T, hrun, hrep⟩ := hempty.rep.runOps halong
  refine ⟨halong, _, hrun, fun hright => ?_⟩
  have hlt := hrep.redBlack_iff.1 hright
  rw [hcard] at hlt
  exact lt_irrefl _ hlt

/-! ### Iterators -/

/-- From `begin` on an iterator meets each entry once, with the keys going up; back from `end` it
meets them the other way around; and a step back undoes a step. -/
theorem visits_in_order {answers : List (Answer V)} (hempty : m.IsEmpty)
    (hfresh : (machine K V).Along Fresh m ops) (hrun : m.runOps ops = some (m', answers)) :
    ∃ as : List Nat,
      m'.begin.bind (visits (·.incr m') m'.fuel) = some as ∧
      (m'.end_.decr m').bind (visits (·.decr m') m'.fuel) = some as.reverse ∧
      (as.map m'.first).Pairwise (· < ·) ∧ (∀ a, a ∈ as ↔ m'.InTree a) ∧
      (∀ k v, (Dict.run ∅ ops).1.lookup k = some v ↔ ∃ a ∈ as, m'.first a = k ∧ m'.second a = v) ∧
      ∀ a b, m'.InTree a → m'.rbNext a = some (some b) → m'.rbPrev b = some (some a) := by
  obtain ⟨m₁, T, hrun₁, hrep⟩ := hempty.rep.runOps hfresh
  cases hrun₁.symm.trans hrun
  refine ⟨T.toList, hrep.holds.visits_begin, hrep.holds.visits_end, List.pairwise_map.2 hrep.ascending,
    fun a => hrep.holds.inTree_iff.symm, hrep.lookup, fun a b ha hnext => ?_⟩
  exact hrep.holds.rbPrev (hrep.holds.inTree_iff.1 ha) hnext

/-- Three keys in order. -/
theorem visits_in_order_three : ∃ r as, blank.runOps (inserts 3) = some r ∧
    r.1.begin.bind (visits (·.incr r.1) r.1.fuel) = some as ∧ (as.map r.1.first).Pairwise (· < ·) := by
  obtain ⟨⟨m', answers⟩, hrun⟩ : ∃ r, blank.runOps (inserts 3) = some r :=
    Option.isSome_iff_exists.1 (by decide +kernel)
  obtain ⟨as, hvisits, -, hasc, -⟩ :=
      visits_in_order (m := blank) ⟨rfl, rfl, rfl⟩ (blank_inserts 3).1 hrun
  exact ⟨_, as, hrun, hvisits, hasc⟩

end HpMap

end Resend.Udp

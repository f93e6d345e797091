import Mathlib.Data.Finmap
import Resend.Udp.RbOrder

/-!
# Runs of the map

What the map is for is a finite map, a `Dict`. Each call does to the tree what it says of the
`Dict`, so that after any calls the nodes are a red-black tree with the entries of the `Dict`.
-/

namespace Resend.Udp

namespace HpMap
open ColorTree
variable {K V : Type} {m m' : HpMap K V} {T T' : ColorTree Nat} {a x : Nat} {k : K} {v : V}

/-! ### The pool -/

/-- A node from the pool, with key and value in it. -/
def allocate (m : HpMap K V) (a : Nat) (k : K) (v : V) : HpMap K V :=
  { m with
    live := a :: m.live
    first := Function.update m.first a k
    second := Function.update m.second a v }

theorem Holds.notMem (h : m.Holds T) (ha : a ∉ m.live) : a ∉ T.toList :=
  fun hin => ha (h.view.shape.live a hin)

theorem Holds.allocate (h : m.Holds T) : (m.allocate a k v).Holds T :=
  ⟨⟨h.view.around, h.view.shape.congr fun _ _ =>
    ⟨List.mem_cons_of_mem a, rfl, rfl, fun _ => rfl, rfl⟩, h.view.nodup⟩, h.balanced, h.isBlack⟩

theorem Holds.free (h : m.Holds T) (ha : a ∉ T.toList) : (m.free a).Holds T := by
  refine ⟨⟨h.view.around, h.view.shape.congr fun b hb =>
    ⟨fun hlive => ?_, rfl, rfl, fun _ => rfl, rfl⟩, h.view.nodup⟩, h.balanced, h.isBlack⟩
  refine (List.mem_erase_of_ne ?_).2 hlive
  rintro rfl
  exact ha hb

/-! ### The nodes of the tree -/

/-- The nodes that links lead to. -/
inductive InTree (m : HpMap K V) : Nat → Prop
  | root {a : Nat} (h : m.rbNode = some a) : InTree m a
  | child {a b : Nat} {s : Side} (h : InTree m b) (hs : m.rbChild s b = some a) : InTree m a

theorem View.inTree {ctx : List (Frame Nat)} {t : ColorTree Nat} (h : m.View ctx t)
    (ht : ∀ a, t.root = some a → m.InTree a) :
    ∀ a ∈ t.toList, m.InTree a := by
  induction t generalizing ctx with
  | nil => exact fun a ha => absurd ha List.not_mem_nil
  | node c l b r ihl ihr =>
    have hb := ht b rfl
    obtain ⟨hat, -⟩ := h.shape
    have hl : m.View (⟨.left, c, b, r⟩ :: ctx) l := view_cons.2 h
    have hr : m.View (⟨.right, c, b, l⟩ :: ctx) r := view_cons.2 h
    intro a ha
    rcases List.mem_append.1 ha with ha | ha
    · exact ihl hl (fun y hy => .child hb (hat.child.trans hy)) a ha
    · rcases List.mem_cons.1 ha with rfl | ha
      · exact hb
      · exact ihr hr (fun y hy => .child hb (hat.other.trans hy)) a ha

theorem Holds.inTree_iff (h : m.Holds T) : m.InTree a ↔ a ∈ T.toList := by
  have hroot : m.rbNode = T.root := h.view.around
  constructor
  · intro ha
    induction ha with
    | root hr => exact mem_toList_of_root (hroot.symm.trans hr)
    | @child a b s hb hs ih =>
      obtain ⟨ctx, c, l, r, rfl⟩ := exists_plug_of_mem ih
      have hview : m.View ctx (node c l b r) := List.append_nil ctx ▸ view_plug.2 h.view
      obtain ⟨d, t, y, u, hjoin⟩ := exists_join s (t := node c l b r) nofun
      obtain rfl : b = y := Option.some.inj ((congrArg root hjoin).trans root_join)
      rw [hjoin] at hview ⊢
      have hat : t.root = some a := hview.at_join.child.symm.trans hs
      refine perm_plug.mem_iff.2 (List.mem_append_left _
        (mem_join.2 (.inr (.inl (mem_toList_of_root hat)))))
  · exact h.view.inTree (fun b hb => .root (hroot.trans hb)) a

/-- The same nodes with the same entries and links. -/
structure Unchanged (m m' : HpMap K V) : Prop where
  rbNode : m'.rbNode = m.rbNode
  size : m'.size = m.size
  same : ∀ a, m.InTree a → Same m m' a ∧ m'.first a = m.first a ∧ m'.second a = m.second a

theorem Shape.same {q : Option Nat} {t : ColorTree Nat} (h : m.Shape q t) (h' : m'.Shape q t) :
    ∀ a ∈ t.toList, Same m m' a := by
  induction t generalizing q with
  | nil => exact fun a ha => absurd ha List.not_mem_nil
  | node c l b r ihl ihr =>
    obtain ⟨hat, hl, hr⟩ := h
    obtain ⟨hat', hl', hr'⟩ := h'
    intro a ha
    rcases List.mem_append.1 ha with ha | ha
    · exact ihl hl hl' a ha
    · rcases List.mem_cons.1 ha with rfl | ha
      · refine ⟨fun _ => hat'.live, hat'.parent.trans hat.parent.symm,
          hat'.color.trans hat.color.symm, fun s => ?_, hat'.weight.trans hat.weight.symm⟩
        cases s with
        | left => exact hat'.child.trans hat.child.symm
        | right => exact hat'.other.trans hat.other.symm
      · exact ihr hr hr' a ha

/-! ### Finite maps -/

variable [LinearOrder K]

/-- The map as it is meant: a value for each of finitely many keys. -/
abbrev Dict (K V : Type) := Finmap fun _ : K => V

/-- A call, where an insertion that gets no node is refused. -/
def Dict.exec (d : Dict K V) : Op K V → Dict K V × Answer V
  | .insert first second p =>
    if first ∈ d ∨ p = none then (d, ⟨some (-1), none⟩) else (d.insert first second, ⟨some 0, none⟩)
  | .find first => (d, ⟨some (if first ∈ d then 0 else -1), d.lookup first⟩)
  | .findAndDel first => (d.erase first, ⟨some (if first ∈ d then 0 else -1), d.lookup first⟩)
  | .erase first => (d.erase first, ⟨some (if first ∈ d then 0 else -1), none⟩)
  | .change first second =>
    if first ∈ d then (d.insert first second, ⟨some 0, none⟩) else (d, ⟨some (-1), none⟩)
  | .clear => (∅, ⟨none, none⟩)
  | .size => (d, ⟨some (wrapInt d.keys.card), none⟩)

def Dict.run (d : Dict K V) : List (Op K V) → Dict K V × List (Answer V)
  | [] => (d, [])
  | op :: ops => (Dict.run (d.exec op).1 ops).map id ((d.exec op).2 :: ·)

variable {d : Dict K V}

/-- The map holds the entries of `d` in the tree `T`. -/
structure Rep (m : HpMap K V) (T : ColorTree Nat) (d : Dict K V) : Prop where
  holds : m.Holds T
  ascending : m.Ascending T.toList
  size : m.size = wrapInt T.size
  lookup : ∀ k v, d.lookup k = some v ↔ ∃ a ∈ T.toList, m.first a = k ∧ m.second a = v

theorem Ascending.nodup {as : List Nat} (h : m.Ascending as) : (as.map m.first).Nodup :=
  List.pairwise_map.2 (h.imp fun hlt => hlt.ne)

theorem Rep.card_keys (h : m.Rep T d) : d.keys.card = T.size := by
  have hkeys : d.keys = (T.toList.map m.first).toFinset := by
    ext k
    rw [Finmap.mem_keys, Finmap.mem_iff, List.mem_toFinset, List.mem_map]
    constructor
    · rintro ⟨v, hv⟩
      obtain ⟨a, ha, hk, -⟩ := (h.lookup k v).1 hv
      exact ⟨a, ha, hk⟩
    · rintro ⟨a, ha, hk⟩
      exact ⟨m.second a, (h.lookup k _).2 ⟨a, ha, hk, rfl⟩⟩
  rw [hkeys, List.toFinset_card_of_nodup h.ascending.nodup, List.length_map, length_toList]

theorem Rep.find_cases (h : m.Rep T d) (k : K) :
    (∃ a ∈ T.toList, m.first a = k ∧ m.myRbFind k = some (some a) ∧ d.lookup k = some (m.second a)) ∨
    ((∀ a ∈ T.toList, m.first a ≠ k) ∧ m.myRbFind k = some none ∧ d.lookup k = none) := by
  have hrun := h.holds.myRbFind h.ascending k
  cases hfind : T.toList.find? fun a => m.first a = k with
  | some a =>
    have ha := List.mem_of_find?_eq_some hfind
    have hk : m.first a = k := of_decide_eq_true
        (List.find?_some (p := fun a => decide (m.first a = k)) hfind)
    exact .inl ⟨a, ha, hk, hrun.trans (congrArg some hfind), (h.lookup k _).2 ⟨a, ha, hk, rfl⟩⟩
  | none =>
    have hne : ∀ a ∈ T.toList, m.first a ≠ k :=
      fun a ha heq => List.find?_eq_none.1 hfind a ha (decide_eq_true heq)
    refine .inr ⟨hne, hrun.trans (congrArg some hfind),
      Option.eq_none_iff_forall_not_mem.2 fun v hv => ?_⟩
    obtain ⟨a, ha, hk, -⟩ := (h.lookup k v).1 hv
    exact hne a ha hk

theorem mem_of_lookup (h : d.lookup k = some v) : k ∈ d := Finmap.mem_of_lookup_eq_some h

theorem notMem_of_lookup (h : d.lookup k = none) : k ∉ d := Finmap.lookup_eq_none.1 h

theorem Rep.congr (h : m.Rep T d) (hholds : m'.Holds T) (hsize : m'.size = m.size)
    (hfirst : ∀ a ∈ T.toList, m'.first a = m.first a)
    (hsecond : ∀ a ∈ T.toList, m'.second a = m.second a) : m'.Rep T d := by
  refine ⟨hholds, ?_, hsize.trans h.size, fun k v => (h.lookup k v).trans ?_⟩
  · exact h.ascending.imp_of_mem fun ha hb hlt => by rwa [hfirst _ ha, hfirst _ hb]
  · constructor
    · rintro ⟨a, ha, hk, hv⟩
      exact ⟨a, ha, (hfirst a ha).trans hk, (hsecond a ha).trans hv⟩
    · rintro ⟨a, ha, hk, hv⟩
      exact ⟨a, ha, (hfirst a ha).symm.trans hk, (hsecond a ha).symm.trans hv⟩

/-! ### Insertion -/

theorem Rep.allocate (h : m.Rep T d) (ha : a ∉ m.live) : (m.allocate a k v).Rep T d := by
  have hne : ∀ b ∈ T.toList, b ≠ a := by
    rintro b hb rfl
    exact h.holds.notMem ha hb
  exact h.congr h.holds.allocate rfl (fun b hb => Function.update_of_ne (hne b hb) ..)
    fun b hb => Function.update_of_ne (hne b hb) ..

theorem Rep.inserted (h : m.Rep T d) (hT : m'.Holds T') (hgrown : Grown m m')
    (hins : m.Inserted x T.toList T'.toList) (hx : ∀ a ∈ T.toList, m.first a ≠ m.first x) :
    m'.Rep T' (d.insert (m.first x) (m.second x)) := by
  obtain ⟨L, R, hlist, hlist', hL, hR⟩ := hins
  have hasc := h.ascending
  rw [hlist, Ascending, List.pairwise_append] at hasc
  obtain ⟨hascL, hascR, hLR⟩ := hasc
  have hmem : ∀ a, a ∈ T'.toList ↔ a = x ∨ a ∈ T.toList := fun a => by
    rw [hlist, hlist']
    simp only [List.mem_append, List.mem_cons]
    tauto
  refine ⟨hT, ?_, ?_, fun k v => ?_⟩
  · rw [Ascending, hgrown.first, hlist', List.pairwise_append, List.pairwise_cons]
    refine ⟨hascL, ⟨hR, hascR⟩, fun a ha b hb => ?_⟩
    rcases List.mem_cons.1 hb with rfl | hb
    · exact hL a ha
    · exact hLR a ha b hb
  · have hlen : T'.size = T.size + 1 := by
      rw [← length_toList, ← length_toList, hlist, hlist', List.length_append,
        List.length_append, List.length_cons]
      rfl
    rw [hgrown.size, h.size, wrapInt_succ, hlen]
  · rw [hgrown.first, hgrown.second]
    simp only [hmem]
    by_cases hk : k = m.first x
    · subst hk
      rw [Finmap.lookup_insert]
      constructor
      · intro hv
        exact ⟨x, .inl rfl, rfl, Option.some.inj hv⟩
      · rintro ⟨a, rfl | ha, heq, rfl⟩
        · rfl
        · exact absurd heq (hx a ha)
    · rw [Finmap.lookup_insert_of_ne _ hk, h.lookup k v]
      constructor
      · rintro ⟨a, ha, hak, hav⟩
        exact ⟨a, .inr ha, hak, hav⟩
      · rintro ⟨a, rfl | ha, hak, hav⟩
        · exact absurd hak.symm hk
        · exact ⟨a, ha, hak, hav⟩

/-! ### Deletion -/

theorem Rep.erased (h : m.Rep T d) (hT : m'.Holds T') (hshrunk : Shrunk m m') {L R : List Nat}
    (hlist : T.toList = L ++ a :: R) (hlist' : T'.toList = L ++ R) :
    (m'.free a).Rep T' (d.erase (m.first a)) := by
  have hkeys := h.ascending.nodup
  rw [hlist, List.map_append, List.map_cons, List.nodup_middle, List.nodup_cons,
    ← List.map_append, ← hlist'] at hkeys
  have hne : ∀ b ∈ T'.toList, m.first b ≠ m.first a :=
    fun b hb heq => hkeys.1 (heq ▸ List.mem_map_of_mem hb)
  have hmem : ∀ b, b ∈ T.toList ↔ b = a ∨ b ∈ T'.toList := fun b => by
    rw [hlist, hlist']
    simp only [List.mem_append, List.mem_cons]
    tauto
  refine ⟨hT.free fun hin => hne a hin rfl, ?_, ?_, fun k v => ?_⟩
  · have hsub : T'.toList.Sublist T.toList := by
      rw [hlist, hlist']
      exact (List.sublist_cons_self a R).append_left L
    show T'.toList.Pairwise fun b c => m'.first b < m'.first c
    rw [hshrunk.first]
    exact h.ascending.sublist hsub
  · have hlen : T.size = T'.size + 1 := by
      rw [← length_toList, ← length_toList, hlist, hlist', List.length_append,
        List.length_append, List.length_cons]
      rfl
    show m'.size = _
    rw [hshrunk.size, h.size, hlen, wrapInt_pred]
  · show _ ↔ ∃ b ∈ T'.toList, m'.first b = k ∧ m'.second b = v
    rw [hshrunk.first, hshrunk.second]
    by_cases hk : k = m.first a
    · subst hk
      rw [Finmap.lookup_erase]
      constructor
      · exact nofun
      · rintro ⟨b, hb, heq, -⟩
        exact absurd heq (hne b hb)
    · rw [Finmap.lookup_erase_ne hk, h.lookup k v]
      simp only [hmem]
      constructor
      · rintro ⟨b, rfl | hb, hbk, hbv⟩
        · exact absurd hbk.symm hk
        · exact ⟨b, hb, hbk, hbv⟩
      · rintro ⟨b, hb, hbk, hbv⟩
        exact ⟨b, .inr hb, hbk, hbv⟩

/-! ### The calls -/

/-- What a call does to the map, by what it does to the `Dict`. -/
def Refines (m : HpMap K V) (d : Dict K V) (op : Op K V) : Prop :=
  ∃ m' T', m.exec op = some (m', (d.exec op).2) ∧ m'.Rep T' (d.exec op).1

theorem Rep.insert_cases (h : m.Rep T d) (k : K) (v : V) (ha : a ∉ m.live) :
    (k ∈ d ∧ ∃ m', m.exec (.insert k v (some a)) = some (m', ⟨some (-1), none⟩) ∧ m'.Holds T ∧
      Kept (m.allocate a k v) m') ∨
    (k ∉ d ∧ ∃ m' T', m.exec (.insert k v (some a)) = some (m', ⟨some 0, none⟩) ∧
      m'.Rep T' (d.insert k v) ∧
      m'.live = a :: m.live) := by
  have halloc := h.allocate (k := k) (v := v) ha
  have hfirst : (m.allocate a k v).first a = k := Function.update_self ..
  have hsecond : (m.allocate a k v).second a = v := Function.update_self ..
  have hrun : m.exec (.insert k v (some a)) = ((m.allocate a k v).myRbInsert a).map fun r =>
      (r.1, ⟨some r.2, none⟩) := rfl
  rw [hrun]
  rcases halloc.holds.myRbInsert List.mem_cons_self (h.holds.notMem ha) halloc.ascending with
    ⟨⟨b, hb, heq⟩, m', hins, hholds, hkept⟩ | ⟨hne, m', T', hins, hholds, hgrown, hinserted⟩
  · rw [hins]
    exact .inl ⟨mem_of_lookup ((halloc.lookup k _).2 ⟨b, hb, heq.trans hfirst, rfl⟩), m', rfl,
      hholds, hkept⟩
  · rw [hins]
    have hk : k ∉ d := fun hin => by
      obtain ⟨w, hw⟩ := Finmap.mem_iff.1 hin
      obtain ⟨b, hb, heq, -⟩ := (halloc.lookup k w).1 hw
      exact hne b hb (heq.trans hfirst.symm)
    have hrep := halloc.inserted hholds hgrown hinserted hne
    rw [hfirst, hsecond] at hrep
    exact .inr ⟨hk, m', T', rfl, hrep, hgrown.live⟩

/-- A key that is there keeps its entry, and the tree stays as it is. -/
theorem Rep.insert_present (h : m.Rep T d) (hk : k ∈ d) {p : Option Nat}
    (hfresh : m.Fresh (.insert k v p)) :
    ∃ m', m.exec (.insert k v p) = some (m', ⟨some (-1), none⟩) ∧ m'.Rep T d ∧ m.Unchanged m' := by
  cases p with
  | none => exact ⟨m, rfl, h, rfl, rfl, fun a _ => ⟨.refl m a, rfl, rfl⟩⟩
  | some x =>
    have hx : x ∉ m.live := hfresh
    rcases h.insert_cases k v hx with ⟨-, m', hrun, hholds, hkept⟩ | ⟨hnot, -⟩
    · have hne : ∀ a ∈ T.toList, a ≠ x := by
        rintro a ha rfl
        exact h.holds.notMem hx ha
      have hfirst : ∀ a ∈ T.toList, m'.first a = m.first a := fun a ha => by
        rw [hkept.first]
        exact Function.update_of_ne (hne a ha) ..
      have hsecond : ∀ a ∈ T.toList, m'.second a = m.second a := fun a ha => by
        rw [hkept.second]
        exact Function.update_of_ne (hne a ha) ..
      have hsize : m'.size = m.size := hkept.size
      have hroot : m'.rbNode = m.rbNode := Eq.trans hholds.view.around (Eq.symm h.holds.view.around)
      refine ⟨m', hrun, h.congr hholds hsize hfirst hsecond, hroot, hsize, fun a ha => ?_⟩
      have hin : a ∈ T.toList := h.holds.inTree_iff.1 ha
      exact ⟨h.holds.view.shape.same hholds.view.shape a hin, hfirst a hin, hsecond a hin⟩
    · exact absurd hk hnot

theorem Rep.insert (h : m.Rep T d) (k : K) (v : V) (p : Option Nat) (hfresh : m.Fresh (.insert k v p)) :
    m.Refines d (.insert k v p) := by
  by_cases hk : k ∈ d
  · obtain ⟨m', hrun, hrep, -⟩ := h.insert_present hk hfresh
    have hexec : d.exec (.insert k v p) = (d, ⟨some (-1), none⟩) := if_pos (.inl hk)
    rw [Refines, hexec]
    exact ⟨m', T, hrun, hrep⟩
  · cases p with
    | none =>
      have hexec : d.exec (.insert k v none) = (d, ⟨some (-1), none⟩) := if_pos (.inr rfl)
      rw [Refines, hexec]
      exact ⟨m, T, rfl, h⟩
    | some a =>
      rcases h.insert_cases k v hfresh with ⟨hin, -⟩ | ⟨-, m', T', hrun, hrep, -⟩
      · exact absurd hin hk
      · have hexec : d.exec (.insert k v (some a)) = (d.insert k v, ⟨some 0, none⟩) :=
          if_neg fun hor => hor.elim hk nofun
        rw [Refines, hexec]
        exact ⟨m', T', hrun, hrep⟩

theorem Rep.find (h : m.Rep T d) (k : K) : m.Refines d (.find k) := by
  rcases h.find_cases k with ⟨a, ha, hk, hrun, hlookup⟩ | ⟨hne, hrun, hlookup⟩
  · have hexec : d.exec (.find k) = (d, ⟨some 0, some (m.second a)⟩) := by
      rw [Dict.exec, hlookup, if_pos (mem_of_lookup hlookup)]
    rw [Refines, hexec]
    refine ⟨m, T, ?_, h⟩
    rw [HpMap.exec, HpMap.find, hrun]
    rfl
  · have hexec : d.exec (.find k) = (d, ⟨some (-1), none⟩) := by
      rw [Dict.exec, hlookup, if_neg (notMem_of_lookup hlookup)]
    rw [Refines, hexec]
    refine ⟨m, T, ?_, h⟩
    rw [HpMap.exec, HpMap.find, hrun]
    rfl

theorem erase_of_notMem (h : k ∉ d) : d.erase k = d := by
  refine Finmap.ext_lookup fun k' => ?_
  by_cases hk : k' = k
  · rw [hk, Finmap.lookup_erase, Finmap.lookup_eq_none.2 h]
  · rw [Finmap.lookup_erase_ne hk]

theorem Rep.findAndDel (h : m.Rep T d) (k : K) : m.Refines d (.findAndDel k) := by
  rcases h.find_cases k with ⟨a, ha, rfl, hrun, hlookup⟩ | ⟨hne, hrun, hlookup⟩
  · obtain ⟨m', T', L, R, herase, hholds, hshrunk, hlist, hlist'⟩ := h.holds.rbErase ha
    have hexec : d.exec (.findAndDel (m.first a)) =
        (d.erase (m.first a), ⟨some 0, some (m.second a)⟩) := by
      rw [Dict.exec, hlookup, if_pos (mem_of_lookup hlookup)]
    rw [Refines, hexec]
    refine ⟨m'.free a, T', ?_, h.erased hholds hshrunk hlist hlist'⟩
    rw [HpMap.exec, HpMap.findAndDel, hrun, Option.bind_some]
    simp only [herase, Option.map_some]
  · have hexec : d.exec (.findAndDel k) = (d, ⟨some (-1), none⟩) := by
      rw [Dict.exec, hlookup, if_neg (notMem_of_lookup hlookup),
        erase_of_notMem (notMem_of_lookup hlookup)]
    rw [Refines, hexec]
    refine ⟨m, T, ?_, h⟩
    rw [HpMap.exec, HpMap.findAndDel, hrun]
    rfl

theorem Rep.erase (h : m.Rep T d) (k : K) : m.Refines d (.erase k) := by
  obtain ⟨m', T', hrun, hrep⟩ := h.findAndDel k
  refine ⟨m', T', ?_, hrep⟩
  have hdel : m.findAndDel k = some (m', (d.exec (.findAndDel k)).2) := hrun
  rw [HpMap.exec, HpMap.erase, hdel]
  rfl

theorem Rep.change (h : m.Rep T d) (k : K) (v : V) : m.Refines d (.change k v) := by
  rcases h.find_cases k with ⟨a, ha, rfl, hrun, hlookup⟩ | ⟨hne, hrun, hlookup⟩
  · have hexec : d.exec (.change (m.first a) v) = (d.insert (m.first a) v, ⟨some 0, none⟩) :=
      if_pos (mem_of_lookup hlookup)
    rw [Refines, hexec]
    refine ⟨{ m with second := Function.update m.second a v }, T, ?_, ?_,
      h.ascending, h.size, fun k w => ?_⟩
    · rw [HpMap.exec, HpMap.change, hrun]
      rfl
    · exact ⟨⟨h.holds.view.around, h.holds.view.shape.congr fun _ _ =>
        ⟨id, rfl, rfl, fun _ => rfl, rfl⟩, h.holds.view.nodup⟩, h.holds.balanced, h.holds.isBlack⟩
    · have hinj := List.inj_on_of_nodup_map h.ascending.nodup
      by_cases hk : k = m.first a
      · subst hk
        rw [Finmap.lookup_insert]
        constructor
        · intro hw
          exact ⟨a, ha, rfl, (Function.update_self ..).trans (Option.some.inj hw)⟩
        · rintro ⟨b, hb, heq, hw⟩
          obtain rfl : b = a := hinj hb ha heq
          exact congrArg some ((Function.update_self b v m.second).symm.trans hw)
      · rw [Finmap.lookup_insert_of_ne _ hk, h.lookup k w]
        refine exists_congr fun b => and_congr_right fun hb => and_congr_right fun hbk => ?_
        have hba : b ≠ a := by
          rintro rfl
          exact hk hbk.symm
        show _ ↔ Function.update m.second a v b = w
        rw [Function.update_of_ne hba]
  · have hexec : d.exec (.change k v) = (d, ⟨some (-1), none⟩) := if_neg (notMem_of_lookup hlookup)
    rw [Refines, hexec]
    refine ⟨m, T, ?_, h⟩
    rw [HpMap.exec, HpMap.change, hrun]
    rfl

theorem IsEmpty.rep (h : m.IsEmpty) : m.Rep nil ∅ := by
  refine ⟨⟨⟨h.rbNode, trivial, List.nodup_nil⟩, ⟨0, .nil⟩, trivial⟩,
    List.Pairwise.nil, ?_, fun k v => ?_⟩
  · rw [h.size]
    exact wrapInt_zero.symm
  · rw [Finmap.lookup_empty]
    constructor
    · exact nofun
    · rintro ⟨a, ha, -⟩
      exact absurd ha List.not_mem_nil

theorem Rep.exec (h : m.Rep T d) {op : Op K V} (hfresh : m.Fresh op) : m.Refines d op := by
  cases op with
  | insert k v p => exact h.insert k v p hfresh
  | find k => exact h.find k
  | findAndDel k => exact h.findAndDel k
  | erase k => exact h.erase k
  | change k v => exact h.change k v
  | clear => exact ⟨m.clear, nil, rfl, IsEmpty.rep ⟨rfl, rfl, rfl⟩⟩
  | size =>
    refine ⟨m, T, ?_, h⟩
    rw [HpMap.exec, h.size, ← h.card_keys]
    rfl

theorem Rep.runOps {ops : List (Op K V)} (h : m.Rep T d) (hfresh : (machine K V).Along Fresh m ops) :
    ∃ m' T', m.runOps ops = some (m', (d.run ops).2) ∧ m'.Rep T' (d.run ops).1 := by
  induction ops generalizing m T d with
  | nil => exact ⟨m, T, rfl, h⟩
  | cons op ops ih =>
    obtain ⟨hop, hrest⟩ := hfresh
    obtain ⟨m₁, T₁, hexec, hrep⟩ := h.exec hop
    have hstep : (machine K V).step m op = some m₁ := by
      show (m.exec op).map Prod.fst = some m₁
      rw [hexec]
      rfl
    obtain ⟨m', T', hrun, hrep'⟩ := ih hrep (hrest m₁ hstep)
    refine ⟨m', T', ?_, hrep'⟩
    rw [HpMap.runOps, hexec, Option.bind_some, hrun]
    rfl

/-- The map refines the finite map: the calls give back what the finite map says, and the insertion
of a key that is there changes nothing. -/
theorem refines_dict {ops : List (Op K V)} (hempty : m.IsEmpty)
    (hfresh : (machine K V).Along Fresh m ops) :
    ∃ m', m.runOps ops = some (m', (Dict.run ∅ ops).2) ∧
      ∀ k v p, k ∈ (Dict.run ∅ ops).1 → m'.Fresh (.insert k v p) →
        ∃ m'', m'.exec (.insert k v p) = some (m'', ⟨some (-1), none⟩) ∧ m'.Unchanged m'' := by
  obtain ⟨m', T, hrun, hrep⟩ := hempty.rep.runOps hfresh
  refine ⟨m', hrun, fun k v p hk hp => ?_⟩
  obtain ⟨m'', hexec, -, hunchanged⟩ := hrep.insert_present hk hp
  exact ⟨m'', hexec, hunchanged⟩

/-- A map with nothing in it. -/
def blank : HpMap Nat Nat where
  first _ := 0
  second _ := 0
  rbParent _ := none
  rbColor _ := .red
  rbChild _ _ := none
  weight _ := 0
  rbNode := none
  size := 0
  live := []

def fiveOps : List (Op Nat Nat) := [.insert 5 7 (some 0), .insert 5 8 none, .find 5, .erase 5, .size]

theorem refines_dict_five :
    ∃ m', blank.runOps fiveOps = some (m', [⟨some 0, none⟩, ⟨some (-1), none⟩, ⟨some 0, some 7⟩,
      ⟨some 0, none⟩, ⟨some 0, none⟩]) := by
  have hfresh : (machine Nat Nat).Along Fresh blank fiveOps :=
    ⟨nofun, fun _ _ => ⟨trivial, fun _ _ =>
      ⟨trivial, fun _ _ => ⟨trivial, fun _ _ => ⟨trivial, fun _ _ => trivial⟩⟩⟩⟩⟩
  obtain ⟨m', hrun, -⟩ := refines_dict ⟨rfl, rfl, rfl⟩ hfresh
  have hanswers : (Dict.run ∅ fiveOps).2 =
    [⟨some 0, none⟩, ⟨some (-1), none⟩, ⟨some 0, some 7⟩, ⟨some 0, none⟩, ⟨some 0, none⟩] := by
      decide +kernel
  exact ⟨m', hanswers ▸ hrun⟩

/-- Where the pool has no node left, the insertion of a new key is refused. -/
theorem exists_insert_refused :
    ¬ ∀ (ops : List (Op Nat Nat)) (k v : Nat) (p : Option Nat) (m' : HpMap Nat Nat)
      (answers : List (Answer Nat)), (machine Nat Nat).Along Fresh blank ops →
      blank.runOps ops = some (m', answers) →
      m'.Fresh (.insert k v p) → k ∉ (Dict.run ∅ ops).1 →
      ∃ m'', m'.exec (.insert k v p) = some (m'', ⟨some 0, none⟩) := by
  intro hall
  obtain ⟨m'', hrun⟩ := hall [] 5 7 none blank [] trivial rfl trivial Finmap.notMem_empty
  cases hrun

end HpMap

end Resend.Udp

import Resend.Udp.RbErase

/-!
# The tree in order

What the searches and the walks of the map find: `my_rb_find` and `select` on the way down,
`rb_first` and `rb_last` at the ends, and `rb_next` and `rb_prev`, which also go up.
-/

namespace Resend.Udp

namespace HpMap
open ColorTree
variable {K V : Type} {m m' : HpMap K V} {s : Side} {a b x y : Nat} {c : Color} {q : Option Nat}
  {t u l r T : ColorTree Nat} {ctx ctx' : List (Frame Nat)} {f : Frame Nat} {fuel n : Nat}

section keys
variable [LinearOrder K]

theorem Shape.findFrom (h : m.Shape q t) (hasc : m.Ascending t.toList) (key : K) (hle : t.size ≤ fuel) :
    m.findFrom key fuel t.root = some (t.toList.find? fun a => m.first a = key) := by
  induction t generalizing q fuel with
  | nil => cases fuel <;> rfl
  | node c l a r ihl ihr =>
    have hsize : l.size + r.size + 1 ≤ fuel := hle
    obtain ⟨fuel, rfl⟩ : ∃ k, fuel = k + 1 := ⟨fuel - 1, by omega⟩
    rw [Ascending, toList, List.pairwise_append, List.pairwise_cons] at hasc
    obtain ⟨hl, ⟨har, hr⟩, hlr⟩ := hasc
    have hla : ∀ b ∈ l.toList, m.first b < m.first a := fun b hb => hlr b hb a List.mem_cons_self
    obtain ⟨hat, hshl, hshr⟩ := h
    have hrun : m.findFrom key (fuel + 1) (some a) =
      if cmp key (m.first a) < 0 then m.findFrom key fuel l.root
        else if 0 < cmp key (m.first a) then m.findFrom key fuel r.root else some (some a) := by
      rw [HpMap.findFrom, hat.deref, Option.bind_some, show m.rbChild .left a = l.root from hat.child,
        show m.rbChild .right a = r.root from hat.other]
    rw [root, hrun, toList, List.find?_append, List.find?_cons]
    have hnone : ∀ {as : List Nat}, (∀ b ∈ as, m.first b ≠ key) →
        (as.find? fun b => m.first b = key) = none := fun hne =>
      List.find?_eq_none.2 fun b hb heq => hne b hb (of_decide_eq_true heq)
    rcases lt_trichotomy key (m.first a) with hlt | rfl | hgt
    · rw [if_pos (cmp_neg_iff.2 hlt), ihl hshl hl (by omega),
        hnone fun b hb => (hlt.trans (har b hb)).ne', decide_eq_false hlt.ne']
      exact (Option.or_none ..).symm ▸ rfl
    · rw [if_neg fun hc => lt_irrefl _ (cmp_neg_iff.1 hc),
        if_neg fun hc => lt_irrefl _ (cmp_pos_iff.1 hc), hnone fun b hb =>
          (hla b hb).ne, decide_eq_true rfl]
      rfl
    · have hpos := cmp_pos_iff.2 hgt
      rw [if_neg (lt_asymm hpos), if_pos hpos, ihr hshr hr (by omega),
        hnone fun b hb => ((hla b hb).trans hgt).ne, decide_eq_false hgt.ne]
      rfl

theorem Holds.myRbFind (h : m.Holds T) (hasc : m.Ascending T.toList) (key : K) :
    m.myRbFind key = some (T.toList.find? fun a => m.first a = key) := by
  have hlen : T.size + 0 ≤ m.live.length := h.view.length_le
  have hroot : m.rbNode = T.root := h.view.around
  rw [HpMap.myRbFind, hroot]
  exact h.view.shape.findFrom hasc key (hlen.trans (Nat.le_succ _))

end keys

theorem wrapInt_of_lt (h : n < 2 ^ 31) : wrapInt n = n := by
  rw [wrapInt, Int.bmod_eq_of_le] <;> omega

theorem Shape.selectFrom (h : m.Shape q t) (hlt : t.size < 2 ^ 31) (hn : n < t.size)
    (hle : t.size ≤ fuel) :
    m.selectFrom fuel (n + 1 : Nat) t.root = some t.toList[n]? := by
  induction t generalizing q n fuel with
  | nil => exact absurd hn (Nat.not_lt_zero _)
  | node c l a r ihl ihr =>
    rw [ColorTree.size] at hlt hn hle
    obtain ⟨fuel, rfl⟩ : ∃ k, fuel = k + 1 := ⟨fuel - 1, by omega⟩
    obtain ⟨hat, hshl, hshr⟩ := h
    have hsum : wrapInt (wrapInt l.size + 1) = (l.size + 1 : Nat) := by
      rw [wrapInt_succ, wrapInt_of_lt (by omega)]
    have hrun : m.selectFrom (fuel + 1) (n + 1 : Nat) (some a) = if (l.size + 1 : Nat) =
      ((n + 1 : Nat) : Int) then some (some a)
        else if ((n + 1 : Nat) : Int) < (l.size + 1 : Nat) then m.selectFrom fuel (n + 1 : Nat) l.root
        else m.selectFrom fuel (wrapInt ((n + 1 : Nat) - (l.size + 1 : Nat))) r.root := by
      rw [HpMap.selectFrom, hat.deref, Option.bind_some,
        show m.rbChild .left a = l.root from hat.child, hshl.weightOf, Option.bind_some,
        show m.rbChild .right a = r.root from hat.other, hsum]
    rw [root, hrun, toList]
    rcases Nat.lt_trichotomy n l.size with hlt' | rfl | hgt
    · rw [if_neg (by omega), if_pos (by omega), ihl hshl (by omega) hlt' (by omega),
        List.getElem?_append_left]
      rw [length_toList]
      exact hlt'
    · rw [if_pos rfl, List.getElem?_append_right (length_toList l).le, length_toList, Nat.sub_self]
      rfl
    · obtain ⟨k, rfl⟩ := Nat.exists_eq_add_of_lt hgt
      have horder : wrapInt ((l.size + k + 1 + 1 : Nat) - (l.size + 1 : Nat)) = (k + 1 : Nat) := by
        rw [← wrapInt_of_lt (n := k + 1) (by omega)]
        refine wrapInt_congr (k := 0) ?_
        push_cast
        omega
      rw [if_neg (by omega), if_neg (by omega), horder, ihr hshr (by omega) (by omega) (by omega),
        List.getElem?_append_right (by rw [length_toList]; omega), length_toList,
        show l.size + k + 1 - l.size = k + 1 by omega]
      rfl

theorem Holds.select (h : m.Holds T) (hsize : m.size = T.size) (hlt : T.size < 2 ^ 31)
    (hn : n < T.size) :
    m.select (n + 1 : Nat) = some T.toList[n]? := by
  have hlen : T.size + 0 ≤ m.live.length := h.view.length_le
  have hroot : m.rbNode = T.root := h.view.around
  rw [HpMap.select, if_neg (by omega), hroot]
  exact h.view.shape.selectFrom hlt hn (hlen.trans (Nat.le_succ _))

/-! ### Neighbours -/

theorem Shape.descend_eq (h : m.Shape q t) (ha : t.root = some a) (hlt : t.size < fuel) :
    ∃ y as, m.descend s fuel a = some y ∧ along s.opp t.toList = y :: as := by
  have hne : t ≠ nil := by
    rintro rfl
    cases ha
  obtain ⟨ctx, c, y, u, rfl, hspine⟩ := exists_spine s hne
  have hlen : ctx.length < fuel := by
    refine Nat.lt_of_le_of_lt ?_ hlt
    rw [← length_toList, perm_plug.length_eq, List.length_append]
    exact (length_le_elems ctx).trans (Nat.le_add_left _ _)
  obtain ⟨as, has⟩ := along_spine hspine
  exact ⟨y, as, h.descend hspine ha hlen, has⟩

/-- The climb from a node whose side `s` has been seen. -/
theorem View.climb (h : m.View ctx t) (ha : t.root = some a) (hlt : ctx.length < fuel) :
    m.climb s fuel a = some (beyond s ctx).head? := by
  induction ctx generalizing t a fuel with
  | nil =>
    obtain ⟨fuel, rfl⟩ := Nat.exists_eq_add_of_lt hlt
    have hparent : m.rbParent a = none := h.parent_root ha
    rw [HpMap.climb, if_pos hparent]
    cases s <;> rfl
  | cons f ctx ih =>
    obtain ⟨fuel, rfl⟩ : ∃ k, fuel = k + 1 := ⟨fuel - 1, by omega⟩
    have hat := h.at_frame
    have hparent : m.rbParent a = some f.elem := h.parent_root ha
    rw [HpMap.climb, hparent, if_neg nofun, hat.deref, Option.bind_some]
    rcases Side.eq_or_opp s f.side with hside | hside
    · rw [beyond_same hside, if_pos (by rw [← hside, hat.child, ha])]
      exact ih (view_cons.1 h) root_join (Nat.lt_of_succ_lt_succ hlt)
    · have hother : m.rbChild s f.elem = f.sib.root := by
        rw [← Side.opp_opp s, ← hside]
        exact hat.other
      rw [beyond_opp hside, if_neg (hother.trans_ne (h.sib_root_ne ha))]
      rfl

theorem View.neighbour (h : m.View ctx (join s c t x u)) :
    m.neighbour s x = some (along s t.toList ++ beyond s ctx).head? := by
  obtain ⟨hat, hsht, -⟩ := shape_join.1 h.shape
  have hlen := h.length_le
  rw [size_join] at hlen
  rw [HpMap.neighbour, hat.child]
  by_cases ht : t = nil
  · subst ht
    have hnil : along s ([] : List Nat) = [] := by cases s <;> rfl
    rw [toList, hnil, root, if_pos rfl, h.climb root_join (by rw [HpMap.fuel]; omega)]
    rfl
  · obtain ⟨d, l, a, r, hjoin⟩ := exists_join .left ht
    have hroot : t.root = some a := by rw [hjoin, root_join]
    have hlt : t.size < m.fuel := by
      rw [HpMap.fuel]
      omega
    obtain ⟨y, as, hdescend, halong⟩ := hsht.descend_eq (s := s.opp) hroot hlt
    rw [Side.opp_opp] at halong
    rw [hroot, if_neg (Option.some_ne_none _),
      deref_of_live (hsht.live a (mem_toList_of_root hroot)), Option.bind_some, hdescend, halong]
    rfl

theorem Holds.neighbour {as bs : List Nat} (h : m.Holds T) (hlist : along s T.toList = as ++ x :: bs) :
    m.neighbour s x = some bs.head? := by
  have hx : x ∈ T.toList := by
    rw [← mem_along (s := s), hlist]
    exact List.mem_append_right _ List.mem_cons_self
  obtain ⟨ctx, c, l, r, rfl⟩ := exists_plug_of_mem hx
  have hview : m.View ctx (node c l x r) := List.append_nil ctx ▸ view_plug.2 h.view
  obtain ⟨d, t, y, u, hjoin⟩ := exists_join s (t := node c l x r) nofun
  obtain rfl : x = y := Option.some.inj ((congrArg root hjoin).trans root_join)
  have hnodup : (as ++ x :: bs).Nodup := by
    rw [← hlist]
    have htoList := (List.nodup_append'.1 h.view.nodup).1
    cases s with
    | left => exact List.nodup_reverse.2 htoList
    | right => exact htoList
  rw [hjoin, along_plug, along_join, List.append_assoc, List.append_assoc, List.cons_append,
    ← List.append_assoc] at hlist
  rw [hjoin] at hview
  rw [List.nodup_append', List.nodup_cons, List.disjoint_cons_right] at hnodup
  obtain ⟨-, ⟨hxbs, -⟩, hxas, -⟩ := hnodup
  obtain ⟨-, -, hbs⟩ := (List.append_cons_inj_of_notMem hxas hxbs).1 hlist.symm
  rw [hview.neighbour, hbs]

theorem Holds.rbEnd (h : m.Holds T) : m.rbEnd s m.rbNode = some (along s.opp T.toList).head? := by
  have hlen : T.size + 0 ≤ m.live.length := h.view.length_le
  have hroot : m.rbNode = T.root := h.view.around
  rw [HpMap.rbEnd, hroot]
  by_cases hT : T = nil
  · subst hT
    cases s <;> rfl
  · obtain ⟨c, l, a, r, hjoin⟩ := exists_join .left hT
    have ha : T.root = some a := by rw [hjoin, root_join]
    have hlt : T.size < m.fuel := Nat.lt_succ_of_le hlen
    obtain ⟨y, as, hdescend, halong⟩ := h.view.shape.descend_eq (s := s) ha hlt
    rw [ha, if_neg nofun, deref_of_live (h.view.shape.live a (mem_toList_of_root ha)),
      Option.bind_some, hdescend, halong]
    rfl

/-! ### Walks -/

/-- The nodes that an iterator meets until it is null, where `next` is its step. -/
def visits (next : Iterator → Option Iterator) : Nat → Iterator → Option (List Nat)
  | 0, it => if it.currentNode = none then some [] else none
  | fuel + 1, it =>
    match it.currentNode with
    | none => some []
    | some a => (next it).bind fun it' => (visits next fuel it').map (a :: ·)

/-- An iterator that steps to side `s` meets what is on that side. -/
theorem Holds.visits {next : Iterator → Option Iterator} {as bs : List Nat} {it : Iterator}
    (h : m.Holds T)
    (hnext : ∀ it a, it.currentNode = some a →
      next it = (m.neighbour s a).map fun p => { it with currentNode := p })
    (hlist : along s T.toList = as ++ bs) (hit : it.currentNode = bs.head?) (hle : bs.length ≤ fuel) :
    visits next fuel it = some bs := by
  induction bs generalizing as it fuel with
  | nil => cases fuel <;> simp only [HpMap.visits, hit, List.head?_nil, if_true]
  | cons b bs ih =>
    obtain ⟨fuel, rfl⟩ : ∃ k, fuel = k + 1 := ⟨fuel - 1, by rw [List.length_cons] at hle; omega⟩
    have hb : it.currentNode = some b := hit
    have hstep : next it = some { it with currentNode := bs.head? } := by
      rw [hnext it b hb, h.neighbour hlist]
      rfl
    have hrest : HpMap.visits next fuel { it with currentNode := bs.head? } = some bs :=
      ih (hlist.trans (List.append_cons as b bs)) rfl (Nat.le_of_succ_le_succ hle)
    simp only [HpMap.visits, hb, hstep, Option.bind_some, hrest, Option.map_some]

theorem Holds.length_le (h : m.Holds T) : T.toList.length ≤ m.fuel := by
  have hlen : T.size + 0 ≤ m.live.length := h.view.length_le
  rw [length_toList]
  exact hlen.trans (Nat.le_succ _)

theorem Holds.visits_begin (h : m.Holds T) :
    m.begin.bind (HpMap.visits (·.incr m) m.fuel) = some T.toList := by
  have hbegin : m.begin = some ⟨T.toList.head?, m.rbNode⟩ := by
    rw [begin, rbFirst, h.rbEnd]
    rfl
  rw [hbegin, Option.bind_some]
  have hlist : along .right T.toList = [] ++ T.toList := rfl
  refine h.visits (fun it a ha => ?_) hlist rfl h.length_le
  simp only [Iterator.incr, ha]
  rfl

theorem Holds.visits_end (h : m.Holds T) :
    (m.end_.decr m).bind (HpMap.visits (·.decr m) m.fuel) = some T.toList.reverse := by
  have hend : m.end_.decr m = some ⟨T.toList.reverse.head?, m.rbNode⟩ := by
    show (m.rbEnd .right m.rbNode).map _ = _
    rw [h.rbEnd]
    rfl
  rw [hend, Option.bind_some]
  have hlist : along .left T.toList = [] ++ T.toList.reverse := rfl
  refine h.visits (fun it a ha => ?_) hlist rfl (List.length_reverse.trans_le h.length_le)
  simp only [Iterator.decr, ha]
  rfl

/-- `rb_prev` takes back what `rb_next` does. -/
theorem Holds.rbPrev (h : m.Holds T) (ha : a ∈ T.toList) (hnext : m.rbNext a = some (some b)) :
    m.rbPrev b = some (some a) := by
  obtain ⟨as, bs, hsplit⟩ := List.append_of_mem ha
  have hright : m.rbNext a = some bs.head? := h.neighbour (s := .right) hsplit
  obtain ⟨bs, rfl⟩ : ∃ cs, bs = b :: cs := by
    cases bs with
    | nil => cases hright.symm.trans hnext
    | cons c cs =>
      cases hright.symm.trans hnext
      exact ⟨cs, rfl⟩
  have hreverse : along .left T.toList = bs.reverse ++ b :: a :: as.reverse := by
    rw [along, hsplit]
    simp
  exact h.neighbour (s := .left) hreverse

end HpMap

end Resend.Udp

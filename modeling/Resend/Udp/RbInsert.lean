import Resend.Udp.RbShape

/-!
# Insertion

`rb_insert_color` makes a tree with one red node too many balanced again, and `my_rb_insert` puts a
node where its key belongs, or takes back what it did on the way down.
-/

namespace Resend.Udp

namespace HpMap
open ColorTree
variable {K V : Type} {m m' : HpMap K V} {s : Side} {a b x y : Nat} {c c' : Color}
  {t t' u l r T : ColorTree Nat} {ctx ctx' : List (Frame Nat)} {f g : Frame Nat} {n k : Nat}

/-- The nodes are a tree as it should be: balanced, and with a black node on top. -/
structure Holds (m : HpMap K V) (T : ColorTree Nat) : Prop where
  view : m.View [] T
  balanced : ∃ n, Balanced T n
  isBlack : T.IsBlack

theorem View.blacken (h : m.View [] (join s c t a u)) :
    ∃ m', m.blacken = some m' ∧ m'.View [] (join s .black t a u) ∧ Kept m m' := by
  have hroot : m.rbNode = some a := h.around.trans root_join
  refine ⟨_, ?_, h.setColor .black, kept_setColor m a .black⟩
  rw [HpMap.blacken, hroot, h.at_join.deref]
  rfl

theorem View.parent_root (h : m.View ctx t) (ht : t.root = some a) : m.rbParent a = top ctx := by
  cases t with
  | nil => cases ht
  | node c l b r =>
    cases ht
    exact h.shape.1.parent

theorem At.side_eq {q p p' : Option Nat} {w : Int} (h : m.At s a q c p p' w) (hp : p' ≠ p) :
    (if m.rbChild .left a = p then Side.left else .right) = s := by
  cases s with
  | left => exact if_pos h.child
  | right => exact if_neg (h.other.trans_ne hp)

theorem View.sib_root_ne (h : m.View (f :: ctx) t) (ht : t.root = some a) : f.sib.root ≠ some a := by
  intro hsib
  have hdisj := (List.nodup_append'.1 h.nodup).2.2
  refine hdisj (mem_toList_of_root ht) ?_
  rw [elems_cons, List.cons_append]
  exact List.mem_cons_of_mem _ (List.mem_append_left _ (mem_toList_of_root hsib))

theorem View.at_frame (h : m.View (f :: ctx) t) :
    m.At f.side f.elem (top ctx) f.color t.root f.sib.root (wrapInt (t.size + f.sib.size + 1 : Nat)) :=
  (view_cons.1 h).at_join

theorem View.setColor_sib {s' : Side} (h : m.View (⟨s, c, x, join s' c' l b r⟩ :: ctx) t) (d : Color) :
    (m.setColor b d).View (⟨s, c, x, join s' d l b r⟩ :: ctx) t := by
  exact view_sib.2 ((view_sib.1 h).setColor d)

theorem View.setColor_frame (h : m.View (⟨s, c, x, u⟩ :: ctx) t) (d : Color) :
    (m.setColor x d).View (⟨s, d, x, u⟩ :: ctx) t :=
  view_cons.2 ((view_cons.1 h).setColor d)

/-! ### The turns of `rb_insert_color` -/

/-- A red uncle: the colours move up. -/
theorem View.insertTurn_red {s' s'' : Side} {y z : Nat} {v : ColorTree Nat}
    (h : m.View (⟨s', .red, x, v⟩ :: ⟨s, .black, y, join s'' .red l z r⟩ :: ctx) t) (node : Nat) :
    ∃ m', m.insertTurn s node x y = some (m', y) ∧ Kept m m' ∧
      m'.View ctx (join s .red (join s' .black t x v) y (join s'' .black l z r)) := by
  have h₁ := view_cons.1 h
  obtain ⟨hat, hsib, -⟩ := h₁.around
  have hred := hsib.isRed_of_red
  have hz : (join s'' .red l z r).root = some z := root_join
  have h₂ := h₁.setColor_sib .black
  refine ⟨((m.setColor z .black).setColor x .black).setColor y .red, ?_, ⟨rfl, rfl, rfl, rfl⟩, ?_⟩
  · have hother : m.rbChild s.opp y = some z := hat.other.trans hz
    have hderef : m.deref (some z) = some z := (shape_join.1 hsib).1.deref
    have hpaint : m.paint (some z) .black = some (m.setColor z .black) := by
      rw [HpMap.paint, if_neg nofun, hderef]
      rfl
    simp only [HpMap.insertTurn, hother, hred, hpaint, Option.bind_eq_bind, Option.bind_some, if_true]
    rfl
  · exact view_cons.1 ((h₂.setColor .black).setColor_frame .red)

theorem View.rotate_up {v w : ColorTree Nat}
    (h : m.View (⟨s, .red, x, v⟩ :: ⟨s, .black, y, w⟩ :: ctx) t) :
    ∃ m', ((m.setColor x .black).setColor y .red).rotate s.opp y = some m' ∧ Kept m m' ∧
      m'.View (⟨s, .black, x, join s .red v y w⟩ :: ctx) t := by
  have h₁ := view_cons.1 ((view_cons.1 (h.setColor_frame .black)).setColor_frame .red)
  have hflip : Frame.fill ⟨s, .red, y, w⟩ (Frame.fill ⟨s, .black, x, v⟩ t) =
      join s.opp .red w y (join s.opp .black v x t) := by
    rw [join_opp, join_opp]
    rfl
  rw [hflip] at h₁
  obtain ⟨m', hrun, hview, hkept⟩ := h₁.rotate
  rw [join_opp, join_opp] at hview
  have hcolors := (kept_setColor m x .black).trans (kept_setColor _ y .red)
  exact ⟨m', hrun, hcolors.trans hkept, view_cons.2 hview⟩

/-- A black uncle, and the node on the outside. -/
theorem View.insertTurn_outer {v w : ColorTree Nat}
    (h : m.View (⟨s, .red, x, v⟩ :: ⟨s, .black, y, w⟩ :: ctx) t) (hw : w.IsBlack)
    (ht : t.root = some a) : ∃ m', m.insertTurn s a x y = some (m', a) ∧ Kept m m' ∧
      m'.View (⟨s, .black, x, join s .red v y w⟩ :: ctx) t := by
  obtain ⟨m', hrun, hkept, hview⟩ := h.rotate_up
  obtain ⟨hat, hsib, -⟩ := (view_cons.1 h).around
  have hred : m.isRed w.root = some false := hsib.isRed_of_black hw
  have hother : m.rbChild s.opp x ≠ some a := h.at_frame.other.trans_ne (h.sib_root_ne ht)
  refine ⟨m', ?_, hkept, hview⟩
  simp only [HpMap.insertTurn, hat.other, hred, if_neg hother,
    Option.bind_eq_bind, Option.bind_some, hrun]
  rfl

/-- A black uncle, and the node on the inside: one rotation more. -/
theorem View.insertTurn_inner {v w : ColorTree Nat}
    (h : m.View (⟨s.opp, .red, x, v⟩ :: ⟨s, .black, y, w⟩ :: ctx) (join s .red l a r))
    (hw : w.IsBlack) :
    ∃ m', m.insertTurn s a x y = some (m', x) ∧ Kept m m' ∧
      m'.View (⟨s, .black, a, join s .red r y w⟩ :: ctx) (join s .red v x l) := by
  have h₁ := view_cons.1 h
  rw [Frame.fill, join_opp] at h₁
  obtain ⟨m₁, hrotate, hview₁, hkept₁⟩ := h₁.rotate
  have h₂ : m₁.View (⟨s, .red, a, r⟩ :: ⟨s, .black, y, w⟩ :: ctx) (join s .red v x l) :=
    view_cons.2 hview₁
  obtain ⟨m', hrun, hkept, hview⟩ := h₂.rotate_up
  obtain ⟨hat, hsib, -⟩ := h₁.around
  have hred : m.isRed w.root = some false := hsib.isRed_of_black hw
  have hchild : m.rbChild s.opp x = some a := h.at_frame.child.trans root_join
  refine ⟨m', ?_, hkept₁.trans hkept, hview⟩
  simp only [HpMap.insertTurn, hat.other, hred, if_pos hchild, hrotate, Option.map_some,
    Option.bind_eq_bind, Option.bind_some, hrun]
  rfl

/-- What `rb_insert_color` makes of a balanced tree with the red node `a` at the end of the path
`ctx`. -/
def Recolored (m : HpMap K V) (fuel : Nat) (ctx : List (Frame Nat)) (t : ColorTree Nat) (a : Nat) :
    Prop :=
  ∃ m' T, rbInsertColor fuel m a = some m' ∧ Holds m' T ∧ T.toList = (plug ctx t).toList ∧ Kept m m'

theorem recolored_nil (h : m.View [] t) (ht : t.root = some a) (hred : ¬ t.IsBlack)
    (hb : Balanced t n) (fuel : Nat) :
    m.Recolored (fuel + 1) [] t a := by
  obtain ⟨l, b, r, rfl⟩ := exists_join_red .left hred
  rw [root_join] at ht
  cases ht
  obtain ⟨m', hrun, hview, hkept⟩ := h.blacken
  obtain ⟨-, -, bl, br⟩ := balanced_join_red.1 hb
  refine ⟨m', join .left .black l a r, ?_,
    ⟨hview, ⟨_, balanced_join_black.2 ⟨bl, br⟩⟩, isBlack_join.2 rfl⟩, rfl, hkept⟩
  have hparent : m.rbParent a = none := h.at_join.parent
  rw [rbInsertColor, if_pos hparent, hrun]

theorem recolored_black (h : m.View (f :: ctx) t) (ht : t.root = some a) (hb : Balanced t n)
    (hf : Fits (f :: ctx) n) (hblack : f.color = .black) (fuel : Nat) :
    m.Recolored (fuel + 1) (f :: ctx) t a := by
  obtain ⟨k, hbalanced, htop⟩ := balanced_plug hf hb (.inr (congrArg some hblack))
  obtain ⟨s, l, b, r, hplug⟩ : ∃ s l b r, plug (f :: ctx) t = join s .black l b r := by
    have hne : t ≠ nil := by
      rintro rfl
      cases ht
    have hplug : plug (f :: ctx) t ≠ nil := plug_ne_nil hne
    obtain ⟨c, l, b, r, hjoin⟩ := exists_join .left hplug
    rw [hjoin, isBlack_join] at htop
    exact ⟨.left, l, b, r, htop ▸ hjoin⟩
  have hview : m.View [] (plug (f :: ctx) t) := view_plug.1 ((List.append_nil (f :: ctx)).symm ▸ h)
  rw [hplug] at hview hbalanced htop
  obtain ⟨m', hrun, hview', hkept⟩ := hview.blacken
  have hat := h.at_frame
  refine ⟨m', _, ?_, ⟨hview', ⟨k, hbalanced⟩, htop⟩, by rw [hplug], hkept⟩
  have hparent : m.rbParent a = some f.elem := h.parent_root ht
  rw [rbInsertColor, if_neg (by rw [hparent]; exact nofun), hparent, hat.deref,
    Option.bind_some, if_neg, hrun]
  rw [hat.color, hblack]
  exact nofun

theorem recolored_of_turn {m₁ : HpMap K V} {t₁ : ColorTree Nat} {ctx₁ : List (Frame Nat)}
    {fuel : Nat} (h : m.View (f :: g :: ctx) t) (ht : t.root = some a) (hred : f.color = .red)
    (hturn : m.insertTurn g.side a f.elem g.elem = some (m₁, b)) (hkept : Kept m m₁)
    (hlist : (plug ctx₁ t₁).toList = (plug (f :: g :: ctx) t).toList)
    (hrest : m₁.Recolored fuel ctx₁ t₁ b) :
    m.Recolored (fuel + 1) (f :: g :: ctx) t a := by
  obtain ⟨m', T, hrun, hholds, hT, hkept'⟩ := hrest
  refine ⟨m', T, ?_, hholds, hT.trans hlist, hkept.trans hkept'⟩
  have hatf := h.at_frame
  have h₁ := view_cons.1 h
  have hatg := h₁.at_frame
  have hroot : (f.fill t).root = some f.elem := root_join
  rw [hroot] at hatg
  have hside := hatg.side_eq (h₁.sib_root_ne hroot)
  have hparent : m.rbParent a = some f.elem := h.parent_root ht
  have hgparent : m.rbParent f.elem = some g.elem := hatf.parent
  rw [rbInsertColor, if_neg (by rw [hparent]; exact nofun), hparent, hatf.deref, Option.bind_some,
    if_pos (hatf.color.trans hred), hgparent, hatg.deref, Option.bind_some, hside, hturn]
  exact hrun

theorem recolored (fuel : Nat) (h : m.View ctx t) (ht : t.root = some a) (hred : ¬ t.IsBlack)
    (hb : Balanced t n) (hf : Fits ctx n) (hlt : ctx.length < fuel) : m.Recolored fuel ctx t a := by
  induction fuel generalizing m ctx t a n with
  | zero => omega
  | succ fuel ih =>
    match ctx with
    | [] => exact recolored_nil h ht hred hb fuel
    | f :: ctx =>
      cases hc : f.color with
      | black => exact recolored_black h ht hb hf hc fuel
      | red =>
        obtain ⟨hsib, htop, hf⟩ := hf
        obtain ⟨hsibBlack, htop⟩ := htop hc
        match ctx with
        | [] => cases htop
        | g :: ctx =>
          obtain ⟨s', c, x, v⟩ := f
          obtain ⟨s, d, y, w⟩ := g
          obtain rfl : c = .red := hc
          obtain rfl : d = .black := Option.some.inj htop
          obtain ⟨hw, -, hf⟩ := hf
          have hlen : ctx.length + 1 < fuel := by simpa using hlt
          change Balanced v n at hsib
          change Balanced w n at hw
          change Fits ctx (n + 1) at hf
          by_cases hwb : w.IsBlack
          · rcases Side.eq_or_opp s s' with rfl | rfl
            · obtain ⟨m₁, hturn, hkept, hview⟩ := h.insertTurn_outer hwb ht
              have hrest := ih hview ht hred hb ⟨balanced_join_red.2 ⟨hsibBlack, hwb, hsib, hw⟩,
                nofun, hf⟩ hlen
              refine recolored_of_turn h ht rfl hturn hkept ?_ hrest
              exact @toList_plug_congr _ _ _ ctx toList_rotate.symm
            · obtain ⟨l, b, r, rfl⟩ := exists_join_red s hred
              rw [root_join] at ht
              cases ht
              obtain ⟨hl, hr, bl, br⟩ := balanced_join_red.1 hb
              obtain ⟨m₁, hturn, hkept, hview⟩ := h.insertTurn_inner hwb
              have hrest := ih hview root_join (by simp) (balanced_join_red.2 ⟨hsibBlack, hl, hsib, bl⟩)
                ⟨balanced_join_red.2 ⟨hr, hwb, br, hw⟩, nofun, hf⟩ hlen
              refine recolored_of_turn h root_join rfl hturn hkept
                (@toList_plug_congr _ _ _ ctx ?_) hrest
              rw [Frame.fill, Frame.fill, Frame.fill, join_opp]
              calc (join s .black (join s .red v x l) a (join s .red r y w)).toList
                  = (join s .black (join s .red (join s .red v x l) a r) y w).toList :=
                    toList_rotate.symm
                _ = (join s .black (join s .red v x (join s .red l a r)) y w).toList :=
                  toList_join_congr toList_rotate rfl
          · obtain ⟨l, z, r, rfl⟩ := exists_join_red .left hwb
            obtain ⟨hl, hr, bl, br⟩ := balanced_join_red.1 hw
            obtain ⟨m₁, hturn, hkept, hview⟩ := h.insertTurn_red a
            have hrest := ih hview root_join (by simp)
              (balanced_join_red.2 ⟨isBlack_join.2 rfl, isBlack_join.2 rfl, balanced_join_black.2
                ⟨hb, hsib⟩, balanced_join_black.2 ⟨bl, br⟩⟩) hf (Nat.lt_of_succ_lt hlen)
            refine recolored_of_turn h ht rfl hturn hkept (@toList_plug_congr _ _ _ ctx ?_) hrest
            exact toList_join_congr (toList_join_congr rfl rfl) (toList_join_congr rfl rfl)

/-! ### The way down -/

/-- The slot at the end of a path. -/
def slotOf (ctx : List (Frame Nat)) : Option (Nat × Side) := ctx.head?.map fun f => (f.elem, f.side)

/-- On the way down the nodes on the path count one more. -/
structure Bumped (m : HpMap K V) (ctx : List (Frame Nat)) (t : ColorTree Nat) : Prop where
  around : m.CtxShape ctx t.root (t.size + 1)
  shape : m.Shape (top ctx) t
  nodup : (t.toList ++ elems ctx).Nodup

theorem CtxShape.slot_eq {p : Option Nat} (h : m.CtxShape ctx p n) : m.slot (slotOf ctx) = p := by
  cases ctx with
  | nil => exact h
  | cons f ctx => exact h.1.child

theorem CtxShape.setSlot {p : Option Nat} (h : m.CtxShape ctx p n) (hnodup : (elems ctx).Nodup)
    (q : Option Nat) :
    (m.setSlot q (slotOf ctx)).CtxShape ctx q n ∧ ∀ b, b ∉ elems ctx →
      Same m (m.setSlot q (slotOf ctx)) b := by
  cases ctx with
  | nil => exact ⟨rfl, fun b _ => ⟨id, rfl, rfl, fun _ => rfl, rfl⟩⟩
  | cons f ctx =>
    obtain ⟨hf, hsib, hctx⟩ := h
    rw [elems_cons, List.cons_append, List.nodup_cons, List.mem_append, not_or] at hnodup
    obtain ⟨⟨hnsib, hnctx⟩, -⟩ := hnodup
    have hsame : ∀ b, b ≠ f.elem → Same m (m.setChild f.side f.elem q) b := fun b => same_setChild
    refine ⟨⟨hf.setChild q, hsib.congr fun b hb => hsame b ?_,
      hctx.congr rfl fun b hb => hsame b ?_⟩, fun b hb => hsame b ?_⟩
    · rintro rfl
      exact hnsib hb
    · rintro rfl
      exact hnctx hb
    · rintro rfl
      exact hb List.mem_cons_self

theorem Bumped.down (h : m.Bumped ctx (join s c l a r)) :
    (m.setWeight a (wrapInt (m.weight a + 1))).Bumped (⟨s, c, a, r⟩ :: ctx) l := by
  obtain ⟨haround, hshape, hnodup⟩ := h
  obtain ⟨ha, hl, hr⟩ := shape_join.1 hshape
  rw [root_join, size_join] at haround
  have hperm : ((join s c l a r).toList ++ elems ctx).Perm
      (l.toList ++ elems (⟨s, c, a, r⟩ :: ctx)) := by
    refine (perm_join.append_right _).trans ?_
    rw [elems_cons, List.cons_append, List.cons_append, List.append_assoc]
    exact List.perm_middle.symm
  have hnodup' := hperm.nodup_iff.1 hnodup
  have hna := (perm_join.append_right _).nodup_iff.1 hnodup
  rw [List.cons_append, List.nodup_cons, List.mem_append, List.mem_append, not_or, not_or] at hna
  obtain ⟨hna, -⟩ := hna
  have hsame : ∀ b, b ≠ a → Same m (m.setWeight a (wrapInt (m.weight a + 1))) b :=
    fun b => same_setWeight
  have hw : wrapInt (m.weight a + 1) = wrapInt (l.size + 1 + r.size + 1 : Nat) := by
    rw [ha.weight, wrapInt_succ, Nat.add_right_comm l.size 1]
  have hat := ha.setWeight (wrapInt (m.weight a + 1))
  refine ⟨⟨⟨hat.live, hat.parent, hat.color, hat.child, hat.other, hat.weight.trans hw⟩,
    hr.congr fun b hb => hsame b ?_, ?_⟩, hl.congr fun b hb => hsame b ?_, hnodup'⟩
  · rintro rfl
    exact hna.1.2 hb
  · rw [show l.size + 1 + r.size + 1 = l.size + r.size + 1 + 1 by omega]
    refine haround.congr rfl fun b hb => hsame b ?_
    rintro rfl
    exact hna.2 hb
  · rintro rfl
    exact hna.1.1 hb

theorem Bumped.attach (h : m.Bumped ctx nil) (hx : x ∈ m.live) (hnew : x ∉ elems ctx) :
    (m.attach x (slotOf ctx)).View ctx (join .left .red nil x nil) := by
  obtain ⟨haround, -, hnodup⟩ := h
  have htop : (slotOf ctx).map Prod.fst = top ctx := by
    cases ctx <;> rfl
  set m₁ :=
    (((({ m with size := wrapInt (m.size + 1) }.setParent x (top ctx)).setColor x .red).setChild
      .right x none).setChild
    .left x none).setWeight x 1 with hm₁
  have hsame₁ : ∀ b, b ≠ x → Same m m₁ b := fun b hb =>
    (((same_setParent hb).trans (same_setColor hb)).trans (same_setChild hb)).trans
      ((same_setChild hb).trans (same_setWeight hb))
      |> fun hs => ⟨hs.live, hs.parent, hs.color, hs.child, hs.weight⟩
  have hat₀ : ({ m with size := wrapInt (m.size + 1) } : HpMap K V).At .left x
    (m.rbParent x) (m.rbColor x)
      (m.rbChild .left x) (m.rbChild .right x) (m.weight x) := ⟨hx, rfl, rfl, rfl, rfl, rfl⟩
  have hat : m₁.At .left x (top ctx) .red none none 1 :=
    ((((hat₀.setParent (top ctx)).setColor .red).setOther none).setChild none).setWeight 1
  have haround₁ : m₁.CtxShape ctx none 1 := by
    refine haround.congr rfl fun b hb => hsame₁ b ?_
    rintro rfl
    exact hnew hb
  have hrun : m.attach x (slotOf ctx) = m₁.setSlot (some x) (slotOf ctx) := by rw [HpMap.attach, htop]
  obtain ⟨haround₂, hsame₂⟩ := haround₁.setSlot hnodup (some x)
  rw [hrun]
  refine ⟨haround₂, ⟨?_, trivial, trivial⟩, List.nodup_cons.2 ⟨hnew, hnodup⟩⟩
  exact hat.same (hsame₂ x hnew)

section keys
variable [LinearOrder K]

theorem cmp_neg_iff {k k' : K} : cmp k k' < 0 ↔ k < k' := by
  rw [cmp]
  split_ifs with h h'
  · exact ⟨fun hlt => absurd hlt (lt_irrefl _), fun hlt => absurd h (ne_of_lt hlt)⟩
  · exact ⟨fun _ => h', fun _ => by decide⟩
  · exact ⟨fun hlt => absurd hlt (by decide), fun hlt => absurd hlt h'⟩

theorem cmp_pos_iff {k k' : K} : 0 < cmp k k' ↔ k' < k := by
  rw [cmp]
  split_ifs with h h'
  · exact ⟨fun hlt => absurd hlt (lt_irrefl _), fun hlt => absurd h.symm (ne_of_lt hlt)⟩
  · exact ⟨fun hlt => absurd hlt (by decide), fun hlt => absurd hlt (lt_asymm h')⟩
  · exact ⟨fun _ => lt_of_le_of_ne (not_lt.1 h') (Ne.symm h), fun _ => by decide⟩

/-- The keys of the nodes go up. -/
def Ascending (m : HpMap K V) (as : List Nat) : Prop := as.Pairwise fun a b => m.first a < m.first b

/-- Where `as` would have the new node `x`, it is `as'`. -/
def Inserted (m : HpMap K V) (x : Nat) (as as' : List Nat) : Prop :=
  ∃ L R, as = L ++ R ∧ as' = L ++ x :: R ∧ (∀ a ∈ L, m.first a < m.first x) ∧
    ∀ a ∈ R, m.first x < m.first a

/-- The map after an insertion has the keys and values that it had, and one node more. -/
structure Grown (m m' : HpMap K V) : Prop where
  first : m'.first = m.first
  second : m'.second = m.second
  size : m'.size = wrapInt (m.size + 1)
  live : m'.live = m.live

/-- What the loop of `my_rb_insert` does at the end of the path `ctx`: it finds the key in `t` and
undoes the way down, or puts the new node into its place. -/
def Descends (m : HpMap K V) (fuel : Nat) (ctx : List (Frame Nat)) (t : ColorTree Nat) (x : Nat) :
    Prop :=
  ((∃ a ∈ t.toList, m.first a = m.first x) ∧
    ∃ m', insertFrom x fuel m (slotOf ctx) = some (m', -1) ∧ m'.View ctx t ∧ Kept m m') ∨
  ((∀ a ∈ t.toList, m.first a ≠ m.first x) ∧
    ∃ m' T, insertFrom x fuel m (slotOf ctx) = some (m', 0) ∧ Holds m' T ∧ Grown m m' ∧
      Inserted m x (plug ctx t).toList T.toList)

theorem Bumped.descends_nil (h : m.Bumped ctx nil) (hx : x ∈ m.live) (hnew : x ∉ elems ctx)
    (hbefore : ∀ a ∈ before ctx, m.first a < m.first x)
    (hafter : ∀ a ∈ after ctx, m.first x < m.first a) (hb : Balanced (plug ctx nil) k)
    (hblack : (plug ctx nil).IsBlack) (fuel : Nat) : m.Descends (fuel + 1) ctx nil x := by
  obtain ⟨n, hfits, hnil, -⟩ := fits_of_balanced_plug hb hblack
  cases hnil
  have hview := h.attach hx hnew
  have hlen := hview.length_le
  have hlive : (m.attach x (slotOf ctx)).live = m.live := by cases ctx <;> rfl
  obtain ⟨m', T, hrun, hholds, hlist, hkept⟩ := recolored m.fuel hview root_join (by simp)
    (balanced_join_red.2 ⟨trivial, trivial, .nil, .nil⟩) hfits (by rw [HpMap.fuel, ← hlive]; omega)
  have hslot : m.slot (slotOf ctx) = none := h.around.slot_eq
  have hgrown : Grown m (m.attach x (slotOf ctx)) := by
    cases ctx <;> exact ⟨rfl, rfl, rfl, rfl⟩
  have hfuel : (m.attach x (slotOf ctx)).fuel = m.fuel := by rw [HpMap.fuel, hlive, HpMap.fuel]
  refine .inr ⟨fun a ha => absurd ha List.not_mem_nil, m', T, ?_, hholds, ?_, before ctx,
    after ctx, ?_, ?_, hbefore, hafter⟩
  · rw [insertFrom, if_pos hslot, hrun]
    rfl
  · exact ⟨hkept.first.trans hgrown.first, hkept.second.trans hgrown.second,
      hkept.size.trans hgrown.size, hkept.live.trans hgrown.live⟩
  · rw [toList_plug, toList, List.append_nil]
  · rw [hlist, toList_plug]
    simp [join, toList]

theorem insertFrom_of_live {p : Option (Nat × Side)} {fuel : Nat} (h : m.slot p = some a)
    (ha : a ∈ m.live) :
    insertFrom x (fuel + 1) m p =
      if cmp (m.first x) (m.first a) < 0 then
        insertFrom x fuel (m.setWeight a (wrapInt (m.weight a + 1))) (some (a, .left))
      else if 0 < cmp (m.first x) (m.first a) then
        insertFrom x fuel (m.setWeight a (wrapInt (m.weight a + 1))) (some (a, .right))
      else (HpMap.decWeights (m.setWeight a (wrapInt (m.weight a + 1))).fuel
        (m.setWeight a (wrapInt (m.weight a + 1)))
        (some a)).map (·, -1) := by
  rw [insertFrom, if_neg (by rw [h]; exact nofun), h, deref_of_live ha]
  rfl

theorem descends_of_down {fuel : Nat}
    (hs : insertFrom x (fuel + 1) m (slotOf ctx) =
      insertFrom x fuel (m.setWeight a (wrapInt (m.weight a + 1))) (some (a, s)))
    (hdesc : (m.setWeight a (wrapInt (m.weight a + 1))).Descends fuel (⟨s, c, a, r⟩ :: ctx) l x)
    (ha : m.first a ≠ m.first x) (hr : ∀ b ∈ r.toList, m.first b ≠ m.first x) :
    m.Descends (fuel + 1) ctx (join s c l a r) x := by
  have hkept₁ : Kept m (m.setWeight a (wrapInt (m.weight a + 1))) := ⟨rfl, rfl, rfl, rfl⟩
  rcases hdesc with ⟨⟨b, hb, heq⟩, m', hrun, hview, hkept⟩ | ⟨hne, m', T, hrun, hholds, hgrown, hins⟩
  · exact .inl ⟨⟨b, mem_join.2 (.inr (.inl hb)), heq⟩, m', hs.trans hrun,
      view_cons.1 hview, hkept₁.trans hkept⟩
  · refine .inr ⟨fun b hb => ?_, m', T, hs.trans hrun, hholds,
      ⟨hgrown.first, hgrown.second, hgrown.size, hgrown.live⟩, hins⟩
    rcases mem_join.1 hb with rfl | hb | hb
    · exact ha
    · exact hne b hb
    · exact hr b hb

/-- The key is there: the way down is undone. -/
theorem Bumped.descends_found {fuel : Nat} (h : m.Bumped ctx (join s c l a r))
    (ha : m.first x = m.first a) :
    m.Descends (fuel + 1) ctx (join s c l a r) x := by
  have hslot : m.slot (slotOf ctx) = some a := h.around.slot_eq.trans root_join
  have hlive : a ∈ m.live := (shape_join.1 h.shape).1.live
  obtain ⟨haround, hshape, hnodup⟩ := h.down
  have hlen := length_le_live haround hshape hnodup
  obtain ⟨-, hnctx, hdisj⟩ := List.nodup_append'.1 hnodup
  obtain ⟨m', hrun, haround', hkept, -, hsame⟩ := haround.decWeights hnctx
    (show (⟨s, c, a, r⟩ :: ctx).length ≤ (m.setWeight a (wrapInt (m.weight a + 1))).fuel from
      (le_trans (Nat.le_add_left _ _) hlen).trans (Nat.le_succ _))
  refine .inl ⟨⟨a, mem_join.2 (.inl rfl), ha.symm⟩, m', ?_,
    view_cons.1 ⟨haround', hshape.congr fun b hb => hsame b (hdisj hb), hnodup⟩,
    (⟨rfl, rfl, rfl, rfl⟩ : Kept m (m.setWeight a (wrapInt (m.weight a + 1)))).trans hkept⟩
  have hlt : ¬ cmp (m.first x) (m.first a) < 0 := fun hc => absurd ha (ne_of_lt (cmp_neg_iff.1 hc))
  have hgt : ¬ 0 < cmp (m.first x) (m.first a) := fun hc => absurd ha.symm (ne_of_lt (cmp_pos_iff.1 hc))
  rw [insertFrom_of_live hslot hlive, if_neg hlt, if_neg hgt]
  exact congrArg (Option.map (·, -1)) hrun

theorem Bumped.descends {fuel : Nat} (h : m.Bumped ctx t) (hx : x ∈ m.live)
    (hnew : x ∉ t.toList ++ elems ctx) (hbefore : ∀ a ∈ before ctx, m.first a < m.first x)
    (hafter : ∀ a ∈ after ctx, m.first x < m.first a) (hasc : m.Ascending t.toList)
    (hb : Balanced (plug ctx t) k) (hblack : (plug ctx t).IsBlack) (hfuel : t.size < fuel) :
    m.Descends fuel ctx t x := by
  induction t generalizing m ctx fuel with
  | nil =>
    obtain ⟨fuel, rfl⟩ := Nat.exists_eq_add_of_lt hfuel
    exact h.descends_nil hx (fun hin => hnew (List.mem_append_right _ hin)) hbefore hafter hb hblack _
  | node c l a r ihl ihr =>
    obtain ⟨fuel, rfl⟩ : ∃ k, fuel = k + 1 := ⟨fuel - 1, by omega⟩
    rw [Ascending, toList, List.pairwise_append, List.pairwise_cons] at hasc
    obtain ⟨hl, ⟨har, hr⟩, hlr⟩ := hasc
    have hla : ∀ b ∈ l.toList, m.first b < m.first a := fun b hb => hlr b hb a List.mem_cons_self
    have hslot : m.slot (slotOf ctx) = some a := h.around.slot_eq
    have hlive : a ∈ m.live := h.shape.1.live
    have hsize : l.size + r.size + 1 < fuel + 1 := hfuel
    rcases lt_trichotomy (m.first x) (m.first a) with hlt | heq | hgt
    · have hrun : insertFrom x (fuel + 1) m (slotOf ctx) =
          insertFrom x fuel (m.setWeight a (wrapInt (m.weight a + 1))) (some (a, .left)) := by
        rw [insertFrom_of_live hslot hlive, if_pos (cmp_neg_iff.2 hlt)]
      have hdown : (m.setWeight a (wrapInt (m.weight a + 1))).Bumped (⟨.left, c, a, r⟩ :: ctx) l :=
          h.down (s := .left)
      refine descends_of_down (s := .left) hrun
        (ihl hdown hx ?_ hbefore (fun b hb => ?_) hl hb hblack (by omega)) hlt.ne' fun b hb =>
          (hlt.trans (har b hb)).ne'
      · exact fun hin => hnew (by simpa [toList, elems_cons, or_assoc, or_comm, or_left_comm] using hin)
      · rcases List.mem_append.1 hb with hb | hb
        · rcases List.mem_cons.1 hb with rfl | hb
          · exact hlt
          · exact hlt.trans (har b hb)
        · exact hafter b hb
    · exact Bumped.descends_found (s := .left) h heq
    · have hpos := cmp_pos_iff.2 hgt
      have hrun : insertFrom x (fuel + 1) m (slotOf ctx) =
          insertFrom x fuel (m.setWeight a (wrapInt (m.weight a + 1))) (some (a, .right)) := by
        rw [insertFrom_of_live hslot hlive, if_neg (lt_asymm hpos), if_pos hpos]
      have hdown : (m.setWeight a (wrapInt (m.weight a + 1))).Bumped (⟨.right, c, a, l⟩ :: ctx) r :=
          h.down (s := .right)
      refine descends_of_down (s := .right) hrun
        (ihr hdown hx ?_ (fun b hb => ?_) hafter hr hb hblack (by omega)) hgt.ne fun b hb =>
          ((hla b hb).trans hgt).ne
      · exact fun hin => hnew (by simpa [toList, elems_cons, or_assoc, or_comm, or_left_comm] using hin)
      · rcases List.mem_append.1 hb with hb | hb
        · exact hbefore b hb
        · rcases List.mem_append.1 hb with hb | hb
          · exact (hla b hb).trans hgt
          · rw [List.mem_singleton.1 hb]
            exact hgt

/-- `my_rb_insert` of a node that the pool has just given out. -/
theorem Holds.myRbInsert (h : m.Holds T) (hx : x ∈ m.live) (hnew : x ∉ T.toList)
    (hasc : m.Ascending T.toList) :
    ((∃ a ∈ T.toList, m.first a = m.first x) ∧ ∃ m', m.myRbInsert x = some (m', -1) ∧
      m'.Holds T ∧ Kept m m') ∨
    ((∀ a ∈ T.toList, m.first a ≠ m.first x) ∧
      ∃ m' T', m.myRbInsert x = some (m', 0) ∧ m'.Holds T' ∧ Grown m m' ∧
      m.Inserted x T.toList T'.toList) := by
  obtain ⟨hview, ⟨k, hb⟩, hblack⟩ := h
  have hbumped : m.Bumped [] T := ⟨hview.around, hview.shape, hview.nodup⟩
  have hlen : T.size + 0 ≤ m.live.length := hview.length_le
  have hnil : x ∉ T.toList ++ elems [] := by
    rw [elems, List.flatMap_nil, List.append_nil]
    exact hnew
  rcases hbumped.descends hx hnil (fun a ha => absurd ha List.not_mem_nil)
    (fun a ha => absurd ha List.not_mem_nil) hasc hb hblack (Nat.lt_succ_of_le hlen) with
        ⟨hin, m', hrun, hview', hkept⟩ | hout
  · exact .inl ⟨hin, m', hrun, ⟨hview', ⟨k, hb⟩, hblack⟩, hkept⟩
  · exact .inr hout

end keys

end HpMap

end Resend.Udp

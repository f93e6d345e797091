import Resend.Udp.RbInsert

/-!
# Deletion

`__rb_erase_color` gives a subtree back the black node that it lacks, and `rb_erase` takes a node
out, with the next one in its place where it has two children.
-/

namespace Resend.Udp

namespace HpMap
open ColorTree
variable {K V : Type} {m m' : HpMap K V} {s : Side} {a b x y z : Nat} {c c' d : Color}
  {t t' u i l r T : ColorTree Nat} {ctx ctx' : List (Frame Nat)} {f g : Frame Nat} {n k : Nat}

/-! ### The turns of `__rb_erase_color` -/

theorem View.isRed_eq (h : m.View ctx t) (hblack : t.IsBlack) : m.isRed t.root = some false :=
  h.shape.isRed_of_black hblack

theorem View.raiseOther (h : m.View ctx (join s c t x u)) (hu : u ≠ nil)
    (hf : Fits (⟨s, c, x, u⟩ :: ctx) n) :
    ∃ m' c' u' ctx', m.raiseOther s x = some m' ∧ Kept m m' ∧
      m'.View ctx' (join s c' t x u') ∧ u'.IsBlack ∧
      Fits (⟨s, c', x, u'⟩ :: ctx') n ∧
      (plug ctx' (join s c' t x u')).toList = (plug ctx (join s c t x u)).toList ∧
      (c' = .red ∨ ctx' = ctx) := by
  obtain ⟨d, i, y, r, rfl⟩ := exists_join s hu
  have hat := h.at_join
  rw [root_join] at hat
  obtain ⟨-, -, hsib⟩ := shape_join.1 h.shape
  obtain ⟨haty, -⟩ := shape_join.1 hsib
  have hrun : m.raiseOther s x =
      if m.rbColor y = .red then ((m.setColor y .black).setColor x .red).rotate s x else some m := by
    rw [HpMap.raiseOther, hat.other, haty.deref]
    rfl
  cases d with
  | black =>
    refine ⟨m, c, _, ctx, ?_, .refl m, h, isBlack_join.2 rfl, hf, rfl, .inr rfl⟩
    rw [hrun, if_neg (by rw [haty.color]; exact nofun)]
  | red =>
    obtain ⟨hbal, hred, hf⟩ := hf
    obtain ⟨hi, hr, bi, br⟩ := balanced_join_red.1 hbal
    have hc : c = .black := by
      cases c with
      | red => exact absurd (hred rfl).1 (by simp)
      | black => rfl
    subst hc
    have h₁ : ((m.setColor y .black).setColor x .red).View ctx
        (join s .red t x (join s .black i y r)) :=
      view_cons.1 ((view_cons.2 h).setColor_sib .black) |>.setColor .red
    obtain ⟨m', hrotate, hview, hkept⟩ := h₁.rotate
    refine ⟨m', .red, i, ⟨s, .black, y, r⟩ :: ctx, ?_, ?_, view_cons.2 hview, hi,
      ⟨bi, fun _ => ⟨hi, rfl⟩, br, nofun, hf⟩, @toList_plug_congr _ _ _ ctx ?_, .inl rfl⟩
    · rw [hrun, if_pos haty.color, hrotate]
    · exact ((kept_setColor m y .black).trans (kept_setColor _ x .red)).trans hkept
    · exact toList_rotate

theorem View.turnOther (h : m.View ctx (join s c t x (join s d (join s .red i z r) y u))) :
    ∃ m', m.turnOther s y = some m' ∧ Kept m m' ∧
      m'.View ctx (join s c t x (join s .black i z (join s .red r y u))) := by
  have h₁ : m.View (⟨s.opp, c, x, t⟩ :: ctx) (join s d (join s .red i z r) y u) :=
    view_sib.1 (view_cons.2 h)
  have hz : m.View (⟨s, d, y, u⟩ :: ⟨s.opp, c, x, t⟩ :: ctx) (join s .red i z r) := view_cons.2 h₁
  have h₂ := ((view_cons.1 (hz.setColor .black)).setColor .red)
  obtain ⟨hat, hi, -⟩ := shape_join.1 h₁.shape
  obtain ⟨hatz, -⟩ := shape_join.1 hi
  rw [root_join] at hat
  change View _ _ (join s .red (join s .black i z r) y u) at h₂
  rw [← join_opp, ← join_opp (s := s)] at h₂
  obtain ⟨m', hrotate, hview, hkept⟩ := h₂.rotate
  rw [join_opp, join_opp] at hview
  refine ⟨m', ?_, ((kept_setColor m z .black).trans (kept_setColor _ y .red)).trans hkept, ?_⟩
  · rw [HpMap.turnOther, hat.child, HpMap.paint, if_neg (Option.some_ne_none _), hatz.deref]
    exact hrotate
  · exact view_cons.1 (view_sib.2 hview)

theorem View.settleParent {w : Nat} (h : m.View ctx (join s c t x (join s d l y (join s c' i w r)))) :
    ∃ m', m.settleParent s x = some m' ∧ Kept m m' ∧
      m'.View ctx (join s c (join s .black t x l) y (join s .black i w r)) := by
  have hat := h.at_join
  rw [root_join] at hat
  obtain ⟨-, -, hsib⟩ := shape_join.1 h.shape
  obtain ⟨haty, -, hfar⟩ := shape_join.1 hsib
  rw [root_join] at haty
  obtain ⟨hatw, -⟩ := shape_join.1 hfar
  set m₂ := (m.setColor y c).setColor x .black with hm₂
  have h₂ : m₂.View ctx (join s .black t x (join s c l y (join s c' i w r))) :=
    (view_cons.1 ((view_cons.2 h).setColor_sib c)).setColor .black
  have hsib₂ : m₂.View (⟨s.opp, .black, x, t⟩ :: ctx) (join s c l y (join s c' i w r)) :=
    view_sib.1 (view_cons.2 h₂)
  rw [← join_opp] at hsib₂
  have hfar₂ : m₂.View (⟨s.opp, c, y, l⟩ :: ⟨s.opp, .black, x, t⟩ :: ctx) (join s c' i w r) :=
    view_cons.2 hsib₂
  have hsib₃ := view_cons.1 (hfar₂.setColor .black)
  rw [Frame.fill, join_opp] at hsib₃
  obtain ⟨m', hrotate, hview, hkept⟩ := (view_cons.1 (view_sib.2 hsib₃)).rotate
  refine ⟨m', ?_, ((kept_setColor m y c).trans (kept_setColor _ x .black)).trans
    ((kept_setColor _ w .black).trans hkept), hview⟩
  rw [HpMap.settleParent, hat.other, haty.deref, Option.bind_some, hat.color]
  show (m₂.paint (m.rbChild s.opp y) .black).bind _ = some m'
  have hderef : m₂.deref (some w) = some w := hatw.deref
  rw [haty.other, HpMap.paint, if_neg (Option.some_ne_none _), hderef]
  exact hrotate

/-- What `__rb_erase_color` makes of a tree that lacks a black node at the end of the path `ctx`. -/
def Rebalanced (m : HpMap K V) (fuel : Nat) (ctx : List (Frame Nat)) (t : ColorTree Nat) : Prop :=
  ∃ m' T, rbEraseColor fuel m t.root (top ctx) = some m' ∧ Holds m' T ∧
    T.toList = (plug ctx t).toList ∧ Kept m m'

theorem CtxShape.rbNode_mem {p : Option Nat} (h : m.CtxShape (f :: ctx) p n) :
    ∃ b ∈ elems (f :: ctx), m.rbNode = some b := by
  induction ctx generalizing f p n with
  | nil => exact ⟨f.elem, List.mem_cons_self, h.2.2⟩
  | cons g ctx ih =>
    obtain ⟨b, hb, hroot⟩ := ih h.2.2
    rw [elems_cons]
    exact ⟨b, List.mem_append_right _ hb, hroot⟩

theorem View.root_eq_iff (h : m.View ctx t) : t.root = m.rbNode ↔ ctx = [] := by
  cases ctx with
  | nil => exact ⟨fun _ => rfl, fun _ => (show m.rbNode = t.root from h.around).symm⟩
  | cons f ctx =>
    obtain ⟨b, hb, hroot⟩ := h.around.rbNode_mem
    refine ⟨fun heq => ?_, nofun⟩
    exact absurd hb ((List.nodup_append'.1 h.nodup).2.2 (mem_toList_of_root (heq.trans hroot)))

/-- Two black children: the node that is missing moves up. -/
theorem View.eraseBlack_up (h : m.View ctx (join s c t x (join s .black i y r))) (hi : i.IsBlack)
    (hr : r.IsBlack) :
    ∃ m', m.eraseBlack s x = some (m', false) ∧ Kept m m' ∧
      m'.View ctx (join s c t x (join s .red i y r)) := by
  have hat := h.at_join
  rw [root_join] at hat
  obtain ⟨-, -, hsib⟩ := shape_join.1 h.shape
  obtain ⟨haty, hshi, hshr⟩ := shape_join.1 hsib
  refine ⟨m.setColor y .red, ?_, kept_setColor m y .red,
    view_cons.1 ((view_cons.2 h).setColor_sib .red)⟩
  simp only [HpMap.eraseBlack, hat.other, haty.deref, haty.child, haty.other,
    hshi.isRed_of_black hi, hshr.isRed_of_black hr, Option.bind_eq_bind, Option.bind_some]
  rfl

theorem balanced_settled {i' r' : ColorTree Nat} (bt : Balanced t n) (bl : Balanced l n)
    (bi : Balanced i' n) (br : Balanced r' n) (s : Side) (c : Color) :
    Balanced (join s c (join s .black t x l) y (join s .black i' z r')) (n + 1 + height c) ∧
      ((join s c (join s .black t x l) y (join s .black i' z r')).IsBlack ∨ c = .red) := by
  constructor
  · exact balanced_join (balanced_join_black.2 ⟨bt, bl⟩) (balanced_join_black.2 ⟨bi, br⟩)
      fun _ => ⟨isBlack_join.2 rfl, isBlack_join.2 rfl⟩
  · cases c with
    | red => exact .inr rfl
    | black => exact .inl (isBlack_join.2 rfl)

/-- A red child: the tree gets its black node back. -/
theorem View.eraseBlack_end (h : m.View ctx (join s c t x (join s .black i y r)))
    (hred : ¬ (i.IsBlack ∧ r.IsBlack)) (bt : Balanced t n) (bi : Balanced i n) (br : Balanced r n) :
    ∃ m' v, m.eraseBlack s x = some (m', true) ∧ Kept m m' ∧ m'.View ctx v ∧
      (Balanced v (n + 1 + height c) ∧ (v.IsBlack ∨ c = .red)) ∧
      v.toList = (join s c t x (join s .black i y r)).toList := by
  have hat := h.at_join
  rw [root_join] at hat
  obtain ⟨-, -, hsib⟩ := shape_join.1 h.shape
  obtain ⟨haty, hshi, hshr⟩ := shape_join.1 hsib
  by_cases hr : r.IsBlack
  · obtain ⟨il, z, ir, rfl⟩ := exists_join_red s fun hi => hred ⟨hi, hr⟩
    obtain ⟨-, -, bil, bir⟩ := balanced_join_red.1 bi
    obtain ⟨m₁, hturn, hkept₁, hview₁⟩ := h.turnOther
    obtain ⟨m', hsettle, hkept, hview⟩ := hview₁.settleParent
    refine ⟨m', _, ?_, hkept₁.trans hkept, hview, balanced_settled bt bil bir br s c, ?_⟩
    · have hnear := hshi.isRed_of_red
      rw [root_join] at haty
      simp only [HpMap.eraseBlack, hat.other, haty.deref, haty.child, haty.other,
        hnear, hshr.isRed_of_black hr, Option.bind_eq_bind, Option.bind_some, Bool.true_eq_false,
        false_and, if_false, if_true, hturn, hsettle]
      rfl
    · calc (join s c (join s .black t x il) z (join s .black ir y r)).toList
          = (join s c t x (join s .black il z (join s .black ir y r))).toList := toList_rotate
        _ = (join s c t x (join s .black (join s .red il z ir) y r)).toList :=
          toList_join_congr rfl toList_rotate.symm
  · obtain ⟨rl, w, rr, rfl⟩ := exists_join_red s hr
    obtain ⟨-, -, brl, brr⟩ := balanced_join_red.1 br
    obtain ⟨m', hsettle, hkept, hview⟩ := h.settleParent
    refine ⟨m', _, ?_, hkept, hview, balanced_settled bt bi brl brr s c, ?_⟩
    · have hfar := hshr.isRed_of_red
      rw [root_join] at haty
      obtain ⟨near, hnear⟩ : ∃ near, m.isRed i.root = some near := by
        by_cases hi : i.IsBlack
        · exact ⟨_, hshi.isRed_of_black hi⟩
        · obtain ⟨il, z, ir, rfl⟩ := exists_join_red s hi
          exact ⟨_, root_join ▸ hshi.isRed_of_red⟩
      simp only [HpMap.eraseBlack, hat.other, haty.deref, haty.child, haty.other, hfar,
        hnear, Option.bind_eq_bind, Option.bind_some, Bool.true_eq_false,
        and_false, if_false, hsettle]
      rfl
    · calc (join s c (join s .black t x i) y (join s .black rl w rr)).toList
          = (join s c t x (join s .black i y (join s .black rl w rr))).toList := toList_rotate
        _ = (join s c t x (join s .black i y (join s .red rl w rr))).toList :=
          toList_join_congr rfl (toList_join_congr rfl (toList_join_congr rfl rfl))

theorem View.paint_of_black (h : m.View ctx t) (ht : t.IsBlack) :
    ∃ m', m.paint t.root .black = some m' ∧ Kept m m' ∧ m'.View ctx t := by
  cases t with
  | nil => exact ⟨m, rfl, .refl m, h⟩
  | node c l a r =>
    obtain rfl : c = .black := ht
    refine ⟨m.setColor a .black, ?_, kept_setColor m a .black, View.setColor (s := .left) h .black⟩
    rw [HpMap.paint, root, if_neg (Option.some_ne_none _), h.shape.1.deref]
    rfl

theorem holds_plug (h : m.View ctx t) (hf : Fits ctx n) (hb : Balanced t n)
    (hblack : t.IsBlack ∨ BlackTop ctx) :
    Holds m (plug ctx t) := by
  obtain ⟨k, hbal, htop⟩ := balanced_plug hf hb hblack
  exact ⟨view_plug.1 ((List.append_nil ctx).symm ▸ h), ⟨k, hbal⟩, htop⟩

theorem rebalanced_red (h : m.View ctx (join s .red l a r)) (bl : Balanced l n) (br : Balanced r n)
    (hf : Fits ctx (n + 1)) (fuel : Nat) : m.Rebalanced (fuel + 1) ctx (join s .red l a r) := by
  have hred := h.shape.isRed_of_red
  refine ⟨m.setColor a .black, _, ?_, holds_plug (h.setColor .black) hf (balanced_join_black.2 ⟨bl, br⟩)
    (.inl (isBlack_join.2 rfl)), @toList_plug_congr _ _ _ ctx (toList_join_congr rfl rfl),
      kept_setColor m a .black⟩
  rw [root_join, rbEraseColor, hred, Option.bind_some, if_neg (by simp), HpMap.paint,
    if_neg (Option.some_ne_none _), h.at_join.deref]
  rfl

theorem rebalanced_nil (h : m.View [] t) (ht : t.IsBlack) (hb : Balanced t n) (fuel : Nat) :
    m.Rebalanced (fuel + 1) [] t := by
  obtain ⟨m', hrun, hkept, hview⟩ := h.paint_of_black ht
  refine ⟨m', t, ?_, ⟨hview, ⟨n, hb⟩, ht⟩, rfl, hkept⟩
  rw [rbEraseColor, h.isRed_eq ht, Option.bind_some,
    if_neg fun hne => hne.2 (h.root_eq_iff.2 rfl), hrun]

theorem rebalanced_turn (fuel : Nat) (h : m.View (⟨s, c, x, u⟩ :: ctx) t) (ht : t.IsBlack)
    (hu : u ≠ nil) :
    rbEraseColor (fuel + 1) m t.root (top (⟨s, c, x, u⟩ :: ctx)) = (m.eraseTurn s x).bind fun r =>
      if r.2 then r.1.paint r.1.rbNode .black else rbEraseColor fuel r.1 (some x) (r.1.rbParent x) := by
  have hat := h.at_frame
  have hne : u.root ≠ t.root := by
    cases t with
    | nil => exact fun hroot => hu (root_eq_none_iff.1 hroot)
    | node d l a r => exact h.sib_root_ne rfl
  have hside := hat.side_eq hne
  have hderef : m.deref (top (⟨s, c, x, u⟩ :: ctx)) = some x := hat.deref
  rw [rbEraseColor, h.isRed_eq ht, Option.bind_some,
    if_pos ⟨rfl, fun hroot => List.cons_ne_nil _ _ (h.root_eq_iff.1 hroot)⟩,
    hderef, Option.bind_some, hside]

/-- `__rb_erase_color` with turns enough. -/
theorem rebalanced (fuel : Nat) (h : m.View ctx t) (ht : t.IsBlack) (hb : Balanced t n)
    (hf : Fits ctx (n + 1)) (hlt : ctx.length < fuel) : m.Rebalanced fuel ctx t := by
  induction fuel generalizing m ctx t n with
  | zero => omega
  | succ fuel ih =>
    match ctx with
    | [] => exact rebalanced_nil h ht hb fuel
    | ⟨s, c, x, u⟩ :: ctx =>
      have hu : u ≠ nil := ne_nil_of_balanced hf.1
      obtain ⟨m₁, c₁, u₁, ctx₁, hraise, hkept₁, hview₁, hblack₁, hf₁, hlist₁, hc₁⟩ :=
        (view_cons.1 h).raiseOther hu hf
      obtain ⟨hbal₁, hred₁, hf₁⟩ := hf₁
      obtain ⟨d, i, y, r, rfl⟩ := exists_join s (ne_nil_of_balanced hbal₁)
      obtain rfl : d = .black := isBlack_join.1 hblack₁
      obtain ⟨bi, br⟩ := balanced_join_black.1 hbal₁
      have hrun := rebalanced_turn fuel h ht hu
      rw [HpMap.eraseTurn, hraise, Option.bind_some] at hrun
      by_cases hboth : i.IsBlack ∧ r.IsBlack
      · obtain ⟨m₂, hup, hkept₂, hview₂⟩ := hview₁.eraseBlack_up hboth.1 hboth.2
        rw [hup, Option.bind_some, if_neg (by simp), hview₂.at_join.parent] at hrun
        have hrest : m₂.Rebalanced fuel ctx₁ (join s c₁ t x (join s .red i y r)) := by
          cases c₁ with
          | red =>
            obtain ⟨fuel, rfl⟩ := Nat.exists_eq_add_of_lt
              (Nat.lt_of_lt_of_le (Nat.succ_pos ctx.length) (Nat.le_of_lt_succ hlt))
            exact rebalanced_red hview₂ hb (balanced_join_red.2 ⟨hboth.1, hboth.2, bi, br⟩) hf₁ _
          | black =>
            obtain rfl : ctx₁ = ctx := hc₁.resolve_left nofun
            exact ih hview₂ (isBlack_join.2 rfl)
              (balanced_join_black.2 ⟨hb, balanced_join_red.2 ⟨hboth.1, hboth.2, bi, br⟩⟩) hf₁
                (Nat.lt_of_succ_lt_succ hlt)
        obtain ⟨m', T, hrest, hholds, hT, hkept⟩ := hrest
        rw [root_join] at hrest
        refine ⟨m', T, hrun.trans hrest, hholds, ?_, hkept₁.trans (hkept₂.trans hkept)⟩
        calc T.toList = (plug ctx₁ (join s c₁ t x (join s .red i y r))).toList := hT
          _ = (plug ctx₁ (join s c₁ t x (join s .black i y r))).toList :=
            @toList_plug_congr _ _ _ ctx₁ (toList_join_congr rfl (toList_join_congr rfl rfl))
          _ = (plug ctx (join s c t x u)).toList := hlist₁
      · obtain ⟨m₂, v, hend, hkept₂, hview₂, ⟨bv, hv⟩, hlist₂⟩ := hview₁.eraseBlack_end hboth hb bi br
        rw [hend, Option.bind_some, if_pos rfl] at hrun
        obtain ⟨hview, hbal, hblack⟩ := holds_plug hview₂ hf₁ bv (hv.imp_right fun hc => (hred₁ hc).2)
        obtain ⟨m', hpaint, hkept, hview'⟩ := hview.paint_of_black hblack
        have hroot : m₂.rbNode = (plug ctx₁ v).root := hview.around
        refine ⟨m', _, hrun.trans (hroot ▸ hpaint), ⟨hview', hbal, hblack⟩, ?_,
          hkept₁.trans (hkept₂.trans hkept)⟩
        exact (@toList_plug_congr _ _ _ ctx₁ hlist₂).trans hlist₁

/-! ### The node that leaves its place -/

theorem View.adopt_child (h : m.View ctx (join s c nil a u)) :
    ∃ m', m.adopt u.root (top ctx) = some m' ∧ Kept m m' ∧
      m'.CtxShape ctx (some a) (u.size + 1) ∧ m'.Shape (top ctx) u ∧ ∀ b, b ∉ u.toList →
      Same m m' b := by
  obtain ⟨haround, hshape, hnodup⟩ := h
  obtain ⟨-, -, hu⟩ := shape_join.1 hshape
  rw [root_join, size_join, show nil.size + u.size + 1 = u.size + 1 from congrArg (· + 1)
    (Nat.zero_add _)] at haround
  have hperm := (perm_join.append_right _).nodup_iff.1 hnodup
  obtain ⟨-, hrest⟩ := List.nodup_cons.1 hperm
  obtain ⟨hnu, -, hdisj⟩ := List.nodup_append'.1 hrest
  obtain ⟨m', hrun, hu', hkept, hroot, hsame⟩ := hu.adopt hnu (top ctx)
  have hsame' : ∀ b, b ∉ u.toList → Same m m' b :=
    fun b hb => hsame b fun hr => hb (mem_toList_of_root hr)
  exact ⟨m', hrun, hkept, haround.congr hroot fun b hb => hsame' b fun hin => hdisj hin hb, hu', hsame'⟩

theorem View.nodup_join (h : m.View ctx (join s c nil a u)) :
    a ∉ u.toList ∧ a ∉ elems ctx ∧ (u.toList ++ elems ctx).Nodup := by
  have hperm := (perm_join.append_right _).nodup_iff.1 h.nodup
  rw [List.cons_append, List.nodup_cons, List.mem_append, not_or] at hperm
  exact ⟨fun hin => hperm.1.1 (List.mem_append_right _ hin), hperm.1.2, hperm.2⟩

/-- `rb_erase` of a node with one child, up to the colours. -/
theorem View.unlink (h : m.View ctx (join s c nil a u)) :
    ∃ m₁ m₂ m', m.adopt u.root (top ctx) = some m₁ ∧
      HpMap.decWeights m₁.fuel m₁ (top ctx) = some m₂ ∧
      m₂.replaceChild .left (top ctx) a u.root = some m' ∧ m'.View ctx u ∧
      Kept m m' := by
  obtain ⟨m₁, hadopt, hkept₁, haround₁, hu₁, hsame₁⟩ := h.adopt_child
  obtain ⟨hau, hactx, hnodup⟩ := h.nodup_join
  obtain ⟨-, hctx, hdisj⟩ := List.nodup_append'.1 hnodup
  have hfuel : ctx.length ≤ m₁.fuel := by
    rw [hkept₁.fuel, HpMap.fuel]
    exact (Nat.le_add_left _ _).trans (h.length_le.trans (Nat.le_succ _))
  obtain ⟨m₂, hdec, haround₂, hkept₂, -, hsame₂⟩ := haround₁.decWeights hctx hfuel
  obtain ⟨m', hreplace, haround', hkept', hsame'⟩ := haround₂.replaceChild hctx hactx .left u.root
  refine ⟨m₁, m₂, m', hadopt, hdec, hreplace, ⟨haround', hu₁.congr fun b hb => ?_, hnodup⟩,
    hkept₁.trans (hkept₂.trans hkept')⟩
  exact (hsame₂ b (hdisj hb)).trans (hsame' b (hdisj hb))

theorem CtxShape.decWeights_from {p q : Option Nat} (h : m.CtxShape ctx p (n + 1))
    (hnodup : (elems ctx).Nodup) (ha : m.rbParent a = top ctx) (hlive : a ∈ m.live)
    (hactx : a ∉ elems ctx) (hq : q = top ctx ∨ q = some a) {fuel : Nat} (hlt : ctx.length < fuel) :
    ∃ m', HpMap.decWeights fuel m q = some m' ∧ m'.CtxShape ctx p n ∧ Kept m m' ∧
      ∀ b, b ≠ a → b ∉ elems ctx → Same m m' b := by
  by_cases htop : q = top ctx
  · obtain ⟨m', hrun, haround, hkept, -, hsame⟩ := h.decWeights hnodup hlt.le
    exact ⟨m', htop ▸ hrun, haround, hkept, fun b _ => hsame b⟩
  · obtain rfl := hq.resolve_left htop
    obtain ⟨fuel, rfl⟩ := Nat.exists_eq_add_of_lt hlt
    have hsame₁ : ∀ b, b ≠ a → Same m (m.setWeight a (wrapInt (m.weight a - 1))) b :=
      fun b => same_setWeight
    have haround₁ : (m.setWeight a (wrapInt (m.weight a - 1))).CtxShape ctx p (n + 1) := by
      refine h.congr rfl fun b hb => hsame₁ b ?_
      rintro rfl
      exact hactx hb
    have hkept₁ : Kept m (m.setWeight a (wrapInt (m.weight a - 1))) := ⟨rfl, rfl, rfl, rfl⟩
    obtain ⟨m', hrun, haround, hkept, -, hsame⟩ :=
      haround₁.decWeights hnodup (Nat.le_add_right ctx.length fuel)
    refine ⟨m', ?_, haround, hkept₁.trans hkept, fun b hb hctx => (hsame₁ b hb).trans (hsame b hctx)⟩
    rw [HpMap.decWeights, deref_of_live hlive, Option.bind_some, ha]
    exact hrun

theorem View.unlink_next {q : Option Nat} (h : m.View ctx (join s c nil a u))
    (hq : q = top ctx ∨ q = some a) :
    ∃ m₁ m₂ m', m.adopt u.root (top ctx) = some m₁ ∧
      m₁.replaceChild .left (top ctx) a u.root = some m₂ ∧
      m₂.rbParent a = top ctx ∧ HpMap.decWeights m₂.fuel m₂ q = some m' ∧
      m'.View ctx u ∧ Kept m m' := by
  obtain ⟨m₁, hadopt, hkept₁, haround₁, hu₁, hsame₁⟩ := h.adopt_child
  obtain ⟨hau, hactx, hnodup⟩ := h.nodup_join
  obtain ⟨-, hctx, hdisj⟩ := List.nodup_append'.1 hnodup
  obtain ⟨m₂, hreplace, haround₂, hkept₂, hsame₂⟩ := haround₁.replaceChild hctx hactx .left u.root
  have hsame : Same m m₂ a := (hsame₁ a hau).trans (hsame₂ a hactx)
  have hparent : m₂.rbParent a = top ctx := hsame.parent.trans h.at_join.parent
  have hlen : nil.size + u.size + 1 + ctx.length ≤ m.live.length := size_join ▸ h.length_le
  have hfuel : ctx.length < m₂.fuel := by
    rw [hkept₂.fuel, hkept₁.fuel, HpMap.fuel]
    omega
  obtain ⟨m', hdec, haround', hkept', hsame'⟩ :=
    haround₂.decWeights_from hctx hparent (hsame.live h.at_join.live) hactx hq hfuel
  refine ⟨m₁, m₂, m', hadopt, hreplace, hparent, hdec, ⟨haround', hu₁.congr fun b hb => ?_, hnodup⟩,
    hkept₁.trans (hkept₂.trans hkept')⟩
  refine (hsame₂ b (hdisj hb)).trans (hsame' b ?_ (hdisj hb))
  rintro rfl
  exact hau hb

theorem Shape.descend {q : Option Nat} (h : m.Shape q (plug ctx (join s c nil y u))) (hs : Spine s ctx)
    (ha : (plug ctx (join s c nil y u)).root = some a) {fuel : Nat} (hlt : ctx.length < fuel) :
    m.descend s fuel a = some y := by
  induction ctx using List.reverseRecOn generalizing q a fuel with
  | nil =>
    obtain ⟨fuel, rfl⟩ := Nat.exists_eq_add_of_lt hlt
    obtain rfl : y = a := Option.some.inj (root_join.symm.trans ha)
    have hchild : m.rbChild s y = none := (shape_join.1 h).1.child
    rw [HpMap.descend, if_pos hchild]
  | append_singleton ctx f ih =>
    rw [List.length_append, List.length_singleton] at hlt
    obtain ⟨fuel, rfl⟩ := Nat.exists_eq_add_of_lt (Nat.lt_of_succ_lt hlt)
    obtain rfl : f.side = s := hs f (List.mem_append_right _ List.mem_cons_self)
    rw [plug_append] at h ha
    obtain ⟨hat, hsub, -⟩ := shape_join.1 h
    obtain rfl : f.elem = a := Option.some.inj (root_join.symm.trans ha)
    have hne : plug ctx (join f.side c nil y u) ≠ nil := plug_ne_nil join_ne_nil
    obtain ⟨d, l, b, r, hjoin⟩ := exists_join .left hne
    have hroot : (plug ctx (join f.side c nil y u)).root = some b := by rw [hjoin, root_join]
    have hchild : m.rbChild f.side f.elem = some b := hat.child.trans hroot
    have hlive : b ∈ m.live := hsub.live b (mem_toList_of_root hroot)
    rw [HpMap.descend, hchild, if_neg nofun, deref_of_live hlive, Option.bind_some]
    exact ih hsub (fun g hg => hs g (List.mem_append_left _ hg)) hroot (by omega)

theorem View.takePlace (h : m.View ctx (node c l x r)) (hl : l ≠ nil) (hy : y ∈ m.live)
    (hnew : y ∉ (node c l x r).toList ++ elems ctx) :
    ∃ m', m.takePlace y x = some m' ∧ m'.View ctx (node c l y r) ∧
      Kept m m' := by
  obtain ⟨haround, ⟨hat, hshl, hshr⟩, hnodup⟩ := h
  have hperm : ∀ z, ((node c l z r).toList ++ elems ctx).Perm
      (z :: (l.toList ++ r.toList ++ elems ctx)) := fun z =>
    List.perm_middle.append_right _
  have hnodup' := (hperm x).nodup_iff.1 hnodup
  rw [(hperm x).mem_iff, List.mem_cons, not_or] at hnew
  obtain ⟨hyx, hyrest⟩ := hnew
  have hnodupy : ((node c l y r).toList ++ elems ctx).Nodup :=
    (hperm y).nodup_iff.2 (List.nodup_cons.2 ⟨hyrest, (List.nodup_cons.1 hnodup').2⟩)
  rw [List.nodup_cons, List.nodup_append', List.nodup_append'] at hnodup'
  simp only [List.mem_append, not_or] at hnodup' hyrest
  obtain ⟨⟨⟨hxl, hxr⟩, hxctx⟩, ⟨hnl, hnr, hlr⟩, hctx, hdisj⟩ := hnodup'
  obtain ⟨⟨hyl, hyr⟩, hyctx⟩ := hyrest
  -- the fields go over to `y`
  set m₁ := ((((m.setParent y (m.rbParent x)).setColor y (m.rbColor x)).setWeight y
    (m.weight x)).setChild .right y (m.rbChild .right x)).setChild .left y (m.rbChild .left x) with
        hm₁
  have hsame₁ : ∀ b, b ≠ y → Same m m₁ b := fun b hb =>
    (((same_setParent hb).trans (same_setColor hb)).trans (same_setWeight hb)).trans
      ((same_setChild hb).trans (same_setChild hb))
  have haty₀ : m.At .left y (m.rbParent y) (m.rbColor y) (m.rbChild .left y)
      (m.rbChild .right y) (m.weight y) :=
    ⟨hy, rfl, rfl, rfl, rfl, rfl⟩
  have haty₁ : m₁.At .left y (m.rbParent x) (m.rbColor x) (m.rbChild .left x)
      (m.rbChild .right x) (m.weight x) :=
    ((((haty₀.setParent _).setColor _).setWeight _).setOther _).setChild _
  rw [hat.parent, hat.color, hat.child, hat.weight,
    show m.rbChild .right x = r.root from hat.other] at haty₁
  have hatx₁ := hat.same (hsame₁ x (Ne.symm hyx))
  have hne : ∀ {b : Nat} {as : List Nat}, y ∉ as → b ∈ as → b ≠ y := by
    rintro b as hnot hb rfl
    exact hnot hb
  have haround₁ : m₁.CtxShape ctx (some x) (node c l x r).size :=
    haround.congr rfl fun b hb => hsame₁ b (hne hyctx hb)
  -- the path leads to `y`, and the subtrees lead back to it
  obtain ⟨m₂, hreplace, haround₂, hkept₂, hsame₂⟩ := haround₁.replaceChild hctx hxctx .left (some y)
  have hdl : ∀ b ∈ l.toList, b ∉ elems ctx := fun b hb => hdisj (List.mem_append_left _ hb)
  have hdr : ∀ b ∈ r.toList, b ∉ elems ctx := fun b hb => hdisj (List.mem_append_right _ hb)
  have hshl₂ : m₂.Shape (some x) l :=
    hshl.congr fun b hb => (hsame₁ b (hne hyl hb)).trans (hsame₂ b (hdl b hb))
  have hshr₂ : m₂.Shape (some x) r :=
    hshr.congr fun b hb => (hsame₁ b (hne hyr hb)).trans (hsame₂ b (hdr b hb))
  obtain ⟨m₃, hadoptl, hshl₃, hkept₃, hroot₃, hsame₃⟩ := hshl₂.adopt hnl (some y)
  have hoffl : ∀ b, b ∉ l.toList → Same m₂ m₃ b := fun b hb => hsame₃ b fun hroot =>
    hb (mem_toList_of_root hroot)
  have hshr₃ : m₃.Shape (some x) r := hshr₂.congr fun b hb => hoffl b fun hin => hlr hin hb
  obtain ⟨m₄, hadoptr, hshr₄, hkept₄, hroot₄, hsame₄⟩ := hshr₃.adopt hnr (some y)
  have hoffr : ∀ b, b ∉ r.toList → Same m₃ m₄ b := fun b hb => hsame₄ b fun hroot =>
    hb (mem_toList_of_root hroot)
  have hatx₂ := hatx₁.same (hsame₂ x hxctx)
  have hoff : ∀ b, b ∉ l.toList → b ∉ r.toList → Same m₂ m₄ b :=
    fun b hbl hbr => (hoffl b hbl).trans (hoffr b hbr)
  refine ⟨m₄, ?_, ⟨?_, ⟨?_, ?_, hshr₄⟩, hnodupy⟩, ?_⟩
  · obtain ⟨d, l', b, r', rfl⟩ := exists_join .left hl
    have hderef : m₂.deref (some b) = some b := hshl₂.1.deref
    have hm₃ : m₃ = m₂.setParent b (some y) := by
      rw [root_join, HpMap.adopt, if_neg (Option.some_ne_none _), hderef] at hadoptl
      exact (Option.some.inj hadoptl).symm
    have hleft : m₂.rbChild .left x = some b := hatx₂.child
    have hright : m₂.rbChild .right x = r.root := hatx₂.other
    show (m₁.replaceChild .left (m₁.rbParent x) x (some y)).bind _ = some m₄
    rw [hatx₁.parent, hreplace, Option.bind_some]
    show (m₂.deref (m₂.rbChild .left x)).bind _ = some m₄
    rw [hleft, hderef, Option.bind_some, hright, ← hm₃, hadoptr]
  · refine haround₂.congr (hroot₄.trans hroot₃) fun b hb =>
      hoff b (fun hin => hdl b hin hb) fun hin => hdr b hin hb
  · exact haty₁.same ((hsame₂ y hyctx).trans (hoff y hyl hyr))
  · exact hshl₃.congr fun b hb => hoffr b fun hin => hlr hb hin
  · exact (⟨rfl, rfl, rfl, rfl⟩ : Kept m m₁).trans (hkept₂.trans (hkept₃.trans hkept₄))

/-! ### `rb_erase` -/

theorem View.recolor (h : m.View ctx u) (hf : Fits ctx (k + height c)) (bu : Balanced u k)
    (hu : c = .red → u.IsBlack) :
    ∃ m' T, m.recolor c u.root (top ctx) = some m' ∧ Holds m' T ∧
      T.toList = (plug ctx u).toList ∧ Kept m m' := by
  cases c with
  | red => exact ⟨m, plug ctx u, rfl, holds_plug h hf bu (.inl (hu rfl)), rfl, .refl m⟩
  | black =>
    have hlen := h.length_le
    have hrest : m.Rebalanced m.fuel ctx u := by
      by_cases hblack : u.IsBlack
      · exact rebalanced m.fuel h hblack bu hf (Nat.lt_succ_of_le ((Nat.le_add_left _ _).trans hlen))
      · obtain ⟨l, b, r, rfl⟩ := exists_join_red .left hblack
        obtain ⟨-, -, bl, br⟩ := balanced_join_red.1 bu
        exact rebalanced_red h bl br hf _
    obtain ⟨m', T, hrun, hholds, hlist, hkept⟩ := hrest
    exact ⟨m', T, hrun, hholds, hlist, hkept⟩

/-- `rb_erase` of a node with one child, or none. -/
theorem View.eraseOne (h : m.View ctx (join s c nil a u))
    (hb : Balanced (plug ctx (join s c nil a u)) k) (hblack : (plug ctx (join s c nil a u)).IsBlack) :
    ∃ m' T, m.eraseOne a u.root = some m' ∧ Holds m' T ∧
      T.toList = (plug ctx u).toList ∧ Kept m m' := by
  obtain ⟨n, hf, hbal, -⟩ := fits_of_balanced_plug hb hblack
  obtain ⟨j, rfl, -, bu, hred⟩ := exists_of_balanced_join hbal
  obtain ⟨m₁, m₂, m₃, hadopt, hdec, hreplace, hview, hkept⟩ := h.unlink
  obtain ⟨m', T, hrecolor, hholds, hlist, hkept'⟩ := hview.recolor hf bu fun hc => (hred hc).2
  refine ⟨m', T, ?_, hholds, hlist, hkept.trans hkept'⟩
  have hat := h.at_join
  simp only [HpMap.eraseOne, hat.parent, hat.color, hadopt, hdec, hreplace, Option.bind_eq_bind,
    Option.bind_some, hrecolor]

/-- `rb_erase` of a node with two children, where `y` is the next one. -/
theorem View.eraseTwo {ictx : List (Frame Nat)}
    (h : m.View ctx (node c l x (plug ictx (join .left d nil y u)))) (hl : l ≠ nil)
    (hs : Spine .left ictx)
    (hb : Balanced (plug ctx (node c l x (plug ictx (join .left d nil y u)))) k)
    (hblack : (plug ctx (node c l x (plug ictx (join .left d nil y u)))).IsBlack) :
    ∃ m' T, m.eraseTwo x = some m' ∧ Holds m' T ∧
      T.toList = (plug ctx (node c l y (plug ictx u))).toList ∧ Kept m m' := by
  obtain ⟨hat, -, hright⟩ := h.shape
  -- the next node, at the end of its own path
  have hy : m.View (ictx ++ ⟨.right, c, x, l⟩ :: ctx) (join .left d nil y u) :=
    view_plug.2 (view_cons.2 h)
  have hplug : ∀ {t : ColorTree Nat} {z : Nat}, plug (ictx ++ ⟨.right, c, z, l⟩ :: ctx) t =
      plug ctx (node c l z (plug ictx t)) :=
    plug_append
  rw [← hplug] at hb hblack
  obtain ⟨n, hf, hbal, -⟩ := fits_of_balanced_plug hb hblack
  obtain ⟨j, rfl, -, bu, hred⟩ := exists_of_balanced_join hbal
  have hne : plug ictx (join .left d nil y u) ≠ nil := plug_ne_nil join_ne_nil
  obtain ⟨d', l', b, r', hjoin⟩ := exists_join .left hne
  have hroot : (plug ictx (join .left d nil y u)).root = some b := by rw [hjoin, root_join]
  have hchild : m.deref (m.rbChild .right x) = some b := by
    rw [show m.rbChild .right x = _ from hat.other, hroot,
      deref_of_live (hright.live b (mem_toList_of_root hroot))]
  have hlen := hy.length_le
  rw [List.length_append, List.length_cons] at hlen
  have hdescend : m.descend .left m.fuel b = some y :=
    hright.descend hs hroot (by rw [HpMap.fuel]; omega)
  -- it leaves that place
  obtain ⟨hyu, hyctx, -⟩ := hy.nodup_join
  set q := if m.rbParent y = some x then some y else top (ictx ++ ⟨.right, c, x, l⟩ :: ctx) with hq
  obtain ⟨m₁, m₂, m₃, hadopt, hreplace, hparent, hdec, hview₃, hkept₃⟩ := hy.unlink_next (q := q) (by
    rw [hq]
    split
    · exact .inr rfl
    · exact .inl rfl)
  -- and takes the other one
  have hnew : y ∉ (node c l x (plug ictx u)).toList ++ elems ctx := by
    rw [← perm_plug.mem_iff, ← hplug, perm_plug.mem_iff, List.mem_append]
    exact fun hin => hin.elim hyu hyctx
  obtain ⟨m₄, htake, hview₄, hkept₄⟩ :=
    View.takePlace (view_cons.1 (view_plug.1 hview₃)) hl (hkept₃.live ▸ hy.at_join.live) hnew
  have hview₅ : m₄.View (ictx ++ ⟨.right, c, y, l⟩ :: ctx) u := view_plug.2 (view_cons.2 hview₄)
  have haty := hy.at_join
  have htop : top (ictx ++ ⟨.right, c, y, l⟩ :: ctx) = q := by
    rw [hq, haty.parent]
    cases ictx with
    | nil => exact (if_pos rfl).symm
    | cons g ictx =>
      refine (if_neg fun hg => ?_).symm
      obtain rfl : g.elem = x := Option.some.inj hg
      have hnodup := (List.nodup_append'.1 hy.nodup).2.1
      rw [List.cons_append, elems_cons, List.cons_append, List.nodup_cons] at hnodup
      refine hnodup.1 (List.mem_append_right _ ?_)
      rw [elems, List.flatMap_append]
      exact List.mem_append_right _ List.mem_cons_self
  obtain ⟨m', T, hrecolor, hholds, hlist, hkept'⟩ :=
    hview₅.recolor (fits_swap hf) bu fun hc => (hred hc).2
  refine ⟨m', T, ?_, hholds, hplug ▸ hlist, hkept₃.trans (hkept₄.trans hkept')⟩
  have hright : m.rbChild .right y = u.root := haty.other
  rw [htop] at hrecolor
  rw [haty.parent] at hq
  simp only [HpMap.eraseTwo, hchild, hdescend, hright, haty.color, haty.parent, hadopt, hreplace,
    hparent, ← hq, hdec, htake, Option.bind_eq_bind, Option.bind_some, hrecolor]

/-- The map after a deletion has the keys and values that it had, and one node less. -/
structure Shrunk (m m' : HpMap K V) : Prop where
  first : m'.first = m.first
  second : m'.second = m.second
  size : m'.size = wrapInt (m.size - 1)
  live : m'.live = m.live

theorem Holds.rbErase (h : m.Holds T) (ha : a ∈ T.toList) :
    ∃ m' T' L R, m.rbErase a = some m' ∧ m'.Holds T' ∧ Shrunk m m' ∧
      T.toList = L ++ a :: R ∧ T'.toList = L ++ R := by
  obtain ⟨hview, ⟨k, hb⟩, hblack⟩ := h
  obtain ⟨ctx, c, l, r, rfl⟩ := exists_plug_of_mem ha
  set m₀ : HpMap K V := { m with size := wrapInt (m.size - 1) } with hm₀
  have hview₀ : m₀.View ctx (node c l a r) := by
    have hroot : m₀.View [] (plug ctx (node c l a r)) :=
      ⟨hview.around, hview.shape.congr fun b _ => ⟨id, rfl, rfl, fun _ => rfl, rfl⟩, hview.nodup⟩
    exact List.append_nil ctx ▸ view_plug.2 hroot
  have hshrunk : ∀ {m'}, Kept m₀ m' → Shrunk m m' :=
    fun hkept => ⟨hkept.first, hkept.second, hkept.size, hkept.live⟩
  have hat : m₀.At .left a (top ctx) c l.root r.root (wrapInt (l.size + r.size + 1 : Nat)) :=
    hview₀.shape.1
  have hleft : m₀.rbChild .left a = l.root := hat.child
  have hright : m₀.rbChild .right a = r.root := hat.other
  have hrun : m.rbErase a = if l.root = none then m₀.eraseOne a r.root
      else if r.root = none then m₀.eraseOne a l.root else m₀.eraseTwo a := by
    rw [← hleft, ← hright]
    rfl
  have hlist : (plug ctx (node c l a r)).toList =
      before ctx ++ (l.toList ++ a :: r.toList) ++ after ctx := toList_plug
  by_cases hl : l = nil
  · subst hl
    obtain ⟨m', T', herase, hholds, hlist', hkept⟩ := View.eraseOne (s := .left) hview₀ hb hblack
    refine ⟨m', T', before ctx, r.toList ++ after ctx, hrun.trans ((if_pos rfl).trans herase),
      hholds, hshrunk hkept, ?_, ?_⟩
    · rw [hlist, toList, List.nil_append, List.append_assoc, List.cons_append]
    · rw [hlist', toList_plug, List.append_assoc]
  · by_cases hr : r = nil
    · subst hr
      obtain ⟨m', T', herase, hholds, hlist', hkept⟩ := View.eraseOne (s := .right) hview₀ hb hblack
      refine ⟨m', T', before ctx ++ l.toList, after ctx, hrun.trans ?_, hholds, hshrunk hkept, ?_, ?_⟩
      · rw [if_neg fun hroot => hl (root_eq_none_iff.1 hroot)]
        exact (if_pos rfl).trans herase
      · rw [hlist, toList, List.append_assoc, List.append_assoc, List.append_assoc]
        rfl
      · rw [hlist', toList_plug]
    · obtain ⟨ictx, d, y, u, rfl, hs⟩ := exists_spine .left hr
      obtain ⟨m', T', herase, hholds, hlist', hkept⟩ := hview₀.eraseTwo hl hs hb hblack
      have hbefore : before ictx = [] := before_spine hs
      refine ⟨m', T', before ctx ++ l.toList, y :: u.toList ++ after ictx ++ after ctx,
        hrun.trans ?_, hholds, hshrunk hkept, ?_, ?_⟩
      · rw [if_neg fun hroot => hl (root_eq_none_iff.1 hroot),
          if_neg fun hroot => hr (root_eq_none_iff.1 hroot), herase]
      · rw [hlist, toList_plug, hbefore]
        simp [join, toList]
      · rw [hlist', toList_plug, toList, toList_plug, hbefore]
        simp

end HpMap

end Resend.Udp

import Resend.Udp.HpMap

/-!
# Trees in the nodes

What it means that the nodes of the map hold a tree, as a whole and seen from a path into it, and
what the steps that all operations share do to it: a new colour, a new child, a rotation.
-/

namespace Resend.Udp

namespace HpMap
open ColorTree
variable {K V : Type} {m m' m'' : HpMap K V} {s : Side} {a b x y : Nat} {q q' p p' : Option Nat}
  {c c' : Color} {w w' : Int}

/-- The fields of the node `a`, seen from side `s`. -/
structure At (m : HpMap K V) (s : Side) (a : Nat) (q : Option Nat) (c : Color) (p p' : Option Nat)
    (w : Int) : Prop where
  live : a ∈ m.live
  parent : m.rbParent a = q
  color : m.rbColor a = c
  child : m.rbChild s a = p
  other : m.rbChild s.opp a = p'
  weight : m.weight a = w

/-- The node `a` is the same in both. -/
structure Same (m m' : HpMap K V) (a : Nat) : Prop where
  live : a ∈ m.live → a ∈ m'.live
  parent : m'.rbParent a = m.rbParent a
  color : m'.rbColor a = m.rbColor a
  child : ∀ s, m'.rbChild s a = m.rbChild s a
  weight : m'.weight a = m.weight a

/-- What no step changes that only moves nodes around. -/
structure Kept (m m' : HpMap K V) : Prop where
  first : m'.first = m.first
  second : m'.second = m.second
  size : m'.size = m.size
  live : m'.live = m.live

theorem Kept.refl (m : HpMap K V) : Kept m m := ⟨rfl, rfl, rfl, rfl⟩

theorem Kept.trans (h : Kept m m') (h' : Kept m' m'') : Kept m m'' :=
  ⟨h'.first.trans h.first, h'.second.trans h.second, h'.size.trans h.size, h'.live.trans h.live⟩

theorem Kept.fuel (h : Kept m m') : m'.fuel = m.fuel := by rw [HpMap.fuel, h.live, HpMap.fuel]

theorem Same.refl (m : HpMap K V) (a : Nat) : Same m m a := ⟨id, rfl, rfl, fun _ => rfl, rfl⟩

theorem Same.trans (h : Same m m' a) (h' : Same m' m'' a) : Same m m'' a :=
  ⟨fun ha => h'.live (h.live ha), h'.parent.trans h.parent, h'.color.trans h.color,
    fun s => (h'.child s).trans (h.child s), h'.weight.trans h.weight⟩

theorem same_setParent (h : a ≠ b) : Same m (m.setParent b q) a :=
  ⟨id, Function.update_of_ne h .., rfl, fun _ => rfl, rfl⟩

theorem same_setColor (h : a ≠ b) : Same m (m.setColor b c) a :=
  ⟨id, rfl, Function.update_of_ne h .., fun _ => rfl, rfl⟩

theorem same_setWeight (h : a ≠ b) : Same m (m.setWeight b w) a :=
  ⟨id, rfl, rfl, fun _ => rfl, Function.update_of_ne h ..⟩

theorem setChild_child : (m.setChild s a p).rbChild s a = p := by
  show Function.update m.rbChild s _ s a = p
  rw [Function.update_self, Function.update_self]

theorem setChild_of_ne {s' : Side} (h : s' ≠ s ∨ b ≠ a) :
    (m.setChild s a p).rbChild s' b = m.rbChild s' b := by
  show Function.update m.rbChild s _ s' b = _
  by_cases hs : s' = s
  · rw [hs, Function.update_self, Function.update_of_ne (h.resolve_left (not_not.2 hs))]
  · rw [Function.update_of_ne hs]

theorem same_setChild (h : a ≠ b) : Same m (m.setChild s b p) a :=
  ⟨id, rfl, rfl, fun _ => setChild_of_ne (.inr h), rfl⟩

theorem At.same (h : m.At s a q c p p' w) (hs : Same m m' a) : m'.At s a q c p p' w :=
  ⟨hs.live h.live, hs.parent.trans h.parent, hs.color.trans h.color, (hs.child s).trans h.child,
    (hs.child _).trans h.other, hs.weight.trans h.weight⟩

theorem At.opp (h : m.At s a q c p p' w) : m.At s.opp a q c p' p w :=
  ⟨h.live, h.parent, h.color, h.other, (Side.opp_opp s).symm ▸ h.child, h.weight⟩

theorem At.setParent (h : m.At s a q c p p' w) (q' : Option Nat) :
    (m.setParent a q').At s a q' c p p' w :=
  { h with parent := Function.update_self .. }

theorem At.setColor (h : m.At s a q c p p' w) (c' : Color) : (m.setColor a c').At s a q c' p p' w :=
  { h with color := Function.update_self .. }

theorem At.setWeight (h : m.At s a q c p p' w) (w' : Int) : (m.setWeight a w').At s a q c p p' w' :=
  { h with weight := Function.update_self .. }

theorem At.setChild (h : m.At s a q c p p' w) (r : Option Nat) : (m.setChild s a r).At s a q c r p' w :=
  { h with child := setChild_child, other := (setChild_of_ne (.inl s.opp_ne)).trans h.other }

theorem At.setOther (h : m.At s a q c p p' w) (r : Option Nat) :
    (m.setChild s.opp a r).At s a q c p r w :=
  { h with child := (setChild_of_ne (.inl s.opp_ne.symm)).trans h.child, other := setChild_child }

theorem deref_of_live (h : a ∈ m.live) : m.deref (some a) = some a := by
  rw [deref, Option.filter_some, if_pos (decide_eq_true h)]

theorem At.deref (h : m.At s a q c p p' w) : m.deref (some a) = some a := deref_of_live h.live

/-! ### Shapes -/

/-- The nodes hold the tree below `q`, each with the number of nodes below it. -/
def Shape (m : HpMap K V) : Option Nat → ColorTree Nat → Prop
  | _, .nil => True
  | q, .node c l a r => m.At .left a q c l.root r.root (wrapInt (l.size + r.size + 1 : Nat)) ∧
    m.Shape (some a) l ∧ m.Shape (some a) r

/-- The nodes on the path hold it, where the way down ends in the pointer `p` to `n` nodes. -/
def CtxShape (m : HpMap K V) : List (Frame Nat) → Option Nat → Nat → Prop
  | [], p, _ => m.rbNode = p
  | f :: ctx, p, n =>
    m.At f.side f.elem (top ctx) f.color p f.sib.root (wrapInt (n + f.sib.size + 1 : Nat)) ∧
      m.Shape (some f.elem) f.sib ∧ m.CtxShape ctx (some f.elem) (n + f.sib.size + 1)

/-- The map is the tree `t` at the end of the path, with each node in one place. -/
structure View (m : HpMap K V) (ctx : List (Frame Nat)) (t : ColorTree Nat) : Prop where
  around : m.CtxShape ctx t.root t.size
  shape : m.Shape (top ctx) t
  nodup : (t.toList ++ elems ctx).Nodup

variable {t t' u i r : ColorTree Nat} {ctx ctx' : List (Frame Nat)} {f : Frame Nat} {n k : Nat}

theorem shape_join : m.Shape q (join s c t a u) ↔
    m.At s a q c t.root u.root (wrapInt (t.size + u.size + 1 : Nat)) ∧
      m.Shape (some a) t ∧ m.Shape (some a) u := by
  cases s with
  | left => exact Iff.rfl
  | right =>
    constructor
    · rintro ⟨ha, hu, ht⟩
      exact ⟨Nat.add_comm u.size _ ▸ ha.opp, ht, hu⟩
    · rintro ⟨ha, ht, hu⟩
      exact ⟨Nat.add_comm t.size _ ▸ ha.opp, hu, ht⟩

theorem view_cons : m.View (f :: ctx) t ↔ m.View ctx (f.fill t) := by
  have hperm : (t.toList ++ elems (f :: ctx)).Perm ((f.fill t).toList ++ elems ctx) := by
    refine List.Perm.trans ?_ (perm_join.symm.append_right _)
    rw [elems_cons, List.cons_append, List.cons_append, List.append_assoc]
    exact List.perm_middle
  have hsize : (f.fill t).size = t.size + f.sib.size + 1 := size_join
  have hroot : (f.fill t).root = some f.elem := root_join
  constructor
  · rintro ⟨⟨hf, hsib, hctx⟩, ht, hnodup⟩
    exact ⟨hroot ▸ hsize ▸ hctx, shape_join.2 ⟨hf, ht, hsib⟩, hperm.nodup_iff.1 hnodup⟩
  · rintro ⟨hctx, hfill, hnodup⟩
    rw [hroot, hsize] at hctx
    obtain ⟨hf, ht, hsib⟩ := shape_join.1 hfill
    exact ⟨⟨hf, hsib, hctx⟩, ht, hperm.nodup_iff.2 hnodup⟩

theorem view_plug : m.View (ctx' ++ ctx) t ↔ m.View ctx (plug ctx' t) := by
  induction ctx' generalizing t with
  | nil => exact Iff.rfl
  | cons f ctx' ih => exact view_cons.trans ih

theorem view_sib : m.View (⟨s, c, a, u⟩ :: ctx) t ↔ m.View (⟨s.opp, c, a, t⟩ :: ctx) u := by
  rw [view_cons, view_cons, Frame.fill, Frame.fill]
  exact (join_opp (s := s)).symm ▸ Iff.rfl

theorem Shape.congr (h : m.Shape q t) (hs : ∀ a ∈ t.toList, Same m m' a) : m'.Shape q t := by
  induction t generalizing q with
  | nil => trivial
  | node c l a r hl hr =>
    obtain ⟨ha, hl', hr'⟩ := h
    refine ⟨ha.same (hs a (mem_toList_of_root rfl)), hl hl' fun b hb => hs b ?_,
      hr hr' fun b hb => hs b ?_⟩
    · exact List.mem_append_left _ hb
    · exact List.mem_append_right _ (List.mem_cons_of_mem _ hb)

theorem CtxShape.congr (h : m.CtxShape ctx p n) (hroot : m'.rbNode = m.rbNode)
    (hs : ∀ a ∈ elems ctx, Same m m' a) :
    m'.CtxShape ctx p n := by
  induction ctx generalizing p n with
  | nil => exact hroot.trans h
  | cons f ctx ih =>
    obtain ⟨hf, hsib, hctx⟩ := h
    rw [elems_cons] at hs
    refine ⟨hf.same (hs _ List.mem_cons_self), hsib.congr fun a ha => hs a ?_,
      ih hctx fun a ha => hs a ?_⟩
    · exact List.mem_cons_of_mem _ (List.mem_append_left _ ha)
    · exact List.mem_append_right _ ha

theorem Shape.deref_root (h : m.Shape q t) : m.deref t.root = t.root := by
  cases t with
  | nil => rfl
  | node c l a r => exact h.1.deref

theorem Shape.live (h : m.Shape q t) : ∀ a ∈ t.toList, a ∈ m.live := by
  induction t generalizing q with
  | nil => exact fun a ha => absurd ha List.not_mem_nil
  | node c l b r hl hr =>
    intro a ha
    rcases List.mem_append.1 ha with ha | ha
    · exact hl h.2.1 a ha
    · rcases List.mem_cons.1 ha with rfl | ha
      · exact h.1.live
      · exact hr h.2.2 a ha

theorem wrapInt_zero : wrapInt 0 = 0 := by decide +kernel

theorem Shape.weightOf (h : m.Shape q t) : m.weightOf t.root = some (wrapInt t.size) := by
  cases t with
  | nil => exact congrArg some wrapInt_zero.symm
  | node c l a r =>
    rw [HpMap.weightOf, if_neg nofun, h.deref_root]
    exact congrArg some h.1.weight

theorem Shape.isRed_of_black (h : m.Shape q t) (hb : t.IsBlack) : m.isRed t.root = some false := by
  cases t with
  | nil => rfl
  | node c l a r =>
    obtain rfl : c = .black := hb
    rw [HpMap.isRed, if_neg nofun, h.deref_root]
    refine congrArg some (decide_eq_false ?_)
    rw [h.1.color]
    decide

theorem Shape.isRed_of_red (h : m.Shape q (join s .red t a u)) : m.isRed (some a) = some true := by
  obtain ⟨ha, -⟩ := shape_join.1 h
  rw [HpMap.isRed, if_neg nofun, ha.deref]
  exact congrArg some (decide_eq_true ha.color)

/-! ### Steps -/

theorem Shape.adopt (h : m.Shape q t) (hnodup : t.toList.Nodup) (q' : Option Nat) :
    ∃ m', m.adopt t.root q' = some m' ∧
      m'.Shape q' t ∧ Kept m m' ∧ m'.rbNode = m.rbNode ∧ ∀ a, t.root ≠ some a → Same m m' a := by
  cases t with
  | nil => exact ⟨m, rfl, trivial, .refl m, rfl, fun a _ => .refl m a⟩
  | node c l a r =>
    obtain ⟨ha, hl, hr⟩ := h
    rw [toList, List.nodup_append, List.nodup_cons] at hnodup
    obtain ⟨-, ⟨har, -⟩, hdisj⟩ := hnodup
    have hsame : ∀ b, b ≠ a → Same m (m.setParent a q') b := fun b => same_setParent
    refine ⟨m.setParent a q', ?_, ⟨ha.setParent q', hl.congr fun b hb => hsame b ?_,
      hr.congr fun b hb => hsame b ?_⟩, ⟨rfl, rfl, rfl, rfl⟩, rfl, fun b hb => hsame b ?_⟩
    · rw [HpMap.adopt, root, if_neg (Option.some_ne_none _), ha.deref]
      rfl
    · exact hdisj b hb a List.mem_cons_self
    · rintro rfl
      exact har hb
    · rintro rfl
      exact hb rfl

theorem CtxShape.replaceChild (h : m.CtxShape ctx (some a) n) (hnodup : (elems ctx).Nodup)
    (ha : a ∉ elems ctx) (s : Side) (p : Option Nat) :
    ∃ m', m.replaceChild s (top ctx) a p = some m' ∧ m'.CtxShape ctx p n ∧ Kept m m' ∧
      ∀ b, b ∉ elems ctx → Same m m' b := by
  cases ctx with
  | nil => exact ⟨{ m with rbNode := p }, rfl, rfl, ⟨rfl, rfl, rfl, rfl⟩,
    fun b _ => ⟨id, rfl, rfl, fun _ => rfl, rfl⟩⟩
  | cons f ctx =>
    obtain ⟨hf, hsib, hctx⟩ := h
    rw [elems_cons, List.cons_append, List.nodup_cons] at hnodup
    rw [elems_cons, List.cons_append] at ha
    have hsame : ∀ b, b ≠ f.elem → Same m (m.setChild f.side f.elem p) b := fun b => same_setChild
    have hother : m.rbChild f.side.opp f.elem ≠ some a := by
      rw [hf.other]
      exact fun hr => ha (List.mem_cons_of_mem _ (List.mem_append_left _ (mem_toList_of_root hr)))
    refine ⟨m.setChild f.side f.elem p, ?_, ⟨hf.setChild p, hsib.congr fun b hb => hsame b ?_,
      hctx.congr rfl fun b hb => hsame b ?_⟩, ⟨rfl, rfl, rfl, rfl⟩, fun b hb => hsame b ?_⟩
    · rw [HpMap.replaceChild, if_neg nofun, top, List.head?_cons, Option.map_some,
        hf.deref, Option.map_some]
      rcases Side.eq_or_opp f.side s with rfl | rfl
      · rw [if_pos hf.child]
      · rw [if_neg hother, Side.opp_opp]
    · rintro rfl
      exact hnodup.1 (List.mem_append_left _ hb)
    · rintro rfl
      exact hnodup.1 (List.mem_append_right _ hb)
    · rintro rfl
      exact hb (List.mem_cons_self)

theorem View.at_join (h : m.View ctx (join s c t a u)) :
    m.At s a (top ctx) c t.root u.root (wrapInt (t.size + u.size + 1 : Nat)) := (shape_join.1 h.shape).1

theorem View.setColor (h : m.View ctx (join s c t a u)) (c' : Color) :
    (m.setColor a c').View ctx (join s c' t a u) := by
  obtain ⟨ha, ht, hu⟩ := shape_join.1 h.shape
  have hnodup := (perm_join.append_right _).nodup_iff.1 h.nodup
  rw [List.cons_append, List.nodup_cons, List.mem_append, List.mem_append] at hnodup
  have hsame : ∀ b, b ≠ a → Same m (m.setColor a c') b := fun b => same_setColor
  have haround := h.around
  rw [root_join, size_join] at haround
  refine ⟨?_, shape_join.2 ⟨ha.setColor c', ht.congr fun b hb => hsame b ?_,
    hu.congr fun b hb => hsame b ?_⟩, ?_⟩
  · rw [root_join, size_join]
    refine haround.congr rfl fun b hb => hsame b ?_
    rintro rfl
    exact hnodup.1 (.inr hb)
  · rintro rfl
    exact hnodup.1 (.inl (.inl hb))
  · rintro rfl
    exact hnodup.1 (.inl (.inr hb))
  · exact (perm_join.append_right _).nodup_iff.2 (by
      rw [List.cons_append, List.nodup_cons, List.mem_append, List.mem_append]
      exact hnodup)

theorem kept_setColor (m : HpMap K V) (a : Nat) (c : Color) : Kept m (m.setColor a c) :=
  ⟨rfl, rfl, rfl, rfl⟩

theorem exists_wrapInt (x : Int) : ∃ k, wrapInt x = x + 2 ^ 32 * k := by
  rw [wrapInt, Int.bmod_def]
  split
  · exact ⟨-(x / 2 ^ 32), by omega⟩
  · exact ⟨-(x / 2 ^ 32) - 1, by omega⟩

theorem wrapInt_congr {x y k : Int} (h : x = y + 2 ^ 32 * k) : wrapInt x = wrapInt y := by
  rw [h, wrapInt, wrapInt]
  exact_mod_cast Int.add_mul_bmod_self_left y (2 ^ 32) k

/-- The sums that a rotation makes. -/
theorem wrapInt_sum (i j k : Nat) : wrapInt (wrapInt i + wrapInt j + 1) = wrapInt (i + j + 1 : Nat) ∧
    wrapInt (wrapInt i + wrapInt j + wrapInt k + 2) = wrapInt (i + j + 1 + k + 1 : Nat) := by
  obtain ⟨d, hd⟩ := exists_wrapInt i
  obtain ⟨d', hd'⟩ := exists_wrapInt j
  obtain ⟨d'', hd''⟩ := exists_wrapInt k
  rw [hd, hd', hd'']
  refine ⟨wrapInt_congr (k := d + d') ?_, wrapInt_congr (k := d + d' + d'') ?_⟩
  · push_cast
    ring
  · push_cast
    ring

/-- The rotation of the node `x` down on side `s`, with the node `y` coming up. -/
theorem View.rotate (h : m.View ctx (join s c t x (join s c' i y r))) : ∃ m', m.rotate s x = some m' ∧
    m'.View ctx (join s c' (join s c t x i) y r) ∧ Kept m m' := by
  have hnodup : (x :: y :: (t.toList ++ (i.toList ++ r.toList) ++ elems ctx)).Nodup := by
    refine List.Perm.nodup_iff (.trans (perm_join.append_right _) ?_) |>.1 h.nodup
    exact (((perm_join.append_left _).trans List.perm_middle).append_right _).cons x
  obtain ⟨hx, hy, hrest⟩ : x ∉ y :: (t.toList ++ (i.toList ++ r.toList) ++ elems ctx) ∧
      y ∉ t.toList ++ (i.toList ++ r.toList) ++ elems ctx ∧
      (t.toList ++ (i.toList ++ r.toList) ++ elems ctx).Nodup := by
    rwa [List.nodup_cons, List.nodup_cons] at hnodup
  simp only [List.mem_cons, List.mem_append, not_or] at hx hy
  obtain ⟨hxy, ⟨hxt, hxi, hxr⟩, hxctx⟩ := hx
  obtain ⟨⟨hyt, hyi, hyr⟩, hyctx⟩ := hy
  rw [List.nodup_append', List.nodup_append', List.nodup_append'] at hrest
  obtain ⟨⟨-, ⟨hni, -, hir⟩, htir⟩, hctx, hdisj⟩ := hrest
  -- the fields of the two nodes, and the parts
  obtain ⟨hatx, hsht, hshy⟩ := shape_join.1 h.shape
  obtain ⟨haty, hshi, hshr⟩ := shape_join.1 hshy
  rw [root_join, size_join] at hatx
  have haround := h.around
  rw [root_join, size_join, size_join] at haround
  have hsum := wrapInt_sum t.size i.size r.size
  set w := wrapInt (t.size + i.size + 1 : Nat) with hw
  set w' := wrapInt (t.size + i.size + 1 + r.size + 1 : Nat) with hw'
  set m₂ := ((m.setWeight x w).setWeight y w').setChild s.opp x i.root with hm₂
  have hsame₂ : ∀ b, b ≠ x → b ≠ y → Same m m₂ b := fun b hb hb' =>
    ((same_setWeight hb).trans (same_setWeight hb')).trans (same_setChild hb)
  have hatx₂ : m₂.At s x (top ctx) c t.root i.root w :=
    ((hatx.setWeight w).same (same_setWeight hxy)).setOther i.root
  have haty₂ : m₂.At s y (some x) c' i.root r.root w' :=
    ((haty.same (same_setWeight (Ne.symm hxy))).setWeight w').same (same_setChild (Ne.symm hxy))
  have hshi₂ : m₂.Shape (some y) i :=
    hshi.congr fun b hb => hsame₂ b (by rintro rfl; exact hxi hb) (by rintro rfl; exact hyi hb)
  obtain ⟨m₃, hadopt, hshi₃, hkept₃, hroot₃, hsame₃⟩ := hshi₂.adopt hni (some x)
  have hne : ∀ b, b ∉ i.toList → i.root ≠ some b := fun b hb he => hb (mem_toList_of_root he)
  have hatx₃ := hatx₂.same (hsame₃ x (hne x hxi))
  have haty₃ := haty₂.same (hsame₃ y (hne y hyi))
  set m₄ := (m₃.setChild s y (some x)).setParent y (m₃.rbParent x) with hm₄
  have hsame₄ : ∀ b, b ≠ y → Same m₃ m₄ b := fun b hb => (same_setChild hb).trans (same_setParent hb)
  have hatx₄ := hatx₃.same (hsame₄ x hxy)
  have haty₄ : m₄.At s y (top ctx) c' (some x) r.root w' :=
    (haty₃.setChild (some x)).setParent _ |> fun hat => hatx₃.parent ▸ hat
  have haround₄ : m₄.CtxShape ctx (some x) (t.size + (i.size + r.size + 1) + 1) := by
    refine haround.congr hroot₃ fun b hb => ?_
    have hbx : b ≠ x := by
      rintro rfl
      exact hxctx hb
    have hby : b ≠ y := by
      rintro rfl
      exact hyctx hb
    have hbi : b ∉ i.toList := fun hin =>
      hdisj (List.mem_append_right _ (List.mem_append_left _ hin)) hb
    exact ((hsame₂ b hbx hby).trans (hsame₃ b (hne b hbi))).trans (hsame₄ b hby)
  obtain ⟨m₅, hreplace, haround₅, hkept₅, hsame₅⟩ := haround₄.replaceChild hctx hxctx s (some y)
  have hrun : m.rotate s x = some (m₅.setParent x (some y)) := by
    rw [HpMap.rotate]
    simp only [hatx.other, hatx.child, haty.deref, haty.child, haty.other, hsht.weightOf,
      hshi.weightOf, hshr.weightOf, Option.bind_eq_bind, Option.bind_some, hsum.1, hsum.2]
    rw [show ((m.setWeight x w).setWeight y w').rbChild s y = i.root from haty.child, ← hm₂,
      hadopt, Option.bind_some, ← hm₄, hatx₄.parent, hreplace]
    rfl
  -- what is the same in the end
  have hsame : ∀ b, b ≠ x → b ≠ y → b ∉ i.toList → b ∉ elems ctx →
      Same m (m₅.setParent x (some y)) b := fun b hx hy hi hb =>
    ((((hsame₂ b hx hy).trans (hsame₃ b (hne b hi))).trans (hsame₄ b hy)).trans (hsame₅ b hb)).trans
      (same_setParent hx)
  have hkept : Kept m (m₅.setParent x (some y)) :=
    ((⟨rfl, rfl, rfl, rfl⟩ : Kept m m₂).trans hkept₃).trans
      ((⟨rfl, rfl, rfl, rfl⟩ : Kept m₃ m₄).trans (hkept₅.trans ⟨rfl, rfl, rfl, rfl⟩))
  refine ⟨_, hrun, ⟨?_, ?_, ?_⟩, hkept⟩
  · rw [root_join, size_join, size_join,
      show t.size + i.size + 1 + r.size + 1 = t.size + (i.size + r.size + 1) + 1 by omega]
    exact haround₅.congr rfl fun b hb => same_setParent (by rintro rfl; exact hxctx hb)
  · have hatx₆ := (hatx₄.same (hsame₅ x hxctx)).setParent (some y)
    have haty₆ := (haty₄.same (hsame₅ y hyctx)).same (same_setParent (q := some y) (Ne.symm hxy))
    refine shape_join.2 ⟨?_, shape_join.2 ⟨hatx₆, hsht.congr fun b hb => ?_,
      hshi₃.congr fun b hb => ?_⟩, hshr.congr fun b hb => ?_⟩
    · rw [root_join, size_join]
      exact haty₆
    · refine hsame b ?_ ?_ (fun hi => htir hb (List.mem_append_left _ hi)) fun hc =>
        hdisj (List.mem_append_left _ hb) hc
      · rintro rfl
        exact hxt hb
      · rintro rfl
        exact hyt hb
    · have hbx : b ≠ x := by
        rintro rfl
        exact hxi hb
      have hby : b ≠ y := by
        rintro rfl
        exact hyi hb
      exact ((hsame₄ b hby).trans (hsame₅ b fun hc => hdisj (by simp [hb]) hc)).trans
        (same_setParent hbx)
    · refine hsame b ?_ ?_ (fun hi => hir hi hb) fun hc => hdisj (by simp [hb]) hc
      · rintro rfl
        exact hxr hb
      · rintro rfl
        exact hyr hb
  · rw [toList_rotate]
    exact h.nodup

/-! ### Counting -/

theorem wrapInt_succ (k : Nat) : wrapInt (wrapInt k + 1) = wrapInt (k + 1 : Nat) := by
  obtain ⟨d, hd⟩ := exists_wrapInt k
  rw [hd]
  refine wrapInt_congr (k := d) ?_
  push_cast
  ring

theorem wrapInt_pred (k : Nat) : wrapInt (wrapInt (k + 1 : Nat) - 1) = wrapInt k := by
  obtain ⟨d, hd⟩ := exists_wrapInt (k + 1 : Nat)
  rw [hd]
  refine wrapInt_congr (k := d) ?_
  push_cast
  ring

theorem CtxShape.live (h : m.CtxShape ctx p n) : ∀ a ∈ elems ctx, a ∈ m.live := by
  induction ctx generalizing p n with
  | nil => exact fun a ha => absurd ha List.not_mem_nil
  | cons f ctx ih =>
    obtain ⟨hf, hsib, hctx⟩ := h
    intro a ha
    rw [elems_cons, List.cons_append, List.mem_cons, List.mem_append] at ha
    rcases ha with rfl | ha | ha
    · exact hf.live
    · exact hsib.live a ha
    · exact ih hctx a ha

theorem length_le_elems (ctx : List (Frame Nat)) : ctx.length ≤ (elems ctx).length := by
  induction ctx with
  | nil => exact Nat.zero_le _
  | cons f ctx ih =>
    rw [elems_cons, List.cons_append, List.length_cons, List.length_cons, List.length_append]
    omega

theorem length_le_live (hctx : m.CtxShape ctx p n) (hshape : m.Shape q t)
    (hnodup : (t.toList ++ elems ctx).Nodup) :
    t.size + ctx.length ≤ m.live.length := by
  have hsub : (t.toList ++ elems ctx) ⊆ m.live := by
    intro a ha
    rcases List.mem_append.1 ha with ha | ha
    · exact hshape.live a ha
    · exact hctx.live a ha
  have hle := (List.subperm_of_subset hnodup hsub).length_le
  rw [List.length_append, length_toList] at hle
  have hctxle := length_le_elems ctx
  omega

theorem View.length_le (h : m.View ctx t) : t.size + ctx.length ≤ m.live.length :=
  length_le_live h.around h.shape h.nodup

theorem CtxShape.decWeights (h : m.CtxShape ctx p (n + 1)) (hnodup : (elems ctx).Nodup) {fuel : Nat}
    (hle : ctx.length ≤ fuel) :
    ∃ m', decWeights fuel m (top ctx) = some m' ∧ m'.CtxShape ctx p n ∧
      Kept m m' ∧ m'.rbNode = m.rbNode ∧
      ∀ b, b ∉ elems ctx → Same m m' b := by
  induction ctx generalizing m p n fuel with
  | nil => exact ⟨m, by cases fuel <;> rfl, h, .refl m, rfl, fun b _ => .refl m b⟩
  | cons f ctx ih =>
    obtain ⟨fuel, rfl⟩ := Nat.exists_eq_add_of_lt hle
    obtain ⟨hf, hsib, hctx⟩ := h
    rw [elems_cons, List.cons_append, List.nodup_cons, List.nodup_append'] at hnodup
    obtain ⟨hnf, -, hnctx, hdisj⟩ := hnodup
    have hfctx : f.elem ∉ elems ctx := fun hin => hnf (List.mem_append_right _ hin)
    rw [show n + 1 + f.sib.size + 1 = n + f.sib.size + 1 + 1 by omega] at hf hctx
    set m₁ := m.setWeight f.elem (wrapInt (m.weight f.elem - 1)) with hm₁
    have hsame₁ : ∀ b, b ≠ f.elem → Same m m₁ b := fun b => same_setWeight
    have hkept₁ : Kept m m₁ := ⟨rfl, rfl, rfl, rfl⟩
    have hctx₁ : m₁.CtxShape ctx (some f.elem) (n + f.sib.size + 1 + 1) := by
      refine hctx.congr rfl fun b hb => hsame₁ b ?_
      rintro rfl
      exact hfctx hb
    obtain ⟨m', hrun, hctx', hkept, hroot, hsame⟩ := ih hctx₁ hnctx (Nat.le_add_right ctx.length fuel)
    have hf₁ : m₁.At f.side f.elem (top ctx) f.color p f.sib.root
        (wrapInt (n + f.sib.size + 1 : Nat)) := by
      have hw : wrapInt (m.weight f.elem - 1) = wrapInt (n + f.sib.size + 1 : Nat) := by
        rw [hf.weight, wrapInt_pred]
      exact hw ▸ hf.setWeight (wrapInt (m.weight f.elem - 1))
    refine ⟨m', ?_, ⟨hf₁.same (hsame _ hfctx), hsib.congr fun b hb => ?_, hctx'⟩,
      hkept₁.trans hkept, hroot, fun b hb => ?_⟩
    · rw [top, List.head?_cons, Option.map_some, HpMap.decWeights, hf.deref,
        Option.bind_some, hf.parent]
      exact hrun
    · refine (hsame₁ b ?_).trans (hsame b (hdisj hb))
      rintro rfl
      exact hnf (List.mem_append_left _ hb)
    · rw [elems_cons, List.cons_append, List.mem_cons, List.mem_append, not_or, not_or] at hb
      exact (hsame₁ b hb.1).trans (hsame b hb.2.2)

end HpMap

end Resend.Udp

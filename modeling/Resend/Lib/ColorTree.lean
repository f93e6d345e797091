import Mathlib.Tactic
import Mathlib.Data.List.Perm.Basic

/-!
# Coloured trees

Binary trees with red and black nodes, what it means that they are balanced, and paths into them.
What happens on the left and on the right of a node is said once, for a `Side`.
-/

inductive Color
  | red
  | black
deriving DecidableEq, Repr

inductive Side
  | left
  | right
deriving DecidableEq, Repr

namespace Side

def opp : Side → Side
  | left => right
  | right => left

@[simp] theorem opp_opp (s : Side) : s.opp.opp = s := by cases s <;> rfl

theorem opp_ne (s : Side) : s.opp ≠ s := by cases s <;> decide

theorem eq_or_opp (s s' : Side) : s' = s ∨ s' = s.opp := by cases s <;> cases s' <;> simp [opp]

end Side

inductive ColorTree (α : Type)
  | nil
  | node (c : Color) (l : ColorTree α) (x : α) (r : ColorTree α)

namespace ColorTree
variable {α : Type} {s : Side} {c c' : Color} {t t' u l r : ColorTree α} {x y : α} {m n : Nat}

def toList : ColorTree α → List α
  | nil => []
  | node _ l x r => l.toList ++ x :: r.toList

def size : ColorTree α → Nat
  | nil => 0
  | node _ l _ r => l.size + r.size + 1

/-- The element on top. -/
def root : ColorTree α → Option α
  | nil => none
  | node _ _ x _ => some x

/-- The empty tree counts as black. -/
def IsBlack : ColorTree α → Prop
  | nil => True
  | node c _ _ _ => c = .black

/-- No red node has a red child, and `n` black nodes lie on every path down. -/
inductive Balanced : ColorTree α → Nat → Prop
  | nil : Balanced nil 0
  | red {l r : ColorTree α} {x : α} {n : Nat} (hl : l.IsBlack) (hr : r.IsBlack) (bl : Balanced l n)
      (br : Balanced r n) :
    Balanced (node .red l x r) n
  | black {l r : ColorTree α} {x : α} {n : Nat} (bl : Balanced l n) (br : Balanced r n) :
    Balanced (node .black l x r) (n + 1)

theorem length_toList (t : ColorTree α) : t.toList.length = t.size := by
  induction t with
  | nil => rfl
  | node c l x r hl hr =>
    rw [toList, List.length_append, List.length_cons, hl, hr, size]
    rfl

theorem mem_toList_of_root (h : t.root = some x) : x ∈ t.toList := by
  cases t with
  | nil => cases h
  | node c l y r =>
    cases h
    exact List.mem_append_right _ List.mem_cons_self

theorem root_eq_none_iff : t.root = none ↔ t = nil := by
  cases t with
  | nil => exact ⟨fun _ => rfl, fun _ => rfl⟩
  | node c l x r => exact ⟨fun h => (nomatch h), fun h => (nomatch h)⟩

theorem ne_nil_of_balanced (h : Balanced t (n + 1)) : t ≠ nil := by
  rintro rfl
  cases h

/-! ### Nodes by side -/

/-- The node `x` with `t` on the side `s` and `u` on the other one. -/
def join (s : Side) (c : Color) (t : ColorTree α) (x : α) (u : ColorTree α) : ColorTree α :=
  match s with
  | .left => node c t x u
  | .right => node c u x t

theorem join_opp : join s.opp c t x u = join s c u x t := by cases s <;> rfl

theorem exists_join (s : Side) (h : t ≠ nil) : ∃ c l x r, t = join s c l x r := by
  cases t with
  | nil => exact absurd rfl h
  | node c l x r =>
    cases s with
    | left => exact ⟨c, l, x, r, rfl⟩
    | right => exact ⟨c, r, x, l, rfl⟩

@[simp] theorem root_join : (join s c t x u).root = some x := by cases s <;> rfl

@[simp] theorem size_join : (join s c t x u).size = t.size + u.size + 1 := by
  cases s with
  | left => rfl
  | right => rw [join, size, Nat.add_comm u.size]

@[simp] theorem isBlack_join : (join s c t x u).IsBlack ↔ c = .black := by cases s <;> rfl

theorem join_ne_nil : join s c t x u ≠ nil := by cases s <;> exact nofun

theorem mem_join : y ∈ (join s c t x u).toList ↔ y = x ∨ y ∈ t.toList ∨ y ∈ u.toList := by
  cases s <;> simp [join, toList] <;> tauto

theorem perm_join : (join s c t x u).toList.Perm (x :: (t.toList ++ u.toList)) := by
  cases s with
  | left => exact List.perm_middle
  | right => exact List.perm_middle.trans (List.perm_append_comm.cons x)

theorem balanced_join_red :
    Balanced (join s .red t x u) n ↔ t.IsBlack ∧ u.IsBlack ∧ Balanced t n ∧ Balanced u n := by
  constructor
  · intro h
    cases s with
    | left =>
      cases h with
      | red hl hr bl br => exact ⟨hl, hr, bl, br⟩
    | right =>
      cases h with
      | red hl hr bl br => exact ⟨hr, hl, br, bl⟩
  · rintro ⟨ht, hu, bt, bu⟩
    cases s with
    | left => exact .red ht hu bt bu
    | right => exact .red hu ht bu bt

theorem balanced_join_black : Balanced (join s .black t x u) (n + 1) ↔ Balanced t n ∧ Balanced u n := by
  constructor
  · intro h
    cases s with
    | left =>
      cases h with
      | black bl br => exact ⟨bl, br⟩
    | right =>
      cases h with
      | black bl br => exact ⟨br, bl⟩
  · rintro ⟨bt, bu⟩
    cases s with
    | left => exact .black bt bu
    | right => exact .black bu bt

/-- The height that a node of colour `c` adds. -/
def height (c : Color) : Nat := if c = .black then 1 else 0

theorem exists_of_balanced_join (h : Balanced (join s c t x u) m) :
    ∃ n, m = n + height c ∧ Balanced t n ∧ Balanced u n ∧
      (c = .red → t.IsBlack ∧ u.IsBlack) := by
  cases c with
  | red =>
    obtain ⟨ht, hu, bt, bu⟩ := balanced_join_red.1 h
    exact ⟨m, rfl, bt, bu, fun _ => ⟨ht, hu⟩⟩
  | black =>
    cases m with
    | zero => cases s <;> cases h
    | succ n =>
      obtain ⟨bt, bu⟩ := balanced_join_black.1 h
      exact ⟨n, rfl, bt, bu, fun hc => (nomatch hc)⟩

theorem balanced_join (bt : Balanced t n) (bu : Balanced u n) (hc : c = .red → t.IsBlack ∧ u.IsBlack) :
    Balanced (join s c t x u) (n + height c) := by
  cases c with
  | red =>
    obtain ⟨ht, hu⟩ := hc rfl
    exact balanced_join_red.2 ⟨ht, hu, bt, bu⟩
  | black => exact balanced_join_black.2 ⟨bt, bu⟩

theorem toList_rotate {a : ColorTree α} {c₁ c₂ c₃ c₄ : Color} :
    (join s c₁ (join s c₂ t x a) y u).toList =
      (join s c₃ t x (join s c₄ a y u)).toList := by
  cases s <;> simp [join, toList]

theorem toList_join_congr {u' : ColorTree α} (ht : t.toList = t'.toList) (hu : u.toList = u'.toList) :
    (join s c t x u).toList = (join s c' t' x u').toList := by
  cases s <;> rw [join, join, toList, toList, ht, hu]

theorem exists_join_red (s : Side) (h : ¬ t.IsBlack) : ∃ l x r, t = join s .red l x r := by
  have hne : t ≠ nil := by
    rintro rfl
    exact h trivial
  obtain ⟨c, l, x, r, rfl⟩ := exists_join s hne
  cases c with
  | red => exact ⟨l, x, r, rfl⟩
  | black => exact absurd (isBlack_join.2 rfl) h

/-! ### Paths -/

/-- A step down the path: the way goes on the side `side` of `elem`, and `sib` is on the other one. -/
structure Frame (α : Type) where
  side : Side
  color : Color
  elem : α
  sib : ColorTree α

def Frame.fill (f : Frame α) (t : ColorTree α) : ColorTree α := join f.side f.color t f.elem f.sib

/-- The tree around `t`; the first frame is the one next to `t`. -/
def plug : List (Frame α) → ColorTree α → ColorTree α
  | [], t => t
  | f :: ctx, t => plug ctx (f.fill t)

/-- The element next to the end of the path. -/
def top (ctx : List (Frame α)) : Option α := ctx.head?.map Frame.elem

/-- The elements around. -/
def elems (ctx : List (Frame α)) : List α := ctx.flatMap fun f => f.elem :: f.sib.toList

/-- The elements before the end of the path. -/
def before : List (Frame α) → List α
  | [] => []
  | f :: ctx => match f.side with
    | .left => before ctx
    | .right => before ctx ++ (f.sib.toList ++ [f.elem])

/-- The elements after the end of the path. -/
def after : List (Frame α) → List α
  | [] => []
  | f :: ctx => match f.side with
    | .left => f.elem :: f.sib.toList ++ after ctx
    | .right => after ctx

variable {ctx ctx' : List (Frame α)} {f : Frame α}

theorem plug_append : plug (ctx ++ ctx') t = plug ctx' (plug ctx t) := by
  induction ctx generalizing t with
  | nil => rfl
  | cons f ctx ih => exact ih

theorem toList_plug : (plug ctx t).toList = before ctx ++ t.toList ++ after ctx := by
  induction ctx generalizing t with
  | nil => simp [plug, before, after]
  | cons f ctx ih =>
    obtain ⟨s, c, x, u⟩ := f
    rw [plug, ih]
    cases s <;> simp [Frame.fill, join, toList, before, after]

theorem toList_plug_congr (h : t.toList = t'.toList) : (plug ctx t).toList = (plug ctx t').toList := by
  rw [toList_plug, toList_plug, h]

theorem elems_cons : elems (f :: ctx) = f.elem :: f.sib.toList ++ elems ctx := rfl

theorem perm_plug : (plug ctx t).toList.Perm (t.toList ++ elems ctx) := by
  induction ctx generalizing t with
  | nil => rw [elems, List.flatMap_nil, List.append_nil]; rfl
  | cons f ctx ih =>
    refine ih.trans ((perm_join.append_right _).trans ?_)
    rw [elems_cons, List.cons_append, List.cons_append, List.append_assoc]
    exact List.perm_middle.symm

theorem exists_plug_of_mem (h : x ∈ t.toList) : ∃ ctx c l r, t = plug ctx (node c l x r) := by
  induction t with
  | nil => exact absurd h List.not_mem_nil
  | node c l y r hl hr =>
    rcases List.mem_append.1 h with h | h
    · obtain ⟨ctx, c', l', r', rfl⟩ := hl h
      refine ⟨ctx ++ [⟨.left, c, y, r⟩], c', l', r', ?_⟩
      rw [plug_append]
      rfl
    · rcases List.mem_cons.1 h with rfl | h
      · exact ⟨[], c, l, r, rfl⟩
      · obtain ⟨ctx, c', l', r', rfl⟩ := hr h
        refine ⟨ctx ++ [⟨.right, c, y, l⟩], c', l', r', ?_⟩
        rw [plug_append]
        rfl

theorem plug_ne_nil (h : t ≠ nil) : plug ctx t ≠ nil := by
  induction ctx generalizing t with
  | nil => exact h
  | cons f ctx ih => exact ih join_ne_nil

/-- The way `ctx` goes all down on side `s`. -/
def Spine (s : Side) (ctx : List (Frame α)) : Prop := ∀ f ∈ ctx, f.side = s

theorem exists_spine (s : Side) (h : t ≠ nil) :
    ∃ ctx c x u, t = plug ctx (join s c nil x u) ∧ Spine s ctx := by
  induction t with
  | nil => exact absurd rfl h
  | node c l x r hl hr =>
    obtain ⟨c', t, y, u, ht⟩ := exists_join s (t := node c l x r) nofun
    have ih : t ≠ nil → ∃ ctx c x u, t = plug ctx (join s c nil x u) ∧ Spine s ctx := by
      cases s with
      | left =>
        cases ht
        exact hl
      | right =>
        cases ht
        exact hr
    rw [ht]
    by_cases hnil : t = nil
    · rw [hnil]
      exact ⟨[], c', y, u, rfl, fun f hf => absurd hf List.not_mem_nil⟩
    · obtain ⟨ctx, c₁, z, v, ht', hspine⟩ := ih hnil
      refine ⟨ctx ++ [⟨s, c', y, u⟩], c₁, z, v, ?_, fun f hf => ?_⟩
      · rw [plug_append, ← ht']
        rfl
      · rcases List.mem_append.1 hf with hf | hf
        · exact hspine f hf
        · rw [List.mem_singleton.1 hf]

theorem before_spine (h : Spine .left ctx) : before ctx = [] := by
  induction ctx with
  | nil => rfl
  | cons f ctx ih =>
    rw [before, h f List.mem_cons_self]
    exact ih fun g hg => h g (List.mem_cons_of_mem _ hg)

theorem after_spine (h : Spine .right ctx) : after ctx = [] := by
  induction ctx with
  | nil => rfl
  | cons f ctx ih =>
    rw [after, h f List.mem_cons_self]
    exact ih fun g hg => h g (List.mem_cons_of_mem _ hg)

/-! ### Walks -/

/-- A list as a walk to side `s` meets it. -/
def along (s : Side) (as : List α) : List α :=
  match s with
  | .left => as.reverse
  | .right => as

/-- The elements on side `s` of the end of the path, the nearest first. -/
def beyond (s : Side) (ctx : List (Frame α)) : List α :=
  match s with
  | .left => (before ctx).reverse
  | .right => after ctx

theorem mem_along {as : List α} : x ∈ along s as ↔ x ∈ as := by
  cases s with
  | left => exact List.mem_reverse
  | right => exact Iff.rfl

theorem along_join : along s (join s c t x u).toList = along s u.toList ++ x :: along s t.toList := by
  cases s <;> simp [along, join, toList]

theorem along_plug :
    along s (plug ctx t).toList = (beyond s.opp ctx).reverse ++ along s t.toList ++ beyond s ctx :=
  by
  rw [toList_plug]
  cases s <;> simp [along, beyond, Side.opp]

/-- A step that came from side `s` leads to nothing new on that side, -/
theorem beyond_same (h : f.side = s) : beyond s (f :: ctx) = beyond s ctx := by
  subst h
  obtain ⟨s, c, x, u⟩ := f
  cases s <;> rfl

/-- and one from the other side leads to the node and what is below it. -/
theorem beyond_opp (h : f.side = s.opp) :
    beyond s (f :: ctx) = f.elem :: along s f.sib.toList ++ beyond s ctx := by
  obtain ⟨s', c, x, u⟩ := f
  obtain rfl : s' = s.opp := h
  cases s <;> simp [beyond, before, after, along, Side.opp]

theorem beyond_spine (h : Spine s ctx) : beyond s ctx = [] := by
  cases s with
  | left => exact List.reverse_eq_nil_iff.2 (before_spine h)
  | right => exact after_spine h

/-- The walk away from a side begins with the last node on it. -/
theorem along_spine (h : Spine s ctx) :
    ∃ as, along s.opp (plug ctx (join s c nil x u)).toList = x :: as := by
  rw [along_plug, Side.opp_opp, beyond_spine h, ← join_opp, along_join]
  cases hs : s <;> exact ⟨_, rfl⟩

/-! ### Balanced paths -/

/-- The path ends at a black node. -/
def BlackTop (ctx : List (Frame α)) : Prop := ctx.head?.map Frame.color = some .black

/-- A tree of black height `n` can stand at the end of the path. A red node has a black one above
it, so that the first node is black. -/
def Fits : List (Frame α) → Nat → Prop
  | [], _ => True
  | f :: ctx, n => Balanced f.sib n ∧ (f.color = .red → f.sib.IsBlack ∧ BlackTop ctx) ∧
    Fits ctx (n + height f.color)

theorem fits_swap {ictx : List (Frame α)} (h : Fits (ictx ++ ⟨s, c, x, u⟩ :: ctx) n) :
    Fits (ictx ++ ⟨s, c, y, u⟩ :: ctx) n := by
  induction ictx generalizing n with
  | nil => exact h
  | cons f ictx ih =>
    obtain ⟨hsib, hred, hrest⟩ := h
    refine ⟨hsib, fun hc => ⟨(hred hc).1, ?_⟩, ih hrest⟩
    have htop := (hred hc).2
    cases ictx with
    | nil => exact htop
    | cons g ictx => exact htop

theorem balanced_plug (hctx : Fits ctx n) (ht : Balanced t n) (hblack : t.IsBlack ∨ BlackTop ctx) :
    ∃ m, Balanced (plug ctx t) m ∧ (plug ctx t).IsBlack := by
  induction ctx generalizing t n with
  | nil => exact ⟨n, ht, hblack.resolve_right nofun⟩
  | cons f ctx ih =>
    obtain ⟨hsib, hred, hctx⟩ := hctx
    have hfill : Balanced (f.fill t) (n + height f.color) := by
      refine balanced_join ht hsib fun hc => ⟨hblack.resolve_right fun htop => ?_, (hred hc).1⟩
      rw [BlackTop, List.head?_cons, Option.map_some, hc] at htop
      cases htop
    refine ih hctx hfill ?_
    cases hc : f.color with
    | red => exact .inr (hred hc).2
    | black => exact .inl (isBlack_join.2 hc)

theorem fits_of_balanced_plug (h : Balanced (plug ctx t) m) (hblack : (plug ctx t).IsBlack) :
    ∃ n, Fits ctx n ∧ Balanced t n ∧ (t.IsBlack ∨ BlackTop ctx) := by
  induction ctx generalizing t with
  | nil => exact ⟨m, trivial, h, .inl hblack⟩
  | cons f ctx ih =>
    obtain ⟨k, hctx, hfill, htop⟩ := ih h hblack
    obtain ⟨n, rfl, ht, hsib, hred⟩ := exists_of_balanced_join hfill
    refine ⟨n, ⟨hsib, fun hc => ⟨(hred hc).2, htop.resolve_left fun hf => ?_⟩, hctx⟩, ht, ?_⟩
    · rw [Frame.fill, isBlack_join, hc] at hf
      cases hf
    · cases hc : f.color with
      | red => exact .inl (hred hc).1
      | black => exact .inr (congrArg some hc)

end ColorTree

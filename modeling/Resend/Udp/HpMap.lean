import Resend.Lib.ColorTree
import Resend.Lib.Machine
import Resend.Udp.TimerWheel

/-!
# The map

`HP_map` and `HP_set`: a red-black tree of nodes with pointers to parent and children, and in each
the number of nodes below it, an `int`. Mirrored functions and branches are one, for a `Side`. A
function gives nothing where it follows a null pointer or one to a node that is back in the pool, or
where a loop makes more turns than there are nodes.
-/

namespace Resend.Udp

/-- `HP_map`: the fields of the nodes at their addresses, `root`, and the nodes that the pool has
given out. -/
structure HpMap (K V : Type) where
  first : Nat → K
  second : Nat → V
  rbParent : Nat → Option Nat
  rbColor : Nat → Color
  rbChild : Side → Nat → Option Nat
  weight : Nat → Int
  rbNode : Option Nat
  size : Int
  live : List Nat

namespace HpMap
variable {K V : Type}

/-- The node behind a pointer. -/
def deref (m : HpMap K V) (p : Option Nat) : Option Nat := p.filter (· ∈ m.live)

/-- As many turns as a loop over the nodes makes at most. -/
def fuel (m : HpMap K V) : Nat := m.live.length + 1

def setParent (m : HpMap K V) (a : Nat) (q : Option Nat) : HpMap K V :=
  { m with rbParent := Function.update m.rbParent a q }

def setColor (m : HpMap K V) (a : Nat) (c : Color) : HpMap K V :=
  { m with rbColor := Function.update m.rbColor a c }

def setWeight (m : HpMap K V) (a : Nat) (w : Int) : HpMap K V :=
  { m with weight := Function.update m.weight a w }

def setChild (m : HpMap K V) (s : Side) (a : Nat) (p : Option Nat) : HpMap K V :=
  { m with rbChild := Function.update m.rbChild s (Function.update (m.rbChild s) a p) }

/-- `p ? p->weight : 0`. -/
def weightOf (m : HpMap K V) (p : Option Nat) : Option Int :=
  if p = none then some 0 else (m.deref p).map m.weight

/-- `p && p->rb_color == RB_TREE_RED`. -/
def isRed (m : HpMap K V) (p : Option Nat) : Option Bool :=
  if p = none then some false else (m.deref p).map fun a => m.rbColor a = .red

/-- `if (p) p->rb_parent = q`. -/
def adopt (m : HpMap K V) (p q : Option Nat) : Option (HpMap K V) :=
  if p = none then some m else (m.deref p).map fun a => m.setParent a q

/-- `if (p) p->rb_color = c`. -/
def paint (m : HpMap K V) (p : Option Nat) (c : Color) : Option (HpMap K V) :=
  if p = none then some m else (m.deref p).map fun a => m.setColor a c

/-- The pointer to `node`, in the child of `parent` on side `s` or the other one or in `root`,
becomes `new`. -/
def replaceChild (m : HpMap K V) (s : Side) (parent : Option Nat) (node : Nat) (new : Option Nat) :
    Option (HpMap K V) :=
  if parent = none then some { m with rbNode := new }
  else (m.deref parent).map fun p => if m.rbChild s p = some node then m.setChild s p new
    else m.setChild s.opp p new

/-- `node` goes down on side `s`. -/
def rotate (m : HpMap K V) (s : Side) (node : Nat) : Option (HpMap K V) := do
  let up ← m.deref (m.rbChild s.opp node)
  let a ← m.weightOf (m.rbChild s node)
  let b ← m.weightOf (m.rbChild s up)
  let c ← m.weightOf (m.rbChild s.opp up)
  let m := (m.setWeight node (wrapInt (a + b + 1))).setWeight up (wrapInt (a + b + c + 2))
  let inner := m.rbChild s up
  let m ← (m.setChild s.opp node inner).adopt inner (some node)
  let m := (m.setChild s up (some node)).setParent up (m.rbParent node)
  let m ← m.replaceChild s (m.rbParent node) node (some up)
  return m.setParent node (some up)

def rbRotateLeft (m : HpMap K V) (node : Nat) : Option (HpMap K V) := m.rotate .left node

def rbRotateRight (m : HpMap K V) (node : Nat) : Option (HpMap K V) := m.rotate .right node

/-! ### Insertion -/

/-- A turn of `rb_insert_color`, with `parent` on side `s` of `gparent`, and the `node` of the next
one. -/
def insertTurn (m : HpMap K V) (s : Side) (node parent gparent : Nat) : Option (HpMap K V × Nat) := do
  let uncle := m.rbChild s.opp gparent
  if ← m.isRed uncle then
    let m ← m.paint uncle .black
    return ((m.setColor parent .black).setColor gparent .red, gparent)
  else
    let (m, parent, node) ← if m.rbChild s.opp parent =
      some node then (m.rotate s parent).map (·, node, parent)
      else some (m, parent, node)
    let m ← ((m.setColor parent .black).setColor gparent .red).rotate s.opp gparent
    return (m, node)

/-- `root->rb_node->rb_color = RB_TREE_BLACK`. -/
def blacken (m : HpMap K V) : Option (HpMap K V) := (m.deref m.rbNode).map fun a => m.setColor a .black

def rbInsertColor : Nat → HpMap K V → Nat → Option (HpMap K V)
  | 0, _, _ => none
  | fuel + 1, m, node =>
    if m.rbParent node = none then m.blacken
    else (m.deref (m.rbParent node)).bind fun parent =>
      if m.rbColor parent = .red then
        (m.deref (m.rbParent parent)).bind fun gparent =>
          (m.insertTurn (if m.rbChild .left gparent = some parent then .left
            else .right) node parent gparent).bind fun r => rbInsertColor fuel r.1 r.2
      else m.blacken

/-- `while(q){ q->weight--; q=q->rb_parent; }`. -/
def decWeights : Nat → HpMap K V → Option Nat → Option (HpMap K V)
  | _, m, none => some m
  | 0, _, some _ => none
  | fuel + 1, m, some q => (m.deref (some q)).bind fun q =>
    decWeights fuel (m.setWeight q (wrapInt (m.weight q - 1))) (m.rbParent q)

/-- `*p`, where `p` points to `root->rb_node` or to a child. -/
def slot (m : HpMap K V) : Option (Nat × Side) → Option Nat
  | none => m.rbNode
  | some (a, s) => m.rbChild s a

/-- `*p = t`. -/
def setSlot (m : HpMap K V) (t : Option Nat) : Option (Nat × Side) → HpMap K V
  | none => { m with rbNode := t }
  | some (a, s) => m.setChild s a t

/-- The new node `t` at `p`. -/
def attach (m : HpMap K V) (t : Nat) (p : Option (Nat × Side)) : HpMap K V :=
  let m := { m with size := wrapInt (m.size + 1) }
  let m := (m.setParent t (p.map Prod.fst)).setColor t .red
  (((m.setChild .right t none).setChild .left t none).setWeight t 1).setSlot (some t) p

section keys
variable [LinearOrder K]

def cmp (left right : K) : Int := if left = right then 0 else if left < right then -1 else 1

/-- The loop of `my_rb_insert` at `p`. -/
def insertFrom (t : Nat) : Nat → HpMap K V → Option (Nat × Side) → Option (HpMap K V × Int)
  | 0, _, _ => none
  | fuel + 1, m, p =>
    if m.slot p = none then (rbInsertColor m.fuel (m.attach t p) t).map (·, 0)
    else (m.deref (m.slot p)).bind fun parent =>
      let m := m.setWeight parent (wrapInt (m.weight parent + 1))
      let sig := cmp (m.first t) (m.first parent)
      if sig < 0 then insertFrom t fuel m (some (parent, .left))
      else if 0 < sig then insertFrom t fuel m (some (parent, .right))
      else (decWeights m.fuel m (some parent)).map (·, -1)

def myRbInsert (m : HpMap K V) (t : Nat) : Option (HpMap K V × Int) := insertFrom t m.fuel m none

/-- The loop of `my_rb_find` at `n`: the node, or none. -/
def findFrom (m : HpMap K V) (key : K) : Nat → Option Nat → Option (Option Nat)
  | _, none => some none
  | 0, some _ => none
  | fuel + 1, some n => (m.deref (some n)).bind fun n =>
    let sig := cmp key (m.first n)
    if sig < 0 then m.findFrom key fuel (m.rbChild .left n)
    else if 0 < sig then m.findFrom key fuel (m.rbChild .right n)
    else some (some n)

def myRbFind (m : HpMap K V) (key : K) : Option (Option Nat) := m.findFrom key m.fuel m.rbNode

end keys

/-- The loop of `select` at `cn`. -/
def selectFrom (m : HpMap K V) : Nat → Int → Option Nat → Option (Option Nat)
  | _, _, none => some none
  | 0, _, some _ => none
  | fuel + 1, order, some cn => (m.deref (some cn)).bind fun cn =>
    (m.weightOf (m.rbChild .left cn)).bind fun ls =>
    if wrapInt (ls + 1) = order then some (some cn)
    else if order < wrapInt (ls + 1) then m.selectFrom fuel order (m.rbChild .left cn)
    else m.selectFrom fuel (wrapInt (order - wrapInt (ls + 1))) (m.rbChild .right cn)

def select (m : HpMap K V) (order : Int) : Option (Option Nat) :=
  if order ≤ 0 ∨ m.size < order then some none else m.selectFrom m.fuel order m.rbNode

/-! ### Deletion -/

/-- A red `other` on the other side of `parent` goes up, so that the next one is black. -/
def raiseOther (m : HpMap K V) (s : Side) (parent : Nat) : Option (HpMap K V) :=
  (m.deref (m.rbChild s.opp parent)).bind fun other =>
    if m.rbColor other = .red then ((m.setColor other .black).setColor parent .red).rotate s parent
    else some m

/-- The child of `other` on side `s` goes up. -/
def turnOther (m : HpMap K V) (s : Side) (other : Nat) : Option (HpMap K V) :=
  (m.paint (m.rbChild s other) .black).bind fun m => (m.setColor other .red).rotate s.opp other

/-- `parent` goes down on side `s`, as a black node. -/
def settleParent (m : HpMap K V) (s : Side) (parent : Nat) : Option (HpMap K V) :=
  (m.deref (m.rbChild s.opp parent)).bind fun other =>
    let m := (m.setColor other (m.rbColor parent)).setColor parent .black
    (m.paint (m.rbChild s.opp other) .black).bind fun m => m.rotate s parent

/-- The rest of a turn, with a black `other`; the flag says that it ends the loop. -/
def eraseBlack (m : HpMap K V) (s : Side) (parent : Nat) : Option (HpMap K V × Bool) := do
  let other ← m.deref (m.rbChild s.opp parent)
  let near ← m.isRed (m.rbChild s other)
  let far ← m.isRed (m.rbChild s.opp other)
  if near = false ∧ far = false then return (m.setColor other .red, false)
  else
    let m ← if far = false then m.turnOther s other else some m
    let m ← m.settleParent s parent
    return (m, true)

/-- A turn of `__rb_erase_color` with `node` on side `s` of `parent`. -/
def eraseTurn (m : HpMap K V) (s : Side) (parent : Nat) : Option (HpMap K V × Bool) :=
  (m.raiseOther s parent).bind fun m => m.eraseBlack s parent

def rbEraseColor : Nat → HpMap K V → Option Nat → Option Nat → Option (HpMap K V)
  | 0, _, _, _ => none
  | fuel + 1, m, node, parent => (m.isRed node).bind fun red =>
    if red = false ∧ node ≠ m.rbNode then
      (m.deref parent).bind fun parent =>
        (m.eraseTurn (if m.rbChild .left parent = node then .left else .right) parent).bind fun r =>
          if r.2 then r.1.paint r.1.rbNode .black
          else rbEraseColor fuel r.1 (some parent) (r.1.rbParent parent)
    else m.paint node .black

/-- `while (node->child) node = node->child`, on side `s`. -/
def descend (m : HpMap K V) (s : Side) : Nat → Nat → Option Nat
  | 0, _ => none
  | fuel + 1, node =>
    if m.rbChild s node = none then some node else (m.deref (m.rbChild s node)).bind (m.descend s fuel)

/-- The end of `rb_erase`. -/
def recolor (m : HpMap K V) (color : Color) (child parent : Option Nat) : Option (HpMap K V) :=
  if color = .black then rbEraseColor m.fuel m child parent else some m

/-- `rb_erase` of a node with one child, or none. -/
def eraseOne (m : HpMap K V) (node : Nat) (child : Option Nat) : Option (HpMap K V) := do
  let parent := m.rbParent node
  let color := m.rbColor node
  let m ← m.adopt child parent
  let m ← decWeights m.fuel m parent
  let m ← m.replaceChild .left parent node child
  m.recolor color child parent

/-- The node takes the place of `old`. -/
def takePlace (m : HpMap K V) (node old : Nat) : Option (HpMap K V) := do
  let m := ((m.setParent node (m.rbParent old)).setColor node (m.rbColor old)).setWeight node
    (m.weight old)
  let m := (m.setChild .right node (m.rbChild .right old)).setChild .left node (m.rbChild .left old)
  let m ← m.replaceChild .left (m.rbParent old) old (some node)
  let left ← m.deref (m.rbChild .left old)
  (m.setParent left (some node)).adopt (m.rbChild .right old) (some node)

/-- `rb_erase` of a node with two children: the next node takes its place. -/
def eraseTwo (m : HpMap K V) (old : Nat) : Option (HpMap K V) := do
  let right ← m.deref (m.rbChild .right old)
  let node ← m.descend .left m.fuel right
  let child := m.rbChild .right node
  let parent := m.rbParent node
  let color := m.rbColor node
  let m ← m.adopt child parent
  let m ← m.replaceChild .left parent node child
  let parent := if m.rbParent node = some old then some node else parent
  let m ← decWeights m.fuel m parent
  let m ← m.takePlace node old
  m.recolor color child parent

def rbErase (m : HpMap K V) (node : Nat) : Option (HpMap K V) :=
  let m := { m with size := wrapInt (m.size - 1) }
  if m.rbChild .left node = none then m.eraseOne node (m.rbChild .right node)
  else if m.rbChild .right node = none then m.eraseOne node (m.rbChild .left node)
  else m.eraseTwo node

/-! ### In order -/

/-- `rb_first` on the left, `rb_last` on the right. -/
def rbEnd (m : HpMap K V) (s : Side) (root : Option Nat) : Option (Option Nat) :=
  if root = none then some none else (m.deref root).bind fun n => (m.descend s m.fuel n).map some

def rbFirst (m : HpMap K V) : Option (Option Nat) := m.rbEnd .left m.rbNode

def rbLast (m : HpMap K V) : Option (Option Nat) := m.rbEnd .right m.rbNode

/-- The way up from `node` as long as it comes from side `s`, and one step more. -/
def climb (m : HpMap K V) (s : Side) : Nat → Nat → Option (Option Nat)
  | 0, _ => none
  | fuel + 1, node =>
    if m.rbParent node = none then some none
    else (m.deref (m.rbParent node)).bind fun parent =>
      if m.rbChild s parent = some node then m.climb s fuel parent else some (some parent)

/-- The neighbour of `node` on side `s`. -/
def neighbour (m : HpMap K V) (s : Side) (node : Nat) : Option (Option Nat) :=
  if m.rbChild s node = none then m.climb s m.fuel node
  else (m.deref (m.rbChild s node)).bind fun n => (m.descend s.opp m.fuel n).map some

def rbNext (m : HpMap K V) (node : Nat) : Option (Option Nat) := m.neighbour .right node

def rbPrev (m : HpMap K V) (node : Nat) : Option (Option Nat) := m.neighbour .left node

/-- `iterator`, with its own copy of the root. -/
structure Iterator where
  currentNode : Option Nat
  rbNode : Option Nat

def begin (m : HpMap K V) : Option Iterator := m.rbFirst.map fun p => ⟨p, m.rbNode⟩

def end_ (m : HpMap K V) : Iterator := ⟨none, m.rbNode⟩

/-- `operator ++`. -/
def Iterator.incr (it : Iterator) (m : HpMap K V) : Option Iterator :=
  match it.currentNode with
  | some a => (m.rbNext a).map fun p => { it with currentNode := p }
  | none => some it

/-- `operator --`. -/
def Iterator.decr (it : Iterator) (m : HpMap K V) : Option Iterator :=
  match it.currentNode with
  | some a => (m.rbPrev a).map fun p => { it with currentNode := p }
  | none => (m.rbEnd .right it.rbNode).map fun p => { it with currentNode := p }

/-! ### The operations -/

/-- What a call gives back: what it returns, and what it stores in `second`. -/
structure Answer (V : Type) where
  ret : Option Int
  second : Option V
deriving DecidableEq, Repr

/-- The constructor: no node is there, and what the memory holds does not matter. -/
structure IsEmpty (m : HpMap K V) : Prop where
  rbNode : m.rbNode = none
  size : m.size = 0
  live : m.live = []

/-- `Pool_node.free`. -/
def free (m : HpMap K V) (a : Nat) : HpMap K V := { m with live := m.live.erase a }

def clear (m : HpMap K V) : HpMap K V := { m with rbNode := none, size := 0, live := [] }

section keys
variable [LinearOrder K]

/-- `insert`, where `Pool_node.malloc` gives the node `p`, or none. -/
def insert (m : HpMap K V) (first : K) (second : V) (p : Option Nat) : Option (HpMap K V × Answer V) :=
  match p with
  | none => some (m, ⟨some (-1), none⟩)
  | some a =>
    let m := { m with
      live := a :: m.live, first := Function.update m.first a first,
      second := Function.update m.second a second }
    (m.myRbInsert a).map fun r => (r.1, ⟨some r.2, none⟩)

/-- `find`; the one without `second` is the same. -/
def find (m : HpMap K V) (first : K) : Option (Answer V) :=
  (m.myRbFind first).map fun
    | some a => ⟨some 0, some (m.second a)⟩
    | none => ⟨some (-1), none⟩

/-- `find_and_del`; the one without `second` is the same, and so is `erase`. -/
def findAndDel (m : HpMap K V) (first : K) : Option (HpMap K V × Answer V) :=
  (m.myRbFind first).bind fun
    | some a => (m.rbErase a).map fun m' => (m'.free a, ⟨some 0, some (m.second a)⟩)
    | none => some (m, ⟨some (-1), none⟩)

def erase (m : HpMap K V) (first : K) : Option (HpMap K V × Answer V) :=
  (m.findAndDel first).map fun r => (r.1, { r.2 with second := none })

def change (m : HpMap K V) (first : K) (second : V) : Option (HpMap K V × Answer V) :=
  (m.myRbFind first).map fun
    | some a => ({ m with second := Function.update m.second a second }, ⟨some 0, none⟩)
    | none => (m, ⟨some (-1), none⟩)

end keys

inductive Op (K V : Type)
  | insert (first : K) (second : V) (p : Option Nat)
  | find (first : K)
  | findAndDel (first : K)
  | erase (first : K)
  | change (first : K) (second : V)
  | clear
  | size

section keys
variable [LinearOrder K]

def exec (m : HpMap K V) : Op K V → Option (HpMap K V × Answer V)
  | .insert first second p => m.insert first second p
  | .find first => (m.find first).map fun r => (m, r)
  | .findAndDel first => m.findAndDel first
  | .erase first => m.erase first
  | .change first second => m.change first second
  | .clear => some (m.clear, ⟨none, none⟩)
  | .size => some (m, ⟨some m.size, none⟩)

end keys

/-- The pool gives out no node that it has given out already. -/
def Fresh (m : HpMap K V) : Op K V → Prop
  | .insert _ _ (some a) => a ∉ m.live
  | _ => True

/-- The operations in turn, and what they give back. -/
def runOps [LinearOrder K] (m : HpMap K V) : List (Op K V) → Option (HpMap K V × List (Answer V))
  | [] => some (m, [])
  | op :: ops => (m.exec op).bind fun r => (runOps r.1 ops).map fun r' => (r'.1, r.2 :: r'.2)

/-- The machine of the calls. -/
def machine (K V : Type) [LinearOrder K] : Machine (HpMap K V) (Op K V) where
  init := IsEmpty
  step m op := (m.exec op).map Prod.fst

end HpMap

/-- `HP_set`: the same without values. -/
abbrev HpSet (K : Type) := HpMap K Unit

end Resend.Udp

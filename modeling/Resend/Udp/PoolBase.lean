import Resend.Lib.LinkedList
import Resend.Lib.Machine
import Resend.Udp.TimerWheel

/-!
# The object pool

`_pool_base_` and `_mutex_pool_base_`: blocks of `512` objects in a table that doubles, and a free
list whose links lie in the objects. `init` uses what `malloc` returns without a look at it, and the
size of a block is an `int`.
-/

namespace Resend.Udp

/-- `_pool_base_`, or `_mutex_pool_base_` where there is a `_mutex`. `memory` has the words of the
blocks: an address outside is not to be read or written. -/
structure PoolBase where
  mallocSize : Int
  head : Option Nat
  bufList : List (Option Nat)
  bufListOffset : Nat
  bufListSize : Int
  mutex : Option Bool
  memory : Cells Unit

namespace PoolBase

/-- An `int` as the `size_t` that `malloc` takes. -/
def sizeT (n : Int) : Nat := (n % 2 ^ 64).toNat

/-- The bytes of a block: `512 * _malloc_size`. -/
def blockBytes (mallocSize : Int) : Nat := sizeT (wrapInt (512 * mallocSize))

/-- A block of `bytes` bytes at `a`. -/
def alloc (m : Cells Unit) (a bytes : Nat) : Cells Unit :=
  fun p => if a ≤ p ∧ p + 8 ≤ a + bytes then some ⟨(), none⟩ else m p

/-- `&buf[k]`. -/
def offset (buf : Nat) (k : Int) : Option Nat := if 0 ≤ buf + k then some (buf + k).toNat else none

/-- `*((char **)p) = next`. -/
def store (m : Cells Unit) (p next : Option Nat) : Option (Cells Unit) :=
  p.bind fun p => (m p).map fun _ => Function.update m p (some ⟨(), next⟩)

/-- `k` turns, from `i` on, of the loop that links the objects of a block. -/
def thread (mallocSize : Int) (nnode : Nat) : Nat → Nat → Cells Unit → Option (Cells Unit)
  | 0, _, m => some m
  | k + 1, i, m =>
    (store m (offset nnode (wrapInt (i * mallocSize)))
      (offset nnode (wrapInt ((i + 1 : Nat) * mallocSize)))).bind
        (thread mallocSize nnode k (i + 1))

/-- The block at `nnode` with its objects linked from index `i` on, the last one to `next`. -/
def threadBlock (mallocSize : Int) (nnode i : Nat) (m : Cells Unit) (next : Option Nat) :
    Option (Cells Unit) :=
  (thread mallocSize nnode (511 - i) i (alloc m nnode (blockBytes mallocSize))).bind fun m =>
    store m (offset nnode (wrapInt (511 * mallocSize))) next

/-- `init`, where `malloc` returns a table or not, and `block`. Neither is checked before it is
written to. -/
def init (hasMutex : Bool) (objectSize : Int) (table : Bool) (block : Option Nat) : Option PoolBase :=
  if table then
    block.bind fun head => (threadBlock objectSize head 0 (fun _ => none) none).map fun m =>
      { mallocSize := objectSize
        head := some head
        bufList := some head :: List.replicate 127 none
        bufListOffset := 1
        bufListSize := 128
        mutex := if hasMutex then some false else none
        memory := m }
  else none

/-- Makes room in `_buf_list`; nothing where `malloc` returns no `table`. -/
def makeRoom (p : PoolBase) (table : Bool) : Option PoolBase :=
  if (p.bufListOffset : Int) = p.bufListSize then
    if table then
      some { p with
        bufList := p.bufList ++ List.replicate p.bufListSize.toNat none
        bufListSize := wrapInt (2 * p.bufListSize) }
    else none
  else some p

/-- A new block: object `0` is handed out, the others are free. -/
def addBlock (p : PoolBase) (nnode : Nat) : Option PoolBase :=
  if p.bufListOffset < p.bufList.length then
    (threadBlock p.mallocSize nnode 1 p.memory p.head).map fun m =>
      { p with
        bufList := p.bufList.set p.bufListOffset (some nnode)
        bufListOffset := p.bufListOffset + 1
        memory := m
        head := offset nnode p.mallocSize }
  else none

/-- `get_object`; `table` and `block` are what `malloc` returns where it is called. Nothing where
the mutex is not free. -/
def getObject (p : PoolBase) (table : Bool) (block : Option Nat) : Option (PoolBase × Option Nat) :=
  if p.mutex = some true then none
  else match p.head with
    | some rebuf => (p.memory rebuf).map fun c => ({ p with head := c.next }, some rebuf)
    | none =>
      match p.makeRoom table, block with
      | none, _ => some (p, none)
      | some p, none => some (p, none)
      | some p, some nnode => (p.addBlock nnode).map fun p => (p, some nnode)

def releaseObject (p : PoolBase) (buf : Nat) : Option PoolBase :=
  if p.mutex = some true then none
  else (store p.memory (some buf) p.head).map fun m => { p with memory := m, head := some buf }

/-- A call, or its owner writes to an object. -/
inductive Op
  | getObject (table : Bool) (block : Option Nat)
  | releaseObject (buf : Nat)
  | write (buf : Nat) (word : Option Nat)

/-- A pool, the blocks that `malloc` has returned for it, and the objects handed out and not
released. -/
structure Run where
  pool : PoolBase
  blocks : List Nat
  out : List Nat

/-- What `malloc` returned for a block in the call. -/
def Op.malloced (p : PoolBase) : Op → List Nat
  | .getObject table block => if p.head = none ∧ (p.makeRoom table).isSome then block.toList else []
  | _ => []

def step (s : Run) (op : Op) : Option Run :=
  let blocks := s.blocks ++ op.malloced s.pool
  match op with
  | .getObject table block => (s.pool.getObject table block).map fun r =>
    ⟨r.1, blocks, r.2.toList ++ s.out⟩
  | .releaseObject buf => (s.pool.releaseObject buf).map fun p => ⟨p, blocks, s.out.erase buf⟩
  | .write buf word => (store s.pool.memory (some buf) word).map fun m =>
    ⟨{ s.pool with memory := m }, blocks, s.out⟩

/-- `malloc` can return a block of `bytes` bytes at `a`: it is not too large for a block, and lies
apart from the others. -/
def Fresh (bytes : Nat) (blocks : List Nat) (a : Nat) : Prop :=
  bytes < 2 ^ 63 ∧ ∀ b ∈ blocks, a + bytes ≤ b ∨ b + bytes ≤ a

/-- What `malloc` can return, and only objects that are out are released or written to. -/
def Possible (s : Run) : Op → Prop
  | .getObject table block =>
    (table = true → sizeT (8 * wrapInt (2 * s.pool.bufListSize)) < 2 ^ 63) ∧
      ∀ a, block = some a → Fresh (blockBytes s.pool.mallocSize) s.blocks a
  | .releaseObject buf | .write buf _ => buf ∈ s.out

/-- Calls on the pool `p`, whose `init` got a block at `head`. -/
def machine (p : PoolBase) (head : Nat) : Machine Run Op where
  init s := s = ⟨p, [head], []⟩
  step := step

/-! ### What a pool should be -/

/-- The objects of the block at `a`. -/
def objectsOf (size a : Nat) : List Nat := (List.range 512).map fun i => a + i * size

def objects (size : Nat) (blocks : List Nat) : List Nat := blocks.flatMap (objectsOf size)

/-- The free list is `free`. -/
def FreeList (p : PoolBase) (free : List Nat) : Prop :=
  p.head = Cells.head (free.map (·, ())) none ∧ Cells.Linked p.memory (free.map (·, ())) none

/-- The table lists the blocks; the free objects and those that are out are the objects of the
blocks, each of them once. -/
structure Sound (size : Nat) (s : Run) : Prop where
  table : s.pool.bufList = s.blocks.map some ++ List.replicate
    (s.pool.bufList.length - s.blocks.length) none
  offset : s.pool.bufListOffset = s.blocks.length
  free : ∃ free, s.pool.FreeList free ∧ (free ++ s.out).Perm (objects size s.blocks)
  nodup : (objects size s.blocks).Nodup

/-- What `get_object` does: a failed call changes nothing but the room in the table; another one
hands out an object that is not out. -/
structure Got (size : Nat) (s : Run) (op : Op) (p : PoolBase) (r : Option Nat) : Prop where
  failed : r = none → p.head = s.pool.head ∧ p.memory = s.pool.memory ∧ op.malloced s.pool = []
  fresh : ∀ a, r = some a → a ∉ s.out ∧ a ∈ objects size (s.blocks ++ op.malloced s.pool)

/-- The call goes through, and where it gets an object it does so as it should. -/
structure Right (size : Nat) (s : Run) (op : Op) : Prop where
  through : (step s op).isSome = true
  got : ∀ table block, op = .getObject table block →
    ∃ p r, s.pool.getObject table block = some (p, r) ∧ Got size s op p r

/-- A pool of objects of `size` bytes, with what `malloc` returns to `init`, is sound in all runs:
`init` goes through, and in every state reached the pool is sound and every call is right. -/
def SoundInRuns (hasMutex : Bool) (size : Nat) (table : Bool) (block : Option Nat) : Prop :=
  ∃ p head, init hasMutex size table block = some p ∧ block = some head ∧
    ∀ s, (machine p head).ReachUnder Possible s → Sound size s ∧ ∀ op, Possible s op → Right size s op

/-! ### Blocks -/

/-- An object holds a pointer, and the bytes of a block fit an `int`. -/
structure Fits (size : Nat) : Prop where
  pointer : 8 ≤ size
  int : 512 * size < 2 ^ 31

section blocks
variable {size a b p i k : Nat} {m : Cells Unit} {next : Option Nat} {blocks : List Nat}

theorem Fits.wrapInt_mul (hs : Fits size) (hi : i ≤ 512) :
    wrapInt (i * (size : Int)) = (i * size : Nat) := by
  have hle : i * size ≤ 512 * size := Nat.mul_le_mul_right _ hi
  have hint := hs.int
  rw [← Int.natCast_mul]
  exact TimerWheel.wrapInt_of_fits (by omega) (by omega)

theorem Fits.blockBytes_eq (hs : Fits size) : blockBytes size = 512 * size := by
  have hint := hs.int
  have hwrap := hs.wrapInt_mul le_rfl
  rw [blockBytes, show (512 : Int) * size = (512 : Nat) * (size : Int) from rfl, hwrap, sizeT]
  omega

theorem Fits.offset_object (hs : Fits size) (hi : i ≤ 512) :
    offset a (wrapInt (i * (size : Int))) = some (a + i * size) := by
  rw [hs.wrapInt_mul hi, PoolBase.offset, if_pos (by omega)]
  rfl

theorem mem_objectsOf : p ∈ objectsOf size a ↔ ∃ i < 512, a + i * size = p := by
  simp only [objectsOf, List.mem_map, List.mem_range]

theorem objectsOf_bounds (hp : p ∈ objectsOf size a) : a ≤ p ∧ p + size ≤ a + 512 * size := by
  obtain ⟨i, hi, rfl⟩ := mem_objectsOf.1 hp
  have hle : (i + 1) * size ≤ 512 * size := Nat.mul_le_mul_right _ hi
  rw [Nat.succ_mul] at hle
  omega

theorem objectsOf_nodup (hs : Fits size) : (objectsOf size a).Nodup := by
  have hpos : 0 < size := Nat.lt_of_lt_of_le (by decide) hs.pointer
  refine (List.nodup_map_iff fun i j hij => ?_).2 List.nodup_range
  exact Nat.eq_of_mul_eq_mul_right hpos (Nat.add_left_cancel hij)

theorem objects_concat : objects size (blocks ++ [a]) = objects size blocks ++ objectsOf size a := by
  rw [objects, List.flatMap_append, List.flatMap_singleton]
  rfl

theorem objects_disjoint (hs : Fits size) (hf : Fresh (512 * size) blocks a)
    (hp : p ∈ objects size blocks) :
    p ∉ objectsOf size a := by
  intro hin
  obtain ⟨b, hb, hpb⟩ := List.mem_flatMap.1 hp
  obtain ⟨h1, h2⟩ := objectsOf_bounds hpb
  obtain ⟨h3, h4⟩ := objectsOf_bounds hin
  have hpos := hs.pointer
  rcases hf.2 b hb with hab | hba
  · omega
  · omega

theorem objects_nodup (hs : Fits size) (hf : Fresh (512 * size) blocks a)
    (h : (objects size blocks).Nodup) :
    (objects size (blocks ++ [a])).Nodup := by
  rw [objects_concat, List.nodup_append']
  exact ⟨h, objectsOf_nodup hs, fun p hp => objects_disjoint hs hf hp⟩

/-- The objects of the block at `a` from index `i` on, `k` of them. -/
def cellsFrom (size a i k : Nat) : List (Nat × Unit) :=
  (List.range' i k).map fun j => (a + j * size, ())

theorem head_cellsFrom (e : Option Nat) (he : k = 0 → e = some (a + i * size)) :
    Cells.head (cellsFrom size a i k) e = some (a + i * size) := by
  cases k with
  | zero => exact he rfl
  | succ k => rfl

theorem mem_cellsFrom :
    p ∈ (cellsFrom size a i k).map Prod.fst ↔ ∃ j, (i ≤ j ∧ j < i + k) ∧ a + j * size = p := by
  simp only [cellsFrom, List.map_map, List.mem_map, List.mem_range'_1, Function.comp_apply]

theorem not_mem_cellsFrom (hs : Fits size) {j : Nat} (hj : j < i ∨ i + k ≤ j) :
    a + j * size ∉ (cellsFrom size a i k).map Prod.fst := by
  have hpos : 0 < size := Nat.lt_of_lt_of_le (by decide) hs.pointer
  rw [mem_cellsFrom]
  rintro ⟨l, hl, hlj⟩
  have heq := Nat.eq_of_mul_eq_mul_right hpos (Nat.add_left_cancel hlj)
  omega

theorem store_eq (h : (m p).isSome = true) :
    store m (some p) next = some (Function.update m p (some ⟨(), next⟩)) := by
  obtain ⟨c, hc⟩ := Option.isSome_iff_exists.1 h
  rw [store, Option.bind_some, hc]
  rfl

theorem isSome_update {q : Nat} {c : Cell Unit} (h : (m q).isSome = true) :
    (Function.update m p (some c) q).isSome = true := by
  rcases eq_or_ne q p with rfl | hne
  · rw [Function.update_self]
    rfl
  · rwa [Function.update_of_ne hne]

/-- The loop links the objects and touches nothing else. -/
theorem thread_spec (hs : Fits size) (hk : i + k ≤ 511)
    (hm : ∀ q ∈ (cellsFrom size a i k).map Prod.fst, (m q).isSome = true) :
    ∃ m', thread size a k i m = some m' ∧
      Cells.Linked m' (cellsFrom size a i k) (some (a + (i + k) * size)) ∧
      (∀ q ∉ (cellsFrom size a i k).map Prod.fst, m' q = m q) := by
  induction k generalizing i m with
  | zero => exact ⟨m, rfl, trivial, fun _ _ => rfl⟩
  | succ k ih =>
    have hfirst : (m (a + i * size)).isSome = true := hm _ List.mem_cons_self
    obtain ⟨m', hm', hlinked, hframe⟩ := @ih (i + 1)
      (Function.update m (a + i * size) (some ⟨(), some (a + (i + 1) * size)⟩)) (by omega)
      fun q hq => isSome_update (hm q (List.mem_cons_of_mem _ hq))
    refine ⟨m', ?_, ⟨?_, ?_⟩, fun q hq => ?_⟩
    · rw [thread, hs.offset_object (by omega), hs.offset_object (by omega), store_eq hfirst]
      exact hm'
    · rw [hframe _ (not_mem_cellsFrom hs (.inl (Nat.lt_succ_self i))), Function.update_self]
      congr 2
      refine (head_cellsFrom _ fun hzero => ?_).symm
      rw [hzero]
    · rwa [Nat.add_right_comm, Nat.add_assoc] at hlinked
    · have hq' := List.not_mem_of_not_mem_cons hq
      rw [hframe q hq', Function.update_of_ne (List.ne_of_not_mem_cons hq)]

theorem cellsFrom_concat :
    cellsFrom size a i (k + 1) = cellsFrom size a i k ++ [(a + (i + k) * size, ())] := by
  rw [cellsFrom, List.range'_concat, List.map_append, Nat.one_mul]
  rfl

theorem alloc_isSome (hs : Fits size) (hp : p ∈ objectsOf size a) :
    (alloc m a (blockBytes size) p).isSome = true := by
  obtain ⟨h1, h2⟩ := objectsOf_bounds hp
  have hpos := hs.pointer
  rw [hs.blockBytes_eq, alloc, if_pos ⟨h1, by omega⟩]
  rfl

theorem isSome_alloc {bytes : Nat} (h : (m p).isSome = true) : (alloc m a bytes p).isSome = true := by
  rw [alloc]
  split
  · rfl
  · exact h

theorem mem_objectsOf_of_cells (hik : i + k ≤ 512) (hp : p ∈ (cellsFrom size a i k).map Prod.fst) :
    p ∈ objectsOf size a := by
  obtain ⟨j, hj, rfl⟩ := mem_cellsFrom.1 hp
  exact mem_objectsOf.2 ⟨j, by omega, rfl⟩

theorem isSome_of_thread {m' : Cells Unit} (hlinked : Cells.Linked m' (cellsFrom size a i k) next)
    (hframe : ∀ q ∉ (cellsFrom size a i k).map Prod.fst, m' q = m q) (h : (m p).isSome = true) :
    (m' p).isSome = true := by
  by_cases hp : p ∈ (cellsFrom size a i k).map Prod.fst
  · by_contra hnone
    exact hlinked.not_mem (Option.not_isSome_iff_eq_none.1 hnone) hp
  · rwa [hframe p hp]

theorem threadBlock_spec (hs : Fits size) (hi : i ≤ 1) :
    ∃ m', threadBlock size a i m next = some m' ∧
      Cells.Linked m' (cellsFrom size a i (512 - i)) next ∧
      (∀ q, (m q).isSome = true → (m' q).isSome = true) ∧
      (∀ q ∈ objectsOf size a, (m' q).isSome = true) := by
  obtain ⟨m₁, hm₁, hlinked, hframe⟩ :=
    @thread_spec size a i (511 - i) (alloc m a (blockBytes size)) hs (by omega) fun q hq =>
      alloc_isSome hs (mem_objectsOf_of_cells (by omega) hq)
  have hkeep : ∀ q, (alloc m a (blockBytes size) q).isSome = true → (m₁ q).isSome = true :=
    fun q => isSome_of_thread hlinked hframe
  have hlast : a + 511 * size ∈ objectsOf size a := mem_objectsOf.2 ⟨511, by decide, rfl⟩
  have hsplit : cellsFrom size a i (512 - i) =
      cellsFrom size a i (511 - i) ++ [(a + 511 * size, ())] := by
    rw [show 512 - i = 511 - i + 1 by omega, cellsFrom_concat, show i + (511 - i) = 511 by omega]
  refine ⟨Function.update m₁ (a + 511 * size) (some ⟨(), next⟩), ?_, ?_, fun q hq => ?_, fun q hq => ?_⟩
  · rw [threadBlock, hm₁, Option.bind_some, ← store_eq (hkeep _ (alloc_isSome hs hlast))]
    exact congrArg (store m₁ · next) (@Fits.offset_object size a 511 hs (by decide))
  · rw [hsplit, Cells.linked_concat, Function.update_self]
    rw [show i + (511 - i) = 511 by omega] at hlinked
    exact ⟨hlinked.update (not_mem_cellsFrom hs (.inr (by omega))) _, rfl⟩
  · exact isSome_update (hkeep q (isSome_alloc hq))
  · exact isSome_update (hkeep q (alloc_isSome hs hq))

theorem cellsFrom_eq :
    cellsFrom size a i k = ((List.range' i k).map fun j => a + j * size).map (·, ()) := by
  rw [List.map_map]
  rfl

theorem objectsOf_eq_cons : objectsOf size a = a :: (List.range' 1 511).map fun j => a + j * size := by
  rw [objectsOf, List.range_eq_range', List.range'_succ, List.map_cons, Nat.zero_mul]
  rfl

end blocks

/-! ### Calls -/

/-- What the calls keep up. -/
structure Inv (size : Nat) (s : Run) : Prop extends Sound size s where
  size_eq : s.pool.mallocSize = size
  unlocked : s.pool.mutex ≠ some true
  length : (s.pool.bufList.length : Int) = s.pool.bufListSize
  le : s.blocks.length ≤ s.pool.bufList.length
  pos : 0 < s.pool.bufListSize
  small : s.pool.bufListSize < 2 ^ 31
  mapped : ∀ a ∈ objects size s.blocks, (s.pool.memory a).isSome = true

/-- The call is right and keeps the invariant. -/
def Serves (size : Nat) (s : Run) (op : Op) : Prop :=
  Right size s op ∧ ∀ s', step s op = some s' → Inv size s'

section calls
variable {size a buf : Nat} {s : Run} {table : Bool} {block word : Option Nat} {free : List Nat}
  {p : PoolBase}

theorem serves_getObject {r : Option Nat} (hr : s.pool.getObject table block = some (p, r))
    (hgot : Got size s (.getObject table block) p r)
    (hinv : Inv size ⟨p, s.blocks ++ (Op.getObject table block).malloced s.pool, r.toList ++ s.out⟩) :
    Serves size s (.getObject table block) := by
  have hstep : step s (.getObject table block) =
      some ⟨p, s.blocks ++ (Op.getObject table block).malloced s.pool, r.toList ++ s.out⟩ := by
    simp only [step, hr, Option.map_some]
  refine ⟨⟨by rw [hstep]; rfl, ?_⟩, fun s' hs' => ?_⟩
  · rintro _ _ ⟨⟩
    exact ⟨p, r, hr, hgot⟩
  · rw [hstep] at hs'
    exact Option.some.inj hs' ▸ hinv

theorem serves_of_step {s' : Run} {op : Op} (hstep : step s op = some s') (hinv : Inv size s')
    (hop : ∀ table block, op ≠ .getObject table block) : Serves size s op := by
  refine ⟨⟨by rw [hstep]; rfl, fun table block he => absurd he (hop table block)⟩, fun s'' hs'' => ?_⟩
  rw [hstep] at hs''
  exact Option.some.inj hs'' ▸ hinv

theorem freeList_nil_iff : p.FreeList [] ↔ p.head = none := and_iff_left trivial

theorem Inv.pop (h : Inv size s) (hfree : s.pool.FreeList (a :: free))
    (hperm : (a :: free ++ s.out).Perm (objects size s.blocks)) :
    Serves size s (.getObject table block) := by
  obtain ⟨hhead, hcell, hlinked⟩ := hfree
  have hmalloced : (Op.getObject table block).malloced s.pool = [] := if_neg fun hand => by
    rw [hand.1] at hhead
    cases hhead
  have hcell' : s.pool.memory a = some ⟨(), Cells.head (free.map (·, ())) none⟩ := hcell
  have hr : s.pool.getObject table block =
      some ({ s.pool with head := Cells.head (free.map (·, ())) none }, some a) := by
    have hhead' : s.pool.head = some a := hhead
    simp only [getObject, if_neg h.unlocked, hhead', hcell', Option.map_some]
  have hperm' : (free ++ a :: s.out).Perm (objects size s.blocks) := List.perm_middle.trans hperm
  refine serves_getObject hr ⟨fun hnone => (nomatch hnone), ?_⟩ ?_
  · rintro _ ⟨⟩
    rw [hmalloced, List.append_nil]
    have hnodup : (a :: (free ++ s.out)).Nodup := hperm.nodup_iff.2 h.nodup
    exact ⟨fun hin => (List.nodup_cons.1 hnodup).1 (List.mem_append_right _ hin),
      hperm.subset List.mem_cons_self⟩
  · rw [hmalloced, List.append_nil]
    exact { h with free := ⟨free, ⟨rfl, hlinked⟩, hperm'⟩ }

theorem replicate_table {xs : List (Option Nat)} {k n : Nat} (hn : n ≤ k) :
    xs ++ List.replicate (k - n) none ++ List.replicate a none =
      xs ++ List.replicate (k + a - n) none := by
  rw [List.append_assoc, List.replicate_append_replicate, Nat.sub_add_comm hn]

theorem Inv.makeRoom (h : Inv size s)
    (hp : table = true → sizeT (8 * wrapInt (2 * s.pool.bufListSize)) < 2 ^ 63)
    (hroom : s.pool.makeRoom table = some p) :
    Inv size { s with pool := p } ∧ p.head = s.pool.head ∧
      p.memory = s.pool.memory ∧ s.blocks.length < p.bufList.length := by
  have hoffset := h.offset
  have hlength := h.length
  have hle := h.le
  have hpos := h.pos
  have hsmall := h.small
  rw [PoolBase.makeRoom] at hroom
  split at hroom
  · split at hroom
    · rename_i htable
      cases hroom
      -- a table of `2 ^ 31` entries is more than `malloc` gives
      have hint : 2 * s.pool.bufListSize < 2 ^ 31 := by
        by_contra hge
        have hwrap : wrapInt (2 * s.pool.bufListSize) = 2 * s.pool.bufListSize - 2 ^ 32 := by
          rw [wrapInt, Int.bmod_def]
          omega
        have hbytes := hp htable
        rw [hwrap, sizeT] at hbytes
        omega
      have hwrap : wrapInt (2 * s.pool.bufListSize) = 2 * s.pool.bufListSize :=
        TimerWheel.wrapInt_of_fits (by omega) (by omega)
      have hlen : (s.pool.bufList ++ List.replicate s.pool.bufListSize.toNat none).length =
          s.pool.bufList.length + s.pool.bufListSize.toNat := by
        rw [List.length_append, List.length_replicate]
      refine ⟨{ h with table := ?_, length := ?_, le := ?_, pos := ?_, small := ?_ }, rfl, rfl, ?_⟩
      · show s.pool.bufList ++ _ = _
        rw [hlen]
        conv_lhs => rw [h.table]
        exact replicate_table hle
      · show ((s.pool.bufList ++ _ : List (Option Nat)).length : Int) = wrapInt _
        rw [hwrap, hlen]
        omega
      · show s.blocks.length ≤ (s.pool.bufList ++ _ : List (Option Nat)).length
        rw [hlen]
        omega
      · show 0 < wrapInt _
        omega
      · show wrapInt _ < 2 ^ 31
        omega
      · show s.blocks.length < (s.pool.bufList ++ _ : List (Option Nat)).length
        rw [hlen]
        omega
    · cases hroom
  · cases hroom
    exact ⟨h, rfl, rfl, by omega⟩

theorem set_table {xs : List Nat} {k : Nat} (hlt : xs.length < k) :
    (xs.map some ++ List.replicate (k - xs.length) none).set xs.length (some a) =
      (xs ++ [a]).map some ++ List.replicate (k - (xs ++ [a]).length) none := by
  obtain ⟨j, hj⟩ := Nat.exists_eq_add_of_lt hlt
  rw [List.set_append_right _ _ (by rw [List.length_map]), List.length_map,
    Nat.sub_self, List.length_append, show k - xs.length =
      j + 1 by omega, show k - (xs.length + [a].length) = j by simp; omega, List.replicate_succ,
    List.set_cons_zero, List.map_append, List.append_assoc]
  rfl

theorem Inv.addBlock (h : Inv size s) (hs : Fits size) (hf : Fresh (blockBytes size) s.blocks a)
    (hhead : s.pool.head = none) (hlt : s.blocks.length < s.pool.bufList.length) :
    ∃ p, s.pool.addBlock a = some p ∧ Inv size ⟨p, s.blocks ++ [a], a :: s.out⟩ := by
  obtain ⟨free, ⟨hfree, -⟩, hperm⟩ := h.free
  obtain rfl : free = [] := by
    cases free with
    | nil => rfl
    | cons b free =>
      rw [hhead] at hfree
      cases hfree
  obtain ⟨m, hm, hlinked, hkeep, hobjects⟩ :=
    @threadBlock_spec size a 1 s.pool.memory s.pool.head hs le_rfl
  rw [hs.blockBytes_eq] at hf
  have hoffset : s.pool.bufListOffset < s.pool.bufList.length := by rwa [h.offset]
  have hlink : PoolBase.offset a s.pool.mallocSize = some (a + 1 * size) := by
    rw [h.size_eq, PoolBase.offset, if_pos (by omega), Nat.one_mul]
    rfl
  rw [← h.size_eq] at hm
  refine ⟨_, by rw [PoolBase.addBlock, if_pos hoffset, hm, Option.map_some], ?_⟩
  refine { size_eq := h.size_eq, unlocked := h.unlocked, pos := h.pos, small := h.small,
           table := ?_, offset := ?_, free := ?_, nodup := ?_, length := ?_, le := ?_, mapped := ?_ }
  · show s.pool.bufList.set s.pool.bufListOffset (some a) = _
    rw [List.length_set, h.offset]
    conv_lhs => rw [h.table]
    exact set_table hlt
  · show s.pool.bufListOffset + 1 = _
    rw [h.offset, List.length_append]
    rfl
  · refine ⟨(List.range' 1 511).map fun j => a + j * size, ⟨?_, ?_⟩, ?_⟩
    · show PoolBase.offset a s.pool.mallocSize = _
      rw [hlink, ← cellsFrom_eq]
      rfl
    · rw [← cellsFrom_eq]
      rwa [hhead] at hlinked
    · rw [objects_concat, objectsOf_eq_cons]
      refine List.perm_middle.trans ?_
      rw [← List.cons_append]
      exact List.perm_append_comm.trans (hperm.append_right _)
  · exact objects_nodup hs hf h.nodup
  · show ((s.pool.bufList.set _ _).length : Int) = s.pool.bufListSize
    rw [List.length_set]
    exact h.length
  · show (s.blocks ++ [a]).length ≤ (s.pool.bufList.set _ _).length
    rw [List.length_set, List.length_append]
    exact hlt
  · intro q hq
    rw [objects_concat, List.mem_append] at hq
    rcases hq with hq | hq
    · exact hkeep q (h.mapped q hq)
    · exact hobjects q hq

theorem Inv.getObject (h : Inv size s) (hs : Fits size) (hp : Possible s (.getObject table block)) :
    Serves size s (.getObject table block) := by
  obtain ⟨free, hfree, hperm⟩ := h.free
  cases free with
  | cons a free => exact h.pop hfree hperm
  | nil =>
    have hhead : s.pool.head = none := freeList_nil_iff.1 hfree
    obtain ⟨htable, hblock⟩ := hp
    rcases hroom : s.pool.makeRoom table with _ | p
    · have hmalloced : (Op.getObject table block).malloced s.pool = [] := if_neg fun hand => by
        simp [hroom] at hand
      have hr : s.pool.getObject table block = some (s.pool, none) := by
        simp only [PoolBase.getObject, if_neg h.unlocked, hhead, hroom]
      refine serves_getObject hr ⟨fun _ => ⟨rfl, rfl, hmalloced⟩, fun a ha => (nomatch ha)⟩ ?_
      rw [hmalloced, List.append_nil]
      exact h
    · obtain ⟨hinv, hhead', hmemory, hlt⟩ := h.makeRoom htable hroom
      have hmalloced : (Op.getObject table block).malloced s.pool = block.toList :=
        if_pos ⟨hhead, by rw [hroom]; rfl⟩
      cases block with
      | none =>
        have hr : s.pool.getObject table none = some (p, none) := by
          simp only [PoolBase.getObject, if_neg h.unlocked, hhead, hroom]
        refine serves_getObject hr ⟨fun _ => ⟨hhead', hmemory, hmalloced⟩, fun a ha => (nomatch ha)⟩ ?_
        rw [hmalloced]
        exact (List.append_nil s.blocks).symm ▸ hinv
      | some a =>
        have hf := hblock a rfl
        rw [h.size_eq] at hf
        obtain ⟨p', hp', hinv'⟩ := hinv.addBlock hs hf (hhead'.trans hhead) hlt
        have hr : s.pool.getObject table (some a) = some (p', some a) := by
          simp only [PoolBase.getObject, if_neg h.unlocked, hhead, hroom, hp', Option.map_some]
        refine serves_getObject hr ⟨fun hnone => (nomatch hnone), ?_⟩ ?_
        · rintro _ ⟨⟩
          rw [hmalloced]
          obtain ⟨free', -, hperm'⟩ := hinv'.free
          have hnodup := hperm'.nodup_iff.2 hinv'.nodup
          refine ⟨fun hin => ?_, hperm'.subset (List.mem_append_right _ List.mem_cons_self)⟩
          exact (List.nodup_cons.1 (List.nodup_append.1 hnodup).2.1).1 hin
        · rw [hmalloced]
          exact hinv'

theorem Inv.store_out (h : Inv size s) (hbuf : buf ∈ s.out) (next : Option Nat) :
    ∃ m, store s.pool.memory (some buf) next = some m ∧
      m buf = some ⟨(), next⟩ ∧ (∀ a ∈ objects size s.blocks, (m a).isSome = true) ∧
      ∀ free, s.pool.FreeList free → (free ++ s.out).Perm (objects size s.blocks) →
      Cells.Linked m (free.map (·, ())) none := by
  obtain ⟨free, -, hperm⟩ := h.free
  have hmem : buf ∈ objects size s.blocks := hperm.subset (List.mem_append_right _ hbuf)
  refine ⟨_, store_eq (h.mapped buf hmem), Function.update_self ..,
    fun a ha => isSome_update (h.mapped a ha), ?_⟩
  intro free hfree hperm
  refine hfree.2.update (fun hin => ?_) _
  have hnodup := hperm.nodup_iff.2 h.nodup
  rw [List.map_map] at hin
  obtain ⟨b, hb, rfl⟩ := List.mem_map.1 hin
  exact (List.nodup_append'.1 hnodup).2.2 hb hbuf

theorem Inv.releaseObject (h : Inv size s) (hbuf : buf ∈ s.out) :
    Serves size s (.releaseObject buf) := by
  obtain ⟨m, hm, hcell, hmapped, hlinked⟩ := h.store_out hbuf s.pool.head
  obtain ⟨free, hfree, hperm⟩ := h.free
  have hstep : step s (.releaseObject buf) =
      some ⟨{ s.pool with memory := m, head := some buf }, s.blocks ++ [], s.out.erase buf⟩ := by
    simp only [step, PoolBase.releaseObject, if_neg h.unlocked, hm, Option.map_some]
    rfl
  rw [List.append_nil] at hstep
  have hperm' : (buf :: free ++ s.out.erase buf).Perm (objects size s.blocks) :=
    List.perm_middle.symm.trans (((List.perm_cons_erase hbuf).symm.append_left free).trans hperm)
  refine serves_of_step hstep
    { h with mapped := hmapped, free := ⟨buf :: free, ⟨rfl, ?_, hlinked free hfree hperm⟩, hperm'⟩ }
      nofun
  show m buf = _
  rw [hcell, hfree.1]

theorem Inv.write (h : Inv size s) (hbuf : buf ∈ s.out) : Serves size s (.write buf word) := by
  obtain ⟨m, hm, -, hmapped, hlinked⟩ := h.store_out hbuf word
  obtain ⟨free, hfree, hperm⟩ := h.free
  have hstep : step s (.write buf word) =
      some ⟨{ s.pool with memory := m }, s.blocks ++ [], s.out⟩ := by
    simp only [step, hm, Option.map_some]
    rfl
  rw [List.append_nil] at hstep
  exact serves_of_step hstep
    { h with mapped := hmapped, free := ⟨free, ⟨hfree.1, hlinked free hfree hperm⟩, hperm⟩ } nofun

theorem Inv.serves (h : Inv size s) (hs : Fits size) {op : Op} (hp : Possible s op) :
    Serves size s op := by
  cases op with
  | getObject table block => exact h.getObject hs hp
  | releaseObject buf => exact h.releaseObject hp
  | write buf word => exact h.write hp

/-! ### `init` -/

theorem inv_init (hs : Fits size) (hasMutex : Bool) (head : Nat) :
    ∃ p, init hasMutex size true (some head) = some p ∧ Inv size ⟨p, [head], []⟩ := by
  obtain ⟨m, hm, hlinked, -, hobjects⟩ :=
    @threadBlock_spec size head 0 (fun _ => none) none hs (Nat.zero_le 1)
  refine ⟨_, by rw [init, if_pos rfl, Option.bind_some, hm, Option.map_some], ?_⟩
  have hobj : objects size [head] = objectsOf size head := List.flatMap_singleton ..
  have hcells : cellsFrom size head 0 512 = (objectsOf size head).map (·, ()) := by
    rw [cellsFrom_eq, objectsOf, List.range_eq_range']
  have hlen : (some head :: List.replicate 127 none : List (Option Nat)).length = 128 := by
    rw [List.length_cons, List.length_replicate]
  refine { size_eq := rfl, unlocked := ?_, pos := (by decide : (0 : Int) < 128), small := ?_,
           table := ?_, offset := rfl, free := ⟨objectsOf size head, ⟨?_, ?_⟩, ?_⟩, nodup := ?_,
           length := congrArg Nat.cast hlen, le := ?_, mapped := ?_ }
  · show some head :: List.replicate 127 none = _
    rw [hlen]
    rfl
  · rw [objectsOf_eq_cons]
    rfl
  · rw [← hcells]
    exact hlinked
  · rw [hobj, List.append_nil]
  · exact hobj ▸ objectsOf_nodup hs
  · show (if hasMutex then some false else none) ≠ some true
    cases hasMutex <;> decide
  · show 1 ≤ (some head :: List.replicate 127 none : List (Option Nat)).length
    rw [hlen]
    decide
  · show (128 : Int) < 2 ^ 31
    norm_num
  · exact hobj ▸ hobjects

theorem store_none {m : Cells Unit} {x : Int} {next : Option Nat} (hx : wrapInt x < 0)
    (hm : ∀ q < a, m q = none) :
    store m (PoolBase.offset a (wrapInt x)) next = none := by
  rw [PoolBase.offset]
  split
  · rw [store, Option.bind_some, hm _ (by omega)]
    rfl
  · rfl

theorem store_below {m m' : Cells Unit} {q next : Option Nat} (hm : ∀ q < a, m q = none)
    (hs : store m q next = some m') :
    ∀ q < a, m' q = none := by
  intro l hl
  obtain ⟨b, rfl, hb⟩ := Option.bind_eq_some_iff.1 hs
  obtain ⟨c, hc, rfl⟩ := Option.map_eq_some_iff.1 hb
  have hne : l ≠ b := by
    rintro rfl
    rw [hm l hl] at hc
    cases hc
  rw [Function.update_of_ne hne, hm l hl]

theorem thread_below {m m' : Cells Unit} {x : Int} {k i : Nat} (hm : ∀ q < a, m q = none)
    (ht : thread x a k i m = some m') :
    ∀ q < a, m' q = none := by
  induction k generalizing i m with
  | zero =>
    cases ht
    exact hm
  | succ k ih =>
    obtain ⟨m₁, hm₁, ht⟩ := Option.bind_eq_some_iff.1 ht
    exact ih (store_below hm hm₁) ht

theorem thread_none {m : Cells Unit} {x : Int} {k i j : Nat} (hm : ∀ q < a, m q = none)
    (hij : i ≤ j) (hjk : j < i + k) (hx : wrapInt (j * x) < 0) : thread x a k i m = none := by
  induction k generalizing i m with
  | zero => omega
  | succ k ih =>
    rw [thread, Option.bind_eq_none_iff]
    intro m₁ hm₁
    rcases Nat.eq_or_lt_of_le hij with rfl | hlt
    · rw [store_none hx hm] at hm₁
      cases hm₁
    · exact ih (store_below hm hm₁) hlt (by omega)

/-- The index of some object does not fit an `int`, where the bytes of the block wrap to what
`malloc` may give. -/
theorem exists_index_neg (hlt : size < 2 ^ 31) (hover : 2 ^ 31 ≤ 512 * size)
    (hbytes : blockBytes size < 2 ^ 63) :
    ∃ j : Nat, j ≤ 511 ∧ wrapInt ((j : Int) * (size : Int)) < 0 := by
  have hnonneg : 2 ^ 32 ≤ 512 * size := by
    by_contra hlow
    have hwrap : wrapInt (512 * (size : Int)) = 512 * size - 2 ^ 32 := by
      rw [wrapInt, Int.bmod_def]
      omega
    rw [blockBytes, hwrap, sizeT] at hbytes
    omega
  have hpos : 0 < size := by omega
  -- the first index from `2 ^ 31` on
  obtain ⟨j, hj, hjmin⟩ : ∃ j, 2 ^ 31 ≤ j * size ∧ ∀ l < j, l * size < 2 ^ 31 := by
    have hex : ∃ j, 2 ^ 31 ≤ j * size := ⟨512, hover⟩
    exact ⟨Nat.find hex, Nat.find_spec hex, fun l hl => not_le.1 (Nat.find_min hex hl)⟩
  have hj511 : j ≤ 511 := by
    by_contra hgt
    have := hjmin 511 (by omega)
    omega
  have hprev : j * size < 2 ^ 31 + size := by
    obtain ⟨l, rfl⟩ : ∃ l, j = l + 1 := Nat.exists_eq_succ_of_ne_zero (by rintro rfl; omega)
    have := hjmin l (Nat.lt_succ_self l)
    rw [Nat.succ_mul]
    omega
  refine ⟨j, hj511, ?_⟩
  rw [← Int.natCast_mul, wrapInt, Int.bmod_def]
  omega

/-- An object size whose blocks do not fit an `int`. -/
theorem threadBlock_overflow (hlt : size < 2 ^ 31) (hover : 2 ^ 31 ≤ 512 * size)
    (hbytes : blockBytes size < 2 ^ 63) :
    threadBlock size a 0 (fun _ => none) none = none := by
  obtain ⟨j, hj, hneg⟩ := exists_index_neg hlt hover hbytes
  have hbelow : ∀ q < a, alloc (fun _ => none) a (blockBytes size) q = none :=
    fun q hq => if_neg fun hand => absurd hand.1 (not_le.2 hq)
  rw [threadBlock, Option.bind_eq_none_iff]
  intro m hm
  rcases Nat.lt_or_ge j 511 with hlt' | hge
  · rw [thread_none hbelow (Nat.zero_le j) (by omega) hneg] at hm
    cases hm
  · obtain rfl : j = 511 := le_antisymm hj hge
    exact store_none hneg (thread_below hbelow hm)

theorem reach_inv (hs : Fits size) {head : Nat} (hinit : Inv size ⟨p, [head], []⟩)
    (h : (machine p head).ReachUnder Possible s) : Inv size s := by
  refine h.invariant (fun s hs => ?_) fun s op s' hinv hp hstep => ?_
  · cases hs
    exact hinit
  · exact (hinv.serves hs hp).2 s' hstep

end calls

/-- The pool is sound in all runs just where `init` gets its memory and the bytes of a block fit an
`int`. -/
theorem soundInRuns_iff {size : Nat} {block : Option Nat} (h8 : 8 ≤ size) (hlt : size < 2 ^ 31)
    (hblock : ∀ a, block = some a → Fresh (blockBytes size) [] a) (hasMutex table : Bool) :
    SoundInRuns hasMutex size table block ↔
      table = true ∧ block.isSome = true ∧ 512 * size < 2 ^ 31 := by
  constructor
  · rintro ⟨p, head, hinit, rfl, -⟩
    cases table with
    | false => cases hinit
    | true =>
      refine ⟨rfl, rfl, not_le.1 fun hover => ?_⟩
      rw [init, if_pos rfl, Option.bind_some,
        threadBlock_overflow hlt hover (hblock head rfl).1] at hinit
      cases hinit
  · rintro ⟨rfl, hsome, hint⟩
    obtain ⟨head, rfl⟩ := Option.isSome_iff_exists.1 hsome
    have hs : Fits size := ⟨h8, hint⟩
    obtain ⟨p, hp, hinv⟩ := inv_init hs hasMutex head
    refine ⟨p, head, hp, rfl, fun s hreach => ?_⟩
    have hs' := reach_inv hs hinv hreach
    exact ⟨hs'.toSound, fun op hop => (hs'.serves hs hop).1⟩

/-- Objects of 8 bytes, with the first block at 4096. -/
theorem soundInRuns_iff_8 : SoundInRuns true 8 true (some 4096) := by
  refine (soundInRuns_iff le_rfl (by decide) ?_ true true).2 ⟨rfl, rfl, by decide⟩
  exact fun a _ => ⟨by decide +kernel, fun b hb => absurd hb List.not_mem_nil⟩

/-- No memory for the first block, and `init` writes to a null pointer. -/
theorem exists_unchecked_init :
    ¬ ∀ (hasMutex : Bool) (size : Nat) (table : Bool) (block : Option Nat), 8 ≤ size →
      size < 2 ^ 31 → (∀ a, block = some a → Fresh (blockBytes size) [] a) →
      SoundInRuns hasMutex size table block := by
  intro hall
  obtain ⟨p, head, -, hhead, -⟩ := hall true 8 true none le_rfl (by decide) (fun a ha => (nomatch ha))
  cases hhead

end PoolBase

end Resend.Udp

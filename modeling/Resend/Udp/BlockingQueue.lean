import Resend.Lib.Threads
import Resend.Udp.SList

/-!
# The double-buffered queue

`HDS_Blocking_Queue` as the pthread build runs it, with `wait_time` `-1`. Producers push to one list
under `_lock`, consumers pop from the other one under `_read_lock`. A consumer that finds its list
empty swaps the two under both locks, or sets `_reader_blocked` and waits for a broadcast.
-/

namespace Resend.Udp

/-- The queue and its locks; `broadcasts` counts the broadcasts so far. `enqueued` is what was
pushed, and `returned` what the calls of `dequeue` that return `0` have stored, both in the order of
the locked sections. -/
structure BlockingQueue (α : Type) where
  queue : Bool → SList α
  readQueueCursor : Bool
  writeQueueCursor : Bool
  readerBlocked : Bool
  lock : Bool
  readLock : Bool
  broadcasts : Nat
  enqueued : List α
  returned : List (Option α)

namespace BlockingQueue
variable {α : Type}

/-- Where a thread is in `enqueue` or in `dequeue`; a waiting one knows how many broadcasts there were
before. -/
inductive Pc (α : Type)
  | new
  | producer
  | push (data : α)
  | cas
  | broadcast
  | unlock
  | consumer
  | testRead
  | pop
  | testFlag
  | lockWrite
  | testWrite
  | swap
  | unlockSwapped
  | setBlocked
  | unlockBlocked
  | condWait
  | waiting (before : Nat)
  | popWoken
  | unlockRead
deriving DecidableEq

/-- Become a producer or a consumer, call `enqueue`, get a node from the pool, go on, wake up
without a broadcast. -/
inductive Op (α : Type)
  | producer
  | consumer
  | enqueue (data : α)
  | malloc (temp : Nat)
  | go
  | spurious

/-- `_queue[_read_queue_cursor]`. -/
def readList (s : BlockingQueue α) : SList α := s.queue s.readQueueCursor

/-- `_queue[_write_queue_cursor]`. -/
def writeList (s : BlockingQueue α) : SList α := s.queue s.writeQueueCursor

/-- The list of the producers with `data` in it is `l`. -/
def pushed (s : BlockingQueue α) (data : α) (l : SList α) : BlockingQueue α :=
  { s with queue := Function.update s.queue s.writeQueueCursor l, enqueued := s.enqueued ++ [data] }

/-- The list of the consumers is `l`, and `data` went to callers. -/
def popped (s : BlockingQueue α) (l : SList α) (data : List (Option α)) : BlockingQueue α :=
  { s with queue := Function.update s.queue s.readQueueCursor l, returned := s.returned ++ data }

/-- Acquiring a lock is part of the step before it: a call starts with one, and `pthread_cond_wait`
returns with one. -/
def step (s : BlockingQueue α) : Pc α → Op α → Option (BlockingQueue α × Pc α)
  | .new, .producer => some (s, .producer)
  | .new, .consumer => some (s, .consumer)
  | .producer, .enqueue data => if s.lock then none else some ({ s with lock := true }, .push data)
  | .push data, .malloc temp =>
    if (s.writeList.memory temp).isSome then none
    else (s.writeList.pushBack temp data).map fun l => (s.pushed data l, .cas)
  | .cas, .go =>
    some ({ s with readerBlocked := false }, if s.readerBlocked then .broadcast else .unlock)
  | .broadcast, .go => some ({ s with broadcasts := s.broadcasts + 1 }, .unlock)
  | .unlock, .go => some ({ s with lock := false }, .producer)
  | .consumer, .go => if s.readLock then none else some ({ s with readLock := true }, .testRead)
  | .testRead, .go => some (s, if 0 < s.readList.size then .pop else .testFlag)
  | .pop, .go => s.readList.dequeueHead.map fun r => (s.popped r.1 [r.2], .unlockRead)
  | .testFlag, .go => some (s, if s.readerBlocked then .condWait else .lockWrite)
  | .lockWrite, .go => if s.lock then none else some ({ s with lock := true }, .testWrite)
  | .testWrite, .go => some (s, if 0 < s.writeList.size then .swap else .setBlocked)
  | .swap, .go =>
    some ({ s with writeQueueCursor := !s.writeQueueCursor, readQueueCursor := !s.readQueueCursor },
      .unlockSwapped)
  | .unlockSwapped, .go => some ({ s with lock := false }, .pop)
  | .setBlocked, .go => some ({ s with readerBlocked := true }, .unlockBlocked)
  | .unlockBlocked, .go => some ({ s with lock := false }, .condWait)
  | .condWait, .go => some ({ s with readLock := false }, .waiting s.broadcasts)
  | .waiting before, .go =>
    if s.readLock || decide (s.broadcasts ≤ before) then none
    else some ({ s with readLock := true }, .popWoken)
  | .waiting _, .spurious => if s.readLock then none else some ({ s with readLock := true }, .popWoken)
  | .popWoken, .go => s.readList.dequeueHead.map fun r =>
    (s.popped r.1 (r.2.toList.map some), .unlockRead)
  | .unlockRead, .go => some ({ s with readLock := false }, .consumer)
  | _, _ => none

/-- A queue right after its constructor. -/
def new : BlockingQueue α := ⟨fun _ => .new, true, false, false, false, false, 0, [], []⟩

def program : Program (BlockingQueue α) (Pc α) (Op α) where
  init s := s = new
  start := .new
  step := step

/-- What a thread at a place can do. -/
inductive Took (s : BlockingQueue α) : Pc α → BlockingQueue α → Pc α → Prop
  | producer : Took s .new s .producer
  | consumer : Took s .new s .consumer
  | enqueue (data : α) (hfree : s.lock = false) : Took s .producer { s with lock := true } (.push data)
  | push (data : α) (temp : Nat) (l : SList α) (hfree : s.writeList.memory temp = none)
    (hl : s.writeList.pushBack temp data = some l) : Took s (.push data) (s.pushed data l) .cas
  | cas (hset : s.readerBlocked = true) : Took s .cas { s with readerBlocked := false } .broadcast
  | casClear (hclear : s.readerBlocked = false) : Took s .cas { s with readerBlocked := false } .unlock
  | broadcast : Took s .broadcast { s with broadcasts := s.broadcasts + 1 } .unlock
  | unlock : Took s .unlock { s with lock := false } .producer
  | dequeue (hfree : s.readLock = false) : Took s .consumer { s with readLock := true } .testRead
  | testRead (hpos : 0 < s.readList.size) : Took s .testRead s .pop
  | testReadEmpty (hpos : ¬ 0 < s.readList.size) : Took s .testRead s .testFlag
  | pop (l : SList α) (data : Option α) (hl : s.readList.dequeueHead = some (l, data)) :
      Took s .pop (s.popped l [data]) .unlockRead
  | testFlag (hset : s.readerBlocked = true) : Took s .testFlag s .condWait
  | testFlagClear : Took s .testFlag s .lockWrite
  | lockWrite (hfree : s.lock = false) : Took s .lockWrite { s with lock := true } .testWrite
  | testWrite (hpos : 0 < s.writeList.size) : Took s .testWrite s .swap
  | testWriteEmpty (hpos : ¬ 0 < s.writeList.size) : Took s .testWrite s .setBlocked
  | swap : Took s .swap
    { s with writeQueueCursor := !s.writeQueueCursor, readQueueCursor := !s.readQueueCursor }
      .unlockSwapped
  | unlockSwapped : Took s .unlockSwapped { s with lock := false } .pop
  | setBlocked : Took s .setBlocked { s with readerBlocked := true } .unlockBlocked
  | unlockBlocked : Took s .unlockBlocked { s with lock := false } .condWait
  | condWait : Took s .condWait { s with readLock := false } (.waiting s.broadcasts)
  | wake (before : Nat) (hfree : s.readLock = false) :
      Took s (.waiting before) { s with readLock := true } .popWoken
  | popWoken (l : SList α) (data : Option α) (hl : s.readList.dequeueHead = some (l, data)) :
    Took s .popWoken (s.popped l (data.toList.map some)) .unlockRead
  | unlockRead : Took s .unlockRead { s with readLock := false } .consumer

theorem step_cases {s s' : BlockingQueue α} {p p' : Pc α} {op : Op α}
    (h : s.step p op = some (s', p')) : Took s p s' p' := by
  cases p <;> cases op <;> simp only [step, reduceCtorEq, Option.some.injEq, Prod.mk.injEq,
    Option.ite_none_left_eq_some, Option.map_eq_some_iff, Bool.not_eq_true, Bool.or_eq_true, not_or,
    decide_eq_true_eq, Option.isSome_eq_false_iff,
    Option.isNone_iff_eq_none] at h
  case new.producer => obtain ⟨rfl, rfl⟩ := h; exact .producer
  case new.consumer => obtain ⟨rfl, rfl⟩ := h; exact .consumer
  case producer.enqueue data => obtain ⟨hfree, rfl, rfl⟩ := h; exact .enqueue data hfree
  case push.malloc data temp => obtain ⟨hfree, l, hl, rfl, rfl⟩ := h; exact .push data temp l hfree hl
  case cas.go =>
    obtain ⟨rfl, rfl⟩ := h
    split
    · exact .cas ‹_›
    · exact .casClear (Bool.eq_false_iff.2 ‹_›)
  case broadcast.go => obtain ⟨rfl, rfl⟩ := h; exact .broadcast
  case unlock.go => obtain ⟨rfl, rfl⟩ := h; exact .unlock
  case consumer.go => obtain ⟨hfree, rfl, rfl⟩ := h; exact .dequeue hfree
  case testRead.go =>
    obtain ⟨rfl, rfl⟩ := h
    split
    · exact .testRead ‹_›
    · exact .testReadEmpty ‹_›
  case pop.go => obtain ⟨⟨l, data⟩, hl, rfl, rfl⟩ := h; exact .pop l data hl
  case testFlag.go =>
    obtain ⟨rfl, rfl⟩ := h
    split
    · exact .testFlag ‹_›
    · exact .testFlagClear
  case lockWrite.go => obtain ⟨hfree, rfl, rfl⟩ := h; exact .lockWrite hfree
  case testWrite.go =>
    obtain ⟨rfl, rfl⟩ := h
    split
    · exact .testWrite ‹_›
    · exact .testWriteEmpty ‹_›
  case swap.go => obtain ⟨rfl, rfl⟩ := h; exact .swap
  case unlockSwapped.go => obtain ⟨rfl, rfl⟩ := h; exact .unlockSwapped
  case setBlocked.go => obtain ⟨rfl, rfl⟩ := h; exact .setBlocked
  case unlockBlocked.go => obtain ⟨rfl, rfl⟩ := h; exact .unlockBlocked
  case condWait.go => obtain ⟨rfl, rfl⟩ := h; exact .condWait
  case waiting.go before => obtain ⟨⟨hfree, -⟩, rfl, rfl⟩ := h; exact .wake before hfree
  case waiting.spurious before => obtain ⟨hfree, rfl, rfl⟩ := h; exact .wake before hfree
  case popWoken.go => obtain ⟨⟨l, data⟩, hl, rfl, rfl⟩ := h; exact .popWoken l data hl
  case unlockRead.go => obtain ⟨rfl, rfl⟩ := h; exact .unlockRead

@[simp] theorem writeList_pushed (s : BlockingQueue α) (data : α) (l : SList α) :
    (s.pushed data l).writeList = l :=
  Function.update_self ..

theorem readList_pushed {s : BlockingQueue α} (hne : s.readQueueCursor ≠ s.writeQueueCursor)
    (data : α) (l : SList α) :
    (s.pushed data l).readList = s.readList := Function.update_of_ne hne ..

@[simp] theorem readList_popped (s : BlockingQueue α) (l : SList α) (data : List (Option α)) :
    (s.popped l data).readList = l :=
  Function.update_self ..

theorem writeList_popped {s : BlockingQueue α} (hne : s.readQueueCursor ≠ s.writeQueueCursor)
    (l : SList α) (data : List (Option α)) : (s.popped l data).writeList = s.writeList :=
  Function.update_of_ne hne.symm ..

/-! ### The locks -/

/-- Inside `_lock`. -/
def Pc.InLock : Pc α → Prop
  | .push _ | .cas | .broadcast | .unlock | .testWrite | .swap | .unlockSwapped |
      .setBlocked | .unlockBlocked => True
  | _ => False

/-- Inside `_read_lock`. -/
def Pc.InRead : Pc α → Prop
  | .testRead | .pop | .testFlag | .lockWrite | .testWrite | .swap | .unlockSwapped |
      .setBlocked | .unlockBlocked
  | .condWait | .popWoken | .unlockRead => True
  | _ => False

section locks
variable {s s' : BlockingQueue α} {p p' : Pc α} {t : Threads (BlockingQueue α) (Pc α)} {i : Nat}

theorem Took.lock (h : Took t.shared (t.pc i) s p) (hm : t.Mutex t.shared.lock Pc.InLock) :
    (t.go i s p).Mutex s.lock Pc.InLock := by
  obtain ⟨q, hq⟩ : ∃ q, t.pc i = q := ⟨_, rfl⟩
  rw [hq] at h
  cases h
  case enqueue hfree | lockWrite hfree =>
    rw [hfree] at hm
    exact hm.acquire
  case unlock | unlockSwapped | unlockBlocked => exact hm.release (by rw [hq]; trivial) id
  all_goals exact hm.stay (by simp [Pc.InLock, hq])

theorem Took.readLock (h : Took t.shared (t.pc i) s p) (hm : t.Mutex t.shared.readLock Pc.InRead) :
    (t.go i s p).Mutex s.readLock Pc.InRead := by
  obtain ⟨q, hq⟩ : ∃ q, t.pc i = q := ⟨_, rfl⟩
  rw [hq] at h
  cases h
  case dequeue hfree | wake hfree =>
    rw [hfree] at hm
    exact hm.acquire
  case condWait | unlockRead => exact hm.release (by rw [hq]; trivial) id
  all_goals exact hm.stay (by simp [Pc.InRead, hq])

theorem Took.cursors (h : Took s p s' p') (hne : s.readQueueCursor ≠ s.writeQueueCursor) :
    s'.readQueueCursor ≠ s'.writeQueueCursor := by
  cases h
  case swap => exact fun he => hne (Bool.not_inj he)
  all_goals exact hne

/-- The consumers' list is touched inside `_read_lock` only. -/
theorem Took.readList_eq (h : Took s p s' p') (hne : s.readQueueCursor ≠ s.writeQueueCursor)
    (hp : ¬ p.InRead) :
    s'.readList = s.readList := by
  cases h
  case push data _ l _ _ => exact readList_pushed hne data l
  case pop | popWoken | swap => exact absurd trivial hp
  all_goals rfl

/-- The producers' list and `_reader_blocked` are touched inside `_lock` only. -/
theorem Took.writeList_eq (h : Took s p s' p') (hne : s.readQueueCursor ≠ s.writeQueueCursor)
    (hp : ¬ p.InLock) :
    s'.writeList = s.writeList ∧ s'.readerBlocked = s.readerBlocked := by
  cases h
  case pop | popWoken => exact ⟨writeList_popped hne .., rfl⟩
  case push | cas | casClear | swap | setBlocked => exact absurd trivial hp
  all_goals exact ⟨rfl, rfl⟩

end locks

/-! ### The items -/

/-- What the two lists hold; if `ordered`, all that was pushed is what went to callers and then the
lists, in this order. -/
def Lists (ordered : Prop) (s : BlockingQueue α) : Prop :=
  ∃ rs ws, s.readList.Holds rs ∧ s.writeList.Holds ws ∧ rs.length < 2 ^ 31 ∧
    (ordered → s.enqueued.map some = s.returned ++ (rs ++ ws).map some)

/-- What a consumer knows about the two lists. -/
def Pc.Knows (s : BlockingQueue α) : Pc α → Prop
  | .pop | .unlockSwapped => s.readList.head ≠ none
  | .testFlag | .lockWrite | .testWrite | .setBlocked | .unlockBlocked | .condWait =>
    s.readList.head = none
  | .swap => s.readList.head = none ∧ 0 < s.writeList.size
  | _ => True

def Pc.isPush : Pc α → Bool
  | .push _ => true
  | _ => false

/-- A push does not find a list of `2 ^ 32` items. -/
def Counted (s : BlockingQueue α) (p : Pc α) : Prop :=
  p.isPush = true → s.writeList.head = none ∨ s.writeList.curSize ≠ 0

instance (s : BlockingQueue α) (p : Pc α) : Decidable (s.Counted p) :=
  inferInstanceAs (Decidable (_ → _))

structure Inv (ordered : Prop) (t : Threads (BlockingQueue α) (Pc α)) : Prop where
  lock : t.Mutex t.shared.lock Pc.InLock
  readLock : t.Mutex t.shared.readLock Pc.InRead
  cursors : t.shared.readQueueCursor ≠ t.shared.writeQueueCursor
  lists : t.shared.Lists ordered
  knows : ∀ i, (t.pc i).Knows t.shared

section items
variable {ordered : Prop} {s s' : BlockingQueue α} {p p' q : Pc α}
  {t t' : Threads (BlockingQueue α) (Pc α)} {i : Nat}

theorem Lists.pushed (h : s.Lists ordered) (hne : s.readQueueCursor ≠ s.writeQueueCursor) {data : α}
    {temp : Nat} {l : SList α} (hc : ordered → s.writeList.head = none ∨ s.writeList.curSize ≠ 0)
    (hfree : s.writeList.memory temp = none) (hl : s.writeList.pushBack temp data = some l) :
    (s.pushed data l).Lists ordered := by
  obtain ⟨rs, ws, hrs, hws, hlt, hord⟩ := h
  rw [Lists, readList_pushed hne, writeList_pushed]
  by_cases hfull : ws.length = 2 ^ 32
  · obtain ⟨l', hl', hws'⟩ := hws.push_full hfull temp data
    cases hl.symm.trans hl'
    refine ⟨rs, [data], hrs, hws', hlt, fun ho => ?_⟩
    rcases hc ho with hnone | hne
    · rw [hws.head_eq_none_iff] at hnone
      rw [hnone] at hfull
      simp at hfull
    · exact absurd (hws.curSize_eq_zero hfull) hne
  · obtain ⟨l', hl', hws'⟩ := hws.push (x := data) (lt_of_le_of_ne hws.le hfull) hfree
    cases hl.symm.trans hl'
    refine ⟨rs, ws ++ [data], hrs, hws', hlt, fun ho => ?_⟩
    show (s.enqueued ++ [data]).map some = s.returned ++ _
    rw [List.map_append, hord ho, List.append_assoc, ← List.map_append, List.append_assoc rs]

theorem Lists.popped (h : s.Lists ordered) (hne : s.readQueueCursor ≠ s.writeQueueCursor)
    {l : SList α} {data : Option α} (hl : s.readList.dequeueHead = some (l, data)) :
    (s.popped l (data.toList.map some)).Lists ordered ∧ (s.readList.head ≠ none → data ≠ none) := by
  obtain ⟨rs, ws, hrs, hws, hlt, hord⟩ := h
  rw [Lists, readList_popped, writeList_popped hne]
  cases rs with
  | nil =>
    cases hl.symm.trans hrs.dequeue_nil
    refine ⟨⟨[], ws, hrs, hws, hlt, fun ho => ?_⟩,
      fun hhead => absurd (hrs.head_eq_none_iff.2 rfl) hhead⟩
    show s.enqueued.map some = s.returned ++ [] ++ _
    rw [List.append_nil]
    exact hord ho
  | cons x rs =>
    obtain ⟨l', hl', hrs'⟩ := hrs.dequeue_cons
      (Nat.lt_trans hlt (Nat.pow_lt_pow_right Nat.one_lt_two (by decide)))
    cases hl.symm.trans hl'
    refine ⟨⟨rs, ws, hrs', hws, Nat.lt_of_succ_lt hlt, fun ho => ?_⟩, fun _ => Option.some_ne_none x⟩
    show s.enqueued.map some = s.returned ++ [some x] ++ _
    rw [List.append_assoc]
    exact hord ho

theorem Lists.swap (h : s.Lists ordered) (hne : s.readQueueCursor ≠ s.writeQueueCursor)
    (hnone : s.readList.head = none) (hpos : 0 < s.writeList.size) :
    let s' := { s with writeQueueCursor := !s.writeQueueCursor, readQueueCursor := !s.readQueueCursor }
    s'.readList = s.writeList ∧ s'.writeList = s.readList ∧
      s'.readList.head ≠ none ∧ s'.Lists ordered := by
  obtain ⟨rs, ws, hrs, hws, hlt, hord⟩ := h
  have hr : (!s.readQueueCursor) = s.writeQueueCursor := (Bool.eq_not_of_ne hne.symm).symm
  have hw : (!s.writeQueueCursor) = s.readQueueCursor := (Bool.eq_not_of_ne hne).symm
  obtain ⟨hnil, hlt'⟩ := hws.size_pos_iff.1 hpos
  rw [hrs.head_eq_none_iff] at hnone
  subst hnone
  rw [hr, hw]
  refine ⟨rfl, rfl, fun hhead => hnil (hws.head_eq_none_iff.1 hhead), ws, [],
    hws, hrs, hlt', fun ho => ?_⟩
  rw [List.append_nil]
  exact hord ho

theorem Took.lists (h : Took s p s' p') (hne : s.readQueueCursor ≠ s.writeQueueCursor)
    (hlists : s.Lists ordered) (hp : p.Knows s) (hc : ordered → s.Counted p) :
    s'.Lists ordered := by
  cases h
  case push data temp l hfree hl => exact hlists.pushed hne (fun ho => hc ho rfl) hfree hl
  case pop l data hl =>
    obtain ⟨hpop, hdata⟩ := hlists.popped hne hl
    obtain ⟨x, rfl⟩ := Option.ne_none_iff_exists'.1 (hdata hp)
    exact hpop
  case popWoken l data hl => exact (hlists.popped hne hl).1
  case swap => exact (hlists.swap hne hp.1 hp.2).2.2.2
  all_goals exact hlists

theorem Took.knows (h : Took s p s' p') (hne : s.readQueueCursor ≠ s.writeQueueCursor)
    (hlists : s.Lists ordered) (hp : p.Knows s) : p'.Knows s' := by
  cases h
  case testRead hpos =>
    obtain ⟨rs, -, hrs, -⟩ := hlists
    exact fun hhead => (hrs.size_pos_iff.1 hpos).1 (hrs.head_eq_none_iff.1 hhead)
  case testReadEmpty hpos =>
    obtain ⟨rs, -, hrs, -, hlt, -⟩ := hlists
    exact hrs.head_eq_none_iff.2 (by_contra fun hnil => hpos (hrs.size_pos_iff.2 ⟨hnil, hlt⟩))
  case testWrite hpos => exact ⟨hp, hpos⟩
  case swap => exact (hlists.swap hne hp.1 hp.2).2.2.1
  case testFlag | testFlagClear | lockWrite | testWriteEmpty | unlockSwapped | setBlocked |
      unlockBlocked => exact hp
  all_goals trivial

theorem Took.knows_other (h : Took s p s' p') (hne : s.readQueueCursor ≠ s.writeQueueCursor)
    (hread : q.InRead → ¬ p.InRead) (hlock : q.InLock → ¬ p.InLock) (hq : q.Knows s) : q.Knows s' := by
  by_cases hin : q.InRead
  · have hr := h.readList_eq hne (hread hin)
    cases q
    case swap =>
      have hw := (h.writeList_eq hne (hlock trivial)).1
      rw [Pc.Knows, hr, hw]
      exact hq
    all_goals first | trivial | (simp only [Pc.Knows, hr]; exact hq)
  · cases q
    case pop | unlockSwapped | testFlag | lockWrite | testWrite | setBlocked |
        unlockBlocked | condWait | swap =>
      exact absurd trivial hin
    all_goals trivial

theorem Inv.go (h : Inv ordered t) (hs : Took t.shared (t.pc i) s p)
    (hc : ordered → t.shared.Counted (t.pc i)) :
    Inv ordered (t.go i s p) where
  lock := hs.lock h.lock
  readLock := hs.readLock h.readLock
  cursors := hs.cursors h.cursors
  lists := hs.lists h.cursors h.lists (h.knows i) hc
  knows := (Threads.forall_pc_go (P := fun _ p => Pc.Knows s p)).2
    ⟨hs.knows h.cursors h.lists (h.knows i), fun j hj =>
    hs.knows_other h.cursors (fun hin hin' => hj (h.readLock.unique j i hin hin'))
      (fun hin hin' => hj (h.lock.unique j i hin hin')) (h.knows j)⟩

theorem inv_init (h : program.machine.init t) : Inv ordered t := by
  obtain ⟨hs, hstart⟩ := h
  have hs : t.shared = new := hs
  have hstart : ∀ i, t.pc i = .new := hstart
  refine ⟨.start fun i => ?_, .start fun i => ?_, ?_, ?_, fun i => ?_⟩
  · rw [hstart i]
    exact id
  · rw [hstart i]
    exact id
  · rw [hs]
    exact Bool.noConfusion
  · rw [hs]
    exact ⟨[], [], SList.holds_new, SList.holds_new, Nat.pow_pos Nat.zero_lt_two, fun _ => rfl⟩
  · rw [hstart i]
    trivial

theorem Inv.step (h : Inv ordered t) {a : Nat × Op α} (hc : ordered → t.shared.Counted (t.pc a.1))
    (hs : program.machine.step t a = some t') : Inv ordered t' := by
  obtain ⟨i, op⟩ := a
  obtain ⟨s, p, hstep, rfl⟩ := Program.machine_step hs
  exact h.go (step_cases hstep) hc

end items

/-! ### Order -/

section order
variable {t : Threads (BlockingQueue α) (Pc α)}

/-- As long as no list is pushed to that already has `2 ^ 32` items, what is returned is what was
pushed, in its order. -/
theorem prefix_of_counted (h : program.machine.ReachUnder (fun t a => t.shared.Counted (t.pc a.1)) t) :
    t.shared.returned <+: t.shared.enqueued.map some := by
  have hI : Inv True t := h.invariant (fun _ => inv_init) fun _ _ _ hI hc hs => hI.step (fun _ => hc) hs
  obtain ⟨rs, ws, -, -, -, hord⟩ := hI.lists
  rw [hord trivial]
  exact List.prefix_append ..

/-- A new queue before anybody has come to it. -/
def rested : Threads (BlockingQueue α) (Pc α) := ⟨new, fun _ => .new⟩

theorem rested_init : program.machine.init (rested : Threads (BlockingQueue α) (Pc α)) :=
  ⟨rfl, fun _ => rfl⟩

/-- A swap takes the first of two items; the second one stays. -/
theorem prefix_of_counted_pair : ∃ t : Threads (BlockingQueue Nat) (Pc Nat),
    program.machine.ReachUnder (fun t a => t.shared.Counted (t.pc a.1)) t ∧ t.shared.enqueued = [5, 6] ∧
      t.shared.returned = [some 5] ∧ t.shared.returned <+: t.shared.enqueued.map some := by
  have hrun : (program.machine.runUnder (fun t a => t.shared.Counted (t.pc a.1)) rested
      [(0, .producer), (1, .consumer), (0, .enqueue 5), (0, .malloc 0), (0, .go), (0, .go),
        (0, .enqueue 6), (0, .malloc 1), (0, .go), (0, .go), (1, .go), (1, .go), (1, .go), (1, .go),
        (1, .go), (1, .go), (1, .go), (1, .go)]).map
        (fun t => (t.shared.enqueued, t.shared.returned)) = some ([5, 6], [some 5]) := by
    decide +kernel
  obtain ⟨t, ht, heq⟩ := Option.map_eq_some_iff.1 hrun
  simp only [Prod.mk.injEq] at heq
  have hreach := Machine.ReachUnder.run (M := program.machine) (.init rested_init) ht
  exact ⟨t, hreach, heq.1, heq.2, prefix_of_counted hreach⟩

theorem exec_enqueue {s : BlockingQueue α} (hlock : s.lock = false)
    (hflag : s.readerBlocked = false) {data : α} {temp : Nat} {l : SList α}
    (hfree : s.writeList.memory temp = none) (hl : s.writeList.pushBack temp data = some l) :
    program.exec s .producer [.enqueue data, .malloc temp, .go, .go] =
      some (s.pushed data l, .producer) := by
  obtain ⟨queue, r, w, flag, lock, readLock, b, es, rs⟩ := s
  obtain rfl : lock = false := hlock
  obtain rfl : flag = false := hflag
  have hfree : (queue w).memory temp = none := hfree
  have hl : (queue w).pushBack temp data = some l := hl
  have hpush : step ⟨queue, r, w, false, true, readLock, b, es, rs⟩ (.push data) (.malloc temp) =
      some (⟨Function.update queue w l, r, w, false, true, readLock, b, es ++ [data], rs⟩, .cas) := by
    show (if ((queue w).memory temp).isSome then none else ((queue w).pushBack temp data).map _) = _
    rw [hfree, hl]
    rfl
  rw [Program.exec_cons rfl, Program.exec_cons hpush]
  rfl

theorem reach_enqueue (h : program.machine.Reach t) {i : Nat} (hpc : t.pc i = .producer)
    (hlock : t.shared.lock = false) (hflag : t.shared.readerBlocked = false) {data : α} {temp : Nat}
    {l : SList α} (hfree : t.shared.writeList.memory temp = none)
    (hl : t.shared.writeList.pushBack temp data = some l) :
    program.machine.Reach (t.go i (t.shared.pushed data l) .producer) := by
  have hexec := exec_enqueue hlock hflag hfree hl
  rw [← hpc] at hexec
  rw [← hpc]
  exact Program.reach_exec h hexec

theorem exec_dequeue {s : BlockingQueue α} (hlock : s.lock = false) (hread : s.readLock = false)
    (hflag : s.readerBlocked = false) (hne : s.readQueueCursor ≠ s.writeQueueCursor)
    (hempty : ¬ 0 < s.readList.size) (hpos : 0 < s.writeList.size) {l : SList α} {data : Option α}
    (hl : s.writeList.dequeueHead = some (l, data)) :
    ∃ s', program.exec s .consumer [.go, .go, .go, .go, .go, .go, .go, .go] = some (s', .unlockRead) ∧
      s'.enqueued = s.enqueued ∧ s'.returned = s.returned ++ [data] := by
  obtain ⟨queue, r, w, flag, lock, readLock, b, es, rs⟩ := s
  obtain rfl : lock = false := hlock
  obtain rfl : readLock = false := hread
  obtain rfl : flag = false := hflag
  obtain rfl : r = !w := Bool.eq_not_of_ne hne
  have hempty : ¬ 0 < (queue !w).size := hempty
  have hpos : 0 < (queue w).size := hpos
  have hl : (queue w).dequeueHead = some (l, data) := hl
  refine ⟨⟨Function.update queue w l, w, !w, false, false, true, b, es, rs ++ [data]⟩, ?_, rfl, rfl⟩
  have htest : step ⟨queue, !w, w, false, false, true, b, es, rs⟩ .testRead .go = some (_, .testFlag) :=
    congrArg (fun p => some (_, p)) (if_neg hempty)
  have hswap : step ⟨queue, !w, w, false, true, true, b, es, rs⟩ .testWrite .go = some (_, .swap) :=
    congrArg (fun p => some (_, p)) (if_pos hpos)
  have hpop : step ⟨queue, w, !w, false, false, true, b, es, rs⟩ .pop .go = some (_, .unlockRead) :=
    congrArg (Option.map _) hl
  rw [Program.exec_cons rfl, Program.exec_cons htest, Program.exec_cons rfl,
    Program.exec_cons rfl, Program.exec_cons hswap, Program.exec_cons rfl, Program.exec_cons rfl,
    Bool.not_not, Program.exec_cons hpop]
  rfl

/-- `n` pushes of one producer, and none of the calls of `dequeue` of one consumer yet. -/
structure Stocked (x : α) (n : Nat) (t : Threads (BlockingQueue α) (Pc α)) : Prop where
  reach : program.machine.Reach t
  producer : t.pc 0 = .producer
  consumer : t.pc 1 = .consumer
  lock : t.shared.lock = false
  readLock : t.shared.readLock = false
  flag : t.shared.readerBlocked = false
  cursors : t.shared.readQueueCursor ≠ t.shared.writeQueueCursor
  readList : t.shared.readList.Holds []
  writeList : t.shared.writeList.Holds (List.replicate n x)
  free : ∀ a, n ≤ a → t.shared.writeList.memory a = none
  enqueued : t.shared.enqueued = List.replicate n x
  returned : t.shared.returned = []

theorem stocked_zero (x : α) : Stocked x 0 ((rested.go 0 new .producer).go 1 new .consumer) where
  reach := by
    have hinit : program.machine.Reach (rested : Threads (BlockingQueue α) (Pc α)) := .init rested_init
    have hproducer := Program.reach_go (i := 0) (a := .producer) hinit trivial rfl
    exact Program.reach_go (i := 1) (a := .consumer) hproducer trivial rfl
  producer := rfl
  consumer := rfl
  lock := rfl
  readLock := rfl
  flag := rfl
  cursors := Bool.noConfusion
  readList := SList.holds_new
  writeList := SList.holds_new
  free _ _ := rfl
  enqueued := rfl
  returned := rfl

theorem Stocked.succ {x : α} {n : Nat} (h : Stocked x n t) (hlt : n < 2 ^ 32) :
    ∃ t', Stocked x (n + 1) t' := by
  have hfree := h.free n le_rfl
  obtain ⟨l, hl, hholds⟩ := h.writeList.push (x := x) (by rwa [List.length_replicate]) hfree
  refine ⟨_, reach_enqueue h.reach h.producer h.lock h.flag hfree hl, Threads.pc_go_self .., ?_,
    h.lock, h.readLock, h.flag, h.cursors, ?_, ?_, ?_, ?_, h.returned⟩
  · rw [Threads.pc_go_ne Nat.one_ne_zero]
    exact h.consumer
  · rw [Threads.shared_go, readList_pushed h.cursors]
    exact h.readList
  · rw [Threads.shared_go, writeList_pushed, List.replicate_succ']
    exact hholds
  · intro a ha
    rw [Threads.shared_go, writeList_pushed]
    exact SList.free_pushBack hl (h.free a (Nat.le_of_succ_le ha)) (Nat.ne_of_gt ha)
  · show t.shared.enqueued ++ [x] = _
    rw [h.enqueued, List.replicate_succ']

theorem exists_stocked (x : α) {n : Nat} (hle : n ≤ 2 ^ 32) : ∃ t, Stocked x n t := by
  induction n with
  | zero => exact ⟨_, stocked_zero x⟩
  | succ n ih =>
    obtain ⟨t, h⟩ := ih (Nat.le_of_succ_le hle)
    exact h.succ hle

end order

/-- After `2 ^ 32` items a different one: it is the first that comes out. -/
theorem exists_overtaking : ¬ ∀ t : Threads (BlockingQueue Bool) (Pc Bool), program.machine.Reach t →
    t.shared.returned <+: t.shared.enqueued.map some := by
  intro hall
  obtain ⟨t, h⟩ := exists_stocked false (le_refl (2 ^ 32))
  obtain ⟨l, hl, hholds⟩ := h.writeList.push_full (List.length_replicate ..) (2 ^ 32) true
  obtain ⟨l', hl', -⟩ := hholds.dequeue_cons (by decide)
  have hpush := reach_enqueue h.reach h.producer h.lock h.flag (h.free _ le_rfl) hl
  obtain ⟨s, hs, henq, hret⟩ := exec_dequeue
      (s := t.shared.pushed true l) h.lock h.readLock h.flag h.cursors
    (by rw [readList_pushed h.cursors, h.readList.size_pos_iff]; exact fun hc => hc.1 rfl)
    (by rw [writeList_pushed, hholds.size_pos_iff]; exact ⟨List.cons_ne_nil _ _, by decide⟩)
      (by rw [writeList_pushed]; exact hl')
  have hone : (t.go 0 (t.shared.pushed true l) .producer).pc 1 = .consumer := by
    rw [Threads.pc_go_ne Nat.one_ne_zero]
    exact h.consumer
  have hreach := Program.reach_exec (i := 1) hpush (hone ▸ hs)
  have hprefix := hall _ hreach
  rw [Threads.shared_go, henq, hret] at hprefix
  obtain ⟨rest, hrest⟩ := hprefix
  have hpushed : (t.shared.pushed true l).enqueued = List.replicate (2 ^ 32) false ++ [true] :=
    congrArg (· ++ [true]) h.enqueued
  have hreturned : (t.shared.pushed true l).returned = [] := h.returned
  obtain ⟨n, hn⟩ : ∃ n, 2 ^ 32 = n + 1 := ⟨2 ^ 32 - 1, rfl⟩
  rw [hpushed, hreturned, hn, List.replicate_succ] at hrest
  have hhead : some true = some false := (List.cons.inj hrest).1
  cases hhead

end BlockingQueue

end Resend.Udp

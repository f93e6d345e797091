import Resend.Udp.BlockingQueue

/-!
# Waiting for the queue

A producer broadcasts under `_lock`, but a consumer that has set `_reader_blocked` goes on to its
condition wait under `_read_lock` alone. A broadcast in between clears the flag and wakes nobody: if
no other consumer is about, the next producers find the flag clear, and nobody is woken any more.
-/

namespace Resend.Udp

namespace BlockingQueue
variable {α : Type}

/-- A thread that calls `dequeue`. -/
def Pc.isConsumer : Pc α → Bool
  | .new | .producer | .push _ | .cas | .broadcast | .unlock => false
  | _ => true

/-- A consumer that will look at the lists again: it is not about to wait, and not waiting since the
last broadcast. -/
def Pc.Awake (s : BlockingQueue α) : Pc α → Prop
  | .condWait => False
  | .waiting before => before < s.broadcasts
  | p => p.isConsumer = true

/-- In the condition wait, with no wake-up pending. -/
def Pc.Blocked (s : BlockingQueue α) (p : Pc α) : Prop :=
  ∃ before, p = .waiting before ∧ s.broadcasts ≤ before

/-- There are items, every consumer is blocked, and no producer is between its push and its
broadcast. -/
structure Frozen (t : Threads (BlockingQueue α) (Pc α)) : Prop where
  items : ¬ (t.shared.readList.head = none ∧ t.shared.writeList.head = none)
  consumer : ∃ i, (t.pc i).isConsumer = true
  blocked : ∀ i, (t.pc i).isConsumer = true → (t.pc i).Blocked t.shared
  producers : ∀ i, t.pc i ≠ .cas ∧ t.pc i ≠ .broadcast

/-- A broadcast while a consumer is about to wait finds another consumer elsewhere, and `size()` of
the producers' list is positive where there are items. -/
def Heard (t : Threads (BlockingQueue α) (Pc α)) (a : Nat × Op α) : Prop :=
  (t.pc a.1 = .broadcast → (∃ j, t.pc j = .condWait) →
    ∃ j, (t.pc j).isConsumer = true ∧ t.pc j ≠ .condWait) ∧
    (t.pc a.1 = .testWrite → t.shared.writeList.head = none ∨ 0 < t.shared.writeList.size)

/-- What a consumer on its way to the condition wait has seen to. -/
def Pc.Sees (s : BlockingQueue α) : Pc α → Prop
  | .setBlocked => s.writeList.head = none
  | .unlockBlocked => s.readerBlocked = true
  | .waiting before => before ≤ s.broadcasts
  | _ => True

structure Wakes (t : Threads (BlockingQueue α) (Pc α)) : Prop extends Inv False t where
  sees : ∀ i, (t.pc i).Sees t.shared
  drained : (∀ i, ¬ (t.pc i).Awake t.shared) → t.shared.readList.head = none
  flagged : t.shared.readerBlocked = true → t.shared.writeList.head = none ∨ ∃ i, t.pc i = .cas
  cleared : t.shared.readerBlocked = false → (∃ i, (t.pc i).isConsumer = true) →
    (∃ i, t.pc i = .broadcast) ∨ ∃ i, (t.pc i).Awake t.shared

section step
variable {s s' : BlockingQueue α} {p p' q : Pc α}

theorem Took.broadcasts_le (h : Took s p s' p') : s.broadcasts ≤ s'.broadcasts := by
  cases h
  case broadcast => exact Nat.le_succ _
  all_goals exact le_rfl

theorem Took.sees (h : Took s p s' p') (hp : p.Sees s)
    (hc : p = .testWrite → s.writeList.head = none ∨ 0 < s.writeList.size) : p'.Sees s' := by
  cases h
  case testWriteEmpty hpos => exact (hc rfl).resolve_right hpos
  case setBlocked => rfl
  case condWait => exact Nat.le_refl _
  all_goals trivial

theorem Took.sees_other (h : Took s p s' p') (hne : s.readQueueCursor ≠ s.writeQueueCursor)
    (hlock : q.InLock → ¬ p.InLock) (hq : q.Sees s) : q.Sees s' := by
  cases q
  case setBlocked =>
    rw [Pc.Sees, (h.writeList_eq hne (hlock trivial)).1]
    exact hq
  case unlockBlocked => exact (h.writeList_eq hne (hlock trivial)).2.trans hq
  case waiting => exact Nat.le_trans hq h.broadcasts_le
  all_goals trivial

theorem Pc.Awake.of_le (hq : q.Awake s) (hle : s.broadcasts ≤ s'.broadcasts) : q.Awake s' := by
  cases q
  case waiting => exact Nat.lt_of_lt_of_le hq hle
  all_goals exact hq

theorem Pc.Awake.isConsumer (hq : q.Awake s) : q.isConsumer = true := by
  cases q
  case condWait => exact hq.elim
  case waiting => rfl
  all_goals exact hq

/-- A consumer stops being about only with the flag set and its list empty. -/
theorem Took.awake (h : Took s p s' p') (hknows : p.Knows s) (hsees : p.Sees s) (hp : p.Awake s) :
    p'.Awake s' ∨ s'.readerBlocked = true ∧ s'.readList.head = none := by
  cases h
  case testFlag hset => exact .inr ⟨hset, hknows⟩
  case unlockBlocked => exact .inr ⟨hsees, hknows⟩
  case condWait => exact hp.elim
  case producer | consumer | enqueue | push | cas | casClear | broadcast | unlock =>
    exact absurd hp Bool.false_ne_true
  all_goals exact .inl rfl

theorem Pc.waiting_of_not_awake (hq : q.isConsumer = true) (hne : q ≠ .condWait) (hnot : ¬ q.Awake s) :
    ∃ before, q = .waiting before := by
  cases q
  case waiting before => exact ⟨before, rfl⟩
  case condWait => exact absurd rfl hne
  all_goals exact absurd hq hnot

theorem Took.readList_of_not_awake (h : Took s p s' p')
    (hne : s.readQueueCursor ≠ s.writeQueueCursor) (hp : ¬ p.Awake s) :
    s'.readList = s.readList := by
  cases h
  case push => exact readList_pushed hne ..
  case pop | popWoken | swap => exact absurd rfl hp
  all_goals rfl

end step

section run
variable {t t' : Threads (BlockingQueue α) (Pc α)} {i : Nat} {s : BlockingQueue α} {p : Pc α}

theorem Wakes.drained_go (h : Wakes t) (hs : Took t.shared (t.pc i) s p)
    (hnone : ∀ j, ¬ ((t.go i s p).pc j).Awake s) : s.readList.head = none := by
  by_cases hex : ∃ j, (t.pc j).Awake t.shared
  · obtain ⟨j, hj⟩ := hex
    by_cases hji : j = i
    · have hi : ¬ p.Awake s := by simpa using hnone i
      exact ((hs.awake (h.knows i) (h.sees i) (hji ▸ hj)).resolve_left hi).2
    · have hj' := hnone j
      rw [Threads.pc_go_ne hji] at hj'
      exact absurd (hj.of_le hs.broadcasts_le) hj'
  · have hnot : ∀ j, ¬ (t.pc j).Awake t.shared := not_exists.1 hex
    rw [hs.readList_of_not_awake h.cursors (hnot i)]
    exact h.drained hnot

theorem Wakes.flagged_go (h : Wakes t) (hs : Took t.shared (t.pc i) s p)
    (hset : s.readerBlocked = true) :
    s.writeList.head = none ∨ ∃ j, (t.go i s p).pc j = .cas := by
  have hkeep : t.pc i ≠ .cas → (∃ j, t.pc j = .cas) → ∃ j, (t.go i s p).pc j = .cas :=
    fun hi hex => Threads.exists_pc_go_of (P := fun p => p = Pc.cas) hex fun he => absurd he hi
  have hknows := h.knows i
  have hsees := h.sees i
  obtain ⟨q, hq⟩ : ∃ q, t.pc i = q := ⟨_, rfl⟩
  rw [hq] at hs hknows hsees hkeep
  cases hs
  case push => exact .inr ⟨i, Threads.pc_go_self ..⟩
  case cas | casClear => cases hset
  case setBlocked => exact .inl hsees
  case swap =>
    rw [(h.lists.swap h.cursors hknows.1 hknows.2).2.1]
    exact .inl hknows.1
  case pop l data _ | popWoken l data _ =>
    rw [writeList_popped h.cursors]
    exact (h.flagged hset).imp id (hkeep nofun)
  all_goals exact (h.flagged hset).imp id (hkeep nofun)

theorem Wakes.cleared_go (h : Wakes t) (hs : Took t.shared (t.pc i) s p)
    (hc : t.pc i = .broadcast → (∃ j, t.pc j = .condWait) →
      ∃ j, (t.pc j).isConsumer = true ∧ t.pc j ≠ .condWait)
    (hclear : s.readerBlocked = false) (hex : ∃ j, ((t.go i s p).pc j).isConsumer = true) :
    (∃ j, (t.go i s p).pc j = .broadcast) ∨ ∃ j, ((t.go i s p).pc j).Awake s := by
  by_cases hawake : ∃ j, (t.pc j).Awake t.shared
  · obtain ⟨j, hj⟩ := hawake
    by_cases hji : j = i
    · refine .inr ⟨i, ?_⟩
      rw [Threads.pc_go_self]
      refine (hs.awake (h.knows i) (h.sees i) (hji ▸ hj)).resolve_right fun hset => ?_
      rw [hclear] at hset
      cases hset.1
    · refine .inr ⟨j, ?_⟩
      rw [Threads.pc_go_ne hji]
      exact hj.of_le hs.broadcasts_le
  · have hnot : ∀ j, ¬ (t.pc j).Awake t.shared := not_exists.1 hawake
    have hold : t.shared.readerBlocked = false → (∃ j, (t.pc j).isConsumer = true) →
        ∃ j, t.pc j = .broadcast :=
      fun hf hex => (h.cleared hf hex).resolve_right hawake
    have hkeep : t.pc i ≠ .broadcast → (∃ j, t.pc j = .broadcast) →
        ∃ j, (t.go i s p).pc j = .broadcast :=
      fun hi hex => Threads.exists_pc_go_of (P := fun p => p = Pc.broadcast) hex fun he => absurd he hi
    have hconsumer : (p.isConsumer = true → (t.pc i).isConsumer = true) →
        ∃ j, (t.pc j).isConsumer = true := by
      obtain ⟨j, hj⟩ := hex
      intro hp
      by_cases hji : j = i
      · rw [hji, Threads.pc_go_self] at hj
        exact ⟨i, hp hj⟩
      · rw [Threads.pc_go_ne hji] at hj
        exact ⟨j, hj⟩
    have hself : p.Awake s → ∃ j, ((t.go i s p).pc j).Awake s :=
      fun hp => ⟨i, by rwa [Threads.pc_go_self]⟩
    have hi := hnot i
    obtain ⟨q, hq⟩ : ∃ q, t.pc i = q := ⟨_, rfl⟩
    rw [hq] at hs hi hc hkeep hconsumer
    cases hs
    case consumer | wake => exact .inr (hself rfl)
    case cas => exact .inl ⟨i, Threads.pc_go_self ..⟩
    case casClear hf => exact .inl (hkeep nofun (hold hf (hconsumer id)))
    case broadcast =>
      -- a consumer that is elsewhere waits, and is woken
      obtain ⟨k, hk, hne⟩ : ∃ k, (t.pc k).isConsumer = true ∧ t.pc k ≠ .condWait := by
        obtain ⟨j, hj⟩ := hconsumer id
        by_cases hgap : t.pc j = .condWait
        · exact hc rfl ⟨j, hgap⟩
        · exact ⟨j, hj, hgap⟩
      obtain ⟨before, hb⟩ := Pc.waiting_of_not_awake hk hne (hnot k)
      have hki : k ≠ i := by
        rintro rfl
        rw [hq] at hb
        cases hb
      have hle : (t.pc k).Sees t.shared := h.sees k
      rw [hb] at hle
      refine .inr ⟨k, ?_⟩
      rw [Threads.pc_go_ne hki, hb]
      exact Nat.lt_succ_of_le hle
    case producer | enqueue | push | unlock | condWait =>
      exact .inl (hkeep nofun (hold hclear (hconsumer id)))
    all_goals exact absurd rfl hi

theorem Wakes.step (h : Wakes t) {a : Nat × Op α} (hc : Heard t a)
    (hs : program.machine.step t a = some t') : Wakes t' := by
  have hI := h.toInv.step (fun hf => hf.elim) hs
  obtain ⟨i, op⟩ := a
  obtain ⟨s, p, hstep, rfl⟩ := Program.machine_step hs
  have htook := step_cases hstep
  refine ⟨hI, ?_, h.drained_go htook, h.flagged_go htook, h.cleared_go htook hc.1⟩
  refine (Threads.forall_pc_go (P := fun _ p => Pc.Sees s p)).2
    ⟨htook.sees (h.sees i) hc.2, fun j hj => ?_⟩
  exact htook.sees_other h.cursors (fun hin hin' => hj (h.lock.unique j i hin hin')) (h.sees j)

theorem wakes_init (h : program.machine.init t) : Wakes t := by
  obtain ⟨hs, hstart⟩ := id h
  have hs : t.shared = new := hs
  have hstart : ∀ i, t.pc i = .new := hstart
  refine ⟨inv_init h, fun i => ?_, fun _ => ?_, fun hset => ?_, fun _ hex => ?_⟩
  · rw [hstart i]
    trivial
  · rw [hs]
    rfl
  · rw [hs] at hset
    cases hset
  · obtain ⟨i, hi⟩ := hex
    rw [hstart i] at hi
    cases hi

theorem Wakes.not_frozen (h : Wakes t) : ¬ Frozen t := by
  intro hf
  have hnot : ∀ i, ¬ (t.pc i).Awake t.shared := by
    intro i hi
    have hconsumer : (t.pc i).isConsumer = true := hi.isConsumer
    obtain ⟨before, hb, hle⟩ := hf.blocked i hconsumer
    rw [hb] at hi
    exact Nat.not_lt.2 hle hi
  have hwrite : t.shared.writeList.head ≠ none := fun hw => hf.items ⟨h.drained hnot, hw⟩
  cases hflag : t.shared.readerBlocked with
  | true =>
    obtain ⟨i, hi⟩ := (h.flagged hflag).resolve_left hwrite
    exact (hf.producers i).1 hi
  | false =>
    obtain ⟨i, hi⟩ | ⟨i, hi⟩ := h.cleared hflag hf.consumer
    · exact (hf.producers i).2 hi
    · exact hnot i hi

/-- As long as every broadcast can be heard, the queue does not freeze. -/
theorem not_frozen_of_heard (h : program.machine.ReachUnder Heard t) : ¬ Frozen t :=
  Wakes.not_frozen (h.invariant (fun _ => wakes_init) fun _ _ _ hI hc hs => hI.step hc hs)

end run

/-- The part of `Heard` that can be read off the first consumer. -/
def HeardBy (t : Threads (BlockingQueue Nat) (Pc Nat)) (a : Nat × Op Nat) : Prop :=
  (t.pc a.1 = .broadcast → (t.pc 1).isConsumer = true ∧ t.pc 1 ≠ .condWait) ∧
    (t.pc a.1 = .testWrite → t.shared.writeList.head = none ∨ 0 < t.shared.writeList.size)

instance (t : Threads (BlockingQueue Nat) (Pc Nat)) (a : Nat × Op Nat) : Decidable (HeardBy t a) :=
  inferInstanceAs (Decidable ((_ → _) ∧ (_ → _)))

/-- A consumer waits, a push wakes it, and its second call returns the item. -/
theorem not_frozen_of_heard_wake :
    ∃ t : Threads (BlockingQueue Nat) (Pc Nat), program.machine.ReachUnder Heard t ∧
      t.shared.returned = [some 5] ∧ ¬ Frozen t := by
  obtain ⟨as, has⟩ : ∃ as : List (Nat × Op Nat), as = [(0, .producer), (1, .consumer),
    (1, .go), (1, .go), (1, .go), (1, .go), (1, .go), (1, .go), (1, .go), (1, .go),
    (0, .enqueue 5), (0, .malloc 0), (0, .go), (0, .go), (0, .go), (1, .go), (1, .go), (1, .go),
    (1, .go), (1, .go), (1, .go), (1, .go), (1, .go), (1, .go), (1, .go), (1, .go)] := ⟨_, rfl⟩
  have hrun : (program.machine.runUnder HeardBy rested as).map (fun t => t.shared.returned) =
      some [some 5] := by
    subst has
    decide +kernel
  obtain ⟨t, ht, heq⟩ := Option.map_eq_some_iff.1 hrun
  have hby : program.machine.ReachUnder HeardBy t := Machine.ReachUnder.run (.init rested_init) ht
  have hreach : program.machine.ReachUnder Heard t :=
    hby.mono fun _ _ hc => ⟨fun hpc _ => ⟨1, hc.1 hpc⟩, hc.2⟩
  exact ⟨t, hreach, heq, not_frozen_of_heard hreach⟩

/-- The only consumer has set the flag and not yet begun to wait when the producer broadcasts. -/
theorem exists_frozen :
    ¬ ∀ t : Threads (BlockingQueue Nat) (Pc Nat), program.machine.Reach t → ¬ Frozen t := by
  intro hall
  obtain ⟨as, has⟩ : ∃ as : List (Nat × Op Nat), as =
    [(0, .producer), (1, .consumer), (1, .go), (1, .go), (1, .go), (1, .go), (1, .go), (1, .go),
      (1, .go), (0, .enqueue 5), (0, .malloc 0), (0, .go), (0, .go), (0, .go),
    (1, .go)] := ⟨_, rfl⟩
  have hrun : (program.machine.run rested as).map
    (fun t => (t.pc 0, t.pc 1, t.shared.broadcasts, t.shared.writeList.head)) =
      some (.producer, .waiting 1, 1, some 0) := by
    subst has
    decide +kernel
  obtain ⟨t, ht, heq⟩ := Option.map_eq_some_iff.1 hrun
  simp only [Prod.mk.injEq] at heq
  obtain ⟨h0, h1, hb, hhead⟩ := heq
  have hrest : ∀ i, 2 ≤ i → t.pc i = .new := by
    intro i hi
    have hnot : ∀ a ∈ as, a.1 ≠ i := by
      subst has
      simp only [List.mem_cons, List.not_mem_nil, or_false, forall_eq_or_imp, forall_eq]
      omega
    exact Program.pc_of_runUnder ht hnot
  have hcases : ∀ i, t.pc i = .producer ∨ t.pc i = .new ∨ i = 1 := by
    intro i
    rcases Nat.lt_or_ge i 2 with hi | hi
    · interval_cases i
      · exact .inl h0
      · exact .inr (.inr rfl)
    · exact .inr (.inl (hrest i hi))
  have hreach : program.machine.Reach t :=
      Machine.ReachUnder.run (M := program.machine) (.init rested_init) ht
  refine hall t hreach ⟨fun hnone => ?_, ⟨1, ?_⟩, ?_, ?_⟩
  · rw [hhead] at hnone
    cases hnone.2
  · rw [h1]
    rfl
  · intro i hi
    obtain hp | hp | rfl := hcases i
    · rw [hp] at hi
      cases hi
    · rw [hp] at hi
      cases hi
    · exact ⟨1, h1, hb.le⟩
  · intro i
    obtain hp | hp | rfl := hcases i
    · rw [hp]
      exact ⟨nofun, nofun⟩
    · rw [hp]
      exact ⟨nofun, nofun⟩
    · rw [h1]
      exact ⟨nofun, nofun⟩

end BlockingQueue

end Resend.Udp

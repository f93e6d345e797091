import Resend.Lib.Machine

/-!
# Threads over a shared state

Any number of threads, each somewhere in the same program, take their atomic steps in any order.
What is shown is an invariant of the shared state and of where all the threads are.
-/

/-- What a thread at `p` that takes the action `a` makes of the shared state, and where it is then. -/
structure Program (σ π α : Type) where
  init : σ → Prop
  start : π
  step : σ → π → α → Option (σ × π)

/-- The shared state and where each thread is. -/
structure Threads (σ π : Type) where
  shared : σ
  pc : Nat → π

namespace Threads
variable {σ π : Type}

/-- Thread `i` goes to `p`, leaving `s` behind. -/
def go (i : Nat) (s : σ) (p : π) (t : Threads σ π) : Threads σ π := ⟨s, Function.update t.pc i p⟩

@[simp] theorem shared_go (i : Nat) (s : σ) (p : π) (t : Threads σ π) : (t.go i s p).shared = s := rfl

@[simp] theorem pc_go_self (i : Nat) (s : σ) (p : π) (t : Threads σ π) : (t.go i s p).pc i = p :=
  Function.update_self ..

theorem pc_go_ne {i j : Nat} (h : j ≠ i) (s : σ) (p : π) (t : Threads σ π) :
    (t.go i s p).pc j = t.pc j :=
  Function.update_of_ne h ..

@[simp] theorem go_go (i : Nat) (s s' : σ) (p p' : π) (t : Threads σ π) :
    (t.go i s p).go i s' p' = t.go i s' p' :=
  congrArg (Threads.mk s') (Function.update_idem ..)

theorem forall_pc_go {P : Nat → π → Prop} {i : Nat} {s : σ} {p : π} {t : Threads σ π} :
    (∀ j, P j ((t.go i s p).pc j)) ↔ P i p ∧ ∀ j ≠ i, P j (t.pc j) :=
  Function.forall_update_iff t.pc P

/-- A thread that is known to be elsewhere was there before. -/
theorem exists_pc_go_of {P : π → Prop} {i : Nat} {s : σ} {p : π} {t : Threads σ π} (h : ∃ j, P (t.pc j))
    (hp : P (t.pc i) → P p) : ∃ j, P ((t.go i s p).pc j) := by
  obtain ⟨j, hj⟩ := h
  by_cases hji : j = i
  · exact ⟨i, by rw [pc_go_self]; exact hp (hji ▸ hj)⟩
  · exact ⟨j, by rw [pc_go_ne hji]; exact hj⟩

/-- At most one thread is at a place with `P`, if there was at most one and the one that moves is no
second. -/
theorem unique_go {P : π → Prop} {i : Nat} {s : σ} {p : π} {t : Threads σ π}
    (h : ∀ j k, P (t.pc j) → P (t.pc k) → j = k) (hp : P p → ∀ j ≠ i, ¬ P (t.pc j)) :
    ∀ j k, P ((t.go i s p).pc j) → P ((t.go i s p).pc k) → j = k := by
  intro j k hj hk
  by_cases hji : j = i <;> by_cases hki : k = i
  · rw [hji, hki]
  · rw [hji, pc_go_self] at hj
    rw [pc_go_ne hki] at hk
    exact absurd hk (hp hj k hki)
  · rw [hki, pc_go_self] at hk
    rw [pc_go_ne hji] at hj
    exact absurd hj (hp hk j hji)
  · rw [pc_go_ne hji] at hj
    rw [pc_go_ne hki] at hk
    exact h j k hj hk

/-- A lock: at most one thread is inside, and nobody while it is free. -/
structure Mutex (held : Bool) (In : π → Prop) (t : Threads σ π) : Prop where
  unique : ∀ i j, In (t.pc i) → In (t.pc j) → i = j
  free : held = false → ∀ i, ¬ In (t.pc i)

namespace Mutex
variable {held held' : Bool} {In : π → Prop} {i : Nat} {s : σ} {p : π} {t : Threads σ π}

theorem start (h : ∀ i, ¬ In (t.pc i)) : Mutex held In t where
  unique i _ hi := absurd hi (h i)
  free _ := h

theorem stay (h : Mutex held In t) (hp : In p → In (t.pc i)) : Mutex held In (t.go i s p) where
  unique := unique_go h.unique fun hin j hj hj' => hj (h.unique j i hj' (hp hin))
  free hh := (forall_pc_go (P := fun _ p => ¬ In p)).2
    ⟨fun hin => h.free hh i (hp hin), fun j _ => h.free hh j⟩

theorem acquire (h : Mutex false In t) : Mutex true In (t.go i s p) where
  unique := unique_go h.unique fun _ j _ => h.free rfl j
  free hh := nomatch hh

theorem release (h : Mutex held In t) (hi : In (t.pc i)) (hp : ¬ In p) :
    Mutex held' In (t.go i s p) where
  unique := unique_go h.unique fun hin => absurd hin hp
  free _ := (forall_pc_go (P := fun _ p => ¬ In p)).2 ⟨hp, fun j hj hj' => hj (h.unique j i hj' hi)⟩

end Mutex

end Threads

namespace Program
variable {σ π α : Type} (P : Program σ π α)

/-- All threads start at the start of the program. -/
def machine : Machine (Threads σ π) (Nat × α) where
  init t := P.init t.shared ∧ ∀ i, t.pc i = P.start
  step t a := (P.step t.shared (t.pc a.1) a.2).map fun r => t.go a.1 r.1 r.2

variable {P} {t t' : Threads σ π} {i : Nat} {a : α}

theorem machine_step (h : P.machine.step t (i, a) = some t') :
    ∃ s p, P.step t.shared (t.pc i) a = some (s, p) ∧ t' = t.go i s p := by
  obtain ⟨⟨s, p⟩, hs, rfl⟩ := Option.map_eq_some_iff.1 h
  exact ⟨s, p, hs, rfl⟩

theorem reach_go {C : Threads σ π → Nat × α → Prop} {s : σ} {p : π} (h : P.machine.ReachUnder C t)
    (hc : C t (i, a)) (hs : P.step t.shared (t.pc i) a = some (s, p)) :
    P.machine.ReachUnder C (t.go i s p) :=
  h.step hc (congrArg (Option.map _) hs)

/-- A thread takes the actions `as` while the others stand still. -/
def exec (P : Program σ π α) : σ → π → List α → Option (σ × π)
  | s, p, [] => some (s, p)
  | s, p, a :: as => (P.step s p a).bind fun r => exec P r.1 r.2 as

theorem exec_cons {s s' : σ} {p p' : π} {as : List α} (h : P.step s p a = some (s', p')) :
    P.exec s p (a :: as) = P.exec s' p' as := by
  rw [exec, h]
  rfl

theorem reach_exec {s : σ} {p : π} {as : List α} (h : P.machine.Reach t)
    (hx : P.exec t.shared (t.pc i) as = some (s, p)) :
    P.machine.Reach (t.go i s p) := by
  induction as generalizing t with
  | nil =>
    cases hx
    rw [Threads.go, Function.update_eq_self]
    exact h
  | cons a as ih =>
    obtain ⟨r, hr, hx⟩ := Option.bind_eq_some_iff.1 hx
    rw [← Threads.go_go i r.1 s r.2 p t]
    refine ih (reach_go h trivial hr) ?_
    rw [Threads.shared_go, Threads.pc_go_self]
    exact hx

theorem pc_of_runUnder {C : Threads σ π → Nat × α → Prop} [∀ t a, Decidable (C t a)]
    {as : List (Nat × α)} (h : P.machine.runUnder C t as = some t') {j : Nat}
    (hj : ∀ a ∈ as, a.1 ≠ j) : t'.pc j = t.pc j := by
  induction as generalizing t with
  | nil =>
    simp only [Machine.runUnder, Option.some.injEq] at h
    rw [h]
  | cons a as ih =>
    simp only [Machine.runUnder] at h
    split at h
    · obtain ⟨t₁, hs, hr⟩ := Option.bind_eq_some_iff.1 h
      obtain ⟨s, p, -, rfl⟩ := machine_step hs
      rw [ih hr fun b hb => hj b (List.mem_cons_of_mem _ hb),
        Threads.pc_go_ne (hj a List.mem_cons_self).symm]
    · cases h

end Program

import Mathlib.Tactic

/-!
# Machines, runs and trace monitors

A `Machine` takes one enabled action at a time; every choice of the environment is part of the
action. `ReachUnder C` collects the states reached by runs all of whose steps meet `C`, so that
`Reach` is the case of no condition. A `Monitor` reads a trace of events and gets stuck at the
first event it forbids.
-/

/-- A transition system: `step s a = none` means that `a` is not enabled in `s`. -/
structure Machine (σ α : Type) where
  init : σ → Prop
  step : σ → α → Option σ

namespace Machine
variable {σ α : Type}

/-- The states reached by runs all of whose steps meet `C`. -/
inductive ReachUnder (M : Machine σ α) (C : σ → α → Prop) : σ → Prop
  | init {s : σ} (h : M.init s) : ReachUnder M C s
  | step {s s' : σ} {a : α} (h : ReachUnder M C s) (hc : C s a) (hs : M.step s a = some s') :
      ReachUnder M C s'

def Reach (M : Machine σ α) : σ → Prop := M.ReachUnder fun _ _ => True

variable {M : Machine σ α} {C C' : σ → α → Prop} {s s' : σ}

/-- The invariant rule. -/
theorem ReachUnder.invariant {I : σ → Prop} (h0 : ∀ s, M.init s → I s)
    (hstep : ∀ s a s', I s → C s a → M.step s a = some s' → I s') (h : M.ReachUnder C s) : I s := by
  induction h with
  | init h => exact h0 _ h
  | step _ hc hs ih => exact hstep _ _ _ ih hc hs

theorem ReachUnder.mono (hC : ∀ s a, C s a → C' s a) (h : M.ReachUnder C s) : M.ReachUnder C' s := by
  induction h with
  | init h => exact .init h
  | step _ hc hs ih => exact .step ih (hC _ _ hc) hs

/-- Run a list of actions, provided every step meets `C`. -/
def runUnder (M : Machine σ α) (C : σ → α → Prop) [∀ s a, Decidable (C s a)] : σ → List α → Option σ
  | s, [] => some s
  | s, a :: as => if C s a then (M.step s a).bind fun s' => runUnder M C s' as else none

def run (M : Machine σ α) (s : σ) (as : List α) : Option σ := M.runUnder (fun _ _ => True) s as

theorem ReachUnder.run [∀ s a, Decidable (C s a)] {as : List α} (h : M.ReachUnder C s)
    (hr : M.runUnder C s as = some s') : M.ReachUnder C s' := by
  induction as generalizing s with
  | nil => simp only [runUnder, Option.some.injEq] at hr; exact hr ▸ h
  | cons a as ih =>
    simp only [runUnder] at hr
    split at hr
    · rename_i hc
      obtain ⟨s₁, hs, hr⟩ := Option.bind_eq_some_iff.1 hr
      exact ih (.step h hc hs) hr
    · cases hr

/-- `P` holds at every step of the actions `as` from `s`, as far as they are enabled. -/
def Along (M : Machine σ α) (P : σ → α → Prop) : σ → List α → Prop
  | _, [] => True
  | s, a :: as => P s a ∧ ∀ s', M.step s a = some s' → M.Along P s' as

theorem Along.at_end {P : σ → α → Prop} {as : List α} {a : α} (h : M.Along P s (as ++ [a]))
    (hr : M.run s as = some s') :
    P s' a := by
  induction as generalizing s with
  | nil =>
    cases hr
    exact h.1
  | cons b as ih =>
    rw [run, runUnder, if_pos trivial] at hr
    obtain ⟨s₁, hs, hr⟩ := Option.bind_eq_some_iff.1 hr
    exact ih (h.2 s₁ hs) hr

/-- Conditions that agree wherever an invariant holds agree along every run; a step that meets the
condition keeps the invariant. -/
theorem along_congr_of {I : σ → Prop} {P Q : σ → α → Prop}
    (hstep : ∀ s a s', I s → Q s a → M.step s a = some s' → I s')
    (hPQ : ∀ s a, I s → (P s a ↔ Q s a)) {as : List α} (hs : I s) :
    M.Along P s as ↔ M.Along Q s as := by
  induction as generalizing s with
  | nil => exact Iff.rfl
  | cons a as ih =>
    constructor
    · rintro ⟨ha, h⟩
      have hq := (hPQ s a hs).1 ha
      exact ⟨hq, fun s' hs' => (ih (hstep s a s' hs hq hs')).1 (h s' hs')⟩
    · rintro ⟨hq, h⟩
      exact ⟨(hPQ s a hs).2 hq, fun s' hs' => (ih (hstep s a s' hs hq hs')).2 (h s' hs')⟩

theorem along_congr {I : σ → Prop} {P Q : σ → α → Prop}
    (hstep : ∀ s a s', I s → M.step s a = some s' → I s') (hPQ : ∀ s a, I s → (P s a ↔ Q s a))
    {as : List α} (hs : I s) : M.Along P s as ↔ M.Along Q s as :=
  along_congr_of (fun s a s' hI _ hs' => hstep s a s' hI hs') hPQ hs

end Machine

/-- A safety automaton over events: `next b e = none` means that `e` is forbidden in `b`. -/
structure Monitor (β ε : Type) where
  next : β → ε → Option β

namespace Monitor
variable {β ε : Type}

/-- The state after a trace, if none of its events was forbidden. -/
def scan (A : Monitor β ε) : β → List ε → Option β
  | b, [] => some b
  | b, e :: es => (A.next b e).bind fun b' => A.scan b' es

variable (A : Monitor β ε) {b b' b'' : β} {es es' : List ε}

theorem scan_append (b : β) (es es' : List ε) :
    A.scan b (es ++ es') = (A.scan b es).bind fun b' => A.scan b' es' := by
  induction es generalizing b with
  | nil => rfl
  | cons e es ih =>
    simp only [List.cons_append, scan]
    cases A.next b e with
    | none => rfl
    | some c => exact ih c

theorem scan_trans (h : A.scan b es = some b') (h' : A.scan b' es' = some b'') :
    A.scan b (es ++ es') = some b'' := by
  rw [scan_append, h]; exact h'

/-- Every event of an accepted trace was allowed in the state that the events before it led to. -/
theorem scan_split (h : A.scan b (es ++ es') = some b'') :
    ∃ b', A.scan b es = some b' ∧ A.scan b' es' = some b'' := by
  rw [scan_append] at h
  exact Option.bind_eq_some_iff.1 h

end Monitor

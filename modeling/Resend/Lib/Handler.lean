import Mathlib.Tactic

/-!
# Event handlers over one object

A handler runs to completion on one object: it reads and writes the object's state and emits
effects for its environment, in order. `wp x Q s` is the weakest precondition of `x`: `Q` holds of
the result, of the state after and of the effects emitted when `x` runs from `s`. The rules below
compute `wp` of every handler from its text.
-/

/-- A computation over an object of type `σ` that emits effects of type `ε`. -/
def Handler (σ ε α : Type) : Type := σ → α × σ × List ε

namespace Handler
variable {σ ε α β : Type}

instance : Monad (Handler σ ε) where
  pure a := fun s => (a, s, [])
  bind x f := fun s =>
    let r := x s
    let q := f r.1 r.2.1
    (q.1, q.2.1, r.2.2 ++ q.2.2)

/-- The object as it is now. -/
def get : Handler σ ε σ := fun s => (s, s, [])

def modify (f : σ → σ) : Handler σ ε Unit := fun s => ((), f s, [])

/-- Read a value and update the object in one step. -/
def modifyGet (f : σ → α × σ) : Handler σ ε α := fun s => ((f s).1, (f s).2, [])

def emit (e : ε) : Handler σ ε Unit := fun s => ((), s, [e])

/-- Run `x` only if `p` holds. -/
def when (p : Prop) [Decidable p] (x : Handler σ ε Unit) : Handler σ ε Unit :=
  if p then x else pure ()

/-- The object and the effects after a handler has run. -/
def exec (x : Handler σ ε α) (s : σ) : σ × List ε := (x s).2

/-- The weakest precondition of `x` for `Q`. -/
def wp (x : Handler σ ε α) (Q : α → σ → List ε → Prop) (s : σ) : Prop :=
  Q (x s).1 (x s).2.1 (x s).2.2

section rules
variable {Q : α → σ → List ε → Prop} {s : σ}

@[simp] theorem wp_pure (a : α) : wp (pure a : Handler σ ε α) Q s ↔ Q a s [] := Iff.rfl

@[simp] theorem wp_bind (x : Handler σ ε β) (f : β → Handler σ ε α) :
    wp (x >>= f) Q s ↔ wp x (fun b s' es => wp (f b) (fun a s'' es' => Q a s'' (es ++ es')) s') s :=
  Iff.rfl

@[simp] theorem wp_get {Q : σ → σ → List ε → Prop} : wp get Q s ↔ Q s s [] := Iff.rfl

@[simp] theorem wp_modify {Q : Unit → σ → List ε → Prop} (f : σ → σ) :
    wp (modify f) Q s ↔ Q () (f s) [] :=
  Iff.rfl

@[simp] theorem wp_modifyGet (f : σ → α × σ) : wp (modifyGet f) Q s ↔ Q (f s).1 (f s).2 [] := Iff.rfl

@[simp] theorem wp_emit {Q : Unit → σ → List ε → Prop} (e : ε) : wp (emit e) Q s ↔ Q () s [e] := Iff.rfl

@[simp] theorem wp_ite {p : Prop} [Decidable p] (x y : Handler σ ε α) :
    wp (if p then x else y) Q s ↔ if p then wp x Q s else wp y Q s := by
  split <;> rfl

@[simp] theorem wp_when {Q : Unit → σ → List ε → Prop} {p : Prop} [Decidable p] (x : Handler σ ε Unit) :
    wp (when p x) Q s ↔ if p then wp x Q s else Q () s [] := by
  unfold when; split <;> rfl

theorem wp_mono {Q' : α → σ → List ε → Prop} (x : Handler σ ε α) (h : wp x Q s)
    (hQ : ∀ a s' es, Q a s' es → Q' a s' es) : wp x Q' s :=
  hQ _ _ _ h

theorem wp_and {Q' : α → σ → List ε → Prop} (x : Handler σ ε α) (h : wp x Q s) (h' : wp x Q' s) :
    wp x (fun a s' es => Q a s' es ∧ Q' a s' es) s :=
  ⟨h, h'⟩

theorem wp_exec {P : σ → List ε → Prop} (x : Handler σ ε α) (h : wp x (fun _ s' es => P s' es) s) :
    P (exec x s).1 (exec x s).2 :=
  h

end rules

/-! ### Frames -/

/-- A relation between the states around a handler and its effects that chains: what each part of a
handler keeps, the whole keeps. -/
structure Frame (R : σ → σ → List ε → Prop) : Prop where
  refl : ∀ s, R s s []
  trans : ∀ {s s' s'' es es'}, R s s' es → R s' s'' es' → R s s'' (es ++ es')

/-- `R` holds around every run of `x`. -/
def Keeps (R : σ → σ → List ε → Prop) (x : Handler σ ε α) : Prop :=
  ∀ s, wp x (fun _ s' es => R s s' es) s

section keeps
variable {R : σ → σ → List ε → Prop}

theorem keeps_modify {f : σ → σ} (h : ∀ s, R s (f s) []) : Keeps R (modify f : Handler σ ε Unit) := h

theorem keeps_modifyGet {f : σ → α × σ} (h : ∀ s, R s (f s).2 []) :
    Keeps R (modifyGet f : Handler σ ε α) := h

theorem keeps_emit {e : ε} (h : ∀ s, R s s [e]) : Keeps R (emit e) := h

theorem keeps_ite {p : Prop} [Decidable p] {x y : Handler σ ε α} (hx : Keeps R x) (hy : Keeps R y) :
    Keeps R (if p then x else y) := by
  split
  · exact hx
  · exact hy

theorem keeps_get_bind {f : σ → Handler σ ε α} (hf : ∀ s, wp (f s) (fun _ s' es => R s s' es) s) :
    Keeps R (get >>= f) :=
  hf

end keeps

namespace Frame
variable {R : σ → σ → List ε → Prop} (hR : Frame R)
include hR

theorem pure (a : α) : Keeps R (Pure.pure a : Handler σ ε α) := hR.refl

theorem get : Keeps R (Handler.get : Handler σ ε σ) := hR.refl

theorem bind {x : Handler σ ε β} {f : β → Handler σ ε α} (hx : Keeps R x) (hf : ∀ b, Keeps R (f b)) :
    Keeps R (x >>= f) :=
  fun s => hR.trans (hx s) (hf _ _)

theorem when {p : Prop} [Decidable p] {x : Handler σ ε Unit} (hx : Keeps R x) :
    Keeps R (Handler.when p x) := by
  unfold Handler.when
  split
  · exact hx
  · exact hR.pure ()

end Frame

end Handler

import Resend.Lib.Threads
import Resend.Udp.Endpoint

/-!
# The search for a slot

`create_connectionID` has the loop of a search over the whole table, but its body leaves it in
either branch: one slot is tried, the one at the cursor. With several threads the increment of the
cursor and its wrap are two steps, and an increment between the two steps of another call goes past
the end of the table for good.
-/

namespace Resend.Udp

namespace Endpoint
variable {s : Endpoint}

/-- Some slot other than slot 0 is empty. -/
def HasRoom (s : Endpoint) : Prop := ∃ k, 1 ≤ k ∧ k < maxConnectionCount ∧ s.cidArray k = .null

/-- Allocation finds a slot when there is room, and otherwise gives up and leaves the table alone. -/
structure Allocates (s : Endpoint) (addr : Nat) : Prop where
  found : s.HasRoom → ∃ id k, (s.createConnectionID addr).1 = some id ∧
    k < maxConnectionCount ∧ s.cidArray k = .null ∧
    (s.createConnectionID addr).2.cidArray = Function.update s.cidArray k (.con addr) ∧
    id % maxConnectionCount = k ∧ id / maxConnectionCount = s.verificationActor % 2 ^ 12
  full : ¬ s.HasRoom → (s.createConnectionID addr).1 = none ∧
    (s.createConnectionID addr).2.cidArray = s.cidArray

theorem createConnectionID_of_null (h : s.cidArray s.cidArrayOffset = .null) (addr : Nat) :
    (s.createConnectionID addr).1 =
      some (s.cidArrayOffset + s.verificationActor % 2 ^ 12 * maxConnectionCount) ∧
      (s.createConnectionID addr).2.cidArray =
        Function.update s.cidArray s.cidArrayOffset (.con addr) := by
  simp only [createConnectionID, h]
  exact ⟨trivial, rfl⟩

theorem createConnectionID_of_taken (h : s.cidArray s.cidArrayOffset ≠ .null) (addr : Nat) :
    (s.createConnectionID addr).1 = none ∧ (s.createConnectionID addr).2.cidArray = s.cidArray := by
  cases he : s.cidArray s.cidArrayOffset with
  | null => exact absurd he h
  | suspend | con _ =>
    simp only [createConnectionID, he]
    exact ⟨trivial, trivial⟩

/-- One slot is tried, so allocation does what it should just when that slot is empty if and only if
any is. -/
theorem allocates_iff (hcur : s.cidArrayOffset < maxConnectionCount) (addr : Nat) :
    s.Allocates addr ↔ (s.cidArray s.cidArrayOffset = .null ↔ s.HasRoom) := by
  by_cases hnull : s.cidArray s.cidArrayOffset = .null
  · obtain ⟨hid, harr⟩ := createConnectionID_of_null hnull addr
    constructor
    · intro h
      refine iff_of_true hnull ?_
      by_contra hroom
      have hnone := (h.full hroom).1
      rw [hid] at hnone
      cases hnone
    · intro h
      refine ⟨fun _ => ⟨_, _, hid, hcur, hnull, harr, ?_, ?_⟩, fun hroom => absurd (h.1 hnull) hroom⟩
      · rw [Nat.add_mul_mod_self_right, Nat.mod_eq_of_lt hcur]
      · rw [Nat.add_mul_div_right _ _ (by decide), Nat.div_eq_of_lt hcur, Nat.zero_add]
  · obtain ⟨hid, harr⟩ := createConnectionID_of_taken hnull addr
    constructor
    · intro h
      refine iff_of_false hnull fun hroom => ?_
      obtain ⟨id, k, hsome, -⟩ := h.found hroom
      rw [hid] at hsome
      cases hsome
    · intro h
      exact ⟨fun hroom => absurd (h.2 hroom) hnull, fun _ => ⟨hid, harr⟩⟩

/-- A process that has done nothing yet but for the connections in these slots. -/
def withSlots (taken : List Nat) (cursor : Nat) : Endpoint where
  cidArray k := if k ∈ taken then .con (k + 1) else .null
  cidArrayOffset := cursor
  verificationActor := 0xabcdefab
  heap := []
  counts _ := 0
  waitAck := []
  timers := []
  sendQueue := []
  nextUid := 0

theorem hasRoom_withSlots : (withSlots [1] 1).HasRoom := ⟨2, by decide, by decide, rfl⟩

/-- The last slot is the next one and empty; slot 1 is taken. -/
theorem allocates_iff_last : (withSlots [1] 1048575).Allocates 7 :=
  (allocates_iff (by decide) 7).2 (iff_of_true (by decide) ⟨2, by decide, by decide, rfl⟩)

/-- The slot at the cursor is taken, and no other. -/
theorem exists_failed_search :
    ¬ ∀ (s : Endpoint) (addr : Nat), s.cidArrayOffset < maxConnectionCount → s.Allocates addr := by
  intro h
  obtain ⟨id, k, hid, -⟩ := (h (withSlots [1] 1) 7 (by decide)).found hasRoom_withSlots
  have hnone : ((withSlots [1] 1).createConnectionID 7).1 = none := by decide
  rw [hnone] at hid
  cases hid

end Endpoint

/-! ### Several threads -/

/-- The table, its cursor, the slot indices used so far, and the slots obtained and not released
since. -/
structure SlotTable where
  cidArray : Nat → CidEntry
  cidArrayOffset : Nat
  used : List Nat
  taken : List Nat

namespace SlotTable

/-- Where a thread is in `create_connectionID`. -/
inductive Pc
  | idle
  | wrap (offset addr : Nat)
  | claim (offset addr : Nat)
deriving DecidableEq

/-- What a thread does: enter a call, go on with it, or release or suspend a slot. -/
inductive Op
  | create (addr : Nat)
  | go
  | release (offset : Nat)
  | suspend (offset : Nat)

def fill (s : SlotTable) (offset : Nat) (e : CidEntry) : SlotTable :=
  { s with cidArray := Function.update s.cidArray offset e }

def step (s : SlotTable) : Pc → Op → Option (SlotTable × Pc)
  | .idle, .create addr =>
    some ({ s with cidArrayOffset := s.cidArrayOffset + 1 }, .wrap s.cidArrayOffset addr)
  | .wrap offset addr, .go =>
    some ({ s with
      cidArrayOffset := if s.cidArrayOffset = maxConnectionCount then 1 else s.cidArrayOffset },
        .claim offset addr)
  | .claim offset addr, .go =>
    let s := { s with used := offset :: s.used }
    some (if s.cidArray offset = .null then
      { s.fill offset (.con addr) with taken := offset :: s.taken } else s, .idle)
  | .idle, .release offset =>
    some ({ s.fill offset .null with taken := s.taken.filter (· ≠ offset) }, .idle)
  | .idle, .suspend offset => some (s.fill offset .suspend, .idle)
  | _, _ => none

theorem step_cases {s s' : SlotTable} {p p' : Pc} {op : Op} (h : s.step p op = some (s', p')) :
    (∃ addr, p = .idle ∧ op = .create addr ∧ s' = { s with cidArrayOffset := s.cidArrayOffset + 1 } ∧
      p' = .wrap s.cidArrayOffset addr) ∨
    (∃ offset addr, p = .wrap offset addr ∧ op = .go ∧ p' = .claim offset addr ∧
      s' = { s with
        cidArrayOffset := if s.cidArrayOffset = maxConnectionCount then 1 else s.cidArrayOffset }) ∨
    (∃ offset addr, p = .claim offset addr ∧ op = .go ∧ p' = .idle ∧
      s' = if s.cidArray offset = .null then
        { s.fill offset (.con addr) with used := offset :: s.used, taken := offset :: s.taken }
        else { s with used := offset :: s.used }) ∨
    (∃ offset, p = .idle ∧ op = .release offset ∧ p' = .idle ∧
      s' = { s.fill offset .null with taken := s.taken.filter (· ≠ offset) }) ∨
    (∃ offset, p = .idle ∧ op = .suspend offset ∧ p' = .idle ∧ s' = s.fill offset .suspend) := by
  cases p with
  | idle =>
    cases op with
    | create addr =>
      cases h
      exact .inl ⟨addr, rfl, rfl, rfl, rfl⟩
    | go => cases h
    | release offset =>
      cases h
      exact .inr (.inr (.inr (.inl ⟨offset, rfl, rfl, rfl, rfl⟩)))
    | suspend offset =>
      cases h
      exact .inr (.inr (.inr (.inr ⟨offset, rfl, rfl, rfl, rfl⟩)))
  | wrap offset addr =>
    cases op <;> cases h
    exact .inr (.inl ⟨offset, addr, rfl, rfl, rfl, rfl⟩)
  | claim offset addr =>
    cases op <;> cases h
    exact .inr (.inr (.inl ⟨offset, addr, rfl, rfl, rfl, rfl⟩))

/-- Any table; the cursor is one that `connection::init` can set. -/
def program : Program SlotTable Pc Op where
  init s := s.cidArrayOffset < maxConnectionCount ∧ s.used = [] ∧ s.taken = []
  start := .idle
  step := step

/-- No call increments the cursor while it stands at the end. -/
def Wrapped (t : Threads SlotTable Pc) : Nat × Op → Prop
  | (i, .create _) => t.pc i = .idle → t.shared.cidArrayOffset ≠ maxConnectionCount
  | _ => True

instance (t : Threads SlotTable Pc) : (a : Nat × Op) → Decidable (Wrapped t a)
  | (_, .create _) => inferInstanceAs (Decidable (_ → _))
  | (_, .go) | (_, .release _) | (_, .suspend _) => inferInstanceAs (Decidable True)

/-- The cursor stays in the table or waits at its end for a call to wrap it. -/
structure Kept (t : Threads SlotTable Pc) : Prop where
  used : ∀ k ∈ t.shared.used, k < maxConnectionCount
  cursor : t.shared.cidArrayOffset ≤ maxConnectionCount
  returns : t.shared.cidArrayOffset = maxConnectionCount → ∃ i offset addr, t.pc i = .wrap offset addr ∧
    ∀ t', program.machine.step t (i, .go) = some t' → t'.shared.cidArrayOffset = 1
  distinct : t.shared.taken.Nodup

/-- The index a thread has in hand. -/
def PcIn : Pc → Prop
  | .idle => True
  | .wrap offset _ | .claim offset _ => offset < maxConnectionCount

structure Inv (t : Threads SlotTable Pc) : Prop where
  used : ∀ k ∈ t.shared.used, k < maxConnectionCount
  cursor : t.shared.cidArrayOffset ≤ maxConnectionCount
  pcs : ∀ i, PcIn (t.pc i)
  waits : t.shared.cidArrayOffset = maxConnectionCount → ∃ i, ∃ offset addr, t.pc i = .wrap offset addr
  full : ∀ k ∈ t.shared.taken, t.shared.cidArray k ≠ .null
  distinct : t.shared.taken.Nodup

section inv
variable {t t' : Threads SlotTable Pc} {i : Nat}

/-- A step that leaves the cursor alone and does not leave the wrap. -/
theorem Inv.go (h : Inv t) {s : SlotTable} {p : Pc}
    (hcur : s.cidArrayOffset = t.shared.cidArrayOffset)
    (hused : ∀ k ∈ s.used, k < maxConnectionCount) (hp : PcIn p)
    (hwrap : ∀ offset addr, t.pc i ≠ .wrap offset addr)
    (hfull : ∀ k ∈ s.taken, s.cidArray k ≠ .null) (hdist : s.taken.Nodup) : Inv (t.go i s p) where
  used := hused
  cursor := hcur ▸ h.cursor
  pcs := Threads.forall_pc_go.2 ⟨hp, fun j _ => h.pcs j⟩
  waits he := Threads.exists_pc_go_of (P := fun p => ∃ offset addr, p = Pc.wrap offset addr)
    (h.waits (hcur.symm.trans he)) fun ⟨offset, addr, hi⟩ => absurd hi (hwrap offset addr)
  full := hfull
  distinct := hdist

theorem Inv.fill (h : Inv t) {e : CidEntry} (he : e ≠ .null) (offset : Nat) :
    ∀ k ∈ t.shared.taken, (t.shared.fill offset e).cidArray k ≠ .null := by
  intro k hk
  show Function.update t.shared.cidArray offset e k ≠ .null
  by_cases hko : k = offset
  · rw [hko, Function.update_self]
    exact he
  · rw [Function.update_of_ne hko]
    exact h.full k hk

theorem Inv.step (h : Inv t) {a : Nat × Op} (hc : Wrapped t a)
    (hs : program.machine.step t a = some t') : Inv t' := by
  obtain ⟨i, op⟩ := a
  obtain ⟨s, p, hstep, rfl⟩ := Program.machine_step hs
  have hin := h.pcs i
  obtain ⟨addr, hpc, rfl, rfl, rfl⟩ | ⟨offset, addr, hpc, rfl, rfl, rfl⟩ |
      ⟨offset, addr, hpc, rfl, rfl, rfl⟩ |
    ⟨offset, hpc, rfl, rfl, rfl⟩ | ⟨offset, hpc, rfl, rfl, rfl⟩ := step_cases hstep
  · have hlt : t.shared.cidArrayOffset < maxConnectionCount := Nat.lt_of_le_of_ne h.cursor (hc hpc)
    exact ⟨h.used, hlt, Threads.forall_pc_go.2 ⟨hlt, fun j _ => h.pcs j⟩,
      fun _ => ⟨i, _, _, Threads.pc_go_self ..⟩, h.full, h.distinct⟩
  · rw [hpc] at hin
    have hlow : (if t.shared.cidArrayOffset = maxConnectionCount then 1 else t.shared.cidArrayOffset) <
        maxConnectionCount := by
      split
      · decide
      · exact Nat.lt_of_le_of_ne h.cursor ‹_›
    exact ⟨h.used, Nat.le_of_lt hlow, Threads.forall_pc_go.2 ⟨hin, fun j _ => h.pcs j⟩,
      fun he => absurd he (Nat.ne_of_lt hlow), h.full, h.distinct⟩
  · rw [hpc] at hin
    have hwrap : ∀ offset addr, t.pc i ≠ .wrap offset addr := by simp [hpc]
    have hused : ∀ k ∈ offset :: t.shared.used, k < maxConnectionCount := by
      simpa using ⟨hin, h.used⟩
    split
    · rename_i hnull
      refine h.go rfl hused trivial hwrap (fun k hk => ?_) ?_
      · rcases List.mem_cons.1 hk with rfl | hk
        · show Function.update t.shared.cidArray k (.con addr) k ≠ .null
          rw [Function.update_self]
          exact fun he => by cases he
        · exact h.fill (fun he => by cases he) offset k hk
      · exact List.nodup_cons.2 ⟨fun hmem => h.full _ hmem hnull, h.distinct⟩
    · exact h.go rfl hused trivial hwrap h.full h.distinct
  · refine h.go rfl h.used trivial (by simp [hpc]) (fun k hk => ?_) (h.distinct.filter _)
    obtain ⟨hk, hne⟩ := List.mem_filter.1 hk
    show Function.update t.shared.cidArray offset .null k ≠ .null
    rw [Function.update_of_ne (by simpa using hne)]
    exact h.full k hk
  · exact h.go rfl h.used trivial (by simp [hpc]) (h.fill (fun he => by cases he) offset) h.distinct

theorem Inv.kept (h : Inv t) : Kept t where
  used := h.used
  cursor := h.cursor
  returns he := by
    obtain ⟨i, offset, addr, hi⟩ := h.waits he
    refine ⟨i, offset, addr, hi, fun t' hs => ?_⟩
    obtain ⟨s, p, hstep, rfl⟩ := Program.machine_step hs
    rw [hi] at hstep
    cases hstep
    exact if_pos he
  distinct := h.distinct

end inv

/-- As long as no increment falls between another one and its wrap, slots are used inside the table
only, the cursor comes back from the end, and no two calls have the same slot. -/
theorem kept_of_wrapped {t : Threads SlotTable Pc} (h : program.machine.ReachUnder Wrapped t) :
    Kept t := by
  refine (h.invariant (I := Inv) ?_ fun t a t' hI hc hs => hI.step hc hs).kept
  rintro t ⟨⟨hcur, hused, htaken⟩, hstart⟩
  refine ⟨by simp [hused], Nat.le_of_lt hcur, fun i => ?_, fun he => absurd he (Nat.ne_of_lt hcur),
    by simp [htaken], by simp [htaken]⟩
  rw [hstart i]
  trivial

/-- An empty table with the cursor at its last slot. -/
def atEnd : Threads SlotTable Pc := ⟨⟨fun _ => .null, 1048575, [], []⟩, fun _ => .idle⟩

theorem atEnd_init : program.machine.init atEnd := ⟨⟨by decide, rfl, rfl⟩, fun _ => rfl⟩

/-- Two calls one after the other: the last slot, then slot 1. -/
theorem kept_of_wrapped_twice :
    ∃ t, program.machine.ReachUnder Wrapped t ∧ t.shared.taken = [1, 1048575] ∧ Kept t := by
  have hrun : ((program.machine.runUnder Wrapped atEnd
      [(0, .create 7), (0, .go), (1, .create 9), (0, .go), (1, .go), (1, .go)]).map
        (·.shared.taken)) = some [1, 1048575] := by
    decide +kernel
  obtain ⟨t, ht, htaken⟩ := Option.map_eq_some_iff.1 hrun
  have hreach := Machine.ReachUnder.run (.init atEnd_init) ht
  exact ⟨t, hreach, htaken, kept_of_wrapped hreach⟩

/-- Two calls increment the cursor at the last slot before either wraps it. -/
theorem exists_slot_past_end : ¬ ∀ t, program.machine.Reach t → Kept t := by
  intro h
  have hrun : ((program.machine.run atEnd
      [(0, .create 7), (1, .create 9), (0, .go), (1, .go), (0, .go), (1, .go)]).map (·.shared.used)) =
        some [1048576, 1048575] := by
    decide +kernel
  obtain ⟨t, ht, hused⟩ := Option.map_eq_some_iff.1 hrun
  have hlt := (h t (Machine.ReachUnder.run (M := program.machine) (.init atEnd_init) ht)).used
    1048576 (by rw [hused]; simp)
  exact absurd hlt (by decide)

/-- A call that nobody disturbs does what `create_connectionID` does. -/
theorem alone (s : Endpoint) (addr : Nat) (used taken : List Nat) :
    (((step ⟨s.cidArray, s.cidArrayOffset, used, taken⟩ .idle (.create addr)).bind fun r =>
      step r.1 r.2 .go).bind
      fun r => step r.1 r.2 .go).map (fun r => (r.1.cidArray, r.1.cidArrayOffset)) =
      some ((s.createConnectionID addr).2.cidArray, (s.createConnectionID addr).2.cidArrayOffset) := by
  cases he : s.cidArray s.cidArrayOffset with
  | null => simp [step, Endpoint.createConnectionID, he, fill, Endpoint.setSlot]
  | suspend | con _ => simp [step, Endpoint.createConnectionID, he]

end SlotTable

end Resend.Udp

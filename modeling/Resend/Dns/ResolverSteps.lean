import Resend.Dns.Inflight

/-!
# What a handler does

Each handler on a state with `Inv`: the state it ends in, or when it breaks a contract (`Trips`).
-/

namespace Resend.Dns.Resolver

set_option linter.unusedSectionVars false
variable {ι κ ρ : Type} [DecidableEq ι] [DecidableEq κ] [DecidableEq ρ]
variable {s s' : Resolver ι κ ρ} {r r' : ρ} {q q' : Req κ} {k k' : κ} {c c' : IoChannel ι ρ}
  {a : Answer}

@[simp] theorem setReq_req : (s.setReq r q).req = Function.update s.req r (some q) := rfl
@[simp] theorem setReq_io : (s.setReq r q).io = s.io := rfl
@[simp] theorem setIo_req : (s.setIo k c).req = s.req := rfl
@[simp] theorem setIo_io : (s.setIo k c).io = Function.update s.io k (some c) := rfl

theorem setReq_setReq : (s.setReq r q).setReq r q' = s.setReq r q' := by
  unfold setReq
  rw [Function.update_idem]

theorem setReq_setIo_setReq : ((s.setReq r q).setIo k c).setReq r q' = (s.setIo k c).setReq r q' := by
  unfold setReq setIo
  rw [Function.update_idem]

theorem sound_congr (h : ∀ x ∈ c.requests, (s'.req x).isSome = (s.req x).isSome) :
    s'.Sound c ↔ s.Sound c :=
  forall₂_congr fun x hx => by rw [h x hx]

theorem isSome_setReq (q' : Req κ) (hq : s.req r = some q) (x : ρ) :
    ((s.setReq r q').req x).isSome = (s.req x).isSome := by
  rw [setReq_req]
  rcases eq_or_ne x r with rfl | hne
  · rw [Function.update_self, hq]
    rfl
  · rw [Function.update_of_ne hne]

theorem unschedule_eq (hq : s.req r = some q) (hk : s.io q.io = some c) (hin : r ∈ c.requests) :
    s.unschedule r =
      if q.event = some .timer ∧ s.Sound c then
        some ((s.setReq r { q with event := none }).setIo q.io
          { c with requests := c.requests.erase r })
      else none := by
  unfold unschedule delWatch hashDel
  simp only [hq, Option.bind_eq_bind, Option.bind_some]
  by_cases he : q.event = some .timer
  · rw [if_pos he, Option.bind_some]
    simp only [setReq_io, hk]
    have hsound := sound_congr (c := c) fun x _ => isSome_setReq { q with event := none } hq x
    by_cases hs : s.Sound c
    · rw [if_pos ⟨hsound.2 hs, hin⟩, if_pos ⟨he, hs⟩]
    · rw [if_neg fun h => hs (hsound.1 h.1), if_neg fun h => hs h.2]
  · rw [if_neg he, if_neg fun h => he h.1]
    rfl

/-- `req->state = RDNS_REQUEST_REPLIED`, `rdns_request_unschedule`, `req->func` and the release of
the request. -/
theorem finish_eq (h : s.Inv) (hq : s.req r = some q) (hk : s.io q.io = some c) :
    (do
      let s ← s.replied r
      let s ← s.unschedule r
      s.answer r a) =
      if q.event = some .timer ∧ s.Sound c then
        some { s.remove r q.io c (c.requests.erase r) with called := Function.update s.called r [a] }
      else none := by
  have hin := (h.listed_iff hq hk).2 rfl
  have hquiet := (h.req r q hq).quiet
  have hok := h.io _ _ hk
  obtain ⟨hone, -⟩ := h.refs_ge hq hk
  have hrep : s.replied r = some (s.setReq r { q with state := .replied }) := by
    unfold replied
    rw [hq]
    rfl
  have hq₁ : (s.setReq r { q with state := .replied }).req r = some { q with state := .replied } :=
    Function.update_self ..
  have hsound := sound_congr (c := c) fun x _ => isSome_setReq { q with state := .replied } hq x
  rw [hrep]
  show (unschedule _ r >>= _) = _
  rw [unschedule_eq hq₁ hk hin]
  by_cases hc : q.event = some .timer ∧ s.Sound c
  · rw [if_pos ⟨hc.1, hsound.2 hc.2⟩, if_pos hc, setReq_setReq]
    -- the last reference was that of the request alone
    have hlast : c.refs = 1 → c.requests.erase r = [] := fun hrefs => by
      have hcount := hok.refs
      have hall : s.alive c = c.requests := List.filter_eq_self.2 hc.2
      have hlen : c.requests.length = 1 := by
        have := List.length_pos_of_mem hin
        rw [hall] at hcount
        omega
      obtain ⟨x, hx⟩ := List.length_eq_one_iff.1 hlen
      rw [hx, List.mem_singleton] at hin
      rw [hx, hin, List.erase_cons_head]
    show answer _ r a = _
    unfold answer requestFree releaseIo
    simp only [setIo_req, setReq_req, setIo_io, setReq_io, Function.update_self,
      Option.bind_eq_bind, Option.bind_some, reduceCtorEq, if_false]
    by_cases hrefs : c.refs = 1
    · have hself : ∀ x ∈ c.requests.erase r, some x = some r := by
        rw [hlast hrefs]
        simp
      simp only [if_pos hrefs, if_pos hself, Option.bind_some, Function.update_idem, remove, setIo,
        setReq, hquiet, List.nil_append]
    · simp only [if_neg hrefs, Option.bind_some, Function.update_idem, remove, setIo,
        setReq, hquiet, List.nil_append]
  · rw [if_neg fun h => hc ⟨h.1, hsound.1 h.2⟩, if_neg hc]
    rfl

/-! ## Ids -/

/-- A request of the channel has the id. -/
def UsedId (s : Resolver ι κ ρ) (c : IoChannel ι ρ) (i : Nat) : Prop :=
  ∃ x ∈ c.requests, ∃ q, s.req x = some q ∧ q.id = i

/-- All the ids that are tried are used. -/
def Exhausted (s : Resolver ι κ ρ) (c : IoChannel ι ρ) (rand : Nat → Nat) (id : Nat) : Prop :=
  s.UsedId c id ∧ ∀ m < MAX_ID_CYCLES, s.UsedId c (rand m)

theorem hashFind_eq (hk : s.io k = some c) (hs : s.Sound c) (i : Nat) :
    s.hashFind k i = some (c.requests.find? fun x => (s.req x).any fun q => q.id = i) := by
  unfold hashFind
  rw [hk]
  exact if_pos hs

theorem hashFind_none (hk : s.io k = some c) (hs : ¬s.Sound c) (i : Nat) : s.hashFind k i = none := by
  unfold hashFind
  rw [hk]
  exact if_neg hs

theorem find?_isNone_iff (i : Nat) :
    (c.requests.find? fun x => (s.req x).any fun q => q.id = i).isNone = true ↔ ¬s.UsedId c i := by
  rw [Option.isNone_iff_eq_none, List.find?_eq_none]
  unfold UsedId
  constructor
  · rintro hall ⟨x, hx, q, hq, rfl⟩
    refine hall x hx ?_
    rw [hq]
    exact decide_eq_true rfl
  · intro hnone x hx hany
    cases hq : s.req x with
    | none =>
      rw [hq] at hany
      cases hany
    | some q =>
      rw [hq] at hany
      exact hnone ⟨x, hx, q, hq, of_decide_eq_true hany⟩

theorem uniqueId_spec (rand : Nat → Nat) (hk : s.io k = some c) (hs : s.Sound c) (n id : Nat) :
    ∃ i, s.uniqueId k rand n id = some (i, true) ∧ ¬s.UsedId c i ∧
      ¬(s.UsedId c id ∧ ∀ m < n, s.UsedId c (rand m)) ∨
      s.uniqueId k rand n id = some (i, false) ∧ s.UsedId c id ∧ ∀ m < n, s.UsedId c (rand m) := by
  induction n generalizing id with
  | zero =>
    unfold uniqueId
    rw [hashFind_eq hk hs]
    refine ⟨id, ?_⟩
    by_cases hu : s.UsedId c id
    · right
      refine ⟨?_, hu, fun m hm => absurd hm (Nat.not_lt_zero m)⟩
      have := mt (find?_isNone_iff (s := s) (c := c) id).1 (not_not.2 hu)
      exact congrArg (fun b => some (id, b)) (Bool.eq_false_iff.2 this)
    · exact .inl ⟨congrArg (fun b => some (id, b)) ((find?_isNone_iff id).2 hu),
        hu, fun hall => hu hall.1⟩
  | succ n ih =>
    unfold uniqueId
    rw [hashFind_eq hk hs]
    simp only [Option.bind_eq_bind, Option.bind_some]
    by_cases hu : s.UsedId c id
    · have hnot := mt (find?_isNone_iff (s := s) (c := c) id).1 (not_not.2 hu)
      rw [if_neg hnot]
      obtain ⟨i, ⟨he, hi, hnot⟩ | ⟨he, hn, hall⟩⟩ := ih (rand n)
      · refine ⟨i, .inl ⟨he, hi, fun hall =>
          hnot ⟨hall.2 n (Nat.lt_succ_self n), fun m hm => hall.2 m (by omega)⟩⟩⟩
      · refine ⟨i, .inr ⟨he, hu, fun m hm => ?_⟩⟩
        rcases Nat.lt_succ_iff_lt_or_eq.1 hm with hlt | rfl
        · exact hall m hlt
        · exact hn
    · exact ⟨id, .inl ⟨if_pos ((find?_isNone_iff id).2 hu), hu, fun hall => hu hall.1⟩⟩

theorem uniqueId_none (rand : Nat → Nat) (hk : s.io k = some c) (hs : ¬s.Sound c) (n id : Nat) :
    s.uniqueId k rand n id = none := by
  cases n <;> unfold uniqueId <;> rw [hashFind_none hk hs] <;> rfl

/-- The request as it is in the hash after it has been sent, or while it waits to be. -/
def begun (q : Req κ) (i : Nat) (sent : SendResult) : Req κ :=
  if sent = .out then { q with id := i, event := some .timer, state := .sent }
  else { q with id := i, event := some .write }

/-- `rdns_send_request` for a request that is not in a hash. -/
theorem sendRequest_spec (rand : Nat → Nat) (sent : SendResult) (hq : s.req r = some q)
    (hk : s.io q.io = some c) :
    (¬s.Sound c ∧ s.sendRequest r true rand sent = none) ∨
      (s.Sound c ∧ (sent = .failed ∨ s.Exhausted c rand q.id) ∧
        ∃ i, s.sendRequest r true rand sent = some (s.setReq r { q with id := i }, -1)) ∨
      (s.Sound c ∧ sent ≠ .failed ∧ ¬s.Exhausted c rand q.id ∧ ∃ i, ¬s.UsedId c i ∧
        s.sendRequest r true rand sent =
          some ((s.setIo q.io { c with requests := r :: c.requests }).setReq r (begun q i sent),
            if sent = .out then 1 else 0)) := by
  unfold sendRequest
  simp only [hq, Option.bind_eq_bind, Option.bind_some, if_true]
  by_cases hs : s.Sound c
  · right
    have hadd : ∀ i, (s.setReq r { q with id := i }).hashAdd q.io r =
        some ((s.setReq r { q with id := i }).setIo q.io { c with requests := r :: c.requests }) := by
      intro i
      have hsound := sound_congr (c := c) fun x _ => isSome_setReq { q with id := i } hq x
      unfold hashAdd
      rw [setReq_io, hk]
      exact if_pos (hsound.2 hs)
    obtain ⟨i, ⟨hi, hu, hex⟩ | ⟨hi, hu⟩⟩ := uniqueId_spec rand hk hs MAX_ID_CYCLES q.id
    · rw [hi]
      simp only [Option.bind_some, if_true]
      cases sent with
      | failed => exact .inl ⟨hs, .inl rfl, i, rfl⟩
      | again =>
        refine .inr ⟨hs, by decide, hex, i, hu, ?_⟩
        simp only [hadd, Option.bind_some, begun, reduceCtorEq, if_false]
        exact congrArg (fun t => some (t, (0 : Int))) setReq_setIo_setReq
      | out =>
        refine .inr ⟨hs, by decide, hex, i, hu, ?_⟩
        simp only [hadd, Option.bind_some, begun, if_true]
        exact congrArg (fun t => some (t, (1 : Int))) setReq_setIo_setReq
    · rw [hi]
      exact .inl ⟨hs, .inr hu, i, rfl⟩
  · refine .inl ⟨hs, ?_⟩
    rw [uniqueId_none rand hk hs]
    rfl

/-! ## The selection of a channel -/

/-- `uses ++` -/
def used (c : IoChannel ι ρ) : IoChannel ι ρ := { c with uses := (c.uses + 1) % 2 ^ 64 }

/-- The channel that is selected by the number `n`. -/
def picks (s : Resolver ι κ ρ) (n : Nat) : Option κ := do
  let (serv, _) ← s.servers.select
  (s.channels serv)[n % (s.channels serv).length]?

theorem selectIo_none (h : s.servers.select = none) (n : Nat) : s.selectIo n = none := by
  unfold selectIo
  rw [h]
  rfl

theorem selectIo_eq {serv : ι} {servers' : Upstream ι} {n : Nat}
    (h : s.servers.select = some (serv, servers'))
    (hp : (s.channels serv)[n % (s.channels serv).length]? = some k) (hk : s.io k = some c) :
    s.selectIo n = some ({ s with servers := servers' }.setIo k (used c), k) := by
  unfold selectIo
  simp only [h, Option.bind_eq_bind, Option.bind_some, hp, hk, used]

theorem Inv.pick (h : s.Inv) {serv : ι} {servers' : Upstream ι}
    (hs : s.servers.select = some (serv, servers')) (n : Nat) :
    ∃ k c, (s.channels serv)[n % (s.channels serv).length]? = some k ∧ s.picks n = some k ∧
      s.io k = some c ∧ c.srv = serv ∧
      c.active = true := by
  have hsel := Upstream.select_some hs
  have hmem := (Upstream.mem_live.1 hsel.draw.mem).1
  rw [Upstream.revived_order] at hmem
  have hpos := List.length_pos_iff.2 (h.channels serv hmem)
  have hlt := Nat.mod_lt n hpos
  have hget := List.getElem?_eq_getElem hlt
  obtain ⟨c, hc, hsrv⟩ := h.slot serv _ (List.mem_of_getElem? hget)
  refine ⟨_, c, hget, ?_, hc, hsrv, (h.io _ c hc).slot.2 (hsrv.symm ▸ List.mem_of_getElem? hget)⟩
  unfold picks
  rw [hs]
  exact hget

/-! ## The steps -/

/-- The request is answered and freed. -/
def conclude (s : Resolver ι κ ρ) (r : ρ) (k : κ) (c : IoChannel ι ρ) (rest : List ρ) (a : Answer)
    (servers' : Upstream ι) :
    Resolver ι κ ρ :=
  { s.remove r k c rest with called := Function.update s.called r [a], servers := servers' }

/-- What the handlers do when they run through. -/
inductive Does (s : Resolver ι κ ρ) : Act ι κ ρ → Resolver ι κ ρ → Prop
  | notMade {r id repeats n rand sent serv servers' k c}
      (hsel : s.servers.select = some (serv, servers')) (hk : s.io k = some c) :
      Does s (.make r id repeats n rand sent)
        (({ s with servers := servers' }.setIo k (used c)).issue r)
  | made {r id repeats n rand sent serv servers' k c i}
      (hsel : s.servers.select = some (serv, servers')) (hk : s.io k = some c)
      (hact : c.active = true) (hs : s.Sound c) (hu : ¬s.UsedId c i) (hsent : sent ≠ .failed) :
      Does s (.make r id repeats n rand sent)
        ((({ s with servers := servers' }.setIo k (used c)).issue r).enter r
          (begun ⟨k, id, .new, repeats, none⟩ i sent) (used c))
  | unknown {k id accepted c} (hk : s.io k = some c) : Does s (.read k id accepted) (s.setIo k (used c))
  | refused {k id} : Does s (.read k id false) s
  | answered {k i r q c} (hq : s.req r = some q) (hk : s.io q.io = some c) (hs : s.Sound c) :
      Does s (.read k (some i) true)
        (s.conclude r q.io c (c.requests.erase r) .reply (s.servers.ok c.srv))
  | timedOut {r now n rand sent q c} (hq : s.req r = some q) (hleft : q.left = 0)
      (hk : s.io q.io = some c) (hs : s.Sound c) :
      Does s (.timer r now n rand sent)
        (s.conclude r q.io c (c.requests.erase r) .timeout (s.servers.fail c.srv now))
  | rearmed {r now n rand q} (hq : s.req r = some q) (hleft : q.left ≠ 0) :
      Does s (.timer r now n rand .out) (s.setReq r { q with retransmits := q.left })
  | blocked {r now n rand q} (hq : s.req r = some q) (hleft : q.left ≠ 0) :
      Does s (.timer r now n rand .again)
        (s.setReq r { q with retransmits := q.left, event := some .write, state := .registered })
  | gaveUp {r now n rand q c} (hq : s.req r = some q) (hleft : q.left ≠ 0)
      (hk : s.io q.io = some c) (hs : s.Sound c) :
      Does s (.timer r now n rand .failed)
        (s.conclude r q.io c (c.requests.erase r) .neterr (s.servers.fail c.srv now))
  | moved {r now n rand q c serv servers' k c' i} (hq : s.req r = some q) (hleft : q.left ≠ 0)
      (hk : s.io q.io = some c) (hact : c.active = false) (hs : s.Sound c)
      (hsel : s.servers.select = some (serv, servers')) (hk' : s.io k = some c')
      (hact' : c'.active = true) (hs' : s.Sound c') (hu : ¬s.UsedId c' i) :
      Does s (.timer r now n rand .out)
        (({ s.remove r q.io c (c.requests.erase r) with servers := servers' }.setIo k (used c')).enter r
          ⟨k, i, .sent, q.left, some .timer⟩ (used c'))
  | resent {r now q} (hq : s.req r = some q) :
      Does s (.writable r now .out) (s.setReq r { q with event := some .timer, state := .sent })
  | waits {r now q} (hq : s.req r = some q) :
      Does s (.writable r now .again) (s.setReq r { q with event := some .write, state := .registered })
  | dropped {r now q c} (hq : s.req r = some q) (hk : s.io q.io = some c) :
      Does s (.writable r now .failed)
        (s.conclude r q.io c c.requests .neterr (s.servers.fail c.srv now))
  | replaced {serv i new maxIocUses k c} (hi : (s.channels serv)[i]? = some k) (hk : s.io k = some c)
      (hempty : c.refs = 1 → c.requests = []) :
      Does s (.refresh serv i new maxIocUses)
        { s with
          channels := Function.update s.channels serv ((s.channels serv).set i new)
          io := Function.update (Function.update s.io new (some ⟨serv, true, [], 0, 1⟩)) k
            (if c.refs = 1 then none else some { c with active := false, refs := c.refs - 1 }) }
  | kept {serv i new maxIocUses} : Does s (.refresh serv i new maxIocUses) s
  | rescanned {now servers'} (hs : s.servers.rescan now = some servers') :
      Does s (.rescan now) { s with servers := servers' }

/-- When a handler breaks the contract of the event loop, of a hash or of a reference. -/
def Trips (s : Resolver ι κ ρ) : Act ι κ ρ → Prop
  | .make _ _ _ n _ _ =>
    s.servers.select = none ∨ ∃ k c, s.picks n = some k ∧ s.io k = some c ∧ ¬s.Sound c
  | .read k id accepted => ∃ i c, id = some i ∧ s.io k = some c ∧
      (¬s.Sound c ∨ accepted = true ∧ ∃ r ∈ c.requests, ∃ q, s.req r = some q ∧
        q.id = i ∧ q.event = some .write)
  | .timer r _ n rand sent => ∃ q c, s.req r = some q ∧ s.io q.io = some c ∧
      (¬s.Sound c ∧ (q.left = 0 ∨ c.active = false ∨ sent = .failed) ∨
        q.left ≠ 0 ∧ c.active = false ∧ (s.servers.select = none ∨ sent ≠ .out ∨
          ∃ k c', s.picks n = some k ∧ s.io k = some c' ∧ (¬s.Sound c' ∨ s.Exhausted c' rand q.id)))
  | .writable r _ sent =>
    sent = .failed ∧ ∃ q c, s.req r = some q ∧ s.io q.io = some c ∧ c.refs = 1 ∧ c.requests ≠ [r]
  | .refresh serv i _ maxIocUses => ∃ k c, (s.channels serv)[i]? = some k ∧ s.io k = some c ∧
      (0 < maxIocUses ∧ maxIocUses < c.uses) ∧ c.refs = 1 ∧ c.requests ≠ []
  | .rescan _ => s.servers.order = []

/-- A handler trips, or it does what it is there for. -/
def Runs (s : Resolver ι κ ρ) (a : Act ι κ ρ) : Prop :=
  s.Trips a ∧ s.act a = none ∨ ¬s.Trips a ∧ ∃ s', s.act a = some s' ∧ s.Does a s'

theorem ok_order (u : Upstream ι) (v : ι) : (u.ok v).order = u.order := rfl

theorem processRead_runs (h : s.Inv) {id : Option Nat} {accepted : Bool}
    (hen : s.Enabled (.read k id accepted)) :
    s.Runs (.read k id accepted) := by
  obtain ⟨c, hk⟩ := Option.isSome_iff_exists.1 hen
  unfold Runs act processRead
  cases id with
  | none =>
    refine .inr ⟨?_, _, ?_, .unknown hk⟩
    · rintro ⟨i, c', hi, -⟩
      cases hi
    · simp only [Option.bind_eq_bind, Option.bind_some, hk]
      rfl
  | some i =>
    by_cases hs : s.Sound c
    · simp only [hashFind_eq hk hs, Option.bind_eq_bind, Option.bind_some]
      cases hfind : c.requests.find? fun x => (s.req x).any fun q => q.id = i with
      | none =>
        refine .inr ⟨?_, _, ?_, .unknown hk⟩
        · rintro ⟨i', c', hi, hc', hbad⟩
          cases hi
          rw [hk] at hc'
          cases hc'
          rcases hbad with hbad | ⟨-, r, hr, q, hq, hid, -⟩
          · exact hbad hs
          · have hno := (find?_isNone_iff (s := s) (c := c) i).1 (by rw [hfind]; rfl)
            exact hno ⟨r, hr, q, hq, hid⟩
        · simp only [hk]
          rfl
      | some r =>
        have hr := List.mem_of_find?_eq_some hfind
        have hany := List.find?_some hfind
        obtain ⟨q, hq⟩ := Option.isSome_iff_exists.1 (hs r hr)
        rw [hq] at hany
        have hid : q.id = i := of_decide_eq_true hany
        obtain ⟨hio, hu⟩ := (h.io k c hk).own r hr q hq
        subst hio
        cases accepted with
        | false =>
          refine .inr ⟨?_, s, rfl, .refused⟩
          rintro ⟨i', c', -, hc', hbad⟩
          rw [hk] at hc'
          cases hc'
          rcases hbad with hbad | ⟨hacc, -⟩
          · exact hbad hs
          · cases hacc
        | true =>
          have hfin := finish_eq (a := .reply) (h.servers _ (ok_order s.servers c.srv)) hq hk
          simp only [if_true, hq, hk, Option.bind_some]
          simp only [Option.bind_eq_bind] at hfin
          have hs' : Sound { s with servers := s.servers.ok c.srv } c := hs
          rcases (h.req r q hq).watched with ⟨-, he⟩ | ⟨-, he⟩
          · refine .inr ⟨?_, _, hfin.trans (if_pos ⟨he, hs'⟩), .answered hq hk hs⟩
            rintro ⟨i', c', hi, hc', hbad⟩
            cases hi
            rw [hk] at hc'
            cases hc'
            rcases hbad with hbad | ⟨-, r', hr', q', hq', hid', he'⟩
            · exact hbad hs
            · have hrr := hu r' hr' q' hq' (hid'.trans hid.symm)
              subst hrr
              rw [hq] at hq'
              cases hq'
              rw [he] at he'
              cases he'
          · refine .inl ⟨⟨i, c, rfl, hk, .inr ⟨rfl, r, hr, q, hq, hid, he⟩⟩,
              hfin.trans (if_neg fun hc => ?_)⟩
            rw [he] at hc
            cases hc.1
    · refine .inl ⟨⟨i, c, rfl, hk, .inl hs⟩, ?_⟩
      simp only [hashFind_none hk hs, Option.bind_eq_bind, Option.bind_none]

theorem any_event {w : Watch} (hen : (s.req r).any (fun q => q.event = some w) = true) :
    ∃ q, s.req r = some q ∧ q.event = some w := by
  obtain ⟨q, hq, he⟩ := (Option.any_eq_true ..).1 hen
  exact ⟨q, hq, of_decide_eq_true he⟩

theorem delWatch_eq (hq : s.req r = some q) {w : Watch} (he : q.event = some w) :
    s.delWatch r w = some (s.setReq r { q with event := none }) := by
  unfold delWatch
  rw [hq]
  exact if_pos he

theorem sendRequest_old (hq : s.req r = some q) (rand : Nat → Nat) (sent : SendResult) :
    s.sendRequest r false rand sent =
      some (s, match sent with | .again => 0 | .failed => -1 | .out => 1) := by
  unfold sendRequest
  simp only [hq, Option.bind_eq_bind, Option.bind_some, Bool.false_eq_true, if_false]
  cases sent <;> rfl

/-- `rdns_request_free` of an answered request that the hash still has. -/
theorem answer_eq (h : s.Inv) (hq : s.req r = some q) (hk : s.io q.io = some c) (s₁ : Resolver ι κ ρ)
    (hs₁ : s₁.req r = some { q with state := .replied, event := none }) (hio : s₁.io = s.io)
    (hcalled : s₁.called r = [])
    (hoff : Function.update s₁.req r none = Function.update s.req r none) :
    s₁.answer r a =
      if c.refs = 1 ∧ c.requests ≠ [r] then none
      else some { s₁ with
        req := Function.update s.req r none
        io := Function.update s.io q.io (if c.refs = 1 then none
          else some { c with requests := c.requests, refs := c.refs - 1 })
        called := Function.update s₁.called r [a] } := by
  have hin := (h.listed_iff hq hk).2 rfl
  have hnd := (h.io _ _ hk).nodup
  have hall : (∀ x ∈ c.requests, some x = some r) ↔ c.requests = [r] := by
    constructor
    · intro hall
      have hlen : c.requests.length ≤ 1 := by
        by_contra hlt
        have h0 := hall _ (List.getElem_mem (show 0 < c.requests.length by omega))
        have h1 := hall _ (List.getElem_mem (show 1 < c.requests.length by omega))
        have := (List.Nodup.getElem_inj_iff hnd).1
          ((Option.some.inj h0).trans (Option.some.inj h1).symm)
        omega
      obtain ⟨x, hx⟩ := List.length_eq_one_iff.1 (show c.requests.length = 1 by
        have := List.length_pos_of_mem hin
        omega)
      rw [hx, List.mem_singleton] at hin
      rw [hx, hin]
    · intro he x hx
      rw [he, List.mem_singleton] at hx
      rw [hx]
  unfold answer requestFree releaseIo
  simp only [hs₁, hio, hk, Option.bind_eq_bind, Option.bind_some, reduceCtorEq, if_false,
    hcalled, List.nil_append, setIo]
  by_cases hrefs : c.refs = 1
  · by_cases hone : c.requests = [r]
    · have hcond : ¬(c.refs = 1 ∧ c.requests ≠ [r]) := fun hc => hc.2 hone
      simp only [if_pos hrefs, if_pos (hall.2 hone), if_neg hcond, Option.bind_some, hoff]
    · have hcond : c.refs = 1 ∧ c.requests ≠ [r] := ⟨hrefs, hone⟩
      simp only [if_pos hrefs, if_neg fun hc => hone (hall.1 hc), if_pos hcond, Option.bind_none]
  · have hcond : ¬(c.refs = 1 ∧ c.requests ≠ [r]) := fun hc => hrefs hc.1
    simp only [if_neg hrefs, if_neg hcond, Option.bind_some, hoff]

theorem processRetransmit_runs (h : s.Inv) {now : Int} {sent : SendResult}
    (hen : s.Enabled (.writable r now sent)) :
    s.Runs (.writable r now sent) := by
  obtain ⟨q, hq, he⟩ := any_event hen
  obtain ⟨c, hk, -⟩ := (h.req r q hq).listed
  have hq₁ : (s.setReq r { q with event := none }).req r = some { q with event := none } :=
    Function.update_self ..
  unfold Runs act processRetransmit
  simp only [delWatch_eq hq he, Option.bind_eq_bind, Option.bind_some, sendRequest_old hq₁, hq₁]
  cases sent with
  | out =>
    refine .inr ⟨(by rintro ⟨hbad, -⟩; cases hbad), _, rfl, ?_⟩
    simp only [setReq_setReq]
    exact .resent hq
  | again =>
    refine .inr ⟨(by rintro ⟨hbad, -⟩; cases hbad), _, rfl, ?_⟩
    simp only [setReq_setReq]
    exact .waits hq
  | failed =>
    have hfail : (s.setReq r { q with event := none }).failServer q.io now =
        some { s.setReq r { q with event := none } with servers := s.servers.fail c.srv now } := by
      unfold failServer
      rw [setReq_io, hk]
      rfl
    have hrep : replied
        { s.setReq r { q with event := none } with servers := s.servers.fail c.srv now } r =
          some { s.setReq r { q with state := .replied, event := none } with
            servers := s.servers.fail c.srv now } := by
      unfold replied
      dsimp only
      rw [hq₁]
      exact congrArg (fun t : Resolver ι κ ρ =>
        some { t with servers := s.servers.fail c.srv now }) setReq_setReq
    have hans := answer_eq (a := .neterr) h hq hk
        { s.setReq r { q with state := .replied, event := none } with
      servers := s.servers.fail c.srv now } (Function.update_self ..) rfl (h.req r q hq).quiet
        (Function.update_idem ..)
    simp only [hfail, hrep, Option.bind_some]
    show (s.Trips _ ∧ answer _ r .neterr = none) ∨ ¬s.Trips _ ∧ ∃ s', answer _ r .neterr = some s' ∧ _
    rw [hans]
    by_cases hbad : c.refs = 1 ∧ c.requests ≠ [r]
    · exact .inl ⟨⟨rfl, q, c, hq, hk, hbad⟩, if_pos hbad⟩
    · refine .inr ⟨?_, _, if_neg hbad, .dropped hq hk⟩
      rintro ⟨-, q', c', hq', hk', hbad'⟩
      rw [hq] at hq'
      cases hq'
      rw [hk] at hk'
      cases hk'
      exact hbad hbad'

theorem refreshIo_runs (h : s.Inv) {serv : ι} {i : Nat} {new : κ} {maxIocUses : Nat}
    (hen : s.Enabled (.refresh serv i new maxIocUses)) : s.Runs (.refresh serv i new maxIocUses) := by
  obtain ⟨hserv, hi, hnew⟩ := hen
  have hget := List.getElem?_eq_getElem hi
  obtain ⟨c, hk, hsrv⟩ := h.slot serv _ (List.mem_of_getElem? hget)
  generalize (s.channels serv)[i] = k at hget hk
  have hne : k ≠ new := fun he => by
    rw [he, hnew] at hk
    cases hk
  unfold Runs act refreshIo
  simp only [hget, hk, Option.bind_eq_bind, Option.bind_some]
  by_cases huse : 0 < maxIocUses ∧ maxIocUses < c.uses
  · rw [if_pos huse]
    have hrel : ∀ t : Resolver ι κ ρ, t.io = Function.update s.io new (some ⟨serv, true, [], 0, 1⟩) →
        (t.setIo k { c with active := false }).releaseIo k none =
          if c.refs = 1 ∧ c.requests ≠ [] then none
          else some { t with
            io := Function.update (Function.update s.io new (some ⟨serv, true, [], 0, 1⟩)) k
              (if c.refs = 1 then none else some { c with active := false, refs := c.refs - 1 }) } := by
      intro t ht
      unfold releaseIo
      simp only [setIo_io, Function.update_self, ht]
      by_cases hrefs : c.refs = 1
      · rw [if_pos hrefs]
        by_cases hnil : c.requests = []
        · rw [if_pos (by rw [hnil]; simp), if_neg fun hc => hc.2 hnil,
            if_pos hrefs, Function.update_idem]
          rfl
        · obtain ⟨x, hx⟩ := List.exists_mem_of_ne_nil _ hnil
          rw [if_neg (fun hall => by cases hall x hx), if_pos ⟨hrefs, hnil⟩]
      · rw [if_neg hrefs, if_neg fun hc => hrefs hc.1, if_neg hrefs]
        unfold setIo
        dsimp only
        rw [ht, Function.update_idem]
    rw [hrel _ rfl]
    by_cases hbad : c.refs = 1 ∧ c.requests ≠ []
    · exact .inl ⟨⟨k, c, hget, hk, huse, hbad⟩, if_pos hbad⟩
    · refine .inr ⟨?_, _, if_neg hbad, .replaced hget hk fun hrefs =>
        not_not.1 fun hne => hbad ⟨hrefs, hne⟩⟩
      rintro ⟨k', c', hget', hk', -, hbad'⟩
      rw [hget] at hget'
      cases hget'
      rw [hk] at hk'
      cases hk'
      exact hbad hbad'
  · rw [if_neg huse]
    refine .inr ⟨?_, s, rfl, .kept⟩
    rintro ⟨k', c', hget', hk', huse', -⟩
    rw [hget] at hget'
    cases hget'
    rw [hk] at hk'
    cases hk'
    exact huse huse'

theorem rescan_runs (now : Int) : s.Runs (.rescan now) := by
  have hact : s.act (.rescan now) = (s.servers.rescan now).map fun servers =>
      { s with servers := servers } := rfl
  unfold Runs
  rw [hact]
  by_cases hnil : s.servers.order = []
  · refine .inl ⟨hnil, ?_⟩
    unfold Upstream.rescan
    rw [if_pos hnil]
    rfl
  · obtain ⟨t, ht⟩ : ∃ t, s.servers.rescan now = some t := by
      unfold Upstream.rescan
      rw [if_neg hnil]
      split_ifs <;> exact ⟨_, rfl⟩
    rw [ht]
    exact .inr ⟨hnil, _, rfl, .rescanned ht⟩

/-! ## Requests that are made and requests that time out -/

theorem usedId_congr {s' : Resolver ι κ ρ} (hreq : ∀ x ∈ c.requests, s'.req x = s.req x) (i : Nat) :
    s'.UsedId c i ↔ s.UsedId c i :=
  exists_congr fun x => and_congr_right fun hx => by rw [hreq x hx]

theorem retainIo_eq (hk : s.io k = some c) :
    s.retainIo k = some (s.setIo k { c with refs := c.refs + 1 }) := by
  unfold retainIo
  rw [hk]
  rfl

theorem makeRequestFull_runs (h : s.Inv) {id repeats n : Nat} {rand : Nat → Nat} {sent : SendResult}
    (hen : s.Enabled (.make r id repeats n rand sent)) : s.Runs (.make r id repeats n rand sent) := by
  have hf := h.fresh r hen
  have hact : s.act (.make r id repeats n rand sent) = s.makeRequestFull r id repeats n rand sent := rfl
  unfold Runs
  rw [hact]
  unfold makeRequestFull
  cases hsel : s.servers.select with
  | none =>
    refine .inl ⟨.inl hsel, ?_⟩
    rw [selectIo_none hsel]
    rfl
  | some u =>
    obtain ⟨serv, servers'⟩ := u
    obtain ⟨k, c, hget, hpick, hk, -, hact⟩ := h.pick hsel n
    have hout : ∀ x ∈ c.requests, x ≠ r := fun x hx he => hf.unlisted k c hk (he ▸ hx)
    rw [selectIo_eq hsel hget hk]
    simp only [Option.bind_eq_bind, Option.bind_some]
    -- the state in which the request is sent
    set q₀ : Req κ := ⟨k, id, .new, repeats, none⟩ with hq₀
    set s₀ : Resolver ι κ ρ := ({ s with servers := servers' }.setIo k (used c)).issue r with hs₀
    have hs₁ : ({ ({ s with servers := servers' }.setIo k (used c)).setReq r q₀ with
        issued := Function.update s.issued r true } : Resolver ι κ ρ) = s₀.setReq r q₀ := rfl
    have hq₁ : (s₀.setReq r q₀).req r = some q₀ := Function.update_self ..
    have hk₁ : (s₀.setReq r q₀).io q₀.io = some (used c) := Function.update_self ..
    have hreq₁ : ∀ x ∈ c.requests, (s₀.setReq r q₀).req x = s.req x :=
      fun x hx => Function.update_of_ne (hout x hx) ..
    have hsound : (s₀.setReq r q₀).Sound (used c) ↔ s.Sound c := sound_congr (c := c) fun x hx => by
      rw [hreq₁ x hx]
    have hused : ∀ i, (s₀.setReq r q₀).UsedId (used c) i ↔ s.UsedId c i := usedId_congr hreq₁
    have hpoison : s.Trips (.make r id repeats n rand sent) ↔ ¬s.Sound c := by
      constructor
      · rintro (hnone | ⟨k', c', hpick', hk', hbad⟩)
        · rw [hsel] at hnone
          cases hnone
        · rw [hpick] at hpick'
          cases hpick'
          rw [hk] at hk'
          cases hk'
          exact hbad
      · exact fun hbad => .inr ⟨k, c, hpick, hk, hbad⟩
    show (_ ∧ ((s₀.setReq r q₀).sendRequest r true rand sent).bind _ = none) ∨
      _ ∧ ∃ s', ((s₀.setReq r q₀).sendRequest r true rand sent).bind _ = some s' ∧ _
    rcases sendRequest_spec rand sent hq₁ hk₁ with ⟨hbad, he⟩ | ⟨hs, -, i, he⟩ |
        ⟨hs, hsent, -, i, hu, he⟩
    · refine .inl ⟨hpoison.2 fun hs => hbad (hsound.2 hs), ?_⟩
      rw [he]
      rfl
    · refine .inr ⟨fun ht => hpoison.1 ht (hsound.1 hs), s₀, ?_, .notMade hsel hk⟩
      have hq₂ : ((s₀.setReq r q₀).setReq r { q₀ with id := i }).req r = some { q₀ with id := i } :=
        Function.update_self ..
      have hgone : Function.update (Function.update (Function.update s.req r (some q₀)) r
          (some { q₀ with id := i })) r none = s.req := by
        rw [Function.update_idem, Function.update_idem, ← hf.req, Function.update_eq_self]
      rw [he]
      simp only [Option.bind_some, if_true]
      unfold requestFree
      rw [hq₂]
      refine congrArg (fun f => some { s₀ with req := f }) hgone
    · refine .inr ⟨fun ht => hpoison.1 ht (hsound.1 hs), _, ?_,
        .made hsel hk hact (hsound.1 hs) (fun hi => hu ((hused i).2 hi)) hsent⟩
      have hres : (if sent = .out then (1 : Int) else 0) ≠ -1 := by
        split_ifs <;> decide
      have hio₂ : (((s₀.setReq r q₀).setIo k { used c with requests := r :: c.requests }).setReq r
        (begun q₀ i sent)).io k =
          some { used c with requests := r :: c.requests } := Function.update_self ..
      have hbegun : (begun q₀ i sent).io = k := by
        unfold begun
        split_ifs <;> rfl
      rw [he]
      simp only [Option.bind_some]
      rw [if_neg hres]
      refine (retainIo_eq hio₂).trans (congrArg some ?_)
      unfold enter setReq setIo
      rw [hbegun]
      dsimp only
      rw [Function.update_idem, Function.update_idem]
      rfl

/-- `UPSTREAM_FAIL` and the end of a request whose timer has run out. -/
theorem failFinish_eq (h : s.Inv) (hq : s.req r = some q) (hk : s.io q.io = some c)
    (he : q.event = some .timer) (now : Int) (n : Nat) :
    (do
      let s ← (s.setReq r { q with retransmits := n }).failServer q.io now
      let s ← s.replied r
      let s ← s.unschedule r
      s.answer r a) =
      if s.Sound c then some (s.conclude r q.io c (c.requests.erase r) a (s.servers.fail c.srv now))
        else none := by
  have hw := (h.req r q hq).watched
  have h₁ : (s.setReq r { q with retransmits := n }).Inv := h.touch hq rfl rfl hw
  have hq₁ : (s.setReq r { q with retransmits := n }).req r = some { q with retransmits := n } :=
    Function.update_self ..
  have hsound := sound_congr (c := c) fun x _ => isSome_setReq { q with retransmits := n } hq x
  have hfail : (s.setReq r { q with retransmits := n }).failServer q.io now =
      some { s.setReq r { q with retransmits := n } with servers := s.servers.fail c.srv now } := by
    unfold failServer
    rw [setReq_io, hk]
    rfl
  have h₂ := h₁.servers (s.servers.fail c.srv now) (Upstream.fail_order ..)
  have hfin := finish_eq (a := a) h₂ hq₁ hk
  rw [hfail]
  refine Eq.trans hfin ?_
  by_cases hs : s.Sound c
  · rw [if_pos ⟨he, hsound.2 hs⟩, if_pos hs]
    unfold conclude remove setReq
    dsimp only
    rw [Function.update_idem]
  · rw [if_neg fun hc => hs (hsound.1 hc.2), if_neg hs]

theorem leave_eq (h : s.Inv) (hq : s.req r = some q) (hk : s.io q.io = some c)
    (he : q.event = some .timer)
    (hact : c.active = false) (hs : s.Sound c) (n : Nat) :
    (do
      let s ← (s.setReq r { q with retransmits := n }).unschedule r
      s.releaseIo q.io none) =
      some { s.setReq r { q with retransmits := n, event := none } with
        io := Function.update s.io q.io
          (if c.refs = 1 then none
            else some { c with requests := c.requests.erase r, refs := c.refs - 1 }) } := by
  have hin := (h.listed_iff hq hk).2 rfl
  have hq₁ : (s.setReq r { q with retransmits := n }).req r = some { q with retransmits := n } :=
    Function.update_self ..
  have hsound := sound_congr (c := c) fun x _ => isSome_setReq { q with retransmits := n } hq x
  rw [unschedule_eq hq₁ hk hin, if_pos ⟨he, hsound.2 hs⟩, setReq_setReq]
  show releaseIo _ q.io none = _
  unfold releaseIo
  simp only [setIo_io, setReq_io, Function.update_self]
  by_cases hrefs : c.refs = 1
  · -- the last reference was that of the request
    have hcount := (h.io _ _ hk).refs
    have hall : s.alive c = c.requests := List.filter_eq_self.2 hs
    rw [hall, hact, if_neg Bool.false_ne_true, hrefs, Nat.zero_add] at hcount
    obtain ⟨x, hx⟩ := List.length_eq_one_iff.1 hcount.symm
    rw [hx, List.mem_singleton] at hin
    have hnil : c.requests.erase r = [] := by rw [hx, hin, List.erase_cons_head]
    rw [if_pos hrefs, if_pos (by rw [hnil]; simp), if_pos hrefs, Function.update_idem]
    rfl
  · rw [if_neg hrefs, if_neg hrefs]
    unfold setIo
    dsimp only
    rw [setReq_io, Function.update_idem]

theorem failFinish_none (hq : s.req r = some q) (hk : s.io k = some c) (he : q.event ≠ some .timer)
    (now : Int) :
    (do
      let s ← s.failServer k now
      let s ← s.replied r
      let s ← s.unschedule r
      s.answer r a) = none := by
  unfold failServer replied unschedule delWatch
  simp only [hk, hq, setReq_req, Function.update_self, Option.bind_eq_bind, Option.bind_some,
    if_neg he, Option.bind_none]

/-! ### A timer that runs out -/

theorem trips_timer_iff (hq : s.req r = some q) (hk : s.io q.io = some c) {now : Int} {n : Nat}
    {rand : Nat → Nat} {sent : SendResult} :
    s.Trips (.timer r now n rand sent) ↔
      ¬s.Sound c ∧ (q.left = 0 ∨ c.active = false ∨ sent = .failed) ∨
        q.left ≠ 0 ∧ c.active = false ∧ (s.servers.select = none ∨ sent ≠ .out ∨
          ∃ k c', s.picks n = some k ∧ s.io k = some c' ∧
          (¬s.Sound c' ∨ s.Exhausted c' rand q.id)) := by
  constructor
  · rintro ⟨q', c', hq', hk', ht⟩
    rw [hq] at hq'
    cases hq'
    rw [hk] at hk'
    cases hk'
    exact ht
  · exact fun ht => ⟨q, c, hq, hk, ht⟩

theorem timedOut_runs (h : s.Inv) (hq : s.req r = some q) (hk : s.io q.io = some c)
    (he : q.event = some .timer) (hz : q.left = 0) (now : Int) (n : Nat) (rand : Nat → Nat)
    (sent : SendResult) :
    s.Runs (.timer r now n rand sent) := by
  have hact : s.act (.timer r now n rand sent) = s.processTimer r now n rand sent := rfl
  have hfin := failFinish_eq (a := .timeout) h hq hk he now q.left
  unfold Runs
  rw [hact, trips_timer_iff hq hk]
  unfold processTimer
  simp only [Option.bind_eq_bind] at hfin
  simp only [hq, Option.bind_eq_bind, Option.bind_some]
  rw [if_pos hz, hfin]
  by_cases hs : s.Sound c
  · refine .inr ⟨?_, _, if_pos hs, .timedOut hq hz hk hs⟩
    rintro (⟨hbad, -⟩ | ⟨hne, -⟩)
    · exact hbad hs
    · exact hne hz
  · exact .inl ⟨.inl ⟨hs, .inl hz⟩, if_neg hs⟩

/-- The channel of the request is in use: the request is sent on it once more. -/
theorem retransmit_runs (h : s.Inv) (hq : s.req r = some q) (hk : s.io q.io = some c)
    (he : q.event = some .timer) (hz : q.left ≠ 0) (hca : c.active = true) (now : Int) (n : Nat)
    (rand : Nat → Nat) (sent : SendResult) :
    s.Runs (.timer r now n rand sent) := by
  have hact : s.act (.timer r now n rand sent) = s.processTimer r now n rand sent := rfl
  have hq₁ : (s.setReq r { q with retransmits := q.left }).req r =
      some { q with retransmits := q.left } :=
    Function.update_self ..
  have hok : s.Sound c ∨ sent ≠ .failed → ¬s.Trips (.timer r now n rand sent) := by
    intro hor ht
    rcases (trips_timer_iff hq hk).1 ht with ⟨hbad, hz' | ha | hf⟩ | ⟨-, ha, -⟩
    · exact hz hz'
    · rw [hca] at ha
      cases ha
    · exact hor.elim hbad fun hne => hne hf
    · rw [hca] at ha
      cases ha
  unfold Runs
  rw [hact]
  unfold processTimer
  simp only [hq, Option.bind_eq_bind, Option.bind_some, if_neg hz, setReq_io, hk, hca, if_true,
    sendRequest_old hq₁, hq₁]
  cases sent with
  | out =>
    refine .inr ⟨hok (.inr (by decide)), _, ?_, .rearmed hq hz⟩
    rw [if_neg (by decide), if_neg (by decide), if_pos he]
  | again =>
    have hdel := delWatch_eq hq₁ he
    refine .inr ⟨hok (.inr (by decide)), _, ?_, .blocked hq hz⟩
    rw [if_pos rfl, hdel, Option.bind_some, setReq_setReq, setReq_setReq]
  | failed =>
    have hfin := failFinish_eq (a := .neterr) h hq hk he now q.left
    simp only [Option.bind_eq_bind] at hfin
    rw [if_neg (by decide), if_pos rfl, hfin]
    by_cases hs : s.Sound c
    · exact .inr ⟨hok (.inl hs), _, if_pos hs, .gaveUp hq hz hk hs⟩
    · exact .inl ⟨(trips_timer_iff hq hk).2 (.inl ⟨hs, .inr (.inr rfl)⟩), if_neg hs⟩

/-- The request `q` has left its channel `c` and is about to be sent on the channel `c'`. -/
def moving (s : Resolver ι κ ρ) (r : ρ) (q : Req κ) (c : IoChannel ι ρ) (k : κ) (c' : IoChannel ι ρ)
    (servers' : Upstream ι) : Resolver ι κ ρ :=
  { s with
    servers := servers'
    req := Function.update s.req r (some { q with retransmits := q.left, event := none, io := k })
    io := Function.update
      (Function.update s.io q.io
        (if c.refs = 1 then none
          else some { c with requests := c.requests.erase r, refs := c.refs - 1 }))
      k (some { used c' with refs := (used c').refs + 1 }) }

section moving

variable {serv : ι} {servers' : Upstream ι}

@[simp] theorem moving_req_self : (s.moving r q c k c' servers').req r =
    some { q with retransmits := q.left, event := none, io := k } := Function.update_self ..

@[simp] theorem moving_io_self : (s.moving r q c k c' servers').io k =
    some { used c' with refs := (used c').refs + 1 } := Function.update_self ..

theorem moving_req_of_mem (hout : ∀ x ∈ c'.requests, x ≠ r) :
    ∀ x ∈ c'.requests, (s.moving r q c k c' servers').req x = s.req x :=
  fun x hx => Function.update_of_ne (hout x hx) ..

theorem sound_moving (hout : ∀ x ∈ c'.requests, x ≠ r) :
    (s.moving r q c k c' servers').Sound { used c' with refs := (used c').refs + 1 } ↔ s.Sound c' :=
  sound_congr (c := c') fun x hx => by rw [moving_req_of_mem hout x hx]

theorem usedId_moving (hout : ∀ x ∈ c'.requests, x ≠ r) (i : Nat) :
    (s.moving r q c k c' servers').UsedId { used c' with refs := (used c').refs + 1 } i ↔
      s.UsedId c' i :=
  usedId_congr (c := c') (moving_req_of_mem hout) i

theorem exhausted_moving (hout : ∀ x ∈ c'.requests, x ≠ r) {rand : Nat → Nat} {i : Nat} :
    (s.moving r q c k c' servers').Exhausted { used c' with refs := (used c').refs + 1 } rand i ↔
      s.Exhausted c' rand i :=
  and_congr (usedId_moving hout _) (forall₂_congr fun _ _ => usedId_moving hout _)

theorem enter_moving (i : Nat) :
    ((s.moving r q c k c' servers').setIo k
      { used c' with requests := r :: c'.requests, refs := (used c').refs + 1 }).setReq r
        (begun { q with retransmits := q.left, event := none, io := k } i .out) =
      ({ s.remove r q.io c (c.requests.erase r) with servers := servers' }.setIo k (used c')).enter r
        ⟨k, i, .sent, q.left, some .timer⟩ (used c') := by
  unfold moving enter remove setReq setIo begun
  simp only [Function.update_idem, if_true]
  rfl

/-- A request whose channel is no longer in use leaves it, takes another one and is sent on that. -/
theorem processTimer_moving (h : s.Inv) (hq : s.req r = some q) (hk : s.io q.io = some c)
    (he : q.event = some .timer) (hz : q.left ≠ 0) (hca : c.active = false) (hs : s.Sound c)
    {n : Nat} (hsel : s.servers.select = some (serv, servers'))
    (hget : (s.channels serv)[n % (s.channels serv).length]? = some k) (hk' : s.io k = some c')
    (hne : k ≠ q.io) (now : Int) (rand : Nat → Nat) (sent : SendResult) :
    s.processTimer r now n rand sent =
      ((s.moving r q c k c' servers').sendRequest r true rand sent).bind fun t =>
        (t.1.req r).bind fun q' =>
        if t.2 = 0 then (t.1.delWatch r .timer).bind fun s =>
          some (s.setReq r { q' with event := some .write, state := .registered })
        else if t.2 = -1 then
          (t.1.failServer q'.io now).bind fun s => (s.replied r).bind fun s =>
            (s.unschedule r).bind fun s => s.answer r .neterr
        else if q'.event = some .timer then some t.1
        else none := by
  have hleave := leave_eq h hq hk he hca hs q.left
  simp only [Option.bind_eq_bind] at hleave
  set s₁ : Resolver ι κ ρ := { s.setReq r { q with retransmits := q.left, event := none } with
    io := Function.update s.io q.io
      (if c.refs = 1 then none
        else some { c with requests := c.requests.erase r, refs := c.refs - 1 }) } with hs₁
  have hrest : ∀ {β : Type} (f : Resolver ι κ ρ → Option β),
      (((s.setReq r { q with retransmits := q.left }).unschedule r).bind fun t =>
        (t.releaseIo q.io none).bind f) = f s₁ := by
    intro β f
    rw [← Option.bind_assoc, hleave, Option.bind_some]
  have hk₁ : s₁.io k = some c' := (Function.update_of_ne hne ..).trans hk'
  set s₂ : Resolver ι κ ρ := ({ s₁ with servers := servers' }.setIo k (used c')).setReq r
    { q with retransmits := q.left, event := none, io := k } with hs₂
  have hk₂ : s₂.io k = some (used c') := Function.update_self ..
  have hmoving : s₂.setIo k { used c' with refs := (used c').refs + 1 } =
      s.moving r q c k c' servers' := by
    rw [hs₂, hs₁]
    unfold moving setReq setIo
    dsimp only
    rw [Function.update_idem, Function.update_idem]
  unfold processTimer
  simp only [hq, Option.bind_eq_bind, Option.bind_some, if_neg hz, setReq_io, hk, hca,
    Bool.false_eq_true, if_false]
  rw [hrest, selectIo_eq (s := s₁) hsel hget hk₁, Option.bind_some, retainIo_eq hk₂, hmoving]
  simp only [Option.bind_some]

/-- The channel of the request is no longer in use, and another one is taken. -/
theorem move_runs (h : s.Inv) (hq : s.req r = some q) (hk : s.io q.io = some c)
    (he : q.event = some .timer) (hz : q.left ≠ 0) (hca : c.active = false) (hs : s.Sound c)
    (hsel : s.servers.select = some (serv, servers')) (now : Int) (n : Nat) (rand : Nat → Nat)
    (sent : SendResult) : s.Runs (.timer r now n rand sent) := by
  obtain ⟨k, c', hget, hpick, hk', -, hact'⟩ := h.pick hsel n
  have hne : k ≠ q.io := fun hk₀ => by
    rw [hk₀, hk] at hk'
    cases hk'
    rw [hca] at hact'
    cases hact'
  have hout : ∀ x ∈ c'.requests, x ≠ r := fun x hx hxr => hne ((h.listed_iff hq hk').1 (hxr ▸ hx)).symm
  have hact : s.act (.timer r now n rand sent) = s.processTimer r now n rand sent := rfl
  have htrips : s.Trips (.timer r now n rand sent) ↔
      sent ≠ .out ∨ ¬s.Sound c' ∨ s.Exhausted c' rand q.id := by
    rw [trips_timer_iff hq hk]
    constructor
    · rintro (⟨hbad, -⟩ | ⟨-, -, hnone | hsent | ⟨k₀, c₀, hpick₀, hk₀, hbad⟩⟩)
      · exact absurd hs hbad
      · rw [hsel] at hnone
        cases hnone
      · exact .inl hsent
      · rw [hpick] at hpick₀
        cases hpick₀
        rw [hk'] at hk₀
        cases hk₀
        exact .inr hbad
    · exact fun ht => .inr ⟨hz, hca, .inr (ht.imp_right fun hbad => ⟨k, c', hpick, hk', hbad⟩)⟩
  have hmv : (s.moving r q c k c' servers').req r =
      some { q with retransmits := q.left, event := none, io := k } :=
    moving_req_self
  have hio : (s.moving r q c k c' servers').io k =
      some { used c' with refs := (used c').refs + 1 } := moving_io_self
  unfold Runs
  rw [hact, htrips, processTimer_moving h hq hk he hz hca hs hsel hget hk' hne]
  rcases sendRequest_spec rand sent hmv hio with ⟨hbad, hsend⟩ | ⟨hs', hcause, i, hsend⟩ |
      ⟨hs', hsent, hex, i, hu, hsend⟩
  · refine .inl ⟨.inr (.inl fun hs' => hbad ((sound_moving hout).2 hs')), ?_⟩
    rw [hsend]
    rfl
  · -- it has no timer any more that could be taken from it
    refine .inl ⟨?_, ?_⟩
    · rcases hcause with rfl | hall
      · exact .inl (by decide)
      · exact .inr (.inr ((exhausted_moving hout).1 hall))
    · have hfin := failFinish_none (a := .neterr) (s := (s.moving r q c k c' servers').setReq r
        { q with retransmits := q.left, id := i, event := none, io := k })
          (Function.update_self ..) hio (by simp) now
      simp only [Option.bind_eq_bind] at hfin
      rw [hsend]
      simp only [Option.bind_some, setReq_req, Function.update_self]
      rw [if_neg (by decide), if_pos trivial]
      exact hfin
  · rw [hsend]
    simp only [Option.bind_some, setReq_req, Function.update_self]
    cases sent with
    | failed => exact absurd rfl hsent
    | again =>
      refine .inl ⟨.inl (by decide), ?_⟩
      unfold delWatch begun
      simp only [setReq_req, Function.update_self, reduceCtorEq, if_false, if_true]
      rfl
    | out =>
      refine .inr ⟨?_, _, ?_, .moved hq hz hk hca hs hsel hk' hact' ((sound_moving hout).1 hs')
        fun hi => hu ((usedId_moving hout i).2 hi)⟩
      · rintro (hbad | hbad | hbad)
        · exact hbad rfl
        · exact hbad ((sound_moving hout).1 hs')
        · exact hex ((exhausted_moving hout).2 hbad)
      · exact congrArg some (enter_moving i)

end moving

theorem processTimer_none (h : s.Inv) (hq : s.req r = some q) (hk : s.io q.io = some c)
    (he : q.event = some .timer) (hz : q.left ≠ 0) (hca : c.active = false)
    (hbad : ¬s.Sound c ∨ s.servers.select = none) (now : Int) (n : Nat) (rand : Nat → Nat)
    (sent : SendResult) : s.processTimer r now n rand sent = none := by
  unfold processTimer
  simp only [hq, Option.bind_eq_bind, Option.bind_some, if_neg hz, setReq_io, hk, hca,
    Bool.false_eq_true, if_false]
  by_cases hs : s.Sound c
  · have hleave := leave_eq h hq hk he hca hs q.left
    simp only [Option.bind_eq_bind] at hleave
    have hnone : ∀ t : Resolver ι κ ρ, t.servers = s.servers → t.selectIo n = none := by
      intro t ht
      exact selectIo_none (by rw [ht]; exact hbad.resolve_left (not_not_intro hs)) n
    rw [← Option.bind_assoc (f := fun t => releaseIo t q.io none), hleave, Option.bind_some, hnone]
    · rfl
    · rfl
  · have hin := (h.listed_iff hq hk).2 rfl
    have hq₁ : (s.setReq r { q with retransmits := q.left }).req r =
        some { q with retransmits := q.left } :=
      Function.update_self ..
    have hsound := sound_congr (c := c) fun x _ => isSome_setReq { q with retransmits := q.left } hq x
    rw [unschedule_eq hq₁ hk hin, if_neg fun hc => hs (hsound.1 hc.2)]
    rfl

theorem processTimer_runs (h : s.Inv) {now : Int} {n : Nat} {rand : Nat → Nat} {sent : SendResult}
    (hen : s.Enabled (.timer r now n rand sent)) : s.Runs (.timer r now n rand sent) := by
  obtain ⟨q, hq, he⟩ := any_event hen
  obtain ⟨c, hk, -⟩ := (h.req r q hq).listed
  by_cases hz : q.left = 0
  · exact timedOut_runs h hq hk he hz now n rand sent
  cases hca : c.active with
  | true => exact retransmit_runs h hq hk he hz hca now n rand sent
  | false =>
    by_cases hs : s.Sound c
    · cases hsel : s.servers.select with
      | none =>
        exact .inl ⟨(trips_timer_iff hq hk).2 (.inr ⟨hz, hca, .inl hsel⟩),
          processTimer_none h hq hk he hz hca (.inr hsel) now n rand sent⟩
      | some u => exact move_runs h hq hk he hz hca hs hsel now n rand sent
    · exact .inl ⟨(trips_timer_iff hq hk).2 (.inl ⟨hs, .inr (.inl hca)⟩),
        processTimer_none h hq hk he hz hca (.inl hs) now n rand sent⟩

end Resend.Dns.Resolver

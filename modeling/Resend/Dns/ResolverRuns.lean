import Resend.Dns.ResolverSteps

/-!
# Runs of the resolver

`Inv` holds in every state that the event loop reaches, so that `Trips` says exactly which callbacks
break a contract. The servers of the resolver go through runs of their own (`reach_servers`). What
becomes of a single request is a count of how often its timer runs out (`timed_out_iff`).
-/

namespace Resend.Dns.Resolver

set_option linter.unusedSectionVars false
variable {ι κ ρ : Type} [DecidableEq ι] [DecidableEq κ] [DecidableEq ρ]
variable {s s' : Resolver ι κ ρ} {r r' : ρ} {q q' : Req κ} {k k' : κ} {c c' : IoChannel ι ρ}
  {a : Act ι κ ρ}

theorem act_runs (h : s.Inv) (hen : s.Enabled a) : s.Runs a := by
  cases a with
  | make r id repeats n rand sent => exact makeRequestFull_runs h hen
  | read k id accepted => exact processRead_runs h hen
  | timer r now n rand sent => exact processTimer_runs h hen
  | writable r now sent => exact processRetransmit_runs h hen
  | refresh serv i new maxIocUses => exact refreshIo_runs h hen
  | rescan now => exact rescan_runs now

theorem does_of_act (h : s.Inv) (hen : s.Enabled a) (hs : s.act a = some s') : s.Does a s' := by
  rcases act_runs h hen with ⟨-, hn⟩ | ⟨-, t, ht, hd⟩
  · rw [hn] at hs
    cases hs
  · rw [hs] at ht
    cases ht
    exact hd

/-! ## The invariant -/

theorem Init.inv (h : s.Init) : s.Inv := by
  have hio := fun k c => (h.io k c).1
  refine ⟨fun k c hk => ?_, fun r q hq => ?_, h.channels, fun serv k hk => ?_, h.nodup,
    fun r => ?_, fun r _ => ?_⟩
  · obtain ⟨serv, hserv, hmem, rfl⟩ := hio k c hk
    exact ⟨List.nodup_nil, rfl, Nat.one_pos, iff_of_true rfl hmem, hserv, by simp, by simp⟩
  · rw [(h.req r).1] at hq
    cases hq
  · exact ⟨⟨serv, true, [], 0, 1⟩, (h.io k _).2 ⟨serv, h.added serv k hk, hk, rfl⟩, rfl⟩
  · rw [(h.req r).2.1]
    exact Nat.zero_le 1
  · refine ⟨(h.req r).1, (h.req r).2.1, fun k c hk => ?_⟩
    obtain ⟨serv, -, -, rfl⟩ := hio k c hk
    exact List.not_mem_nil

namespace Inv
variable (h : s.Inv)
include h

theorem issued (hq : s.req r = some q) : s.issued r = true := by
  rw [← Bool.not_eq_false]
  intro hi
  have hn := (h.fresh r hi).req
  rw [hq] at hn
  cases hn

theorem conclude {rest : List ρ} {a : Answer} {servers' : Upstream ι} (hq : s.req r = some q)
    (hk : s.io q.io = some c) (hrest : rest = c.requests.erase r ∨ rest = c.requests ∧ a = .neterr)
    (ho : servers'.order = s.servers.order) :
    (s.conclude r q.io c rest a servers').Inv := by
  have hself : Function.update s.called r [a] r = [a] := Function.update_self ..
  have hgone : Inv { s.remove r q.io c rest with called := Function.update s.called r [a] } := by
    refine h.remove hq hk (fun x hx => Function.update_of_ne hx ..) ?_ ?_
    · rw [hself]
      exact le_rfl
    · refine hrest.imp_right fun ⟨he, ha⟩ => ⟨he, ?_⟩
      rw [hself, ha]
  exact hgone.servers servers' ho

end Inv

theorem select_order {u : ι} {t t' : Upstream ι} (hs : t.select = some (u, t')) : t'.order = t.order :=
  (Upstream.select_some hs).order

theorem rescan_order {t t' : Upstream ι} {now : Int} (hs : t.rescan now = some t') :
    t'.order = t.order := by
  unfold Upstream.rescan at hs
  split_ifs at hs
  · cases hs
    rfl
  · cases hs
    exact Upstream.foldl_rescanOne_order _

theorem unique_of_unused {i : Nat} (hu : ¬s.UsedId c i) : s.Unique c r i :=
  fun x hx q hq hi => absurd ⟨x, hx, q, hq, hi⟩ hu

theorem begun_io {q : Req κ} {i : Nat} {sent : SendResult} : (begun q i sent).io = q.io := by
  unfold begun
  split_ifs <;> rfl

theorem begun_id {q : Req κ} {i : Nat} {sent : SendResult} : (begun q i sent).id = i := by
  unfold begun
  split_ifs <;> rfl

theorem begun_watched {q : Req κ} {i : Nat} {sent : SendResult} (hq : q.state = .new) :
    (begun q i sent).Watched := by
  unfold begun
  split_ifs
  · exact .inl ⟨rfl, rfl⟩
  · exact .inr ⟨.inl hq, rfl⟩

theorem Does.inv (h : s.Inv) (hen : s.Enabled a) (hd : s.Does a s') : s'.Inv := by
  cases hd with
  | @notMade r id repeats n rand sent serv servers' k c hsel hk =>
    have h₁ := h.servers servers' (select_order hsel)
    exact (h₁.uses (k := k) (c := c) hk _).issue r
  | @made r id repeats n rand sent serv servers' k c i hsel hk hact hs hu hsent =>
    have hf := h.fresh r hen
    have h₁ := h.servers servers' (select_order hsel)
    have h₂ := (h₁.uses (k := k) (c := c) hk ((c.uses + 1) % 2 ^ 64)).issue r
    have hiss : Function.update s.issued r true r = true := Function.update_self ..
    have hk₂ : Function.update s.io k (some (used c)) k = some (used c) := Function.update_self ..
    have hio : (begun ⟨k, id, .new, repeats, none⟩ i sent : Req κ).io = k := begun_io
    refine h₂.enter hf.req hf.quiet (fun k' c' hk' => ?_) hiss ?_ ?_ (begun_watched rfl)
    · have hk' : Function.update s.io k (some (used c)) k' = some c' := hk'
      rcases eq_or_ne k' k with rfl | hne
      · rw [Function.update_self] at hk'
        cases hk'
        exact hf.unlisted k' c hk
      · rw [Function.update_of_ne hne] at hk'
        exact hf.unlisted k' c' hk'
    · rw [hio]
      exact hk₂
    · rw [begun_id]
      exact unique_of_unused hu
  | @unknown k id accepted c hk => exact h.uses hk _
  | refused => exact h
  | answered hq hk hs => exact h.conclude hq hk (.inl rfl) rfl
  | timedOut hq hleft hk hs => exact h.conclude hq hk (.inl rfl) (Upstream.fail_order ..)
  | gaveUp hq hleft hk hs => exact h.conclude hq hk (.inl rfl) (Upstream.fail_order ..)
  | dropped hq hk => exact h.conclude hq hk (.inr ⟨rfl, rfl⟩) (Upstream.fail_order ..)
  | @rearmed r now n rand q hq hleft => exact h.touch hq rfl rfl (h.req r q hq).watched
  | blocked hq hleft => exact h.touch hq rfl rfl (.inr ⟨.inr rfl, rfl⟩)
  | resent hq => exact h.touch hq rfl rfl (.inl ⟨rfl, rfl⟩)
  | waits hq => exact h.touch hq rfl rfl (.inr ⟨.inr rfl, rfl⟩)
  | @moved r now n rand q c serv servers' k c' i hq hleft hk hact hs hsel hk' hact' hs' hu =>
    have hgone : Inv { s.remove r q.io c (c.requests.erase r) with called := s.called } :=
      h.remove hq hk (fun _ _ => rfl) (h.once r) (.inl rfl)
    have h₁ := hgone.servers servers' (select_order hsel)
    have hne : k ≠ q.io := fun he => by
      rw [he, hk] at hk'
      cases hk'
      rw [hact] at hact'
      cases hact'
    have hk₁ : Function.update s.io q.io
        (if c.refs = 1 then none
          else some { c with requests := c.requests.erase r, refs := c.refs - 1 }) k = some c' :=
      (Function.update_of_ne hne ..).trans hk'
    have h₂ := h₁.uses (k := k) (c := c') hk₁ ((c'.uses + 1) % 2 ^ 64)
    have hself : Function.update s.req r none r = none := Function.update_self ..
    have hout : r ∉ c'.requests := fun hin => hne ((h.listed_iff hq hk').1 hin).symm
    refine h₂.enter hself (h.req r q hq).quiet (fun k₁ c₁ hk₁ => ?_) (h.issued hq)
      (Function.update_self ..) ?_ (.inl ⟨rfl, rfl⟩)
    · have hk₁ : Function.update (Function.update s.io q.io (if c.refs = 1 then none
          else some { c with requests := c.requests.erase r, refs := c.refs - 1 })) k
            (some (used c')) k₁ = some c₁ := hk₁
      rcases eq_or_ne k₁ k with rfl | h1
      · rw [Function.update_self] at hk₁
        cases hk₁
        exact hout
      rw [Function.update_of_ne h1] at hk₁
      rcases eq_or_ne k₁ q.io with rfl | h2
      · rw [Function.update_self] at hk₁
        split_ifs at hk₁
        cases hk₁
        exact (h.io _ _ hk).nodup.not_mem_erase
      · rw [Function.update_of_ne h2] at hk₁
        exact fun hin => h2 ((h.listed_iff hq hk₁).1 hin).symm
    · refine unique_of_unused fun hused => hu ((usedId_congr (fun x hx => ?_) i).1 hused)
      have hxr : x ≠ r := fun he => hout (he ▸ hx)
      exact Function.update_of_ne hxr ..
  | replaced hi hk hempty => exact h.refresh hk hen.1 hi hen.2.2 hempty
  | kept => exact h
  | rescanned hs => exact h.servers _ (rescan_order hs)

theorem reach_inv (h : (machine ι κ ρ).ReachUnder Enabled s) : s.Inv :=
  h.invariant (fun _ hs => Init.inv hs) fun _ _ _ hs hen hstep => (does_of_act hs hen hstep).inv hs hen

/-! ## The servers -/

theorem Does.servers (h : s.Inv) (hd : s.Does a s') :
    s'.servers.order = s.servers.order ∧
      (s'.servers = s.servers ∨ ∃ b : Upstream.Act ι, s.servers.step b = some s'.servers) := by
  have hfail : ∀ {k c} (now : Int), s.io k = some c →
      (s.servers.fail c.srv now).order = s.servers.order ∧
        (s.servers.fail c.srv now = s.servers ∨
          ∃ b : Upstream.Act ι, s.servers.step b = some (s.servers.fail c.srv now)) :=
    fun now hk => ⟨Upstream.fail_order .., .inr ⟨.fail _ now, if_pos (h.io _ _ hk).srv⟩⟩
  have hselect : ∀ {serv servers'}, s.servers.select = some (serv, servers') →
      servers'.order = s.servers.order ∧
        (servers' = s.servers ∨ ∃ b : Upstream.Act ι, s.servers.step b = some servers') := by
    intro serv servers' hsel
    refine ⟨select_order hsel, .inr ⟨.select, ?_⟩⟩
    show s.servers.select.map (·.2) = some servers'
    rw [hsel]
    rfl
  cases hd with
  | notMade hsel hk => exact hselect hsel
  | made hsel hk hact hs hu hsent => exact hselect hsel
  | unknown hk => exact ⟨rfl, .inl rfl⟩
  | refused => exact ⟨rfl, .inl rfl⟩
  | @answered k i r q c hq hk hs => exact ⟨rfl, .inr ⟨.ok c.srv, if_pos (h.io _ _ hk).srv⟩⟩
  | @timedOut r now n rand sent q c hq hleft hk hs => exact hfail now hk
  | @gaveUp r now n rand q c hq hleft hk hs => exact hfail now hk
  | @dropped r now q c hq hk => exact hfail now hk
  | rearmed hq hleft => exact ⟨rfl, .inl rfl⟩
  | blocked hq hleft => exact ⟨rfl, .inl rfl⟩
  | moved hq hleft hk hact hs hsel hk' hact' hs' hu => exact hselect hsel
  | resent hq => exact ⟨rfl, .inl rfl⟩
  | waits hq => exact ⟨rfl, .inl rfl⟩
  | replaced hi hk hempty => exact ⟨rfl, .inl rfl⟩
  | kept => exact ⟨rfl, .inl rfl⟩
  | @rescanned now servers' hs => exact ⟨rescan_order hs, .inr ⟨.rescan now, hs⟩⟩

theorem reach_servers (h : (machine ι κ ρ).ReachUnder Enabled s) :
    s.servers.order ≠ [] ∧ ∃ n, (Upstream.machine ι).Reach (s.servers, n) := by
  induction h with
  | init hs => exact ⟨Init.nonempty hs, Init.servers hs⟩
  | @step s s' a h hen hstep ih =>
    obtain ⟨hne, n, hn⟩ := ih
    have hinv := reach_inv h
    obtain ⟨ho, he | ⟨b, hb⟩⟩ := (does_of_act hinv hen hstep).servers hinv
    · rw [he]
      exact ⟨hne, n, hn⟩
    · rw [ho]
      refine ⟨hne, s.servers.surplusAfter n b, hn.step (a := b) trivial ?_⟩
      show (s.servers.step b).map _ = _
      rw [hb]
      rfl

/-- One server with one channel. -/
def oneServer : Resolver Unit Nat Nat where
  servers := Upstream.empty.add () 0
  channels := fun _ => [0]
  io := fun k => if k = 0 then some ⟨(), true, [], 0, 1⟩ else none
  req := fun _ => none
  called := fun _ => []
  issued := fun _ => false

theorem oneServer_init : oneServer.Init := by
  refine ⟨⟨0, .step (.init rfl) (a := .add () 0) trivial rfl⟩, List.cons_ne_nil _ _,
    fun _ _ => List.cons_ne_nil _ _, fun _ => List.nodup_singleton 0, fun k c => ?_, fun _ _ _ =>
      List.mem_singleton.2 rfl, fun _ => ⟨rfl, rfl, rfl⟩⟩
  have hio : oneServer.io k = if k = 0 then some ⟨(), true, [], 0, 1⟩ else none := rfl
  rw [hio]
  constructor
  · intro hk
    split_ifs at hk with h0
    exact ⟨(), List.mem_singleton.2 rfl, List.mem_singleton.2 h0, (Option.some.inj hk).symm⟩
  · rintro ⟨serv, -, hmem, rfl⟩
    rw [if_pos (List.mem_singleton.1 hmem)]

/-- Every request that is allocated is in the hash of its own channel alone, under an id that no
other one there has, and the loop has the one watcher for it that its state asks for; it has not
been answered, and none is answered twice. A channel counts its place in the list of its server and
the requests that are on it. -/
theorem one_watcher (h : (machine ι κ ρ).ReachUnder Enabled s) :
    (∀ r q, s.req r = some q → q.Watched ∧ s.called r = [] ∧
      (∃ c, s.io q.io = some c ∧ r ∈ c.requests ∧ s.Unique c r q.id) ∧
      ∀ k c, s.io k = some c → r ∈ c.requests → k = q.io) ∧
    (∀ r, (s.called r).length ≤ 1) ∧
    ∀ k c, s.io k = some c → c.refs = (if c.active then 1 else 0) + (s.alive c).length := by
  have hinv := reach_inv h
  refine ⟨fun r q hq => ?_, hinv.once, fun k c hk => (hinv.io k c hk).refs⟩
  obtain ⟨c, hk, hin⟩ := (hinv.req r q hq).listed
  refine ⟨(hinv.req r q hq).watched, (hinv.req r q hq).quiet, ⟨c, hk, hin, ?_⟩, fun k c hk hin => ?_⟩
  · exact ((hinv.io _ c hk).own r hin q hq).2
  · exact ((hinv.listed_iff hq hk).1 hin).symm

/-- The second request asks for the id of the first and has to wait for the socket. -/
def sameId : List (Act Unit Nat Nat) :=
  [.make 0 5 3 0 (fun n => n) .out, .make 1 5 3 0 (fun n => n) .again]

theorem one_watcher_sameId :
    ∃ s ∈ (machine Unit Nat Nat).runUnder Enabled oneServer sameId,
      ((∀ r q, s.req r = some q → q.Watched ∧ s.called r = [] ∧
        (∃ c, s.io q.io = some c ∧ r ∈ c.requests ∧ s.Unique c r q.id) ∧
        ∀ k c, s.io k = some c → r ∈ c.requests → k = q.io) ∧
      (∀ r, (s.called r).length ≤ 1) ∧
      ∀ k c, s.io k = some c → c.refs = (if c.active then 1 else 0) + (s.alive c).length) ∧
      s.req 1 = some ⟨0, 31, .new, 3, some .write⟩ := by
  have hreq : ((machine Unit Nat Nat).runUnder Enabled oneServer sameId).map (·.req 1) =
      some (some ⟨0, 31, .new, 3, some .write⟩) := by decide +kernel
  obtain ⟨s, hs, hq⟩ := Option.map_eq_some_iff.1 hreq
  exact ⟨s, hs, one_watcher (Machine.ReachUnder.run (.init oneServer_init) hs), hq⟩

/-- In every state that is reached, a callback breaks a contract exactly when `Trips` says so. -/
theorem act_eq_none_iff (h : (machine ι κ ρ).ReachUnder Enabled s) (hen : s.Enabled a) :
    s.act a = none ↔ s.Trips a := by
  rcases act_runs (reach_inv h) hen with ⟨ht, hn⟩ | ⟨ht, t, hs, -⟩
  · exact iff_of_true hn ht
  · rw [hs]
    exact iff_of_false (Option.some_ne_none t) ht

/-- A reply comes to a request that has not been sent yet. -/
theorem act_eq_none_iff_early :
    ∃ s ∈ (machine Unit Nat Nat).runUnder Enabled oneServer sameId,
      (s.act (.read 0 (some 31) true) = none ↔ s.Trips (.read 0 (some 31) true)) ∧
      s.act (.read 0 (some 31) true) = none := by
  have hnone : ((machine Unit Nat Nat).runUnder Enabled oneServer sameId).map
      (fun s => decide (s.Enabled (.read 0 (some 31) true)) &&
        (s.act (.read 0 (some 31) true)).isNone) = some true := by
    decide +kernel
  obtain ⟨s, hs, hboth⟩ := Option.map_eq_some_iff.1 hnone
  obtain ⟨hen, hact⟩ := Bool.and_eq_true_iff.1 hboth
  exact ⟨s, hs, act_eq_none_iff (Machine.ReachUnder.run (.init oneServer_init) hs)
    (of_decide_eq_true hen), Option.isNone_iff_eq_none.1 hact⟩

/-! ## Runs in which nothing has to wait -/

/-- No packet has to wait for its socket, and no `send` fails on a channel to which a request has
just been moved. -/
def Calm (s : Resolver ι κ ρ) : Act ι κ ρ → Prop
  | .make _ _ _ _ _ sent => sent ≠ .again
  | .timer r _ _ _ sent =>
    sent = .out ∨ sent = .failed ∧ ((s.req r).bind fun q => s.io q.io).any (·.active) = true
  | _ => True

instance (s : Resolver ι κ ρ) : (a : Act ι κ ρ) → Decidable (s.Calm a)
  | .make _ _ _ _ _ sent => inferInstanceAs (Decidable (sent ≠ .again))
  | .timer r _ _ _ sent =>
    inferInstanceAs (Decidable (sent = .out ∨
      sent = .failed ∧ ((s.req r).bind fun q => s.io q.io).any (·.active) = true))
  | .read .. | .writable .. | .refresh .. | .rescan _ => inferInstanceAs (Decidable True)

/-- All requests have been sent, and the hashes have no freed ones. -/
structure Tidy (s : Resolver ι κ ρ) : Prop where
  sound : ∀ k c, s.io k = some c → s.Sound c
  sent : ∀ r q, s.req r = some q → q.state = .sent

/-- The channel that is not in use is left for that of another server. -/
def Leaves (s : Resolver ι κ ρ) (r : ρ) : Prop :=
  ∃ q c, s.req r = some q ∧ q.left ≠ 0 ∧ s.io q.io = some c ∧ c.active = false

/-- The step selects a server. -/
def Asks (s : Resolver ι κ ρ) : Act ι κ ρ → Prop
  | .make _ _ _ _ _ _ => True
  | .timer r _ _ _ _ => s.Leaves r
  | _ => False

/-- The request is moved to a channel on which none of the ids that are tried is free. -/
def Collides (s : Resolver ι κ ρ) : Act ι κ ρ → Prop
  | .timer r _ n rand _ => s.Leaves r ∧ ∃ q, s.req r = some q ∧ ∃ k c, s.picks n = some k ∧
    s.io k = some c ∧ s.Exhausted c rand q.id
  | _ => False

theorem Init.tidy (h : s.Init) : s.Tidy := by
  refine ⟨fun k c hk => ?_, fun r q hq => ?_⟩
  · obtain ⟨serv, -, -, rfl⟩ := (h.io k c).1 hk
    exact fun r hr => absurd hr List.not_mem_nil
  · rw [(h.req r).1] at hq
    cases hq

namespace Tidy
variable (ht : s.Tidy)
include ht

theorem uses (hk : s.io k = some c) (n : Nat) : (s.setIo k { c with uses := n }).Tidy := by
  refine ⟨fun k' c' hk' => ?_, ht.sent⟩
  have hk' : Function.update s.io k (some { c with uses := n }) k' = some c' := hk'
  rcases eq_or_ne k' k with rfl | hne
  · rw [Function.update_self] at hk'
    cases hk'
    exact ht.sound k' c hk
  · rw [Function.update_of_ne hne] at hk'
    exact ht.sound k' c' hk'

theorem touch (hq' : q'.state = .sent) : (s.setReq r q').Tidy := by
  refine ⟨fun k c hk x hx => ?_, fun x q₁ hx => ?_⟩
  · rw [setReq_req]
    rcases eq_or_ne x r with rfl | hne
    · rw [Function.update_self]
      rfl
    · rw [Function.update_of_ne hne]
      exact ht.sound k c hk x hx
  · rw [setReq_req] at hx
    rcases eq_or_ne x r with rfl | hne
    · rw [Function.update_self] at hx
      cases hx
      exact hq'
    · rw [Function.update_of_ne hne] at hx
      exact ht.sent x q₁ hx

theorem enter (hk : s.io q.io = some c) (hsent : q.state = .sent) : (s.enter r q c).Tidy := by
  have hq' := ht.touch (r := r) hsent
  refine ⟨fun k' c' hk' => ?_, hq'.sent⟩
  have hk' : Function.update s.io q.io
      (some { c with requests := r :: c.requests, refs := c.refs + 1 }) k' = some c' := hk'
  rcases eq_or_ne k' q.io with rfl | hne
  · rw [Function.update_self] at hk'
    cases hk'
    intro x hx
    rcases List.mem_cons.1 hx with rfl | hx
    · show (Function.update s.req x (some q) x).isSome = true
      rw [Function.update_self]
      rfl
    · exact hq'.sound _ c hk x hx
  · rw [Function.update_of_ne hne] at hk'
    exact hq'.sound k' c' hk'

theorem remove (h : s.Inv) (hq : s.req r = some q) (hk : s.io q.io = some c) :
    (s.remove r q.io c (c.requests.erase r)).Tidy := by
  have hreq : ∀ x ≠ r, Function.update s.req r none x = s.req x :=
    fun x hx => Function.update_of_ne hx ..
  refine ⟨fun k' c' hk' x hx => ?_, fun x q₁ hx => ?_⟩
  · have hk' : Function.update s.io q.io (if c.refs = 1 then none
        else some { c with requests := c.requests.erase r, refs := c.refs - 1 }) k' = some c' := hk'
    show (Function.update s.req r none x).isSome = true
    rcases eq_or_ne k' q.io with rfl | hne
    · rw [Function.update_self] at hk'
      split_ifs at hk'
      cases hk'
      have hxr : x ≠ r := fun he => (h.io _ c hk).nodup.not_mem_erase (he ▸ hx)
      rw [hreq x hxr]
      exact ht.sound _ c hk x (List.mem_of_mem_erase hx)
    · rw [Function.update_of_ne hne] at hk'
      have hxr : x ≠ r := fun he => hne ((h.listed_iff hq hk').1 (he ▸ hx)).symm
      rw [hreq x hxr]
      exact ht.sound k' c' hk' x hx
  · have hx : Function.update s.req r none x = some q₁ := hx
    rcases eq_or_ne x r with rfl | hne
    · rw [Function.update_self] at hx
      cases hx
    · rw [hreq x hne] at hx
      exact ht.sent x q₁ hx

theorem conclude {rest : List ρ} {a : Answer} {servers' : Upstream ι} (h : s.Inv)
    (hq : s.req r = some q) (hk : s.io q.io = some c) (hrest : rest = c.requests.erase r) :
    (s.conclude r q.io c rest a servers').Tidy := by
  have hgone := ht.remove h hq hk
  rw [hrest]
  exact ⟨hgone.sound, hgone.sent⟩

theorem not_writable (h : s.Inv) {now : Int} {sent : SendResult} :
    ¬s.Enabled (.writable r now sent) := by
  intro hen
  obtain ⟨q, hq, he⟩ := any_event hen
  rcases (h.req r q hq).watched with ⟨-, he'⟩ | ⟨hst, -⟩
  · rw [he] at he'
    cases he'
  · rw [ht.sent r q hq] at hst
    rcases hst with hst | hst <;> cases hst

end Tidy

theorem Does.tidy (h : s.Inv) (ht : s.Tidy) (hen : s.Enabled a) (hcalm : s.Calm a)
    (hd : s.Does a s') : s'.Tidy := by
  cases hd with
  | @notMade r id repeats n rand sent serv servers' k c hsel hk =>
    have h₁ := ht.uses hk ((c.uses + 1) % 2 ^ 64)
    exact ⟨h₁.sound, h₁.sent⟩
  | @made r id repeats n rand sent serv servers' k c i hsel hk hact hs hu hsent =>
    have h₁ := ht.uses hk ((c.uses + 1) % 2 ^ 64)
    have h₂ : (({ s with servers := servers' }.setIo k (used c)).issue r).Tidy := ⟨h₁.sound, h₁.sent⟩
    have hout : sent = .out := by
      cases sent with
      | out => rfl
      | again => exact absurd rfl hcalm
      | failed => exact absurd rfl hsent
    refine h₂.enter ?_ ?_
    · rw [begun_io]
      exact Function.update_self ..
    · unfold begun
      rw [if_pos hout]
  | unknown hk => exact ht.uses hk _
  | refused => exact ht
  | answered hq hk hs => exact ht.conclude h hq hk rfl
  | timedOut hq hleft hk hs => exact ht.conclude h hq hk rfl
  | gaveUp hq hleft hk hs => exact ht.conclude h hq hk rfl
  | dropped hq hk => exact absurd hen (ht.not_writable h)
  | @rearmed r now n rand q hq hleft => exact ht.touch (ht.sent r q hq)
  | blocked hq hleft =>
    rcases hcalm with he | ⟨he, -⟩ <;> cases he
  | @moved r now n rand q c serv servers' k c' i hq hleft hk hact hs hsel hk' hact' hs' hu =>
    have hne : k ≠ q.io := fun he => by
      rw [he, hk] at hk'
      cases hk'
      rw [hact] at hact'
      cases hact'
    have h₁ := (ht.remove h hq hk).uses (k := k) (c := c')
      ((Function.update_of_ne hne ..).trans hk') ((c'.uses + 1) % 2 ^ 64)
    have h₂ : ({ s.remove r q.io c (c.requests.erase r) with servers := servers' }.setIo k
        (used c')).Tidy := ⟨h₁.sound, h₁.sent⟩
    exact h₂.enter (Function.update_self ..) rfl
  | resent hq => exact absurd hen (ht.not_writable h)
  | waits hq => exact absurd hen (ht.not_writable h)
  | @replaced serv i new maxIocUses k c hi hk hempty =>
    refine ⟨fun k' c' hk' => ?_, ht.sent⟩
    have hk' : Function.update (Function.update s.io new (some ⟨serv, true, [], 0, 1⟩)) k
        (if c.refs = 1 then none else some { c with active := false, refs := c.refs - 1 }) k' =
          some c' := hk'
    rcases eq_or_ne k' k with rfl | h1
    · rw [Function.update_self] at hk'
      split_ifs at hk'
      cases hk'
      exact ht.sound k' c hk
    rw [Function.update_of_ne h1] at hk'
    rcases eq_or_ne k' new with rfl | h2
    · rw [Function.update_self] at hk'
      cases hk'
      exact fun x hx => absurd hx List.not_mem_nil
    · rw [Function.update_of_ne h2] at hk'
      exact ht.sound k' c' hk'
  | kept => exact ht
  | rescanned hs => exact ⟨ht.sound, ht.sent⟩

theorem Tidy.trips_iff (h : s.Inv) (ht : s.Tidy) (hne : s.servers.order ≠ []) (hen : s.Enabled a)
    (hcalm : s.Calm a) :
    s.Trips a ↔ s.Asks a ∧ s.servers.select = none ∨ s.Collides a := by
  cases a with
  | make r id repeats n rand sent =>
    constructor
    · rintro (hsel | ⟨k, c, -, hk, hbad⟩)
      · exact .inl ⟨trivial, hsel⟩
      · exact absurd (ht.sound k c hk) hbad
    · rintro (⟨-, hsel⟩ | hbad)
      · exact .inl hsel
      · exact hbad.elim
  | read k id accepted =>
    refine iff_of_false ?_ (by rintro (⟨hbad, -⟩ | hbad) <;> exact hbad.elim)
    rintro ⟨i, c, -, hk, hbad | ⟨-, r, hr, q, hq, -, he⟩⟩
    · exact hbad (ht.sound k c hk)
    · rcases (h.req r q hq).watched with ⟨-, he'⟩ | ⟨hst, -⟩
      · rw [he] at he'
        cases he'
      · rw [ht.sent r q hq] at hst
        rcases hst with hst | hst <;> cases hst
  | timer r now n rand sent =>
    constructor
    · rintro ⟨q, c, hq, hk, ⟨hbad, -⟩ | ⟨hleft, hact, hcause⟩⟩
      · exact absurd (ht.sound _ c hk) hbad
      have hleaves : s.Leaves r := ⟨q, c, hq, hleft, hk, hact⟩
      rcases hcause with hsel | hsent | ⟨k, c', hpick, hk', hbad | hall⟩
      · exact .inl ⟨hleaves, hsel⟩
      · -- the only `send` that may fail is on a channel in use
        rcases hcalm with he | ⟨-, hon⟩
        · exact absurd he hsent
        · rw [hq, Option.bind_some, hk, Option.any_some, hact] at hon
          cases hon
      · exact absurd (ht.sound k c' hk') hbad
      · exact .inr ⟨hleaves, q, hq, k, c', hpick, hk', hall⟩
    · rintro (⟨⟨q, c, hq, hleft, hk, hact⟩, hsel⟩ |
          ⟨⟨q, c, hq, hleft, hk, hact⟩, q', hq', k, c', hpick, hk', hall⟩)
      · exact ⟨q, c, hq, hk, .inr ⟨hleft, hact, .inl hsel⟩⟩
      · rw [hq] at hq'
        cases hq'
        exact ⟨q, c, hq, hk, .inr ⟨hleft, hact, .inr (.inr ⟨k, c', hpick, hk', .inr hall⟩)⟩⟩
  | writable r now sent => exact absurd hen (ht.not_writable h)
  | refresh serv i new maxIocUses =>
    refine iff_of_false ?_ (by rintro (⟨hbad, -⟩ | hbad) <;> exact hbad.elim)
    rintro ⟨k, c, hi, hk, -, hrefs, hbad⟩
    have hmem := List.mem_of_getElem? hi
    obtain ⟨c₀, hc₀, hsrv⟩ := h.slot serv k hmem
    rw [hk] at hc₀
    cases hc₀
    have hact := (h.io k c hk).slot.2 (hsrv.symm ▸ hmem)
    have hcount := (h.io k c hk).refs
    have hall : s.alive c = c.requests := List.filter_eq_self.2 (ht.sound k c hk)
    rw [hall, hact, if_pos rfl, hrefs] at hcount
    exact hbad (List.length_eq_zero_iff.1 (by omega))
  | rescan now => exact iff_of_false hne (by rintro (⟨hbad, -⟩ | hbad) <;> exact hbad.elim)

/-- In runs in which nothing has to wait, a callback breaks a contract only if it selects a server
where none is left, or if it moves a request to a channel where no id is found for it. -/
theorem calm_act_eq_none_iff (h : (machine ι κ ρ).ReachUnder (fun s a => s.Enabled a ∧ s.Calm a) s) :
    ∃ surplus, (Upstream.machine ι).Reach (s.servers, surplus) ∧ ∀ a, s.Enabled a → s.Calm a →
      (s.act a = none ↔ s.Asks a ∧ s.servers.Spent surplus ∨ s.Collides a) := by
  have hboth : s.Inv ∧ s.Tidy := by
    refine h.invariant (I := fun s => s.Inv ∧ s.Tidy)
      (fun _ hs => ⟨Init.inv hs, Init.tidy hs⟩) fun t a t' hI hc hstep => ?_
    have hd := does_of_act hI.1 hc.1 hstep
    exact ⟨hd.inv hI.1 hc.1, hd.tidy hI.1 hI.2 hc.1 hc.2⟩
  obtain ⟨hne, surplus, hsur⟩ := reach_servers (h.mono fun _ _ hc => hc.1)
  refine ⟨surplus, hsur, fun a hen hcalm => ?_⟩
  rw [← Upstream.selects_nothing_iff (Upstream.reach_tracked hsur).toCounted,
    ← hboth.2.trips_iff hboth.1 hne hen hcalm]
  rcases act_runs hboth.1 hen with ⟨ht, hn⟩ | ⟨ht, t, hs, -⟩
  · exact iff_of_true hn ht
  · rw [hs]
    exact iff_of_false (Option.some_ne_none t) ht

/-- Twelve requests to one server are all given up. -/
def dozen : List (Act Unit Nat Nat) :=
  (List.range 12).map (fun r => .make r r 1 0 (fun n => n) .out) ++
    (List.range 12).map fun r => .timer r (if r < 10 then 1 else if r = 10 then 11
      else 21) 0 (fun n => n) .out

theorem calm_act_eq_none_iff_dozen :
    ∃ s ∈ (machine Unit Nat Nat).runUnder (fun s a => s.Enabled a ∧ s.Calm a) oneServer dozen,
      (∃ surplus, (Upstream.machine Unit).Reach (s.servers, surplus) ∧ ∀ a, s.Enabled a → s.Calm a →
        (s.act a = none ↔ s.Asks a ∧ s.servers.Spent surplus ∨ s.Collides a)) ∧
      s.act (.make 12 12 1 0 (fun n => n) .out) = none := by
  have hnone : ((machine Unit Nat Nat).runUnder (fun s a => s.Enabled a ∧ s.Calm a) oneServer dozen).map
      (fun s => (s.act (.make 12 12 1 0 (fun n => n) .out)).isNone) = some true := by
    decide +kernel
  obtain ⟨s, hs, hact⟩ := Option.map_eq_some_iff.1 hnone
  exact ⟨s, hs, calm_act_eq_none_iff (Machine.ReachUnder.run (.init oneServer_init) hs),
    Option.isNone_iff_eq_none.1 hact⟩

/-! ## What becomes of a request -/

/-- The timer of the request runs out. -/
def Act.isTimer (r : ρ) : Act ι κ ρ → Bool
  | .timer r' _ _ _ _ => r' = r
  | _ => false

def timers (r : ρ) (as : List (Act ι κ ρ)) : Nat := as.countP (Act.isTimer r)

theorem lives_pos (q : Req κ) : 0 < q.lives := by
  unfold Req.lives
  split_ifs
  · norm_num
  · omega

theorem lives_of_left (hq' : q'.retransmits = q.left) (hleft : q.left ≠ 0) :
    q'.lives + 1 = q.lives := by
  unfold Req.lives
  rw [hq', if_neg hleft]
  unfold Req.left at hleft ⊢
  split_ifs with hz
  · rfl
  · rw [if_neg hz] at hleft
    omega

theorem lives_of_left_zero (hleft : q.left = 0) : q.lives = 1 := by
  unfold Req.left at hleft
  unfold Req.lives
  split_ifs at hleft ⊢ with hz
  omega

/-- What a step does to a request that waits. -/
def Follows (r : ρ) (q : Req κ) (a : Act ι κ ρ) (s' : Resolver ι κ ρ) : Prop :=
  (∃ q', s'.req r = some q' ∧ s'.called r = [] ∧ q.lives = q'.lives + if a.isTimer r then 1 else 0) ∨
    s'.req r = none ∧ s'.issued r = true ∧ ∃ x, s'.called r = [x] ∧
    (x = .timeout ↔ a.isTimer r = true ∧ q.lives = 1)

/-- The step leaves the request as it is. -/
structure Untouched (s : Resolver ι κ ρ) (r : ρ) (a : Act ι κ ρ) (s' : Resolver ι κ ρ) : Prop where
  req : s'.req r = s.req r
  called : s'.called r = s.called r
  issued : s.issued r = true → s'.issued r = true
  timer : a.isTimer r = false

theorem isTimer_self {n : Nat} {now : Int} {rand : Nat → Nat} {sent : SendResult} :
    (Act.timer r now n rand sent : Act ι κ ρ).isTimer r = true := decide_eq_true rfl

theorem isTimer_of_ne {n : Nat} {now : Int} {rand : Nat → Nat} {sent : SendResult} (hne : r ≠ r') :
    (Act.timer r' now n rand sent : Act ι κ ρ).isTimer r = false := decide_eq_false hne.symm

theorem untouched_conclude {rest : List ρ} {x : Answer} {servers' : Upstream ι} (hne : r ≠ r')
    (ha : a.isTimer r = false) :
    s.Untouched r a (s.conclude r' k c rest x servers') :=
  ⟨Function.update_of_ne hne .., Function.update_of_ne hne .., id, ha⟩

theorem untouched_touch (hne : r ≠ r') (ha : a.isTimer r = false) : s.Untouched r a (s.setReq r' q) :=
  ⟨Function.update_of_ne hne .., rfl, id, ha⟩

theorem follows_conclude {rest : List ρ} {x : Answer} {servers' : Upstream ι}
    (hiss : s.issued r = true) (hx : x = .timeout ↔ a.isTimer r = true ∧ q.lives = 1) :
    Follows r q a (s.conclude r k c rest x servers') :=
  .inr ⟨Function.update_self .., hiss, x, Function.update_self .., hx⟩

theorem follows_touch (hcalled : s.called r = [])
    (hlives : q.lives = q'.lives + if a.isTimer r then 1 else 0) :
    Follows r q a (s.setReq r q') :=
  .inl ⟨q', Function.update_self .., hcalled, hlives⟩

/-- A step is about one request at most, which it makes or which has been waiting. -/
theorem Does.about (h : s.Inv) (hen : s.Enabled a) (hd : s.Does a s') (r : ρ) :
    s.Untouched r a s' ∨ s.issued r = false ∨ ∃ q, s.req r = some q ∧ Follows r q a s' := by
  have hmade : ∀ {r' : ρ} {f : ρ → Bool}, f = Function.update s.issued r' true → r ≠ r' →
      s.issued r = true → f r = true :=
    fun hf hne hiss => by rw [hf, Function.update_of_ne hne, hiss]
  cases hd with
  | @notMade r₀ id repeats n rand sent serv servers' k c hsel hk =>
    rcases eq_or_ne r r₀ with rfl | hne
    · exact .inr (.inl hen)
    · exact .inl ⟨rfl, rfl, hmade rfl hne, rfl⟩
  | @made r₀ id repeats n rand sent serv servers' k c i hsel hk hact hs hu hsent =>
    rcases eq_or_ne r r₀ with rfl | hne
    · exact .inr (.inl hen)
    · exact .inl ⟨Function.update_of_ne hne .., rfl, hmade rfl hne, rfl⟩
  | unknown hk => exact .inl ⟨rfl, rfl, id, rfl⟩
  | refused => exact .inl ⟨rfl, rfl, id, rfl⟩
  | @answered k i r₀ q c hq hk hs =>
    rcases eq_or_ne r r₀ with rfl | hne
    · exact .inr (.inr ⟨q, hq, follows_conclude (h.issued hq)
        (iff_of_false (by decide) fun hx => nomatch hx.1)⟩)
    · exact .inl (untouched_conclude hne rfl)
  | @timedOut r₀ now n rand sent q c hq hleft hk hs =>
    rcases eq_or_ne r r₀ with rfl | hne
    · exact .inr (.inr ⟨q, hq, follows_conclude (h.issued hq)
        (iff_of_true rfl ⟨isTimer_self, lives_of_left_zero hleft⟩)⟩)
    · exact .inl (untouched_conclude hne (isTimer_of_ne hne))
  | @rearmed r₀ now n rand q hq hleft =>
    rcases eq_or_ne r r₀ with rfl | hne
    · refine .inr (.inr ⟨q, hq, follows_touch (h.req r q hq).quiet ?_⟩)
      rw [if_pos isTimer_self]
      exact (lives_of_left rfl hleft).symm
    · exact .inl (untouched_touch hne (isTimer_of_ne hne))
  | @blocked r₀ now n rand q hq hleft =>
    rcases eq_or_ne r r₀ with rfl | hne
    · refine .inr (.inr ⟨q, hq, follows_touch (h.req r q hq).quiet ?_⟩)
      rw [if_pos isTimer_self]
      exact (lives_of_left rfl hleft).symm
    · exact .inl (untouched_touch hne (isTimer_of_ne hne))
  | @gaveUp r₀ now n rand q c hq hleft hk hs =>
    rcases eq_or_ne r r₀ with rfl | hne
    · have hlives : ({ q with retransmits := q.left } : Req κ).lives + 1 = q.lives :=
        lives_of_left rfl hleft
      have hpos := lives_pos { q with retransmits := q.left }
      exact .inr
        (.inr ⟨q, hq, follows_conclude (h.issued hq) (iff_of_false (by decide) fun hx => by omega)⟩)
    · exact .inl (untouched_conclude hne (isTimer_of_ne hne))
  | @moved r₀ now n rand q c serv servers' k c' i hq hleft hk hact hs hsel hk' hact' hs' hu =>
    rcases eq_or_ne r r₀ with rfl | hne
    · refine .inr (.inr ⟨q, hq, .inl ⟨_, Function.update_self .., (h.req r q hq).quiet, ?_⟩⟩)
      rw [if_pos isTimer_self]
      exact (lives_of_left rfl hleft).symm
    · exact .inl ⟨(Function.update_of_ne hne ..).trans (Function.update_of_ne hne ..),
        rfl, id, isTimer_of_ne hne⟩
  | @resent r₀ now q hq =>
    rcases eq_or_ne r r₀ with rfl | hne
    · exact .inr (.inr ⟨q, hq, follows_touch (h.req r q hq).quiet rfl⟩)
    · exact .inl (untouched_touch hne rfl)
  | @waits r₀ now q hq =>
    rcases eq_or_ne r r₀ with rfl | hne
    · exact .inr (.inr ⟨q, hq, follows_touch (h.req r q hq).quiet rfl⟩)
    · exact .inl (untouched_touch hne rfl)
  | @dropped r₀ now q c hq hk =>
    rcases eq_or_ne r r₀ with rfl | hne
    · exact .inr (.inr ⟨q, hq, follows_conclude (h.issued hq)
        (iff_of_false (by decide) fun hx => nomatch hx.1)⟩)
    · exact .inl (untouched_conclude hne rfl)
  | replaced hi hk hempty => exact .inl ⟨rfl, rfl, id, rfl⟩
  | kept => exact .inl ⟨rfl, rfl, id, rfl⟩
  | rescanned hs => exact .inl ⟨rfl, rfl, id, rfl⟩

/-- A request that has been freed is not touched again. -/
theorem stays_freed (h : (machine ι κ ρ).ReachUnder Enabled s) (hq : s.req r = none)
    (hiss : s.issued r = true) {as : List (Act ι κ ρ)}
    (hrun : (machine ι κ ρ).runUnder Enabled s as = some s') :
    s'.req r = none ∧ s'.called r = s.called r ∧ timers r as = 0 := by
  induction as generalizing s with
  | nil =>
    cases hrun
    exact ⟨hq, rfl, rfl⟩
  | cons a as ih =>
    rw [Machine.runUnder] at hrun
    split_ifs at hrun with hen
    obtain ⟨s₁, hs₁, hrun⟩ := Option.bind_eq_some_iff.1 hrun
    have hinv := reach_inv h
    rcases (does_of_act hinv hen hs₁).about hinv hen r with hu | hi | ⟨q, hq', -⟩
    · obtain ⟨h1, h2, h3⟩ := ih (h.step hen hs₁) (hu.req.trans hq) (hu.issued hiss) hrun
      refine ⟨h1, h2.trans hu.called, ?_⟩
      unfold timers at h3 ⊢
      rw [List.countP_cons, h3, hu.timer]
      rfl
    · rw [hiss] at hi
      cases hi
    · rw [hq] at hq'
      cases hq'

/-- Of a request that waits: however a run goes on, it still waits and has not been called back, and
its timer has run out as often as it has fewer lives; or it has been called back once, and that with
`timeout` exactly if its timer has run out as often as it had lives. -/
theorem waits_or_answered (h : (machine ι κ ρ).ReachUnder Enabled s) (hq : s.req r = some q)
    {as : List (Act ι κ ρ)} (hrun : (machine ι κ ρ).runUnder Enabled s as = some s') :
    (∃ q', s'.req r = some q' ∧ s'.called r = [] ∧ timers r as + q'.lives = q.lives) ∨
      s'.req r = none ∧ ∃ x, s'.called r = [x] ∧ timers r as ≤ q.lives ∧
      (x = .timeout ↔ timers r as = q.lives) := by
  induction as generalizing s q with
  | nil =>
    cases hrun
    exact .inl ⟨q, hq, ((reach_inv h).req r q hq).quiet, Nat.zero_add _⟩
  | cons a as ih =>
    rw [Machine.runUnder] at hrun
    split_ifs at hrun with hen
    obtain ⟨s₁, hs₁, hrun⟩ := Option.bind_eq_some_iff.1 hrun
    have hinv := reach_inv h
    have h₁ := h.step hen hs₁
    have hcount : timers r (a :: as) = timers r as + if a.isTimer r then 1 else 0 := List.countP_cons ..
    rw [hcount]
    rcases (does_of_act hinv hen hs₁).about hinv hen r with hu | hi | ⟨q₀, hq₀, hfollows⟩
    · rw [hu.timer, if_neg Bool.false_ne_true, Nat.add_zero]
      exact ih h₁ (hu.req.trans hq) hrun
    · rw [hinv.issued hq] at hi
      cases hi
    rw [hq] at hq₀
    cases hq₀
    rcases hfollows with ⟨q₁, hq₁, -, hlives⟩ | ⟨hq₁, hiss, x, hx, hiff⟩
    · rcases ih h₁ hq₁ hrun with ⟨q', hq', hcalled, hn⟩ | ⟨hq', x, hx, hle, hiff⟩
      · exact .inl ⟨q', hq', hcalled, by omega⟩
      · exact .inr ⟨hq', x, hx, by omega, hiff.trans (by omega)⟩
    · obtain ⟨hq', hcalled, hn⟩ := stays_freed h₁ hq₁ hiss hrun
      have hpos := lives_pos q
      rw [hn, Nat.zero_add]
      refine .inr ⟨hq', x, hcalled.trans hx, ?_, hiff.trans ?_⟩
      · split_ifs
        · exact hpos
        · exact Nat.zero_le _
      · split_ifs with ha
        · exact ⟨fun hboth => hboth.2.symm, fun he => ⟨ha, he.symm⟩⟩
        · exact iff_of_false (fun hboth => ha hboth.1) (by omega)

/-- The timer of the first request runs out three times. -/
def thrice : List (Act Unit Nat Nat) := List.replicate 3 (.timer 0 1 0 (fun n => n) .out)

theorem waits_or_answered_thrice :
    ∃ s ∈ (machine Unit Nat Nat).runUnder Enabled oneServer sameId, ∃ q, s.req 0 = some q ∧
      ∃ s' ∈ (machine Unit Nat Nat).runUnder Enabled s thrice,
        ((∃ q', s'.req 0 = some q' ∧ s'.called 0 = [] ∧ timers 0 thrice + q'.lives = q.lives) ∨
          s'.req 0 = none ∧ ∃ x, s'.called 0 = [x] ∧ timers 0 thrice ≤ q.lives ∧
          (x = .timeout ↔ timers 0 thrice = q.lives)) ∧
        s'.called 0 = [.timeout] := by
  have hreq : ((machine Unit Nat Nat).runUnder Enabled oneServer sameId).map (·.req 0) =
      some (some ⟨0, 5, .sent, 3, some .timer⟩) := by decide +kernel
  have hcalled : ((machine Unit Nat Nat).runUnder Enabled oneServer sameId).bind (fun s =>
      ((machine Unit Nat Nat).runUnder Enabled s thrice).map (·.called 0)) =
        some [.timeout] := by decide +kernel
  obtain ⟨s, hs, hq⟩ := Option.map_eq_some_iff.1 hreq
  rw [hs, Option.bind_some] at hcalled
  obtain ⟨s', hs', htold⟩ := Option.map_eq_some_iff.1 hcalled
  exact ⟨s, hs, _, hq, s', hs', waits_or_answered
    (Machine.ReachUnder.run (.init oneServer_init) hs) hq hs', htold⟩

end Resend.Dns.Resolver

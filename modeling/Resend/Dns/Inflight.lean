import Resend.Dns.Resolver

/-!
# What holds of the requests under way

`Inv` is about the state between two calls of the event loop. A request that is allocated is in the
hash of its own channel, under an id that no other one there has, and the loop has one watcher for
it: a timer once it is sent, else one for writing. A channel counts its place in the list of its
server and the requests that are on it. What a handler does to all this is made of a few changes
(`remove`, `enter`, ..), and `Inv` is kept by each of them.
-/

namespace Resend.Dns

/-- The loop waits for what the state says. -/
def Req.Watched {κ : Type} (q : Req κ) : Prop :=
  q.state = .sent ∧ q.event = some .timer ∨
    (q.state = .new ∨ q.state = .registered) ∧ q.event = some .write

namespace Resolver
set_option linter.unusedSectionVars false
variable {ι κ ρ : Type} [DecidableEq ι] [DecidableEq κ] [DecidableEq ρ]

/-- The requests of a channel that are allocated. -/
def alive (s : Resolver ι κ ρ) (c : IoChannel ι ρ) : List ρ :=
  c.requests.filter fun r => (s.req r).isSome

/-- No allocated request of the channel but `r` has the id. -/
def Unique (s : Resolver ι κ ρ) (c : IoChannel ι ρ) (r : ρ) (id : Nat) : Prop :=
  ∀ r' ∈ c.requests, ∀ q, s.req r' = some q → q.id = id → r' = r

structure IoOk (s : Resolver ι κ ρ) (k : κ) (c : IoChannel ι ρ) : Prop where
  nodup : c.requests.Nodup
  refs : c.refs = (if c.active then 1 else 0) + (s.alive c).length
  pos : 0 < c.refs
  slot : c.active = true ↔ k ∈ s.channels c.srv
  srv : c.srv ∈ s.servers.order
  own : ∀ r ∈ c.requests, ∀ q, s.req r = some q → q.io = k ∧ s.Unique c r q.id
  dead : ∀ r ∈ c.requests, s.req r = none → s.called r = [.neterr]

structure ReqOk (s : Resolver ι κ ρ) (r : ρ) (q : Req κ) : Prop where
  listed : ∃ c, s.io q.io = some c ∧ r ∈ c.requests
  watched : q.Watched
  quiet : s.called r = []

/-- Nothing is known of the request. -/
structure Fresh (s : Resolver ι κ ρ) (r : ρ) : Prop where
  req : s.req r = none
  quiet : s.called r = []
  unlisted : ∀ k c, s.io k = some c → r ∉ c.requests

structure Inv (s : Resolver ι κ ρ) : Prop where
  io : ∀ k c, s.io k = some c → s.IoOk k c
  req : ∀ r q, s.req r = some q → s.ReqOk r q
  channels : ∀ serv ∈ s.servers.order, s.channels serv ≠ []
  slot : ∀ serv, ∀ k ∈ s.channels serv, ∃ c, s.io k = some c ∧ c.srv = serv
  nodup : ∀ serv, (s.channels serv).Nodup
  once : ∀ r, (s.called r).length ≤ 1
  fresh : ∀ r, s.issued r = false → s.Fresh r

variable {s : Resolver ι κ ρ} {r r' : ρ} {q q' : Req κ} {k k' : κ} {c c' : IoChannel ι ρ}
  {a : Answer} {serv : ι}

/-! ## Lists -/

theorem filter_erase_of_not {p : ρ → Bool} {l : List ρ} (hp : p r = false) :
    (l.erase r).filter p = l.filter p := by
  induction l with
  | nil => rfl
  | cons x l ih =>
    by_cases hx : x = r
    · subst hx
      rw [List.erase_cons_head, List.filter_cons, hp]
      rfl
    · rw [List.erase_cons_tail (by simpa using hx), List.filter_cons, List.filter_cons, ih]

theorem length_filter_update {l : List ρ} (hl : l.Nodup) (hr : r ∈ l) (hs : (s.req r).isSome = true) :
    (l.filter fun x => (Function.update s.req r none x).isSome).length + 1 =
      (l.filter fun x => (s.req x).isSome).length := by
  have hoff : ∀ {l : List ρ}, r ∉ l → (l.filter fun x => (Function.update s.req r none x).isSome) =
      l.filter fun x => (s.req x).isSome := fun hr' => List.filter_congr fun x hx => by
    rw [Function.update_of_ne fun he => hr' (by rw [← he]; exact hx)]
  induction l with
  | nil => cases hr
  | cons x l ih =>
    obtain ⟨hx, hl⟩ := List.nodup_cons.1 hl
    rcases List.mem_cons.1 hr with rfl | hr
    · rw [List.filter_cons, Function.update_self, List.filter_cons, hs, hoff hx]
      rfl
    · have hne : x ≠ r := fun h => hx (h ▸ hr)
      rw [List.filter_cons, Function.update_of_ne hne, List.filter_cons]
      split
      · rw [List.length_cons, List.length_cons, ih hl hr]
      · exact ih hl hr

omit [DecidableEq ι] [DecidableEq κ] [DecidableEq ρ] in
theorem update_eq_some_iff {α β : Type} [DecidableEq α] {f : α → Option β} {x y : α} {v : Option β}
    {b : β} :
    Function.update f x v y = some b ↔ y = x ∧ v = some b ∨ y ≠ x ∧ f y = some b := by
  rcases eq_or_ne y x with rfl | hne
  · simp
  · simp [hne]

omit [DecidableEq κ] in
theorem mem_set_iff {l : List κ} {i : Nat} {k x y : κ} (hl : l.Nodup) (hi : l[i]? = some k) :
    x ∈ l.set i y ↔ x = y ∨ x ∈ l ∧ x ≠ k := by
  induction l generalizing i with
  | nil => cases hi
  | cons z l ih =>
    obtain ⟨hz, hl⟩ := List.nodup_cons.1 hl
    cases i with
    | zero =>
      cases hi
      rw [List.set_cons_zero, List.mem_cons, List.mem_cons]
      refine or_congr_right ⟨fun hx => ⟨.inr hx, fun he => hz (he ▸ hx)⟩,
        fun hx => hx.1.resolve_left hx.2⟩
    | succ i =>
      have hzk : z ≠ k := fun he => hz (he ▸ List.mem_of_getElem? hi)
      rw [List.set_cons_succ, List.mem_cons, ih hl hi, List.mem_cons]
      constructor
      · rintro (rfl | hx | ⟨hx, hne⟩)
        · exact .inr ⟨.inl rfl, hzk⟩
        · exact .inl hx
        · exact .inr ⟨.inr hx, hne⟩
      · rintro (hx | ⟨rfl | hx, hne⟩)
        · exact .inr (.inl hx)
        · exact .inl rfl
        · exact .inr (.inr ⟨hx, hne⟩)

/-! ## The changes -/

/-- The request is freed and gives its channel back, which keeps `rest` of its requests. -/
def remove (s : Resolver ι κ ρ) (r : ρ) (k : κ) (c : IoChannel ι ρ) (rest : List ρ) : Resolver ι κ ρ :=
  { s with
    req := Function.update s.req r none
    io := Function.update s.io k (if c.refs = 1 then none
      else some { c with requests := rest, refs := c.refs - 1 }) }

/-- The request `q` is on the channel `c`. -/
def enter (s : Resolver ι κ ρ) (r : ρ) (q : Req κ) (c : IoChannel ι ρ) : Resolver ι κ ρ :=
  { s with
    req := Function.update s.req r (some q)
    io := Function.update s.io q.io (some { c with requests := r :: c.requests, refs := c.refs + 1 }) }

/-- A new channel `k'` takes the place `i` of the channel `k` in the list of its server. -/
def replace (s : Resolver ι κ ρ) (serv : ι) (i : Nat) (k : κ) (c : IoChannel ι ρ) (k' : κ) :
    Resolver ι κ ρ :=
  { s with
    channels := Function.update s.channels serv ((s.channels serv).set i k')
    io := Function.update (Function.update s.io k' (some ⟨serv, true, [], 0, 1⟩)) k
      (if c.refs = 1 then none else some { c with active := false, refs := c.refs - 1 }) }

def issue (s : Resolver ι κ ρ) (r : ρ) : Resolver ι κ ρ :=
  { s with issued := Function.update s.issued r true }

theorem req_remove : Function.update s.req r none r' = some q ↔ r' ≠ r ∧ s.req r' = some q := by
  refine update_eq_some_iff.trans ?_
  simp

theorem io_remove {rest : List ρ} :
    Function.update s.io k (if c.refs = 1 then none
      else some { c with requests := rest, refs := c.refs - 1 }) k' = some c' ↔
      k' = k ∧ c.refs ≠ 1 ∧ c' = { c with requests := rest, refs := c.refs - 1 } ∨
      k' ≠ k ∧ s.io k' = some c' := by
  refine update_eq_some_iff.trans (or_congr_left (and_congr_right fun _ => ?_))
  by_cases hrefs : c.refs = 1
  · simp [hrefs]
  · simp [hrefs, eq_comm]

theorem req_enter :
    Function.update s.req r (some q) r' = some q' ↔ r' = r ∧ q' = q ∨ r' ≠ r ∧ s.req r' = some q' := by
  refine update_eq_some_iff.trans ?_
  simp [eq_comm]

theorem io_enter {c₁ : IoChannel ι ρ} :
    Function.update s.io k (some c) k' = some c₁ ↔ k' = k ∧ c₁ = c ∨ k' ≠ k ∧ s.io k' = some c₁ := by
  refine update_eq_some_iff.trans ?_
  simp [eq_comm]

theorem io_replace {i : Nat} {k₁ : κ} {c₁ : IoChannel ι ρ} : (s.replace serv i k c k').io k₁ = some c₁ ↔
    k₁ = k ∧ c.refs ≠ 1 ∧ c₁ = { c with active := false, refs := c.refs - 1 } ∨
      k₁ ≠ k ∧ (k₁ = k' ∧ c₁ = ⟨serv, true, [], 0, 1⟩ ∨ k₁ ≠ k' ∧ s.io k₁ = some c₁) := by
  refine update_eq_some_iff.trans (or_congr (and_congr_right fun _ => ?_) (and_congr_right fun _ => ?_))
  · by_cases hrefs : c.refs = 1
    · simp [hrefs]
    · simp [hrefs, eq_comm]
  · refine update_eq_some_iff.trans ?_
    simp [eq_comm]

theorem IoOk.alive_congr {s' : Resolver ι κ ρ} (h : ∀ r ∈ c.requests, s'.req r = s.req r) :
    s'.alive c = s.alive c :=
  List.filter_congr fun r hr => by rw [h r hr]

theorem IoOk.congr {s' : Resolver ι κ ρ} (hc : s.IoOk k c)
    (hreq : ∀ r ∈ c.requests, s'.req r = s.req r)
    (hcalled : ∀ r ∈ c.requests, s.req r = none → s'.called r = s.called r)
    (hslot : s'.channels = s.channels) (horder : s'.servers.order = s.servers.order) :
    s'.IoOk k c := by
  refine ⟨hc.nodup, ?_, hc.pos, ?_, ?_, fun r hr q hq => ?_, fun r hr hq => ?_⟩
  · rw [IoOk.alive_congr hreq]
    exact hc.refs
  · rw [hslot]
    exact hc.slot
  · rw [horder]
    exact hc.srv
  · rw [hreq r hr] at hq
    refine ⟨(hc.own r hr q hq).1, fun r' hr' q' hq' => ?_⟩
    rw [hreq r' hr'] at hq'
    exact (hc.own r hr q hq).2 r' hr' q' hq'
  · rw [hreq r hr] at hq
    rw [hcalled r hr hq]
    exact hc.dead r hr hq

section remove

variable {rest : List ρ} {called' : ρ → List Answer}
  (hrest : rest = c.requests.erase r ∨ rest = c.requests ∧ called' r = [.neterr])
include hrest

theorem mem_of_mem_rest (hr : r' ∈ rest) : r' ∈ c.requests := by
  rcases hrest with rfl | ⟨rfl, -⟩
  · exact List.mem_of_mem_erase hr
  · exact hr

theorem mem_rest (hr : r' ∈ c.requests) (hne : r' ≠ r) : r' ∈ rest := by
  rcases hrest with rfl | ⟨rfl, -⟩
  · exact (List.mem_erase_of_ne hne).2 hr
  · exact hr

theorem IoOk.remove (hok : s.IoOk k c) (hin : r ∈ c.requests) (hq : s.req r = some q)
    (hrefs : c.refs ≠ 1) (hoff : ∀ x ≠ r, called' x = s.called x) :
    IoOk { s.remove r k c rest with called := called' } k
      { c with requests := rest, refs := c.refs - 1 } := by
  have hcount := length_filter_update (s := s) hok.nodup hin (by rw [hq]; rfl)
  have hpos := hok.pos
  have halive : (rest.filter fun x => (Function.update s.req r none x).isSome) =
      c.requests.filter fun x => (Function.update s.req r none x).isSome := by
    rcases hrest with rfl | ⟨rfl, -⟩
    · exact filter_erase_of_not (by rw [Function.update_self]; rfl)
    · rfl
  refine ⟨?_, ?_, ?_, hok.slot, hok.srv, fun x hx q₁ hq₁ => ?_, fun x hx hq₁ => ?_⟩
  · rcases hrest with rfl | ⟨rfl, -⟩
    · exact hok.nodup.erase r
    · exact hok.nodup
  · have hrefs' := hok.refs
    show c.refs - 1 = (if c.active then 1 else 0) + (rest.filter fun x =>
      (Function.update s.req r none x).isSome).length
    unfold alive at hrefs'
    rw [halive]
    omega
  · show 0 < c.refs - 1
    omega
  · obtain ⟨ho, hu⟩ := hok.own x (mem_of_mem_rest hrest hx) q₁ (req_remove.1 hq₁).2
    exact ⟨ho, fun y hy q₂ hq₂ => hu y (mem_of_mem_rest hrest hy) q₂ (req_remove.1 hq₂).2⟩
  · rcases eq_or_ne x r with rfl | hne
    · rcases hrest with rfl | ⟨-, htold⟩
      · exact absurd hx hok.nodup.not_mem_erase
      · exact htold
    · have hq₁ : s.req x = none := (Function.update_of_ne hne ..).symm.trans hq₁
      exact (hoff x hne).trans (hok.dead x (mem_of_mem_rest hrest hx) hq₁)

end remove

theorem IoOk.enter (hok : s.IoOk q.io c) (hr : r ∉ c.requests) (hu : s.Unique c r q.id) :
    (s.enter r q c).IoOk q.io { c with requests := r :: c.requests, refs := c.refs + 1 } := by
  have hout : ∀ x ∈ c.requests, x ≠ r := fun x hx he => hr (he ▸ hx)
  refine ⟨List.nodup_cons.2 ⟨hr, hok.nodup⟩, ?_, Nat.succ_pos _, hok.slot, hok.srv,
    fun x hx q₁ hq₁ => ?_, fun x hx hq₁ => ?_⟩
  · have hrefs := hok.refs
    have htail : (c.requests.filter fun x => (Function.update s.req r (some q) x).isSome) = s.alive c :=
      List.filter_congr fun x hx => by rw [Function.update_of_ne (hout x hx)]
    show c.refs + 1 = (if c.active then 1 else 0) +
      ((r :: c.requests).filter fun x => (Function.update s.req r (some q) x).isSome).length
    rw [List.filter_cons, Function.update_self, htail, Option.isSome_some, if_pos rfl, List.length_cons]
    omega
  · -- the id of the request is no other's, and no other's is that of the request
    rcases req_enter.1 hq₁ with ⟨rfl, rfl⟩ | ⟨hne, hx'⟩
    · refine ⟨rfl, fun y hy q₂ hq₂ hid => ?_⟩
      rcases req_enter.1 hq₂ with ⟨rfl, -⟩ | ⟨hney, hq₂⟩
      · rfl
      · exact hu y ((List.mem_cons.1 hy).resolve_left hney) q₂ hq₂ hid
    · have hin := (List.mem_cons.1 hx).resolve_left hne
      obtain ⟨ho, hux⟩ := hok.own x hin q₁ hx'
      refine ⟨ho, fun y hy q₂ hq₂ hid => ?_⟩
      rcases req_enter.1 hq₂ with ⟨rfl, rfl⟩ | ⟨hney, hq₂⟩
      · exact (hu x hin q₁ hx' hid.symm).symm
      · exact hux y ((List.mem_cons.1 hy).resolve_left hney) q₂ hq₂ hid
  · have hq₁ : Function.update s.req r (some q) x = none := hq₁
    rcases eq_or_ne x r with rfl | hne
    · rw [Function.update_self] at hq₁
      cases hq₁
    · rw [Function.update_of_ne hne] at hq₁
      exact hok.dead x ((List.mem_cons.1 hx).resolve_left hne) hq₁

namespace Inv
variable (h : s.Inv)
include h

theorem listed_iff (hq : s.req r = some q) (hk : s.io k = some c) : r ∈ c.requests ↔ q.io = k := by
  constructor
  · intro hr
    exact ((h.io k c hk).own r hr q hq).1
  · rintro rfl
    obtain ⟨c', hc', hr⟩ := (h.req r q hq).listed
    rw [hk] at hc'
    cases hc'
    exact hr

theorem servers (servers' : Upstream ι) (ho : servers'.order = s.servers.order) :
    Inv { s with servers := servers' } := by
  refine ⟨fun k c hk => (h.io k c hk).congr (fun _ _ => rfl) (fun _ _ _ => rfl) rfl ho,
    fun r q hq => ?_, fun serv hserv => ?_, h.slot, h.nodup, h.once, fun r hr => ?_⟩
  · exact ⟨(h.req r q hq).listed, (h.req r q hq).watched, (h.req r q hq).quiet⟩
  · rw [show (Resolver.servers { s with servers := servers' }).order = servers'.order from rfl,
      ho] at hserv
    exact h.channels serv hserv
  · exact ⟨(h.fresh r hr).req, (h.fresh r hr).quiet, (h.fresh r hr).unlisted⟩

theorem issue (r : ρ) : (s.issue r).Inv := by
  refine ⟨fun k c hk => (h.io k c hk).congr (fun _ _ => rfl) (fun _ _ _ => rfl) rfl rfl,
    fun r q hq => ?_, h.channels, h.slot, h.nodup, h.once, fun r' hr => ?_⟩
  · exact ⟨(h.req r q hq).listed, (h.req r q hq).watched, (h.req r q hq).quiet⟩
  · have hr : Function.update s.issued r true r' = false := hr
    rcases eq_or_ne r' r with rfl | hne
    · rw [Function.update_self] at hr
      cases hr
    · rw [Function.update_of_ne hne] at hr
      exact ⟨(h.fresh r' hr).req, (h.fresh r' hr).quiet, (h.fresh r' hr).unlisted⟩

theorem uses (hk : s.io k = some c) (n : Nat) : (s.setIo k { c with uses := n }).Inv := by
  have hio : ∀ k' c', (s.setIo k { c with uses := n }).io k' = some c' →
      ∃ c₀, s.io k' = some c₀ ∧ c'.requests = c₀.requests ∧ c'.refs = c₀.refs ∧
      c'.active = c₀.active ∧ c'.srv = c₀.srv := by
    intro k' c' hc'
    have hc' : Function.update s.io k (some { c with uses := n }) k' = some c' := hc'
    rcases eq_or_ne k' k with rfl | hne
    · rw [Function.update_self] at hc'
      cases hc'
      exact ⟨c, hk, rfl, rfl, rfl, rfl⟩
    · rw [Function.update_of_ne hne] at hc'
      exact ⟨c', hc', rfl, rfl, rfl, rfl⟩
  have hback : ∀ k' c₀, s.io k' = some c₀ →
      ∃ c', (s.setIo k { c with uses := n }).io k' = some c' ∧
      c'.requests = c₀.requests ∧ c'.srv = c₀.srv := by
    intro k' c₀ hc₀
    rcases eq_or_ne k' k with rfl | hne
    · rw [hk] at hc₀
      cases hc₀
      exact ⟨_, Function.update_self .., rfl, rfl⟩
    · exact ⟨c₀, (Function.update_of_ne hne ..).trans hc₀, rfl, rfl⟩
  refine ⟨fun k' c' hk' => ?_, fun r q hq => ?_, h.channels, fun serv k' hk' => ?_,
    h.nodup, h.once, fun r hr => ?_⟩
  · obtain ⟨c₀, hc₀, h1, h2, h3, h4⟩ := hio k' c' hk'
    have hok := h.io k' c₀ hc₀
    refine ⟨h1 ▸ hok.nodup, ?_, h2 ▸ hok.pos, ?_, h4 ▸ hok.srv, ?_, h1 ▸ hok.dead⟩
    · have hrefs := hok.refs
      unfold alive at hrefs ⊢
      rw [h1, h2, h3]
      exact hrefs
    · rw [h3, h4]
      exact hok.slot
    · have hown := hok.own
      unfold Unique at hown ⊢
      rw [h1]
      exact hown
  · obtain ⟨c₀, hc₀, hr⟩ := (h.req r q hq).listed
    obtain ⟨c', hc', h1, -⟩ := hback q.io c₀ hc₀
    exact ⟨⟨c', hc', h1 ▸ hr⟩, (h.req r q hq).watched, (h.req r q hq).quiet⟩
  · obtain ⟨c₀, hc₀, hs⟩ := h.slot serv k' hk'
    obtain ⟨c', hc', -, h2⟩ := hback k' c₀ hc₀
    exact ⟨c', hc', h2.trans hs⟩
  · refine ⟨(h.fresh r hr).req, (h.fresh r hr).quiet, fun k' c' hk' => ?_⟩
    obtain ⟨c₀, hc₀, h1, -⟩ := hio k' c' hk'
    rw [h1]
    exact (h.fresh r hr).unlisted k' c₀ hc₀

theorem touch (hq : s.req r = some q) (hio : q'.io = q.io) (hid : q'.id = q.id) (hw : q'.Watched) :
    (s.setReq r q').Inv := by
  have hreq : ∀ r₁ q₁, (s.setReq r q').req r₁ = some q₁ →
    ∃ q₀, s.req r₁ = some q₀ ∧ q₁.io = q₀.io ∧ q₁.id = q₀.id ∧
      (q₀.Watched → q₁.Watched) := by
    intro r₁ q₁ hq₁
    have hq₁ : Function.update s.req r (some q') r₁ = some q₁ := hq₁
    rcases eq_or_ne r₁ r with rfl | hne
    · rw [Function.update_self] at hq₁
      cases hq₁
      exact ⟨q, hq, hio, hid, fun _ => hw⟩
    · rw [Function.update_of_ne hne] at hq₁
      exact ⟨q₁, hq₁, rfl, rfl, id⟩
  have hsome : ∀ r₁, ((s.setReq r q').req r₁).isSome = (s.req r₁).isSome := by
    intro r₁
    rcases eq_or_ne r₁ r with rfl | hne
    · show (Function.update s.req r₁ (some q') r₁).isSome = _
      rw [Function.update_self, hq]
      rfl
    · exact congrArg Option.isSome (Function.update_of_ne hne ..)
  have hnone : ∀ r₁, (s.setReq r q').req r₁ = none → s.req r₁ = none := fun r₁ hr₁ => by
    rw [← Option.not_isSome_iff_eq_none, ← hsome, hr₁]
    exact Bool.false_ne_true
  refine ⟨fun k c hk => ?_, fun r₁ q₁ hq₁ => ?_, h.channels, h.slot, h.nodup, h.once, fun r₁ hr₁ => ?_⟩
  · have hok := h.io k c hk
    refine ⟨hok.nodup, ?_, hok.pos, hok.slot, hok.srv, fun r₁ hr₁ q₁ hq₁ => ?_,
      fun r₁ hr₁ hq₁ => hok.dead r₁ hr₁ (hnone r₁ hq₁)⟩
    · have halive : (s.setReq r q').alive c = s.alive c := List.filter_congr fun r₁ _ => hsome r₁
      rw [halive]
      exact hok.refs
    · obtain ⟨q₀, hq₀, h1, h2, -⟩ := hreq r₁ q₁ hq₁
      obtain ⟨ho, hu⟩ := hok.own r₁ hr₁ q₀ hq₀
      refine ⟨h1.trans ho, fun r₂ hr₂ q₂ hq₂ he => ?_⟩
      obtain ⟨q₃, hq₃, -, h4, -⟩ := hreq r₂ q₂ hq₂
      exact hu r₂ hr₂ q₃ hq₃ (by rw [← h4, he, h2])
  · obtain ⟨q₀, hq₀, h1, -, h3⟩ := hreq r₁ q₁ hq₁
    obtain ⟨c, hc, hr⟩ := (h.req r₁ q₀ hq₀).listed
    exact ⟨⟨c, by rw [h1]; exact hc, hr⟩, h3 (h.req r₁ q₀ hq₀).watched, (h.req r₁ q₀ hq₀).quiet⟩
  · refine ⟨?_, (h.fresh r₁ hr₁).quiet, (h.fresh r₁ hr₁).unlisted⟩
    rw [← Option.not_isSome_iff_eq_none, hsome, (h.fresh r₁ hr₁).req]
    exact Bool.false_ne_true

/-- Two requests that are allocated hold two references. -/
theorem refs_ge (hq : s.req r = some q) (hk : s.io q.io = some c) :
    (if c.active then 1 else 0) + 1 ≤ c.refs ∧ ∀ r' q', s.req r' = some q' → q'.io = q.io →
      r' ≠ r → 2 ≤ c.refs := by
  have hok := h.io _ _ hk
  have hr : r ∈ s.alive c := List.mem_filter.2 ⟨(h.listed_iff hq hk).2 rfl, by rw [hq]; rfl⟩
  have hpos := List.length_pos_of_mem hr
  rw [hok.refs]
  refine ⟨by omega, fun r' q' hq' hio hne => ?_⟩
  rw [← hio] at hk
  have hr' : r' ∈ s.alive c := List.mem_filter.2 ⟨(h.listed_iff hq' hk).2 rfl, by rw [hq']; rfl⟩
  have htwo : 1 < (s.alive c).length := by
    by_contra hle
    obtain ⟨x, hx⟩ := List.length_eq_one_iff.1 (by omega : (s.alive c).length = 1)
    rw [hx, List.mem_singleton] at hr hr'
    exact hne (hr'.trans hr.symm)
  omega

/-- A request is freed. It is out of the hash, or it has been told `neterr` and the hash keeps it. -/
theorem remove (hq : s.req r = some q) (hk : s.io q.io = some c) {rest : List ρ}
    {called' : ρ → List Answer} (hoff : ∀ x ≠ r, called' x = s.called x)
    (hlen : (called' r).length ≤ 1)
    (hrest : rest = c.requests.erase r ∨ rest = c.requests ∧ called' r = [.neterr]) :
    Inv { s.remove r q.io c rest with called := called' } := by
  have hok := h.io _ _ hk
  have hin := (h.listed_iff hq hk).2 rfl
  obtain ⟨hone, htwo⟩ := h.refs_ge hq hk
  have hreq : ∀ x ≠ r, Function.update s.req r none x = s.req x :=
    fun x hx => Function.update_of_ne hx ..
  refine ⟨fun k' c' hk' => ?_, fun x q₁ hx => ?_, h.channels, fun serv k' hk' => ?_, h.nodup,
    fun x => ?_, fun x hx => ?_⟩
  · rcases io_remove.1 hk' with ⟨rfl, hrefs, rfl⟩ | ⟨hne, hk'⟩
    · exact IoOk.remove hrest hok hin hq hrefs hoff
    · have hout : ∀ x ∈ c'.requests, x ≠ r :=
        fun x hx he => hne ((h.listed_iff hq hk').1 (he ▸ hx)).symm
      exact (h.io k' c' hk').congr (fun x hx => hreq x (hout x hx))
        (fun x hx _ => hoff x (hout x hx)) rfl rfl
  · obtain ⟨hne, hx⟩ := req_remove.1 hx
    have hx' := h.req x q₁ hx
    obtain ⟨c₁, hc₁, hin₁⟩ := hx'.listed
    refine ⟨?_, hx'.watched, (hoff x hne).trans hx'.quiet⟩
    rcases eq_or_ne q₁.io q.io with he | hne'
    · -- the two requests hold two references
      have hrefs : c.refs ≠ 1 := by
        have := htwo x q₁ hx he hne
        omega
      rw [he, hk] at hc₁
      cases hc₁
      exact ⟨_, io_remove.2 (.inl ⟨he, hrefs, rfl⟩), mem_rest hrest hin₁ hne⟩
    · exact ⟨c₁, io_remove.2 (.inr ⟨hne', hc₁⟩), hin₁⟩
  · obtain ⟨c₁, hc₁, hsrv⟩ := h.slot serv k' hk'
    rcases eq_or_ne k' q.io with rfl | hne
    · rw [hk] at hc₁
      cases hc₁
      have hact := hok.slot.2 (hsrv.symm ▸ hk')
      rw [hact, if_pos rfl] at hone
      exact ⟨_, io_remove.2 (.inl ⟨rfl, by omega, rfl⟩), hsrv⟩
    · exact ⟨c₁, io_remove.2 (.inr ⟨hne, hc₁⟩), hsrv⟩
  · show (called' x).length ≤ 1
    rcases eq_or_ne x r with rfl | hne
    · exact hlen
    · rw [hoff x hne]
      exact h.once x
  · have hf := h.fresh x hx
    have hne : x ≠ r := fun he => by
      have := hf.req
      rw [he, hq] at this
      cases this
    refine ⟨(hreq x hne).trans hf.req, (hoff x hne).trans hf.quiet, fun k' c' hk' => ?_⟩
    rcases io_remove.1 hk' with ⟨-, -, rfl⟩ | ⟨-, hk'⟩
    · exact fun hx => hf.unlisted _ c hk (mem_of_mem_rest hrest hx)
    · exact hf.unlisted k' c' hk'

theorem enter (hr : s.req r = none) (hquiet : s.called r = [])
    (hun : ∀ k c, s.io k = some c → r ∉ c.requests) (hiss : s.issued r = true)
    (hk : s.io q.io = some c) (hu : s.Unique c r q.id) (hw : q.Watched) : (s.enter r q c).Inv := by
  have hreq : ∀ x ≠ r, Function.update s.req r (some q) x = s.req x :=
    fun x hx => Function.update_of_ne hx ..
  refine ⟨fun k' c' hk' => ?_, fun x q₁ hx => ?_, h.channels, fun serv k' hk' => ?_,
    h.nodup, h.once, fun x hx => ?_⟩
  · rcases io_enter.1 hk' with ⟨rfl, rfl⟩ | ⟨-, hk'⟩
    · exact (h.io _ _ hk).enter (hun _ c hk) hu
    · have hout : ∀ x ∈ c'.requests, x ≠ r := fun x hx he => hun k' c' hk' (he ▸ hx)
      exact (h.io k' c' hk').congr (fun x hx => hreq x (hout x hx)) (fun _ _ _ => rfl) rfl rfl
  · rcases req_enter.1 hx with ⟨rfl, rfl⟩ | ⟨-, hx⟩
    · exact ⟨⟨_, io_enter.2 (.inl ⟨rfl, rfl⟩), List.mem_cons_self⟩, hw, hquiet⟩
    · have hx' := h.req x q₁ hx
      obtain ⟨c₁, hc₁, hin₁⟩ := hx'.listed
      refine ⟨?_, hx'.watched, hx'.quiet⟩
      rcases eq_or_ne q₁.io q.io with he | hne
      · rw [he, hk] at hc₁
        cases hc₁
        exact ⟨_, io_enter.2 (.inl ⟨he, rfl⟩), List.mem_cons_of_mem _ hin₁⟩
      · exact ⟨c₁, io_enter.2 (.inr ⟨hne, hc₁⟩), hin₁⟩
  · obtain ⟨c₁, hc₁, hsrv⟩ := h.slot serv k' hk'
    rcases eq_or_ne k' q.io with rfl | hne
    · rw [hk] at hc₁
      cases hc₁
      exact ⟨_, io_enter.2 (.inl ⟨rfl, rfl⟩), hsrv⟩
    · exact ⟨c₁, io_enter.2 (.inr ⟨hne, hc₁⟩), hsrv⟩
  · have hf := h.fresh x hx
    have hne : x ≠ r := fun he => by
      have hx : s.issued x = false := hx
      rw [he, hiss] at hx
      cases hx
    refine ⟨(hreq x hne).trans hf.req, hf.quiet, fun k' c' hk' => ?_⟩
    rcases io_enter.1 hk' with ⟨-, rfl⟩ | ⟨-, hk'⟩
    · exact fun hx => (List.mem_cons.1 hx).elim hne (hf.unlisted _ c hk)
    · exact hf.unlisted k' c' hk'

theorem mem_replace_iff (hk : s.io k = some c) {i : Nat} (hi : (s.channels serv)[i]? = some k)
    {serv' : ι} {k₁ : κ} :
    k₁ ∈ (s.replace serv i k c k').channels serv' ↔
      serv' = serv ∧ k₁ = k' ∨ k₁ ∈ s.channels serv' ∧ k₁ ≠ k := by
  unfold replace
  rcases eq_or_ne serv' serv with rfl | hne
  · dsimp only
    rw [Function.update_self, mem_set_iff (h.nodup serv') hi]
    simp only [true_and]
  · -- a channel is in the list of its own server only
    have hother : ∀ k₁ ∈ s.channels serv', k₁ ≠ k := by
      rintro k₁ hk₁ rfl
      obtain ⟨c₁, hc₁, hsrv₁⟩ := h.slot serv' k₁ hk₁
      obtain ⟨c₂, hc₂, hsrv₂⟩ := h.slot serv k₁ (List.mem_of_getElem? hi)
      rw [hc₁] at hc₂
      cases hc₂
      exact hne (hsrv₁.symm.trans hsrv₂)
    dsimp only
    rw [Function.update_of_ne hne]
    exact ⟨fun hin => .inr ⟨hin, hother k₁ hin⟩, fun hin => (hin.resolve_left fun hs => hne hs.1).1⟩

theorem replace_ioOk (hk : s.io k = some c) (hserv : serv ∈ s.servers.order) {i : Nat}
    (hi : (s.channels serv)[i]? = some k) (hnew : s.io k' = none) {k₁ : κ} {c₁ : IoChannel ι ρ}
    (hk₁ : (s.replace serv i k c k').io k₁ = some c₁) :
    (s.replace serv i k c k').IoOk k₁ c₁ := by
  rcases io_replace.1 hk₁ with ⟨rfl, hrefs, rfl⟩ | ⟨hne, ⟨rfl, rfl⟩ | ⟨hne', hk₁⟩⟩
  · have hok := h.io _ _ hk
    have hmem := List.mem_of_getElem? hi
    obtain ⟨c₀, hc₀, hsrv⟩ := h.slot serv k₁ hmem
    rw [hk] at hc₀
    cases hc₀
    have hcount := hok.refs
    have hpos := hok.pos
    rw [hok.slot.2 (hsrv.symm ▸ hmem), if_pos rfl] at hcount
    refine ⟨hok.nodup, ?_, ?_, ?_, hok.srv, hok.own, hok.dead⟩
    · show c.refs - 1 = 0 + (s.alive c).length
      omega
    · show 0 < c.refs - 1
      omega
    · refine iff_of_false Bool.false_ne_true fun hin => ?_
      rcases (h.mem_replace_iff hk hi).1 hin with ⟨-, he⟩ | ⟨-, he⟩
      · rw [he, hnew] at hk
        cases hk
      · exact he rfl
  · refine ⟨List.nodup_nil, rfl, Nat.one_pos, ?_, hserv, by simp, by simp⟩
    exact iff_of_true rfl ((h.mem_replace_iff hk hi).2 (.inl ⟨rfl, rfl⟩))
  · have hok₁ := h.io k₁ c₁ hk₁
    refine ⟨hok₁.nodup, hok₁.refs, hok₁.pos, ?_, hok₁.srv, hok₁.own, hok₁.dead⟩
    rw [hok₁.slot, h.mem_replace_iff hk hi]
    exact ⟨fun hin => .inr ⟨hin, hne⟩, fun hin => (hin.resolve_left fun hs => hne' hs.2).1⟩

theorem refresh (hk : s.io k = some c) (hserv : serv ∈ s.servers.order) {i : Nat}
    (hi : (s.channels serv)[i]? = some k) (hnew : s.io k' = none)
    (hempty : c.refs = 1 → c.requests = []) : (s.replace serv i k c k').Inv := by
  have hne' : k' ≠ k := fun he => by
    rw [he, hk] at hnew
    cases hnew
  have hold : ∀ k₁ c₁, s.io k₁ = some c₁ → k₁ ≠ k' := fun k₁ c₁ hc₁ he => by
    rw [he, hnew] at hc₁
    cases hc₁
  refine ⟨fun k₁ c₁ hk₁ => h.replace_ioOk hk hserv hi hnew hk₁, fun x q₁ hx => ?_,
    fun serv' hs => ?_, fun serv' k₁ hk₁ => ?_, fun serv' => ?_, h.once, fun x hx => ?_⟩
  · have hx' := h.req x q₁ hx
    obtain ⟨c₁, hc₁, hin₁⟩ := hx'.listed
    refine ⟨?_, hx'.watched, hx'.quiet⟩
    rcases eq_or_ne q₁.io k with he | hne
    · rw [he, hk] at hc₁
      cases hc₁
      have hrefs : c.refs ≠ 1 := fun hrefs => by
        rw [hempty hrefs] at hin₁
        cases hin₁
      exact ⟨_, io_replace.2 (.inl ⟨he, hrefs, rfl⟩), hin₁⟩
    · exact ⟨c₁, io_replace.2 (.inr ⟨hne, .inr ⟨hold _ c₁ hc₁, hc₁⟩⟩), hin₁⟩
  · rcases eq_or_ne serv' serv with rfl | hne
    · exact List.ne_nil_of_mem ((h.mem_replace_iff hk hi).2 (.inl ⟨rfl, rfl⟩))
    · exact fun hnil => h.channels serv' hs ((Function.update_of_ne hne ..).symm.trans hnil)
  · rcases (h.mem_replace_iff hk hi).1 hk₁ with ⟨rfl, rfl⟩ | ⟨hk₁, hne⟩
    · exact ⟨_, io_replace.2 (.inr ⟨hne', .inl ⟨rfl, rfl⟩⟩), rfl⟩
    · obtain ⟨c₁, hc₁, hsrv₁⟩ := h.slot serv' k₁ hk₁
      exact ⟨c₁, io_replace.2 (.inr ⟨hne, .inr ⟨hold _ c₁ hc₁, hc₁⟩⟩), hsrv₁⟩
  · show (Function.update s.channels serv ((s.channels serv).set i k') serv').Nodup
    rcases eq_or_ne serv' serv with rfl | hs
    · rw [Function.update_self]
      refine (h.nodup serv').set fun hin => ?_
      obtain ⟨c₁, hc₁, -⟩ := h.slot serv' k' hin
      exact hold k' c₁ hc₁ rfl
    · rw [Function.update_of_ne hs]
      exact h.nodup serv'
  · have hf := h.fresh x hx
    refine ⟨hf.req, hf.quiet, fun k₁ c₁ hk₁ => ?_⟩
    rcases io_replace.1 hk₁ with ⟨-, -, rfl⟩ | ⟨-, ⟨-, rfl⟩ | ⟨-, hk₁⟩⟩
    · exact hf.unlisted _ c hk
    · exact List.not_mem_nil
    · exact hf.unlisted k₁ c₁ hk₁

end Inv

end Resolver

end Resend.Dns

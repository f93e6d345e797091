import Resend.Dns.UpstreamRuns

/-!
# Requests under way (resolver.c, util.c)

The life of a request: `rdns_make_request_full` sends it and puts it into the hash of its channel,
and then the event loop calls back, when a packet has been read, a timer has run out or a socket can
be written. The handlers are run on a state that has the allocated channels and requests. `none` is
a broken contract: a watcher is deleted that is not there or is of the other kind, a hash is used
that has a freed request in it, a request is taken out of a hash it is not in, or a freed channel or
request or `NULL` is read. What `send` and `read` do, what `rdns_parse_reply` makes of a packet, the
random numbers and the clock are part of the action.
-/

namespace Resend.Dns

inductive ReqState
  | new
  | registered
  | sent
  | replied
  deriving DecidableEq, Repr

/-- What the event loop waits for on behalf of a request. -/
inductive Watch
  | timer
  | write
  deriving DecidableEq, Repr

/-- `send`: the packet is out, `EAGAIN` or `EINTR`, another error. -/
inductive SendResult
  | out
  | again
  | failed
  deriving DecidableEq, Repr

/-- What `req->func` is called with. -/
inductive Answer
  | reply
  | timeout
  | neterr
  deriving DecidableEq, Repr

/-- `struct rdns_request`; `event` is what `async_event` stands for while the loop has it. -/
structure Req (κ : Type) where
  io : κ
  id : Nat
  state : ReqState
  retransmits : Nat
  event : Option Watch
  deriving DecidableEq, Repr

/-- `req->retransmits --`, which is an `unsigned int` -/
def Req.left {κ : Type} (q : Req κ) : Nat := if q.retransmits = 0 then 4294967295 else q.retransmits - 1

/-- How often the timer of a request has to run out until it is given up. -/
def Req.lives {κ : Type} (q : Req κ) : Nat := if q.retransmits = 0 then 2 ^ 32 else q.retransmits

/-- `struct rdns_io_channel`, with the requests of its hash, the last one first. -/
structure IoChannel (ι ρ : Type) where
  srv : ι
  active : Bool
  requests : List ρ
  uses : Nat
  refs : Nat
  deriving DecidableEq, Repr

/-- The resolver, the channels and requests that are allocated, and the calls of `req->func`.
`issued` are the requests that have been allocated so far. -/
structure Resolver (ι κ ρ : Type) where
  servers : Upstream ι
  channels : ι → List κ
  io : κ → Option (IoChannel ι ρ)
  req : ρ → Option (Req κ)
  called : ρ → List Answer
  issued : ρ → Bool

namespace Resolver
variable {ι κ ρ : Type} [DecidableEq ι] [DecidableEq κ] [DecidableEq ρ]

def setReq (s : Resolver ι κ ρ) (r : ρ) (q : Req κ) : Resolver ι κ ρ :=
  { s with req := Function.update s.req r (some q) }

def setIo (s : Resolver ι κ ρ) (k : κ) (c : IoChannel ι ρ) : Resolver ι κ ρ :=
  { s with io := Function.update s.io k (some c) }

/-- No request in the hash has been freed. That is more than uthash asks for, which reads the head
of the hash, the bucket and, to delete, the neighbours only: a hash that is not sound ends the run
here, though the code may get on with it. -/
def Sound (s : Resolver ι κ ρ) (c : IoChannel ι ρ) : Prop := ∀ r ∈ c.requests, (s.req r).isSome = true

instance (s : Resolver ι κ ρ) (c : IoChannel ι ρ) : Decidable (s.Sound c) :=
  inferInstanceAs (Decidable (∀ r ∈ c.requests, (s.req r).isSome = true))

/-- `HASH_FIND_INT` in a hash without freed requests -/
def hashFind (s : Resolver ι κ ρ) (k : κ) (id : Nat) : Option (Option ρ) :=
  match s.io k with
  | none => none
  | some c => if s.Sound c then some (c.requests.find? fun r => (s.req r).any fun q => q.id = id)
    else none

/-- `HASH_ADD_INT` -/
def hashAdd (s : Resolver ι κ ρ) (k : κ) (r : ρ) : Option (Resolver ι κ ρ) :=
  match s.io k with
  | none => none
  | some c => if s.Sound c then some (s.setIo k { c with requests := r :: c.requests }) else none

/-- `HASH_DEL` -/
def hashDel (s : Resolver ι κ ρ) (k : κ) (r : ρ) : Option (Resolver ι κ ρ) :=
  match s.io k with
  | none => none
  | some c => if s.Sound c ∧ r ∈ c.requests then
    some (s.setIo k { c with requests := c.requests.erase r }) else none

/-- `del_timer` and `del_write`: the watcher has to be there and of the kind. -/
def delWatch (s : Resolver ι κ ρ) (r : ρ) (w : Watch) : Option (Resolver ι κ ρ) :=
  match s.req r with
  | none => none
  | some q => if q.event = some w then some (s.setReq r { q with event := none }) else none

/-- `REF_RELEASE (io)`, with `rdns_ioc_free` where it is the last reference: that one releases every
request of the hash, but the request that is being freed itself has no reference left. -/
def releaseIo (s : Resolver ι κ ρ) (k : κ) (self : Option ρ) : Option (Resolver ι κ ρ) :=
  match s.io k with
  | none => none
  | some c =>
    if c.refs = 1 then
      if ∀ r ∈ c.requests, some r = self then some { s with io := Function.update s.io k none }
      else none
    else some (s.setIo k { c with refs := c.refs - 1 })

/-- `rdns_request_free` -/
def requestFree (s : Resolver ι κ ρ) (r : ρ) : Option (Resolver ι κ ρ) := do
  let q ← s.req r
  let s ← match q.state with
    | .sent => do
      let s ← s.delWatch r .timer
      s.hashDel q.io r
    | .registered => s.delWatch r .write
    | .new | .replied => some s
  let s ← if q.state = .new then some s else s.releaseIo q.io (some r)
  some { s with req := Function.update s.req r none }

/-- `rdns_request_unschedule` -/
def unschedule (s : Resolver ι κ ρ) (r : ρ) : Option (Resolver ι κ ρ) := do
  let q ← s.req r
  let s ← s.delWatch r .timer
  s.hashDel q.io r

/-- `req->state = RDNS_REQUEST_REPLIED` -/
def replied (s : Resolver ι κ ρ) (r : ρ) : Option (Resolver ι κ ρ) := do
  let q ← s.req r
  some (s.setReq r { q with state := .replied })

/-- `req->func (rep, req->arg); REF_RELEASE (req)` -/
def answer (s : Resolver ι κ ρ) (r : ρ) (a : Answer) : Option (Resolver ι κ ρ) :=
  requestFree { s with called := Function.update s.called r (s.called r ++ [a]) } r

/-- `UPSTREAM_FAIL (req->io->srv, now)` -/
def failServer (s : Resolver ι κ ρ) (k : κ) (now : Int) : Option (Resolver ι κ ρ) := do
  let c ← s.io k
  some { s with servers := s.servers.fail c.srv now }

/-- The loop of `rdns_send_request` that looks for an id which no request on the channel has: the
id, and whether one was found. -/
def uniqueId (s : Resolver ι κ ρ) (k : κ) (rand : Nat → Nat) : Nat → Nat → Option (Nat × Bool)
  | 0, id => do
    let tmp ← s.hashFind k id
    some (id, tmp.isNone)
  | n + 1, id => do
    let tmp ← s.hashFind k id
    if tmp.isNone then some (id, true) else uniqueId s k rand n (rand n)

def MAX_ID_CYCLES : Nat := 32

/-- `rdns_send_request` -/
def sendRequest (s : Resolver ι κ ρ) (r : ρ) (newReq : Bool) (rand : Nat → Nat) (sent : SendResult) :
    Option (Resolver ι κ ρ × Int) := do
  let q ← s.req r
  if newReq then
    let (id, unique) ← s.uniqueId q.io rand MAX_ID_CYCLES q.id
    let s := s.setReq r { q with id := id }
    if unique then
      match sent with
      | .again => do
        let s ← s.hashAdd q.io r
        some (s.setReq r { q with id := id, event := some .write }, 0)
      | .failed => some (s, -1)
      | .out => do
        let s ← s.hashAdd q.io r
        some (s.setReq r { q with id := id, event := some .timer, state := .sent }, 1)
    else some (s, -1)
  else
    match sent with
    | .again => some (s, 0)
    | .failed => some (s, -1)
    | .out => some (s, 1)

/-- `UPSTREAM_SELECT_ROUND_ROBIN` and `serv->io_channels[ottery_rand_uint32 () % serv->io_cnt]`,
with `uses ++`. -/
def selectIo (s : Resolver ι κ ρ) (n : Nat) : Option (Resolver ι κ ρ × κ) := do
  let (serv, servers) ← s.servers.select
  let k ← (s.channels serv)[n % (s.channels serv).length]?
  let c ← s.io k
  some ({ s with servers := servers }.setIo k { c with uses := (c.uses + 1) % 2 ^ 64 }, k)

/-- `REF_RETAIN (io)` -/
def retainIo (s : Resolver ι κ ρ) (k : κ) : Option (Resolver ι κ ρ) := do
  let c ← s.io k
  some (s.setIo k { c with refs := c.refs + 1 })

/-- `rdns_make_request_full` from the selection of the server on, for a request with the id `id`. -/
def makeRequestFull (s : Resolver ι κ ρ) (r : ρ) (id repeats n : Nat) (rand : Nat → Nat)
    (sent : SendResult) :
    Option (Resolver ι κ ρ) := do
  let (s, k) ← s.selectIo n
  let s := { s.setReq r ⟨k, id, .new, repeats, none⟩ with issued := Function.update s.issued r true }
  let (s, res) ← s.sendRequest r true rand sent
  if res = -1 then s.requestFree r else s.retainIo k

/-- `rdns_process_read`: the id that was read, if the packet is long enough, and whether
`rdns_parse_reply` accepts it. What happens within that one, an overrun in the resource records too,
is not in here. -/
def processRead (s : Resolver ι κ ρ) (k : κ) (id : Option Nat) (accepted : Bool) :
    Option (Resolver ι κ ρ) := do
  let req ← match id with
    | none => some none
    | some id => s.hashFind k id
  match req with
  | none => do
    let c ← s.io k
    some (s.setIo k { c with uses := (c.uses + 1) % 2 ^ 64 })
  | some r =>
    if accepted then do
      let q ← s.req r
      let c ← s.io q.io
      let s ← { s with servers := s.servers.ok c.srv }.replied r
      let s ← s.unschedule r
      s.answer r .reply
    else some s

/-- `rdns_process_timer` -/
def processTimer (s : Resolver ι κ ρ) (r : ρ) (now : Int) (n : Nat) (rand : Nat → Nat)
    (sent : SendResult) :
    Option (Resolver ι κ ρ) := do
  let q ← s.req r
  let s := s.setReq r { q with retransmits := q.left }
  if q.left = 0 then
    let s ← s.failServer q.io now
    let s ← s.replied r
    let s ← s.unschedule r
    s.answer r .timeout
  else
    let c ← s.io q.io
    let (s, renew) ← if c.active then some (s, false) else do
      let s ← s.unschedule r
      let s ← s.releaseIo q.io none
      let (s, k) ← s.selectIo n
      let s := s.setReq r { q with retransmits := q.left, event := none, io := k }
      let s ← s.retainIo k
      some (s, true)
    let (s, res) ← s.sendRequest r renew rand sent
    let q ← s.req r
    if res = 0 then
      let s ← s.delWatch r .timer
      some (s.setReq r { q with event := some .write, state := .registered })
    else if res = -1 then
      let s ← s.failServer q.io now
      let s ← s.replied r
      let s ← s.unschedule r
      s.answer r .neterr
    -- `repeat_timer`
    else if q.event = some .timer then some s
    else none

/-- `rdns_process_retransmit` -/
def processRetransmit (s : Resolver ι κ ρ) (r : ρ) (now : Int) (sent : SendResult) :
    Option (Resolver ι κ ρ) := do
  let s ← s.delWatch r .write
  let (s, res) ← s.sendRequest r false id sent
  let q ← s.req r
  if res = 0 then some (s.setReq r { q with event := some .write, state := .registered })
  else if res = -1 then
    let s ← s.failServer q.io now
    let s ← s.replied r
    s.answer r .neterr
  else some (s.setReq r { q with event := some .timer, state := .sent })

/-- One round of `rdns_process_ioc_refresh`, for the channel `i` of the server `serv`; `new` is the
channel that is put in its place. -/
def refreshIo (s : Resolver ι κ ρ) (serv : ι) (i : Nat) (new : κ) (maxIocUses : Nat) :
    Option (Resolver ι κ ρ) := do
  let k ← (s.channels serv)[i]?
  let c ← s.io k
  if 0 < maxIocUses ∧ maxIocUses < c.uses then
    let s := s.setIo new ⟨serv, true, [], 0, 1⟩
    let s := { s with channels := Function.update s.channels serv ((s.channels serv).set i new) }
    let s := s.setIo k { c with active := false }
    s.releaseIo k none
  else some s

/-- What the application and the event loop do with the resolver. -/
inductive Act (ι κ ρ : Type)
  | make (r : ρ) (id repeats n : Nat) (rand : Nat → Nat) (sent : SendResult)
  | read (k : κ) (id : Option Nat) (accepted : Bool)
  | timer (r : ρ) (now : Int) (n : Nat) (rand : Nat → Nat) (sent : SendResult)
  | writable (r : ρ) (now : Int) (sent : SendResult)
  | refresh (serv : ι) (i : Nat) (new : κ) (maxIocUses : Nat)
  | rescan (now : Int)

/-- The next state; `none` where the contract of the event loop, of a hash or of a reference is
broken. -/
def act (s : Resolver ι κ ρ) : Act ι κ ρ → Option (Resolver ι κ ρ)
  | .make r id repeats n rand sent => s.makeRequestFull r id repeats n rand sent
  | .read k id accepted => s.processRead k id accepted
  | .timer r now n rand sent => s.processTimer r now n rand sent
  | .writable r now sent => s.processRetransmit r now sent
  | .refresh serv i new maxIocUses => s.refreshIo serv i new maxIocUses
  | .rescan now => (s.servers.rescan now).map fun servers => { s with servers := servers }

/-- What can happen: a request is made once, the loop calls for a watcher that it has, and a new
channel is new. -/
def Enabled (s : Resolver ι κ ρ) : Act ι κ ρ → Prop
  | .make r _ _ _ _ _ => s.issued r = false
  | .read k _ _ => (s.io k).isSome = true
  | .timer r _ _ _ _ => (s.req r).any (fun q => q.event = some .timer) = true
  | .writable r _ _ => (s.req r).any (fun q => q.event = some .write) = true
  | .refresh serv i new _ => serv ∈ s.servers.order ∧ i < (s.channels serv).length ∧ s.io new = none
  | .rescan _ => True

instance (s : Resolver ι κ ρ) (a : Act ι κ ρ) : Decidable (s.Enabled a) := by
  cases a <;> unfold Enabled <;> infer_instance

/-- `rdns_resolver_init` has been called: every server has its channels, and there are no requests. -/
structure Init (s : Resolver ι κ ρ) : Prop where
  servers : ∃ n, (Upstream.machine ι).Reach (s.servers, n)
  nonempty : s.servers.order ≠ []
  channels : ∀ serv ∈ s.servers.order, s.channels serv ≠ []
  nodup : ∀ serv, (s.channels serv).Nodup
  io : ∀ k c, s.io k = some c ↔ ∃ serv ∈ s.servers.order, k ∈ s.channels serv ∧
    c = ⟨serv, true, [], 0, 1⟩
  added : ∀ serv k, k ∈ s.channels serv → serv ∈ s.servers.order
  req : ∀ r, s.req r = none ∧ s.called r = [] ∧ s.issued r = false

def machine (ι κ ρ : Type) [DecidableEq ι] [DecidableEq κ] [DecidableEq ρ] :
    Machine (Resolver ι κ ρ) (Act ι κ ρ) where
  init s := s.Init
  step s a := s.act a

end Resolver

end Resend.Dns

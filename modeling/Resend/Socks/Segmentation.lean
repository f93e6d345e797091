import Resend.Socks.TcpHandler

/-!
# How a stream is cut matters

The handshake takes the first result of `recv` for the greeting, whatever is in it: bytes of the
request that came along are lost, and methods that did not come along are read from the buffer's old
contents. So two ways of cutting a stream agree only if all they read of the greeting is the same
and nothing hangs on the rest.
-/

namespace Resend.Socks
open Handler TcpHandler

/-- A stream that starts with a complete SOCKS5 greeting. -/
structure Greeting (methods rest stream : List UInt8) : Prop where
  count : methods.length < 256
  stream_eq : stream = 0x05 :: UInt8.ofNat methods.length :: (methods ++ rest)

/-- `stream` cut into results of `recv`. -/
structure Cut (stream : List UInt8) (chunks : List (List UInt8)) : Prop where
  flatten : chunks.flatten = stream
  nonempty : ∀ data ∈ chunks, data ≠ []

/-- What the local program is sent. -/
def replies (es : List Effect) : List (List UInt8) := es.filterMap fun
  | .send data => some data
  | _ => none

/-- What goes into the tunnel, less the four bytes in front of each message. -/
def forwarded (es : List Effect) : List UInt8 := (es.filterMap fun
  | .typrotoSend m => some m.payload
  | _ => none).flatten

/-- The effects of a new handler that reads `chunks`. -/
def front (clientSd : Nat) (junk : Nat → Nat → UInt8) (chunks : List (List UInt8)) : List Effect :=
  (exec (readAll junk chunks) (accepted clientSd)).2

/-- Both ways of cutting the stream give the same reply and the same bytes. -/
def SameFront (clientSd : Nat) (chunks chunks' : List (List UInt8)) : Prop :=
  ∀ junk junk', replies (front clientSd junk chunks) = replies (front clientSd junk' chunks') ∧
    forwarded (front clientSd junk chunks) = forwarded (front clientSd junk' chunks')

/-! ### After the handshake -/

theorem readAll_deleted {h : TcpHandler} (hl : h.listed = false) (junk : Nat → Nat → UInt8)
    (chunks : List (List UInt8)) : wp (readAll junk chunks) (fun _ _ es => es = []) h := by
  induction chunks generalizing junk with
  | nil => exact rfl
  | cons data chunks ih =>
    rw [readAll, wp_bind, wp_get, wp_bind, wp_when, if_neg (by simp [hl])]
    exact ih _

theorem readAll_open {h : TcpHandler} (hl : h.listed = true) (hn : h.needSocks5Handshake = false)
    (junk : Nat → Nat → UInt8) {chunks : List (List UInt8)} (hc : ∀ data ∈ chunks, data ≠ []) :
    wp (readAll junk chunks) (fun _ _ es => replies es = [] ∧ forwarded es = chunks.flatten) h := by
  induction chunks generalizing junk with
  | nil => exact ⟨rfl, rfl⟩
  | cons data chunks ih =>
    obtain ⟨hdata, hchunks⟩ := List.forall_mem_cons.1 hc
    rw [readAll, wp_bind, wp_get, wp_bind, wp_when, if_pos hl,
      wp_readCb hdata hl, if_neg (by simp [hn])]
    refine wp_mono _ (ih _ hchunks) fun _ _ es hes => ?_
    constructor
    · simpa [replies] using hes.1
    · simpa [forwarded] using hes.2

/-- The whole of it: the first chunk decides. -/
theorem front_eq (clientSd : Nat) (junk : Nat → Nat → UInt8) {data : List UInt8}
    {chunks : List (List UInt8)} (hd : data.head? = some 0x05) (hc : ∀ data ∈ chunks, data ≠ []) :
    replies (front clientSd junk (data :: chunks)) =
        [[0x05, if acceptsMethod data (junk 0) then 0x00 else 0xFF]] ∧
      forwarded (front clientSd junk (data :: chunks)) =
        if acceptsMethod data (junk 0) then chunks.flatten else [] := by
  have hdata : data ≠ [] := by
    rintro rfl
    cases hd
  have h5 : bufferAt data (junk 0) 0 = 0x05 := by
    rw [bufferAt, List.getD_eq_getElem?_getD, ← List.head?_eq_getElem?, hd]
    rfl
  have hwp : wp (readAll junk (data :: chunks)) (fun _ _ es =>
      replies es = [[0x05, if acceptsMethod data (junk 0) then 0x00 else 0xFF]] ∧
      forwarded es = if acceptsMethod data (junk 0) then chunks.flatten else [])
        (accepted clientSd) := by
    have hl : (accepted clientSd).listed = true := rfl
    rw [readAll, wp_bind, wp_get, wp_bind, wp_when, if_pos hl, wp_readCb hdata hl, if_pos ⟨rfl, h5⟩]
    cases hacc : acceptsMethod data (junk 0) with
    | true =>
      rw [if_pos rfl]
      refine wp_mono _ (readAll_open (h := ⟨clientSd, false, true⟩) rfl rfl _ hc) fun _ _ es hes => ?_
      constructor
      · simpa [replies] using hes.1
      · simpa [forwarded] using hes.2
    | false =>
      rw [if_neg (by decide)]
      refine wp_mono _ (readAll_deleted
        (h := ⟨clientSd, false, false⟩) rfl _ chunks) fun _ _ es hes => ?_
      subst hes
      exact ⟨rfl, rfl⟩
  exact hwp

/-! ### The first chunk -/

section first
variable {methods rest stream : List UInt8}

theorem bufferAt_method (hg : Greeting methods rest stream) {k i : Nat} (hk : 2 + i < k)
    (hi : i < methods.length) (junk : Nat → UInt8) :
    bufferAt (stream.take k) junk (2 + i) = methods[i] := by
  rw [bufferAt, hg.stream_eq, List.getD_eq_getElem?_getD, List.getElem?_take_of_lt hk, Nat.add_comm 2 i]
  simp [List.getElem?_append_left hi, hi]

theorem bufferAt_past {k i : Nat} (hk : k ≤ i) (junk : Nat → UInt8) :
    bufferAt (stream.take k) junk i = junk i := by
  rw [bufferAt, List.getD_eq_getElem?_getD, List.getElem?_eq_none (by simp; omega)]
  rfl

theorem bufferAt_count (hg : Greeting methods rest stream) {k : Nat} (hk : 2 ≤ k) (junk : Nat → UInt8) :
    (bufferAt (stream.take k) junk 1).toNat = methods.length := by
  rw [bufferAt, hg.stream_eq, List.getD_eq_getElem?_getD, List.getElem?_take_of_lt hk]
  simp [Nat.mod_eq_of_lt hg.count]

theorem accepts_of_mem (hg : Greeting methods rest stream) {k : Nat} (h0 : 0x00 ∈ methods.take (k - 2))
    (junk : Nat → UInt8) : acceptsMethod (stream.take k) junk = true := by
  obtain ⟨i, hi, h0⟩ := List.mem_iff_getElem.1 h0
  simp only [List.length_take, lt_min_iff] at hi
  rw [List.getElem_take] at h0
  rw [acceptsMethod, bufferAt_count hg (by omega), List.any_eq_true]
  refine ⟨i, List.mem_range.2 hi.2, ?_⟩
  rw [bufferAt_method hg (by omega) hi.2, h0]
  rfl

/-- Without one the greeting is refused, unless the old contents of the buffer supply it. -/
theorem refuses_of_not_mem (hg : Greeting methods rest stream) {k : Nat}
    (h0 : 0x00 ∉ methods.take (k - 2)) {j : Nat → UInt8}
    (hj : ∀ i, k ≤ i → (2 ≤ k → i < 2 + methods.length) → j i ≠ 0x00) :
    acceptsMethod (stream.take k) j = false := by
  rw [acceptsMethod, List.any_eq_false]
  intro i hi
  rw [List.mem_range] at hi
  by_cases hk : 2 + i < k
  · rw [bufferAt_count hg (by omega)] at hi
    rw [bufferAt_method hg hk hi]
    intro hz
    refine h0 (List.mem_iff_getElem.2 ⟨i, by simp; omega, ?_⟩)
    rw [List.getElem_take]
    simpa using hz
  · rw [bufferAt_past (by omega)]
    have hne : j (2 + i) ≠ 0x00 := by
      refine hj (2 + i) (by omega) fun h2 => ?_
      rw [bufferAt_count hg h2] at hi
      omega
    simpa using hne

/-- They may do so for every method that is still to come. -/
theorem accepts_of_lt (hg : Greeting methods rest stream) {k : Nat} (hk : k < 2 + methods.length) :
    acceptsMethod (stream.take k) (fun i => if i = 1 then 1 else 0x00) = true := by
  rw [acceptsMethod, List.any_eq_true]
  by_cases h2 : 2 ≤ k
  · rw [bufferAt_count hg h2]
    refine ⟨k - 2, List.mem_range.2 (by omega), ?_⟩
    rw [bufferAt_past (by omega), if_neg (by omega)]
    rfl
  · rw [bufferAt_past (by omega)]
    refine ⟨0, List.mem_range.2 (by decide), ?_⟩
    rw [bufferAt_past (by omega)]
    rfl

/-- The first `k` bytes settle the answer: they hold a method 0, or the whole greeting and no such
method. -/
theorem settled_iff (hg : Greeting methods rest stream) (k : Nat) (b : Bool) :
    (∀ junk, acceptsMethod (stream.take k) junk = b) ↔
      if b then 0x00 ∈ methods.take (k - 2) else 0x00 ∉ methods ∧ 2 + methods.length ≤ k := by
  constructor
  · intro h
    cases b with
    | true =>
      rw [if_pos rfl]
      by_contra h0
      have hones := refuses_of_not_mem hg h0 (j := fun _ => 1) fun _ _ _ => by decide
      rw [h] at hones
      cases hones
    | false =>
      rw [if_neg (by decide)]
      have hk : 2 + methods.length ≤ k := by
        by_contra hlt
        have hzero := accepts_of_lt hg (k := k) (by omega)
        rw [h] at hzero
        cases hzero
      refine ⟨fun h0 => ?_, hk⟩
      have hzero := accepts_of_mem hg (k := k) (by rwa [List.take_of_length_le (by omega)]) (fun _ => 0)
      rw [h] at hzero
      cases hzero
  · intro h junk
    cases b with
    | true => exact accepts_of_mem hg h junk
    | false =>
      obtain ⟨h0, hk⟩ := h
      refine refuses_of_not_mem hg (fun hmem => h0 (List.mem_of_mem_take hmem)) fun i hi hlt => ?_
      have := hlt (by omega)
      omega

end first

/-- The two first chunks settle the same answer, and if that is yes, they are the same. -/
def Settled (methods : List UInt8) (k k' : Nat) : Prop :=
  (0x00 ∈ methods.take (k - 2) ∧ k = k') ∨
    (0x00 ∉ methods ∧ 2 + methods.length ≤ k ∧ 2 + methods.length ≤ k')

theorem Cut.first {methods rest stream data : List UInt8} {chunks : List (List UInt8)}
    (hc : Cut stream (data :: chunks)) (hg : Greeting methods rest stream) :
    data = stream.take data.length ∧ chunks.flatten = stream.drop data.length ∧
      data.length ≤ stream.length ∧
      data.head? = some 0x05 := by
  have hflat : data ++ chunks.flatten = stream := hc.flatten
  obtain ⟨b, t, rfl⟩ := List.exists_cons_of_ne_nil (hc.nonempty data List.mem_cons_self)
  refine ⟨?_, ?_, ?_, ?_⟩
  · rw [← hflat, List.take_left]
  · rw [← hflat, List.drop_left]
  · rw [← hflat, List.length_append]; omega
  · have h5 := hflat.trans hg.stream_eq
    rw [List.cons_append, List.cons.injEq] at h5
    rw [h5.1]
    rfl

theorem reply_inj {b b' : Bool}
    (h : [[(0x05 : UInt8), if b then 0x00 else 0xFF]] = [[0x05, if b' then 0x00 else 0xFF]]) :
    b = b' := by
  cases b <;> cases b' <;> first | rfl | exact absurd h (by decide)

/-- Two ways of cutting a stream come to the same if and only if their first chunks do. -/
theorem sameFront_iff {methods rest stream data data' : List UInt8}
    {chunks chunks' : List (List UInt8)} (hg : Greeting methods rest stream)
    (hc : Cut stream (data :: chunks)) (hc' : Cut stream (data' :: chunks')) (clientSd : Nat) :
    SameFront clientSd (data :: chunks) (data' :: chunks') ↔
      Settled methods data.length data'.length := by
  obtain ⟨hd, hrest, hle, h5⟩ := hc.first hg
  obtain ⟨hd', hrest', hle', h5'⟩ := hc'.first hg
  have hfront := fun junk => front_eq clientSd junk h5 fun c hmem =>
    hc.nonempty c (List.mem_cons_of_mem _ hmem)
  have hfront' := fun junk => front_eq clientSd junk h5' fun c hmem =>
    hc'.nonempty c (List.mem_cons_of_mem _ hmem)
  have hset := settled_iff hg data.length
  have hset' := settled_iff hg data'.length
  rw [← hd] at hset
  rw [← hd'] at hset'
  constructor
  · intro h
    have hacc : ∀ j j', acceptsMethod data j = acceptsMethod data' j' := by
      intro j j'
      have hr := (h (fun _ => j) fun _ => j').1
      rw [(hfront _).1, (hfront' _).1] at hr
      exact reply_inj hr
    have hb : ∀ j, acceptsMethod data j = acceptsMethod data' fun _ => 0 := fun j => hacc j _
    have hb' : ∀ j, acceptsMethod data' j = acceptsMethod data' fun _ => 0 :=
      fun j => (hacc (fun _ => 0) j).symm.trans (hb _)
    have hf := (h (fun _ _ => 0) fun _ _ => 0).2
    rw [(hfront _).2, (hfront' _).2, hb] at hf
    generalize acceptsMethod data' (fun _ => 0) = b at hb hb' hf
    cases b with
    | true =>
      rw [if_pos rfl, if_pos rfl, hrest, hrest'] at hf
      have hlen := congrArg List.length hf
      rw [List.length_drop, List.length_drop] at hlen
      exact .inl ⟨(hset true).1 hb, by omega⟩
    | false =>
      obtain ⟨h0, hk⟩ := (hset false).1 hb
      exact .inr ⟨h0, hk, ((hset' false).1 hb').2⟩
  · rintro (⟨h0, hlen⟩ | ⟨h0, hk, hk'⟩) junk junk'
    · have hb := (hset true).2 h0
      have hb' := (hset' true).2 (hlen ▸ h0)
      rw [(hfront _).1, (hfront' _).1, (hfront _).2, (hfront' _).2, hb, hb', hrest, hrest', hlen]
      exact ⟨rfl, rfl⟩
    · have hb := (hset false).2 ⟨h0, hk⟩
      have hb' := (hset' false).2 ⟨h0, hk'⟩
      rw [(hfront _).1, (hfront' _).1, (hfront _).2, (hfront' _).2, hb, hb']
      exact ⟨rfl, rfl⟩

/-- A greeting in a chunk of its own, with the request in one piece or in two. -/
theorem sameFront_iff_alone : SameFront 7 [[5, 1, 0], [5, 1, 0, 1]] [[5, 1, 0], [5], [1, 0, 1]] := by
  have hg : Greeting [0] [5, 1, 0, 1] [5, 1, 0, 5, 1, 0, 1] := ⟨by decide, rfl⟩
  refine (sameFront_iff hg ⟨rfl, by decide⟩ ⟨rfl, by decide⟩ 7).2 (.inl ⟨by decide, rfl⟩)

/-- The same stream in one chunk: the request is lost. -/
theorem exists_cut_matters : ∃ methods rest stream chunks chunks', Greeting methods rest stream ∧
    Cut stream chunks ∧ Cut stream chunks' ∧ ¬ SameFront 7 chunks chunks' := by
  refine ⟨[0], [5, 1, 0, 1], [5, 1, 0, 5, 1, 0, 1], [[5, 1, 0], [5, 1, 0, 1]], [[5, 1, 0, 5, 1, 0, 1]],
    ⟨by decide, rfl⟩, ⟨rfl, by decide⟩, ⟨rfl, by decide⟩, fun h => ?_⟩
  have hf := (h (fun _ _ => 0) fun _ _ => 0).2
  exact absurd hf (by decide)

end Resend.Socks

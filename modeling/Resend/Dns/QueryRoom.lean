import Resend.Dns.Query

/-!
# The room of a request

The packet has as many bytes as the names together have, and 113. An ASCII name takes at most two
more than it has, so up to 15 questions have room. A name in punycode may be longer than the name as
it was given, and nothing checks that.
-/

namespace Resend.Dns

open Memory

variable {name l : List UInt8} {ls : List (List UInt8)} {q q' : Query} {target : Nat}

theorem named_drop (h0 : calculateLabelLen name ≠ 0) (hs : calculateLabelLen name ≤ MAXLABEL) :
    Named name ↔ Named (name.drop (calculateLabelLen name + 1)) := by
  constructor
  · rintro ⟨ls, h⟩
    obtain ⟨-, ls', -, hrest⟩ := h.uncons h0
    exact ⟨ls', hrest⟩
  · rintro ⟨ls, h⟩
    exact ⟨_, h.cons hs h0⟩

theorem Named.short (h : Named name) : calculateLabelLen name ≤ MAXLABEL := by
  obtain ⟨ls, h⟩ := h
  by_cases h0 : calculateLabelLen name = 0
  · rw [h0]
    exact Nat.zero_le _
  · have hs := (h.uncons h0).1.short
    rw [List.length_take] at hs
    have := (labelLen_split name).2.1
    omega

/-- The room that the bytes of a name take at most. -/
def room (name : List UInt8) : Nat := if name = [] then 1 else name.length + 2

theorem room_drop (h0 : calculateLabelLen name ≠ 0) :
    calculateLabelLen name + 1 + room (name.drop (calculateLabelLen name + 1)) ≤ room name := by
  have hle := (labelLen_split name).2.1
  unfold room
  rw [if_neg (labelLen_pos_ne_nil h0)]
  split_ifs with hnil
  · omega
  · have hlong := List.length_pos_iff.2 hnil
    rw [List.length_drop] at *
    omega

/-- The keys of the table are names with a label. -/
def Query.Keys (q : Query) (n : Nat) : Prop :=
  ∀ s offset, q.canCompress s = some offset → s.length ≤ n → Named s ∧ calculateLabelLen s ≠ 0

/-- What a call of `rdns_write_name_compressed` leaves alone, and what it may add to the table. -/
structure Grown (q : Query) (name : List UInt8) (n : Nat) (q' : Query) : Prop where
  length : q'.packet.length = q.packet.length
  pos : q'.pos ≤ n
  table : q'.comp.isSome = q.comp.isSome
  keys : ∀ s offset, q'.canCompress s = some offset → q.canCompress s = some offset ∨
    Named s ∧ calculateLabelLen s ≠ 0
  kept : ∀ s, (q.canCompress s).isSome → (q'.canCompress s).isSome
  self : q.comp.isSome → calculateLabelLen name ≠ 0 → (q'.canCompress name).isSome

theorem Query.put_ok (i : Nat) (bytes : List UInt8) (h : i + bytes.length ≤ q.packet.length) :
    ∃ q', q.put i bytes = .ok q' ∧ q'.comp = q.comp ∧ q'.pos = q.pos ∧
      q'.packet.length = q.packet.length := by
  obtain ⟨m, hm⟩ := Option.isSome_iff_exists.1 (store_isSome_iff.2 h)
  refine ⟨{ q with packet := m }, ?_, rfl, rfl, length_store hm⟩
  unfold put
  rw [hm]

theorem Query.put_overrun (i : Nat) (bytes : List UInt8) (h : q.packet.length < i + bytes.length) :
    q.put i bytes = .error .overrun := by
  have hnone : store q.packet i bytes = none := if_neg (by omega)
  unfold put
  rw [hnone]

theorem Query.canCompress_congr (h : q'.comp = q.comp) (s : List UInt8) :
    q'.canCompress s = q.canCompress s := by
  unfold canCompress
  rw [h]

theorem Query.terminate_ok (target n : Nat) (h0 : calculateLabelLen name = 0)
    (h : target + 1 ≤ q.packet.length) (hn : target + 1 ≤ n) :
    ∃ q', q.terminate target = .ok q' ∧ Grown q name n q' := by
  obtain ⟨q', hq', hcomp, -, hlen⟩ := q.put_ok target [0] h
  have hsame := Query.canCompress_congr hcomp
  refine ⟨{ q' with pos := target + 1 }, ?_, hlen, hn, by rw [← hcomp],
    fun s offset hs => .inl ?_, fun s hs => ?_, fun _ hne => absurd h0 hne⟩
  · unfold terminate
    rw [hq']
    rfl
  · exact (hsame s).symm.trans hs
  · exact (congrArg Option.isSome (hsame s)).trans hs

theorem writeLabels_safe_root {remain : Nat} {head : Bool} (h0 : calculateLabelLen name = 0)
    (hroom : target + room name ≤ q.packet.length) (hremain : room name ≤ remain + 1)
    (hmiss : name ≠ [] → q.canCompress name = none) :
    (Named name ∧ ∃ q', writeLabels remain head name target q = .ok q' ∧
      Grown q name (target + room name) q') ∨
      ¬Named name ∧ writeLabels remain head name target q = .error .invalid := by
  rcases eq_or_ne name [] with rfl | hne
  · obtain ⟨q', hq', hg⟩ := q.terminate_ok target _ h0 hroom le_rfl
    exact .inl ⟨⟨[], .nil⟩, q', (writeLabels_root (.inl rfl)).trans hq', hg⟩
  · have hroom1 : room name = name.length + 2 := if_neg hne
    by_cases hlen : name.length = 1
    · have hname : name = [dot] := by
        obtain ⟨c, rfl⟩ := List.length_eq_one_iff.1 hlen
        unfold calculateLabelLen at h0
        split_ifs at h0 with hc
        rw [hc]
      obtain ⟨q', hq', hg⟩ := q.terminate_ok target (target + room name) h0 (by omega) (by omega)
      exact .inl ⟨⟨[], hname ▸ .root⟩, q',
        (writeLabels_root (.inr ⟨hname, fun _ => hmiss hne⟩)).trans hq', hg⟩
    · refine .inr ⟨?_, ?_⟩
      · rintro ⟨ls, h⟩
        obtain ⟨rfl, -⟩ := h.of_labelLen_zero hne h0
        exact hlen rfl
      · have hgo : ¬(name = [] ∨ remain = 0) := by
          rintro (h | h)
          · exact hne h
          · have := List.length_pos_iff.2 hne
            omega
        have hnone : (if head = true then q.canCompress name else none) = none := by
          rw [hmiss hne]
          exact ite_self none
        rw [writeLabels, if_neg hgo, hnone]
        dsimp only
        rw [if_pos h0, if_neg hlen]

theorem writeLabels_grown_hit {remain : Nat} {head : Bool} (h0 : calculateLabelLen name ≠ 0)
    (hroom : target + room name ≤ q.packet.length) (hremain : room name ≤ remain + 1)
    (hpos : q.pos ≤ target) {offset : Nat} (hhead : head = true)
    (hhit : q.canCompress name = some offset) :
    ∃ q', writeLabels remain head name target q = .ok q' ∧ Grown q name (target + room name) q' := by
  have hne := labelLen_pos_ne_nil h0
  have hlen := List.length_pos_iff.2 hne
  have hroom1 : room name = name.length + 2 := if_neg hne
  obtain ⟨q', hq', hcomp, hpos', hlen'⟩ := q.put_ok target (pointerBytes offset)
    (by simp only [pointerBytes, List.length_cons, List.length_nil]; omega)
  have hsame := Query.canCompress_congr hcomp
  refine ⟨{ q' with pos := q'.pos + 2 }, ?_, hlen', ?_, by rw [← hcomp], fun s o hs => .inl ?_,
    fun s hs => ?_, fun _ _ => ?_⟩
  · rw [writeLabels_hit hne (by omega) hhead hhit, hq']
    rfl
  · dsimp only
    omega
  · exact (hsame s).symm.trans hs
  · exact (congrArg Option.isSome (hsame s)).trans hs
  · exact congrArg Option.isSome ((hsame name).trans hhit)

/-- The labels behind the first one, whose place has gone into the table. -/
theorem Grown.label {rest : List UInt8} {n : Nat} {q₁ : Query}
    (hlen : q₁.packet.length = q.packet.length)
    (hcomp : q₁.comp = (q.addCompressed name target).comp) (hn : Named name)
    (h0 : calculateLabelLen name ≠ 0) (hg : Grown q₁ rest n q') : Grown q name n q' := by
  have htable : q₁.comp.isSome = q.comp.isSome := by
    rw [hcomp]
    exact Option.isSome_map
  have hfind : ∀ s, q₁.canCompress s = if q.comp.isSome ∧ s = name then some target
      else q.canCompress s := by
    intro s
    rw [← Query.canCompress_addCompressed]
    exact Query.canCompress_congr hcomp s
  refine ⟨hg.length.trans hlen, hg.pos, hg.table.trans htable, fun s offset hs => ?_,
    fun s hs => hg.kept s ?_, fun hc _ => hg.kept name ?_⟩
  · rcases hg.keys s offset hs with h | h
    · rw [hfind] at h
      split_ifs at h with hkey
      · exact .inr ⟨hkey.2 ▸ hn, hkey.2 ▸ h0⟩
      · exact .inl h
    · exact .inr h
  · rw [hfind]
    split_ifs
    · rfl
    · exact hs
  · rw [hfind, if_pos ⟨hc, rfl⟩]
    rfl

theorem writeLabels_long {remain : Nat} {head : Bool} (hs : MAXLABEL < calculateLabelLen name)
    (hremain : remain ≠ 0) (hmiss : (if head = true then q.canCompress name else none) = none) :
    writeLabels remain head name target q = .error .invalid := by
  have h0 : calculateLabelLen name ≠ 0 := (Nat.zero_lt_of_lt hs).ne'
  have hgo : ¬(name = [] ∨ remain = 0) := by
    rintro (h | h)
    · exact labelLen_pos_ne_nil h0 h
    · exact hremain h
  rw [writeLabels, if_neg hgo, hmiss]
  dsimp only
  rw [if_neg h0, if_pos hs]

/-- With room for it a name is taken exactly when it has labels. -/
theorem writeLabels_safe (remain : Nat) (head : Bool) (target : Nat)
    (hroom : target + room name ≤ q.packet.length) (hremain : room name ≤ remain + 1)
    (hpos : q.pos ≤ target) (hkeys : q.Keys name.length) :
    (Named name ∧ ∃ q', writeLabels remain head name target q = .ok q' ∧
      Grown q name (target + room name) q') ∨
      ¬Named name ∧ writeLabels remain head name target q = .error .invalid := by
  induction name using suffixes.induct generalizing target q with
  | case1 name h0 =>
    refine writeLabels_safe_root h0 hroom hremain fun _ => ?_
    exact Option.eq_none_iff_forall_ne_some.2 fun offset h => (hkeys name offset h le_rfl).2 h0
  | case2 name h0 ih =>
    have hne := labelLen_pos_ne_nil h0
    have hroom1 : room name = name.length + 2 := if_neg hne
    have hlen := List.length_pos_iff.2 hne
    have hle := (labelLen_split name).2.1
    cases hc : if head = true then q.canCompress name else none with
    | some offset =>
      split_ifs at hc with hhead
      exact .inl ⟨(hkeys name offset hc le_rfl).1, writeLabels_grown_hit h0 hroom hremain hpos hhead hc⟩
    | none =>
      by_cases hs : calculateLabelLen name ≤ MAXLABEL
      swap
      · exact .inr ⟨fun hn => hs hn.short, writeLabels_long (not_le.1 hs) (by omega) hc⟩
      have hmiss : head = true → q.canCompress name = none := fun hh => by rwa [if_pos hh] at hc
      obtain ⟨q₁, hq₁, hcomp, hpos₁, hlen₁⟩ := (q.addCompressed name target).put_ok target
        ((calculateLabelLen name).toUInt8 :: name.take (calculateLabelLen name)) (by
          rw [List.length_cons, List.length_take, min_eq_left hle]
          show _ ≤ q.packet.length
          omega)
      have hlen₁ : q₁.packet.length = q.packet.length := hlen₁
      have hpos₁ : q₁.pos = q.pos := hpos₁
      have hdrop := room_drop h0
      have hshorter : (name.drop (calculateLabelLen name + 1)).length < name.length := by
        rw [List.length_drop]
        omega
      have hkeys₁ : q₁.Keys (name.drop (calculateLabelLen name + 1)).length := fun s offset hs hsl => by
        rw [Query.canCompress_congr hcomp, Query.canCompress_addCompressed,
          if_neg fun h => absurd (h.2 ▸ hsl) (by omega)] at hs
        exact hkeys s offset hs (by omega)
      rw [writeLabels_label h0 hs (by omega) hmiss, hq₁, named_drop h0 hs]
      refine (ih (target + calculateLabelLen name + 1) (by omega) (by omega)
        (by omega) hkeys₁).imp_left fun hsome => ?_
      obtain ⟨hn, q', hq', hg⟩ := hsome
      refine ⟨hn, q', hq', Grown.label hlen₁ hcomp ((named_drop h0 hs).2 hn) h0 ⟨hg.length, ?_,
        hg.table, hg.keys, hg.kept, hg.self⟩⟩
      have := hg.pos
      omega

theorem Query.remain_eq (hL : q.packet.length < 2 ^ 32) (hpos : q.pos + 5 ≤ q.packet.length) :
    q.remain = q.packet.length - q.pos - 5 := by
  unfold remain
  rw [Int.emod_eq_of_lt (by omega) (by omega)]
  omega

theorem addRr_of_written {n type : Nat} (hw : writeNameCompressed q name = .ok q')
    (hg : Grown q name n q') (hn : n + 4 ≤ q.packet.length) :
    ∃ q₁, addRr q name type = .ok q₁ ∧ Grown q name (n + 4) q₁ := by
  have hlen := hg.length
  have hpos := hg.pos
  obtain ⟨q₁, hq₁, hcomp, hpos₁, hlen₁⟩ := q'.put_ok q'.pos (be16 type ++ be16 C_IN) (by
    simp only [be16, List.cons_append, List.nil_append, List.length_cons, List.length_nil]
    omega)
  have hsame := Query.canCompress_congr hcomp
  refine ⟨{ q₁ with pos := q₁.pos + 4 }, ?_, hlen₁.trans hlen, ?_, ?_, fun s o hs => ?_,
    fun s hs => ?_, fun hc h0 => ?_⟩
  · unfold addRr
    rw [hw]
    show Except.map _ (q'.put q'.pos (be16 type ++ be16 C_IN)) = _
    rw [hq₁]
    rfl
  · dsimp only
    omega
  · rw [← hg.table, ← hcomp]
  · exact hg.keys s o ((hsame s).symm.trans hs)
  · exact (congrArg Option.isSome (hsame s)).trans (hg.kept s hs)
  · exact (congrArg Option.isSome (hsame name)).trans (hg.self hc h0)

theorem addRr_safe (name : List UInt8) (type : Nat) (hL : q.packet.length < 2 ^ 32)
    (hroom : q.pos + room name + 4 ≤ q.packet.length) (hkeys : ∀ n, q.Keys n) :
    (Named name ∧ ∃ q', addRr q name type = .ok q' ∧ Grown q name (q.pos + room name + 4) q') ∨
      ¬Named name ∧ addRr q name type = .error .invalid := by
  have hone : 1 ≤ room name := by
    unfold room
    split_ifs
    · exact le_rfl
    · omega
  have hrem := q.remain_eq hL (by omega)
  rcases writeLabels_safe q.remain q.head q.pos (by omega) (by omega) le_rfl
    (hkeys name.length) with ⟨hn, q', hq', hg⟩ | ⟨hn, he⟩
  · exact .inl ⟨hn, addRr_of_written hq' hg hroom⟩
  · refine .inr ⟨hn, ?_⟩
    unfold addRr writeNameCompressed
    rw [he]
    rfl

theorem Query.head_of_hit {offset : Nat} (h : q.canCompress name = some offset) : q.head = true := by
  unfold canCompress at h
  obtain ⟨t, ht, hl⟩ := Option.bind_eq_some_iff.1 h
  unfold head
  rw [ht]
  cases t with
  | nil => cases hl
  | cons e t => rfl

theorem addRr_again (type : Nat) (hL : q.packet.length < 2 ^ 32)
    (hroom : q.pos + 7 ≤ q.packet.length) (hkeys : ∀ n, q.Keys n) (hname : Named name)
    (hne : name ≠ []) (hknown : (q.canCompress name).isSome ∨ calculateLabelLen name = 0) :
    ∃ q', addRr q name type = .ok q' ∧ Grown q name (q.pos + 6) q' := by
  have hrem := q.remain_eq hL (by omega)
  rcases hknown with hknown | h0
  · obtain ⟨offset, hhit⟩ := Option.isSome_iff_exists.1 hknown
    obtain ⟨q', hq', hcomp, hpos', hlen'⟩ := q.put_ok q.pos (pointerBytes offset)
      (by simp only [pointerBytes, List.length_cons, List.length_nil]; omega)
    have hsame := Query.canCompress_congr hcomp
    have hw : writeNameCompressed q name = .ok { q' with pos := q'.pos + 2 } := by
      unfold writeNameCompressed
      rw [writeLabels_hit hne (by omega) (q.head_of_hit hhit) hhit, hq']
      rfl
    refine addRr_of_written hw ⟨hlen', ?_, by rw [← hcomp], fun s o hs => .inl ?_, fun s hs => ?_,
      fun _ _ => ?_⟩ (by omega)
    · dsimp only
      omega
    · exact (hsame s).symm.trans hs
    · exact (congrArg Option.isSome (hsame s)).trans hs
    · exact congrArg Option.isSome ((hsame name).trans hhit)
  · obtain ⟨ls, hls⟩ := hname
    obtain ⟨rfl, -⟩ := hls.of_labelLen_zero hne h0
    have hmiss : q.canCompress [dot] = none :=
      Option.eq_none_iff_forall_ne_some.2 fun offset h => (hkeys _ [dot] offset h le_rfl).2 h0
    obtain ⟨q', hq', hg⟩ := q.terminate_ok q.pos (q.pos + 2) h0 (by omega) (by omega)
    have hw : writeNameCompressed q [dot] = .ok q' :=
      (writeLabels_root (.inr ⟨rfl, fun _ => hmiss⟩)).trans hq'
    exact addRr_of_written hw hg (by omega)

/-! ## A whole request -/

/-- The questions that the arguments stand for; `NULL` is the name before. -/
def resolve : Option (List UInt8) → List (Option (List UInt8) × Nat) → List (List UInt8 × Nat)
  | _, [] => []
  | _, (some cur, type) :: args => (cur, type) :: resolve (some cur) args
  | last, (none, type) :: args => (last.getD [], type) :: resolve last args

/-- The lengths of the names together. -/
def textLength (args : List (Option (List UInt8) × Nat)) : Nat :=
  (args.map fun a => (a.1.getD []).length).sum

/-- Unless there is a name before, the first one is there; and no name is empty. -/
def NamesGiven (last : Option (List UInt8)) (args : List (Option (List UInt8) × Nat)) : Prop :=
  (last = none → ∀ a ∈ args.head?, a.1.isSome) ∧ ∀ a ∈ args, a.1 ≠ some []

instance (last : Option (List UInt8)) (args : List (Option (List UInt8) × Nat)) :
    Decidable (NamesGiven last args) :=
  inferInstanceAs (Decidable (_ ∧ _))

theorem textLength_cons (a : Option (List UInt8) × Nat) (args : List (Option (List UInt8) × Nat)) :
    textLength (a :: args) = (a.1.getD []).length + textLength args := by
  unfold textLength
  rw [List.map_cons, List.sum_cons]

variable {args : List (Option (List UInt8) × Nat)} {last : Option (List UInt8)}

theorem namesGiven_null {type : Nat} :
    NamesGiven last ((none, type) :: args) ↔ last.isSome ∧ NamesGiven last args := by
  unfold NamesGiven
  cases last with
  | none => simp
  | some cur => simp

theorem namesGiven_name {type : Nat} {cur : List UInt8} :
    NamesGiven last ((some cur, type) :: args) ↔ cur ≠ [] ∧ NamesGiven (some cur) args := by
  unfold NamesGiven
  simp

theorem requestedNames_kept (format : Nat → List UInt8 → Option (List UInt8))
    (hlast : ∀ i cur, last = some cur → format i cur = some cur)
    (hf : ∀ i, ∀ a ∈ args, ∀ cur, a.1 = some cur → format i cur = some cur) (i tlen : Nat) :
    requestedNames format i last tlen args =
      if NamesGiven last args then some (resolve last args, tlen + textLength args) else none := by
  induction args generalizing i last tlen with
  | nil => simp [requestedNames, resolve, textLength, NamesGiven]
  | cons a args ih =>
    have hf' : ∀ i, ∀ a ∈ args, ∀ cur, a.1 = some cur → format i cur = some cur :=
      fun i a ha => hf i a (List.mem_cons_of_mem _ ha)
    unfold requestedNames
    obtain ⟨_ | cur, type⟩ := a
    · simp only [namesGiven_null]
      cases last with
      | none => rfl
      | some cur =>
        dsimp only
        rw [hlast i cur rfl, ih hlast hf', textLength_cons]
        by_cases hg : NamesGiven (some cur) args
        · rw [if_pos hg, if_pos ⟨rfl, hg⟩]
          dsimp only
          rw [Option.getD_none, List.length_nil, Nat.zero_add]
          rfl
        · rw [if_neg hg, if_neg fun h => hg h.2]
    · simp only [namesGiven_name]
      by_cases hnil : cur = []
      · rw [if_pos hnil, if_neg fun h => h.1 hnil]
      · have hcur : ∀ i cur', some cur = some cur' → format i cur' = some cur' := fun i cur' h =>
          hf i _ List.mem_cons_self _ h
        rw [if_neg hnil, hcur i cur rfl, ih hcur hf', textLength_cons]
        by_cases hg : NamesGiven (some cur) args
        · rw [if_pos hg, if_pos ⟨hnil, hg⟩]
          dsimp only
          rw [Option.getD_some, Nat.add_assoc]
          rfl
        · rw [if_neg hg, if_neg fun h => hg h.2]

theorem formatDnsName_ascii (junk : List UInt8) (h : ∀ c ∈ name, c.toNat < 0x80) :
    formatDnsName junk name = some name := by
  unfold formatDnsName
  rw [if_neg]
  rw [List.any_eq_true]
  rintro ⟨c, hc, hge⟩
  have := h c hc
  have := of_decide_eq_true hge
  omega

/-- The questions one after the other: each name is in the table, or there is room for its labels. -/
inductive Asks : Query → List (List UInt8 × Nat) → Query → Prop
  | nil {q : Query} : Asks q [] q
  | cons {q q₁ q' : Query} {name : List UInt8} {type : Nat} {names : List (List UInt8 × Nat)}
      (hname : Named name) (hne : name ≠ []) (hrem : 2 ≤ q.remain)
      (hfit : (q.canCompress name).isSome ∨ calculateLabelLen name = 0 ∨ room name ≤ q.remain + 1)
      (hq : addRr q name type = .ok q₁)
      (h : Asks q₁ names q') : Asks q ((name, type) :: names) q'

theorem Asks.addRrs_eq {names : List (List UInt8 × Nat)} (h : Asks q names q') :
    addRrs q names = .ok q' := by
  induction h with
  | nil => rfl
  | cons _ _ _ _ hq _ ih =>
    show (addRr _ _ _ >>= _) = _
    rw [hq]
    exact ih

/-- The questions of a request, each with the room that it needs. -/
theorem addRrs_safe (hL : q.packet.length < 2 ^ 32) (hkeys : ∀ n, q.Keys n)
    (hgiven : NamesGiven last args) (hcomp : q.comp.isSome ∨ last = none ∧ args.length ≤ 1)
    (hknown : ∀ cur, last = some cur →
      Named cur ∧ cur ≠ [] ∧ ((q.canCompress cur).isSome ∨ calculateLabelLen cur = 0))
    (hroom : q.pos + textLength args + 6 * args.length + 11 ≤ q.packet.length) :
    ((∀ a ∈ args, ∀ cur, a.1 = some cur → Named cur) ∧ ∃ q', Asks q (resolve last args) q' ∧
        q'.packet.length = q.packet.length ∧ q'.pos + 11 ≤ q.packet.length) ∨
      (¬∀ a ∈ args, ∀ cur, a.1 = some cur → Named cur) ∧
      addRrs q (resolve last args) = .error .invalid := by
  induction args generalizing q last with
  | nil => exact .inl ⟨by simp, q, .nil, rfl, by simpa [textLength] using hroom⟩
  | cons a args ih =>
    rw [textLength_cons, List.length_cons] at hroom
    -- the questions behind the first one, which is for `cur`
    have hrest : ∀ cur q₁ n, Grown q cur n q₁ →
      n + textLength args + 6 * args.length + 11 ≤ q.packet.length →
        Named cur → cur ≠ [] → NamesGiven (some cur) args →
        ((∀ a ∈ args, ∀ cur, a.1 = some cur → Named cur) ∧ ∃ q', Asks q₁ (resolve (some cur) args) q' ∧
            q'.packet.length = q.packet.length ∧ q'.pos + 11 ≤ q.packet.length) ∨
          (¬∀ a ∈ args, ∀ cur, a.1 = some cur → Named cur) ∧
          addRrs q₁ (resolve (some cur) args) = .error .invalid := by
      intro cur q₁ n hg hn hnamed hne hgiven
      have hlen := hg.length
      have hpos := hg.pos
      rcases eq_or_ne args [] with rfl | hargs
      · refine .inl ⟨by simp, q₁, .nil, hlen, ?_⟩
        simp only [textLength, List.map_nil, List.sum_nil, List.length_nil] at hn
        omega
      have hsome : q.comp.isSome = true := hcomp.resolve_right fun h => by
        have := List.length_pos_iff.2 hargs
        rw [List.length_cons] at h
        omega
      rw [← hlen]
      refine ih (hlen ▸ hL) (fun n s offset hs hle => ?_) hgiven (.inl (hg.table.trans hsome))
        (fun cur' hcur' => ?_) (by omega)
      · exact (hg.keys s offset hs).elim (fun h => hkeys s.length s offset h le_rfl) id
      · cases hcur'
        refine ⟨hnamed, hne, ?_⟩
        by_cases h0 : calculateLabelLen cur = 0
        · exact .inr h0
        · exact .inl (hg.self hsome h0)
    obtain ⟨_ | cur, type⟩ := a
    · obtain ⟨hsome, hgiven⟩ := namesGiven_null.1 hgiven
      obtain ⟨cur, rfl⟩ := Option.isSome_iff_exists.1 hsome
      obtain ⟨hnamed, hne, hfound⟩ := hknown cur rfl
      rw [Option.getD_none, List.length_nil] at hroom
      obtain ⟨q₁, hq₁, hg⟩ := addRr_again type hL (by omega) hkeys hnamed hne hfound
      have hstep : addRrs q (resolve (some cur) ((none, type) :: args)) =
          addRrs q₁ (resolve (some cur) args) := by
        show (addRr q cur type >>= _) = _
        rw [hq₁]
        rfl
      rw [hstep]
      refine (hrest cur q₁ _ hg (by omega) hnamed hne hgiven).imp
        (fun ⟨hall, q', hq', h⟩ => ⟨?_, q', ?_, h⟩) fun h =>
          ⟨fun hall => h.1 (List.forall_mem_cons.1 hall).2, h.2⟩
      · exact List.forall_mem_cons.2 ⟨fun _ h => (nomatch h), hall⟩
      · have hrem := q.remain_eq hL (by omega)
        exact .cons hnamed hne (by omega) (hfound.imp_right .inl) hq₁ hq'
    · obtain ⟨hne, hgiven⟩ := namesGiven_name.1 hgiven
      rw [Option.getD_some] at hroom
      have hroom1 : room cur = cur.length + 2 := if_neg hne
      rcases addRr_safe cur type hL (by omega) hkeys with ⟨hnamed, q₁, hq₁, hg⟩ | ⟨hbad, he⟩
      · have hstep : addRrs q (resolve last ((some cur, type) :: args)) =
            addRrs q₁ (resolve (some cur) args) := by
          show (addRr q cur type >>= _) = _
          rw [hq₁]
          rfl
        rw [hstep]
        refine (hrest cur q₁ _ hg (by omega) hnamed hne hgiven).imp
          (fun ⟨hall, q', hq', h⟩ => ⟨?_, q', ?_, h⟩) fun h =>
            ⟨fun hall => h.1 (List.forall_mem_cons.1 hall).2, h.2⟩
        · exact List.forall_mem_cons.2 ⟨fun _ h => Option.some.inj h ▸ hnamed, hall⟩
        · have hrem := q.remain_eq hL (by omega)
          exact .cons hnamed hne (by omega) (.inr (.inr (by omega))) hq₁ hq'
      · refine .inr ⟨fun hall => hbad ((List.forall_mem_cons.1 hall).1 cur rfl), ?_⟩
        show (addRr q cur type >>= _) = _
        rw [he]
        rfl

/-- The requests that are taken: there is a first name, and all names have labels. -/
def Takes (args : List (Option (List UInt8) × Nat)) : Prop :=
  NamesGiven none args ∧ ∀ a ∈ args, ∀ cur, a.1 = some cur → Named cur

theorem length_allocatePacket (heap : Nat → UInt8) (n : Nat) (comp : Option (List (List UInt8 × Nat))) :
    (allocatePacket heap n comp).packet.length = n + 113 := by
  unfold allocatePacket
  rw [List.length_map, List.length_range]

theorem makeDnsHeader_ok (id qcount : Nat) (hlen : 113 ≤ q.packet.length) (h0 : q.pos = 0) :
    ∃ q', makeDnsHeader q id qcount = .ok q' ∧ q'.comp = q.comp ∧ q'.pos = 12 ∧
      q'.packet.length = q.packet.length ∧
      store q.packet 0 (headerBytes id qcount) = some q'.packet := by
  obtain ⟨q', hq', hcomp, hpos, hlen'⟩ := q.put_ok 0 (headerBytes id qcount) (by
    simp only [headerBytes, be16, List.cons_append, List.nil_append, List.length_cons, List.length_nil]
    omega)
  refine ⟨{ q' with pos := q'.pos + 12 }, ?_, hcomp, ?_, hlen', (Query.canCompress_put hq').2.2⟩
  · unfold makeDnsHeader
    rw [hq']
    rfl
  · show q'.pos + 12 = 12
    omega

theorem addEdns0_ok (h : q.pos + 11 ≤ q.packet.length) :
    ∃ q', addEdns0 q = .ok q' ∧ q'.pos = q.pos + 11 ∧
      store q.packet q.pos edns0Bytes = some q'.packet := by
  obtain ⟨q', hq', -, hpos, -⟩ := q.put_ok q.pos edns0Bytes h
  refine ⟨{ q' with pos := q'.pos + 11 }, ?_, ?_, (Query.canCompress_put hq').2.2⟩
  · unfold addEdns0
    rw [hq']
    rfl
  · show q'.pos + 11 = q.pos + 11
    omega

/-- How a request is made: the header, the questions and the rest. -/
structure Makes (id : Nat) (args : List (Option (List UInt8) × Nat)) (q : Query) : Prop where
  length : q.packet.length = textLength args + 113
  steps : ∃ q₀ q₁ q₂ : Query, q₀.packet.length = textLength args + 113 ∧
    store q₀.packet 0 (headerBytes id args.length) = some q₁.packet ∧ q₁.pos = 12 ∧
    (q₁.comp = if 1 < args.length then some [] else none) ∧ Asks q₁ (resolve none args) q₂ ∧
    q₂.pos + 11 = q.pos ∧ q.pos ≤ q.packet.length ∧ store q₂.packet q₂.pos edns0Bytes = some q.packet

theorem makeRequest_makes (stack : Nat → List UInt8) (heap : Nat → UInt8) (id : Nat)
    (hascii : ∀ a ∈ args, ∀ cur, a.1 = some cur → ∀ c ∈ cur, c.toNat < 0x80) (hcount : args.length ≤ 15)
    (hsmall : textLength args + 113 < 2 ^ 32) :
    (Takes args ∧ ∃ q, makeRequest stack heap id args = .ok q ∧ Makes id args q) ∨
      ¬Takes args ∧ makeRequest stack heap id args = .error .invalid := by
  have hkept := requestedNames_kept (fun i => formatDnsName (stack i))
    (fun _ _ (h : none = some _) => (nomatch h)) (fun i a ha cur hcur =>
      formatDnsName_ascii _ (hascii a ha cur hcur)) 0 0
  unfold makeRequest
  rw [hkept, Nat.zero_add]
  by_cases hgiven : NamesGiven none args
  · rw [if_pos hgiven]
    dsimp only
    set q₀ := allocatePacket heap (textLength args) (if 1 < args.length then some [] else none) with hq₀
    have hlen₀ : q₀.packet.length = textLength args + 113 := length_allocatePacket _ _ _
    obtain ⟨q₁, hq₁, hcomp₁, hpos₁, hlen₁, hstore₁⟩ :=
      makeDnsHeader_ok (q := q₀) id args.length (by omega) rfl
    have hcomp₀ : q₀.comp = if 1 < args.length then some [] else none := rfl
    have hempty : ∀ s, q₁.canCompress s = none := by
      intro s
      unfold Query.canCompress
      rw [hcomp₁, hcomp₀]
      split_ifs <;> rfl
    have hrun := addRrs_safe (q := q₁) (by omega) (fun n s offset hs =>
      by rw [hempty] at hs; cases hs) hgiven (by
        rw [hcomp₁, hcomp₀]
        split_ifs with h1
        · exact .inl rfl
        · exact .inr ⟨rfl, by omega⟩) (fun cur h => nomatch h) (by omega)
    rcases hrun with ⟨hall, q₂, hq₂, hlen₂, hpos₂⟩ | ⟨hbad, he⟩
    · obtain ⟨q₃, hq₃, hpos₃, hstore₃⟩ := addEdns0_ok (q := q₂) (by omega)
      have hlen₃ := length_store hstore₃
      refine .inl ⟨⟨hgiven, hall⟩, q₃, ?_, by omega, q₀, q₁, q₂, hlen₀, hstore₁, hpos₁,
        hcomp₁.trans hcomp₀, hq₂, by omega,
        by omega, hstore₃⟩
      rw [hq₁]
      show (addRrs q₁ (resolve none args) >>= _) = _
      rw [hq₂.addRrs_eq]
      exact hq₃
    · refine .inr ⟨fun h => hbad h.2, ?_⟩
      rw [hq₁]
      show (addRrs q₁ (resolve none args) >>= _) = _
      rw [he]
      rfl
  · rw [if_neg hgiven]
    exact .inr ⟨fun h => hgiven h.1, rfl⟩

/-- Whatever ASCII names are asked for in up to 15 questions, the request stays within its packet,
and it is made exactly when there is a first name, no name is empty and all of them have labels of 1
to 63 bytes. -/
theorem makeRequest_takes (stack : Nat → List UInt8) (heap : Nat → UInt8) (id : Nat)
    (hascii : ∀ a ∈ args, ∀ cur, a.1 = some cur → ∀ c ∈ cur, c.toNat < 0x80)
    (hcount : args.length ≤ 15) (hsmall : textLength args + 113 < 2 ^ 32) :
    (Takes args ∧ ∃ q, makeRequest stack heap id args = .ok q ∧
      q.packet.length = textLength args + 113 ∧
        q.pos ≤ q.packet.length) ∨
      ¬Takes args ∧ makeRequest stack heap id args = .error .invalid := by
  refine (makeRequest_makes stack heap id hascii hcount hsmall).imp_left fun ⟨ht, q, hq, hm⟩ =>
    ⟨ht, q, hq, hm.length, ?_⟩
  obtain ⟨q₀, q₁, q₂, -, -, -, -, -, -, hle, -⟩ := hm.steps
  exact hle

/-- Two questions about one name, the second name left out. -/
theorem makeRequest_takes_again :
    ∃ args : List (Option (List UInt8) × Nat), args = [(some [0x61, dot, 0x62], 1), (none, 28)] ∧
      ((Takes args ∧ ∃ q, makeRequest (fun _ => []) (fun _ => 0) 7 args = .ok q ∧
        q.packet.length = textLength args + 113 ∧
          q.pos ≤ q.packet.length) ∨
        ¬Takes args ∧ makeRequest (fun _ => []) (fun _ => 0) 7 args = .error .invalid) :=
  ⟨_, rfl, makeRequest_takes _ _ _ (by decide +kernel) (by decide) (by decide)⟩

theorem makeRequest_one_eq (stack : Nat → List UInt8) (heap : Nat → UInt8) (id type : Nat)
    {out : List UInt8} (hne : name ≠ []) (hout : formatDnsName (stack 0) name = some out) :
    makeRequest stack heap id [(some name, type)] = (do
      let q ← makeDnsHeader (allocatePacket heap name.length none) id 1
      let q ← addRr q out type
      addEdns0 q) := by
  unfold makeRequest requestedNames
  rw [if_neg hne, hout]
  unfold requestedNames
  rw [Nat.zero_add]
  refine congrArg (makeDnsHeader (allocatePacket heap name.length none) id 1 >>= ·) (funext fun q => ?_)
  unfold addRrs
  cases addRr q out type <;> rfl

theorem writeNameCompressed_first {out : List UInt8} (hcomp : q.comp = none)
    (hrem : MAXLABEL + 1 ≤ q.remain) (hls : Spells out ls) :
    (∃ q', writeNameCompressed q out = .ok q' ∧ Written q out q.pos ls q') ∨
      store q.packet q.pos (wire ls) = none ∧ writeNameCompressed q out = .error .overrun := by
  have hempty : ∀ s, q.canCompress s = none := by
    intro s
    unfold Query.canCompress
    rw [hcomp]
    rfl
  have hlabels : ∀ l ∈ ls, l.length + 1 ≤ q.remain := by
    intro l hl
    have := hls.label_short l hl
    omega
  exact writeLabels_plain q.remain q.head q.pos hls hlabels (hempty _) fun _ s _ => hempty s

/-- A request with one question stays within its packet exactly when the bytes of the name, as it is
written, are at most 86 more than the name has as it was given. Otherwise the labels or what is
behind them go over the end: a name with 18 labels of one letter each that is not ASCII is enough.
-/
theorem makeRequest_overrun_iff (stack : Nat → List UInt8) (heap : Nat → UInt8) (id type : Nat)
    {out : List UInt8} (hne : name ≠ []) (hout : formatDnsName (stack 0) name = some out)
    (hls : Spells out ls) (hsmall : name.length + 113 < 2 ^ 32) :
    ((wire ls).length ≤ name.length + 86 ∧ ∃ q, makeRequest stack heap id [(some name, type)] = .ok q) ∨
      name.length + 86 < (wire ls).length ∧
      makeRequest stack heap id [(some name, type)] = .error .overrun := by
  rw [makeRequest_one_eq stack heap id type hne hout]
  have hlen₀ := length_allocatePacket heap name.length none
  obtain ⟨q₁, hq₁, hcomp₁, hpos₁, hlen₁, -⟩ :=
    makeDnsHeader_ok (q := allocatePacket heap name.length none) id 1 (by omega) rfl
  rw [hq₁]
  have hrem := q₁.remain_eq (by omega) (by omega)
  show ((_ ∧ ∃ q, (addRr q₁ out type >>= addEdns0) = .ok q) ∨
    _ ∧ (addRr q₁ out type >>= addEdns0) = .error .overrun)
  rcases writeNameCompressed_first hcomp₁ (by unfold MAXLABEL; omega) hls with
      ⟨q₂, hq₂, hw⟩ | ⟨hnone, hover⟩
  · have hlen₂ := length_store hw.stored
    have hle₂ := le_of_store hw.stored
    have hpos₂ := hw.pos
    have hbytes : (be16 type ++ be16 C_IN).length = 4 := rfl
    have hadd : addRr q₁ out type = (q₂.put q₂.pos (be16 type ++ be16 C_IN)).map fun q =>
        { q with pos := q.pos + 4 } := by
      unfold addRr
      rw [hq₂]
      rfl
    rw [hadd]
    by_cases h4 : q₂.pos + 4 ≤ q₂.packet.length
    · obtain ⟨q₃, hq₃, -, hpos₃, hlen₃⟩ := q₂.put_ok q₂.pos (be16 type ++ be16 C_IN) h4
      rw [hq₃]
      show ((_ ∧ ∃ q, addEdns0 { q₃ with pos := q₃.pos + 4 } = .ok q) ∨
        _ ∧ addEdns0 { q₃ with pos := q₃.pos + 4 } = _)
      by_cases h11 : q₃.pos + 4 + 11 ≤ q₃.packet.length
      · obtain ⟨q₄, hq₄, -, -⟩ := addEdns0_ok (q := { q₃ with pos := q₃.pos + 4 }) h11
        exact .inl ⟨by omega, q₄, hq₄⟩
      · refine .inr ⟨by omega, ?_⟩
        have hput := Query.put_overrun (q := { q₃ with pos := q₃.pos + 4 })
          (q₃.pos + 4) edns0Bytes (not_le.1 h11)
        show Except.map _ (Query.put { q₃ with pos := q₃.pos + 4 } (q₃.pos + 4) edns0Bytes) = _
        rw [hput]
        rfl
    · refine .inr ⟨by omega, ?_⟩
      rw [q₂.put_overrun q₂.pos (be16 type ++ be16 C_IN) (by omega)]
      rfl
  · have hlong : q₁.packet.length < q₁.pos + (wire ls).length := by
      by_contra hle
      have := store_isSome_iff.2 (not_lt.1 hle)
      rw [hnone] at this
      cases this
    refine .inr ⟨by omega, ?_⟩
    unfold addRr
    rw [hover]
    rfl

/-- `é.` 18 times. -/
theorem makeRequest_overrun_accents :
    makeRequest (fun _ => List.replicate 63 0) (fun _ =>
      0) 7 [(some (List.replicate 18 [0xC3, 0xA9, dot]).flatten, 1)] =
      .error .overrun := by
  have hlabel : IsLabel [0x78, 0x6E, 0x2D, 0x2D, 0x39, 0x63, 0x61] := ⟨by decide, by decide, by decide⟩
  have hls : Spells _ (List.replicate 18 [0x78, 0x6E, 0x2D, 0x2D, 0x39, 0x63, 0x61]) :=
    spells_dotted fun l hl => (List.eq_of_mem_replicate hl) ▸ hlabel
  have hout : formatDnsName (List.replicate 63 0) (List.replicate 18 [0xC3, 0xA9, dot]).flatten =
      some (dotted (List.replicate 18 [0x78, 0x6E, 0x2D, 0x2D, 0x39, 0x63, 0x61])) := by decide +kernel
  refine ((makeRequest_overrun_iff (fun _ => List.replicate 63 0) (fun _ => 0) 7 1
    (by decide) hout hls (by decide)).resolve_left fun h => ?_).2
  exact absurd h.1 (by decide +kernel)

end Resend.Dns

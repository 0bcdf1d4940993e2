import WalletMpc.SafePrimes

namespace WalletMpc.FastPaillier
open Progressions
set_option autoImplicit true

/-- A candidate that the sieve leaves standing and both primality tests accept. -/
def Call.Open (c : Call) (q : Nat) : Prop :=
  (∀ p ∈ c.used, ¬ Strikes p q) ∧ passes c.isProbablyPrime q = true

/-- The open candidates of the windows scanned from a base, up to its next redraw. -/
def Call.found (c : Call) (base : Nat) : Set Nat :=
  {k | base + 2 * sieveSize * (k / sieveSize) < 2 ^ (c.bits - 1) ∧ c.Open (base + 2 * k)}

/-- The open candidates of one window. -/
def Call.window (c : Call) (base : Nat) : Set Nat := {k | k < sieveSize ∧ c.Open (base + 2 * k)}

theorem sieveSize_pos : 0 < sieveSize := by
  rw [sieveSize]
  decide

theorem Call.mem_found_of_lt {c : Call} (hk : k < sieveSize) :
    k ∈ c.found base ↔ base < 2 ^ (c.bits - 1) ∧ k ∈ c.window base := by
  show _ ∧ _ ↔ _ ∧ k < sieveSize ∧ c.Open (base + 2 * k)
  rw [Nat.div_eq_of_lt hk, Nat.mul_zero, Nat.add_zero, and_iff_right hk]

/-- Past the first window the search goes on as from the moved base. -/
theorem Call.mem_found_add {c : Call} :
    sieveSize + k ∈ c.found base ↔ k ∈ c.found (base + 2 * sieveSize) := by
  show _ ∧ _ ↔ _ ∧ _
  rw [Nat.add_div_left k sieveSize_pos,
    show base + 2 * sieveSize * (k / sieveSize + 1) =
      base + 2 * sieveSize + 2 * sieveSize * (k / sieveSize) by ring,
    show base + 2 * (sieveSize + k) = base + 2 * sieveSize + 2 * k by ring]

theorem Call.found_eq_empty {c : Call} (h : 2 ^ (c.bits - 1) ≤ base) : c.found base = ∅ := by
  refine Set.eq_empty_of_forall_notMem ?_
  rintro k ⟨hlt, -⟩
  omega

theorem Call.isLeast_found {c : Call} (hb : base < 2 ^ (c.bits - 1))
    (h : IsLeast (c.window base) k) : IsLeast (c.found base) k := by
  refine ⟨(mem_found_of_lt h.1.1).2 ⟨hb, h.1⟩, fun j hj => ?_⟩
  by_cases hlt : j < sieveSize
  · exact h.2 ((mem_found_of_lt hlt).1 hj).2
  · have := h.1.1
    omega

theorem Call.found_of_window_empty {c : Call} (hw : c.window base = ∅) (hj : j ∈ c.found base) :
    ∃ k ∈ c.found (base + 2 * sieveSize), j = sieveSize + k := by
  have hle : sieveSize ≤ j := by
    by_contra hlt
    have := ((mem_found_of_lt (Nat.lt_of_not_le hlt)).1 hj).2
    rw [hw] at this
    exact this
  refine ⟨j - sieveSize, mem_found_add.1 ?_, (Nat.add_sub_cancel' hle).symm⟩
  rw [Nat.add_sub_cancel' hle]
  exact hj

theorem Call.isLeast_found_add {c : Call} (hw : c.window base = ∅)
    (h : IsLeast (c.found (base + 2 * sieveSize)) k) :
    IsLeast (c.found base) (sieveSize + k) := by
  refine ⟨mem_found_add.2 h.1, fun j hj => ?_⟩
  obtain ⟨k', hk', rfl⟩ := found_of_window_empty hw hj
  exact Nat.add_le_add_left (h.2 hk') _

theorem Call.drawBase_eq {c : Call} (hbits : 2 ≤ c.bits) (i : Nat) :
    ∃ b, c.drawBase i = some b ∧ 2 ^ (c.bits - 2) ≤ b ∧ b < 2 ^ (c.bits - 1) := by
  refine ⟨(c.randomBits i (c.bits - 1)).toNat ||| 2 ^ (c.bits - 2) ||| 1, ?_, ?_, ?_⟩
  · simp only [drawBase, Checked.sub_eq hbits, Checked.sub_eq (Nat.le_of_succ_le hbits),
      Option.bind_eq_bind, Option.bind_some]
  · exact Nat.right_le_or.trans Nat.left_le_or
  · have htop : 2 ^ (c.bits - 2) < 2 ^ (c.bits - 1) :=
      Nat.pow_lt_pow_right Nat.one_lt_two (by omega)
    have hone : 1 < 2 ^ (c.bits - 1) := Nat.one_lt_two_pow (by omega)
    exact Nat.or_lt_two_pow (Nat.or_lt_two_pow (BitVec.isLt _) htop) hone

/-- Between the block that draws a base and the next draw the offsets fit the base. -/
structure State.Ready (c : Call) (st : State) : Prop where
  needInit : st.needInit = false
  lanes : st.lanes.map Lane.p = c.used
  valid : ∀ lane ∈ st.lanes, lane.Valid st.base

theorem Call.init_eq {c : Call} {st : State} (hst : st.needInit = true)
    (hb : c.drawBase st.drawn = some b) :
    ∃ st', c.init st = some st' ∧ st'.Ready c ∧ st'.base = b ∧ st'.drawn = st.drawn + 1 := by
  obtain ⟨lanes, he, hp, hv⟩ := initialLanes_eq c.used b
  refine ⟨⟨b, lanes, false, st.drawn + 1⟩, ?_, ⟨rfl, hp, hv⟩, rfl, rfl⟩
  simp only [init, if_pos hst, hb, he, Option.bind_eq_bind, Option.bind_some]

theorem State.Ready.init {c : Call} {st : State} (h : st.Ready c) : c.init st = some st :=
  if_neg (by rw [h.needInit]; exact Bool.false_ne_true)

/-- One window: its marks are the candidates struck from its own base, and the scan of them
returns its first hit or leaves the offsets that fit the moved base. -/
theorem State.Ready.marks {c : Call} {st : State} (h : st.Ready c) :
    ∃ sieve lanes, markWindow st.lanes = some (sieve, lanes) ∧ lanes.map Lane.p = c.used ∧
      (∀ lane ∈ lanes, lane.Valid (st.base + 2 * sieveSize)) ∧
      (∀ k (h : k < sieveSize), sieve[k] = true ↔ ∃ p ∈ c.used, Strikes p (st.base + 2 * k)) ∧
      ((∃ k, IsLeast (hits c.isProbablyPrime st.base sieve 0) k ∧
          c.iterate st = some (.returned (2 * (st.base + 2 * k) + 1))) ∨
        hits c.isProbablyPrime st.base sieve 0 = ∅ ∧
          c.iterate st = some (.running ⟨st.base + 2 * sieveSize, lanes,
            decide (c.bits ≤ (st.base + 2 * sieveSize).size), st.drawn⟩)) := by
  obtain ⟨sieve, lanes, he, hp, hv, hmark⟩ := markWindow_eq h.valid
  rw [h.lanes] at hp hmark
  refine ⟨sieve, lanes, he, hp, hv, hmark, ?_⟩
  have hsize := sieveSize_lt
  rcases scan_eq c.isProbablyPrime st.base sieve (by omega) 0 with
    ⟨k, hk, hscan⟩ | ⟨hnone, hscan⟩
  · refine .inl ⟨k, hk, ?_⟩
    simp only [Call.iterate, h.init, he, hscan, Option.bind_eq_bind, Option.bind_some]
  · refine .inr ⟨hnone, ?_⟩
    simp only [Call.iterate, h.init, he, hscan, moveBase_eq, h.needInit, Bool.false_or,
      Option.bind_eq_bind, Option.bind_some]

/-- One window: the first open candidate is returned, or the base moves on with its offsets. -/
theorem State.Ready.iterate {c : Call} {st : State} (hbits : 2 ≤ c.bits) (h : st.Ready c) :
    (∃ k, IsLeast (c.window st.base) k ∧
      c.iterate st = some (.returned (2 * (st.base + 2 * k) + 1))) ∨
    c.window st.base = ∅ ∧ ∃ st', c.iterate st = some (.running st') ∧
      st'.base = st.base + 2 * sieveSize ∧ st'.drawn = st.drawn ∧
      (if 2 ^ (c.bits - 1) ≤ st'.base then st'.needInit = true else st'.Ready c) := by
  obtain ⟨sieve, lanes, he, hp, hv, hmark, hnext⟩ := h.marks
  have hhits : hits c.isProbablyPrime st.base sieve 0 = c.window st.base := by
    ext k
    apply Iff.intro
    · rintro ⟨-, hk, hs, hpass⟩
      refine ⟨hk, fun p hmem hstrike => ?_, hpass⟩
      rw [(hmark k hk).2 ⟨p, hmem, hstrike⟩] at hs
      cases hs
    · rintro ⟨hk, hopen, hpass⟩
      refine ⟨Nat.zero_le k, hk, Bool.eq_false_of_not_eq_true fun hs => ?_, hpass⟩
      obtain ⟨p, hmem, hstrike⟩ := (hmark k hk).1 hs
      exact hopen p hmem hstrike
  rw [hhits] at hnext
  rcases hnext with ⟨k, hk, hret⟩ | ⟨hnone, hret⟩
  · exact .inl ⟨k, hk, hret⟩
  · refine .inr ⟨hnone, _, hret, rfl, rfl, ?_⟩
    have hsignificant : c.bits ≤ (st.base + 2 * sieveSize).size ↔
        2 ^ (c.bits - 1) ≤ st.base + 2 * sieveSize := by
      rw [← Nat.lt_size]
      omega
    split
    · next hlong => exact decide_eq_true (hsignificant.2 hlong)
    · next hshort =>
      exact ⟨decide_eq_false fun hlong => hshort (hsignificant.1 hlong), hp, hv⟩

/-- The block at the top of the loop is all that the two states differ in. -/
theorem Call.iterate_of_init {c : Call} {st st' : State} (he : c.init st = some st')
    (h : st'.Ready c) : c.iterate st = c.iterate st' := by
  simp only [iterate, he, h.init, Option.bind_eq_bind, Option.bind_some]

/-- A state with offsets for a base that some windows were slid over from the one drawn last. -/
structure State.Slid (c : Call) (st : State) : Prop extends State.Ready c st where
  moved : ∃ i b windows, st.drawn = i + 1 ∧ c.drawBase i = some b ∧
    st.base = b + 2 * sieveSize * windows

theorem Call.init_eq_none {c : Call} {st : State} (hst : st.needInit = true ∨ st.Slid c)
    (he : c.init st = none) : c.bits < 2 := by
  by_contra hbits
  rcases hst with hneed | hslid
  · obtain ⟨b, hb, -⟩ := drawBase_eq (Nat.le_of_not_lt hbits) st.drawn
    obtain ⟨st', hst', -⟩ := init_eq hneed hb
    cases he.symm.trans hst'
  · cases he.symm.trans hslid.init

/-- The block makes the offsets anew from the base it draws, and is skipped in between. -/
theorem Call.init_slid {c : Call} {st st' : State} (hst : st.needInit = true ∨ st.Slid c)
    (he : c.init st = some st') : st'.Slid c := by
  rcases hst with hneed | hslid
  · cases hb : c.drawBase st.drawn with
    | none =>
      simp only [init, if_pos hneed, hb, Option.bind_eq_bind, Option.bind_none] at he
      cases he
    | some b =>
      obtain ⟨st'', hst'', hready, hbase, hdrawn⟩ := init_eq hneed hb
      obtain rfl := Option.some.inj (he.symm.trans hst'')
      exact ⟨hready, st.drawn, b, 0, hdrawn, hb, hbase⟩
  · obtain rfl := Option.some.inj (he.symm.trans hslid.init)
    exact hslid

/-- One iteration: the next one draws, or its offsets fit the base that has moved on. -/
theorem Call.iterate_slid {c : Call} {st st' : State} (hst : st.needInit = true ∨ st.Slid c)
    (he : c.iterate st = some (.running st')) : st'.needInit = true ∨ st'.Slid c := by
  cases hinit : c.init st with
  | none =>
    simp only [iterate, hinit, Option.bind_eq_bind, Option.bind_none] at he
    cases he
  | some top =>
    have hslid := init_slid hst hinit
    obtain ⟨i, b, windows, hdrawn, hb, hbase⟩ := hslid.moved
    rw [iterate_of_init hinit hslid.toReady] at he
    obtain ⟨sieve, lanes, -, hp, hv, -, ⟨k, -, hret⟩ | ⟨-, hret⟩⟩ := hslid.marks
    · cases he.symm.trans hret
    · cases he.symm.trans hret
      by_cases hlong : c.bits ≤ (top.base + 2 * sieveSize).size
      · exact .inl (decide_eq_true hlong)
      · refine .inr ⟨⟨decide_eq_false hlong, hp, hv⟩, i, b, windows + 1, hdrawn, hb, ?_⟩
        show top.base + 2 * sieveSize = b + 2 * sieveSize * (windows + 1)
        rw [hbase]
        ring

/-- After any number of iterations. -/
theorem Call.slid_of_after {c : Call} {st : State} (hn : c.after n = .running st) :
    st.needInit = true ∨ st.Slid c := by
  induction n generalizing st with
  | zero =>
    cases hn
    exact .inl rfl
  | succ n ih =>
    rw [after, Function.iterate_succ_apply', ← after] at hn
    cases hprev : c.after n with
    | returned | overflowed =>
      rw [hprev] at hn
      cases hn
    | running prev =>
      rw [hprev] at hn
      apply iterate_slid (ih hprev)
      change (c.iterate prev).getD .overflowed = _ at hn
      cases he : c.iterate prev with
      | none =>
        rw [he] at hn
        cases hn
      | some s =>
        rw [he] at hn
        exact congrArg some hn

/-- The table's entries with an index below `amount`. -/
theorem Call.getElem?_used {c : Call} :
    c.used[i]? = some p ↔ i < c.amount ∧ c.smallPrimes[i]? = some p := by
  rw [used, List.getElem?_take]
  split
  · next hlt => exact (and_iff_right (Nat.lt_of_lt_of_le hlt (Nat.min_le_left _ _))).symm
  · next hge =>
    refine iff_of_false nofun ?_
    rintro ⟨hlt, hp⟩
    obtain ⟨hlen, -⟩ := List.getElem?_eq_some_iff.1 hp
    exact hge (Nat.lt_min.2 ⟨hlt, hlen⟩)

theorem Call.mem_used {c : Call} :
    p ∈ c.used ↔ ∃ i, i < c.amount ∧ c.smallPrimes[i]? = some p := by
  rw [List.mem_iff_getElem?]
  exact exists_congr fun _ => getElem?_used

theorem Lane.Aligned.least {lane : Lane} (h : lane.Aligned base) (hp : lane.p.1 ≠ 2) :
    IsLeast {k | lane.p.1 ∣ base + 2 * k} lane.offsetX ∧
      IsLeast {k | lane.p.1 ∣ 2 * (base + 2 * k) + 1} lane.offset2x := by
  have hset : {k | lane.p.1 ∣ 2 * (base + 2 * k) + 1} = zeros lane.p 4 (2 * base + 1) :=
    Set.ext fun k => mem_zeros_twoX.symm
  rw [hset]
  exact ⟨isLeast_zeros (lane.p.coprime hp 1) h.x.1 h.x.2,
    isLeast_zeros (lane.p.coprime hp 2) h.twoX.1 h.twoX.2⟩

/-- In every iteration, past its first block: the offsets are the least positions for the
current base, the marks are the struck candidates, and the iteration goes through, with no
computation that leaves its word. -/
theorem Call.marks_exactly_multiples (c : Call) (hn : c.after n = .running st) :
    (c.init st = none → c.bits < 2) ∧ ∀ st', c.init st = some st' →
      (∃ i b windows, st'.drawn = i + 1 ∧ c.drawBase i = some b ∧
        st'.base = b + 2 * sieveSize * windows) ∧
      (∀ i p, i < c.amount → c.smallPrimes[i]? = some p → p.1 ≠ 2 →
        ∃ lane, st'.lanes[i]? = some lane ∧
          IsLeast {k | p.1 ∣ st'.base + 2 * k} lane.offsetX ∧
          IsLeast {k | p.1 ∣ 2 * (st'.base + 2 * k) + 1} lane.offset2x) ∧
      ∃ sieve lanes, markWindow st'.lanes = some (sieve, lanes) ∧
        (∀ k (h : k < sieveSize), sieve[k] = true ↔
          ∃ i p, i < c.amount ∧ c.smallPrimes[i]? = some p ∧ p.1 ≠ 2 ∧
            (p.1 ∣ st'.base + 2 * k ∨ p.1 ∣ 2 * (st'.base + 2 * k) + 1)) ∧
        ((∃ k, IsLeast (hits c.isProbablyPrime st'.base sieve 0) k ∧
            c.iterate st = some (.returned (2 * (st'.base + 2 * k) + 1))) ∨
          hits c.isProbablyPrime st'.base sieve 0 = ∅ ∧
            c.iterate st = some (.running ⟨st'.base + 2 * sieveSize, lanes,
              decide (c.bits ≤ (st'.base + 2 * sieveSize).size), st'.drawn⟩)) := by
  have hst := slid_of_after hn
  refine ⟨init_eq_none hst, fun st' hinit => ?_⟩
  have hslid := init_slid hst hinit
  obtain ⟨sieve, lanes, he, -, -, hmark, hnext⟩ := hslid.marks
  rw [← iterate_of_init hinit hslid.toReady] at hnext
  refine ⟨hslid.moved, fun i p hi hp hodd => ?_, sieve, lanes, he, ?_, hnext⟩
  · have hlane := getElem?_used.2 ⟨hi, hp⟩
    rw [← hslid.lanes, List.getElem?_map, Option.map_eq_some_iff] at hlane
    obtain ⟨lane, hlane, rfl⟩ := hlane
    exact ⟨lane, hlane, (hslid.valid lane (List.mem_of_getElem? hlane) hodd).least hodd⟩
  · intro k hk
    rw [hmark k hk]
    apply Iff.intro
    · rintro ⟨p, hmem, hstrike⟩
      obtain ⟨i, hi, hp⟩ := mem_used.1 hmem
      exact ⟨i, p, hi, hp, hstrike⟩
    · rintro ⟨i, p, hi, hp, hstrike⟩
      exact ⟨p, mem_used.2 ⟨i, hi, hp⟩, hstrike⟩

/-- A call that finds nothing: its test refuses every number. -/
def vainCall : Call where
  smallPrimes := [⟨2, Nat.prime_two, by decide⟩, ⟨3, Nat.prime_three, by decide⟩]
  isProbablyPrime _ _ := .no
  randomBits _ _ := 0
  bits := 22
  amount := 2

/-- The second window after the base 1048577. -/
theorem marks_exactly_multiples_moved : ∃ st lane sieve lanes, vainCall.after 1 = .running st ∧
    st.base = 1048577 + 2 * sieveSize ∧ st.lanes[1]? = some lane ∧
    IsLeast {k | 3 ∣ st.base + 2 * k} lane.offsetX ∧
    IsLeast {k | 3 ∣ 2 * (st.base + 2 * k) + 1} lane.offset2x ∧
    markWindow st.lanes = some (sieve, lanes) ∧
    ∀ k (h : k < sieveSize), sieve[k] = true ↔
      ∃ i p, i < vainCall.amount ∧ vainCall.smallPrimes[i]? = some p ∧ p.1 ≠ 2 ∧
        (p.1 ∣ st.base + 2 * k ∨ p.1 ∣ 2 * (st.base + 2 * k) + 1) := by
  have hdraw : vainCall.drawBase vainCall.start.drawn = some 1048577 := by decide
  obtain ⟨top, hinit, hready, hbase, -⟩ := Call.init_eq rfl hdraw
  obtain ⟨k, ⟨hk, -⟩, -⟩ | ⟨-, st, hst, hmoved, -, hnext⟩ := hready.iterate (by decide)
  · cases hk.2.2
  have hshort : ¬2 ^ (vainCall.bits - 1) ≤ st.base := by
    rw [hmoved, hbase, sieveSize]
    decide
  rw [if_neg hshort] at hnext
  have hafter : vainCall.after 1 = .running st := by
    rw [← Call.iterate_of_init hinit hready] at hst
    exact congrArg (fun s : Option Status => s.getD .overflowed) hst
  obtain ⟨-, hmarks⟩ := vainCall.marks_exactly_multiples hafter
  obtain ⟨-, hleast, sieve, lanes, hwindow, hmark, -⟩ := hmarks st hnext.init
  obtain ⟨lane, hlane, hx, htwoX⟩ := hleast 1 ⟨3, Nat.prime_three, by decide⟩ (by decide) rfl
    (by decide)
  exact ⟨st, lane, sieve, lanes, hafter, hmoved.trans (by rw [hbase]), hlane, hx, htwoX, hwindow,
    hmark⟩

/-- How the windows after one draw end: with the least of the positions looked for, or, where
there is none, before the next draw. -/
def Ends (positions : Set Nat) (base drawn : Nat) (s : Status) : Prop :=
  (∃ k, IsLeast positions k ∧ s = .returned (2 * (base + 2 * k) + 1)) ∨
  positions = ∅ ∧ ∃ st, s = .running st ∧ st.needInit = true ∧ st.drawn = drawn

/-- A window without a find leaves the rest of the search to the moved base. -/
theorem Ends.moved {c : Call} (hw : c.window base = ∅)
    (h : Ends (c.found (base + 2 * sieveSize)) (base + 2 * sieveSize) drawn s) :
    Ends (c.found base) base drawn s := by
  rcases h with ⟨k, hk, hs⟩ | ⟨hnone, hst⟩
  · refine .inl ⟨sieveSize + k, Call.isLeast_found_add hw hk, ?_⟩
    rw [hs, show base + 2 * sieveSize + 2 * k = base + 2 * (sieveSize + k) by ring]
  · refine .inr ⟨Set.eq_empty_of_forall_notMem fun j hj => ?_, hst⟩
    obtain ⟨k, hk, -⟩ := Call.found_of_window_empty hw hj
    rw [hnone] at hk
    exact hk

/-- Through all windows of a draw, by induction on what is left below `2 ^ (bits - 1)`. -/
theorem State.Ready.run {c : Call} {st : State} (hbits : 2 ≤ c.bits) (h : st.Ready c)
    (hb : st.base < 2 ^ (c.bits - 1)) :
    ∃ n, (∀ j ≤ n, ∃ st', c.step^[j] (.running st) = .running st' ∧ st'.needInit = false) ∧
      Ends (c.found st.base) st.base st.drawn (c.step^[n + 1] (.running st)) := by
  induction hleft : 2 ^ (c.bits - 1) - st.base using Nat.strong_induction_on
    generalizing st with
  | h left ih =>
    have hfirst : ∀ j ≤ 0,
        ∃ st', c.step^[j] (.running st) = .running st' ∧ st'.needInit = false := by
      intro j hj
      obtain rfl := Nat.le_zero.1 hj
      exact ⟨st, rfl, h.needInit⟩
    rcases h.iterate hbits with ⟨k, hk, he⟩ | ⟨hw, st', he, hbase, hdrawn, hnext⟩
    · refine ⟨0, hfirst, .inl ⟨k, Call.isLeast_found hb hk, ?_⟩⟩
      show (c.iterate st).getD .overflowed = _
      rw [he, Option.getD_some]
    · have hstep : c.step (.running st) = .running st' := by
        show (c.iterate st).getD .overflowed = _
        rw [he, Option.getD_some]
      by_cases hlong : 2 ^ (c.bits - 1) ≤ st'.base
      · rw [if_pos hlong] at hnext
        refine ⟨0, hfirst, .moved hw (.inr ⟨?_, st', hstep, hnext, hdrawn⟩)⟩
        exact Call.found_eq_empty (hbase ▸ hlong)
      · rw [if_neg hlong] at hnext
        have hpos := sieveSize_pos
        obtain ⟨n, hrun, hends⟩ := ih (2 ^ (c.bits - 1) - st'.base) (by omega) hnext (by omega) rfl
        refine ⟨n + 1, fun j hj => ?_, ?_⟩
        · cases j with
          | zero => exact hfirst 0 (Nat.le_refl 0)
          | succ j =>
            rw [Function.iterate_succ_apply, hstep]
            exact hrun j (Nat.le_of_succ_le_succ hj)
        · rw [Function.iterate_succ_apply, hstep]
          rw [hbase, hdrawn] at hends
          exact .moved hw hends

/-- From a state that is about to draw: nothing is drawn again before the windows end. -/
theorem Call.draw_eq {c : Call} {st : State} (hbits : 2 ≤ c.bits) (hst : st.needInit = true) :
    ∃ b n, c.drawBase st.drawn = some b ∧
      (∀ j, 0 < j → j ≤ n →
        ∃ st', c.step^[j] (.running st) = .running st' ∧ st'.needInit = false) ∧
      Ends (c.found b) b (st.drawn + 1) (c.step^[n + 1] (.running st)) := by
  obtain ⟨b, hb, -, hlt⟩ := drawBase_eq hbits st.drawn
  obtain ⟨st', hinit, hready, rfl, hdrawn⟩ := init_eq hst hb
  obtain ⟨n, hrun, hends⟩ := hready.run hbits hlt
  have hsame : c.step (.running st) = c.step (.running st') :=
    congrArg (fun s : Option Status => s.getD .overflowed) (iterate_of_init hinit hready)
  have hiter : ∀ j, c.step^[j + 1] (.running st) = c.step^[j + 1] (.running st') := by
    intro j
    rw [Function.iterate_succ_apply, hsame, ← Function.iterate_succ_apply]
  refine ⟨st'.base, n, hb, fun j hpos hj => ?_, ?_⟩
  · obtain ⟨j, rfl⟩ := Nat.exists_eq_succ_of_ne_zero (Nat.ne_of_gt hpos)
    rw [hiter]
    exact hrun (j + 1) hj
  · rw [hiter, ← hdrawn]
    exact hends

def Call.Returns (c : Call) (safePrime : Nat) : Prop := ∃ n, c.after n = .returned safePrime

/-- The least position looked for after the first draw that has one. -/
def Call.Finds (c : Call) (positions : Nat → Set Nat) (safePrime : Nat) : Prop :=
  ∃ i b k, c.drawBase i = some b ∧ IsLeast (positions b) k ∧ safePrime = 2 * (b + 2 * k) + 1 ∧
    ∀ j < i, ∀ b', c.drawBase j = some b' → positions b' = ∅

theorem Call.iterate_returned (c : Call) (n : Nat) :
    c.step^[n] (.returned r) = .returned r :=
  Function.iterate_fixed rfl n

/-- What is returned is returned for good. -/
theorem Call.returned_unique {c : Call} (hn : c.step^[n] s = .returned r)
    (hm : c.step^[m] s = .returned r') : r = r' := by
  have hboth : c.step^[m] (c.step^[n] s) = c.step^[n] (c.step^[m] s) := by
    rw [← Function.iterate_add_apply, ← Function.iterate_add_apply, Nat.add_comm]
  rw [hn, hm, iterate_returned, iterate_returned] at hboth
  exact Status.returned.inj hboth

theorem Call.reaches_draw {c : Call} (hbits : 2 ≤ c.bits)
    (hnone : ∀ j < i, ∀ b, c.drawBase j = some b → c.found b = ∅) :
    ∃ n st, c.after n = .running st ∧ st.needInit = true ∧ st.drawn = i := by
  induction i with
  | zero => exact ⟨0, c.start, rfl, rfl, rfl⟩
  | succ i ih =>
    obtain ⟨n, st, hn, hst, rfl⟩ := ih fun j hj => hnone j (Nat.lt_succ_of_lt hj)
    obtain ⟨b, m, hb, -, hends⟩ := c.draw_eq hbits hst
    rcases hends with ⟨k, hk, -⟩ | ⟨-, st', hst', hneed, hdrawn⟩
    · exact absurd hk.1 (by rw [hnone _ (Nat.lt_succ_self _) b hb]; exact Set.notMem_empty k)
    · refine ⟨m + 1 + n, st', ?_, hneed, hdrawn⟩
      unfold after at hn
      rw [after, Function.iterate_add_apply, hn, hst']

theorem Call.finds_of_returned {c : Call} {st : State} (hbits : 2 ≤ c.bits)
    (hst : st.needInit = true) (hr : c.step^[n] (.running st) = .returned r) :
    ∃ i b k, c.drawBase i = some b ∧ IsLeast (c.found b) k ∧ r = 2 * (b + 2 * k) + 1 ∧
      ∀ j, st.drawn ≤ j → j < i → ∀ b', c.drawBase j = some b' → c.found b' = ∅ := by
  induction n using Nat.strong_induction_on generalizing st with
  | h n ih =>
    obtain ⟨b, m, hb, hrun, hends⟩ := c.draw_eq hbits hst
    rcases hends with ⟨k, hk, hret⟩ | ⟨hnone, st', hst', hneed, hdrawn⟩
    · exact ⟨st.drawn, b, k, hb, hk, c.returned_unique hr hret, fun j hle hlt => by omega⟩
    · have hlt : m + 1 < n := by
        by_contra hle
        -- a call that has returned by now would not be drawing again
        have hsplit : c.step^[m + 1] (.running st) =
            c.step^[m + 1 - n] (c.step^[n] (.running st)) := by
          rw [← Function.iterate_add_apply, Nat.sub_add_cancel (Nat.le_of_not_lt hle)]
        rw [hst', hr, iterate_returned] at hsplit
        cases hsplit
      have hrest : c.step^[n - (m + 1)] (.running st') = .returned r := by
        rw [← hst', ← Function.iterate_add_apply, Nat.sub_add_cancel hlt.le]
        exact hr
      obtain ⟨i, b', k, hb', hk, hval, hbefore⟩ := ih _ (by omega) hneed hrest
      refine ⟨i, b', k, hb', hk, hval, fun j hle hj b'' hb'' => ?_⟩
      rcases Nat.eq_or_lt_of_le hle with rfl | hlt'
      · obtain rfl := Option.some.inj (hb.symm.trans hb'')
        exact hnone
      · exact hbefore j (by omega) hj b'' hb''

theorem Call.returns_iff_finds {c : Call} (hbits : 2 ≤ c.bits) :
    c.Returns r ↔ c.Finds c.found r := by
  apply Iff.intro
  · rintro ⟨n, hn⟩
    obtain ⟨i, b, k, hb, hk, hr, hbefore⟩ := finds_of_returned hbits rfl hn
    exact ⟨i, b, k, hb, hk, hr, fun j hj => hbefore j (Nat.zero_le j) hj⟩
  · rintro ⟨i, b, k, hb, hk, rfl, hbefore⟩
    obtain ⟨n, st, hn, hst, rfl⟩ := reaches_draw hbits hbefore
    obtain ⟨b', m, hb', -, hends⟩ := c.draw_eq hbits hst
    obtain rfl := Option.some.inj (hb.symm.trans hb')
    rcases hends with ⟨k', hk', hret⟩ | ⟨hnone, -⟩
    · obtain rfl := hk.unique hk'
      refine ⟨m + 1 + n, ?_⟩
      unfold after at hn
      rw [after, Function.iterate_add_apply, hn, hret]
    · exact absurd hk.1 (by rw [hnone]; exact Set.notMem_empty k)

/-- What a search without a sieve looks for, one candidate after the other: the positions of
the same windows at which a safe prime lies. -/
def Call.plain (c : Call) (base : Nat) : Set Nat :=
  {k | base + 2 * sieveSize * (k / sieveSize) < 2 ^ (c.bits - 1) ∧
    (base + 2 * k).Prime ∧ (2 * (base + 2 * k) + 1).Prime}

theorem passes_iff {isProbablyPrime : Nat → Nat → IsPrime}
    (hexact : ∀ n, (isProbablyPrime n 25).accepted = true ↔ n.Prime) :
    passes isProbablyPrime q = true ↔ q.Prime ∧ (2 * q + 1).Prime := by
  rw [passes, Bool.and_eq_true, hexact, hexact, Nat.shiftLeft_eq, Nat.pow_one, Nat.mul_comm]

/-- A prime smaller than both numbers of a pair of primes divides neither. -/
theorem not_strikes {p : SmallPrime} (hp : p.1 < q) (hq : q.Prime) (hsafe : (2 * q + 1).Prime) :
    ¬ Strikes p q := by
  rintro ⟨-, hdvd | hdvd⟩
  · have := (Nat.prime_dvd_prime_iff_eq p.2.1 hq).1 hdvd
    omega
  · have := (Nat.prime_dvd_prime_iff_eq p.2.1 hsafe).1 hdvd
    omega

theorem Call.found_eq_plain {c : Call}
    (hexact : ∀ n, (c.isProbablyPrime n 25).accepted = true ↔ n.Prime)
    (hlarge : ∀ p ∈ c.used, p.1 ≠ 2 → p.1 < 2 ^ (c.bits - 2)) (hb : 2 ^ (c.bits - 2) ≤ b) :
    c.found b = c.plain b := by
  ext k
  refine and_congr_right fun _ => ?_
  rw [Open, passes_iff hexact, and_iff_right_iff_imp]
  rintro ⟨hq, hsafe⟩ p hp hstrike
  have := hlarge p hp hstrike.1
  exact not_strikes (by omega) hq hsafe hstrike

/-- With an exact primality test the sieve changes nothing: each draw ends as the plain search
through its windows does, and so does the whole call. -/
theorem Call.sieve_matches_plain_search (c : Call) (hbits : 2 ≤ c.bits)
    (hexact : ∀ n, (c.isProbablyPrime n 25).accepted = true ↔ n.Prime)
    (hlarge : ∀ p ∈ c.used, p.1 ≠ 2 → p.1 < 2 ^ (c.bits - 2)) :
    (∀ st : State, st.needInit = true → ∃ b n, c.drawBase st.drawn = some b ∧
      (∀ j, 0 < j → j ≤ n →
        ∃ st', c.step^[j] (.running st) = .running st' ∧ st'.needInit = false) ∧
      Ends (c.plain b) b (st.drawn + 1) (c.step^[n + 1] (.running st))) ∧
    ∀ r, c.Returns r ↔ c.Finds c.plain r := by
  have hplain : ∀ i b, c.drawBase i = some b → c.found b = c.plain b := by
    intro i b hb
    obtain ⟨b', hb', hle, -⟩ := drawBase_eq hbits i
    obtain rfl := Option.some.inj (hb.symm.trans hb')
    exact found_eq_plain hexact hlarge hle
  apply And.intro
  · intro st hst
    obtain ⟨b, n, hb, hrun, hends⟩ := c.draw_eq hbits hst
    rw [hplain _ b hb] at hends
    exact ⟨b, n, hb, hrun, hends⟩
  · intro r
    rw [returns_iff_finds hbits]
    apply Iff.intro
    · rintro ⟨i, b, k, hb, hk, hr, hbefore⟩
      refine ⟨i, b, k, hb, hplain i b hb ▸ hk, hr, fun j hj b' hb' => ?_⟩
      rw [← hplain j b' hb']
      exact hbefore j hj b' hb'
    · rintro ⟨i, b, k, hb, hk, hr, hbefore⟩
      refine ⟨i, b, k, hb, (hplain i b hb).symm ▸ hk, hr, fun j hj b' hb' => ?_⟩
      rw [hplain j b' hb']
      exact hbefore j hj b' hb'

/-- A call with the table's first two entries, an exact test and a generator stuck at zero. -/
def smallCall (bits : Nat) : Call where
  smallPrimes := [⟨2, Nat.prime_two, by decide⟩, ⟨3, Nat.prime_three, by decide⟩]
  isProbablyPrime n _ := if n.Prime then .yes else .no
  randomBits _ _ := 0
  bits := bits
  amount := 2

theorem smallCall_exact (bits n : Nat) :
    ((smallCall bits).isProbablyPrime n 25).accepted = true ↔ n.Prime := by
  show (if n.Prime then IsPrime.yes else IsPrime.no).accepted = true ↔ n.Prime
  split
  · next h => exact iff_of_true rfl h
  · next h => exact iff_of_false Bool.false_ne_true h

theorem sieve_matches_plain_search_four_bits :
    2 ≤ (smallCall 4).bits ∧ (smallCall 4).Returns 11 := by
  have hlarge : ∀ p ∈ (smallCall 4).used, p.1 ≠ 2 → p.1 < 2 ^ ((smallCall 4).bits - 2) := by
    decide
  refine ⟨by decide, ((smallCall 4).sieve_matches_plain_search (by decide) (smallCall_exact 4)
    hlarge).2 11 |>.2 ⟨0, 5, 0, rfl, ⟨⟨?_, ?_, ?_⟩, fun k _ => Nat.zero_le k⟩, rfl, ?_⟩⟩
  · rw [Nat.zero_div]
    decide
  · norm_num
  · norm_num
  · intro j hj
    exact absurd hj (Nat.not_lt_zero j)

/-- The length of a safe prime is that of the prime below it and one bit more. -/
theorem size_eq_iff {bits q : Nat} (hbits : 2 ≤ bits) (hq : 2 ^ (bits - 2) ≤ q) :
    Nat.size (2 * q + 1) = bits ↔ q < 2 ^ (bits - 1) := by
  obtain ⟨n, rfl⟩ := Nat.exists_eq_add_of_le' hbits
  have hlong : n + 2 ≤ Nat.size (2 * q + 1) := by
    rw [Nat.succ_le_iff, Nat.lt_size, Nat.pow_succ]
    rw [Nat.add_sub_cancel] at hq
    omega
  have hshort : Nat.size (2 * q + 1) ≤ n + 2 ↔ q < 2 ^ (n + 2 - 1) := by
    rw [Nat.size_le, Nat.pow_succ, show n + 2 - 1 = n + 1 from rfl]
    omega
  rw [← hshort]
  exact ⟨fun h => h.le, fun h => Nat.le_antisymm h hlong⟩

/-- Every candidate below `2 ^ (bits - 1)` lies in a window that is scanned. -/
theorem Call.mem_found {c : Call} (hlt : b + 2 * k < 2 ^ (c.bits - 1)) (h : c.Open (b + 2 * k)) :
    k ∈ c.found b := by
  have hle := Nat.mul_div_le k sieveSize
  refine ⟨?_, h⟩
  calc b + 2 * sieveSize * (k / sieveSize)
      = b + 2 * (sieveSize * (k / sieveSize)) := by rw [Nat.mul_assoc]
    _ ≤ b + 2 * k := by omega
    _ < 2 ^ (c.bits - 1) := hlt

/-- The length is right just when the first base that leads to an open candidate leads to one
below `2 ^ (bits - 1)`: only the base is tested before a window is scanned. -/
theorem Call.size_eq_bits_iff (c : Call) (hbits : 3 ≤ c.bits) :
    (∀ r, c.Returns r → Nat.size r = c.bits) ↔
      ∀ i b, c.drawBase i = some b → (∀ j < i, ∀ b', c.drawBase j = some b' → c.found b' = ∅) →
        (c.found b).Nonempty → ∃ k, b + 2 * k < 2 ^ (c.bits - 1) ∧ c.Open (b + 2 * k) := by
  have htwo : 2 ≤ c.bits := Nat.le_of_succ_le hbits
  have hsize : ∀ i b k, c.drawBase i = some b →
      (Nat.size (2 * (b + 2 * k) + 1) = c.bits ↔ b + 2 * k < 2 ^ (c.bits - 1)) := by
    intro i b k hb
    obtain ⟨b', hb', hle, -⟩ := drawBase_eq htwo i
    obtain rfl := Option.some.inj (hb.symm.trans hb')
    exact size_eq_iff htwo (by omega)
  apply Iff.intro
  · intro h i b hb hbefore hne
    have hk := isLeast_csInf hne
    have hret := (returns_iff_finds htwo).2 ⟨i, b, _, hb, hk, rfl, hbefore⟩
    exact ⟨_, (hsize i b _ hb).1 (h _ hret), hk.1.2⟩
  · intro h r hr
    obtain ⟨i, b, k, hb, hk, rfl, hbefore⟩ := (returns_iff_finds htwo).1 hr
    obtain ⟨k', hlt, hopen⟩ := h i b hb hbefore ⟨k, hk.1⟩
    have hle : k ≤ k' := hk.2 (mem_found hlt hopen)
    exact (hsize i b k hb).2 (by omega)

theorem size_eq_bits_iff_four_bits :
    3 ≤ (smallCall 4).bits ∧ ((∀ r, (smallCall 4).Returns r → Nat.size r = (smallCall 4).bits) ↔
      ∀ i b, (smallCall 4).drawBase i = some b →
        (∀ j < i, ∀ b', (smallCall 4).drawBase j = some b' → (smallCall 4).found b' = ∅) →
        ((smallCall 4).found b).Nonempty →
        ∃ k, b + 2 * k < 2 ^ ((smallCall 4).bits - 1) ∧ (smallCall 4).Open (b + 2 * k)) :=
  ⟨by decide, (smallCall 4).size_eq_bits_iff (by decide)⟩

/-- Three bits asked for, base 3: the sieve strikes 3 itself, the scan goes on to 5. -/
theorem three_bits_returns_eleven :
    3 ≤ (smallCall 3).bits ∧ (smallCall 3).Returns 11 ∧ Nat.size 11 ≠ (smallCall 3).bits := by
  have hone : 1 < sieveSize := by
    rw [sieveSize]
    decide
  refine ⟨by decide, (Call.returns_iff_finds (by decide)).2 ⟨0, 3, 1, rfl, ⟨?_, ?_⟩, rfl, ?_⟩,
    by decide⟩
  · refine (Call.mem_found_of_lt hone).2 ⟨by decide, hone, by unfold Strikes; decide, ?_⟩
    rw [passes_iff (smallCall_exact 3)]
    norm_num
  · intro k hk
    by_contra hlt
    obtain rfl : k = 0 := by omega
    exact hk.2.1 ⟨3, Nat.prime_three, by decide⟩ (by decide) ⟨by decide, .inl (Nat.dvd_refl 3)⟩
  · intro j hj
    exact absurd hj (Nat.not_lt_zero j)

end WalletMpc.FastPaillier

import WalletMpc.Handlers

namespace WalletMpc.Sse
open Systems Arenas Locks
set_option autoImplicit true

/-- The answers to the index requests for a room, in the order in which the counter gave them. -/
def SseServer.indexes (s : SseServer τ μ) (roomId : String) : List UInt16 :=
  (s.issued.filter fun e => e.1 = roomId).map Prod.snd

/-- The answers so far are the counter's values from 0, and the counter stands at the next. -/
def SseServer.Counts (s : SseServer τ μ) : Prop :=
  ∀ r, ∃ n, s.indexes r = (List.range n).map UInt16.ofNat ∧
    (s.toDb.room r).nextIdx = UInt16.ofNat n

theorem ofNat_eq_iff {i j : Nat} : UInt16.ofNat i = UInt16.ofNat j ↔ i % 65536 = j % 65536 := by
  rw [← UInt16.toNat_inj, UInt16.toNat_ofNat', UInt16.toNat_ofNat']

theorem nodup_counter {n : Nat} : ((List.range n).map UInt16.ofNat).Nodup ↔ n ≤ 65536 := by
  apply Iff.intro
  · intro h
    by_contra hlt
    have hinj := List.inj_on_of_nodup_map h
    have hzero : 0 ∈ List.range n := List.mem_range.2 (by omega)
    have hwrap : 65536 ∈ List.range n := List.mem_range.2 (by omega)
    cases hinj hzero hwrap (ofNat_eq_iff.2 rfl)
  · intro h
    refine List.nodup_range.map_on fun i hi j hj he => ?_
    rw [List.mem_range] at hi hj
    have := ofNat_eq_iff.1 he
    omega

theorem Db.nextIdx_set (db : Db μ) {room : Room μ} (h : room.nextIdx = (db.room r).nextIdx)
    (r' : String) : ((db.set r room).room r').nextIdx = (db.room r').nextIdx := by
  by_cases hr : r' = r
  · rw [hr, Db.room_set, h]
  · rw [Db.room_set_of_ne _ _ hr]

theorem SseServer.Inv.nextIdx_set {s : SseServer τ μ} (hi : s.Inv)
    (ha : s.rooms.addr r = some a) (hroom : s.rooms.cells[a]? = some room)
    (h : room'.nextIdx = room.nextIdx) (r' : String) :
    (Db.room ⟨(s.rooms.set a room').get?⟩ r').nextIdx = (s.toDb.room r').nextIdx := by
  rw [hi.toDb_set ha room']
  exact s.toDb.nextIdx_set (by rw [h, room_of_addr ha hroom]) r'

/-- A step answers one index request with the counter of the room, or leaves all counters. -/
theorem SseServer.Step.issue [DecidableEq τ] {s t : SseServer τ μ} (hs : Step p s x t)
    (hi : s.Inv) :
    (t.issued = s.issued ∧ ∀ r, (t.toDb.room r).nextIdx = (s.toDb.room r).nextIdx) ∨
    ∃ r, t.issued = s.issued ++ [(r, (s.toDb.room r).nextIdx)] ∧
      t.toDb = s.toDb.set r (s.toDb.room r).issueUniqueIdx.1 := by
  cases hs with
  | insert hk =>
    rename_i k roomId request
    have hdb := congrArg Db.mk (hi.exact.get?_insert roomId (Room.empty : Room μ))
    refine .inl ⟨rfl, fun r => ?_⟩
    change (Db.room ⟨(s.rooms.insert roomId Room.empty).get?⟩ r).nextIdx = _
    rw [hdb]
    exact s.toDb.nextIdx_set (by rw [room_of_no_addr (hi.knows hk)]) r
  | subscribe hk hroom hsub =>
    have hn := congrArg (fun x => x.1.nextIdx) hsub
    exact .inl ⟨rfl, hi.nextIdx_set (hi.knows hk) hroom hn.symm⟩
  | subscribeFailed hk hroom hsub =>
    have hn := congrArg (fun x => x.1.nextIdx) hsub
    exact .inl ⟨rfl, hi.nextIdx_set (hi.knows hk) hroom hn.symm⟩
  | issueIdx hk hroom =>
    rename_i a k roomId room
    have hr := room_of_addr (hi.knows hk) hroom
    refine .inr ⟨roomId, ?_, ?_⟩
    · rw [hr]
      rfl
    · rw [hr]
      exact hi.toDb_set (hi.knows hk) _
  | broadcast hk hroom => exact .inl ⟨rfl, hi.nextIdx_set (hi.knows hk) hroom rfl⟩
  | crash hk hroom _ => exact .inl ⟨rfl, hi.nextIdx_set (hi.knows hk).1 hroom rfl⟩
  | drop hk hroom => exact .inl ⟨rfl, hi.nextIdx_set (hi.knows hk).1 hroom rfl⟩
  | _ => exact .inl ⟨rfl, fun _ => rfl⟩

theorem SseServer.indexes_append {s t : SseServer τ μ} (h : t.issued = s.issued ++ [(r, idx)])
    (r' : String) : t.indexes r' = if r' = r then s.indexes r' ++ [idx] else s.indexes r' := by
  rw [indexes, indexes, h, List.filter_append, List.map_append]
  split
  · next hr =>
    rw [List.filter_singleton, decide_eq_true hr.symm]
    rfl
  · next hr =>
    rw [List.filter_singleton, decide_eq_false (Ne.symm hr)]
    exact List.append_nil _

theorem SseServer.Step.counts [DecidableEq τ] {s t : SseServer τ μ} (hs : Step p s x t)
    (hi : s.Inv) (hc : s.Counts) : t.Counts := by
  intro r
  obtain ⟨n, hn, hnext⟩ := hc r
  rcases hs.issue hi with ⟨hissued, hsame⟩ | ⟨r', hissued, hdb⟩
  · refine ⟨n, ?_, (hsame r).trans hnext⟩
    rw [indexes, hissued]
    exact hn
  · rw [indexes_append hissued, hdb]
    by_cases hr : r = r'
    · subst hr
      refine ⟨n + 1, ?_, ?_⟩
      · rw [if_pos rfl, hn, hnext, List.range_succ, List.map_append, List.map_singleton]
      · rw [Db.room_set]
        change (s.toDb.room r).nextIdx + 1 = _
        rw [hnext, UInt16.ofNat_add]
        rfl
    · rw [if_neg hr, Db.room_set_of_ne _ _ hr]
      exact ⟨n, hn, hnext⟩

theorem SseServer.counts [DecidableEq τ] {s : SseServer τ μ} (h : (server p τ μ).Reachable s) :
    s.Counts := by
  apply h.invariant
  · intro s h0 r
    cases h0
    exact ⟨0, rfl, rfl⟩
  · intro s x t hr hc hst
    exact SseServer.Step.counts hst (SseServer.inv hr) hc

/-- The answers of a room are distinct just as long as the counter has not come round, under
every interleaving of the handlers. -/
theorem indexes_nodup_iff [DecidableEq τ] {s : SseServer τ μ}
    (h : (server p τ μ).Reachable s) (r : String) :
    (s.indexes r).Nodup ↔ (s.indexes r).length ≤ 65536 := by
  obtain ⟨n, hn, -⟩ := SseServer.counts h r
  rw [hn, nodup_counter, List.length_map, List.length_range]

section
variable [DecidableEq τ]

/-- A task is idle, nobody writes the map, and the room is there. -/
structure SseServer.Ready (s : SseServer τ μ) (k : τ) (roomId : String) : Prop where
  idle : s.handlers k = .idle
  unlocked : s.lock.writer = none
  placed : ∃ (a : Nat) (room : Room μ), s.rooms.addr roomId = some a ∧
    s.rooms.cells[a]? = some room

/-- One more index request, from its arrival to its answer. -/
theorem SseServer.Ready.issue {s : SseServer τ μ} (h : s.Ready k r) (p : Profile) :
    ∃ as t, (server p τ μ).Run s as t ∧ t.Ready k r ∧ ∃ idx, t.issued = s.issued ++ [(r, idx)] := by
  obtain ⟨a, room, ha, hroom⟩ := h.placed
  let s1 := s.move k (.lockingRead .issueIdx r)
  let lock : RwLock τ := ⟨insert k s.lock.readers, s.lock.writer, fun hw => (hw h.unlocked).elim⟩
  let s2 : SseServer τ μ := { s1.move k (.reading .issueIdx r) with lock := lock }
  let s3 := s2.give k .issueIdx r a
  let t : SseServer τ μ := { s3.move k .idle with
    rooms := s.rooms.set a room.issueUniqueIdx.1
    issued := s.issued ++ [(r, room.issueUniqueIdx.2)] }
  have hread : s.lock.tryRead k = some lock := dif_pos h.unlocked
  have h1 : Step p s (k, .request .issueIdx r) s1 := .request .issueIdx r h.idle
  have h2 : Step p s1 (k, .advance) s2 := .lockRead (Function.update_self ..) hread
  have h3 : Step p s2 (k, .advance) s3 := .hit (Function.update_self ..) ha
  have h4 : Step p s3 (k, .advance) t := .issueIdx (Function.update_self ..) hroom
  refine ⟨_, t, .head h1 (.head h2 (.head h3 (.single h4))), ⟨?_, ?_, ?_⟩, _, rfl⟩
  · exact Function.update_self ..
  · change (if s.lock.writer = some k then none else s.lock.writer) = none
    rw [h.unlocked]
    rfl
  · exact ⟨a, _, ha, List.getElem?_set_self (List.getElem?_eq_some_iff.1 hroom).1⟩

/-- The first index request on a new server creates the room. -/
theorem SseServer.first_issue (p : Profile) (k : τ) (r : String) :
    ∃ t : SseServer τ μ,
      (server p τ μ).Reachable t ∧ t.Ready k r ∧ (t.indexes r).length = 1 := by
  let s0 : SseServer τ μ := ⟨.empty, .unlocked, fun _ => .idle, [], [], []⟩
  let s1 := s0.move k (.lockingRead .issueIdx r)
  let reads : RwLock τ := ⟨insert k ∅, none, fun hw => (hw rfl).elim⟩
  let s2 : SseServer τ μ := { s1.move k (.reading .issueIdx r) with lock := reads }
  let s3 : SseServer τ μ := { s2.move k (.lockingWrite .issueIdx r) with lock := reads.release k }
  have hfree : (reads.release k).writer = none ∧ (reads.release k).readers = ∅ :=
    ⟨rfl, Finset.erase_insert (Finset.notMem_empty k)⟩
  let writes : RwLock τ := ⟨(reads.release k).readers, some k, fun _ => hfree.2⟩
  let s4 : SseServer τ μ := { s3.move k (.writing .issueIdx r) with lock := writes }
  let s5 := s4.move k (.vacant .issueIdx r)
  let s6 : SseServer τ μ := { s5.give k .issueIdx r s5.rooms.cells.length with
    rooms := s5.rooms.insert r Room.empty }
  let t : SseServer τ μ := { s6.move k .idle with
    rooms := s6.rooms.set 0 Room.empty.issueUniqueIdx.1
    issued := s6.issued ++ [(r, (Room.empty : Room μ).issueUniqueIdx.2)] }
  have h1 : Step p s0 (k, .request .issueIdx r) s1 := .request .issueIdx r rfl
  have h2 : Step p s1 (k, .advance) s2 := .lockRead (Function.update_self ..) (dif_pos rfl)
  have h3 : Step p s2 (k, .advance) s3 := .miss (Function.update_self ..) rfl
  have h4 : Step p s3 (k, .advance) s4 := .lockWrite (Function.update_self ..) (dif_pos hfree)
  have h5 : Step p s4 (k, .advance) s5 := .vacant (Function.update_self ..) rfl
  have h6 : Step p s5 (k, .advance) s6 := .insert (Function.update_self ..)
  have h7 : Step p s6 (k, .advance) t := .issueIdx (Function.update_self ..) rfl
  have hreach : (server p τ μ).Reachable t :=
    .next (.next (.next (.next (.next (.next (.next (.start rfl) h1) h2) h3) h4) h5) h6) h7
  refine ⟨t, hreach, ⟨Function.update_self .., ?_, ?_⟩, ?_⟩
  · exact if_pos rfl
  · exact ⟨0, _, Function.update_self .., rfl⟩
  · rw [indexes_append (s := s6) rfl, if_pos rfl]
    rfl

theorem SseServer.issue_many (p : Profile) (k : τ) (r : String) (n : Nat) :
    ∃ t, (server p τ μ).Reachable t ∧ t.Ready k r ∧ (t.indexes r).length = n + 1 := by
  induction n with
  | zero => exact first_issue p k r
  | succ n ih =>
    obtain ⟨s, hs, hready, hlen⟩ := ih
    obtain ⟨as, t, hrun, hready', idx, hissued⟩ := hready.issue p
    refine ⟨t, hs.run hrun, hready', ?_⟩
    rw [indexes_append hissued, if_pos rfl, List.length_append, hlen, List.length_singleton]

end

/-- Three index requests for one room. -/
theorem first_indexes_unique :
    ∃ s, (server .dev Unit String).Reachable s ∧ (s.indexes "room").length = 3 ∧
      (s.indexes "room").Nodup := by
  obtain ⟨s, hs, -, hlen⟩ := SseServer.issue_many .dev () "room" 2
  exact ⟨s, hs, hlen, (indexes_nodup_iff hs "room").2 (by omega)⟩

/-- 65537 index requests for one room: two of them are answered with the same index. -/
theorem index_issued_twice :
    ∃ s, (server .release Unit String).Reachable s ∧ ¬ (s.indexes "room").Nodup := by
  obtain ⟨s, hs, -, hlen⟩ := SseServer.issue_many .release () "room" 65536
  obtain ⟨n, hn, -⟩ := SseServer.counts hs "room"
  refine ⟨s, hs, fun h => ?_⟩
  rw [hn, List.length_map, List.length_range] at hlen
  rw [hn, nodup_counter] at h
  omega

end WalletMpc.Sse

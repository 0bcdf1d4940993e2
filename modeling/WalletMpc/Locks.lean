import Mathlib.Data.Finset.Insert
import Mathlib.Data.Finset.Erase
import Mathlib.Logic.Function.Basic

namespace Locks
set_option autoImplicit true

/-- A readers-writer lock: the tasks with a read guard and the one with the write guard. -/
structure RwLock (ι : Type u) where
  readers : Finset ι
  writer : Option ι
  exclusive : writer ≠ none → readers = ∅

inductive Mode where
  | free
  | reads
  | writes

def RwLock.unlocked : RwLock ι := ⟨∅, none, fun h => (h rfl).elim⟩

section
variable [DecidableEq ι]

def RwLock.tryRead (l : RwLock ι) (i : ι) : Option (RwLock ι) :=
  if h : l.writer = none then
    some ⟨insert i l.readers, l.writer, fun hw => (hw h).elim⟩
  else none

def RwLock.tryWrite (l : RwLock ι) (i : ι) : Option (RwLock ι) :=
  if h : l.writer = none ∧ l.readers = ∅ then
    some ⟨l.readers, some i, fun _ => h.2⟩
  else none

def RwLock.release (l : RwLock ι) (i : ι) : RwLock ι where
  readers := l.readers.erase i
  writer := if l.writer = some i then none else l.writer
  exclusive := by
    intro h
    have hw : l.writer ≠ none := by
      intro hn
      rw [hn] at h
      exact h rfl
    rw [l.exclusive hw, Finset.erase_eq_of_notMem (Finset.notMem_empty i)]

end

/-- The guards are held by exactly the tasks that are in the code they protect. -/
structure RwLock.Tracks (l : RwLock ι) (mode : ι → Mode) : Prop where
  reader : ∀ i, i ∈ l.readers ↔ mode i = .reads
  writer : ∀ i, l.writer = some i ↔ mode i = .writes

theorem RwLock.Tracks.unlocked {mode : ι → Mode} (h : ∀ i, mode i = .free) :
    (RwLock.unlocked : RwLock ι).Tracks mode := by
  constructor
  · intro i
    rw [h i]
    exact ⟨fun hi => absurd hi (Finset.notMem_empty i), nofun⟩
  · intro i
    rw [h i]
    exact ⟨nofun, nofun⟩

theorem RwLock.Tracks.no_reader {l : RwLock ι} (h : l.Tracks mode) (hi : mode i = .writes)
    (j : ι) : mode j ≠ .reads := by
  intro hj
  have hr := (h.reader j).2 hj
  have hw := (h.writer i).2 hi
  rw [l.exclusive (by rw [hw]; exact Option.some_ne_none i)] at hr
  exact Finset.notMem_empty j hr

section
variable [DecidableEq ι]

theorem RwLock.Tracks.keep {l : RwLock ι} (h : l.Tracks mode) (hi : mode i = m) :
    l.Tracks (Function.update mode i m) := by
  rw [← hi, Function.update_eq_self]
  exact h

theorem RwLock.Tracks.tryRead {l l' : RwLock ι} (h : l.Tracks mode) (hl : l.tryRead i = some l') :
    l'.Tracks (Function.update mode i .reads) := by
  rw [RwLock.tryRead] at hl
  split at hl
  · rename_i hw
    cases hl
    constructor
    · intro j
      by_cases hj : j = i
      · subst j
        exact ⟨fun _ => Function.update_self .., fun _ => Finset.mem_insert_self ..⟩
      · rw [Function.update_of_ne hj, Finset.mem_insert, or_iff_right hj]
        exact h.reader j
    · intro j
      by_cases hj : j = i
      · subst j
        rw [Function.update_self, hw]
        exact ⟨nofun, nofun⟩
      · rw [Function.update_of_ne hj]
        exact h.writer j
  · cases hl

theorem RwLock.Tracks.tryWrite {l l' : RwLock ι} (h : l.Tracks mode)
    (hl : l.tryWrite i = some l') : l'.Tracks (Function.update mode i .writes) := by
  rw [RwLock.tryWrite] at hl
  split at hl
  · rename_i hw
    cases hl
    constructor
    · intro j
      by_cases hj : j = i
      · subst j
        rw [Function.update_self, hw.2]
        exact ⟨fun hi => absurd hi (Finset.notMem_empty _), nofun⟩
      · rw [Function.update_of_ne hj]
        exact h.reader j
    · intro j
      by_cases hj : j = i
      · subst j
        exact ⟨fun _ => Function.update_self .., fun _ => rfl⟩
      · rw [Function.update_of_ne hj, ← h.writer j, hw.1]
        exact ⟨fun hi => absurd (Option.some.inj hi).symm hj, nofun⟩
  · cases hl

theorem RwLock.Tracks.release {l : RwLock ι} (h : l.Tracks mode) (i : ι) :
    (l.release i).Tracks (Function.update mode i .free) := by
  constructor
  · intro j
    change j ∈ l.readers.erase i ↔ _
    by_cases hj : j = i
    · subst j
      rw [Function.update_self]
      exact ⟨fun hi => absurd hi (Finset.notMem_erase i _), nofun⟩
    · rw [Function.update_of_ne hj, Finset.mem_erase, and_iff_right hj]
      exact h.reader j
  · intro j
    change (if l.writer = some i then none else l.writer) = some j ↔ _
    by_cases hj : j = i
    · subst j
      rw [Function.update_self]
      split
      · exact ⟨nofun, nofun⟩
      · rename_i hw
        exact ⟨fun hi => absurd hi hw, nofun⟩
    · rw [Function.update_of_ne hj, ← h.writer j]
      split
      · rename_i hw
        rw [hw]
        exact ⟨nofun, fun hi => absurd (Option.some.inj hi).symm hj⟩
      · rfl

end

/-- A wakeup source without stored permits; it counts the calls of `notifyWaiters`. -/
structure Notify where
  calls : Nat

/-- A future that is woken by the first call made after its creation, polled or not. -/
structure Notified where
  seen : Nat

def Notify.notified (n : Notify) : Notified := ⟨n.calls⟩

def Notify.notifyWaiters (n : Notify) : Notify := ⟨n.calls + 1⟩

def Notified.Fired (f : Notified) (n : Notify) : Prop := f.seen < n.calls

instance (f : Notified) (n : Notify) : Decidable (f.Fired n) := Nat.decLt ..

/-- A future of this source: created at some call count it has had. -/
def Notified.Of (f : Notified) (n : Notify) : Prop := f.seen ≤ n.calls

theorem Notify.notified_of (n : Notify) : n.notified.Of n := Nat.le_refl _

theorem Notified.Of.notifyWaiters {f : Notified} (h : f.Of n) : f.Of n.notifyWaiters :=
  Nat.le_succ_of_le h

theorem Notified.Of.fired {f : Notified} (h : f.Of n) : f.Fired n.notifyWaiters :=
  Nat.lt_succ_of_le h

/-- A fair mutex: the tasks that asked for it, in order. The first of them has the guard, and
it passes to the next one when that guard is dropped. -/
structure Mutex (ι : Type u) where
  line : List ι

def Mutex.unlocked : Mutex ι := ⟨[]⟩

def Mutex.holder (m : Mutex ι) : Option ι := m.line.head?

def Mutex.lock (m : Mutex ι) (i : ι) : Mutex ι := ⟨m.line ++ [i]⟩

def Mutex.leave [DecidableEq ι] (m : Mutex ι) (i : ι) : Mutex ι := ⟨m.line.filter (· ≠ i)⟩

theorem Mutex.exists_holder {m : Mutex ι} (h : i ∈ m.line) : ∃ j, m.holder = some j := by
  cases hm : m.line with
  | nil =>
    rw [hm] at h
    cases h
  | cons j l => exact ⟨j, by rw [Mutex.holder, hm]; rfl⟩

theorem Mutex.mem_of_holder {m : Mutex ι} (h : m.holder = some i) : i ∈ m.line :=
  List.mem_of_head? h

theorem Mutex.mem_lock {m : Mutex ι} : j ∈ (m.lock i).line ↔ j ∈ m.line ∨ j = i := by
  rw [Mutex.lock, List.mem_append, List.mem_singleton]

theorem Mutex.mem_leave [DecidableEq ι] {m : Mutex ι} :
    j ∈ (m.leave i).line ↔ j ∈ m.line ∧ j ≠ i := by
  rw [Mutex.leave, List.mem_filter, decide_eq_true_eq]

theorem Mutex.holder_lock {m : Mutex ι} (h : m.holder = some j) :
    (m.lock i).holder = some j := by
  rw [Mutex.holder, Mutex.lock, List.head?_append, show m.line.head? = some j from h,
    Option.some_or]

theorem Mutex.holder_leave [DecidableEq ι] {m : Mutex ι} (h : m.holder = some j) (hj : j ≠ i) :
    (m.leave i).holder = some j := by
  obtain ⟨line⟩ := m
  cases line with
  | nil => cases h
  | cons k l =>
    cases h
    rw [Mutex.holder, Mutex.leave, List.filter_cons_of_pos (by rw [decide_eq_true_eq]; exact hj),
      List.head?_cons]

/-- Where a task stands with a mutex. -/
inductive Place where
  | out
  | waiting
  | inside

/-- The tasks in line are those that have asked for the guard and not dropped it, and whoever is
in the code that it protects has it. -/
structure Mutex.Tracks (m : Mutex ι) (place : ι → Place) : Prop where
  line : ∀ i, i ∈ m.line ↔ place i ≠ .out
  holder : ∀ i, place i = .inside → m.holder = some i

theorem Mutex.Tracks.unlocked {place : ι → Place} (h : ∀ i, place i = .out) :
    (Mutex.unlocked : Mutex ι).Tracks place where
  line i := ⟨nofun, fun hi => absurd (h i) hi⟩
  holder i hi := nomatch (h i).symm.trans hi

theorem Mutex.Tracks.only {m : Mutex ι} (h : m.Tracks place) (hi : place i = .inside)
    (hj : place j = .inside) : i = j :=
  Option.some.inj ((h.holder i hi).symm.trans (h.holder j hj))

section
variable [DecidableEq ι]

theorem Mutex.Tracks.lock {m : Mutex ι} (h : m.Tracks place) (i : ι) (hi : place i = .out) :
    (m.lock i).Tracks (Function.update place i .waiting) := by
  constructor
  · intro j
    rw [Mutex.mem_lock]
    by_cases hj : j = i
    · subst hj
      rw [Function.update_self]
      exact ⟨fun _ => nofun, fun _ => .inr rfl⟩
    · rw [Function.update_of_ne hj, or_iff_left hj]
      exact h.line j
  · intro j hj
    by_cases hji : j = i
    · subst hji
      rw [Function.update_self] at hj
      cases hj
    · rw [Function.update_of_ne hji] at hj
      exact Mutex.holder_lock (h.holder j hj)

theorem Mutex.Tracks.enter {m : Mutex ι} (h : m.Tracks place) (hi : m.holder = some i) :
    m.Tracks (Function.update place i .inside) := by
  constructor
  · intro j
    by_cases hj : j = i
    · subst hj
      rw [Function.update_self]
      exact ⟨fun _ => nofun, fun _ => Mutex.mem_of_holder hi⟩
    · rw [Function.update_of_ne hj]
      exact h.line j
  · intro j hj
    by_cases hji : j = i
    · exact hji ▸ hi
    · rw [Function.update_of_ne hji] at hj
      exact h.holder j hj

theorem Mutex.Tracks.leave {m : Mutex ι} (h : m.Tracks place) (i : ι) :
    (m.leave i).Tracks (Function.update place i .out) := by
  constructor
  · intro j
    rw [Mutex.mem_leave]
    by_cases hj : j = i
    · subst hj
      rw [Function.update_self]
      exact ⟨fun hm => absurd rfl hm.2, fun hm => absurd rfl hm⟩
    · rw [Function.update_of_ne hj, and_iff_left hj]
      exact h.line j
  · intro j hj
    by_cases hji : j = i
    · subst hji
      rw [Function.update_self] at hj
      cases hj
    · rw [Function.update_of_ne hji] at hj
      exact Mutex.holder_leave (h.holder j hj) hji

end

end Locks

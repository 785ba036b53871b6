import VServer.Basic
import VServer.Lib.CondVar
import VServer.Lib.Machine

/-!
# The count-down latch

`CountDownLatch` (`Latch.h`, `Latch.cc`), called by any threads `ι`. What a thread does while it holds
`m_mutex`, from the lock or from a wait to the next wait or to the unlock, is one step.

`countDown` wakes the waiters when it brings the count to zero, and then only. That is enough: the
count never comes back above zero, so nobody falls asleep behind it (`latch_releases`).
-/

namespace VServer

/-- Where a thread is: outside of `wait()`, or in its `m_cond.wait`, asleep or awake and without the
mutex, by a signal or without one. -/
inductive LatchPlace where
  | outside | asleep | signalled | spurious
  deriving DecidableEq, Repr

structure CountDownLatch (ι : Type) where
  count : Int
  threads : ι → LatchPlace

namespace CountDownLatch

variable {ι : Type}

/-- `m_cond` -/
def cond : CondVar LatchPlace where
  asleep p := p = .asleep
  signalled p := p = .signalled
  wake p := if p = .asleep then .signalled else p
  signalled_wake p hp := by cases p <;> simp_all
  asleep_wake p := by cases p <;> simp
  not_signalled p hp := by simp_all

inductive Label (ι : Type) where
  /-- A thread gets the mutex in `wait()`. -/
  | wait (who : ι)
  /-- It has the mutex again, behind `m_cond.wait`. -/
  | resume (who : ι)
  /-- It leaves `m_cond.wait`, and nobody has signalled. -/
  | spurious (who : ι)
  | countDown (who : ι)
  deriving DecidableEq, Repr

/-- `CountDownLatch(count)` -/
def init (count : Int) : CountDownLatch ι := ⟨count, fun _ => .outside⟩

variable (s : CountDownLatch ι)

def getCount : Int := s.count

variable [DecidableEq ι]

def move (who : ι) (p : LatchPlace) : CountDownLatch ι :=
  { s with threads := Function.update s.threads who p }

theorem move_self (who : ι) (p : LatchPlace) : (s.move who p).threads who = p := by
  simp [move]

theorem move_of_ne {who other : ι} (h : other ≠ who) (p : LatchPlace) :
    (s.move who p).threads other = s.threads other := by
  simp [move, h]

/-- `while (m_count > 0)` -/
def test (who : ι) : CountDownLatch ι := s.move who (if 0 < s.count then .asleep else .outside)

variable [Fintype ι]

/-- `countDown`, with the mutex. `--m_count` is on an `int`. -/
def countDown : Except Halt (CountDownLatch ι) :=
  if -2 ^ 31 < s.count then
    let s := { s with count := s.count - 1 }
    .ok (if s.count = 0 then { s with threads := cond.broadcast s.threads } else s)
  else .error (.fault .undefined)

def step (s : CountDownLatch ι) : Label ι → Except Halt (CountDownLatch ι)
  | .wait who =>
    match s.threads who with
    | .outside => .ok (s.test who)
    | _ => .error .disabled
  | .resume who =>
    match s.threads who with
    | .signalled | .spurious => .ok (s.test who)
    | _ => .error .disabled
  | .spurious who =>
    match s.threads who with
    | .asleep => .ok (s.move who .spurious)
    | _ => .error .disabled
  | .countDown who =>
    match s.threads who with
    | .outside => s.countDown
    | _ => .error .disabled

/-! ## What a step does -/

/-- The calls of `countDown` in a run. -/
def downs (labels : List (Label ι)) : Nat :=
  labels.countP fun
    | .countDown _ => true
    | _ => false

inductive Step (s : CountDownLatch ι) : Label ι → CountDownLatch ι → Prop
  | test {label : Label ι} {who : ι} (label_eq : label = .wait who ∨ label = .resume who) :
    Step s label (s.test who)
  | spurious {who : ι} (asleep : s.threads who = .asleep) : Step s (.spurious who) (s.move who .spurious)
  | countDown {who : ι} (outside : s.threads who = .outside) (pos : s.count ≠ 1) :
    Step s (.countDown who) { s with count := s.count - 1 }
  | last {who : ι} (outside : s.threads who = .outside) (last : s.count = 1) :
    Step s (.countDown who) ⟨0, cond.broadcast s.threads⟩

variable {s} {s' : CountDownLatch ι} {label : Label ι} {labels : List (Label ι)} {who : ι}

theorem step_inv (h : step s label = .ok s') : Step s label s' := by
  cases label with
  | wait who =>
    rw [step] at h
    split at h
    · cases h
      exact .test (.inl rfl)
    · cases h
  | resume who =>
    rw [step] at h
    split at h
    · cases h
      exact .test (.inr rfl)
    · cases h
      exact .test (.inr rfl)
    · cases h
  | spurious who =>
    rw [step] at h
    split at h
    · rename_i hasleep
      cases h
      exact .spurious hasleep
    · cases h
  | countDown who =>
    rw [step] at h
    split at h
    · rename_i houtside
      unfold countDown at h
      dsimp only at h
      split_ifs at h with hrange hzero
      · cases h
        have hone : s.count = 1 := by omega
        rw [hzero]
        exact .last houtside hone
      · cases h
        exact .countDown houtside (by omega)
    · cases h

theorem countDown_last (h : s.count = 1) :
    s.countDown = .ok ⟨0, cond.broadcast s.threads⟩ := by
  unfold countDown
  rw [h]
  rfl

theorem Step.count (h : Step s label s') : s'.count = s.count - downs [label] := by
  cases h with
  | test label_eq =>
    rcases label_eq with rfl | rfl
    · exact (sub_zero s.count).symm
    · exact (sub_zero s.count).symm
  | spurious => exact (sub_zero s.count).symm
  | countDown => rfl
  | last outside last =>
    rw [last]
    rfl

theorem run_count (h : Machine.run step s labels = .ok s') : s'.count = s.count - downs labels := by
  induction labels generalizing s with
  | nil =>
    cases h
    exact (sub_zero _).symm
  | cons label labels ih =>
    obtain ⟨s₁, hstep, hrest⟩ := Machine.run_cons_inv h
    rw [ih hrest, (step_inv hstep).count]
    have hsplit : downs (label :: labels) = downs [label] + downs labels := by
      rw [← List.singleton_append, downs, List.countP_append, ← downs, ← downs]
    omega

def Released (s : CountDownLatch ι) : Prop := s.count ≤ 0 → ∀ who, s.threads who ≠ .asleep

omit [Fintype ι] in
theorem Released.move (h : s.Released) {p : LatchPlace} (hp : s.count ≤ 0 → p ≠ .asleep) :
    (s.move who p).Released := by
  intro hcount other
  by_cases hother : other = who
  · subst hother
    rw [move_self]
    exact hp hcount
  · rw [move_of_ne s hother]
    exact h hcount other

theorem Step.released (h : Step s label s') (hs : s.Released) : s'.Released := by
  cases h with
  | test =>
    refine hs.move fun hcount => ?_
    rw [if_neg (not_lt.mpr hcount)]
    nofun
  | spurious => exact hs.move fun _ => nofun
  | countDown outside pos =>
    intro hcount other
    -- the count was not one, so it was at zero or below before
    dsimp only at hcount
    exact hs (by omega) other
  | last =>
    intro _ other hasleep
    have hmem : other ∈ cond.sleepers (cond.broadcast s.threads) := by
      rw [CondVar.mem_threadsAt]
      exact decide_eq_true hasleep
    rw [CondVar.sleepers_broadcast] at hmem
    exact absurd hmem (Finset.notMem_empty _)

theorem run_released {count : Int} (h : Machine.run step (init count) labels = .ok s) : s.Released :=
  Machine.run_inv (fun _ _ _ hs _ hstep => (step_inv hstep).released hs)
    (fun _ _ => LatchPlace.noConfusion) (Machine.along_of_forall (fun _ _ => trivial) labels) h

omit [Fintype ι] in
theorem test_outside (who : ι) : (s.test who).threads who = .outside ↔ s.count ≤ 0 := by
  rw [test, move_self]
  split_ifs with hcount
  · exact iff_of_false nofun (not_le.mpr hcount)
  · exact iff_of_true rfl (not_lt.mp hcount)

/-- **The latch opens with the last `countDown`**, in every run of any threads: `wait()` returns just
when at least `count` of the calls of `countDown` have been made, and from then on no thread is asleep
in it: each returns when it gets the mutex. -/
theorem latch_releases {count : Int} (hrun : Machine.run step (init count) labels = .ok s) :
    s.getCount = count - downs labels ∧
      (∀ who label s', label = .wait who ∨ label = .resume who → step s label = .ok s' →
        (s'.threads who = .outside ↔ count ≤ downs labels)) ∧
      (count ≤ downs labels → ∀ who, s.threads who = .outside ∨
        ∃ s', step s (.resume who) = .ok s' ∧ s'.threads who = .outside) := by
  have hcount : s.count = count - downs labels := run_count hrun
  refine ⟨hcount, ?_, fun hdone who => ?_⟩
  · rintro who label s' hlabel hstep
    have htest : s' = s.test who := by
      cases step_inv hstep with
      | test label_eq =>
        rcases hlabel with rfl | rfl
        · rcases label_eq with h | h <;> cases h
          rfl
        · rcases label_eq with h | h <;> cases h
          rfl
      | spurious => rcases hlabel with h | h <;> cases h
      | countDown => rcases hlabel with h | h <;> cases h
      | last => rcases hlabel with h | h <;> cases h
    rw [htest, test_outside]
    omega
  · have hzero : s.count ≤ 0 := by omega
    have hawake := run_released hrun hzero who
    cases hplace : s.threads who with
    | outside => exact .inl rfl
    | asleep => exact absurd hplace hawake
    | signalled | spurious =>
      refine .inr ⟨s.test who, ?_, (test_outside who).mpr hzero⟩
      rw [step, hplace]

/-- One thread waits for two calls of the other, and wakes up once for nothing. -/
theorem latch_releases_two :
    ∃ s : CountDownLatch (Fin 2), Machine.run step (init 2)
        [.wait 0, .countDown 1, .spurious 0, .resume 0, .countDown 1] = .ok s ∧
      s.getCount = 0 ∧ ∃ s', step s (.resume 0) = .ok s' ∧ s'.threads 0 = .outside := by
  obtain ⟨s, hrun, hplace⟩ := eq_ok_of_toOption (b := LatchPlace.signalled)
    (f := fun s : CountDownLatch (Fin 2) => s.threads 0)
    (x := Machine.run step (init 2)
      [.wait 0, .countDown 1, .spurious 0, .resume 0, .countDown 1]) (by decide +kernel)
  obtain ⟨hcount, -, hreturns⟩ := latch_releases hrun
  refine ⟨s, hrun, hcount, (hreturns (by decide) 0).resolve_left ?_⟩
  rw [hplace]
  nofun

end CountDownLatch

end VServer

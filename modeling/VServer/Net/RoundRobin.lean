import VServer.Net.LoopCounts

/-!
# The fewest connections first, and round robin

While no connection is removed, taking a loop that has the fewest connections is taking the loops in
turn. Both ways to choose may be mixed: neither touches what the other one goes by. Turn `t` belongs
to the loop with index `t % n`, so after `k` turns a loop has had as many as there are `t < k` of its
own (`turns`), and the first of the loops with the fewest is the one whose turn it is.
-/

namespace VServer

namespace EventLoopThreadPool

open Machine

/-! ## Turns -/

/-- How many of the first `k` turns among `n` loops belong to loop `i`. -/
def turns (n k i : Nat) : Nat := Nat.count (· ≡ i [MOD n]) k

section

variable {n k i : Nat}

theorem turns_succ (hi : i < n) : turns n (k + 1) i = turns n k i + if k % n = i then 1 else 0 := by
  have hturn : k ≡ i [MOD n] ↔ k % n = i := by rw [Nat.ModEq, Nat.mod_eq_of_lt hi]
  rw [turns, Nat.count_succ]
  simp only [hturn]
  rfl

theorem turns_eq (hi : i < n) : turns n k i = k / n + if i < k % n then 1 else 0 := by
  rw [turns, Nat.count_modEq_card k (Nat.zero_lt_of_lt hi), Nat.mod_eq_of_lt hi]

theorem turns_mod_lt (hi : i < n) :
    turns n k (k % n) < turns n k i ∨ turns n k (k % n) = turns n k i ∧ k % n ≤ i := by
  have hlt : k % n < n := Nat.mod_lt k (Nat.zero_lt_of_lt hi)
  rw [turns_eq hi, turns_eq hlt, if_neg (Nat.lt_irrefl _)]
  split <;> omega

theorem turns_le_succ {j : Nat} (hi : i < n) (hj : j < n) : turns n k i ≤ turns n k j + 1 := by
  rw [turns_eq hi, turns_eq hj]
  split <;> omega

end

/-! ## The calls -/

/-- How a loop is chosen. -/
inductive Choice where
  | getNextLoop
  | getNextLoopMinConnection
  deriving DecidableEq, Repr

variable {ι : Type} [DecidableEq ι]

def choose (pool : EventLoopThreadPool ι) : Choice → Except Fault (EventLoopThreadPool ι × ι)
  | .getNextLoop => .ok pool.getNextLoop
  | .getNextLoopMinConnection => pool.getNextLoopMinConnection

def chooseStep (pool : EventLoopThreadPool ι) (choice : Choice) : Except Fault (EventLoopThreadPool ι) :=
  (pool.choose choice).map Prod.fst

variable {pool pool' : EventLoopThreadPool ι} {i : Nat} {loop : ι}

theorem update_next {n : Int} (h : pool.update loop n = .ok pool') : pool'.next = pool.next := by
  unfold update at h
  split at h
  · cases h
  · split_ifs at h
    cases h
    rfl

theorem getNextLoopMinConnection_next (h : pool.getNextLoopMinConnection = .ok (pool', loop)) :
    pool'.next = pool.next := by
  unfold getNextLoopMinConnection at h
  split at h
  · cases h
    rfl
  · split at h
    · obtain ⟨pool₁, hupdate, hreturn⟩ := bind_eq_ok h
      cases hreturn
      exact update_next hupdate
    · cases h

/-- After `k` calls of `getNextLoop` and `m` of `getNextLoopMinConnection`. -/
structure InTurn (pool : EventLoopThreadPool ι) (loops : List ι) (k m : Nat) : Prop where
  loops_eq : pool.loops = loops
  next : pool.next = k % loops.length
  counts : ∃ living : ι → Nat, pool.Counts living ∧
    ∀ i loop, loops[i]? = some loop → living loop = turns loops.length m i

variable {loops : List ι} {k m : Nat}

omit [DecidableEq ι] in
theorem succ_mod {n : Nat} (hpos : 0 < n) :
    (k + 1) % n = if n ≤ k % n + 1 then 0 else k % n + 1 := by
  have hlt : k % n < n := Nat.mod_lt k hpos
  rw [← Nat.mod_add_mod]
  split_ifs with hwrap
  · have hlast : k % n + 1 = n := Nat.le_antisymm hlt hwrap
    rw [hlast, Nat.mod_self]
  · exact Nat.mod_eq_of_lt (Nat.lt_of_not_le hwrap)

theorem startFrom_next (pool : EventLoopThreadPool ι) (i : Nat) (loops : List ι) :
    (startFrom pool i loops).next = pool.next := by
  induction loops generalizing pool i with
  | nil => rfl
  | cons loop loops ih => exact ih _ _

theorem start_inTurn (baseLoop : ι) (hdistinct : loops.Nodup) : (start baseLoop loops).InTurn loops 0 0 := by
  obtain ⟨hcounts, hloops, -⟩ := start_counts baseLoop hdistinct
  refine ⟨hloops, ?_, fun _ => 0, hcounts, fun i loop hi => (Nat.count_zero _).symm⟩
  rw [Nat.zero_mod]
  exact startFrom_next _ 0 loops

omit [DecidableEq ι] in
theorem InTurn.getNextLoop (h : pool.InTurn loops k m) (hne : loops ≠ []) :
    loops[k % loops.length]? = some pool.getNextLoop.2 ∧
      pool.getNextLoop.1.InTurn loops (k + 1) m := by
  have hpos : 0 < loops.length := List.length_pos_iff.mpr hne
  obtain ⟨loop, hturn⟩ : ∃ loop, loops[k % loops.length]? = some loop :=
    ⟨_, List.getElem?_eq_getElem (Nat.mod_lt k hpos)⟩
  have hcall : pool.getNextLoop = ({ pool with next := (k + 1) % loops.length }, loop) := by
    unfold EventLoopThreadPool.getNextLoop
    rw [h.loops_eq, h.next, hturn, succ_mod hpos]
  obtain ⟨living, hcounts, hliving⟩ := h.counts
  rw [hcall]
  exact ⟨hturn, h.loops_eq, rfl, living, ⟨hcounts.distinct, hcounts.sorted, hcounts.mem, hcounts.info⟩,
    hliving⟩

/-- The choice by the counts goes in turn as well: the loops before the one it takes have had one more. -/
theorem InTurn.getNextLoopMinConnection (h : pool.InTurn loops k m) (hne : loops ≠ []) :
    ∃ pool' loop, pool.getNextLoopMinConnection = .ok (pool', loop) ∧
      loops[m % loops.length]? = some loop ∧ pool'.InTurn loops k (m + 1) := by
  obtain ⟨living, hcounts, hliving⟩ := h.counts
  obtain ⟨pool', i, loop, hcall, ⟨-, hloops⟩, hi, hcounts', hleast⟩ :=
    hcounts.getNextLoopMinConnection (by rwa [h.loops_eq])
  rw [h.loops_eq] at hi hleast
  obtain ⟨hlt, -⟩ := List.getElem?_eq_some_iff.mp hi
  have hturn := List.getElem?_eq_getElem (Nat.mod_lt m (Nat.zero_lt_of_lt hlt))
  have hindex : m % loops.length = i := by
    have hfewest := hleast _ _ hturn
    rw [hliving i loop hi, hliving _ _ hturn] at hfewest
    have hmod := turns_mod_lt (k := m) hlt
    omega
  refine ⟨pool', loop, hcall, by rw [hindex, hi], hloops.trans h.loops_eq,
    (getNextLoopMinConnection_next hcall).trans h.next, _, hcounts', fun j loop' hj => ?_⟩
  obtain ⟨hjlt, -⟩ := List.getElem?_eq_some_iff.mp hj
  rw [turns_succ hjlt, hindex]
  by_cases hloop : loop' = loop
  · subst hloop
    have hsame : i = j := (List.getElem?_inj hlt (h.loops_eq ▸ hcounts.distinct)).mp (hi.trans hj.symm)
    rw [Function.update_self, hliving j loop' hj, if_pos hsame]
  · have hother : i ≠ j := by
      rintro rfl
      rw [hi] at hj
      exact hloop (Option.some.inj hj).symm
    rw [Function.update_of_ne hloop, hliving j loop' hj, if_neg hother]
    rfl

/-! ## Runs -/

theorem run_inTurn (baseLoop : ι) (hdistinct : loops.Nodup) (hne : loops ≠ []) (choices : List Choice) :
    ∃ pool, run chooseStep (start baseLoop loops) choices = .ok pool ∧
      pool.InTurn loops (choices.count .getNextLoop) (choices.count .getNextLoopMinConnection) := by
  induction choices using List.reverseRecOn with
  | nil => exact ⟨_, rfl, start_inTurn baseLoop hdistinct⟩
  | append_singleton choices choice ih =>
    obtain ⟨pool, hrun, hturn⟩ := ih
    rw [run_append_ok hrun, List.count_append, List.count_append]
    cases choice with
    | getNextLoop =>
      obtain ⟨-, hnext⟩ := hturn.getNextLoop hne
      exact ⟨pool.getNextLoop.1, rfl, hnext⟩
    | getNextLoopMinConnection =>
      obtain ⟨pool', loop, hcall, -, hnext⟩ := hturn.getNextLoopMinConnection hne
      have hstep : chooseStep pool .getNextLoopMinConnection = .ok pool' := by
        rw [chooseStep, choose, hcall]
        rfl
      exact ⟨pool', run_cons_ok hstep, hnext⟩

/-- **Taking the loop with the fewest connections is round robin**, as long as no connection is
removed. However the calls of the two are mixed, the `k`th call of either one returns the loop with
index `k % n`; behind a call by the counts every loop has its count in both indexes, and no two
counts differ by more than one. -/
theorem minConnection_roundRobin (baseLoop : ι) (hdistinct : loops.Nodup) (hne : loops ≠ [])
    (choices : List Choice) :
    ∃ pool, run chooseStep (start baseLoop loops) choices = .ok pool ∧
      loops[choices.count .getNextLoop % loops.length]? = some pool.getNextLoop.2 ∧
      ∃ pool' loop, pool.getNextLoopMinConnection = .ok (pool', loop) ∧
        loops[choices.count .getNextLoopMinConnection % loops.length]? = some loop ∧
        ∃ counts : ι → Nat,
          (∀ i loop, loops[i]? = some loop → pool'.loopInfo loop = some ((counts loop : Int), i)) ∧
          (∀ p, p ∈ pool'.connectionCount ↔
            ∃ i loop, loops[i]? = some loop ∧ p = ((counts loop : Int), i)) ∧
          ∀ loop₁ ∈ loops, ∀ loop₂ ∈ loops, counts loop₁ ≤ counts loop₂ + 1 := by
  obtain ⟨pool, hrun, hturn⟩ := run_inTurn baseLoop hdistinct hne choices
  obtain ⟨pool', loop, hcall, hloop, hafter⟩ := hturn.getNextLoopMinConnection hne
  obtain ⟨counts, hcounts, hturns⟩ := hafter.counts
  refine ⟨pool, hrun, (hturn.getNextLoop hne).1, pool', loop, hcall, hloop, counts, ?_, ?_, ?_⟩
  · rw [← hafter.loops_eq]
    exact hcounts.info
  · rw [← hafter.loops_eq]
    exact hcounts.mem
  · intro loop₁ h₁ loop₂ h₂
    obtain ⟨i, hi⟩ := List.getElem?_of_mem h₁
    obtain ⟨j, hj⟩ := List.getElem?_of_mem h₂
    rw [hturns i loop₁ hi, hturns j loop₂ hj]
    exact turns_le_succ (List.getElem?_eq_some_iff.mp hi).1 (List.getElem?_eq_some_iff.mp hj).1

/-- The fourth call of each on three loops. -/
theorem minConnection_roundRobin_three :
    ∃ pool, run chooseStep (start (0 : Fin 4) [1, 2, 3]) [.getNextLoop, .getNextLoopMinConnection,
        .getNextLoopMinConnection, .getNextLoop, .getNextLoopMinConnection, .getNextLoop] = .ok pool ∧
      pool.getNextLoop.2 = 1 ∧ ∃ pool', pool.getNextLoopMinConnection = .ok (pool', 1) := by
  obtain ⟨pool, hrun, hnext, pool', loop, hcall, hloop, -⟩ :=
    @minConnection_roundRobin (Fin 4) _ [1, 2, 3] 0 (by decide) (by simp)
      [.getNextLoop, .getNextLoopMinConnection, .getNextLoopMinConnection, .getNextLoop,
        .getNextLoopMinConnection, .getNextLoop]
  obtain rfl : 1 = loop := Option.some.inj hloop
  exact ⟨pool, hrun, (Option.some.inj hnext).symm, pool', hcall⟩

end EventLoopThreadPool

end VServer

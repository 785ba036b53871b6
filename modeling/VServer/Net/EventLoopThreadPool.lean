import VServer.Basic

/-!
# The pool of loops

`EventLoopThreadPool` after its threads have been started. `m_connectionCount`, a `std::set` of
pairs, is the list of its elements in order.
-/

namespace VServer

structure EventLoopThreadPool (ι : Type) where
  baseLoop : ι
  loops : List ι
  next : Nat
  /-- The count and the index of each loop. -/
  connectionCount : List (Int × Nat)
  loopInfo : ι → Option (Int × Nat)

namespace EventLoopThreadPool

variable {ι : Type} [DecidableEq ι]

/-- The order of `std::pair<int, int>`. -/
def before (a b : Int × Nat) : Bool := a.1 < b.1 ∨ a.1 = b.1 ∧ a.2 < b.2

/-- `m_connectionCount.insert` -/
def insertCount (a : Int × Nat) : List (Int × Nat) → List (Int × Nat)
  | [] => [a]
  | b :: bs => if before a b then a :: b :: bs else if before b a then b :: insertCount a bs else b :: bs

/-- `start` for the loops of the threads it makes, from the `i`th on. -/
def startFrom (pool : EventLoopThreadPool ι) (i : Nat) : List ι → EventLoopThreadPool ι
  | [] => pool
  | loop :: loops =>
    startFrom { pool with
      loops := pool.loops ++ [loop]
      loopInfo := Function.update pool.loopInfo loop (some (0, i))
      connectionCount := insertCount (0, i) pool.connectionCount } (i + 1) loops

def start (baseLoop : ι) (loops : List ι) : EventLoopThreadPool ι :=
  startFrom ⟨baseLoop, [], 0, [], fun _ => none⟩ 0 loops

variable (pool : EventLoopThreadPool ι)

def getNextLoop : EventLoopThreadPool ι × ι :=
  match pool.loops[pool.next]? with
  | some loop =>
    let next := pool.next + 1
    ({ pool with next := if pool.loops.length ≤ next then 0 else next }, loop)
  | none => (pool, pool.baseLoop)

def update (loop : ι) (newCnt : Int) : Except Fault (EventLoopThreadPool ι) :=
  match pool.loopInfo loop with
  | none => .error (.assertion .updateLoopInfo)
  | some (cnt, idx) =>
    if (cnt, idx) ∈ pool.connectionCount then
      .ok { pool with
        connectionCount := insertCount (newCnt, idx) (pool.connectionCount.erase (cnt, idx))
        loopInfo := Function.update pool.loopInfo loop (some (newCnt, idx)) }
    else .error (.assertion .updateConnectionCount)

/-- `m_loopInfo[loop]` makes an entry of zeros for a loop that has none. -/
def removeLoopConnection (loop : ι) : Except Fault (EventLoopThreadPool ι) :=
  if pool.connectionCount.isEmpty then .ok pool
  else
    let info := (pool.loopInfo loop).getD (0, 0)
    { pool with loopInfo := Function.update pool.loopInfo loop (some info) }.update loop (info.1 - 1)

def getNextLoopMinConnection : Except Fault (EventLoopThreadPool ι × ι) :=
  match pool.connectionCount with
  | [] => .ok (pool, pool.baseLoop)
  | (cnt, idx) :: _ =>
    match pool.loops[idx]? with
    | some loop => do
      let pool ← pool.update loop (cnt + 1)
      return (pool, loop)
    | none => .error .undefined

/-! ## What stays -/

variable {pool}

def SameLoops (pool pool' : EventLoopThreadPool ι) : Prop :=
  pool'.baseLoop = pool.baseLoop ∧ pool'.loops = pool.loops

theorem update_sameLoops {loop : ι} {n : Int} {pool' : EventLoopThreadPool ι}
    (h : pool.update loop n = .ok pool') : pool.SameLoops pool' := by
  unfold update at h
  split at h
  · cases h
  · split_ifs at h
    cases h
    exact ⟨rfl, rfl⟩

theorem removeLoopConnection_sameLoops {loop : ι} {pool' : EventLoopThreadPool ι}
    (h : pool.removeLoopConnection loop = .ok pool') : pool.SameLoops pool' := by
  unfold removeLoopConnection at h
  split_ifs at h
  · cases h
    exact ⟨rfl, rfl⟩
  · dsimp only at h
    obtain ⟨hbase, hloops⟩ := update_sameLoops h
    exact ⟨hbase, hloops⟩

theorem getNextLoopMinConnection_sameLoops {loop : ι} {pool' : EventLoopThreadPool ι}
    (h : pool.getNextLoopMinConnection = .ok (pool', loop)) : pool.SameLoops pool' := by
  unfold getNextLoopMinConnection at h
  split at h
  · cases h
    exact ⟨rfl, rfl⟩
  · split at h
    · obtain ⟨pool₁, hupdate, hreturn⟩ := bind_eq_ok h
      cases hreturn
      exact update_sameLoops hupdate
    · cases h

end EventLoopThreadPool

end VServer

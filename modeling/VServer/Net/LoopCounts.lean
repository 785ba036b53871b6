import VServer.Net.System

/-!
# How many connections each loop has

`EventLoopThreadPool` keeps the count of every loop twice: in `m_connectionCount`, a set ordered by the
count and then by the index of the loop, and in `m_loopInfo`. Both are rewritten whenever a connection
is accepted or removed. They never part, from each other and from `m_connections`
(`Counts`, `loops_accounted`), so a new connection goes to the first of the loops that have the fewest.
-/

namespace VServer

namespace EventLoopThreadPool

variable {ι : Type}

/-! ## The order of the pairs -/

variable {a b c : Int × Nat} {l : List (Int × Nat)}

theorem before_iff : before a b = true ↔ a.1 < b.1 ∨ a.1 = b.1 ∧ a.2 < b.2 := decide_eq_true_iff

theorem before_trans (hab : before a b = true) (hbc : before b c = true) : before a c = true := by
  rw [before_iff] at *
  omega

theorem before_irrefl (a : Int × Nat) : before a a ≠ true := by
  rw [Ne, before_iff]
  omega

theorem eq_of_not_before (hab : before a b ≠ true) (hba : before b a ≠ true) : a = b := by
  rw [Ne, before_iff] at *
  ext
  all_goals omega

theorem mem_insertCount : b ∈ insertCount a l ↔ b = a ∨ b ∈ l := by
  induction l with
  | nil => simp [insertCount]
  | cons x l ih =>
    unfold insertCount
    split_ifs with hbefore hafter
    · exact List.mem_cons
    · rw [List.mem_cons, ih, List.mem_cons]
      exact or_left_comm
    · -- the set has the pair already
      rw [eq_of_not_before hbefore hafter, List.mem_cons]
      exact (or_iff_right_of_imp .inl).symm

/-- The pairs as `std::set` keeps them. -/
def Sorted (l : List (Int × Nat)) : Prop := l.Pairwise fun a b => before a b = true

theorem sorted_insertCount (h : Sorted l) : Sorted (insertCount a l) := by
  induction l with
  | nil => exact List.pairwise_singleton _ _
  | cons x l ih =>
    obtain ⟨hx, hl⟩ := List.pairwise_cons.mp h
    unfold insertCount
    split_ifs with hbefore hafter
    · refine List.pairwise_cons.mpr ⟨fun y hy => ?_, h⟩
      rcases List.mem_cons.mp hy with rfl | hy
      · exact hbefore
      · exact before_trans hbefore (hx y hy)
    · refine List.pairwise_cons.mpr ⟨fun y hy => ?_, ih hl⟩
      rcases mem_insertCount.mp hy with rfl | hy
      · exact hafter
      · exact hx y hy
    · exact h

theorem Sorted.nodup (h : Sorted l) : l.Nodup := by
  refine List.Pairwise.imp ?_ h
  rintro a b hbefore rfl
  exact before_irrefl a hbefore

/-! ## The two indexes -/

/-- Both indexes say that each loop has `living` connections. -/
structure Counts (pool : EventLoopThreadPool ι) (living : ι → Nat) : Prop where
  distinct : pool.loops.Nodup
  sorted : Sorted pool.connectionCount
  mem : ∀ p, p ∈ pool.connectionCount ↔
    ∃ i loop, pool.loops[i]? = some loop ∧ p = ((living loop : Int), i)
  info : ∀ i loop, pool.loops[i]? = some loop → pool.loopInfo loop = some ((living loop : Int), i)

variable [DecidableEq ι] {pool pool' : EventLoopThreadPool ι} {living living' : ι → Nat} {i : Nat} {loop : ι}

omit [DecidableEq ι] in
theorem Counts.of_eq (h : pool.Counts living) (hsame : ∀ loop ∈ pool.loops, living' loop = living loop) :
    pool.Counts living' := by
  have hliving : ∀ i loop, pool.loops[i]? = some loop → living' loop = living loop := fun i loop hi =>
    hsame loop (List.mem_of_getElem? hi)
  refine ⟨h.distinct, h.sorted, fun p => ?_, fun i loop hi => ?_⟩
  · rw [h.mem]
    constructor
    all_goals
      rintro ⟨i, loop, hi, rfl⟩
      exact ⟨i, loop, hi, by rw [hliving i loop hi]⟩
  · rw [hliving i loop hi]
    exact h.info i loop hi

omit [DecidableEq ι] in
theorem Counts.index_inj (h : pool.Counts living) {j : Nat} (hi : pool.loops[i]? = some loop)
    (hj : pool.loops[j]? = some loop) : i = j := by
  obtain ⟨hlt, -⟩ := List.getElem?_eq_some_iff.mp hi
  exact (List.getElem?_inj hlt h.distinct).mp (hi.trans hj.symm)

omit [DecidableEq ι] in
theorem Counts.mem_self (h : pool.Counts living) (hi : pool.loops[i]? = some loop) :
    ((living loop : Int), i) ∈ pool.connectionCount := (h.mem _).mpr ⟨i, loop, hi, rfl⟩

theorem Counts.update (h : pool.Counts living) (hi : pool.loops[i]? = some loop) (n : Nat) :
    ∃ pool', pool.update loop n = .ok pool' ∧ pool.SameLoops pool' ∧
      pool'.Counts (Function.update living loop n) := by
  have hupdate : pool.update loop n = .ok { pool with
      connectionCount := insertCount ((n : Int), i) (pool.connectionCount.erase ((living loop : Int), i))
      loopInfo := Function.update pool.loopInfo loop (some ((n : Int), i)) } := by
    unfold EventLoopThreadPool.update
    rw [h.info i loop hi]
    exact if_pos (h.mem_self hi)
  refine ⟨_, hupdate, ⟨rfl, rfl⟩, h.distinct,
    sorted_insertCount (h.sorted.sublist List.erase_sublist), fun p => ?_, fun j loop' hj => ?_⟩
  · rw [mem_insertCount, h.sorted.nodup.mem_erase_iff, h.mem]
    constructor
    · rintro (rfl | ⟨hne, j, loop', hj, rfl⟩)
      · exact ⟨i, loop, hi, by rw [Function.update_self]⟩
      · refine ⟨j, loop', hj, ?_⟩
        rw [Function.update_of_ne]
        rintro rfl
        exact hne (by rw [h.index_inj hi hj])
    · rintro ⟨j, loop', hj, rfl⟩
      by_cases hloop : loop' = loop
      · subst hloop
        left
        rw [Function.update_self, h.index_inj hj hi]
      · right
        rw [Function.update_of_ne hloop]
        refine ⟨fun heq => hloop ?_, j, loop', hj, rfl⟩
        obtain ⟨-, hindex⟩ := Prod.mk.inj heq
        rw [hindex, hi] at hj
        exact (Option.some.inj hj).symm
  · dsimp only at hj ⊢
    by_cases hloop : loop' = loop
    · subst hloop
      rw [Function.update_self, Function.update_self, h.index_inj hj hi]
    · rw [Function.update_of_ne hloop, Function.update_of_ne hloop]
      exact h.info j loop' hj

/-- The loop that is chosen has the fewest connections, and is the first of those that have. -/
theorem Counts.getNextLoopMinConnection (h : pool.Counts living) (hne : pool.loops ≠ []) :
    ∃ (pool' : EventLoopThreadPool ι) (i : Nat) (loop : ι),
      pool.getNextLoopMinConnection = .ok (pool', loop) ∧ pool.SameLoops pool' ∧
      pool.loops[i]? = some loop ∧ pool'.Counts (Function.update living loop (living loop + 1)) ∧
      ∀ j loop', pool.loops[j]? = some loop' →
        living loop < living loop' ∨ living loop = living loop' ∧ i ≤ j := by
  unfold EventLoopThreadPool.getNextLoopMinConnection
  cases hcount : pool.connectionCount with
  | nil =>
    -- the first loop has a pair
    obtain ⟨first, loops, hloops⟩ := List.exists_cons_of_ne_nil hne
    have hfirst : pool.loops[0]? = some first := by
      rw [hloops]
      rfl
    have hmem := h.mem_self hfirst
    rw [hcount] at hmem
    cases hmem
  | cons p rest =>
    obtain ⟨i, loop, hi, rfl⟩ := (h.mem p).mp (by rw [hcount]; exact List.mem_cons_self)
    obtain ⟨pool', hupdate, hsame, hcounts⟩ := h.update hi (living loop + 1)
    refine ⟨pool', i, loop, ?_, hsame, hi, hcounts, fun j loop' hj => ?_⟩
    · dsimp only
      rw [hi]
      dsimp only
      rw [show (living loop : Int) + 1 = ((living loop + 1 : Nat) : Int) from rfl, hupdate]
      rfl
    · have hmem := h.mem_self hj
      have hsorted := h.sorted
      rw [hcount] at hmem hsorted
      rcases List.mem_cons.mp hmem with heq | hmem
      · obtain ⟨hcnt, hindex⟩ := Prod.mk.inj heq
        omega
      · have hbefore := before_iff.mp ((List.pairwise_cons.mp hsorted).1 _ hmem)
        dsimp only at hbefore
        omega

theorem Counts.removeLoopConnection (h : pool.Counts living) (hi : pool.loops[i]? = some loop)
    (hpos : 0 < living loop) :
    ∃ pool', pool.removeLoopConnection loop = .ok pool' ∧ pool.SameLoops pool' ∧
      pool'.Counts (Function.update living loop (living loop - 1)) := by
  obtain ⟨pool', hupdate, hsame, hcounts⟩ := h.update hi (living loop - 1)
  refine ⟨pool', ?_, hsame, hcounts⟩
  have hne : pool.connectionCount.isEmpty ≠ true := by
    rw [Ne, List.isEmpty_iff]
    intro hnil
    have hmem := h.mem_self hi
    rw [hnil] at hmem
    cases hmem
  unfold EventLoopThreadPool.removeLoopConnection
  rw [if_neg hne, h.info i loop hi]
  dsimp only [Option.getD_some]
  rw [← h.info i loop hi, Function.update_eq_self,
    show (living loop : Int) - 1 = ((living loop - 1 : Nat) : Int) by omega]
  exact hupdate

/-! ## The loops that `start` makes -/

theorem Counts.add (h : pool.Counts fun _ => 0) (hnew : loop ∉ pool.loops) :
    { pool with
      loops := pool.loops ++ [loop]
      loopInfo := Function.update pool.loopInfo loop (some (0, pool.loops.length))
      connectionCount := insertCount (0, pool.loops.length) pool.connectionCount }.Counts fun _ => 0 := by
  have hlast : ∀ j loop', (pool.loops ++ [loop])[j]? = some loop' ↔
      pool.loops[j]? = some loop' ∨ j = pool.loops.length ∧ loop' = loop := by
    intro j loop'
    rcases Nat.lt_trichotomy j pool.loops.length with hj | rfl | hj
    · rw [List.getElem?_append_left hj]
      exact (or_iff_left fun heq => absurd heq.1 (Nat.ne_of_lt hj)).symm
    · simp [eq_comm]
    · rw [List.getElem?_eq_none (by simp; omega), List.getElem?_eq_none (Nat.le_of_lt hj)]
      simp
      omega
  refine ⟨?_, sorted_insertCount h.sorted, fun p => ?_, fun j loop' hj => ?_⟩
  · exact List.nodup_append.mpr ⟨h.distinct, List.nodup_singleton loop, by
      rintro a ha b hb rfl
      rw [List.mem_singleton.mp hb] at ha
      exact hnew ha⟩
  · rw [mem_insertCount, h.mem]
    dsimp only
    constructor
    · rintro (rfl | ⟨j, loop', hj, rfl⟩)
      · exact ⟨_, loop, (hlast _ _).mpr (.inr ⟨rfl, rfl⟩), rfl⟩
      · exact ⟨j, loop', (hlast _ _).mpr (.inl hj), rfl⟩
    · rintro ⟨j, loop', hj, rfl⟩
      rcases (hlast _ _).mp hj with hj | ⟨rfl, -⟩
      · exact .inr ⟨j, loop', hj, rfl⟩
      · exact .inl rfl
  · dsimp only at hj ⊢
    rcases (hlast _ _).mp hj with hold | ⟨rfl, rfl⟩
    · have hne : loop' ≠ loop := by
        rintro rfl
        exact hnew (List.mem_of_getElem? hold)
      rw [Function.update_of_ne hne]
      exact h.info j loop' hold
    · exact Function.update_self _ _ _

theorem startFrom_counts {loops : List ι} (h : pool.Counts fun _ => 0) (hdistinct : (pool.loops ++ loops).Nodup) :
    (startFrom pool pool.loops.length loops).Counts (fun _ => 0) ∧
      (startFrom pool pool.loops.length loops).loops = pool.loops ++ loops ∧
      (startFrom pool pool.loops.length loops).baseLoop = pool.baseLoop := by
  induction loops generalizing pool with
  | nil => exact ⟨h, (List.append_nil _).symm, rfl⟩
  | cons loop loops ih =>
    have hnew : loop ∉ pool.loops := fun hmem =>
      (List.nodup_append.mp hdistinct).2.2 loop hmem loop List.mem_cons_self rfl
    have hrest := ih (h.add hnew) (by simpa using hdistinct)
    rw [List.length_append, List.length_singleton, List.append_assoc] at hrest
    exact hrest

theorem start_counts (baseLoop : ι) {loops : List ι} (hdistinct : loops.Nodup) :
    (start baseLoop loops).Counts (fun _ => 0) ∧ (start baseLoop loops).loops = loops ∧
      (start baseLoop loops).baseLoop = baseLoop := by
  have hempty : Counts (⟨baseLoop, [], 0, [], fun _ => none⟩ : EventLoopThreadPool ι) fun _ => 0 :=
    ⟨List.nodup_nil, .nil, by simp, by simp⟩
  exact startFrom_counts hempty hdistinct

end EventLoopThreadPool

/-! ## The connections of the server -/

variable {ι : Type} [DecidableEq ι]

def World.living (w : World ι) (loop : ι) : Nat :=
  (List.range w.server.connId).countP fun c => w.server.connections c && (w.conns c).loop = loop

/-- The pool has counted the connections of the server. -/
structure World.Counted (w : World ι) : Prop where
  counts : w.server.threadPool.Counts w.living
  loops : w.server.threadPool.loops ≠ []
  born : ∀ c, w.server.connections c = true → c < w.server.connId
  placed : ∀ c, w.server.connections c = true → (w.conns c).loop ∈ w.server.threadPool.loops

/-- What is done to the server on its own thread. -/
inductive ServerCall where
  | newConnection (sockfd : Nat)
  | removeConnectionInLoop (c : Nat)
  /-- A connection that was removed goes, and its descriptor with it. -/
  | destroy (c : Nat)
  deriving DecidableEq, Repr

def World.serve (w : World ι) : ServerCall → Except Halt (World ι)
  | .newConnection sockfd => (newConnection w.server.threadPool.baseLoop w sockfd).map Prod.fst
  | .removeConnectionInLoop c =>
    if w.server.connections c then
      (performConn w.server.threadPool.baseLoop .silent w c .removeConnectionInLoop).map Prod.fst
    else .error .disabled
  | .destroy c =>
    if w.alive c ∧ w.server.connections c = false then
      .ok { w with alive := Function.update w.alive c false }
    else .error .disabled

variable {w w' : World ι} {c : Nat}

theorem living_insert {loop : ι} (hconnId : w'.server.connId = w.server.connId + 1)
    (hconns : ∀ c, c ≠ w.server.connId → w'.conns c = w.conns c)
    (hconnections : w'.server.connections = Function.update w.server.connections w.server.connId true)
    (hloop : (w'.conns w.server.connId).loop = loop) :
    w'.living = Function.update w.living loop (w.living loop + 1) := by
  have hold : ∀ loop', (List.range w.server.connId).countP
      (fun c => w'.server.connections c && (w'.conns c).loop = loop') = w.living loop' := by
    intro loop'
    refine List.countP_congr fun c hc => ?_
    have hne : c ≠ w.server.connId := Nat.ne_of_lt (List.mem_range.mp hc)
    rw [hconnections, Function.update_of_ne hne, hconns c hne]
  funext loop'
  unfold World.living at hold ⊢
  rw [hconnId, List.range_succ, List.countP_append, hold, List.countP_singleton, hconnections,
    Function.update_self, hloop]
  by_cases heq : loop' = loop
  · subst heq
    rw [Function.update_self]
    simp
  · rw [Function.update_of_ne heq]
    simp [Ne.symm heq]

theorem living_erase (hconnId : w'.server.connId = w.server.connId) (hconns : w'.conns = w.conns)
    (hconnections : w'.server.connections = Function.update w.server.connections c false)
    (hborn : c < w.server.connId) (hregistered : w.server.connections c = true) :
    w'.living = Function.update w.living (w.conns c).loop (w.living (w.conns c).loop - 1) := by
  have hsplit := List.perm_cons_erase (List.mem_range.mpr hborn)
  have hrest : ∀ loop, w.living loop = (if (w.conns c).loop = loop then 1 else 0) + w'.living loop := by
    intro loop
    unfold World.living
    rw [hconnId, hconns, hsplit.countP_eq, hsplit.countP_eq, List.countP_cons, List.countP_cons,
      hconnections, Function.update_self, hregistered]
    have hsame : ((List.range w.server.connId).erase c).countP
        (fun c' => Function.update w.server.connections c false c' && (w.conns c').loop = loop) =
        ((List.range w.server.connId).erase c).countP
          fun c' => w.server.connections c' && (w.conns c').loop = loop := by
      refine List.countP_congr fun c' hc' => ?_
      have hne : c' ≠ c := ((List.nodup_range).mem_erase_iff.mp hc').1
      rw [Function.update_of_ne hne]
    rw [hsame]
    simp [Nat.add_comm]
  funext loop
  have hloop := hrest loop
  by_cases heq : loop = (w.conns c).loop
  · subst heq
    rw [if_pos rfl] at hloop
    rw [Function.update_self]
    omega
  · rw [if_neg (Ne.symm heq)] at hloop
    rw [Function.update_of_ne heq]
    omega

/-- The connection that comes next goes to the first of the loops that have the fewest. -/
structure LeastLoaded (w w' : World ι) : Prop where
  least : ∃ (i : Nat) (loop : ι), w.server.threadPool.loops[i]? = some loop ∧
    (w'.conns w.server.connId).loop = loop ∧ w'.server.connections w.server.connId = true ∧
    ∀ j loop', w.server.threadPool.loops[j]? = some loop' →
      w.living loop < w.living loop' ∨ w.living loop = w.living loop' ∧ i ≤ j

theorem World.Counted.newConnection (h : w.Counted) (sockfd : Nat) :
    (w.isFree sockfd = false ∧ w.serve (.newConnection sockfd) = .error .disabled) ∨
    (2 ^ 31 ≤ w.server.connId + 1 ∧ w.serve (.newConnection sockfd) = .error (.fault .undefined)) ∨
    ∃ w', w.serve (.newConnection sockfd) = .ok w' ∧ w'.Counted ∧
      w'.server.threadPool.loops = w.server.threadPool.loops ∧ LeastLoaded w w' := by
  unfold World.serve VServer.newConnection
  dsimp only
  rw [if_pos rfl]
  by_cases hfree : w.isFree sockfd = true
  · rw [if_pos hfree]
    obtain ⟨pool, i, loop, hnext, ⟨-, hloops⟩, hi, hcounts, hleast⟩ :=
      h.counts.getNextLoopMinConnection h.loops
    rw [hnext]
    dsimp only
    by_cases hbound : w.server.connId + 1 < 2 ^ 31
    · rw [if_pos hbound]
      refine .inr (.inr ⟨_, rfl, ⟨?_, ?_, fun c hc => ?_, fun c hc => ?_⟩, hloops, ⟨i, loop, hi, ?_, ?_, hleast⟩⟩)
      · rw [living_insert rfl (fun c hc => Function.update_of_ne hc _ _) rfl
          (congrArg TcpConnection.loop (Function.update_self _ _ _))]
        exact hcounts
      · dsimp only
        rw [hloops]
        exact h.loops
      · dsimp only at hc ⊢
        by_cases hfresh : c = w.server.connId
        · omega
        · rw [Function.update_of_ne hfresh] at hc
          have := h.born c hc
          omega
      · dsimp only at hc ⊢
        rw [hloops]
        by_cases hfresh : c = w.server.connId
        · rw [hfresh, Function.update_self]
          exact List.mem_of_getElem? hi
        · rw [Function.update_of_ne hfresh] at hc ⊢
          exact h.placed c hc
      · dsimp only
        rw [Function.update_self]
        rfl
      · dsimp only
        rw [Function.update_self]
    · rw [if_neg hbound]
      exact .inr (.inl ⟨Nat.le_of_not_lt hbound, rfl⟩)
  · rw [if_neg hfree]
    exact .inl ⟨by simpa using hfree, rfl⟩

theorem World.Counted.removeConnectionInLoop (h : w.Counted) (hregistered : w.server.connections c = true) :
    ∃ w', w.serve (.removeConnectionInLoop c) = .ok w' ∧ w'.Counted ∧
      w'.server.threadPool.loops = w.server.threadPool.loops := by
  obtain ⟨i, hi⟩ := List.getElem?_of_mem (h.placed c hregistered)
  have hpos : 0 < w.living (w.conns c).loop := by
    refine List.countP_pos_iff.mpr ⟨c, List.mem_range.mpr (h.born c hregistered), ?_⟩
    simp [hregistered]
  obtain ⟨pool, hremove, ⟨-, hloops⟩, hcounts⟩ := h.counts.removeLoopConnection hi hpos
  obtain ⟨w', hserve, hconns, hconnId, hconnections, hpool⟩ : ∃ w',
      w.serve (.removeConnectionInLoop c) = .ok w' ∧ w'.conns = w.conns ∧
        w'.server.connId = w.server.connId ∧
        w'.server.connections = Function.update w.server.connections c false ∧
        w'.server.threadPool = pool := by
    unfold World.serve performConn
    dsimp only
    rw [if_pos hregistered, if_pos rfl, if_pos hregistered, hremove]
    exact ⟨_, rfl, rfl, rfl, rfl, rfl⟩
  have hstays : ∀ c', w'.server.connections c' = true → w.server.connections c' = true := by
    intro c' hc'
    by_cases hc : c' = c
    · rw [hc, hregistered]
    · rwa [hconnections, Function.update_of_ne hc] at hc'
  refine ⟨w', hserve, ⟨?_, ?_, fun c' hc' => ?_, fun c' hc' => ?_⟩, by rw [hpool, hloops]⟩
  · rw [hpool, living_erase hconnId hconns hconnections (h.born c hregistered) hregistered]
    exact hcounts
  · rw [hpool, hloops]
    exact h.loops
  · rw [hconnId]
    exact h.born c' (hstays c' hc')
  · rw [hpool, hloops, hconns]
    exact h.placed c' (hstays c' hc')

theorem World.Counted.serve (h : w.Counted) {call : ServerCall} (hserve : w.serve call = .ok w') :
    w'.Counted ∧ w'.server.threadPool.loops = w.server.threadPool.loops := by
  cases call with
  | newConnection sockfd =>
    rcases h.newConnection sockfd with ⟨-, herror⟩ | ⟨-, herror⟩ | ⟨w₁, hok, hcounted, hloops, -⟩
    · rw [herror] at hserve
      cases hserve
    · rw [herror] at hserve
      cases hserve
    · rw [hok] at hserve
      cases hserve
      exact ⟨hcounted, hloops⟩
  | removeConnectionInLoop c =>
    by_cases hregistered : w.server.connections c = true
    · obtain ⟨w₁, hok, hcounted, hloops⟩ := h.removeConnectionInLoop hregistered
      rw [hok] at hserve
      cases hserve
      exact ⟨hcounted, hloops⟩
    · rw [World.serve, if_neg hregistered] at hserve
      cases hserve
  | destroy c =>
    unfold World.serve at hserve
    dsimp only at hserve
    split_ifs at hserve
    cases hserve
    exact ⟨⟨h.counts, h.loops, h.born, h.placed⟩, rfl⟩

theorem start_counted (baseLoop : ι) {ioLoops : List ι} (delay clock : Nat) (count : UInt64)
    (hthreads : ioLoops ≠ []) (hdistinct : ioLoops.Nodup) :
    (System.start baseLoop ioLoops delay clock count).world.Counted ∧
      (System.start baseLoop ioLoops delay clock count).world.server.threadPool.loops = ioLoops := by
  obtain ⟨hcounts, hloops, -⟩ := EventLoopThreadPool.start_counts baseLoop hdistinct
  refine ⟨⟨?_, ?_, nofun, nofun⟩, hloops⟩
  · exact hcounts.of_eq fun _ _ => rfl
  · show (EventLoopThreadPool.start baseLoop ioLoops).loops ≠ []
    rw [hloops]
    exact hthreads

/-- What the pool knows of the loops, and of a server's next step. -/
structure Accounted (ioLoops : List ι) (w : World ι) : Prop where
  info : ∀ i loop, ioLoops[i]? = some loop →
    w.server.threadPool.loopInfo loop = some ((w.living loop : Int), i)
  count : ∀ i loop, ioLoops[i]? = some loop →
    w.server.threadPool.connectionCount.filter (fun p => p.2 = i) = [((w.living loop : Int), i)]
  index : ∀ p ∈ w.server.threadPool.connectionCount, p.2 < ioLoops.length
  /-- No assertion of `update` fails, and nothing else does before the numbers run out. -/
  fails : ∀ call f, w.serve call = .error (.fault f) → f = .undefined ∧ 2 ^ 31 ≤ w.server.connId + 1
  least : ∀ sockfd w', w.serve (.newConnection sockfd) = .ok w' → LeastLoaded w w'

theorem World.Counted.accounted (h : w.Counted) : Accounted w.server.threadPool.loops w := by
  refine ⟨h.counts.info, fun i loop hi => ?_, fun p hp => ?_, fun call f hfault => ?_, fun sockfd w' hok => ?_⟩
  · -- no other pair has the index
    have hfilter : w.server.threadPool.connectionCount.filter (fun p => p.2 = i) =
        w.server.threadPool.connectionCount.filter (fun p => p = ((w.living loop : Int), i)) := by
      refine List.filter_congr fun p hp => ?_
      obtain ⟨j, loop', hj, rfl⟩ := (h.counts.mem p).mp hp
      refine decide_eq_decide.mpr ⟨?_, fun heq => (Prod.mk.inj heq).2⟩
      rintro rfl
      rw [hi] at hj
      cases hj
      rfl
    have hmem := h.counts.mem_self hi
    rw [hfilter, List.filter_eq, List.count_eq_one_of_mem h.counts.sorted.nodup hmem]
    rfl
  · obtain ⟨j, loop', hj, rfl⟩ := (h.counts.mem p).mp hp
    exact (List.getElem?_eq_some_iff.mp hj).1
  · cases call with
    | newConnection sockfd =>
      rcases h.newConnection sockfd with ⟨-, herror⟩ | ⟨hbound, herror⟩ | ⟨w₁, hok, -⟩
      · rw [herror] at hfault
        cases hfault
      · rw [herror] at hfault
        cases hfault
        exact ⟨rfl, hbound⟩
      · rw [hok] at hfault
        cases hfault
    | removeConnectionInLoop c =>
      by_cases hregistered : w.server.connections c = true
      · obtain ⟨w₁, hok, -⟩ := h.removeConnectionInLoop hregistered
        rw [hok] at hfault
        cases hfault
      · rw [World.serve, if_neg hregistered] at hfault
        cases hfault
    | destroy c =>
      unfold World.serve at hfault
      dsimp only at hfault
      split_ifs at hfault
      cases hfault
  · rcases h.newConnection sockfd with ⟨-, herror⟩ | ⟨-, herror⟩ | ⟨w₁, hok', -, -, hleast⟩
    · rw [herror] at hok
      cases hok
    · rw [herror] at hok
      cases hok
    · rw [hok'] at hok
      cases hok
      exact hleast

/-- **The counts of the loops are right**, in both indexes, after any number of connections have been
accepted and removed. -/
theorem loops_accounted {baseLoop : ι} {ioLoops : List ι} {delay clock : Nat} {count : UInt64}
    (hthreads : ioLoops ≠ []) (hdistinct : ioLoops.Nodup) {calls : List ServerCall}
    (hrun : Machine.run World.serve (System.start baseLoop ioLoops delay clock count).world calls = .ok w) :
    Accounted ioLoops w := by
  obtain ⟨hstart, hloops⟩ := start_counted baseLoop delay clock count hthreads hdistinct
  obtain ⟨hcounted, hsame⟩ := Machine.run_inv (P := fun _ _ => True)
    (I := fun w : World ι => w.Counted ∧ w.server.threadPool.loops = ioLoops)
    (fun w call w' hinv _ hserve => by
      obtain ⟨hcounted, hloops'⟩ := hinv.1.serve hserve
      exact ⟨hcounted, hloops'.trans hinv.2⟩)
    ⟨hstart, hloops⟩ (Machine.along_of_forall (fun _ _ => trivial) calls) hrun
  rw [← hsame]
  exact hcounted.accounted

/-- Three connections on two loops, of which the second one goes. -/
theorem loops_accounted_three :
    ∃ w : World (Fin 3), Machine.run World.serve (System.start (0 : Fin 3) [1, 2] 0 0 0).world
        [.newConnection 5, .newConnection 6, .newConnection 7, .removeConnectionInLoop 1, .destroy 1,
          .newConnection 6] = .ok w ∧
      w.server.threadPool.connectionCount = [(1, 1), (2, 0)] ∧
      Accounted [1, 2] w := by
  obtain ⟨w, hrun, hcount⟩ := eq_ok_of_toOption (b := [((1 : Int), 1), (2, 0)])
    (f := fun w : World (Fin 3) => w.server.threadPool.connectionCount)
    (x := Machine.run World.serve (System.start (0 : Fin 3) [1, 2] 0 0 0).world
        [.newConnection 5, .newConnection 6, .newConnection 7, .removeConnectionInLoop 1, .destroy 1,
          .newConnection 6]) (by decide +kernel)
  exact ⟨w, hrun, hcount, loops_accounted (by simp) (by decide) hrun⟩

end VServer

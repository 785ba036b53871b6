import VServer.Net.Faults
import VServer.Net.Registration

/-!
# The order of the life of a connection

A connection is handed from the thread that accepted it to the loop it was made for, and back when it
is closed. Until `connectEstablished` has run, nothing but its functor is on its way to the connection
(`EstablishInv`): nobody has been given a pointer, and its channel is not in the poller. What happens
to it afterwards is recorded step by step (`System.executes`), and `Accompanied` says what a record
shows at any time. The channel holds a raw pointer only; what keeps the connection alive is the map of
the server, and from the removal on the functor of `connectDestroyed`.
-/

namespace VServer

variable {ι : Type} [DecidableEq ι]

def ConnTask.isLater : ConnTask ι → Bool
  | .connectEstablished | .send _ | .shutdown | .forceClose | .forceCloseAfter _ => false
  | _ => true

omit [DecidableEq ι] in
theorem isCall_of_isLater {t : ConnTask ι} : t.isLater = true → t.isCall = false := by
  cases t
  all_goals first
    | exact fun _ => rfl
    | exact nofun

omit [DecidableEq ι] in
theorem isRaw_of_downs {t : ConnTask ι} : t.downs = 1 → t.isRaw = false := by
  cases t
  all_goals first
    | exact fun _ => rfl
    | exact nofun

def ConnTask.later (t : ConnTask ι) : Nat := if t.isLater then 1 else 0

/-- What the step does to connection `c`, and on which thread. -/
def System.executes (c : Nat) (σ : System ι) : Label ι → List (ι × ConnTask ι)
  | .run who _ =>
    match σ.todo who with
    | .conn c' t :: _ => if c' = c then [(who, t)] else []
    | _ => []
  | _ => []

section

variable {who : ι} {k : Kernel} {base : ι} {c : Nat} {l l' : Link ι} {t : ConnTask ι}
  {events : List (ConnEvent ι)} {new : List (Task ι)}

theorem ConnStep.sum_connectEstablished (h : ConnStep who k base c l t l' events new) :
    (new.map (Task.weight c (ConnTask.one .connectEstablished))).sum = 0 := by
  have hdispatch : t.isDispatch = true →
      (new.map (Task.weight c (ConnTask.one .connectEstablished))).sum = 0 :=
    fun ht => h.sum_dispatch ht ⟨rfl, rfl, rfl, rfl, rfl, fun _ => rfl⟩
  cases h
  all_goals first
    | exact hdispatch rfl
    | simp [ConnTask.one]

theorem ConnStep.sum_connectDestroyed (h : ConnStep who k base c l t l' events new) :
    (new.map (Task.weight c (ConnTask.one .connectDestroyed))).sum =
      (events.filter ConnEvent.isLife).count .removed := by
  have hlife := h.life
  have hdispatch : t.isDispatch = true →
      (new.map (Task.weight c (ConnTask.one .connectDestroyed))).sum = 0 :=
    fun ht => h.sum_dispatch ht ⟨rfl, rfl, rfl, rfl, rfl, fun _ => rfl⟩
  generalize events.filter ConnEvent.isLife = life at hlife ⊢
  cases h
  all_goals
    cases hlife
    all_goals first
      | contradiction
      | (rw [hdispatch rfl]; rfl)
      | simp [ConnTask.one]

theorem ConnStep.call_connecting (h : ConnStep who k base c l t l' events new) (ht : t.isCall = true)
    (hstate : l.conn.state = .kConnecting) : l' = l ∧ new = [] := by
  have hopen : ¬ l.conn.isOpen = true := by simp [TcpConnection.isOpen, hstate]
  cases h with
  | sendIgnored connected => exact ⟨rfl, rfl⟩
  | shutdownIgnored connected => exact ⟨rfl, rfl⟩
  | forceCloseIgnored isOpen => exact ⟨rfl, rfl⟩
  | forceCloseAfterIgnored isOpen => exact ⟨rfl, rfl⟩
  | send connected => simp [hstate] at connected
  | shutdown connected => simp [hstate] at connected
  | forceClose isOpen => exact absurd isOpen hopen
  | forceCloseAfter isOpen => exact absurd isOpen hopen
  | _ => cases ht

end

/-! ## Until the connection is established -/

section

variable [Fintype ι] {σ σ' : System ι} {c : Nat} {label : Label ι}

/-- What is on its way to connection `c` until it is established. -/
structure EstablishInv (c : Nat) (σ : System ι) : Prop where
  unborn : σ.world.server.connId ≤ c →
    σ.pending c .connectEstablished = 0 ∧ σ.total c ConnTask.later = 0
  functor : c < σ.world.server.connId →
    σ.pending c .connectEstablished = if (σ.world.conns c).state = .kConnecting then 1 else 0
  alone : c < σ.world.server.connId → (σ.world.conns c).state = .kConnecting →
    σ.total c ConnTask.later = 0 ∧ (σ.world.conns c).channel.index = .kNew

omit [DecidableEq ι] in
theorem later_of_performs {t : ConnTask ι} {k : Kernel} (h : σ.performs label = some (c, t, k))
    (hzero : σ.total c ConnTask.later = 0) : t = .connectEstablished ∨ t.isCall = true := by
  have hle := le_total_of_performs ConnTask.later h
  rw [hzero] at hle
  cases t
  all_goals first
    | exact .inl rfl
    | exact .inr rfl
    | simp [ConnTask.later, ConnTask.isLater] at hle

theorem start_establishInv (baseLoop : ι) (ioLoops : List ι) (delay clock : Nat) (count : UInt64) :
    EstablishInv c (System.start baseLoop ioLoops delay clock count) where
  unborn _ := ⟨start_total _ _ _ _ _ _ _, start_total _ _ _ _ _ _ _⟩
  functor h := by cases h
  alone h := by cases h

theorem step_establishInv (hlife : LifeInv c σ) (hreg : Registered σ) (hinv : EstablishInv c σ)
    (hstep : σ.step label = .ok σ') : EstablishInv c σ' := by
  obtain ⟨hunborn, hfunctor, halone⟩ := hinv
  cases (step_move hstep).of_conn c with
  | @own who k t rest new events run todo alive step alive' connId seen total =>
    have hperforms : σ.performs label = some (c, t, k) := performs_of_run run todo
    have hlt := hlife.born alive
    have hflow := total (ConnTask.one .connectEstablished)
    rw [step.sum_connectEstablished, Nat.add_zero] at hflow
    have hbefore := hfunctor hlt
    unfold System.pending at hbefore
    -- the connection is established afterwards, and nothing is left to establish it
    have hdone : (σ'.world.conns c).state ≠ .kConnecting →
        σ'.total c (ConnTask.one .connectEstablished) = 0 → EstablishInv c σ' := fun hstate hzero =>
      ⟨fun h => by omega, fun _ => by rw [if_neg hstate]; exact hzero, fun _ h => absurd h hstate⟩
    have hlifeStep := step.life
    generalize events.filter ConnEvent.isLife = life at hlifeStep
    by_cases hstate : (σ.world.conns c).state = .kConnecting
    · obtain ⟨hquiet, hindex⟩ := halone hlt hstate
      rw [if_pos hstate] at hbefore
      rcases later_of_performs hperforms hquiet with rfl | hcall
      · rw [one_self] at hflow
        cases hlifeStep with
        | established connecting state registered =>
          refine hdone ?_ (by omega)
          intro h
          cases state.symm.trans h
        | other ht state watched registered => cases ht
      · obtain ⟨hlink, rfl⟩ := step.call_connecting hcall hstate
        have hconn : σ'.world.conns c = σ.world.conns c := congrArg Link.conn hlink
        have hsame : ∀ μ : ConnTask ι → Nat, μ t = 0 → σ'.total c μ = σ.total c μ := fun μ hμ => by
          have h := total μ
          rwa [hμ] at h
        have hweights : ConnTask.one .connectEstablished t = 0 ∧ ConnTask.later t = 0 := by
          cases t
          all_goals first
            | exact ⟨rfl, rfl⟩
            | cases hcall
        refine ⟨fun h => by omega, fun _ => ?_, fun _ _ => ⟨?_, ?_⟩⟩
        · unfold System.pending
          rw [hconn, if_pos hstate, hsame _ hweights.1, hbefore]
        · rw [hsame _ hweights.2, hquiet]
        · rw [hconn, hindex]
    · rw [if_neg hstate] at hbefore
      exact hdone (fun h => hstate (hlifeStep.connecting h).1) (by omega)
  | @born loop fresh connId conn registered seen total =>
    obtain ⟨hpending, hlater⟩ := hunborn (by omega)
    obtain ⟨sockfd, delay, hconn⟩ := conn
    refine ⟨fun h => by omega, fun _ => ?_, fun _ _ => ⟨?_, ?_⟩⟩
    · unfold System.pending at hpending ⊢
      rw [total, hpending, hconn, one_self]
      rfl
    · rw [total, hlater]
      rfl
    · rw [hconn]
      rfl
  | idle conn registered alive connId seen total =>
    obtain ⟨incoming, hincoming, hreports, htotal⟩ := total
    have hfunctor' : σ'.pending c .connectEstablished = σ.pending c .connectEstablished :=
      pending_incoming htotal hincoming rfl
    -- an event only comes to a channel that has been added
    have hlater' : (σ.world.alive c = true → (σ.world.conns c).channel.index = .kNew) →
        σ'.total c ConnTask.later = σ.total c ConnTask.later := by
      intro hnew
      rw [htotal]
      refine Nat.add_eq_left.mpr (List.sum_eq_zero fun n hn => ?_)
      obtain ⟨t, ht, rfl⟩ := List.mem_map.mp hn
      have hcomes := hincoming t ht
      cases t
      all_goals first
        | rfl
        | cases hcomes
      · obtain ⟨i, hreport⟩ := hreports _ ht
        obtain ⟨halive, -, hadded, -⟩ := hreg.reports_iff.mp hreport
        rw [hnew halive] at hadded
        cases hadded
    refine ⟨fun h => ?_, fun h => ?_, fun h hstate => ?_⟩
    · have hle : σ.world.server.connId ≤ c := by
        by_contra hlt
        have := connId.mpr (by omega)
        omega
      obtain ⟨hpending, hlater⟩ := hunborn hle
      rw [hfunctor', hlater' fun halive => absurd (hlife.born halive) (by omega)]
      exact ⟨hpending, hlater⟩
    · rw [hfunctor', conn]
      exact hfunctor (connId.mp h)
    · rw [conn] at hstate ⊢
      obtain ⟨hlater, hindex⟩ := halone (connId.mp h) hstate
      rw [hlater' fun _ => hindex]
      exact ⟨hlater, hindex⟩

theorem EstablishInv.state_of_later (hinv : EstablishInv c σ) (hlt : c < σ.world.server.connId)
    {t : ConnTask ι} {k : Kernel} (h : σ.performs label = some (c, t, k)) (ht : t.isLater = true) :
    (σ.world.conns c).state ≠ .kConnecting := by
  intro hstate
  rcases later_of_performs h (hinv.alone hlt hstate).1 with rfl | hcall
  · cases ht
  · rw [isCall_of_isLater ht] at hcall
    cases hcall

theorem EstablishInv.born_of_performs (hinv : EstablishInv c σ) {t : ConnTask ι} {k : Kernel}
    (h : σ.performs label = some (c, t, k)) (ht : t = .connectEstablished ∨ t.isLater = true) :
    c < σ.world.server.connId := by
  by_contra hlt
  obtain ⟨hpending, hlater⟩ := hinv.unborn (by omega)
  rcases ht with rfl | ht
  · have hpos := pending_pos h
    omega
  · have hle := le_total_of_performs ConnTask.later h
    rw [ConnTask.later, if_pos ht] at hle
    omega

/-! ## What keeps a connection alive -/

omit [Fintype ι] in
theorem Move.dies (h : Move label σ σ') (halive : σ.world.alive c = true)
    (hdead : σ'.world.alive c ≠ true) :
    σ.world.server.connections c = false ∧
      ∀ i, ∀ x ∈ σ.tasks i, ∀ t, x.about c = some t → t.isRaw = true := by
  cases h with
  | conn run todo alive step framed loops todo' => exact absurd (framed.alive ▸ halive) hdead
  | @born who loop c' rest todo born loops todo' =>
    rw [born.alive] at hdead
    by_cases hc : c = c'
    · rw [hc, Function.update_self] at hdead
      exact absurd rfl hdead
    · rw [Function.update_of_ne hc] at hdead
      exact absurd halive hdead
  | other todo about hnew world phase pendingFuncs todo' => exact absurd (world.alive ▸ halive) hdead
  | queue todo hnew world loops todo' => exact absurd (world ▸ halive) hdead
  | call inUserCode knows world loops todo' => exact absurd (world ▸ halive) hdead
  | next todo hnext world loops todo' => exact absurd (world ▸ halive) hdead
  | poll todo phase reports world loops todo' => exact absurd (world ▸ halive) hdead
  | time world loops todo' => exact absurd (world.alive ▸ halive) hdead
  | @destroy c' alive refers conns alive' pollers channels epoll server log loops todo' gone =>
    by_cases hc : c = c'
    · rw [hc]
      exact ⟨gone, refers⟩
    · rw [alive', Function.update_of_ne hc] at hdead
      exact absurd halive hdead

/-- The functor of `connectDestroyed` is handed over, queued or running. -/
def System.Downed (σ : System ι) (c : Nat) : Prop :=
  ∃ i, ∃ x ∈ σ.tasks i, ∃ t, x.about c = some t ∧ t.downs = 1

omit [DecidableEq ι] in
theorem downed_of_total (h : 0 < σ.total c ConnTask.downs) : σ.Downed c := by
  obtain ⟨i, x, hx, t, hab, hpos⟩ := exists_of_total_pos h
  have hle := downs_le_one t
  exact ⟨i, x, hx, t, hab, by omega⟩

theorem LifeInv.kept (hlife : LifeInv c σ) (hlt : c < σ.world.server.connId)
    (hup : (σ.world.life c).countP ConnEvent.isDestroyed = 0) :
    σ.world.server.connections c = true ∨ σ.Downed c := by
  have hdowns := hlife.downs
  by_cases hremoved : (σ.world.life c).count .removed = 0
  · exact .inl ((hlife.registered hlt).mpr hremoved)
  · exact .inr (downed_of_total (by omega))

def AliveInv (c : Nat) (σ : System ι) : Prop :=
  c < σ.world.server.connId → (σ.world.life c).countP ConnEvent.isDestroyed = 0 →
    σ.world.alive c = true

omit [Fintype ι] in
theorem start_aliveInv (baseLoop : ι) (ioLoops : List ι) (delay clock : Nat) (count : UInt64) :
    AliveInv c (System.start baseLoop ioLoops delay clock count) := by
  intro h
  cases h

theorem step_aliveInv (hlife : LifeInv c σ) (hinv : AliveInv c σ) (hstep : σ.step label = .ok σ') :
    AliveInv c σ' := by
  intro hlt hup
  have hmove := step_move hstep
  -- it was alive before, or it is new
  have hstays : c < σ.world.server.connId → (σ.world.life c).countP ConnEvent.isDestroyed = 0 →
      σ'.world.alive c = true := by
    intro hlt hup
    by_contra hdead
    obtain ⟨hgone, hraw⟩ := hmove.dies (hinv hlt hup) hdead
    rcases hlife.kept hlt hup with hkept | ⟨i, x, hx, t, hab, ht⟩
    · rw [hgone] at hkept
      cases hkept
    · have hnot := hraw i x hx t hab
      rw [isRaw_of_downs ht] at hnot
      cases hnot
  cases hmove.of_conn c with
  | @own who k t rest new events run todo alive step alive' connId seen total => exact alive'
  | born fresh connId conn registered seen total alive' => exact alive'
  | idle conn registered alive connId seen total =>
    refine hstays (connId.mp hlt) ?_
    rwa [World.life_eq seen] at hup

/-! ## The record of a run -/

omit [DecidableEq ι] [Fintype ι] in
theorem executes_of_performs [DecidableEq ι] {t : ConnTask ι} {k : Kernel}
    (h : σ.performs label = some (c, t, k)) :
    ∃ who, label = .run who k ∧ σ.executes c label = [(who, t)] := by
  obtain ⟨who, rest, rfl, htodo⟩ := performs_eq_some h
  refine ⟨who, rfl, ?_⟩
  unfold System.executes
  dsimp only
  rw [htodo]
  exact if_pos rfl

omit [DecidableEq ι] [Fintype ι] in
theorem executes_eq_nil (h : ∀ t k, σ.performs label ≠ some (c, t, k)) : σ.executes c label = [] := by
  unfold System.executes
  split
  · rename_i who k
    split
    · rename_i c' t rest htodo
      refine if_neg ?_
      rintro rfl
      exact h t k (performs_of_todo htodo)
    · rfl
  · rfl

/-- What was done to connection `c` so far, in this order. -/
structure Recorded (c : Nat) (σ : System ι) (h : List (ι × ConnTask ι)) : Prop where
  unborn : σ.world.server.connId ≤ c → h = []
  established : c < σ.world.server.connId →
    (h.map Prod.snd).count .connectEstablished + σ.pending c .connectEstablished = 1
  home : ∀ who, (who, .connectEstablished) ∈ h → who = (σ.world.conns c).loop
  first : Machine.Behind (fun pre => .connectEstablished ∈ pre.map Prod.snd)
    (fun x => x.2.isLater = true) h
  destroyed : (h.map Prod.snd).count .connectDestroyed + σ.pending c .connectDestroyed =
    (σ.world.life c).count .removed

theorem start_recorded (baseLoop : ι) (ioLoops : List ι) (delay clock : Nat) (count : UInt64) :
    Recorded c (System.start baseLoop ioLoops delay clock count) [] where
  unborn _ := rfl
  established h := by cases h
  home := nofun
  first := Machine.behind_nil
  destroyed := by
    unfold System.pending
    rw [start_total]
    rfl

theorem step_recorded {h : List (ι × ConnTask ι)} (hlife : LifeInv c σ) (hest : EstablishInv c σ)
    (hinv : Recorded c σ h) (hstep : σ.step label = .ok σ') :
    Recorded c σ' (h ++ σ.executes c label) := by
  obtain ⟨hunborn, hestablished, hhome, hfirst, hdestroyed⟩ := hinv
  have hmove := step_move hstep
  by_cases hperforms : ∃ t k, σ.performs label = some (c, t, k)
  · obtain ⟨t, k, hperforms⟩ := hperforms
    obtain ⟨who, new, events, hlabel, halive, hconn, hconnId, hseen, htotal⟩ := step_own hstep hperforms
    obtain ⟨who', hlabel', hexecutes⟩ := executes_of_performs hperforms
    obtain rfl : who = who' := by
      rw [hlabel] at hlabel'
      cases hlabel'
      rfl
    have hlt := hlife.born halive
    have hloop := hmove.loop_eq hlt
    have hcount : ∀ x : ConnTask ι, ((h ++ [(who, t)]).map Prod.snd).count x =
        (h.map Prod.snd).count x + ConnTask.one x t := fun x => by
      simp [List.count_singleton, ConnTask.one]
    have hflow := htotal (ConnTask.one .connectEstablished)
    have hflow' := htotal (ConnTask.one .connectDestroyed)
    rw [hconn.sum_connectEstablished] at hflow
    rw [hconn.sum_connectDestroyed] at hflow'
    unfold System.pending at hestablished hdestroyed
    rw [hexecutes]
    refine ⟨fun hle => by omega, fun _ => ?_, fun who' hmem => ?_, hfirst.concat fun ht => ?_, ?_⟩
    · rw [hcount]
      unfold System.pending
      have := hestablished hlt
      omega
    · rw [hloop]
      rcases List.mem_append.mp hmem with hmem | hmem
      · exact hhome who' hmem
      · cases List.mem_singleton.mp hmem
        generalize σ'.world.link c = after at hconn
        cases hconn with
        | connectEstablished loop connecting result => exact loop
    · have hstate := hest.state_of_later hlt hperforms ht
      have hzero := hest.functor hlt
      rw [if_neg hstate] at hzero
      unfold System.pending at hzero
      have := hestablished hlt
      exact List.count_pos_iff.mp (by omega)
    · rw [hcount, World.life, hseen, List.filter_append, List.count_append]
      unfold System.pending
      have hlife' : (σ.world.life c).count .removed =
        ((σ.world.seen c).filter ConnEvent.isLife).count .removed := rfl
      omega
  · push Not at hperforms
    rw [executes_eq_nil hperforms, List.append_nil]
    cases hmove.of_conn c with
    | own run todo alive step alive' connId seen total =>
      exact absurd (performs_of_run run todo) (hperforms _ _)
    | @born loop fresh connId conn registered seen total alive' =>
      -- nothing was done to the connection, and its functor is on its way
      have hnil := hunborn (by omega)
      have hpending := (hest.unborn (by omega)).1
      have hlife' : σ'.world.life c = σ.world.life c := World.life_eq seen
      unfold System.pending at hpending hdestroyed
      rw [hnil] at hdestroyed ⊢
      refine ⟨fun h => by omega, fun _ => ?_, by simp, Machine.behind_nil, ?_⟩
      · unfold System.pending
        rw [total, hpending]
        rfl
      · unfold System.pending
        rw [hlife', total, one_of_ne (by simp)]
        exact hdestroyed
    | idle conn registered alive connId seen total =>
      obtain ⟨incoming, hincoming, -, htotal⟩ := total
      have hpending : ∀ x : ConnTask ι, x.isIncoming = false → σ'.pending c x = σ.pending c x :=
        fun x hx => pending_incoming htotal hincoming hx
      have hlife' : σ'.world.life c = σ.world.life c := World.life_eq seen
      refine ⟨fun h => hunborn ?_, fun h => ?_, ?_, hfirst, ?_⟩
      · by_contra hlt
        have := connId.mpr (by omega)
        omega
      · rw [hpending _ rfl]
        exact hestablished (connId.mp h)
      · rw [conn]
        exact hhome
      · rw [hpending _ rfl, hlife']
        exact hdestroyed

/-- The life of connection `c`, when `h` is what was done to it so far. -/
structure Accompanied (c : Nat) (σ : System ι) (h : List (ι × ConnTask ι)) : Prop where
  /-- `connectEstablished` ran once at most, and on the loop of the connection; -/
  once : (h.map Prod.snd).count .connectEstablished ≤ 1
  home : ∀ who, (who, .connectEstablished) ∈ h → who = (σ.world.conns c).loop
  /-- it ran before anything else, calls apart, was done, -/
  first : Machine.Behind (fun pre => .connectEstablished ∈ pre.map Prod.snd)
    (fun x => x.2.isLater = true) h
  /-- also if the next step tries to; -/
  next : ∀ label t k, σ.performs label = some (c, t, k) → t.isLater = true →
    .connectEstablished ∈ h.map Prod.snd
  /-- and its assertion does not fail. -/
  asserted : ∀ label k, σ.performs label = some (c, .connectEstablished, k) →
    σ.step label ≠ .error (.fault (.assertion .connectEstablished))
  /-- `connectDestroyed` runs once at most, and when it does, the map has lost the connection. -/
  destroyed : (h.map Prod.snd).count .connectDestroyed ≤ 1
  erased : ∀ label k, σ.performs label = some (c, .connectDestroyed, k) →
    σ.world.server.connections c = false
  /-- Until it returns, the connection lives, and the map or the functor that removes it or destroys
  it holds a reference. -/
  kept : c < σ.world.server.connId → (∀ state, .destroyed state ∉ σ.world.seen c) →
    σ.world.alive c = true ∧ (σ.world.server.connections c = true ∨ σ.Downed c)

/-- **The order of the life of a connection**, in every run, for every number of loops. -/
theorem lifecycle_order {baseLoop : ι} {ioLoops : List ι} {delay clock : Nat} {count : UInt64}
    {labels : List (Label ι)}
    (hrun : Machine.run System.step (System.start baseLoop ioLoops delay clock count) labels = .ok σ)
    (c : Nat) :
    Accompanied c σ (Machine.collect System.step (System.executes c)
      (System.start baseLoop ioLoops delay clock count) labels) := by
  have hinv : LifeInv c σ ∧ Registered σ ∧ EstablishInv c σ ∧ AliveInv c σ ∧
      Recorded c σ (Machine.collect System.step (System.executes c)
        (System.start baseLoop ioLoops delay clock count) labels) :=
    Machine.run_history
      (fun σ h => LifeInv c σ ∧ Registered σ ∧ EstablishInv c σ ∧ AliveInv c σ ∧ Recorded c σ h)
      (fun _ _ _ _ hinv _ hstep => ⟨step_lifeInv hinv.1 hstep, (step_move hstep).registered hinv.2.1,
        step_establishInv hinv.1 hinv.2.1 hinv.2.2.1 hstep, step_aliveInv hinv.1 hinv.2.2.2.1 hstep,
        step_recorded hinv.1 hinv.2.2.1 hinv.2.2.2.2 hstep⟩)
      ⟨start_lifeInv baseLoop ioLoops delay clock count,
        start_registered baseLoop ioLoops delay clock count,
        start_establishInv baseLoop ioLoops delay clock count,
        start_aliveInv baseLoop ioLoops delay clock count,
        start_recorded baseLoop ioLoops delay clock count⟩
      (Machine.along_of_forall (fun _ _ => trivial) labels) hrun
  obtain ⟨hlife, hreg, hest, halive, hrecord⟩ := hinv
  have hdestroyed := hrecord.destroyed
  have honce := hlife.once
  refine ⟨?_, hrecord.home, hrecord.first, fun label t k hperforms ht => ?_,
    fun label k hperforms hfault => ?_, by omega, fun label k hperforms => ?_, fun hlt hup => ?_⟩
  · by_cases hlt : c < σ.world.server.connId
    · have := hrecord.established hlt
      omega
    · rw [hrecord.unborn (by omega)]
      exact Nat.zero_le _
  · have hlt := hest.born_of_performs hperforms (.inr ht)
    have hzero := hest.functor hlt
    rw [if_neg (hest.state_of_later hlt hperforms ht)] at hzero
    have := hrecord.established hlt
    exact List.count_pos_iff.mp (by omega)
  · rcases step_fault hfault rfl with ⟨-, -, -, -, -, -, -, -, -, hf⟩ | ⟨-, -, -, -, -, -, hf⟩ |
      ⟨-, -, -, -, -, hf⟩ | ⟨-, -, -, -, -, hf⟩ | ⟨c', k', hperforms', -, hstate, -⟩
    · cases hf
    · cases hf
    · cases hf
    · cases hf
    · rw [hperforms] at hperforms'
      cases hperforms'
      -- the functor is on its way, so the connection is `kConnecting`
      have hpending := pending_pos hperforms
      have hzero := hest.functor (hest.born_of_performs hperforms (.inl rfl))
      rw [if_neg hstate] at hzero
      omega
  · have hpending := le_total_of_performs ConnTask.downs hperforms
    have hdowns := hlife.downs
    have hlt := hest.born_of_performs hperforms (.inr rfl)
    simp only [ConnTask.downs] at hpending
    by_contra hkept
    have := (hlife.registered hlt).mp (by simpa using hkept)
    omega
  · have hzero : (σ.world.life c).countP ConnEvent.isDestroyed = 0 := by
      refine List.countP_eq_zero.mpr fun event hevent hdestroyed => ?_
      cases event
      all_goals first
        | exact hup _ (List.mem_filter.mp hevent).1
        | cases hdestroyed
    exact ⟨halive hlt hzero, hlife.kept hlt hzero⟩

end

/-- The connection of `hangupRun` is established and destroyed. -/
theorem lifecycle_order_hangup :
    ∃ σ, Machine.run System.step (System.start (0 : Fin 1) [] 0 0 0) hangupRun = .ok σ ∧
      .destroyed .kDisconnected ∈ σ.world.seen 0 ∧
      Accompanied 0 σ (Machine.collect System.step (System.executes 0)
        (System.start (0 : Fin 1) [] 0 0 0) hangupRun) := by
  obtain ⟨σ, hrun, hseen⟩ := eq_ok_of_toOption (b := true)
    (f := fun σ : System (Fin 1) => decide (.destroyed .kDisconnected ∈ σ.world.seen 0))
    (x := Machine.run System.step (System.start 0 [] 0 0 0) hangupRun) (by decide +kernel)
  exact ⟨σ, hrun, of_decide_eq_true hseen, lifecycle_order hrun 0⟩

end VServer

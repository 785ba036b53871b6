import VServer.Net.Moves

/-!
# Where a run can fail

Four faults are traced to their sources: an exception, the `assert(n == 1)` of
`removeConnectionInLoop`, the `assert(isNoneEvent())` of `Channel::remove` and the
`assert(m_state == kConnecting)` of `connectEstablished`. `Untraced` says that a computation fails
with none of them, and `step_fault` lists the steps that do.
-/

namespace VServer

def Fault.traced : Fault → Bool
  | .exception | .assertion .removeConnectionInLoop | .assertion .channelRemove
  | .assertion .connectEstablished => true
  | _ => false

/-- The computation does not fail with one of the traced faults. -/
def Untraced {α : Type} (x : Except Fault α) : Prop := ∀ e, x = .error e → e.traced = false

section

variable {α β : Type}

theorem untraced_ok (a : α) : Untraced (.ok a : Except Fault α) := by
  intro e h
  cases h

theorem untraced_error {e : Fault} (h : e.traced = false) : Untraced (.error e : Except Fault α) := by
  intro e' h'
  cases h'
  exact h

theorem Untraced.bind {x : Except Fault α} {f : α → Except Fault β} (hx : Untraced x)
    (hf : ∀ a, Untraced (f a)) : Untraced (x >>= f) := by
  cases x with
  | error e =>
    intro e' h
    cases h
    exact hx e rfl
  | ok a => exact hf a

end

/-! ## The poller and the connection -/

section

variable {κ : Type} [DecidableEq κ] {ι : Type} {conn : TcpConnection ι} {self : Nat}
  {p : Poller Nat}

theorem updateChannel_untraced (p : Poller κ) (owner : κ) (ch : Channel) :
    Untraced (p.updateChannel owner ch) := by
  unfold Poller.updateChannel
  split
  all_goals split_ifs
  all_goals first
    | exact untraced_ok _
    | exact untraced_error rfl

omit [DecidableEq κ] in
theorem removeChannel_untraced (p : Poller κ) (owner : κ) (ch : Channel) :
    Untraced (p.removeChannel owner ch) := by
  unfold Poller.removeChannel
  split_ifs
  · exact untraced_error rfl
  · dsimp only
    split
    · exact untraced_error rfl
    · exact untraced_ok _
    · exact untraced_ok _

theorem withChannel_untraced {op : Nat → Poller Nat → Channel → Except Fault (Poller Nat × Channel)}
    (hop : ∀ self p ch, Untraced (op self p ch)) : Untraced (conn.withChannel self p op) :=
  (hop _ _ _).bind fun _ => untraced_ok _

theorem connectEstablished_error {e : Fault} (h : conn.connectEstablished self p = .error e)
    (he : e.traced = true) :
    e = .assertion .connectEstablished ∧ conn.state ≠ .kConnecting := by
  unfold TcpConnection.connectEstablished at h
  split_ifs at h with hconnecting
  · have huntraced := (withChannel_untraced fun _ _ _ => updateChannel_untraced _ _ _).bind
      (fun _ => untraced_ok _) e h
    rw [he] at huntraced
    cases huntraced
  · cases h
    exact ⟨rfl, hconnecting⟩

theorem notifyDown_untraced : Untraced (conn.notifyDown self p) :=
  (withChannel_untraced fun _ _ _ => updateChannel_untraced _ _ _).bind fun _ => untraced_ok _

theorem handleClose_untraced : Untraced (conn.handleClose self p) := by
  unfold TcpConnection.handleClose
  split_ifs
  · exact (withChannel_untraced fun _ _ _ => updateChannel_untraced _ _ _).bind fun _ => untraced_ok _
  · exact untraced_error rfl

theorem sendInLoop_untraced {sender : ι} {message : List Byte} {written : Option Nat} :
    Untraced (conn.sendInLoop self p sender message written) := by
  unfold TcpConnection.sendInLoop
  dsimp only
  split_ifs
  all_goals first
    | exact untraced_ok _
    | exact (withChannel_untraced fun _ _ _ => updateChannel_untraced _ _ _).bind fun _ => untraced_ok _

theorem handleWrite_untraced {written : Option Nat} : Untraced (conn.handleWrite self p written) := by
  unfold TcpConnection.handleWrite
  dsimp only
  split_ifs
  all_goals first
    | exact untraced_ok _
    | exact (withChannel_untraced fun _ _ _ => updateChannel_untraced _ _ _).bind fun _ => untraced_ok _

theorem channelRemove_error {e : Fault} (h : conn.channelRemove self p = .error e)
    (he : e.traced = true) :
    e = .assertion .channelRemove ∧ conn.channel.events ≠ Channel.kNoneEvent := by
  unfold TcpConnection.channelRemove TcpConnection.withChannel Channel.remove at h
  by_cases hnone : conn.channel.isNoneEvent = true
  · rw [if_pos hnone] at h
    have huntraced := ((removeChannel_untraced p self conn.channel).bind fun _ =>
      untraced_ok _).bind (fun _ => untraced_ok _) e h
    rw [he] at huntraced
    cases huntraced
  · rw [if_neg hnone] at h
    cases h
    exact ⟨rfl, by simpa [Channel.isNoneEvent] using hnone⟩

end

/-! ## The pool and the timers -/

section

variable {ι : Type} [DecidableEq ι]

theorem update_untraced (pool : EventLoopThreadPool ι) (loop : ι) (n : Int) :
    Untraced (pool.update loop n) := by
  unfold EventLoopThreadPool.update
  split
  · exact untraced_error rfl
  · split_ifs
    · exact untraced_ok _
    · exact untraced_error rfl

theorem removeLoopConnection_untraced (pool : EventLoopThreadPool ι) (loop : ι) :
    Untraced (pool.removeLoopConnection loop) := by
  unfold EventLoopThreadPool.removeLoopConnection
  split_ifs
  · exact untraced_ok _
  · exact update_untraced _ _ _

theorem getNextLoopMinConnection_untraced (pool : EventLoopThreadPool ι) :
    Untraced pool.getNextLoopMinConnection := by
  unfold EventLoopThreadPool.getNextLoopMinConnection
  split
  · exact untraced_ok _
  · split
    · exact (update_untraced _ _ _).bind fun _ => untraced_ok _
    · exact untraced_error rfl

theorem fillExpired_untraced {κ : Type} (tm : TimerManager κ) (clock now : Nat) (fresh : UInt64) :
    Untraced (tm.fillExpired clock now fresh) := by
  unfold TimerManager.fillExpired
  dsimp only
  split
  · split
    · exact untraced_error rfl
    · exact untraced_ok _
  · exact untraced_ok _

theorem cancelInloop_untraced {κ : Type} (tm : TimerManager κ) (clock : Nat) (id : UInt64) :
    Untraced (tm.cancelInloop clock id) := by
  unfold TimerManager.cancelInloop
  dsimp only
  split
  · exact untraced_ok _
  · split_ifs
    · split
      · exact untraced_ok _
      · exact untraced_ok _
    · exact untraced_ok _
    · exact untraced_error rfl
    · exact untraced_error rfl

end

/-! ## Steps -/

section

variable {ι : Type} [DecidableEq ι] {who : ι} {k : Kernel} {w : World ι} {f : Fault}

theorem finish_fault {c : Nat} {r : Except Fault (TcpConnection.Result ι)} {tasks : List (Task ι)}
    (h : w.finish c r tasks = .error (.fault f)) : r = .error f := by
  unfold World.finish at h
  split at h
  · cases h
  · cases h
    rfl

theorem performConn_fault {c : Nat} {t : ConnTask ι} (h : performConn who k w c t = .error (.fault f))
    (hf : f.traced = true) :
    (t = .handleRead ∧ who = (w.conns c).loop ∧ k.readv = none ∧ f = .exception) ∨
    (t = .removeConnectionInLoop ∧ w.server.connections c = false ∧
      f = .assertion .removeConnectionInLoop) ∨
    (t = .channelRemove ∧ (w.conns c).channel.events ≠ Channel.kNoneEvent ∧
      f = .assertion .channelRemove) ∨
    (t = .connectEstablished ∧ (w.conns c).state ≠ .kConnecting ∧
      f = .assertion .connectEstablished) := by
  have habsurd : ∀ {α : Type} {x : Except Fault α} {P : Prop}, Untraced x → x = .error f → P := by
    intro α x P hx he
    rw [hx f he] at hf
    cases hf
  have hloop : ∀ {x : Except Halt (World ι × List (Task ι))} {loop : ι},
      (if who = loop then x else .error (.fault (.assertion .inLoopThread))) = .error (.fault f) →
      who = loop ∧ x = .error (.fault f) := by
    intro x loop h
    split_ifs at h with hwho
    · exact ⟨hwho, h⟩
    · cases h
      cases hf
  cases t with
  | handleRead =>
    obtain ⟨hwho, h⟩ := hloop h
    split at h
    · rename_i hreadv
      cases h
      exact .inl ⟨rfl, hwho, hreadv, rfl⟩
    · dsimp only at h
      split_ifs at h
  | handleWrite => exact habsurd handleWrite_untraced (finish_fault (hloop h).2)
  | handleClose => exact habsurd handleClose_untraced (finish_fault (hloop h).2)
  | connectEstablished =>
    obtain ⟨rfl, hstate⟩ := connectEstablished_error (finish_fault (hloop h).2) hf
    exact .inr (.inr (.inr ⟨rfl, hstate, rfl⟩))
  | sendInLoop sender message => exact habsurd sendInLoop_untraced (finish_fault (hloop h).2)
  | notifyDown => exact habsurd notifyDown_untraced (finish_fault h)
  | channelRemove =>
    obtain ⟨rfl, hevents⟩ := channelRemove_error (finish_fault h) hf
    exact .inr (.inr (.inl ⟨rfl, hevents, rfl⟩))
  | removeConnectionInLoop =>
    obtain ⟨-, h⟩ := hloop h
    split_ifs at h with hregistered
    · split at h
      · cases h
      · rename_i e he
        cases h
        exact habsurd (removeLoopConnection_untraced _ _) he
    · cases h
      exact .inr (.inl ⟨rfl, by simpa using hregistered, rfl⟩)
  | connectDestroyed => cases (hloop h).2
  | shutdownInLoop => cases (hloop h).2
  | forceCloseInLoop => cases (hloop h).2
  | send message =>
    unfold performConn at h
    dsimp only at h
    split_ifs at h
  | _ => cases h

theorem newConnection_fault {sockfd : Nat} (h : newConnection who w sockfd = .error (.fault f)) :
    f.traced = false := by
  unfold newConnection at h
  split_ifs at h
  · split at h
    · rename_i e he
      cases h
      exact getNextLoopMinConnection_untraced _ _ he
    · dsimp only at h
      split_ifs at h
      · cases h
        rfl
  · cases h
  · cases h
    rfl

theorem perform_fault {t : Task ι} (h : perform who k w t = .error (.fault f)) (hf : f.traced = true) :
    (t = .acceptorRead ∧ k.accept = none ∧ f = .exception) ∨
    ∃ c t', t = .conn c t' ∧ w.alive c = true ∧ performConn who k w c t' = .error (.fault f) := by
  cases t with
  | conn c t =>
    unfold perform at h
    dsimp only at h
    split_ifs at h with halive
    · exact .inr ⟨c, t, rfl, halive, h⟩
    · cases h
      cases hf
  | acceptorRead =>
    unfold perform at h
    dsimp only at h
    split at h
    · rename_i haccept
      cases h
      exact .inl ⟨rfl, haccept, rfl⟩
    · rw [newConnection_fault h] at hf
      cases hf
  | timerRead loop =>
    unfold perform at h
    dsimp only at h
    split at h
    · cases h
    · rename_i e he
      cases h
      rw [fillExpired_untraced _ _ _ _ f he] at hf
      cases hf
  | cancelInloop loop id =>
    unfold perform at h
    dsimp only at h
    split at h
    · cases h
    · rename_i e he
      cases h
      rw [cancelInloop_untraced _ _ _ f he] at hf
      cases hf
  | runTimer cb => cases cb <;> cases h
  | _ => cases h

variable {σ : System ι}

theorem step_fault_perform [Fintype ι] {label : Label ι} (h : σ.step label = .error (.fault f))
    (hf : f.traced = true) :
    ∃ who k t rest, label = .run who k ∧ σ.todo who = t :: rest ∧
      perform who k σ.world t = .error (.fault f) := by
  cases label with
  | run who k =>
    unfold System.step at h
    dsimp only at h
    split at h
    · rename_i t rest htodo
      refine ⟨who, k, t, rest, rfl, htodo, ?_⟩
      cases t with
      | user => cases h
      | queueInLoop loop f => cases h
      | wakeup loop => cases h
      | quit loop => cases h
      | wakeupRead loop =>
        unfold System.runTask at h
        dsimp only at h
        split at h
        · cases h
        · rename_i e he
          cases h
          unfold EventLoop.handleRead at he
          split_ifs at he
          cases he
          cases hf
      | _ =>
        unfold System.runTask at h
        dsimp only at h
        split at h
        · cases h
        · rename_i e he
          cases h
          exact he
    · cases h
  | call who c =>
    unfold System.step at h
    dsimp only at h
    split_ifs at h
    cases h
  | ret who =>
    unfold System.step at h
    dsimp only at h
    split at h
    all_goals cases h
  | next loop =>
    unfold System.step at h
    dsimp only at h
    split at h
    · split_ifs at h
      cases h
    · cases h
  | poll loop active =>
    unfold System.step at h
    dsimp only at h
    split_ifs at h
    cases h
  | tick duration => cases h
  | expire loop =>
    unfold System.step at h
    dsimp only at h
    split at h
    · split_ifs at h
      cases h
    · cases h
  | destroy c =>
    unfold System.step at h
    dsimp only at h
    split_ifs at h
    cases h

/-- **The steps that fail with a traced fault.** -/
theorem step_fault [Fintype ι] {label : Label ι} (h : σ.step label = .error (.fault f))
    (hf : f.traced = true) :
    (∃ who k c rest, label = .run who k ∧ σ.todo who = .conn c .handleRead :: rest ∧
      σ.world.alive c = true ∧ who = (σ.world.conns c).loop ∧ k.readv = none ∧ f = .exception) ∨
    (∃ who k rest, label = .run who k ∧ σ.todo who = .acceptorRead :: rest ∧ k.accept = none ∧
      f = .exception) ∨
    (∃ c k, σ.performs label = some (c, .removeConnectionInLoop, k) ∧ σ.world.alive c = true ∧
      σ.world.server.connections c = false ∧ f = .assertion .removeConnectionInLoop) ∨
    (∃ c k, σ.performs label = some (c, .channelRemove, k) ∧ σ.world.alive c = true ∧
      (σ.world.conns c).channel.events ≠ Channel.kNoneEvent ∧ f = .assertion .channelRemove) ∨
    (∃ c k, σ.performs label = some (c, .connectEstablished, k) ∧ σ.world.alive c = true ∧
      (σ.world.conns c).state ≠ .kConnecting ∧ f = .assertion .connectEstablished) := by
  obtain ⟨who, k, t, rest, rfl, htodo, hperform⟩ := step_fault_perform h hf
  rcases perform_fault hperform hf with ⟨rfl, haccept, rfl⟩ | ⟨c, t, rfl, halive, hconn⟩
  · exact .inr (.inl ⟨who, k, rest, rfl, htodo, haccept, rfl⟩)
  have hperforms : σ.performs (.run who k) = some (c, t, k) := performs_of_todo htodo
  rcases performConn_fault hconn hf with ⟨rfl, hwho, hreadv, rfl⟩ | ⟨rfl, hgone, rfl⟩ |
    ⟨rfl, hevents, rfl⟩ | ⟨rfl, hstate, rfl⟩
  · exact .inl ⟨who, k, c, rest, rfl, htodo, halive, hwho, hreadv, rfl⟩
  · exact .inr (.inr (.inl ⟨c, k, hperforms, halive, hgone, rfl⟩))
  · exact .inr (.inr (.inr (.inl ⟨c, k, hperforms, halive, hevents, rfl⟩)))
  · exact .inr (.inr (.inr (.inr ⟨c, k, hperforms, halive, hstate, rfl⟩)))

end

end VServer

import VServer.Net.Lifecycle

/-!
# The connection callback

The user is called back when a connection is up, and again from `connectDestroyed`, but only if that
finds the connection `kConnected`: a connection that `shutdown`, `forceClose` or the idle timer have
made `kDisconnecting` is never reported down. Where `connectDestroyed` does find it `kConnected`, the
pair is complete, unless another thread sets `kDisconnecting` in the middle of it.
-/

namespace VServer

variable {ι : Type}

def ConnEvent.notifiedState : ConnEvent ι → Option StateE
  | .notified state => some state
  | _ => none

def World.notifications (w : World ι) (c : Nat) : List StateE :=
  (w.seen c).filterMap ConnEvent.notifiedState

theorem notifications_eq (w : World ι) (c : Nat) :
    w.notifications c = (w.life c).filterMap ConnEvent.notifiedState := by
  unfold World.notifications World.life
  rw [List.filterMap_filter]
  congr 1
  funext event
  cases event
  all_goals rfl

variable [DecidableEq ι] {who : ι} {k : Kernel} {base : ι} {c : Nat} {l l' : Link ι} {t : ConnTask ι}
  {events : List (ConnEvent ι)} {new : List (Task ι)}

theorem ConnStep.sum_notifyDown (h : ConnStep who k base c l t l' events new) :
    (new.map (Task.weight c (ConnTask.one .notifyDown))).sum = ConnTask.one .setDisconnected t := by
  have hdispatch : t.isDispatch = true → (new.map (Task.weight c (ConnTask.one .notifyDown))).sum = 0 :=
    fun ht => h.sum_dispatch ht ⟨rfl, rfl, rfl, rfl, rfl, fun _ => rfl⟩
  cases h
  all_goals first
    | exact hdispatch rfl
    | simp [ConnTask.one]

/-- Only the callback leads to the removal of the channel, if `connectDestroyed` finds the connection
`kConnected`. -/
theorem ConnStep.sum_channelRemove (h : ConnStep who k base c l t l' events new)
    (hup : t = .connectDestroyed → l.conn.state = .kConnected) :
    (new.map (Task.weight c (ConnTask.one .channelRemove))).sum = ConnTask.one .notifyDown t := by
  have hdispatch : t.isDispatch = true → (new.map (Task.weight c (ConnTask.one .channelRemove))).sum = 0 :=
    fun ht => h.sum_dispatch ht ⟨rfl, rfl, rfl, rfl, rfl, fun _ => rfl⟩
  cases h
  all_goals first
    | exact hdispatch rfl
    | exact absurd (hup rfl) ‹_›
    | simp [ConnTask.one]

theorem ConnStep.sum_setDisconnecting (h : ConnStep who k base c l t l' events new) :
    (new.map (Task.weight c (ConnTask.one .setDisconnecting))).sum = 0 ∨ l.conn.state ≠ .kConnecting := by
  have hdispatch : t.isDispatch = true → (new.map (Task.weight c (ConnTask.one .setDisconnecting))).sum = 0 :=
    fun ht => h.sum_dispatch ht ⟨rfl, rfl, rfl, rfl, rfl, fun _ => rfl⟩
  have hopen : l.conn.isOpen = true → l.conn.state ≠ .kConnecting := by
    intro h hconnecting
    simp [TcpConnection.isOpen, hconnecting] at h
  cases h with
  | shutdown connected => exact .inr (by simp [connected])
  | forceClose isOpen => exact .inr (hopen isOpen)
  | forceCloseAfter isOpen => exact .inr (hopen isOpen)
  | _ =>
    first
    | exact .inl (hdispatch rfl)
    | exact .inl (by simp [ConnTask.one])

/-- `connectDestroyed` finds a connection that is `kConnected`, and nobody sets `kDisconnecting` while
it goes on from there. -/
def DownConnected [Fintype ι] (σ : System ι) (label : Label ι) : Prop :=
  match σ.performs label with
  | some (c, .connectDestroyed, _) => (σ.world.conns c).state = .kConnected
  | some (c, .setDisconnecting, _) =>
    σ.pending c .notifyDown = 0 ∧ σ.pending c .channelRemove = 0
  | _ => True

instance [Fintype ι] (σ : System ι) (label : Label ι) : Decidable (DownConnected σ label) := by
  unfold DownConnected
  rcases σ.performs label with _ | ⟨c, ⟨⟩, k⟩
  all_goals infer_instance

/-- Which callbacks connection `c` has had, by what `connectDestroyed` has still to do. -/
structure NotifyInv [Fintype ι] (c : Nat) (σ : System ι) : Prop where
  unborn : σ.world.server.connId ≤ c → σ.pending c .setDisconnecting = 0
  disconnecting : 0 < σ.pending c .setDisconnecting → (σ.world.conns c).state ≠ .kConnecting
  up : (σ.world.conns c).state ≠ .kConnecting →
    σ.pending c .channelRemove + (σ.world.life c).countP ConnEvent.isDestroyed = 0 →
    (σ.world.life c).filterMap ConnEvent.notifiedState = [.kConnected]
  down : 0 < σ.pending c .channelRemove + (σ.world.life c).countP ConnEvent.isDestroyed →
    (σ.world.life c).filterMap ConnEvent.notifiedState = [.kConnected, .kDisconnected]
  disconnected : 0 < σ.pending c .notifyDown + σ.pending c .channelRemove →
    (σ.world.conns c).state = .kDisconnected
  final : ∀ state, .destroyed state ∈ σ.world.life c → state = .kDisconnected

section

variable [Fintype ι] {σ σ' : System ι}

theorem LifeInv.parts (h : LifeInv c σ) :
    σ.pending c .setDisconnected + σ.pending c .notifyDown + σ.pending c .channelRemove +
      (σ.world.life c).countP ConnEvent.isDestroyed ≤ (σ.world.life c).count .removed := by
  have hle : σ.total c (fun t => ConnTask.one .setDisconnected t + ConnTask.one .notifyDown t +
      ConnTask.one .channelRemove t) ≤ σ.total c ConnTask.downs := by
    apply total_le_total
    intro t
    cases t
    all_goals simp [ConnTask.one, ConnTask.downs]
  rw [total_add (fun t => ConnTask.one .setDisconnected t + ConnTask.one .notifyDown t), total_add] at hle
  have hdowns := h.downs
  unfold System.pending
  omega

theorem start_notifyInv (baseLoop : ι) (ioLoops : List ι) (delay clock : Nat) (count : UInt64) :
    NotifyInv c (System.start baseLoop ioLoops delay clock count) := by
  have hpending : ∀ x, (System.start baseLoop ioLoops delay clock count).pending c x = 0 :=
    fun x => start_total baseLoop ioLoops delay clock count c (ConnTask.one x)
  refine ⟨fun _ => hpending _, fun h => ?_, fun h => absurd rfl h, fun h => ?_, fun h => ?_,
    fun _ h => by cases h⟩
  all_goals
    simp only [hpending] at h
    cases h

theorem NotifyInv.frame (hinv : NotifyInv c σ)
    (hunborn : σ'.world.server.connId ≤ c → σ'.pending c .setDisconnecting = 0)
    (hdisconnecting : 0 < σ'.pending c .setDisconnecting → (σ'.world.conns c).state ≠ .kConnecting)
    (hstate : (σ'.world.conns c).state = (σ.world.conns c).state)
    (hcallback : σ'.pending c .notifyDown = σ.pending c .notifyDown)
    (hremoval : σ'.pending c .channelRemove = σ.pending c .channelRemove)
    (hcalls : (σ'.world.life c).filterMap ConnEvent.notifiedState =
      (σ.world.life c).filterMap ConnEvent.notifiedState)
    (hcount : (σ'.world.life c).countP ConnEvent.isDestroyed =
      (σ.world.life c).countP ConnEvent.isDestroyed)
    (hfinal : ∀ state, .destroyed state ∈ σ'.world.life c → .destroyed state ∈ σ.world.life c) :
    NotifyInv c σ' where
  unborn := hunborn
  disconnecting := hdisconnecting
  up := by
    rw [hstate, hremoval, hcount, hcalls]
    exact hinv.up
  down := by
    rw [hremoval, hcount, hcalls]
    exact hinv.down
  disconnected := by
    rw [hcallback, hremoval, hstate]
    exact hinv.disconnected
  final state hmem := hinv.final state (hfinal state hmem)

theorem step_notifyInv {label : Label ι} (hlife : LifeInv c σ) (hinv : NotifyInv c σ)
    (hdown : DownConnected σ label) (hstep : σ.step label = .ok σ') : NotifyInv c σ' := by
  have hparts := hlife.parts
  have honce := hlife.once
  -- what was seen of a connection that is `kConnecting`
  have hfresh : (σ.world.conns c).state = .kConnecting → (σ.world.life c).count .removed = 0 := by
    intro h
    rw [hlife.connecting h]
    rfl
  cases (step_move hstep).of_conn c with
  | @own who k t rest new events run todo alive step alive' connId seen total =>
    have hafter : σ'.world.life c = σ.world.life c ++ events.filter ConnEvent.isLife :=
      World.life_append seen
    have hperforms : σ.performs label = some (c, t, k) := performs_of_run run todo
    rw [DownConnected, hperforms] at hdown
    have hremoval : σ'.pending c .channelRemove + ConnTask.one .channelRemove t =
        σ.pending c .channelRemove + ConnTask.one .notifyDown t := by
      rw [← step.sum_channelRemove (by rintro rfl; exact hdown)]
      exact total _
    have hcallback : σ'.pending c .notifyDown + ConnTask.one .notifyDown t =
        σ.pending c .notifyDown + ConnTask.one .setDisconnected t := by
      rw [← step.sum_notifyDown]
      exact total _
    have hpending : ∀ x, ConnTask.one x t ≤ σ.pending c x := one_le_pending hperforms
    have hborn : σ'.world.server.connId ≤ c → σ'.pending c .setDisconnecting = 0 := by
      intro h
      have hlt := hlife.born alive
      omega
    have hlifeStep := step.life
    have hsetting : 0 < σ'.pending c .setDisconnecting → (σ'.world.conns c).state ≠ .kConnecting := by
      intro hpos hconnecting
      have hbefore := (hlifeStep.connecting hconnecting).1
      have hflow := total (ConnTask.one .setDisconnecting)
      rcases step.sum_setDisconnecting with hzero | hnot
      · refine hinv.disconnecting ?_ hbefore
        unfold System.pending at hpos ⊢
        omega
      · exact hnot hbefore
    generalize events.filter ConnEvent.isLife = life at hafter hlifeStep
    have hcount : (σ'.world.life c).countP ConnEvent.isDestroyed =
        (σ.world.life c).countP ConnEvent.isDestroyed + life.countP ConnEvent.isDestroyed := by
      rw [hafter, List.countP_append]
    have hcalls : (σ'.world.life c).filterMap ConnEvent.notifiedState =
        (σ.world.life c).filterMap ConnEvent.notifiedState ++
          life.filterMap ConnEvent.notifiedState := by
      rw [hafter, List.filterMap_append]
    have hfinal' : (∀ state, .destroyed state ∈ life → state = .kDisconnected) →
        ∀ state, .destroyed state ∈ σ'.world.life c → state = .kDisconnected := by
      intro h state hmem
      rw [hafter, List.mem_append] at hmem
      exact hmem.elim (hinv.final state) (h state)
    -- a task that is no part of `connectDestroyed` and keeps the state
    have hkeep : life.filterMap ConnEvent.notifiedState = [] → life.countP ConnEvent.isDestroyed = 0 →
        (σ'.world.conns c).state = (σ.world.conns c).state →
        t ≠ .setDisconnected ∧ t ≠ .notifyDown ∧ t ≠ .channelRemove → NotifyInv c σ' := by
      intro hsilent hundestroyed hstate ht
      rw [one_of_ne ht.2.1, one_of_ne ht.2.2] at hremoval
      rw [one_of_ne ht.1, one_of_ne ht.2.1] at hcallback
      rw [hsilent, List.append_nil] at hcalls
      rw [hundestroyed] at hcount
      refine hinv.frame hborn hsetting hstate hcallback hremoval hcalls hcount fun state hmem => ?_
      rw [hafter, List.mem_append] at hmem
      exact hmem.resolve_right fun hnew => List.countP_eq_zero.mp hundestroyed _ hnew rfl
    cases hlifeStep with
    | closed isOpen state unwatched registered => exact hkeep rfl rfl state (by simp)
    | removed registered conn gone => exact hkeep rfl rfl (congrArg TcpConnection.state conn) (by simp)
    | other ht state watched registered =>
      refine hkeep rfl rfl state ⟨?_, ?_, ?_⟩
      all_goals
        rintro rfl
        cases ht
    | established connecting state registered =>
      have hzero := hfresh connecting
      rw [one_of_ne (by simp), one_of_ne (by simp)] at hremoval hcallback
      have hnone : ([.notified .kConnected] : List (ConnEvent ι)).countP ConnEvent.isDestroyed = 0 := rfl
      refine ⟨hborn, hsetting, fun _ _ => ?_, fun hpos => ?_, fun hpos => ?_, hfinal' (by simp)⟩
      · rw [hcalls, hlife.connecting connecting]
        rfl
      · omega
      · omega
    | disconnected state channel registered =>
      have hthis := hpending .setDisconnected
      have hnot : (σ.world.conns c).state ≠ .kConnecting := by
        intro h
        have hzero := hfresh h
        rw [one_self] at hthis
        omega
      rw [one_of_ne (by simp), one_of_ne (by simp)] at hremoval
      rw [one_self] at hthis
      rw [List.filterMap_nil, List.append_nil] at hcalls
      rw [List.countP_nil] at hcount
      refine ⟨hborn, hsetting, fun _ _ => ?_, fun hpos => ?_, fun _ => state, hfinal' (by simp)⟩
      · rw [hcalls]
        exact hinv.up hnot (by omega)
      · omega
    | disconnecting state channel registered =>
      -- nobody is inside `connectDestroyed`
      obtain ⟨hnotify, hremove⟩ : σ.pending c .notifyDown = 0 ∧ σ.pending c .channelRemove = 0 := hdown
      have hthis := hpending .setDisconnecting
      rw [one_of_ne (by simp), one_of_ne (by simp)] at hremoval hcallback
      rw [one_self] at hthis
      rw [List.filterMap_nil, List.append_nil] at hcalls
      rw [List.countP_nil] at hcount
      refine ⟨hborn, hsetting, fun _ hzero => ?_, fun hpos => ?_, fun hpos => ?_, hfinal' (by simp)⟩
      · rw [hcalls]
        exact hinv.up (hinv.disconnecting (by omega)) (by omega)
      · rw [hcalls]
        exact hinv.down (by omega)
      · omega
    | notified state unwatched registered =>
      have hthis := hpending .notifyDown
      rw [one_self] at hthis
      have hstate : (σ.world.conns c).state = .kDisconnected := hinv.disconnected (by omega)
      rw [one_of_ne (by simp), one_self] at hremoval
      have hbefore := hinv.up (by rw [hstate]; simp) (by omega)
      refine ⟨hborn, hsetting, fun _ hzero => ?_, fun _ => ?_, fun _ => ?_, hfinal' (by simp)⟩
      · omega
      · rw [hcalls, hbefore]
        show [StateE.kConnected, (σ.world.conns c).state] = _
        rw [hstate]
      · exact state.trans hstate
    | destroyed state watched registered =>
      have hthis := hpending .channelRemove
      rw [one_self] at hthis
      have hstate : (σ.world.conns c).state = .kDisconnected := hinv.disconnected (by omega)
      have hbefore := hinv.down (by omega)
      have hone : ([.destroyed (σ.world.link c).conn.state] : List (ConnEvent ι)).countP
          ConnEvent.isDestroyed = 1 := rfl
      refine ⟨hborn, hsetting, fun _ hzero => ?_, fun _ => ?_, fun _ => ?_, hfinal' ?_⟩
      · omega
      · rw [hcalls, hbefore]
        rfl
      · exact state.trans hstate
      · intro s hmem
        cases List.mem_singleton.mp hmem
        exact hstate
  | @born loop fresh connId conn registered seen total =>
    have hnil := hlife.unborn (by omega)
    have hafter : σ'.world.life c = [] := (World.life_eq seen).trans hnil
    obtain ⟨sockfd, delay, hconn⟩ := conn
    have hstate : (σ'.world.conns c).state = .kConnecting := by
      rw [hconn]
      rfl
    have hpending : ∀ x : ConnTask ι, x ≠ .connectEstablished → σ'.pending c x = σ.pending c x := by
      intro x hx
      unfold System.pending
      rw [total, one_of_ne hx.symm, Nat.add_zero]
    rw [hnil] at hparts
    simp only [List.count_nil, List.countP_nil] at hparts
    refine ⟨fun h => by omega, fun hpos => ?_, fun h => absurd hstate h, fun hpos => ?_, fun hpos => ?_,
      fun s hmem => ?_⟩
    · rw [hpending _ (by simp), hinv.unborn (by omega)] at hpos
      omega
    · rw [hpending _ (by simp), hafter, List.countP_nil] at hpos
      omega
    · rw [hpending _ (by simp), hpending _ (by simp)] at hpos
      omega
    · rw [hafter] at hmem
      cases hmem
  | idle conn registered alive connId seen total =>
    obtain ⟨incoming, hincoming, -, htotal⟩ := total
    have hafter : σ'.world.life c = σ.world.life c := World.life_eq seen
    have hpending : ∀ x : ConnTask ι, x.isIncoming = false → σ'.pending c x = σ.pending c x :=
      fun x hx => pending_incoming htotal hincoming hx
    refine hinv.frame (fun h => ?_) ?_ (by rw [conn]) (hpending _ rfl) (hpending _ rfl) (by rw [hafter])
      (by rw [hafter]) fun state hmem => hafter ▸ hmem
    · rw [hpending _ rfl]
      refine hinv.unborn ?_
      by_contra hlt
      have hborn := connId.mpr (by omega)
      omega
    · rw [hpending _ rfl, conn]
      exact hinv.disconnecting

/-- `connectDestroyed` has reported the connection down: the callback was called twice, and the
connection was `kDisconnected` in the second call and when `connectDestroyed` returned. -/
def NotifiedInPair (w : World ι) (c : Nat) : Prop :=
  ∀ state, .destroyed state ∈ w.seen c →
    w.notifications c = [.kConnected, .kDisconnected] ∧ state = .kDisconnected

/-- **Up and down notifications pair up** in every run in which `connectDestroyed` finds connections
`kConnected`. -/
theorem notified_in_pair {baseLoop : ι} {ioLoops : List ι} {delay clock : Nat} {count : UInt64}
    {labels : List (Label ι)} {σ : System ι}
    (halong : Machine.Along System.step DownConnected
      (System.start baseLoop ioLoops delay clock count) labels)
    (hrun : Machine.run System.step (System.start baseLoop ioLoops delay clock count) labels = .ok σ)
    (c : Nat) : NotifiedInPair σ.world c := by
  have hinv : NotifyInv c σ :=
    (Machine.run_inv (I := fun σ => LifeInv c σ ∧ NotifyInv c σ)
      (fun _ _ _ hinv hdown hstep =>
        ⟨step_lifeInv hinv.1 hstep, step_notifyInv hinv.1 hinv.2 hdown hstep⟩)
      ⟨start_lifeInv baseLoop ioLoops delay clock count,
        start_notifyInv baseLoop ioLoops delay clock count⟩ halong hrun).2
  intro state hmem
  have hlife : .destroyed state ∈ σ.world.life c := List.mem_filter.mpr ⟨hmem, rfl⟩
  refine ⟨?_, hinv.final state hlife⟩
  rw [notifications_eq]
  apply hinv.down
  have hpos : 0 < (σ.world.life c).countP ConnEvent.isDestroyed :=
    List.countP_pos_iff.mpr ⟨_, hlife, rfl⟩
  omega

end

theorem notified_in_pair_hangup :
    ∃ σ, Machine.run System.step (System.start (0 : Fin 1) [] 0 0 0) hangupRun = .ok σ ∧
      σ.world.notifications 0 = [.kConnected, .kDisconnected] ∧ NotifiedInPair σ.world 0 := by
  obtain ⟨σ, hrun, hcalls⟩ := eq_ok_of_toOption (b := [.kConnected, .kDisconnected])
    (f := fun σ : System (Fin 1) => σ.world.notifications 0)
    (x := Machine.run System.step (System.start 0 [] 0 0 0) hangupRun) (by decide +kernel)
  exact ⟨σ, hrun, hcalls, notified_in_pair (Machine.along_of_check (by decide +kernel)) hrun 0⟩

/-- The user shuts the connection down in the connection callback, and the peer hangs up. -/
def shutdownRun : List (Label (Fin 1)) :=
  acceptRun ++ [Label.call 0 (.shutdown 0)] ++ Label.runs 0 3 ++ [Label.ret 0] ++ Label.runs 0 1 ++
    [Label.next 0, .next 0, .poll 0 [.conn 0 Epoll.epollHup], .next 0] ++ Label.runs 0 6 ++
    [Label.next 0, .next 0, .next 0] ++ Label.runs 0 2

/-- `connectDestroyed` finds the connection `kDisconnecting` and does not report it down. -/
theorem shutdown_not_notified :
    ¬ ∀ (labels : List (Label (Fin 1))) (σ : System (Fin 1)),
      Machine.run System.step (System.start 0 [] 0 0 0) labels = .ok σ →
      ∀ c, NotifiedInPair σ.world c := by
  intro h
  obtain ⟨σ, hrun, hseen⟩ := eq_ok_of_toOption (b := (true, [.kConnected]))
    (f := fun σ : System (Fin 1) =>
      (decide (.destroyed .kDisconnecting ∈ σ.world.seen 0), σ.world.notifications 0))
    (x := Machine.run System.step (System.start 0 [] 0 0 0) shutdownRun) (by decide +kernel)
  rw [Prod.mk.injEq, decide_eq_true_eq] at hseen
  have hpair := (h shutdownRun σ hrun 0 _ hseen.1).1
  rw [hseen.2] at hpair
  cases hpair

end VServer

import VServer.Net.Moves

/-!
# The life of a connection

What happens once in the life of a connection: it is established, closed, removed from the map of the
server, reported down and destroyed. `LifeStep` is what a task has to do with that, and `LifeInv` what
holds in every run, whatever the user and the peers do: what is closed is removed or on its way there
(`removes`), what is removed is destroyed or on its way there (`downs`), and the server removes a
connection once.
-/

namespace VServer

variable {ι : Type}

def ConnEvent.isLife : ConnEvent ι → Bool
  | .notified _ | .closed | .removed | .destroyed _ => true
  | _ => false

def ConnEvent.isDestroyed : ConnEvent ι → Bool
  | .destroyed _ => true
  | _ => false

/-- What was seen of the life of connection `c`. -/
def World.life (w : World ι) (c : Nat) : List (ConnEvent ι) := (w.seen c).filter ConnEvent.isLife

theorem World.life_append {w w' : World ι} {c : Nat} {events : List (ConnEvent ι)}
    (h : w'.seen c = w.seen c ++ events) : w'.life c = w.life c ++ events.filter ConnEvent.isLife := by
  rw [World.life, h, List.filter_append]
  rfl

theorem World.life_eq {w w' : World ι} {c : Nat} (h : w'.seen c = w.seen c) : w'.life c = w.life c := by
  rw [World.life, h]
  rfl

def ConnTask.isLife : ConnTask ι → Bool
  | .connectEstablished | .handleClose | .removeConnectionInLoop | .setDisconnected
  | .setDisconnecting | .notifyDown | .channelRemove => true
  | _ => false

/-- What a task has to do with the life of its connection, and the events of it. -/
inductive LifeStep (l l' : Link ι) : ConnTask ι → List (ConnEvent ι) → Prop
  | established (connecting : l.conn.state = .kConnecting) (state : l'.conn.state = .kConnected)
      (registered : l'.registered = l.registered) :
    LifeStep l l' .connectEstablished [.notified .kConnected]
  | closed (isOpen : l.conn.isOpen = true) (state : l'.conn.state = l.conn.state)
      (unwatched : l'.conn.channel.isReadable = false) (registered : l'.registered = l.registered) :
    LifeStep l l' .handleClose [.closed]
  | removed (registered : l.registered = true) (conn : l'.conn = l.conn)
      (gone : l'.registered = false) : LifeStep l l' .removeConnectionInLoop [.removed]
  | disconnected (state : l'.conn.state = .kDisconnected) (channel : l'.conn.channel = l.conn.channel)
      (registered : l'.registered = l.registered) : LifeStep l l' .setDisconnected []
  | disconnecting (state : l'.conn.state = .kDisconnecting)
      (channel : l'.conn.channel = l.conn.channel) (registered : l'.registered = l.registered) :
    LifeStep l l' .setDisconnecting []
  | notified (state : l'.conn.state = l.conn.state) (unwatched : l'.conn.channel.isReadable = false)
      (registered : l'.registered = l.registered) :
    LifeStep l l' .notifyDown [.notified l.conn.state]
  | destroyed (state : l'.conn.state = l.conn.state)
      (watched : l'.conn.channel.isReadable = l.conn.channel.isReadable)
      (registered : l'.registered = l.registered) :
    LifeStep l l' .channelRemove [.destroyed l.conn.state]
  | other {t : ConnTask ι} (ht : t.isLife = false) (state : l'.conn.state = l.conn.state)
      (watched : l'.conn.channel.isReadable = l.conn.channel.isReadable)
      (registered : l'.registered = l.registered) : LifeStep l l' t []

variable [DecidableEq ι] {who : ι} {k : Kernel} {base : ι} {c : Nat} {l l' : Link ι} {t : ConnTask ι}
  {events : List (ConnEvent ι)} {new : List (Task ι)}

theorem LifeStep.registered {life : List (ConnEvent ι)} (h : LifeStep l l' t life) :
    (life.count .removed = 0 ∧ l'.registered = l.registered) ∨
      (life.count .removed = 1 ∧ l.registered = true ∧ l'.registered = false) := by
  cases h with
  | removed registered conn gone => exact .inr ⟨by simp, registered, gone⟩
  | established connecting state registered => exact .inl ⟨by simp, registered⟩
  | closed isOpen state unwatched registered => exact .inl ⟨by simp, registered⟩
  | disconnected state channel registered => exact .inl ⟨rfl, registered⟩
  | disconnecting state channel registered => exact .inl ⟨rfl, registered⟩
  | notified state unwatched registered => exact .inl ⟨by simp, registered⟩
  | destroyed state watched registered => exact .inl ⟨by simp, registered⟩
  | other ht state watched registered => exact .inl ⟨rfl, registered⟩

omit [DecidableEq ι] in
theorem LifeStep.connecting {life : List (ConnEvent ι)} (h : LifeStep l l' t life)
    (hconnecting : l'.conn.state = .kConnecting) :
    l.conn.state = .kConnecting ∧ (life = [] ∨ t = .removeConnectionInLoop ∨ t = .notifyDown ∨
      t = .channelRemove) := by
  cases h with
  | removed registered conn gone => exact ⟨by rw [← conn, hconnecting], by simp⟩
  | established connecting state registered =>
    rw [hconnecting] at state
    cases state
  | closed isOpen state unwatched registered =>
    rw [hconnecting] at state
    simp [TcpConnection.isOpen, ← state] at isOpen
  | disconnected state channel registered =>
    rw [hconnecting] at state
    cases state
  | disconnecting state channel registered =>
    rw [hconnecting] at state
    cases state
  | notified state unwatched registered => exact ⟨by rw [← state, hconnecting], by simp⟩
  | destroyed state watched registered => exact ⟨by rw [← state, hconnecting], by simp⟩
  | other ht state watched registered => exact ⟨by rw [← state, hconnecting], .inl rfl⟩

theorem ConnStep.life (h : ConnStep who k base c l t l' events new) :
    LifeStep l l' t (events.filter ConnEvent.isLife) := by
  cases h with
  | handleClose loop isOpen result =>
    exact .closed isOpen rfl (Channel.disableAll_isReadable result) rfl
  | removeConnectionInLoop loop registered => exact .removed registered rfl rfl
  | connectEstablished loop connecting result => exact .established connecting rfl rfl
  | notifyDown result => exact .notified rfl (Channel.disableAll_isReadable result) rfl
  | channelRemove result => exact .destroyed rfl (Channel.remove_isReadable result) rfl
  | setDisconnected => exact .disconnected rfl rfl rfl
  | setDisconnecting => exact .disconnecting rfl rfl rfl
  | @handleWrite r loop result =>
    obtain ⟨out, wrote, shut, hinterest, hconn, hevents, hshut, hwrote⟩ :=
      TcpConnection.handleWrite_spec result
    have hlife : r.2.2.filter ConnEvent.isLife = [] := by
      rw [hevents]
      rcases hshut with rfl | rfl
      all_goals
        rcases hwrote with ⟨rfl, -⟩ | ⟨n, rfl, -⟩
        all_goals rfl
    rw [hlife]
    exact .other rfl (by rw [hconn]) hinterest.isReadable rfl
  | @sendInLoop sender message r loop result =>
    obtain ⟨out, wrote, hinterest, -, hconn, hevents, hwrote⟩ := TcpConnection.sendInLoop_spec result
    have hlife : r.2.2.filter ConnEvent.isLife = [] := by
      rw [hevents]
      rcases hwrote with ⟨rfl, -⟩ | ⟨n, rfl, -⟩
      all_goals rfl
    rw [hlife]
    exact .other rfl (by rw [hconn]) hinterest.isReadable rfl
  | shutdownInLoop loop =>
    have hlife : l.conn.shutdownInLoop.filter ConnEvent.isLife = [] := by
      unfold TcpConnection.shutdownInLoop
      split_ifs
      all_goals rfl
    rw [hlife]
    exact .other rfl rfl rfl rfl
  | _ => exact .other rfl rfl rfl rfl

/-! ## Tokens -/

/-- The tasks on the way from the close callback to the map of the server. -/
def ConnTask.removes : ConnTask ι → Nat
  | .removeConnection | .removeConnectionInLoop => 1
  | _ => 0

/-- The tasks on the way from the map of the server to the end of `connectDestroyed`. -/
def ConnTask.downs : ConnTask ι → Nat
  | .connectDestroyed | .setDisconnected | .notifyDown | .channelRemove => 1
  | _ => 0

omit [DecidableEq ι] in
theorem downs_le_one (t : ConnTask ι) : t.downs ≤ 1 := by
  cases t
  all_goals simp [ConnTask.downs]

theorem ConnStep.sum_removes (h : ConnStep who k base c l t l' events new) :
    (new.map (Task.weight c ConnTask.removes)).sum + (events.filter ConnEvent.isLife).count .removed =
      t.removes + (events.filter ConnEvent.isLife).count .closed := by
  have hlife := h.life
  have hdispatch : t.isDispatch = true → (new.map (Task.weight c ConnTask.removes)).sum = 0 :=
    fun ht => h.sum_dispatch ht ⟨rfl, rfl, rfl, rfl, rfl, fun _ => rfl⟩
  generalize events.filter ConnEvent.isLife = life at hlife ⊢
  cases h
  all_goals
    cases hlife
    all_goals first
      | contradiction
      | (rw [hdispatch rfl]; rfl)
      | simp [ConnTask.removes]

theorem ConnStep.sum_downs (h : ConnStep who k base c l t l' events new) :
    (new.map (Task.weight c ConnTask.downs)).sum +
        (events.filter ConnEvent.isLife).countP ConnEvent.isDestroyed =
      t.downs + (events.filter ConnEvent.isLife).count .removed := by
  have hlife := h.life
  have hdispatch : t.isDispatch = true → (new.map (Task.weight c ConnTask.downs)).sum = 0 :=
    fun ht => h.sum_dispatch ht ⟨rfl, rfl, rfl, rfl, rfl, fun _ => rfl⟩
  generalize events.filter ConnEvent.isLife = life at hlife ⊢
  cases h
  all_goals
    cases hlife
    all_goals first
      | contradiction
      | (rw [hdispatch rfl]; rfl)
      | simp [ConnTask.downs, ConnEvent.isDestroyed]

/-! ## The invariant -/

/-- Where connection `c` stands, in every run. -/
structure LifeInv [Fintype ι] (c : Nat) (σ : System ι) : Prop where
  born : σ.world.alive c = true → c < σ.world.server.connId
  unborn : σ.world.server.connId ≤ c → σ.world.life c = []
  connecting : (σ.world.conns c).state = .kConnecting → σ.world.life c = []
  /-- What is closed is removed, or on its way there. -/
  removes : (σ.world.life c).count .closed = (σ.world.life c).count .removed + σ.total c ConnTask.removes
  /-- What is removed is destroyed, or on its way there. -/
  downs : (σ.world.life c).count .removed =
    (σ.world.life c).countP ConnEvent.isDestroyed + σ.total c ConnTask.downs
  registered : c < σ.world.server.connId →
    (σ.world.server.connections c = true ↔ (σ.world.life c).count .removed = 0)
  once : (σ.world.life c).count .removed ≤ 1

section

variable [Fintype ι] {σ σ' : System ι}

theorem start_total (baseLoop : ι) (ioLoops : List ι) (delay clock : Nat) (count : UInt64) (c : Nat)
    (μ : ConnTask ι → Nat) : (System.start baseLoop ioLoops delay clock count).total c μ = 0 :=
  Tokens.total_eq_zero fun i t ht => by cases ht

theorem start_lifeInv (baseLoop : ι) (ioLoops : List ι) (delay clock : Nat) (count : UInt64) :
    LifeInv c (System.start baseLoop ioLoops delay clock count) where
  born h := by cases h
  unborn _ := rfl
  connecting _ := rfl
  removes := by
    rw [start_total]
    rfl
  downs := by
    rw [start_total]
    rfl
  registered h := by cases h
  once := Nat.zero_le _

omit [DecidableEq ι] [Fintype ι] in
theorem sum_incoming {μ : ConnTask ι → Nat} {incoming : List (ConnTask ι)}
    (hincoming : ∀ t ∈ incoming, t.isIncoming = true) (hμ : ∀ t, t.isIncoming = true → μ t = 0) :
    (incoming.map μ).sum = 0 := by
  apply List.sum_eq_zero
  intro n hn
  obtain ⟨t, ht, rfl⟩ := List.mem_map.mp hn
  exact hμ t (hincoming t ht)

omit [DecidableEq ι] in
theorem pending_incoming [DecidableEq ι] {incoming : List (ConnTask ι)}
    (htotal : ∀ μ, σ'.total c μ = σ.total c μ + (incoming.map μ).sum)
    (hincoming : ∀ t ∈ incoming, t.isIncoming = true) {x : ConnTask ι} (hx : x.isIncoming = false) :
    σ'.pending c x = σ.pending c x := by
  unfold System.pending
  rw [htotal, sum_incoming hincoming, Nat.add_zero]
  intro t ht
  apply one_of_ne
  rintro rfl
  rw [hx] at ht
  cases ht

theorem step_lifeInv {label : Label ι} (hinv : LifeInv c σ) (hstep : σ.step label = .ok σ') :
    LifeInv c σ' := by
  obtain ⟨hborn, hunborn, hconnecting, hremoves, hdowns, hregistered, honce⟩ := hinv
  cases (step_move hstep).of_conn c with
  | @own who k t rest new events run todo alive step alive' connId seen total =>
    have hlt := hborn alive
    have hlife : σ'.world.life c = σ.world.life c ++ events.filter ConnEvent.isLife :=
      World.life_append seen
    have htotal := total ConnTask.removes
    have htotal' := total ConnTask.downs
    have hsum := step.sum_removes
    have hsum' := step.sum_downs
    have hmem : t.removes ≤ σ.total c ConnTask.removes :=
      le_total_of_performs ConnTask.removes (performs_of_todo (k := k) todo)
    have hmem' : t.downs ≤ σ.total c ConnTask.downs :=
      le_total_of_performs ConnTask.downs (performs_of_todo (k := k) todo)
    have hstep := step.life
    generalize events.filter ConnEvent.isLife = life at hlife hsum hsum' hstep
    rw [← connId] at hlt hunborn hregistered
    have hstate : (σ'.world.conns c).state = .kConnecting → σ'.world.life c = [] := by
      intro h
      obtain ⟨hbefore, hquiet⟩ := hstep.connecting h
      have hnil := hconnecting hbefore
      rw [hnil] at hremoves hdowns
      simp only [List.count_nil, List.countP_nil] at hremoves hdowns
      rcases hquiet with rfl | rfl | rfl | rfl
      · rw [hlife, hnil, List.append_nil]
      all_goals
        simp only [ConnTask.removes, ConnTask.downs] at hmem hmem'
        omega
    refine ⟨fun _ => hlt, fun h => by omega, hstate, ?_, ?_, fun _ => ?_, ?_⟩
    · rw [hlife, List.count_append, List.count_append]
      omega
    · rw [hlife, List.count_append, List.countP_append]
      omega
    · rw [hlife, List.count_append]
      have hiff := hregistered hlt
      rcases hstep.registered with ⟨hnone, hreg⟩ | ⟨hone, hbefore, hgone⟩
      · rw [hnone, Nat.add_zero, ← hiff]
        exact Eq.to_iff (congrArg (· = true) hreg)
      · have hgone : σ'.world.server.connections c = false := hgone
        rw [hgone]
        simp only [Bool.false_eq_true, false_iff]
        omega
    · rw [hlife, List.count_append]
      rcases hstep.registered with ⟨hnone, -⟩ | ⟨hone, hbefore, -⟩
      · omega
      · have hfirst := (hregistered hlt).mp hbefore
        omega
  | @born loop fresh connId conn registered seen total =>
    have hzero := hunborn (by omega)
    have hlife : σ'.world.life c = [] := (World.life_eq seen).trans hzero
    rw [hzero] at hremoves hdowns
    refine ⟨fun _ => by omega, fun _ => hlife, fun _ => hlife, ?_, ?_, fun _ => ?_, ?_⟩
    · rw [hlife, total]
      exact hremoves
    · rw [hlife, total]
      exact hdowns
    · rw [registered, hlife]
      simp
    · rw [hlife]
      exact Nat.zero_le _
  | idle conn registered alive connId seen total =>
    obtain ⟨incoming, hincoming, -, htotal⟩ := total
    have hlife : σ'.world.life c = σ.world.life c := World.life_eq seen
    have hzero : (incoming.map ConnTask.removes).sum = 0 ∧ (incoming.map ConnTask.downs).sum = 0 := by
      constructor
      all_goals
        apply sum_incoming hincoming
        intro t ht
        cases t
        all_goals first
          | rfl
          | cases ht
    rw [← hlife] at hunborn hconnecting hremoves hdowns hregistered honce
    refine ⟨fun h => connId.mpr (hborn (alive h)), fun h => hunborn ?_, ?_, ?_, ?_, fun h => ?_, honce⟩
    · by_contra hlt
      have := connId.mpr (by omega)
      omega
    · rw [conn]
      exact hconnecting
    · rw [htotal, hzero.1]
      exact hremoves
    · rw [htotal, hzero.2]
      exact hdowns
    · rw [registered]
      exact hregistered (connId.mp h)

/-- **Where a connection stands**, in every run. -/
theorem run_lifeInv {baseLoop : ι} {ioLoops : List ι} {delay clock : Nat} {count : UInt64}
    {labels : List (Label ι)} (c : Nat)
    (hrun : Machine.run System.step (System.start baseLoop ioLoops delay clock count) labels = .ok σ) :
    LifeInv c σ :=
  Machine.run_inv (fun _ _ _ hinv _ hstep => step_lifeInv hinv hstep)
    (start_lifeInv baseLoop ioLoops delay clock count) (Machine.along_of_forall (fun _ _ => trivial) labels)
    hrun

end

end VServer

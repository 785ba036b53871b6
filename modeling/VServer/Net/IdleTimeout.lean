import VServer.Lib.Simulation
import VServer.Net.Moves

/-!
# The idle timeout

`forceCloseAfter` sets a connection `kDisconnecting` when it arms the timer, not when the timer fires:
from the end of `connectEstablished` on, a connection with an idle timeout sends nothing that it is
given, does not listen to `shutdown`, and shuts down once its output buffer is empty.

`SendsAlike` compares a run with the timeout to the run without, which takes the same steps except for
those that only have to do with the timers (`System.untimed`). The two go in lock step (`Mirrors`)
as long as nobody asks a connection that is `kDisconnecting` for the timer's sake.
-/

namespace VServer

open Epoll

variable {ι : Type}

/-! ## One connection -/

namespace TcpConnection

variable {conn conn' : TcpConnection ι} {self : Nat} {p p' : Poller Nat}

/-- `conn'` has no idle timeout, and is like `conn` otherwise; but `conn` may be `kDisconnecting` where
it is still `kConnected`. -/
structure Alike (conn conn' : TcpConnection ι) : Prop where
  loop : conn'.loop = conn.loop
  channel : conn'.channel = conn.channel
  inputBuffer : conn'.inputBuffer = conn.inputBuffer
  outputBuffer : conn'.outputBuffer = conn.outputBuffer
  state : conn'.state = conn.state ∨ conn.state = .kDisconnecting ∧ conn'.state = .kConnected
  delay : conn'.delay = 0
  untimed : conn'.isTimed = false

/-- `handleWrite` gets everything written that waits. -/
def drains (conn : TcpConnection ι) (written : Option Nat) : Bool :=
  conn.channel.isWritable ∧ 0 < taken conn.outputBuffer.readable written ∧
    taken conn.outputBuffer.readable written = conn.outputBuffer.readableBytes

theorem init_alike (loop : ι) (sockfd delay : Nat) :
    Alike (init loop sockfd delay) (init loop sockfd 0) :=
  ⟨rfl, rfl, rfl, rfl, .inl rfl, rfl, init_isTimed loop sockfd 0⟩

theorem Alike.isOpen (h : conn.Alike conn') : conn'.isOpen = conn.isOpen := by
  unfold TcpConnection.isOpen
  rcases h.state with hsame | ⟨hstate, hstate'⟩
  · rw [hsame]
  · simp [hstate, hstate']

theorem Alike.connecting (h : conn.Alike conn') :
    conn'.state = .kConnecting ↔ conn.state = .kConnecting := by
  rcases h.state with hsame | ⟨hstate, hstate'⟩
  · rw [hsame]
  · simp [hstate, hstate']

theorem Alike.withChannel {op : Nat → Poller Nat → Channel → Except Fault (Poller Nat × Channel)}
    (h : conn.Alike conn') {conn₁ : TcpConnection ι}
    (hop : conn.withChannel self p op = .ok (conn₁, p')) :
    ∃ conn₁', conn'.withChannel self p op = .ok (conn₁', p') ∧ conn₁.Alike conn₁' ∧
      conn₁.state = conn.state ∧ conn₁'.state = conn'.state := by
  obtain ⟨channel, hchannel, rfl⟩ := withChannel_eq_ok hop
  refine ⟨{ conn' with channel := channel }, ?_, ?_, rfl, rfl⟩
  · unfold TcpConnection.withChannel
    rw [h.channel, hchannel]
    rfl
  · exact ⟨h.loop, rfl, h.inputBuffer, h.outputBuffer, h.state, h.delay, h.untimed⟩

/-- What the connection with the timeout returns, the one without it returns too. -/
def AlikeResult (r r' : Result ι) : Prop := r.1.Alike r'.1 ∧ r'.2 = r.2

theorem Alike.eq (h : conn.Alike conn') :
    ∃ state delay timerId, conn' = { conn with state := state, delay := delay, timerId := timerId } := by
  obtain ⟨loop, channel, state, inputBuffer, outputBuffer, delay, timerId⟩ := conn'
  obtain ⟨rfl, rfl, rfl, rfl, -⟩ := h
  exact ⟨state, delay, timerId, rfl⟩

theorem Alike.connectEstablished (h : conn.Alike conn') {r : Result ι}
    (hr : conn.connectEstablished self p = .ok r) :
    ∃ r', conn'.connectEstablished self p = .ok r' ∧ AlikeResult r r' := by
  unfold TcpConnection.connectEstablished at hr ⊢
  split_ifs at hr with hconnecting
  rw [if_pos (h.connecting.mpr hconnecting)]
  obtain ⟨⟨conn₁, p₁⟩, hop, hreturn⟩ := bind_eq_ok hr
  have hconnected : Alike { conn with state := .kConnected } { conn' with state := .kConnected } :=
    ⟨h.loop, h.channel, h.inputBuffer, h.outputBuffer, .inl rfl, h.delay, h.untimed⟩
  obtain ⟨conn₁', hop', halike, hstate, hstate'⟩ := hconnected.withChannel hop
  cases hreturn
  refine ⟨(conn₁', p₁, [.notified conn₁'.state]), ?_, halike, ?_⟩
  · rw [hop']
    rfl
  · rw [hstate, hstate']

theorem Alike.sendInLoop {sender : ι} {message : List Byte} {written : Option Nat}
    (h : conn.Alike conn') {r : Result ι}
    (hr : conn.sendInLoop self p sender message written = .ok r) :
    ∃ r', conn'.sendInLoop self p sender message written = .ok r' ∧ AlikeResult r r' := by
  have hbuffered : ∀ out : SafeBuffer,
      Alike { conn with outputBuffer := out } { conn' with outputBuffer := out } := fun out =>
    ⟨h.loop, h.channel, h.inputBuffer, rfl, h.state, h.delay, h.untimed⟩
  obtain ⟨state, delay, timerId, rfl⟩ := h.eq
  unfold TcpConnection.sendInLoop at hr ⊢
  dsimp only at hr ⊢
  by_cases hrest : (if (!conn.channel.isWritable && decide (conn.outputBuffer.readableBytes = 0)) = true
    then taken message written else 0) < message.length
  · rw [if_pos hrest] at hr ⊢
    by_cases hwritable : conn.channel.isWritable = true
    · rw [if_pos hwritable] at hr ⊢
      cases hr
      exact ⟨_, rfl, hbuffered _, rfl⟩
    · rw [if_neg hwritable] at hr ⊢
      obtain ⟨⟨conn₁, p₁⟩, hop, hreturn⟩ := bind_eq_ok hr
      obtain ⟨conn₁', hop', halike, -⟩ := (hbuffered _).withChannel hop
      cases hreturn
      exact ⟨(conn₁', p₁, _), by rw [hop']; rfl, halike, rfl⟩
  · rw [if_neg hrest] at hr ⊢
    cases hr
    exact ⟨_, rfl, h, rfl⟩

theorem drains_of_retrieve {written : Option Nat} (hwritable : conn.channel.isWritable = true)
    (hn : 0 < taken conn.outputBuffer.readable written)
    (hempty : (conn.outputBuffer.retrieve (taken conn.outputBuffer.readable written)).readableBytes = 0) :
    conn.drains written = true := by
  rw [SafeBuffer.readableBytes_eq, SafeBuffer.retrieve_readable, List.length_drop] at hempty
  have hle : taken conn.outputBuffer.readable written ≤ conn.outputBuffer.readable.length :=
    Nat.min_le_right _ _
  refine decide_eq_true ⟨hwritable, hn, ?_⟩
  rw [SafeBuffer.readableBytes_eq]
  omega

theorem Alike.handleWrite {written : Option Nat} (h : conn.Alike conn') {r : Result ι}
    (hunarmed : conn.state ≠ conn'.state → conn.drains written = false)
    (hr : conn.handleWrite self p written = .ok r) :
    ∃ r', conn'.handleWrite self p written = .ok r' ∧ AlikeResult r r' := by
  have hbuffered : ∀ out : SafeBuffer,
      Alike { conn with outputBuffer := out } { conn' with outputBuffer := out } := fun out =>
    ⟨h.loop, h.channel, h.inputBuffer, rfl, h.state, h.delay, h.untimed⟩
  obtain ⟨state, delay, timerId, rfl⟩ := h.eq
  unfold TcpConnection.handleWrite at hr ⊢
  dsimp only at hr ⊢
  by_cases hwritable : conn.channel.isWritable = true
  · rw [if_pos hwritable] at hr ⊢
    by_cases hn : 0 < taken conn.outputBuffer.readable written
    · rw [if_pos hn] at hr ⊢
      by_cases hempty : (conn.outputBuffer.retrieve (taken conn.outputBuffer.readable written)).readableBytes = 0
      · -- everything is written, so the two are in the same state
        have hstate : conn.state = state := by
          by_contra hne
          have hnot := hunarmed hne
          rw [drains_of_retrieve hwritable hn hempty] at hnot
          cases hnot
        rw [if_pos hempty] at hr ⊢
        obtain ⟨⟨conn₁, p₁⟩, hop, hreturn⟩ := bind_eq_ok hr
        obtain ⟨conn₁', hop', halike, hsame, hsame'⟩ := (hbuffered _).withChannel hop
        cases hreturn
        refine ⟨(conn₁', p₁, _), by rw [hop']; rfl, halike, ?_⟩
        dsimp only at hsame hsame' ⊢
        unfold TcpConnection.shutdownInLoop
        rw [hsame, hsame', halike.channel, hstate]
      · -- something is left, and the channel is watched for it
        rw [if_neg hempty] at hr ⊢
        cases hr
        refine ⟨_, rfl, hbuffered _, ?_⟩
        simp [TcpConnection.shutdownInLoop, hwritable]
    · rw [if_neg hn] at hr ⊢
      cases hr
      exact ⟨_, rfl, h, rfl⟩
  · rw [if_neg hwritable] at hr ⊢
    cases hr
    exact ⟨_, rfl, h, rfl⟩

theorem Alike.receive (h : conn.Alike conn') (data : List Byte) :
    (conn.receive data).Alike (conn'.receive data) := by
  obtain ⟨state, delay, timerId, rfl⟩ := h.eq
  exact ⟨rfl, rfl, rfl, rfl, h.state, h.delay, h.untimed⟩

theorem Alike.setDisconnecting (h : conn.Alike conn') :
    Alike { conn with state := .kDisconnecting } { conn' with state := .kDisconnecting } :=
  ⟨h.loop, h.channel, h.inputBuffer, h.outputBuffer, .inl rfl, h.delay, h.untimed⟩

theorem Alike.arm (h : conn.Alike conn') (hopen : conn'.isOpen = true) :
    Alike { conn with state := .kDisconnecting } conn' := by
  refine ⟨h.loop, h.channel, h.inputBuffer, h.outputBuffer, ?_, h.delay, h.untimed⟩
  have hopen : conn'.state = .kConnected ∨ conn'.state = .kDisconnecting := of_decide_eq_true hopen
  exact hopen.symm.imp id fun hconnected => ⟨rfl, hconnected⟩

end TcpConnection

/-! ## What is left of a run without the timers -/

/-- The tasks that lead from a connection to its timer, and what is done to the state on the way. -/
def ConnTask.arms : ConnTask ι → Bool
  | .updateTimer | .delayedClose | .forceCloseAfter _ | .setDisconnecting | .runForceCloseAfter _
  | .storeTimerId _ => true
  | _ => false

def Task.isTimer : Task ι → Bool
  | .conn _ (.forceCloseAfter _) | .conn _ (.runForceCloseAfter _) | .conn _ (.storeTimerId _)
  | .addTimerInloop _ _ | .cancelInloop _ _ | .timerRead _ | .runTimer _ => true
  | _ => false

def Task.plain : Task ι → Bool
  | .conn _ t => !t.arms
  | .queueInLoop _ f => f.plain
  | .timerRead _ | .runTimer _ | .runAfter _ _ | .addTimerInloop _ _ | .cancelInloop _ _ => false
  | _ => true

/-- What a server without timeouts does where this one takes the step, if that has not only to do with
the timers. -/
def System.untimed (σ : System ι) : Label ι → Option (Label ι)
  | .run who k =>
    match σ.todo who with
    -- what `forceCloseAfter` does before it arms the timer
    | .conn _ .setDisconnecting :: .conn _ (.runForceCloseAfter _) :: _ => none
    | t :: _ => if t.isTimer then none else some (.run who k)
    | [] => some (.run who k)
  | .next loop =>
    match (σ.loops loop).phase with
    | .events (.timerRead _ :: _) => none
    | _ => some (.next loop)
  | .poll loop active => some (.poll loop (active.filter (· ≠ .timer)))
  | .expire _ => none
  | label => some label

/-- `m_connection` is on thread `i`. -/
def World.Home (w : World ι) (i : ι) (c : Nat) : Prop :=
  c < w.server.connId ∧ (w.conns c).loop = i

/-- The stacks of thread `i` with and without the timers, where `w` is the world without them. -/
inductive Muted (w : World ι) (i : ι) : List (Task ι) → List (Task ι) → Prop
  | nil : Muted w i [] []
  | keep {t : Task ι} {l l' : List (Task ι)} (plain : t.plain = true) (rest : Muted w i l l') :
    Muted w i (t :: l) (t :: l')
  /-- which is on the way to `shutdownInLoop` -/
  | stop {c : Nat} {t : Task ι} {l l' : List (Task ι)} (plain : t.plain = true)
      (rest : Muted w i l l') :
    Muted w i (.conn c .setDisconnecting :: t :: l) (.conn c .setDisconnecting :: t :: l')
  /-- which leads to the timer only with a timeout -/
  | ask {c : Nat} {t : ConnTask ι} {l l' : List (Task ι)} (ht : t = .updateTimer ∨ t = .delayedClose)
      (home : w.Home i c) (rest : Muted w i l l') : Muted w i (.conn c t :: l) (.conn c t :: l')
  | timer {t : Task ι} {l l' : List (Task ι)} (timer : t.isTimer = true)
      (home : ∀ c x, t = .conn c x → w.Home i c) (rest : Muted w i l l') : Muted w i (t :: l) l'
  | arm {c ms : Nat} {l l' : List (Task ι)} (home : w.Home i c) (isOpen : (w.conns c).isOpen = true)
      (rest : Muted w i l l') :
    Muted w i (.conn c .setDisconnecting :: .conn c (.runForceCloseAfter ms) :: l) l'

/-- The world goes on without closing a connection. -/
structure World.Lives (w w' : World ι) : Prop where
  connId : w.server.connId ≤ w'.server.connId
  loop : ∀ c, c < w.server.connId → (w'.conns c).loop = (w.conns c).loop
  isOpen : ∀ c, c < w.server.connId → (w.conns c).isOpen = true → (w'.conns c).isOpen = true

section

variable {w w' : World ι} {i : ι} {l l' m m' : List (Task ι)}

theorem World.Lives.refl (w : World ι) : w.Lives w := ⟨Nat.le_refl _, fun _ _ => rfl, fun _ _ h => h⟩

theorem World.Lives.home (h : w.Lives w') {c : Nat} (hhome : w.Home i c) : w'.Home i c :=
  ⟨Nat.lt_of_lt_of_le hhome.1 h.connId, (h.loop c hhome.1).trans hhome.2⟩

theorem Muted.lives (h : Muted w i l l') (hlives : w.Lives w') : Muted w' i l l' := by
  induction h with
  | nil => exact .nil
  | keep plain rest ih => exact .keep plain ih
  | stop plain rest ih => exact .stop plain ih
  | ask ht home rest ih => exact .ask ht (hlives.home home) ih
  | timer timer home rest ih => exact .timer timer (fun c x hx => hlives.home (home c x hx)) ih
  | arm home isOpen rest ih => exact .arm (hlives.home home) (hlives.isOpen _ home.1 isOpen) ih

theorem Muted.append (h : Muted w i l l') (hm : Muted w i m m') : Muted w i (l ++ m) (l' ++ m') := by
  induction h with
  | nil => exact hm
  | keep plain rest ih => exact .keep plain ih
  | stop plain rest ih => exact .stop plain ih
  | ask ht home rest ih => exact .ask ht home ih
  | timer timer home rest ih => exact .timer timer home ih
  | arm home isOpen rest ih => exact .arm home isOpen ih

theorem muted_of_plain (hplain : ∀ t ∈ l, t.plain = true) : Muted w i l l := by
  induction l with
  | nil => exact .nil
  | cons t l ih =>
    exact .keep (hplain t List.mem_cons_self) (ih fun x hx => hplain x (List.mem_cons_of_mem _ hx))

theorem muted_of_timers (htimer : ∀ t ∈ l, t.isTimer = true ∧ ∀ c x, t ≠ .conn c x) :
    Muted w i l [] := by
  induction l with
  | nil => exact .nil
  | cons t l ih =>
    obtain ⟨ht, hconn⟩ := htimer t List.mem_cons_self
    exact .timer ht (fun c x hx => absurd hx (hconn c x))
      (ih fun x hx => htimer x (List.mem_cons_of_mem _ hx))

end

/-! ## Runs of connections that live -/

def ConnTask.isLive : ConnTask ι → Bool
  | .handleClose | .connectDestroyed | .setDisconnected | .notifyDown | .channelRemove | .forceClose
  | .forceCloseInLoop | .removeConnection | .removeConnectionInLoop => false
  | _ => true

/-- The calls that neither close a connection nor have to do with timers. -/
def UserCall.isLive : UserCall ι → Bool
  | .send _ _ | .shutdown _ | .runInLoop _ | .queueInLoop _ | .quit _ => true
  | _ => false

/-- The step closes no connection, and runs no timer. -/
def LiveStep (σ : System ι) : Label ι → Prop
  | .run who _ =>
    match σ.todo who with
    | .conn _ t :: _ => t.isLive = true
    | .runTimer _ :: _ => False
    | _ => True
  | .call _ call => call.isLive = true
  | .destroy _ => False
  | _ => True

instance (σ : System ι) (label : Label ι) : Decidable (LiveStep σ label) := by
  unfold LiveStep
  rcases label with ⟨who, k⟩ | ⟨who, call⟩ | ⟨⟩ | ⟨⟩ | ⟨⟩ | ⟨⟩ | ⟨⟩ | ⟨⟩
  · dsimp only
    rcases σ.todo who with _ | ⟨⟨⟩, rest⟩
    all_goals infer_instance
  all_goals infer_instance

/-- Connection `c` is `kDisconnecting` for the timer's sake: without the timeout it is `kConnected`. -/
def Armed (w w' : World ι) (c : Nat) : Prop := (w.conns c).state ≠ (w'.conns c).state

instance (w w' : World ι) (c : Nat) : Decidable (Armed w w' c) := inferInstanceAs (Decidable (_ ≠ _))

/-- Nobody sends over an armed connection or shuts it down, and no `handleWrite` of one empties the
output buffer. -/
def SendsUnarmed (s : System ι × System ι) (label : Label ι) : Prop :=
  match s.1.performs label with
  | some (c, .send _, _) | some (c, .shutdown, _) => ¬ Armed s.1.world s.2.world c
  | some (c, .handleWrite, k) =>
    Armed s.1.world s.2.world c → (s.1.world.conns c).drains k.write = false
  | _ => True

instance (s : System ι × System ι) (label : Label ι) : Decidable (SendsUnarmed s label) := by
  unfold SendsUnarmed
  split
  all_goals infer_instance

/-! ## The simulation -/

/-- The worlds with and without timeouts. -/
structure World.Alike (w v : World ι) : Prop where
  conns : ∀ c, (w.conns c).Alike (v.conns c)
  alive : v.alive = w.alive
  pollers : v.pollers = w.pollers
  server : v.server = { w.server with delay := 0 }
  log : v.log = w.log

section

variable {w w' v : World ι}

theorem World.Alike.putConn (h : w.Alike v) (c : Nat) {conn conn' : TcpConnection ι}
    (hconn : conn.Alike conn') (events : List (ConnEvent ι)) :
    (w.putConn c conn events).Alike (v.putConn c conn' events) := by
  refine ⟨fun c' => ?_, h.alive, h.pollers, h.server, ?_⟩
  · unfold World.putConn
    dsimp only
    by_cases hc : c' = c
    · rw [hc, Function.update_self, Function.update_self]
      exact hconn
    · rw [Function.update_of_ne hc, Function.update_of_ne hc]
      exact h.conns c'
  · unfold World.putConn
    dsimp only
    rw [h.log]

theorem World.Alike.note (h : w.Alike v) (c : Nat) (event : ConnEvent ι) :
    (w.note c event).Alike (v.note c event) := by
  refine ⟨h.conns, h.alive, h.pollers, h.server, ?_⟩
  unfold World.note
  dsimp only
  rw [h.log]

theorem lives_update {v' : World ι} (c : Nat) {conn : TcpConnection ι}
    (hconns : v'.conns = Function.update v.conns c conn)
    (hconnId : v'.server.connId = v.server.connId) (hloop : conn.loop = (v.conns c).loop)
    (hopen : (v.conns c).isOpen = true → conn.isOpen = true) : v.Lives v' := by
  refine ⟨Nat.le_of_eq hconnId.symm, fun c' _ => ?_, fun c' _ h => ?_⟩
  all_goals
    rw [hconns]
    by_cases hc : c' = c
    · subst hc
      rw [Function.update_self]
      first
        | exact hloop
        | exact hopen h
    · rw [Function.update_of_ne hc]
      try exact h

variable [DecidableEq ι]

theorem World.Alike.put (h : w.Alike v) (c : Nat) {r r' : TcpConnection.Result ι}
    (hr : TcpConnection.AlikeResult r r') : (w.put c r).Alike (v.put c r') := by
  obtain ⟨hconn, hsame⟩ := hr
  refine ⟨fun c' => ?_, h.alive, ?_, h.server, ?_⟩
  · unfold World.put
    dsimp only
    by_cases hc : c' = c
    · rw [hc, Function.update_self, Function.update_self]
      exact hconn
    · rw [Function.update_of_ne hc, Function.update_of_ne hc]
      exact h.conns c'
  · unfold World.put
    dsimp only
    rw [h.pollers, (h.conns c).loop, hsame]
  · unfold World.put
    dsimp only
    rw [h.log, hsame]

omit [DecidableEq ι] in
theorem handleWrite_state {conn : TcpConnection ι} {self : Nat} {p : Poller Nat}
    {written : Option Nat} {r : TcpConnection.Result ι} (h : conn.handleWrite self p written = .ok r) :
    r.1.loop = conn.loop ∧ r.1.state = conn.state := by
  obtain ⟨out, wrote, shut, -, hconn, -⟩ := TcpConnection.handleWrite_spec h
  rw [hconn]
  exact ⟨rfl, rfl⟩

omit [DecidableEq ι] in
theorem connectEstablished_state {conn : TcpConnection ι} {self : Nat} {p : Poller Nat}
    {r : TcpConnection.Result ι} (h : conn.connectEstablished self p = .ok r) :
    r.1.loop = conn.loop ∧ r.1.state = .kConnected := by
  unfold TcpConnection.connectEstablished at h
  split_ifs at h
  obtain ⟨⟨conn₁, p₁⟩, hop, hreturn⟩ := bind_eq_ok h
  obtain ⟨channel, -, rfl⟩ := TcpConnection.withChannel_eq_ok hop
  cases hreturn
  exact ⟨rfl, rfl⟩

@[simp] theorem runInLoop_plain (who loop : ι) (x : Task ι) : (runInLoop who loop x).plain = x.plain := by
  unfold runInLoop
  split_ifs
  all_goals rfl

variable {who : ι} {k : Kernel} {c : Nat} {t : ConnTask ι} {new : List (Task ι)}

/-- A task of a connection does the same without the timeout, if the connection is not asked for its
state while that differs. -/
theorem performConn_alike (hw : w.Alike v) (hlive : t.isLive = true)
    (htimer : (Task.conn c t : Task ι).isTimer = false)
    (hhome : t = .updateTimer ∨ t = .delayedClose → v.Home who c)
    (hborn : c < v.server.connId)
    (hasked : (∃ m, t = .send m) ∨ t = .shutdown → ¬ Armed w v c)
    (hwrite : t = .handleWrite → Armed w v c → (w.conns c).drains k.write = false)
    (h : performConn who k w c t = .ok (w', new)) :
    ∃ v' new', performConn who k v c t = .ok (v', new') ∧ w'.Alike v' ∧ v.Lives v' ∧
      Muted v' who new new' := by
  have hconn := hw.conns c
  have hnote : ∀ {e : ConnEvent ι}, v.Lives (v.note c e) := ⟨Nat.le_refl _, fun _ _ => rfl, fun _ _ h => h⟩
  -- what is left has nothing to do with timers
  have hplain : ∀ {v' : World ι} {l : List (Task ι)}, (∀ t ∈ l, t.plain = true) → Muted v' who l l :=
    muted_of_plain
  cases t with
  | handleEvent revents =>
    cases h
    refine ⟨v, _, rfl, hw, .refl _, hplain fun x hx => ?_⟩
    obtain ⟨t, ht, rfl⟩ := List.mem_map.mp hx
    rcases mem_eventTasks ht with rfl | rfl | rfl | rfl
    all_goals rfl
  | handleRead =>
    obtain ⟨hwho, h⟩ := withLoop_eq_ok h
    unfold performConn
    dsimp only
    rw [hconn.loop, if_pos hwho, hconn.inputBuffer]
    split at h
    · cases h
    rename_i data hreadv
    dsimp only at h ⊢
    split_ifs at h ⊢ with hempty
    · cases h
      exact ⟨v, _, rfl, hw, .refl _, hplain (by simp [Task.plain, ConnTask.arms])⟩
    · cases h
      have hlives : v.Lives (v.putConn c ((v.conns c).receive (data.take (w.conns c).inputBuffer.raw.offered)) []) :=
        lives_update c rfl rfl rfl id
      refine ⟨_, _, rfl, hw.putConn c (hconn.receive _) [], hlives, .ask (.inl rfl) ?_ ?_⟩
      · exact hlives.home ⟨hborn, hconn.loop.trans hwho.symm⟩
      · exact hplain (by simp [Task.plain, ConnTask.arms])
  | writeCallback =>
    cases h
    unfold performConn
    dsimp only
    rw [hconn.channel]
    refine ⟨v, _, rfl, hw, .refl _, ?_⟩
    split_ifs
    · exact hplain (by simp [Task.plain, ConnTask.arms])
    · exact .nil
  | handleWrite =>
    obtain ⟨hwho, h⟩ := withLoop_eq_ok h
    obtain ⟨r, hr, rfl, rfl⟩ := finish_eq_ok h
    obtain ⟨r', hr', halike⟩ := hconn.handleWrite (fun hne => hwrite rfl hne) hr
    obtain ⟨hloop, hstate⟩ := handleWrite_state hr'
    unfold performConn
    dsimp only
    rw [hconn.loop, if_pos hwho, hw.pollers, hr']
    refine ⟨_, _, rfl, hw.put c halike, lives_update c rfl rfl hloop ?_, .nil⟩
    unfold TcpConnection.isOpen
    rw [hstate]
    exact id
  | handleError =>
    cases h
    exact ⟨_, _, rfl, hw.note c .error, hnote, .nil⟩
  | updateTimer =>
    cases h
    have home := hhome (.inl rfl)
    unfold performConn
    dsimp only
    rw [if_neg (by rw [hconn.untimed]; simp)]
    refine ⟨v, _, rfl, hw, .refl _, ?_⟩
    split_ifs
    · -- the timer is cancelled at once, and armed again
      have hwho : who = (w.conns c).loop := home.2.symm.trans hconn.loop
      rw [runInLoop, if_pos hwho]
      refine .timer rfl nofun (.timer rfl ?_ .nil)
      rintro c' x ⟨⟩
      exact home
    · exact .nil
  | messageCallback =>
    cases h
    exact ⟨_, _, rfl, hw.note c .message, hnote, hplain (by simp [Task.plain])⟩
  | connectEstablished =>
    obtain ⟨hwho, h⟩ := withLoop_eq_ok h
    obtain ⟨r, hr, rfl, rfl⟩ := finish_eq_ok h
    obtain ⟨r', hr', halike⟩ := hconn.connectEstablished hr
    unfold performConn
    dsimp only
    rw [hconn.loop, if_pos hwho, hw.pollers, hr']
    have hlives : v.Lives (v.put c r') := by
      obtain ⟨hloop, hstate⟩ := connectEstablished_state hr'
      refine lives_update c rfl rfl hloop fun _ => ?_
      unfold TcpConnection.isOpen
      rw [hstate]
      rfl
    refine ⟨_, _, rfl, hw.put c halike, hlives, .keep rfl (.ask (.inr rfl) ?_ .nil)⟩
    exact hlives.home ⟨hborn, hconn.loop.trans hwho.symm⟩
  | delayedClose =>
    cases h
    have home := hhome (.inr rfl)
    unfold performConn
    dsimp only
    rw [if_neg (by rw [hconn.delay]; simp)]
    refine ⟨v, _, rfl, hw, .refl _, ?_⟩
    split_ifs
    · refine .timer rfl ?_ .nil
      rintro c' x ⟨⟩
      exact home
    · exact .nil
  | send message =>
    have hstate : (w.conns c).state = (v.conns c).state :=
      Classical.not_not.mp (hasked (.inl ⟨message, rfl⟩))
    unfold performConn at h ⊢
    dsimp only at h ⊢
    rw [← hstate, hconn.loop]
    split_ifs at h ⊢
    · cases h
      exact ⟨_, _, rfl, hw.note c _, hnote, hplain (by simp [Task.plain, ConnTask.arms])⟩
    · cases h
      exact ⟨v, _, rfl, hw, .refl _, .nil⟩
  | sendInLoop sender message =>
    obtain ⟨hwho, h⟩ := withLoop_eq_ok h
    obtain ⟨r, hr, rfl, rfl⟩ := finish_eq_ok h
    obtain ⟨r', hr', halike⟩ := hconn.sendInLoop hr
    unfold performConn
    dsimp only
    rw [hconn.loop, if_pos hwho, hw.pollers, hr']
    obtain ⟨out, -, -, -, hsent, -⟩ := TcpConnection.sendInLoop_spec hr'
    refine ⟨_, _, rfl, hw.put c halike, lives_update c rfl rfl (by rw [hsent]) ?_, .nil⟩
    rw [hsent]
    exact id
  | shutdown =>
    have hstate : (w.conns c).state = (v.conns c).state :=
      Classical.not_not.mp (hasked (.inr rfl))
    cases h
    unfold performConn
    dsimp only
    rw [← hstate, hconn.loop]
    refine ⟨v, _, rfl, hw, .refl _, ?_⟩
    split_ifs
    · exact .stop (by simp [Task.plain, ConnTask.arms]) .nil
    · exact .nil
  | shutdownInLoop =>
    obtain ⟨hwho, h⟩ := withLoop_eq_ok h
    cases h
    unfold performConn
    dsimp only
    rw [hconn.loop, if_pos hwho]
    have hevents : (v.conns c).shutdownInLoop = (w.conns c).shutdownInLoop := by
      unfold TcpConnection.shutdownInLoop
      rw [hconn.channel]
    rw [hevents]
    exact ⟨_, _, rfl, hw.putConn c hconn _, lives_update c rfl rfl rfl id, .nil⟩
  | setDisconnecting =>
    cases h
    exact ⟨_, _, rfl, hw.putConn c hconn.setDisconnecting [], lives_update c rfl rfl rfl fun _ => rfl, .nil⟩
  | forceCloseAfter ms => cases htimer
  | runForceCloseAfter ms => cases htimer
  | storeTimerId id => cases htimer
  | _ => cases hlive

omit [DecidableEq ι] in
theorem World.Alike.putConn_left (h : w.Alike v) (c : Nat) {conn : TcpConnection ι}
    (hconn : conn.Alike (v.conns c)) : (w.putConn c conn []).Alike v := by
  refine ⟨fun c' => ?_, h.alive, h.pollers, h.server, ?_⟩
  · unfold World.putConn
    dsimp only
    by_cases hc : c' = c
    · rw [hc, Function.update_self]
      exact hconn
    · rw [Function.update_of_ne hc]
      exact h.conns c'
  · unfold World.putConn
    dsimp only
    rw [h.log, List.map_nil, List.append_nil]

theorem performConn_timer (hw : w.Alike v) (htimer : (Task.conn c t : Task ι).isTimer = true)
    (home : v.Home who c) (h : performConn who k w c t = .ok (w', new)) :
    w'.Alike v ∧ Muted v who new [] := by
  have hconn := hw.conns c
  have hhome : ∀ {t : ConnTask ι} (c' : Nat) (x : ConnTask ι), Task.conn c t = .conn c' x →
      v.Home who c' := by
    rintro t c' x ⟨⟩
    exact home
  cases t with
  | forceCloseAfter ms =>
    cases h
    refine ⟨hw, ?_⟩
    split_ifs with hopen
    · exact .arm home (hconn.isOpen.trans hopen) .nil
    · exact .nil
  | runForceCloseAfter ms =>
    cases h
    have hwho : who = (w.conns c).loop := home.2.symm.trans hconn.loop
    refine ⟨⟨hw.conns, hw.alive, hw.pollers, hw.server, hw.log⟩, ?_⟩
    rw [runInLoop, if_pos hwho]
    exact .timer rfl nofun (.timer rfl hhome .nil)
  | storeTimerId id =>
    cases h
    exact ⟨hw.putConn_left c ⟨hconn.loop, hconn.channel, hconn.inputBuffer, hconn.outputBuffer,
      hconn.state, hconn.delay, hconn.untimed⟩, .nil⟩
  | _ => cases htimer

theorem newConnection_alike (hw : w.Alike v) {sockfd : Nat}
    (h : newConnection who w sockfd = .ok (w', new)) :
    ∃ v', newConnection who v sockfd = .ok (v', new) ∧ w'.Alike v' ∧ v.Lives v' ∧
      Muted v' who new new ∧
      ∀ c, w'.alive c = true → c = w.server.connId ∨ w.alive c = true := by
  have hfree : v.isFree sockfd = w.isFree sockfd := by
    unfold World.isFree
    rw [hw.server, hw.alive]
    congr 1
    funext c
    rw [(hw.conns c).channel]
  have hserver := hw.server
  unfold newConnection at h ⊢
  rw [hfree, hserver]
  dsimp only
  split_ifs at h with hwho hfd
  rw [if_pos hwho, if_pos hfd]
  split at h
  · cases h
  rename_i pool loop hpool
  dsimp only at h ⊢
  split_ifs at h with hbound
  rw [if_pos hbound]
  cases h
  refine ⟨_, rfl, ⟨fun c => ?_, ?_, hw.pollers, ?_, hw.log⟩, ⟨?_, fun c hc => ?_, fun c hc hopen => ?_⟩,
    muted_of_plain (by simp [Task.plain, ConnTask.arms]), fun c hc => ?_⟩
  · dsimp only
    by_cases hc : c = w.server.connId
    · rw [hc, Function.update_self, Function.update_self]
      exact TcpConnection.init_alike loop sockfd _
    · rw [Function.update_of_ne hc, Function.update_of_ne hc]
      exact hw.conns c
  · dsimp only
    rw [hw.alive]
  · rfl
  · dsimp only
    rw [hserver]
    exact Nat.le_succ _
  · rw [hserver] at hc
    exact congrArg TcpConnection.loop (Function.update_of_ne (Nat.ne_of_lt hc) _ _)
  · rw [hserver] at hc
    dsimp only
    rwa [Function.update_of_ne (Nat.ne_of_lt hc)]
  · dsimp only at hc
    by_cases hfresh : c = w.server.connId
    · exact .inl hfresh
    · rw [Function.update_of_ne hfresh] at hc
      exact .inr hc

end

/-! ## The loops -/

namespace EventLoop

def mute (l : EventLoop (Task ι)) : EventLoop (Task ι) :=
  { l with phase := match l.phase with
    | .events active => .events (active.filter fun t => !t.isTimer)
    | phase => phase }

/-- The loop of thread `i` has nothing queued that has to do with timers. -/
structure Plain (i : ι) (l : EventLoop (Task ι)) : Prop where
  queue : ∀ f ∈ l.pendingFuncs, f.plain = true
  functors : ∀ funcs, l.phase = .functors funcs → ∀ f ∈ funcs, f.plain = true
  events : ∀ active, l.phase = .events active → ∀ x ∈ active, ∃ a, x = ActiveChannel.task i a

variable {i : ι} {l l' : EventLoop (Task ι)} {calls : List (Task ι)}

theorem mute_of_phase (h : ∀ active, l.phase ≠ .events active) : l.mute = l := by
  unfold mute
  split
  · rename_i active hphase
    exact absurd hphase (h active)
  · rfl

theorem isOutside_mute : l.mute.isOutside = l.isOutside := by
  obtain ⟨phase, quit, pendingFuncs, callingPendingFuncs, wakeups⟩ := l
  cases phase
  all_goals rfl

theorem plain_init : (EventLoop.init : EventLoop (Task ι)).Plain i := ⟨nofun, nofun, nofun⟩

theorem Plain.push (h : l.Plain i) {f : Task ι} (hf : f.plain = true) : (l.push f).Plain i := by
  refine ⟨fun x hx => ?_, h.functors, h.events⟩
  rcases List.mem_append.mp hx with hx | hx
  · exact h.queue x hx
  · rwa [List.mem_singleton.mp hx]

theorem next_mute (h : l.Plain i) (hnext : l.next = some (l', calls)) :
    l'.Plain i ∧ ((∃ loop active, l.phase = .events (.timerRead loop :: active) ∧
        calls = [.timerRead loop] ∧ l'.mute = l.mute) ∨
      (∀ loop active, l.phase ≠ .events (.timerRead loop :: active)) ∧
        l.mute.next = some (l'.mute, calls) ∧ ∀ x ∈ calls, x.plain = true) := by
  obtain ⟨phase, quit, pendingFuncs, callingPendingFuncs, wakeups⟩ := l
  obtain ⟨hqueue, hfunctors, hevents⟩ := h
  cases phase with
  | ready =>
    cases hnext
    exact ⟨⟨hqueue, by simp, by simp⟩, .inr ⟨by simp, rfl, by simp⟩⟩
  | test =>
    cases hnext
    cases quit
    all_goals exact ⟨⟨hqueue, by simp, by simp⟩, .inr ⟨by simp, rfl, by simp⟩⟩
  | wait => cases hnext
  | events active =>
    cases active with
    | nil =>
      cases pendingFuncs
      all_goals
        cases hnext
        exact ⟨⟨hqueue, by simp, by simp⟩, .inr ⟨by simp, rfl, by simp⟩⟩
    | cons call active =>
      cases hnext
      refine ⟨⟨hqueue, by simp, ?_⟩, ?_⟩
      · rintro rest ⟨⟩ x hx
        exact hevents _ rfl x (List.mem_cons_of_mem _ hx)
      · obtain ⟨a, rfl⟩ := hevents _ rfl call List.mem_cons_self
        cases a with
        | timer => exact .inl ⟨i, active, rfl, rfl, rfl⟩
        | conn c revents => exact .inr ⟨by simp [ActiveChannel.task], rfl, by simp [ActiveChannel.task, Task.plain, ConnTask.arms]⟩
        | wakeup => exact .inr ⟨by simp [ActiveChannel.task], rfl, by simp [ActiveChannel.task, Task.plain]⟩
        | acceptor => exact .inr ⟨by simp [ActiveChannel.task], rfl, by simp [ActiveChannel.task, Task.plain]⟩
  | swap =>
    cases hnext
    refine ⟨⟨by simp, ?_, by simp⟩, .inr ⟨by simp, rfl, by simp⟩⟩
    rintro funcs ⟨⟩ f hf
    exact hqueue f hf
  | functors funcs =>
    cases funcs with
    | nil =>
      cases hnext
      exact ⟨⟨hqueue, by simp, by simp⟩, .inr ⟨by simp, rfl, by simp⟩⟩
    | cons f funcs =>
      cases hnext
      refine ⟨⟨hqueue, ?_, by simp⟩, .inr ⟨by simp, rfl, ?_⟩⟩
      · rintro rest ⟨⟩ x hx
        exact hfunctors _ rfl x (List.mem_cons_of_mem _ hx)
      · intro x hx
        rw [List.mem_singleton.mp hx]
        exact hfunctors _ rfl f List.mem_cons_self
  | ended => cases hnext

end EventLoop

/-! ## The system -/

/-- `τ` is what `σ` is without the timeouts. -/
structure Mirrors (σ τ : System ι) : Prop where
  world : σ.world.Alike τ.world
  born : ∀ c, σ.world.alive c = true → c < σ.world.server.connId
  loops : ∀ i, τ.loops i = (σ.loops i).mute
  plain : ∀ i, (σ.loops i).Plain i
  todo : ∀ i, Muted τ.world i (σ.todo i) (τ.todo i)

section

variable {σ τ : System ι}

theorem World.Alike.connId {w v : World ι} (h : w.Alike v) : v.server.connId = w.server.connId := by
  rw [h.server]

variable [DecidableEq ι] {who : ι} {k : Kernel} {rest rest' l l' : List (Task ι)} {w v : World ι}

theorem mirrors_start (baseLoop : ι) (ioLoops : List ι) (delay clock : Nat) (count : UInt64) :
    Mirrors (System.start baseLoop ioLoops delay clock count)
      (System.start baseLoop ioLoops 0 clock count) where
  world := ⟨fun _ => TcpConnection.init_alike baseLoop 0 delay, rfl, rfl, rfl, rfl⟩
  born _ h := by cases h
  loops _ := rfl
  plain _ := EventLoop.plain_init
  todo _ := .nil

theorem Mirrors.exchange (h : Mirrors σ τ) (hw : w.Alike v) (hlives : τ.world.Lives v)
    (hborn : ∀ c, w.alive c = true → c < w.server.connId) (hm : Muted v who l l') :
    Mirrors { σ with world := w, todo := Function.update σ.todo who l }
      { τ with world := v, todo := Function.update τ.todo who l' } := by
  refine ⟨hw, hborn, h.loops, h.plain, fun i => ?_⟩
  dsimp only
  by_cases hi : i = who
  · subst hi
    rw [Function.update_self, Function.update_self]
    exact hm
  · rw [Function.update_of_ne hi, Function.update_of_ne hi]
    exact (h.todo i).lives hlives

theorem Mirrors.stutter (h : Mirrors σ τ) (hw : w.Alike τ.world)
    (hborn : ∀ c, w.alive c = true → c < w.server.connId) (hm : Muted τ.world who l (τ.todo who)) :
    Mirrors { σ with world := w, todo := Function.update σ.todo who l } τ := by
  refine ⟨hw, hborn, h.loops, h.plain, fun i => ?_⟩
  dsimp only
  by_cases hi : i = who
  · subst hi
    rw [Function.update_self]
    exact hm
  · rw [Function.update_of_ne hi]
    exact h.todo i

theorem Mirrors.loop (h : Mirrors σ τ) {loop : ι} {m m' : EventLoop (Task ι)}
    (hmute : m' = m.mute) (hplain : m.Plain loop) (hm : Muted τ.world who l l') :
    Mirrors { σ with loops := Function.update σ.loops loop m, todo := Function.update σ.todo who l }
      { τ with loops := Function.update τ.loops loop m', todo := Function.update τ.todo who l' } := by
  refine ⟨h.world, h.born, fun i => ?_, fun i => ?_, fun i => ?_⟩
  all_goals dsimp only
  · by_cases hi : i = loop
    · rw [hi, Function.update_self, Function.update_self, hmute]
    · rw [Function.update_of_ne hi, Function.update_of_ne hi]
      exact h.loops i
  · by_cases hi : i = loop
    · subst hi
      rw [Function.update_self]
      exact hplain
    · rw [Function.update_of_ne hi]
      exact h.plain i
  · by_cases hi : i = who
    · subst hi
      rw [Function.update_self, Function.update_self]
      exact hm
    · rw [Function.update_of_ne hi, Function.update_of_ne hi]
      exact h.todo i

/-- What a step of the server without timeouts is, where that one takes `label`. -/
def Follows [Fintype ι] (σ τ : System ι) (label : Label ι) (σ' : System ι) : Prop :=
  (σ.untimed label = none ∧ Mirrors σ' τ) ∨
    ∃ label' τ', σ.untimed label = some label' ∧ τ.step label' = .ok τ' ∧ Mirrors σ' τ'

theorem Mirrors.run_conn [Fintype ι] (h : Mirrors σ τ) {c : Nat} {t : ConnTask ι} {σ' : System ι}
    (htodo : σ.todo who = .conn c t :: rest) (htodo' : τ.todo who = .conn c t :: rest')
    (huntimed : σ.untimed (.run who k) = some (.run who k))
    (hm : Muted τ.world who rest rest') (htimer : (Task.conn c t : Task ι).isTimer = false)
    (hhome : t = .updateTimer ∨ t = .delayedClose → τ.world.Home who c)
    (hlive : LiveStep σ (.run who k)) (hunarmed : SendsUnarmed (σ, τ) (.run who k))
    (hstep : σ.step (.run who k) = .ok σ') : Follows σ τ (.run who k) σ' := by
  obtain ⟨halive, w, new, hperform, rfl⟩ := step_conn_eq_ok htodo hstep
  have hborn := h.born c halive
  rw [← h.world.connId] at hborn
  rw [LiveStep, htodo] at hlive
  unfold SendsUnarmed at hunarmed
  rw [performs_of_todo htodo] at hunarmed
  have hasked : (∃ m, t = .send m) ∨ t = .shutdown → ¬ Armed σ.world τ.world c := by
    rintro (⟨m, rfl⟩ | rfl)
    all_goals exact hunarmed
  have hwrite : t = .handleWrite → Armed σ.world τ.world c →
      (σ.world.conns c).drains k.write = false := by
    rintro rfl
    exact hunarmed
  obtain ⟨v, new', hv, halike, hlives, hnew⟩ :=
    performConn_alike h.world hlive htimer hhome hborn hasked hwrite hperform
  obtain ⟨events, -, hframed⟩ := performConn_spec hperform
  refine .inr ⟨.run who k, _, huntimed, ?_,
    h.exchange halike hlives (fun c => ?_) (hnew.append (hm.lives hlives))⟩
  · unfold System.step
    dsimp only
    rw [htodo']
    unfold System.runTask perform
    dsimp only
    rw [h.world.alive, if_pos halive, hv]
  · rw [hframed.alive, hframed.connId]
    exact h.born c

theorem Mirrors.run_timer [Fintype ι] (h : Mirrors σ τ) {t : Task ι} {σ' : System ι}
    (htodo : σ.todo who = t :: rest) (huntimed : σ.untimed (.run who k) = none)
    (htimer : t.isTimer = true) (hhome : ∀ c x, t = .conn c x → τ.world.Home who c)
    (hm : Muted τ.world who rest (τ.todo who)) (hlive : LiveStep σ (.run who k))
    (hstep : σ.step (.run who k) = .ok σ') : Follows σ τ (.run who k) σ' := by
  -- the tasks of the timers change timers only
  have hsame : ∀ {w : World ι} {new : List (Task ι)}, σ.world.SameConns w →
      (∀ x ∈ new, x.isTimer = true ∧ ∀ c y, x ≠ .conn c y) →
      Follows σ τ (.run who k) { σ with world := w, todo := Function.update σ.todo who (new ++ rest) } := by
    intro w new hw hnew
    refine .inl ⟨huntimed, h.stutter ⟨?_, ?_, ?_, ?_, ?_⟩ (fun c => ?_) ?_⟩
    · rw [hw.conns]
      exact h.world.conns
    · rw [hw.alive]
      exact h.world.alive
    · rw [hw.pollers]
      exact h.world.pollers
    · rw [hw.server]
      exact h.world.server
    · rw [hw.log]
      exact h.world.log
    · rw [hw.alive, hw.server]
      exact h.born c
    · exact (muted_of_timers hnew).append hm
  cases step_cases hstep with
  | perform todo result =>
    cases htodo.symm.trans todo
    cases perform_cases result with
    | @conn c t w new alive result =>
      obtain ⟨halike, hnew⟩ := performConn_timer h.world htimer (hhome c t rfl) result
      obtain ⟨events, -, hframed⟩ := performConn_spec result
      refine .inl ⟨huntimed, h.stutter halike (fun c => ?_) (hnew.append hm)⟩
      rw [hframed.alive, hframed.connId]
      exact h.born c
    | timerRead read =>
      refine hsame ⟨rfl, rfl, rfl, rfl, rfl⟩ fun x hx => ?_
      obtain ⟨timer, -, rfl⟩ := List.mem_map.mp hx
      exact ⟨rfl, nofun⟩
    | userTimer =>
      rw [LiveStep, htodo] at hlive
      cases hlive
    | closeTimer =>
      rw [LiveStep, htodo] at hlive
      cases hlive
    | runAfter cb => cases htimer
    | addTimerInloop => exact hsame ⟨rfl, rfl, rfl, rfl, rfl⟩ nofun
    | cancelInloop cancel => exact hsame ⟨rfl, rfl, rfl, rfl, rfl⟩ nofun
    | acceptorRead accept result => cases htimer
  | queueInLoop todo | wakeup todo | quit todo | wakeupRead todo =>
    cases htodo.symm.trans todo
    cases htimer

omit [DecidableEq ι] in
theorem isTimer_of_plain {t : Task ι} : t.plain = true → t.isTimer = false := by
  cases t with
  | conn c t =>
    cases t
    all_goals first
      | exact fun _ => rfl
      | exact nofun
  | _ =>
    first
    | exact fun _ => rfl
    | exact nofun

omit [DecidableEq ι] in
theorem untimed_run {t : Task ι} (htodo : σ.todo who = t :: rest)
    (hset : ∀ c, t = .conn c .setDisconnecting → ∃ x l, rest = x :: l ∧ x.plain = true) :
    σ.untimed (.run who k) = if t.isTimer then none else some (.run who k) := by
  unfold System.untimed
  dsimp only
  rw [htodo]
  split
  · rename_i c c' ms r heq
    cases heq
    obtain ⟨x, l, hrest, hx⟩ := hset c rfl
    cases hrest
    cases hx
  · rename_i heq
    cases heq
    rfl
  · rename_i heq
    cases heq

theorem Mirrors.run_plain [Fintype ι] (h : Mirrors σ τ) {t : Task ι} {σ' : System ι}
    (htodo : σ.todo who = t :: rest) (htodo' : τ.todo who = t :: rest') (hplain : t.plain = true)
    (hconn : ∀ c x, t ≠ .conn c x) (hm : Muted τ.world who rest rest')
    (huntimed : σ.untimed (.run who k) = some (.run who k))
    (hstep : σ.step (.run who k) = .ok σ') : Follows σ τ (.run who k) σ' := by
  have hfollows : ∀ {τ'}, τ.runTask who k rest' t = .ok τ' → Mirrors σ' τ' →
      Follows σ τ (.run who k) σ' := by
    intro τ' hrun hsim
    refine .inr ⟨_, τ', huntimed, ?_, hsim⟩
    unfold System.step
    dsimp only
    rw [htodo']
    exact hrun
  cases step_cases hstep with
  | @queueInLoop _ loop _ f _ todo =>
    cases htodo.symm.trans todo
    refine hfollows rfl ?_
    rw [h.loops loop]
    have hnew : ∀ x ∈ (if (σ.loops loop).wantsWakeup (who = loop) then [.wakeup loop] else [] : List (Task ι)),
        x.plain = true := by
      split_ifs
      · simp [Task.plain]
      · exact nofun
    exact h.loop rfl ((h.plain loop).push hplain) ((muted_of_plain hnew).append hm)
  | @wakeup _ loop _ _ todo =>
    cases htodo.symm.trans todo
    refine hfollows rfl ?_
    rw [h.loops loop]
    exact h.loop rfl ⟨(h.plain loop).queue, (h.plain loop).functors, (h.plain loop).events⟩ hm
  | @quit _ loop _ _ todo =>
    cases htodo.symm.trans todo
    refine hfollows rfl ?_
    rw [h.loops loop]
    exact h.loop rfl ⟨(h.plain loop).queue, (h.plain loop).functors, (h.plain loop).events⟩ hm
  | @wakeupRead _ loop _ _ _ todo read =>
    cases htodo.symm.trans todo
    obtain ⟨hzero, rfl⟩ := EventLoop.handleRead_eq_ok read
    have hread' : (τ.loops loop).handleRead = .ok { τ.loops loop with wakeups := 0 } := by
      unfold EventLoop.handleRead
      rw [h.loops loop]
      exact if_neg hzero
    refine hfollows ?_ (h.loop (congrArg (fun l => { l with wakeups := 0 }) (h.loops loop))
      ⟨(h.plain loop).queue, (h.plain loop).functors, (h.plain loop).events⟩ hm)
    unfold System.runTask
    dsimp only
    rw [hread']
  | perform todo result =>
    cases htodo.symm.trans todo
    cases perform_cases result with
    | conn alive result => exact absurd rfl (hconn _ _)
    | @acceptorRead fd w new accept result =>
      obtain ⟨v, hv, halike, hlives, hnew, hborn⟩ := newConnection_alike h.world result
      obtain ⟨loop, hmade, -⟩ := newConnection_born result
      refine hfollows ?_ (h.exchange halike hlives (fun c hc => ?_) (hnew.append (hm.lives hlives)))
      · unfold System.runTask perform
        dsimp only
        rw [accept]
        dsimp only
        rw [hv]
      · rw [hmade.connId]
        rcases hborn c hc with rfl | hc
        · omega
        · have := h.born c hc
          omega
    | _ => cases hplain

theorem Mirrors.run [Fintype ι] (h : Mirrors σ τ) {σ' : System ι}
    (hlive : LiveStep σ (.run who k)) (hunarmed : SendsUnarmed (σ, τ) (.run who k))
    (hstep : σ.step (.run who k) = .ok σ') : Follows σ τ (.run who k) σ' := by
  have hmuted := h.todo who
  generalize htodo : σ.todo who = l at hmuted
  generalize htodo' : τ.todo who = l' at hmuted
  cases hmuted with
  | nil =>
    cases step_cases hstep with
    | perform todo | queueInLoop todo | wakeup todo | quit todo | wakeupRead todo =>
      cases htodo.symm.trans todo
  | @keep t l l' plain hm =>
    have htimer := isTimer_of_plain plain
    have huntimed : σ.untimed (.run who k) = some (.run who k) := by
      rw [untimed_run htodo, htimer]
      · rfl
      · rintro c rfl
        cases plain
    by_cases hconn : ∃ c x, t = .conn c x
    · obtain ⟨c, x, rfl⟩ := hconn
      refine h.run_conn htodo htodo' huntimed hm htimer ?_ hlive hunarmed hstep
      rintro (rfl | rfl)
      all_goals cases plain
    · push Not at hconn
      exact h.run_plain htodo htodo' plain hconn hm huntimed hstep
  | @stop c t l l' plain hm =>
    have huntimed : σ.untimed (.run who k) = some (.run who k) := by
      rw [untimed_run htodo]
      · rfl
      · exact fun _ _ => ⟨t, l, rfl, plain⟩
    exact h.run_conn htodo htodo' huntimed (.keep plain hm) rfl nofun hlive hunarmed hstep
  | @ask c t l l' ht home hm =>
    have htimer : (Task.conn c t : Task ι).isTimer = false := by
      rcases ht with rfl | rfl
      all_goals rfl
    have huntimed : σ.untimed (.run who k) = some (.run who k) := by
      rw [untimed_run htodo, htimer]
      · rfl
      · rintro c' ⟨⟩
        cases ht with
        | inl ht => cases ht
        | inr ht => cases ht
    exact h.run_conn htodo htodo' huntimed hm htimer (fun _ => home) hlive hunarmed hstep
  | @timer t l l' timer home hm =>
    have huntimed : σ.untimed (.run who k) = none := by
      rw [untimed_run htodo, if_pos timer]
      rintro c rfl
      cases timer
    rw [← htodo'] at hm
    exact h.run_timer htodo huntimed timer home hm hlive hstep
  | @arm c ms l l' home isOpen hm =>
    have huntimed : σ.untimed (.run who k) = none := by
      unfold System.untimed
      dsimp only
      rw [htodo]
    obtain ⟨-, w, new, hperform, rfl⟩ := step_conn_eq_ok htodo hstep
    cases hperform
    refine .inl ⟨huntimed, h.stutter (h.world.putConn_left c ((h.world.conns c).arm isOpen)) h.born ?_⟩
    rw [htodo']
    refine .timer rfl ?_ hm
    rintro c' x ⟨⟩
    exact home

omit [DecidableEq ι] in
theorem Mirrors.todo_nil (h : Mirrors σ τ) (htodo : σ.todo who = []) : τ.todo who = [] := by
  have hmuted := h.todo who
  rw [htodo] at hmuted
  generalize τ.todo who = l' at hmuted
  cases hmuted
  rfl

omit [DecidableEq ι] in
theorem Mirrors.todo_user (h : Mirrors σ τ) (htodo : σ.todo who = .user :: rest) :
    ∃ rest', τ.todo who = .user :: rest' ∧ Muted τ.world who rest rest' := by
  have hmuted := h.todo who
  rw [htodo] at hmuted
  generalize τ.todo who = l' at hmuted
  cases hmuted with
  | keep plain hm => exact ⟨_, rfl, hm⟩
  | timer timer home hm => cases timer

theorem Mirrors.call [Fintype ι] (h : Mirrors σ τ) {call : UserCall ι} {σ' : System ι}
    (hlive : call.isLive = true) (hstep : σ.step (.call who call) = .ok σ') :
    Follows σ τ (.call who call) σ' := by
  cases step_cases hstep with
  | call huser hknows =>
    have huser' : τ.inUserCode who = true := by
      cases htodo : σ.todo who with
      | nil =>
        unfold System.inUserCode at huser ⊢
        rw [h.todo_nil htodo, h.loops who]
        rw [htodo] at huser
        exact EventLoop.isOutside_mute.trans huser
      | cons x rest =>
        obtain rfl := top_of_userCode huser htodo
        obtain ⟨rest', htodo', -⟩ := h.todo_user htodo
        unfold System.inUserCode
        rw [htodo']
    have hconnecting : ∀ c, ((τ.world.conns c).state ≠ .kConnecting) = ((σ.world.conns c).state ≠ .kConnecting) :=
      fun c => propext (not_congr (h.world.conns c).connecting)
    have hknows' : τ.world.knows call = true := by
      unfold World.knows at hknows ⊢
      simp only [h.world.alive, hconnecting]
      exact hknows
    have hplain : (call.task who).plain = true := by
      cases call with
      | send c m => rfl
      | shutdown c => rfl
      | runInLoop loop => exact runInLoop_plain who loop .user
      | queueInLoop loop => rfl
      | quit loop => rfl
      | _ => cases hlive
    refine .inr ⟨_, _, rfl, if_pos ⟨huser', hknows'⟩, ?_⟩
    exact h.exchange h.world (.refl _) h.born (.keep hplain (h.todo who))

theorem Mirrors.next [Fintype ι] (h : Mirrors σ τ) {loop : ι} {σ' : System ι}
    (hstep : σ.step (.next loop) = .ok σ') : Follows σ τ (.next loop) σ' := by
  cases step_cases hstep with
  | next hloop htodo hnext =>
    have htodo' := h.todo_nil htodo
    obtain ⟨hplain, ⟨i, active, hphase, rfl, hmute⟩ | ⟨hphase, hnext', hcalls⟩⟩ :=
      EventLoop.next_mute (h.plain loop) hnext
    · have huntimed : σ.untimed (.next loop) = none := by
        unfold System.untimed
        dsimp only
        rw [hphase]
      have hm : Muted τ.world loop [.timerRead i] (τ.todo loop) := by
        rw [htodo']
        exact .timer rfl nofun .nil
      have hsim := h.loop ((h.loops loop).trans hmute.symm) hplain hm
      rw [Function.update_eq_self, Function.update_eq_self] at hsim
      exact .inl ⟨huntimed, hsim⟩
    · have huntimed : σ.untimed (.next loop) = some (.next loop) := by
        unfold System.untimed
        dsimp only
        split
        · exact absurd ‹_› (hphase _ _)
        · rfl
      refine .inr ⟨_, _, huntimed, ?_, h.loop rfl hplain (muted_of_plain hcalls)⟩
      unfold System.step
      dsimp only
      rw [htodo', h.loops loop, hnext']
      dsimp only
      have hloop' : τ.isLoop loop = true := by
        unfold System.isLoop at hloop ⊢
        rw [h.world.server]
        exact hloop
      rw [if_pos hloop']

omit [DecidableEq ι] in
theorem Mirrors.reports [DecidableEq ι] (h : Mirrors σ τ) {loop : ι} {a : ActiveChannel}
    (ha : a ≠ .timer) : τ.reports loop a = σ.reports loop a := by
  unfold System.reports
  cases a with
  | conn c revents =>
    dsimp only
    rw [h.world.pollers, (h.world.conns c).channel]
  | wakeup =>
    dsimp only
    rw [h.loops loop]
    rfl
  | timer => exact absurd rfl ha
  | acceptor =>
    dsimp only
    rw [h.world.server]

omit [DecidableEq ι] in
theorem poll_mute {m : EventLoop (Task ι)} (loop : ι) (active : List ActiveChannel) :
    (m.poll (active.map (·.task loop))).mute =
      m.mute.poll ((active.filter (· ≠ .timer)).map (·.task loop)) := by
  unfold EventLoop.poll EventLoop.mute
  dsimp only
  rw [List.filter_map]
  congr 4
  funext a
  cases a
  all_goals rfl

theorem Mirrors.poll [Fintype ι] (h : Mirrors σ τ) {loop : ι} {active : List ActiveChannel}
    {σ' : System ι} (hstep : σ.step (.poll loop active) = .ok σ') :
    Follows σ τ (.poll loop active) σ' := by
  cases step_cases hstep with
  | poll htodo hphase hnodup hreports =>
    have hphase' : (τ.loops loop).phase = .wait := by
      rw [h.loops loop, EventLoop.mute_of_phase]
      · exact hphase
      · rw [hphase]
        exact nofun
    have hnodup' : ((active.filter (· ≠ .timer)).map (·.channel)).Nodup :=
      hnodup.sublist (List.filter_sublist.map _)
    have hreports' : (active.filter (· ≠ .timer)).all (τ.reports loop) = true := by
      refine List.all_eq_true.mpr fun a ha => ?_
      obtain ⟨ha, hne⟩ := List.mem_filter.mp ha
      rw [h.reports (of_decide_eq_true hne)]
      exact hreports a ha
    have hplain : ((σ.loops loop).poll (active.map (·.task loop))).Plain loop := by
      refine ⟨(h.plain loop).queue, nofun, ?_⟩
      rintro acts ⟨⟩ x hx
      obtain ⟨a, -, rfl⟩ := List.mem_map.mp hx
      exact ⟨a, rfl⟩
    have hsim := h.loop (poll_mute loop active).symm hplain (h.todo loop)
    rw [Function.update_eq_self, Function.update_eq_self, ← h.loops loop] at hsim
    exact .inr ⟨_, _, rfl, if_pos ⟨h.todo_nil htodo, hphase', hnodup', hreports'⟩, hsim⟩

/-- **Every step goes in lock step** with the server without timeouts. -/
theorem Mirrors.step [Fintype ι] (h : Mirrors σ τ) {label : Label ι} {σ' : System ι}
    (hlive : LiveStep σ label) (hunarmed : SendsUnarmed (σ, τ) label)
    (hstep : σ.step label = .ok σ') : Follows σ τ label σ' := by
  cases label with
  | run who k => exact h.run hlive hunarmed hstep
  | call who call => exact h.call hlive hstep
  | ret who =>
    cases step_cases hstep with
    | ret htodo =>
      obtain ⟨rest', htodo', hm⟩ := h.todo_user htodo
      refine .inr ⟨_, _, rfl, ?_, h.exchange h.world (.refl _) h.born hm⟩
      unfold System.step
      dsimp only
      rw [htodo']
  | next loop => exact h.next hstep
  | poll loop active => exact h.poll hstep
  | tick duration =>
    cases hstep
    have hlives : τ.world.Lives { τ.world with clock := τ.world.clock + duration } :=
      ⟨Nat.le_refl _, fun _ _ => rfl, fun _ _ hopen => hopen⟩
    refine .inr ⟨_, _, rfl, rfl, ?_, h.born, h.loops, h.plain, fun i => (h.todo i).lives hlives⟩
    exact ⟨h.world.conns, h.world.alive, h.world.pollers, h.world.server, h.world.log⟩
  | expire loop =>
    cases step_cases hstep
    refine .inl ⟨rfl, ?_, h.born, h.loops, h.plain, h.todo⟩
    exact ⟨h.world.conns, h.world.alive, h.world.pollers, h.world.server, h.world.log⟩
  | destroy c => cases hlive

end

/-! ## Runs -/

/-- What a connection hands to `::write`, and where it shuts down. -/
def ConnEvent.isOutput : ConnEvent ι → Bool
  | .write _ _ | .shutdownWrite => true
  | _ => false

def World.output (w : World ι) (c : Nat) : List (ConnEvent ι) := (w.seen c).filter ConnEvent.isOutput

section

variable [DecidableEq ι] [Fintype ι]

/-- The server without the idle timeout can take the steps of the run, those of the timers apart, and
its connections send the same. -/
def SendsAlike (baseLoop : ι) (ioLoops : List ι) (delay clock : Nat) (count : UInt64)
    (labels : List (Label ι)) : Prop :=
  ∀ σ, Machine.run System.step (System.start baseLoop ioLoops delay clock count) labels = .ok σ →
    ∃ τ, Machine.run System.step (System.start baseLoop ioLoops 0 clock count)
        (Machine.collect System.step (fun σ label => (σ.untimed label).toList)
          (System.start baseLoop ioLoops delay clock count) labels) = .ok τ ∧
      ∀ c, τ.world.output c = σ.world.output c

/-- **The idle timeout does not change what is sent** in a run in which no connection is closed and no
timer fires, if nobody sends over a connection or shuts it down, and no `handleWrite` empties its
output buffer, while it is `kDisconnecting` only because its timer is armed. -/
theorem sends_alike {baseLoop : ι} {ioLoops : List ι} {delay clock : Nat} {count : UInt64}
    {labels : List (Label ι)}
    (hlive : Machine.Along System.step LiveStep (System.start baseLoop ioLoops delay clock count) labels)
    (hunarmed : Machine.Along (Machine.follow System.step System.step System.untimed) SendsUnarmed
      (System.start baseLoop ioLoops delay clock count, System.start baseLoop ioLoops 0 clock count)
      labels) :
    SendsAlike baseLoop ioLoops delay clock count labels := by
  intro σ hrun
  obtain ⟨τ, hrun', hsim⟩ := Machine.run_simulation (R := Mirrors)
    (fun σ τ label σ' hsim hlabel hstep => hsim.step hlabel.1 hlabel.2 hstep)
    (mirrors_start baseLoop ioLoops delay clock count)
    ((Machine.along_follow hlive).and hunarmed) hrun
  refine ⟨τ, hrun', fun c => ?_⟩
  unfold World.output World.seen
  rw [hsim.world.log]

end

/-- With a timeout, the connection callback sends two bytes, and the kernel takes `first` of them. The
timer is armed, and the loop gets back to the test of `m_quit`. -/
def sendInCallbackRun (first : Nat) : List (Label (Fin 1)) :=
  acceptRun ++ [Label.call 0 (.send 0 [1, 2])] ++
    [Label.run 0 .silent, .run 0 ⟨none, some first, none⟩] ++ [Label.ret 0] ++ Label.runs 0 6 ++
    [Label.next 0, .next 0]

def readRun : List (Label (Fin 1)) :=
  sendInCallbackRun 2 ++ [Label.poll 0 [.conn 0 epollIn], .next 0] ++ Label.runs 0 1 ++
    [Label.run 0 ⟨some [3], none, none⟩] ++ Label.runs 0 8 ++ [Label.ret 0] ++ Label.runs 0 1

theorem sends_alike_read :
    ∃ σ, Machine.run System.step (System.start (0 : Fin 1) [] 1 0 0) readRun = .ok σ ∧
      σ.world.output 0 = [.write [1, 2] 2] ∧ SendsAlike (0 : Fin 1) [] 1 0 0 readRun := by
  obtain ⟨σ, hrun, houtput⟩ := eq_ok_of_toOption (b := [.write [1, 2] 2])
    (f := fun σ : System (Fin 1) => σ.world.output 0)
    (x := Machine.run System.step (System.start 0 [] 1 0 0) readRun) (by decide +kernel)
  exact ⟨σ, hrun, houtput, sends_alike (Machine.along_of_check (by decide +kernel))
    (Machine.along_of_check (by decide +kernel))⟩

/-- The kernel takes one byte, and the other one when the channel is writable. -/
def writeLaterRun : List (Label (Fin 1)) :=
  sendInCallbackRun 1 ++ [Label.poll 0 [.conn 0 epollOut], .next 0] ++ Label.runs 0 2 ++
    [Label.run 0 ⟨none, some 1, none⟩]

/-- With the timeout, the connection is shut down when the second byte is written. -/
theorem writeLater_shuts_down :
    ¬ ∀ (delay : Nat) (labels : List (Label (Fin 1))), 0 < delay →
      Machine.Along System.step LiveStep (System.start 0 [] delay 0 0) labels →
      SendsAlike 0 [] delay 0 0 labels := by
  intro h
  obtain ⟨σ, hrun, houtput⟩ := eq_ok_of_toOption
    (b := [.write [1, 2] 1, .write [2] 1, .shutdownWrite])
    (f := fun σ : System (Fin 1) => σ.world.output 0)
    (x := Machine.run System.step (System.start 0 [] 1 0 0) writeLaterRun) (by decide +kernel)
  obtain ⟨τ, hrun', houtput'⟩ := eq_ok_of_toOption (b := [.write [1, 2] 1, .write [2] 1])
    (f := fun τ : System (Fin 1) => τ.world.output 0)
    (x := Machine.run System.step (System.start 0 [] 0 0 0) (Machine.collect System.step
      (fun σ label => (σ.untimed label).toList) (System.start 0 [] 1 0 0) writeLaterRun))
    (by decide +kernel)
  obtain ⟨τ', hrun'', hsame⟩ := h 1 writeLaterRun (by omega)
    (Machine.along_of_check (by decide +kernel)) σ hrun
  rw [hrun'] at hrun''
  cases hrun''
  have hequal := hsame 0
  rw [houtput, houtput'] at hequal
  cases hequal

end VServer

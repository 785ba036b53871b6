import VServer.Net.System

/-!
# What a step can do

Everything a task of a connection does to that connection is in `ConnStep`, and everything a step of
the machine does is in `Move`; both are read off the definitions once (`performConn_spec`,
`step_move`), and invariants are proved by cases on them. `Framed` is what a task of one connection
leaves alone.
-/

namespace VServer

variable {ι : Type}

/-! ## Parts of a connection -/

namespace TcpConnection

variable {conn : TcpConnection ι} {self : Nat} {p : Poller Nat}

theorem withChannel_eq_ok {op : Nat → Poller Nat → Channel → Except Fault (Poller Nat × Channel)}
    {conn' : TcpConnection ι} {p' : Poller Nat} (h : conn.withChannel self p op = .ok (conn', p')) :
    ∃ channel, op self p conn.channel = .ok (p', channel) ∧
      conn' = { conn with channel := channel } := by
  obtain ⟨⟨p₁, channel⟩, hop, hreturn⟩ := bind_eq_ok h
  cases hreturn
  exact ⟨channel, hop, rfl⟩

/-- The channel and the poller after `sendInLoop` or `handleWrite`: the interest in writing has
changed at most. -/
inductive WriteInterest (self : Nat) (p : Poller Nat) (ch : Channel) : Poller Nat → Channel → Prop
  | same : WriteInterest self p ch p ch
  | enabled {p' : Poller Nat} {ch' : Channel} (off : ch.isWritable = false)
      (result : ch.enableWriting self p = .ok (p', ch')) : WriteInterest self p ch p' ch'
  | disabled {p' : Poller Nat} {ch' : Channel} (on : ch.isWritable = true)
      (result : ch.disableWriting self p = .ok (p', ch')) : WriteInterest self p ch p' ch'

/-- `sendInLoop` does not get rid of the whole message by writing it at once. -/
def keepsRest (conn : TcpConnection ι) (message : List Byte) (written : Option Nat) : Bool :=
  if !conn.channel.isWritable && conn.outputBuffer.readableBytes = 0 then
    taken message written < message.length
  else message ≠ []

theorem sendInLoop_spec {sender : ι} {message : List Byte} {written : Option Nat} {r : Result ι}
    (h : conn.sendInLoop self p sender message written = .ok r) :
    ∃ out wrote, WriteInterest self p conn.channel r.2.1 r.1.channel ∧
      (conn.keepsRest message written = false → r.2.1 = p ∧ r.1.channel = conn.channel) ∧
      r.1 = { conn with channel := r.1.channel, outputBuffer := out } ∧
      r.2.2 = wrote ++ [.sent sender message] ∧
      (wrote = [] ∧ out.readable = conn.outputBuffer.readable ++ message ∨
        ∃ n, wrote = [.write message n] ∧ conn.outputBuffer.readable = [] ∧
          out.readable = message.drop n) := by
  unfold sendInLoop at h
  have hout : ∀ n, (conn.outputBuffer.append (message.drop n)).readable =
      conn.outputBuffer.readable ++ message.drop n := fun n => SafeBuffer.append_readable _
  by_cases hdirect : (!conn.channel.isWritable && conn.outputBuffer.readableBytes = 0) = true
  · -- the direct write, which is only made when nothing waits
    have hempty : conn.outputBuffer.readable = [] :=
      SafeBuffer.readableBytes_eq_zero.mp (by simpa using (Bool.and_eq_true_iff.mp hdirect).2)
    have hwritable : conn.channel.isWritable = false := by
      simpa using (Bool.and_eq_true_iff.mp hdirect).1
    simp only [hdirect, if_true] at h
    by_cases hrest : taken message written < message.length
    · rw [if_pos hrest, if_neg (by simp [hwritable])] at h
      obtain ⟨⟨conn', p'⟩, hop, hreturn⟩ := bind_eq_ok h
      obtain ⟨channel, hchannel, rfl⟩ := withChannel_eq_ok hop
      cases hreturn
      refine ⟨_, _, .enabled hwritable hchannel, ?_, rfl, rfl, .inr ⟨_, rfl, hempty, ?_⟩⟩
      · simp [keepsRest, hdirect, hrest]
      · rw [hout, hempty, List.nil_append]
    · rw [if_neg hrest] at h
      cases h
      refine ⟨_, _, .same, fun _ => ⟨rfl, rfl⟩, rfl, rfl, .inr ⟨_, rfl, hempty, ?_⟩⟩
      rw [hempty, List.drop_eq_nil_of_le (by omega)]
  · rw [Bool.not_eq_true] at hdirect
    simp only [hdirect, Bool.false_eq_true, if_false, List.nil_append, List.drop_zero] at h
    by_cases hrest : 0 < message.length
    · rw [if_pos hrest] at h
      have hkeeps : conn.keepsRest message written = true := by
        simpa [keepsRest, hdirect] using List.ne_nil_of_length_pos hrest
      by_cases hwritable : conn.channel.isWritable = true
      · rw [if_pos hwritable] at h
        cases h
        exact ⟨_, [], .same, fun _ => ⟨rfl, rfl⟩, rfl, rfl, .inl ⟨rfl, hout 0⟩⟩
      · rw [if_neg hwritable] at h
        obtain ⟨⟨conn', p'⟩, hop, hreturn⟩ := bind_eq_ok h
        obtain ⟨channel, hchannel, rfl⟩ := withChannel_eq_ok hop
        cases hreturn
        refine ⟨_, [], .enabled (by simpa using hwritable) hchannel, ?_, rfl, rfl, .inl ⟨rfl, hout 0⟩⟩
        simp [hkeeps]
    · rw [if_neg hrest] at h
      cases h
      have hempty : message = [] := List.eq_nil_of_length_eq_zero (by omega)
      exact ⟨_, [], .same, fun _ => ⟨rfl, rfl⟩, rfl, rfl, .inl ⟨rfl, by simp [hempty]⟩⟩

/-- What `handleWrite` can do: nothing without interest in writing, and else one write, behind which
bytes are left or the buffer is empty. -/
inductive WriteStep (conn : TcpConnection ι) (self : Nat) (p : Poller Nat) (written : Option Nat) :
    Result ι → Prop
  | unwatched (off : conn.channel.isWritable = false) : WriteStep conn self p written (conn, p, [])
  | failed (on : conn.channel.isWritable = true)
      (none : taken conn.outputBuffer.readable written = 0) :
    WriteStep conn self p written
      (conn, p, [.write conn.outputBuffer.readable (taken conn.outputBuffer.readable written)])
  | left (on : conn.channel.isWritable = true)
      (waits : (conn.outputBuffer.retrieve (taken conn.outputBuffer.readable written)).readable ≠ []) :
    WriteStep conn self p written
      ({ conn with
          outputBuffer := conn.outputBuffer.retrieve (taken conn.outputBuffer.readable written) },
        p, [.write conn.outputBuffer.readable (taken conn.outputBuffer.readable written)])
  | drained {channel : Channel} {p' : Poller Nat} (on : conn.channel.isWritable = true)
      (empty : (conn.outputBuffer.retrieve (taken conn.outputBuffer.readable written)).readable = [])
      (result : conn.channel.disableWriting self p = .ok (p', channel)) :
    WriteStep conn self p written
      ({ conn with
          channel := channel
          outputBuffer := conn.outputBuffer.retrieve (taken conn.outputBuffer.readable written) },
        p', .write conn.outputBuffer.readable (taken conn.outputBuffer.readable written) ::
          if conn.state = .kDisconnecting then [.shutdownWrite] else [])

theorem handleWrite_cases {written : Option Nat} {r : Result ι}
    (h : conn.handleWrite self p written = .ok r) : WriteStep conn self p written r := by
  unfold handleWrite at h
  by_cases hwritable : conn.channel.isWritable = true
  · rw [if_pos hwritable] at h
    dsimp only at h
    split_ifs at h with hn hempty
    · obtain ⟨⟨conn', p'⟩, hop, hreturn⟩ := bind_eq_ok h
      obtain ⟨channel, hchannel, rfl⟩ := withChannel_eq_ok hop
      cases hreturn
      -- the interest is gone, so `shutdownInLoop` shuts down
      have hoff : channel.isWritable = false := Channel.disableWriting_isWritable hchannel
      simp only [shutdownInLoop, hoff]
      exact .drained hwritable (SafeBuffer.readableBytes_eq_zero.mp hempty) hchannel
    · cases h
      simp only [shutdownInLoop, hwritable, if_true, ite_self]
      exact .left hwritable fun hnil => hempty (SafeBuffer.readableBytes_eq_zero.mpr hnil)
    · cases h
      exact .failed hwritable (Nat.eq_zero_of_not_pos hn)
  · rw [if_neg hwritable] at h
    cases h
    exact .unwatched (Bool.not_eq_true _ ▸ hwritable)

theorem handleWrite_spec {written : Option Nat} {r : Result ι}
    (h : conn.handleWrite self p written = .ok r) :
    ∃ out wrote shut, WriteInterest self p conn.channel r.2.1 r.1.channel ∧
      r.1 = { conn with channel := r.1.channel, outputBuffer := out } ∧
      r.2.2 = wrote ++ shut ∧ (shut = [] ∨ shut = [.shutdownWrite]) ∧
      (wrote = [] ∧ out = conn.outputBuffer ∨
        ∃ n, wrote = [.write conn.outputBuffer.readable n] ∧
          out.readable = conn.outputBuffer.readable.drop n) := by
  cases handleWrite_cases h with
  | unwatched off => exact ⟨_, [], [], .same, rfl, rfl, .inl rfl, .inl ⟨rfl, rfl⟩⟩
  | failed on none =>
    refine ⟨_, [_], [], .same, rfl, rfl, .inl rfl, .inr ⟨_, rfl, ?_⟩⟩
    rw [none, List.drop_zero]
  | left on waits =>
    exact ⟨_, [_], [], .same, rfl, rfl, .inl rfl, .inr ⟨_, rfl, SafeBuffer.retrieve_readable _⟩⟩
  | drained on empty result =>
    refine ⟨_, [_], if conn.state = .kDisconnecting then [.shutdownWrite] else [], .disabled on result,
      rfl, rfl, ?_, .inr ⟨_, rfl, SafeBuffer.retrieve_readable _⟩⟩
    split_ifs
    · exact .inr rfl
    · exact .inl rfl

end TcpConnection

/-- A connection with what surrounds it: the poller of its loop, and whether `m_connections` has
it. -/
structure Link (ι : Type) where
  conn : TcpConnection ι
  poller : Poller Nat
  registered : Bool

def World.link (w : World ι) (c : Nat) : Link ι :=
  ⟨w.conns c, w.pollers (w.conns c).loop, w.server.connections c⟩

/-- What a task of connection `c` does, when thread `who` performs it: how the connection and what
surrounds it change, what is seen, and what the thread does next. -/
inductive ConnStep [DecidableEq ι] (who : ι) (k : Kernel) (base : ι) (c : Nat) (l : Link ι) :
    ConnTask ι → Link ι → List (ConnEvent ι) → List (Task ι) → Prop
  | handleEvent (revents : BitVec 32) :
    ConnStep who k base c l (.handleEvent revents) l [] ((eventTasks revents).map (.conn c))
  | eof {data : List Byte} (loop : who = l.conn.loop) (readv : k.readv = some data)
      (empty : data.take l.conn.inputBuffer.raw.offered = []) :
    ConnStep who k base c l .handleRead l [] [.conn c .handleClose]
  | read {data : List Byte} (loop : who = l.conn.loop) (readv : k.readv = some data) :
    ConnStep who k base c l .handleRead
      { l with conn := l.conn.receive (data.take l.conn.inputBuffer.raw.offered) } []
      [.conn c .updateTimer, .conn c .messageCallback]
  | writeCallback {new : List (Task ι)} (hnew : new = [.conn c .handleWrite] ∨ new = []) :
    ConnStep who k base c l .writeCallback l [] new
  | handleWrite {r : TcpConnection.Result ι} (loop : who = l.conn.loop)
      (result : l.conn.handleWrite c l.poller k.write = .ok r) :
    ConnStep who k base c l .handleWrite ⟨r.1, r.2.1, l.registered⟩ r.2.2 []
  | handleError : ConnStep who k base c l .handleError l [.error] []
  | handleClose {p : Poller Nat} {channel : Channel} (loop : who = l.conn.loop)
      (isOpen : l.conn.isOpen = true)
      (result : l.conn.channel.disableAll c l.poller = .ok (p, channel)) :
    ConnStep who k base c l .handleClose
      ⟨{ l.conn with channel := channel }, p, l.registered⟩ [.closed] [.conn c .removeConnection]
  | updateTimer {new : List (Task ι)} (hnew : new = [] ∨
      new = [runInLoop who l.conn.loop (.cancelInloop l.conn.loop l.conn.timerId),
        .conn c (.forceCloseAfter l.conn.delay)]) :
    ConnStep who k base c l .updateTimer l [] new
  | messageCallback : ConnStep who k base c l .messageCallback l [.message] [.user]
  | connectEstablished {p : Poller Nat} {channel : Channel} (loop : who = l.conn.loop)
      (connecting : l.conn.state = .kConnecting)
      (result : l.conn.channel.enableReading c l.poller = .ok (p, channel)) :
    ConnStep who k base c l .connectEstablished
      ⟨{ l.conn with state := .kConnected, channel := channel }, p, l.registered⟩
      [.notified .kConnected] [.user, .conn c .delayedClose]
  | delayedClose {new : List (Task ι)} (hnew : new = [] ∨ new = [.conn c (.forceCloseAfter l.conn.delay)]) :
    ConnStep who k base c l .delayedClose l [] new
  | connectDestroyed (loop : who = l.conn.loop) (connected : l.conn.state = .kConnected) :
    ConnStep who k base c l .connectDestroyed l [] [.conn c .setDisconnected]
  | connectDestroyedSilent (loop : who = l.conn.loop) (connected : l.conn.state ≠ .kConnected) :
    ConnStep who k base c l .connectDestroyed l [] [.conn c .channelRemove]
  | setDisconnected :
    ConnStep who k base c l .setDisconnected
      { l with conn := { l.conn with state := .kDisconnected } } [] [.conn c .notifyDown]
  | notifyDown {p : Poller Nat} {channel : Channel}
      (result : l.conn.channel.disableAll c l.poller = .ok (p, channel)) :
    ConnStep who k base c l .notifyDown ⟨{ l.conn with channel := channel }, p, l.registered⟩
      [.notified l.conn.state] [.user, .conn c .channelRemove]
  | channelRemove {p : Poller Nat} {channel : Channel}
      (result : l.conn.channel.remove c l.poller = .ok (p, channel)) :
    ConnStep who k base c l .channelRemove ⟨{ l.conn with channel := channel }, p, l.registered⟩
      [.destroyed l.conn.state] []
  | send {message : List Byte} (connected : l.conn.state = .kConnected) :
    ConnStep who k base c l (.send message) l [.accepted who message]
      [runInLoop who l.conn.loop (.conn c (.sendInLoop who message))]
  | sendIgnored {message : List Byte} (connected : l.conn.state ≠ .kConnected) :
    ConnStep who k base c l (.send message) l [] []
  | sendInLoop {sender : ι} {message : List Byte} {r : TcpConnection.Result ι}
      (loop : who = l.conn.loop)
      (result : l.conn.sendInLoop c l.poller sender message k.write = .ok r) :
    ConnStep who k base c l (.sendInLoop sender message) ⟨r.1, r.2.1, l.registered⟩ r.2.2 []
  | shutdown (connected : l.conn.state = .kConnected) :
    ConnStep who k base c l .shutdown l []
      [.conn c .setDisconnecting, runInLoop who l.conn.loop (.conn c .shutdownInLoop)]
  | shutdownIgnored (connected : l.conn.state ≠ .kConnected) : ConnStep who k base c l .shutdown l [] []
  | shutdownInLoop (loop : who = l.conn.loop) :
    ConnStep who k base c l .shutdownInLoop l l.conn.shutdownInLoop []
  | forceClose (isOpen : l.conn.isOpen = true) :
    ConnStep who k base c l .forceClose l []
      [.conn c .setDisconnecting, .queueInLoop l.conn.loop (.conn c .forceCloseInLoop)]
  | forceCloseIgnored (isOpen : l.conn.isOpen = false) : ConnStep who k base c l .forceClose l [] []
  | forceCloseInLoop (loop : who = l.conn.loop) (isOpen : l.conn.isOpen = true) :
    ConnStep who k base c l .forceCloseInLoop l [] [.conn c .handleClose]
  | forceCloseInLoopIgnored (loop : who = l.conn.loop) (isOpen : l.conn.isOpen = false) :
    ConnStep who k base c l .forceCloseInLoop l [] []
  | forceCloseAfter {ms : Nat} (isOpen : l.conn.isOpen = true) :
    ConnStep who k base c l (.forceCloseAfter ms) l []
      [.conn c .setDisconnecting, .conn c (.runForceCloseAfter ms)]
  | forceCloseAfterIgnored {ms : Nat} (isOpen : l.conn.isOpen = false) :
    ConnStep who k base c l (.forceCloseAfter ms) l [] []
  | setDisconnecting :
    ConnStep who k base c l .setDisconnecting
      { l with conn := { l.conn with state := .kDisconnecting } } [] []
  | runForceCloseAfter {ms : Nat} (timer : Timer TimerCallback) :
    ConnStep who k base c l (.runForceCloseAfter ms) l []
      [runInLoop who l.conn.loop (.addTimerInloop l.conn.loop timer), .conn c (.storeTimerId timer.id)]
  | storeTimerId {id : UInt64} :
    ConnStep who k base c l (.storeTimerId id)
      { l with conn := { l.conn with timerId := id } } [] []
  | removeConnection :
    ConnStep who k base c l .removeConnection l []
      [runInLoop who base (.conn c .removeConnectionInLoop)]
  | removeConnectionInLoop (loop : who = base) (registered : l.registered = true) :
    ConnStep who k base c l .removeConnectionInLoop { l with registered := false } [.removed]
      [.queueInLoop l.conn.loop (.conn c .connectDestroyed)]

/-- A task of connection `c`, seen as `events`, leaves everything else alone. -/
structure Framed (c : Nat) (w w' : World ι) (events : List (ConnEvent ι)) : Prop where
  conns : ∀ c', c' ≠ c → w'.conns c' = w.conns c'
  loop : (w'.conns c).loop = (w.conns c).loop
  fd : (w'.conns c).channel.fd = (w.conns c).channel.fd
  alive : w'.alive = w.alive
  pollers : ∀ i, i ≠ (w.conns c).loop → w'.pollers i = w.pollers i
  sameBut : Poller.SameBut (w.conns c).channel.fd (w.pollers (w.conns c).loop)
    (w'.pollers (w.conns c).loop)
  connections : ∀ c', c' ≠ c → w'.server.connections c' = w.server.connections c'
  connId : w'.server.connId = w.server.connId
  threadPool : w.server.threadPool.SameLoops w'.server.threadPool
  log : w'.log = w.log ++ events.map (c, ·)

/-! ## Performing a task -/

section perform

variable {who : ι} {k : Kernel} {w : World ι} {c : Nat}

theorem Framed.refl (c : Nat) (w : World ι) : Framed c w w [] where
  conns _ _ := rfl
  loop := rfl
  fd := rfl
  alive := rfl
  pollers _ _ := rfl
  sameBut := .refl _ _
  connections _ _ := rfl
  connId := rfl
  threadPool := ⟨rfl, rfl⟩
  log := by simp

theorem framed_note (event : ConnEvent ι) : Framed c w (w.note c event) [event] :=
  { Framed.refl c w with log := rfl }

theorem updateChannel_frame {self : Nat} {p p' : Poller Nat} {ch ch₁ ch' : Channel}
    (hch : ch₁.fd = ch.fd) (h : p.updateChannel self ch₁ = .ok (p', ch')) :
    ch'.fd = ch.fd ∧ Poller.SameBut ch.fd p p' := by
  obtain ⟨hfd, -, -, hsame, -⟩ := Poller.updateChannel_spec h
  rw [hch] at hfd hsame
  exact ⟨hfd, hsame⟩

theorem remove_eq_ok {self : Nat} {p : Poller Nat} {ch : Channel} {r : Poller Nat × Channel}
    (h : ch.remove self p = .ok r) : ch.events = Channel.kNoneEvent ∧ p.removeChannel self ch = .ok r := by
  unfold Channel.remove at h
  split_ifs at h with hnone
  exact ⟨by simpa [Channel.isNoneEvent] using hnone, h⟩

theorem TcpConnection.WriteInterest.frame {self : Nat} {p p' : Poller Nat} {ch ch' : Channel}
    (h : TcpConnection.WriteInterest self p ch p' ch') :
    ch'.fd = ch.fd ∧ Poller.SameBut ch.fd p p' := by
  cases h with
  | same => exact ⟨rfl, .refl _ _⟩
  | enabled off result => exact updateChannel_frame (by rfl) result
  | disabled on result => exact updateChannel_frame (by rfl) result

theorem link_putConn {conn : TcpConnection ι} {events : List (ConnEvent ι)}
    (hloop : conn.loop = (w.conns c).loop) :
    (w.putConn c conn events).link c = { w.link c with conn := conn } := by
  simp [World.link, World.putConn, hloop]

theorem framed_putConn {conn : TcpConnection ι} {events : List (ConnEvent ι)}
    (hloop : conn.loop = (w.conns c).loop) (hfd : conn.channel.fd = (w.conns c).channel.fd) :
    Framed c w (w.putConn c conn events) events where
  conns _ hc := Function.update_of_ne hc _ _
  loop := by simp [World.putConn, hloop]
  fd := by simp [World.putConn, hfd]
  alive := rfl
  pollers _ _ := rfl
  sameBut := .refl _ _
  connections _ _ := rfl
  connId := rfl
  threadPool := ⟨rfl, rfl⟩
  log := rfl

variable [DecidableEq ι]

theorem link_put {r : TcpConnection.Result ι} (hloop : r.1.loop = (w.conns c).loop) :
    (w.put c r).link c = ⟨r.1, r.2.1, (w.link c).registered⟩ := by
  simp [World.link, World.put, hloop]

theorem framed_put {r : TcpConnection.Result ι} (hloop : r.1.loop = (w.conns c).loop)
    (hfd : r.1.channel.fd = (w.conns c).channel.fd)
    (hsame : Poller.SameBut (w.conns c).channel.fd (w.pollers (w.conns c).loop) r.2.1) :
    Framed c w (w.put c r) r.2.2 where
  conns _ hc := Function.update_of_ne hc _ _
  loop := by simp [World.put, hloop]
  fd := by simp [World.put, hfd]
  alive := rfl
  pollers _ hi := Function.update_of_ne hi _ _
  sameBut := by simpa [World.put] using hsame
  connections _ _ := rfl
  connId := rfl
  threadPool := ⟨rfl, rfl⟩
  log := rfl

theorem finish_eq_ok {r : Except Fault (TcpConnection.Result ι)} {tasks new : List (Task ι)}
    {w' : World ι} (h : w.finish c r tasks = .ok (w', new)) :
    ∃ r', r = .ok r' ∧ w' = w.put c r' ∧ new = tasks := by
  unfold World.finish at h
  split at h
  · rename_i r'
    cases h
    exact ⟨r', rfl, rfl, rfl⟩
  · cases h

theorem withLoop_eq_ok {loop : ι} {x : Except Halt (World ι × List (Task ι))}
    {r : World ι × List (Task ι)}
    (h : (if who = loop then x else .error (.fault (.assertion .inLoopThread))) = .ok r) :
    who = loop ∧ x = .ok r := by
  split_ifs at h with hwho
  exact ⟨hwho, h⟩

theorem TcpConnection.WriteInterest.isReadable {self : Nat} {p p' : Poller Nat} {ch ch' : Channel}
    (h : TcpConnection.WriteInterest self p ch p' ch') : ch'.isReadable = ch.isReadable := by
  cases h with
  | same => rfl
  | enabled off result => exact Channel.enableWriting_isReadable result
  | disabled on result => exact Channel.disableWriting_isReadable result

/-- **What a task of a connection does**, when it can be performed at all. -/
theorem performConn_spec {t : ConnTask ι} {w' : World ι} {new : List (Task ι)}
    (h : performConn who k w c t = .ok (w', new)) :
    ∃ events, ConnStep who k w.server.threadPool.baseLoop c (w.link c) t (w'.link c) events new ∧
      Framed c w w' events := by
  have hput : ∀ {t : ConnTask ι} {r : TcpConnection.Result ι} {new : List (Task ι)},
      r.1.loop = (w.conns c).loop →
      r.1.channel.fd = (w.conns c).channel.fd ∧
        Poller.SameBut (w.conns c).channel.fd (w.pollers (w.conns c).loop) r.2.1 →
      ConnStep who k w.server.threadPool.baseLoop c (w.link c) t
        ⟨r.1, r.2.1, (w.link c).registered⟩ r.2.2 new →
      ∃ events, ConnStep who k w.server.threadPool.baseLoop c (w.link c) t ((w.put c r).link c)
        events new ∧ Framed c w (w.put c r) events := by
    intro t r new hloop hframe hstep
    exact ⟨_, by rwa [link_put hloop], framed_put hloop hframe.1 hframe.2⟩
  have hputConn : ∀ {t : ConnTask ι} {conn : TcpConnection ι} {events : List (ConnEvent ι)}
      {new : List (Task ι)}, conn.loop = (w.conns c).loop →
      conn.channel.fd = (w.conns c).channel.fd →
      ConnStep who k w.server.threadPool.baseLoop c (w.link c) t { w.link c with conn := conn }
        events new →
      ∃ events', ConnStep who k w.server.threadPool.baseLoop c (w.link c) t
        ((w.putConn c conn events).link c) events' new ∧
        Framed c w (w.putConn c conn events) events' := by
    intro t conn events new hloop hfd hstep
    exact ⟨_, by rwa [link_putConn hloop], framed_putConn hloop hfd⟩
  cases t with
  | handleEvent revents =>
    cases h
    exact ⟨_, .handleEvent revents, .refl _ _⟩
  | handleRead =>
    obtain ⟨hwho, h⟩ := withLoop_eq_ok h
    split at h
    · cases h
    rename_i data hreadv
    dsimp only at h
    split_ifs at h with hempty
    · cases h
      exact ⟨_, .eof hwho hreadv hempty, .refl _ _⟩
    · cases h
      exact hputConn rfl rfl (.read hwho hreadv)
  | writeCallback =>
    cases h
    refine ⟨_, .writeCallback ?_, .refl _ _⟩
    split_ifs
    · exact .inl rfl
    · exact .inr rfl
  | handleWrite =>
    obtain ⟨hwho, h⟩ := withLoop_eq_ok h
    obtain ⟨r, hr, rfl, rfl⟩ := finish_eq_ok h
    obtain ⟨out, -, -, hinterest, hconn, -⟩ := TcpConnection.handleWrite_spec hr
    exact hput (by rw [hconn]) hinterest.frame (.handleWrite hwho hr)
  | handleError =>
    cases h
    exact ⟨_, .handleError, framed_note _⟩
  | handleClose =>
    obtain ⟨hwho, h⟩ := withLoop_eq_ok h
    obtain ⟨r, hr, rfl, rfl⟩ := finish_eq_ok h
    unfold TcpConnection.handleClose at hr
    split_ifs at hr with hopen
    obtain ⟨⟨conn', p'⟩, hop, hreturn⟩ := bind_eq_ok hr
    obtain ⟨channel, hchannel, rfl⟩ := TcpConnection.withChannel_eq_ok hop
    cases hreturn
    exact hput rfl (updateChannel_frame (by rfl) hchannel) (.handleClose hwho hopen hchannel)
  | updateTimer =>
    cases h
    refine ⟨_, .updateTimer ?_, .refl _ _⟩
    split_ifs
    · exact .inr rfl
    · exact .inl rfl
  | messageCallback =>
    cases h
    exact ⟨_, .messageCallback, framed_note _⟩
  | connectEstablished =>
    obtain ⟨hwho, h⟩ := withLoop_eq_ok h
    obtain ⟨r, hr, rfl, rfl⟩ := finish_eq_ok h
    unfold TcpConnection.connectEstablished at hr
    split_ifs at hr with hconnecting
    obtain ⟨⟨conn', p'⟩, hop, hreturn⟩ := bind_eq_ok hr
    obtain ⟨channel, hchannel, rfl⟩ := TcpConnection.withChannel_eq_ok hop
    cases hreturn
    exact hput rfl (updateChannel_frame (by rfl) hchannel) (.connectEstablished hwho hconnecting hchannel)
  | delayedClose =>
    cases h
    refine ⟨_, .delayedClose ?_, .refl _ _⟩
    split_ifs
    · exact .inr rfl
    · exact .inl rfl
  | connectDestroyed =>
    obtain ⟨hwho, h⟩ := withLoop_eq_ok h
    cases h
    refine ⟨_, ?_, .refl _ _⟩
    split_ifs with hconnected
    · exact .connectDestroyed hwho hconnected
    · exact .connectDestroyedSilent hwho hconnected
  | setDisconnected =>
    cases h
    exact hputConn rfl rfl .setDisconnected
  | notifyDown =>
    obtain ⟨r, hr, rfl, rfl⟩ := finish_eq_ok h
    obtain ⟨⟨conn', p'⟩, hop, hreturn⟩ := bind_eq_ok hr
    obtain ⟨channel, hchannel, rfl⟩ := TcpConnection.withChannel_eq_ok hop
    cases hreturn
    exact hput rfl (updateChannel_frame (by rfl) hchannel) (.notifyDown hchannel)
  | channelRemove =>
    obtain ⟨r, hr, rfl, rfl⟩ := finish_eq_ok h
    obtain ⟨⟨conn', p'⟩, hop, hreturn⟩ := bind_eq_ok hr
    obtain ⟨channel, hchannel, rfl⟩ := TcpConnection.withChannel_eq_ok hop
    cases hreturn
    obtain ⟨-, hremove⟩ := remove_eq_ok hchannel
    obtain ⟨hfd, -, -, hsame, -⟩ := Poller.removeChannel_spec hremove
    exact hput rfl ⟨hfd, hsame⟩ (.channelRemove hchannel)
  | send message =>
    unfold performConn at h
    dsimp only at h
    split_ifs at h with hconnected
    · cases h
      exact ⟨_, .send hconnected, framed_note _⟩
    · cases h
      exact ⟨_, .sendIgnored hconnected, .refl _ _⟩
  | sendInLoop sender message =>
    obtain ⟨hwho, h⟩ := withLoop_eq_ok h
    obtain ⟨r, hr, rfl, rfl⟩ := finish_eq_ok h
    obtain ⟨out, -, hinterest, -, hconn, -⟩ := TcpConnection.sendInLoop_spec hr
    exact hput (by rw [hconn]) hinterest.frame (.sendInLoop hwho hr)
  | shutdown =>
    cases h
    refine ⟨_, ?_, .refl _ _⟩
    split_ifs with hconnected
    · exact .shutdown hconnected
    · exact .shutdownIgnored hconnected
  | shutdownInLoop =>
    obtain ⟨hwho, h⟩ := withLoop_eq_ok h
    cases h
    exact hputConn rfl rfl (.shutdownInLoop hwho)
  | forceClose =>
    cases h
    refine ⟨_, ?_, .refl _ _⟩
    split_ifs with hopen
    · exact .forceClose hopen
    · exact .forceCloseIgnored (Bool.eq_false_iff.mpr hopen)
  | forceCloseInLoop =>
    obtain ⟨hwho, h⟩ := withLoop_eq_ok h
    cases h
    refine ⟨_, ?_, .refl _ _⟩
    split_ifs with hopen
    · exact .forceCloseInLoop hwho hopen
    · exact .forceCloseInLoopIgnored hwho (Bool.eq_false_iff.mpr hopen)
  | forceCloseAfter ms =>
    cases h
    refine ⟨_, ?_, .refl _ _⟩
    split_ifs with hopen
    · exact .forceCloseAfter hopen
    · exact .forceCloseAfterIgnored (Bool.eq_false_iff.mpr hopen)
  | setDisconnecting =>
    cases h
    exact hputConn rfl rfl .setDisconnecting
  | runForceCloseAfter ms =>
    cases h
    exact ⟨_, .runForceCloseAfter ⟨.weakForceClose c, timeAdd (getCurrentTimeMS w.clock) ms, 0,
      w.count + 1⟩, { Framed.refl c w with }⟩
  | storeTimerId id =>
    cases h
    exact hputConn rfl rfl .storeTimerId
  | removeConnection =>
    cases h
    exact ⟨_, .removeConnection, .refl _ _⟩
  | removeConnectionInLoop =>
    obtain ⟨hwho, h⟩ := withLoop_eq_ok h
    split_ifs at h with hregistered
    split at h
    · rename_i pool hpool
      cases h
      refine ⟨[.removed], ?_, ?_⟩
      · have hstep := ConnStep.removeConnectionInLoop (k := k) (l := w.link c) (c := c) hwho hregistered
        simpa [World.link, World.note] using hstep
      · exact { Framed.refl c w with
          connections := fun _ hc => Function.update_of_ne hc _ _
          threadPool := EventLoopThreadPool.removeLoopConnection_sameLoops hpool
          log := rfl }
    · cases h

end perform

end VServer

import VServer.Http.Session
import VServer.Net.ChannelRuns
import VServer.Net.WriteInterest

/-!
# A conversation

One connection of the HTTP server on the thread of its loop, from the socket to the callback and back:
`handleRead` with `onMessage` as the message callback, `handleWrite` when the poller says so, and the
end of the connection. `readv` returns what has come, and `::write` takes as much as it likes. There is
no timeout (`timeout_ms` is 0), and nothing else has a pointer to the connection, since `HttpServer`
gives none away.
-/

namespace VServer

open Http Machine

structure Conversation where
  conn : TcpConnection Unit
  /-- `m_inputBuffer`; that of `conn` is not used. -/
  input : Buffer
  poller : Poller Nat
  /-- What was observed. No code reads it. -/
  events : List (ConnEvent Unit)

namespace Conversation

inductive Label where
  /-- `handleRead`, for what `readv` returns, and for what `::write` answers if `send` calls it -/
  | read (piece : List Byte) (written : Option Nat)
  | write (written : Option Nat)
  /-- `handleClose`, at the end of the stream or when the peer hangs up -/
  | close

/-- An accepted connection behind `connectEstablished`. -/
def established (sockfd : Nat) : Except Fault Conversation := do
  let (conn, poller, events) ← (TcpConnection.init () sockfd 0).connectEstablished 0 .init
  return ⟨conn, .init Buffer.kInitialSize, poller, events⟩

section

variable (s : Conversation)

def put (r : TcpConnection.Result Unit) : Conversation :=
  { s with conn := r.1, poller := r.2.1, events := s.events ++ r.2.2 }

/-- `conn->send(message)` -/
def send (message : List Byte) (written : Option Nat) : Except Fault Conversation :=
  if s.conn.state = .kConnected then
    (s.conn.sendInLoop 0 s.poller () message written).map s.put
  else .ok s

/-- `conn->shutdown()` -/
def shutdown : Conversation :=
  if s.conn.state = .kConnected then
    let conn := { s.conn with state := .kDisconnecting }
    { s with conn := conn, events := s.events ++ conn.shutdownInLoop }
  else s

/-- `onMessage`, from `conn->send(r)` on. -/
def answer (e : Exchange) (written : Option Nat) : Except Fault Conversation := do
  let s ← s.send e.sent written
  return if e.close then s.shutdown else s

/-- What `::write` has taken. -/
def wire : List Byte := s.events.flatMap ConnEvent.wire

/-- What waits in `m_outputBuffer`. -/
def backlog : List Byte := s.conn.outputBuffer.readable

end

section

variable (server : HttpServer) (platform : Platform) (s : Conversation)

def handleRead (piece : List Byte) (written : Option Nat) : Except Fault Conversation := do
  let (input, e) ← server.receive platform s.input piece
  answer { s with input := input } e written

def step : Label → Except Halt Conversation
  | .read piece written =>
    if s.conn.channel.isReadable ∧ piece ≠ [] ∧ piece.length ≤ s.input.offered then
      match s.handleRead server platform piece written with
      | .ok s' => .ok s'
      | .error f => .error (.fault f)
    else .error .disabled
  | .write written =>
    if s.conn.channel.isWritable then
      match s.conn.handleWrite 0 s.poller written with
      | .ok r => .ok (s.put r)
      | .error f => .error (.fault f)
    else .error .disabled
  | .close =>
    if s.conn.channel.isReadable then
      match s.conn.handleClose 0 s.poller with
      | .ok r => .ok (s.put r)
      | .error f => .error (.fault f)
    else .error .disabled

end

/-- What the reads of a run return, one after another. -/
def received (labels : List Label) : List (List Byte) :=
  labels.filterMap fun
    | .read piece _ => some piece
    | _ => none

variable {s s' : Conversation} {server : HttpServer} {platform : Platform}

/-! ## The way out -/

def closes (exchanges : List Exchange) : Bool := exchanges.any (·.close)

theorem closes_concat (exchanges : List Exchange) (e : Exchange) :
    closes (exchanges ++ [e]) = (closes exchanges || e.close) := by
  simp [closes]

theorem outgoing_concat (exchanges : List Exchange) (e : Exchange) :
    HttpServer.outgoing (exchanges ++ [e]) =
      HttpServer.outgoing exchanges ++ if closes exchanges then [] else e.sent := by
  induction exchanges with
  | nil => simp [HttpServer.outgoing, closes]
  | cons d exchanges ih =>
    have hcloses : closes (d :: exchanges) = (d.close || closes exchanges) := by simp [closes]
    rw [List.cons_append, HttpServer.outgoing, HttpServer.outgoing, ih, hcloses]
    cases d.close <;> simp

/-- What goes out is what was answered. The channel is watched for writing while something waits, and
`SHUT_WR` is issued when an exchange has asked to close and nothing waits any more. -/
structure Sends (s : Conversation) (exchanges : List Exchange) : Prop where
  stream : s.wire ++ s.backlog = HttpServer.outgoing exchanges
  state : s.conn.state = if closes exchanges then .kDisconnecting else .kConnected
  mirrors : s.conn.channel.isReadable = true → s.conn.Mirrors
  closed : s.conn.channel.isReadable = false → s.conn.channel.isWritable = false
  shut : .shutdownWrite ∈ s.events → closes exchanges = true ∧ s.backlog = []
  shuts : closes exchanges = true → s.conn.channel.isReadable = true → s.backlog = [] →
    .shutdownWrite ∈ s.events

theorem wire_put (s : Conversation) (r : TcpConnection.Result Unit) :
    (s.put r).wire = s.wire ++ r.2.2.flatMap ConnEvent.wire := by
  simp [wire, put]

theorem send_spec {message : List Byte} {written : Option Nat} (hstate : s.conn.state = .kConnected)
    (hmirrors : s.conn.Mirrors) (h : s.send message written = .ok s') :
    s'.wire ++ s'.backlog = s.wire ++ s.backlog ++ message ∧ s'.conn.state = .kConnected ∧
      s'.conn.channel.isReadable = s.conn.channel.isReadable ∧ s'.conn.Mirrors ∧
      (.shutdownWrite ∈ s'.events → .shutdownWrite ∈ s.events) ∧ s'.input = s.input := by
  rw [send, if_pos hstate] at h
  obtain ⟨r, hsend, rfl⟩ := map_eq_ok h
  have hafter := TcpConnection.sendInLoop_mirrors hmirrors hsend
  obtain ⟨out, wrote, hinterest, -, hconn, hevents, hout⟩ := TcpConnection.sendInLoop_spec hsend
  have hbacklog : (s.put r).backlog = out.readable := by
    show r.1.outputBuffer.readable = _
    rw [hconn]
  refine ⟨?_, ?_, hinterest.isReadable, hafter, ?_, rfl⟩
  · rw [wire_put, hbacklog, hevents]
    rcases hout with ⟨rfl, hout⟩ | ⟨n, rfl, hempty, hout⟩
    · simp [hout, backlog, ConnEvent.wire]
    · simp [hout, backlog, hempty, ConnEvent.wire]
  · show r.1.state = _
    rw [hconn]
    exact hstate
  · intro hmem
    rcases List.mem_append.mp hmem with hold | hnew
    · exact hold
    · rw [hevents] at hnew
      rcases hout with ⟨rfl, -⟩ | ⟨n, rfl, -⟩ <;> simp at hnew

theorem Sends.answer {exchanges : List Exchange} {e : Exchange} {written : Option Nat}
    (h : s.Sends exchanges) (hopen : s.conn.channel.isReadable = true)
    (hanswer : s.answer e written = .ok s') : s'.Sends (exchanges ++ [e]) ∧ s'.input = s.input := by
  obtain ⟨s₁, hsend, hreturn⟩ := bind_eq_ok hanswer
  cases hreturn
  have hmirrors := h.mirrors hopen
  have hstate := h.state
  cases hcloses : closes exchanges with
  | true =>
    -- nothing is sent any more
    rw [hcloses, if_pos rfl] at hstate
    rw [send, if_neg (by simp [hstate])] at hsend
    cases hsend
    have hquiet : s.shutdown = s := by
      rw [shutdown, if_neg (by simp [hstate])]
    have hsame : (if e.close then s.shutdown else s) = s := by
      rw [hquiet, ite_self]
    have hstill : closes (exchanges ++ [e]) = true := by simp [closes_concat, hcloses]
    rw [hsame]
    refine ⟨⟨?_, ?_, h.mirrors, h.closed, fun hmem => ⟨hstill, (h.shut hmem).2⟩,
      fun _ => h.shuts hcloses⟩, rfl⟩
    · rw [outgoing_concat, hcloses, if_pos rfl, List.append_nil, h.stream]
    · rw [hstill, hstate, if_pos rfl]
  | false =>
    rw [hcloses, if_neg Bool.false_ne_true] at hstate
    obtain ⟨hstream, hstate₁, hopen₁, hmirrors₁, hshut₁, hinput⟩ :=
      send_spec hstate hmirrors hsend
    have hnotshut : .shutdownWrite ∉ s₁.events := by
      intro hmem
      have hshut := (h.shut (hshut₁ hmem)).1
      rw [hcloses] at hshut
      cases hshut
    have hout : s₁.wire ++ s₁.backlog = HttpServer.outgoing (exchanges ++ [e]) := by
      rw [hstream, h.stream, outgoing_concat, hcloses, if_neg Bool.false_ne_true]
    rw [hopen] at hopen₁
    cases hclose : e.close with
    | false =>
      have hnot : closes (exchanges ++ [e]) = false := by simp [closes_concat, hcloses, hclose]
      rw [if_neg Bool.false_ne_true]
      refine ⟨⟨hout, ?_, fun _ => hmirrors₁, fun hoff => ?_, fun hmem => absurd hmem hnotshut,
        fun hyes => ?_⟩, hinput⟩
      · rw [hnot, hstate₁, if_neg Bool.false_ne_true]
      · rw [hopen₁] at hoff
        cases hoff
      · rw [hnot] at hyes
        cases hyes
    | true =>
      have hyes : closes (exchanges ++ [e]) = true := by simp [closes_concat, hclose]
      have hshutdown : s₁.shutdown =
          { s₁ with
            conn := { s₁.conn with state := .kDisconnecting }
            events := s₁.events ++ s₁.conn.shutdownInLoop } := by
        rw [shutdown, if_pos hstate₁]
        rfl
      have hwire : s₁.conn.shutdownInLoop.flatMap ConnEvent.wire = [] := by
        unfold TcpConnection.shutdownInLoop
        split_ifs <;> simp [ConnEvent.wire]
      rw [if_pos rfl, hshutdown]
      refine ⟨⟨?_, ?_, fun _ => hmirrors₁, fun hoff => ?_, fun hmem => ⟨hyes, ?_⟩,
        fun _ _ hempty => ?_⟩, hinput⟩
      · rw [← hout]
        simp [wire, backlog, hwire]
      · rw [hyes, if_pos rfl]
      · rw [show s₁.conn.channel.isReadable = false from hoff] at hopen₁
        cases hopen₁
      · -- `SHUT_WR` was issued because nothing waits
        have hoff : s₁.conn.channel.isWritable = false := by
          by_contra hon
          rw [TcpConnection.shutdownInLoop, if_pos (eq_true_of_ne_false hon), List.append_nil] at hmem
          exact hnotshut hmem
        by_contra hwaits
        rw [hmirrors₁.mpr hwaits] at hoff
        cases hoff
      · have hoff : ¬s₁.conn.channel.isWritable = true := fun hon => hmirrors₁.mp hon hempty
        simp [TcpConnection.shutdownInLoop, hoff]

theorem Sends.write {exchanges : List Exchange} {written : Option Nat} {r : TcpConnection.Result Unit}
    (h : s.Sends exchanges) (hon : s.conn.channel.isWritable = true)
    (hresult : s.conn.handleWrite 0 s.poller written = .ok r) : (s.put r).Sends exchanges := by
  have hopen : s.conn.channel.isReadable = true := by
    by_contra hclosed
    rw [h.closed (eq_false_of_ne_true hclosed)] at hon
    cases hon
  have hwaits := (h.mirrors hopen).mp hon
  have hnotshut : .shutdownWrite ∉ s.events := fun hmem => hwaits (h.shut hmem).2
  have hmirrors := TcpConnection.handleWrite_mirrors (h.mirrors hopen) hresult
  have hstream := h.stream
  rw [wire, backlog] at hstream
  cases TcpConnection.handleWrite_cases hresult with
  | unwatched hoff =>
    rw [hon] at hoff
    cases hoff
  | failed _ none =>
    refine ⟨?_, h.state, fun _ => hmirrors, h.closed, fun hmem => ?_,
      fun _ _ hempty => absurd hempty hwaits⟩
    · rw [wire_put, wire, backlog]
      simpa [put, ConnEvent.wire, none] using hstream
    · simp [put, hnotshut] at hmem
  | left _ waits =>
    refine ⟨?_, h.state, fun _ => hmirrors, h.closed, fun hmem => ?_,
      fun _ _ hempty => absurd hempty waits⟩
    · rw [wire_put, wire, backlog]
      simpa [put, ConnEvent.wire] using hstream
    · simp [put, hnotshut] at hmem
  | drained _ empty result =>
    have hreadable := Channel.disableWriting_isReadable result
    refine ⟨?_, h.state, fun _ => hmirrors, fun hoff => ?_, fun hmem => ⟨?_, empty⟩,
      fun hcloses _ _ => ?_⟩
    · rw [wire_put, wire, backlog]
      have hshut : (if s.conn.state = .kDisconnecting then [(.shutdownWrite : ConnEvent Unit)]
          else []).flatMap ConnEvent.wire = [] := by
        split_ifs <;> simp [ConnEvent.wire]
      simpa [put, ConnEvent.wire, hshut] using hstream
    · exact Channel.disableWriting_isWritable result
    · -- `shutdownInLoop` was called because the connection is `kDisconnecting`
      by_contra hopens
      have hstate := h.state
      rw [if_neg hopens] at hstate
      simp [put, hnotshut, hstate] at hmem
    · have hstate := h.state
      rw [if_pos hcloses] at hstate
      simp [put, hstate]

theorem Sends.close {exchanges : List Exchange} {r : TcpConnection.Result Unit} (h : s.Sends exchanges)
    (hresult : s.conn.handleClose 0 s.poller = .ok r) : (s.put r).Sends exchanges := by
  unfold TcpConnection.handleClose at hresult
  split_ifs at hresult
  obtain ⟨⟨conn, p⟩, hop, hreturn⟩ := bind_eq_ok hresult
  obtain ⟨channel, hchannel, rfl⟩ := TcpConnection.withChannel_eq_ok hop
  cases hreturn
  have hreadable := Channel.disableAll_isReadable hchannel
  have hwritable : channel.isWritable = false := by
    obtain ⟨-, hevents, -⟩ := Poller.updateChannel_spec hchannel
    rw [Channel.isWritable, hevents]
    show decide (Channel.kNoneEvent &&& Channel.kWriteEvent ≠ 0) = false
    decide
  refine ⟨?_, h.state, fun hon => ?_, fun _ => hwritable, fun hmem => h.shut ?_, fun _ hon => ?_⟩
  · have hstream := h.stream
    rw [backlog] at hstream
    rw [wire_put, backlog]
    simpa [put, ConnEvent.wire] using hstream
  · rw [show channel.isReadable = true from hon] at hreadable
    cases hreadable
  · simpa [put] using hmem
  · rw [show channel.isReadable = true from hon] at hreadable
    cases hreadable

/-! ## No assertion fails -/

def Known (p : Poller Nat) (ch : Channel) : Prop := ch.index ≠ .kNew ∧ p.channels ch.fd = some 0

theorem Known.updateChannel {p : Poller Nat} {ch : Channel} (h : Known p ch) (events : BitVec 32) :
    ∃ p' ch', p.updateChannel 0 { ch with events := events } = .ok (p', ch') ∧ Known p' ch' := by
  have hnew : ch.index = .kNew → p.channels ch.fd = none := fun hnew => absurd hnew h.1
  obtain ⟨⟨p', ch'⟩, hresult⟩ :=
    @Poller.updateChannel_ok Nat _ 0 p { ch with events := events } hnew fun _ => h.2
  obtain ⟨hfd, -, hindex, -, hfound⟩ := Poller.updateChannel_spec hresult
  refine ⟨p', ch', hresult, hindex, ?_⟩
  rw [hfd]
  exact hfound

theorem sendInLoop_ok {conn : TcpConnection Unit} {p : Poller Nat} (h : Known p conn.channel)
    (message : List Byte) (written : Option Nat) :
    ∃ r, conn.sendInLoop 0 p () message written = .ok r ∧ Known r.2.1 r.1.channel := by
  obtain ⟨p', ch', hop, hknown⟩ := h.updateChannel (conn.channel.events ||| Channel.kWriteEvent)
  have henable : conn.channel.enableWriting 0 p = .ok (p', ch') := hop
  unfold TcpConnection.sendInLoop
  dsimp only
  split_ifs
  all_goals first
    | exact ⟨_, rfl, h⟩
    | exact ⟨_, by rw [TcpConnection.withChannel, henable]; rfl, hknown⟩

theorem handleWrite_ok {conn : TcpConnection Unit} {p : Poller Nat} (h : Known p conn.channel)
    (written : Option Nat) :
    ∃ r, conn.handleWrite 0 p written = .ok r ∧ Known r.2.1 r.1.channel := by
  obtain ⟨p', ch', hop, hknown⟩ := h.updateChannel (conn.channel.events &&& ~~~Channel.kWriteEvent)
  have hdisable : conn.channel.disableWriting 0 p = .ok (p', ch') := hop
  unfold TcpConnection.handleWrite
  dsimp only
  split_ifs
  all_goals first
    | exact ⟨_, rfl, h⟩
    | exact ⟨_, by rw [TcpConnection.withChannel, hdisable]; rfl, hknown⟩

theorem handleClose_ok {conn : TcpConnection Unit} {p : Poller Nat} (h : Known p conn.channel)
    (hopen : conn.isOpen = true) :
    ∃ r, conn.handleClose 0 p = .ok r ∧ Known r.2.1 r.1.channel := by
  obtain ⟨p', ch', hop, hknown⟩ := h.updateChannel Channel.kNoneEvent
  have hdisable : conn.channel.disableAll 0 p = .ok (p', ch') := hop
  refine ⟨({ conn with channel := ch' }, p', [.closed]), ?_, hknown⟩
  rw [TcpConnection.handleClose, if_pos hopen, TcpConnection.withChannel, hdisable]
  rfl

/-- Between two calls from the loop. -/
structure Ready (s : Conversation) (exchanges : List Exchange) : Prop where
  sends : s.Sends exchanges
  known : Known s.poller s.conn.channel
  idle : s.input.Idle

theorem send_ok (h : Known s.poller s.conn.channel) (message : List Byte) (written : Option Nat) :
    ∃ s', s.send message written = .ok s' ∧ Known s'.poller s'.conn.channel := by
  by_cases hstate : s.conn.state = .kConnected
  · obtain ⟨r, hsend, hknown⟩ := sendInLoop_ok h message written
    refine ⟨s.put r, ?_, hknown⟩
    rw [send, if_pos hstate, hsend]
    rfl
  · exact ⟨s, if_neg hstate, h⟩

theorem shutdown_known (h : Known s.poller s.conn.channel) :
    Known s.shutdown.poller s.shutdown.conn.channel := by
  unfold shutdown
  split_ifs <;> exact h

theorem answer_ok (h : Known s.poller s.conn.channel) (e : Exchange) (written : Option Nat) :
    ∃ s', s.answer e written = .ok s' ∧ Known s'.poller s'.conn.channel := by
  obtain ⟨s₁, hsend, hknown⟩ := send_ok h e.sent written
  refine ⟨if e.close then s₁.shutdown else s₁, ?_, ?_⟩
  · rw [answer, hsend]
    rfl
  · split_ifs
    · exact shutdown_known hknown
    · exact hknown

theorem Ready.read {exchanges : List Exchange} (h : s.Ready exchanges) {piece : List Byte}
    {written : Option Nat} {req : HttpRequest} {callback : HttpCallback}
    (hcallback : server.httpCallback = some callback)
    (hparse : HttpRequest.fresh.parse (piece ++ [0]) piece.length = .ok req) :
    s.step server platform (.read piece written) = .error .disabled ∨
      ∃ s' e, s.step server platform (.read piece written) = .ok s' ∧ s'.Ready (exchanges ++ [e]) ∧
        HttpServer.Answers server platform e req := by
  by_cases hread : s.conn.channel.isReadable ∧ piece ≠ [] ∧ piece.length ≤ s.input.offered
  · have ⟨hopen, _, hfits⟩ := hread
    obtain ⟨input, hidle, hreceive⟩ := HttpServer.receive_of_parse server platform h.idle hfits hparse
    generalize he : Exchange.mk _ _ _ = e at hreceive
    obtain ⟨s', hanswer, hknown⟩ := @answer_ok { s with input := input } h.known e written
    have hsends : Sends { s with input := input } exchanges := ⟨h.sends.stream, h.sends.state,
      h.sends.mirrors, h.sends.closed, h.sends.shut, h.sends.shuts⟩
    obtain ⟨hsends', hinput⟩ := hsends.answer hopen hanswer
    refine .inr ⟨s', e, ?_, ⟨hsends', hknown, ?_⟩, ?_⟩
    · rw [step, if_pos hread, handleRead, hreceive, ok_bind]
      dsimp only
      rw [hanswer]
    · rw [hinput]
      exact hidle
    · rw [← he]
      exact ⟨by rw [hcallback]; rfl, rfl, rfl⟩
  · exact .inl (if_neg hread)

theorem Ready.write {exchanges : List Exchange} (h : s.Ready exchanges) (written : Option Nat) :
    s.step server platform (.write written) = .error .disabled ∨
      ∃ s', s.step server platform (.write written) = .ok s' ∧ s'.Ready exchanges := by
  by_cases hon : s.conn.channel.isWritable = true
  · obtain ⟨r, hresult, hknown⟩ := handleWrite_ok h.known written
    refine .inr ⟨s.put r, ?_, h.sends.write hon hresult, hknown, h.idle⟩
    rw [step, if_pos hon, hresult]
  · exact .inl (if_neg hon)

theorem Ready.close {exchanges : List Exchange} (h : s.Ready exchanges) :
    s.step server platform .close = .error .disabled ∨
      ∃ s', s.step server platform .close = .ok s' ∧ s'.Ready exchanges := by
  by_cases hopen : s.conn.channel.isReadable = true
  · have hstate : s.conn.isOpen = true := by
      have hstate := h.sends.state
      split_ifs at hstate <;> simp [TcpConnection.isOpen, hstate]
    obtain ⟨r, hresult, hknown⟩ := handleClose_ok h.known hstate
    refine .inr ⟨s.put r, ?_, h.sends.close hresult, hknown, h.idle⟩
    rw [step, if_pos hopen, hresult]
  · exact .inl (if_neg hopen)

/-- **A run**, in which what is read are the first of the pieces a stream of requests comes in. -/
theorem run_ready {callback : HttpCallback} (hcallback : server.httpCallback = some callback)
    {labels : List Label} {carry : List Byte} {ws : List Wire} {pieces : List (List Byte)}
    (haligned : Aligned carry ws pieces) (hcarry : carry <:+ Wire.blankLine) (hws : ∀ w ∈ ws, w.Ok)
    (hreceived : received labels <+: pieces) {exchanges : List Exchange} (h : s.Ready exchanges) :
    (∀ f, run (step server platform) s labels ≠ .error (.fault f)) ∧
      ∀ s', run (step server platform) s labels = .ok s' →
        ∃ more reqs, s'.Ready (exchanges ++ more) ∧
          List.Forall₂ (HttpServer.Answers server platform) more reqs ∧
          List.Forall₂ Wire.Agrees (ws.take (received labels).length) reqs := by
  induction labels generalizing s carry ws pieces exchanges with
  | nil =>
    refine ⟨by simp, fun s' hrun => ?_⟩
    cases hrun
    exact ⟨[], [], by simpa using h, .nil, .nil⟩
  | cons label labels ih =>
    -- the step is not taken, or the rest of the run is one from a state that is ready again
    have hrest : ∀ {s₁ : Conversation}, step server platform s label = .ok s₁ →
        run (step server platform) s (label :: labels) = run (step server platform) s₁ labels :=
      fun hstep => run_cons_ok hstep
    have hstop : step server platform s label = .error .disabled →
        run (step server platform) s (label :: labels) = .error .disabled := by
      intro hstep
      rw [run, hstep]
    cases label with
    | read piece written =>
      obtain _ | ⟨carry', cut, left, hrestAligned⟩ := haligned
      · exact absurd hreceived (by simp [received])
      · rename_i w ws piece' pieces
        obtain ⟨rfl, hreceived'⟩ := List.cons_prefix_cons.mp hreceived
        obtain ⟨req, hparse, hagrees⟩ := parse_piece (hws w (by simp)) hcarry cut left
        have hcarry' : carry' <:+ Wire.blankLine := by
          rcases left with rfl | ⟨-, hsuffix⟩
          · exact List.nil_suffix
          · exact hsuffix
        rcases h.read hcallback hparse with hoff | ⟨s₁, e, hstep, hready, hanswers⟩
        · rw [hstop hoff]
          exact ⟨by simp, by simp⟩
        · rw [hrest hstep]
          obtain ⟨hnofault, hruns⟩ :=
            ih hrestAligned hcarry' (fun w hw => hws w (by simp [hw])) hreceived' hready
          refine ⟨hnofault, fun s' hrun => ?_⟩
          obtain ⟨more, reqs, hready', hanswered, hagree⟩ := hruns s' hrun
          refine ⟨e :: more, req :: reqs, ?_, .cons hanswers hanswered, .cons hagrees hagree⟩
          rwa [List.append_assoc] at hready'
    | write written =>
      rcases h.write written with hoff | ⟨s₁, hstep, hready⟩
      · rw [hstop hoff]
        exact ⟨by simp, by simp⟩
      · rw [hrest hstep]
        exact ih haligned hcarry hws hreceived hready
    | close =>
      rcases h.close with hoff | ⟨s₁, hstep, hready⟩
      · rw [hstop hoff]
        exact ⟨by simp, by simp⟩
      · rw [hrest hstep]
        exact ih haligned hcarry hws hreceived hready

/-! ## What the client reads -/

end Conversation

end VServer

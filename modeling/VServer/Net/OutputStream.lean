import VServer.Lib.Relay
import VServer.Net.Lifecycle

/-!
# The output of a connection

The bytes that `::write` has taken and those that wait in `m_outputBuffer` are the messages that
`sendInLoop` was called with (`ConnStep.stream`), and `sendInLoop` is called with the messages of a
thread in the order in which `send` accepted them: `System.relay` shows the threads and their queues
as a relay with the thread of the connection's loop as its server, and every step of the machine is a
step of the relay.
-/

namespace VServer

variable {ι : Type}

namespace ConnEvent

/-- The bytes the event puts on the wire. -/
def wire : ConnEvent ι → List Byte
  | .write data n => data.take n
  | _ => []

def acceptedMessage : ConnEvent ι → Option (ι × List Byte)
  | .accepted sender m => some (sender, m)
  | _ => none

def sentMessage : ConnEvent ι → Option (ι × List Byte)
  | .sent sender m => some (sender, m)
  | _ => none

end ConnEvent

/-- The bytes `::write` has taken from connection `c`. -/
def World.wire (w : World ι) (c : Nat) : List Byte := (w.seen c).flatMap ConnEvent.wire

/-- The messages that `send` found the connection `kConnected` for, with their threads. -/
def World.accepted (w : World ι) (c : Nat) : List (ι × List Byte) :=
  (w.seen c).filterMap ConnEvent.acceptedMessage

/-- The messages whose `sendInLoop` has run. -/
def World.sent (w : World ι) (c : Nat) : List (ι × List Byte) :=
  (w.seen c).filterMap ConnEvent.sentMessage

def ConnTask.sending : ConnTask ι → Option (ι × List Byte)
  | .sendInLoop sender message => some (sender, message)
  | _ => none

/-- The message the task sends on connection `c`. -/
def Task.sending (c : Nat) (t : Task ι) : Option (ι × List Byte) := (t.about c).bind ConnTask.sending

@[simp] theorem sending_conn (c : Nat) (t : ConnTask ι) : (Task.conn c t).sending c = t.sending := by
  rw [Task.sending, Task.about_conn]
  rfl

@[simp] theorem sending_queueInLoop (c : Nat) (loop : ι) (f : Task ι) :
    (Task.queueInLoop loop f).sending c = f.sending c := rfl

@[simp] theorem sending_runInLoop [DecidableEq ι] (c : Nat) (who loop : ι) (f : Task ι) :
    (runInLoop who loop f).sending c = f.sending c := by
  rw [Task.sending, Task.about_runInLoop]
  rfl

theorem sending_of_about {c : Nat} {x : Task ι} (h : x.about c = none) : x.sending c = none := by
  rw [Task.sending, h]
  rfl

/-- The messages of connection `c` on their way through the threads. -/
def System.relay (σ : System ι) (c : Nat) : Relay ι (List Byte) where
  accepted := σ.world.accepted c
  done := σ.world.sent c
  lanes i := (σ.tasks i).filterMap (Task.sending c)

variable [DecidableEq ι] {who : ι} {k : Kernel} {base : ι} {c : Nat} {l l' : Link ι} {t : ConnTask ι}
  {events : List (ConnEvent ι)} {new : List (Task ι)}

/-! ## What a task does to the stream -/

theorem ConnStep.stream (h : ConnStep who k base c l t l' events new) :
    l.conn.outputBuffer.readable ++ ((events.filterMap ConnEvent.sentMessage).map Prod.snd).flatten =
      events.flatMap ConnEvent.wire ++ l'.conn.outputBuffer.readable := by
  cases h with
  | @handleWrite r loop result =>
    obtain ⟨out, wrote, shut, -, hconn, hevents, hshut, hwrote⟩ := TcpConnection.handleWrite_spec result
    have hout : r.1.outputBuffer = out := by rw [hconn]
    have hquiet : shut.filterMap ConnEvent.sentMessage = [] ∧ shut.flatMap ConnEvent.wire = [] := by
      rcases hshut with rfl | rfl
      all_goals exact ⟨rfl, rfl⟩
    rw [hevents, List.filterMap_append, List.flatMap_append, hquiet.1, hquiet.2, hout]
    rcases hwrote with ⟨rfl, rfl⟩ | ⟨n, rfl, hrest⟩
    · simp
    · simp [ConnEvent.wire, ConnEvent.sentMessage, hrest, List.filterMap_cons]
  | @sendInLoop sender message r loop result =>
    obtain ⟨out, wrote, -, -, hconn, hevents, hwrote⟩ := TcpConnection.sendInLoop_spec result
    have hout : r.1.outputBuffer = out := by rw [hconn]
    rw [hevents, List.filterMap_append, List.flatMap_append, hout]
    rcases hwrote with ⟨rfl, hrest⟩ | ⟨n, rfl, hempty, hrest⟩
    · simp [ConnEvent.wire, ConnEvent.sentMessage, hrest]
    · simp [ConnEvent.wire, ConnEvent.sentMessage, hrest, hempty, List.filterMap_cons]
  | shutdownInLoop loop =>
    unfold TcpConnection.shutdownInLoop
    split_ifs
    all_goals simp [ConnEvent.wire, ConnEvent.sentMessage]
  | _ => simp [ConnEvent.wire, ConnEvent.sentMessage, TcpConnection.receive]

theorem ConnStep.relay (h : ConnStep who k base c l t l' events new) :
    (∃ m, t = .send m ∧ events.filterMap ConnEvent.acceptedMessage = [(who, m)] ∧
      events.filterMap ConnEvent.sentMessage = [] ∧
      new = [runInLoop who l.conn.loop (.conn c (.sendInLoop who m))]) ∨
    (∃ sender m, t = .sendInLoop sender m ∧ who = l.conn.loop ∧
      events.filterMap ConnEvent.acceptedMessage = [] ∧
      events.filterMap ConnEvent.sentMessage = [(sender, m)] ∧ new = []) ∨
    (t.sending = none ∧ events.filterMap ConnEvent.acceptedMessage = [] ∧
      events.filterMap ConnEvent.sentMessage = [] ∧ ∀ x ∈ new, x.sending c = none) := by
  cases h with
  | @send m connected => exact .inl ⟨m, rfl, rfl, rfl, rfl⟩
  | @sendInLoop sender m r loop result =>
    obtain ⟨out, wrote, -, -, -, hevents, hwrote⟩ := TcpConnection.sendInLoop_spec result
    refine .inr (.inl ⟨sender, m, rfl, loop, ?_, ?_, rfl⟩)
    all_goals
      rw [hevents]
      rcases hwrote with ⟨rfl, -⟩ | ⟨n, rfl, -⟩
      all_goals rfl
  | @handleWrite r loop result =>
    obtain ⟨out, wrote, shut, -, -, hevents, hshut, hwrote⟩ := TcpConnection.handleWrite_spec result
    refine .inr (.inr ⟨rfl, ?_, ?_, by simp⟩)
    all_goals
      rw [hevents]
      rcases hshut with rfl | rfl
      all_goals
        rcases hwrote with ⟨rfl, -⟩ | ⟨n, rfl, -⟩
        all_goals rfl
  | shutdownInLoop loop =>
    refine .inr (.inr ⟨rfl, ?_, ?_, by simp⟩)
    all_goals
      unfold TcpConnection.shutdownInLoop
      split_ifs
      all_goals rfl
  | handleEvent revents =>
    refine .inr (.inr ⟨rfl, rfl, rfl, fun x hx => ?_⟩)
    obtain ⟨t, ht, rfl⟩ := List.mem_map.mp hx
    rw [sending_conn]
    rcases mem_eventTasks ht with rfl | rfl | rfl | rfl
    all_goals rfl
  | writeCallback hnew =>
    refine .inr (.inr ⟨rfl, rfl, rfl, forall_mem_of_either hnew.symm ?_⟩)
    simp [ConnTask.sending]
  | updateTimer hnew =>
    refine .inr (.inr ⟨rfl, rfl, rfl, forall_mem_of_either hnew ?_⟩)
    simp [ConnTask.sending, Task.sending, Task.about]
  | delayedClose hnew =>
    refine .inr (.inr ⟨rfl, rfl, rfl, forall_mem_of_either hnew ?_⟩)
    simp [ConnTask.sending]
  | _ => exact .inr (.inr ⟨rfl, rfl, rfl, by simp [ConnTask.sending, Task.sending, Task.about]⟩)

/-! ## The relay -/

/-- Where the messages of connection `c` are on their way. -/
structure SendInv (c : Nat) (σ : System ι) : Prop where
  born : σ.world.alive c = true → c < σ.world.server.connId
  unborn : σ.world.server.connId ≤ c → σ.world.seen c = [] ∧ ∀ i, (σ.relay c).lanes i = []
  /-- A message is on the stack or in the queue of the loop of the connection, or its sender is in
  `queueInLoop`. -/
  routed : ∀ i, ∀ x ∈ σ.tasks i, ∀ sender m, x.sending c = some (sender, m) →
    (x = .conn c (.sendInLoop sender m) ∧ i = (σ.world.conns c).loop) ∨
    (x = .queueInLoop (σ.world.conns c).loop (.conn c (.sendInLoop sender m)) ∧ i = sender ∧
      sender ≠ (σ.world.conns c).loop)
  /-- A thread sends its own message before it does anything else. -/
  top : ∀ i, ∀ x ∈ (σ.todo i).tail ++ (σ.loops i).backlog, ∀ m, x.sending c ≠ some (i, m)

section

variable {σ σ' : System ι}

theorem lanes_exchange {T : Task ι} {rest : List (Task ι)} (htodo : σ.todo who = T :: rest)
    (htodo' : σ'.todo = Function.update σ.todo who (new ++ rest))
    (hbacklog : ∀ i, (σ'.loops i).backlog = (σ.loops i).backlog) :
    ∃ lane, (σ.relay c).lanes who = [T].filterMap (Task.sending c) ++ lane ∧
      (σ'.relay c).lanes who = new.filterMap (Task.sending c) ++ lane ∧
      lane = (rest ++ (σ.loops who).backlog).filterMap (Task.sending c) ∧
      ∀ i, i ≠ who → (σ'.relay c).lanes i = (σ.relay c).lanes i := by
  obtain ⟨hwho, hother⟩ := tasks_exchange htodo' hbacklog
  refine ⟨_, ?_, ?_, rfl, fun i hi => ?_⟩
  · show (σ.tasks who).filterMap _ = _
    rw [System.tasks, htodo, ← List.filterMap_append]
    rfl
  · show (σ'.tasks who).filterMap _ = _
    rw [hwho, List.append_assoc, List.filterMap_append]
  · show (σ'.tasks i).filterMap _ = _
    rw [hother i hi]
    rfl

omit [DecidableEq ι] in
theorem sending_of_isOutside {x : Task ι} (h : x.isOutside) : x.sending c = none := by
  unfold Task.sending
  cases hab : x.about c with
  | none => rfl
  | some t =>
    rcases h c t hab with ht | rfl
    · cases t
      all_goals first
        | rfl
        | cases ht
    · rfl

theorem Leaves.sending {i : ι} {x : Task ι} {p : ι × List Byte} (h : Leaves σ σ' i new) (hx : x ∈ new)
    (hp : x.sending c = some p) :
    new = [x] ∧ σ.world.alive c = true ∧ p.1 = i ∧
      x = runInLoop i (σ.world.conns c).loop (.conn c (.sendInLoop i p.2)) := by
  obtain ⟨todo, alive, step⟩ := h
  rename_i k c' t rest events
  by_cases hc : c' = c
  · subst hc
    rcases step.relay with ⟨m, rfl, -, -, rfl⟩ | ⟨sender, m, rfl, -, -, -, rfl⟩ | ⟨-, -, -, hnew⟩
    · rw [List.mem_singleton] at hx
      subst hx
      rw [sending_runInLoop, sending_conn] at hp
      cases hp
      exact ⟨rfl, alive, rfl, rfl⟩
    · cases hx
    · rw [hnew x hx] at hp
      cases hp
  · rw [sending_of_about (step.about_other hc x hx)] at hp
    cases hp

omit [DecidableEq ι] in
theorem SendInv.lt_connId (hinv : SendInv c σ) {i : ι} {x : Task ι} {p : ι × List Byte}
    (hx : x ∈ σ.tasks i) (hp : x.sending c = some p) : c < σ.world.server.connId := by
  by_contra hlt
  have hlane := (hinv.unborn (by omega)).2 i
  have hmem : p ∈ (σ.relay c).lanes i := List.mem_filterMap.mpr ⟨x, hx, hp⟩
  rw [hlane] at hmem
  cases hmem

theorem Move.lanes_unborn {label : Label ι} (h : Move label σ σ') (hinv : SendInv c σ)
    (hlt : σ.world.server.connId ≤ c) (i : ι) : (σ'.relay c).lanes i = [] := by
  refine List.filterMap_eq_nil_iff.mpr fun x hx => ?_
  cases hp : x.sending c with
  | none => rfl
  | some p =>
    cases h.origins.1 hx with
    | old hx =>
      have := hinv.lt_connId hx hp
      omega
    | left hleft =>
      obtain ⟨new, hleft, hmem⟩ := hleft
      have := hinv.born (hleft.sending hmem hp).2.1
      omega
    | queued todo =>
      have := hinv.lt_connId (mem_tasks_of_todo todo) hp
      omega
    | outside houtside =>
      rw [sending_of_isOutside houtside] at hp
      cases hp

theorem Move.sendInv [Fintype ι] {label : Label ι} (h : Move label σ σ') (hinv : SendInv c σ) :
    SendInv c σ' := by
  have hloop : c < σ.world.server.connId → (σ'.world.conns c).loop = (σ.world.conns c).loop := h.loop_eq
  have hold : ∀ {i : ι} {x : Task ι} {p : ι × List Byte}, x ∈ σ.tasks i → x.sending c = some p →
      c < σ.world.server.connId := hinv.lt_connId
  have hlanes := h.lanes_unborn hinv
  obtain ⟨hborn, hunborn, hrouted, htop⟩ := hinv
  refine ⟨?_, fun hlt => ?_, fun i x hx sender m hp => ?_, fun i x hx m hp => ?_⟩
  · cases h.of_conn c with
    | own run todo alive step alive' connId seen total =>
      have hlt := hborn alive
      exact fun _ => by omega
    | born fresh connId conn registered seen total => exact fun _ => by omega
    | idle conn registered alive connId seen total => exact fun h => connId.mpr (hborn (alive h))
  · have hseen : σ.world.server.connId ≤ c ∧ σ'.world.seen c = σ.world.seen c := by
      cases h.of_conn c with
      | own run todo alive step alive' connId seen total =>
        have hlt := hborn alive
        omega
      | born fresh connId conn registered seen total => omega
      | idle conn registered alive connId seen total =>
        refine ⟨?_, seen⟩
        by_contra hnot
        have := connId.mpr (by omega)
        omega
    obtain ⟨hunborn', hnil⟩ := hseen
    rw [hnil]
    exact ⟨(hunborn hunborn').1, hlanes hunborn'⟩
  · cases h.origins.1 hx with
    | old hx =>
      rw [hloop (hold hx hp)]
      exact hrouted i x hx sender m hp
    | left hleft =>
      obtain ⟨new, hleft, hmem⟩ := hleft
      obtain ⟨-, halive, hsender, hx⟩ := hleft.sending hmem hp
      dsimp only at hsender hx
      subst hsender
      rw [hloop (hborn halive)]
      by_cases hloop : sender = (σ.world.conns c).loop
      · rw [runInLoop, if_pos hloop] at hx
        exact .inl ⟨hx, hloop⟩
      · rw [runInLoop, if_neg hloop] at hx
        exact .inr ⟨hx, rfl, hloop⟩
    | @queued who rest todo =>
      rw [hloop (hold (mem_tasks_of_todo todo) hp)]
      rcases hrouted who _ (mem_tasks_of_todo todo) sender m hp with ⟨hx, -⟩ | ⟨hx, -, -⟩
      · cases hx
      · cases hx
        exact .inl ⟨rfl, rfl⟩
    | outside houtside =>
      rw [sending_of_isOutside houtside] at hp
      cases hp
  · cases h.origins.2 hx with
    | old hx => exact htop i x hx m hp
    | left hleft =>
      obtain ⟨new, hleft, hmem⟩ := hleft
      rw [(hleft.sending (List.mem_of_mem_tail hmem) hp).1] at hmem
      cases hmem
    | @queued who rest todo =>
      rcases hrouted who _ (mem_tasks_of_todo todo) i m hp with ⟨hx, -⟩ | ⟨hx, -, haway⟩
      · cases hx
      · cases hx
        exact haway rfl
    | outside houtside =>
      rw [sending_of_isOutside houtside] at hp
      cases hp

theorem lanes_quiet {T : Task ι} {rest : List (Task ι)} (htodo : σ.todo who = T :: rest)
    (htodo' : σ'.todo = Function.update σ.todo who (new ++ rest))
    (hbacklog : ∀ i, (σ'.loops i).backlog = (σ.loops i).backlog) (hT : T.sending c = none)
    (hnew : ∀ x ∈ new, x.sending c = none) (i : ι) :
    (σ'.relay c).lanes i = (σ.relay c).lanes i := by
  obtain ⟨lane, hlane, hlane', -, hother⟩ := lanes_exchange (c := c) htodo htodo' hbacklog
  by_cases hi : i = who
  · rw [hi, hlane, hlane', List.filterMap_eq_nil_iff.mpr hnew, List.filterMap_cons, hT]
    rfl
  · exact hother i hi

theorem SendInv.relay_own (hinv : SendInv c σ) {base : ι} {t : ConnTask ι} {rest : List (Task ι)}
    (todo : σ.todo who = .conn c t :: rest)
    (step : ConnStep who k base c (σ.world.link c) t (σ'.world.link c) events new)
    (seen : σ'.world.seen c = σ.world.seen c ++ events)
    (backlog : ∀ i, (σ'.loops i).backlog = (σ.loops i).backlog)
    (todo' : σ'.todo = Function.update σ.todo who (new ++ rest)) :
    Relay.Step (σ.world.conns c).loop (σ.relay c) (σ'.relay c) := by
  have haccepted : (σ'.relay c).accepted =
      (σ.relay c).accepted ++ events.filterMap ConnEvent.acceptedMessage := by
    show (σ'.world.seen c).filterMap _ = _
    rw [seen, List.filterMap_append]
    rfl
  have hdone : (σ'.relay c).done = (σ.relay c).done ++ events.filterMap ConnEvent.sentMessage := by
    show (σ'.world.seen c).filterMap _ = _
    rw [seen, List.filterMap_append]
    rfl
  obtain ⟨lane, hlane, hlane', hdef, hother⟩ := lanes_exchange (c := c) todo todo' backlog
  rcases step.relay with ⟨m, rfl, hac, hse, rfl⟩ | ⟨sender, m, rfl, hwho, hac, hse, rfl⟩ |
    ⟨ht, hac, hse, hnew⟩
  · rw [hac] at haccepted
    rw [hse, List.append_nil] at hdone
    have hbefore : (σ.relay c).lanes who = lane := by
      rw [hlane]
      simp [ConnTask.sending]
    refine .accept (m := m) ?_ haccepted hdone ?_ hother
    · intro m' hmem
      rw [hbefore, hdef] at hmem
      obtain ⟨x, hx, hp⟩ := List.mem_filterMap.mp hmem
      refine hinv.top who x ?_ m' hp
      rw [todo]
      exact hx
    · rw [hlane', hbefore]
      simp [ConnTask.sending]
  · rw [hac, List.append_nil] at haccepted
    rw [hse] at hdone
    have hwho : who = (σ.world.conns c).loop := hwho
    rw [hwho] at hlane hlane' hother
    have hfront : (σ.relay c).lanes (σ.world.conns c).loop = (sender, m) :: lane := by
      rw [hlane]
      simp [ConnTask.sending]
    exact .serve hfront haccepted hdone hlane' hother
  · rw [hac, List.append_nil] at haccepted
    rw [hse, List.append_nil] at hdone
    exact .idle haccepted hdone (lanes_quiet todo todo' backlog (by rw [sending_conn, ht]) hnew)

theorem SendInv.relay_queue (hinv : SendInv c σ) {loop : ι} {f : Task ι} {rest : List (Task ι)}
    (todo : σ.todo who = .queueInLoop loop f :: rest) (hnew : new = [] ∨ new = [.wakeup loop])
    (haccepted : (σ'.relay c).accepted = (σ.relay c).accepted)
    (hdone : (σ'.relay c).done = (σ.relay c).done)
    (loops : σ'.loops = Function.update σ.loops loop ((σ.loops loop).push f))
    (todo' : σ'.todo = Function.update σ.todo who (new ++ rest)) :
    Relay.Step (σ.world.conns c).loop (σ.relay c) (σ'.relay c) := by
  have hnew' : new.filterMap (Task.sending c) = [] := by
    rcases hnew with rfl | rfl
    all_goals rfl
  have htop : (σ.relay c).lanes who =
      [f].filterMap (Task.sending c) ++ (rest ++ (σ.loops who).backlog).filterMap (Task.sending c) := by
    show (σ.tasks who).filterMap _ = _
    rw [System.tasks, todo, ← List.filterMap_append]
    rfl
  have hlanes : ∀ i, (σ'.relay c).lanes i = (if i = who then
      (rest ++ (σ.loops who).backlog).filterMap (Task.sending c) else (σ.relay c).lanes i) ++
      if i = loop then [f].filterMap (Task.sending c) else [] := by
    intro i
    show (σ'.tasks i).filterMap _ = _
    rw [tasks_queue todo' loops i, List.filterMap_append]
    congr 1
    · split_ifs with hi
      · rw [hi, List.append_assoc, List.filterMap_append, hnew']
        rfl
      · rfl
    · split_ifs
      all_goals rfl
  cases hp : f.sending c with
  | none =>
    have hnone : [f].filterMap (Task.sending c) = [] := by
      rw [List.filterMap_cons, hp]
      rfl
    refine .idle haccepted hdone fun i => ?_
    rw [hlanes i, hnone, ite_self, List.append_nil]
    split_ifs with hi
    · rw [hi, htop, hnone]
      rfl
    · rfl
  | some p =>
    obtain ⟨sender, m⟩ := p
    have hsome : [f].filterMap (Task.sending c) = [(sender, m)] := by
      rw [List.filterMap_cons, hp]
      rfl
    rcases hinv.routed who _ (mem_tasks_of_todo todo) sender m hp with ⟨hx, -⟩ | ⟨hx, rfl, haway⟩
    · cases hx
    · cases hx
      have hlane : (σ.relay c).lanes who =
          (who, m) :: (rest ++ (σ.loops who).backlog).filterMap (Task.sending c) := by
        rw [htop, hsome]
        rfl
      refine .hand haway hlane haccepted hdone ?_ ?_ fun i hi hi' => ?_
      · rw [hlanes who, if_pos rfl, if_neg haway, List.append_nil]
      · rw [hlanes _, if_neg (Ne.symm haway), if_pos rfl, hsome]
      · rw [hlanes i, if_neg hi, if_neg hi', List.append_nil]

theorem Move.relay {label : Label ι} (h : Move label σ σ') (hinv : SendInv c σ) :
    Relay.Step (σ.world.conns c).loop (σ.relay c) (σ'.relay c) := by
  -- the observations of the connection, when nothing is seen of it
  have hsame : σ'.world.seen c = σ.world.seen c →
      (σ'.relay c).accepted = (σ.relay c).accepted ∧ (σ'.relay c).done = (σ.relay c).done := by
    intro hseen
    unfold System.relay World.accepted World.sent
    rw [hseen]
    exact ⟨rfl, rfl⟩
  have hlog : σ'.world.log = σ.world.log → σ'.world.seen c = σ.world.seen c := by
    intro hlog
    rw [World.seen, hlog]
    rfl
  cases h with
  | @conn who k c' t rest new events run todo alive step framed loops todo' =>
    have hbacklog : ∀ i, (σ'.loops i).backlog = (σ.loops i).backlog := fun i => by rw [loops]
    have hseen := seen_append (c := c) framed.log
    by_cases hc : c' = c
    · subst hc
      rw [if_pos rfl] at hseen
      exact hinv.relay_own todo step hseen hbacklog todo'
    · rw [if_neg hc, List.append_nil] at hseen
      obtain ⟨haccepted, hdone⟩ := hsame hseen
      exact .idle haccepted hdone (lanes_quiet todo todo' hbacklog
        (sending_of_about (Task.about_conn_of_ne t hc))
        fun x hx => sending_of_about (step.about_other hc x hx))
  | born todo born loops todo' =>
    obtain ⟨haccepted, hdone⟩ := hsame (hlog born.log)
    refine .idle haccepted hdone (lanes_quiet todo todo' (fun i => by rw [loops]) rfl fun x hx => ?_)
    rw [List.mem_singleton.mp hx, sending_runInLoop]
    exact sending_of_isOutside (isFresh_conn (.inr rfl)).isOutside
  | other todo about hnew world phase pendingFuncs todo' =>
    obtain ⟨haccepted, hdone⟩ := hsame (hlog world.log)
    refine .idle haccepted hdone (lanes_quiet todo todo'
      (fun i => backlog_eq (phase i) (pendingFuncs i)) (sending_of_about (about c)) fun x hx => ?_)
    rcases hnew x hx c with hnone | ⟨rfl, -⟩
    · exact sending_of_about hnone
    · exact sending_conn c _
  | queue todo hnew world loops todo' =>
    obtain ⟨haccepted, hdone⟩ := hsame (by rw [world])
    exact hinv.relay_queue todo hnew haccepted hdone loops todo'
  | @call who call inUserCode knows world loops todo' =>
    obtain ⟨haccepted, hdone⟩ := hsame (by rw [world])
    refine .idle haccepted hdone fun i => ?_
    obtain ⟨hwho, hother⟩ := tasks_exchange todo' fun i => by rw [loops]
    show (σ'.tasks i).filterMap _ = (σ.tasks i).filterMap _
    by_cases hi : i = who
    · rw [hi, hwho, List.cons_append, List.filterMap_cons,
        sending_of_isOutside (isFresh_call who call).isOutside]
      rfl
    · rw [hother i hi]
  | @next loop l calls todo hnext world loops todo' =>
    obtain ⟨haccepted, hdone⟩ := hsame (by rw [world])
    refine .idle haccepted hdone fun i => ?_
    show (σ'.tasks i).filterMap _ = (σ.tasks i).filterMap _
    rw [tasks_next todo hnext loops todo']
  | @poll loop active todo phase reports world loops todo' =>
    obtain ⟨haccepted, hdone⟩ := hsame (by rw [world])
    refine .idle haccepted hdone fun i => ?_
    obtain ⟨hloop, hother⟩ := tasks_poll todo phase loops todo'
    show (σ'.tasks i).filterMap _ = (σ.tasks i).filterMap _
    by_cases hi : i = loop
    · have hnone : (active.map (·.task loop)).filterMap (Task.sending c) = [] := by
        refine List.filterMap_eq_nil_iff.mpr fun x hx => ?_
        obtain ⟨a, -, rfl⟩ := List.mem_map.mp hx
        exact sending_of_isOutside (isOutside_active loop a)
      rw [hi, hloop, List.filterMap_append, hnone]
      rfl
    · rw [hother i hi]
  | time world loops todo' =>
    obtain ⟨haccepted, hdone⟩ := hsame (hlog world.log)
    refine .idle haccepted hdone fun i => ?_
    show (σ'.tasks i).filterMap _ = _
    rw [System.tasks, todo', loops]
    rfl
  | destroy alive refers conns alive' pollers channels epoll server log loops todo' =>
    obtain ⟨haccepted, hdone⟩ := hsame (hlog log)
    refine .idle haccepted hdone fun i => ?_
    show (σ'.tasks i).filterMap _ = _
    rw [System.tasks, todo', loops]
    rfl

/-- The stream of connection `c`. -/
structure StreamInv (c : Nat) (σ : System ι) : Prop where
  sends : SendInv c σ
  ordered : Relay.Ordered (σ.world.conns c).loop (σ.relay c)
  stream : σ.world.wire c ++ (σ.world.conns c).outputBuffer.readable =
    ((σ.world.sent c).map Prod.snd).flatten

theorem step_streamInv [Fintype ι] {label : Label ι} (hinv : StreamInv c σ)
    (hstep : σ.step label = .ok σ') : StreamInv c σ' := by
  obtain ⟨hsends, hordered, hstream⟩ := hinv
  have hmove := step_move hstep
  have hsends' := hmove.sendInv hsends
  have hrelay := (hmove.relay hsends).ordered hordered
  cases hmove.of_conn c with
  | @own who k t rest new events run todo alive step alive' connId seen total =>
    have hloop := hmove.loop_eq (hsends.born alive)
    refine ⟨hsends', by rw [hloop]; exact hrelay, ?_⟩
    have hbytes := step.stream
    have hwire : σ'.world.wire c = σ.world.wire c ++ events.flatMap ConnEvent.wire := by
      rw [World.wire, seen, List.flatMap_append]
      rfl
    have hsent : σ'.world.sent c = σ.world.sent c ++ events.filterMap ConnEvent.sentMessage := by
      rw [World.sent, seen, List.filterMap_append]
      rfl
    calc σ'.world.wire c ++ (σ'.world.conns c).outputBuffer.readable
        = σ.world.wire c ++ (events.flatMap ConnEvent.wire ++
            (σ'.world.link c).conn.outputBuffer.readable) := by
          rw [hwire, List.append_assoc]
          rfl
      _ = σ.world.wire c ++ ((σ.world.conns c).outputBuffer.readable ++
            ((events.filterMap ConnEvent.sentMessage).map Prod.snd).flatten) := by
          rw [← hbytes]
          rfl
      _ = ((σ'.world.sent c).map Prod.snd).flatten := by
          rw [← List.append_assoc, hstream, hsent, List.map_append, List.flatten_append]
  | @born loop fresh connId conn registered seen total =>
    -- nothing was seen of the connection, and no thread has a message for it
    have hnil := (hsends.unborn (by omega)).1
    have hlanes := hmove.lanes_unborn hsends (by omega)
    rw [← seen] at hnil
    obtain ⟨sockfd, delay, hconn⟩ := conn
    refine ⟨hsends', ⟨fun sender => ?_, fun i _ p hp => ?_⟩, ?_⟩
    · unfold Relay.waiting
      rw [hlanes, hlanes]
      show Relay.of sender (σ'.world.accepted c) = Relay.of sender (σ'.world.sent c) ++ _
      rw [World.accepted, World.sent, hnil]
      split_ifs
      all_goals rfl
    · rw [hlanes] at hp
      cases hp
    · rw [hconn, World.wire, World.sent, hnil]
      exact SafeBuffer.init_readable Buffer.kInitialSize
  | idle conn registered alive connId seen total =>
    refine ⟨hsends', by rw [conn]; exact hrelay, ?_⟩
    rw [conn, World.wire, World.sent, seen]
    exact hstream

theorem start_streamInv (baseLoop : ι) (ioLoops : List ι) (delay clock : Nat) (count : UInt64) :
    StreamInv c (System.start baseLoop ioLoops delay clock count) where
  sends := {
    born := fun h => by cases h
    unborn := fun _ => ⟨rfl, fun _ => rfl⟩
    routed := fun _ _ h => by cases h
    top := fun _ _ h => by cases h }
  ordered := by
    refine ⟨fun sender => ?_, fun _ _ _ h => by cases h⟩
    unfold Relay.waiting
    split_ifs
    all_goals rfl
  stream := SafeBuffer.init_readable Buffer.kInitialSize

/-- **Output stream integrity**, in every run and for every connection: the bytes that `::write` has
taken and those that wait in `m_outputBuffer` are the messages whose `sendInLoop` has run, one after
the other, and of each thread these are the first of the messages it sent, in its order. -/
theorem output_stream [Fintype ι] {baseLoop : ι} {ioLoops : List ι} {delay clock : Nat} {count : UInt64}
    {labels : List (Label ι)}
    (hrun : Machine.run System.step (System.start baseLoop ioLoops delay clock count) labels = .ok σ)
    (c : Nat) :
    σ.world.wire c ++ (σ.world.conns c).outputBuffer.readable =
        ((σ.world.sent c).map Prod.snd).flatten ∧
      ∀ sender, Relay.of sender (σ.world.sent c) <+: Relay.of sender (σ.world.accepted c) := by
  have hinv : StreamInv c σ :=
    Machine.run_inv (fun _ _ _ hinv _ hstep => step_streamInv hinv hstep)
      (start_streamInv baseLoop ioLoops delay clock count)
      (Machine.along_of_forall (fun _ _ => trivial) labels) hrun
  exact ⟨hinv.stream, hinv.ordered.prefix⟩

end

/-- The user sends two bytes, and then one more; `::write` takes the first only, and takes one more
byte when the socket is writable again. -/
def sendRun : List (Label (Fin 1)) :=
  acceptRun ++ [Label.call 0 (.send 0 [1, 2])] ++ Label.runs 0 1 ++
    [Label.run 0 ⟨none, some 1, none⟩] ++ [Label.call 0 (.send 0 [3])] ++ Label.runs 0 2 ++
    [Label.ret 0] ++ Label.runs 0 1 ++ [Label.next 0, .next 0] ++
    [Label.poll 0 [.conn 0 Epoll.epollOut], .next 0] ++ Label.runs 0 2 ++
    [Label.run 0 ⟨none, some 1, none⟩]

theorem output_stream_short :
    ∃ σ, Machine.run System.step (System.start (0 : Fin 1) [] 0 0 0) sendRun = .ok σ ∧
      σ.world.wire 0 = [1, 2] ∧ σ.world.wire 0 ++ (σ.world.conns 0).outputBuffer.readable = [1, 2, 3] := by
  obtain ⟨σ, hrun, hwire⟩ := eq_ok_of_toOption (b := ([1, 2], [1, 2, 3]))
    (f := fun σ : System (Fin 1) => (σ.world.wire 0, ((σ.world.sent 0).map Prod.snd).flatten))
    (x := Machine.run System.step (System.start 0 [] 0 0 0) sendRun) (by decide +kernel)
  rw [Prod.mk.injEq] at hwire
  exact ⟨σ, hrun, hwire.1, (output_stream hrun 0).1.trans hwire.2⟩

end VServer

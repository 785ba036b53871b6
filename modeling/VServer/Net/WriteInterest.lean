import VServer.Net.OutputStream
import VServer.Net.Ownership

/-!
# Interest in writing

The channel of a connection is watched for `EPOLLOUT` while bytes wait in `m_outputBuffer`, and only
then: `sendInLoop` and `handleWrite` keep it so, whatever `::write` returns (`sendInLoop_mirrors`,
`handleWrite_mirrors`), and nothing else touches the one or the other until the connection is closed.
So `SHUT_WR`, which is only issued where the channel is not watched for writing, comes behind
every byte of the messages `sendInLoop` was called with.
-/

namespace VServer

open Epoll

variable {ι : Type}

/-! ## One connection -/

namespace TcpConnection

variable {conn : TcpConnection ι} {self : Nat} {p : Poller Nat}

/-- Watched for writing if and only if something waits to be written. -/
def Mirrors (conn : TcpConnection ι) : Prop :=
  conn.channel.isWritable = true ↔ conn.outputBuffer.readable ≠ []

theorem mirrors_of_true {ch : Channel} {out : SafeBuffer} (hch : ch.isWritable = true)
    (hout : out.readable ≠ []) : Mirrors { conn with channel := ch, outputBuffer := out } :=
  ⟨fun _ => hout, fun _ => hch⟩

theorem mirrors_of_false {ch : Channel} {out : SafeBuffer} (hch : ch.isWritable = false)
    (hout : out.readable = []) : Mirrors { conn with channel := ch, outputBuffer := out } :=
  ⟨fun h => absurd (hch.symm.trans h) (by decide), fun h => absurd hout h⟩

theorem sendInLoop_mirrors {sender : ι} {message : List Byte} {written : Option Nat} {r : Result ι}
    (hmirrors : conn.Mirrors) (h : conn.sendInLoop self p sender message written = .ok r) :
    r.1.Mirrors := by
  unfold sendInLoop at h
  dsimp only at h
  generalize (if (!conn.channel.isWritable && decide (conn.outputBuffer.readableBytes = 0)) = true
    then taken message written else 0) = nwrote at h
  by_cases hrest : nwrote < message.length
  · -- bytes are left over, so the buffer is not empty, and the channel is watched for writing
    have hne : (conn.outputBuffer.append (message.drop nwrote)).readable ≠ [] := by
      rw [SafeBuffer.append_readable]
      intro hnil
      have hlength := congrArg List.length (List.append_eq_nil_iff.mp hnil).2
      rw [List.length_drop, List.length_nil] at hlength
      omega
    rw [if_pos hrest] at h
    by_cases hwritable : conn.channel.isWritable = true
    · rw [if_pos hwritable] at h
      cases h
      exact mirrors_of_true hwritable hne
    · rw [if_neg hwritable] at h
      obtain ⟨⟨conn', p'⟩, hop, hreturn⟩ := bind_eq_ok h
      obtain ⟨channel, hchannel, rfl⟩ := withChannel_eq_ok hop
      cases hreturn
      exact mirrors_of_true (Channel.enableWriting_isWritable hchannel) hne
  · rw [if_neg hrest] at h
    cases h
    exact hmirrors

theorem handleWrite_mirrors {written : Option Nat} {r : Result ι} (hmirrors : conn.Mirrors)
    (h : conn.handleWrite self p written = .ok r) : r.1.Mirrors := by
  cases handleWrite_cases h with
  | unwatched off => exact hmirrors
  | failed on none => exact hmirrors
  | left on waits => exact mirrors_of_true on waits
  | drained on empty result => exact mirrors_of_false (Channel.disableWriting_isWritable result) empty

theorem shutdownInLoop_spec {pre post : List (ConnEvent ι)}
    (h : conn.shutdownInLoop = pre ++ .shutdownWrite :: post) :
    post = [] ∧ conn.channel.isWritable = false := by
  unfold shutdownInLoop at h
  split_ifs at h with hwritable
  · simp at h
  · refine ⟨?_, by simpa using hwritable⟩
    cases pre with
    | nil => exact (List.cons.inj h).2.symm
    | cons x pre => simp at h

theorem handleWrite_shutdown {written : Option Nat} {r : Result ι}
    (h : conn.handleWrite self p written = .ok r) {pre post : List (ConnEvent ι)}
    (hsplit : r.2.2 = pre ++ .shutdownWrite :: post) :
    post = [] ∧ r.1.channel.isWritable = false := by
  -- the write is not the `SHUT_WR`
  have hbehind : ∀ {data : List Byte} {n : Nat} {shut : List (ConnEvent ι)},
      .write data n :: shut = pre ++ .shutdownWrite :: post → ∃ pre, shut = pre ++ .shutdownWrite :: post := by
    intro data n shut hsplit
    cases pre with
    | nil => cases (List.cons.inj hsplit).1
    | cons x pre => exact ⟨pre, (List.cons.inj hsplit).2⟩
  cases handleWrite_cases h with
  | unwatched off => simp at hsplit
  | failed on none =>
    obtain ⟨pre, hsplit⟩ := hbehind hsplit
    simp at hsplit
  | left on waits =>
    obtain ⟨pre, hsplit⟩ := hbehind hsplit
    simp at hsplit
  | drained on empty result =>
    refine ⟨?_, Channel.disableWriting_isWritable result⟩
    obtain ⟨pre, hsplit⟩ := hbehind hsplit
    split_ifs at hsplit
    · cases pre with
      | nil => exact (List.cons.inj hsplit).2.symm
      | cons x pre => simp at hsplit
    · simp at hsplit

end TcpConnection

variable [DecidableEq ι] {who : ι} {k : Kernel} {base : ι} {c : Nat} {l l' : Link ι} {t : ConnTask ι}
  {events : List (ConnEvent ι)} {new : List (Task ι)}

theorem ConnStep.mirrors (h : ConnStep who k base c l t l' events new)
    (hquiet : t ≠ .handleClose ∧ t ≠ .notifyDown) (hmirrors : l.conn.Mirrors) : l'.conn.Mirrors := by
  cases h with
  | handleWrite loop result => exact TcpConnection.handleWrite_mirrors hmirrors result
  | sendInLoop loop result => exact TcpConnection.sendInLoop_mirrors hmirrors result
  | handleClose loop isOpen result => exact absurd rfl hquiet.1
  | notifyDown result => exact absurd rfl hquiet.2
  | connectEstablished loop connecting result =>
    unfold TcpConnection.Mirrors at hmirrors ⊢
    rw [← hmirrors, Channel.enableReading_isWritable result]
  | channelRemove result =>
    unfold TcpConnection.Mirrors at hmirrors ⊢
    rw [← hmirrors, Channel.remove_isWritable result]
  | _ => exact hmirrors

/-- `SHUT_WR` is the last thing seen of a task, and the channel is not watched for writing behind
it. -/
theorem ConnStep.shutdownWrite (h : ConnStep who k base c l t l' events new)
    {pre post : List (ConnEvent ι)} (hsplit : events = pre ++ .shutdownWrite :: post) :
    post = [] ∧ l'.conn.channel.isWritable = false := by
  cases h with
  | handleWrite loop result => exact TcpConnection.handleWrite_shutdown result hsplit
  | shutdownInLoop loop => exact TcpConnection.shutdownInLoop_spec hsplit
  | @sendInLoop sender message r loop result =>
    obtain ⟨out, wrote, -, -, -, hevents, hwrote⟩ := TcpConnection.sendInLoop_spec result
    have hmem : .shutdownWrite ∈ wrote ++ [.sent sender message] := by
      rw [← hevents, hsplit]
      simp
    rcases hwrote with ⟨rfl, -⟩ | ⟨n, rfl, -⟩
    all_goals simp at hmem
  | _ =>
    have hmem := congrArg (fun events => decide (ConnEvent.shutdownWrite ∈ events)) hsplit
    simp at hmem

/-- In the interest list, and watched for reading. -/
def Channel.Reads (ch : Channel) : Prop := ch.index = .kAdded ∧ ch.isReadable = true

omit [DecidableEq ι] in
theorem reads_of_updateChannel {self : Nat} {p p' : Poller Nat} {ch ch' : Channel}
    {events : BitVec 32} (h : p.updateChannel self { ch with events := events } = .ok (p', ch'))
    (hreadable : ch'.isReadable = true) : ch'.Reads := by
  obtain ⟨-, hevents, -⟩ := Poller.updateChannel_spec h
  refine ⟨Poller.updateChannel_index (fun hnone => ?_) h, hreadable⟩
  have hevents : ch'.events = Channel.kNoneEvent := hevents.trans hnone
  rw [Channel.isReadable, hevents] at hreadable
  revert hreadable
  decide

omit [DecidableEq ι] in
theorem TcpConnection.WriteInterest.reads {self : Nat} {p p' : Poller Nat} {ch ch' : Channel}
    (h : TcpConnection.WriteInterest self p ch p' ch') (hreads : ch.Reads) : ch'.Reads := by
  have hreadable : ch'.isReadable = true := h.isReadable.trans hreads.2
  cases h with
  | same => exact hreads
  | enabled off result => exact reads_of_updateChannel result hreadable
  | disabled on result => exact reads_of_updateChannel result hreadable

theorem ConnStep.reads (h : ConnStep who k base c l t l' events new)
    (hquiet : t ≠ .handleClose ∧ t ≠ .notifyDown ∧ t ≠ .channelRemove)
    (hreads : t ≠ .connectEstablished → l.conn.channel.Reads) : l'.conn.channel.Reads := by
  cases h with
  | connectEstablished loop connecting result =>
    exact reads_of_updateChannel result (Channel.enableReading_isReadable result)
  | handleWrite loop result =>
    obtain ⟨out, wrote, shut, hinterest, -⟩ := TcpConnection.handleWrite_spec result
    exact hinterest.reads (hreads (by simp))
  | sendInLoop loop result =>
    obtain ⟨out, wrote, hinterest, -⟩ := TcpConnection.sendInLoop_spec result
    exact hinterest.reads (hreads (by simp))
  | handleClose loop isOpen result => exact absurd rfl hquiet.1
  | notifyDown result => exact absurd rfl hquiet.2.1
  | channelRemove result => exact absurd rfl hquiet.2.2
  | _ => exact hreads (by simp)

/-! ## Runs -/

section

variable [Fintype ι] {σ σ' : System ι} {label : Label ι}

/-- Every byte of the messages that `sendInLoop` was called with has been taken. -/
def Drained (seen : List (ConnEvent ι)) : Prop :=
  seen.flatMap ConnEvent.wire = ((seen.filterMap ConnEvent.sentMessage).map Prod.snd).flatten

/-- Until connection `c` is closed, its channel mirrors its buffer. -/
structure InterestInv (c : Nat) (σ : System ι) : Prop where
  mirrors : .closed ∉ σ.world.seen c → (σ.world.conns c).Mirrors
  reads : c < σ.world.server.connId → (σ.world.conns c).state ≠ .kConnecting →
    .closed ∉ σ.world.seen c → (σ.world.conns c).channel.Reads
  drained : Machine.Behind (fun pre => .closed ∉ pre → Drained pre) (· = .shutdownWrite) (σ.world.seen c)

omit [DecidableEq ι] in
theorem LifeInv.closed_of_downs [DecidableEq ι] (hlife : LifeInv c σ) {t : ConnTask ι} {k : Kernel}
    (hperforms : σ.performs label = some (c, t, k)) (ht : t.downs = 1) : .closed ∈ σ.world.seen c := by
  have hpending := le_total_of_performs ConnTask.downs hperforms
  have hdowns := hlife.downs
  have hremoves := hlife.removes
  rw [ht] at hpending
  have hpos : 0 < (σ.world.life c).count .closed := by omega
  exact (List.mem_filter.mp (List.count_pos_iff.mp hpos)).1

theorem step_interestInv (hlife : LifeInv c σ) (hest : EstablishInv c σ) (hstream' : StreamInv c σ')
    (hinv : InterestInv c σ) (hstep : σ.step label = .ok σ') : InterestInv c σ' := by
  obtain ⟨hmirrors, hreads, hdrained⟩ := hinv
  cases (step_move hstep).of_conn c with
  | @own who k t rest new events run todo alive step alive' connId seen total =>
    have hperforms : σ.performs label = some (c, t, k) := performs_of_run run todo
    have hlt := hlife.born alive
    -- a connection that is open behind the step was so before, and the step is no end of it
    have hopen : .closed ∉ σ'.world.seen c → .closed ∉ σ.world.seen c ∧
        t ≠ .handleClose ∧ t ≠ .notifyDown ∧ t ≠ .channelRemove := by
      rw [seen]
      intro hnot
      have hbefore : .closed ∉ σ.world.seen c := fun h => hnot (List.mem_append_left _ h)
      refine ⟨hbefore, ?_, ?_, ?_⟩
      · rintro rfl
        generalize σ'.world.link c = after at step
        cases step with
        | handleClose loop isOpen result => exact hnot (by simp)
      · rintro rfl
        exact hbefore (hlife.closed_of_downs hperforms rfl)
      · rintro rfl
        exact hbefore (hlife.closed_of_downs hperforms rfl)
    have hmirrors' : .closed ∉ σ'.world.seen c → (σ'.world.conns c).Mirrors := by
      intro hnot
      obtain ⟨hbefore, hquiet⟩ := hopen hnot
      exact step.mirrors ⟨hquiet.1, hquiet.2.1⟩ (hmirrors hbefore)
    refine ⟨hmirrors', fun _ hstate hnot => ?_, ?_⟩
    · obtain ⟨hbefore, hquiet⟩ := hopen hnot
      refine step.reads hquiet fun ht => hreads hlt (fun hconnecting => ?_) hbefore
      -- what is done to a connection that is `kConnecting` leaves it so
      rcases later_of_performs hperforms (hest.alone hlt hconnecting).1 with rfl | hcall
      · exact ht rfl
      · have hlink := (step.call_connecting hcall hconnecting).1
        exact hstate ((congrArg (·.conn.state) hlink).trans hconnecting)
    · rw [seen]
      refine hdrained.append ?_
      rintro pre event post hsplit rfl hnot
      obtain ⟨rfl, hwritable⟩ := step.shutdownWrite hsplit
      have hseen : σ'.world.seen c = (σ.world.seen c ++ pre) ++ [.shutdownWrite] := by
        rw [seen, hsplit, List.append_assoc]
      have hnot' : .closed ∉ σ'.world.seen c := by
        rw [hseen]
        simpa using hnot
      -- nothing waits in the buffer, so the stream is what was written
      have hempty : (σ'.world.conns c).outputBuffer.readable = [] := by
        by_contra hne
        have htrue : (σ'.world.conns c).channel.isWritable = true := (hmirrors' hnot').mpr hne
        exact absurd (hwritable.symm.trans htrue) (by decide)
      have hstream := hstream'.stream
      unfold World.wire World.sent at hstream
      have hlast : ([.shutdownWrite] : List (ConnEvent ι)).flatMap ConnEvent.wire = [] ∧
          ([.shutdownWrite] : List (ConnEvent ι)).filterMap ConnEvent.sentMessage = [] := ⟨rfl, rfl⟩
      rwa [hempty, List.append_nil, hseen, List.flatMap_append, List.filterMap_append, hlast.1, hlast.2,
        List.append_nil, List.append_nil] at hstream
  | @born loop fresh connId conn registered seen total alive' =>
    obtain ⟨sockfd, delay, hconn⟩ := conn
    rw [← seen] at hdrained
    refine ⟨fun _ => ?_, fun _ hstate => ?_, hdrained⟩
    · rw [hconn]
      have hidle : (Channel.init sockfd).isWritable = false := by
        show decide (Channel.kNoneEvent &&& Channel.kWriteEvent ≠ 0) = false
        decide
      exact @TcpConnection.mirrors_of_false _ (.init loop sockfd delay) _ _ hidle (SafeBuffer.init_readable _)
    · rw [hconn] at hstate
      exact absurd rfl hstate
  | idle conn registered alive connId seen total =>
    rw [← conn, ← seen] at hmirrors hreads
    rw [← seen] at hdrained
    exact ⟨hmirrors, fun h => hreads (connId.mp h), hdrained⟩

omit [Fintype ι] in
theorem start_interestInv (baseLoop : ι) (ioLoops : List ι) (delay clock : Nat) (count : UInt64) :
    InterestInv c (System.start baseLoop ioLoops delay clock count) where
  mirrors _ := by
    have hidle : (Channel.init 0).isWritable = false := by decide
    exact @TcpConnection.mirrors_of_false _ (.init baseLoop 0 delay) _ _ hidle
      (SafeBuffer.init_readable _)
  reads h := by cases h
  drained := Machine.behind_nil

/-- What holds of connection `c` in every run, for what is said about it until it is closed. -/
structure OpenInv (c : Nat) (σ : System ι) : Prop where
  life : LifeInv c σ
  registered : Registered σ
  established : EstablishInv c σ
  alive : AliveInv c σ
  stream : StreamInv c σ
  interest : InterestInv c σ

theorem step_openInv (h : OpenInv c σ) (hstep : σ.step label = .ok σ') : OpenInv c σ' where
  life := step_lifeInv h.life hstep
  registered := (step_move hstep).registered h.registered
  established := step_establishInv h.life h.registered h.established hstep
  alive := step_aliveInv h.life h.alive hstep
  stream := step_streamInv h.stream hstep
  interest := step_interestInv h.life h.established (step_streamInv h.stream hstep) h.interest hstep

theorem start_openInv (baseLoop : ι) (ioLoops : List ι) (delay clock : Nat) (count : UInt64) :
    OpenInv c (System.start baseLoop ioLoops delay clock count) where
  life := start_lifeInv baseLoop ioLoops delay clock count
  registered := start_registered baseLoop ioLoops delay clock count
  established := start_establishInv baseLoop ioLoops delay clock count
  alive := start_aliveInv baseLoop ioLoops delay clock count
  stream := start_streamInv baseLoop ioLoops delay clock count
  interest := start_interestInv baseLoop ioLoops delay clock count

theorem and_eq_zero_of_masked {x m o : BitVec 32} (hx : x &&& ~~~m = 0) (hm : m &&& o = 0) :
    x &&& o = 0 := by
  have hsplit : x = x &&& m := by
    calc x = x &&& (m ||| ~~~m) := by rw [BitVec.or_not_self, BitVec.and_allOnes]
      _ = x &&& m := by
        rw [BitVec.and_or_distrib_left, hx]
        exact BitVec.or_zero
  rw [hsplit, BitVec.and_assoc, hm]
  exact BitVec.and_zero

theorem epollOut_masked {events : BitVec 32} (h : events &&& epollOut ≠ 0) (m : BitVec 32) :
    epollOut &&& ~~~(events ||| m) = 0 := by
  have htwo : epollOut = BitVec.twoPow 32 2 := by decide
  rw [htwo, BitVec.and_twoPow] at h
  rw [htwo, BitVec.and_comm, BitVec.and_twoPow]
  by_cases hbit : events.getLsbD 2 = true
  · rw [BitVec.getLsbD_not, BitVec.getLsbD_or, hbit]
    rfl
  · exact absurd (if_neg hbit) h

/-- What a connection that is not closed is watched for: while bytes wait, its loop may be told that
it can write, and while none wait, no loop is. -/
structure Mirrored (c : Nat) (σ : System ι) : Prop where
  interest : (σ.world.conns c).channel.isWritable = true ↔ (σ.world.conns c).outputBuffer.readable ≠ []
  backlog : c < σ.world.server.connId → (σ.world.conns c).state ≠ .kConnecting →
    (σ.world.conns c).outputBuffer.readable ≠ [] →
    σ.reports (σ.world.conns c).loop (.conn c epollOut) = true
  idle : (σ.world.conns c).outputBuffer.readable = [] → ∀ i revents,
    σ.reports i (.conn c revents) = true → revents &&& epollOut = 0

/-- **Write interest mirrors the backlog**, in every run and until the connection is closed, and
until then `SHUT_WR` comes behind every byte that was to be sent so far. -/
theorem write_interest {baseLoop : ι} {ioLoops : List ι} {delay clock : Nat} {count : UInt64}
    {labels : List (Label ι)}
    (hrun : Machine.run System.step (System.start baseLoop ioLoops delay clock count) labels = .ok σ)
    (c : Nat) :
    (.closed ∉ σ.world.seen c → Mirrored c σ) ∧
      ∀ pre post, σ.world.seen c = pre ++ .shutdownWrite :: post → .closed ∉ pre → Drained pre := by
  obtain ⟨hlife, hreg, hest, halive, hstream, hinterest⟩ : OpenInv c σ :=
    Machine.run_inv (fun _ _ _ hinv _ hstep => step_openInv hinv hstep)
      (start_openInv baseLoop ioLoops delay clock count)
      (Machine.along_of_forall (fun _ _ => trivial) labels) hrun
  refine ⟨fun hopen => ?_, fun pre post hsplit hnot => hinterest.drained pre _ post hsplit rfl hnot⟩
  have hmirrors := hinterest.mirrors hopen
  refine ⟨hmirrors, fun hlt hstate hbacklog => ?_, fun hempty i revents hreport => ?_⟩
  · have hreads := hinterest.reads hlt hstate hopen
    have hup : (σ.world.life c).countP ConnEvent.isDestroyed = 0 := by
      have hremoves := hlife.removes
      have hdowns := hlife.downs
      have hzero : (σ.world.life c).count .closed = 0 :=
        List.count_eq_zero.mpr fun hmem => hopen (List.mem_filter.mp hmem).1
      omega
    have hwritable : (σ.world.conns c).channel.events &&& epollOut ≠ 0 :=
      of_decide_eq_true (hmirrors.mpr hbacklog)
    refine hreg.reports_iff.mpr ⟨halive hlt hup, rfl, hreads.1, by decide, ?_⟩
    rw [BitVec.or_assoc]
    exact epollOut_masked hwritable _
  · obtain ⟨-, -, -, -, hbits⟩ := hreg.reports_iff.mp hreport
    have hidle : (σ.world.conns c).channel.events &&& epollOut = 0 := by
      by_contra hne
      exact hmirrors.mp (decide_eq_true hne) hempty
    refine and_eq_zero_of_masked hbits ?_
    rw [BitVec.or_assoc, BitVec.and_or_distrib_right, hidle]
    decide

end

/-- One byte of `sendRun` waits in the end, and the loop may be told that it can be written. -/
theorem write_interest_backlog :
    ∃ σ, Machine.run System.step (System.start (0 : Fin 1) [] 0 0 0) sendRun = .ok σ ∧
      (σ.world.conns 0).outputBuffer.readable = [3] ∧ σ.reports 0 (.conn 0 epollOut) = true := by
  obtain ⟨σ, hrun, hseen⟩ := eq_ok_of_toOption (b := (true, true, true, [3]))
    (f := fun σ : System (Fin 1) => (decide (.closed ∉ σ.world.seen 0),
      decide (0 < σ.world.server.connId), decide ((σ.world.conns 0).state ≠ .kConnecting),
      (σ.world.conns 0).outputBuffer.readable))
    (x := Machine.run System.step (System.start 0 [] 0 0 0) sendRun) (by decide +kernel)
  simp only [Prod.mk.injEq, decide_eq_true_eq] at hseen
  obtain ⟨hopen, hlt, hstate, hrest⟩ := hseen
  have hmirrored := (write_interest hrun 0).1 hopen
  refine ⟨σ, hrun, hrest, ?_⟩
  have hreports := hmirrored.backlog hlt hstate (by rw [hrest]; exact List.cons_ne_nil _ _)
  rwa [Subsingleton.elim (σ.world.conns 0).loop 0] at hreports

end VServer

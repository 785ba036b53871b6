import VServer.Net.Places

/-!
# The removal of a channel

`connectDestroyed` takes the channel out of the poller, and asserts that it is watched for nothing. A
connection that is `kConnected` has `disableAll` called first; of one that is not, `handleClose` has
done it, but a `sendInLoop` that was queued before the connection was closed may have enabled writing
again. Behind the removal, a `sendInLoop` that is left with bytes and a `forceCloseInLoop` that finds
the connection `kDisconnecting` put the channel back into the poller. Where none of the three
happens, the channel stays out (`RemovalInv`).
-/

namespace VServer

/-! ## What a channel is watched for -/

namespace Channel

variable {κ : Type} [DecidableEq κ] {owner : κ} {p p' : Poller κ} {ch ch' : Channel}

def Plain (ch : Channel) : Prop := ch.events &&& ~~~(kReadEvent ||| kWriteEvent) = 0

theorem Plain.or {events : BitVec 32} (h : ch.Plain) (hevents : events &&& ~~~(kReadEvent ||| kWriteEvent) = 0)
    (heq : ch'.events = ch.events ||| events) : ch'.Plain := by
  unfold Plain at *
  rw [heq, BitVec.and_or_distrib_right, h, hevents]
  rfl

theorem Plain.and {events : BitVec 32} (h : ch.Plain) (heq : ch'.events = ch.events &&& events) :
    ch'.Plain := by
  unfold Plain at *
  rw [heq, BitVec.and_assoc, BitVec.and_comm events, ← BitVec.and_assoc, h]
  exact BitVec.zero_and

theorem plain_of_none (h : ch.events = kNoneEvent) : ch.Plain := by
  unfold Plain
  rw [h]
  rfl

theorem isWritable_of_none (h : ch.events = kNoneEvent) : ch.isWritable = false := by
  unfold isWritable
  rw [h]
  decide

theorem Plain.events_eq (h : ch.Plain) (hread : ch.isReadable = false) (hwrite : ch.isWritable = false) :
    ch.events = kNoneEvent := by
  have hread : ch.events &&& kReadEvent = 0 := by simpa [isReadable] using hread
  have hwrite : ch.events &&& kWriteEvent = 0 := by simpa [isWritable] using hwrite
  have hall : (kReadEvent ||| kWriteEvent) ||| ~~~(kReadEvent ||| kWriteEvent) = BitVec.allOnes 32 := by
    decide
  calc ch.events = ch.events &&& BitVec.allOnes 32 := BitVec.and_allOnes.symm
    _ = ((ch.events &&& kReadEvent) ||| (ch.events &&& kWriteEvent)) |||
        (ch.events &&& ~~~(kReadEvent ||| kWriteEvent)) := by
      rw [← hall, BitVec.and_or_distrib_left, BitVec.and_or_distrib_left]
    _ = kNoneEvent := by
      rw [hread, hwrite, h]
      rfl

end Channel

variable {ι : Type} [DecidableEq ι] {who : ι} {k : Kernel} {base : ι} {c : Nat} {l l' : Link ι}
  {t : ConnTask ι} {events : List (ConnEvent ι)} {new : List (Task ι)}

omit [DecidableEq ι] in
theorem TcpConnection.WriteInterest.plain {p p' : Poller Nat} {ch ch' : Channel}
    (h : TcpConnection.WriteInterest c p ch p' ch') (hplain : ch.Plain) : ch'.Plain := by
  cases h with
  | same => exact hplain
  | enabled off result =>
    obtain ⟨-, hevents, -⟩ := Poller.updateChannel_spec result
    exact hplain.or (by decide) hevents
  | disabled on result =>
    obtain ⟨-, hevents, -⟩ := Poller.updateChannel_spec result
    exact hplain.and hevents

theorem ConnStep.plain (h : ConnStep who k base c l t l' events new) (hplain : l.conn.channel.Plain) :
    l'.conn.channel.Plain := by
  cases h with
  | handleWrite loop result =>
    obtain ⟨out, wrote, shut, hinterest, -⟩ := TcpConnection.handleWrite_spec result
    exact hinterest.plain hplain
  | sendInLoop loop result =>
    obtain ⟨out, wrote, hinterest, -⟩ := TcpConnection.sendInLoop_spec result
    exact hinterest.plain hplain
  | handleClose loop isOpen result =>
    obtain ⟨-, hevents, -⟩ := Poller.updateChannel_spec result
    exact Channel.plain_of_none hevents
  | notifyDown result =>
    obtain ⟨-, hevents, -⟩ := Poller.updateChannel_spec result
    exact Channel.plain_of_none hevents
  | connectEstablished loop connecting result =>
    obtain ⟨-, hevents, -⟩ := Poller.updateChannel_spec result
    exact hplain.or (by decide) hevents
  | channelRemove result =>
    obtain ⟨-, hremove⟩ := remove_eq_ok result
    obtain ⟨-, hevents, -⟩ := Poller.removeChannel_spec hremove
    unfold Channel.Plain at *
    rwa [hevents]
  | _ => exact hplain

/-- A channel that is watched for nothing stays as it is, unless the connection is established, closed
or removed, or `sendInLoop` is left with bytes. -/
theorem ConnStep.keeps_channel (h : ConnStep who k base c l t l' events new)
    (hnone : l.conn.channel.events = Channel.kNoneEvent)
    (hsend : ∀ sender message, t = .sendInLoop sender message → l.conn.keepsRest message k.write = false)
    (ht : t ≠ .connectEstablished ∧ t ≠ .handleClose ∧ t ≠ .notifyDown ∧ t ≠ .channelRemove) :
    l'.conn.channel = l.conn.channel ∧ l'.poller = l.poller := by
  cases h with
  | @handleWrite r loop result =>
    unfold TcpConnection.handleWrite at result
    rw [if_neg (by simp [Channel.isWritable_of_none hnone])] at result
    cases result
    exact ⟨rfl, rfl⟩
  | @sendInLoop sender message r loop result =>
    obtain ⟨out, wrote, -, hkeeps, -⟩ := TcpConnection.sendInLoop_spec result
    exact (hkeeps (hsend sender message rfl)).symm
  | connectEstablished loop connecting result => exact absurd rfl ht.1
  | handleClose loop isOpen result => exact absurd rfl ht.2.1
  | notifyDown result => exact absurd rfl ht.2.2.1
  | channelRemove result => exact absurd rfl ht.2.2.2
  | _ => exact ⟨rfl, rfl⟩

theorem ConnStep.clears (h : ConnStep who k base c l t l' events new)
    (ht : t = .handleClose ∨ t = .notifyDown ∨ t = .channelRemove) :
    l'.conn.channel.events = Channel.kNoneEvent := by
  cases h with
  | handleClose loop isOpen result =>
    obtain ⟨-, hevents, -⟩ := Poller.updateChannel_spec result
    exact hevents
  | notifyDown result =>
    obtain ⟨-, hevents, -⟩ := Poller.updateChannel_spec result
    exact hevents
  | channelRemove result =>
    obtain ⟨hnone, hremove⟩ := remove_eq_ok result
    obtain ⟨-, hevents, -⟩ := Poller.removeChannel_spec hremove
    exact hevents.trans hnone
  | _ => simp at ht

theorem ConnStep.removes (h : ConnStep who k base c l .channelRemove l' events new) :
    l'.conn.channel.index = .kNew ∧ l'.poller.channels l'.conn.channel.fd = none ∧ new = [] := by
  cases h with
  | channelRemove result =>
    obtain ⟨-, hremove⟩ := remove_eq_ok result
    obtain ⟨hfd, -, hindex, -, hchannels⟩ := Poller.removeChannel_spec hremove
    exact ⟨hindex, hfd ▸ hchannels, rfl⟩

/-- What is not closed, reported down or removed leaves no part of `connectDestroyed` that had not been
there. -/
theorem ConnStep.sum_channelRemove_of_connected (h : ConnStep who k base c l t l' events new)
    (hpos : 0 < (new.map (Task.weight c (ConnTask.one .channelRemove))).sum) :
    t = .notifyDown ∨ t = .connectDestroyed ∧ l.conn.state ≠ .kConnected := by
  by_cases hup : t = .connectDestroyed → l.conn.state = .kConnected
  · rw [h.sum_channelRemove hup] at hpos
    refine .inl ?_
    by_contra hne
    rw [one_of_ne hne] at hpos
    omega
  · push Not at hup
    exact .inr hup

section

variable [Fintype ι] {σ σ' : System ι} {label : Label ι}

/-- What holds of the channel of connection `c` in every run. -/
structure WatchInv (c : Nat) (σ : System ι) : Prop where
  plain : (σ.world.conns c).channel.Plain
  /-- What is closed is not watched for reading any more. -/
  unwatched : 0 < (σ.world.life c).count .closed → (σ.world.conns c).channel.isReadable = false

omit [Fintype ι] in
theorem start_watchInv (baseLoop : ι) (ioLoops : List ι) (delay clock : Nat) (count : UInt64) :
    WatchInv c (System.start baseLoop ioLoops delay clock count) :=
  ⟨Channel.plain_of_none rfl, nofun⟩

theorem step_watchInv (hlife : LifeInv c σ) (hinv : WatchInv c σ) (hstep : σ.step label = .ok σ') :
    WatchInv c σ' := by
  obtain ⟨hplain, hunwatched⟩ := hinv
  cases (step_move hstep).of_conn c with
  | @own who k t rest new events run todo alive step alive' connId seen total =>
    refine ⟨step.plain hplain, fun hpos => ?_⟩
    have hafter : σ'.world.life c = σ.world.life c ++ events.filter ConnEvent.isLife :=
      World.life_append seen
    rw [hafter, List.count_append] at hpos
    have hlifeStep := step.life
    generalize events.filter ConnEvent.isLife = life at hpos hlifeStep
    cases hlifeStep with
    | closed isOpen state unwatched registered => exact unwatched
    | notified state unwatched registered => exact unwatched
    | established connecting state registered =>
      rw [hlife.connecting connecting] at hpos
      simp at hpos
    | removed registered conn gone =>
      have hsame : (σ'.world.conns c) = σ.world.conns c := conn
      rw [hsame]
      exact hunwatched (by simpa using hpos)
    | disconnected state channel registered =>
      have hsame : (σ'.world.conns c).channel = (σ.world.conns c).channel := channel
      rw [hsame]
      exact hunwatched (by simpa using hpos)
    | disconnecting state channel registered =>
      have hsame : (σ'.world.conns c).channel = (σ.world.conns c).channel := channel
      rw [hsame]
      exact hunwatched (by simpa using hpos)
    | destroyed state watched registered =>
      exact watched.trans (hunwatched (by simpa using hpos))
    | other ht state watched registered =>
      exact watched.trans (hunwatched (by simpa using hpos))
  | @born loop fresh connId conn registered seen total =>
    obtain ⟨sockfd, delay, hconn⟩ := conn
    have hchannel : (σ'.world.conns c).channel = .init sockfd := by
      rw [hconn]
      rfl
    have hnil : σ'.world.life c = [] := (World.life_eq seen).trans (hlife.unborn (by omega))
    refine ⟨?_, fun hpos => ?_⟩
    · rw [hchannel]
      exact Channel.plain_of_none rfl
    · rw [hnil] at hpos
      cases hpos
  | idle conn registered alive connId seen total =>
    have hsame : σ'.world.life c = σ.world.life c := World.life_eq seen
    rw [← conn] at hplain hunwatched
    rw [← hsame] at hunwatched
    exact ⟨hplain, hunwatched⟩

omit [Fintype ι] in
theorem Move.channels_eq (h : Move label σ σ') (hreg : Registered σ) (halive : σ.world.alive c = true)
    (hother : ∀ t k, σ.performs label ≠ some (c, t, k)) :
    (σ'.world.pollers (σ.world.conns c).loop).channels (σ.world.conns c).channel.fd =
      (σ.world.pollers (σ.world.conns c).loop).channels (σ.world.conns c).channel.fd := by
  cases h with
  | @conn who k c' t rest new events run todo alive step framed loops todo' =>
    have hc : c ≠ c' := by
      rintro rfl
      exact hother t k (performs_of_run run todo)
    by_cases hloop : (σ.world.conns c).loop = (σ.world.conns c').loop
    · rw [hloop]
      exact framed.sameBut.channels _ fun hfd => hc (hreg.distinct c c' halive alive hfd)
    · rw [framed.pollers _ hloop]
  | born todo born loops todo' => rw [born.pollers]
  | other todo about hnew world phase pendingFuncs todo' => rw [world.pollers]
  | queue todo hnew world loops todo' => rw [world]
  | call inUserCode knows world loops todo' => rw [world]
  | next todo hnext world loops todo' => rw [world]
  | poll todo phase reports world loops todo' => rw [world]
  | time world loops todo' => rw [world.pollers]
  | @destroy c' alive refers conns alive' pollers channels epoll server log loops todo' =>
    by_cases hloop : (σ.world.conns c).loop = (σ.world.conns c').loop
    · rw [hloop, channels]
    · rw [pollers _ hloop]

/-! ## The condition -/

/-- `connectDestroyed` finds the connection `kConnected`, or not watched for writing; and the functors
that come behind it find nothing to do that touches the channel. -/
def RemovesClean (σ : System ι) (label : Label ι) : Prop :=
  match σ.performs label with
  | some (c, .connectDestroyed, _) =>
    (σ.world.conns c).state = .kConnected ∨ (σ.world.conns c).channel.isWritable = false
  | some (c, .sendInLoop _ message, k) =>
    (σ.world.conns c).channel.index = .kNew → (σ.world.conns c).keepsRest message k.write = false
  | some (c, .forceCloseInLoop, _) =>
    (σ.world.conns c).channel.index = .kNew → (σ.world.conns c).isOpen = false
  | _ => True

instance (σ : System ι) (label : Label ι) : Decidable (RemovesClean σ label) := by
  unfold RemovesClean
  rcases σ.performs label with _ | ⟨c, ⟨⟩, k⟩
  all_goals infer_instance

/-- What holds of connection `c` from the end of the callback of `connectDestroyed` on. -/
structure RemovalInv (c : Nat) (σ : System ι) : Prop where
  none : 0 < σ.pending c .channelRemove + (σ.world.life c).countP ConnEvent.isDestroyed →
    (σ.world.conns c).channel.events = Channel.kNoneEvent
  out : 0 < (σ.world.life c).countP ConnEvent.isDestroyed → σ.world.alive c = true →
    (σ.world.conns c).channel.index = .kNew ∧
      (σ.world.pollers (σ.world.conns c).loop).channels (σ.world.conns c).channel.fd = Option.none
  /-- No event is on its way to the connection any more. -/
  quiet : 0 < (σ.world.life c).countP ConnEvent.isDestroyed → σ.total c ConnTask.closes = 0

/-- All that is known of connection `c` on the way. -/
structure RemovalState (c : Nat) (σ : System ι) : Prop where
  life : LifeInv c σ
  registered : Registered σ
  established : EstablishInv c σ
  routed : Routed c σ
  home : ClosesAtHome c σ
  watch : WatchInv c σ
  down : DownInv c σ
  alone : DownsAlone c σ
  removal : RemovalInv c σ

theorem start_removalState (baseLoop : ι) (ioLoops : List ι) (delay clock : Nat) (count : UInt64) :
    RemovalState c (System.start baseLoop ioLoops delay clock count) where
  life := start_lifeInv baseLoop ioLoops delay clock count
  registered := start_registered baseLoop ioLoops delay clock count
  established := start_establishInv baseLoop ioLoops delay clock count
  routed := start_routed baseLoop ioLoops delay clock count
  home := nofun
  watch := start_watchInv baseLoop ioLoops delay clock count
  down := start_downInv baseLoop ioLoops delay clock count
  alone := start_downsAlone baseLoop ioLoops delay clock count
  removal := by
    refine ⟨fun _ => rfl, nofun, nofun⟩

theorem RemovalState.closes_eq_zero (h : RemovalState c σ) {rest : List (Task ι)}
    (htodo : σ.todo who = .conn c .channelRemove :: rest) : σ.total c ConnTask.closes = 0 := by
  have htorn := h.alone who .channelRemove (htodo ▸ List.mem_cons_self) rfl
  obtain ⟨-, rfl⟩ := htorn.top htodo rfl
  obtain ⟨funcs, hphase⟩ := htorn.calling
  by_contra hne
  obtain ⟨i, x, hx, t, hab, hpos⟩ := exists_of_total_pos (Nat.pos_of_ne_zero hne)
  have hle := closes_le_one t
  have ht : t.closes = 1 := by omega
  -- what closes is on the loop of the connection, and that is the thread at hand
  obtain rfl : i = who := (h.home i x hx t hab ht).trans (htorn.home nofun).symm
  rcases List.mem_append.mp hx with hx | hx
  · rw [htodo, List.mem_singleton] at hx
    subst hx
    rw [Task.about_conn] at hab
    cases hab
    cases ht
  · rcases h.routed.backlog hx with hqueued | ⟨a, active, hevents, -⟩
    · have hfunctor := hqueued t hab
      rw [isFunctor_of_closes ht] at hfunctor
      cases hfunctor
    · rw [hphase] at hevents
      cases hevents

theorem RemovalState.not_sending (h : RemovalState c σ) {sender : ι} {message : List Byte}
    {rest : List (Task ι)} (htodo : σ.todo who = .conn c (.sendInLoop sender message) :: rest)
    (hwho : who = (σ.world.conns c).loop) : σ.pending c .channelRemove = 0 := by
  by_contra hne
  obtain ⟨i, x, hx, t, hab, hpos⟩ := exists_of_total_pos (Nat.pos_of_ne_zero hne)
  have ht : t = .channelRemove := by
    by_contra hnot
    rw [one_of_ne hnot] at hpos
    omega
  subst ht
  obtain rfl := h.routed.direct hx hab rfl
  have hmem : .conn c .channelRemove ∈ σ.todo i := by
    rcases List.mem_append.mp hx with hx | hx
    · exact hx
    · rcases h.routed.backlog hx with hqueued | ⟨a, -, -, heq⟩
      · cases hqueued _ hab
      · cases a
        all_goals cases heq
  have htorn := h.alone i .channelRemove hmem rfl
  obtain rfl : i = who := (htorn.home nofun).trans hwho.symm
  obtain ⟨heq, -⟩ := htorn.top htodo rfl
  cases heq

theorem Move.removalInv_of_other (h : Move label σ σ') (hstate : RemovalState c σ)
    (hother : ∀ t k, σ.performs label ≠ some (c, t, k)) : RemovalInv c σ' := by
  obtain ⟨hnone, hout, hquiet⟩ := hstate.removal
  cases h.of_conn c with
  | own run todo alive step alive' connId seen total =>
    exact absurd (performs_of_run run todo) (hother _ _)
  | @born loop fresh connId conn registered seen total =>
    have hnil : σ.world.life c = [] := hstate.life.unborn (by omega)
    have hafter : σ'.world.life c = [] := (World.life_eq seen).trans hnil
    obtain ⟨sockfd, delay, hconn⟩ := conn
    have hundestroyed : ¬ 0 < (σ'.world.life c).countP ConnEvent.isDestroyed := by
      rw [hafter]
      exact Nat.lt_irrefl 0
    refine ⟨fun _ => ?_, fun h => absurd h hundestroyed, fun h => absurd h hundestroyed⟩
    rw [hconn]
    rfl
  | idle conn registered alive connId seen total =>
    obtain ⟨incoming, hincoming, hreports, htotal⟩ := total
    have hlife : σ'.world.life c = σ.world.life c := World.life_eq seen
    rw [← hlife] at hnone hout hquiet
    refine ⟨?_, fun hpos halive' => ?_, fun hpos => ?_⟩
    · rw [pending_incoming (x := .channelRemove) htotal hincoming rfl, conn]
      exact hnone
    · rw [conn, h.channels_eq hstate.registered (alive halive') hother]
      exact hout hpos (alive halive')
    · rw [htotal, hquiet hpos, Nat.zero_add]
      refine List.sum_eq_zero fun n hn => ?_
      obtain ⟨t, ht, rfl⟩ := List.mem_map.mp hn
      by_contra hne
      have hle := closes_le_one t
      -- the channel is not in the poller, so nothing is reported
      obtain ⟨revents, rfl⟩ := exists_handleEvent (by omega) (hincoming t ht)
      obtain ⟨i, hreport⟩ := hreports revents ht
      obtain ⟨halive, -, hadded, -⟩ := hstate.registered.reports_iff.mp hreport
      rw [(hout hpos halive).1] at hadded
      cases hadded

theorem step_removalInv (hstate : RemovalState c σ) (hclean : RemovesClean σ label)
    (hstep : σ.step label = .ok σ') : RemovalInv c σ' := by
  by_cases hperforms : ∃ t k, σ.performs label = some (c, t, k)
  swap
  · push Not at hperforms
    exact (step_move hstep).removalInv_of_other hstate hperforms
  obtain ⟨t, k, hperforms⟩ := hperforms
  obtain ⟨who, new, events, hlabel, halive, hconn, -, hseen, htotal⟩ := step_own hstep hperforms
  obtain ⟨who', rest, hlabel', htodo⟩ := performs_eq_some hperforms
  obtain rfl : who = who' := by
    rw [hlabel] at hlabel'
    cases hlabel'
    rfl
  obtain ⟨hnone, hout, hquiet⟩ := hstate.removal
  have hparts := hstate.life.parts
  have honce := hstate.life.once
  have hloop := (step_move hstep).loop_eq (hstate.life.born halive)
  rw [RemovesClean, hperforms] at hclean
  have hdestroyed : (σ'.world.life c).countP ConnEvent.isDestroyed =
      (σ.world.life c).countP ConnEvent.isDestroyed + ConnTask.one .channelRemove t := by
    rw [← hconn.life.countP_destroyed, World.life, hseen, List.filter_append, List.countP_append]
    rfl
  have hremoval : σ'.pending c .channelRemove + ConnTask.one .channelRemove t =
      σ.pending c .channelRemove + (new.map (Task.weight c (ConnTask.one .channelRemove))).sum :=
    htotal _
  have hpending : ∀ x, ConnTask.one x t ≤ σ.pending c x := one_le_pending hperforms
  have hremove := hpending .channelRemove
  have hnotify := hpending .notifyDown
  have hdowns : t.downs ≤ σ.total c ConnTask.downs := le_total_of_performs ConnTask.downs hperforms
  -- the channel stays as it is where something has been removed or is about to be
  have hkeeps : 0 < σ.pending c .channelRemove + (σ.world.life c).countP ConnEvent.isDestroyed →
      t ≠ .handleClose ∧ t ≠ .notifyDown ∧ t ≠ .channelRemove →
      (σ'.world.conns c).channel = (σ.world.conns c).channel ∧
        σ'.world.pollers (σ.world.conns c).loop = σ.world.pollers (σ.world.conns c).loop := by
    rintro hpos ⟨hclose, hnotified, hremoved⟩
    have hsend : ∀ sender message, t = .sendInLoop sender message →
        (σ.world.conns c).keepsRest message k.write = false := by
      rintro sender message rfl
      have hwho : who = (σ.world.conns c).loop := by
        generalize σ'.world.link c = after at hconn
        cases hconn with
        | sendInLoop loop result => exact loop
      have hzero := hstate.not_sending htodo hwho
      exact hclean (hout (by omega) halive).1
    have hestablished : t ≠ .connectEstablished := by
      rintro rfl
      have hconnecting : (σ.world.conns c).state = .kConnecting := by
        generalize σ'.world.link c = after at hconn
        cases hconn with
        | connectEstablished loop connecting result => exact connecting
      have hnil : σ.world.life c = [] := hstate.life.connecting hconnecting
      rw [hnil] at hparts hpos
      simp only [List.count_nil, List.countP_nil] at hparts hpos
      omega
    obtain ⟨hchannel, hpoller⟩ :=
      hconn.keeps_channel (hnone hpos) hsend ⟨hestablished, hclose, hnotified, hremoved⟩
    have hpoller : σ'.world.pollers (σ'.world.conns c).loop = σ.world.pollers (σ.world.conns c).loop :=
      hpoller
    rw [hloop] at hpoller
    exact ⟨hchannel, hpoller⟩
  refine ⟨fun hpos => ?_, fun hpos _ => ?_, fun hpos => ?_⟩
  · by_cases hclears : t = .handleClose ∨ t = .notifyDown ∨ t = .channelRemove
    · exact hconn.clears hclears
    push Not at hclears
    by_cases hbefore : 0 < σ.pending c .channelRemove + (σ.world.life c).countP ConnEvent.isDestroyed
    · rw [(hkeeps hbefore hclears).1]
      exact hnone hbefore
    · -- `connectDestroyed` goes on to the removal at once, with a channel that has been closed
      rw [one_of_ne hclears.2.2] at hremoval hdestroyed
      rcases hconn.sum_channelRemove_of_connected (by omega) with ht | ⟨rfl, hconnected⟩
      · exact absurd ht hclears.2.1
      have hclosed := hstate.life.removes
      have hdowned := hstate.life.downs
      simp only [ConnTask.downs] at hdowns
      have hread := hstate.watch.unwatched (by omega)
      have hwrite := (or_iff_right hconnected).mp hclean
      have hsame : σ'.world.link c = σ.world.link c := by
        generalize σ'.world.link c = after at hconn
        cases hconn with
        | connectDestroyed loop connected => rfl
        | connectDestroyedSilent loop connected => rfl
      have hchannel : (σ'.world.conns c).channel = (σ.world.conns c).channel :=
        congrArg (fun l => l.conn.channel) hsame
      rw [hchannel]
      exact hstate.watch.plain.events_eq hread hwrite
  · by_cases ht : t = .channelRemove
    · subst ht
      obtain ⟨hindex, hchannels, -⟩ := hconn.removes
      exact ⟨hindex, hchannels⟩
    · rw [one_of_ne ht] at hdestroyed
      have hbefore : 0 < (σ.world.life c).countP ConnEvent.isDestroyed := by omega
      have hclose : t ≠ .handleClose := by
        rintro rfl
        have hle := le_total_of_performs ConnTask.closes hperforms
        rw [hquiet hbefore] at hle
        cases hle
      have hnotified : t ≠ .notifyDown := by
        rintro rfl
        rw [one_self] at hnotify
        omega
      obtain ⟨hchannel, hpoller⟩ := hkeeps (by omega) ⟨hclose, hnotified, ht⟩
      rw [hchannel, hloop, hpoller]
      exact hout hbefore halive
  · have hflow := htotal ConnTask.closes
    by_cases ht : t = .channelRemove
    · subst ht
      have hzero := hstate.closes_eq_zero htodo
      obtain ⟨-, -, rfl⟩ := hconn.removes
      rw [hzero] at hflow
      simpa [ConnTask.closes] using hflow
    · rw [one_of_ne ht] at hdestroyed
      have hbefore : 0 < (σ.world.life c).countP ConnEvent.isDestroyed := by omega
      have hle := le_total_of_performs ConnTask.closes hperforms
      rw [hquiet hbefore] at hflow hle
      have hnew : (new.map (Task.weight c ConnTask.closes)).sum = 0 := by
        rw [sum_weight]
        refine List.sum_eq_zero fun n hn => ?_
        obtain ⟨t', ht', rfl⟩ := List.mem_map.mp hn
        obtain ⟨x, hx, hab⟩ := List.mem_filterMap.mp ht'
        by_contra hne
        have hone := closes_le_one t'
        rcases hconn.closes hx hab (by omega) with hclose | ⟨rfl, -, hopen⟩
        · omega
        · have hnot := hclean (hout hbefore halive).1
          exact absurd hopen (by rw [Bool.not_eq_true]; exact hnot)
      omega

/-- The channel of a connection is watched for nothing when it is removed, and from then on it stays
out of the poller. -/
def RemovedForGood (σ : System ι) : Prop :=
  (∀ label, σ.step label ≠ .error (.fault (.assertion .channelRemove))) ∧
    ∀ c state, .destroyed state ∈ σ.world.seen c → σ.world.alive c = true →
      (σ.world.conns c).channel.index = .kNew ∧
        (σ.world.pollers (σ.world.conns c).loop).channels (σ.world.conns c).channel.fd = none

/-- **A destroyed connection stays out of the poller** in every run in which `connectDestroyed` finds
no interest in writing where the connection is not connected, and what is queued behind it has nothing
to do with the channel. -/
theorem removed_for_good {baseLoop : ι} {ioLoops : List ι} {delay clock : Nat} {count : UInt64}
    {labels : List (Label ι)}
    (halong : Machine.Along System.step RemovesClean
      (System.start baseLoop ioLoops delay clock count) labels)
    (hrun : Machine.run System.step (System.start baseLoop ioLoops delay clock count) labels = .ok σ) :
    RemovedForGood σ := by
  have hstate : ∀ c, RemovalState c σ := fun c =>
    Machine.run_inv (I := RemovalState c)
      (fun σ label σ' hinv hclean hstep =>
        have hmove := step_move hstep
        { life := step_lifeInv hinv.life hstep
          registered := hmove.registered hinv.registered
          established := step_establishInv hinv.life hinv.registered hinv.established hstep
          routed := hmove.routed hinv.routed
          home := hmove.closesAtHome hinv.registered hinv.established hinv.routed hinv.home
          watch := step_watchInv hinv.life hinv.watch hstep
          down := step_downInv hinv.life hinv.down hstep
          alone := hmove.downsAlone hinv.established hinv.routed hinv.down hinv.alone
          removal := step_removalInv hinv hclean hstep })
      (start_removalState baseLoop ioLoops delay clock count) halong hrun
  refine ⟨fun label hfault => ?_, fun c state hmem halive => ?_⟩
  · rcases step_fault hfault rfl with ⟨-, -, -, -, -, -, -, -, -, hf⟩ | ⟨-, -, -, -, -, -, hf⟩ |
      ⟨-, -, -, -, -, hf⟩ | ⟨c, k, hperforms, -, hevents, -⟩ | ⟨-, -, -, -, -, hf⟩
    · cases hf
    · cases hf
    · cases hf
    · -- the removal is pending, so the channel is watched for nothing
      have hpending := pending_pos hperforms
      refine hevents ((hstate c).removal.none ?_)
      omega
    · cases hf
  · refine (hstate c).removal.out (List.countP_pos_iff.mpr ⟨.destroyed state, ?_, rfl⟩) halive
    exact List.mem_filter.mpr ⟨hmem, rfl⟩

end

theorem removed_for_good_hangup :
    ∃ σ, Machine.run System.step (System.start (0 : Fin 1) [] 0 0 0) hangupRun = .ok σ ∧
      .destroyed .kDisconnected ∈ σ.world.seen 0 ∧ RemovedForGood σ := by
  obtain ⟨σ, hrun, hseen⟩ := eq_ok_of_toOption (b := true)
    (f := fun σ : System (Fin 1) => decide (.destroyed .kDisconnected ∈ σ.world.seen 0))
    (x := Machine.run System.step (System.start 0 [] 0 0 0) hangupRun) (by decide +kernel)
  exact ⟨σ, hrun, of_decide_eq_true hseen,
    removed_for_good (Machine.along_of_check (by decide +kernel)) hrun⟩

/-- The connection callback calls `forceClose()` and queues a function, which comes behind the
`forceCloseInLoop` and calls `forceClose()` again. -/
def forceCloseLaterRun : List (Label (Fin 1)) :=
  acceptRun ++ [Label.call 0 (.forceClose 0)] ++ Label.runs 0 3 ++
    [Label.call 0 (.queueInLoop 0)] ++ Label.runs 0 1 ++ [Label.ret 0] ++ Label.runs 0 1 ++
    [Label.next 0, .next 0, .next 0] ++ Label.runs 0 6 ++ [Label.next 0, .call 0 (.forceClose 0)] ++
    Label.runs 0 4 ++ [Label.ret 0, .next 0, .next 0] ++ [Label.poll 0 [.wakeup], .next 0] ++
    Label.runs 0 1 ++ [Label.next 0, .next 0, .next 0] ++ Label.runs 0 2 ++ [Label.next 0] ++
    Label.runs 0 2

/-- The second `forceCloseInLoop` comes behind `connectDestroyed`, and `handleClose` puts the channel
back into the poller. -/
theorem forceCloseLater_registers_again :
    ¬ ∀ (labels : List (Label (Fin 1))) (σ : System (Fin 1)),
      Machine.run System.step (System.start 0 [] 0 0 0) labels = .ok σ → RemovedForGood σ := by
  intro h
  obtain ⟨σ, hrun, hagain⟩ := eq_ok_of_toOption (b := true)
    (f := fun σ : System (Fin 1) => decide (.destroyed .kDisconnecting ∈ σ.world.seen 0 ∧
      σ.world.alive 0 = true ∧ (σ.world.conns 0).channel.index = .kAdded))
    (x := Machine.run System.step (System.start 0 [] 0 0 0) forceCloseLaterRun) (by decide +kernel)
  obtain ⟨hdestroyed, halive, hadded⟩ := of_decide_eq_true hagain
  have hout := ((h forceCloseLaterRun σ hrun).2 0 _ hdestroyed halive).1
  rw [hadded] at hout
  cases hout

end VServer

import VServer.Net.Lifecycle

/-!
# What the pollers watch

`epoll_ctl` fails on an `ADD` of a descriptor that is there and on a `MOD` or `DEL` of one that is
not, and nobody looks at its result. It never does fail: the index of a channel tells whether its
descriptor is in the interest list, and the list has the events of the channel (`Watches`). No two
living connections have one descriptor, so what is done to one of them leaves the entries of the
others alone (`Registered`), and what `epoll_wait` reports is about a living connection of the loop
(`Registered.reports`).
-/

namespace VServer

open Epoll

/-! ## One channel -/

namespace Poller

variable {κ : Type} [DecidableEq κ] {owner : κ} {p p' : Poller κ} {ch ch' : Channel}

/-- The interest list has the channel exactly when its index says so, and with its events. -/
def Watches (p : Poller κ) (owner : κ) (ch : Channel) : Prop :=
  p.epoll ch.fd = if ch.index = .kAdded then some (owner, ch.events) else none

theorem updateChannel_watches {events : BitVec 32} (hwatches : p.Watches owner ch)
    (h : p.updateChannel owner { ch with events := events } = .ok (p', ch')) : p'.Watches owner ch' := by
  unfold Watches at *
  cases updateChannel_cases h with
  | new index =>
    dsimp only at index
    rw [index] at hwatches
    have hnone : p.epoll ch.fd = none := hwatches
    simp [update, hnone]
  | again index found =>
    dsimp only at index
    rw [index] at hwatches
    have hnone : p.epoll ch.fd = none := hwatches
    simp [update, hnone]
  | delete index found isNoneEvent =>
    dsimp only at index
    rw [if_pos index] at hwatches
    simp [update, hwatches]
  | modify index found isNoneEvent =>
    dsimp only at index
    rw [if_pos index] at hwatches
    simp [update, hwatches, index]

omit [DecidableEq κ] in
theorem removeChannel_watches (hwatches : p.Watches owner ch)
    (h : p.removeChannel owner ch = .ok (p', ch')) : p'.Watches owner ch' := by
  unfold Watches at *
  cases removeChannel_cases h with
  | delete index =>
    rw [if_pos index] at hwatches
    simp [update, hwatches]
  | forget index =>
    rw [index] at hwatches
    exact hwatches

theorem updateChannel_index {events : BitVec 32} (hevents : events ≠ Channel.kNoneEvent)
    (h : p.updateChannel owner { ch with events := events } = .ok (p', ch')) :
    ch'.index = .kAdded := by
  cases updateChannel_cases h with
  | new index => rfl
  | again index found => rfl
  | delete index found isNoneEvent => exact absurd (of_decide_eq_true isNoneEvent) hevents
  | modify index found isNoneEvent => exact index

end Poller

/-! ## One connection -/

variable {ι : Type}

/-- What a task does to the channel of its connection and the poller of its loop. -/
inductive ChannelStep (c : Nat) (l l' : Link ι) : Prop
  | same (poller : l'.poller = l.poller) (channel : l'.conn.channel = l.conn.channel)
  | updated (events : BitVec 32)
    (result : l.poller.updateChannel c { l.conn.channel with events := events } =
      .ok (l'.poller, l'.conn.channel))
  | removed (none : l.conn.channel.events = Channel.kNoneEvent)
    (result : l.poller.removeChannel c l.conn.channel = .ok (l'.poller, l'.conn.channel))

theorem TcpConnection.WriteInterest.channelStep {c : Nat} {l l' : Link ι}
    (h : TcpConnection.WriteInterest c l.poller l.conn.channel l'.poller l'.conn.channel) :
    ChannelStep c l l' := by
  generalize hp : l'.poller = p at h
  generalize hch : l'.conn.channel = ch at h
  cases h with
  | same => exact .same hp hch
  | enabled off result =>
    rw [← hp, ← hch] at result
    exact .updated _ result
  | disabled on result =>
    rw [← hp, ← hch] at result
    exact .updated _ result

variable [DecidableEq ι] {who : ι} {k : Kernel} {base : ι} {c : Nat} {l l' : Link ι} {t : ConnTask ι}
  {events : List (ConnEvent ι)} {new : List (Task ι)}

theorem ConnStep.channelStep (h : ConnStep who k base c l t l' events new) : ChannelStep c l l' := by
  cases h with
  | handleWrite loop result =>
    obtain ⟨out, wrote, shut, hinterest, -⟩ := TcpConnection.handleWrite_spec result
    exact hinterest.channelStep
  | sendInLoop loop result =>
    obtain ⟨out, wrote, hinterest, -⟩ := TcpConnection.sendInLoop_spec result
    exact hinterest.channelStep
  | handleClose loop isOpen result => exact .updated _ result
  | connectEstablished loop connecting result => exact .updated _ result
  | notifyDown result => exact .updated _ result
  | channelRemove result =>
    obtain ⟨hnone, hremove⟩ := remove_eq_ok result
    exact .removed hnone hremove
  | _ => exact .same rfl rfl

omit [DecidableEq ι] in
theorem ChannelStep.watches (h : ChannelStep c l l') (hwatches : l.poller.Watches c l.conn.channel) :
    l'.poller.Watches c l'.conn.channel := by
  cases h with
  | same poller channel => rwa [poller, channel]
  | updated events result => exact Poller.updateChannel_watches hwatches result
  | removed none result => exact Poller.removeChannel_watches hwatches result

/-! ## All connections -/

/-- The interest lists of all loops. -/
structure Registered (σ : System ι) : Prop where
  born : ∀ c, σ.world.alive c = true → c < σ.world.server.connId
  distinct : ∀ c c', σ.world.alive c = true → σ.world.alive c' = true →
    (σ.world.conns c).channel.fd = (σ.world.conns c').channel.fd → c = c'
  watches : ∀ c, σ.world.alive c = true →
    (σ.world.pollers (σ.world.conns c).loop).Watches c (σ.world.conns c).channel
  /-- No entry outlives its connection. -/
  owned : ∀ i fd, (σ.world.pollers i).epoll fd ≠ none →
    ∃ c, σ.world.alive c = true ∧ (σ.world.conns c).loop = i ∧ (σ.world.conns c).channel.fd = fd

section

variable {σ σ' : System ι} {label : Label ι}

omit [DecidableEq ι] in
theorem Registered.of_same (h : Registered σ) (hsame : σ.world.SameConns σ'.world) : Registered σ' := by
  obtain ⟨hborn, hdistinct, hwatches, howned⟩ := h
  rw [← hsame.alive, ← hsame.server] at hborn
  rw [← hsame.alive, ← hsame.conns] at hdistinct howned
  rw [← hsame.alive, ← hsame.conns, ← hsame.pollers] at hwatches
  rw [← hsame.pollers] at howned
  exact ⟨hborn, hdistinct, hwatches, howned⟩

omit [DecidableEq ι] in
theorem Registered.of_isFree (h : Registered σ) {fd : Nat} (hfree : σ.world.isFree fd = true) {c : Nat}
    (halive : σ.world.alive c = true) : (σ.world.conns c).channel.fd ≠ fd := by
  have hmem : c ∈ List.range σ.world.server.connId := List.mem_range.mpr (h.born c halive)
  have hnot := List.all_eq_true.mp hfree c hmem
  simpa [halive] using hnot

theorem Move.registered (h : Move label σ σ') (hinv : Registered σ) : Registered σ' := by
  have hsame : ∀ {w : World ι}, σ'.world = w → w.SameConns σ'.world := by
    intro w hw
    rw [hw]
    exact .refl w
  cases h with
  | other todo about hnew world phase pendingFuncs todo' => exact hinv.of_same world
  | queue todo hnew world loops todo' => exact hinv.of_same (hsame world)
  | call inUserCode knows world loops todo' => exact hinv.of_same (hsame world)
  | next todo hnext world loops todo' => exact hinv.of_same (hsame world)
  | poll todo phase reports world loops todo' => exact hinv.of_same (hsame world)
  | time world loops todo' => exact hinv.of_same world
  | @conn who k c t rest new events run todo alive step framed loops todo' =>
    -- descriptors and loops stay, and only the entry of `c` may change
    have hfd : ∀ c', (σ'.world.conns c').channel.fd = (σ.world.conns c').channel.fd := by
      intro c'
      by_cases hc : c' = c
      · rw [hc, framed.fd]
      · rw [framed.conns c' hc]
    have hloop : ∀ c', (σ'.world.conns c').loop = (σ.world.conns c').loop := by
      intro c'
      by_cases hc : c' = c
      · rw [hc, framed.loop]
      · rw [framed.conns c' hc]
    have hepoll : ∀ i fd, (i = (σ.world.conns c).loop → fd ≠ (σ.world.conns c).channel.fd) →
        (σ'.world.pollers i).epoll fd = (σ.world.pollers i).epoll fd := by
      intro i fd hne
      by_cases hi : i = (σ.world.conns c).loop
      · rw [hi]
        exact framed.sameBut.epoll fd (hne hi)
      · rw [framed.pollers i hi]
    refine ⟨fun c' => ?_, fun c' c'' => ?_, fun c' halive => ?_, fun i fd hentry => ?_⟩
    · rw [framed.alive, framed.connId]
      exact hinv.born c'
    · rw [framed.alive, hfd, hfd]
      exact hinv.distinct c' c''
    · rw [framed.alive] at halive
      by_cases hc : c' = c
      · subst hc
        exact step.channelStep.watches (hinv.watches c' alive)
      · have hother := hinv.watches c' halive
        unfold Poller.Watches at hother ⊢
        rw [framed.conns c' hc, hepoll, hother]
        exact fun _ hsame => hc (hinv.distinct c' c halive alive hsame)
    · by_cases hown : i = (σ.world.conns c).loop ∧ fd = (σ.world.conns c).channel.fd
      · refine ⟨c, ?_, ?_, ?_⟩
        · rw [framed.alive, alive]
        · rw [hloop, hown.1]
        · rw [hfd, hown.2]
      · rw [hepoll i fd fun hi hsame => hown ⟨hi, hsame⟩] at hentry
        obtain ⟨c', halive, hl, hf⟩ := hinv.owned i fd hentry
        exact ⟨c', by rw [framed.alive, halive], by rw [hloop, hl], by rw [hfd, hf]⟩
  | @born who loop c rest todo born loops todo' =>
    obtain ⟨sockfd, hfree, hconn⟩ := born.conn
    have hfresh := born.fresh
    have hne : ∀ c', σ.world.alive c' = true → c' ≠ c := by
      intro c' halive
      have := hinv.born c' halive
      omega
    have halive' : ∀ c', σ'.world.alive c' = true → c' = c ∨ c' ≠ c ∧ σ.world.alive c' = true := by
      intro c' halive
      rw [born.alive] at halive
      by_cases hc : c' = c
      · exact .inl hc
      · rw [Function.update_of_ne hc] at halive
        exact .inr ⟨hc, halive⟩
    have hfd : (σ'.world.conns c).channel.fd = sockfd := by
      rw [hconn]
      rfl
    have hnew : ∀ c', c' ≠ c → σ.world.alive c' = true → (σ'.world.conns c').channel.fd ≠ sockfd := by
      intro c' hc halive
      rw [born.conns c' hc]
      exact hinv.of_isFree hfree halive
    refine ⟨fun c' halive => ?_, fun c' c'' h' h'' hsame => ?_, fun c' halive => ?_, fun i fd hentry => ?_⟩
    · rw [born.connId]
      rcases halive' c' halive with rfl | ⟨-, halive⟩
      · omega
      · have := hinv.born c' halive
        omega
    · rcases halive' c' h' with rfl | ⟨hc, h'⟩
      · rcases halive' c'' h'' with rfl | ⟨hc, h''⟩
        · rfl
        · exact absurd (hfd ▸ hsame.symm) (hnew c'' hc h'')
      · rcases halive' c'' h'' with rfl | ⟨hc', h''⟩
        · exact absurd (hfd ▸ hsame) (hnew c' hc h')
        · rw [born.conns c' hc, born.conns c'' hc'] at hsame
          exact hinv.distinct c' c'' h' h'' hsame
    · rw [born.pollers]
      rcases halive' c' halive with rfl | ⟨hc, halive⟩
      · -- an entry of the descriptor would be owned by a living connection
        unfold Poller.Watches
        rw [hconn]
        show (σ.world.pollers loop).epoll sockfd = none
        by_contra hentry
        obtain ⟨c'', halive, -, hsame⟩ := hinv.owned loop sockfd hentry
        exact hinv.of_isFree hfree halive hsame
      · rw [born.conns c' hc]
        exact hinv.watches c' halive
    · rw [born.pollers] at hentry
      obtain ⟨c', halive, hl, hf⟩ := hinv.owned i fd hentry
      refine ⟨c', ?_, ?_, ?_⟩
      · rw [born.alive, Function.update_of_ne (hne c' halive), halive]
      · rw [born.conns c' (hne c' halive), hl]
      · rw [born.conns c' (hne c' halive), hf]
  | @destroy c alive refers conns alive' pollers channels epoll server log loops todo' =>
    have halive : ∀ c', σ'.world.alive c' = true → c' ≠ c ∧ σ.world.alive c' = true := by
      intro c' h
      rw [alive'] at h
      by_cases hc : c' = c
      · rw [hc, Function.update_self] at h
        cases h
      · rw [Function.update_of_ne hc] at h
        exact ⟨hc, h⟩
    have hepoll : ∀ i fd, (i = (σ.world.conns c).loop → fd ≠ (σ.world.conns c).channel.fd) →
        (σ'.world.pollers i).epoll fd = (σ.world.pollers i).epoll fd := by
      intro i fd hne
      by_cases hi : i = (σ.world.conns c).loop
      · rw [hi, epoll, Function.update_of_ne (hne hi)]
      · rw [pollers i hi]
    refine ⟨fun c' h => ?_, fun c' c'' h' h'' => ?_, fun c' h => ?_, fun i fd hentry => ?_⟩
    · rw [server]
      exact hinv.born c' (halive c' h).2
    · rw [conns]
      exact hinv.distinct c' c'' (halive c' h').2 (halive c'' h'').2
    · obtain ⟨hc, h⟩ := halive c' h
      have hother := hinv.watches c' h
      unfold Poller.Watches at hother ⊢
      rw [conns, hepoll, hother]
      exact fun _ hsame => hc (hinv.distinct c' c h alive hsame)
    · have hne : i = (σ.world.conns c).loop → fd ≠ (σ.world.conns c).channel.fd := by
        rintro rfl rfl
        rw [epoll, Function.update_self] at hentry
        exact hentry rfl
      rw [hepoll i fd hne] at hentry
      obtain ⟨c', h, hl, hf⟩ := hinv.owned i fd hentry
      have hc : c' ≠ c := by
        rintro rfl
        exact hne hl.symm hf.symm
      exact ⟨c', by rw [alive', Function.update_of_ne hc, h], by rw [conns, hl], by rw [conns, hf]⟩

omit [DecidableEq ι] in
theorem start_registered [DecidableEq ι] (baseLoop : ι) (ioLoops : List ι) (delay clock : Nat)
    (count : UInt64) : Registered (System.start baseLoop ioLoops delay clock count) where
  born _ h := by cases h
  distinct _ _ h := by cases h
  watches _ h := by cases h
  owned _ _ h := absurd rfl h

/-- What may be reported of a connection: it lives, it is on this loop, and its channel has been added
and is watched for what is reported. -/
theorem Registered.reports_iff (h : Registered σ) {i : ι} {c : Nat} {revents : BitVec 32} :
    σ.reports i (.conn c revents) = true ↔
      σ.world.alive c = true ∧ (σ.world.conns c).loop = i ∧
        (σ.world.conns c).channel.index = .kAdded ∧ revents ≠ 0 ∧
        revents &&& ~~~((σ.world.conns c).channel.events ||| epollErr ||| epollHup) = 0 := by
  unfold System.reports
  dsimp only
  constructor
  · intro hreports
    cases hentry : (σ.world.pollers i).epoll (σ.world.conns c).channel.fd with
    | none =>
      rw [hentry] at hreports
      cases hreports
    | some entry =>
      obtain ⟨owner, events⟩ := entry
      rw [hentry] at hreports
      obtain ⟨rfl, hne, hbits⟩ := of_decide_eq_true hreports
      -- the owner of the entry is the connection it names
      obtain ⟨c', halive, hloop, hfd⟩ := h.owned i _ (by rw [hentry]; exact Option.some_ne_none _)
      have hwatches := h.watches c' halive
      unfold Poller.Watches at hwatches
      rw [hloop, hfd, hentry] at hwatches
      split_ifs at hwatches with hindex
      cases hwatches
      exact ⟨halive, hloop, hindex, hne, hbits⟩
  · rintro ⟨halive, rfl, hindex, hne, hbits⟩
    have hwatches := h.watches c halive
    unfold Poller.Watches at hwatches
    rw [hwatches, if_pos hindex]
    exact decide_eq_true ⟨rfl, hne, hbits⟩

end

end VServer

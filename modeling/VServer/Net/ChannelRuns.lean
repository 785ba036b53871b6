import VServer.Lib.Machine
import VServer.Net.Registration

/-!
# The channels of one poller

Any number of channels that share a poller, with their operations in any order. A channel is known to
the poller from its first update to its removal; two channels that are known have two descriptors, and
only a known channel that is watched for nothing is removed (`Permitted`). Then the index of every
channel tells where it is (`Bookkept`, `index_mirrors_poller`), so `epoll_ctl`, whose result nobody
looks at, never fails.

The index does not tell what the channel is watched for. `updateChannel` looks at the events only of a
channel that is `kAdded`, and adds any other one, also when there is nothing to watch it for: the
second of two `disableAll`s puts the descriptor back (`idle_unwatched_iff`).
-/

namespace VServer

open Epoll

inductive ChannelOp where
  | enableReading | disableReading | enableWriting | disableWriting | disableAll | remove
  deriving DecidableEq, Repr

namespace ChannelOp

variable {κ : Type} [DecidableEq κ]

def events (ch : Channel) : ChannelOp → BitVec 32
  | .enableReading => ch.events ||| Channel.kReadEvent
  | .disableReading => ch.events &&& ~~~Channel.kReadEvent
  | .enableWriting => ch.events ||| Channel.kWriteEvent
  | .disableWriting => ch.events &&& ~~~Channel.kWriteEvent
  | .disableAll => Channel.kNoneEvent
  | .remove => ch.events

def run (op : ChannelOp) (owner : κ) (p : Poller κ) (ch : Channel) : Except Fault (Poller κ × Channel) :=
  match op with
  | .enableReading => ch.enableReading owner p
  | .disableReading => ch.disableReading owner p
  | .enableWriting => ch.enableWriting owner p
  | .disableWriting => ch.disableWriting owner p
  | .disableAll => ch.disableAll owner p
  | .remove => ch.remove owner p

/-- The `epoll_ctl` the operation issues. -/
def issued (op : ChannelOp) (ch : Channel) : Option EpollOp :=
  match op, ch.index with
  | .remove, .kAdded => some .del
  | .remove, _ => none
  | op, .kAdded => if op.events ch = Channel.kNoneEvent then some .del else some .mod
  | _, _ => some .add

end ChannelOp

/-- `epoll_ctl` does not fail. -/
def Poller.Legal {κ : Type} (p : Poller κ) (fd : Nat) : EpollOp → Prop
  | .add => p.epoll fd = none
  | .mod | .del => p.epoll fd ≠ none

/-- A poller and its channels; `known` are the channels that have been updated, and not removed since. -/
structure Channels (κ : Type) where
  poller : Poller κ
  channel : κ → Channel
  known : κ → Bool

namespace Channels

variable {κ : Type} [DecidableEq κ]

def init (fds : κ → Nat) : Channels κ := ⟨.init, fun k => .init (fds k), fun _ => false⟩

variable (s : Channels κ)

/-- What is promised by whoever calls the operation of channel `k`. -/
def Permitted (k : κ) : ChannelOp → Prop
  | .remove => s.known k = true ∧ (s.channel k).isNoneEvent = true
  | _ => ∀ k', k' ≠ k → s.known k' = true → (s.channel k').fd ≠ (s.channel k).fd

/-- Channel `k` calls the poller. -/
def step (a : κ × ChannelOp) : Except Fault (Channels κ) := do
  let (poller, channel) ← a.2.run a.1 s.poller (s.channel a.1)
  return {
    poller := poller
    channel := Function.update s.channel a.1 channel
    known := Function.update s.known a.1 (a.2 ≠ .remove) }

end Channels

/-! ## One operation -/

namespace Poller

variable {κ : Type} [DecidableEq κ] {owner : κ} {p p' : Poller κ} {ch ch' : Channel}

theorem updateChannel_ok (hnew : ch.index = .kNew → p.channels ch.fd = none)
    (hold : ch.index ≠ .kNew → p.channels ch.fd = some owner) :
    ∃ r, p.updateChannel owner ch = .ok r := by
  unfold updateChannel
  cases hindex : ch.index with
  | kNew =>
    dsimp only
    rw [if_pos (hnew hindex)]
    exact ⟨_, rfl⟩
  | kDeleted =>
    dsimp only
    rw [if_pos (hold (by simp [hindex]))]
    exact ⟨_, rfl⟩
  | kAdded =>
    dsimp only
    rw [if_pos (hold (by simp [hindex]))]
    split_ifs
    all_goals exact ⟨_, rfl⟩

theorem updateChannel_index_idle
    (h : p.updateChannel owner { ch with events := Channel.kNoneEvent } = .ok (p', ch')) :
    ch'.index = .kAdded ↔ ch.index ≠ .kAdded := by
  cases updateChannel_cases h with
  | new index =>
    dsimp only at index
    simp [index]
  | again index found =>
    dsimp only at index
    simp [index]
  | delete index found isNoneEvent =>
    dsimp only at index
    simp [index]
  | modify index found isNoneEvent => exact absurd (decide_eq_true rfl) isNoneEvent

omit [DecidableEq κ] in
theorem removeChannel_ok (hindex : ch.index ≠ .kNew) (hfound : p.channels ch.fd ≠ none) :
    ∃ r, p.removeChannel owner ch = .ok r := by
  unfold removeChannel
  rw [if_neg hfound]
  cases hch : ch.index with
  | kNew => exact absurd hch hindex
  | kAdded => exact ⟨_, rfl⟩
  | kDeleted => exact ⟨_, rfl⟩

end Poller

namespace ChannelOp

variable {κ : Type} [DecidableEq κ] {op : ChannelOp} {owner : κ} {p p' : Poller κ} {ch ch' : Channel}

theorem run_update (hop : op ≠ .remove) (owner : κ) (p : Poller κ) (ch : Channel) :
    op.run owner p ch = p.updateChannel owner { ch with events := op.events ch } := by
  cases op with
  | remove => exact absurd rfl hop
  | _ => rfl

theorem run_remove (hnone : ch.isNoneEvent = true) (owner : κ) (p : Poller κ) :
    ChannelOp.remove.run owner p ch = p.removeChannel owner ch := if_pos hnone

omit [DecidableEq κ] in
theorem issued_added (hindex : ch.index = .kAdded) : ∀ ctl ∈ op.issued ch, ctl ≠ .add := by
  rintro ctl hctl rfl
  unfold issued at hctl
  rw [hindex, Option.mem_def] at hctl
  cases op with
  | remove => cases hctl
  | _ =>
    dsimp only at hctl
    split_ifs at hctl
    all_goals cases hctl

omit [DecidableEq κ] in
theorem issued_absent (hindex : ch.index ≠ .kAdded) : ∀ ctl ∈ op.issued ch, ctl = .add := by
  intro ctl hctl
  unfold issued at hctl
  rw [Option.mem_def] at hctl
  cases hch : ch.index with
  | kAdded => exact absurd hch hindex
  | _ =>
    rw [hch] at hctl
    cases op with
    | remove => cases hctl
    | _ => exact (Option.some.inj hctl).symm

end ChannelOp

/-! ## The invariant -/

namespace Channels

variable {κ : Type} [DecidableEq κ] {s s' : Channels κ} {k : κ} {op : ChannelOp} {fds : κ → Nat}
  {labels : List (κ × ChannelOp)}

/-- What the poller knows is what its channels think it knows. -/
structure Bookkept (s : Channels κ) : Prop where
  unknown : ∀ k, s.known k = false → (s.channel k).index = .kNew
  index : ∀ k, s.known k = true → (s.channel k).index ≠ .kNew
  channels : ∀ k, s.known k = true → s.poller.channels (s.channel k).fd = some k
  watches : ∀ k, s.known k = true → s.poller.Watches k (s.channel k)
  owned : ∀ fd k, s.poller.channels fd = some k → s.known k = true ∧ (s.channel k).fd = fd
  /-- A descriptor in the interest list is in `m_channels`. -/
  entered : ∀ fd, s.poller.epoll fd ≠ none → s.poller.channels fd ≠ none

omit [DecidableEq κ] in
theorem init_bookkept (fds : κ → Nat) : (init fds).Bookkept where
  unknown _ _ := rfl
  index _ h := by cases h
  channels _ h := by cases h
  watches _ h := by cases h
  owned _ _ h := by cases h
  entered _ h := absurd rfl h

omit [DecidableEq κ] in
theorem Bookkept.free (h : s.Bookkept) (hunknown : s.known k = false)
    (hfds : ∀ k', k' ≠ k → s.known k' = true → (s.channel k').fd ≠ (s.channel k).fd) :
    s.poller.channels (s.channel k).fd = none := by
  by_contra hfound
  obtain ⟨k', hk'⟩ := Option.ne_none_iff_exists'.mp hfound
  obtain ⟨hknown, hfd⟩ := h.owned _ k' hk'
  have hne : k' ≠ k := by
    rintro rfl
    rw [hknown] at hunknown
    cases hunknown
  exact hfds k' hne hknown hfd

theorem Bookkept.watches_of_permitted (h : s.Bookkept)
    (hfds : ∀ k', k' ≠ k → s.known k' = true → (s.channel k').fd ≠ (s.channel k).fd) :
    s.poller.Watches k (s.channel k) := by
  cases hknown : s.known k with
  | true => exact h.watches k hknown
  | false =>
    unfold Poller.Watches
    rw [h.unknown k hknown]
    by_contra hentry
    exact h.entered _ hentry (h.free hknown hfds)

omit [DecidableEq κ] in
theorem Permitted.update (h : s.Permitted k op) (hop : op ≠ .remove) :
    ∀ k', k' ≠ k → s.known k' = true → (s.channel k').fd ≠ (s.channel k).fd := by
  cases op with
  | remove => exact absurd rfl hop
  | _ => exact h

theorem Bookkept.run_ok (h : s.Bookkept) (hpermitted : s.Permitted k op) :
    ∃ r, op.run k s.poller (s.channel k) = .ok r := by
  by_cases hop : op = .remove
  · subst hop
    obtain ⟨hknown, hnone⟩ := hpermitted
    rw [ChannelOp.run_remove hnone]
    refine Poller.removeChannel_ok (h.index k hknown) ?_
    rw [h.channels k hknown]
    exact Option.some_ne_none k
  · rw [ChannelOp.run_update hop]
    have hfds := hpermitted.update hop
    cases hknown : s.known k with
    | true =>
      apply Poller.updateChannel_ok
      · exact fun hnew => absurd hnew (h.index k hknown)
      · exact fun _ => h.channels k hknown
    | false =>
      apply Poller.updateChannel_ok
      · exact fun _ => h.free hknown hfds
      · exact fun hold => absurd (h.unknown k hknown) hold

/-- What one operation does to the bookkeeping. -/
structure Stepped (s s' : Channels κ) (k : κ) (op : ChannelOp) : Prop where
  fd : (s'.channel k).fd = (s.channel k).fd
  events : (s'.channel k).events = op.events (s.channel k)
  index : (s'.channel k).index = .kNew ↔ op = .remove
  channels : s'.poller.channels (s.channel k).fd = if op = .remove then none else some k
  watches : s'.poller.Watches k (s'.channel k)
  sameBut : s.poller.SameBut (s.channel k).fd s'.poller
  known : s'.known = Function.update s.known k (op ≠ .remove)
  other : ∀ k', k' ≠ k → s'.channel k' = s.channel k'

theorem Bookkept.stepped (h : s.Bookkept) (hpermitted : s.Permitted k op)
    (hstep : s.step (k, op) = .ok s') : Stepped s s' k op := by
  obtain ⟨⟨p', ch'⟩, hrun, hreturn⟩ := bind_eq_ok hstep
  cases hreturn
  have hself : Function.update s.channel k ch' k = ch' := Function.update_self k ch' s.channel
  have hother : ∀ k', k' ≠ k → Function.update s.channel k ch' k' = s.channel k' := fun k' hk =>
    Function.update_of_ne hk _ _
  dsimp only at hrun
  by_cases hop : op = .remove
  · subst hop
    obtain ⟨hknown, hnone⟩ := hpermitted
    rw [ChannelOp.run_remove hnone] at hrun
    obtain ⟨hfd, hevents, hindex, hsame, hchannels⟩ := Poller.removeChannel_spec hrun
    have hwatches := Poller.removeChannel_watches (h.watches k hknown) hrun
    rw [← hself] at hfd hevents hwatches
    refine ⟨hfd, hevents, ?_, hchannels, hwatches, hsame, rfl, hother⟩
    dsimp only
    rw [hself, hindex]
    exact ⟨fun _ => rfl, fun _ => rfl⟩
  · rw [ChannelOp.run_update hop] at hrun
    obtain ⟨hfd, hevents, hindex, hsame, hchannels⟩ := Poller.updateChannel_spec hrun
    have hwatches :=
      Poller.updateChannel_watches (h.watches_of_permitted (hpermitted.update hop)) hrun
    rw [← hself] at hfd hevents hwatches
    refine ⟨hfd, hevents, ?_, ?_, hwatches, hsame, rfl, hother⟩
    · dsimp only
      rw [hself]
      exact ⟨fun hnew => absurd hnew hindex, fun hremove => absurd hremove hop⟩
    · rw [if_neg hop]
      exact hchannels

theorem step_bookkept (h : s.Bookkept) (hpermitted : s.Permitted k op)
    (hstep : s.step (k, op) = .ok s') : s'.Bookkept := by
  have hstepped := h.stepped hpermitted hstep
  have hfd : ∀ k', (s'.channel k').fd = (s.channel k').fd := by
    intro k'
    by_cases hk : k' = k
    · rw [hk, hstepped.fd]
    · rw [hstepped.other k' hk]
  have hself : s'.known k = decide (op ≠ .remove) := by
    rw [hstepped.known, Function.update_self]
  have hknown : ∀ k', k' ≠ k → s'.known k' = s.known k' := by
    intro k' hk
    rw [hstepped.known, Function.update_of_ne hk]
  -- the other channels that are known have other descriptors
  have hapart : ∀ k', k' ≠ k → s.known k' = true → (s.channel k').fd ≠ (s.channel k).fd := by
    by_cases hop : op = .remove
    · subst hop
      intro k' hk hk' hsame
      have hfound := h.channels k' hk'
      rw [hsame, h.channels k hpermitted.1] at hfound
      exact hk (Option.some.inj hfound).symm
    · exact hpermitted.update hop
  refine ⟨fun k' hk' => ?_, fun k' hk' => ?_, fun k' hk' => ?_, fun k' hk' => ?_, fun fd k' hk' => ?_,
    fun fd hentry => ?_⟩
  · by_cases hk : k' = k
    · subst hk
      rw [hself] at hk'
      exact hstepped.index.mpr (by simpa using hk')
    · rw [hstepped.other k' hk]
      exact h.unknown k' (by rwa [← hknown k' hk])
  · by_cases hk : k' = k
    · subst hk
      rw [hself] at hk'
      exact fun hnew => of_decide_eq_true hk' (hstepped.index.mp hnew)
    · rw [hstepped.other k' hk]
      exact h.index k' (by rwa [← hknown k' hk])
  · by_cases hk : k' = k
    · subst hk
      rw [hself] at hk'
      rw [hfd, hstepped.channels, if_neg (of_decide_eq_true hk')]
    · rw [hknown k' hk] at hk'
      rw [hfd, hstepped.sameBut.channels _ (hapart k' hk hk')]
      exact h.channels k' hk'
  · by_cases hk : k' = k
    · rw [hk]
      exact hstepped.watches
    · rw [hknown k' hk] at hk'
      have hwatches := h.watches k' hk'
      unfold Poller.Watches at hwatches ⊢
      rw [hstepped.other k' hk, hstepped.sameBut.epoll _ (hapart k' hk hk')]
      exact hwatches
  · rw [hfd]
    by_cases hown : fd = (s.channel k).fd
    · subst hown
      rw [hstepped.channels] at hk'
      split_ifs at hk' with hop
      cases hk'
      exact ⟨by rw [hself]; exact decide_eq_true hop, rfl⟩
    · rw [hstepped.sameBut.channels fd hown] at hk'
      obtain ⟨hk, rfl⟩ := h.owned fd k' hk'
      have hne : k' ≠ k := fun heq => hown (by rw [heq])
      exact ⟨by rw [hknown k' hne]; exact hk, rfl⟩
  · by_cases hown : fd = (s.channel k).fd
    · subst hown
      rw [hstepped.channels]
      split_ifs with hop
      · -- a removed channel is not in the interest list
        have hwatches := hstepped.watches
        unfold Poller.Watches at hwatches
        rw [hstepped.fd, hstepped.index.mpr hop] at hwatches
        exact absurd hwatches hentry
      · exact Option.some_ne_none k
    · rw [hstepped.sameBut.epoll fd hown] at hentry
      rw [hstepped.sameBut.channels fd hown]
      exact h.entered fd hentry

/-- Every step of the run is one that is permitted. -/
def AllPermitted (fds : κ → Nat) (labels : List (κ × ChannelOp)) : Prop :=
  Machine.Along step (fun s a => s.Permitted a.1 a.2) (init fds) labels

theorem run_bookkept (hpermitted : AllPermitted fds labels)
    (hrun : Machine.run step (init fds) labels = .ok s) : s.Bookkept := by
  refine Machine.run_inv ?_ (init_bookkept fds) hpermitted hrun
  rintro s ⟨k, op⟩ s' hinv ha hstep
  exact step_bookkept hinv ha hstep

theorem Bookkept.step_ok (h : s.Bookkept) (hpermitted : s.Permitted k op) :
    ∃ s', s.step (k, op) = .ok s' := by
  obtain ⟨r, hrun⟩ := h.run_ok hpermitted
  unfold step
  rw [hrun]
  exact ⟨_, rfl⟩

theorem run_ok (hpermitted : Machine.Along step (fun s a => s.Permitted a.1 a.2) s labels)
    (h : s.Bookkept) : ∃ s', Machine.run step s labels = .ok s' := by
  induction labels generalizing s with
  | nil => exact ⟨s, rfl⟩
  | cons a labels ih =>
    obtain ⟨k, op⟩ := a
    obtain ⟨hfirst, hrest⟩ := hpermitted
    obtain ⟨s₁, hstep⟩ := h.step_ok hfirst
    obtain ⟨s', hrun⟩ := ih (hrest s₁ hstep) (step_bookkept h hfirst hstep)
    exact ⟨s', by rw [Machine.run_cons_ok hstep, hrun]⟩

/-! ## Where the channels are -/

/-- The index of channel `k` says where it is. -/
structure Mirrored (s : Channels κ) (k : κ) : Prop where
  added : (s.channel k).index = .kAdded ↔ ∃ events, s.poller.epoll (s.channel k).fd = some (k, events)
  events : ∀ events, s.poller.epoll (s.channel k).fd = some (k, events) → events = (s.channel k).events
  deleted : (s.channel k).index = .kDeleted ↔
    s.poller.channels (s.channel k).fd = some k ∧ s.poller.epoll (s.channel k).fd = none
  new : (s.channel k).index = .kNew ↔ s.poller.channels (s.channel k).fd ≠ some k

omit [DecidableEq κ] in
theorem Bookkept.owner (h : s.Bookkept) {fd : Nat} {events : BitVec 32}
    (hentry : s.poller.epoll fd = some (k, events)) :
    s.known k = true ∧ (s.channel k).fd = fd ∧ (s.channel k).index = .kAdded ∧
      (s.channel k).events = events := by
  obtain ⟨k', hk'⟩ := Option.ne_none_iff_exists'.mp (h.entered fd (by rw [hentry]; exact Option.some_ne_none _))
  obtain ⟨hknown, rfl⟩ := h.owned fd k' hk'
  have hwatches := h.watches k' hknown
  unfold Poller.Watches at hwatches
  rw [hentry] at hwatches
  split_ifs at hwatches with hindex
  cases hwatches
  exact ⟨hknown, rfl, hindex, rfl⟩

omit [DecidableEq κ] in
theorem Bookkept.mirrored (h : s.Bookkept) (k : κ) : s.Mirrored k := by
  have hknown : s.poller.channels (s.channel k).fd = some k ↔ s.known k = true :=
    ⟨fun hfound => (h.owned _ k hfound).1, h.channels k⟩
  have hindex : s.known k = true ↔ (s.channel k).index ≠ .kNew := by
    refine ⟨h.index k, fun hnew => ?_⟩
    by_contra hunknown
    exact hnew (h.unknown k (by simpa using hunknown))
  refine ⟨⟨fun hadded => ?_, fun hentry => ?_⟩, fun events hentry => ?_, ⟨fun hdeleted => ?_, ?_⟩, ?_⟩
  · have hk : s.known k = true := hindex.mpr (by rw [hadded]; simp)
    have hwatches := h.watches k hk
    unfold Poller.Watches at hwatches
    rw [if_pos hadded] at hwatches
    exact ⟨_, hwatches⟩
  · obtain ⟨events, hentry⟩ := hentry
    exact (h.owner hentry).2.2.1
  · exact (h.owner hentry).2.2.2.symm
  · have hk : s.known k = true := hindex.mpr (by rw [hdeleted]; simp)
    have hwatches := h.watches k hk
    unfold Poller.Watches at hwatches
    rw [hdeleted] at hwatches
    exact ⟨h.channels k hk, hwatches⟩
  · rintro ⟨hfound, hnone⟩
    have hk := hknown.mp hfound
    have hwatches := h.watches k hk
    unfold Poller.Watches at hwatches
    rw [hnone] at hwatches
    cases hch : (s.channel k).index with
    | kNew => exact absurd hch (h.index k hk)
    | kAdded =>
      rw [hch] at hwatches
      cases hwatches
    | kDeleted => rfl
  · rw [Ne, hknown, hindex, not_not]

theorem Bookkept.legal (h : s.Bookkept) (hpermitted : s.Permitted k op) :
    ∀ ctl ∈ op.issued (s.channel k), s.poller.Legal (s.channel k).fd ctl := by
  have hwatches : s.poller.Watches k (s.channel k) := by
    by_cases hop : op = .remove
    · subst hop
      exact h.watches k hpermitted.1
    · exact h.watches_of_permitted (hpermitted.update hop)
  unfold Poller.Watches at hwatches
  intro ctl hctl
  by_cases hindex : (s.channel k).index = .kAdded
  · rw [if_pos hindex] at hwatches
    have hentry : s.poller.epoll (s.channel k).fd ≠ none := by
      rw [hwatches]
      exact Option.some_ne_none _
    cases ctl with
    | add => exact absurd rfl (ChannelOp.issued_added hindex _ hctl)
    | mod => exact hentry
    | del => exact hentry
  · rw [if_neg hindex] at hwatches
    rw [ChannelOp.issued_absent hindex ctl hctl]
    exact hwatches

/-- **The poller's bookkeeping mirrors the kernel**: whatever the channels of a poller do, no assertion
fails, every index tells where its channel is, and every `epoll_ctl` that comes next is legal. -/
theorem index_mirrors_poller (hpermitted : AllPermitted fds labels) :
    ∃ s, Machine.run step (init fds) labels = .ok s ∧ (∀ k, s.Mirrored k) ∧
      ∀ k op, s.Permitted k op → (∃ s', s.step (k, op) = .ok s') ∧
        ∀ ctl ∈ op.issued (s.channel k), s.poller.Legal (s.channel k).fd ctl := by
  obtain ⟨s, hrun⟩ := run_ok hpermitted (init_bookkept fds)
  have hbooks := run_bookkept hpermitted hrun
  exact ⟨s, hrun, hbooks.mirrored, fun k op hop => ⟨hbooks.step_ok hop, hbooks.legal hop⟩⟩

instance [Fintype κ] (s : Channels κ) (a : κ × ChannelOp) : Decidable (s.Permitted a.1 a.2) := by
  unfold Permitted
  split
  all_goals infer_instance

/-- One channel comes and goes, and another one gets its descriptor. -/
def reuseRun : List (Fin 2 × ChannelOp) :=
  [(0, .enableReading), (0, .disableAll), (0, .disableAll), (0, .enableWriting), (0, .disableWriting),
    (0, .remove), (1, .enableReading)]

theorem index_mirrors_poller_reuse :
    ∃ s : Channels (Fin 2), Machine.run step (init fun _ => 5) reuseRun = .ok s ∧ (∀ k, s.Mirrored k) ∧
      ∀ k op, s.Permitted k op → (∃ s', s.step (k, op) = .ok s') ∧
        ∀ ctl ∈ op.issued (s.channel k), s.poller.Legal (s.channel k).fd ctl :=
  index_mirrors_poller (Machine.along_of_check (by decide +kernel))

/-! ## Channels that are watched for nothing -/

/-- An update leaves the channel out of the interest list exactly when the channel was `kAdded` and is
to be watched for nothing. -/
theorem Bookkept.unwatched_iff (h : s.Bookkept) (hop : op ≠ .remove) (hpermitted : s.Permitted k op)
    (hstep : s.step (k, op) = .ok s') (hidle : (s'.channel k).isNoneEvent = true) :
    s'.poller.epoll (s'.channel k).fd = none ↔ (s.channel k).index = .kAdded := by
  have hstepped := h.stepped hpermitted hstep
  have hnone : op.events (s.channel k) = Channel.kNoneEvent := by
    rw [← hstepped.events]
    exact of_decide_eq_true hidle
  obtain ⟨⟨p', ch'⟩, hrun, hreturn⟩ := bind_eq_ok hstep
  dsimp only at hrun
  rw [ChannelOp.run_update hop, hnone] at hrun
  have hindex : (s'.channel k).index = .kAdded ↔ (s.channel k).index ≠ .kAdded := by
    have hself : s'.channel k = ch' := by
      cases hreturn
      exact Function.update_self _ _ _
    rw [hself]
    exact Poller.updateChannel_index_idle hrun
  have hwatches := hstepped.watches
  unfold Poller.Watches at hwatches
  rw [hwatches]
  split_ifs with hadded
  · exact ⟨nofun, fun hold => absurd hold (hindex.mp hadded)⟩
  · exact ⟨fun _ => not_not.mp fun hold => hadded (hindex.mpr hold), fun _ => rfl⟩

/-- **An operation that leaves nothing to watch a channel for** leaves it out of the interest list
exactly when the channel was `kAdded` before; so a second `disableAll` always undoes what the first
one did. -/
theorem idle_unwatched_iff (hpermitted : AllPermitted fds labels)
    (hrun : Machine.run step (init fds) labels = .ok s) (k : κ) :
    (∀ op s', op ≠ .remove → s.Permitted k op → s.step (k, op) = .ok s' →
      (s'.channel k).isNoneEvent = true →
      (s'.poller.epoll (s'.channel k).fd = none ↔ (s.channel k).index = .kAdded)) ∧
    (∀ s₁ s₂, s.Permitted k .disableAll → s.step (k, .disableAll) = .ok s₁ →
      s₁.step (k, .disableAll) = .ok s₂ →
      (s₂.poller.epoll (s₂.channel k).fd = none ↔ s₁.poller.epoll (s₁.channel k).fd ≠ none)) := by
  have hbooks := run_bookkept hpermitted hrun
  refine ⟨fun op s' hop hop' hstep hidle => ?_, fun s₁ s₂ hfirst hstep₁ hstep₂ => ?_⟩
  · exact hbooks.unwatched_iff hop hop' hstep hidle
  · have hstepped₁ := hbooks.stepped hfirst hstep₁
    have hbooks₁ := step_bookkept hbooks hfirst hstep₁
    have hknown : s₁.known k = true := by
      rw [hstepped₁.known, Function.update_self]
      rfl
    -- nobody else that is known has the descriptor
    have hsecond : s₁.Permitted k .disableAll := by
      intro k' hk hk' hsame
      have hfound := hbooks₁.channels k' hk'
      rw [hsame, hbooks₁.channels k hknown] at hfound
      exact hk (Option.some.inj hfound).symm
    have hstepped₂ := hbooks₁.stepped hsecond hstep₂
    have hidle : (s₂.channel k).isNoneEvent = true := decide_eq_true hstepped₂.events
    rw [hbooks₁.unwatched_iff (by simp) hsecond hstep₂ hidle]
    have hwatches := hstepped₁.watches
    unfold Poller.Watches at hwatches
    rw [hwatches]
    split_ifs with hadded
    · simp [hadded]
    · simp [hadded]

/-- What `handleClose` and `connectDestroyed` do to the channel of a connection that is `kConnected`. -/
def disableTwiceRun : List (Fin 1 × ChannelOp) := [(0, .enableReading), (0, .disableAll), (0, .disableAll)]

theorem idle_unwatched_iff_disableOnce :
    ∃ s : Channels (Fin 1), Machine.run step (init fun _ => 5) (disableTwiceRun.take 2) = .ok s ∧
      (s.channel 0).index = .kDeleted ∧
      (∀ op s', op ≠ .remove → s.Permitted 0 op → s.step (0, op) = .ok s' →
        (s'.channel 0).isNoneEvent = true →
        (s'.poller.epoll (s'.channel 0).fd = none ↔ (s.channel 0).index = .kAdded)) ∧
      (∀ s₁ s₂, s.Permitted 0 .disableAll → s.step (0, .disableAll) = .ok s₁ →
        s₁.step (0, .disableAll) = .ok s₂ →
        (s₂.poller.epoll (s₂.channel 0).fd = none ↔ s₁.poller.epoll (s₁.channel 0).fd ≠ none)) := by
  obtain ⟨s, hrun, hindex⟩ := eq_ok_of_toOption (b := PollerIndex.kDeleted)
    (f := fun s : Channels (Fin 1) => (s.channel 0).index)
    (x := Machine.run step (init fun _ => 5) (disableTwiceRun.take 2)) (by decide +kernel)
  exact ⟨s, hrun, hindex, idle_unwatched_iff (Machine.along_of_check (by decide +kernel)) hrun 0⟩

/-- The second `disableAll` adds the descriptor again, to be watched for nothing; and this is what
happens to a connection whose peer hangs up. -/
theorem disableAll_watches_again :
    (¬ ∀ (labels : List (Fin 1 × ChannelOp)) (s : Channels (Fin 1)),
      AllPermitted (fun _ => 5) labels → Machine.run step (init fun _ => 5) labels = .ok s →
      (s.channel 0).isNoneEvent = true → s.poller.epoll 5 = none) ∧
    ∃ σ, Machine.run System.step (System.start (0 : Fin 1) [] 0 0 0)
        (hangupRun.take (hangupRun.length - 2)) = .ok σ ∧
      (σ.world.conns 0).state = .kDisconnected ∧ (σ.world.conns 0).channel.fd = 5 ∧
      (σ.world.pollers 0).epoll 5 = some (0, Channel.kNoneEvent) := by
  constructor
  · intro h
    obtain ⟨s, hrun, hobserved⟩ := eq_ok_of_toOption (b := (true, some (0, Channel.kNoneEvent)))
      (f := fun s : Channels (Fin 1) => ((s.channel 0).isNoneEvent, s.poller.epoll 5))
      (x := Machine.run step (init fun _ => 5) disableTwiceRun) (by decide +kernel)
    obtain ⟨hidle, hentry⟩ := Prod.mk.inj hobserved
    have hnone := h disableTwiceRun s (Machine.along_of_check (by decide +kernel)) hrun hidle
    rw [hentry] at hnone
    cases hnone
  · obtain ⟨σ, hrun, hobserved⟩ := eq_ok_of_toOption
      (b := (StateE.kDisconnected, 5, some (0, Channel.kNoneEvent)))
      (f := fun σ : System (Fin 1) => ((σ.world.conns 0).state, (σ.world.conns 0).channel.fd,
        (σ.world.pollers 0).epoll 5))
      (x := Machine.run System.step (System.start (0 : Fin 1) [] 0 0 0)
        (hangupRun.take (hangupRun.length - 2))) (by decide +kernel)
    obtain ⟨hstate, hrest⟩ := Prod.mk.inj hobserved
    obtain ⟨hfd, hentry⟩ := Prod.mk.inj hrest
    exact ⟨σ, hrun, hstate, hfd, hentry⟩

end Channels

end VServer

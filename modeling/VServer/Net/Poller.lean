import VServer.Basic

/-!
# Channels and the poller

`Channel` (`Channel.h`, `Channel.cc`) and `Poller` (`Poller.h`, `Poller.cc`). The poller's map from
file descriptors to channels and the interest list of the kernel are functions of the descriptor;
`κ` names the owners of the channels and stands for the `Channel*` in both. `epoll_ctl` fails on an
`ADD` of a descriptor that is there and on a `MOD` or `DEL` of one that is not, and the code does
not look at its result.
-/

namespace VServer

namespace Epoll

def epollIn : BitVec 32 := 0x001
def epollPri : BitVec 32 := 0x002
def epollOut : BitVec 32 := 0x004
def epollErr : BitVec 32 := 0x008
def epollHup : BitVec 32 := 0x010
def epollRdHup : BitVec 32 := 0x2000

end Epoll

open Epoll

/-- `kNew`, `kAdded` and `kDeleted` of `Poller.h`. -/
inductive PollerIndex where
  | kNew | kAdded | kDeleted
  deriving DecidableEq, Repr

structure Channel where
  fd : Nat
  events : BitVec 32
  index : PollerIndex
  deriving DecidableEq, Repr

namespace Channel

def kNoneEvent : BitVec 32 := 0
def kReadEvent : BitVec 32 := epollIn ||| epollPri
def kWriteEvent : BitVec 32 := epollOut

/-- `Channel(loop, fd)` -/
def init (fd : Nat) : Channel := ⟨fd, kNoneEvent, .kNew⟩

variable (ch : Channel)

def isWritable : Bool := ch.events &&& kWriteEvent ≠ 0
def isReadable : Bool := ch.events &&& kReadEvent ≠ 0
def isNoneEvent : Bool := ch.events = kNoneEvent

end Channel

/-- The `op` argument of `epoll_ctl`. -/
inductive EpollOp where
  | add | mod | del

structure Poller (κ : Type) where
  /-- `m_channels` -/
  channels : Nat → Option κ
  /-- The interest list of `m_epollfd`: whose channel, and its events. -/
  epoll : Nat → Option (κ × BitVec 32)

namespace Poller

variable {κ : Type} [DecidableEq κ]

def init : Poller κ := ⟨fun _ => none, fun _ => none⟩

variable (p : Poller κ)

/-- `Poller::update`, which is one `epoll_ctl`. -/
def update (op : EpollOp) (owner : κ) (ch : Channel) : Poller κ :=
  let event := some (owner, ch.events)
  match op, p.epoll ch.fd with
  | .add, none => { p with epoll := Function.update p.epoll ch.fd event }
  | .mod, some _ => { p with epoll := Function.update p.epoll ch.fd event }
  | .del, some _ => { p with epoll := Function.update p.epoll ch.fd none }
  | _, _ => p

def updateChannel (owner : κ) (ch : Channel) : Except Fault (Poller κ × Channel) :=
  match ch.index with
  | .kNew =>
    if p.channels ch.fd = none then
      let p := { p with channels := Function.update p.channels ch.fd (some owner) }
      .ok (p.update .add owner ch, { ch with index := .kAdded })
    else .error (.assertion .updateChannelNew)
  | .kDeleted =>
    if p.channels ch.fd = some owner then .ok (p.update .add owner ch, { ch with index := .kAdded })
    else .error (.assertion .updateChannelFound)
  | .kAdded =>
    if p.channels ch.fd = some owner then
      if ch.isNoneEvent then .ok (p.update .del owner ch, { ch with index := .kDeleted })
      else .ok (p.update .mod owner ch, ch)
    else .error (.assertion .updateChannelFound)

def removeChannel (owner : κ) (ch : Channel) : Except Fault (Poller κ × Channel) :=
  if p.channels ch.fd = none then .error (.assertion .removeChannelFound)
  else
    let erased := { p with channels := Function.update p.channels ch.fd none }
    match ch.index with
    | .kNew => .error (.assertion .removeChannelIndex)
    | .kAdded => .ok (erased.update .del owner ch, { ch with index := .kNew })
    | .kDeleted => .ok (erased, { ch with index := .kNew })

end Poller

/-! ## The operations of a channel, which tell the poller -/

namespace Channel

variable {κ : Type} [DecidableEq κ] (owner : κ) (p : Poller κ) (ch : Channel)

def enableReading : Except Fault (Poller κ × Channel) :=
  p.updateChannel owner { ch with events := ch.events ||| kReadEvent }

def disableReading : Except Fault (Poller κ × Channel) :=
  p.updateChannel owner { ch with events := ch.events &&& ~~~kReadEvent }

def enableWriting : Except Fault (Poller κ × Channel) :=
  p.updateChannel owner { ch with events := ch.events ||| kWriteEvent }

def disableWriting : Except Fault (Poller κ × Channel) :=
  p.updateChannel owner { ch with events := ch.events &&& ~~~kWriteEvent }

def disableAll : Except Fault (Poller κ × Channel) :=
  p.updateChannel owner { ch with events := kNoneEvent }

def remove : Except Fault (Poller κ × Channel) :=
  if ch.isNoneEvent then p.removeChannel owner ch else .error (.assertion .channelRemove)

end Channel

/-! ## What an update leaves alone -/

namespace Poller

variable {κ : Type} {owner : κ} {p p' : Poller κ} {ch ch' : Channel}

/-- The two pollers agree everywhere but at `fd`. -/
structure SameBut (fd : Nat) (p p' : Poller κ) : Prop where
  channels : ∀ fd', fd' ≠ fd → p'.channels fd' = p.channels fd'
  epoll : ∀ fd', fd' ≠ fd → p'.epoll fd' = p.epoll fd'

theorem SameBut.refl (fd : Nat) (p : Poller κ) : SameBut fd p p := ⟨fun _ _ => rfl, fun _ _ => rfl⟩

theorem update_sameBut (p : Poller κ) (owner : κ) (ch : Channel) (op : EpollOp) :
    SameBut ch.fd p (p.update op owner ch) := by
  refine ⟨fun fd' hfd => ?_, fun fd' hfd => ?_⟩
  · unfold update
    dsimp only
    split
    all_goals rfl
  · unfold update
    dsimp only
    split
    all_goals first
      | exact Function.update_of_ne hfd _ _
      | rfl

theorem update_channels (op : EpollOp) : (p.update op owner ch).channels = p.channels := by
  unfold update
  dsimp only
  split
  all_goals rfl

/-- What `updateChannel` can do. -/
inductive UpdateStep (p : Poller κ) (owner : κ) (ch : Channel) : Poller κ → Channel → Prop
  | new (index : ch.index = .kNew) :
    UpdateStep p owner ch
      (update { p with channels := Function.update p.channels ch.fd (some owner) } .add owner ch)
      { ch with index := .kAdded }
  | again (index : ch.index = .kDeleted) (found : p.channels ch.fd = some owner) :
    UpdateStep p owner ch (p.update .add owner ch) { ch with index := .kAdded }
  | delete (index : ch.index = .kAdded) (found : p.channels ch.fd = some owner)
      (isNoneEvent : ch.isNoneEvent = true) :
    UpdateStep p owner ch (p.update .del owner ch) { ch with index := .kDeleted }
  | modify (index : ch.index = .kAdded) (found : p.channels ch.fd = some owner)
      (isNoneEvent : ch.isNoneEvent ≠ true) : UpdateStep p owner ch (p.update .mod owner ch) ch

theorem updateChannel_cases [DecidableEq κ] (h : p.updateChannel owner ch = .ok (p', ch')) :
    UpdateStep p owner ch p' ch' := by
  unfold updateChannel at h
  split at h
  · split_ifs at h
    cases h
    exact .new ‹_›
  · split_ifs at h with hfound
    cases h
    exact .again ‹_› hfound
  · split_ifs at h with hfound hnone
    · cases h
      exact .delete ‹_› hfound hnone
    · cases h
      exact .modify ‹_› hfound hnone

/-- What `removeChannel` can do. -/
inductive RemoveStep (p : Poller κ) (owner : κ) (ch : Channel) : Poller κ → Channel → Prop
  | delete (index : ch.index = .kAdded) :
    RemoveStep p owner ch
      (update { p with channels := Function.update p.channels ch.fd none } .del owner ch)
      { ch with index := .kNew }
  | forget (index : ch.index = .kDeleted) :
    RemoveStep p owner ch { p with channels := Function.update p.channels ch.fd none }
      { ch with index := .kNew }

theorem removeChannel_cases (h : p.removeChannel owner ch = .ok (p', ch')) :
    RemoveStep p owner ch p' ch' := by
  unfold removeChannel at h
  split_ifs at h
  dsimp only at h
  split at h
  · cases h
  · cases h
    exact .delete ‹_›
  · cases h
    exact .forget ‹_›

/-- What `updateChannel` does: the channel is known afterwards, its descriptor and events are as they
were, and nothing else is touched. -/
theorem updateChannel_spec [DecidableEq κ] (h : p.updateChannel owner ch = .ok (p', ch')) :
    ch'.fd = ch.fd ∧ ch'.events = ch.events ∧ ch'.index ≠ .kNew ∧ SameBut ch.fd p p' ∧
      p'.channels ch.fd = some owner := by
  cases updateChannel_cases h with
  | new index =>
    have hsame := update_sameBut { p with channels := Function.update p.channels ch.fd (some owner) }
      owner ch .add
    refine ⟨rfl, rfl, by simp, ⟨fun fd' hfd => ?_, hsame.epoll⟩, ?_⟩
    · rw [hsame.channels fd' hfd]
      exact Function.update_of_ne hfd _ _
    · rw [update_channels]
      exact Function.update_self _ _ _
  | again index found =>
    exact ⟨rfl, rfl, by simp, update_sameBut p owner ch .add, by rw [update_channels, found]⟩
  | delete index found isNoneEvent =>
    exact ⟨rfl, rfl, by simp, update_sameBut p owner ch .del, by rw [update_channels, found]⟩
  | modify index found isNoneEvent =>
    exact ⟨rfl, rfl, by simp [index], update_sameBut p owner ch .mod, by rw [update_channels, found]⟩

theorem removeChannel_spec (h : p.removeChannel owner ch = .ok (p', ch')) :
    ch'.fd = ch.fd ∧ ch'.events = ch.events ∧ ch'.index = .kNew ∧ SameBut ch.fd p p' ∧
      p'.channels ch.fd = none := by
  have hchannels : ∀ fd', fd' ≠ ch.fd →
      Function.update p.channels ch.fd none fd' = p.channels fd' := fun fd' hfd =>
    Function.update_of_ne hfd _ _
  cases removeChannel_cases h with
  | delete index =>
    have hsame := update_sameBut { p with channels := Function.update p.channels ch.fd none }
      owner ch .del
    refine ⟨rfl, rfl, rfl, ⟨fun fd' hfd => ?_, hsame.epoll⟩, ?_⟩
    · exact (hsame.channels fd' hfd).trans (hchannels fd' hfd)
    · rw [update_channels]
      exact Function.update_self _ _ _
  | forget index =>
    exact ⟨rfl, rfl, rfl, ⟨hchannels, fun _ _ => rfl⟩, Function.update_self _ _ _⟩

end Poller

/-! ## What the channel is watched for -/

namespace Channel

variable {κ : Type} [DecidableEq κ] {owner : κ} {p p' : Poller κ} {ch ch' : Channel}

theorem enableWriting_isReadable (h : ch.enableWriting owner p = .ok (p', ch')) :
    ch'.isReadable = ch.isReadable := by
  obtain ⟨-, hevents, -⟩ := Poller.updateChannel_spec h
  have hbits : kWriteEvent &&& kReadEvent = 0#32 := by decide
  unfold isReadable
  rw [hevents, BitVec.and_or_distrib_right, hbits, BitVec.or_zero]

theorem disableWriting_isReadable (h : ch.disableWriting owner p = .ok (p', ch')) :
    ch'.isReadable = ch.isReadable := by
  obtain ⟨-, hevents, -⟩ := Poller.updateChannel_spec h
  have hbits : ~~~kWriteEvent &&& kReadEvent = kReadEvent := by decide
  unfold isReadable
  rw [hevents, BitVec.and_assoc, hbits]

theorem disableAll_isReadable (h : ch.disableAll owner p = .ok (p', ch')) :
    ch'.isReadable = false := by
  obtain ⟨-, hevents, -⟩ := Poller.updateChannel_spec h
  unfold isReadable
  rw [hevents]
  show decide (kNoneEvent &&& kReadEvent ≠ 0) = false
  decide

omit [DecidableEq κ] in
theorem remove_isReadable (h : ch.remove owner p = .ok (p', ch')) :
    ch'.isReadable = ch.isReadable := by
  unfold remove at h
  split_ifs at h
  obtain ⟨-, hevents, -⟩ := Poller.removeChannel_spec h
  unfold isReadable
  rw [hevents]

theorem enableReading_isWritable (h : ch.enableReading owner p = .ok (p', ch')) :
    ch'.isWritable = ch.isWritable := by
  obtain ⟨-, hevents, -⟩ := Poller.updateChannel_spec h
  have hbits : kReadEvent &&& kWriteEvent = 0#32 := by decide
  unfold isWritable
  rw [hevents, BitVec.and_or_distrib_right, hbits, BitVec.or_zero]

theorem enableReading_isReadable (h : ch.enableReading owner p = .ok (p', ch')) :
    ch'.isReadable = true := by
  obtain ⟨-, hevents, -⟩ := Poller.updateChannel_spec h
  have hbits : kReadEvent &&& kReadEvent ≠ 0#32 := by decide
  refine decide_eq_true fun hzero => hbits ?_
  rw [hevents, BitVec.and_or_distrib_right] at hzero
  exact (BitVec.or_eq_zero_iff.mp hzero).2

theorem enableWriting_isWritable (h : ch.enableWriting owner p = .ok (p', ch')) :
    ch'.isWritable = true := by
  obtain ⟨-, hevents, -⟩ := Poller.updateChannel_spec h
  have hbits : kWriteEvent &&& kWriteEvent ≠ 0#32 := by decide
  refine decide_eq_true fun hzero => hbits ?_
  rw [hevents, BitVec.and_or_distrib_right] at hzero
  exact (BitVec.or_eq_zero_iff.mp hzero).2

theorem disableWriting_isWritable (h : ch.disableWriting owner p = .ok (p', ch')) :
    ch'.isWritable = false := by
  obtain ⟨-, hevents, -⟩ := Poller.updateChannel_spec h
  have hbits : ~~~kWriteEvent &&& kWriteEvent = 0#32 := by decide
  refine decide_eq_false fun hne => hne ?_
  rw [hevents, BitVec.and_assoc, hbits]
  exact BitVec.and_zero

omit [DecidableEq κ] in
theorem remove_isWritable (h : ch.remove owner p = .ok (p', ch')) :
    ch'.isWritable = ch.isWritable := by
  unfold remove at h
  split_ifs at h
  obtain ⟨-, hevents, -⟩ := Poller.removeChannel_spec h
  unfold isWritable
  rw [hevents]

end Channel

end VServer

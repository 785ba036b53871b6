import VServer.Net.WriteInterest

/-!
# Shutting a connection down

`shutdown()` sets `kDisconnecting`, and from then on `send` accepts nothing. But a message that was
accepted before may still be on its way to the loop, and nobody waits for it: `shutdownInLoop` runs at
once when the loop itself calls `shutdown()`, and `handleWrite` issues `SHUT_WR` as soon as the
buffer is empty. Then the message is overtaken (`shutdown_overtakes`). Where no message is on its way
at these two places, none is (`shutdown_last`).
-/

namespace VServer

variable {ι : Type}

namespace TcpConnection

variable {conn : TcpConnection ι} {self : Nat} {p : Poller Nat}

/-- `handleWrite` issues `SHUT_WR` when it takes the last byte of a connection that is
`kDisconnecting`. -/
theorem handleWrite_shuts {written : Option Nat} {r : Result ι}
    (h : conn.handleWrite self p written = .ok r) (hmem : .shutdownWrite ∈ r.2.2) :
    conn.channel.isWritable = true ∧ conn.state = .kDisconnecting ∧
      conn.outputBuffer.readable.length ≤ written.getD 0 := by
  cases handleWrite_cases h with
  | unwatched off => simp at hmem
  | failed on none => simp at hmem
  | left on waits => simp at hmem
  | drained on empty result =>
    rw [SafeBuffer.retrieve_readable, List.drop_eq_nil_iff] at empty
    refine ⟨on, ?_, le_trans empty (Nat.min_le_left _ _)⟩
    by_contra hstate
    simp [hstate] at hmem

end TcpConnection

variable [DecidableEq ι] {who : ι} {k : Kernel} {base : ι} {c : Nat} {l l' : Link ι} {t : ConnTask ι}
  {events : List (ConnEvent ι)} {new : List (Task ι)}

theorem ConnStep.shuts (h : ConnStep who k base c l t l' events new) (hmem : .shutdownWrite ∈ events) :
    t = .shutdownInLoop ∧ l.conn.channel.isWritable = false ∨
      t = .handleWrite ∧ l.conn.channel.isWritable = true ∧ l.conn.state = .kDisconnecting ∧
        l.conn.outputBuffer.readable.length ≤ k.write.getD 0 := by
  cases h with
  | handleWrite loop result => exact .inr ⟨rfl, TcpConnection.handleWrite_shuts result hmem⟩
  | shutdownInLoop loop =>
    refine .inl ⟨rfl, ?_⟩
    by_contra hwritable
    simp [TcpConnection.shutdownInLoop, hwritable] at hmem
  | sendInLoop loop result =>
    obtain ⟨out, wrote, -, -, -, hevents, hwrote⟩ := TcpConnection.sendInLoop_spec result
    rw [hevents] at hmem
    rcases hwrote with ⟨rfl, -⟩ | ⟨n, rfl, -⟩
    all_goals simp at hmem
  | _ => simp at hmem

section

variable [Fintype ι] {σ σ' : System ι} {label : Label ι}

def ConnTask.sends (t : ConnTask ι) : Nat := if t.sending.isSome then 1 else 0

/-- No message is on its way where `SHUT_WR` is issued: when `shutdownInLoop` finds nothing to write,
and when `handleWrite` can write all there is on a connection that is `kDisconnecting`. -/
def NoneOnTheWay (σ : System ι) (label : Label ι) : Prop :=
  match σ.performs label with
  | some (c, .shutdownInLoop, _) => (σ.world.conns c).channel.isWritable = false →
    .closed ∉ σ.world.seen c → σ.total c ConnTask.sends = 0
  | some (c, .handleWrite, k) => (σ.world.conns c).channel.isWritable = true →
    (σ.world.conns c).state = .kDisconnecting →
    (σ.world.conns c).outputBuffer.readable.length ≤ k.write.getD 0 →
    .closed ∉ σ.world.seen c → σ.total c ConnTask.sends = 0
  | _ => True

instance (σ : System ι) (label : Label ι) : Decidable (NoneOnTheWay σ label) := by
  unfold NoneOnTheWay
  rcases σ.performs label with _ | ⟨c, ⟨⟩, k⟩
  all_goals infer_instance

/-- Every message that was accepted has been written to its last byte, those of a sender in their
order. -/
def Delivered (seen : List (ConnEvent ι)) : Prop :=
  (∀ sender, Relay.of sender (seen.filterMap ConnEvent.acceptedMessage) =
    Relay.of sender (seen.filterMap ConnEvent.sentMessage)) ∧ Drained seen

/-- `SHUT_WR` comes behind every message that was accepted, until the connection is closed. -/
def ShutDownLast (c : Nat) (σ : System ι) : Prop :=
  Machine.Behind (fun pre => .closed ∉ pre → Delivered pre) (· = .shutdownWrite) (σ.world.seen c)

omit [DecidableEq ι] in
theorem lanes_eq_nil (h : σ.total c ConnTask.sends = 0) (i : ι) : (σ.relay c).lanes i = [] := by
  refine List.filterMap_eq_nil_iff.mpr fun x hx => ?_
  have hle := Tokens.le_total (m := Task.weight c ConnTask.sends) hx
  have hzero : Task.weight c ConnTask.sends x = 0 := Nat.le_zero.mp (h ▸ hle)
  unfold Task.sending
  unfold Task.weight at hzero
  cases hab : x.about c with
  | none => rfl
  | some t =>
    rw [hab] at hzero
    have hnot : (if t.sending.isSome then 1 else 0) = 0 := hzero
    show t.sending = none
    split_ifs at hnot with hsome
    exact Option.not_isSome_iff_eq_none.mp hsome

theorem step_shutDownLast (hinv : OpenInv c σ) (hinv' : OpenInv c σ') (hlast : ShutDownLast c σ)
    (hnone : NoneOnTheWay σ label) (hstep : σ.step label = .ok σ') : ShutDownLast c σ' := by
  unfold ShutDownLast at hlast ⊢
  have hdrained := hinv'.interest.drained
  cases (step_move hstep).of_conn c with
  | @own who k t rest new events run todo alive step alive' connId seen total =>
    rw [seen] at hdrained ⊢
    refine hlast.append ?_
    rintro pre event post hsplit rfl hopen
    have hmem : .shutdownWrite ∈ events := by
      rw [hsplit]
      simp
    have hbefore : .closed ∉ σ.world.seen c := fun h => hopen (List.mem_append_left _ h)
    rw [run, NoneOnTheWay, performs_of_todo todo] at hnone
    have hzero : σ.total c ConnTask.sends = 0 := by
      rcases step.shuts hmem with ⟨rfl, hwritable⟩ | ⟨rfl, hwritable, hstate, hwritten⟩
      · exact hnone hwritable hbefore
      · exact hnone hwritable hstate hwritten hbefore
    -- the step itself neither accepts nor sends
    have hquiet : pre.filterMap ConnEvent.acceptedMessage = [] ∧
        pre.filterMap ConnEvent.sentMessage = [] := by
      have hshuts : t = .shutdownInLoop ∨ t = .handleWrite := (step.shuts hmem).imp (·.1) (·.1)
      rcases step.relay with ⟨m, rfl, -⟩ | ⟨sender, m, rfl, -⟩ | ⟨-, haccepted, hsent, -⟩
      · simp at hshuts
      · simp at hshuts
      · rw [hsplit, List.filterMap_append, List.append_eq_nil_iff] at haccepted hsent
        exact ⟨haccepted.1, hsent.1⟩
    refine ⟨fun sender => ?_, hdrained _ _ post (by rw [hsplit, List.append_assoc]) rfl hopen⟩
    have horder := hinv.stream.ordered.order sender
    have hwaiting : Relay.waiting (σ.world.conns c).loop sender (σ.relay c) = [] := by
      unfold Relay.waiting
      rw [lanes_eq_nil hzero, lanes_eq_nil hzero]
      split_ifs
      all_goals rfl
    rw [hwaiting, List.append_nil] at horder
    rw [List.filterMap_append, List.filterMap_append, hquiet.1, hquiet.2, List.append_nil, List.append_nil]
    exact horder
  | born fresh connId conn registered seen total alive' => rwa [seen]
  | idle conn registered alive connId seen total => rwa [seen]

/-- **`SHUT_WR` overtakes no message** in every run in which none is on its way where it is issued. -/
theorem shutdown_last {baseLoop : ι} {ioLoops : List ι} {delay clock : Nat} {count : UInt64}
    {labels : List (Label ι)}
    (halong : Machine.Along System.step NoneOnTheWay
      (System.start baseLoop ioLoops delay clock count) labels)
    (hrun : Machine.run System.step (System.start baseLoop ioLoops delay clock count) labels = .ok σ)
    (c : Nat) : ShutDownLast c σ :=
  (Machine.run_inv (I := fun σ => OpenInv c σ ∧ ShutDownLast c σ)
    (fun _ _ _ hinv hnone hstep =>
      have hinv' := step_openInv hinv.1 hstep
      ⟨hinv', step_shutDownLast hinv.1 hinv' hinv.2 hnone hstep⟩)
    ⟨start_openInv baseLoop ioLoops delay clock count, Machine.behind_nil⟩ halong hrun).2

end

/-- The user sends a byte and shuts the connection down in the connection callback. -/
def sendAndShutdownRun : List (Label (Fin 1)) :=
  acceptRun ++ [Label.call 0 (.send 0 [1])] ++ Label.runs 0 1 ++
    [Label.run 0 ⟨none, some 1, none⟩] ++ [Label.call 0 (.shutdown 0)] ++ Label.runs 0 3

theorem shutdown_last_sent :
    ∃ σ, Machine.run System.step (System.start (0 : Fin 1) [] 0 0 0) sendAndShutdownRun = .ok σ ∧
      .shutdownWrite ∈ σ.world.seen 0 ∧ ShutDownLast 0 σ := by
  obtain ⟨σ, hrun, hseen⟩ := eq_ok_of_toOption (b := true)
    (f := fun σ : System (Fin 1) => decide (.shutdownWrite ∈ σ.world.seen 0))
    (x := Machine.run System.step (System.start 0 [] 0 0 0) sendAndShutdownRun) (by decide +kernel)
  exact ⟨σ, hrun, of_decide_eq_true hseen,
    shutdown_last (Machine.along_of_check (by decide +kernel)) hrun 0⟩

/-- Thread 1, which runs no loop, sends a byte while thread 0 is in the connection callback, and
thread 0 shuts the connection down. -/
def sendAcrossRun : List (Label (Fin 2)) :=
  [Label.next 0, .next 0, .poll 0 [.acceptor], .next 0, .run 0 ⟨none, none, some 5⟩] ++
    Label.runs 0 1 ++ [Label.call 1 (.send 0 [1])] ++ Label.runs 1 2 ++
    [Label.call 0 (.shutdown 0)] ++ Label.runs 0 3

/-- The message is in the queue of the loop when `SHUT_WR` is issued. -/
theorem shutdown_overtakes :
    ¬ ∀ (labels : List (Label (Fin 2))) (σ : System (Fin 2)),
      Machine.run System.step (System.start 0 [] 0 0 0) labels = .ok σ → ∀ c, ShutDownLast c σ := by
  intro h
  obtain ⟨σ, hrun, hseen⟩ := eq_ok_of_toOption
    (b := [.notified .kConnected, .accepted 1 [1], .shutdownWrite])
    (f := fun σ : System (Fin 2) => σ.world.seen 0)
    (x := Machine.run System.step (System.start 0 [] 0 0 0) sendAcrossRun) (by decide +kernel)
  have hlast := h sendAcrossRun σ hrun 0
  unfold ShutDownLast at hlast
  rw [hseen] at hlast
  have hdelivered := (hlast [.notified .kConnected, .accepted 1 [1]] _ [] rfl rfl (by decide)).1 1
  cases hdelivered

end VServer

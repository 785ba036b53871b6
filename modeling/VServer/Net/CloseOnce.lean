import VServer.Net.Faults
import VServer.Net.Lifecycle

/-!
# Closing a connection

`handleClose` leaves `m_state` as it is, so a second hangup, end of file or `forceCloseInLoop` that
comes before `connectDestroyed` (or behind it, when the state is `kDisconnecting`) passes its guard
and calls the close callback again. What tells a connection that was closed from one that was not is
its channel, which is not watched for reading any more. As long as `handleClose` only meets channels
that are, everything happens once.
-/

namespace VServer

variable {ι : Type} [DecidableEq ι]

/-- `handleClose` is not entered for a connection whose channel is no longer watched for reading. -/
def ClosesWatched (σ : System ι) (label : Label ι) : Prop :=
  match σ.performs label with
  | some (c, .handleClose, _) => (σ.world.conns c).channel.isReadable = true
  | _ => True

instance (σ : System ι) (label : Label ι) : Decidable (ClosesWatched σ label) := by
  unfold ClosesWatched
  rcases σ.performs label with _ | ⟨c, ⟨⟩, k⟩
  all_goals infer_instance

/-- `handleClose` ran once at most for connection `c`, and where it did, it is not entered again. -/
structure CloseInv (c : Nat) (σ : System ι) : Prop where
  once : (σ.world.life c).count .closed ≤ 1
  unwatched : (σ.world.life c).count .closed = 1 → (σ.world.conns c).channel.isReadable = false

section

variable [Fintype ι] {σ σ' : System ι} {c : Nat}

theorem step_closeInv {label : Label ι} (hlife : LifeInv c σ) (hinv : CloseInv c σ)
    (hwatched : ClosesWatched σ label) (hstep : σ.step label = .ok σ') : CloseInv c σ' := by
  obtain ⟨honce, hunwatched⟩ := hinv
  cases (step_move hstep).of_conn c with
  | @own who k t rest new events run todo alive step alive' connId seen total =>
    have hafter : σ'.world.life c = σ.world.life c ++ events.filter ConnEvent.isLife :=
      World.life_append seen
    have hlifeStep := step.life
    generalize events.filter ConnEvent.isLife = life at hafter hlifeStep
    -- a task that does not close and keeps what the channel is watched for
    have hkeep : life.count .closed = 0 → (σ'.world.conns c).channel.isReadable =
        (σ.world.conns c).channel.isReadable ∨ (σ'.world.conns c).channel.isReadable = false →
        CloseInv c σ' := by
      intro hnone hread
      rw [← Nat.add_zero ((σ.world.life c).count .closed), ← hnone, ← List.count_append, ← hafter]
        at honce hunwatched
      refine ⟨honce, fun h => ?_⟩
      rcases hread with hsame | hfalse
      · rw [hsame]
        exact hunwatched h
      · exact hfalse
    cases hlifeStep with
    | closed isOpen state unwatched registered =>
      -- the channel was watched, so this is the first close
      have hfirst : (σ.world.life c).count .closed = 0 := by
        rw [run, ClosesWatched, performs_of_todo todo] at hwatched
        have hwatched : (σ.world.conns c).channel.isReadable = true := hwatched
        by_contra hne
        rw [hunwatched (by omega)] at hwatched
        cases hwatched
      refine ⟨?_, fun _ => unwatched⟩
      rw [hafter, List.count_append, hfirst]
      simp
    | established connecting state registered =>
      -- nothing was seen of the connection yet
      have hnil : σ.world.life c = [] := hlife.connecting connecting
      have hnone : (σ'.world.life c).count .closed = 0 := by
        rw [hafter, hnil]
        simp
      exact ⟨by omega, fun h => by omega⟩
    | removed registered conn gone =>
      exact hkeep (by simp) (.inl (congrArg (fun conn => conn.channel.isReadable) conn))
    | disconnected state channel registered =>
      exact hkeep (by simp) (.inl (congrArg Channel.isReadable channel))
    | disconnecting state channel registered =>
      exact hkeep (by simp) (.inl (congrArg Channel.isReadable channel))
    | notified state unwatched registered => exact hkeep (by simp) (.inr unwatched)
    | destroyed state watched registered => exact hkeep (by simp) (.inl watched)
    | other ht state watched registered => exact hkeep (by simp) (.inl watched)
  | @born loop fresh connId conn registered seen total =>
    have hnil : σ'.world.life c = [] := (World.life_eq seen).trans (hlife.unborn (by omega))
    have hnone : (σ'.world.life c).count .closed = 0 := by
      rw [hnil]
      rfl
    exact ⟨by omega, fun h => by omega⟩
  | idle conn registered alive connId seen total =>
    have hsame : σ'.world.life c = σ.world.life c := World.life_eq seen
    rw [← hsame, ← conn] at hunwatched
    rw [← hsame] at honce
    exact ⟨honce, hunwatched⟩

/-- Close happened at most once: `handleClose` called the close callback of each connection at most
once, the server took it off its map and off the count of its loop at most once, and no step is
about to fail the `assert(n == 1)`. -/
def ClosedOnce (σ : System ι) : Prop :=
  (∀ c, (σ.world.seen c).count .closed ≤ 1 ∧ (σ.world.seen c).count .removed ≤ 1) ∧
    ∀ label, σ.step label ≠ .error (.fault (.assertion .removeConnectionInLoop))

/-- **Close happens once** in every run in which `handleClose` meets only channels that are watched
for reading. -/
theorem close_once {baseLoop : ι} {ioLoops : List ι} {delay clock : Nat} {count : UInt64}
    {labels : List (Label ι)} {σ : System ι}
    (halong : Machine.Along System.step ClosesWatched
      (System.start baseLoop ioLoops delay clock count) labels)
    (hrun : Machine.run System.step (System.start baseLoop ioLoops delay clock count) labels = .ok σ) :
    ClosedOnce σ := by
  have hlife : ∀ c, LifeInv c σ := fun c => run_lifeInv c hrun
  have hclose : ∀ c, CloseInv c σ := fun c =>
    (Machine.run_inv (I := fun σ => LifeInv c σ ∧ CloseInv c σ)
      (fun _ _ _ hinv hwatched hstep =>
        ⟨step_lifeInv hinv.1 hstep, step_closeInv hinv.1 hinv.2 hwatched hstep⟩)
      ⟨start_lifeInv baseLoop ioLoops delay clock count, Nat.zero_le _, fun h => by cases h⟩ halong
      hrun).2
  refine ⟨fun c => ?_, fun label hfault => ?_⟩
  · have honce := (hclose c).once
    have honce' := (hlife c).once
    rw [World.life, List.count_filter rfl] at honce honce'
    exact ⟨honce, honce'⟩
  · rcases step_fault hfault rfl with ⟨who, k, c, rest, -, -, -, -, -, hf⟩ | ⟨who, k, rest, -, -, -, hf⟩ |
      ⟨c, k, hperforms, halive, hgone, -⟩ | ⟨c, k, -, -, -, hf⟩ | ⟨c, k, -, -, -, hf⟩
    · cases hf
    · cases hf
    · -- the task that fails has not been counted as removed, but the map has lost the connection
      have hbalance := (hlife c).removes
      have honce := (hclose c).once
      have hremoved : (σ.world.life c).count .removed ≠ 0 := by
        intro hzero
        rw [((hlife c).registered ((hlife c).born halive)).mpr hzero] at hgone
        cases hgone
      have hpending := le_total_of_performs ConnTask.removes hperforms
      simp only [ConnTask.removes] at hpending
      omega
    · cases hf
    · cases hf

end

theorem close_once_hangup :
    ∃ σ, Machine.run System.step (System.start (0 : Fin 1) [] 0 0 0) hangupRun = .ok σ ∧
      (σ.world.seen 0).count .closed = 1 ∧ ClosedOnce σ := by
  obtain ⟨σ, hrun, hclosed⟩ := eq_ok_of_toOption (b := 1)
    (f := fun σ : System (Fin 1) => (σ.world.seen 0).count .closed)
    (x := Machine.run System.step (System.start 0 [] 0 0 0) hangupRun) (by decide +kernel)
  exact ⟨σ, hrun, hclosed, close_once (Machine.along_of_check (by decide +kernel)) hrun⟩

/-- The user calls `forceClose()` twice in the connection callback. -/
def forceCloseTwiceRun : List (Label (Fin 1)) :=
  acceptRun ++ [Label.call 0 (.forceClose 0)] ++ Label.runs 0 3 ++ [Label.call 0 (.forceClose 0)] ++
    Label.runs 0 3 ++ [Label.ret 0] ++ Label.runs 0 1 ++ [Label.next 0, .next 0, .next 0] ++
    Label.runs 0 6 ++ [Label.next 0] ++ Label.runs 0 3

/-- Both `forceCloseInLoop` close the connection, and the second removal finds nothing to remove. -/
theorem forceCloseTwice_closes_twice :
    ¬ ∀ (labels : List (Label (Fin 1))) (σ : System (Fin 1)),
      Machine.run System.step (System.start 0 [] 0 0 0) labels = .ok σ → ClosedOnce σ := by
  intro h
  obtain ⟨σ, hrun, hclosed⟩ := eq_ok_of_toOption (b := 2)
    (f := fun σ : System (Fin 1) => (σ.world.seen 0).count .closed)
    (x := Machine.run System.step (System.start 0 [] 0 0 0) forceCloseTwiceRun) (by decide +kernel)
  have honce := ((h forceCloseTwiceRun σ hrun).1 0).1
  omega

end VServer

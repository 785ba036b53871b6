import VServer.Net.IdleTimers
import VServer.Net.Places

/-!
# Activity renews the idle timer

The loop of a connection is at rest about the idle timer (`Resting`), or on the way from `updateTimer`
to `m_timerId = …` (`Renewing`); all other threads and queues have nothing to do with it (`IdleInv`).
So at every read no idle timer is pending but the one that `m_timerId` names, and `updateTimer` puts
another one in its place, provided that it does not take the id for the mark that there is none.
-/

namespace VServer

variable {ι : Type}

/-- A task that leaves the idle timer of connection `c` alone, or starts to renew it. -/
def Task.Idles (c : Nat) (x : Task ι) : Prop := x.renews c = false ∨ x = .conn c .updateTimer

/-- No function is about the idle timer: `m_timerId` is set, or the function that will set it is still
in the connection callback. -/
inductive Resting (c : Nat) (w : World ι) (l : List (Task ι)) : Prop
  | quiet (tracks : w.TracksIdle c) (idles : ∀ x ∈ l, x.Idles c)
  | delayed {above below : List (Task ι)} (stack : l = above ++ .conn c .delayedClose :: below)
      (none : w.NoIdle c) (untimed : (w.conns c).isTimed = false)
      (above_idles : ∀ x ∈ above, x.Idles c) (below_idles : ∀ x ∈ below, x.Idles c)

def AtHome (c : Nat) (w : World ι) (l : List (Task ι)) : Prop :=
  Resting c w l ∨ ∃ rest, (∀ x ∈ rest, x.Idles c) ∧ Renewing c 0 False w rest l

/-- The idle timer of connection `c`, between all steps. -/
structure IdleInv (c : Nat) (σ : System ι) : Prop where
  unborn : σ.world.server.connId ≤ c → (σ.world.conns c).state = .kConnecting
  fresh : (σ.world.conns c).state = .kConnecting → σ.world.NoIdle c ∧
    (σ.world.conns c).isTimed = false ∧ ∀ i, ∀ x ∈ σ.todo i, x.renews c = false
  backlog : ∀ i, ∀ x ∈ (σ.loops i).backlog, x.renews c = false
  others : ∀ i, i ≠ (σ.world.conns c).loop → ∀ x ∈ σ.todo i, x.renews c = false
  home : AtHome c σ.world (σ.todo (σ.world.conns c).loop)

section

variable {c : Nat} {w w' : World ι} {t : Task ι} {l rest new : List (Task ι)}

theorem idles_append (hnew : ∀ x ∈ new, x.Idles c) (hrest : ∀ x ∈ rest, x.Idles c) :
    ∀ x ∈ new ++ rest, x.Idles c := fun x hx => (List.mem_append.mp hx).elim (hnew x) (hrest x)

theorem Resting.keeps (h : Resting c w l) (hkeeps : w.Keeps c w') : Resting c w' l := by
  cases h with
  | quiet tracks idles => exact .quiet (tracks.keeps hkeeps) idles
  | delayed stack none untimed above_idles below_idles =>
    exact .delayed stack (none.keeps hkeeps) (hkeeps.isTimed.trans untimed) above_idles below_idles

theorem Resting.push (h : Resting c w l) (hnew : ∀ x ∈ new, x.Idles c) : Resting c w (new ++ l) := by
  cases h with
  | quiet tracks idles => exact .quiet tracks (idles_append hnew idles)
  | @delayed above below stack none untimed above_idles below_idles =>
    refine .delayed ?_ none untimed (idles_append hnew above_idles) below_idles
    rw [stack, List.append_assoc]

theorem Resting.pop (h : Resting c w (t :: rest)) (ht : t.Idles c) : Resting c w rest := by
  cases h with
  | quiet tracks idles => exact .quiet tracks fun x hx => idles x (List.mem_cons_of_mem _ hx)
  | @delayed above below stack none untimed above_idles below_idles =>
    cases above with
    | nil =>
      obtain ⟨rfl, rfl⟩ := List.cons.inj stack
      rcases ht with ht | ht
      · simp [Task.renews] at ht
      · cases ht
    | cons x above =>
      obtain ⟨rfl, rfl⟩ := List.cons.inj stack
      exact .delayed rfl none untimed (fun x hx => above_idles x (List.mem_cons_of_mem _ hx)) below_idles

theorem AtHome.resting (h : AtHome c w l)
    (hl : ∀ t below, l = t :: below → t.isLoopTask = true) : Resting c w l := by
  rcases h with hrest | ⟨rest, -, hway⟩
  · exact hrest
  · obtain ⟨t, below, heq, htop⟩ := hway.top
    rw [hl t below heq] at htop
    cases htop

theorem Resting.not_renews (h : Resting c w (t :: rest)) (ht : t.isLoopTask = true) :
    t.renews c = false := by
  have hupdate : t ≠ .conn c .updateTimer := by
    rintro rfl
    cases ht
  cases h with
  | quiet tracks idles => exact (idles t List.mem_cons_self).resolve_right hupdate
  | @delayed above below stack none untimed above_idles below_idles =>
    cases above with
    | nil =>
      obtain ⟨rfl, -⟩ := List.cons.inj stack
      cases ht
    | cons x above =>
      obtain ⟨rfl, -⟩ := List.cons.inj stack
      exact (above_idles t List.mem_cons_self).resolve_right hupdate

theorem AtHome.keeps (h : AtHome c w l) (hkeeps : w.Keeps c w')
    (hhome : w'.idleTimers c (w.conns c).loop = w.idleTimers c (w.conns c).loop) : AtHome c w' l :=
  h.imp (fun hrest => hrest.keeps hkeeps)
    fun ⟨rest, hidles, hway⟩ => ⟨rest, hidles, hway.keeps hkeeps hhome fun hfalse => hfalse.elim⟩

variable [DecidableEq ι] {who : ι} {k : Kernel}

/-- **The loop of the connection goes one step further.** -/
theorem AtHome.step (h : AtHome c w (t :: rest)) (hwho : who = (w.conns c).loop) (hat : t.AtLoop who)
    (hindexed : ∀ i, (w.timers i).Indexed) (hfresh : FreshAt w t)
    (hborn : t = .acceptorRead → w.server.connId ≠ c)
    (hconnecting : (w.conns c).state = .kConnecting → w.NoIdle c ∧ (w.conns c).isTimed = false ∧
      ∀ x ∈ rest, x.renews c = false)
    (hperform : VServer.perform who k w t = .ok (w', new)) : AtHome c w' (new ++ rest) := by
  -- a stack on the way stays on the way, or is at rest again
  have hway : ∀ {below : List (Task ι)}, (∀ x ∈ below, x.Idles c) →
      Renewing c 0 False w below (t :: rest) → AtHome c w' (new ++ rest) := by
    intro below hbelow hway
    rcases hway.step hwho hindexed hfresh (Nat.zero_le _) hperform with hway | ⟨heq, hrenewed⟩
    · exact .inr ⟨below, hbelow, hway⟩
    · rw [heq]
      exact .inl (.quiet hrenewed.tracks hbelow)
  rcases h with hrest | ⟨below, hbelow, hrenewing⟩
  · by_cases ht : t.renews c = false
    · obtain ⟨hkeeps, -⟩ := perform_keeps hperform hat ht hborn
      have hbelow := (hrest.pop (.inl ht)).keeps hkeeps
      rcases perform_renews hperform ht with hnew | ⟨-, ⟨-, rfl⟩ | ⟨-, hstate, rfl⟩⟩
      · exact .inl (hbelow.push fun x hx => .inl (hnew x hx))
      · refine .inl (hbelow.push ?_)
        simp [Task.Idles, Task.renews]
      · -- the first time, and nothing is there yet
        obtain ⟨hnone, huntimed, hquiet⟩ := hconnecting hstate
        have huser : ∀ x ∈ [(.user : Task ι)], x.Idles c := by simp [Task.Idles, Task.renews]
        exact .inl (.delayed rfl (hnone.keeps hkeeps) (hkeeps.isTimed.trans huntimed) huser
          fun x hx => .inl (hquiet x hx))
    · -- `updateTimer` without a timer does nothing
      have huntimed : t = .conn c .updateTimer → (w.conns c).isTimed = false → w' = w ∧ new = [] := by
        rintro rfl hfalse
        cases perform_conn_eq_ok hperform
        rw [hfalse]
        exact ⟨rfl, rfl⟩
      cases hrest with
      | quiet tracks idles =>
        have hbelow : ∀ x ∈ rest, x.Idles c := fun x hx => idles x (List.mem_cons_of_mem _ hx)
        have hupdate := (idles t List.mem_cons_self).resolve_left ht
        by_cases htimed : (w.conns c).isTimed = true
        · subst hupdate
          exact hway hbelow (.update (fun hfalse => hfalse.elim) htimed tracks)
        · obtain ⟨rfl, rfl⟩ := huntimed hupdate (Bool.eq_false_iff.mpr htimed)
          exact .inl (.quiet tracks hbelow)
      | @delayed above below stack none untimed above_idles below_idles =>
        cases above with
        | nil =>
          obtain ⟨rfl, rfl⟩ := List.cons.inj stack
          cases perform_conn_eq_ok hperform
          split_ifs
          · exact .inr ⟨rest, below_idles, .close (fun hfalse => hfalse.elim) none⟩
          · exact .inl (.quiet none.tracks below_idles)
        | cons x above =>
          obtain ⟨rfl, rfl⟩ := List.cons.inj stack
          have hupdate := (above_idles t List.mem_cons_self).resolve_left ht
          obtain ⟨rfl, rfl⟩ := huntimed hupdate untimed
          exact .inl (.delayed rfl none untimed
            (fun x hx => above_idles x (List.mem_cons_of_mem _ hx)) below_idles)
  · exact hway hbelow hrenewing

end

/-! ## Every step -/

/-- The user leaves the idle timer of connection `c` to the server, and a timer that is put in has an id
of its own. -/
def LeavesIdle [DecidableEq ι] (c : Nat) (σ : System ι) : Label ι → Prop
  | .call _ (.forceCloseAfter c' _) => c' ≠ c
  | label => FreshIds σ label

instance [DecidableEq ι] (c : Nat) (σ : System ι) (label : Label ι) :
    Decidable (LeavesIdle c σ label) := by
  unfold LeavesIdle
  rcases label with ⟨who, k⟩ | ⟨who, ⟨⟩⟩ | ⟨⟩ | ⟨⟩ | ⟨⟩ | ⟨⟩ | ⟨⟩ | ⟨⟩
  all_goals infer_instance

section

variable {c : Nat} {l l' : Link ι} {t : ConnTask ι} {life : List (ConnEvent ι)}

theorem LifeStep.isOpen (h : LifeStep l l' t life) (ht : t ≠ .setDisconnected)
    (hopen : l.conn.isOpen = true) : l'.conn.isOpen = true := by
  have hsame : l'.conn.state = l.conn.state → l'.conn.isOpen = true := by
    intro hstate
    unfold TcpConnection.isOpen at hopen ⊢
    rwa [hstate]
  cases h with
  | established connecting state registered => simp [TcpConnection.isOpen, state]
  | closed isOpen state unwatched registered => exact hsame state
  | removed registered conn gone => exact hsame (by rw [conn])
  | disconnected state channel registered => exact absurd rfl ht
  | disconnecting state channel registered => simp [TcpConnection.isOpen, state]
  | notified state unwatched registered => exact hsame state
  | destroyed state watched registered => exact hsame state
  | other ht state watched registered => exact hsame state

variable [DecidableEq ι] [Fintype ι] {σ σ' : System ι} {label : Label ι}

omit [Fintype ι] in
theorem LeavesIdle.freshIds (h : LeavesIdle c σ label) : FreshIds σ label := by
  unfold LeavesIdle at h
  split at h
  · trivial
  · exact h

theorem step_isOpen (hstep : σ.step label = .ok σ') (hlt : c < σ.world.server.connId)
    (hlabel : ∀ k, σ.performs label ≠ some (c, .setDisconnected, k))
    (hopen : (σ.world.conns c).isOpen = true) : (σ'.world.conns c).isOpen = true := by
  cases (step_move hstep).of_conn c with
  | @own who k t rest new events run todo alive step alive' connId seen total =>
    refine step.life.isOpen ?_ hopen
    rintro rfl
    refine hlabel k ?_
    rw [run]
    exact performs_of_todo todo
  | born fresh connId conn registered seen total alive' => omega
  | idle conn registered alive connId seen total =>
    rw [conn]
    exact hopen

theorem step_connecting (hinv : IdleInv c σ) (hstep : σ.step label = .ok σ')
    (hstate : (σ'.world.conns c).state = .kConnecting) : (σ.world.conns c).state = .kConnecting := by
  cases (step_move hstep).of_conn c with
  | own run todo alive step alive' connId seen total => exact (step.life.connecting hstate).1
  | born fresh connId conn registered seen total alive' => exact hinv.unborn (Nat.le_of_eq fresh.symm)
  | idle conn registered alive connId seen total => rwa [conn] at hstate

theorem step_unborn (hlife : LifeInv c σ) (hinv : IdleInv c σ) (hstep : σ.step label = .ok σ')
    (hle : σ'.world.server.connId ≤ c) : (σ'.world.conns c).state = .kConnecting := by
  cases (step_move hstep).of_conn c with
  | own run todo alive step alive' connId seen total =>
    have hlt := hlife.born alive
    omega
  | born fresh connId conn registered seen total alive' => omega
  | idle conn registered alive connId seen total =>
    rw [conn]
    refine hinv.unborn ?_
    by_contra hlt
    have := connId.mpr (by omega)
    omega

/-- A step that keeps the connection and its timer, and whose new tasks have nothing to do with it,
unless they are on the loop of the connection. -/
theorem IdleInv.frame (hlife : LifeInv c σ) (hinv : IdleInv c σ) (hstep : σ.step label = .ok σ')
    (hkeeps : (σ'.world.conns c).state = .kConnecting → σ.world.Keeps c σ'.world)
    (hloop : (σ'.world.conns c).loop = (σ.world.conns c).loop)
    (htodo : ∀ i, ∀ x ∈ σ'.todo i, x ∈ σ.todo i ∨ x.renews c = false ∨
      i = (σ.world.conns c).loop ∧ (σ'.world.conns c).state ≠ .kConnecting)
    (hbacklog : ∀ i, ∀ x ∈ (σ'.loops i).backlog, x ∈ (σ.loops i).backlog ∨ x.renews c = false)
    (hhome : AtHome c σ'.world (σ'.todo (σ.world.conns c).loop)) : IdleInv c σ' where
  unborn := step_unborn hlife hinv hstep
  fresh hstate := by
    obtain ⟨hnone, huntimed, hquiet⟩ := hinv.fresh (step_connecting hinv hstep hstate)
    have hquiet' : ∀ i, ∀ x ∈ σ'.todo i, x.renews c = false := by
      intro i x hx
      rcases htodo i x hx with hold | hnew | ⟨-, hne⟩
      · exact hquiet i x hold
      · exact hnew
      · exact absurd hstate hne
    have hkeeps := hkeeps hstate
    exact ⟨hnone.keeps hkeeps, hkeeps.isTimed.trans huntimed, hquiet'⟩
  backlog i x hx := (hbacklog i x hx).elim (hinv.backlog i x) id
  others i hi x hx := by
    rw [hloop] at hi
    rcases htodo i x hx with hold | hnew | ⟨heq, -⟩
    · exact hinv.others i hi x hold
    · exact hnew
    · exact absurd heq hi
  home := by
    rw [hloop]
    exact hhome

omit [DecidableEq ι] [Fintype ι] in
theorem IdleInv.loop_of_renews (hinv : IdleInv c σ) {i : ι} {x : Task ι} (hx : x ∈ σ.todo i)
    (hrenews : x.renews c ≠ false) :
    i = (σ.world.conns c).loop ∧ (σ.world.conns c).state ≠ .kConnecting := by
  refine ⟨?_, fun hstate => hrenews ((hinv.fresh hstate).2.2 i x hx)⟩
  by_contra hi
  exact hrenews (hinv.others i hi x hx)

theorem IdleInv.born (hlife : LifeInv c σ) (hinv : IdleInv c σ) (hstep : σ.step label = .ok σ')
    {who loop : ι} {rest : List (Task ι)} (htodo : σ.todo who = .acceptorRead :: rest)
    (hborn : Born c loop σ.world σ'.world) (htimers : σ'.world.timers = σ.world.timers)
    (hloops : σ'.loops = σ.loops)
    (htodo' : σ'.todo = Function.update σ.todo who
      ([runInLoop who loop (.conn c .connectEstablished)] ++ rest)) : IdleInv c σ' := by
  obtain ⟨hnone, -, hquiet⟩ := hinv.fresh (hinv.unborn (Nat.le_of_eq hborn.fresh.symm))
  obtain ⟨sockfd, -, hconn⟩ := hborn.conn
  have hnone' : σ'.world.NoIdle c := by
    intro i
    unfold World.idleTimers
    rw [htimers]
    exact hnone i
  have hquiet' : ∀ i, ∀ x ∈ σ'.todo i, x.renews c = false := by
    intro i x hx
    rw [htodo'] at hx
    by_cases hi : i = who
    · subst hi
      rw [Function.update_self, List.singleton_append, List.mem_cons] at hx
      rcases hx with rfl | hx
      · rw [renews_runInLoop]
        rfl
      · exact hquiet i x (htodo ▸ List.mem_cons_of_mem _ hx)
    · rw [Function.update_of_ne hi] at hx
      exact hquiet i x hx
  refine ⟨step_unborn hlife hinv hstep, fun _ => ⟨hnone', ?_, hquiet'⟩, fun i x hx => ?_,
    fun i _ => hquiet' i, .inl (.quiet hnone'.tracks fun x hx => .inl (hquiet' _ x hx))⟩
  · rw [hconn]
    exact TcpConnection.init_isTimed _ _ _
  · rw [hloops] at hx
    exact hinv.backlog i x hx

theorem established_of_start (hlife : LifeInv c σ) (hest : EstablishInv c σ) (hinv : IdleInv c σ)
    {who : ι} {k : Kernel} {t : ConnTask ι} {rest : List (Task ι)}
    (hstep : σ.step (.run who k) = .ok σ') (htodo : σ.todo who = .conn c t :: rest)
    (ht : t = .handleRead ∨ t = .connectEstablished) : (σ'.world.conns c).state ≠ .kConnecting := by
  intro hstate
  have hperforms : σ.performs (.run who k) = some (c, t, k) := performs_of_todo htodo
  obtain ⟨_, new, events, -, halive, hconn, -⟩ := step_own hstep hperforms
  rcases ht with rfl | rfl
  · exact hest.state_of_later (hlife.born halive) hperforms rfl (step_connecting hinv hstep hstate)
  · have hlifeStep := hconn.life
    generalize events.filter ConnEvent.isLife = life at hlifeStep
    cases hlifeStep with
    | established connecting state registered => cases state.symm.trans hstate
    | other ht state watched registered => cases ht

theorem IdleInv.perform (hlife : LifeInv c σ) (hest : EstablishInv c σ) (hat : TimersAtLoop σ)
    (hindexed : ∀ i, (σ.world.timers i).Indexed) (hinv : IdleInv c σ)
    {who : ι} {k : Kernel} {t : Task ι} {rest new : List (Task ι)} {w : World ι}
    (hfresh : FreshAt σ.world t) (htodo : σ.todo who = t :: rest)
    (hresult : VServer.perform who k σ.world t = .ok (w, new))
    (hstep : σ.step (.run who k) = .ok { σ with
      world := w, todo := Function.update σ.todo who (new ++ rest) }) :
    IdleInv c { σ with world := w, todo := Function.update σ.todo who (new ++ rest) } := by
  have htop : t ∈ σ.todo who := htodo ▸ List.mem_cons_self
  have hattop := hat who t (List.mem_append_left _ htop)
  by_cases hbirth : t = .acceptorRead ∧ σ.world.server.connId = c
  · obtain ⟨rfl, rfl⟩ := hbirth
    cases perform_cases hresult with
    | acceptorRead accept result =>
      obtain ⟨loop, hborn, rfl⟩ := newConnection_born result
      exact hinv.born hlife hstep htodo hborn (newConnection_timers result).1 rfl rfl
  have hborn : t = .acceptorRead → σ.world.server.connId ≠ c := fun ht hc => hbirth ⟨ht, hc⟩
  -- the loop is the same: nothing but its creation sets it
  have hloop : (w.conns c).loop = (σ.world.conns c).loop := by
    by_cases ht : t.renews c = false
    · exact (perform_keeps hresult hattop ht hborn).1.loop
    · obtain ⟨-, hstate⟩ := hinv.loop_of_renews htop ht
      refine (step_move hstep).loop_eq ?_
      by_contra hlt
      exact hstate (hinv.unborn (by omega))
  refine hinv.frame hlife hstep (fun hstate => ?_) hloop (fun i x hx => ?_) (fun i x hx => .inl hx) ?_
  · have ht : t.renews c = false :=
      (hinv.fresh (step_connecting hinv hstep hstate)).2.2 who t htop
    exact (perform_keeps hresult hattop ht hborn).1
  · dsimp only at hx
    by_cases hi : i = who
    · subst hi
      rw [Function.update_self] at hx
      rcases List.mem_append.mp hx with hx | hx
      · by_cases ht : t.renews c = false
        · rcases perform_renews hresult ht with hnew | ⟨hwho, ⟨rfl, -⟩ | ⟨rfl, -, -⟩⟩
          · exact .inr (.inl (hnew x hx))
          · exact .inr (.inr ⟨hwho, established_of_start hlife hest hinv hstep htodo (.inl rfl)⟩)
          · exact .inr (.inr ⟨hwho, established_of_start hlife hest hinv hstep htodo (.inr rfl)⟩)
        · obtain ⟨hwho, hstate⟩ := hinv.loop_of_renews htop ht
          exact .inr (.inr ⟨hwho, fun h => hstate (step_connecting hinv hstep h)⟩)
      · exact .inl (htodo ▸ List.mem_cons_of_mem _ hx)
    · rw [Function.update_of_ne hi] at hx
      exact .inl hx
  · by_cases hwho : who = (σ.world.conns c).loop
    · subst hwho
      show AtHome c w (Function.update σ.todo _ (new ++ rest) _)
      rw [Function.update_self]
      have hhome := hinv.home
      rw [htodo] at hhome
      refine hhome.step rfl hattop hindexed hfresh hborn (fun hstate => ?_) hresult
      obtain ⟨hnone, huntimed, hquiet⟩ := hinv.fresh hstate
      exact ⟨hnone, huntimed, fun x hx => hquiet _ x (htodo ▸ List.mem_cons_of_mem _ hx)⟩
    · have ht := hinv.others who hwho t htop
      obtain ⟨hkeeps, hidle⟩ := perform_keeps hresult hattop ht hborn
      show AtHome c w (Function.update σ.todo who (new ++ rest) _)
      rw [Function.update_of_ne (Ne.symm hwho)]
      exact hinv.home.keeps hkeeps (hidle _ (Ne.symm hwho))

theorem IdleInv.of_turn (hlife : LifeInv c σ) (hinv : IdleInv c σ)
    (hleaves : LeavesIdle c σ label) (hstep : σ.step label = .ok σ') (hturn : Turn label σ σ')
    (hperform : ∀ who k t rest new w, label = .run who k → σ.todo who = t :: rest →
      VServer.perform who k σ.world t = .ok (w, new) →
      σ' = { σ with world := w, todo := Function.update σ.todo who (new ++ rest) } → IdleInv c σ') :
    IdleInv c σ' := by
  -- the world has not changed, and the stack of one thread is exchanged
  have hexchange : ∀ {who : ι} {rest new : List (Task ι)}, σ'.world = σ.world →
      σ'.todo = Function.update σ.todo who (new ++ rest) → (∀ x ∈ rest, x ∈ σ.todo who) →
      (∀ x ∈ new, x.renews c = false) →
      (∀ i, ∀ x ∈ (σ'.loops i).backlog, x ∈ (σ.loops i).backlog ∨ x.renews c = false) →
      (who = (σ.world.conns c).loop → Resting c σ.world rest) → IdleInv c σ' := by
    intro who rest new hworld htodo' hrest hnew hbacklog hhome
    refine hinv.frame hlife hstep (fun _ => ?_) (by rw [hworld]) (fun i x hx => ?_) hbacklog ?_
    · rw [hworld]
      exact .refl c _
    · rw [htodo'] at hx
      by_cases hi : i = who
      · subst hi
        rw [Function.update_self] at hx
        exact (List.mem_append.mp hx).symm.imp (hrest x) fun hx => .inl (hnew x hx)
      · rw [Function.update_of_ne hi] at hx
        exact .inl hx
    · rw [hworld, htodo']
      by_cases hwho : who = (σ.world.conns c).loop
      · rw [← hwho, Function.update_self]
        exact .inl ((hhome hwho).push fun x hx => .inl (hnew x hx))
      · rw [Function.update_of_ne (Ne.symm hwho)]
        exact hinv.home
  cases hturn with
  | perform run todo result after => exact hperform _ _ _ _ _ _ run todo result after
  | @loop who t rest new todo loopTask hnew backlog world todo' =>
    have hhome : who = (σ.world.conns c).loop → Resting c σ.world (t :: rest) := by
      rintro rfl
      rw [← todo]
      refine hinv.home.resting fun t' below htop => ?_
      obtain ⟨rfl, -⟩ := List.cons.inj (todo.symm.trans htop)
      exact loopTask
    have ht : t.renews c = false := by
      by_cases hwho : who = (σ.world.conns c).loop
      · exact (hhome hwho).not_renews loopTask
      · exact hinv.others who hwho t (todo ▸ List.mem_cons_self)
    refine hexchange world todo' (fun x hx => todo ▸ List.mem_cons_of_mem _ hx) (fun x hx => ?_)
      (fun i x hx => ?_) fun hwho => (hhome hwho).pop (.inl ht)
    · obtain ⟨loop, rfl⟩ := hnew x hx
      rfl
    · refine (backlog i x hx).imp id ?_
      rintro rfl
      exact ht
  | @call who call label' inUserCode world loops todo' =>
    have hnew : ∀ x ∈ [call.task who], x.renews c = false := by
      refine List.forall_mem_singleton.mpr (renews_call ?_)
      rintro ms rfl
      rw [label'] at hleaves
      exact hleaves rfl
    refine hexchange world todo' (fun x hx => hx) hnew (fun i x hx => ?_) ?_
    · rw [loops] at hx
      exact .inl hx
    · rintro rfl
      refine hinv.home.resting fun t below htop => ?_
      rw [top_of_userCode inUserCode htop]
      rfl
  | @next loop calls todo hcalls backlog world todo' =>
    have hnil : ∀ x ∈ ([] : List (Task ι)), x ∈ σ.todo loop := nofun
    refine hexchange world (by rw [todo', List.append_nil]) hnil
      (fun x hx => hinv.backlog loop x (hcalls x hx)) (fun i x hx => .inl (backlog i x hx)) ?_
    rintro rfl
    rw [← todo]
    refine hinv.home.resting fun t below htop => ?_
    rw [todo] at htop
    cases htop
  | @poll loop active todo backlog world todo' =>
    refine hinv.frame hlife hstep (fun _ => ?_) (by rw [world]) (fun i x hx => ?_) (fun i x hx => ?_) ?_
    · rw [world]
      exact .refl c _
    · rw [todo'] at hx
      exact .inl hx
    · refine (backlog i x hx).imp id ?_
      rintro ⟨-, a, -, rfl⟩
      exact renews_active _ a
    · rw [world, todo']
      exact hinv.home
  | outside clock conns timers table server loops todo' =>
    obtain ⟨hkeeps, hidle⟩ := @World.keeps_of_timers _ c _ _ conns clock timers
    refine hinv.frame hlife hstep (fun _ => hkeeps) hkeeps.loop (fun i x hx => ?_) (fun i x hx => ?_) ?_
    · rw [todo'] at hx
      exact .inl hx
    · rw [loops] at hx
      exact .inl hx
    · rw [todo']
      exact hinv.home.keeps hkeeps (hidle _)

/-- All that is known of connection `c`, of the timers, and of its idle timer. -/
structure IdleState (c : Nat) (σ : System ι) : Prop where
  life : LifeInv c σ
  registered : Registered σ
  established : EstablishInv c σ
  routed : Routed c σ
  down : DownInv c σ
  alone : DownsAlone c σ
  atLoop : TimersAtLoop σ
  indexed : ∀ i, (σ.world.timers i).Indexed
  idle : IdleInv c σ

theorem start_idleState (baseLoop : ι) (ioLoops : List ι) (delay clock : Nat) (count : UInt64) :
    IdleState c (System.start baseLoop ioLoops delay clock count) where
  life := start_lifeInv baseLoop ioLoops delay clock count
  registered := start_registered baseLoop ioLoops delay clock count
  established := start_establishInv baseLoop ioLoops delay clock count
  routed := start_routed baseLoop ioLoops delay clock count
  down := start_downInv baseLoop ioLoops delay clock count
  alone := start_downsAlone baseLoop ioLoops delay clock count
  atLoop := by
    intro i x hx
    cases hx
  indexed _ := ⟨List.nodup_nil, fun _ _ => by simp [System.start, TimerManager.init]⟩
  idle := by
    have hnone : (System.start baseLoop ioLoops delay clock count).world.NoIdle c := fun _ => rfl
    exact ⟨fun _ => rfl, fun _ => ⟨hnone, TcpConnection.init_isTimed _ _ _, nofun⟩, nofun, nofun,
      .inl (.quiet hnone.tracks nofun)⟩

theorem step_idleState (hstate : IdleState c σ) (hleaves : LeavesIdle c σ label)
    (hstep : σ.step label = .ok σ') : IdleState c σ' := by
  have hmove := step_move hstep
  have hturn := step_turn hstep
  refine {
    life := step_lifeInv hstate.life hstep
    registered := hmove.registered hstate.registered
    established := step_establishInv hstate.life hstate.registered hstate.established hstep
    routed := hmove.routed hstate.routed
    down := step_downInv hstate.life hstate.down hstep
    alone := hmove.downsAlone hstate.established hstate.routed hstate.down hstate.alone
    atLoop := hturn.atLoop hstate.atLoop
    indexed := hturn.indexed hstate.atLoop hleaves.freshIds hstate.indexed
    idle := hstate.idle.of_turn hstate.life hleaves hstep hturn ?_ }
  intro who k t rest new w hrun htodo hresult hafter
  subst hrun hafter
  exact hstate.idle.perform hstate.life hstate.established hstate.atLoop hstate.indexed
    (hleaves.freshIds.freshAt htodo) htodo hresult hstep

theorem run_idleState {baseLoop : ι} {ioLoops : List ι} {delay clock : Nat} {count : UInt64}
    {labels : List (Label ι)}
    (halong : Machine.Along System.step (LeavesIdle c)
      (System.start baseLoop ioLoops delay clock count) labels)
    (hrun : Machine.run System.step (System.start baseLoop ioLoops delay clock count) labels = .ok σ) :
    IdleState c σ :=
  Machine.run_inv (fun _ _ _ hinv hleaves hstep => step_idleState hinv hleaves hstep)
    (start_idleState baseLoop ioLoops delay clock count) halong hrun

/-! ## After a read -/

/-- The step does not call `m_messageCallback` of connection `c`. -/
def NoCallback (c : Nat) (σ : System ι) (label : Label ι) : Prop :=
  (σ.performs label).map (fun p => (p.1, p.2.1)) ≠ some (c, .messageCallback)

instance (c : Nat) (σ : System ι) (label : Label ι) : Decidable (NoCallback c σ label) := by
  unfold NoCallback
  infer_instance

/-- From the read at time `since` on to the message callback. -/
structure RenewalInv (c since : Nat) (who : ι) (rest : List (Task ι)) (σ : System ι) : Prop where
  born : c < σ.world.server.connId
  loop : who = (σ.world.conns c).loop
  clock : since ≤ σ.world.clock
  stage : Renewing c since True σ.world (.conn c .messageCallback :: rest) (σ.todo who) ∨
    σ.todo who = .conn c .messageCallback :: rest ∧ Renewed c since True σ.world

section

variable {since : Nat} {who : ι} {rest : List (Task ι)}

theorem step_lt_connId (hstep : σ.step label = .ok σ') (hlt : c < σ.world.server.connId) :
    c < σ'.world.server.connId := by
  cases (step_move hstep).of_conn c with
  | own run todo alive step alive' connId seen total => omega
  | born fresh connId conn registered seen total alive' => omega
  | idle conn registered alive connId seen total => exact connId.mpr hlt

omit [DecidableEq ι] [Fintype ι] in
theorem RenewalInv.top (hinv : RenewalInv c since who rest σ) :
    ∃ t below, σ.todo who = t :: below ∧ t.isLoopTask = false := by
  rcases hinv.stage with hway | ⟨hdone, -⟩
  · exact hway.top
  · exact ⟨_, _, hdone, rfl⟩

omit [DecidableEq ι] [Fintype ι] in
theorem RenewalInv.away (hinv : RenewalInv c since who rest σ) (hborn : c < σ'.world.server.connId)
    (hkeeps : σ.world.Keeps c σ'.world)
    (hidle : σ'.world.idleTimers c who = σ.world.idleTimers c who)
    (hopen : (σ.world.conns c).isOpen = true → (σ'.world.conns c).isOpen = true)
    (htodo : σ'.todo who = σ.todo who) : RenewalInv c since who rest σ' := by
  obtain ⟨-, hloop, hclock, hstage⟩ := hinv
  rw [hloop] at hidle
  refine ⟨hborn, hloop.trans hkeeps.loop.symm, Nat.le_trans hclock hkeeps.clock, ?_⟩
  rw [htodo]
  exact hstage.imp (fun hway => hway.keeps hkeeps hidle fun _ => hopen)
    fun hdone => ⟨hdone.1, hdone.2.keeps hkeeps hidle⟩

/-- **Every step up to the message callback** keeps to the renewal. -/
theorem RenewalInv.step (hstate : IdleState c σ) (hinv : RenewalInv c since who rest σ)
    (hleaves : LeavesIdle c σ label)
    (hcallback : NoCallback c σ label) (hstep : σ.step label = .ok σ') : RenewalInv c since who rest σ' := by
  obtain ⟨t₀, below, htop, hnoLoop⟩ := hinv.top
  have hborn' := step_lt_connId hstep hinv.born
  -- the step is one of another thread, and has not touched the world
  have hsame : σ'.world = σ.world → σ'.todo who = σ.todo who → RenewalInv c since who rest σ' := by
    intro hworld htodo
    refine hinv.away hborn' ?_ (by rw [hworld]) (by rw [hworld]; exact id) htodo
    rw [hworld]
    exact .refl c _
  cases step_turn hstep with
  | @perform who' k t rest' new w run todo result after =>
    subst run after
    have htask : t ∈ σ.todo who' := todo ▸ List.mem_cons_self
    have hat := hstate.atLoop who' t (List.mem_append_left _ htask)
    by_cases hwho : who' = who
    · subst hwho
      rcases hinv.stage with hway | ⟨hdone, -⟩
      · rw [todo] at hway
        refine ⟨hborn', hinv.loop.trans ((step_move hstep).loop_eq hinv.born).symm, ?_, ?_⟩
        · exact Nat.le_trans hinv.clock (Nat.le_of_eq (perform_timers result hat).1.symm)
        · show Renewing c since True w _ (Function.update σ.todo who' (new ++ rest') who') ∨
            Function.update σ.todo who' (new ++ rest') who' = _ ∧ _
          rw [Function.update_self]
          exact hway.step hinv.loop hstate.indexed (hleaves.freshIds.freshAt todo) hinv.clock result
      · obtain ⟨rfl, -⟩ := List.cons.inj (todo.symm.trans hdone)
        unfold NoCallback at hcallback
        rw [performs_of_todo todo] at hcallback
        exact absurd rfl hcallback
    · have haway : who' ≠ (σ.world.conns c).loop := fun h => hwho (h.trans hinv.loop.symm)
      have ht := hstate.idle.others who' haway t htask
      have hborn : t = .acceptorRead → σ.world.server.connId ≠ c := fun _ =>
        (Nat.ne_of_lt hinv.born).symm
      obtain ⟨hkeeps, hidle⟩ := perform_keeps result hat ht hborn
      refine hinv.away hborn' hkeeps (hidle who (Ne.symm hwho))
        (step_isOpen hstep hinv.born fun k' hperforms => ?_) (Function.update_of_ne (Ne.symm hwho) _ _)
      -- `connectDestroyed` is on the loop of the connection
      obtain ⟨i, below', hlabel, htodo⟩ := performs_eq_some hperforms
      cases hlabel
      have htorn := hstate.alone who' .setDisconnected (htodo ▸ List.mem_cons_self) rfl
      exact haway (htorn.home nofun)
  | @loop who' t rest' new todo loopTask hnew backlog world todo' =>
    refine hsame world ?_
    rw [todo']
    refine Function.update_of_ne ?_ _ _
    rintro rfl
    obtain ⟨rfl, -⟩ := List.cons.inj (todo.symm.trans htop)
    rw [loopTask] at hnoLoop
    cases hnoLoop
  | @call who' call label' inUserCode world loops todo' =>
    refine hsame world ?_
    rw [todo']
    refine Function.update_of_ne ?_ _ _
    rintro rfl
    rw [top_of_userCode inUserCode htop] at hnoLoop
    cases hnoLoop
  | @next loop calls todo hcalls backlog world todo' =>
    refine hsame world ?_
    rw [todo']
    refine Function.update_of_ne ?_ _ _
    rintro rfl
    rw [todo] at htop
    cases htop
  | @poll loop active todo backlog world todo' => exact hsame world (by rw [todo'])
  | outside clock conns timers table server loops todo' =>
    obtain ⟨hkeeps, hidle⟩ := @World.keeps_of_timers _ c _ _ conns clock timers
    exact hinv.away hborn' hkeeps (hidle who) (by rw [conns]; exact id) (by rw [todo'])

/-- In state `σ`, `handleRead` receives something on connection `c`, which is open; `labels` lead to the
message callback of this read. -/
structure Reads (c : Nat) (σ : System ι) (labels : List (Label ι)) (σ' : System ι) : Prop where
  isOpen : (σ.world.conns c).isOpen = true
  run : Machine.run System.step σ labels = .ok σ'
  before : Machine.Along System.step (NoCallback c) σ labels
  received : ∃ who k data more rest, labels = .run who k :: more ∧ k.readv = some data ∧
    data.take (σ.world.conns c).inputBuffer.raw.offered ≠ [] ∧
    σ.todo who = .conn c .handleRead :: rest ∧ σ'.todo who = .conn c .messageCallback :: rest

/-- One timer is pending to close connection `c`, and it expires `m_delay` after time `since`, or a later
time. -/
def IdleRenewed (c since : Nat) (w : World ι) : Prop :=
  ∃ timer, w.OneIdle c timer ∧ w.MadeSince c since timer

omit [DecidableEq ι] [Fintype ι] in
theorem AtHome.tracks {w : World ι} (h : AtHome c w (.conn c .handleRead :: rest)) :
    w.TracksIdle c := by
  rcases h with hrest | ⟨below, -, hway⟩
  · cases hrest with
    | quiet tracks idles => exact tracks
    | delayed stack none untimed above_idles below_idles => exact none.tracks
  · cases hway

theorem IdleState.read (hstate : IdleState c σ) {k : Kernel} {data : List Byte}
    (hopen : (σ.world.conns c).isOpen = true) (htimed : (σ.world.conns c).isTimed = true)
    (hreadv : k.readv = some data)
    (hdata : data.take (σ.world.conns c).inputBuffer.raw.offered ≠ [])
    (htodo : σ.todo who = .conn c .handleRead :: rest) (hstep : σ.step (.run who k) = .ok σ') :
    RenewalInv c σ.world.clock who rest σ' := by
  obtain ⟨halive, w, new, hperform, rfl⟩ := step_conn_eq_ok htodo hstep
  have hborn := hstate.life.born halive
  have hopen' : (w.conns c).isOpen = true := by
    refine step_isOpen hstep hborn (fun k' h => ?_) hopen
    rw [performs_of_todo htodo] at h
    cases h
  obtain ⟨hwho, hread⟩ := withLoop_eq_ok hperform
  rw [hreadv] at hread
  dsimp only at hread
  rw [if_neg hdata] at hread
  obtain ⟨rfl, rfl⟩ := Prod.mk.inj (Except.ok.inj hread)
  have hreceive : ∀ data, σ.world.Keeps c (σ.world.putConn c ((σ.world.conns c).receive data) []) :=
    fun data => keeps_putConn rfl rfl rfl
  have hkeeps := hreceive (data.take (σ.world.conns c).inputBuffer.raw.offered)
  have hhome := hstate.idle.home
  rw [← hwho, htodo] at hhome
  refine ⟨hborn, hwho.trans hkeeps.loop.symm, Nat.le_refl _, .inl ?_⟩
  dsimp only
  rw [Function.update_self]
  exact .update (fun _ => hopen') (hkeeps.isTimed.trans htimed) (hhome.tracks.keeps hkeeps)

/-- **Activity renews the idle timer** at every read that finds `(int)m_timerId != -1`: when the message
callback is called, one forced-close timer is pending, and it was made after the read. -/
theorem idle_renewed {baseLoop : ι} {ioLoops : List ι} {delay clock : Nat} {count : UInt64}
    {labels more : List (Label ι)}
    (halong : Machine.Along System.step (LeavesIdle c)
      (System.start baseLoop ioLoops delay clock count) labels)
    (hrun : Machine.run System.step (System.start baseLoop ioLoops delay clock count) labels = .ok σ)
    (hmore : Machine.Along System.step (LeavesIdle c) σ more) (hreads : Reads c σ more σ')
    (htimed : (σ.world.conns c).isTimed = true) : IdleRenewed c σ.world.clock σ'.world := by
  have hstate := run_idleState halong hrun
  obtain ⟨hopen, hreadrun, hbefore, who, k, data, later, rest, rfl, hreadv, hdata, htodo, htodo'⟩ := hreads
  obtain ⟨σ₁, hread, hlater⟩ := Machine.run_cons_inv hreadrun
  have hstate₁ := step_idleState hstate hmore.1 hread
  have hinv₁ := hstate.read hopen htimed hreadv hdata htodo hread
  obtain ⟨-, hinv⟩ := Machine.run_inv
    (I := fun τ => IdleState c τ ∧ RenewalInv c σ.world.clock who rest τ)
    (fun _ _ _ hinv hlabel hstep => ⟨step_idleState hinv.1 hlabel.1 hstep,
      hinv.2.step hinv.1 hlabel.1 hlabel.2 hstep⟩)
    ⟨hstate₁, hinv₁⟩ ((hmore.2 σ₁ hread).and (hbefore.2 σ₁ hread)) hlater
  rcases hinv.stage with hway | ⟨-, hrenewed⟩
  · rw [htodo'] at hway
    cases hway
  · exact hrenewed.renewed trivial

end

end

/-- The one loop accepts a connection, whose idle timer is armed, and one second later something
arrives. -/
def arrivalRun : List (Label (Fin 1)) :=
  acceptRun ++ [Label.ret 0] ++ Label.runs 0 6 ++ [Label.tick (10 ^ 9), .next 0, .next 0] ++
    [Label.poll 0 [.conn 0 Epoll.epollIn], .next 0] ++ Label.runs 0 1

/-- `handleRead` reads two bytes, and the loop performs the next `n` tasks. -/
def receiveRun (n : Nat) : List (Label (Fin 1)) := .run 0 ⟨some [1, 2], none, none⟩ :: Label.runs 0 n

/-- `receiveRun n` reads, leaves the timer to the server, and ends before the message callback in a state
that satisfies `P`. -/
def receives (n : Nat) (P : System (Fin 1) → Bool) (σ : System (Fin 1)) : Bool :=
  decide ((σ.world.conns 0).isOpen = true ∧ 0 < (σ.world.conns 0).inputBuffer.raw.offered ∧
    σ.todo 0 = [.conn 0 .handleRead, .conn 0 .writeCallback]) &&
  Machine.check System.step (LeavesIdle 0) σ (receiveRun n) &&
  Machine.check System.step (NoCallback 0) σ (receiveRun n) &&
  match Machine.run System.step σ (receiveRun n) with
  | .ok σ' => decide (σ'.todo 0 = [.conn 0 .messageCallback, .conn 0 .writeCallback]) && P σ'
  | .error _ => false

theorem reads_of_receives {n : Nat} {P : System (Fin 1) → Bool} {σ : System (Fin 1)}
    (h : receives n P σ = true) : Machine.Along System.step (LeavesIdle 0) σ (receiveRun n) ∧
      ∃ σ', Reads 0 σ (receiveRun n) σ' ∧ P σ' = true := by
  unfold receives at h
  simp only [Bool.and_eq_true, decide_eq_true_eq] at h
  obtain ⟨⟨⟨⟨hopen, hoffered, htodo⟩, hleaves⟩, hbefore⟩, hrun⟩ := h
  refine ⟨Machine.along_of_check hleaves, ?_⟩
  split at hrun
  · rename_i σ' hσ'
    rw [Bool.and_eq_true, decide_eq_true_eq] at hrun
    refine ⟨σ', ⟨hopen, hσ', Machine.along_of_check hbefore, 0, _, [1, 2], _, _, rfl, rfl, ?_, htodo,
      hrun.1⟩, hrun.2⟩
    rw [ne_eq, List.take_eq_nil_iff, not_or]
    exact ⟨by omega, List.cons_ne_nil _ _⟩
  · cases hrun

theorem idle_renewed_arrival :
    ∃ σ σ', Machine.run System.step (System.start (0 : Fin 1) [] 5000 0 0) arrivalRun = .ok σ ∧
      Reads 0 σ (receiveRun 7) σ' ∧ IdleRenewed 0 σ.world.clock σ'.world := by
  obtain ⟨σ, hrun, hobserved⟩ := eq_ok_of_toOption (b := true)
    (f := fun σ : System (Fin 1) => (σ.world.conns 0).isTimed && receives 7 (fun _ => true) σ)
    (x := Machine.run System.step (System.start 0 [] 5000 0 0) arrivalRun) (by decide +kernel)
  obtain ⟨htimed, hreceives⟩ := Bool.and_eq_true_iff.mp hobserved
  obtain ⟨hmore, σ', hreads, -⟩ := reads_of_receives hreceives
  exact ⟨σ, σ', hrun, hreads,
    idle_renewed (Machine.along_of_check (by decide +kernel)) hrun hmore hreads htimed⟩

/-- The low half of the first id is taken for the mark that there is no timer: the read leaves the old
timer, which is due one second too early. -/
theorem idle_not_renewed :
    ¬ ∀ (delay clock : Nat) (count : UInt64) (labels more : List (Label (Fin 1)))
      (σ σ' : System (Fin 1)), 0 < delay →
      Machine.Along System.step (LeavesIdle 0) (System.start 0 [] delay clock count) labels →
      Machine.run System.step (System.start 0 [] delay clock count) labels = .ok σ →
      Machine.Along System.step (LeavesIdle 0) σ more → Reads 0 σ more σ' →
      IdleRenewed 0 σ.world.clock σ'.world := by
  intro h
  obtain ⟨σ, hrun, hobserved⟩ := eq_ok_of_toOption (b := true)
    (f := fun σ : System (Fin 1) => decide (σ.world.clock = 10 ^ 9) &&
      receives 1 (fun σ' => decide (σ'.world.clock = 10 ^ 9 ∧ (σ'.world.conns 0).delay = 5000 ∧
        (σ'.world.idleTimers 0 0).map (·.expire) = [5000])) σ)
    (x := Machine.run System.step (System.start 0 [] 5000 0 (UInt64.ofNat (2 ^ 32 - 2))) arrivalRun)
    (by decide +kernel)
  obtain ⟨hclock, hreceives⟩ := Bool.and_eq_true_iff.mp hobserved
  obtain ⟨hmore, σ', hreads, hafter⟩ := reads_of_receives hreceives
  have hclock : σ.world.clock = 10 ^ 9 := of_decide_eq_true hclock
  obtain ⟨hclock', hdelay, hexpire⟩ := of_decide_eq_true hafter
  obtain ⟨timer, hone, t, hsince, hle, hmade⟩ := h 5000 0 _ arrivalRun (receiveRun 1) σ σ' (by omega)
    (Machine.along_of_check (by decide +kernel)) hrun hmore hreads
  -- the one timer that is pending would have been made at the time of the read
  have ht : t = 10 ^ 9 := by omega
  have hhome : σ'.world.idleTimers 0 0 = [timer] := by
    rw [← hone.home]
    congr 1
    exact Subsingleton.elim _ _
  rw [hhome, List.map_singleton, List.singleton_inj, hmade, ht, hdelay] at hexpire
  revert hexpire
  decide

end VServer

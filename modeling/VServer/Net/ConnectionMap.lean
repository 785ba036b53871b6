import VServer.Http.RoundTrip
import VServer.Lib.Simulation
import VServer.Net.Moves

/-!
# The names of the connections

`m_connections` of `TcpServer.h` is a map from names to connections. `newConnection` makes up a name
from the number of the connection, and `removeConnectionInLoop` asks the connection for its name
again. `Net.TcpServer` has the numbers in place of the names; here is the map itself, which follows
every run of the system (`connections_named`).
-/

namespace VServer

open Http Machine

/-- The names, and what `TcpServer` keeps of them. -/
structure ConnectionMap where
  /-- `m_name` of the server -/
  serverName : List Byte
  connId : Nat
  /-- `m_name` of each connection -/
  name : Nat → List Byte
  connections : List Byte → Option Nat

/-- What is done to the map, and for which connection. -/
inductive MapCall where
  | newConnection (conn : Nat)
  | removeConnectionInLoop (conn : Nat)
  deriving DecidableEq, Repr

namespace ConnectionMap

def hash : Byte := 35

/-- `m_name + buf`, when `snprintf` has put `"#%d"` into the 32 bytes of `buf`. -/
def connName (serverName : List Byte) (connId : Nat) : List Byte :=
  serverName ++ (hash :: numberText connId).take 31

def init (serverName : List Byte) : ConnectionMap := ⟨serverName, 0, fun _ => [], fun _ => none⟩

def step (m : ConnectionMap) : MapCall → Except Halt ConnectionMap
  | .newConnection conn =>
    let connName := connName m.serverName m.connId
    -- `m_connId ++` on an `int`
    if m.connId + 1 < 2 ^ 31 then
      .ok { m with
        connId := m.connId + 1
        name := Function.update m.name conn connName
        connections := Function.update m.connections connName (some conn) }
    else .error (.fault .undefined)
  | .removeConnectionInLoop conn =>
    match m.connections (m.name conn) with
    | some _ => .ok { m with connections := Function.update m.connections (m.name conn) none }
    | none => .error (.fault (.assertion .removeConnectionInLoop))

/-! ## Names -/

theorem connName_eq (serverName : List Byte) {connId : Nat} (hlt : connId < 2 ^ 31) :
    connName serverName connId = serverName ++ hash :: numberText connId := by
  have hlength : (numberText connId).length ≤ 10 :=
    length_numberText_le (by decide) (lt_trans hlt (by decide))
  rw [connName, List.take_of_length_le]
  rw [List.length_cons]
  omega

theorem connName_inj {serverName : List Byte} {c c' : Nat} (hc : c < 2 ^ 31) (hc' : c' < 2 ^ 31)
    (h : connName serverName c = connName serverName c') : c = c' := by
  rw [connName_eq serverName hc, connName_eq serverName hc'] at h
  have htext := List.cons.inj (List.append_cancel_left h)
  rw [← decimal_numberText c, htext.2, decimal_numberText]

/-! ## The map and the numbers -/

/-- The map holds the connections with these numbers. -/
structure Holds (m : ConnectionMap) (serverName : List Byte) (connId : Nat) (connections : Nat → Bool) :
    Prop where
  server : m.serverName = serverName
  next : m.connId = connId
  small : connId < 2 ^ 31
  named : ∀ c < connId, m.name c = connName serverName c
  born : ∀ c, connections c = true → c < connId
  found : ∀ key c, m.connections key = some c ↔ connections c = true ∧ key = connName serverName c

variable {m : ConnectionMap} {serverName : List Byte} {connId : Nat} {connections : Nat → Bool} {c : Nat}

theorem init_holds (serverName : List Byte) : (init serverName).Holds serverName 0 fun _ => false where
  server := rfl
  next := rfl
  small := by decide
  named _ hc := absurd hc (Nat.not_lt_zero _)
  born _ hc := by simp at hc
  found key c := by simp [init]

theorem Holds.eq_none (h : m.Holds serverName connId connections) (hlt : c < 2 ^ 31)
    (hgone : connections c = false) : m.connections (connName serverName c) = none := by
  cases hfound : m.connections (connName serverName c) with
  | none => rfl
  | some c' =>
    obtain ⟨hregistered, hname⟩ := (h.found _ _).mp hfound
    have hsmall := h.small
    obtain rfl := connName_inj hlt ((h.born _ hregistered).trans hsmall) hname
    rw [hregistered] at hgone
    cases hgone

theorem Holds.newConnection (h : m.Holds serverName connId connections) (hlt : connId + 1 < 2 ^ 31) :
    ∃ m', m.step (.newConnection connId) = .ok m' ∧
      m'.Holds serverName (connId + 1) (Function.update connections connId true) := by
  have hfree := h.eq_none h.small (Bool.eq_false_iff.mpr fun hc => lt_irrefl _ (h.born _ hc))
  obtain ⟨hserver, hnext, hsmall, hnamed, hborn, hfound⟩ := h
  refine ⟨_, if_pos (by rw [hnext]; exact hlt), ?_⟩
  rw [hserver, hnext]
  refine ⟨rfl, rfl, hlt, fun c hc => ?_, fun c hc => ?_, fun key c => ?_⟩
  · rcases Nat.lt_succ_iff_lt_or_eq.mp hc with hold | rfl
    · exact (Function.update_of_ne hold.ne _ _).trans (hnamed c hold)
    · exact Function.update_self _ _ _
  · rcases eq_or_ne c connId with rfl | hne
    · exact Nat.lt_succ_self c
    · rw [Function.update_of_ne hne] at hc
      exact (hborn c hc).trans (Nat.lt_succ_self _)
  · show Function.update m.connections (connName serverName connId) (some connId) key = some c ↔ _
    rcases eq_or_ne key (connName serverName connId) with rfl | hkey
    · rw [Function.update_self, Option.some_inj]
      refine ⟨?_, fun ⟨hc, hname⟩ => ?_⟩
      · rintro rfl
        exact ⟨Function.update_self _ _ _, rfl⟩
      · rcases eq_or_ne c connId with rfl | hne
        · rfl
        · rw [Function.update_of_ne hne] at hc
          exact connName_inj hsmall ((hborn c hc).trans hsmall) hname
    · rw [Function.update_of_ne hkey, hfound]
      rcases eq_or_ne c connId with rfl | hne
      · simp [hkey]
      · rw [Function.update_of_ne hne]

theorem Holds.removeConnectionInLoop (h : m.Holds serverName connId connections)
    (hregistered : connections c = true) :
    ∃ m', m.step (.removeConnectionInLoop c) = .ok m' ∧
      m'.Holds serverName connId (Function.update connections c false) := by
  obtain ⟨hserver, hnext, hsmall, hnamed, hborn, hfound⟩ := h
  have hname := hnamed c (hborn c hregistered)
  have hthere : m.connections (m.name c) = some c := (hfound _ _).mpr ⟨hregistered, hname⟩
  refine ⟨{ m with connections := Function.update m.connections (m.name c) none },
    by simp only [step, hthere], ?_⟩
  rw [hname]
  refine ⟨hserver, hnext, hsmall, hnamed, fun c' hc' => ?_, fun key c' => ?_⟩
  · rcases eq_or_ne c' c with rfl | hne
    · exact hborn c' hregistered
    · rw [Function.update_of_ne hne] at hc'
      exact hborn c' hc'
  · show Function.update m.connections (connName serverName c) none key = some c' ↔ _
    rcases eq_or_ne key (connName serverName c) with rfl | hkey
    · rw [Function.update_self]
      refine ⟨fun hnone => by simp at hnone, fun ⟨hc', heq⟩ => ?_⟩
      rcases eq_or_ne c' c with rfl | hne
      · simp at hc'
      · rw [Function.update_of_ne hne] at hc'
        have hlt := (hborn c' hc').trans hsmall
        exact absurd (connName_inj hlt ((hborn c hregistered).trans hsmall) heq.symm) hne
    · rw [Function.update_of_ne hkey, hfound]
      rcases eq_or_ne c' c with rfl | hne
      · simp [hkey]
      · rw [Function.update_of_ne hne]

theorem Holds.removed_twice (h : m.Holds serverName connId connections) (hlt : c < connId) :
    m.step (.removeConnectionInLoop c) = .error (.fault (.assertion .removeConnectionInLoop)) ↔
      connections c = false := by
  refine ⟨fun hfault => ?_, fun hgone => ?_⟩
  · by_contra hregistered
    obtain ⟨m', hstep, -⟩ := h.removeConnectionInLoop (eq_true_of_ne_false hregistered)
    rw [hstep] at hfault
    cases hfault
  · have hnone := h.eq_none (hlt.trans h.small) hgone
    rw [← h.named c hlt] at hnone
    simp only [step, hnone]

end ConnectionMap

/-! ## Along a run of the system -/

variable {ι : Type} [DecidableEq ι]

/-- What the task on top does to the map. -/
def System.mapCall (σ : System ι) : Label ι → Option MapCall
  | .run who _ =>
    match σ.todo who with
    | .acceptorRead :: _ => some (.newConnection σ.world.server.connId)
    | .conn c .removeConnectionInLoop :: _ => some (.removeConnectionInLoop c)
    | _ => none
  | _ => none

theorem newConnection_small {who : ι} {w w' : World ι} {fd : Nat} {new : List (Task ι)}
    (h : newConnection who w fd = .ok (w', new)) : w.server.connId + 1 < 2 ^ 31 := by
  unfold newConnection at h
  split_ifs at h
  split at h
  · cases h
  dsimp only at h
  split_ifs at h with hsmall
  exact hsmall

theorem ConnStep.registered_eq {who base : ι} {k : Kernel} {c : Nat} {l l' : Link ι} {t : ConnTask ι}
    {events : List (ConnEvent ι)} {new : List (Task ι)} (h : ConnStep who k base c l t l' events new) :
    (t = .removeConnectionInLoop ∧ l.registered = true ∧ l'.registered = false) ∨
      (t ≠ .removeConnectionInLoop ∧ l'.registered = l.registered) := by
  cases h with
  | removeConnectionInLoop loop registered => exact .inl ⟨rfl, registered, rfl⟩
  | _ => exact .inr ⟨by simp, rfl⟩

abbrev System.Mapped (serverName : List Byte) (σ : System ι) (m : ConnectionMap) : Prop :=
  m.Holds serverName σ.world.server.connId σ.world.server.connections

theorem System.Mapped.step [Fintype ι] {serverName : List Byte} {σ σ' : System ι} {m : ConnectionMap}
    {label : Label ι} (h : σ.Mapped serverName m) (hstep : σ.step label = .ok σ') :
    (σ.mapCall label = none ∧ σ'.Mapped serverName m) ∨
      ∃ call m', σ.mapCall label = some call ∧ m.step call = .ok m' ∧ σ'.Mapped serverName m' := by
  cases step_cases hstep with
  | @perform who k t rest new w todo result =>
    cases perform_cases result with
    | @conn c t w new alive result =>
      obtain ⟨events, hconn, hframed⟩ := performConn_spec result
      have hothers : ∀ b, w.server.connections c = b →
          w.server.connections = Function.update σ.world.server.connections c b := by
        intro b hb
        funext c'
        rcases eq_or_ne c' c with rfl | hne
        · rw [Function.update_self, hb]
        · rw [Function.update_of_ne hne, hframed.connections c' hne]
      rcases hconn.registered_eq with ⟨rfl, hregistered, hgone⟩ | ⟨hother, hsame⟩
      · obtain ⟨m', hcall, hholds⟩ := h.removeConnectionInLoop hregistered
        refine .inr ⟨_, m', by simp [System.mapCall, todo], hcall, ?_⟩
        rw [System.Mapped, hframed.connId, hothers _ hgone]
        exact hholds
      · refine .inl ⟨?_, ?_⟩
        · cases t with
          | removeConnectionInLoop => exact absurd rfl hother
          | _ => simp [System.mapCall, todo]
        · have hstays : w.server.connections c = σ.world.server.connections c := hsame
          rw [System.Mapped, hframed.connId, hothers _ hstays, Function.update_eq_self]
          exact h
    | @acceptorRead fd w new accept result =>
      have hsmall := newConnection_small result
      obtain ⟨loop, hborn, -⟩ := newConnection_born result
      obtain ⟨m', hcall, hholds⟩ := h.newConnection hsmall
      refine .inr ⟨_, m', by simp [System.mapCall, todo], hcall, ?_⟩
      rw [System.Mapped, hborn.connId, hborn.connections]
      exact hholds
    | _ => exact .inl ⟨by simp [System.mapCall, todo], h⟩
  | queueInLoop todo | wakeup todo | quit todo | wakeupRead todo =>
    exact .inl ⟨by simp [System.mapCall, todo], h⟩
  | _ => exact .inl ⟨rfl, h⟩

/-- **A connection is found under its name.** The map of the names goes along with every run of the
system, and no step of it fails before the same step of the system does. A name is never cut off, and
no two connections have the same one; it leads to the connection that has it for as long as the server
has not removed it, and the second `erase` of a connection is the one that finds nothing. -/
theorem connections_named [Fintype ι] {baseLoop : ι} {ioLoops : List ι} {delay clock : Nat}
    {count : UInt64} (serverName : List Byte) {labels : List (Label ι)} {σ : System ι}
    (hrun : run System.step (System.start baseLoop ioLoops delay clock count) labels = .ok σ) :
    ∃ m, run ConnectionMap.step (.init serverName)
        (collect System.step (fun σ label => (σ.mapCall label).toList)
          (System.start baseLoop ioLoops delay clock count) labels) = .ok m ∧
      (∀ c < σ.world.server.connId, m.name c = serverName ++ ConnectionMap.hash :: numberText c) ∧
      (∀ c < σ.world.server.connId, ∀ c' < σ.world.server.connId, m.name c = m.name c' → c = c') ∧
      (∀ key c, m.connections key = some c ↔
        c < σ.world.server.connId ∧ σ.world.server.connections c = true ∧ key = m.name c) ∧
      ∀ c < σ.world.server.connId,
        m.step (.removeConnectionInLoop c) = .error (.fault (.assertion .removeConnectionInLoop)) ↔
          σ.world.server.connections c = false := by
  have hstart : (System.start baseLoop ioLoops delay clock count).Mapped serverName
      (.init serverName) := ConnectionMap.init_holds serverName
  have hsim : ∀ (σ : System ι) (m : ConnectionMap) (label : Label ι) (σ' : System ι),
      σ.Mapped serverName m → True → σ.step label = .ok σ' →
        (σ.mapCall label = none ∧ σ'.Mapped serverName m) ∨
          ∃ call m', σ.mapCall label = some call ∧ m.step call = .ok m' ∧ σ'.Mapped serverName m' :=
    fun _ _ _ _ h _ hstep => h.step hstep
  obtain ⟨m, hmap, hmapped⟩ := run_simulation (P := fun _ _ => True) hsim hstart
    (along_of_forall (fun _ _ => trivial) labels) hrun
  refine ⟨m, hmap, fun c hc => ?_, fun c hc c' hc' hname => ?_, fun key c => ?_,
    fun c hc => hmapped.removed_twice hc⟩
  · rw [hmapped.named c hc, ConnectionMap.connName_eq serverName (hc.trans hmapped.small)]
  · rw [hmapped.named c hc, hmapped.named c' hc'] at hname
    exact ConnectionMap.connName_inj (hc.trans hmapped.small) (hc'.trans hmapped.small) hname
  · rw [hmapped.found]
    constructor
    · rintro ⟨hregistered, rfl⟩
      have hborn := hmapped.born c hregistered
      exact ⟨hborn, hregistered, (hmapped.named c hborn).symm⟩
    · rintro ⟨hborn, hregistered, rfl⟩
      exact ⟨hregistered, hmapped.named c hborn⟩

def twoComeRun : List (Label (Fin 1)) :=
  acceptRun ++ [Label.ret 0] ++ Label.runs 0 1 ++ [Label.next 0, .next 0] ++
    [Label.poll 0 [.acceptor], .next 0, .run 0 ⟨none, none, some 6⟩] ++ Label.runs 0 1 ++
    [Label.ret 0] ++ Label.runs 0 1 ++ [Label.next 0, .next 0] ++
    [Label.poll 0 [.conn 0 Epoll.epollHup], .next 0] ++ Label.runs 0 6 ++
    [Label.next 0, .next 0, .next 0] ++ Label.runs 0 3 ++ [Label.ret 0] ++ Label.runs 0 1

theorem connections_named_two :
    ∃ (σ : System (Fin 1)) (m : ConnectionMap),
      run System.step (System.start 0 [] 0 0 0) twoComeRun = .ok σ ∧
      m.name 0 = bytes "http#0" ∧ m.name 1 = bytes "http#1" ∧
      (∀ c, m.connections (bytes "http#0") ≠ some c) ∧ m.connections (bytes "http#1") = some 1 := by
  obtain ⟨σ, hrun, hserver⟩ := eq_ok_of_toOption (b := (2, false, true))
    (f := fun σ : System (Fin 1) =>
      (σ.world.server.connId, σ.world.server.connections 0, σ.world.server.connections 1))
    (x := run System.step (System.start 0 [] 0 0 0) twoComeRun) (by decide +kernel)
  obtain ⟨hconnId, hrest⟩ := Prod.mk.inj hserver
  obtain ⟨hgone, hthere⟩ := Prod.mk.inj hrest
  obtain ⟨m, -, hnames, hdistinct, hfound, -⟩ := connections_named (bytes "http") hrun
  rw [hconnId] at hnames hdistinct
  have hfirst : m.name 0 = bytes "http#0" := (hnames 0 (by decide)).trans (by decide +kernel)
  have hsecond : m.name 1 = bytes "http#1" := (hnames 1 (by decide)).trans (by decide +kernel)
  refine ⟨σ, m, hrun, hfirst, hsecond, fun c hc => ?_, (hfound _ _).mpr ⟨?_, hthere, hsecond.symm⟩⟩
  · -- only the first connection has that name, and it is gone
    obtain ⟨hborn, hregistered, hname⟩ := (hfound _ _).mp hc
    rw [hconnId] at hborn
    obtain rfl := hdistinct c hborn 0 (by decide) (hname.symm.trans hfirst.symm)
    rw [hgone] at hregistered
    cases hregistered
  · rw [hconnId]
    decide

end VServer

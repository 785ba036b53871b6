import VServer.Lib.Line
import VServer.Lib.Machine
import VServer.Lib.Window
import VServer.Net.Poller

/-!
# The list of events of a poller

`Poller::wait` (`Poller.cc`): `epoll_wait` writes to the front of `m_events`, `fillActiveChannels`
reads it there, and a wait that fills the list doubles it. What does not fit is left for the next
wait; the kernel goes round those who are ready, so that nobody is left behind for ever. A `Polling`
is the list and the line in which the kernel keeps the ready channels.
-/

namespace VServer

open Storage Machine

/-- `struct epoll_event` -/
structure EpollEvent (κ : Type) where
  /-- `data.ptr` -/
  ptr : Option κ
  events : BitVec 32
  deriving DecidableEq, Repr

/-- What `epoll_wait` answers: the events it writes, or -1. -/
inductive EpollAnswer (κ : Type) where
  | ready (found : List (κ × BitVec 32))
  | failed

namespace Poller

def kInitEventListSize : Nat := 16

section

variable {κ : Type}

def noEvent : EpollEvent κ := ⟨none, 0⟩

/-- `m_events(kInitEventListSize)` -/
def initEvents : List (EpollEvent κ) := List.replicate kInitEventListSize noEvent

/-- The channels that were pushed, each with its `revents`; the pointer is followed. -/
def fillActiveChannels (events : List (EpollEvent κ)) : Nat → Except Fault (List (κ × BitVec 32))
  | 0 => .ok []
  | i + 1 => do
    let activeChannels ← fillActiveChannels events i
    match events[i]? with
    | some ⟨some channel, revents⟩ => return activeChannels ++ [(channel, revents)]
    | _ => .error .undefined

/-- What `wait` returns, `activeChannels` and `m_events`. -/
def wait (events : List (EpollEvent κ)) :
    EpollAnswer κ → Except Fault (Int × List (κ × BitVec 32) × List (EpollEvent κ))
  | .failed => .ok (-1, [], events)
  | .ready found =>
    match overwrite events 0 (found.map fun e => ⟨some e.1, e.2⟩) with
    | some events => do
      let numEvents := found.length
      if 0 < numEvents then
        let activeChannels ← fillActiveChannels events numEvents
        let events :=
          if numEvents = events.length then resize events (events.length * 2) noEvent else events
        return (numEvents, activeChannels, events)
      else return (0, [], events)
    | none => .error .undefined

/-! ## One wait -/

theorem fillActiveChannels_eq {events : List (EpollEvent κ)} {found : List (κ × BitVec 32)}
    (hfront : events.take found.length = found.map fun e => ⟨some e.1, e.2⟩) {i : Nat}
    (hi : i ≤ found.length) : fillActiveChannels events i = .ok (found.take i) := by
  induction i with
  | zero => rfl
  | succ i ih =>
    have hlt : i < found.length := hi
    have hevent : events[i]? = some ⟨some found[i].1, found[i].2⟩ := by
      rw [← List.getElem?_take_of_lt hlt, hfront]
      simp [hlt]
    rw [fillActiveChannels, ih hlt.le, ok_bind, hevent, List.take_add_one,
      List.getElem?_eq_getElem hlt]
    rfl

/-- All that the kernel has found is reported, and a list that was full is twice as long. -/
theorem wait_spec (events : List (EpollEvent κ)) {found : List (κ × BitVec 32)}
    (hfits : found.length ≤ events.length) :
    ∃ events', wait events (.ready found) = .ok (found.length, found, events') ∧
      events'.length = if found.length = events.length then events.length * 2 else events.length := by
  obtain ⟨written, hwritten⟩ : ∃ written, overwrite events 0
      (found.map fun e => (⟨some e.1, e.2⟩ : EpollEvent κ)) = some written :=
    ⟨_, overwrite_eq_some (by simpa using hfits)⟩
  have hlength := length_overwrite hwritten
  have hfront : written.take found.length = found.map fun e => ⟨some e.1, e.2⟩ := by
    simpa [window] using window_overwrite hwritten
  have hfill : fillActiveChannels written found.length = .ok found := by
    rw [fillActiveChannels_eq hfront le_rfl, List.take_length]
  rcases Nat.eq_zero_or_pos found.length with hnone | hsome
  · obtain rfl := List.length_eq_zero_iff.mp hnone
    refine ⟨written, ?_, ?_⟩
    · simp only [wait, hwritten]
      rfl
    · rw [hlength]
      split_ifs
      · simp_all
      · rfl
  · refine ⟨if found.length = written.length then resize written (written.length * 2) noEvent
      else written, ?_, ?_⟩
    · simp only [wait, hwritten, if_pos hsome, hfill]
      rfl
    · rw [hlength]
      split_ifs
      · exact length_resize _ _ _
      · exact hlength

end

end Poller

/-! ## Wait after wait -/

/-- The list, and the line of those who are ready, as the kernel keeps it. -/
structure Polling (κ : Type) where
  events : List (EpollEvent κ)
  ready : List κ

namespace Polling

/-- A wait, with the events that are reported; one that a signal ends; and what happens between two
waits, in the loop and elsewhere. -/
inductive Label (κ : Type) where
  | wait (revents : κ → BitVec 32)
  | interrupted
  | change (c : Line.Change κ)

variable {κ : Type} [DecidableEq κ]

/-- `Poller(loop)` -/
def init : Polling κ := ⟨Poller.initEvents, []⟩

variable (p : Polling κ)

/-- What the kernel finds in a wait: as many as it is offered room for, from the front of the line. -/
def found (revents : κ → BitVec 32) : List (κ × BitVec 32) :=
  (p.ready.take p.events.length).map fun x => (x, revents x)

def step : Label κ → Except Halt (Polling κ)
  | .wait revents =>
    match Poller.wait p.events (.ready (p.found revents)) with
    | .ok (_, _, events) => .ok ⟨events, Line.serve p.events.length p.ready⟩
    | .error f => .error (.fault f)
  | .interrupted =>
    match Poller.wait p.events .failed with
    | .ok (_, _, events) => .ok { p with events := events }
    | .error f => .error (.fault f)
  | .change c =>
    if c.Fits p.ready then .ok { p with ready := c.apply p.ready } else .error .disabled

/-- The channels that a step hands to the loop. -/
def reported : Label κ → List κ
  | .wait revents =>
    match Poller.wait p.events (.ready (p.found revents)) with
    | .ok (_, activeChannels, _) => activeChannels.map Prod.fst
    | .error _ => []
  | .interrupted | .change _ => []

/-- How many waits were not ended by a signal. -/
def waits : List (Label κ) → Nat
  | [] => 0
  | .wait _ :: labels => waits labels + 1
  | _ :: labels => waits labels

variable {p} {p' : Polling κ} {label : Label κ}

omit [DecidableEq κ] in
theorem length_found (revents : κ → BitVec 32) :
    (p.found revents).length = min p.events.length p.ready.length := by
  rw [found, List.length_map, List.length_take]

inductive Step (p : Polling κ) : Label κ → Polling κ → Prop
  | wait {revents : κ → BitVec 32} {events : List (EpollEvent κ)}
      (reported : p.reported (.wait revents) = p.ready.take p.events.length)
      (room : events.length =
        if p.events.length ≤ p.ready.length then p.events.length * 2 else p.events.length) :
    Step p (.wait revents) ⟨events, Line.serve p.events.length p.ready⟩
  | interrupted : Step p .interrupted p
  | change {c : Line.Change κ} (fits : c.Fits p.ready) :
    Step p (.change c) { p with ready := c.apply p.ready }

omit [DecidableEq κ] in
theorem wait_found (p : Polling κ) (revents : κ → BitVec 32) :
    ∃ events, Poller.wait p.events (.ready (p.found revents)) =
        .ok ((p.found revents).length, p.found revents, events) ∧
      events.length =
        if p.events.length ≤ p.ready.length then p.events.length * 2 else p.events.length := by
  have hlength := p.length_found revents
  have hfits : (p.found revents).length ≤ p.events.length := by omega
  obtain ⟨events, hwait, hroom⟩ := Poller.wait_spec p.events hfits
  refine ⟨events, hwait, ?_⟩
  rw [hroom, hlength]
  simp only [min_eq_left_iff]

omit [DecidableEq κ] in
theorem reported_wait (p : Polling κ) (revents : κ → BitVec 32) :
    p.reported (.wait revents) = p.ready.take p.events.length := by
  obtain ⟨events, hwait, -⟩ := p.wait_found revents
  simp only [reported, hwait]
  rw [found, List.map_map]
  exact List.map_id' _

theorem step_inv (h : p.step label = .ok p') : Step p label p' := by
  cases label with
  | wait revents =>
    obtain ⟨events, hwait, hroom⟩ := p.wait_found revents
    simp only [step, hwait] at h
    cases h
    exact .wait (p.reported_wait revents) hroom
  | interrupted =>
    cases h
    exact .interrupted
  | change c =>
    simp only [step] at h
    split_ifs at h with hfits
    cases h
    exact .change hfits

theorem step_ne_fault (p : Polling κ) (label : Label κ) (f : Fault) : p.step label ≠ .error (.fault f) := by
  intro h
  cases label with
  | wait revents =>
    obtain ⟨events, hwait, -⟩ := p.wait_found revents
    simp [step, hwait] at h
  | interrupted => simp [step, Poller.wait] at h
  | change c =>
    simp only [step] at h
    split_ifs at h
    simp at h

/-! ## How long the list gets -/

/-- The list has doubled some times, and it was full each time. -/
structure Inv (p : Polling κ) : Prop where
  doubled : ∃ j, p.events.length = Poller.kInitEventListSize * 2 ^ j
  nodup : p.ready.Nodup

omit [DecidableEq κ] in
theorem init_inv : Inv (init : Polling κ) where
  doubled := ⟨0, by simp [init, Poller.initEvents]⟩
  nodup := List.nodup_nil

theorem Inv.step (hinv : Inv p) (h : p.step label = .ok p') : Inv p' := by
  obtain ⟨⟨j, hj⟩, hnodup⟩ := hinv
  cases step_inv h with
  | wait reported room =>
    refine ⟨?_, (Line.serve_perm _ _).nodup_iff.mpr hnodup⟩
    simp only [room]
    split_ifs
    · exact ⟨j + 1, by rw [hj, pow_succ, mul_assoc]⟩
    · exact ⟨j, hj⟩
  | interrupted => exact ⟨⟨j, hj⟩, hnodup⟩
  | change fits => exact ⟨⟨j, hj⟩, Line.nodup_apply hnodup fits⟩

theorem run_keeps_inv {s t : Polling κ} (hs : Inv s) {labels : List (Label κ)} (hrun : run Polling.step s labels = .ok t) :
    Inv t :=
  run_inv (P := fun _ _ => True) (fun _ _ _ hinv _ hstep => hinv.step hstep) hs
    (along_of_forall (fun _ _ => trivial) labels) hrun

omit [DecidableEq κ] in
theorem Inv.initial_le (hinv : Inv p) : Poller.kInitEventListSize ≤ p.events.length := by
  obtain ⟨j, hj⟩ := hinv.doubled
  rw [hj]
  exact Nat.le_mul_of_pos_right _ (Nat.two_pow_pos j)

theorem step_events_le (h : p.step label = .ok p') :
    p'.events.length ≤ max p.events.length (2 * p'.ready.length) := by
  cases step_inv h with
  | wait reported room =>
    have hready := (Line.serve_perm p.events.length p.ready).length_eq
    simp only [room, hready]
    split_ifs
    all_goals omega
  | interrupted | change => exact le_max_left _ _

/-- **What a wait costs and what it gives.** Nothing in a wait is undefined, whoever is ready. The
list has always doubled some times, and never holds more than twice as many events as there were
channels ready at one time. A wait hands each channel that fits to the loop, once, and all of them
when the list is long enough. -/
theorem event_list_bounded {labels : List (Label κ)} :
    (∀ f, run step init labels ≠ .error (.fault f)) ∧
      ∀ t : Polling κ, run step init labels = .ok t →
        (∃ j, t.events.length = Poller.kInitEventListSize * 2 ^ j) ∧
          t.events.length ≤ max Poller.kInitEventListSize
            (2 * peak step (fun s => s.ready.length) init labels) ∧
          ∀ revents, (t.reported (.wait revents)).Nodup ∧
            t.reported (.wait revents) = t.ready.take t.events.length := by
  refine ⟨fun f h => ?_, fun t hrun => ?_⟩
  · obtain ⟨_, label, _, s, -, -, hfault⟩ := run_eq_error h
    exact s.step_ne_fault label f hfault
  · have hinv := run_keeps_inv init_inv hrun
    have htwice : Monotone fun n : Nat => 2 * n := fun _ _ hle => Nat.mul_le_mul_left 2 hle
    obtain ⟨hpeak, -, -⟩ := run_le_peak (P := fun _ _ => True) (m := fun s : Polling κ => s.ready.length)
      (z := fun s => s.events.length) (I := fun _ => True) htwice (fun _ _ _ _ _ _ => trivial)
      (fun _ _ _ _ _ hstep => step_events_le hstep) trivial
      (along_of_forall (fun _ _ => trivial) labels) hrun
    have hinit : (init : Polling κ).events.length = Poller.kInitEventListSize := by
      simp [init, Poller.initEvents]
    rw [hinit] at hpeak
    refine ⟨hinv.doubled, hpeak, fun revents => ?_⟩
    rw [t.reported_wait revents]
    exact ⟨hinv.nodup.sublist (List.take_sublist _ _), rfl⟩

/-! ## Nobody is left behind -/

/-- One who stays ready and is not reported: after each wait the list is twice as long, and there are
fewer in front by as many as it held. -/
theorem unreported {s t : Polling κ} {x : κ} {labels : List (Label κ)} (hrun : run step s labels = .ok t)
    (hready : x ∈ s.ready) (hstays : ∀ c, Label.change c ∈ labels → c.leaves x = false)
    (hmissed : x ∉ collect step reported s labels) :
    s.events.length * (2 ^ waits labels - 1) ≤ s.ready.idxOf x := by
  induction labels generalizing s with
  | nil => simp [waits]
  | cons label labels ih =>
    obtain ⟨s', hstep, hrest⟩ := run_cons_inv hrun
    have hlater : ∀ c, Label.change c ∈ labels → c.leaves x = false := fun c hc =>
      hstays c (List.mem_cons_of_mem _ hc)
    rw [collect, hstep, List.mem_append, not_or] at hmissed
    obtain ⟨hnow, hafter⟩ := hmissed
    cases step_inv hstep with
    | wait reported room =>
      have hwaits : s.events.length ≤ s.ready.idxOf x := by
        by_contra hlt
        rw [reported] at hnow
        exact hnow ((List.mem_take_iff_idxOf_lt hready).mpr (by omega))
      have hfull : s.events.length ≤ s.ready.length :=
        hwaits.trans (List.idxOf_lt_length_of_mem hready).le
      have hplace := Line.idxOf_serve hready hwaits
      have hle := ih hrest ((Line.serve_perm _ _).mem_iff.mpr hready) hlater hafter
      simp only [room, if_pos hfull] at hle
      -- n * (2 * 2 ^ k - 1) = n + 2 * n * (2 ^ k - 1)
      obtain ⟨m, hm⟩ := Nat.exists_eq_add_of_lt (Nat.two_pow_pos (waits labels))
      rw [waits, pow_succ]
      rw [hm] at hle ⊢
      simp only [Nat.zero_add, Nat.add_sub_cancel] at hle ⊢
      rw [show (m + 1) * 2 - 1 = 1 + 2 * m by omega, Nat.mul_add, ← Nat.mul_assoc]
      omega
    | interrupted => exact ih hrest hready hlater hafter
    | change fits =>
      have hleaves := hstays _ List.mem_cons_self
      have hle := ih hrest (Line.mem_apply hready hleaves) hlater hafter
      exact hle.trans (Line.idxOf_apply_le hready hleaves)

/-- **Every channel that is ready has its turn, soon.** Whoever stands in the line behind fewer than
`16 * (2 ^ k - 1)` others, and stays ready, is handed to the loop in one of the next `k` waits, whoever
else comes and goes. -/
theorem reported_in_turn {s t : Polling κ} {x : κ} {before after : List (Label κ)}
    (hbefore : run step init before = .ok s) (hafter : run step s after = .ok t) (hready : x ∈ s.ready)
    (hstays : ∀ c, Label.change c ∈ after → c.leaves x = false)
    (hlong : s.ready.idxOf x < Poller.kInitEventListSize * (2 ^ waits after - 1)) :
    x ∈ collect step reported s after := by
  by_contra hmissed
  have hplace := unreported hafter hready hstays hmissed
  have hlength := (run_keeps_inv init_inv hbefore).initial_le
  have hmany := Nat.mul_le_mul_right (2 ^ waits after - 1) hlength
  omega

/-- The last of twenty is behind the list in the first wait and on it in the second. -/
theorem reported_in_turn_second :
    19 ∈ collect step reported (⟨Poller.initEvents, List.range 20⟩ : Polling Nat)
      [.wait fun _ => Epoll.epollIn, .interrupted, .wait fun _ => Epoll.epollIn] := by
  have hbefore : run step init [Label.change ⟨fun _ => false, List.range 20⟩] =
      .ok (⟨Poller.initEvents, List.range 20⟩ : Polling Nat) := rfl
  exact reported_in_turn (t := ⟨_, _⟩) hbefore rfl (by decide) (by simp) (by decide)

end Polling

end VServer

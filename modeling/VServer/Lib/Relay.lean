import Mathlib

/-!
# Many senders, one server, and a queue between them

Messages of the senders `ι` are accepted, wait in the lane of a thread, and are done by one of the
threads, the `server`. A sender that is not the server keeps a message in its own lane until it hands
it over to the lane of the server, and has at most one there. The messages of a sender are done in
the order in which they were accepted (`Step.ordered`, `Ordered.prefix`).
-/

/-- What was accepted, what was done, and what waits in which lane, each message with its sender. -/
structure Relay (ι β : Type*) where
  accepted : List (ι × β)
  done : List (ι × β)
  lanes : ι → List (ι × β)

namespace Relay

variable {ι β : Type*} [DecidableEq ι]

/-- The messages of one sender. -/
def of (sender : ι) (messages : List (ι × β)) : List β :=
  messages.filterMap fun p => if p.1 = sender then some p.2 else none

section

variable {sender other : ι} {m : β} {messages messages' : List (ι × β)}

@[simp] theorem of_nil : of sender ([] : List (ι × β)) = [] := rfl

@[simp] theorem of_append : of sender (messages ++ messages') = of sender messages ++ of sender messages' :=
  List.filterMap_append

@[simp] theorem of_cons_self : of sender ((sender, m) :: messages) = m :: of sender messages := by
  simp [of]

theorem of_cons_of_ne (h : other ≠ sender) : of sender ((other, m) :: messages) = of sender messages := by
  simp [of, h]

theorem of_eq_nil (h : ∀ m, (sender, m) ∉ messages) : of sender messages = [] := by
  apply List.filterMap_eq_nil_iff.mpr
  rintro ⟨s, m⟩ hp
  refine if_neg ?_
  rintro rfl
  exact h m hp

theorem of_eq_map (h : ∀ p ∈ messages, p.1 = sender) : of sender messages = messages.map Prod.snd := by
  unfold of
  rw [List.filterMap_congr (g := fun p => some p.2) fun p hp => if_pos (h p hp),
    List.filterMap_eq_map']

theorem mem_of {p : ι × β} (hp : p ∈ messages) : p.2 ∈ of p.1 messages :=
  List.mem_filterMap.mpr ⟨p, hp, if_pos rfl⟩

end

inductive Step (server : ι) (r : Relay ι β) : Relay ι β → Prop
  /-- nothing -/
  | idle {r' : Relay ι β} (accepted : r'.accepted = r.accepted) (done : r'.done = r.done)
      (lanes : ∀ i, r'.lanes i = r.lanes i) : Step server r r'
  /-- it is accepted, by a thread that has none of its own in its lane -/
  | accept {r' : Relay ι β} {who : ι} {m : β} (free : ∀ m, (who, m) ∉ r.lanes who)
      (accepted : r'.accepted = r.accepted ++ [(who, m)]) (done : r'.done = r.done)
      (lane : r'.lanes who = (who, m) :: r.lanes who)
      (lanes : ∀ i, i ≠ who → r'.lanes i = r.lanes i) : Step server r r'
  /-- it goes from the lane of its sender to the lane of the server -/
  | hand {r' : Relay ι β} {who : ι} {m : β} {rest : List (ι × β)} (away : who ≠ server)
      (lane : r.lanes who = (who, m) :: rest) (accepted : r'.accepted = r.accepted)
      (done : r'.done = r.done) (lane' : r'.lanes who = rest)
      (queue : r'.lanes server = r.lanes server ++ [(who, m)])
      (lanes : ∀ i, i ≠ who → i ≠ server → r'.lanes i = r.lanes i) : Step server r r'
  /-- it is done -/
  | serve {r' : Relay ι β} {sender : ι} {m : β} {rest : List (ι × β)}
      (lane : r.lanes server = (sender, m) :: rest) (accepted : r'.accepted = r.accepted)
      (done : r'.done = r.done ++ [(sender, m)]) (lane' : r'.lanes server = rest)
      (lanes : ∀ i, i ≠ server → r'.lanes i = r.lanes i) : Step server r r'

/-- What the sender has waiting, in the order in which it will be done. -/
def waiting (server sender : ι) (r : Relay ι β) : List β :=
  of sender (r.lanes server) ++ if sender = server then [] else of sender (r.lanes sender)

/-- Every message accepted is done or waits, in order. -/
structure Ordered (server : ι) (r : Relay ι β) : Prop where
  order : ∀ sender, of sender r.accepted = of sender r.done ++ waiting server sender r
  /-- Away from the server a lane has only messages of its own thread. -/
  own : ∀ i, i ≠ server → ∀ p ∈ r.lanes i, p.1 = i

variable {server : ι} {r r' : Relay ι β}

theorem Ordered.prefix (h : Ordered server r) (sender : ι) :
    of sender r.done <+: of sender r.accepted := by
  rw [h.order sender]
  exact List.prefix_append _ _

theorem waiting_eq {sender : ι} (h : ∀ i, of sender (r'.lanes i) = of sender (r.lanes i)) :
    waiting server sender r' = waiting server sender r := by
  unfold waiting
  rw [h, h]

theorem Step.ordered (h : Step server r r') (hr : Ordered server r) : Ordered server r' := by
  obtain ⟨horder, hown⟩ := hr
  cases h with
  | idle accepted done lanes =>
    refine ⟨fun sender => ?_, fun i hi => ?_⟩
    · rw [accepted, done, horder sender, waiting_eq fun i => by rw [lanes]]
    · rw [lanes]
      exact hown i hi
  | @accept who m free accepted done lane lanes =>
    have hempty : of who (r.lanes who) = [] := of_eq_nil free
    refine ⟨fun sender => ?_, fun i hi p hp => ?_⟩
    · by_cases hsender : who = sender
      · -- the new message is the last one that waits
        subst hsender
        have hwaiting : waiting server who r' = waiting server who r ++ [m] := by
          unfold waiting
          by_cases hserver : who = server
          · subst hserver
            simp [lane, hempty]
          · rw [if_neg hserver, if_neg hserver, lane, lanes server (Ne.symm hserver), of_cons_self,
              hempty, List.append_nil]
        rw [accepted, done, of_append, horder who, hwaiting, List.append_assoc, of_cons_self, of_nil]
      · rw [accepted, done, of_append, horder sender, of_cons_of_ne hsender, of_nil, List.append_nil,
          waiting_eq]
        intro i
        by_cases hi : i = who
        · rw [hi, lane, of_cons_of_ne hsender]
        · rw [lanes i hi]
    · by_cases hi' : i = who
      · subst hi'
        rw [lane] at hp
        rcases List.mem_cons.mp hp with rfl | hp
        · rfl
        · exact hown i hi p hp
      · rw [lanes i hi'] at hp
        exact hown i hi p hp
  | @hand who m rest away lane accepted done lane' queue lanes =>
    refine ⟨fun sender => ?_, fun i hi p hp => ?_⟩
    · rw [accepted, done, horder sender]
      congr 1
      by_cases hsender : who = sender
      · subst hsender
        unfold waiting
        rw [if_neg away, if_neg away, lane, lane', queue, of_cons_self, of_append, of_cons_self, of_nil,
          List.append_assoc]
        rfl
      · refine (waiting_eq fun i => ?_).symm
        by_cases hi : i = who
        · rw [hi, lane, lane', of_cons_of_ne hsender]
        · by_cases hserver : i = server
          · rw [hserver, queue, of_append, of_cons_of_ne hsender, of_nil, List.append_nil]
          · rw [lanes i hi hserver]
    · by_cases hi' : i = who
      · subst hi'
        rw [lane'] at hp
        exact hown i hi p (by rw [lane]; exact List.mem_cons_of_mem _ hp)
      · rw [lanes i hi' hi] at hp
        exact hown i hi p hp
  | @serve sender' m rest lane accepted done lane' lanes =>
    refine ⟨fun sender => ?_, fun i hi p hp => ?_⟩
    · by_cases hsender : sender' = sender
      · -- the first message that waits is done
        subst hsender
        have hwaiting : waiting server sender' r = m :: waiting server sender' r' := by
          unfold waiting
          rw [lane, lane', of_cons_self]
          by_cases hserver : sender' = server
          · rw [if_pos hserver, if_pos hserver]
            rfl
          · rw [if_neg hserver, if_neg hserver, lanes sender' hserver]
            rfl
        rw [accepted, done, of_append, horder sender', hwaiting, of_cons_self, of_nil, List.append_assoc]
        rfl
      · rw [accepted, done, of_append, horder sender, of_cons_of_ne hsender, of_nil, List.append_nil,
          waiting_eq]
        intro i
        by_cases hi : i = server
        · rw [hi, lane, lane', of_cons_of_ne hsender]
        · rw [lanes i hi]
    · rw [lanes i hi] at hp
      exact hown i hi p hp

end Relay

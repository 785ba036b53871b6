import VServer.Lib.Writers
import VServer.Log.Appenders

/-!
# What the appenders were given

`events_delivered`: in every run of the loggers, and whatever the background threads do, each statement
that passes its level reaches each appender of its logger once for every time it was added, and the
statements of a thread reach an appender in their order. An asynchronous appender takes whole texts, and
has written the first so many of them. The others are written to item by item: the items of one thread
keep their order, and the texts are whole where no two threads are in the appender at once. Nothing
fails but a call that changes a logger in use, and a second thread in a `FileLogAppender`
(`log_fault_iff`).
-/

namespace VServer

open Machine

/-- An event, and the formatter of its logger. -/
abbrev LogEntry : Type := LogFormatter × LogEvent

namespace LogEntry

variable (strftime : UInt64 → List Byte → List Byte) (async : Bool) (p : LogEntry)

def text : List Byte := p.1.format strftime p.2

/-- What an appender is handed of it, one piece after another. -/
def pieces : List (List Byte) :=
  if async then [p.text strftime] else p.1.items.map fun item => item.format strftime p.2

theorem flatten_pieces : (p.pieces strftime async).flatten = p.text strftime := by
  unfold pieces
  split_ifs
  · simp
  · rfl

end LogEntry

namespace LogCall

variable {Λ κ : Type} [DecidableEq κ]

/-- What the thread has still to give to the appender. -/
def waiting (loggers : Λ → Logger κ) (a : κ) (call : LogCall Λ κ) : List LogEntry :=
  List.replicate (call.rest.count a) ((loggers call.logger).formatter, call.event)

/-- What it has still to write, if it is in the appender. -/
def writing (strftime : UInt64 → List Byte → List Byte) (a : κ) (call : LogCall Λ κ) :
    Option (List (List Byte)) :=
  call.inside.bind fun p =>
    if p.1 = a then some (p.2.map fun item => item.format strftime call.event) else none

end LogCall

namespace LogSystem

variable {ι Λ κ : Type} [DecidableEq ι] [DecidableEq Λ] [DecidableEq κ]
  {strftime : UInt64 → List Byte → List Byte}

/-- What a step asks for: the event of a statement that passes goes to the appender once for every
time the logger has it. -/
def asked (a : κ) (σ : LogSystem ι Λ κ) : Label ι Λ κ → List (ι × LogEntry)
  | .statement who l st =>
    if σ.Passes l st then
      List.replicate ((σ.loggers l).appenders.count a)
        (who, (σ.loggers l).formatter, st.event (σ.loggers l).name)
    else []
  | _ => []

def waiting (a : κ) (σ : LogSystem ι Λ κ) (who : ι) : List LogEntry :=
  (σ.logging who).elim [] (LogCall.waiting σ.loggers a)

def writing (strftime : UInt64 → List Byte → List Byte) (a : κ) (σ : LogSystem ι Λ κ) (who : ι) :
    Option (List (List Byte)) :=
  (σ.logging who).bind (LogCall.writing strftime a)

/-- The threads, as writers to one appender. -/
def writers (strftime : UInt64 → List Byte → List Byte) (a : κ) (σ : LogSystem ι Λ κ)
    (given : List (ι × LogEntry)) (pieces : List (ι × List Byte)) : Writers ι (List Byte) :=
  ⟨given.map fun p => (p.1, p.2.pieces strftime (σ.appenders a).isAsync), pieces,
    σ.writing strftime a⟩

/-- What was asked for was given to the appender or waits, and what was given was written to it, or is
still to be written by a thread in it. -/
structure Delivery (strftime : UInt64 → List Byte → List Byte) (a : κ) (σ : LogSystem ι Λ κ)
    (asked given : List (ι × LogEntry)) (pieces : List (ι × List Byte)) : Prop where
  order : ∀ who, Relay.of who asked = Relay.of who given ++ σ.waiting a who
  ordered : (σ.writers strftime a given pieces).Ordered
  holds : (σ.appenders a).Holds (pieces.map Prod.snd) (Relay.of a σ.cout)
  outside : (σ.appenders a).isAsync = true → (σ.writers strftime a given pieces).Free

/-- The appender that the thread goes into, if it has no buffer. -/
def enters (σ : LogSystem ι Λ κ) : Label ι Λ κ → Option κ
  | .visit who =>
    match σ.logging who with
    | some ⟨_, _, none, a :: _⟩ => if (σ.appenders a).isAsync then none else some a
    | _ => none
  | _ => none

/-- No thread goes into the appender while one is in it. -/
def Uncrowded (a : κ) (σ : LogSystem ι Λ κ) (label : Label ι Λ κ) : Prop :=
  σ.enters label = some a → ¬σ.Occupied a

variable {a : κ} {σ σ' : LogSystem ι Λ κ} {label : Label ι Λ κ} {asks given : List (ι × LogEntry)}
  {pieces : List (ι × List Byte)}

/-! ## Small facts -/

theorem of_replicate (who other : ι) (n : Nat) (p : LogEntry) :
    Relay.of other (List.replicate n (who, p)) = if who = other then List.replicate n p else [] := by
  split_ifs with h
  · rw [Relay.of_eq_map]
    · simp
    · simp [h]
  · refine Relay.of_eq_nil ?_
    simp [Ne.symm h]

theorem of_map_pair (a b : κ) (texts : List (List Byte)) :
    Relay.of a (texts.map (b, ·)) = if b = a then texts else [] := by
  split_ifs with h
  · rw [Relay.of_eq_map]
    · simp
    · simp [h]
  · refine Relay.of_eq_nil ?_
    simp [h]

omit [DecidableEq Λ] in
theorem waiting_setLogging (who : ι) (call : Option (LogCall Λ κ)) :
    (σ.setLogging who call).waiting a =
      Function.update (σ.waiting a) who (call.elim [] (LogCall.waiting σ.loggers a)) := by
  funext other
  by_cases hother : other = who
  · subst hother
    simp [waiting, setLogging]
  · simp [waiting, setLogging, hother]

omit [DecidableEq Λ] in
theorem writing_setLogging (who : ι) (call : Option (LogCall Λ κ)) :
    (σ.setLogging who call).writing strftime a =
      Function.update (σ.writing strftime a) who (call.bind (LogCall.writing strftime a)) := by
  funext other
  by_cases hother : other = who
  · subst hother
    simp [writing, setLogging]
  · simp [writing, setLogging, hother]

omit [DecidableEq ι] [DecidableEq Λ] in
theorem writing_eq_none (h : ¬σ.Occupied a) (who : ι) : σ.writing strftime a who = none := by
  unfold writing
  cases hlogging : σ.logging who with
  | none => rfl
  | some call =>
    cases hinside : call.inside with
    | none => simp [LogCall.writing, hinside]
    | some p =>
      have hne : p.1 ≠ a := fun hp => h ⟨who, by simp [place, hlogging, hinside, hp]⟩
      simp [LogCall.writing, hinside, hne]

theorem step_configures [Fintype ι] {l : Λ} {change : Logger κ → Logger κ}
    (h : label.configures = some (l, change)) : σ.step strftime label = σ.configure l change := by
  cases label <;> cases h <;> rfl

omit [DecidableEq ι] [DecidableEq Λ] in
theorem asked_configures {l : Λ} {change : Logger κ → Logger κ}
    (h : label.configures = some (l, change)) : asked a σ label = [] := by
  cases label <;> first | rfl | cases h

omit [DecidableEq ι] [DecidableEq Λ] in
theorem asked_visit (who : ι) : asked a σ (.visit who) = [] := rfl

/-! ## Steps -/

inductive Step (strftime : UInt64 → List Byte → List Byte) (σ : LogSystem ι Λ κ) :
    Label ι Λ κ → LogSystem ι Λ κ → Prop
  | configure {label : Label ι Λ κ} {l : Λ} {change : Logger κ → Logger κ}
      (h : label.configures = some (l, change)) (free : ¬σ.Busy l) :
      Step strftime σ label
        { σ with loggers := Function.update σ.loggers l (change (σ.loggers l)) }
  | pass {who : ι} {l : Λ} {st : Statement} (outside : σ.logging who = none) (passes : σ.Passes l st) :
      Step strftime σ (.statement who l st) (σ.setLogging who
        (some ⟨l, st.event (σ.loggers l).name, none, (σ.loggers l).appenders⟩))
  | stop {who : ι} {l : Λ} {st : Statement} (stops : ¬σ.Passes l st) :
      Step strftime σ (.statement who l st) σ
  | leave {who : ι} {l : Λ} {event : LogEvent} (logging : σ.logging who = some ⟨l, event, none, []⟩) :
      Step strftime σ (.visit who) (σ.setLogging who none)
  | give {who : ι} {l : Λ} {event : LogEvent} {b : κ} {rest : List κ} {appender : LogAppender}
      (logging : σ.logging who = some ⟨l, event, none, b :: rest⟩)
      (async : (σ.appenders b).isAsync = true)
      (logged : (σ.appenders b).log (LogEntry.text strftime ((σ.loggers l).formatter, event)) =
        .ok appender) :
      Step strftime σ (.visit who) { σ.setLogging who (some ⟨l, event, none, rest⟩) with
        appenders := Function.update σ.appenders b appender }
  | enter {who : ι} {l : Λ} {event : LogEvent} {b : κ} {rest : List κ}
      (logging : σ.logging who = some ⟨l, event, none, b :: rest⟩)
      (sync : (σ.appenders b).isAsync = false)
      (free : (σ.appenders b).isFile = true → ¬σ.Occupied b) :
      Step strftime σ (.visit who) (σ.setLogging who
        (some ⟨l, event, some (b, (σ.loggers l).formatter.items), rest⟩))
  | item {who : ι} {l : Λ} {event : LogEvent} {b : κ} {item : FormatItem} {items : List FormatItem}
      {rest : List κ} (logging : σ.logging who = some ⟨l, event, some (b, item :: items), rest⟩) :
      Step strftime σ (.visit who) ((σ.setLogging who
        (some ⟨l, event, some (b, items), rest⟩)).write b (item.format strftime event))
  | done {who : ι} {l : Λ} {event : LogEvent} {b : κ} {rest : List κ}
      (logging : σ.logging who = some ⟨l, event, some (b, []), rest⟩) :
      Step strftime σ (.visit who) (σ.setLogging who (some ⟨l, event, none, rest⟩))
  | background {b : κ} {label : AsyncLogging.Label} {appender : LogAppender} {out : List (List Byte)}
      (quiet : AsyncLogging.appended [label] = [])
      (stepped : (σ.appenders b).background label = .ok (appender, out)) :
      Step strftime σ (.background b label) { σ with
        appenders := Function.update σ.appenders b appender
        cout := σ.cout ++ out.map (b, ·) }

theorem step_inv [Fintype ι] (h : σ.step strftime label = .ok σ') : Step strftime σ label σ' := by
  have hconfigure : ∀ l change, label.configures = some (l, change) → Step strftime σ label σ' := by
    intro l change hlabel
    rw [step_configures hlabel, configure] at h
    split_ifs at h with hbusy
    cases h
    exact .configure hlabel hbusy
  cases label with
  | addLogAppender l b | delLogAppender l b => exact hconfigure _ _ rfl
  | setFormatter l fmtr => exact hconfigure _ _ rfl
  | statement who l st =>
    rw [step] at h
    split at h
    · cases h
    · rename_i houtside
      split_ifs at h with hpasses
      · cases h
        exact .pass houtside hpasses
      · cases h
        exact .stop hpasses
  | visit who =>
    rw [step] at h
    split at h
    · cases h
    · rename_i call hlogging
      obtain ⟨l, event, inside, rest⟩ := call
      cases inside with
      | some p =>
        obtain ⟨b, items⟩ := p
        cases items with
        | nil =>
          cases h
          exact .done hlogging
        | cons item items =>
          cases h
          exact .item hlogging
      | none =>
        cases rest with
        | nil =>
          cases h
          exact .leave hlogging
        | cons b rest =>
          simp only [visit] at h
          split_ifs at h with hasync hrace
          · obtain ⟨appender, hlogged, rfl⟩ := map_eq_ok h
            exact .give hlogging hasync hlogged
          · cases h
            exact .enter hlogging (by simpa using hasync) fun hfile hoccupied => hrace ⟨hfile, hoccupied⟩
  | background b label =>
    cases label with
    | append line => cases h
    | _ =>
      obtain ⟨⟨appender, out⟩, hstepped, rfl⟩ := map_eq_ok h
      exact .background rfl hstepped

theorem Step.kind (h : Step strftime σ label σ') (a : κ) :
    (σ'.appenders a).isAsync = (σ.appenders a).isAsync ∧
      (σ'.appenders a).isFile = (σ.appenders a).isFile := by
  have hupdate : ∀ {b : κ} {appender : LogAppender}, appender.isAsync = (σ.appenders b).isAsync ∧
      appender.isFile = (σ.appenders b).isFile →
      (Function.update σ.appenders b appender a).isAsync = (σ.appenders a).isAsync ∧
        (Function.update σ.appenders b appender a).isFile = (σ.appenders a).isFile := by
    intro b appender hb
    by_cases ha : a = b
    · subst ha
      simpa using hb
    · simp [ha]
  cases h with
  | configure | pass | stop | leave | enter | done => exact ⟨rfl, rfl⟩
  | give logging async logged => exact hupdate (LogAppender.log_kind logged)
  | item => exact hupdate (LogAppender.write_kind _ _)
  | background quiet stepped => exact hupdate (LogAppender.background_kind stepped)

/-- A step that does not reach the appender. -/
structure Frame (strftime : UInt64 → List Byte → List Byte) (a : κ) (σ σ' : LogSystem ι Λ κ) : Prop where
  waiting : σ'.waiting a = σ.waiting a
  writing : σ'.writing strftime a = σ.writing strftime a
  appender : σ'.appenders a = σ.appenders a
  cout : Relay.of a σ'.cout = Relay.of a σ.cout

omit [DecidableEq ι] [DecidableEq Λ] in
theorem Frame.writers (h : Frame strftime a σ σ') (given : List (ι × LogEntry))
    (pieces : List (ι × List Byte)) :
    σ'.writers strftime a given pieces = σ.writers strftime a given pieces := by
  rw [LogSystem.writers, LogSystem.writers, h.writing, h.appender]

omit [DecidableEq Λ] in
theorem Frame.delivery (h : Frame strftime a σ σ') (hbefore : Delivery strftime a σ asks given pieces) :
    Delivery strftime a σ' asks given pieces where
  order := h.waiting ▸ hbefore.order
  ordered := h.writers given pieces ▸ hbefore.ordered
  holds := by
    rw [h.appender, h.cout]
    exact hbefore.holds
  outside := by
    rw [h.appender, h.writers]
    exact hbefore.outside

omit [DecidableEq Λ] in
theorem frame_setLogging {who : ι} {call : Option (LogCall Λ κ)}
    (hwaiting : call.elim [] (LogCall.waiting σ.loggers a) = σ.waiting a who)
    (hwriting : call.bind (LogCall.writing strftime a) = σ.writing strftime a who) :
    Frame strftime a σ (σ.setLogging who call) where
  waiting := by rw [waiting_setLogging, hwaiting, Function.update_eq_self]
  writing := by rw [writing_setLogging, hwriting, Function.update_eq_self]
  appender := rfl
  cout := rfl

/-- What an appender was given and has written after a step, and that it is whole if it was. -/
def Delivers (strftime : UInt64 → List Byte → List Byte) (a : κ) (σ : LogSystem ι Λ κ)
    (label : Label ι Λ κ) (σ' : LogSystem ι Λ κ) (asks given : List (ι × LogEntry))
    (pieces : List (ι × List Byte)) : Prop :=
  ∃ given' pieces', Delivery strftime a σ' (asks ++ asked a σ label) given' pieces' ∧
    ((σ.appenders a).isAsync = true ∨ (σ.appenders a).isFile = true ∨ σ.Uncrowded a label →
      (σ.writers strftime a given pieces).Whole → (σ'.writers strftime a given' pieces').Whole)

omit [DecidableEq Λ] in
theorem Frame.delivers (h : Frame strftime a σ σ') (hbefore : Delivery strftime a σ asks given pieces)
    (hasked : asked a σ label = []) : Delivers strftime a σ label σ' asks given pieces := by
  refine ⟨given, pieces, ?_, fun _ hwhole => h.writers given pieces ▸ hwhole⟩
  rw [hasked, List.append_nil]
  exact h.delivery hbefore

section

variable {who : ι} {l : Λ} {event : LogEvent} {rest : List κ}

omit [DecidableEq Λ] in
theorem order_give {p : LogEntry} {n : Nat} (horder : ∀ who, Relay.of who asks =
      Relay.of who given ++ σ.waiting a who) (hwaiting : σ.waiting a who = List.replicate (n + 1) p)
    (hafter : σ'.waiting a = Function.update (σ.waiting a) who (List.replicate n p)) (other : ι) :
    Relay.of other asks = Relay.of other (given ++ [(who, p)]) ++ σ'.waiting a other := by
  rw [horder other, hafter, Relay.of_append]
  by_cases hother : other = who
  · subst hother
    rw [Function.update_self, Relay.of_cons_self, Relay.of_nil, hwaiting, List.replicate_succ,
      List.append_assoc]
    rfl
  · rw [Function.update_of_ne hother, Relay.of_cons_of_ne (Ne.symm hother), Relay.of_nil, List.append_nil]

omit [DecidableEq ι] [DecidableEq Λ] in
theorem waiting_of_logging {inside : Option (κ × List FormatItem)}
    (logging : σ.logging who = some ⟨l, event, inside, rest⟩) :
    σ.waiting a who = List.replicate (rest.count a) ((σ.loggers l).formatter, event) := by
  rw [waiting, logging]
  rfl

omit [DecidableEq Λ] in
theorem waiting_inside {inside : Option (κ × List FormatItem)}
    (logging : σ.logging who = some ⟨l, event, inside, rest⟩) (inside' : Option (κ × List FormatItem)) :
    (σ.setLogging who (some ⟨l, event, inside', rest⟩)).waiting a = σ.waiting a := by
  refine (waiting_setLogging who _).trans (Function.update_eq_self_iff.mpr ?_)
  rw [waiting_of_logging logging]
  rfl

omit [DecidableEq ι] [DecidableEq Λ] in
theorem writers_eq (given : List (ι × LogEntry)) (pieces : List (ι × List Byte))
    {f : ι → Option (List (List Byte))}
    (hkind : (σ'.appenders a).isAsync = (σ.appenders a).isAsync) (hwriting : σ'.writing strftime a = f) :
    σ'.writers strftime a given pieces =
      ⟨given.map fun p => (p.1, p.2.pieces strftime (σ.appenders a).isAsync), pieces, f⟩ := by
  rw [LogSystem.writers, hkind, hwriting]

omit [DecidableEq Λ] in
theorem give_delivers {appender : LogAppender} (h : Delivery strftime a σ asks given pieces)
    (logging : σ.logging who = some ⟨l, event, none, a :: rest⟩)
    (async : (σ.appenders a).isAsync = true)
    (logged : (σ.appenders a).log (LogEntry.text strftime ((σ.loggers l).formatter, event)) =
      .ok appender) :
    Delivers strftime a σ (.visit who) { σ.setLogging who (some ⟨l, event, none, rest⟩) with
      appenders := Function.update σ.appenders a appender } asks given pieces := by
  obtain ⟨horder, hordered, hholds, houtside⟩ := h
  have hfree := houtside async
  set entry : LogEntry := ((σ.loggers l).formatter, event) with hentry
  set w := σ.writers strftime a given pieces with hw
  set σ' : LogSystem ι Λ κ := { σ.setLogging who (some ⟨l, event, none, rest⟩) with
    appenders := Function.update σ.appenders a appender } with hσ'
  have hinside : (w.begin who [entry.text strftime]).inside who = some [entry.text strftime] :=
    Function.update_self ..
  have hlast : ((w.begin who [entry.text strftime]).write who (entry.text strftime) []).inside who =
      some [] := Function.update_self ..
  have hwaiting : σ'.waiting a = Function.update (σ.waiting a) who (List.replicate (rest.count a) entry) :=
    waiting_setLogging who (some ⟨l, event, none, rest⟩)
  have hkind : (σ'.appenders a).isAsync = (σ.appenders a).isAsync := by
    simpa [hσ'] using (LogAppender.log_kind logged).1
  have hwriting : σ'.writing strftime a = σ.writing strftime a :=
    (writing_setLogging who (some ⟨l, event, none, rest⟩)).trans
      (Function.update_eq_self_iff.mpr (hfree who).symm)
  -- to the writers it is a message of one piece
  have hafter : σ'.writers strftime a (given ++ [(who, entry)]) (pieces ++ [(who, entry.text strftime)]) =
      ((w.begin who [entry.text strftime]).write who (entry.text strftime) []).finish who := by
    rw [Writers.finish_write_begin (hfree who), writers_eq _ _ hkind hwriting]
    simp [hw, LogSystem.writers, LogEntry.pieces, async]
  refine ⟨given ++ [(who, entry)], pieces ++ [(who, entry.text strftime)],
    ⟨fun other => ?_, ?_, ?_, fun _ => ?_⟩, fun _ hwhole => ?_⟩
  · rw [asked_visit, List.append_nil]
    refine order_give horder ?_ hwaiting other
    rw [waiting_of_logging logging, List.count_cons_self]
  · rw [hafter]
    exact ((hordered.begin (hfree who)).write hinside).finish hlast
  · simpa [hσ', setLogging] using LogAppender.log_holds hholds logged
  · rw [hafter, Writers.finish_write_begin (hfree who)]
    exact hfree
  · rw [hafter]
    exact ((hwhole.begin hfree).write hinside).finish hlast

omit [DecidableEq Λ] in
theorem enter_delivers (h : Delivery strftime a σ asks given pieces)
    (logging : σ.logging who = some ⟨l, event, none, a :: rest⟩)
    (sync : (σ.appenders a).isAsync = false)
    (free : (σ.appenders a).isFile = true → ¬σ.Occupied a) :
    Delivers strftime a σ (.visit who) (σ.setLogging who
      (some ⟨l, event, some (a, (σ.loggers l).formatter.items), rest⟩)) asks given pieces := by
  obtain ⟨horder, hordered, hholds, -⟩ := h
  set entry : LogEntry := ((σ.loggers l).formatter, event) with hentry
  set w := σ.writers strftime a given pieces with hw
  set σ' := σ.setLogging who (some ⟨l, event, some (a, (σ.loggers l).formatter.items), rest⟩) with hσ'
  have houtside : w.inside who = none := by
    simp [hw, LogSystem.writers, writing, logging, LogCall.writing]
  have hkind : (σ'.appenders a).isAsync = (σ.appenders a).isAsync := rfl
  have hafter : σ'.writers strftime a (given ++ [(who, entry)]) pieces =
      w.begin who (entry.pieces strftime false) := by
    rw [writers_eq _ _ hkind (writing_setLogging who _)]
    simp [hw, LogSystem.writers, Writers.begin, LogCall.writing, LogEntry.pieces, hentry, sync]
  refine ⟨given ++ [(who, entry)], pieces, ⟨fun other => ?_, ?_, hholds, fun hasync => ?_⟩,
    fun hserial hwhole => ?_⟩
  · rw [asked_visit, List.append_nil]
    refine order_give horder ?_ (waiting_setLogging who _) other
    rw [waiting_of_logging logging, List.count_cons_self]
  · rw [hafter]
    exact hordered.begin houtside
  · rw [hkind, sync] at hasync
    cases hasync
  · rw [hafter]
    refine hwhole.begin ?_
    have hfree : ¬σ.Occupied a := by
      rcases hserial with hasync | hfile | huncrowded
      · simp [sync] at hasync
      · exact free hfile
      · exact huncrowded (by simp [enters, logging, sync])
    exact fun other => writing_eq_none hfree other

omit [DecidableEq Λ] in
theorem item_delivers {item : FormatItem} {items : List FormatItem}
    (h : Delivery strftime a σ asks given pieces)
    (logging : σ.logging who = some ⟨l, event, some (a, item :: items), rest⟩) :
    Delivers strftime a σ (.visit who) ((σ.setLogging who
      (some ⟨l, event, some (a, items), rest⟩)).write a (item.format strftime event)) asks given pieces := by
  obtain ⟨horder, hordered, hholds, houtside⟩ := h
  set w := σ.writers strftime a given pieces with hw
  set σ' := (σ.setLogging who (some ⟨l, event, some (a, items), rest⟩)).write a
    (item.format strftime event) with hσ'
  have hinside : w.inside who =
      some (item.format strftime event :: items.map fun item => item.format strftime event) := by
    simp [hw, LogSystem.writers, writing, logging, LogCall.writing]
  have hsync : (σ.appenders a).isAsync = false := by
    by_contra hasync
    have hnone := houtside (by simpa using hasync) who
    simp [hinside] at hnone
  have hkind : (σ'.appenders a).isAsync = (σ.appenders a).isAsync := by
    simpa [hσ', write, setLogging] using (LogAppender.write_kind _ (σ.appenders a)).1
  have hafter : σ'.writers strftime a given (pieces ++ [(who, item.format strftime event)]) =
      w.write who (item.format strftime event) (items.map fun item => item.format strftime event) := by
    rw [writers_eq _ _ hkind (writing_setLogging who _)]
    simp [hw, LogSystem.writers, Writers.write, LogCall.writing]
  refine ⟨given, pieces ++ [(who, item.format strftime event)], ⟨fun other => ?_, ?_, ?_, fun hasync => ?_⟩,
    fun _ hwhole => ?_⟩
  · rw [asked_visit, List.append_nil]
    exact (waiting_inside logging _).symm ▸ horder other
  · rw [hafter]
    exact hordered.write hinside
  · simpa [hσ', write, setLogging, of_map_pair] using LogAppender.write_holds hholds hsync
  · rw [hkind, hsync] at hasync
    cases hasync
  · rw [hafter]
    exact hwhole.write hinside

omit [DecidableEq Λ] in
theorem done_delivers (h : Delivery strftime a σ asks given pieces)
    (logging : σ.logging who = some ⟨l, event, some (a, []), rest⟩) :
    Delivers strftime a σ (.visit who) (σ.setLogging who (some ⟨l, event, none, rest⟩)) asks given
      pieces := by
  obtain ⟨horder, hordered, hholds, houtside⟩ := h
  set w := σ.writers strftime a given pieces with hw
  set σ' := σ.setLogging who (some ⟨l, event, none, rest⟩) with hσ'
  have hinside : w.inside who = some [] := by
    simp [hw, LogSystem.writers, writing, logging, LogCall.writing]
  have hkind : (σ'.appenders a).isAsync = (σ.appenders a).isAsync := rfl
  have hafter : σ'.writers strftime a given pieces = w.finish who := by
    rw [writers_eq _ _ hkind (writing_setLogging who _)]
    rfl
  refine ⟨given, pieces, ⟨fun other => ?_, ?_, hholds, fun hasync => ?_⟩, fun _ hwhole => ?_⟩
  · rw [asked_visit, List.append_nil]
    exact (waiting_inside logging _).symm ▸ horder other
  · rw [hafter]
    exact hordered.finish hinside
  · have hnone := houtside hasync who
    simp [hinside] at hnone
  · rw [hafter]
    exact hwhole.finish hinside

end

/-- **Every step delivers.** -/
theorem Step.delivers (h : Step strftime σ label σ') (hbefore : Delivery strftime a σ asks given pieces) :
    Delivers strftime a σ label σ' asks given pieces := by
  cases h with
  | @configure label l change hlabel free =>
    have hwaiting : ({ σ with loggers := Function.update σ.loggers l (change (σ.loggers l)) } :
        LogSystem ι Λ κ).waiting a = σ.waiting a := by
      funext who
      unfold waiting
      cases hwho : σ.logging who with
      | none => rfl
      | some call =>
        -- the logger of a thread that is in `log` does not change
        have hl : call.logger ≠ l := by
          rintro rfl
          exact free ⟨who, by simp [hwho]⟩
        simp [LogCall.waiting, hl]
    have hframe : Frame strftime a σ { σ with
        loggers := Function.update σ.loggers l (change (σ.loggers l)) } := ⟨hwaiting, rfl, rfl, rfl⟩
    exact hframe.delivers hbefore (asked_configures hlabel)
  | @pass who l st outside passes =>
    obtain ⟨horder, hordered, hholds, houtside⟩ := hbefore
    have hwriting : (σ.setLogging who (some ⟨l, st.event (σ.loggers l).name, none,
        (σ.loggers l).appenders⟩)).writing strftime a = σ.writing strftime a := by
      refine (writing_setLogging who _).trans (Function.update_eq_self_iff.mpr ?_)
      simp [writing, outside, LogCall.writing]
    have hafter := writers_eq given pieces rfl hwriting
    refine ⟨given, pieces, ⟨fun other => ?_, hafter ▸ hordered, hholds, fun hasync => ?_⟩, ?_⟩
    · rw [Relay.of_append, asked, if_pos passes, of_replicate, waiting_setLogging, horder other]
      by_cases hother : who = other
      · subst hother
        simp [waiting, outside, LogCall.waiting]
      · rw [if_neg hother, Function.update_of_ne (Ne.symm hother), List.append_nil]
    · rw [hafter]
      exact houtside hasync
    · rw [hafter]
      exact fun _ hwhole => hwhole
  | stop stops =>
    refine Frame.delivers ⟨rfl, rfl, rfl, rfl⟩ hbefore ?_
    rw [asked, if_neg stops]
  | @leave who l event logging =>
    refine Frame.delivers (frame_setLogging ?_ ?_) hbefore rfl
    · rw [waiting_of_logging logging]
      rfl
    · simp [writing, logging, LogCall.writing]
  | @give who l event b rest appender logging async logged =>
    by_cases hb : b = a
    · subst hb
      exact give_delivers hbefore logging async logged
    · have hframe : Frame strftime a σ (σ.setLogging who (some ⟨l, event, none, rest⟩)) := by
        refine frame_setLogging ?_ ?_
        · rw [waiting_of_logging logging, List.count_cons_of_ne hb]
          rfl
        · simp [writing, logging, LogCall.writing]
      exact Frame.delivers ⟨hframe.waiting, hframe.writing, Function.update_of_ne (Ne.symm hb) _ _, rfl⟩
        hbefore rfl
  | @enter who l event b rest logging sync free =>
    by_cases hb : b = a
    · subst hb
      exact enter_delivers hbefore logging sync free
    · refine Frame.delivers (frame_setLogging ?_ ?_) hbefore rfl
      · rw [waiting_of_logging logging, List.count_cons_of_ne hb]
        rfl
      · simp [writing, logging, LogCall.writing, hb]
  | @item who l event b item items rest logging =>
    by_cases hb : b = a
    · subst hb
      exact item_delivers hbefore logging
    · have hframe : Frame strftime a σ (σ.setLogging who (some ⟨l, event, some (b, items), rest⟩)) := by
        refine frame_setLogging ?_ ?_
        · rw [waiting_of_logging logging]
          rfl
        · simp [writing, logging, LogCall.writing, hb]
      refine Frame.delivers ⟨hframe.waiting, hframe.writing, Function.update_of_ne (Ne.symm hb) _ _, ?_⟩
        hbefore rfl
      simp [write, setLogging, of_map_pair, hb]
  | @done who l event b rest logging =>
    by_cases hb : b = a
    · subst hb
      exact done_delivers hbefore logging
    · refine Frame.delivers (frame_setLogging ?_ ?_) hbefore rfl
      · rw [waiting_of_logging logging]
        rfl
      · simp [writing, logging, LogCall.writing, hb]
  | @background b label appender out quiet stepped =>
    by_cases hb : b = a
    · subst hb
      obtain ⟨horder, hordered, hholds, houtside⟩ := hbefore
      have hkind : (Function.update σ.appenders b appender b).isAsync = (σ.appenders b).isAsync := by
        simpa using (LogAppender.background_kind stepped).1
      have hafter : ({ σ with
          appenders := Function.update σ.appenders b appender
          cout := σ.cout ++ out.map (b, ·) } : LogSystem ι Λ κ).writers strftime b given pieces =
            σ.writers strftime b given pieces :=
        writers_eq given pieces hkind rfl
      refine ⟨given, pieces, ⟨fun other => ?_, hafter ▸ hordered, ?_, fun hasync => ?_⟩, ?_⟩
      · show Relay.of other (asks ++ []) = _
        rw [List.append_nil]
        exact horder other
      · simpa [of_map_pair] using LogAppender.background_holds hholds quiet stepped
      · rw [hafter]
        exact houtside (hkind ▸ hasync)
      · rw [hafter]
        exact fun _ hwhole => hwhole
    · refine Frame.delivers ⟨rfl, rfl, Function.update_of_ne (Ne.symm hb) _ _, ?_⟩ hbefore rfl
      simp [of_map_pair, hb]

/-! ## Runs -/

variable [Fintype ι] {loggers : Λ → Logger κ} {appenders : κ → LogAppender}
  {labels : List (Label ι Λ κ)}

theorem run_delivery (hnew : ∀ a, (appenders a).IsNew)
    (hrun : run (step strftime) (start loggers appenders) labels = .ok σ) (a : κ) :
    ∃ given pieces, Delivery strftime a σ
        (collect (step strftime) (asked a) (start loggers appenders) labels) given pieces ∧
      ((σ.appenders a).isAsync = true ∨ (σ.appenders a).isFile = true ∨
        Along (step strftime) (Uncrowded a) (start loggers appenders) labels →
        (σ.writers strftime a given pieces).Whole) := by
  have hstart : Delivery strftime a (start loggers appenders : LogSystem ι Λ κ) [] [] [] :=
    ⟨fun _ => rfl, fun _ => rfl, (hnew a).holds, fun _ _ => rfl⟩
  have halong := along_imp (A := Along (step strftime) (Uncrowded a) (start loggers appenders) labels) id
  refine run_history (fun σ asks => ∃ given pieces, Delivery strftime a σ asks given pieces ∧
    ((σ.appenders a).isAsync = true ∨ (σ.appenders a).isFile = true ∨
      Along (step strftime) (Uncrowded a) (start loggers appenders) labels →
      (σ.writers strftime a given pieces).Whole)) ?_
    ⟨[], [], hstart, fun _ => .free (fun _ => rfl) rfl⟩ halong hrun
  rintro s asks label s' ⟨given, pieces, hdelivery, hwhole⟩ huncrowded hstep
  have hsteps := step_inv hstep
  obtain ⟨given', pieces', hdelivery', hwhole'⟩ := hsteps.delivers hdelivery
  refine ⟨given', pieces', hdelivery', fun hserial => ?_⟩
  rw [(hsteps.kind a).1, (hsteps.kind a).2] at hserial
  refine hwhole' ?_ (hwhole hserial)
  rcases hserial with hasync | hfile | halong
  · exact .inl hasync
  · exact .inr (.inl hfile)
  · exact .inr (.inr (huncrowded halong))

/-- **Every event is delivered once.** Whatever the threads log and in whatever order their steps come,
an appender was given, of each thread, the events that passed in the thread's order, but for those the
thread is about to give. The pieces of an event that it was handed are those of the given events, of
each thread in order; they are whole texts where the appender is asynchronous or a file, or no thread
goes into it while another is in it. It has written the first so many of the pieces: a synchronous
appender all of them, and an asynchronous one holds the others in its buffers. -/
theorem events_delivered (hnew : ∀ a, (appenders a).IsNew)
    (hrun : run (step strftime) (start loggers appenders) labels = .ok σ) (a : κ) :
    ∃ given : List (ι × LogEntry), ∃ pieces : List (ι × List Byte),
      (∀ who, Relay.of who (collect (step strftime) (asked a) (start loggers appenders) labels) =
        Relay.of who given ++ σ.waiting a who) ∧
      (σ.writers strftime a given pieces).Ordered ∧
      ((σ.appenders a).isAsync = true → (σ.writers strftime a given pieces).Free) ∧
      ((σ.appenders a).isAsync = true ∨ (σ.appenders a).isFile = true ∨
        Along (step strftime) (Uncrowded a) (start loggers appenders) labels →
        (σ.writers strftime a given pieces).Whole) ∧
      (σ.appenders a).Delivered (pieces.map Prod.snd) (Relay.of a σ.cout) := by
  obtain ⟨given, pieces, hdelivery, hwhole⟩ := run_delivery hnew hrun a
  exact ⟨given, pieces, hdelivery.order, hdelivery.ordered, hdelivery.outside, hwhole,
    hdelivery.holds.delivered⟩

/-! Two threads, a logger with a file, and an asynchronous one to be added. -/

def clockText (_ : UInt64) (_ : List Byte) : List Byte := Http.bytes "2024-02-29 12:00:00"

def twoAppenders : Bool → LogAppender
  | false => (Logger.defaultAppender (Http.bytes "system") (Http.bytes "file") (Http.bytes "2024-02-29")
      true).getD .stdout
  | true => .asyncFile (.init (Http.bytes "b.log") true) .init

def oneLogger (_ : Unit) : Logger Bool := .init (Http.bytes "system") .INFO (some false)

/-- A statement of thread `n`. -/
def threadLogs (n : UInt32) : Statement := ⟨.WARN, Http.bytes "main.cc", 7, n, 0, 0, Http.bytes "hi"⟩

/-- Both are in `Logger::log`. The second one overtakes the first and gives its event to both appenders;
the first is still in the file when the background thread writes. -/
def twoThreads : List (Label (Fin 2) Unit Bool) :=
  [.addLogAppender () true, .background true .start, .background true .countDown,
    .statement 0 () (threadLogs 0), .statement 1 () (threadLogs 1)] ++ List.replicate 23 (.visit 1) ++
  [.background true .test, .background true .lock, .background true .wake] ++
  List.replicate 4 (.visit 0) ++ [.background true .recycle, .background true .write]

theorem twoAppenders_isNew (a : Bool) : (twoAppenders a).IsNew := by
  cases a with
  | false => rfl
  | true => exact ⟨rfl, rfl⟩

def secondLine : List Byte :=
  Logger.defaultFormatter.format clockText ((threadLogs 1).event (Http.bytes "system"))

def firstItems : List Byte := Http.bytes "2024-02-29 12:00:00\t0"

theorem twoThreads_run : ∃ σ, run (step clockText) (start oneLogger twoAppenders) twoThreads = .ok σ ∧
    ((σ.appenders true).stream (Relay.of true σ.cout),
      (σ.appenders false).stream (Relay.of false σ.cout), (σ.appenders false).isFile, (σ.appenders false).isAsync) =
      (some secondLine, some (secondLine ++ firstItems), true, false) :=
  eq_ok_of_toOption (by decide +kernel)

theorem events_delivered_two : ∃ σ, ∃ given : List (Fin 2 × LogEntry), ∃ pieces : List (Fin 2 × List Byte),
    run (step clockText) (start oneLogger twoAppenders) twoThreads = .ok σ ∧
      (σ.writers clockText false given pieces).Whole ∧
      (pieces.map Prod.snd).flatten = secondLine ++ firstItems := by
  obtain ⟨σ, hrun, hstream⟩ := twoThreads_run
  obtain ⟨-, hstream, hfile, hsync⟩ := by simpa only [Prod.mk.injEq] using hstream
  obtain ⟨given, pieces, -, -, -, hwhole, hdelivered⟩ := events_delivered twoAppenders_isNew hrun false
  exact ⟨σ, given, pieces, hrun, hwhole (.inr (.inl hfile)), (hdelivered.all hsync hstream).symm⟩

/-- Two threads in one `StdoutLogAppender`: neither line is whole. -/
example : ((run (step clockText) (start oneLogger fun _ => .stdout)
      [.setFormatter () (Http.bytes "%m%n"), .statement 0 () (threadLogs 0),
        .statement 1 () (threadLogs 1), .visit 0, .visit 1, .visit 0, .visit 1, .visit 0,
        .visit 1]).toOption.map
    fun σ : LogSystem (Fin 2) Unit Bool => (σ.cout.map Prod.snd).flatten) =
      some (Http.bytes "hihi\n\n") := by
  decide +kernel

/-! ## Faults -/

/-- The call changes a logger while a thread is in its `log`, or the thread goes into a
`FileLogAppender` while another is in it. -/
def Races (σ : LogSystem ι Λ κ) (label : Label ι Λ κ) : Prop :=
  (∃ l change, label.configures = some (l, change) ∧ σ.Busy l) ∨
    ∃ a, σ.enters label = some a ∧ (σ.appenders a).isFile = true ∧ σ.Occupied a

/-- What a step fails with. -/
theorem step_fault (hholds : ∀ a, ∃ lines printed, (σ.appenders a).Holds lines printed) {f : Fault} :
    σ.step strftime label = .error (.fault f) ↔ f = .undefined ∧ σ.Races label := by
  constructor
  · intro hstep
    have hconfigure : ∀ l change, label.configures = some (l, change) →
        f = .undefined ∧ σ.Races label := by
      intro l change hlabel
      rw [step_configures hlabel, configure] at hstep
      split_ifs at hstep with hbusy
      cases hstep
      exact ⟨rfl, .inl ⟨l, change, hlabel, hbusy⟩⟩
    cases label with
    | addLogAppender l a | delLogAppender l a => exact hconfigure _ _ rfl
    | setFormatter l fmtr => exact hconfigure _ _ rfl
    | statement who l st =>
      rw [step] at hstep
      split at hstep
      · cases hstep
      · split_ifs at hstep
    | visit who =>
      rw [step] at hstep
      split at hstep
      · cases hstep
      · rename_i call hlogging
        unfold visit at hstep
        split at hstep
        · cases hstep
        · cases hstep
        · cases hstep
        · rename_i a rest hinside hrest
          obtain ⟨lines, printed, ha⟩ := hholds a
          split_ifs at hstep with hasync hrace
          · obtain ⟨appender, hlog⟩ :=
              ha.log_ok hasync ((σ.loggers call.logger).formatter.format strftime call.event)
            have herror := map_eq_error.mp hstep
            change (σ.appenders a).log _ = _ at herror
            rw [hlog] at herror
            cases herror
          · cases hstep
            obtain ⟨l, event, inside, rest'⟩ := call
            obtain rfl : inside = none := hinside
            obtain rfl : rest' = a :: rest := hrest
            exact ⟨rfl, .inr ⟨a, by simp [enters, hlogging, hasync], hrace⟩⟩
    | background b label =>
      obtain ⟨lines, printed, hb⟩ := hholds b
      cases label with
      | append line => cases hstep
      | _ => exact absurd (map_eq_error.mp hstep) (hb.background_ne_fault f)
  · rintro ⟨rfl, ⟨l, change, hlabel, hbusy⟩ | ⟨a, henters, hfile, hoccupied⟩⟩
    · rw [step_configures hlabel, configure, if_pos hbusy]
    · cases label with
      | visit who =>
        simp only [enters] at henters
        split at henters
        · rename_i l event b rest hlogging
          split_ifs at henters with hasync
          obtain rfl := Option.some.inj henters
          rw [step, hlogging]
          simp [visit, hasync, hfile, hoccupied]
        · cases henters
      | _ => cases henters

end LogSystem

end VServer

import VServer.Log.Delivery

/-!
# A log is read back

Where the loggers keep their formatter, whatever an appender has written is read as the first so many of
the events it was given, up to what a thread in it has written of its event so far (`log_read_back`).
-/

namespace VServer

open Machine

namespace LogSystem

variable {ι Λ κ : Type} [DecidableEq ι] [DecidableEq Λ] [DecidableEq κ] [Fintype ι]
  {strftime : UInt64 → List Byte → List Byte} {loggers : Λ → Logger κ} {appenders : κ → LogAppender}
  {label : Label ι Λ κ} {labels : List (Label ι Λ κ)} {σ : LogSystem ι Λ κ}

/-- The loggers keep their formatter, and what a statement logs can be told apart on the line. -/
def Label.Readable (strftime : UInt64 → List Byte → List Byte) (loggers : Λ → Logger κ) :
    Label ι Λ κ → Prop
  | .setFormatter _ _ => False
  | .statement _ l st => LogRecord.Readable strftime (st.event (loggers l).name)
  | _ => True

omit [DecidableEq ι] [DecidableEq Λ] [Fintype ι] in
theorem Label.Readable.configures {l : Λ} {change : Logger κ → Logger κ}
    (h : label.Readable strftime loggers) (hlabel : label.configures = some (l, change))
    (logger : Logger κ) :
    (change logger).formatter = logger.formatter ∧ (change logger).name = logger.name := by
  cases label with
  | addLogAppender l a =>
    cases hlabel
    exact ⟨rfl, rfl⟩
  | delLogAppender l a =>
    cases hlabel
    show (logger.delLogAppender a).formatter = _ ∧ (logger.delLogAppender a).name = _
    unfold Logger.delLogAppender
    split_ifs <;> exact ⟨rfl, rfl⟩
  | setFormatter l fmtr => exact h.elim
  | _ => cases hlabel

theorem asked_readable (hloggers : ∀ l, (loggers l).formatter = Logger.defaultFormatter)
    (hlabels : ∀ label ∈ labels, label.Readable strftime loggers)
    (hrun : run (step strftime) (start loggers appenders) labels = .ok σ) (a : κ) :
    ∀ p ∈ collect (step strftime) (asked a) (start loggers appenders) labels,
      p.2.1 = Logger.defaultFormatter ∧ LogRecord.Readable strftime p.2.2 := by
  have hkeep := run_history (fun (σ : LogSystem ι Λ κ) asks =>
      (∀ l, (σ.loggers l).formatter = Logger.defaultFormatter ∧
        (σ.loggers l).name = (loggers l).name) ∧
      ∀ p ∈ asks, p.2.1 = Logger.defaultFormatter ∧ LogRecord.Readable strftime p.2.2)
    (f := asked a) (P := fun _ label => label.Readable strftime loggers) ?_ ⟨fun l => ⟨hloggers l, rfl⟩,
      nofun⟩ (along_of_mem fun _ label hlabel => hlabels label hlabel) hrun
  · exact hkeep.2
  · rintro s asks label s' ⟨hsame, hasks⟩ hreadable hstep
    cases step_inv hstep with
    | @configure label l change hlabel free =>
      have hasked : asked a s label = [] := by
        cases label <;> first | rfl | cases hlabel
      rw [hasked, List.append_nil]
      refine ⟨fun l' => ?_, hasks⟩
      by_cases hl : l' = l
      · subst hl
        obtain ⟨hformatter, hname⟩ := hreadable.configures hlabel (s.loggers l')
        simp only [Function.update_self, hformatter, hname]
        exact hsame l'
      · simpa only [Function.update_of_ne hl] using hsame l'
    | @pass who l st outside passes =>
      refine ⟨hsame, fun p hp => ?_⟩
      rcases List.mem_append.mp hp with hp | hp
      · exact hasks p hp
      · rw [asked, if_pos passes] at hp
        obtain rfl := List.eq_of_mem_replicate hp
        refine ⟨(hsame l).1, ?_⟩
        show LogRecord.Readable strftime (st.event (s.loggers l).name)
        rw [(hsame l).2]
        exact hreadable
    | stop stops =>
      rw [asked, if_neg stops, List.append_nil]
      exact ⟨hsame, hasks⟩
    | leave | give | enter | item | done | background =>
      exact ⟨hsame, fun p hp => hasks p (by simpa [asked] using hp)⟩

theorem given_readable (hloggers : ∀ l, (loggers l).formatter = Logger.defaultFormatter)
    (hlabels : ∀ label ∈ labels, label.Readable strftime loggers)
    (hrun : run (step strftime) (start loggers appenders) labels = .ok σ) {a : κ}
    {given : List (ι × LogEntry)}
    (horder : ∀ who, Relay.of who (collect (step strftime) (asked a) (start loggers appenders) labels) =
      Relay.of who given ++ σ.waiting a who) :
    ∀ p ∈ given, p.2.1 = Logger.defaultFormatter ∧ LogRecord.Readable strftime p.2.2 := by
  rintro ⟨who, p⟩ hp
  have hmem : p ∈ Relay.of who
      (collect (step strftime) (asked a) (start loggers appenders) labels) := by
    rw [horder who]
    exact List.mem_append_left _ (Relay.mem_of hp)
  obtain ⟨q, hq, hif⟩ := List.mem_filterMap.mp hmem
  split_ifs at hif
  obtain rfl := Option.some.inj hif
  exact asked_readable hloggers hlabels hrun a q hq

theorem read_text {p : LogEntry} (hformatter : p.1 = Logger.defaultFormatter)
    (hreadable : LogRecord.Readable strftime p.2) :
    LogRecord.reader.read (p.text strftime) = some (LogRecord.of strftime p.2, []) := by
  rw [LogEntry.text, hformatter]
  exact LogRecord.reader_format hreadable

section

variable {a : κ} {given : List (ι × LogEntry)} {pieces : List (ι × List Byte)}

omit [DecidableEq ι] [DecidableEq Λ] [Fintype ι] in
theorem written_whole (h : (σ.writers strftime a given pieces).Whole) : ∃ n done more,
    given.length ≤ n + 1 ∧
    (pieces.map Prod.snd).flatten = ((given.map fun p => p.2.text strftime).take n).flatten ++ done ∧
    (done = [] ∨ (given.map fun p => p.2.text strftime)[n]? = some (done ++ more)) ∧
    ((σ.writers strftime a given pieces).Free → given.length ≤ n ∧ done = []) := by
  obtain ⟨n, done, more, hlength, hwritten, hdone, hfree⟩ := h.split
  have htexts : (given.map fun p => p.2.text strftime) =
      ((σ.writers strftime a given pieces).begun.map Prod.snd).map List.flatten := by
    simp [writers, LogEntry.flatten_pieces, Function.comp_def]
  have hbegun : (σ.writers strftime a given pieces).begun.length = given.length := List.length_map _
  refine ⟨n, done.flatten, more.flatten, hbegun ▸ hlength, ?_, ?_, fun hnone => ?_⟩
  · rw [show pieces.map Prod.snd = _ from hwritten, List.flatten_append, List.flatten_flatten, htexts,
      List.map_take]
  · rcases hdone with rfl | hnext
    · exact .inl rfl
    · rw [htexts, List.getElem?_map, hnext]
      exact .inr (by simp)
  · obtain ⟨hn, hdone⟩ := hfree hnone
    exact ⟨hbegun ▸ hn, by rw [hdone, List.flatten_nil]⟩

omit [DecidableEq ι] [DecidableEq Λ] [Fintype ι] in
theorem handed_async (h : (σ.writers strftime a given pieces).Whole)
    (hfree : (σ.writers strftime a given pieces).Free) (hasync : (σ.appenders a).isAsync = true) :
    pieces.map Prod.snd = given.map fun p => p.2.text strftime := by
  obtain ⟨n, done, more, -, hwritten, -, hdone⟩ := h.split
  obtain ⟨hn, rfl⟩ := hdone hfree
  rw [List.append_nil, List.take_of_length_le (by simpa using hn)] at hwritten
  have hbegun : (σ.writers strftime a given pieces).begun.map Prod.snd =
      given.map fun p => [p.2.text strftime] := by
    simp [writers, hasync, LogEntry.pieces]
  rw [show pieces.map Prod.snd = _ from hwritten, hbegun, ← List.flatMap_def, ← List.map_eq_flatMap]

end

/-- **A log is read back.** While the loggers keep their formatter, the stream of an appender that is
asynchronous or a file, or that no thread goes into while another is in it, is at any time read as the
first so many of the events that it took. What is left over is a beginning of the text of the next one,
and nothing where no thread is in the appender. A synchronous appender has all the events, but perhaps
the last one while a thread is in it. -/
theorem log_read_back (hnew : ∀ a, (appenders a).IsNew)
    (hloggers : ∀ l, (loggers l).formatter = Logger.defaultFormatter)
    (hlabels : ∀ label ∈ labels, label.Readable strftime loggers)
    (hrun : run (step strftime) (start loggers appenders) labels = .ok σ) (a : κ)
    (hserial : (σ.appenders a).isAsync = true ∨ (σ.appenders a).isFile = true ∨
      Along (step strftime) (Uncrowded a) (start loggers appenders) labels) {stream : List Byte}
    (hstream : (σ.appenders a).stream (Relay.of a σ.cout) = some stream) :
    ∃ given : List (ι × LogEntry),
      (∀ who, Relay.of who (collect (step strftime) (asked a) (start loggers appenders) labels) =
        Relay.of who given ++ σ.waiting a who) ∧
      ∃ taken n left, taken = given.filter (fun p => (σ.appenders a).takes (p.2.text strftime)) ∧
        LogRecord.reader.messages stream =
          ((taken.take n).map fun p => LogRecord.of strftime p.2.2, left) ∧
        (left = [] ∨ ∃ p more, taken[n]? = some p ∧ p.2.text strftime = left ++ more ∧ more ≠ []) ∧
        ((σ.appenders a).isAsync = false → taken = given ∧ given.length ≤ n + 1) ∧
        ((∀ who, σ.writing strftime a who = none) →
          left = [] ∧ ((σ.appenders a).isAsync = false → given.length ≤ n)) := by
  obtain ⟨given, pieces, hdelivery, hwhole⟩ := run_delivery hnew hrun a
  have hgiven := given_readable hloggers hlabels hrun hdelivery.order
  have hreads : ∀ l : List (ι × LogEntry), (∀ p ∈ l, p ∈ given) →
      List.Forall₂ (fun text record => LogRecord.reader.read text = some (record, []))
        (l.map fun p => p.2.text strftime) (l.map fun p => LogRecord.of strftime p.2.2) := by
    intro l hl
    rw [List.forall₂_map_left_iff, List.forall₂_map_right_iff, List.forall₂_same]
    intro p hp
    obtain ⟨hformatter, hreadable⟩ := hgiven p (hl p hp)
    exact read_text hformatter hreadable
  refine ⟨given, hdelivery.order, ?_⟩
  cases hasync : (σ.appenders a).isAsync with
  | true =>
    obtain ⟨n, hn, -⟩ := hdelivery.holds.delivered stream hstream
    rw [handed_async (hwhole hserial) (hdelivery.outside hasync) hasync, List.filter_map,
      ← List.map_take] at hn
    set taken := given.filter fun p => (σ.appenders a).takes (p.2.text strftime) with htaken
    have hread := Messages.Reader.messages_flatten (hreads (taken.take n) fun p hp =>
      List.mem_of_mem_filter (List.mem_of_mem_take hp)) []
    refine ⟨taken, n, [], rfl, ?_, .inl rfl, by simp, fun _ => ⟨rfl, by simp⟩⟩
    have hnil : LogRecord.reader.messages [] = ([], []) := rfl
    rw [List.append_nil, hnil, List.append_nil] at hread
    rw [hn]
    exact hread
  | false =>
    have htaken : given.filter (fun p => (σ.appenders a).takes (p.2.text strftime)) = given :=
      List.filter_eq_self.mpr fun p _ => by simp [LogAppender.takes, hasync]
    obtain ⟨n, done, more, hlength, hwritten, hdone, hfree⟩ := written_whole (hwhole hserial)
    obtain ⟨k, hk, hread, hleft⟩ := Messages.Reader.messages_split (hreads given fun _ hp => hp) hdone
    have hstream' := hdelivery.holds.delivered.all hasync hstream
    refine ⟨given, k, (LogRecord.reader.messages done).2, htaken.symm, ?_, ?_,
      fun _ => ⟨rfl, by omega⟩, fun hnone => ?_⟩
    · rw [hstream', hwritten, hread, List.map_take]
    · rcases hleft with hnil | ⟨hdone', hnext, hmore⟩
      · exact .inl hnil
      · rw [List.getElem?_map, Option.map_eq_some_iff] at hnext
        obtain ⟨p, hp, htext⟩ := hnext
        exact .inr ⟨p, more, hp, by rw [hdone', htext], hmore⟩
    · obtain ⟨hn, rfl⟩ := hfree hnone
      exact ⟨rfl, fun _ => by omega⟩

theorem threadLogs_readable (n : UInt32) :
    LogRecord.Readable clockText ((threadLogs n).event (Http.bytes "system")) where
  date := show ∀ c ∈ Http.bytes "2024-02-29 12:00:00", _ by decide +kernel
  name := show ∀ c ∈ Http.bytes "system", _ by decide +kernel
  file := show ∀ c ∈ Http.bytes "main.cc", _ by decide +kernel
  content := show _ ∉ Http.bytes "hi" by decide +kernel

theorem twoThreads_readable : ∀ label ∈ twoThreads, label.Readable clockText oneLogger := by
  have hvisits : ∀ (n : Nat) (who : Fin 2), ∀ label ∈ List.replicate n (.visit who : Label (Fin 2) Unit Bool),
      label.Readable clockText oneLogger := by
    intro n who label hlabel
    rw [List.eq_of_mem_replicate hlabel]
    trivial
  simp only [twoThreads, List.forall_mem_append, List.forall_mem_cons]
  refine ⟨⟨⟨⟨⟨trivial, trivial, trivial, threadLogs_readable 0, threadLogs_readable 1, by simp⟩,
    hvisits 23 1⟩, trivial, trivial, trivial, by simp⟩, hvisits 4 0⟩, trivial, trivial, by simp⟩

theorem log_read_back_two : ∃ σ, ∃ given : List (Fin 2 × LogEntry), ∃ n left,
    run (step clockText) (start oneLogger twoAppenders) twoThreads = .ok σ ∧
      LogRecord.reader.messages (secondLine ++ firstItems) =
        ((given.take n).map fun p => LogRecord.of clockText p.2.2, left) ∧ given.length ≤ n + 1 := by
  obtain ⟨σ, hrun, hstream⟩ := twoThreads_run
  obtain ⟨-, hstream, hfile, hsync⟩ := by simpa only [Prod.mk.injEq] using hstream
  obtain ⟨given, -, taken, n, left, -, hread, -, hall, -⟩ :=
    log_read_back twoAppenders_isNew (fun _ => rfl) twoThreads_readable hrun false (.inr (.inl hfile)) hstream
  obtain ⟨rfl, hlength⟩ := hall hsync
  exact ⟨σ, taken, n, left, hrun, hread, hlength⟩

end LogSystem

end VServer

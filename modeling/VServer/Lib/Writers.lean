import VServer.Lib.Relay

/-!
# Writers that share a stream

Each of the writers `ι` writes its messages piece by piece, and nothing keeps another one out in the
meantime. The pieces of one writer stand in the stream in their order (`Ordered`). Where a writer begins
a message only when no other is in one, the messages are whole (`Whole`).
-/

/-- The messages begun, the pieces written, and what a writer in a message has still to write. -/
structure Writers (ι β : Type*) where
  begun : List (ι × List β)
  written : List (ι × β)
  inside : ι → Option (List β)

namespace Writers

open Relay

variable {ι β : Type*} [DecidableEq ι]

def begin (w : Writers ι β) (who : ι) (m : List β) : Writers ι β :=
  ⟨w.begun ++ [(who, m)], w.written, Function.update w.inside who (some m)⟩

def write (w : Writers ι β) (who : ι) (x : β) (rest : List β) : Writers ι β :=
  ⟨w.begun, w.written ++ [(who, x)], Function.update w.inside who (some rest)⟩

def finish (w : Writers ι β) (who : ι) : Writers ι β :=
  ⟨w.begun, w.written, Function.update w.inside who none⟩

theorem finish_write_begin {w : Writers ι β} {who : ι} (h : w.inside who = none) (x : β) :
    ((w.begin who [x]).write who x []).finish who =
      ⟨w.begun ++ [(who, [x])], w.written ++ [(who, x)], w.inside⟩ := by
  simp [begin, write, finish, ← h]

/-! ## The pieces of one writer -/

/-- What each writer has begun is what it has written and what it has still to write. -/
def Ordered (w : Writers ι β) : Prop :=
  ∀ who, (of who w.begun).flatten = of who w.written ++ (w.inside who).getD []

variable {w : Writers ι β} {who : ι} {m rest : List β} {x : β}

theorem Ordered.begin (h : w.Ordered) (houtside : w.inside who = none) : (w.begin who m).Ordered := by
  intro other
  have hother := h other
  by_cases hwho : who = other
  · subst hwho
    rw [houtside, Option.getD_none, List.append_nil] at hother
    simp [Writers.begin, hother]
  · simpa [Writers.begin, of_cons_of_ne hwho, Function.update_of_ne (Ne.symm hwho)] using hother

theorem Ordered.write (h : w.Ordered) (hinside : w.inside who = some (x :: rest)) :
    (w.write who x rest).Ordered := by
  intro other
  have hother := h other
  by_cases hwho : who = other
  · subst hwho
    simpa [Writers.write, hinside] using hother
  · simpa [Writers.write, of_cons_of_ne hwho, Function.update_of_ne (Ne.symm hwho)] using hother

theorem Ordered.finish (h : w.Ordered) (hinside : w.inside who = some []) : (w.finish who).Ordered := by
  intro other
  have hother := h other
  by_cases hwho : who = other
  · subst hwho
    simpa [Writers.finish, hinside] using hother
  · simpa [Writers.finish, Function.update_of_ne (Ne.symm hwho)] using hother

/-! ## Whole messages -/

/-- No writer is in a message. -/
def Free (w : Writers ι β) : Prop := ∀ who, w.inside who = none

/-- Every message begun is written, but for what the only writer in one has still to write. -/
inductive Whole (w : Writers ι β) : Prop
  | free (free : w.Free) (written : w.written.map Prod.snd = (w.begun.map Prod.snd).flatten)
  | last {who : ι} {before : List (ι × List β)} {done rest : List β} (inside : w.inside who = some rest)
      (alone : ∀ other, other ≠ who → w.inside other = none)
      (begun : w.begun = before ++ [(who, done ++ rest)])
      (written : w.written.map Prod.snd = (before.map Prod.snd).flatten ++ done)

theorem Whole.begin (h : w.Whole) (hfree : w.Free) : (w.begin who m).Whole := by
  cases h with
  | free _ written =>
    have hbegun : (w.begin who m).begun = w.begun ++ [(who, [] ++ m)] := rfl
    refine .last (Function.update_self ..) (fun other hother => ?_) hbegun ?_
    · exact (Function.update_of_ne hother ..).trans (hfree other)
    · exact written.trans (List.append_nil _).symm
  | last inside => simp [hfree _] at inside

theorem Whole.inside (h : w.Whole) (hinside : w.inside who = some rest) : ∃ before done,
    (∀ other, other ≠ who → w.inside other = none) ∧ w.begun = before ++ [(who, done ++ rest)] ∧
      w.written.map Prod.snd = (before.map Prod.snd).flatten ++ done := by
  cases h with
  | free free => simp [free who] at hinside
  | @last who' before done rest' inside alone begun written =>
    obtain rfl : who = who' := by
      by_contra hne
      simp [alone who hne] at hinside
    obtain rfl : rest' = rest := Option.some.inj (inside.symm.trans hinside)
    exact ⟨before, done, alone, begun, written⟩

theorem Whole.write (h : w.Whole) (hinside : w.inside who = some (x :: rest)) :
    (w.write who x rest).Whole := by
  obtain ⟨before, done, alone, begun, written⟩ := h.inside hinside
  have hbegun : (w.write who x rest).begun = before ++ [(who, (done ++ [x]) ++ rest)] := by
    simpa [Writers.write] using begun
  refine .last (Function.update_self ..) (fun other hother => ?_) hbegun ?_
  · exact (Function.update_of_ne hother ..).trans (alone other hother)
  · simp [Writers.write, written]

theorem Whole.finish (h : w.Whole) (hinside : w.inside who = some []) : (w.finish who).Whole := by
  obtain ⟨before, done, alone, begun, written⟩ := h.inside hinside
  refine .free (fun other => ?_) ?_
  · by_cases hother : other = who
    · rw [hother]
      exact Function.update_self ..
    · exact (Function.update_of_ne hother ..).trans (alone other hother)
  · simp [Writers.finish, begun, written]

omit [DecidableEq ι] in
/-- The pieces written are the first messages, all but the last one at least, and so much of the next. -/
theorem Whole.split (h : w.Whole) : ∃ n done more, w.begun.length ≤ n + 1 ∧
    w.written.map Prod.snd = ((w.begun.map Prod.snd).take n).flatten ++ done ∧
    (done = [] ∨ (w.begun.map Prod.snd)[n]? = some (done ++ more)) ∧
    (w.Free → w.begun.length ≤ n ∧ done = []) := by
  cases h with
  | free free written =>
    refine ⟨w.begun.length, [], [], by omega, ?_, .inl rfl, fun _ => ⟨le_refl _, rfl⟩⟩
    rw [List.take_of_length_le (by simp), written, List.append_nil]
  | @last who before done rest inside alone begun written =>
    refine ⟨before.length, done, rest, by simp [begun], ?_, .inr ?_, fun hfree => ?_⟩
    · simp [begun, written]
    · simp [begun]
    · simp [hfree who] at inside

end Writers

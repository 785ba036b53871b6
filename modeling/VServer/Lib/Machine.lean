import Mathlib

/-!
# Runs of a machine with labels

A machine is a function `step : σ → α → Except ε σ`: what a label does to a state, or why the run
ends there. `run` takes a list of labels; `Along P` says that every step of a run met a condition in
the state it was taken from. An invariant is proved for one step and holds along runs (`run_inv`).
-/

namespace Machine

variable {σ α ε : Type*} (step : σ → α → Except ε σ)

def run (s : σ) : List α → Except ε σ
  | [] => .ok s
  | a :: as =>
    match step s a with
    | .ok s' => run s' as
    | .error e => .error e

/-- Every label of the run meets `P` in the state it is taken in. -/
def Along (P : σ → α → Prop) (s : σ) : List α → Prop
  | [] => True
  | a :: as => P s a ∧ ∀ s', step s a = .ok s' → Along P s' as

variable {step} {P : σ → α → Prop} {s : σ}

@[simp] theorem run_nil : run step s [] = .ok s := rfl

theorem run_cons_ok {s' : σ} {a : α} {as : List α} (h : step s a = .ok s') :
    run step s (a :: as) = run step s' as := by
  rw [run, h]

theorem run_cons_inv {t : σ} {a : α} {as : List α} (h : run step s (a :: as) = .ok t) :
    ∃ s', step s a = .ok s' ∧ run step s' as = .ok t := by
  rw [run] at h
  cases hstep : step s a with
  | error e =>
    rw [hstep] at h
    cases h
  | ok s' =>
    rw [hstep] at h
    exact ⟨s', rfl, h⟩

theorem run_append_ok {s' : σ} {as : List α} (h : run step s as = .ok s') (bs : List α) :
    run step s (as ++ bs) = run step s' bs := by
  induction as generalizing s with
  | nil =>
    cases h
    rfl
  | cons a as ih =>
    obtain ⟨s₁, hstep, hrest⟩ := run_cons_inv h
    rw [List.cons_append, run_cons_ok hstep, ih hrest]

theorem run_append_inv {t : σ} {as bs : List α} (h : run step s (as ++ bs) = .ok t) :
    ∃ s', run step s as = .ok s' ∧ run step s' bs = .ok t := by
  induction as generalizing s with
  | nil => exact ⟨s, rfl, h⟩
  | cons a as ih =>
    obtain ⟨s₁, hstep, hrest⟩ := run_cons_inv h
    obtain ⟨s', has, hbs⟩ := ih hrest
    exact ⟨s', by rw [run_cons_ok hstep, has], hbs⟩

theorem run_eq_error {e : ε} {as : List α} (h : run step s as = .error e) :
    ∃ bs a cs t, as = bs ++ a :: cs ∧ run step s bs = .ok t ∧ step t a = .error e := by
  induction as generalizing s with
  | nil => cases h
  | cons a as ih =>
    cases hstep : step s a with
    | error e' =>
      rw [run, hstep] at h
      cases h
      exact ⟨[], a, as, s, rfl, rfl, hstep⟩
    | ok s' =>
      rw [run_cons_ok hstep] at h
      obtain ⟨bs, b, cs, t, rfl, hrun, herror⟩ := ih h
      exact ⟨a :: bs, b, cs, t, rfl, by rw [run_cons_ok hstep, hrun], herror⟩

theorem along_of_mem {as : List α} (h : ∀ s, ∀ a ∈ as, P s a) : Along step P s as := by
  induction as generalizing s with
  | nil => trivial
  | cons a as ih =>
    exact ⟨h s a List.mem_cons_self, fun _ _ => ih fun s b hb => h s b (List.mem_cons_of_mem a hb)⟩

theorem along_of_forall (h : ∀ s a, P s a) (as : List α) : Along step P s as :=
  along_of_mem fun s a _ => h s a

theorem Along.and {Q : σ → α → Prop} {as : List α} (hP : Along step P s as) (hQ : Along step Q s as) :
    Along step (fun s a => P s a ∧ Q s a) s as := by
  induction as generalizing s with
  | nil => trivial
  | cons a as ih => exact ⟨⟨hP.1, hQ.1⟩, fun s' hstep => ih (hP.2 s' hstep) (hQ.2 s' hstep)⟩

theorem along_imp {A : Prop} {as : List α} (h : A → Along step P s as) :
    Along step (fun s a => A → P s a) s as := by
  induction as generalizing s with
  | nil => trivial
  | cons a as ih => exact ⟨fun hA => (h hA).1, fun s' hstep => ih fun hA => (h hA).2 s' hstep⟩

/-- `Along`, computed. -/
def check (step : σ → α → Except ε σ) (P : σ → α → Prop) [∀ s a, Decidable (P s a)] (s : σ) :
    List α → Bool
  | [] => true
  | a :: as => decide (P s a) && match step s a with
    | .ok s' => check step P s' as
    | .error _ => true

theorem along_of_check [∀ s a, Decidable (P s a)] {as : List α} (h : check step P s as = true) :
    Along step P s as := by
  induction as generalizing s with
  | nil => trivial
  | cons a as ih =>
    rw [check, Bool.and_eq_true, decide_eq_true_eq] at h
    refine ⟨h.1, fun s' hstep => ih ?_⟩
    have hrest := h.2
    rwa [hstep] at hrest

/-- **The invariant rule.** What holds at the start and is kept by every step that meets `P` holds
at the end. -/
theorem run_inv {I : σ → Prop} (hstep : ∀ s a s', I s → P s a → step s a = .ok s' → I s')
    (hs : I s) {as : List α} (halong : Along step P s as) {t : σ} (hrun : run step s as = .ok t) :
    I t := by
  induction as generalizing s with
  | nil =>
    cases hrun
    exact hs
  | cons a as ih =>
    obtain ⟨s', ha, hrest⟩ := run_cons_inv hrun
    exact ih (hstep s a s' hs halong.1 ha) (halong.2 s' ha) hrest

/-- What the steps of a run put out, one after another. -/
def collect {β : Type*} (step : σ → α → Except ε σ) (f : σ → α → List β) (s : σ) : List α → List β
  | [] => []
  | a :: as => f s a ++ match step s a with
    | .ok s' => collect step f s' as
    | .error _ => []

theorem collect_append_ok {β : Type*} {f : σ → α → List β} {s' : σ} {as : List α}
    (h : run step s as = .ok s') (bs : List α) :
    collect step f s (as ++ bs) = collect step f s as ++ collect step f s' bs := by
  induction as generalizing s with
  | nil =>
    cases h
    rfl
  | cons a as ih =>
    obtain ⟨s₁, hstep, hrest⟩ := run_cons_inv h
    rw [List.cons_append, collect, collect, hstep, List.append_assoc]
    exact congrArg _ (ih hrest)

theorem run_collect_inv {β : Type*} {f : σ → α → List β} {I : σ → List β → Prop}
    (hstep : ∀ s out a s', I s out → P s a → step s a = .ok s' → I s' (out ++ f s a)) {out : List β}
    (hs : I s out) {as : List α} (halong : Along step P s as) {t : σ} (hrun : run step s as = .ok t) :
    I t (out ++ collect step f s as) := by
  induction as generalizing s out with
  | nil =>
    cases hrun
    rw [collect, List.append_nil]
    exact hs
  | cons a as ih =>
    obtain ⟨s', ha, hrest⟩ := run_cons_inv hrun
    have hafter := ih (hstep s out a s' hs halong.1 ha) (halong.2 s' ha) hrest
    rw [List.append_assoc] at hafter
    rw [collect, ha]
    exact hafter

/-- The same from the start, where nothing was put out. -/
theorem run_history {β : Type*} {f : σ → α → List β} (I : σ → List β → Prop)
    (hstep : ∀ s out a s', I s out → P s a → step s a = .ok s' → I s' (out ++ f s a)) (hs : I s [])
    {as : List α} (halong : Along step P s as) {t : σ} (hrun : run step s as = .ok t) :
    I t (collect step f s as) := run_collect_inv hstep hs halong hrun

/-! ## High-water marks -/

/-- The largest value that `m` takes in a run, its start included. -/
def peak {β : Type*} [LinearOrder β] (step : σ → α → Except ε σ) (m : σ → β) (s : σ) : List α → β
  | [] => m s
  | a :: as =>
    match step s a with
    | .ok s' => max (m s) (peak step m s' as)
    | .error _ => m s

/-- What a step raises no further than the value of `m` after it allows stays, in a run, within what
the largest value of `m` allows. -/
theorem run_le_peak {β γ : Type*} [LinearOrder β] [LinearOrder γ] {m : σ → β} {z : σ → γ}
    {bound : β → γ} (hbound : Monotone bound) {I : σ → Prop}
    (hinv : ∀ s a s', I s → P s a → step s a = .ok s' → I s')
    (hstep : ∀ s a s', I s → P s a → step s a = .ok s' → z s' ≤ max (z s) (bound (m s')))
    (hs : I s) {as : List α} (halong : Along step P s as) {t : σ} (hrun : run step s as = .ok t) :
    z t ≤ max (z s) (bound (peak step m s as)) ∧ m t ≤ peak step m s as ∧ m s ≤ peak step m s as := by
  induction as generalizing s with
  | nil =>
    cases hrun
    exact ⟨le_max_left _ _, le_refl _, le_refl _⟩
  | cons a as ih =>
    obtain ⟨s', ha, hrest⟩ := run_cons_inv hrun
    obtain ⟨hz, hlast, hfirst⟩ := ih (hinv s a s' hs halong.1 ha) (halong.2 s' ha) hrest
    have hpeak : peak step m s (a :: as) = max (m s) (peak step m s' as) := by rw [peak, ha]
    have hrises : bound (peak step m s' as) ≤ bound (peak step m s (a :: as)) := by
      rw [hpeak]
      exact hbound (le_max_right _ _)
    have hnow : z s' ≤ max (z s) (bound (peak step m s (a :: as))) :=
      (hstep s a s' hs halong.1 ha).trans
        (max_le_max_left _ ((hbound hfirst).trans hrises))
    refine ⟨hz.trans (max_le hnow (hrises.trans (le_max_right _ _))), ?_, ?_⟩
    · rw [hpeak]
      exact hlast.trans (le_max_right _ _)
    · rw [hpeak]
      exact le_max_left _ _

/-! ## What lies in front of an entry of a record -/

/-- In front of every entry of the record that is a `Q` lies what satisfies `P`. -/
def Behind {β : Type*} (P : List β → Prop) (Q : β → Prop) (record : List β) : Prop :=
  ∀ pre x post, record = pre ++ x :: post → Q x → P pre

section

variable {β : Type*} {P : List β → Prop} {Q : β → Prop} {record new : List β}

theorem behind_nil : Behind P Q [] := by
  intro pre x post h
  simp at h

theorem Behind.append (h : Behind P Q record)
    (hnew : ∀ pre x post, new = pre ++ x :: post → Q x → P (record ++ pre)) :
    Behind P Q (record ++ new) := by
  intro pre x post hsplit hx
  rcases List.append_eq_append_iff.mp hsplit with ⟨mid, rfl, hmid⟩ | ⟨mid, hold, hmid⟩
  · exact hnew mid x post hmid hx
  · cases mid with
    | nil =>
      rw [List.append_nil] at hold
      rw [← hold, ← List.append_nil record]
      exact hnew [] x post hmid.symm hx
    | cons y mid =>
      obtain ⟨rfl, -⟩ := List.cons.inj hmid
      exact h pre x mid hold hx

theorem Behind.concat (h : Behind P Q record) {x : β} (hx : Q x → P record) :
    Behind P Q (record ++ [x]) := by
  refine h.append fun pre y post hsplit hy => ?_
  cases pre with
  | nil =>
    obtain ⟨rfl, -⟩ := List.cons.inj hsplit
    rw [List.append_nil]
    exact hx hy
  | cons z pre => simp at hsplit

end

end Machine

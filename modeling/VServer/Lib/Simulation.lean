import VServer.Lib.Machine

/-!
# A machine that follows another

`follow` runs two machines side by side: where the first takes a label, `label` says which label the
second takes, if any. A relation that is kept by every such pair of steps leads from a run of the
first machine to the run of the second with the labels that are left (`run_simulation`).
-/

namespace Machine

variable {σ τ α β ε : Type*} (step : σ → α → Except ε σ) (step' : τ → β → Except ε τ)
  (label : σ → α → Option β)

/-- The first machine takes a step, and the second one follows. -/
def follow (s : σ × τ) (a : α) : Except ε (σ × τ) :=
  match step s.1 a, label s.1 a with
  | .error e, _ => .error e
  | .ok s₁, none => .ok (s₁, s.2)
  | .ok s₁, some b =>
    match step' s.2 b with
    | .ok t₁ => .ok (s₁, t₁)
    | .error e => .error e

variable {step step' label} {P : σ × τ → α → Prop} {R : σ → τ → Prop} {s s₁ : σ} {t t₁ : τ}

theorem follow_none {a : α} (hstep : step s a = .ok s₁) (hlabel : label s a = none) :
    follow step step' label (s, t) a = .ok (s₁, t) := by
  unfold follow
  dsimp only
  rw [hstep, hlabel]

theorem follow_some {a : α} {b : β} (hstep : step s a = .ok s₁) (hlabel : label s a = some b)
    (hstep' : step' t b = .ok t₁) : follow step step' label (s, t) a = .ok (s₁, t₁) := by
  unfold follow
  dsimp only
  rw [hstep, hlabel]
  dsimp only
  rw [hstep']

theorem along_follow {Q : σ → α → Prop} {as : List α} (h : Along step Q s as) :
    Along (follow step step' label) (fun s a => Q s.1 a) (s, t) as := by
  induction as generalizing s t with
  | nil => trivial
  | cons a as ih =>
    refine ⟨h.1, fun s₂ hfollow => ?_⟩
    unfold follow at hfollow
    split at hfollow
    · cases hfollow
    · rename_i hstep _
      cases hfollow
      exact ih (h.2 _ hstep)
    · rename_i hstep _
      split at hfollow
      · cases hfollow
        exact ih (h.2 _ hstep)
      · cases hfollow

/-- **The simulation rule.** -/
theorem run_simulation
    (hsim : ∀ s t a s₁, R s t → P (s, t) a → step s a = .ok s₁ →
      (label s a = none ∧ R s₁ t) ∨
        ∃ b t₁, label s a = some b ∧ step' t b = .ok t₁ ∧ R s₁ t₁)
    (hR : R s t) {as : List α} (halong : Along (follow step step' label) P (s, t) as)
    (hrun : run step s as = .ok s₁) :
    ∃ t₁, run step' t (collect step (fun s a => (label s a).toList) s as) = .ok t₁ ∧ R s₁ t₁ := by
  induction as generalizing s t with
  | nil =>
    cases hrun
    exact ⟨t, rfl, hR⟩
  | cons a as ih =>
    obtain ⟨s₂, ha, hrest⟩ := run_cons_inv hrun
    obtain ⟨hP, halong⟩ := halong
    rw [collect, ha]
    dsimp only
    rcases hsim s t a s₂ hR hP ha with ⟨hlabel, hR₂⟩ | ⟨b, t₂, hlabel, hb, hR₂⟩
    · rw [hlabel]
      exact ih hR₂ (halong _ (follow_none ha hlabel)) hrest
    · rw [hlabel]
      obtain ⟨t₁, hrun₁, hR₁⟩ := ih hR₂ (halong _ (follow_some ha hlabel hb)) hrest
      refine ⟨t₁, ?_, hR₁⟩
      rw [Option.toList_some, List.singleton_append, run_cons_ok hb, hrun₁]

end Machine

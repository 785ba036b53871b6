import Mathlib

/-!
# Condition variables

`ι` are threads and `f i` is the place thread `i` is at. A condition variable knows the places of the
threads that sleep on it, and of those that were signalled and do not have the mutex again. A signal
wakes at least one sleeper, if there is one, and may wake more; a thread may also leave the wait with
no signal at all.

`Covers n`: as long as a thread sleeps, at least `n` are on the way that were signalled. A waiter
whose condition came true `n` times is then never left asleep for want of a signal.
-/

structure CondVar (π : Type*) where
  asleep : π → Bool
  signalled : π → Bool
  wake : π → π
  signalled_wake : ∀ p, asleep p = true → signalled (wake p) = true
  asleep_wake : ∀ p, asleep (wake p) = false
  not_signalled : ∀ p, asleep p = true → signalled p = false

namespace CondVar

variable {ι π : Type*} [Fintype ι]

def threadsAt (q : π → Bool) (f : ι → π) : Finset ι := Finset.univ.filter fun i => q (f i) = true

variable (c : CondVar π)

abbrev sleepers (f : ι → π) : Finset ι := threadsAt c.asleep f

abbrev signalledThreads (f : ι → π) : Finset ι := threadsAt c.signalled f

def Covers (n : Nat) (f : ι → π) : Prop :=
  (c.sleepers f).Nonempty → n ≤ (c.signalledThreads f).card

variable {c} {f : ι → π} {n : Nat}

@[simp] theorem mem_threadsAt {q : π → Bool} {i : ι} : i ∈ threadsAt q f ↔ q (f i) = true := by
  simp [threadsAt]

theorem covers_zero : c.Covers 0 f := fun _ => Nat.zero_le _

theorem Covers.mono {m : Nat} (h : c.Covers n f) (hle : m ≤ n) : c.Covers m f :=
  fun hsleep => hle.trans (h hsleep)

variable [DecidableEq ι] (c)

def Legal (woken : Finset ι) (f : ι → π) : Prop :=
  woken ⊆ c.sleepers f ∧ ((c.sleepers f).Nonempty → woken.Nonempty)

instance (woken : Finset ι) (f : ι → π) : Decidable (c.Legal woken f) :=
  inferInstanceAs (Decidable (_ ∧ _))

def signal (woken : Finset ι) (f : ι → π) : ι → π :=
  fun i => if i ∈ woken then c.wake (f i) else f i

def broadcast (f : ι → π) : ι → π := c.signal (c.sleepers f) f

variable {c}

/-! ## A thread goes on -/

theorem sleepers_update {i : ι} {p : π} (hp : c.asleep p = false) :
    c.sleepers (Function.update f i p) ⊆ c.sleepers f := by
  intro j hj
  rw [mem_threadsAt] at hj ⊢
  by_cases hji : j = i
  · subst hji
    rw [Function.update_self, hp] at hj
    cases hj
  · rwa [Function.update_of_ne hji] at hj

theorem erase_subset_update {q : π → Bool} (i : ι) (p : π) :
    (threadsAt q f).erase i ⊆ threadsAt q (Function.update f i p) := by
  intro j hj
  obtain ⟨hji, hj⟩ := Finset.mem_erase.mp hj
  rw [mem_threadsAt] at hj ⊢
  rwa [Function.update_of_ne hji]

theorem card_update {q : π → Bool} (i : ι) (p : π) :
    (threadsAt q f).card - 1 ≤ (threadsAt q (Function.update f i p)).card :=
  Finset.pred_card_le_card_erase.trans (Finset.card_le_card (erase_subset_update i p))

theorem Covers.leave (h : c.Covers n f) (i : ι) {p : π} (hp : c.asleep p = false) :
    c.Covers (n - 1) (Function.update f i p) := by
  intro hsleep
  have hn := h (hsleep.mono (sleepers_update hp))
  exact (Nat.sub_le_sub_right hn 1).trans (card_update i p)

theorem Covers.pass (h : c.Covers n f) {i : ι} {p : π} (hp : c.asleep p = false)
    (hi : c.signalled (f i) = false) : c.Covers n (Function.update f i p) := by
  intro hsleep
  have hn := h (hsleep.mono (sleepers_update hp))
  have hcard := Finset.card_le_card (erase_subset_update (q := c.signalled) (f := f) i p)
  have hmem : i ∉ c.signalledThreads f := by
    rw [mem_threadsAt, hi]
    nofun
  rw [Finset.erase_eq_of_notMem hmem] at hcard
  exact hn.trans hcard

/-! ## A thread signals -/

theorem sleepers_signal (woken : Finset ι) :
    c.sleepers (c.signal woken f) = c.sleepers f \ woken := by
  ext i
  simp only [mem_threadsAt, Finset.mem_sdiff, signal]
  split
  · rename_i hwoken
    simp [c.asleep_wake, hwoken]
  · rename_i hasleep
    simp [hasleep]

theorem subset_signal {woken : Finset ι} (hlegal : woken ⊆ c.sleepers f) :
    c.signalledThreads f ∪ woken ⊆ c.signalledThreads (c.signal woken f) := by
  intro i hi
  rw [mem_threadsAt, signal]
  split
  · rename_i hwoken
    exact c.signalled_wake _ (mem_threadsAt.mp (hlegal hwoken))
  · rename_i hnot
    rcases Finset.mem_union.mp hi with hi | hi
    · exact mem_threadsAt.mp hi
    · exact absurd hi hnot

/-- **A signal covers one more.** -/
theorem Covers.signal {woken : Finset ι} (h : c.Covers n f) (hlegal : c.Legal woken f) :
    c.Covers (n + 1) (c.signal woken f) := by
  intro hsleep
  rw [sleepers_signal] at hsleep
  have hbefore := hsleep.mono Finset.sdiff_subset
  have hn := h hbefore
  have hwoken : 0 < woken.card := Finset.card_pos.mpr (hlegal.2 hbefore)
  have hdisjoint : Disjoint (c.signalledThreads f) woken := by
    rw [Finset.disjoint_left]
    intro i hi hmem
    have hasleep := c.not_signalled _ (mem_threadsAt.mp (hlegal.1 hmem))
    rw [mem_threadsAt, hasleep] at hi
    cases hi
  have hcard := Finset.card_le_card (subset_signal hlegal.1)
  rw [Finset.card_union_of_disjoint hdisjoint] at hcard
  omega

/-- Two condition variables of one monitor: waking on one of them moves no thread of the other. -/
def Apart (c d : CondVar π) : Prop :=
  ∀ p, c.asleep (d.wake p) = c.asleep p ∧ c.signalled (d.wake p) = c.signalled p

theorem threadsAt_signal {d : CondVar π} {q : π → Bool} (hq : ∀ p, q (d.wake p) = q p)
    (woken : Finset ι) : threadsAt q (d.signal woken f) = threadsAt q f := by
  ext i
  rw [mem_threadsAt, mem_threadsAt, CondVar.signal]
  split
  · rw [hq]
  · rfl

theorem Covers.signal_other {d : CondVar π} (h : c.Covers n f) (hapart : c.Apart d)
    (woken : Finset ι) : c.Covers n (d.signal woken f) := by
  unfold Covers sleepers signalledThreads at h ⊢
  rwa [threadsAt_signal fun p => (hapart p).1, threadsAt_signal fun p => (hapart p).2]

theorem sleepers_broadcast : c.sleepers (c.broadcast f) = ∅ := by
  rw [broadcast, sleepers_signal, Finset.sdiff_self]

theorem sleepers_signal_other {d : CondVar π} (hapart : c.Apart d) (woken : Finset ι) :
    c.sleepers (d.signal woken f) = c.sleepers f :=
  threadsAt_signal (fun p => (hapart p).1) woken

theorem signal_of_none {woken : Finset ι} (h : c.sleepers f = ∅) (hwoken : woken ⊆ c.sleepers f) :
    c.signal woken f = f := by
  have hempty : woken = ∅ := Finset.subset_empty.mp (h ▸ hwoken)
  funext i
  rw [CondVar.signal, if_neg]
  rw [hempty]
  exact Finset.notMem_empty i

omit [DecidableEq ι] in
theorem legal_empty (h : c.sleepers f = ∅) : c.Legal ∅ f := by
  refine ⟨Finset.empty_subset _, fun hsleep => ?_⟩
  rw [h] at hsleep
  exact absurd hsleep Finset.not_nonempty_empty

theorem threadsAt_update {q : π → Bool} {i : ι} {p : π} (hp : q p = false) :
    threadsAt q (Function.update f i p) ⊆ (threadsAt q f).erase i := by
  intro j hj
  rw [mem_threadsAt] at hj
  have hji : j ≠ i := by
    rintro rfl
    rw [Function.update_self, hp] at hj
    cases hj
  rw [Function.update_of_ne hji] at hj
  exact Finset.mem_erase.mpr ⟨hji, mem_threadsAt.mpr hj⟩

end CondVar

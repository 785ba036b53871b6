import VServer.Net.TimerLoop

/-!
# The two indexes of the timers

What each operation of a `TimerManager` does to `m_timers`, `m_table` and the timerfd, once and for
all (`addTimerInloop_spec`, `cancelInloop_spec`, `fillExpired_spec`). `m_timers` stays sorted whatever
the ids are; `Indexed` says that the table has the same timers under their ids, which takes ids that are
not used twice.
-/

namespace VServer

namespace Timer

variable {κ : Type} {a b c : Timer κ}

theorem before_iff :
    a.before b = true ↔ a.expire < b.expire ∨ a.expire = b.expire ∧ a.id.toNat < b.id.toNat := by
  simp [before, UInt64.lt_iff_toNat_lt]

theorem same_iff : a.same b = true ↔ a.expire = b.expire ∧ a.id = b.id := by
  have hbefore : a.same b = true ↔ ¬ a.before b = true ∧ ¬ b.before a = true := by simp [same]
  rw [hbefore, before_iff, before_iff, ← UInt64.toNat_inj]
  omega

theorem same_refl (a : Timer κ) : a.same a = true := same_iff.mpr ⟨rfl, rfl⟩

theorem before_trans (h : a.before b = true) (h' : b.before c = true) : a.before c = true := by
  rw [before_iff] at *
  omega

theorem before_of_not (h : ¬ a.before b = true) (hsame : ¬ a.same b = true) : b.before a = true := by
  rw [same_iff, ← UInt64.toNat_inj] at hsame
  rw [before_iff] at *
  omega

end Timer

/-- The order of a `std::set`. -/
def Sorted {κ : Type} (timers : List (Timer κ)) : Prop := timers.Pairwise fun a b => a.before b = true

namespace TimerManager

variable {κ : Type}

section

variable {timer t : Timer κ} {l : List (Timer κ)}

theorem mem_insertTimer (h : t ∈ insertTimer timer l) : t = timer ∨ t ∈ l := by
  induction l with
  | nil => exact .inl (List.mem_singleton.mp h)
  | cons u l ih =>
    unfold insertTimer at h
    split_ifs at h
    · exact List.mem_cons.mp h
    · rcases List.mem_cons.mp h with rfl | h
      · exact .inr List.mem_cons_self
      · exact (ih h).imp id (List.mem_cons_of_mem u)
    · exact .inr h

theorem mem_insertTimer_of_mem (h : t ∈ l) : t ∈ insertTimer timer l := by
  induction l with
  | nil => cases h
  | cons u l ih =>
    unfold insertTimer
    split_ifs
    · exact List.mem_cons_of_mem _ h
    · rcases List.mem_cons.mp h with rfl | h
      · exact List.mem_cons_self
      · exact List.mem_cons_of_mem _ (ih h)
    · exact h

theorem insertTimer_ne_nil : insertTimer timer l ≠ [] := by
  cases l with
  | nil => simp [insertTimer]
  | cons u l =>
    unfold insertTimer
    split_ifs
    all_goals simp

theorem sorted_insertTimer (h : Sorted l) : Sorted (insertTimer timer l) := by
  induction l with
  | nil => exact List.pairwise_singleton _ _
  | cons u l ih =>
    obtain ⟨hu, hl⟩ := List.pairwise_cons.mp h
    unfold insertTimer
    split_ifs with hbefore hafter
    · refine List.pairwise_cons.mpr ⟨fun x hx => ?_, h⟩
      rcases List.mem_cons.mp hx with rfl | hx
      · exact hbefore
      · exact Timer.before_trans hbefore (hu x hx)
    · refine List.pairwise_cons.mpr ⟨fun x hx => ?_, ih hl⟩
      rcases mem_insertTimer hx with rfl | hx
      · exact hafter
      · exact hu x hx
    · exact h

theorem insertTimer_perm (hid : ∀ t ∈ l, t.id ≠ timer.id) : (insertTimer timer l).Perm (timer :: l) := by
  induction l with
  | nil => exact .refl _
  | cons u l ih =>
    have hu : ¬ timer.same u = true := fun h => hid u List.mem_cons_self (Timer.same_iff.mp h).2.symm
    unfold insertTimer
    split_ifs with hbefore hafter
    · exact .refl _
    · have htail := ih fun t ht => hid t (List.mem_cons_of_mem u ht)
      exact (htail.cons u).trans (List.Perm.swap timer u l)
    · exact absurd (Timer.before_of_not hbefore hu) hafter

theorem head?_insertTimer {ts : List (Timer κ)} (h : t.expire ≤ timer.expire) :
    (insertTimer timer (t :: ts)).head?.map (·.expire) = some t.expire := by
  unfold insertTimer
  split_ifs with hbefore hafter
  · rw [Timer.before_iff] at hbefore
    have heq : timer.expire = t.expire := by omega
    rw [List.head?_cons, Option.map_some, heq]
  · rfl
  · rfl

end

/-- The timerfd after `fillExpired`, or after the first of several timers is cancelled. -/
def rearmed (clock : Nat) : List (Timer κ) → Timerfd
  | [] => .settime 0 0
  | t :: _ => .settime clock (itValue (timeSub t.expire (getCurrentTimeMS clock)))

/-- The call is about the first timer (`isAddHead`, `ishead`). -/
def isHead (tm : TimerManager κ) : TimerCall κ → Bool
  | .addTimerInloop timer => tm.timers.head?.all fun t => timer.expire < t.expire
  | .cancelInloop id => (tm.table.lookup id).any fun target => tm.timers.head?.any target.same

section

variable {tm tm' : TimerManager κ} {clock now : Nat} {fresh id : UInt64} {timer : Timer κ}
  {expired : List (Timer κ)}

theorem addTimerInloop_spec (tm : TimerManager κ) (clock : Nat) (timer : Timer κ) :
    (tm.addTimerInloop clock timer).timers = insertTimer timer tm.timers ∧
      (tm.addTimerInloop clock timer).table = tm.table.insert timer.id timer ∧
      (tm.isHead (.addTimerInloop timer) = true ∧
          (tm.addTimerInloop clock timer).timerfd = rearmed clock (insertTimer timer tm.timers) ∨
        tm.isHead (.addTimerInloop timer) = false ∧
          (tm.addTimerInloop clock timer).timerfd = tm.timerfd ∧
          ∃ t ts, tm.timers = t :: ts ∧ t.expire ≤ timer.expire) := by
  unfold addTimerInloop isHead
  dsimp only
  cases htimers : tm.timers with
  | nil => exact ⟨by simp [htimers], by simp, .inl ⟨rfl, by simp [insertTimer, rearmed]⟩⟩
  | cons t ts =>
    dsimp only
    by_cases hhead : timer.expire < t.expire
    · rw [if_pos (by simpa using hhead)]
      refine ⟨by simp [htimers], by simp, .inl ⟨by simpa using hhead, ?_⟩⟩
      rw [insertTimer, if_pos (Timer.before_iff.mpr (.inl hhead))]
      simp [rearmed]
    · rw [if_neg (by simpa using hhead)]
      exact ⟨by rw [htimers], rfl, .inr ⟨by simpa using hhead, rfl, t, ts, rfl, by omega⟩⟩

theorem cancelInloop_spec (h : tm.cancelInloop clock id = .ok tm') :
    tm.table.lookup id = none ∧ tm' = tm ∨
      ∃ target, tm.table.lookup id = some target ∧ tm.timers.any target.same = true ∧
        tm'.timers = tm.timers.eraseP target.same ∧ tm'.table = tm.table.erase id ∧
        (tm.isHead (.cancelInloop id) = true ∧ tm'.timerfd = rearmed clock tm'.timers ∨
          tm.isHead (.cancelInloop id) = false ∧ tm'.timerfd = tm.timerfd ∧
            tm'.timers.head? = tm.timers.head? ∧ tm'.timers ≠ []) := by
  unfold cancelInloop at h
  split at h
  · rename_i hlookup
    cases h
    exact .inl ⟨hlookup, rfl⟩
  · rename_i target hlookup
    refine .inr ⟨target, hlookup, ?_⟩
    dsimp only at h
    split_ifs at h with hany hsizes hhead
    · have hishead : tm.isHead (.cancelInloop id) = true := by rw [isHead, hlookup, Option.any_some, hhead]
      refine ⟨hany, ?_⟩
      split at h
      · rename_i hnil
        cases h
        simp [rearmed, hnil, hishead]
      · rename_i t ts hcons
        cases h
        simp [rearmed, hcons, hishead]
    · cases h
      have hishead : tm.isHead (.cancelInloop id) = false := by
        rw [isHead, hlookup, Option.any_some]
        exact Bool.eq_false_iff.mpr hhead
      refine ⟨hany, rfl, rfl, .inr ⟨hishead, rfl, ?_⟩⟩
      cases htimers : tm.timers with
      | nil =>
        rw [htimers] at hany
        cases hany
      | cons t ts =>
        rw [htimers] at hhead
        have hhead : ¬ target.same t = true := by simpa using hhead
        rw [List.eraseP_cons_of_neg hhead]
        exact ⟨rfl, List.cons_ne_nil _ _⟩

theorem fillExpired_spec (h : tm.fillExpired clock now fresh = .ok (tm', expired)) :
    expired ≠ [] ∧ tm.timers = expired ++ tm'.timers ∧ tm'.table = eraseIds tm.table expired ∧
      tm'.timerfd = rearmed clock tm'.timers := by
  have hrestart : ∀ {timers : List (Timer κ)} {table : AList fun _ : UInt64 => Timer κ}
      {timerfd : Timerfd} {u : TimerManager κ}, (match timers with
      | [] => closeClock ⟨timers, table, timerfd⟩
      | t :: _ => resetTimerfd ⟨timers, table, timerfd⟩ clock t.expire) = u →
      u.timers = timers ∧ u.table = table ∧ u.timerfd = rearmed clock u.timers := by
    rintro timers table timerfd u rfl
    cases timers with
    | nil => simp [rearmed]
    | cons t ts => simp [rearmed]
  unfold fillExpired at h
  dsimp only at h
  split at h
  · split at h
    · cases h
    · rename_i t ts htimers
      obtain ⟨hmanager, rfl⟩ := Prod.mk.inj (Except.ok.inj h)
      obtain ⟨hleft, htable, htimerfd⟩ := hrestart hmanager
      exact ⟨List.cons_ne_nil _ _, by rw [hleft, htimers]; rfl, htable, htimerfd⟩
  · rename_i hne
    obtain ⟨hmanager, rfl⟩ := Prod.mk.inj (Except.ok.inj h)
    obtain ⟨hleft, htable, htimerfd⟩ := hrestart hmanager
    refine ⟨fun hnil => hne hnil, ?_, htable, htimerfd⟩
    rw [hleft]
    exact List.takeWhile_append_dropWhile.symm

theorem fillExpired_error {e : Fault} (h : tm.fillExpired clock now fresh = .error e) :
    e = .undefined ∧ tm.timers = [] := by
  unfold fillExpired at h
  dsimp only at h
  split at h
  · split at h
    · rename_i hnil
      cases h
      exact ⟨rfl, hnil⟩
    · cases h
  · cases h

theorem lookup_eraseIds (table : AList fun _ : UInt64 => Timer κ) (id : UInt64) :
    (eraseIds table expired).lookup id =
      if id ∈ expired.map (·.id) then none else table.lookup id := by
  induction expired generalizing table with
  | nil => rfl
  | cons t expired ih =>
    rw [eraseIds, List.foldl_cons]
    rw [show List.foldl _ _ expired = eraseIds (table.erase t.id) expired from rfl, ih]
    by_cases hid : id = t.id
    · subst hid
      simp
    · simp [AList.lookup_erase_ne hid, hid]

end

/-! ## What the indexes have in common -/

/-- The table has the timers of the set under their ids, and nothing else. -/
structure Indexed (tm : TimerManager κ) : Prop where
  ids : (tm.timers.map (·.id)).Nodup
  table : ∀ id t, tm.table.lookup id = some t ↔ t ∈ tm.timers ∧ t.id = id

section

variable {tm tm' : TimerManager κ} {clock now : Nat} {fresh id : UInt64} {timer : Timer κ}
  {expired : List (Timer κ)}

theorem eq_of_id {l : List (Timer κ)} (hids : (l.map (·.id)).Nodup) {t u : Timer κ} (ht : t ∈ l)
    (hu : u ∈ l) (hid : t.id = u.id) : t = u := List.inj_on_of_nodup_map hids ht hu hid

theorem Indexed.length (h : tm.Indexed) : tm.timers.length = tm.table.keys.length := by
  have hperm : tm.table.keys.Perm (tm.timers.map (·.id)) := by
    rw [List.perm_ext_iff_of_nodup tm.table.keys_nodup h.ids]
    intro id
    rw [← AList.mem_keys, ← AList.lookup_isSome, Option.isSome_iff_exists, List.mem_map]
    exact ⟨fun ⟨t, ht⟩ => ⟨t, (h.table id t).mp ht⟩, fun ⟨t, ht⟩ => ⟨t, (h.table id t).mpr ht⟩⟩
  rw [hperm.length_eq, List.length_map]

theorem Indexed.eraseP (h : tm.Indexed) {target : Timer κ} (htarget : target ∈ tm.timers) :
    tm.timers.Perm (target :: tm.timers.eraseP target.same) ∧
      ∀ t, t ∈ tm.timers.eraseP target.same ↔ t ∈ tm.timers ∧ t.id ≠ target.id := by
  obtain ⟨u, l₁, l₂, hl₁, hsame, htimers, hrest⟩ :=
    List.exists_of_eraseP htarget (Timer.same_refl target)
  have hmem : u ∈ tm.timers := by
    rw [htimers]
    simp
  have hu : target = u := eq_of_id h.ids htarget hmem (Timer.same_iff.mp hsame).2
  subst hu
  have hperm : tm.timers.Perm (target :: (l₁ ++ l₂)) := by
    rw [htimers]
    exact List.perm_middle
  refine ⟨by rwa [hrest], fun t => ?_⟩
  have hnodup := (hperm.map (·.id)).nodup_iff.mp h.ids
  rw [List.map_cons, List.nodup_cons] at hnodup
  rw [hrest, hperm.mem_iff, List.mem_cons]
  constructor
  · intro ht
    refine ⟨.inr ht, fun hid => hnodup.1 ?_⟩
    rw [← hid]
    exact List.mem_map_of_mem ht
  · rintro ⟨rfl | ht, hid⟩
    · exact absurd rfl hid
    · exact ht

/-- **The assertions of `cancelInloop` hold.** -/
theorem Indexed.cancelInloop_ok (h : tm.Indexed) (clock : Nat) (id : UInt64) :
    ∃ tm', tm.cancelInloop clock id = .ok tm' := by
  unfold cancelInloop
  split
  · exact ⟨tm, rfl⟩
  · rename_i target hlookup
    obtain ⟨htarget, hid⟩ := (h.table id target).mp hlookup
    have hany : tm.timers.any target.same = true :=
      List.any_eq_true.mpr ⟨target, htarget, Timer.same_refl target⟩
    have hkey : id ∈ tm.table.keys := by
      rw [← AList.mem_keys, ← AList.lookup_isSome, hlookup]
      rfl
    have hsizes : (tm.timers.eraseP target.same).length = (tm.table.erase id).keys.length := by
      rw [List.length_eraseP_of_mem htarget (Timer.same_refl target), AList.keys_erase,
        List.length_erase_of_mem hkey, h.length]
    dsimp only
    rw [if_pos hany, if_pos hsizes]
    split_ifs
    · split
      · exact ⟨_, rfl⟩
      · exact ⟨_, rfl⟩
    · exact ⟨_, rfl⟩

theorem Indexed.addTimerInloop (h : tm.Indexed) (clock : Nat) (timer : Timer κ)
    (hid : ∀ t ∈ tm.timers, t.id ≠ timer.id) :
    (tm.addTimerInloop clock timer).Indexed ∧
      (tm.addTimerInloop clock timer).timers.Perm (timer :: tm.timers) := by
  obtain ⟨htimers, htable, -⟩ := addTimerInloop_spec tm clock timer
  have hperm : (tm.addTimerInloop clock timer).timers.Perm (timer :: tm.timers) := by
    rw [htimers]
    exact insertTimer_perm hid
  refine ⟨⟨?_, fun id t => ?_⟩, hperm⟩
  · rw [(hperm.map (·.id)).nodup_iff, List.map_cons, List.nodup_cons]
    refine ⟨fun hmem => ?_, h.ids⟩
    obtain ⟨t, ht, heq⟩ := List.mem_map.mp hmem
    exact hid t ht heq
  · rw [htable, hperm.mem_iff, List.mem_cons]
    by_cases heq : id = timer.id
    · subst heq
      rw [AList.lookup_insert, Option.some.injEq]
      constructor
      · rintro rfl
        exact ⟨.inl rfl, rfl⟩
      · rintro ⟨rfl | ht, htid⟩
        · rfl
        · exact absurd htid (hid t ht)
    · rw [AList.lookup_insert_ne heq, h.table]
      constructor
      · rintro ⟨ht, rfl⟩
        exact ⟨.inr ht, rfl⟩
      · rintro ⟨rfl | ht, rfl⟩
        · exact absurd rfl heq
        · exact ⟨ht, rfl⟩

theorem Indexed.cancelInloop (h : tm.Indexed) (hcancel : tm.cancelInloop clock id = .ok tm') :
    tm'.Indexed ∧ tm.timers.Perm ((tm.table.lookup id).toList ++ tm'.timers) ∧
      ∀ t ∈ tm'.timers, t.id ≠ id := by
  rcases cancelInloop_spec hcancel with ⟨hnone, rfl⟩ | ⟨target, hlookup, -, htimers, htable, -⟩
  · rw [hnone]
    refine ⟨h, .refl _, fun t ht hid => ?_⟩
    rw [(h.table id t).mpr ⟨ht, hid⟩] at hnone
    cases hnone
  · obtain ⟨htarget, hid⟩ := (h.table id target).mp hlookup
    obtain ⟨hperm, hmem⟩ := h.eraseP htarget
    rw [← htimers] at hperm hmem
    subst hid
    rw [hlookup]
    refine ⟨⟨?_, fun id t => ?_⟩, hperm, fun t ht => ((hmem t).mp ht).2⟩
    · have hnodup := (hperm.map (·.id)).nodup_iff.mp h.ids
      rw [List.map_cons] at hnodup
      exact hnodup.of_cons
    · rw [htable, hmem]
      by_cases heq : id = target.id
      · subst heq
        rw [AList.lookup_erase]
        simp only [reduceCtorEq, false_iff]
        rintro ⟨⟨-, hne⟩, heq⟩
        exact hne heq
      · rw [AList.lookup_erase_ne heq, h.table]
        constructor
        · rintro ⟨ht, rfl⟩
          exact ⟨⟨ht, heq⟩, rfl⟩
        · rintro ⟨⟨ht, -⟩, rfl⟩
          exact ⟨ht, rfl⟩

theorem Indexed.fillExpired (h : tm.Indexed)
    (hfill : tm.fillExpired clock now fresh = .ok (tm', expired)) : tm'.Indexed := by
  obtain ⟨-, htimers, htable, -⟩ := fillExpired_spec hfill
  have hnodup := h.ids
  rw [htimers, List.map_append, List.nodup_append] at hnodup
  refine ⟨hnodup.2.1, fun id t => ?_⟩
  rw [htable, lookup_eraseIds]
  by_cases hid : id ∈ expired.map (·.id)
  · rw [if_pos hid]
    simp only [reduceCtorEq, false_iff]
    rintro ⟨ht, rfl⟩
    exact hnodup.2.2 t.id hid t.id (List.mem_map_of_mem ht) rfl
  · rw [if_neg hid, h.table, htimers, List.mem_append]
    constructor
    · rintro ⟨ht | ht, rfl⟩
      · exact absurd (List.mem_map_of_mem ht) hid
      · exact ⟨ht, rfl⟩
    · rintro ⟨ht, rfl⟩
      exact ⟨.inr ht, rfl⟩

end

end TimerManager

end VServer

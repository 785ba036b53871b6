import Mathlib

/-!
# Messages in a stream

A reader takes one message off the front of a stream, or waits for more. It does not look at what
comes behind a message, so a stream of messages is read message by message (`messages_flatten`), and
who has seen only the beginning of a stream has read a beginning of its messages (`messages_prefix`).
-/

/-- `read text` is the message at the front of the text and what is behind it. -/
structure Messages.Reader (α β : Type*) where
  read : List β → Option (α × List β)
  read_append : ∀ {text a rest}, read text = some (a, rest) →
    ∀ more, read (text ++ more) = some (a, rest ++ more)
  read_shorter : ∀ {text a rest}, read text = some (a, rest) → rest.length < text.length

namespace Messages.Reader

variable {α β : Type*} (r : Reader α β)

/-- At most `fuel` messages. -/
def take : Nat → List β → List α × List β
  | 0, text => ([], text)
  | fuel + 1, text =>
    match r.read text with
    | none => ([], text)
    | some (a, rest) => ((a :: (take fuel rest).1), (take fuel rest).2)

/-- The messages at the front of a stream, and what is left behind them. A message is not empty, so
there are no more of them than symbols. -/
def messages (text : List β) : List α × List β := r.take text.length text

variable {r} {text rest more : List β} {a : α}

theorem take_none (h : r.read text = none) (fuel : Nat) : r.take fuel text = ([], text) := by
  cases fuel with
  | zero => rfl
  | succ fuel => rw [take, h]

theorem take_some (h : r.read text = some (a, rest)) (fuel : Nat) :
    r.take (fuel + 1) text = (a :: (r.take fuel rest).1, (r.take fuel rest).2) := by
  rw [take, h]

theorem take_of_le {fuel : Nat} (h : text.length ≤ fuel) : r.take fuel text = r.messages text := by
  induction hlength : text.length using Nat.strong_induction_on generalizing text fuel with
  | _ n ih =>
    cases hread : r.read text with
    | none => rw [messages, take_none hread, take_none hread]
    | some p =>
      obtain ⟨a, rest⟩ := p
      have hshorter := r.read_shorter hread
      obtain ⟨k, hk⟩ : ∃ k, text.length = k + 1 := ⟨text.length - 1, by omega⟩
      obtain ⟨m, rfl⟩ : ∃ m, fuel = m + 1 := ⟨fuel - 1, by omega⟩
      have hfuel : ∀ j, rest.length ≤ j → r.take j rest = r.messages rest := fun j hj =>
        ih rest.length (hlength ▸ hshorter) hj rfl
      rw [messages, hk, take_some hread, take_some hread, hfuel m (by omega), hfuel k (by omega)]

theorem messages_none (h : r.read text = none) : r.messages text = ([], text) := take_none h _

theorem messages_some (h : r.read text = some (a, rest)) :
    r.messages text = (a :: (r.messages rest).1, (r.messages rest).2) := by
  have hshorter := r.read_shorter h
  rw [← take_of_le (Nat.le_succ text.length), take_some h, take_of_le (Nat.le_of_lt hshorter)]

theorem messages_append (h : r.read text = some (a, [])) (more : List β) :
    r.messages (text ++ more) = (a :: (r.messages more).1, (r.messages more).2) :=
  messages_some (r.read_append h more)

/-- **A stream of messages is read message by message.** -/
theorem messages_flatten {texts : List (List β)} {as : List α}
    (h : List.Forall₂ (fun text a => r.read text = some (a, [])) texts as) (more : List β) :
    r.messages (texts.flatten ++ more) = (as ++ (r.messages more).1, (r.messages more).2) := by
  induction h with
  | nil => rfl
  | cons hread _ ih =>
    rw [List.flatten_cons, List.append_assoc, messages_append hread, ih]
    rfl

/-- **The beginning of a stream has a beginning of its messages.** -/
theorem messages_prefix (text more : List β) :
    (r.messages text).1 <+: (r.messages (text ++ more)).1 := by
  induction hlength : text.length using Nat.strong_induction_on generalizing text with
  | _ n ih =>
    cases hread : r.read text with
    | none =>
      rw [messages_none hread]
      exact List.nil_prefix
    | some p =>
      obtain ⟨a, rest⟩ := p
      have hshorter := r.read_shorter hread
      rw [messages_some hread, messages_some (r.read_append hread more)]
      exact List.cons_prefix_cons.mpr ⟨rfl, ih _ (hlength ▸ hshorter) rest rfl⟩

theorem messages_begun (h : r.read (text ++ more) = some (a, [])) (hmore : more ≠ []) :
    r.messages text = ([], text) := by
  refine messages_none ?_
  cases hread : r.read text with
  | none => rfl
  | some p =>
    obtain ⟨b, rest⟩ := p
    have hwhole := r.read_append hread more
    rw [h] at hwhole
    obtain ⟨-, hrest⟩ := Prod.mk.inj (Option.some.inj hwhole)
    exact absurd (List.append_eq_nil_iff.mp hrest.symm).2 hmore

/-- **A stream that ends in a message** is read up to that message, or up to its end. -/
theorem messages_split {texts : List (List β)} {as : List α} {n : Nat}
    (h : List.Forall₂ (fun text a => r.read text = some (a, [])) texts as)
    (hlast : text = [] ∨ texts[n]? = some (text ++ more)) : ∃ k, n ≤ k ∧
      r.messages ((texts.take n).flatten ++ text) = (as.take k, (r.messages text).2) ∧
      ((r.messages text).2 = [] ∨
        (r.messages text).2 = text ∧ texts[k]? = some (text ++ more) ∧ more ≠ []) := by
  have hfirst := messages_flatten (List.forall₂_take n h) text
  by_cases htext : text = []
  · subst htext
    exact ⟨n, le_refl n, by rw [hfirst]; simp [messages, take], .inl rfl⟩
  · have hnext := hlast.resolve_left htext
    obtain ⟨a, ha, hread⟩ : ∃ a, as[n]? = some a ∧ r.read (text ++ more) = some (a, []) := by
      obtain ⟨hlength, hreads⟩ := List.forall₂_iff_get.mp h
      obtain ⟨hn, hget⟩ := List.getElem?_eq_some_iff.mp hnext
      refine ⟨as[n], List.getElem?_eq_getElem (hlength ▸ hn), ?_⟩
      rw [← hget]
      exact hreads n hn (hlength ▸ hn)
    by_cases hmore : more = []
    · subst hmore
      rw [List.append_nil] at hread
      have hone : r.messages text = ([a], []) := by
        simpa [messages, take] using messages_some hread
      refine ⟨n + 1, by omega, ?_, .inl (by rw [hone])⟩
      rw [hfirst, hone, List.take_add_one, ha]
      rfl
    · have hnone := messages_begun hread hmore
      refine ⟨n, le_refl n, ?_, .inr ⟨by rw [hnone], hnext, hmore⟩⟩
      rw [hfirst, hnone, List.append_nil]

/-! ## Reading more into a message -/

variable {γ : Type*}

/-- A reader that makes something of each message. It stops at one that says nothing. -/
def filterMap (r : Reader α β) (g : α → Option γ) : Reader γ β where
  read text := (r.read text).bind fun p => (g p.1).map (·, p.2)
  read_append := by
    intro text c rest h more
    obtain ⟨⟨a, rest'⟩, hread, hmap⟩ := Option.bind_eq_some_iff.mp h
    obtain ⟨c', hg, hpair⟩ := Option.map_eq_some_iff.mp hmap
    cases hpair
    rw [r.read_append hread more, Option.bind_some, hg]
    rfl
  read_shorter := by
    intro text c rest h
    obtain ⟨⟨a, rest'⟩, hread, hmap⟩ := Option.bind_eq_some_iff.mp h
    obtain ⟨c', hg, hpair⟩ := Option.map_eq_some_iff.mp hmap
    cases hpair
    exact r.read_shorter hread

theorem filterMap_read {r : Reader α β} {g : α → Option γ} {a : α} {c : γ}
    (hread : r.read text = some (a, rest)) (hg : g a = some c) :
    (r.filterMap g).read text = some (c, rest) := by
  show (r.read text).bind _ = _
  rw [hread, Option.bind_some, hg]
  rfl

end Messages.Reader

/-! ## Messages with a delimiter behind them -/

namespace Messages

variable {β : Type*} [DecidableEq β]

/-- The text in front of the first `d`, and the text behind it. -/
def cutAt (d : β) : List β → Option (List β × List β)
  | [] => none
  | b :: text => if b = d then some ([], text) else (cutAt d text).map fun p => (b :: p.1, p.2)

variable {d : β} {text field rest : List β}

theorem cutAt_field (h : d ∉ field) (rest : List β) : cutAt d (field ++ d :: rest) = some (field, rest) := by
  induction field with
  | nil => simp [cutAt]
  | cons b field ih =>
    obtain ⟨hb, hrest⟩ := not_or.mp (fun h' => h (List.mem_cons.mpr h'))
    rw [List.cons_append, cutAt, if_neg (Ne.symm hb), ih hrest]
    rfl

theorem cutAt_append (h : cutAt d text = some (field, rest)) (more : List β) :
    cutAt d (text ++ more) = some (field, rest ++ more) := by
  induction text generalizing field with
  | nil => simp [cutAt] at h
  | cons b text ih =>
    rw [cutAt] at h
    rw [List.cons_append, cutAt]
    split_ifs at h ⊢
    · cases h
      rfl
    · obtain ⟨p, hp, hcons⟩ := Option.map_eq_some_iff.mp h
      cases hcons
      rw [ih hp]
      rfl

theorem length_lt_of_cutAt (h : cutAt d text = some (field, rest)) : rest.length < text.length := by
  induction text generalizing field with
  | nil => simp [cutAt] at h
  | cons b text ih =>
    rw [cutAt] at h
    rw [List.length_cons]
    split_ifs at h
    · cases h
      omega
    · obtain ⟨p, hp, hcons⟩ := Option.map_eq_some_iff.mp h
      cases hcons
      have := ih hp
      omega

def Reader.upTo (d : β) : Reader (List β) β where
  read := cutAt d
  read_append := cutAt_append
  read_shorter := length_lt_of_cutAt

end Messages

import Mathlib

/-!
# Texts made of lines

A line ends with two symbols, `cr` and `lf`. A head is lines up to the first one that is empty: the
text is cut where the end of a line is followed by another end (`cutBlank`), and what is in front is
cut at the ends of its lines (`split`). `readHead_cons` reads a head line by line, whatever is behind.
-/

namespace TextLines

variable {α : Type*} [DecidableEq α] (cr lf : α)

/-- The text in front of the first empty line, without the end of its last line, and the text behind
that empty line. -/
def cutBlank : List α → Option (List α × List α)
  | [] => none
  | a :: text =>
    if [cr, lf, cr, lf] <+: a :: text then some ([], text.drop 3)
    else (cutBlank text).map fun p => (a :: p.1, p.2)

def split : List α → List (List α)
  | [] => [[]]
  | [a] => [[a]]
  | a :: b :: text =>
    if a = cr ∧ b = lf then [] :: split text else (split (b :: text)).modifyHead (a :: ·)

/-- The lines up to the first empty one, and the text behind that. -/
def readHead (text : List α) : Option (List (List α) × List α) :=
  if [cr, lf] <+: text then some ([], text.drop 2)
  else (cutBlank cr lf text).map fun p => (split cr lf p.1, p.2)

variable {cr lf} {line text : List α}

/-! ## Lines -/

theorem split_cons {a : α} (ha : a ≠ cr) (text : List α) :
    split cr lf (a :: text) = (split cr lf text).modifyHead (a :: ·) := by
  cases text with
  | nil => rfl
  | cons b text => rw [split, if_neg fun h => ha h.1]

theorem split_end (text : List α) : split cr lf (cr :: lf :: text) = [] :: split cr lf text :=
  if_pos ⟨rfl, rfl⟩

theorem split_line (hline : cr ∉ line) : split cr lf line = [line] := by
  induction line with
  | nil => rfl
  | cons a line ih =>
    obtain ⟨ha, hrest⟩ := not_or.mp (fun h => hline (List.mem_cons.mpr h))
    rw [split_cons (Ne.symm ha), ih hrest]
    rfl

theorem split_append_end (hline : cr ∉ line) (text : List α) :
    split cr lf (line ++ cr :: lf :: text) = line :: split cr lf text := by
  induction line with
  | nil => exact split_end text
  | cons a line ih =>
    obtain ⟨ha, hrest⟩ := not_or.mp (fun h => hline (List.mem_cons.mpr h))
    rw [List.cons_append, split_cons (Ne.symm ha), ih hrest]
    rfl

/-! ## The empty line -/

theorem cutBlank_blank (text : List α) : cutBlank cr lf (cr :: lf :: cr :: lf :: text) = some ([], text) :=
  if_pos ⟨text, rfl⟩

theorem cutBlank_cons {a : α} (ha : a ≠ cr) (text : List α) :
    cutBlank cr lf (a :: text) = (cutBlank cr lf text).map fun p => (a :: p.1, p.2) := by
  rw [cutBlank, if_neg]
  intro hprefix
  exact ha (List.cons_prefix_cons.mp hprefix).1.symm

theorem cutBlank_line (hline : cr ∉ line) (text : List α) :
    cutBlank cr lf (line ++ text) = (cutBlank cr lf text).map fun p => (line ++ p.1, p.2) := by
  induction line with
  | nil => simp
  | cons a line ih =>
    obtain ⟨ha, hrest⟩ := not_or.mp (fun h => hline (List.mem_cons.mpr h))
    rw [List.cons_append, cutBlank_cons (Ne.symm ha), ih hrest, Option.map_map]
    rfl

theorem cutBlank_end (hne : cr ≠ lf) (htext : ¬[cr, lf] <+: text) :
    cutBlank cr lf (cr :: lf :: text) =
      (cutBlank cr lf text).map fun p => (cr :: lf :: p.1, p.2) := by
  have hnot : ¬[cr, lf, cr, lf] <+: cr :: lf :: text := by
    rw [List.cons_prefix_cons, List.cons_prefix_cons]
    exact fun h => htext h.2.2
  rw [cutBlank, if_neg hnot, cutBlank_cons (Ne.symm hne), Option.map_map]
  rfl

theorem le_length_of_cutBlank {p : List α × List α} (h : cutBlank cr lf text = some p) :
    4 ≤ text.length := by
  induction text generalizing p with
  | nil => cases h
  | cons a text ih =>
    rw [cutBlank] at h
    split_ifs at h with hprefix
    · exact hprefix.length_le
    · obtain ⟨q, hq, -⟩ := Option.map_eq_some_iff.mp h
      exact (ih hq).trans (Nat.le_succ _)

theorem cutBlank_append {head rest : List α} (h : cutBlank cr lf text = some (head, rest))
    (more : List α) : cutBlank cr lf (text ++ more) = some (head, rest ++ more) := by
  induction text generalizing head with
  | nil => cases h
  | cons a text ih =>
    have hlength := le_length_of_cutBlank h
    rw [List.length_cons] at hlength
    rw [cutBlank] at h
    rw [List.cons_append, cutBlank]
    split_ifs at h with hprefix
    · cases h
      have hmore : [cr, lf, cr, lf] <+: a :: (text ++ more) :=
        hprefix.trans (List.prefix_append (a :: text) more)
      rw [if_pos hmore, List.drop_append_of_le_length (by omega)]
    · obtain ⟨q, hq, hcons⟩ := Option.map_eq_some_iff.mp h
      cases hcons
      have hnot : ¬[cr, lf, cr, lf] <+: a :: (text ++ more) := fun hmore =>
        hprefix (List.prefix_of_prefix_length_le hmore (List.prefix_append (a :: text) more)
          (by simpa using hlength))
      rw [if_neg hnot, ih hq]
      rfl

theorem length_lt_of_cutBlank {head rest : List α} (h : cutBlank cr lf text = some (head, rest)) :
    rest.length < text.length := by
  induction text generalizing head with
  | nil => cases h
  | cons a text ih =>
    have hlength := le_length_of_cutBlank h
    rw [List.length_cons] at hlength ⊢
    rw [cutBlank] at h
    split_ifs at h
    · cases h
      rw [List.length_drop]
      omega
    · obtain ⟨q, hq, hcons⟩ := Option.map_eq_some_iff.mp h
      cases hcons
      exact Nat.lt_succ_of_lt (ih hq)

theorem cutBlank_isSome (text more : List α) :
    (cutBlank cr lf (text ++ cr :: lf :: cr :: lf :: more)).isSome := by
  induction text with
  | nil => rw [List.nil_append, cutBlank_blank, Option.isSome_some]
  | cons a text ih =>
    rw [List.cons_append, cutBlank]
    split_ifs
    · rfl
    · rw [Option.isSome_map, ih]

/-! ## The head -/

/-- **A head is read line by line.** -/
theorem readHead_cons (hne : cr ≠ lf) (hline : cr ∉ line) (hnonempty : line ≠ []) (text : List α) :
    readHead cr lf (line ++ cr :: lf :: text) =
      (readHead cr lf text).map fun p => (line :: p.1, p.2) := by
  have hstart : ¬[cr, lf] <+: line ++ cr :: lf :: text := by
    obtain ⟨a, rest, rfl⟩ := List.exists_cons_of_ne_nil hnonempty
    intro hprefix
    exact hline (by rw [(List.cons_prefix_cons.mp hprefix).1]; exact List.mem_cons_self)
  rw [readHead, if_neg hstart, cutBlank_line hline, readHead]
  split_ifs with hblank
  · obtain ⟨body, rfl⟩ := hblank
    show ((cutBlank cr lf (cr :: lf :: cr :: lf :: body)).map _).map _ = _
    rw [cutBlank_blank]
    simp [split_line hline]
  · rw [cutBlank_end hne hblank]
    simp only [Option.map_map]
    congr 1
    funext p
    exact congrArg (·, p.2) (split_append_end hline p.1)

theorem readHead_append {lines : List (List α)} {rest : List α}
    (h : readHead cr lf text = some (lines, rest)) (more : List α) :
    readHead cr lf (text ++ more) = some (lines, rest ++ more) := by
  rw [readHead] at h ⊢
  split_ifs at h with hblank
  · obtain ⟨body, rfl⟩ := hblank
    cases h
    rw [if_pos ⟨body ++ more, List.append_assoc [cr, lf] body more⟩]
    rfl
  · obtain ⟨q, hq, hsplit⟩ := Option.map_eq_some_iff.mp h
    have hlength := le_length_of_cutBlank hq
    have hnot : ¬[cr, lf] <+: text ++ more := fun hmore =>
      hblank (List.prefix_of_prefix_length_le hmore (List.prefix_append text more)
        ((by decide : 2 ≤ 4).trans hlength))
    cases hsplit
    rw [if_neg hnot, cutBlank_append hq]
    rfl

theorem cutBlank_of_readHead {lines : List (List α)} {rest : List α}
    (h : readHead cr lf text = some (line :: lines, rest)) :
    ∃ head, cutBlank cr lf text = some (head, rest) ∧ split cr lf head = line :: lines := by
  rw [readHead] at h
  split_ifs at h with hblank
  · cases h
  · obtain ⟨⟨head, body⟩, hcut, hsplit⟩ := Option.map_eq_some_iff.mp h
    obtain ⟨hlines, rfl⟩ := Prod.mk.inj hsplit
    exact ⟨head, hcut, hlines⟩

theorem readHead_blank (body : List α) : readHead cr lf (cr :: lf :: body) = some ([], body) :=
  if_pos ⟨body, rfl⟩

theorem readHead_isSome {ended : List α} (h : ended = [] ∨ [cr, lf] <:+ ended) :
    (readHead cr lf (ended ++ [cr, lf])).isSome := by
  rcases h with rfl | ⟨text, rfl⟩
  · rw [List.nil_append, readHead_blank, Option.isSome_some]
  · have hcut := @cutBlank_isSome _ _ cr lf text []
    rw [readHead, List.append_assoc]
    split_ifs
    · rfl
    · rwa [Option.isSome_map]

end TextLines

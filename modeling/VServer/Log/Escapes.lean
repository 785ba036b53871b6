import VServer.Log.Patterns

/-!
# The percent sign in a pattern

`%%` is to stand for a percent sign: where a `%` comes right behind another one, `init` collects a `%`
and goes on with the next byte. That byte is the second `%`, which is not skipped. It starts a directive
from whatever comes behind the two, or, where that is a `%` again, is collected as well. So there is no
place in a pattern where `%%` adds a percent sign and nothing else (`escape_broken`).
-/

namespace VServer

open Http

/-- What the item contributes, a literal byte by byte; so it does not matter how literals are cut. -/
def FormatItem.pieces : FormatItem → List (Byte ⊕ FormatItem)
  | .string text => text.map .inl
  | item => [.inr item]

namespace LogFormatter

def pieces (f : LogFormatter) : List (Byte ⊕ FormatItem) := f.items.flatMap FormatItem.pieces

/-! ## The pieces of a pattern -/

/-- The pieces that `init` has read, those of the literal it still collects included. -/
def Scan.pieces (s : Scan) : List (Byte ⊕ FormatItem) :=
  (s.vec.map entryItem).flatMap FormatItem.pieces ++ s.nstr.map .inl

variable {pattern : List Byte} {s : Scan}

@[simp] theorem pieces_flush (nstr : List Byte) :
    ((flush nstr).map entryItem).flatMap FormatItem.pieces = nstr.map .inl := by
  unfold flush
  split_ifs with hempty
  · rw [hempty]
    rfl
  · simp [entryItem, FormatItem.pieces]

@[simp] theorem unknown_flush (nstr : List Byte) : (flush nstr).any unknown = false := by
  unfold flush
  split_ifs <;> rfl

theorem init_pieces (pattern : List Byte) :
    (init pattern).pieces = (finish pattern ⟨0, [], [], false⟩).pieces ∧
      (init pattern).error = ((finish pattern ⟨0, [], [], false⟩).error ||
        (finish pattern ⟨0, [], [], false⟩).vec.any unknown) := by
  rw [init_eq, foldl_addItem]
  refine ⟨?_, by simp⟩
  simp only [pieces, Scan.pieces, List.nil_append, List.map_append, List.flatMap_append, pieces_flush]

def Token.pieces (t : Token) : List (Byte ⊕ FormatItem) := t.item.pieces

theorem item_pieces (field : Field) (fmt : List Byte) : (field.item fmt).pieces = [.inr (field.item fmt)] := by
  cases field <;> rfl

theorem read_pieces (t : Token) (s : Scan) : (t.read s).pieces = s.pieces ++ t.pieces := by
  cases t with
  | literal text => simp [Token.read, Scan.pieces, Token.pieces, Token.item, FormatItem.pieces]
  | directive field fmt =>
    simp [Token.read, Scan.pieces, Token.pieces, entryItem_entry]

theorem foldl_read_pieces (tokens : List Token) (s : Scan) :
    (tokens.foldl Token.read s).pieces = s.pieces ++ tokens.flatMap Token.pieces := by
  induction tokens generalizing s with
  | nil => simp
  | cons t tokens ih => rw [List.foldl_cons, ih, read_pieces, List.flatMap_cons, List.append_assoc]

theorem foldl_read_unknown (tokens : List Token) (s : Scan) :
    (tokens.foldl Token.read s).vec.any unknown = s.vec.any unknown := by
  induction tokens generalizing s with
  | nil => rfl
  | cons t tokens ih =>
    rw [List.foldl_cons, ih]
    cases t with
    | literal text => rfl
    | directive field fmt => simp [Token.read, entryItem_entry]

/-! ## What stays when the scanner goes on -/

theorem turn_grows (pattern : List Byte) (s : Scan) :
    s.vec <+: (turn pattern s).vec ∧ (s.error = true → (turn pattern s).error = true) := by
  unfold turn
  split
  · exact ⟨List.prefix_refl _, id⟩
  · dsimp only
    split_ifs
    · exact ⟨List.prefix_refl _, id⟩
    · exact ⟨List.prefix_refl _, id⟩
    · exact ⟨List.prefix_append _ _, fun _ => rfl⟩
    · rw [List.append_assoc]
      exact ⟨List.prefix_append _ _, id⟩

theorem finish_grows (pattern : List Byte) (s : Scan) :
    s.vec <+: (finish pattern s).vec ∧ (s.error = true → (finish pattern s).error = true) := by
  induction hleft : pattern.length - s.i using Nat.strong_induction_on generalizing s with
  | h left ih =>
    by_cases hlt : s.i < pattern.length
    · have hmore := lt_turn hlt
      obtain ⟨hvec, herror⟩ := turn_grows pattern s
      obtain ⟨hvec', herror'⟩ := ih _ (by omega) (turn pattern s) rfl
      rw [finish_turn hlt]
      exact ⟨hvec.trans hvec', fun h => herror' (herror h)⟩
    · rw [finish_of_le (Nat.le_of_not_lt hlt)]
      exact ⟨List.prefix_refl _, id⟩

/-! ## A percent sign that starts a directive -/

theorem scanDirective_str {i : Nat} (rest : List Byte) {d : Directive}
    (hd : d.str <+: pattern.drop (i + 1)) :
    (scanDirective pattern i rest d).str <+: pattern.drop (i + 1) := by
  induction rest generalizing d with
  | nil => exact hd
  | cons c rest ih =>
    unfold scanDirective
    split
    · exact List.take_prefix _ _
    · split
      · exact ih (List.take_prefix _ _)
      · split
        · exact hd
        · refine ih ?_
          dsimp only
          split_ifs
          · exact List.prefix_refl _
          · exact hd

theorem turn_directive {rest : List Byte} (hdrop : pattern.drop s.i = percent :: rest)
    (hrest : rest.head? ≠ some percent) :
    (turn pattern s).error = true ∨ ∃ str fmt, str <+: rest ∧
      (turn pattern s).vec = s.vec ++ flush s.nstr ++ [(str, fmt, 1)] := by
  have hbehind : pattern.drop (s.i + 1) = rest := drop_add hdrop
  have hstr : (scanDirective pattern s.i rest ⟨s.i + 1, false, 0, [], []⟩).str <+: rest := by
    have h := @scanDirective_str pattern s.i rest ⟨s.i + 1, false, 0, [], []⟩ List.nil_prefix
    rwa [hbehind] at h
  rw [turn, hdrop]
  dsimp only
  rw [if_neg (by simp), if_neg hrest]
  split_ifs
  · exact .inl rfl
  · exact .inr ⟨_, _, hstr, rfl⟩

theorem lookup_eq_some {str fmt : List Byte} {item : FormatItem}
    (h : (formatItems fmt).lookup str = some item) :
    ∃ field : Field, str = [field.letter] ∧ item = field.item fmt := by
  obtain ⟨before, after, hitems, -⟩ := List.lookup_eq_some_iff.mp h
  have hmem : (str, item) ∈ [Field.message, .level, .name, .threadId, .newLine, .dateTime, .filename,
      .line, .tab, .fiberId, .threadName].map fun field => ([field.letter], field.item fmt) := by
    have hfields : [Field.message, .level, .name, .threadId, .newLine, .dateTime, .filename,
      .line, .tab, .fiberId, .threadName].map (fun field => ([field.letter], field.item fmt)) =
        formatItems fmt := rfl
    rw [hfields, hitems]
    simp
  obtain ⟨field, -, hfield⟩ := List.mem_map.mp hmem
  cases hfield
  exact ⟨field, rfl, rfl⟩

/-! ## A place between two tokens -/

section

variable {rest rest' : List Byte} {tokens as bs : List Token}

theorem delimited_append :
    Delimited rest (as ++ bs) ↔ Delimited (bs.flatMap Token.text ++ rest) as ∧ Delimited rest bs := by
  induction as with
  | nil => simp [Delimited]
  | cons t as ih => simp [Delimited, ih, and_assoc]

theorem Delimited.change (h : Delimited rest tokens) (hrest : ∀ c ∈ rest'.head?, Closes c) :
    Delimited rest' tokens := by
  induction tokens with
  | nil => trivial
  | cons t tokens ih =>
    refine ⟨?_, ih h.2⟩
    have hends := h.1
    cases t with
    | literal text => trivial
    | directive field fmt =>
      cases fmt with
      | some fmt => trivial
      | none =>
        cases htext : tokens.flatMap Token.text with
        | nil => exact hrest
        | cons c text =>
          rw [htext] at hends
          exact hends

end

/-- A pattern of literals and directives, and a place between two of its tokens. Literals may stand side
by side, so the place may be anywhere in the text of one. -/
structure Place where
  before : List Token
  after : List Token
  ok : ∀ t ∈ before ++ after, t.Ok
  delimited : Delimited [] (before ++ after)

namespace Place

variable (p : Place)

def text : List Byte := p.before.flatMap Token.text ++ p.after.flatMap Token.text

/-- The pattern with `%%` at the place. -/
def escaped : List Byte :=
  p.before.flatMap Token.text ++ percent :: percent :: p.after.flatMap Token.text

/-- What `%%` is to do there: one percent sign more, and nothing else. -/
structure Escapes : Prop where
  parsed : (init p.escaped).pieces =
    p.before.flatMap Token.pieces ++ .inl percent :: p.after.flatMap Token.pieces
  error : (init p.escaped).error = (init p.text).error
  formatted : ∀ strftime event, (init p.escaped).format strftime event =
    (p.before.flatMap fun t => t.item.format strftime event) ++
      percent :: p.after.flatMap fun t => t.item.format strftime event

theorem ok_before : ∀ t ∈ p.before, t.Ok := fun t ht => p.ok t (List.mem_append_left _ ht)

theorem ok_after : ∀ t ∈ p.after, t.Ok := fun t ht => p.ok t (List.mem_append_right _ ht)

theorem delimited_after : Delimited [] p.after := (delimited_append.mp p.delimited).2

theorem read_text : (init p.text).pieces = p.before.flatMap Token.pieces ++ p.after.flatMap Token.pieces ∧
    (init p.text).error = false := by
  have hdrop : p.text.drop 0 = (p.before ++ p.after).flatMap Token.text ++ [] := by
    rw [List.drop_zero, List.append_nil, List.flatMap_append, text]
  obtain ⟨hread, hend⟩ := @finish_tokens p.text ⟨0, [], [], false⟩ _ [] p.ok p.delimited hdrop
  obtain ⟨hpieces, herror⟩ := init_pieces p.text
  rw [hpieces, herror, hread, finish_of_le (List.drop_eq_nil_iff.mp hend)]
  refine ⟨?_, ?_⟩
  · rw [foldl_read_pieces, List.flatMap_append]
    rfl
  · rw [foldl_read_error, foldl_read_unknown]
    rfl

theorem exists_scan : ∃ s, finish p.escaped ⟨0, [], [], false⟩ = finish p.escaped s ∧
    p.escaped.drop s.i = percent :: p.after.flatMap Token.text ∧
    s.pieces = p.before.flatMap Token.pieces ++ [.inl percent] := by
  have hdelimited : Delimited (percent :: percent :: p.after.flatMap Token.text) p.before := by
    refine (delimited_append.mp p.delimited).1.change ?_
    rintro c ⟨⟩
    exact closes_percent
  obtain ⟨hread, hdrop⟩ := @finish_tokens p.escaped ⟨0, [], [], false⟩ p.before _ p.ok_before hdelimited
    rfl
  have hpieces := foldl_read_pieces p.before ⟨0, [], [], false⟩
  generalize p.before.foldl Token.read ⟨0, [], [], false⟩ = s at hread hdrop hpieces
  have hlength := length_of_drop hdrop
  rw [List.length_cons] at hlength
  have hturn : turn p.escaped s = { s with nstr := s.nstr ++ [percent], i := s.i + 1 } := by
    rw [turn, hdrop]
    simp
  refine ⟨turn p.escaped s, ?_, ?_, ?_⟩
  · rw [hread, finish_turn (by omega)]
  · rw [hturn]
    exact drop_add hdrop
  · rw [hturn]
    have hs : s.pieces = p.before.flatMap Token.pieces := hpieces.trans (List.nil_append _)
    rw [← hs]
    simp [Scan.pieces]

theorem not_escapes_directive (hnext : (p.after.flatMap Token.text).head? = some percent) :
    ¬ p.Escapes := by
  rintro ⟨hparsed, -, -⟩
  obtain ⟨s, hfinish, hdrop, hpieces⟩ := p.exists_scan
  have hlength := length_of_drop hdrop
  rw [List.length_cons] at hlength
  have hturn : turn p.escaped s = { s with nstr := s.nstr ++ [percent], i := s.i + 1 } := by
    rw [turn, hdrop]
    simp [hnext]
  have hbehind : p.escaped.drop (turn p.escaped s).i = p.after.flatMap Token.text ++ [] := by
    rw [hturn, List.append_nil]
    exact drop_add hdrop
  obtain ⟨hread, hend⟩ := finish_tokens p.ok_after p.delimited_after hbehind
  rw [(init_pieces _).1, hfinish, finish_turn (by omega), hread,
    finish_of_le (List.drop_eq_nil_iff.mp hend), foldl_read_pieces] at hparsed
  have htwo : (turn p.escaped s).pieces = s.pieces ++ [.inl percent] := by
    rw [hturn]
    simp [Scan.pieces]
  rw [htwo, hpieces] at hparsed
  have hcount := congrArg List.length hparsed
  simp at hcount

theorem after_pieces (hnext : (p.after.flatMap Token.text).head? ≠ some percent) (item : FormatItem)
    (others : List (Byte ⊕ FormatItem)) : p.after.flatMap Token.pieces ≠ .inr item :: others := by
  have hok := p.ok_after
  intro hpieces
  cases hafter : p.after with
  | nil =>
    rw [hafter] at hpieces
    cases hpieces
  | cons t tokens =>
    rw [hafter] at hpieces hnext hok
    cases t with
    | directive field fmt =>
      apply hnext
      cases fmt <;> rfl
    | literal text =>
      obtain ⟨c, text, rfl⟩ := List.exists_cons_of_ne_nil (hok _ List.mem_cons_self).1
      cases hpieces

theorem not_escapes_literal (hnext : (p.after.flatMap Token.text).head? ≠ some percent) :
    ¬ p.Escapes := by
  rintro ⟨hparsed, herror, -⟩
  obtain ⟨s, hfinish, hdrop, hpieces⟩ := p.exists_scan
  have hlength := length_of_drop hdrop
  rw [List.length_cons] at hlength
  have hlast : finish p.escaped ⟨0, [], [], false⟩ = finish p.escaped (turn p.escaped s) := by
    rw [hfinish, finish_turn (by omega)]
  obtain ⟨hvec, hkept⟩ := finish_grows p.escaped (turn p.escaped s)
  rw [(read_text p).2, (init_pieces _).2, hlast, Bool.or_eq_false_iff] at herror
  obtain ⟨hnone, hknown⟩ := herror
  rcases turn_directive hdrop hnext with hbroken | ⟨str, fmt, hstr, hpushed⟩
  · rw [hkept hbroken] at hnone
    cases hnone
  · obtain ⟨more, hmore⟩ := hvec
    rw [hpushed] at hmore
    rw [← hmore] at hknown
    have hentry : unknown (str, fmt, 1) = false := by
      by_contra h
      simp [h] at hknown
    cases hlookup : (formatItems fmt).lookup str with
    | none => simp [unknown, hlookup] at hentry
    | some item =>
      -- the name is the first letter of the literal, which is not a piece of its own any more
      obtain ⟨field, rfl, rfl⟩ := lookup_eq_some hlookup
      have hpieces' : (finish p.escaped (turn p.escaped s)).pieces = s.pieces ++ .inr (field.item fmt) ::
          ((more.map entryItem).flatMap FormatItem.pieces ++
            (finish p.escaped (turn p.escaped s)).nstr.map .inl) := by
        have hitem : entryItem ([field.letter], fmt, 1) = field.item fmt :=
          (entryItem_entry (.directive field (some fmt))).1
        rw [Scan.pieces, ← hmore]
        simp [Scan.pieces, hitem, item_pieces]
      rw [(init_pieces _).1, hlast, hpieces', hpieces, List.append_assoc, List.singleton_append] at hparsed
      have hafter := (List.cons.inj (List.append_cancel_left hparsed)).2
      exact p.after_pieces hnext _ _ hafter.symm

/-- **There is no place where `%%` adds a percent sign and nothing else.** -/
theorem escape_broken : ¬ p.Escapes := by
  by_cases hnext : (p.after.flatMap Token.text).head? = some percent
  · exact p.not_escapes_directive hnext
  · exact p.not_escapes_literal hnext

end Place

/-- `100`, and the place behind it. -/
def hundred : Place where
  before := [.literal (bytes "100")]
  after := []
  ok := by decide +kernel
  delimited := ⟨trivial, trivial⟩

theorem escape_lost : ¬ ∀ p : Place, p.Escapes := by
  intro h
  have herror := (h hundred).error
  have hbroken : (init hundred.escaped).error = true := by decide +kernel
  have hbefore : (init hundred.text).error = false := by decide +kernel
  rw [hbroken, hbefore] at herror
  cases herror

example : (init (bytes "100%%")).items =
    [.string (bytes "100%"), .string (bytes "<<error_format %>>")] := by decide +kernel

end LogFormatter

end VServer

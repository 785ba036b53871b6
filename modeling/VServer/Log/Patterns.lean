import VServer.Log.Formatter

/-!
# Log patterns parse back

A pattern is written as literals and directives, one after another (`Token`), and `init` reads it back
as the same: between two tokens the scanner stands at the text of the tokens that are left, has pushed
an entry for each token behind it, and may still hold the last literal in `nstr`
(`finish_tokens`). A directive without braces reads letters and braces as its own name, so what comes
next must not start with one (`Follows`, `Delimited`).
-/

namespace VServer

open Http

namespace LogFormatter

variable {pattern : List Byte} {s : Scan}

/-! ## The loop comes to its end -/

theorem le_scanDirective (i : Nat) (rest : List Byte) (d : Directive) :
    d.n ≤ (scanDirective pattern i rest d).n := by
  induction rest generalizing d with
  | nil => exact Nat.le_refl _
  | cons c rest ih =>
    unfold scanDirective
    split
    · exact Nat.le_refl _
    · split
      · exact (Nat.le_succ _).trans (ih { d with
          str := substr pattern (i + 1) (d.n - i - 1)
          fmtStatus := true
          fmtBegin := d.n
          n := d.n + 1 })
      · split
        · exact Nat.le_succ _
        · exact (Nat.le_succ _).trans (ih { d with n := d.n + 1, str := _ })

theorem lt_turn (hlt : s.i < pattern.length) : s.i < (turn pattern s).i := by
  unfold turn
  split
  · rename_i hdrop
    rw [List.drop_eq_nil_iff] at hdrop
    omega
  · rename_i c rest hdrop
    have hname : s.i + 1 ≤ (scanDirective pattern s.i rest ⟨s.i + 1, false, 0, [], []⟩).n :=
      le_scanDirective s.i rest ⟨s.i + 1, false, 0, [], []⟩
    dsimp only
    split_ifs
    · exact Nat.lt_succ_self _
    · exact Nat.lt_succ_self _
    · exact Nat.lt_succ_self _
    · exact hname

theorem loop_eq_loop {fuel fuel' : Nat} (h : pattern.length - s.i ≤ fuel)
    (h' : pattern.length - s.i ≤ fuel') : loop pattern fuel s = loop pattern fuel' s := by
  induction fuel generalizing s fuel' with
  | zero =>
    cases fuel' with
    | zero => rfl
    | succ fuel' =>
      rw [loop, loop, if_neg (by omega)]
  | succ fuel ih =>
    cases fuel' with
    | zero => rw [loop, loop, if_neg (by omega)]
    | succ fuel' =>
      rw [loop, loop]
      split_ifs with hlt
      · have hmore := lt_turn hlt
        exact ih (by omega) (by omega)
      · rfl

def finish (pattern : List Byte) (s : Scan) : Scan := loop pattern (pattern.length - s.i) s

theorem finish_of_le (h : pattern.length ≤ s.i) : finish pattern s = s := by
  rw [finish, Nat.sub_eq_zero_of_le h, loop]

theorem finish_turn (hlt : s.i < pattern.length) : finish pattern s = finish pattern (turn pattern s) := by
  have hmore := lt_turn hlt
  have hfuel : loop pattern (pattern.length - s.i) s = loop pattern (pattern.length - s.i - 1 + 1) s :=
    loop_eq_loop (Nat.le_refl _) (by omega)
  rw [finish, hfuel, loop, if_pos hlt]
  exact loop_eq_loop (by omega) (Nat.le_refl _)

/-! ## One directive -/

section

variable {c x : Byte} {i : Nat} {rest fmt : List Byte} {d : Directive}

theorem ne_of_isalpha (h : isalpha c = true) : c ≠ openBrace ∧ c ≠ closeBrace ∧ c ≠ percent := by
  refine ⟨?_, ?_, ?_⟩
  all_goals
    rintro rfl
    revert h
    decide

theorem scanDirective_letter (hx : isalpha x = true) (hstatus : d.fmtStatus = false) :
    scanDirective pattern i (x :: rest) d = scanDirective pattern i rest { d with
      n := d.n + 1
      str := if d.n + 1 = pattern.length ∧ d.str = [] then pattern.drop (i + 1) else d.str } := by
  obtain ⟨hopen, -, -⟩ := ne_of_isalpha hx
  rw [scanDirective]
  simp [hx, hstatus, hopen]

def Closes (c : Byte) : Prop := isalpha c = false ∧ c ≠ openBrace ∧ c ≠ closeBrace

instance : DecidablePred Closes := fun c =>
  inferInstanceAs (Decidable (isalpha c = false ∧ c ≠ openBrace ∧ c ≠ closeBrace))

theorem scanDirective_closes (hc : Closes c) (hstatus : d.fmtStatus = false) :
    scanDirective pattern i (c :: rest) d = { d with str := substr pattern (i + 1) (d.n - i - 1) } := by
  obtain ⟨halpha, hopen, hclose⟩ := hc
  rw [scanDirective]
  simp [halpha, hstatus, hopen, hclose]

theorem scanDirective_open (hstatus : d.fmtStatus = false) :
    scanDirective pattern i (openBrace :: rest) d = scanDirective pattern i rest { d with
      str := substr pattern (i + 1) (d.n - i - 1)
      fmtStatus := true
      fmtBegin := d.n
      n := d.n + 1 } := by
  rw [scanDirective]
  simp [hstatus]

theorem scanDirective_fmt (hfmt : closeBrace ∉ fmt) (hstatus : d.fmtStatus = true) (hstr : d.str ≠ []) :
    scanDirective pattern i (fmt ++ closeBrace :: rest) d = { d with
      fmt := substr pattern (d.fmtBegin + 1) (d.n + fmt.length - d.fmtBegin - 1)
      fmtStatus := false
      n := d.n + fmt.length + 1 } := by
  induction fmt generalizing d with
  | nil =>
    rw [List.nil_append, scanDirective]
    simp [hstatus]
  | cons c fmt ih =>
    obtain ⟨hc, hrest⟩ := not_or.mp (fun h => hfmt (List.mem_cons.mpr h))
    rw [List.cons_append, scanDirective]
    simp only [hstatus, Bool.not_true, Bool.false_and, Bool.false_eq_true, if_false, Bool.true_and,
      beq_iff_eq, Ne.symm hc, hstr, and_false]
    rw [@ih ⟨d.n + 1, true, d.fmtBegin, d.str, d.fmt⟩ hrest rfl hstr]
    have hn : d.n + 1 + fmt.length = d.n + (c :: fmt).length := by
      rw [List.length_cons]
      omega
    rw [hn]

end

/-! ## One turn -/

section

variable {c x : Byte} {rest fmt : List Byte}

theorem turn_literal (hdrop : pattern.drop s.i = c :: rest) (hc : c ≠ percent) :
    turn pattern s = { s with nstr := s.nstr ++ [c], i := s.i + 1 } := by
  rw [turn, hdrop]
  exact if_pos hc

theorem drop_add {k : Nat} (hdrop : pattern.drop s.i = rest) : pattern.drop (s.i + k) = rest.drop k := by
  rw [← hdrop, List.drop_drop]

theorem length_of_drop (hdrop : pattern.drop s.i = rest) : pattern.length - s.i = rest.length := by
  rw [← hdrop, List.length_drop]

theorem substr_name {i : Nat} (hname : pattern.drop (i + 1) = x :: rest) :
    substr pattern (i + 1) (i + 1 + 1 - i - 1) = [x] := by
  have hone : i + 1 + 1 - i - 1 = 1 := by omega
  rw [hone, substr, hname]
  rfl

theorem turn_of_scan {d : Directive} (hdrop : pattern.drop s.i = percent :: x :: rest)
    (hx : isalpha x = true)
    (hscan : scanDirective pattern s.i (x :: rest) ⟨s.i + 1, false, 0, [], []⟩ = d)
    (hstatus : d.fmtStatus = false) :
    turn pattern s =
      { s with vec := s.vec ++ flush s.nstr ++ [(d.str, d.fmt, 1)], nstr := [], i := d.n } := by
  obtain ⟨-, -, hpercent⟩ := ne_of_isalpha hx
  rw [turn, hdrop]
  simp [hscan, hstatus, hpercent]

theorem turn_bare (hdrop : pattern.drop s.i = percent :: x :: rest) (hx : isalpha x = true)
    (hrest : ∀ c ∈ rest.head?, Closes c) :
    turn pattern s =
      { s with vec := s.vec ++ flush s.nstr ++ [([x], [], 1)], nstr := [], i := s.i + 2 } := by
  have hname : pattern.drop (s.i + 1) = x :: rest := drop_add hdrop
  have hlength := length_of_drop hdrop
  rw [List.length_cons, List.length_cons] at hlength
  cases rest with
  | nil =>
    have hlast : s.i + 1 + 1 = pattern.length := by
      rw [List.length_nil] at hlength
      omega
    refine turn_of_scan hdrop hx (d := ⟨s.i + 2, false, 0, [x], []⟩) ?_ rfl
    rw [scanDirective_letter hx rfl, scanDirective]
    simp [hlast, hname]
  | cons c rest =>
    have hmore : s.i + 1 + 1 ≠ pattern.length := by
      rw [List.length_cons] at hlength
      omega
    refine turn_of_scan hdrop hx (d := ⟨s.i + 2, false, 0, [x], []⟩) ?_ rfl
    rw [scanDirective_letter hx rfl, scanDirective_closes (hrest c rfl) rfl]
    simp only [substr_name hname]

theorem turn_braced (hx : isalpha x = true) (hfmt : closeBrace ∉ fmt)
    (hdrop : pattern.drop s.i = percent :: x :: openBrace :: (fmt ++ closeBrace :: rest)) :
    turn pattern s = { s with
      vec := s.vec ++ flush s.nstr ++ [([x], fmt, 1)]
      nstr := []
      i := s.i + (fmt.length + 4) } := by
  have hname : pattern.drop (s.i + 1) = x :: openBrace :: (fmt ++ closeBrace :: rest) := drop_add hdrop
  have hinside : pattern.drop (s.i + 3) = fmt ++ closeBrace :: rest := drop_add hdrop
  have hlength := length_of_drop hdrop
  have hmore : s.i + 1 + 1 ≠ pattern.length := by
    simp only [List.length_cons] at hlength
    omega
  refine turn_of_scan hdrop hx (d := ⟨s.i + (fmt.length + 4), false, s.i + 2, [x], fmt⟩) ?_ rfl
  rw [scanDirective_letter hx rfl, scanDirective_open rfl]
  simp only [substr_name hname]
  rw [scanDirective_fmt hfmt rfl (List.cons_ne_nil x [])]
  have hwidth : s.i + 1 + 1 + 1 + fmt.length - (s.i + 1 + 1) - 1 = fmt.length := by omega
  have hstr : substr pattern (s.i + 1 + 1 + 1) fmt.length = fmt := by
    rw [substr, hinside, List.take_left]
  simp only [hwidth, hstr]
  congr 1
  omega

end

/-! ## Tokens -/

/-- What a directive stands for. -/
inductive Field where
  | message | level | name | threadId | newLine | dateTime | filename | line | tab | fiberId
  | threadName
  deriving DecidableEq, Repr

def Field.letter : Field → Byte
  | .message => Char.toUInt8 'm'
  | .level => Char.toUInt8 'p'
  | .name => Char.toUInt8 'c'
  | .threadId => Char.toUInt8 't'
  | .newLine => Char.toUInt8 'n'
  | .dateTime => Char.toUInt8 'd'
  | .filename => Char.toUInt8 'f'
  | .line => Char.toUInt8 'l'
  | .tab => Char.toUInt8 'T'
  | .fiberId => Char.toUInt8 'F'
  | .threadName => Char.toUInt8 'N'

def Field.item (fmt : List Byte) : Field → FormatItem
  | .message => .message
  | .level => .level
  | .name => .name
  | .threadId => .threadId
  | .newLine => .newLine
  | .dateTime => .ofFormat fmt
  | .filename => .filename
  | .line => .line
  | .tab => .tab
  | .fiberId => .fiberId
  | .threadName => .threadName

inductive Token where
  | literal (text : List Byte)
  | directive (field : Field) (fmt : Option (List Byte))
  deriving DecidableEq, Repr

namespace Token

def text : Token → List Byte
  | .literal text => text
  | .directive field none => [percent, field.letter]
  | .directive field (some fmt) => percent :: field.letter :: openBrace :: (fmt ++ [closeBrace])

/-- The item that is wanted for it. -/
def item : Token → FormatItem
  | .literal text => .string text
  | .directive field fmt => field.item (fmt.getD [])

/-- What `init` pushes for it. -/
def entry : Token → List Byte × List Byte × Nat
  | .literal text => (text, [], 0)
  | .directive field fmt => ([field.letter], fmt.getD [], 1)

def Ok : Token → Prop
  | .literal text => text ≠ [] ∧ percent ∉ text
  | .directive _ fmt => ∀ f ∈ fmt, closeBrace ∉ f

instance : DecidablePred Ok := fun t =>
  match t with
  | .literal text => inferInstanceAs (Decidable (text ≠ [] ∧ percent ∉ text))
  | .directive _ fmt => inferInstanceAs (Decidable (∀ f ∈ fmt, closeBrace ∉ f))

end Token

def Follows : Token → Token → Prop
  | .literal _, .literal _ => False
  | .directive _ none, .literal text => ∀ c ∈ text.head?, Closes c
  | _, _ => True

instance : DecidableRel Follows := fun t next =>
  match t, next with
  | .literal _, .literal _ => inferInstanceAs (Decidable False)
  | .directive _ none, .literal text => inferInstanceAs (Decidable (∀ c ∈ text.head?, Closes c))
  | .directive _ none, .directive _ _ => inferInstanceAs (Decidable True)
  | .directive _ (some _), .literal _ => inferInstanceAs (Decidable True)
  | .directive _ (some _), .directive _ _ => inferInstanceAs (Decidable True)
  | .literal _, .directive _ _ => inferInstanceAs (Decidable True)

/-- A pattern, as one thinks of it. -/
structure Pattern where
  tokens : List Token
  ok : ∀ t ∈ tokens, t.Ok
  follows : tokens.IsChain Follows

def Pattern.text (p : Pattern) : List Byte := p.tokens.flatMap Token.text

theorem isalpha_letter (field : Field) : isalpha field.letter = true := by cases field <;> decide

theorem lookup_letter (field : Field) (fmt : List Byte) :
    (formatItems fmt).lookup [field.letter] = some (field.item fmt) := by
  cases field <;> rfl

/-! ## The whole pattern -/

/-- A directive without braces is closed by what comes behind it. -/
def Token.Ends (rest : List Byte) : Token → Prop
  | .directive _ none => ∀ c ∈ rest.head?, Closes c
  | _ => True

/-- In the text of the tokens, with `rest` behind them, each token ends where it ends. -/
def Delimited (rest : List Byte) : List Token → Prop
  | [] => True
  | t :: tokens => t.Ends (tokens.flatMap Token.text ++ rest) ∧ Delimited rest tokens

/-- What `init` has in hand when it has read the token. -/
def Token.read (s : Scan) : Token → Scan
  | .literal text => { s with nstr := s.nstr ++ text, i := s.i + text.length }
  | .directive field fmt => { s with
      vec := s.vec ++ flush s.nstr ++ [Token.entry (.directive field fmt)]
      nstr := []
      i := s.i + (Token.text (.directive field fmt)).length }

theorem closes_percent : Closes percent := ⟨by decide, by decide, by decide⟩

theorem delimited_of_follows {tokens : List Token} (hok : ∀ t ∈ tokens, t.Ok)
    (hchain : tokens.IsChain Follows) : Delimited [] tokens := by
  induction tokens with
  | nil => trivial
  | cons t tokens ih =>
    obtain ⟨-, hothers⟩ := List.forall_mem_cons.mp hok
    refine ⟨?_, ih hothers hchain.tail⟩
    cases t with
    | literal text => trivial
    | directive field fmt =>
      cases fmt with
      | some fmt => trivial
      | none =>
        rw [List.append_nil]
        cases tokens with
        | nil => nofun
        | cons next tokens =>
          obtain ⟨hfollows, -⟩ := List.isChain_cons_cons.mp hchain
          cases next with
          | literal text =>
            obtain ⟨hne, -⟩ := hothers _ List.mem_cons_self
            obtain ⟨c, rest, rfl⟩ := List.exists_cons_of_ne_nil hne
            exact hfollows
          | directive field fmt => cases fmt <;> rintro c ⟨⟩ <;> exact closes_percent

theorem finish_literal {text rest : List Byte} (hdrop : pattern.drop s.i = text ++ rest)
    (htext : percent ∉ text) :
    finish pattern s =
      finish pattern { s with nstr := s.nstr ++ text, i := s.i + text.length } := by
  induction text generalizing s with
  | nil => simp
  | cons c text ih =>
    obtain ⟨hc, hrest⟩ := not_or.mp (fun h => htext (List.mem_cons.mpr h))
    have hlength := length_of_drop hdrop
    rw [List.cons_append, List.length_cons] at hlength
    rw [finish_turn (by omega), turn_literal hdrop (Ne.symm hc), ih (drop_add hdrop) hrest]
    simp only [List.append_assoc, List.singleton_append, List.length_cons]
    rw [Nat.add_assoc, Nat.add_comm 1]

theorem finish_token {t : Token} {rest : List Byte} (hok : t.Ok) (hends : t.Ends rest)
    (hdrop : pattern.drop s.i = t.text ++ rest) :
    finish pattern s = finish pattern (t.read s) ∧ pattern.drop (t.read s).i = rest := by
  cases t with
  | literal text => exact ⟨finish_literal hdrop hok.2, (drop_add hdrop).trans List.drop_left⟩
  | directive field fmt =>
    refine ⟨?_, (drop_add hdrop).trans List.drop_left⟩
    have hx := isalpha_letter field
    have hlt : s.i < pattern.length := by
      have hlength := length_of_drop hdrop
      cases fmt <;> rw [Token.text, List.length_append, List.length_cons] at hlength <;> omega
    rw [finish_turn hlt]
    cases fmt with
    | none => exact congrArg (finish pattern) (turn_bare hdrop hx hends)
    | some fmt =>
      have hrest : pattern.drop s.i =
          percent :: field.letter :: openBrace :: (fmt ++ closeBrace :: rest) := by
        rw [hdrop, Token.text]
        simp
      rw [turn_braced hx (hok fmt rfl) hrest]
      simp [Token.read, Token.entry, Token.text]

/-- **The scanner reads the tokens one by one**, whatever comes behind them. -/
theorem finish_tokens {tokens : List Token} {rest : List Byte} (hok : ∀ t ∈ tokens, t.Ok)
    (hdelimited : Delimited rest tokens)
    (hdrop : pattern.drop s.i = tokens.flatMap Token.text ++ rest) :
    finish pattern s = finish pattern (tokens.foldl Token.read s) ∧
      pattern.drop (tokens.foldl Token.read s).i = rest := by
  induction tokens generalizing s with
  | nil => exact ⟨rfl, hdrop⟩
  | cons t tokens ih =>
    obtain ⟨hthis, hothers⟩ := List.forall_mem_cons.mp hok
    rw [List.flatMap_cons, List.append_assoc] at hdrop
    obtain ⟨hread, hleft⟩ := finish_token hthis hdelimited.1 hdrop
    obtain ⟨hreads, hend⟩ := ih hothers hdelimited.2 hleft
    exact ⟨hread.trans hreads, hend⟩

@[simp] theorem foldl_read_error (tokens : List Token) (s : Scan) :
    (tokens.foldl Token.read s).error = s.error := by
  induction tokens generalizing s with
  | nil => rfl
  | cons t tokens ih =>
    rw [List.foldl_cons, ih]
    cases t <;> rfl

/-- Each token has become an entry, or is the literal that is still collected. Two literals never meet
there. -/
theorem foldl_read_entries {tokens : List Token} (hok : ∀ t ∈ tokens, t.Ok)
    (hchain : tokens.IsChain Follows)
    (hnstr : s.nstr = [] ∨ ∀ text, tokens.head? ≠ some (.literal text)) :
    (tokens.foldl Token.read s).vec ++ flush (tokens.foldl Token.read s).nstr =
      s.vec ++ flush s.nstr ++ tokens.map Token.entry := by
  induction tokens generalizing s with
  | nil => simp
  | cons t tokens ih =>
    obtain ⟨hthis, hothers⟩ := List.forall_mem_cons.mp hok
    rw [List.foldl_cons]
    cases t with
    | literal text =>
      have hempty : s.nstr = [] := hnstr.resolve_right fun h => h text rfl
      have hnext : ∀ text', tokens.head? ≠ some (.literal text') := by
        intro text' hhead
        cases tokens with
        | nil => cases hhead
        | cons next tokens =>
          cases hhead
          exact (List.isChain_cons_cons.mp hchain).1
      rw [ih hothers hchain.tail (.inr hnext)]
      simp [Token.read, hempty, flush, hthis.1, Token.entry]
    | directive field fmt =>
      rw [ih hothers hchain.tail (.inl rfl)]
      simp [Token.read, flush]

/-- The item for an entry of `vec`. -/
def entryItem (entry : List Byte × List Byte × Nat) : FormatItem :=
  if entry.2.2 = 0 then .string entry.1
  else ((formatItems entry.2.1).lookup entry.1).getD
    (.string (bytes "<<error_format %" ++ entry.1 ++ bytes ">>"))

/-- The entry is a directive with a name that is not in `s_format_items`. -/
def unknown (entry : List Byte × List Byte × Nat) : Bool :=
  entry.2.2 ≠ 0 ∧ (formatItems entry.2.1).lookup entry.1 = none

theorem foldl_addItem (entries : List (List Byte × List Byte × Nat)) (f : LogFormatter) :
    entries.foldl addItem f =
      { f with items := f.items ++ entries.map entryItem, error := f.error || entries.any unknown } := by
  induction entries generalizing f with
  | nil => simp
  | cons entry entries ih =>
    have hone : addItem f entry =
        { f with items := f.items ++ [entryItem entry], error := f.error || unknown entry } := by
      unfold addItem entryItem unknown
      split_ifs with hliteral
      · simp [hliteral]
      · cases hlookup : (formatItems entry.2.1).lookup entry.1 <;> simp [hliteral]
    rw [List.foldl_cons, hone, ih]
    simp [Bool.or_assoc]

theorem entryItem_entry (t : Token) : entryItem t.entry = t.item ∧ unknown t.entry = false := by
  cases t with
  | literal text => exact ⟨rfl, rfl⟩
  | directive field fmt => simp [entryItem, unknown, Token.entry, Token.item, lookup_letter]

theorem init_eq (pattern : List Byte) :
    init pattern = ((finish pattern ⟨0, [], [], false⟩).vec ++
      flush (finish pattern ⟨0, [], [], false⟩).nstr).foldl addItem
        ⟨pattern, (finish pattern ⟨0, [], [], false⟩).error, []⟩ := rfl

/-- **A pattern is read back as it was written**: without an error, and with an item for each of its
tokens, so that `format` writes what they stand for in the order of the pattern. -/
theorem init_text (p : Pattern) :
    init p.text = ⟨p.text, false, p.tokens.map Token.item⟩ ∧
      ∀ strftime event, (init p.text).format strftime event =
        p.tokens.flatMap fun t => t.item.format strftime event := by
  have hdrop : p.text.drop 0 = p.tokens.flatMap Token.text ++ [] := (List.append_nil _).symm
  obtain ⟨hread, hend⟩ := @finish_tokens p.text ⟨0, [], [], false⟩ p.tokens [] p.ok
    (delimited_of_follows p.ok p.follows) hdrop
  have hitems : init p.text = ⟨p.text, false, p.tokens.map Token.item⟩ := by
    rw [init_eq, hread, finish_of_le (List.drop_eq_nil_iff.mp hend),
      foldl_read_entries p.ok p.follows (.inl rfl), foldl_addItem]
    simp [flush, Function.comp_def, entryItem_entry]
  refine ⟨hitems, fun strftime event => ?_⟩
  rw [hitems, format, List.flatMap_map]

/-- The pattern that `Logger` is made with. -/
def loggerPattern : Pattern where
  tokens := [Token.directive .dateTime (some (bytes "%Y-%m-%d %H:%M:%S")), .directive .tab none,
    .directive .threadId none, .directive .tab none, .directive .fiberId none, .directive .tab none,
    .literal (bytes "["), .directive .level none, .literal (bytes "]"), .directive .tab none,
    .literal (bytes "["), .directive .name none, .literal (bytes "] "), .directive .filename none,
    .literal (bytes ":"), .directive .line none, .literal (bytes " "), .directive .tab none,
    .directive .message none, .directive .newLine none]
  ok := by decide +kernel
  follows := by decide +kernel

theorem init_text_logger :
    loggerPattern.text = bytes "%d\x7b%Y-%m-%d %H:%M:%S\x7d%T%t%T%F%T[%p]%T[%c] %f:%l %T%m%n" ∧
      (init loggerPattern.text).error = false ∧
      ∀ strftime event, (init loggerPattern.text).format strftime event =
        loggerPattern.tokens.flatMap fun t => t.item.format strftime event := by
  obtain ⟨hparsed, hformat⟩ := init_text loggerPattern
  refine ⟨by decide +kernel, ?_, hformat⟩
  rw [hparsed]

end LogFormatter

end VServer

import VServer.Http.Bounds

/-!
# The head of a message

`Head` is the head of a message by its tokens and `Head.text` its bytes, up to the `\n` of the blank
line. `Head.Loose` is what the states of the parser really test: the first byte of a token often
differs from the others, a method is any word of capitals and a version any word, `\r` and `\n` are
bytes like others in most places, and between the last `\r` and its `\n` anything may stand. `Turns` is
the parser on its way through bytes it can neither fail on nor stop at.
-/

namespace VServer

open Http

/-- A token: the first byte of one kind, the others of another. -/
def Http.Token (first other : Byte → Prop) (xs : List Byte) : Prop :=
  ∃ c cs, xs = c :: cs ∧ first c ∧ ∀ x ∈ cs, other x

/-- A header line: the name, the blanks behind the colon, the value. -/
structure WireHeader where
  key : List Byte
  lead : List Byte
  value : List Byte

namespace Wire

/-- `key=value` pairs, each but the first behind a `&`. -/
def pairsText : List (List Byte × List Byte) → List Byte
  | [] => []
  | [(k, v)] => k ++ 61 :: v
  | (k, v) :: pairs => k ++ 61 :: v ++ 38 :: pairsText pairs

/-- A header line with the `\n` that ends the line before it and its own `\r`. -/
def headerText (h : WireHeader) : List Byte := LF :: h.key ++ 58 :: h.lead ++ h.value ++ [CR]

def IsGap (gap : List Byte) : Prop := gap ≠ [] ∧ ∀ c ∈ gap, isblank c = true

end Wire

structure Head where
  /-- What stands before the request line. -/
  lead : List Byte
  method : List Byte
  gap : List Byte
  path : List Byte
  params : List (List Byte × List Byte)
  gap' : List Byte
  version : List Byte
  heads : List WireHeader
  /-- What stands between the `\r` and the `\n` of the blank line. -/
  stray : List Byte

namespace Scanner

/-- What `START` skips. -/
def IsLead (c : Byte) : Prop := c = CR ∨ c = LF ∨ isblank c = true

instance (c : Byte) : Decidable (IsLead c) := inferInstanceAs (Decidable (_ ∨ _ ∨ _))

theorem not_isLead_of_isupper {c : Byte} (h : isupper c = true) : ¬ IsLead c := by
  simp only [IsLead, isupper, isblank, CR, LF, decide_eq_true_eq, UInt8.le_iff_toNat_le,
    ← UInt8.toNat_inj] at h ⊢
  simp at h ⊢
  omega

theorem not_isupper_of_isblank {c : Byte} (h : isblank c = true) : isupper c = false := by
  by_contra hupper
  exact not_isLead_of_isupper (by simpa using hupper) (Or.inr (Or.inr h))

end Scanner

namespace Head

/-- The path and, behind a `?`, the parameters. -/
def target (g : Head) : List Byte :=
  match g.params with
  | [] => g.path
  | params => g.path ++ 63 :: Wire.pairsText params

/-- The head up to the `\r` of its last line. -/
def core (g : Head) : List Byte :=
  g.lead ++ (g.method ++ g.gap) ++ g.target ++ g.gap' ++ g.version ++ [CR] ++
    g.heads.flatMap Wire.headerText

def text (g : Head) : List Byte := g.core ++ [LF, CR] ++ g.stray ++ [LF]

/-- The header map: the first line of a name counts. -/
def headerMap (g : Head) : List (List Byte × List Byte) :=
  Assoc.insertAll [] (g.heads.map fun h => (h.key, h.value))

def request (g : Head) (state : ParseState) : HttpRequest :=
  { (HttpRequest.fresh.setMethod g.method).setVersion g.version with
    path := g.path
    params := Assoc.insertAll [] g.params
    heads := g.headerMap
    state := state }

def StartsParam (c : Byte) : Prop := isblank c = false ∧ c ≠ LF ∧ c ≠ CR

structure LooseParam (p : List Byte × List Byte) : Prop where
  key : Token StartsParam (fun c => c ≠ 61 ∧ isblank c = false) p.1
  value : Token StartsParam (fun c => c ≠ 38 ∧ isblank c = false) p.2

structure LooseHeader (h : WireHeader) : Prop where
  key : Token (fun c => c ≠ CR ∧ isblank c = false) (fun c => c ≠ 58) h.key
  lead : ∀ c ∈ h.lead, isblank c = true
  value : ∀ c ∈ h.value, c ≠ CR
  value_blank : ∀ c, h.value.head? = some c → isblank c = false

/-- What the states of the parser test of a head. -/
structure Loose (g : Head) : Prop where
  lead : ∀ c ∈ g.lead, Scanner.IsLead c
  method : Token (fun c => isupper c = true) (fun c => isupper c = true) g.method
  gap : Wire.IsGap g.gap
  path : Token (fun c => c = 47) (fun c => isblank c = false ∧ c ≠ 63) g.path
  params : ∀ p ∈ g.params, LooseParam p
  gap' : Wire.IsGap g.gap'
  version : Token (fun c => isblank c = false) (fun c => c ≠ CR) g.version
  heads : ∀ h ∈ g.heads, LooseHeader h
  stray : ∀ c ∈ g.stray, c ≠ LF

end Head

/-! ## Turns -/

namespace Scanner

/-- From `s` the parser takes a turn for each byte and is `t`: none of them is the end of the head. -/
inductive Turns : Scanner → List Byte → Scanner → Prop
  | nil (s : Scanner) : Turns s [] s
  | cons {s s' t : Scanner} {c : Byte} {rest : List Byte} (hstop : s.req.state.stopped = false)
      (hbody : s.req.state ≠ .body) (hblank : ¬(s.req.state = .wCrLfCr ∧ c = LF))
      (hturn : ∀ left, s.turn c left = .ok s') (hrest : Turns (s'.push c) rest t) :
      Turns s (c :: rest) t

theorem Turns.append {s t u : Scanner} {a b : List Byte} (h : Turns s a t) (h' : Turns t b u) :
    Turns s (a ++ b) u := by
  induction h with
  | nil => exact h'
  | cons hstop hbody hblank hturn _ ih => exact .cons hstop hbody hblank hturn (ih h')

theorem Turns.read {s t : Scanner} {seg : List Byte} (h : Turns s seg t) (beyond rest : List Byte) :
    read beyond s (seg ++ rest) = read beyond t rest := by
  induction h with
  | nil => rfl
  | cons hstop hbody _ hturn _ ih =>
    rw [List.cons_append, read_cons_turn hstop hbody (hturn _), ih]

theorem Turns.head {s t : Scanner} {seg : List Byte} (h : Turns s seg t) (rest : List Byte) :
    s.head (seg ++ rest) = t.head rest := by
  induction h with
  | nil => rfl
  | cons hstop hbody hblank hturn _ ih =>
    rw [List.cons_append, Scanner.head, if_neg (by simp [hstop, hbody]), if_neg hblank, hturn]
    exact ih

theorem turns_of_head {s t : Scanner} {msg rest : List Byte} (h : s.head msg = some (t, rest)) :
    ∃ seg, msg = seg ++ LF :: rest ∧ Turns s seg t ∧ t.req.state = .wCrLfCr := by
  induction msg generalizing s with
  | nil => cases h
  | cons c tail ih =>
    rw [Scanner.head] at h
    split_ifs at h with hstop hblank
    · cases h
      obtain ⟨hstate, rfl⟩ := hblank
      exact ⟨[], rfl, .nil _, hstate⟩
    · push Not at hstop
      obtain ⟨s', hturn, -⟩ := turn_ok c hblank hstop.2
      simp only [hturn] at h
      obtain ⟨seg, rfl, hturns, hstate⟩ := ih h
      exact ⟨c :: seg, rfl, .cons (by simpa using hstop.1) hstop.2 hblank hturn hturns, hstate⟩

/-- Behind `seg` the parser that was `s` has stored `req`; what its other locals hold is stale. -/
def Reads (s : Scanner) (seg : List Byte) (req : HttpRequest) : Prop :=
  ∃ t : Scanner, t.req = req ∧ Turns s seg t

theorem Turns.one {s s' : Scanner} {c : Byte} (hstop : s.req.state.stopped = false)
    (hbody : s.req.state ≠ .body) (hblank : s.req.state ≠ .wCrLfCr)
    (hturn : ∀ left, s.turn c left = .ok s') : Turns s [c] (s'.push c) :=
  .cons hstop hbody (fun h => hblank h.1) hturn (.nil _)

end Scanner

end VServer

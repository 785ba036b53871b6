import VServer.Http.Server

/-!
# What the parser accepts, and when it throws

A message is accepted when the parser gets past the blank line. What stands before it is a loose head
then, and a message with a loose head is accepted unless its `Content-Length` is no number or more
than there is to copy (`parse_loose`). The grammar of requests is narrower (`Head.Grammar`): the
setters take any word for a method or a version and the parser goes on, although `ParseState` has
`INVALID_METHOD` and `INVALID_VERSION`. `accepts_grammar_iff` says for which messages this shows.

A `Content-Length` that is no number, or none an `int` can hold, makes `stoi` throw, and nothing in
`parse` or `onMessage` catches it (`parse_throws_iff`).
-/

namespace VServer

open Http

namespace Head

/-- No `\r` and no `\n`. -/
def OneLine (xs : List Byte) : Prop := ∀ c ∈ xs, c ≠ CR ∧ c ≠ LF

/-- What the states of the parser do not test of a head. -/
structure Regular (g : Head) : Prop where
  method : ∃ m, m ≠ .invalid ∧ g.method = Wire.methodText m
  version : ∃ v, v ≠ .unknown ∧ g.version = Wire.versionText v
  path : OneLine g.path
  params : ∀ p ∈ g.params, OneLine p.1 ∧ OneLine p.2
  heads : ∀ h ∈ g.heads, OneLine h.key ∧ OneLine h.value
  stray : g.stray = []

/-- The head of a request: its tokens end where the parser ends them. -/
def Grammar (g : Head) : Prop := g.Loose ∧ g.Regular

/-- The value `parse` converts to a number. -/
def contentLength (g : Head) : Option (List Byte) := g.headerMap.lookup (bytes "Content-Length")

/-- The length of the body, with `left` bytes behind the head. -/
def bodyLength (g : Head) (left : Nat) : Except Fault Int :=
  match g.contentLength with
  | some value => stoi value
  | none => .ok left

end Head

def HttpRequest.Accepted (req : HttpRequest) : Prop := req.state = .body ∨ req.state = .end

/-- The message begins with a loose head, and `rest` follows it. -/
def Heads (g : Head) (msg rest : List Byte) : Prop := g.Loose ∧ msg = g.text ++ rest

theorem Heads.unique {g g' : Head} {msg rest rest' : List Byte} (h : Heads g msg rest)
    (h' : Heads g' msg rest') : g = g' ∧ rest = rest' :=
  h.1.unique h'.1 (h.2.symm.trans h'.2)

namespace Scanner

variable {s : Scanner}

/-- The rest of a message behind its blank line: no body, all of it a body, or a copy that needs more
bytes than there are. -/
theorem read_announced {n : Int} (hlength : s.bodyLength = n)
    (hs : s.req.state = .body ∧ 0 ≤ n ∨ s.req.state = .end ∧ n ≤ 0) (rest beyond : List Byte) :
    if rest ≠ [] ∧ (rest ++ beyond).length < n then read beyond s rest = .error .undefined
    else ∃ t, read beyond s rest = .ok t ∧ t.req.Accepted := by
  rcases hs with ⟨hbody, hn⟩ | ⟨hend, hn⟩
  · by_cases hrest : rest = []
    · rw [if_neg (fun h => h.1 hrest), hrest]
      exact ⟨s, rfl, Or.inl hbody⟩
    · have hread := read_body beyond hbody hrest
      rw [copyBody, if_neg (by omega), hlength] at hread
      rw [hread]
      by_cases hlong : (rest ++ beyond).length < n
      · rw [if_pos ⟨hrest, hlong⟩, if_neg (by omega)]
      · rw [if_neg (fun h => hlong h.2), if_pos (by omega)]
        exact ⟨_, rfl, Or.inr rfl⟩
  · rw [if_neg (fun h => absurd h.2 (by omega)), read_stopped beyond rest (by rw [hend]; rfl)]
    exact ⟨s, rfl, Or.inr hend⟩

end Scanner

/-- **What becomes of a message with a loose head.** -/
theorem parse_loose {g : Head} {msg rest : List Byte} (hg : Heads g msg rest) (beyond : List Byte) :
    match g.bodyLength rest.length with
    | .error _ => HttpRequest.fresh.parse (msg ++ beyond) msg.length = .error .exception
    | .ok n =>
      if rest ≠ [] ∧ (rest ++ beyond).length < n then
        HttpRequest.fresh.parse (msg ++ beyond) msg.length = .error .undefined
      else ∃ req, HttpRequest.fresh.parse (msg ++ beyond) msg.length = .ok req ∧ req.Accepted := by
  obtain ⟨hloose, rfl⟩ := hg
  obtain ⟨t, ht, hhead⟩ := Scanner.head_of_loose hloose rest
  obtain ⟨hread, -⟩ := Scanner.read_of_head hhead
  have hheads : t.req.heads.lookup (bytes "Content-Length") = g.contentLength := by
    rw [ht]
    rfl
  have hparse : ∀ r, t.endHead rest.length = r →
      HttpRequest.fresh.parse (g.text ++ rest ++ beyond) (g.text ++ rest).length =
        (r >>= fun t' => Scanner.read beyond (t'.push LF) rest).map (·.req) := by
    rintro r rfl
    rw [parse_eq_read, hread]
  -- the blank line sets the length and the state; the rest of the message is read from there
  have haccept : ∀ {t' : Scanner} {n : Int}, t.endHead rest.length = .ok t' → t'.bodyLength = n →
      (t'.req.state = .body ∧ 0 ≤ n ∨ t'.req.state = .end ∧ n ≤ 0) →
      if rest ≠ [] ∧ (rest ++ beyond).length < n then
        HttpRequest.fresh.parse (g.text ++ rest ++ beyond) (g.text ++ rest).length =
          .error .undefined
      else ∃ req, HttpRequest.fresh.parse (g.text ++ rest ++ beyond) (g.text ++ rest).length =
        .ok req ∧ req.Accepted := by
    intro t' n hend hlength hstate
    have hrest := Scanner.read_announced (s := t'.push LF) hlength hstate rest beyond
    rw [hparse _ hend, ok_bind]
    split_ifs at hrest ⊢ with hlong
    · rw [hrest]
      rfl
    · obtain ⟨u, hu, haccepted⟩ := hrest
      exact ⟨u.req, by rw [hu]; rfl, haccepted⟩
  rw [Head.bodyLength]
  cases hlength : g.contentLength with
  | none =>
    rw [hlength] at hheads
    exact haccept (Scanner.endHead_none hheads _) rfl (Or.inl ⟨rfl, Int.natCast_nonneg _⟩)
  | some value =>
    rw [hlength] at hheads
    dsimp only
    cases hn : stoi value with
    | error e =>
      rw [hparse _ (Scanner.endHead_error hheads hn _), stoi_error hn]
      rfl
    | ok n =>
      refine haccept (Scanner.endHead_ok hheads hn _) rfl ?_
      by_cases hpos : 0 < n
      · exact Or.inl ⟨if_pos hpos, by omega⟩
      · exact Or.inr ⟨if_neg hpos, by omega⟩

/-- A message without a loose head is read to its end or to the first byte its state rejects. -/
theorem parse_headless {msg : List Byte} (h : ∀ g rest, ¬ Heads g msg rest) (beyond : List Byte) :
    ∃ req, HttpRequest.fresh.parse (msg ++ beyond) msg.length = .ok req ∧ ¬ req.Accepted := by
  have hnone : (Scanner.enter .fresh).head msg = none := by
    cases hhead : (Scanner.enter .fresh).head msg with
    | none => rfl
    | some found =>
      obtain ⟨g, hloose, htext, -⟩ := Scanner.loose_of_head hhead
      exact absurd ⟨hloose, htext⟩ (h g found.2)
  obtain ⟨t, hread, -, hpast⟩ :=
    Scanner.read_of_head_none (s := Scanner.enter .fresh) (by decide) hnone
  have hstart : ¬ (Scanner.enter .fresh).Past := by
    simp [Scanner.Past, Scanner.enter, HttpRequest.fresh]
  exact ⟨t.req, by rw [parse_eq_read, hread]; rfl, fun haccepted => hstart (hpast haccepted)⟩

/-- The length of the body of the message is a number, if there is a head. -/
def Numeric (msg : List Byte) : Prop :=
  ∀ g rest, Heads g msg rest → ∃ n, g.bodyLength rest.length = .ok n

/-- The body the message begins is no longer than what may be read from there. -/
def Fits (msg beyond : List Byte) : Prop :=
  ∀ g rest n, Heads g msg rest → g.bodyLength rest.length = .ok n → rest ≠ [] →
    n ≤ (rest ++ beyond).length

theorem numeric_iff {g : Head} {msg rest : List Byte} (hg : Heads g msg rest) :
    Numeric msg ↔ ∃ n, g.bodyLength rest.length = .ok n := by
  refine ⟨fun h => h g rest hg, fun h g' rest' hg' => ?_⟩
  obtain ⟨rfl, rfl⟩ := hg.unique hg'
  exact h

theorem fits_iff {g : Head} {msg rest : List Byte} (hg : Heads g msg rest) {n : Int}
    (hn : g.bodyLength rest.length = .ok n) (beyond : List Byte) :
    Fits msg beyond ↔ (rest ≠ [] → n ≤ (rest ++ beyond).length) := by
  refine ⟨fun h => h g rest n hg hn, fun h g' rest' n' hg' hn' => ?_⟩
  obtain ⟨rfl, rfl⟩ := hg.unique hg'
  obtain rfl := Except.ok.inj (hn.symm.trans hn')
  exact h

variable {msg beyond : List Byte}

theorem parse_returns (hnumeric : Numeric msg) (hfits : Fits msg beyond) :
    ∃ req, HttpRequest.fresh.parse (msg ++ beyond) msg.length = .ok req ∧
      (req.Accepted ↔ ∃ g rest, Heads g msg rest) := by
  by_cases hhead : ∃ g rest, Heads g msg rest
  · obtain ⟨g, rest, hg⟩ := hhead
    obtain ⟨n, hn⟩ := (numeric_iff hg).mp hnumeric
    have hfit := (fits_iff hg hn beyond).mp hfits
    have hloose := parse_loose hg beyond
    rw [hn] at hloose
    dsimp only at hloose
    rw [if_neg (fun hlong => absurd (hfit hlong.1) (by omega))] at hloose
    obtain ⟨req, hparse, haccepted⟩ := hloose
    exact ⟨req, hparse, fun _ => ⟨g, rest, hg⟩, fun _ => haccepted⟩
  · push Not at hhead
    obtain ⟨req, hparse, hrejected⟩ := parse_headless hhead beyond
    exact ⟨req, hparse, fun h => absurd h hrejected, fun ⟨g, rest, hg⟩ => absurd hg (hhead g rest)⟩

theorem parse_undefined (hfits : ¬ Fits msg beyond) :
    HttpRequest.fresh.parse (msg ++ beyond) msg.length = .error .undefined := by
  unfold Fits at hfits
  push Not at hfits
  obtain ⟨g, rest, n, hg, hn, hne, hlong⟩ := hfits
  have hloose := parse_loose hg beyond
  rw [hn] at hloose
  dsimp only at hloose
  rwa [if_pos ⟨hne, by omega⟩] at hloose

theorem parse_throws (hnumeric : ¬ Numeric msg) (beyond : List Byte) :
    HttpRequest.fresh.parse (msg ++ beyond) msg.length = .error .exception := by
  unfold Numeric at hnumeric
  push Not at hnumeric
  obtain ⟨g, rest, hg, hn⟩ := hnumeric
  have hloose := parse_loose hg beyond
  cases hlength : g.bodyLength rest.length with
  | ok n => exact absurd hlength (hn n)
  | error e =>
    rw [hlength] at hloose
    exact hloose

/-! ## The grammar -/

/-- `parse` gets past the blank line of `msg` only behind a head of the grammar. -/
def AcceptsGrammar (msg : List Byte) : Prop :=
  ∀ beyond req, HttpRequest.fresh.parse (msg ++ beyond) msg.length = .ok req → req.Accepted →
    ∃ g rest, Head.Grammar g ∧ msg = g.text ++ rest

/-- **The parser accepts its grammar only, except behind an irregular head.** -/
theorem accepts_grammar_iff (msg : List Byte) :
    AcceptsGrammar msg ↔ (Numeric msg → ∀ g rest, Heads g msg rest → g.Regular) := by
  constructor
  · intro h hnumeric g rest hg
    obtain ⟨n, hn⟩ := (numeric_iff hg).mp hnumeric
    -- enough bytes for the copy of the body
    have hfits : Fits msg (List.replicate n.toNat 0) := by
      rw [fits_iff hg hn, List.length_append, List.length_replicate]
      omega
    obtain ⟨req, hparse, haccepted⟩ := parse_returns hnumeric hfits
    obtain ⟨g', rest', hgrammar, htext⟩ := h _ req hparse (haccepted.mpr ⟨g, rest, hg⟩)
    obtain ⟨rfl, -⟩ := hg.unique ⟨hgrammar.1, htext⟩
    exact hgrammar.2
  · intro h beyond req hparse haccepted
    by_cases hnumeric : Numeric msg
    · by_cases hfits : Fits msg beyond
      · obtain ⟨req', hparse', hiff⟩ := parse_returns hnumeric hfits
        obtain rfl := Except.ok.inj (hparse.symm.trans hparse')
        obtain ⟨g, rest, hg⟩ := hiff.mp haccepted
        exact ⟨g, rest, ⟨hg.1, h hnumeric g rest hg⟩, hg.2⟩
      · rw [parse_undefined hfits] at hparse
        cases hparse
    · rw [parse_throws hnumeric] at hparse
      cases hparse

/-- `FOO / XYZ`: no method and no version. -/
def unknownWords : Head := ⟨[], bytes "FOO", [32], [47], [], [32], bytes "XYZ", [], []⟩

theorem unknownWords_loose : unknownWords.Loose where
  lead := nofun
  method := ⟨70, bytes "OO", by decide, by decide, by decide +kernel⟩
  gap := ⟨by decide, by decide +kernel⟩
  path := ⟨47, [], rfl, rfl, nofun⟩
  params := nofun
  gap' := ⟨by decide, by decide +kernel⟩
  version := ⟨88, bytes "YZ", by decide, by decide, by decide +kernel⟩
  heads := nofun
  stray := nofun

/-- The parser takes unknown words for a method and a version. -/
theorem unknownWords_accepted : ¬ ∀ msg, AcceptsGrammar msg := by
  intro h
  obtain ⟨g, rest, hgrammar, htext⟩ := h (bytes "FOO / XYZ\r\n\r\n") []
    { HttpRequest.fresh with
      method := some .invalid, version := some .unknown, path := [47], state := .body }
    (by decide +kernel) (Or.inl rfl)
  have hg : unknownWords.text ++ [] = g.text ++ rest := by
    rw [← htext]
    decide +kernel
  obtain ⟨rfl, -⟩ := unknownWords_loose.unique hgrammar.1 hg
  obtain ⟨m, -, hmethod⟩ := hgrammar.2.method
  cases m <;> exact absurd hmethod (by decide)

/-! ## Exceptions -/

namespace HttpServer

/-- The bytes `onMessage` tells `parse` of: their number becomes an `int`. -/
def seen (buf : Buffer) : List Byte := buf.readable.take (toInt buf.readable.length).toNat

/-- The bytes behind them that may be read, with the NUL of `c_str()`. -/
def unseen (buf : Buffer) : List Byte :=
  buf.readable.drop (toInt buf.readable.length).toNat ++ [0]

theorem toInt_toNat_le (n : Nat) : (toInt n).toNat ≤ n := by
  have hmod := Nat.mod_le n (2 ^ 32)
  rw [toInt]
  split_ifs
  all_goals omega

theorem seen_append_unseen (buf : Buffer) : seen buf ++ unseen buf = buf.readable ++ [0] := by
  rw [seen, unseen, ← List.append_assoc, List.take_append_drop]

theorem length_seen (buf : Buffer) : (seen buf).length = (toInt buf.readable.length).toNat := by
  rw [seen, List.length_take]
  exact min_eq_left (toInt_toNat_le _)

theorem onMessage_eq (server : HttpServer) (platform : Platform) {buf : Buffer} (hbuf : buf.Inv) :
    server.onMessage platform buf =
      (HttpRequest.fresh.parse (seen buf ++ unseen buf) (seen buf).length).map fun req =>
        (buf.retrieveAll, ⟨server.httpCallback.map fun _ => req,
          (server.respond platform req).dump platform.order, wantsClose platform req⟩) := by
  have hparse : HttpRequest.fresh.parse (buf.readable ++ [0]) (toInt buf.readable.length) =
      HttpRequest.fresh.parse (seen buf ++ unseen buf) (seen buf).length := by
    rw [seen_append_unseen, length_seen, HttpRequest.parse, HttpRequest.parse, Int.toNat_natCast]
  rw [onMessage, Buffer.retrieveAllAsString_spec hbuf, ok_bind]
  dsimp only
  rw [hparse]
  rfl

end HttpServer

theorem parse_throws_iff (msg beyond : List Byte) :
    HttpRequest.fresh.parse (msg ++ beyond) msg.length = .error .exception ↔ ¬ Numeric msg := by
  refine ⟨fun h hnumeric => ?_, fun h => parse_throws h beyond⟩
  by_cases hfits : Fits msg beyond
  · obtain ⟨req, hparse, -⟩ := parse_returns hnumeric hfits
    rw [hparse] at h
    cases h
  · rw [parse_undefined hfits] at h
    cases h

theorem parse_returns_iff (msg beyond : List Byte) :
    (∃ req, HttpRequest.fresh.parse (msg ++ beyond) msg.length = .ok req) ↔
      Numeric msg ∧ Fits msg beyond := by
  constructor
  · rintro ⟨req, hparse⟩
    by_contra hnot
    by_cases hnumeric : Numeric msg
    · rw [parse_undefined fun hfits => hnot ⟨hnumeric, hfits⟩] at hparse
      cases hparse
    · rw [parse_throws hnumeric] at hparse
      cases hparse
  · rintro ⟨hnumeric, hfits⟩
    obtain ⟨req, hparse, -⟩ := parse_returns hnumeric hfits
    exact ⟨req, hparse⟩

/-- **Exceptions.** `parse` throws exactly when the head of the message announces a length that is no
number, and this exception leaves `onMessage`. Otherwise `onMessage` goes on to its response, unless
the announced body is copied from beyond the message. -/
theorem raises_iff (server : HttpServer) (platform : Platform) (buf : Buffer) (hbuf : buf.Inv) :
    (∀ msg beyond, HttpRequest.fresh.parse (msg ++ beyond) msg.length ≠ .error .exception ↔
      Numeric msg) ∧
    (server.onMessage platform buf ≠ .error .exception ↔ Numeric (HttpServer.seen buf)) ∧
    ((∃ r, server.onMessage platform buf = .ok r) ↔
      Numeric (HttpServer.seen buf) ∧ Fits (HttpServer.seen buf) (HttpServer.unseen buf)) := by
  have hthrows : ∀ msg beyond, HttpRequest.fresh.parse (msg ++ beyond) msg.length ≠
      .error .exception ↔ Numeric msg := fun msg beyond => by
    rw [ne_eq, parse_throws_iff, not_not]
  refine ⟨hthrows, ?_, ?_⟩
  · rw [← hthrows _ (HttpServer.unseen buf), HttpServer.onMessage_eq server platform hbuf, ne_eq,
      ne_eq, map_eq_error]
  · rw [← parse_returns_iff, HttpServer.onMessage_eq server platform hbuf, exists_map_eq_ok]

/-- A request whose `Content-Length` is no number. -/
def lettered : List Byte := bytes "GET / HTTP/1.1\r\nContent-Length: x\r\n\r\n"

def letteredBuffer : Buffer :=
  ⟨List.replicate Buffer.kCheapPrepend 0 ++ lettered, Buffer.kCheapPrepend,
    Buffer.kCheapPrepend + lettered.length⟩

theorem letteredBuffer_inv : letteredBuffer.Inv := Buffer.inv_of_message lettered

/-- On a server without a callback. -/
theorem raises_iff_lettered :
    (HttpServer.mk none).onMessage ⟨id, .http11⟩ letteredBuffer ≠ .error .exception ↔
      Numeric (HttpServer.seen letteredBuffer) :=
  (raises_iff ⟨none⟩ ⟨id, .http11⟩ letteredBuffer letteredBuffer_inv).2.1

/-- The exception reaches the event loop, whatever the server does with requests. -/
theorem lettered_raises :
    (¬ ∀ msg : List Byte,
      ∃ req, HttpRequest.fresh.parse (msg ++ [0]) msg.length = .ok req) ∧
    ∀ server : HttpServer, ∀ platform : Platform,
      server.onMessage platform letteredBuffer = .error .exception := by
  have hparse : HttpRequest.fresh.parse (lettered ++ [0]) lettered.length = .error .exception := by
    decide +kernel
  refine ⟨fun h => ?_, fun server platform => ?_⟩
  · obtain ⟨req, hreq⟩ := h lettered
    rw [hparse] at hreq
    cases hreq
  · rw [HttpServer.onMessage_eq server platform letteredBuffer_inv, map_eq_error]
    rw [← hparse]
    decide +kernel

end VServer

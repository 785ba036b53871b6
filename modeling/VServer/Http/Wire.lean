import VServer.Http.Grammar

/-!
# Requests on the wire

`Wire` is a request as a client writes it, with the blanks it chose between the tokens; `Wire.text`
is its bytes. The head up to the `\r` of its last line (`Wire.core`) already holds everything the
parser stores of it; what is left is `\n\r\n` and the body (`WellFormed.reads_core`). `Wire.request` is
the request a reader should see.
-/

namespace VServer

open Http

structure Wire where
  method : Method
  /-- The blanks before the path and before the version. -/
  gap : List Byte
  path : List Byte
  params : List (List Byte × List Byte)
  gap' : List Byte
  version : Version
  heads : List WireHeader
  body : List Byte

namespace Wire

def methodText : Method → List Byte
  | .delete => bytes "DELETE"
  | .get => bytes "GET"
  | .head => bytes "HEAD"
  | .post => bytes "POST"
  | .put => bytes "PUT"
  | .invalid => []

def versionText : Version → List Byte
  | .http10 => bytes "HTTP/1.0"
  | .http11 => bytes "HTTP/1.1"
  | .unknown => []

/-- The path and, behind a `?`, the parameters. -/
def target (w : Wire) : List Byte :=
  match w.params with
  | [] => w.path
  | params => w.path ++ 63 :: pairsText params

/-- The head up to the `\r` of its last line. -/
def core (w : Wire) : List Byte :=
  methodText w.method ++ w.gap ++ w.target ++ w.gap' ++ versionText w.version ++ [CR] ++
    w.heads.flatMap headerText

def blankLine : List Byte := [LF, CR, LF]

def text (w : Wire) : List Byte := w.core ++ blankLine ++ w.body

def headerMap (w : Wire) : List (List Byte × List Byte) :=
  Assoc.insertAll [] (w.heads.map fun h => (h.key, h.value))

/-- The request as it should be read; `state` is where the parser stands. -/
def request (w : Wire) (state : ParseState) : HttpRequest :=
  ⟨some w.method, some w.version, w.path, Assoc.insertAll [] w.params, w.headerMap, w.body, state⟩

theorem request_goto {w : Wire} (hbody : w.body = []) (state state' : ParseState) :
    HttpRequest.goto { w.request state with body := [] } state' = w.request state' := by
  simp [request, HttpRequest.goto, hbody]

/-- A parameter the grammar of queries allows. -/
structure ParamOk (p : List Byte × List Byte) : Prop where
  key_ne : p.1 ≠ []
  key : ∀ c ∈ p.1, c ≠ 61 ∧ isblank c = false ∧ c ≠ CR ∧ c ≠ LF
  value_ne : p.2 ≠ []
  value : ∀ c ∈ p.2, c ≠ 38 ∧ isblank c = false ∧ c ≠ CR ∧ c ≠ LF

/-- A path: a `/` and bytes that are no blank and no `?`. -/
def PathOk (path : List Byte) : Prop :=
  ∃ tail, path = 47 :: tail ∧ ∀ c ∈ tail, isblank c = false ∧ c ≠ 63 ∧ c ≠ CR ∧ c ≠ LF

structure HeaderOk (h : WireHeader) : Prop where
  key_ne : h.key ≠ []
  key : ∀ c ∈ h.key, c ≠ 58 ∧ isblank c = false ∧ c ≠ CR ∧ c ≠ LF
  lead : ∀ c ∈ h.lead, isblank c = true
  value : ∀ c ∈ h.value, c ≠ CR ∧ c ≠ LF
  value_blank : ∀ c, h.value.head? = some c → isblank c = false

/-- The body is announced by a `Content-Length` that is its length, or there is none of either. -/
def Framed (w : Wire) : Prop :=
  match w.headerMap.lookup (bytes "Content-Length") with
  | some value => stoi value = .ok w.body.length
  | none => w.body = []

/-- The body is announced by a `Content-Length` that is its length, with bytes behind it, or it is
not announced and goes to the end of the message. -/
def Announces (w : Wire) (trailing : List Byte) : Prop :=
  match w.headerMap.lookup (bytes "Content-Length") with
  | some value => stoi value = .ok w.body.length
  | none => trailing = []

theorem Framed.announces {w : Wire} (hw : w.Framed) : w.Announces [] := by
  unfold Framed at hw
  unfold Announces
  cases hlookup : w.headerMap.lookup (bytes "Content-Length") with
  | none => rfl
  | some value =>
    rwa [hlookup] at hw

/-- A complete, well-formed request. -/
structure Ok (w : Wire) : Prop where
  method : w.method ≠ .invalid
  gap : IsGap w.gap
  path : PathOk w.path
  params : ∀ p ∈ w.params, ParamOk p
  gap' : IsGap w.gap'
  version : w.version ≠ .unknown
  heads : ∀ h ∈ w.heads, HeaderOk h
  framed : w.Framed

/-- A header whose name may hold blanks behind its first byte, and whose value may hold `\n`. -/
structure HeaderFree (h : WireHeader) : Prop where
  key_ne : h.key ≠ []
  key : ∀ c ∈ h.key, c ≠ 58 ∧ c ≠ CR ∧ c ≠ LF
  key_blank : ∀ c, h.key.head? = some c → isblank c = false
  lead : ∀ c ∈ h.lead, isblank c = true
  value : ∀ c ∈ h.value, c ≠ CR
  value_blank : ∀ c, h.value.head? = some c → isblank c = false

/-- What a request needs to be read as it is, its body apart. -/
structure WellFormed (w : Wire) : Prop where
  method : w.method ≠ .invalid
  gap : IsGap w.gap
  path_slash : w.path.head? = some 47
  path : ∀ c ∈ w.path, isblank c = false ∧ c ≠ 63
  params : ∀ p ∈ w.params, ParamOk p
  gap' : IsGap w.gap'
  version : w.version ≠ .unknown
  heads : ∀ h ∈ w.heads, HeaderFree h

theorem Ok.wellFormed {w : Wire} (hw : w.Ok) : w.WellFormed := by
  obtain ⟨tail, hpath, htail⟩ := hw.path
  refine ⟨hw.method, hw.gap, by rw [hpath]; rfl, ?_, hw.params, hw.gap', hw.version, fun h hh => ?_⟩
  · rw [hpath]
    exact List.forall_mem_cons.mpr ⟨by decide, fun c hc => ⟨(htail c hc).1, (htail c hc).2.1⟩⟩
  · have hok := hw.heads h hh
    refine ⟨hok.key_ne, fun c hc => ⟨(hok.key c hc).1, (hok.key c hc).2.2⟩, fun c hc => ?_, hok.lead,
      fun c hc => (hok.value c hc).1, hok.value_blank⟩
    exact (hok.key c (List.mem_of_mem_head? hc)).2.1

theorem methodText_spec {m : Method} (hm : m ≠ .invalid) :
    Token (fun c => isupper c = true) (fun c => isupper c = true) (methodText m) ∧
      ∀ req : HttpRequest, req.setMethod (methodText m) = { req with method := some m } := by
  cases m with
  | invalid => exact absurd rfl hm
  | _ => exact ⟨⟨_, _, rfl, by decide, by decide +kernel⟩, fun req => rfl⟩

theorem versionText_spec {v : Version} (hv : v ≠ .unknown) :
    Token (fun c => isblank c = false) (fun c => c ≠ CR) (versionText v) ∧
      ∀ req : HttpRequest, req.setVersion (versionText v) = { req with version := some v } := by
  cases v with
  | unknown => exact absurd rfl hv
  | _ => exact ⟨⟨_, _, rfl, by decide, by decide +kernel⟩, fun req => rfl⟩

def head (w : Wire) (lead : List Byte) : Head :=
  ⟨lead, methodText w.method, w.gap, w.path, w.params, w.gap', versionText w.version, w.heads, []⟩

theorem head_core (w : Wire) (lead : List Byte) : (w.head lead).core = lead ++ w.core := by
  have htarget : (w.head lead).target = w.target := by
    unfold Head.target target head
    cases w.params <;> rfl
  rw [Head.core, htarget]
  simp [core, head]

theorem WellFormed.head_request {w : Wire} (hw : w.WellFormed) (lead : List Byte)
    (state : ParseState) : (w.head lead).request state = { w.request state with body := [] } := by
  rw [Head.request, head, (methodText_spec hw.method).2, (versionText_spec hw.version).2]
  rfl

theorem ParamOk.loose {p : List Byte × List Byte} (hp : ParamOk p) : Head.LooseParam p := by
  have htoken : ∀ {d : Byte} {xs : List Byte}, xs ≠ [] →
      (∀ c ∈ xs, c ≠ d ∧ isblank c = false ∧ c ≠ CR ∧ c ≠ LF) →
      Token Head.StartsParam (fun c => c ≠ d ∧ isblank c = false) xs := by
    intro d xs hne hxs
    obtain ⟨x, xs, rfl⟩ := List.exists_cons_of_ne_nil hne
    obtain ⟨⟨-, hx, hCR, hLF⟩, hrest⟩ := List.forall_mem_cons.mp hxs
    exact ⟨x, xs, rfl, ⟨hx, hLF, hCR⟩, fun c hc => ⟨(hrest c hc).1, (hrest c hc).2.1⟩⟩
  exact ⟨htoken hp.key_ne hp.key, htoken hp.value_ne hp.value⟩

theorem WellFormed.loose {w : Wire} (hw : w.WellFormed) {lead : List Byte}
    (hlead : ∀ c ∈ lead, Scanner.IsLead c) : (w.head lead).Loose := by
  obtain ⟨tail, hpath⟩ := List.head?_eq_some_iff.mp hw.path_slash
  have htail := hw.path
  rw [hpath] at htail
  refine ⟨hlead, (methodText_spec hw.method).1, hw.gap,
    ⟨47, tail, hpath, rfl, (List.forall_mem_cons.mp htail).2⟩, fun p hp => (hw.params p hp).loose,
    hw.gap', (versionText_spec hw.version).1, fun h hh => ?_, nofun⟩
  have hfree := hw.heads h hh
  obtain ⟨k, ks, hkey⟩ := List.exists_cons_of_ne_nil hfree.key_ne
  refine ⟨⟨k, ks, hkey, ⟨?_, hfree.key_blank k (by rw [hkey]; rfl)⟩, fun c hc => ?_⟩, hfree.lead,
    hfree.value, hfree.value_blank⟩
  · exact (hfree.key k (by rw [hkey]; exact List.mem_cons_self)).2.1
  · exact (hfree.key c (by rw [hkey]; exact List.mem_cons_of_mem k hc)).1

theorem WellFormed.reads_core {w : Wire} (hw : w.WellFormed) {lead : List Byte}
    (hlead : ∀ c ∈ lead, Scanner.IsLead c) :
    Scanner.Reads (.enter .fresh) (lead ++ w.core) { w.request .wCr with body := [] } := by
  have hcore := Scanner.reads_core (hw.loose hlead)
  rwa [head_core, hw.head_request] at hcore

end Wire

namespace Scanner

theorem read_lineFeed {s : Scanner} (hs : s.req.state = .wCr) (beyond rest : List Byte) :
    read beyond s (LF :: rest) = read beyond ((s.goto .wCrLf).push LF) rest :=
  read_cons_turn (by rw [hs]; rfl) (by rw [hs]; decide) (by simp [turn, hs])

theorem read_carriageReturn {s : Scanner} (hs : s.req.state = .wCrLf) (beyond rest : List Byte) :
    read beyond s (CR :: rest) = read beyond ((s.goto .wCrLfCr).push CR) rest :=
  read_cons_turn (by rw [hs]; rfl) (by rw [hs]; decide) (by simp [turn, hs])

theorem read_blankLine {s : Scanner} (hs : s.req.state = .wCr) {tail : List Byte}
    (htail : tail <+: [LF, CR]) :
    ∃ t state, (∀ beyond, read beyond s tail = .ok t) ∧ t.req = s.req.goto state := by
  have hcases : tail = [] ∨ tail = [LF] ∨ tail = [LF, CR] := by
    match tail, htail with
    | [], _ => simp
    | [a], h => simp at h; simp [h]
    | [a, b], h => simp at h; simp [h]
    | a :: b :: c :: l, h => simp at h
  rcases hcases with rfl | rfl | rfl
  · refine ⟨s, .wCr, fun _ => rfl, ?_⟩
    rw [HttpRequest.goto, ← hs]
  · exact ⟨_, .wCrLf, fun beyond => by rw [read_lineFeed hs]; rfl, rfl⟩
  · exact ⟨_, .wCrLfCr, fun beyond => by rw [read_lineFeed hs, read_carriageReturn rfl]; rfl, rfl⟩

theorem read_copied {s : Scanner} (hbody : s.req.state = .body) {body : List Byte}
    (hlength : s.bodyLength = body.length) (hne : body ≠ []) (trailing beyond : List Byte) :
    read beyond s (body ++ trailing) =
      .ok ({ s with req := { s.req with body := body } }.goto .end) := by
  rw [read_body beyond hbody (by simp [hne]), copyBody, hlength, if_neg (by omega),
    if_pos (by simp)]
  simp

theorem read_body_text {w : Wire} {trailing : List Byte} (hw : w.Announces trailing) {s : Scanner}
    (hs : s.req = { w.request .wCr with body := [] }) :
    ∃ t state, (∀ beyond, read beyond s (Wire.blankLine ++ (w.body ++ trailing)) = .ok t) ∧
      t.req = w.request state := by
  have hstate : s.req.state = .wCr := by rw [hs]; rfl
  let blank : Scanner := (((s.goto .wCrLf).push LF).goto .wCrLfCr).push CR
  let copy (state : ParseState) : Scanner :=
    ({ blank with bodyLength := w.body.length }.goto state).push LF
  have hblank : ∀ beyond, read beyond s (Wire.blankLine ++ (w.body ++ trailing)) =
      blank.endHead (w.body ++ trailing).length >>= fun t =>
        read beyond (t.push LF) (w.body ++ trailing) := by
    intro beyond
    rw [Wire.blankLine, List.cons_append, List.cons_append, List.cons_append, List.nil_append,
      read_lineFeed hstate, read_carriageReturn rfl]
    rfl
  have hheads : blank.req.heads = w.headerMap := by
    show s.req.heads = w.headerMap
    rw [hs]
    rfl
  have hcopy : ∀ state, (copy state).req = { w.request state with body := [] } := by
    intro state
    show s.req.goto state = _
    rw [hs]
    rfl
  -- an empty body leaves the parser where it is, any other is copied
  have hempty : ∀ {state}, w.body = [] → (copy state).req = w.request state := by
    intro state hbody
    rw [hcopy, Wire.request, hbody]
  obtain ⟨state, hread, hstate'⟩ : ∃ state, (∀ beyond, read beyond s
      (Wire.blankLine ++ (w.body ++ trailing)) = read beyond (copy state) (w.body ++ trailing)) ∧
      (state = .body ∧ (w.body = [] → trailing = []) ∨ state = .end ∧ w.body = []) := by
    unfold Wire.Announces at hw
    cases hlookup : w.headerMap.lookup (bytes "Content-Length") with
    | none =>
      rw [hlookup] at hw
      have htrailing : trailing = [] := hw
      refine ⟨.body, fun beyond => ?_, .inl ⟨rfl, fun _ => htrailing⟩⟩
      rw [hblank, endHead_none (by rw [hheads, hlookup]), ok_bind, htrailing, List.append_nil]
    | some value =>
      rw [hlookup] at hw
      have hlength : stoi value = .ok w.body.length := hw
      refine ⟨if 0 < (w.body.length : Int) then .body else .end, fun beyond => ?_, ?_⟩
      · rw [hblank, endHead_ok (by rw [hheads, hlookup]) hlength, ok_bind]
      · by_cases hbody : w.body = []
        · exact .inr ⟨by rw [hbody]; rfl, hbody⟩
        · have hpos := List.length_pos_of_ne_nil hbody
          exact .inl ⟨if_pos (by omega), fun hnil => absurd hnil hbody⟩
  by_cases hbody : w.body = []
  · refine ⟨copy state, state, fun beyond => ?_, hempty hbody⟩
    rw [hread]
    rcases hstate' with ⟨rfl, htrailing⟩ | ⟨rfl, -⟩
    · rw [hbody, htrailing hbody]
      rfl
    · exact read_stopped beyond _ rfl
  · obtain ⟨rfl, -⟩ := hstate'.resolve_right fun h => hbody h.2
    refine ⟨_, .end, fun beyond => by rw [hread, read_copied rfl rfl hbody], ?_⟩
    show ({ (copy .body).req with body := w.body } : HttpRequest).goto .end = _
    rw [hcopy]
    rfl

end Scanner

namespace Wire

/-- `req` holds the data of `w`. -/
def Agrees (w : Wire) (req : HttpRequest) : Prop := req = w.request req.state

theorem agrees_of_eq {w : Wire} {req : HttpRequest} (state : ParseState)
    (h : req = w.request state) : w.Agrees req := by
  have hstate : req.state = state := by rw [h]; rfl
  rw [Agrees, hstate, h]

theorem parse_text {w : Wire} (hw : w.Ok) {lead : List Byte} (hlead : ∀ c ∈ lead, Scanner.IsLead c)
    (beyond : List Byte) :
    ∃ req, HttpRequest.fresh.parse (lead ++ w.text ++ beyond) (lead ++ w.text).length = .ok req ∧
      w.Agrees req := by
  obtain ⟨s, hs, hcore⟩ := hw.wellFormed.reads_core hlead
  obtain ⟨t, state, htext, ht⟩ := Scanner.read_body_text hw.framed.announces hs
  refine ⟨t.req, ?_, agrees_of_eq _ ht⟩
  rw [parse_eq_read, text, List.append_assoc, ← List.append_assoc, hcore.read, ← w.body.append_nil, htext]
  rfl

theorem parse_cut {w : Wire} (hw : w.Ok) (hbody : w.body = []) {lead : List Byte}
    (hlead : ∀ c ∈ lead, Scanner.IsLead c) {tail : List Byte} (htail : tail <+: [LF, CR])
    (beyond : List Byte) :
    ∃ req, HttpRequest.fresh.parse (lead ++ (w.core ++ tail) ++ beyond)
        (lead ++ (w.core ++ tail)).length = .ok req ∧ w.Agrees req := by
  obtain ⟨s, hs, hcore⟩ := hw.wellFormed.reads_core hlead
  obtain ⟨t, state, hread, ht⟩ :=
    Scanner.read_blankLine (s := s) (by rw [hs]; rfl) htail
  refine ⟨t.req, ?_, agrees_of_eq state ?_⟩
  · rw [parse_eq_read, ← List.append_assoc, hcore.read, hread]
    rfl
  · rw [ht, hs, request_goto hbody]

end Wire

end VServer

import VServer.Http.Acceptance

/-!
# The fields that a message leaves open

`m_method` and `m_version` have no initialiser. `parse` stores the version at the `\r` behind it, when
the method is stored already and no header is; a message that ends before, or that the parser gives up
on before, leaves `m_version` as it was found in memory. Then `onMessage` decides by that value whether
the connection is closed, and says so in its response.
-/

namespace VServer

open Http

/-- The request line, with what stands in front of it, up to the `\r` behind the version. -/
def Head.requestLine (g : Head) : List Byte :=
  g.lead ++ (g.method ++ g.gap) ++ g.target ++ g.gap' ++ g.version ++ [CR]

/-- The method and the version have been stored. -/
def HttpRequest.Initialised (req : HttpRequest) : Prop :=
  req.method.isSome = true ∧ req.version.isSome = true

/-- In front of the end of the request line, or given up there. -/
def ParseState.opening : ParseState → Bool
  | .start | .method | .beforePath | .path | .beforeParamKey | .paramKey | .beforeParamValue
  | .paramValue | .beforeVersion | .version | .invalid | .invalidMethod | .invalidPath => true
  | _ => false

namespace Scanner

variable {s t : Scanner} {c : Byte} {msg : List Byte}

/-- The version is not stored yet. -/
structure Opening (s : Scanner) : Prop where
  state : s.req.state.opening = true
  version : s.req.version = none
  heads : s.req.heads = []

theorem enter_opening : Opening (enter .fresh) := ⟨rfl, rfl, rfl⟩

theorem turn_opening {s' : Scanner} (h : s.Opening) {left : Nat} (hturn : s.turn c left = .ok s') :
    (s'.push c).Opening ∨ s'.req.state = .wCr := by
  obtain ⟨hstate, hversion, hheads⟩ := h
  unfold turn at hturn
  cases hs : s.req.state with
  | invalidVersion | invalidHeader | headerKey | beforeHeaderValue | headerValue | wCr | wCrLf | wCrLfCr
  | body | «end» =>
    rw [hs] at hstate
    cases hstate
  | _ =>
    rw [hs] at hturn
    dsimp only at hturn
    repeat' split_ifs at hturn
    all_goals
      cases hturn
      first
        | exact .inl ⟨rfl, hversion, hheads⟩
        | exact .inl ⟨(congrArg _ hs).trans rfl, hversion, hheads⟩
        | exact .inr rfl

theorem read_opening (h : s.Opening) (msg : List Byte) :
    (∃ t, (∀ beyond, read beyond s msg = .ok t) ∧ t.Opening) ∨
      ∃ seg u, seg <+: msg ∧ Turns s seg u ∧ u.req.state = .wCr := by
  induction msg generalizing s with
  | nil => exact .inl ⟨s, fun _ => rfl, h⟩
  | cons c msg ih =>
    by_cases hstop : s.req.state.stopped = true
    · exact .inl ⟨s, fun beyond => read_stopped beyond _ hstop, h⟩
    · rw [Bool.not_eq_true] at hstop
      have hbody : s.req.state ≠ .body := fun hs => by
        have hopening := h.state
        rw [hs] at hopening
        cases hopening
      have hblank : s.req.state ≠ .wCrLfCr := fun hs => by
        have hopening := h.state
        rw [hs] at hopening
        cases hopening
      obtain ⟨s', hturn, -⟩ := turn_ok c (fun hlf => hblank hlf.1) hbody
      rcases turn_opening h (hturn 0) with hnext | hcr
      · rcases ih hnext with ⟨t, hread, ht⟩ | ⟨seg, u, hseg, hturns, hu⟩
        · exact .inl ⟨t, fun beyond => by rw [read_cons_turn hstop hbody (hturn _), hread], ht⟩
        · exact .inr ⟨c :: seg, u, List.cons_prefix_cons.mpr ⟨rfl, hseg⟩,
            .cons hstop hbody (fun hlf => hblank hlf.1) hturn hturns, hu⟩
      · exact .inr ⟨[c], s'.push c, List.cons_prefix_cons.mpr ⟨rfl, List.nil_prefix⟩,
          .one hstop hbody hblank hturn, hcr⟩

theorem requestLine_of_turns {seg : List Byte} {u : Scanner} (h : Turns (.enter .fresh) seg u)
    (hu : u.req.state = .wCr) : ∃ g : Head, g.Loose ∧ g.requestLine <+: seg := by
  obtain ⟨t, ht, hblank⟩ := @turns_blankLine u hu [] nofun
  obtain ⟨g, hg, htext, -⟩ := loose_of_turns (h.append hblank) (by rw [ht]; rfl)
  refine ⟨g, hg, ?_⟩
  have hline : g.requestLine <+: seg ++ [LF, CR, LF] := by
    have hprefix : g.requestLine <+: g.text := by
      refine ⟨g.heads.flatMap Wire.headerText ++ [LF, CR] ++ g.stray ++ [LF], ?_⟩
      simp [Head.text, Head.core, Head.requestLine]
    rw [← htext] at hprefix
    simpa using hprefix
  refine List.prefix_of_prefix_length_le hline (List.prefix_append seg _) ?_
  have hlength := congrArg List.length htext
  simp only [Head.text, Head.core, Head.requestLine, List.length_append, List.length_cons,
    List.length_nil] at hlength ⊢
  omega

theorem endHead_initialised {s' : Scanner} (h : s.req.Initialised) {left : Nat}
    (hend : s.endHead left = .ok s') : s'.req.Initialised := by
  obtain ⟨n, state, -, rfl⟩ := endHead_eq_ok hend
  exact h

theorem turn_initialised {s' : Scanner} (h : s.req.Initialised) {left : Nat}
    (hturn : s.turn c left = .ok s') : s'.req.Initialised := by
  unfold turn at hturn
  cases hs : s.req.state with
  | wCrLfCr =>
    rw [hs] at hturn
    dsimp only at hturn
    split_ifs at hturn
    · exact endHead_initialised h hturn
    · cases hturn
      exact h
  | _ =>
    rw [hs] at hturn
    dsimp only at hturn
    repeat' split_ifs at hturn
    all_goals
      cases hturn
      first
        | exact h
        | exact ⟨rfl, h.2⟩
        | exact ⟨h.1, rfl⟩

theorem read_initialised {beyond : List Byte} (h : s.req.Initialised)
    (hread : read beyond s msg = .ok t) : t.req.Initialised := by
  induction msg generalizing s with
  | nil =>
    cases hread
    exact h
  | cons c msg ih =>
    rw [read] at hread
    split_ifs at hread
    · cases hread
      exact h
    · unfold copyBody at hread
      split_ifs at hread
      cases hread
      exact h
    · obtain ⟨s', hturn, hrest⟩ := bind_eq_ok hread
      have hs' : s'.req.Initialised := turn_initialised h hturn
      exact @ih (s'.push c) hs' hrest

theorem read_requestLine {g : Head} (hg : g.Loose) (hline : g.requestLine <+: msg) {beyond : List Byte}
    (hread : read beyond (.enter .fresh) msg = .ok t) : t.req.Initialised := by
  obtain ⟨rest, rfl⟩ := hline
  have hloose : Head.Loose { g with heads := [] } :=
    ⟨hg.lead, hg.method, hg.gap, hg.path, hg.params, hg.gap', hg.version, nofun, hg.stray⟩
  obtain ⟨u, hu, hturns⟩ := reads_core hloose
  have hcore : Head.core { g with heads := [] } = g.requestLine := by
    simp [Head.core, Head.requestLine, Head.target]
  rw [hcore] at hturns
  rw [hturns.read] at hread
  refine read_initialised ?_ hread
  rw [hu]
  exact ⟨rfl, rfl⟩

end Scanner

/-! ## Runs that differ in what lay in memory -/

/-- What the indeterminate fields of a request hold. -/
structure Junk where
  method : Method
  version : Version

def HttpRequest.filled (req : HttpRequest) (junk : Junk) : HttpRequest :=
  { req with
    method := some (req.method.getD junk.method)
    version := some (req.version.getD junk.version) }

theorem HttpRequest.Initialised.filled {req : HttpRequest} (h : req.Initialised) (junk : Junk) :
    req.filled junk = req := by
  obtain ⟨method, version, path, params, heads, body, state⟩ := req
  obtain ⟨m, rfl⟩ := Option.isSome_iff_exists.mp h.1
  obtain ⟨v, rfl⟩ := Option.isSome_iff_exists.mp h.2
  rfl

/-- The message ends its request line. -/
def EndsRequestLine (msg : List Byte) : Prop := ∃ g : Head, g.Loose ∧ g.requestLine <+: msg

theorem parse_opening (msg : List Byte) :
    EndsRequestLine msg ∨ ∃ req, (∀ beyond,
      HttpRequest.fresh.parse (msg ++ beyond) msg.length = .ok req) ∧ req.version = none ∧
        req.heads = [] := by
  rcases Scanner.read_opening Scanner.enter_opening msg with ⟨t, hread, ht⟩ | ⟨seg, u, hseg, hturns, hu⟩
  · refine .inr ⟨t.req, fun beyond => ?_, ht.version, ht.heads⟩
    rw [parse_eq_read, hread]
    rfl
  · obtain ⟨g, hg, hline⟩ := Scanner.requestLine_of_turns hturns hu
    exact .inl ⟨g, hg, hline.trans hseg⟩

theorem parse_initialised {msg beyond : List Byte} {req : HttpRequest} (hline : EndsRequestLine msg)
    (hparse : HttpRequest.fresh.parse (msg ++ beyond) msg.length = .ok req) : req.Initialised := by
  obtain ⟨g, hg, hprefix⟩ := hline
  rw [parse_eq_read] at hparse
  cases hread : Scanner.read beyond (.enter .fresh) msg with
  | error e =>
    rw [hread] at hparse
    cases hparse
  | ok t =>
    rw [hread] at hparse
    cases hparse
    exact Scanner.read_requestLine hg hprefix hread

namespace HttpServer

variable (server : HttpServer) (order : List (List Byte × List Byte) → List (List Byte × List Byte))

/-- `onMessage` in a run in which the fields that were not stored hold `junk`, for `onMessage` itself
and for the callback. -/
def onMessageWith (junk : Junk) (buf : Buffer) : Except Fault (Buffer × Exchange) :=
  HttpServer.onMessage ⟨server.httpCallback.map fun callback req res => callback (req.filled junk) res⟩
    ⟨order, junk.version⟩ buf

theorem onMessageWith_eq (junk : Junk) {buf : Buffer} (hbuf : buf.Inv) :
    onMessageWith server order junk buf =
      (HttpRequest.fresh.parse (seen buf ++ unseen buf) (seen buf).length).map fun req =>
        let close := wantsClose ⟨order, junk.version⟩ req
        let res := match server.httpCallback with
          | some callback => callback (req.filled junk) (.init close)
          | none => .init close
        (buf.retrieveAll, ⟨server.httpCallback.map fun _ => req, res.dump order, close⟩) := by
  rw [onMessageWith, onMessage_eq _ _ hbuf]
  unfold respond
  cases server.httpCallback <;> rfl

theorem wantsClose_initialised {req : HttpRequest} (h : req.Initialised) (junk junk' : Junk) :
    wantsClose ⟨order, junk.version⟩ req = wantsClose ⟨order, junk'.version⟩ req := by
  obtain ⟨version, hversion⟩ := Option.isSome_iff_exists.mp h.2
  unfold wantsClose
  rw [hversion]
  rfl

theorem wantsClose_open {req : HttpRequest} (hversion : req.version = none) (hheads : req.heads = [])
    (platform : Platform) : wantsClose platform req = decide (platform.junk = .http10) := by
  have hclose : ([] : List Byte) ≠ bytes "close" := by decide
  have halive : ([] : List Byte) ≠ bytes "Keep-Alive" := by decide
  simp [wantsClose, HttpRequest.getHeader, hversion, hheads, hclose, halive]

/-- **When the response is a function of the message.** The method and the version have been stored
whenever `parse` returns, and runs with the same message and the same callback do not differ, exactly
for the messages that end their request line. -/
theorem initialised_iff {buf : Buffer} (hbuf : buf.Inv) :
    ((∀ req, HttpRequest.fresh.parse (seen buf ++ unseen buf) (seen buf).length = .ok req →
        req.Initialised) ↔ EndsRequestLine (seen buf)) ∧
      ∀ server order, (∀ junk junk', onMessageWith server order junk buf =
        onMessageWith server order junk' buf) ↔ EndsRequestLine (seen buf) := by
  refine ⟨⟨fun h => ?_, fun hline req hparse => parse_initialised hline hparse⟩,
    fun server order => ⟨fun h => ?_, fun hline junk junk' => ?_⟩⟩
  · rcases parse_opening (seen buf) with hline | ⟨req, hparse, hversion, -⟩
    · exact hline
    · have hstored := (h req (hparse _)).2
      rw [hversion] at hstored
      cases hstored
  · rcases parse_opening (seen buf) with hline | ⟨req, hparse, hversion, hheads⟩
    · exact hline
    · have hsame := h ⟨.invalid, .http10⟩ ⟨.invalid, .http11⟩
      rw [onMessageWith_eq _ _ _ hbuf, onMessageWith_eq _ _ _ hbuf, hparse] at hsame
      have hclose := congrArg (fun e => e.2.close) (Except.ok.inj hsame)
      dsimp only at hclose
      rw [wantsClose_open hversion hheads, wantsClose_open hversion hheads] at hclose
      cases hclose
  · rw [onMessageWith_eq _ _ _ hbuf, onMessageWith_eq _ _ _ hbuf]
    cases hparse : HttpRequest.fresh.parse (seen buf ++ unseen buf) (seen buf).length with
    | error e => rfl
    | ok req =>
      have hreq := parse_initialised hline hparse
      simp only [Except.map, hreq.filled, wantsClose_initialised order hreq junk junk']

/-- A message that ends with its request line, in front of the first header. -/
def lineAlone : List Byte := bytes "GET / HTTP/1.1\r"

def truncated : List Byte := bytes "GET / HTTP/1.1"

def bufferOf (msg : List Byte) : Buffer :=
  ⟨List.replicate Buffer.kCheapPrepend 0 ++ msg, Buffer.kCheapPrepend, Buffer.kCheapPrepend + msg.length⟩

theorem lineAlone_inv : (bufferOf lineAlone).Inv := Buffer.inv_of_message lineAlone

theorem lineAlone_ends : EndsRequestLine (seen (bufferOf lineAlone)) := by
  refine ⟨⟨[], bytes "GET", [32], [47], [], [32], bytes "HTTP/1.1", [], []⟩, ?_, by decide +kernel⟩
  exact {
    lead := nofun
    method := ⟨71, bytes "ET", by decide, by decide, by decide +kernel⟩
    gap := ⟨by decide, by decide +kernel⟩
    path := ⟨47, [], rfl, rfl, nofun⟩
    params := nofun
    gap' := ⟨by decide, by decide +kernel⟩
    version := ⟨72, bytes "TTP/1.1", by decide, by decide, by decide +kernel⟩
    heads := nofun
    stray := nofun }

/-- Whatever the callback does with what it reads. -/
theorem initialised_iff_lineAlone :
    (∀ req, HttpRequest.fresh.parse
        (seen (bufferOf lineAlone) ++ unseen (bufferOf lineAlone))
        (seen (bufferOf lineAlone)).length = .ok req → req.Initialised) ∧
      ∀ server order junk junk', onMessageWith server order junk (bufferOf lineAlone) =
        onMessageWith server order junk' (bufferOf lineAlone) :=
  have h := initialised_iff lineAlone_inv
  ⟨h.1.mpr lineAlone_ends, fun server order => (h.2 server order).mpr lineAlone_ends⟩

/-- **What the answer is depends on what lay in memory.** The `\r` behind the version is missing;
one run closes the connection, the other keeps it. -/
theorem truncated_open :
    (∃ req, HttpRequest.fresh.parse (truncated ++ [0]) truncated.length = .ok req ∧
        ¬ req.Initialised) ∧
      ∃ e e', onMessageWith ⟨none⟩ id ⟨.get, .http10⟩ (bufferOf truncated) = .ok e ∧
        onMessageWith ⟨none⟩ id ⟨.get, .http11⟩ (bufferOf truncated) = .ok e' ∧
        e.2.close = true ∧ e'.2.close = false := by
  have hparse : ∃ req, HttpRequest.fresh.parse (truncated ++ [0]) truncated.length = .ok req ∧
      req.version = none := eq_ok_of_toOption (by decide +kernel)
  obtain ⟨e, he, hclose⟩ : ∃ e,
      onMessageWith ⟨none⟩ id ⟨.get, .http10⟩ (bufferOf truncated) = .ok e ∧ e.2.close = true :=
    eq_ok_of_toOption (by decide +kernel)
  obtain ⟨e', he', hopen⟩ : ∃ e',
      onMessageWith ⟨none⟩ id ⟨.get, .http11⟩ (bufferOf truncated) = .ok e' ∧ e'.2.close = false :=
    eq_ok_of_toOption (by decide +kernel)
  obtain ⟨req, hok, hversion⟩ := hparse
  refine ⟨⟨req, hok, fun hstored => ?_⟩, e, e', he, he', hclose, hopen⟩
  have hisSome := hstored.2
  rw [hversion] at hisSome
  cases hisSome

end HttpServer

end VServer

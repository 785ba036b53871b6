import VServer.Http.Grammar

/-!
# Requests that come in pieces

`parse` may be called again on the same `HttpRequest` with the bytes behind those it has read, and
`m_state` takes it on. The locals it had are lost: `begin`, the name of the parameter or header at hand,
and the length of the body. `resumable_iff` says which pieces give the request that one call gives: the
cuts must leave the tokens what they are, and the call that reads the end of the head must have the body
in front of it.
-/

namespace VServer

open Http Scanner

/-- The pieces of a message one after another. Each comes with the bytes that lie behind it in
memory. -/
def HttpRequest.parsePieces (req : HttpRequest) :
    List (List Byte × List Byte) → Except Fault HttpRequest
  | [] => .ok req
  | (piece, beyond) :: pieces => do
    let req ← req.parse (piece ++ beyond) piece.length
    req.parsePieces pieces

/-- A piece begins with the byte at `i`. -/
def startsAt : List (List Byte) → Nat → Bool
  | [], _ => false
  | piece :: pieces, i => i == 0 || (decide (piece.length ≤ i) && startsAt pieces (i - piece.length))

/-- The call that reads the byte at `i`: what its piece has behind that byte, and what lies behind the
piece. -/
def behindByte : List (List Byte × List Byte) → Nat → List Byte × List Byte
  | [], _ => ([], [])
  | (piece, beyond) :: pieces, i =>
    if i < piece.length then (piece.drop (i + 1), beyond) else behindByte pieces (i - piece.length)

/-- The same fields and the same state. -/
structure HttpRequest.Same (req req' : HttpRequest) : Prop where
  method : req.method = req'.method
  version : req.version = req'.version
  path : req.path = req'.path
  params : ∀ name, req.params.lookup name = req'.params.lookup name
  heads : ∀ name, req.heads.lookup name = req'.heads.lookup name
  body : req.body = req'.body
  state : req.state = req'.state

/-- The pieces give what one call on `msg` gives. -/
def Resumable (msg beyond : List Byte) (pieces : List (List Byte × List Byte)) : Prop :=
  ∃ whole req, HttpRequest.fresh.parse (msg ++ beyond) msg.length = .ok whole ∧
    HttpRequest.fresh.parsePieces pieces = .ok req ∧ req.Same whole

/-- What the cuts leave of the tokens is read as the tokens are. -/
structure Head.Survives (g : Head) (cut : Nat → Bool) : Prop where
  method : (HttpRequest.fresh.setMethod (kept cut g.methodAt g.method)).method =
    (HttpRequest.fresh.setMethod g.method).method
  path : kept cut g.pathAt g.path = g.path
  params : ∀ name, (cutParams cut g.paramsAt g.params).lookup name = g.params.lookup name
  version : (HttpRequest.fresh.setVersion (kept cut g.versionAt g.version)).version =
    (HttpRequest.fresh.setVersion g.version).version
  heads : ∀ name, (cutHeads cut g.headsAt g.heads).lookup name =
    (g.heads.map fun h => (h.key, h.value)).lookup name

/-- The call that reads the end of the head has bytes of the body left in its piece, and in memory all
of it. -/
def BodyAtHand (g : Head) (body : List Byte) (pieces : List (List Byte × List Byte)) : Prop :=
  (behindByte pieces (g.text.length - 1)).1 ≠ [] ∧
    body <+: (behindByte pieces (g.text.length - 1)).1 ++ (behindByte pieces (g.text.length - 1)).2

variable {cut : Nat → Bool} {g : Head} {body value : List Byte}

theorem parsePieces_append (req : HttpRequest) (pieces pieces' : List (List Byte × List Byte)) :
    req.parsePieces (pieces ++ pieces') =
      req.parsePieces pieces >>= fun req' => req'.parsePieces pieces' := by
  induction pieces generalizing req with
  | nil => rfl
  | cons p pieces ih =>
    obtain ⟨piece, beyond⟩ := p
    rw [List.cons_append, HttpRequest.parsePieces, HttpRequest.parsePieces]
    cases req.parse (piece ++ beyond) piece.length with
    | error e => rfl
    | ok req' => exact ih req'

theorem startsAt_inside {piece : List Byte} (pieces : List (List Byte)) {i : Nat} (hi : 0 < i)
    (hlt : i < piece.length) : startsAt (piece :: pieces) i = false := by
  rw [startsAt]
  simp
  omega

theorem startsAt_behind (piece : List Byte) (pieces : List (List Byte)) {i : Nat} (hi : 0 < i) :
    startsAt (piece :: pieces) (piece.length + i) = startsAt pieces i := by
  rw [startsAt]
  simp
  omega

theorem split_pieces {pieces : List (List Byte × List Byte)} {front behind : List Byte} {c : Byte}
    (h : (pieces.map Prod.fst).flatten = front ++ c :: behind) :
    ∃ before p r beyond after, pieces = before ++ (p ++ c :: r, beyond) :: after ∧
      (before.map Prod.fst).flatten ++ p = front ∧ r ++ (after.map Prod.fst).flatten = behind ∧
      behindByte pieces front.length = (r, beyond) := by
  induction pieces generalizing front with
  | nil => simp at h
  | cons q pieces ih =>
    obtain ⟨piece, beyond⟩ := q
    rw [List.map_cons, List.flatten_cons] at h
    have hlater : ∀ rest, front = piece ++ rest → (pieces.map Prod.fst).flatten = rest ++ c :: behind →
        ∃ before p r beyond' after, (piece, beyond) :: pieces =
          before ++ (p ++ c :: r, beyond') :: after ∧ (before.map Prod.fst).flatten ++ p = front ∧
          r ++ (after.map Prod.fst).flatten = behind ∧
          behindByte ((piece, beyond) :: pieces) front.length = (r, beyond') := by
      rintro rest rfl hrest
      obtain ⟨before, p, r, beyond', after, rfl, rfl, hbehind, hbyte⟩ := ih hrest
      refine ⟨(piece, beyond) :: before, p, r, beyond', after, rfl, by simp, hbehind, ?_⟩
      rw [behindByte, if_neg (by simp), List.length_append, Nat.add_sub_cancel_left, hbyte]
    rcases List.append_eq_append_iff.mp h with ⟨rest, hfront, hrest⟩ | ⟨tail, hpiece, htail⟩
    · exact hlater rest hfront hrest
    · dsimp only at hpiece
      cases tail with
      | nil => exact hlater [] (by simpa using hpiece.symm) htail.symm
      | cons d r =>
        obtain ⟨rfl, rfl⟩ := List.cons.inj htail
        refine ⟨[], front, r, beyond, pieces, by rw [hpiece]; rfl, rfl, rfl, ?_⟩
        rw [behindByte, hpiece, if_pos (by simp), List.drop_append, List.drop_eq_nil_of_le (by simp)]
        simp

theorem parsePieces_resumes {before : List (List Byte × List Byte)} {p rest : List Byte}
    (hrest : rest ≠ []) {after : List (List Byte)} {o : Nat} {s t : Scanner}
    (h : Resumes cut o s ((before.map Prod.fst).flatten ++ p) t) (hs : s = .enter s.req)
    (hcut : ∀ i, 0 < i → cut (o + i) = startsAt (before.map Prod.fst ++ (p ++ rest) :: after) i) :
    ∃ req, s.req.parsePieces before = .ok req ∧ Turns (.enter req) p t := by
  induction before generalizing o s with
  | nil =>
    refine ⟨s.req, rfl, ?_⟩
    rw [← hs]
    have hinside : ∀ i, 0 < i → i ≤ p.length → cut (o + i) = false := by
      intro i hi hle
      have hlength : 0 < rest.length := List.length_pos_iff.mpr hrest
      rw [hcut i hi]
      exact startsAt_inside after hi (by rw [List.length_append]; omega)
    by_cases hp : p = []
    · subst hp
      cases h
      exact .nil _
    · obtain ⟨u, hu, ht⟩ := h.turns (fun i hi hlt => hinside i hi (Nat.le_of_lt hlt)) hp
      rw [List.map_nil, List.flatten_nil, List.nil_append,
        hinside _ (List.length_pos_iff.mpr hp) (Nat.le_refl _)] at ht
      rw [ht]
      exact hu
  | cons q before ih =>
    obtain ⟨piece, beyond⟩ := q
    rw [List.map_cons, List.flatten_cons, List.append_assoc] at h
    obtain ⟨u, hu, hrestturns⟩ := h.split
    dsimp only at hu hrestturns
    have hnext : ∀ i, 0 < i → cut (o + piece.length + i) =
        startsAt (before.map Prod.fst ++ (p ++ rest) :: after) i := by
      intro i hi
      rw [Nat.add_assoc, hcut _ (Nat.add_pos_right _ hi)]
      exact startsAt_behind piece _ hi
    by_cases hpiece : piece = []
    · subst hpiece
      cases hu
      obtain ⟨req, hreq, hturns⟩ := ih hrestturns hs hnext
      refine ⟨req, ?_, hturns⟩
      rw [HttpRequest.parsePieces, List.length_nil, parse_of_nonpos _ _ (by decide), ok_bind, hreq]
    · obtain ⟨v, hv, huv⟩ := hu.turns (fun i hi hlt => by
        rw [hcut i hi]
        exact startsAt_inside _ hi hlt) hpiece
      -- the piece behind this one begins here
      have hstarts : cut (o + piece.length) = true := by
        rw [hcut _ (List.length_pos_iff.mpr hpiece), List.map_cons, List.cons_append, startsAt]
        cases hbefore : before.map Prod.fst ++ (p ++ rest) :: after with
        | nil => simp at hbefore
        | cons q' qs => simp [startsAt]
      rw [hstarts] at huv
      obtain ⟨req, hreq, hturns⟩ := ih hrestturns (by rw [huv]; rfl) hnext
      refine ⟨req, ?_, hturns⟩
      have hread : Scanner.read beyond (.enter s.req) piece = .ok v := by
        have hall := hv.read beyond []
        rw [List.append_nil] at hall
        rw [← hs, hall]
        rfl
      rw [HttpRequest.parsePieces, parse_eq_read, hread, ← hreq, huv]
      rfl

/-! ## Behind the head -/

/-- Behind the blank line only the body and the state change. -/
def HttpRequest.Past (req req' : HttpRequest) : Prop :=
  (req'.state = .body ∨ req'.state = .end) ∧
    ∃ body state, req' = { req with body := body, state := state }

theorem HttpRequest.Past.trans {req req' req'' : HttpRequest} (h : req.Past req')
    (h' : req'.Past req'') : req.Past req'' := by
  obtain ⟨-, body, state, rfl⟩ := h
  obtain ⟨hstate, body', state', rfl⟩ := h'
  exact ⟨hstate, body', state', rfl⟩

theorem endHead_past {s t : Scanner} {left : Nat} (h : s.endHead left = .ok t) : s.req.Past t.req := by
  obtain ⟨n, state, hstate, rfl⟩ := endHead_eq_ok h
  exact ⟨hstate, _, _, rfl⟩

theorem read_past {s t : Scanner} {beyond msg : List Byte}
    (hs : s.req.state = .body ∨ s.req.state = .end) (h : read beyond s msg = .ok t) :
    s.req.Past t.req := by
  have hself : s.req.Past s.req := ⟨hs, _, _, rfl⟩
  rcases hs with hs | hs
  · cases msg with
    | nil =>
      cases h
      exact hself
    | cons c rest =>
      rw [read_body beyond hs (List.cons_ne_nil c rest), copyBody] at h
      split_ifs at h
      cases h
      exact ⟨.inr rfl, _, _, rfl⟩
  · rw [read_stopped beyond msg (by rw [hs]; rfl)] at h
    cases h
    exact hself

theorem parsePieces_past {req req' : HttpRequest} (hs : req.state = .body ∨ req.state = .end)
    {pieces : List (List Byte × List Byte)} (h : req.parsePieces pieces = .ok req') :
    req.Past req' := by
  induction pieces generalizing req with
  | nil =>
    cases h
    exact ⟨hs, _, _, rfl⟩
  | cons p pieces ih =>
    obtain ⟨piece, beyond⟩ := p
    obtain ⟨u, hu, hrest⟩ := bind_eq_ok h
    rw [parse_eq_read] at hu
    cases hread : read beyond (.enter req) piece with
    | error e =>
      rw [hread] at hu
      cases hu
    | ok t =>
      rw [hread] at hu
      cases hu
      have hpast := read_past hs hread
      exact hpast.trans (ih hpast.1 hrest)

theorem parsePieces_stopped {req : HttpRequest} (hstop : req.state.stopped = true)
    (pieces : List (List Byte × List Byte)) : req.parsePieces pieces = .ok req := by
  induction pieces with
  | nil => rfl
  | cons p pieces ih =>
    rw [HttpRequest.parsePieces, parse_eq_read, read_stopped (s := .enter req) _ _ hstop]
    exact ih

theorem parsePieces_body {req : HttpRequest} (hstate : req.state = .body)
    {pieces : List (List Byte × List Byte)} (hne : (pieces.map Prod.fst).flatten ≠ []) :
    req.parsePieces pieces = .ok { req with body := [], state := .end } := by
  induction pieces with
  | nil => exact absurd rfl hne
  | cons p pieces ih =>
    obtain ⟨piece, beyond⟩ := p
    rw [HttpRequest.parsePieces]
    by_cases hpiece : piece = []
    · subst hpiece
      rw [List.length_nil, parse_of_nonpos _ _ (by decide), ok_bind]
      exact ih hne
    · rw [parse_eq_read, read_body (s := .enter req) beyond hstate hpiece]
      exact parsePieces_stopped rfl pieces

theorem endHead_read {t : Scanner} {n : Nat}
    (hvalue : t.req.heads.lookup (bytes "Content-Length") = some value) (hn : stoi value = .ok n)
    (rest beyond : List Byte) :
    (t.endHead rest.length >>= fun t' => Scanner.read beyond (t'.push LF) rest).map (·.req) =
      if n = 0 then .ok { t.req with state := .end }
      else if rest = [] then .ok { t.req with state := .body }
      else if n ≤ (rest ++ beyond).length then
        .ok { t.req with body := (rest ++ beyond).take n, state := .end }
      else .error .undefined := by
  rw [endHead_ok hvalue hn, ok_bind]
  by_cases hzero : n = 0
  · subst hzero
    rw [if_pos rfl, if_neg (by decide), read_stopped beyond rest rfl]
    rfl
  · rw [if_neg hzero, if_pos (by omega)]
    by_cases hrest : rest = []
    · rw [if_pos hrest, hrest]
      rfl
    · have hlength : ∀ u : Scanner, u.bodyLength = n → u.copyBody (rest ++ beyond) =
          if n ≤ (rest ++ beyond).length then
            .ok ({ u with req := { u.req with body := (rest ++ beyond).take n } }.goto .end)
          else .error .undefined := by
        intro u hu
        rw [copyBody, hu, if_neg (by omega), Int.toNat_natCast]
      rw [if_neg hrest, read_body beyond rfl hrest, hlength _ rfl]
      split_ifs
      · rfl
      · rfl

theorem parse_whole (hg : g.Loose) (hvalue : g.headerMap.lookup (bytes "Content-Length") = some value)
    (hn : stoi value = .ok body.length) (beyond : List Byte) :
    HttpRequest.fresh.parse (g.text ++ body ++ beyond) (g.text ++ body).length =
      .ok { g.request .end with body := body } := by
  obtain ⟨t, ht, hhead⟩ := head_of_loose hg body
  rw [parse_eq_read, (read_of_head hhead).1, endHead_read (by rw [ht]; exact hvalue) hn, ht]
  split_ifs with hzero hnil hfit
  · rw [List.length_eq_zero_iff.mp hzero]
    rfl
  · exact absurd (by rw [hnil]; rfl) hzero
  · rw [List.take_left]
    rfl
  · exact absurd (by simp) hfit

theorem parsePieces_head (hg : g.Loose) {before : List (List Byte × List Byte)}
    {p : List Byte} (r beyond : List Byte) (after : List (List Byte × List Byte))
    (hfront : (before.map Prod.fst).flatten ++ p = g.core ++ ([LF, CR] ++ g.stray)) :
    ∃ t : Scanner, t.req = g.cutRequest
        (startsAt ((before ++ (p ++ LF :: r, beyond) :: after).map Prod.fst)) .wCrLfCr ∧
      HttpRequest.fresh.parsePieces (before ++ (p ++ LF :: r, beyond) :: after) =
        (t.endHead r.length >>= fun t' => Scanner.read beyond (t'.push LF) r).map (·.req) >>=
          fun req => req.parsePieces after := by
  obtain ⟨t, ht, hturns⟩ :=
    readsCut_head (startsAt ((before ++ (p ++ LF :: r, beyond) :: after).map Prod.fst)) hg
  rw [← hfront] at hturns
  obtain ⟨req, hreq, hp⟩ := parsePieces_resumes (List.cons_ne_nil LF r) hturns rfl fun i _ => by
    rw [Nat.zero_add, List.map_append, List.map_cons]
  refine ⟨t, ht, ?_⟩
  have hstate : t.req.state = .wCrLfCr := by
    rw [ht]
    rfl
  have hread : Scanner.read beyond (.enter req) (p ++ LF :: r) =
      t.endHead r.length >>= fun t' => Scanner.read beyond (t'.push LF) r := by
    rw [hp.read, Scanner.read, if_neg (by rw [hstate]; decide), if_neg (by rw [hstate]; decide), turn,
      hstate]
    rfl
  rw [parsePieces_append]
  show (HttpRequest.parsePieces (Scanner.enter .fresh).req before >>= _) = _
  rw [hreq, ok_bind, HttpRequest.parsePieces, parse_eq_read, hread]

theorem run_past {t : Scanner} {r behind : List Byte} {after : List (List Byte × List Byte)}
    {req : HttpRequest}
    (h : ((t.endHead r.length >>= fun t' => Scanner.read behind (t'.push LF) r).map (·.req) >>=
      fun req => req.parsePieces after) = .ok req) : t.req.Past req := by
  obtain ⟨u, hu, hrest⟩ := bind_eq_ok h
  cases hread : (t.endHead r.length >>= fun t' => Scanner.read behind (t'.push LF) r) with
  | error e =>
    rw [hread] at hu
    cases hu
  | ok v =>
    rw [hread] at hu
    cases hu
    obtain ⟨t', hend, hbody⟩ := bind_eq_ok hread
    have hfirst := endHead_past hend
    have hsecond := hfirst.trans (read_past (s := t'.push LF) hfirst.1 hbody)
    exact hsecond.trans (parsePieces_past hsecond.1 hrest)

theorem run_announced {t : Scanner} {r behind : List Byte} {after : List (List Byte × List Byte)}
    (hvalue : t.req.heads.lookup (bytes "Content-Length") = some value)
    (hlength : stoi value = .ok body.length) (hbehind : r ++ (after.map Prod.fst).flatten = body) :
    ((t.endHead r.length >>= fun t' => Scanner.read behind (t'.push LF) r).map (·.req) >>=
        fun req => req.parsePieces after) =
      if body = [] then .ok { t.req with state := .end }
      else if r = [] then .ok { t.req with body := [], state := .end }
      else if body.length ≤ (r ++ behind).length then
        .ok { t.req with body := (r ++ behind).take body.length, state := .end }
      else .error .undefined := by
  rw [endHead_read hvalue hlength]
  by_cases hbody : body = []
  · rw [if_pos hbody, if_pos (by rw [hbody]; rfl), ok_bind, parsePieces_stopped rfl]
  · rw [if_neg hbody, if_neg (by rwa [List.length_eq_zero_iff])]
    by_cases hr : r = []
    · rw [if_pos hr, if_pos hr, ok_bind, parsePieces_body rfl (by rwa [← hbehind, hr] at hbody)]
    · rw [if_neg hr, if_neg hr]
      split_ifs
      · rw [ok_bind, parsePieces_stopped rfl]
      · rfl

theorem same_iff {req : HttpRequest} (hreq : (g.cutRequest cut .wCrLfCr).Past req) :
    req.Same { g.request .end with body := body } ↔
      g.Survives cut ∧ req.body = body ∧ req.state = .end := by
  obtain ⟨-, stored, state, rfl⟩ := hreq
  have hlookup : ∀ (l l' : List (List Byte × List Byte)) (name : List Byte),
      (Assoc.insertAll [] l).lookup name = (Assoc.insertAll [] l').lookup name ↔
        l.lookup name = l'.lookup name := by
    intro l l' name
    rw [Assoc.lookup_insertAll, Assoc.lookup_insertAll]
  constructor
  · intro h
    exact ⟨⟨h.method, h.path, fun name => (hlookup _ _ name).mp (h.params name), h.version,
      fun name => (hlookup _ _ name).mp (h.heads name)⟩, h.body, h.state⟩
  · rintro ⟨h, hbody, hstate⟩
    exact ⟨h.method, h.version, h.path, fun name => (hlookup _ _ name).mpr (h.params name),
      fun name => (hlookup _ _ name).mpr (h.heads name), hbody, hstate⟩

/-- **When pieces are as good as the whole.** -/
theorem resumable_iff (hg : g.Loose)
    (hvalue : g.headerMap.lookup (bytes "Content-Length") = some value)
    (hlength : stoi value = .ok body.length) (beyond : List Byte)
    (pieces : List (List Byte × List Byte)) (hpieces : (pieces.map Prod.fst).flatten = g.text ++ body) :
    Resumable (g.text ++ body) beyond pieces ↔
      g.Survives (startsAt (pieces.map Prod.fst)) ∧ (body = [] ∨ BodyAtHand g body pieces) := by
  obtain ⟨before, p, r, behind, after, hsplit, hfront, hbehind, hbyte⟩ :=
    @split_pieces pieces (g.core ++ ([LF, CR] ++ g.stray)) body LF
      (by rw [hpieces, Head.text]; simp)
  obtain ⟨t, ht, hparse⟩ := parsePieces_head hg r behind after hfront
  rw [← hsplit] at ht hparse
  have hat : behindByte pieces (g.text.length - 1) = (r, behind) := by
    rw [← hbyte, Head.text]
    simp
  have hpast : ∀ req, HttpRequest.fresh.parsePieces pieces = .ok req →
      (g.cutRequest (startsAt (pieces.map Prod.fst)) .wCrLfCr).Past req := by
    intro req hreq
    rw [← ht]
    exact run_past (hparse ▸ hreq)
  have hrun : g.Survives (startsAt (pieces.map Prod.fst)) →
      HttpRequest.fresh.parsePieces pieces =
        if body = [] then .ok { t.req with state := .end }
        else if r = [] then .ok { t.req with body := [], state := .end }
        else if body.length ≤ (r ++ behind).length then
          .ok { t.req with body := (r ++ behind).take body.length, state := .end }
        else .error .undefined := by
    intro h
    have hannounced : t.req.heads.lookup (bytes "Content-Length") = some value := by
      rw [← hvalue, Head.headerMap, Assoc.lookup_insertAll, ← h.heads, ht]
      exact Assoc.lookup_insertAll _ _
    rw [hparse, run_announced hannounced hlength hbehind]
  have hwhole := parse_whole hg hvalue hlength beyond
  rw [BodyAtHand, hat]
  constructor
  · rintro ⟨whole, req, hparsed, hreq, hsame⟩
    rw [hwhole] at hparsed
    cases hparsed
    obtain ⟨hsurvives, hbody, -⟩ := (same_iff (hpast req hreq)).mp hsame
    refine ⟨hsurvives, or_iff_not_imp_left.mpr fun hne => ?_⟩
    rw [hrun hsurvives, if_neg hne] at hreq
    split_ifs at hreq with hr hfit
    · cases hreq
      exact absurd hbody.symm hne
    · cases hreq
      exact ⟨hr, List.prefix_iff_eq_take.mpr hbody.symm⟩
  · rintro ⟨hsurvives, hbody⟩
    have hresult : ∃ req, HttpRequest.fresh.parsePieces pieces = .ok req ∧ req.body = body ∧
        req.state = .end := by
      rw [hrun hsurvives]
      by_cases hnil : body = []
      · refine ⟨_, if_pos hnil, ?_, rfl⟩
        rw [hnil, ht]
        rfl
      · obtain ⟨hr, hprefix⟩ := hbody.resolve_left hnil
        rw [if_neg hnil, if_neg hr, if_pos hprefix.length_le]
        exact ⟨_, rfl, (List.prefix_iff_eq_take.mp hprefix).symm, rfl⟩
    obtain ⟨req, hreq, hfields⟩ := hresult
    exact ⟨_, req, hwhole, hreq, (same_iff (hpast req hreq)).mpr ⟨hsurvives, hfields⟩⟩

def announcingHead : Head where
  lead := []
  method := bytes "GET"
  gap := bytes " "
  path := bytes "/"
  params := [(bytes "k", bytes "v")]
  gap' := bytes " "
  version := bytes "HTTP/1.1"
  heads := [⟨bytes "Content-Length", bytes " ", bytes "2"⟩]
  stray := []

theorem announcingHead_loose : announcingHead.Loose where
  lead := nofun
  method := ⟨71, bytes "ET", by decide, by decide, by decide +kernel⟩
  gap := ⟨by decide, by decide +kernel⟩
  path := ⟨47, [], by decide, rfl, nofun⟩
  params := by
    refine List.forall_mem_cons.mpr ⟨⟨?_, ?_⟩, nofun⟩
    · exact ⟨107, [], by decide, ⟨by decide, by decide, by decide⟩, nofun⟩
    · exact ⟨118, [], by decide, ⟨by decide, by decide, by decide⟩, nofun⟩
  gap' := ⟨by decide, by decide +kernel⟩
  version := ⟨72, bytes "TTP/1.1", by decide, by decide, by decide +kernel⟩
  heads := by
    refine List.forall_mem_cons.mpr ⟨⟨?_, by decide +kernel, by decide +kernel, ?_⟩, nofun⟩
    · exact ⟨67, bytes "ontent-Length", by decide, by decide, by decide +kernel⟩
    · rintro c ⟨⟩
      rfl
  stray := nofun

/-- Cuts where no local of `parse` is in use, and the end of the head in one piece with the body. -/
def harmlessPieces : List (List Byte × List Byte) :=
  [(bytes "GET ", []), (bytes "/?", []), (bytes "k=v ", []), (bytes "HTTP/1.1\r", []),
    (bytes "\nContent-Length: 2\r", []), (bytes "\n\r\nok", [])]

theorem resumable_iff_harmless :
    Resumable (announcingHead.text ++ bytes "ok") [] harmlessPieces := by
  have hvalue : announcingHead.headerMap.lookup (bytes "Content-Length") = some (bytes "2") := by
    decide +kernel
  refine (resumable_iff announcingHead_loose hvalue (by decide +kernel) [] harmlessPieces
    (by decide +kernel)).mpr ⟨⟨?_, ?_, fun name => ?_, ?_, fun name => ?_⟩, .inr ?_⟩
  · decide +kernel
  · decide +kernel
  · rw [show cutParams (startsAt (harmlessPieces.map Prod.fst)) announcingHead.paramsAt
      announcingHead.params = announcingHead.params by decide +kernel]
  · decide +kernel
  · rw [show cutHeads (startsAt (harmlessPieces.map Prod.fst)) announcingHead.headsAt
      announcingHead.heads = announcingHead.heads.map fun h => (h.key, h.value) by decide +kernel]
  · exact ⟨by decide +kernel, by decide +kernel⟩

/-- The head in one piece and the body in the next: the body is lost. -/
theorem body_lost :
    ¬ ∀ (g : Head) (body value beyond : List Byte) (pieces : List (List Byte × List Byte)), g.Loose →
      g.headerMap.lookup (bytes "Content-Length") = some value → stoi value = .ok body.length →
      (pieces.map Prod.fst).flatten = g.text ++ body → Resumable (g.text ++ body) beyond pieces := by
  intro h
  obtain ⟨whole, req, hwhole, hreq, hsame⟩ := h announcingHead (bytes "ok") (bytes "2") []
    [(announcingHead.text, []), (bytes "ok", [])] announcingHead_loose (by decide +kernel)
    (by decide +kernel) (by decide +kernel)
  have hlost : (HttpRequest.fresh.parsePieces [(announcingHead.text, []), (bytes "ok", [])]).map
      (·.body) = .ok [] := by decide +kernel
  have hstored : (HttpRequest.fresh.parse (announcingHead.text ++ bytes "ok" ++ [])
      (announcingHead.text ++ bytes "ok").length).map (·.body) = .ok (bytes "ok") := by decide +kernel
  rw [hreq] at hlost
  rw [hwhole] at hstored
  have hbody : req.body = [] := Except.ok.inj hlost
  have hbody' : whole.body = bytes "ok" := Except.ok.inj hstored
  have heq := hsame.body
  rw [hbody, hbody'] at heq
  cases heq

end VServer

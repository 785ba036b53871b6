import VServer.Http.Scanner

/-!
# Which bytes the parser reads

`Scanner.head` finds the blank line that ends the head of a message, with what was read before it
and the bytes behind it. Up to there the parser looks at one byte after another and cannot leave the
message (`read_of_head_none`); the copy of the body is the one block access, and its size is what
the head announced (`read_of_head`). So the parser stays inside the message exactly when the head
announces no more bytes than follow the blank line (`parse_inside_iff`).
-/

namespace VServer

open Http

theorem stoi_error {value : List Byte} {e : Fault} (h : stoi value = .error e) : e = .exception := by
  unfold stoi at h
  dsimp only at h
  split_ifs at h
  all_goals
    cases h
    rfl

namespace Scanner

/-- The scanner at the blank line that ends the head, and the bytes of the message behind it. -/
def head (s : Scanner) : List Byte → Option (Scanner × List Byte)
  | [] => none
  | c :: rest =>
    if s.req.state.stopped ∨ s.req.state = .body then none
    else if s.req.state = .wCrLfCr ∧ c = LF then some (s, rest)
    else
      match s.turn c rest.length with
      | .ok s' => head (s'.push c) rest
      | .error _ => none

variable {s : Scanner}

def Past (s : Scanner) : Prop := s.req.state = .body ∨ s.req.state = .end

/-- Away from the blank line a turn cannot fail, does not look at how much is left, and neither
enters the body nor touches it, nor ends the message. -/
theorem turn_ok (c : Byte) (hblank : ¬(s.req.state = .wCrLfCr ∧ c = LF))
    (hbody : s.req.state ≠ .body) :
    ∃ s', (∀ left, s.turn c left = .ok s') ∧ s'.req.state ≠ .body ∧ s'.req.body = s.req.body ∧
      (s'.Past → s.Past) := by
  have keep : ∃ s', (∀ left : Nat, (Except.ok s : Except Fault Scanner) = .ok s') ∧
      s'.req.state ≠ .body ∧ s'.req.body = s.req.body ∧ (s'.Past → s.Past) :=
    ⟨s, fun _ => rfl, hbody, rfl, id⟩
  unfold turn
  cases hstate : s.req.state with
  | body => exact absurd hstate hbody
  | wCrLfCr =>
    have hc : c ≠ LF := fun hc => hblank ⟨hstate, hc⟩
    simp only [if_neg hc]
    exact keep
  | beforeHeaderValue =>
    dsimp only
    split_ifs
    all_goals exact ⟨_, fun _ => rfl, by simp [endHeader, goto, mark, HttpRequest.goto, hstate], rfl,
      by simp [Past, endHeader, goto, mark, HttpRequest.goto, hstate]⟩
  | _ =>
    dsimp only
    repeat' split_ifs
    all_goals first
      | exact keep
      | exact ⟨_, fun _ => rfl, by simp [endHeader, goto, mark, HttpRequest.goto], rfl,
          by simp [Past, endHeader, goto, mark, HttpRequest.goto]⟩

theorem read_cons_turn {beyond rest : List Byte} {s' : Scanner} {c : Byte}
    (hstop : s.req.state.stopped = false) (hbody : s.req.state ≠ .body)
    (hturn : s.turn c rest.length = .ok s') :
    read beyond s (c :: rest) = read beyond (s'.push c) rest := by
  rw [read, if_neg (by simp [hstop]), if_neg hbody, hturn, ok_bind]

theorem read_stopped (beyond msg : List Byte) (hstop : s.req.state.stopped = true) :
    read beyond s msg = .ok s := by
  cases msg with
  | nil => rfl
  | cons c rest => rw [read, if_pos hstop]

theorem read_of_head_none {msg : List Byte} (hbody : s.req.state ≠ .body)
    (h : s.head msg = none) :
    ∃ t, (∀ beyond, read beyond s msg = .ok t) ∧ t.req.body = s.req.body ∧ (t.Past → s.Past) := by
  induction msg generalizing s with
  | nil => exact ⟨s, fun _ => rfl, rfl, id⟩
  | cons c rest ih =>
    by_cases hstop : s.req.state.stopped = true
    · exact ⟨s, fun beyond => read_stopped beyond _ hstop, rfl, id⟩
    · rw [head, if_neg (by simp [hstop, hbody])] at h
      by_cases hblank : s.req.state = .wCrLfCr ∧ c = LF
      · rw [if_pos hblank] at h
        cases h
      · obtain ⟨s', hturn, hbody', hsame, hpast⟩ := turn_ok c hblank hbody
        simp only [if_neg hblank, hturn] at h
        obtain ⟨t, hread, hbody'', hpast'⟩ := ih (s := s'.push c) hbody' h
        refine ⟨t, fun beyond => ?_, hbody''.trans hsame, fun ht => hpast (hpast' ht)⟩
        rw [read_cons_turn (by simpa using hstop) hbody (hturn _), hread]

/-- Reading a message is reading its head, taking note of what it announces, and reading on. -/
theorem read_of_head {msg rest : List Byte} {t : Scanner} (h : s.head msg = some (t, rest)) :
    (∀ beyond, read beyond s msg =
        t.endHead rest.length >>= fun t' => read beyond (t'.push LF) rest) ∧
      t.req.body = s.req.body ∧ rest <:+ msg := by
  induction msg generalizing s with
  | nil => cases h
  | cons c tail ih =>
    rw [head] at h
    split_ifs at h with hstop hblank
    · obtain ⟨rfl, rfl⟩ := Prod.mk.inj (Option.some.inj h)
      obtain ⟨hstate, rfl⟩ := hblank
      push Not at hstop
      refine ⟨fun beyond => ?_, rfl, List.suffix_cons _ _⟩
      rw [read, if_neg hstop.1, if_neg hstop.2, turn, hstate]
      rfl
    · push Not at hstop
      obtain ⟨s', hturn, -, hsame, -⟩ := turn_ok c hblank hstop.2
      simp only [hturn] at h
      obtain ⟨hread, hbody, hsuffix⟩ := ih h
      refine ⟨fun beyond => ?_, hbody.trans hsame, hsuffix.trans (List.suffix_cons _ _)⟩
      rw [read_cons_turn (by simpa using hstop.1) hstop.2 (hturn _), hread]

theorem read_body {msg : List Byte} (beyond : List Byte) (hbody : s.req.state = .body)
    (hne : msg ≠ []) : read beyond s msg = s.copyBody (msg ++ beyond) := by
  cases msg with
  | nil => exact absurd rfl hne
  | cons c rest => rw [read, if_neg (by rw [hbody]; decide), if_pos hbody]

theorem read_body_inside (msg : List Byte) (hbody : s.req.state = .body)
    (hfit : msg ≠ [] → s.bodyLength ≤ msg.length) :
    ∃ r, (∀ beyond, read beyond s msg = r) ∧ r ≠ .error .undefined ∧
      ∀ t, r = .ok t → t.req.body = s.req.body ∨ t.req.body <:+: msg := by
  by_cases hne : msg = []
  · subst hne
    exact ⟨.ok s, fun _ => rfl, by simp, fun t ht => by cases ht; exact Or.inl rfl⟩
  · refine ⟨s.copyBody msg, fun beyond => ?_, ?_, fun t ht => Or.inr ?_⟩
    · rw [read_body beyond hbody hne, copyBody, copyBody]
      split_ifs with hneg hlong hfits hfits
      · rfl
      · rw [List.take_append_of_le_length hfits]
      · exact absurd (hfit hne) (by omega)
      · exact absurd (List.length_append ▸ Nat.le_add_right_of_le hfits) hlong
      · exact absurd (hfit hne) (by omega)
    · have := hfit hne
      rw [copyBody]
      split_ifs with hneg hfits
      · simp
      · simp
      · omega
    · rw [copyBody] at ht
      split_ifs at ht
      cases ht
      exact (List.take_prefix _ _).isInfix

theorem read_body_outside {msg : List Byte} (hbody : s.req.state = .body) (hne : msg ≠ [])
    (hlong : (msg.length : Int) < s.bodyLength) : read [] s msg = .error .undefined := by
  rw [read_body [] hbody hne, List.append_nil, copyBody, if_neg (by omega), if_neg (by omega)]

end Scanner

/-- The body length the head of `msg` announces, when bytes follow its blank line, is at most their
number. -/
def AnnouncesNoMore (req : HttpRequest) (msg : List Byte) : Prop :=
  ∀ s rest value n, (Scanner.enter req).head msg = some (s, rest) → rest ≠ [] →
    s.req.heads.lookup (bytes "Content-Length") = some value → stoi value = .ok n →
    n ≤ rest.length

/-- `parse` on the message `msg` reads bytes of `msg` only: it works when no other byte may be read,
what lies behind the message does not show in the result, and a body it stores is part of the
message. -/
structure ReadsInside (req : HttpRequest) (msg : List Byte) : Prop where
  defined : req.parse msg msg.length ≠ .error .undefined
  agree : ∀ beyond, req.parse (msg ++ beyond) msg.length = req.parse msg msg.length
  body : ∀ r, req.parse msg msg.length = .ok r → r.body = req.body ∨ r.body <:+: msg

theorem readsInside_of_read {req : HttpRequest} {msg : List Byte} {r : Except Fault Scanner}
    (hread : ∀ beyond, Scanner.read beyond (.enter req) msg = r) (hdef : r ≠ .error .undefined)
    (hbody : ∀ t, r = .ok t → t.req.body = req.body ∨ t.req.body <:+: msg) :
    ReadsInside req msg := by
  have hparse : ∀ beyond, req.parse (msg ++ beyond) msg.length = r.map (·.req) := fun beyond => by
    rw [parse_eq_read, hread]
  have hself := hparse []
  rw [List.append_nil] at hself
  refine ⟨?_, fun beyond => by rw [hparse, hself], fun req' hreq => ?_⟩
  · rw [hself]
    cases r with
    | error e => exact fun h => hdef (congrArg _ (Except.error.inj h))
    | ok t => simp [Except.map]
  · rw [hself] at hreq
    cases r with
    | error e => cases hreq
    | ok t =>
      cases hreq
      exact hbody t rfl

/-- **The parser stays inside the message exactly when the head announces no more than there
is.** -/
theorem parse_inside_iff (req : HttpRequest) (msg : List Byte) :
    ReadsInside req msg ↔ AnnouncesNoMore req msg := by
  cases hhead : (Scanner.enter req).head msg with
  | none =>
    refine ⟨fun _ s rest value n h => (by rw [hhead] at h; cases h), fun _ => ?_⟩
    by_cases hbody : req.state = .body
    · -- a parser entered in the body copies nothing: its `bodyLength` is still 0
      obtain ⟨r, hread, hdef, hinside⟩ :=
        Scanner.read_body_inside (s := .enter req) msg hbody (fun _ => by simp [Scanner.enter])
      exact readsInside_of_read hread hdef hinside
    · obtain ⟨t, hread, hsame, -⟩ := Scanner.read_of_head_none (s := .enter req) hbody hhead
      exact readsInside_of_read hread (by simp) fun t' ht => by cases ht; exact Or.inl hsame
  | some found =>
    obtain ⟨s, rest⟩ := found
    obtain ⟨hread, hsame, hsuffix⟩ := Scanner.read_of_head hhead
    have hfound : AnnouncesNoMore req msg ↔ (rest ≠ [] → ∀ value n,
        s.req.heads.lookup (bytes "Content-Length") = some value → stoi value = .ok n →
        n ≤ rest.length) := by
      constructor
      · intro h hne value n hvalue hn
        exact h s rest value n hhead hne hvalue hn
      · rintro h s' rest' value n hhead' hne hvalue hn
        rw [hhead] at hhead'
        cases hhead'
        exact h hne value n hvalue hn
    have hstored : ∀ {t : HttpRequest}, t.body = s.req.body ∨ t.body <:+: rest →
        t.body = req.body ∨ t.body <:+: msg := fun ht =>
      ht.imp (fun h => h.trans hsame) fun h => h.trans hsuffix.isInfix
    rw [hfound]
    cases hvalue : s.req.heads.lookup (bytes "Content-Length") with
    | none =>
      refine ⟨fun _ _ value n h => (by cases h), fun _ => ?_⟩
      obtain ⟨r, hr, hdef, hinside⟩ := Scanner.read_body_inside rest
        (s := ({ s with bodyLength := rest.length }.goto .body).push LF) rfl fun _ => Int.le_refl _
      refine readsInside_of_read (r := r) (fun beyond => ?_) hdef fun t ht => hstored (hinside t ht)
      rw [hread, Scanner.endHead_none hvalue, ok_bind]
      exact hr beyond
    | some value =>
      cases hn : stoi value with
      | error e =>
        refine ⟨fun _ _ value' n h hn' => (by cases h; rw [hn] at hn'; cases hn'), fun _ => ?_⟩
        refine readsInside_of_read (r := .error e) (fun beyond => ?_) ?_ (fun t ht => by cases ht)
        · rw [hread, Scanner.endHead_error hvalue hn, error_bind]
        · rw [stoi_error hn]
          simp
      | ok n =>
        let t : Scanner := ({ s with bodyLength := n }.goto (if 0 < n then .body else .end)).push LF
        have hread' : ∀ beyond, Scanner.read beyond (.enter req) msg = Scanner.read beyond t rest :=
          fun beyond => by rw [hread, Scanner.endHead_ok hvalue hn, ok_bind]
        by_cases hpos : 0 < n
        · have hstate : t.req.state = .body := if_pos hpos
          constructor
          · rintro h hne value' n' hvalue' hn'
            cases hvalue'
            rw [hn] at hn'
            cases hn'
            by_contra hlong
            refine h.defined ?_
            have hparse := parse_eq_read req msg []
            rw [List.append_nil] at hparse
            rw [hparse, hread', Scanner.read_body_outside hstate hne (Int.not_le.mp hlong)]
            rfl
          · intro h
            obtain ⟨r, hr, hdef, hinside⟩ := Scanner.read_body_inside rest hstate
              fun hne => h hne value n rfl hn
            exact readsInside_of_read (fun beyond => (hread' beyond).trans (hr beyond)) hdef
              fun t' ht => hstored (hinside t' ht)
        · have hstop : t.req.state.stopped = true := by
            show (if 0 < n then ParseState.body else ParseState.end).stopped = true
            rw [if_neg hpos]
            rfl
          refine ⟨fun _ hne value' n' hvalue' hn' => ?_, fun _ => ?_⟩
          · cases hvalue'
            rw [hn] at hn'
            cases hn'
            omega
          · exact readsInside_of_read
              (fun beyond => (hread' beyond).trans (Scanner.read_stopped beyond rest hstop))
              (by simp) fun t' ht => by cases ht; exact hstored (Or.inl rfl)

theorem parse_of_nonpos (req : HttpRequest) (mem : List Byte) {len : Int} (hlen : len ≤ 0) :
    req.parse mem len = .ok req := by
  rw [HttpRequest.parse, Int.toNat_of_nonpos hlen]
  rfl

/-- The message of the next theorem: a head that announces two bytes, and one byte. -/
def shortMessage : List Byte := bytes "GET / HTTP/1.1\r\nContent-Length: 2\r\n\r\nX"

/-- The body of `shortMessage` is its last byte and whatever byte lies behind it: two buffers that
agree on the message do not give the same request. -/
theorem shortMessage_reads_outside :
    ¬ (∀ (req : HttpRequest) (msg : List Byte), ReadsInside req msg) ∧
      HttpRequest.fresh.parse (shortMessage ++ [0]) shortMessage.length ≠
        HttpRequest.fresh.parse (shortMessage ++ [1]) shortMessage.length := by
  have hdiffer : HttpRequest.fresh.parse (shortMessage ++ [0]) shortMessage.length ≠
      HttpRequest.fresh.parse (shortMessage ++ [1]) shortMessage.length := by decide +kernel
  refine ⟨fun h => hdiffer ?_, hdiffer⟩
  rw [(h .fresh shortMessage).agree, (h .fresh shortMessage).agree]

end VServer

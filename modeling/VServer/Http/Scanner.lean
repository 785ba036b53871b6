import VServer.Http.Request

/-!
# The parser without pointers

`Scanner` is what `parse` has in hand between two bytes, with the bytes since `begin` in place of
the two pointers: `turn` is one byte, `read` is all of them. `beyond` stands for the bytes behind the
message; only the copy of the body can see them. `parse_eq_read` says that `parse` computes `read`,
so the rest of the development reasons about lists of bytes and not about offsets.
-/

namespace VServer

open Storage Http

structure Scanner where
  req : HttpRequest
  /-- The bytes from `begin` on. -/
  token : List Byte
  paramKey : List Byte
  headerKey : List Byte
  bodyLength : Int
  deriving DecidableEq, Repr

namespace Scanner

/-- `parse` before the first byte. -/
def enter (req : HttpRequest) : Scanner := ⟨req, [], [], [], 0⟩

variable (s : Scanner)

def goto (state : ParseState) : Scanner := { s with req := s.req.goto state }

def mark : Scanner := { s with token := [] }

def push (c : Byte) : Scanner := { s with token := s.token ++ [c] }

def endHeader : Scanner := { s with req := (s.req.addHeader s.headerKey s.token).goto .wCr }

/-- The blank line: what the head announces decides how the body is read. -/
def endHead (left : Nat) : Except Fault Scanner :=
  match s.req.heads.lookup (bytes "Content-Length") with
  | some value => do
    let bodyLength ← stoi value
    return { s with bodyLength := bodyLength }.goto (if 0 < bodyLength then .body else .end)
  | none => .ok ({ s with bodyLength := left }.goto .body)

/-- One byte outside the body, with `left` more bytes behind it. -/
def turn (c : Byte) (left : Nat) : Except Fault Scanner :=
  match s.req.state with
  | .start =>
    if c = CR ∨ c = LF ∨ isblank c then .ok s
    else if isupper c then .ok (s.mark.goto .method)
    else .ok (s.goto .invalid)
  | .method =>
    if isupper c then .ok s
    else if isblank c then .ok (({ s with req := s.req.setMethod s.token }.mark).goto .beforePath)
    else .ok (s.goto .invalidMethod)
  | .beforePath =>
    if isblank c then .ok s
    else if c = 47 then .ok (s.mark.goto .path)
    else .ok (s.goto .invalidPath)
  | .path =>
    if isblank c then .ok ({ s with req := s.req.setPath s.token }.goto .beforeVersion)
    else if c = 63 then .ok ({ s with req := s.req.setPath s.token }.goto .beforeParamKey)
    else .ok s
  | .beforeParamKey =>
    if isblank c ∨ c = LF ∨ c = CR then .ok (s.goto .invalidPath)
    else .ok (s.mark.goto .paramKey)
  | .paramKey =>
    if c = 61 then .ok ({ s with paramKey := s.token }.goto .beforeParamValue)
    else if isblank c then .ok (s.goto .invalidPath)
    else .ok s
  | .beforeParamValue =>
    if isblank c ∨ c = LF ∨ c = CR then .ok (s.goto .invalidPath)
    else .ok (s.mark.goto .paramValue)
  | .paramValue =>
    if c = 38 then
      .ok ({ s with req := s.req.addParams s.paramKey s.token }.goto .beforeParamKey)
    else if isblank c then
      .ok ({ s with req := s.req.addParams s.paramKey s.token }.goto .beforeVersion)
    else .ok s
  | .beforeVersion =>
    if isblank c then .ok s else .ok (s.mark.goto .version)
  | .version =>
    if c = CR then .ok ({ s with req := s.req.setVersion s.token }.goto .wCr) else .ok s
  | .headerKey =>
    if c = 58 then .ok ({ s with headerKey := s.token }.goto .beforeHeaderValue) else .ok s
  | .beforeHeaderValue =>
    let s' := if isblank c then s else s.mark.goto .headerValue
    if c = CR then .ok s'.endHeader else .ok s'
  | .headerValue =>
    if c = CR then .ok s.endHeader else .ok s
  | .wCr =>
    if c = LF then .ok (s.goto .wCrLf) else .ok (s.goto .invalid)
  | .wCrLf =>
    if c = CR then .ok (s.goto .wCrLfCr)
    else if isblank c then .ok (s.goto .invalid)
    else .ok (s.mark.goto .headerKey)
  | .wCrLfCr => if c = LF then s.endHead left else .ok s
  | .body | .invalid | .invalidMethod | .invalidPath | .invalidVersion | .invalidHeader | .end =>
    .ok s

def copyBody (here : List Byte) : Except Fault Scanner :=
  if s.bodyLength < 0 then .error .exception
  else if s.bodyLength.toNat ≤ here.length then
    .ok ({ s with req := { s.req with body := here.take s.bodyLength.toNat } }.goto .end)
  else .error .undefined

def read (beyond : List Byte) (s : Scanner) : List Byte → Except Fault Scanner
  | [] => .ok s
  | c :: rest =>
    if s.req.state.stopped then .ok s
    else if s.req.state = .body then s.copyBody (c :: rest ++ beyond)
    else do
      let s' ← s.turn c rest.length
      read beyond (s'.push c) rest

/-! What the end of the head does, by what it announces. -/

section

variable {s} {value : List Byte}

theorem endHead_none (h : s.req.heads.lookup (bytes "Content-Length") = none) (left : Nat) :
    s.endHead left = .ok ({ s with bodyLength := left }.goto .body) := by
  rw [endHead, h]

theorem endHead_error {e : Fault} (h : s.req.heads.lookup (bytes "Content-Length") = some value)
    (hn : stoi value = .error e) (left : Nat) : s.endHead left = .error e := by
  rw [endHead, h]
  dsimp only
  rw [hn, error_bind]

theorem endHead_ok {n : Int} (h : s.req.heads.lookup (bytes "Content-Length") = some value)
    (hn : stoi value = .ok n) (left : Nat) :
    s.endHead left = .ok ({ s with bodyLength := n }.goto (if 0 < n then .body else .end)) := by
  rw [endHead, h]
  dsimp only
  rw [hn, ok_bind]
  rfl

theorem endHead_eq_ok {t : Scanner} {left : Nat} (h : s.endHead left = .ok t) :
    ∃ (n : Int) (state : ParseState), (state = .body ∨ state = .end) ∧
      t = { s with bodyLength := n }.goto state := by
  cases hlookup : s.req.heads.lookup (bytes "Content-Length") with
  | none =>
    rw [endHead_none hlookup] at h
    exact ⟨_, _, .inl rfl, (Except.ok.inj h).symm⟩
  | some value =>
    cases hn : stoi value with
    | error e =>
      rw [endHead_error hlookup hn] at h
      cases h
    | ok n =>
      rw [endHead_ok hlookup hn] at h
      refine ⟨n, _, ?_, (Except.ok.inj h).symm⟩
      split_ifs
      · exact .inl rfl
      · exact .inr rfl

end

end Scanner

/-- The locals of `parse` as a scanner. -/
def Locals.scanner (mem : List Byte) (s : Locals) : Scanner :=
  ⟨s.req, window mem s.begin s.pos, s.paramKey, s.headerKey, s.bodyLength⟩

section refinement

variable {mem : List Byte} {len : Nat} {s : Locals}

theorem text_eq (first : Nat) {last : Nat} (h : last ≤ mem.length) :
    text mem first last = .ok (window mem first last) := if_pos h

@[simp] theorem scanner_req : (s.scanner mem).req = s.req := rfl

@[simp] theorem scanner_goto (state : ParseState) :
    (s.goto state).scanner mem = (s.scanner mem).goto state := rfl

@[simp] theorem scanner_mark : s.mark.scanner mem = (s.scanner mem).mark := by
  simp [Locals.scanner, Locals.mark, Scanner.mark]

/-- What a turn leaves alone: the position, and `begin` stays behind it. -/
def Kept (s s' : Locals) : Prop := s'.pos = s.pos ∧ s'.begin ≤ s'.pos

def Simulates (mem : List Byte) (s : Locals) (r : Except Fault Locals) (t : Except Fault Scanner) :
    Prop :=
  (∃ s', r = .ok s' ∧ t = .ok (s'.scanner mem) ∧ Kept s s') ∨ (∃ e, r = .error e ∧ t = .error e)

theorem Simulates.ok {s' : Locals} {t : Scanner} (ht : t = s'.scanner mem) (hpos : s'.pos = s.pos)
    (hbegin : s'.begin ≤ s'.pos) : Simulates mem s (.ok s') (.ok t) :=
  Or.inl ⟨s', rfl, congrArg _ ht, hpos, hbegin⟩

theorem endHeader_simulates (hb : s.begin ≤ s.pos) (hpos : s.pos ≤ mem.length) :
    Simulates mem s (endHeader mem s) (.ok (s.scanner mem).endHeader) := by
  rw [endHeader, text_eq _ hpos, ok_bind]
  exact .ok rfl rfl hb

theorem endHead_simulates (hb : s.begin ≤ s.pos) (hlen : s.pos < len) :
    Simulates mem s
      (match s.req.heads.lookup (bytes "Content-Length") with
        | some value => do
          let bodyLength ← stoi value
          return { s with bodyLength := bodyLength }.goto (if 0 < bodyLength then .body else .end)
        | none =>
          if s.pos < len then .ok ({ s with bodyLength := len - s.pos - 1 }.goto .body)
          else .ok (s.goto .end))
      ((s.scanner mem).endHead (len - s.pos - 1)) := by
  rw [Scanner.endHead, scanner_req]
  cases s.req.heads.lookup (bytes "Content-Length") with
  | some value =>
    dsimp only
    cases stoi value with
    | error e => exact Or.inr ⟨e, rfl, rfl⟩
    | ok n => exact .ok rfl rfl hb
  | none =>
    dsimp only
    rw [if_pos hlen]
    refine .ok ?_ rfl hb
    rw [show (((len - s.pos - 1 : Nat) : Int)) = (len : Int) - s.pos - 1 by omega]
    rfl

variable (mem) in
theorem step_simulates (c : Byte) (hb : s.begin ≤ s.pos) (hpos : s.pos ≤ mem.length)
    (hlen : s.pos < len) (hbody : s.req.state ≠ .body) :
    Simulates mem s (step mem len s c) ((s.scanner mem).turn c (len - s.pos - 1)) := by
  unfold step Scanner.turn
  simp only [text_eq _ hpos, ok_bind, scanner_req]
  cases hstate : s.req.state with
  | body => exact absurd hstate hbody
  | wCrLfCr =>
    dsimp only
    by_cases hc : c = LF
    · rw [if_pos hc, if_pos hc]
      exact endHead_simulates hb hlen
    · rw [if_neg hc, if_neg hc]
      exact .ok rfl rfl hb
  | beforeHeaderValue =>
    dsimp only
    by_cases hblank : isblank c = true
    · rw [if_pos hblank, if_pos hblank]
      split_ifs with hc
      · exact endHeader_simulates hb hpos
      · exact .ok rfl rfl hb
    · rw [if_neg hblank, if_neg hblank]
      split_ifs with hc
      · rw [← scanner_mark, ← scanner_goto]
        have hmark : (s.mark.goto .headerValue).begin ≤ (s.mark.goto .headerValue).pos := le_refl _
        exact endHeader_simulates hmark hpos
      · exact .ok (by simp) rfl (le_refl _)
  | headerValue =>
    dsimp only
    split_ifs with hc
    · exact endHeader_simulates hb hpos
    · exact .ok rfl rfl hb
  | method =>
    dsimp only
    split_ifs
    · exact .ok rfl rfl hb
    · refine .ok ?_ rfl (le_refl s.pos)
      rw [scanner_goto, scanner_mark]
      rfl
    · exact .ok rfl rfl hb
  | _ =>
    dsimp only
    repeat' split_ifs
    all_goals first
      | exact .ok rfl rfl hb
      | exact .ok (by rw [scanner_goto, scanner_mark]) rfl (le_refl s.pos)

theorem body_simulates (hbody : s.req.state = .body) (c : Byte) (hpos : s.pos ≤ mem.length) :
    (step mem len s c).map (·.req) =
      ((s.scanner mem).copyBody (mem.drop s.pos)).map (·.req) := by
  unfold step Scanner.copyBody
  rw [hbody]
  dsimp only
  have hlength : (s.scanner mem).bodyLength = s.bodyLength := rfl
  by_cases hneg : s.bodyLength < 0
  · rw [if_pos hneg, if_pos (hlength ▸ hneg)]
    rfl
  · rw [if_neg hneg, if_neg (hlength ▸ hneg), text, window_add]
    by_cases hfit : s.pos + s.bodyLength.toNat ≤ mem.length
    · rw [if_pos hfit, if_pos (by rw [List.length_drop, hlength]; omega), ok_bind]
      rfl
    · rw [if_neg hfit, if_neg (by rw [List.length_drop, hlength]; omega)]
      rfl

theorem scanner_advance {c : Byte} (hb : s.begin ≤ s.pos) (hc : mem[s.pos]? = some c) :
    ({ s with pos := s.pos + 1 }.scanner mem) = (s.scanner mem).push c := by
  simp only [Locals.scanner, Scanner.push, window_succ hb hc]

theorem loop_stopped (fuel : Nat) (hstop : s.req.state.stopped = true) :
    loop mem len fuel s = .ok s := by
  cases fuel with
  | zero => rfl
  | succ fuel => rw [loop, if_neg (by simp [hstop])]

theorem step_body_end {s' : Locals} {c : Byte} (hbody : s.req.state = .body)
    (h : step mem len s c = .ok s') : s'.req.state = .end := by
  unfold step at h
  rw [hbody] at h
  dsimp only at h
  split_ifs at h
  cases htext : text mem s.pos (s.pos + s.bodyLength.toNat) with
  | error e => rw [htext] at h; cases h
  | ok t =>
    rw [htext] at h
    cases h
    rfl

theorem loop_eq_read (mem : List Byte) (len : Nat) (hmem : len ≤ mem.length) :
    ∀ (fuel : Nat) (s : Locals), s.begin ≤ s.pos → s.pos + fuel = len →
      (loop mem len fuel s).map (·.req) =
        (Scanner.read (mem.drop len) (s.scanner mem) (window mem s.pos len)).map (·.req) := by
  intro fuel
  induction fuel with
  | zero =>
    intro s _ hpos
    rw [show s.pos = len by omega, window_self]
    rfl
  | succ fuel ih =>
    intro s hb hpos
    have hlt : s.pos < len := by omega
    have hc : mem[s.pos]? = some mem[s.pos] := List.getElem?_eq_getElem (by omega)
    rw [loop, window_eq_cons hlt hc, Scanner.read, scanner_req]
    by_cases hstop : s.req.state.stopped = true
    · rw [if_neg (by simp [hstop]), if_pos hstop]
      rfl
    · rw [if_pos ⟨by simpa using hstop, hlt⟩, if_neg hstop, hc]
      dsimp only
      by_cases hbody : s.req.state = .body
      · -- the copy sees the rest of the message and what lies behind it
        have hhere : mem[s.pos] :: window mem (s.pos + 1) len ++ mem.drop len = mem.drop s.pos := by
          rw [← window_eq_cons hlt hc, window_append_drop (le_of_lt hlt)]
        rw [if_pos hbody, hhere, ← body_simulates hbody mem[s.pos] (by omega)]
        cases hstep : step mem len s mem[s.pos] with
        | error e => rfl
        | ok s' =>
          rw [ok_bind, loop_stopped fuel (by rw [step_body_end hbody hstep]; rfl)]
          rfl
      · rw [if_neg hbody, length_window hmem, show len - (s.pos + 1) = len - s.pos - 1 from rfl]
        rcases step_simulates mem mem[s.pos] hb (by omega) hlt hbody with
          ⟨s', hstep, hturn, hpos', hb'⟩ | ⟨e, hstep, hturn⟩
        · have hc' : mem[s'.pos]? = some mem[s.pos] := by rw [hpos', hc]
          rw [hstep, hturn, ok_bind, ok_bind, ← scanner_advance hb' hc',
            ih { s' with pos := s'.pos + 1 } (Nat.le_succ_of_le hb') (by dsimp only; omega), hpos']
        · rw [hstep, hturn]
          rfl

/-- **`parse` is `read`.** The message is `msg`, and `beyond` is what may be read behind it. -/
theorem parse_eq_read (req : HttpRequest) (msg beyond : List Byte) :
    req.parse (msg ++ beyond) msg.length =
      (Scanner.read beyond (.enter req) msg).map (·.req) := by
  have h := loop_eq_read (msg ++ beyond) msg.length (by simp) msg.length
    ⟨req, 0, 0, [], [], 0⟩ (le_refl _) (Nat.zero_add _)
  rw [List.drop_left, show window (msg ++ beyond) 0 msg.length = msg by simp [window]] at h
  rw [← show (Locals.mk req 0 0 [] [] 0).scanner (msg ++ beyond) = .enter req from
    by simp [Locals.scanner, Scanner.enter], ← h]
  rfl

end refinement

end VServer

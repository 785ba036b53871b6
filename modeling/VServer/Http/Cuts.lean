import VServer.Http.Head

/-!
# A head that comes in pieces

`m_state` outlives a call of `parse`, the locals of `parse` do not: the next call takes its first byte
for `begin` and has no name of a parameter or header in hand. `Resumes` is the parser on its way through
bytes some of which begin a new call, `kept` is what is left of a token at its end, `held` what is left
of a name at the end of the value. A head in pieces is read as what the cuts leave of its tokens
(`readsCut_head`).
-/

namespace VServer

open Http

variable {cut : Nat → Bool} {o : Nat}

/-- Where the last cut is among those behind the first, second, .. `n`-th byte from `o` on, and 0
without one. -/
def lastCut (cut : Nat → Bool) (o : Nat) : Nat → Nat
  | 0 => 0
  | n + 1 => if cut (o + n + 1) then n + 1 else lastCut cut o n

/-- What the parser still has of a token that begins at `o`, when it is behind it. -/
def kept (cut : Nat → Bool) (o : Nat) (token : List Byte) : List Byte :=
  token.drop (lastCut cut o token.length)

/-- What the parser still has of a name `n` bytes behind the byte that ended it, the one at `o`. -/
def held (cut : Nat → Bool) (o n : Nat) (name : List Byte) : List Byte :=
  if lastCut cut o n = 0 then name else []

theorem lastCut_le (cut : Nat → Bool) (o n : Nat) : lastCut cut o n ≤ n := by
  induction n with
  | zero => exact Nat.le_refl _
  | succ n ih =>
    rw [lastCut]
    split_ifs
    · exact Nat.le_refl _
    · exact Nat.le_succ_of_le ih

theorem kept_append (token : List Byte) (c : Byte) :
    kept cut o (token ++ [c]) =
      if cut (o + token.length + 1) then [] else kept cut o token ++ [c] := by
  rw [kept, List.length_append, List.length_singleton, lastCut]
  split_ifs with hcut
  · exact List.drop_eq_nil_of_le (by simp)
  · rw [List.drop_append_of_le_length (lastCut_le _ _ _), kept]

theorem held_succ (n : Nat) (name : List Byte) :
    held cut o (n + 1) name = if cut (o + n + 1) then [] else held cut o n name := by
  rw [held, lastCut]
  by_cases hcut : cut (o + n + 1) = true
  · rw [if_pos hcut, if_pos hcut, if_neg (Nat.succ_ne_zero n)]
  · rw [if_neg hcut, if_neg hcut, held]

namespace Scanner

variable {s : Scanner}

def resumed (starts : Bool) (s : Scanner) : Scanner := if starts then .enter s.req else s

section resumed

variable (starts : Bool) (s : Scanner)

@[simp] theorem resumed_req : (s.resumed starts).req = s.req := by
  cases starts <;> rfl

theorem resumed_token : (s.resumed starts).token = if starts then [] else s.token := by
  cases starts <;> rfl

theorem resumed_paramKey : (s.resumed starts).paramKey = if starts then [] else s.paramKey := by
  cases starts <;> rfl

theorem resumed_headerKey : (s.resumed starts).headerKey = if starts then [] else s.headerKey := by
  cases starts <;> rfl

end resumed

/-- `Turns` with a new call in front of each byte that `cut` names: the first of the bytes is the one at
`o`, and `t` is the parser in the call that goes on behind them. -/
inductive Resumes (cut : Nat → Bool) : Nat → Scanner → List Byte → Scanner → Prop
  | nil (o : Nat) (s : Scanner) : Resumes cut o s [] s
  | cons {o : Nat} {s s' t : Scanner} {c : Byte} {rest : List Byte}
      (hstop : s.req.state.stopped = false) (hbody : s.req.state ≠ .body)
      (hblank : ¬(s.req.state = .wCrLfCr ∧ c = LF)) (hturn : ∀ left, s.turn c left = .ok s')
      (hrest : Resumes cut (o + 1) ((s'.push c).resumed (cut (o + 1))) rest t) :
      Resumes cut o s (c :: rest) t

theorem Resumes.append {s t u : Scanner} {a b : List Byte} (h : Resumes cut o s a t)
    (h' : Resumes cut (o + a.length) t b u) : Resumes cut o s (a ++ b) u := by
  induction h with
  | nil => exact h'
  | @cons o s s' t c rest hstop hbody hblank hturn _ ih =>
    refine .cons hstop hbody hblank hturn (ih ?_)
    rwa [List.length_cons, ← Nat.add_assoc, Nat.add_right_comm] at h'

theorem Resumes.one {s s' : Scanner} {c : Byte} (hstop : s.req.state.stopped = false)
    (hbody : s.req.state ≠ .body) (hblank : s.req.state ≠ .wCrLfCr)
    (hturn : ∀ left, s.turn c left = .ok s') :
    Resumes cut o s [c] ((s'.push c).resumed (cut (o + 1))) :=
  .cons hstop hbody (fun h => hblank h.1) hturn (.nil _ _)

theorem Resumes.turns {s t : Scanner} {seg : List Byte} (h : Resumes cut o s seg t)
    (hcut : ∀ i, 0 < i → i < seg.length → cut (o + i) = false) (hne : seg ≠ []) :
    ∃ u, Turns s seg u ∧ t = u.resumed (cut (o + seg.length)) := by
  induction h with
  | nil => exact absurd rfl hne
  | @cons o s s' t c rest hstop hbody hblank hturn hrest ih =>
    cases rest with
    | nil =>
      cases hrest
      exact ⟨s'.push c, .cons hstop hbody hblank hturn (.nil _), rfl⟩
    | cons d rest =>
      have hfirst : cut (o + 1) = false := hcut 1 Nat.one_pos (by simp)
      obtain ⟨u, hu, ht⟩ := ih (fun i hi hlt => by
        rw [Nat.add_assoc, Nat.add_comm 1]
        exact hcut (i + 1) (Nat.succ_pos i) (Nat.succ_lt_succ hlt)) (List.cons_ne_nil _ _)
      rw [hfirst] at hu
      refine ⟨u, .cons hstop hbody hblank hturn hu, ?_⟩
      rw [ht, List.length_cons (a := c), Nat.add_assoc, Nat.add_comm 1]

theorem Resumes.split {s t : Scanner} {a b : List Byte} (h : Resumes cut o s (a ++ b) t) :
    ∃ u, Resumes cut o s a u ∧ Resumes cut (o + a.length) u b t := by
  induction a generalizing o s with
  | nil => exact ⟨s, .nil o s, h⟩
  | cons c a ih =>
    cases h with
    | cons hstop hbody hblank hturn hrest =>
      obtain ⟨u, hu, hrest⟩ := ih hrest
      rw [Nat.add_right_comm, Nat.add_assoc o] at hrest
      exact ⟨u, .cons hstop hbody hblank hturn hu, hrest⟩

/-- Behind `seg` the parser has stored `req`; what its locals hold is stale. -/
def ReadsCut (cut : Nat → Bool) (o : Nat) (s : Scanner) (seg : List Byte) (req : HttpRequest) : Prop :=
  ∃ t : Scanner, t.req = req ∧ Resumes cut o s seg t

theorem ReadsCut.trans {a b : List Byte} {req req' : HttpRequest} (h : ReadsCut cut o s a req)
    (h' : ∀ t : Scanner, t.req = req → ReadsCut cut (o + a.length) t b req') :
    ReadsCut cut o s (a ++ b) req' := by
  obtain ⟨t, ht, hturns⟩ := h
  obtain ⟨u, hu, hturns'⟩ := h' t ht
  exact ⟨u, hu, hturns.append hturns'⟩

/-! ## Bytes that a state takes no notice of -/

def absorb (cut : Nat → Bool) : Nat → Scanner → List Byte → Scanner
  | _, s, [] => s
  | o, s, c :: rest => absorb cut (o + 1) ((s.push c).resumed (cut (o + 1))) rest

section absorb

variable {o : Nat} (xs : List Byte)

@[simp] theorem absorb_req : (s.absorb cut o xs).req = s.req := by
  induction xs generalizing o s with
  | nil => rfl
  | cons c xs ih => rw [absorb, ih, resumed_req, push]

theorem absorb_token {start : Nat} {token : List Byte} (ho : start + token.length = o)
    (hs : s.token = kept cut start token) :
    (s.absorb cut o xs).token = kept cut start (token ++ xs) := by
  induction xs generalizing o s token with
  | nil => rw [List.append_nil, absorb, hs]
  | cons c xs ih =>
    rw [absorb, List.append_cons]
    refine ih (by rw [List.length_append, ← Nat.add_assoc, ho, List.length_singleton]) ?_
    rw [resumed_token, kept_append, ho, push, hs]

theorem absorb_paramKey {start n : Nat} {name : List Byte} (ho : start + n = o)
    (hs : s.paramKey = held cut start n name) :
    (s.absorb cut o xs).paramKey = held cut start (n + xs.length) name := by
  induction xs generalizing o s n with
  | nil => exact hs
  | cons c xs ih =>
    rw [absorb, List.length_cons, ← Nat.add_assoc, Nat.add_right_comm]
    refine ih (by rw [← Nat.add_assoc, ho]) ?_
    rw [resumed_paramKey, held_succ, ho, push, hs]

theorem absorb_headerKey {start n : Nat} {name : List Byte} (ho : start + n = o)
    (hs : s.headerKey = held cut start n name) :
    (s.absorb cut o xs).headerKey = held cut start (n + xs.length) name := by
  induction xs generalizing o s n with
  | nil => exact hs
  | cons c xs ih =>
    rw [absorb, List.length_cons, ← Nat.add_assoc, Nat.add_right_comm]
    refine ih (by rw [← Nat.add_assoc, ho]) ?_
    rw [resumed_headerKey, held_succ, ho, push, hs]

end absorb

theorem resumes_absorb (state : ParseState) (p : Byte → Prop) (hstop : state.stopped = false)
    (hbody : state ≠ .body) (hblank : ∀ c, p c → ¬(state = .wCrLfCr ∧ c = LF))
    (hturn : ∀ (s : Scanner) c left, s.req.state = state → p c → s.turn c left = .ok s)
    (xs : List Byte) (hxs : ∀ c ∈ xs, p c) {o : Nat} {s : Scanner} (hs : s.req.state = state) :
    Resumes cut o s xs (s.absorb cut o xs) := by
  induction xs generalizing o s with
  | nil => exact .nil o s
  | cons c xs ih =>
    have hc := hxs c List.mem_cons_self
    have hrest := ih (fun x hx => hxs x (List.mem_cons_of_mem c hx)) (o := o + 1)
      (s := (s.push c).resumed (cut (o + 1))) (by rw [resumed_req, push, hs])
    exact .cons (by rw [hs, hstop]) (by rw [hs]; exact hbody) (by rw [hs]; exact hblank c hc)
      (fun left => hturn s c left hs hc) hrest

theorem readsCut_skipped (state : ParseState) (p : Byte → Prop) (hstop : state.stopped = false)
    (hbody : state ≠ .body) (hblank : ∀ c, p c → ¬(state = .wCrLfCr ∧ c = LF))
    (hturn : ∀ (s : Scanner) c left, s.req.state = state → p c → s.turn c left = .ok s)
    {xs : List Byte} (hxs : ∀ c ∈ xs, p c) (hs : s.req.state = state) : ReadsCut cut o s xs s.req :=
  ⟨s.absorb cut o xs, absorb_req xs, resumes_absorb state p hstop hbody hblank hturn xs hxs hs⟩

theorem resumes_token (cut : Nat → Bool) (o : Nat) (state : ParseState) (p : Byte → Prop) (hstop : state.stopped = false)
    (hbody : state ≠ .body) (hblank : state ≠ .wCrLfCr)
    (hturn : ∀ (s : Scanner) c left, s.req.state = state → p c → s.turn c left = .ok s)
    (hs : s.req.state.stopped = false ∧ s.req.state ≠ .body ∧ s.req.state ≠ .wCrLfCr)
    {x : Byte} (hx : ∀ left, s.turn x left = .ok (s.mark.goto state)) {xs : List Byte}
    (hxs : ∀ c ∈ xs, p c) :
    ∃ t, Resumes cut o s (x :: xs) t ∧ t.req = s.req.goto state ∧ t.token = kept cut o (x :: xs) ∧
      (∀ start n name, start + n = o → s.paramKey = held cut start n name →
        t.paramKey = held cut start (n + (x :: xs).length) name) ∧
      ∀ start n name, start + n = o → s.headerKey = held cut start n name →
        t.headerKey = held cut start (n + (x :: xs).length) name := by
  let first : Scanner := ((s.mark.goto state).push x).resumed (cut (o + 1))
  refine ⟨first.absorb cut (o + 1) xs, .cons hs.1 hs.2.1 (fun h => hs.2.2 h.1) hx ?_, ?_, ?_, ?_, ?_⟩
  · exact resumes_absorb state p hstop hbody (fun _ _ h => hblank h.1) hturn xs hxs
      (by rw [resumed_req]; rfl)
  · rw [absorb_req, resumed_req]
    rfl
  · have hfirst : first.token = kept cut o [x] := by
      rw [resumed_token]
      exact (kept_append [] x).symm
    exact absorb_token xs rfl hfirst
  · intro start n name ho hname
    rw [List.length_cons, Nat.add_comm xs.length, ← Nat.add_assoc]
    refine absorb_paramKey xs (by rw [← Nat.add_assoc, ho]) ?_
    rw [resumed_paramKey, held_succ, ho, ← hname]
    rfl
  · intro start n name ho hname
    rw [List.length_cons, Nat.add_comm xs.length, ← Nat.add_assoc]
    refine absorb_headerKey xs (by rw [← Nat.add_assoc, ho]) ?_
    rw [resumed_headerKey, held_succ, ho, ← hname]
    rfl

theorem Resumes.ended {s t : Scanner} {xs : List Byte} (h : Resumes cut o s xs t) (s' : Scanner)
    {stored req : HttpRequest} {state : ParseState} (ht : t.req = stored.goto state)
    (hstate : state.stopped = false ∧ state ≠ .body ∧ state ≠ .wCrLfCr) {c : Byte}
    (hturn : ∀ left, t.turn c left = .ok s') (hreq : s'.req = req) :
    ReadsCut cut o s (xs ++ [c]) req := by
  have hs : t.req.state = state := by
    rw [ht]
    rfl
  refine ⟨(s'.push c).resumed (cut (o + xs.length + 1)), by rw [resumed_req, push, hreq], h.append ?_⟩
  exact .one (by rw [hs, hstate.1]) (by rw [hs]; exact hstate.2.1) (by rw [hs]; exact hstate.2.2) hturn

/-! ## A head in pieces is read as what the cuts leave of its tokens -/

theorem readsCut_lead {lead : List Byte} (hlead : ∀ c ∈ lead, IsLead c) (hs : s.req.state = .start) :
    ReadsCut cut o s lead s.req := by
  refine readsCut_skipped .start IsLead rfl (by decide) (by simp) ?_ hlead hs
  intro s c left hs hc
  rw [turn, hs]
  exact if_pos hc

theorem readsCut_method {m : List Byte}
    (hm : Token (fun c => isupper c = true) (fun c => isupper c = true) m) {gap : List Byte}
    (hgap : Wire.IsGap gap) (hs : s.req.state = .start) :
    ReadsCut cut o s (m ++ gap) { s.req.setMethod (kept cut o m) with state := .beforePath } := by
  obtain ⟨c, cs, rfl, hc, hcs⟩ := hm
  obtain ⟨b, bs, rfl⟩ := List.exists_cons_of_ne_nil hgap.1
  have hb : isblank b = true := hgap.2 b List.mem_cons_self
  have hb' := not_isupper_of_isblank hb
  obtain ⟨t, hturns, hreq, htoken, -⟩ := resumes_token cut o .method
    (fun c => isupper c = true) rfl (by decide) (by decide)
    (fun s c left hs hc => by rw [turn, hs]; exact if_pos hc) (by rw [hs]; decide)
    (fun left => by
      rw [turn, hs]
      exact (if_neg (not_isLead_of_isupper hc)).trans (if_pos hc)) hcs
  have hfirst : ReadsCut cut o s (c :: cs ++ [b])
      { s.req.setMethod (kept cut o (c :: cs)) with state := .beforePath } := by
    rw [← htoken]
    refine hturns.ended (.goto (.mark { t with req := t.req.setMethod t.token }) .beforePath) hreq
      (by decide) (fun left => ?_) ?_
    · simp [turn, hreq, HttpRequest.goto, hb, hb']
    · rw [hreq]
      rfl
  rw [List.append_cons _ b]
  refine hfirst.trans fun t ht => ?_
  rw [← ht]
  refine readsCut_skipped .beforePath (fun c => isblank c = true) rfl (by decide) (by simp) ?_
    (fun c hc => hgap.2 c (List.mem_cons_of_mem b hc)) (by rw [ht])
  intro s c left hs hc
  rw [turn, hs]
  exact if_pos hc

theorem readsCut_path {path : List Byte}
    (hpath : Token (fun c => c = 47) (fun c => isblank c = false ∧ c ≠ 63) path) {c : Byte}
    {state : ParseState}
    (hc : isblank c = true ∧ state = .beforeVersion ∨ c = 63 ∧ state = .beforeParamKey)
    (hs : s.req.state = .beforePath) :
    ReadsCut cut o s (path ++ [c]) { s.req with path := kept cut o path, state := state } := by
  obtain ⟨_, tail, rfl, rfl, htail⟩ := hpath
  obtain ⟨t, hturns, hreq, htoken, -⟩ := resumes_token cut o .path
    (fun c => isblank c = false ∧ c ≠ 63) rfl (by decide) (by decide)
    (fun s c left hs hc => by simp [turn, hs, hc.1, hc.2]) (by rw [hs]; decide)
    (x := 47) (fun left => by simp [turn, hs, isblank]) htail
  rw [← htoken]
  refine hturns.ended (.goto { t with req := t.req.setPath t.token } state) hreq (by decide)
    (fun left => ?_) ?_
  · rcases hc with ⟨hc, rfl⟩ | ⟨rfl, rfl⟩
    · simp [turn, hreq, HttpRequest.goto, hc]
    · simp [turn, hreq, HttpRequest.goto, isblank]
  · rw [hreq]
    rfl

end Scanner

/-- What is stored of a parameter whose key begins at `o`. -/
def cutParam (cut : Nat → Bool) (o : Nat) (p : List Byte × List Byte) : List Byte × List Byte :=
  (held cut (o + p.1.length) (p.2.length + 1) (kept cut o p.1), kept cut (o + p.1.length + 1) p.2)

def cutParams (cut : Nat → Bool) : Nat → List (List Byte × List Byte) → List (List Byte × List Byte)
  | _, [] => []
  | o, p :: pairs => cutParam cut o p :: cutParams cut (o + p.1.length + p.2.length + 2) pairs

/-- What is stored of a header; its line begins, with the `\n` in front of the name, at `o`. -/
def cutHeader (cut : Nat → Bool) (o : Nat) (h : WireHeader) : List Byte × List Byte :=
  (held cut (o + 1 + h.key.length) (h.lead.length + h.value.length + 1) (kept cut (o + 1) h.key),
    kept cut (o + 2 + h.key.length + h.lead.length) h.value)

def cutHeads (cut : Nat → Bool) : Nat → List WireHeader → List (List Byte × List Byte)
  | _, [] => []
  | o, h :: heads => cutHeader cut o h :: cutHeads cut (o + (Wire.headerText h).length) heads

namespace Scanner

variable {s : Scanner}

/-- The name of a parameter and the `=` behind it: the name is the call's as long as no other one
begins. -/
theorem resumes_paramKey {key : List Byte}
    (hkey : Token Head.StartsParam (fun c => c ≠ 61 ∧ isblank c = false) key)
    (hs : s.req.state = .beforeParamKey) :
    ∃ t, Resumes cut o s (key ++ [61]) t ∧ t.req = s.req.goto .beforeParamValue ∧
      t.paramKey = held cut (o + key.length) 1 (kept cut o key) := by
  obtain ⟨k, ks, rfl, hk, hks⟩ := hkey
  obtain ⟨t, hturns, hreq, htoken, -⟩ := resumes_token cut o .paramKey
    (fun c => c ≠ 61 ∧ isblank c = false) rfl (by decide) (by decide)
    (fun s c left hs hc => by simp [turn, hs, hc.1, hc.2]) (by rw [hs]; decide)
    (x := k) (fun left => by simp [turn, hs, hk.1, hk.2.1, hk.2.2]) hks
  let named : Scanner := ({ t with paramKey := t.token }.goto .beforeParamValue).push 61
  refine ⟨named.resumed (cut (o + (k :: ks).length + 1)), hturns.append (.one ?_ ?_ ?_ ?_), ?_, ?_⟩
  · rw [hreq]
    rfl
  · rw [hreq]
    exact ParseState.noConfusion
  · rw [hreq]
    exact ParseState.noConfusion
  · intro left
    simp [turn, hreq, HttpRequest.goto]
  · rw [resumed_req]
    show t.req.goto .beforeParamValue = _
    rw [hreq]
    rfl
  · rw [resumed_paramKey, held_succ, ← htoken]
    rfl

theorem readsCut_param {p : List Byte × List Byte} (hp : Head.LooseParam p) {c : Byte}
    {state : ParseState}
    (hc : isblank c = true ∧ state = .beforeVersion ∨ c = 38 ∧ state = .beforeParamKey)
    (hs : s.req.state = .beforeParamKey) :
    ReadsCut cut o s (p.1 ++ 61 :: p.2 ++ [c])
      { s.req with
        params := Assoc.insert s.req.params (cutParam cut o p).1 (cutParam cut o p).2
        state := state } := by
  obtain ⟨named, hnamed, hreq, hname⟩ := @resumes_paramKey cut o s p.1 hp.key hs
  obtain ⟨v, vs, hvalue, hv, hvs⟩ := hp.value
  obtain ⟨u, hturns, hu, htoken, hname', -⟩ := resumes_token cut (o + p.1.length + 1) (s := named)
    .paramValue (fun c => c ≠ 38 ∧ isblank c = false) rfl (by decide) (by decide)
    (fun s c left hs hc => by simp [turn, hs, hc.1, hc.2])
    (by rw [hreq, HttpRequest.goto]; exact ⟨rfl, ParseState.noConfusion, ParseState.noConfusion⟩)
    (x := v) (fun left => by simp [turn, hreq, HttpRequest.goto, hv.1, hv.2.1, hv.2.2]) hvs
  have hheld := hname' _ 1 _ rfl hname
  rw [← hvalue] at hturns htoken hheld
  rw [Nat.add_comm 1] at hheld
  rw [show p.1 ++ 61 :: p.2 ++ [c] = (p.1 ++ [61]) ++ p.2 ++ [c] by simp]
  have hall : Resumes cut o s ((p.1 ++ [61]) ++ p.2) u := by
    refine hnamed.append ?_
    rwa [List.length_append, ← Nat.add_assoc]
  refine hall.ended (.goto { u with req := u.req.addParams u.paramKey u.token } state) hu
    (by decide) (fun left => ?_) ?_
  · rcases hc with ⟨hc, rfl⟩ | ⟨rfl, rfl⟩
    · have hamp : c ≠ 38 := by
        rintro rfl
        simp [isblank] at hc
      simp [turn, hu, HttpRequest.goto, hc, hamp]
    · simp [turn, hu, HttpRequest.goto]
  · rw [hheld, htoken, hu, hreq]
    rfl

theorem readsCut_pairs {c : Byte} (hc : isblank c = true) {pairs : List (List Byte × List Byte)}
    (hne : pairs ≠ []) (hpairs : ∀ p ∈ pairs, Head.LooseParam p) {o : Nat} {s : Scanner}
    (hs : s.req.state = .beforeParamKey) :
    ReadsCut cut o s (Wire.pairsText pairs ++ [c])
      { s.req with
        params := Assoc.insertAll s.req.params (cutParams cut o pairs), state := .beforeVersion } := by
  induction pairs generalizing o s with
  | nil => exact absurd rfl hne
  | cons p pairs ih =>
    have hp := hpairs p List.mem_cons_self
    cases pairs with
    | nil => exact readsCut_param hp (Or.inl ⟨hc, rfl⟩) hs
    | cons q pairs =>
      have htext : Wire.pairsText (p :: q :: pairs) ++ [c] =
          (p.1 ++ 61 :: p.2 ++ [38]) ++ (Wire.pairsText (q :: pairs) ++ [c]) := by
        simp [Wire.pairsText]
      have hlength : o + (p.1 ++ 61 :: p.2 ++ [38]).length = o + p.1.length + p.2.length + 2 := by
        simp only [List.length_append, List.length_cons, List.length_nil]
        omega
      rw [htext]
      refine (readsCut_param hp (Or.inr ⟨rfl, rfl⟩) hs).trans fun t ht => ?_
      rw [hlength]
      have htail := ih (o := o + p.1.length + p.2.length + 2) (s := t) (by simp)
        (fun p' hp' => hpairs p' (by simp [hp'])) (by rw [ht])
      rwa [ht] at htail

theorem readsCut_target {g : Head} (hg : g.Loose) {c : Byte} (hc : isblank c = true)
    (hs : s.req.state = .beforePath) :
    ReadsCut cut o s (g.target ++ [c])
      { s.req with
        path := kept cut o g.path
        params := Assoc.insertAll s.req.params (cutParams cut (o + g.path.length + 1) g.params)
        state := .beforeVersion } := by
  unfold Head.target
  cases hparams : g.params with
  | nil => exact readsCut_path hg.path (Or.inl ⟨hc, rfl⟩) hs
  | cons p pairs =>
    dsimp only
    rw [List.append_cons g.path, List.append_assoc]
    refine (readsCut_path hg.path (Or.inr ⟨rfl, rfl⟩) hs).trans fun t ht => ?_
    rw [List.length_append, List.length_singleton, ← Nat.add_assoc]
    have hpairs : ReadsCut cut (o + g.path.length + 1) t (Wire.pairsText (p :: pairs) ++ [c]) _ :=
      readsCut_pairs hc (List.cons_ne_nil p pairs) (hparams ▸ hg.params) (by rw [ht])
    rwa [ht] at hpairs

theorem readsCut_version {v : List Byte}
    (hv : Token (fun c => isblank c = false) (fun c => c ≠ CR) v) {blanks : List Byte}
    (hblanks : ∀ c ∈ blanks, isblank c = true) (hs : s.req.state = .beforeVersion) :
    ReadsCut cut o s (blanks ++ (v ++ [CR]))
      { s.req.setVersion (kept cut (o + blanks.length) v) with state := .wCr } := by
  obtain ⟨c, cs, rfl, hc, hcs⟩ := hv
  have hskip : ReadsCut cut o s blanks s.req := by
    refine readsCut_skipped .beforeVersion (fun c => isblank c = true) rfl (by decide) (by simp) ?_
      hblanks hs
    intro s c left hs hc
    rw [turn, hs]
    exact if_pos hc
  refine hskip.trans fun t ht => ?_
  have htstate : t.req.state = .beforeVersion := by rw [ht, hs]
  obtain ⟨u, hturns, hreq, htoken, -⟩ := resumes_token cut (o + blanks.length) .version
    (fun c => c ≠ CR) rfl (by decide) (by decide) (fun s c left hs hc => by simp [turn, hs, hc])
    (by rw [htstate]; decide) (x := c) (fun left => by simp [turn, htstate, hc]) hcs
  rw [← htoken]
  refine hturns.ended (.goto { u with req := u.req.setVersion u.token } .wCr) hreq (by decide)
    (fun left => ?_) ?_
  · simp [turn, hreq, HttpRequest.goto]
  · rw [hreq, ht]
    rfl

theorem readsCut_headerValue {value : List Byte} (hvalue : ∀ c ∈ value, c ≠ CR)
    (hblank : ∀ c, value.head? = some c → isblank c = false) (hs : s.req.state = .beforeHeaderValue)
    {start n : Nat} {name : List Byte} (ho : start + n = o) (hname : s.headerKey = held cut start n name) :
    ReadsCut cut o s (value ++ [CR])
      { s.req with
        heads := Assoc.insert s.req.heads (held cut start (n + value.length) name) (kept cut o value)
        state := .wCr } := by
  cases value with
  | nil =>
    refine ⟨((s.mark.goto .headerValue).endHeader.push CR).resumed (cut (o + 1)), ?_,
      .one (by rw [hs]; rfl) (by rw [hs]; decide) (by rw [hs]; decide) (fun left => ?_)⟩
    · rw [resumed_req, List.length_nil, Nat.add_zero, ← hname]
      rfl
    · simp [turn, hs, isblank, CR]
  | cons v vs =>
    have hv : isblank v = false := hblank v rfl
    have hvCR : v ≠ CR := hvalue v List.mem_cons_self
    obtain ⟨t, hturns, hreq, htoken, -, hname'⟩ := resumes_token cut o .headerValue (fun c => c ≠ CR) rfl
      (by decide) (by decide) (fun s c left hs hc => by simp [turn, hs, hc]) (by rw [hs]; decide)
      (x := v) (fun left => by simp [turn, hs, hv, hvCR]) fun x hx => hvalue x (List.mem_cons_of_mem v hx)
    rw [← htoken, ← hname' start n name ho hname]
    refine hturns.ended t.endHeader hreq (by decide) (fun left => ?_) ?_
    · simp [turn, hreq, HttpRequest.goto]
    · rw [endHeader, hreq]
      rfl

theorem resumes_headerKey {key : List Byte}
    (hkey : Token (fun c => c ≠ CR ∧ isblank c = false) (fun c => c ≠ 58) key)
    (hs : s.req.state = .wCr) :
    ∃ t, Resumes cut o s (LF :: key ++ [58]) t ∧ t.req = s.req.goto .beforeHeaderValue ∧
      t.headerKey = held cut (o + 1 + key.length) 1 (kept cut (o + 1) key) := by
  obtain ⟨k, ks, rfl, hk, hks⟩ := hkey
  let line : Scanner := ((s.goto .wCrLf).push LF).resumed (cut (o + 1))
  have hLF : Resumes cut o s [LF] line :=
    .one (by rw [hs]; rfl) (by rw [hs]; decide) (by rw [hs]; decide) (fun left => by simp [turn, hs])
  have hline : line.req = s.req.goto .wCrLf := resumed_req _ _
  have hstate : line.req.state = .wCrLf := by
    rw [hline]
    rfl
  obtain ⟨t, hturns, hreq, htoken, -⟩ := resumes_token cut (o + 1) (s := line) .headerKey
    (fun c => c ≠ 58) rfl (by decide) (by decide) (fun s c left hs hc => by simp [turn, hs, hc])
    (by rw [hstate]; decide) (x := k) (fun left => by simp [turn, hstate, hk.1, hk.2]) hks
  let named : Scanner := ({ t with headerKey := t.token }.goto .beforeHeaderValue).push 58
  refine ⟨named.resumed (cut (o + 1 + (k :: ks).length + 1)),
    hLF.append (hturns.append (.one ?_ ?_ ?_ ?_)), ?_, ?_⟩
  · rw [hreq]
    rfl
  · rw [hreq]
    exact ParseState.noConfusion
  · rw [hreq]
    exact ParseState.noConfusion
  · intro left
    simp [turn, hreq, HttpRequest.goto]
  · rw [resumed_req]
    show t.req.goto .beforeHeaderValue = _
    rw [hreq, hline]
    rfl
  · rw [resumed_headerKey, held_succ, ← htoken]
    rfl

theorem readsCut_header {h : WireHeader} (hh : Head.LooseHeader h) (hs : s.req.state = .wCr) :
    ReadsCut cut o s (Wire.headerText h)
      { s.req with
        heads := Assoc.insert s.req.heads (cutHeader cut o h).1 (cutHeader cut o h).2
        state := .wCr } := by
  obtain ⟨named, hnamed, hreq, hname⟩ := @resumes_headerKey cut o s h.key hh.key hs
  have hstate : named.req.state = .beforeHeaderValue := by
    rw [hreq]
    rfl
  have hlead : Resumes cut (o + 1 + h.key.length + 1) named h.lead
      (named.absorb cut (o + 1 + h.key.length + 1) h.lead) := by
    refine resumes_absorb .beforeHeaderValue (fun c => isblank c = true) rfl (by decide) (by simp) ?_ _
      hh.lead hstate
    intro s c left hs hc
    have hCR : c ≠ CR := by
      rintro rfl
      simp [isblank, CR] at hc
    simp [turn, hs, hc, hCR]
  obtain ⟨u, hu, hvalue⟩ := readsCut_headerValue hh.value hh.value_blank
    (s := named.absorb cut (o + 1 + h.key.length + 1) h.lead) (by rw [absorb_req, hstate])
    (by rw [← Nat.add_assoc]) (absorb_headerKey h.lead rfl hname)
  refine ⟨u, ?_, ?_⟩
  · rw [hu, absorb_req, hreq, cutHeader, Nat.add_comm 1, Nat.add_right_comm _ 1 h.value.length,
      show o + 1 + h.key.length + 1 + h.lead.length = o + 2 + h.key.length + h.lead.length by omega]
    rfl
  · rw [show Wire.headerText h = (LF :: h.key ++ [58]) ++ (h.lead ++ (h.value ++ [CR])) by
      simp [Wire.headerText]]
    refine hnamed.append ?_
    have hlength : o + (LF :: h.key ++ [58]).length = o + 1 + h.key.length + 1 := by
      simp
      omega
    rw [hlength]
    exact hlead.append hvalue

theorem readsCut_heads {heads : List WireHeader} (hheads : ∀ h ∈ heads, Head.LooseHeader h) {o : Nat}
    {s : Scanner} (hs : s.req.state = .wCr) :
    ReadsCut cut o s (heads.flatMap Wire.headerText)
      { s.req with heads := Assoc.insertAll s.req.heads (cutHeads cut o heads) } := by
  induction heads generalizing o s with
  | nil => exact ⟨s, rfl, .nil o s⟩
  | cons h heads ih =>
    refine (readsCut_header (hheads h (by simp)) hs).trans fun t ht => ?_
    have htail := ih (o := o + (Wire.headerText h).length) (fun h' hh' => hheads h' (by simp [hh']))
      (s := t) (by rw [ht])
    rw [ht] at htail
    rwa [← hs] at htail

end Scanner

namespace Head

variable (g : Head)

/-! Where the tokens begin. -/

def methodAt : Nat := g.lead.length

def pathAt : Nat := g.methodAt + (g.method ++ g.gap).length

def paramsAt : Nat := g.pathAt + g.path.length + 1

def versionAt : Nat := g.pathAt + (g.target ++ g.gap').length

def headsAt : Nat := g.versionAt + g.version.length + 1

/-- What the parser has stored when it has read the head in pieces. -/
def cutRequest (cut : Nat → Bool) (state : ParseState) : HttpRequest :=
  { (HttpRequest.fresh.setMethod (kept cut g.methodAt g.method)).setVersion
      (kept cut g.versionAt g.version) with
    path := kept cut g.pathAt g.path
    params := Assoc.insertAll [] (cutParams cut g.paramsAt g.params)
    heads := Assoc.insertAll [] (cutHeads cut g.headsAt g.heads)
    state := state }

end Head

namespace Scanner

theorem readsCut_core (cut : Nat → Bool) {g : Head} (hg : g.Loose) :
    ReadsCut cut 0 (.enter .fresh) g.core (g.cutRequest cut .wCr) := by
  obtain ⟨b, bs, hgap'⟩ := List.exists_cons_of_ne_nil hg.gap'.1
  have hb : isblank b = true := hg.gap'.2 b (by simp [hgap'])
  have hsplit : g.core = g.lead ++ ((g.method ++ g.gap) ++
      ((g.target ++ [b]) ++ ((bs ++ (g.version ++ [CR])) ++ g.heads.flatMap Wire.headerText))) := by
    simp [Head.core, hgap']
  rw [hsplit]
  refine (readsCut_lead hg.lead rfl).trans fun s hs => ?_
  rw [Nat.zero_add]
  refine (readsCut_method hg.method hg.gap (by rw [hs]; rfl)).trans fun t ht => ?_
  refine (readsCut_target hg hb (by rw [ht])).trans fun u hu => ?_
  refine (readsCut_version hg.version (fun c hc => hg.gap'.2 c (by simp [hgap', hc]))
    (by rw [hu])).trans fun v hv => ?_
  have hversionAt : g.lead.length + (g.method ++ g.gap).length + (g.target ++ [b]).length + bs.length =
      g.versionAt := by
    rw [Head.versionAt, hgap', List.append_cons g.target b bs]
    simp [Head.pathAt, Head.methodAt]
    omega
  have hheadsAt : g.lead.length + (g.method ++ g.gap).length + (g.target ++ [b]).length +
      (bs ++ (g.version ++ [CR])).length = g.headsAt := by
    rw [Head.headsAt, ← hversionAt]
    simp
    omega
  have hheads : ReadsCut cut g.headsAt v (g.heads.flatMap Wire.headerText) _ :=
    readsCut_heads hg.heads (by rw [hv])
  rw [hheadsAt]
  rw [hv, hversionAt, hu, ht, hs] at hheads
  exact hheads

theorem readsCut_blankLine {s : Scanner} (hs : s.req.state = .wCr) {stray : List Byte}
    (hstray : ∀ c ∈ stray, c ≠ LF) :
    ReadsCut cut o s ([LF, CR] ++ stray) (s.req.goto .wCrLfCr) := by
  have hLF : ReadsCut cut o s [LF] (s.req.goto .wCrLf) :=
    ⟨((s.goto .wCrLf).push LF).resumed (cut (o + 1)), resumed_req _ _,
      .one (by rw [hs]; rfl) (by rw [hs]; decide) (by rw [hs]; decide) (fun left => by simp [turn, hs])⟩
  have hCR : ReadsCut cut o s [LF, CR] (s.req.goto .wCrLfCr) := by
    refine hLF.trans fun t ht => ⟨((t.goto .wCrLfCr).push CR).resumed (cut (o + 1 + 1)), ?_,
      .one (by rw [ht]; rfl) (by rw [ht]; exact ParseState.noConfusion)
        (by rw [ht]; exact ParseState.noConfusion) (fun left => ?_)⟩
    · rw [resumed_req, push, goto, ht]
      rfl
    · simp [turn, ht, HttpRequest.goto]
  refine hCR.trans fun t ht => ?_
  rw [← ht]
  exact readsCut_skipped .wCrLfCr (fun c => c ≠ LF) rfl (by decide) (fun c hc h => hc h.2)
    (fun s c left hs hc => by simp [turn, hs, hc]) hstray (by rw [ht]; rfl)

/-- **A head in pieces is read as what the cuts leave of its tokens.** -/
theorem readsCut_head (cut : Nat → Bool) {g : Head} (hg : g.Loose) :
    ReadsCut cut 0 (.enter .fresh) (g.core ++ ([LF, CR] ++ g.stray)) (g.cutRequest cut .wCrLfCr) := by
  refine (readsCut_core cut hg).trans fun t ht => ?_
  have hblank : ReadsCut cut (0 + g.core.length) t ([LF, CR] ++ g.stray) _ :=
    readsCut_blankLine (by rw [ht]; rfl) hg.stray
  rw [ht] at hblank
  exact hblank

end Scanner

end VServer

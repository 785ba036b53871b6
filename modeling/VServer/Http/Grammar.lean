import VServer.Http.Cuts

/-!
# What the parser takes for a head

A loose head is read as its tokens (`head_of_loose`), whatever is read as a head is a loose one
(`loose_of_turns`), and no text is a loose head in two ways (`Head.Loose.unique`). A head that comes at
once is one without cuts.
-/

namespace VServer

open Http

/-! ## A head is read as its tokens -/

def uncut : Nat → Bool := fun _ => false

theorem lastCut_uncut (o n : Nat) : lastCut uncut o n = 0 := by
  induction n with
  | zero => rfl
  | succ n ih => exact (if_neg Bool.false_ne_true).trans ih

theorem kept_uncut (o : Nat) (token : List Byte) : kept uncut o token = token := by
  rw [kept, lastCut_uncut, List.drop_zero]

theorem held_uncut (o n : Nat) (name : List Byte) : held uncut o n name = name :=
  if_pos (lastCut_uncut o n)

theorem cutParams_uncut (pairs : List (List Byte × List Byte)) (o : Nat) :
    cutParams uncut o pairs = pairs := by
  induction pairs generalizing o with
  | nil => rfl
  | cons p pairs ih => rw [cutParams, ih, cutParam, held_uncut, kept_uncut, kept_uncut]

theorem cutHeads_uncut (heads : List WireHeader) (o : Nat) :
    cutHeads uncut o heads = heads.map fun h => (h.key, h.value) := by
  induction heads generalizing o with
  | nil => rfl
  | cons h heads ih => rw [cutHeads, ih, cutHeader, held_uncut, kept_uncut, kept_uncut, List.map_cons]

theorem Head.cutRequest_uncut (g : Head) (state : ParseState) :
    g.cutRequest uncut state = g.request state := by
  rw [cutRequest, kept_uncut, kept_uncut, kept_uncut, cutParams_uncut, cutHeads_uncut]
  rfl

namespace Scanner

theorem Resumes.uncut_turns {o : Nat} {s t : Scanner} {seg : List Byte} (h : Resumes uncut o s seg t) :
    Turns s seg t := by
  induction h with
  | nil o s => exact .nil s
  | cons hstop hbody hblank hturn _ ih => exact .cons hstop hbody hblank hturn ih

theorem reads_core {g : Head} (hg : g.Loose) :
    Reads (.enter .fresh) g.core (g.request .wCr) := by
  obtain ⟨t, ht, hturns⟩ := readsCut_core uncut hg
  exact ⟨t, by rw [ht, g.cutRequest_uncut], hturns.uncut_turns⟩

theorem turns_blankLine {s : Scanner} (hs : s.req.state = .wCr) {stray : List Byte}
    (hstray : ∀ c ∈ stray, c ≠ LF) :
    ∃ t, t.req = s.req.goto .wCrLfCr ∧ Turns s ([LF, CR] ++ stray) t := by
  obtain ⟨t, ht, hturns⟩ : ReadsCut uncut 0 s ([LF, CR] ++ stray) (s.req.goto .wCrLfCr) :=
    readsCut_blankLine hs hstray
  exact ⟨t, ht, hturns.uncut_turns⟩

/-- **A loose head is read as its tokens**, and the parser finds its end. -/
theorem head_of_loose {g : Head} (hg : g.Loose) (rest : List Byte) :
    ∃ t, t.req = g.request .wCrLfCr ∧ head (.enter .fresh) (g.text ++ rest) = some (t, rest) := by
  obtain ⟨s, hs, hcore⟩ := reads_core hg
  obtain ⟨t, ht, hblank⟩ := turns_blankLine (by rw [hs]; rfl) hg.stray
  have hstate : t.req.state = .wCrLfCr := by
    rw [ht]
    rfl
  refine ⟨t, by rw [ht, hs]; rfl, ?_⟩
  rw [show g.text ++ rest = (g.core ++ ([LF, CR] ++ g.stray)) ++ LF :: rest by simp [Head.text],
    (hcore.append hblank).head, Scanner.head, if_neg (by simp [hstate, ParseState.stopped]),
    if_pos ⟨hstate, rfl⟩]

/-! ## What is read as a head is a loose one -/

theorem Turns.running {s t : Scanner} {seg : List Byte} (h : Turns s seg t)
    (ht : t.req.state = .wCrLfCr) : s.req.state.stopped = false := by
  cases h with
  | nil => rw [ht]; rfl
  | cons hstop => exact hstop

theorem Turns.span {s t : Scanner} {seg : List Byte} (h : Turns s seg t) (state : ParseState)
    (p : Byte → Prop) [DecidablePred p]
    (habsorb : ∀ (s : Scanner) c left, s.req.state = state → p c → s.turn c left = .ok s)
    (hs : s.req.state = state) (ht : t.req.state ≠ state) :
    ∃ xs c rest s', seg = xs ++ c :: rest ∧ (∀ x ∈ xs, p x) ∧ ¬ p c ∧
      turn { s with token := s.token ++ xs } c 0 = .ok s' ∧ Turns (s'.push c) rest t := by
  induction h with
  | nil => exact absurd hs ht
  | @cons s s' t c rest hstop hbody hblank hturn hrest ih =>
    by_cases hc : p c
    · have hsame := (hturn 0).symm.trans (habsorb s c 0 hs hc)
      cases hsame
      obtain ⟨xs, d, rest', s₁, rfl, hxs, hd, hlast, hrest'⟩ := ih hs ht
      refine ⟨c :: xs, d, rest', s₁, rfl, List.forall_mem_cons.mpr ⟨hc, hxs⟩, hd, ?_, hrest'⟩
      rw [← hlast, push, List.append_assoc]
      rfl
    · refine ⟨[], c, rest, s', rfl, by simp, hc, ?_, hrest⟩
      rw [List.append_nil]
      exact hturn 0

theorem Turns.method {s t : Scanner} {seg : List Byte} (h : Turns s seg t) (hs : s.req.state = .start)
    (ht : t.req.state = .wCrLfCr) :
    ∃ lead m b rest u, seg = lead ++ (m ++ b :: rest) ∧ (∀ c ∈ lead, IsLead c) ∧
      Token (fun c => isupper c = true) (fun c => isupper c = true) m ∧ isblank b = true ∧
      u.req = { s.req.setMethod m with state := .beforePath } ∧ Turns u rest t := by
  obtain ⟨lead, m, rest, s₁, rfl, hlead, hm, hturn, hrest⟩ := h.span .start IsLead
    (fun s c left hs hc => by rw [turn, hs]; exact if_pos hc) hs (by rw [ht]; decide)
  simp only [turn, hs] at hturn
  rw [if_neg (show ¬(m = CR ∨ m = LF ∨ isblank m = true) from hm)] at hturn
  split_ifs at hturn with hupper
  · cases hturn
    obtain ⟨ms, b, rest, s₂, rfl, hms, hb, hturn, hrest⟩ := hrest.span .method
      (fun c => isupper c = true) (fun s c left hs hc => by rw [turn, hs]; exact if_pos hc) rfl (by rw [ht]; decide)
    simp only [turn, push, goto, HttpRequest.goto, mark] at hturn
    rw [if_neg hb] at hturn
    split_ifs at hturn with hblank
    · cases hturn
      exact ⟨lead, m :: ms, b, rest, _, rfl, hlead, ⟨m, ms, rfl, hupper, hms⟩, hblank, rfl, hrest⟩
    · cases hturn
      cases hrest.running ht
  · cases hturn
    cases hrest.running ht

theorem Turns.path {s t : Scanner} {seg : List Byte} (h : Turns s seg t)
    (hs : s.req.state = .beforePath) (ht : t.req.state = .wCrLfCr) :
    ∃ blanks path c rest u state, seg = blanks ++ (path ++ c :: rest) ∧
      (∀ c ∈ blanks, isblank c = true) ∧
      Token (fun c => c = 47) (fun c => isblank c = false ∧ c ≠ 63) path ∧
      (isblank c = true ∧ state = .beforeVersion ∨ c = 63 ∧ state = .beforeParamKey) ∧
      u.req = { s.req with path := path, state := state } ∧ Turns u rest t := by
  obtain ⟨blanks, x, rest, s₁, rfl, hblanks, hx, hturn, hrest⟩ := h.span .beforePath
    (fun c => isblank c = true) (fun s c left hs hc => by rw [turn, hs]; exact if_pos hc) hs
    (by rw [ht]; decide)
  simp only [turn, hs] at hturn
  rw [if_neg hx] at hturn
  split_ifs at hturn with hslash
  · cases hturn
    obtain ⟨xs, c, rest, s₂, rfl, hxs, hc, hturn, hrest⟩ := hrest.span .path
      (fun c => isblank c = false ∧ c ≠ 63)
      (fun s c left hs hc => by simp [turn, hs, hc.1, hc.2]) rfl (by rw [ht]; decide)
    simp only [turn, push, goto, HttpRequest.goto, mark] at hturn
    have hpath : Token (fun c => c = 47) (fun c => isblank c = false ∧ c ≠ 63) (x :: xs) :=
      ⟨x, xs, rfl, hslash, hxs⟩
    split_ifs at hturn with hblank hmark
    · cases hturn
      exact ⟨blanks, x :: xs, c, rest, _, _, rfl, hblanks, hpath, .inl ⟨hblank, rfl⟩, rfl, hrest⟩
    · cases hturn
      exact ⟨blanks, x :: xs, c, rest, _, _, rfl, hblanks, hpath, .inr ⟨hmark, rfl⟩, rfl, hrest⟩
    · exact absurd ⟨by simpa using hblank, hmark⟩ hc
  · cases hturn
    cases hrest.running ht

theorem Turns.first {s t : Scanner} {seg : List Byte} (h : Turns s seg t)
    (hs : s.req.state ≠ .wCrLfCr) (ht : t.req.state = .wCrLfCr) :
    ∃ c rest s', seg = c :: rest ∧ s.turn c 0 = .ok s' ∧ Turns (s'.push c) rest t := by
  cases h with
  | nil => exact absurd ht hs
  | cons _ _ _ hturn hrest => exact ⟨_, _, _, rfl, hturn 0, hrest⟩

theorem Turns.param {s t : Scanner} {seg : List Byte} (h : Turns s seg t)
    (hs : s.req.state = .beforeParamKey) (ht : t.req.state = .wCrLfCr) :
    ∃ p c rest u state, seg = p.1 ++ 61 :: p.2 ++ c :: rest ∧ Head.LooseParam p ∧
      (isblank c = true ∧ state = .beforeVersion ∨ c = 38 ∧ state = .beforeParamKey) ∧
      u.req = { s.req with params := Assoc.insert s.req.params p.1 p.2, state := state } ∧
      Turns u rest t := by
  obtain ⟨k, rest, s₁, rfl, hturn, hrest⟩ := h.first (by rw [hs]; decide) ht
  simp only [turn, hs] at hturn
  split_ifs at hturn with hk
  · cases hturn
    cases hrest.running ht
  cases hturn
  obtain ⟨ks, c, rest, s₂, rfl, hks, hc, hturn, hrest⟩ := hrest.span .paramKey
    (fun c => c ≠ 61 ∧ isblank c = false)
    (fun s c left hs hc => by simp [turn, hs, hc.1, hc.2]) rfl (by rw [ht]; decide)
  simp only [turn, push, goto, HttpRequest.goto, mark] at hturn
  split_ifs at hturn with hequals hblank
  · cases hturn
    obtain ⟨v, rest, s₃, rfl, hturn, hrest⟩ := hrest.first (by simp [push]) ht
    simp only [turn, push] at hturn
    split_ifs at hturn with hv
    · cases hturn
      cases hrest.running ht
    cases hturn
    obtain ⟨vs, d, rest, s₄, rfl, hvs, hd, hturn, hrest⟩ := hrest.span .paramValue
      (fun c => c ≠ 38 ∧ isblank c = false)
      (fun s c left hs hc => by simp [turn, hs, hc.1, hc.2]) rfl (by rw [ht]; decide)
    simp only [turn, push, goto, HttpRequest.goto, mark] at hturn
    have hp : Head.LooseParam (k :: ks, v :: vs) := by
      simp only [not_or, Bool.not_eq_true] at hk hv
      exact ⟨⟨k, ks, rfl, hk, hks⟩, ⟨v, vs, rfl, hv, hvs⟩⟩
    have hsplit : k :: (ks ++ c :: v :: (vs ++ d :: rest)) = k :: ks ++ 61 :: (v :: vs) ++ d :: rest := by
      simp [hequals]
    split_ifs at hturn with hamp hblank
    · cases hturn
      exact ⟨_, d, rest, _, _, hsplit, hp, .inr ⟨hamp, rfl⟩, rfl, hrest⟩
    · cases hturn
      exact ⟨_, d, rest, _, _, hsplit, hp, .inl ⟨hblank, rfl⟩, rfl, hrest⟩
    · exact absurd ⟨hamp, by simpa using hblank⟩ hd
  · cases hturn
    cases hrest.running ht
  · exact absurd ⟨hequals, by simpa using hblank⟩ hc

theorem Turns.pairs {s t : Scanner} {seg : List Byte} (h : Turns s seg t)
    (hs : s.req.state = .beforeParamKey) (ht : t.req.state = .wCrLfCr) :
    ∃ pairs c rest u, seg = Wire.pairsText pairs ++ c :: rest ∧ pairs ≠ [] ∧
      (∀ p ∈ pairs, Head.LooseParam p) ∧ isblank c = true ∧
      u.req = { s.req with
        params := Assoc.insertAll s.req.params pairs, state := .beforeVersion } ∧ Turns u rest t := by
  induction hlength : seg.length using Nat.strong_induction_on generalizing s seg with
  | _ n ih =>
    obtain ⟨p, c, rest, u, state, rfl, hp, hc, hu, hrest⟩ := h.param hs ht
    rcases hc with ⟨hblank, rfl⟩ | ⟨rfl, rfl⟩
    · exact ⟨[p], c, rest, u, rfl, List.cons_ne_nil _ _, by simpa using hp, hblank, hu, hrest⟩
    · obtain ⟨pairs, c, rest, v, rfl, hne, hpairs, hblank, hv, hlast⟩ := ih rest.length
        (by rw [← hlength]; simp; omega) hrest (by rw [hu]) rfl
      obtain ⟨q, pairs, rfl⟩ := List.exists_cons_of_ne_nil hne
      refine ⟨p :: q :: pairs, c, rest, v, by simp [Wire.pairsText], List.cons_ne_nil _ _,
        List.forall_mem_cons.mpr ⟨hp, hpairs⟩, hblank, ?_, hlast⟩
      rw [hv, hu]
      rfl

theorem Turns.version {s t : Scanner} {seg : List Byte} (h : Turns s seg t)
    (hs : s.req.state = .beforeVersion) (ht : t.req.state = .wCrLfCr) :
    ∃ blanks v rest u, seg = blanks ++ (v ++ CR :: rest) ∧ (∀ c ∈ blanks, isblank c = true) ∧
      Token (fun c => isblank c = false) (fun c => c ≠ CR) v ∧
      u.req = { s.req.setVersion v with state := .wCr } ∧ Turns u rest t := by
  obtain ⟨blanks, x, rest, s₁, rfl, hblanks, hx, hturn, hrest⟩ := h.span .beforeVersion
    (fun c => isblank c = true) (fun s c left hs hc => by rw [turn, hs]; exact if_pos hc) hs
    (by rw [ht]; decide)
  simp only [turn, hs] at hturn
  rw [if_neg hx] at hturn
  cases hturn
  obtain ⟨xs, c, rest, s₂, rfl, hxs, hc, hturn, hrest⟩ := hrest.span .version (fun c => c ≠ CR)
    (fun s c left hs hc => by simp [turn, hs, hc]) rfl (by rw [ht]; decide)
  rw [not_not] at hc
  subst hc
  simp only [turn, push, goto, HttpRequest.goto, mark, if_true] at hturn
  cases hturn
  exact ⟨blanks, x :: xs, rest, _, rfl, hblanks, ⟨x, xs, rfl, by simpa using hx, hxs⟩, rfl, hrest⟩

theorem Turns.headerValue {s t : Scanner} {seg : List Byte} (h : Turns s seg t)
    (hs : s.req.state = .beforeHeaderValue) (ht : t.req.state = .wCrLfCr) :
    ∃ blanks value rest u, seg = blanks ++ (value ++ CR :: rest) ∧ (∀ c ∈ blanks, isblank c = true) ∧
      (∀ c ∈ value, c ≠ CR) ∧ (∀ c, value.head? = some c → isblank c = false) ∧
      u.req = { s.req with heads := Assoc.insert s.req.heads s.headerKey value, state := .wCr } ∧
      Turns u rest t := by
  have hblankCR : ∀ c, isblank c = true → c ≠ CR := by
    rintro c hc rfl
    simp [isblank, CR] at hc
  obtain ⟨blanks, x, rest, s₁, rfl, hblanks, hx, hturn, hrest⟩ := h.span .beforeHeaderValue
    (fun c => isblank c = true)
    (fun s c left hs hc => by simp [turn, hs, hc, hblankCR c hc]) hs (by rw [ht]; decide)
  simp only [turn, hs] at hturn
  rw [if_neg hx] at hturn
  split_ifs at hturn with hxCR
  · cases hturn
    subst hxCR
    exact ⟨blanks, [], rest, _, rfl, hblanks, by simp, by simp, rfl, hrest⟩
  · cases hturn
    obtain ⟨xs, c, rest, s₂, rfl, hxs, hc, hturn, hrest⟩ := hrest.span .headerValue (fun c => c ≠ CR)
      (fun s c left hs hc => by simp [turn, hs, hc]) rfl (by rw [ht]; decide)
    rw [not_not] at hc
    subst hc
    simp only [turn, push, goto, HttpRequest.goto, mark, if_true] at hturn
    cases hturn
    refine ⟨blanks, x :: xs, rest, _, rfl, hblanks, List.forall_mem_cons.mpr ⟨hxCR, hxs⟩, ?_, rfl, hrest⟩
    rintro c hc
    cases hc
    simpa using hx

theorem Turns.stray {s t : Scanner} {seg : List Byte} (h : Turns s seg t)
    (hs : s.req.state = .wCrLfCr) : (∀ c ∈ seg, c ≠ LF) ∧ t.req = s.req := by
  induction h with
  | nil => exact ⟨nofun, rfl⟩
  | @cons s s' t c rest hstop hbody hblank hturn hrest ih =>
    have hc : c ≠ LF := fun hc => hblank ⟨hs, hc⟩
    have hsame := hturn 0
    simp only [turn, hs, if_neg hc] at hsame
    cases hsame
    obtain ⟨hrest, hreq⟩ := ih hs
    exact ⟨List.forall_mem_cons.mpr ⟨hc, hrest⟩, hreq⟩

theorem Turns.lines {s t : Scanner} {seg : List Byte} (h : Turns s seg t) (hs : s.req.state = .wCr)
    (ht : t.req.state = .wCrLfCr) :
    ∃ (heads : List WireHeader) (stray : List Byte),
      seg = heads.flatMap Wire.headerText ++ ([LF, CR] ++ stray) ∧
      (∀ h ∈ heads, Head.LooseHeader h) ∧ (∀ c ∈ stray, c ≠ LF) ∧
      t.req = { s.req with
        heads := Assoc.insertAll s.req.heads (heads.map fun h => (h.key, h.value))
        state := .wCrLfCr } := by
  induction hlength : seg.length using Nat.strong_induction_on generalizing s seg with
  | _ n ih =>
    obtain ⟨c, rest, s₁, rfl, hturn, hrest⟩ := h.first (by rw [hs]; decide) ht
    simp only [turn, hs] at hturn
    split_ifs at hturn with hLF
    · cases hturn
      subst hLF
      obtain ⟨k, rest, s₂, rfl, hturn, hrest⟩ := hrest.first (by simp [push, goto, HttpRequest.goto]) ht
      simp only [turn, push, goto, HttpRequest.goto] at hturn
      split_ifs at hturn with hCR hblank
      · cases hturn
        subst hCR
        obtain ⟨hstray, hreq⟩ := hrest.stray rfl
        exact ⟨[], rest, rfl, by simp, hstray, hreq⟩
      · cases hturn
        cases hrest.running ht
      · cases hturn
        obtain ⟨ks, c, rest, s₃, rfl, hks, hc, hturn, hrest⟩ := hrest.span .headerKey (fun c => c ≠ 58)
          (fun s c left hs hc => by simp [turn, hs, hc]) rfl (by rw [ht]; decide)
        rw [not_not] at hc
        subst hc
        simp only [turn, push, goto, HttpRequest.goto, mark, if_true] at hturn
        cases hturn
        obtain ⟨lead, value, rest, u, rfl, hlead, hvalue, hfirst, hu, hrest⟩ := hrest.headerValue rfl ht
        obtain ⟨heads, stray, rfl, hheads, hstray, hreq⟩ := ih rest.length
          (by rw [← hlength]; simp; omega) hrest (by rw [hu]) rfl
        refine ⟨⟨k :: ks, lead, value⟩ :: heads, stray, by simp [Wire.headerText],
          List.forall_mem_cons.mpr ⟨⟨⟨k, ks, rfl, ⟨hCR, by simpa using hblank⟩, hks⟩, hlead, hvalue,
            hfirst⟩, hheads⟩, hstray, ?_⟩
        rw [hreq, hu]
        rfl
    · cases hturn
      cases hrest.running ht

/-- **What is read as a head is a loose one.** -/
theorem loose_of_turns {t : Scanner} {seg : List Byte} (h : Turns (.enter .fresh) seg t)
    (ht : t.req.state = .wCrLfCr) :
    ∃ g : Head, g.Loose ∧ seg ++ [LF] = g.text ∧ t.req = g.request .wCrLfCr := by
  obtain ⟨lead, m, b, afterMethod, s, rfl, hlead, hm, hb, hs, hmethod⟩ := h.method rfl ht
  obtain ⟨blanks, path, c, afterPath, u, state, rfl, hblanks, hpath, hc, hu, hrest⟩ :=
    hmethod.path (by rw [hs]) ht
  have hgap : Wire.IsGap (b :: blanks) := ⟨List.cons_ne_nil _ _, List.forall_mem_cons.mpr ⟨hb, hblanks⟩⟩
  -- the parameters, when there is a `?`
  obtain ⟨params, d, afterTarget, v, htext, hparams, hd, hv, htarget⟩ : ∃ params d rest v,
      path ++ c :: afterPath = Head.target ⟨[], [], [], path, params, [], [], [], []⟩ ++ d :: rest ∧
      (∀ p ∈ params, Head.LooseParam p) ∧ isblank d = true ∧
      v.req = { s.req with
        path := path, params := Assoc.insertAll s.req.params params, state := .beforeVersion } ∧
      Turns v rest t := by
    rcases hc with ⟨hc, rfl⟩ | ⟨rfl, rfl⟩
    · exact ⟨[], c, afterPath, u, rfl, nofun, hc, hu, hrest⟩
    · obtain ⟨pairs, d, rest, v, rfl, hne, hpairs, hd, hv, htarget⟩ := hrest.pairs (by rw [hu]) ht
      refine ⟨pairs, d, rest, v, ?_, hpairs, hd, by rw [hv, hu], htarget⟩
      obtain ⟨p, pairs, rfl⟩ := List.exists_cons_of_ne_nil hne
      simp [Head.target]
  obtain ⟨blanks', version, afterVersion, w, rfl, hblanks', hversion, hw, hline⟩ :=
    htarget.version (by rw [hv]) ht
  obtain ⟨heads, stray, rfl, hheads, hstray, hreq⟩ := hline.lines (by rw [hw]) ht
  refine ⟨⟨lead, m, b :: blanks, path, params, d :: blanks', version, heads, stray⟩,
    ⟨hlead, hm, hgap, hpath, hparams, ⟨List.cons_ne_nil _ _, List.forall_mem_cons.mpr ⟨hd, hblanks'⟩⟩,
      hversion, hheads, hstray⟩, ?_, ?_⟩
  · rw [htext]
    simp [Head.text, Head.core, Head.target]
  · rw [hreq, hw, hv, hs]
    rfl

theorem loose_of_head {msg rest : List Byte} {t : Scanner}
    (h : head (.enter .fresh) msg = some (t, rest)) :
    ∃ g : Head, g.Loose ∧ msg = g.text ++ rest ∧ t.req = g.request .wCrLfCr := by
  obtain ⟨seg, rfl, hturns, ht⟩ := turns_of_head h
  obtain ⟨g, hg, htext, hreq⟩ := loose_of_turns hturns ht
  refine ⟨g, hg, ?_, hreq⟩
  rw [← htext, List.append_assoc]
  rfl

end Scanner

/-! ## A text is a loose head in one way only -/

def Stops (p : Byte → Prop) (l : List Byte) : Prop := ∃ c rest, l = c :: rest ∧ ¬ p c

theorem stops_cons {p : Byte → Prop} {c : Byte} (hc : ¬ p c) (l : List Byte) : Stops p (c :: l) :=
  ⟨c, l, rfl, hc⟩

theorem run_inj {p : Byte → Prop} {xs ys l l' : List Byte} (hxs : ∀ x ∈ xs, p x) (hys : ∀ y ∈ ys, p y)
    (hl : Stops p l) (hl' : Stops p l') (h : xs ++ l = ys ++ l') : xs = ys ∧ l = l' := by
  induction xs generalizing ys with
  | nil =>
    cases ys with
    | nil => exact ⟨rfl, h⟩
    | cons y ys =>
      obtain ⟨c, rest, rfl, hc⟩ := hl
      rw [List.nil_append, List.cons_append, List.cons.injEq] at h
      exact absurd (h.1 ▸ hys y List.mem_cons_self) hc
  | cons x xs ih =>
    cases ys with
    | nil =>
      obtain ⟨c, rest, rfl, hc⟩ := hl'
      rw [List.nil_append, List.cons_append, List.cons.injEq] at h
      exact absurd (h.1 ▸ hxs x List.mem_cons_self) hc
    | cons y ys =>
      rw [List.cons_append, List.cons_append, List.cons.injEq] at h
      obtain ⟨rfl, hrest⟩ := ih (fun x hx => hxs x (List.mem_cons_of_mem _ hx))
        (fun y hy => hys y (List.mem_cons_of_mem _ hy)) h.2
      exact ⟨by rw [h.1], hrest⟩

theorem Http.Token.inj {first other : Byte → Prop} {m m' l l' : List Byte}
    (hm : Token first other m) (hm' : Token first other m') (hl : Stops other l)
    (hl' : Stops other l') (h : m ++ l = m' ++ l') : m = m' ∧ l = l' := by
  obtain ⟨x, xs, rfl, -, hxs⟩ := hm
  obtain ⟨y, ys, rfl, -, hys⟩ := hm'
  rw [List.cons_append, List.cons_append, List.cons.injEq] at h
  obtain ⟨rfl, hrest⟩ := run_inj hxs hys hl hl' h.2
  exact ⟨by rw [h.1], hrest⟩

theorem Http.Token.stops {p first other : Byte → Prop} {m : List Byte} (hm : Token first other m)
    (h : ∀ c, first c → ¬ p c) (l : List Byte) : Stops p (m ++ l) := by
  obtain ⟨x, xs, rfl, hx, -⟩ := hm
  exact stops_cons (h x hx) _

theorem Wire.IsGap.stops {p : Byte → Prop} {gap : List Byte} (hgap : IsGap gap)
    (h : ∀ c, isblank c = true → ¬ p c) (l : List Byte) : Stops p (gap ++ l) := by
  obtain ⟨b, bs, rfl⟩ := List.exists_cons_of_ne_nil hgap.1
  exact stops_cons (h b (hgap.2 b List.mem_cons_self)) _

namespace Head

theorem blank_ends {d c : Byte} (hc : isblank c = true) : ¬(c ≠ d ∧ isblank c = false) := by
  rw [hc]
  exact fun h => nomatch h.2

theorem ends_self {d : Byte} {q : Prop} : ¬(d ≠ d ∧ q) := fun h => h.1 rfl

theorem pairs_inj {pairs pairs' : List (List Byte × List Byte)} {l l' : List Byte} (hne : pairs ≠ [])
    (hne' : pairs' ≠ []) (hpairs : ∀ p ∈ pairs, LooseParam p) (hpairs' : ∀ p ∈ pairs', LooseParam p)
    (hl : ∃ b r, l = b :: r ∧ isblank b = true) (hl' : ∃ b r, l' = b :: r ∧ isblank b = true)
    (h : Wire.pairsText pairs ++ l = Wire.pairsText pairs' ++ l') : pairs = pairs' ∧ l = l' := by
  have hsplit : ∀ (p : List Byte × List Byte) (ps : List (List Byte × List Byte)) (l : List Byte),
      Wire.pairsText (p :: ps) ++ l = p.1 ++ 61 :: (p.2 ++ match ps with
        | [] => l
        | q :: ps => 38 :: (Wire.pairsText (q :: ps) ++ l)) := by
    intro p ps l
    cases ps <;> simp [Wire.pairsText]
  have hblank : ∀ {l : List Byte}, (∃ b r, l = b :: r ∧ isblank b = true) →
      Stops (fun c => c ≠ 38 ∧ isblank c = false) l ∧ ∀ r, l ≠ 38 :: r := by
    rintro l ⟨b, r, rfl, hb⟩
    refine ⟨stops_cons (blank_ends hb) r, ?_⟩
    rintro r heq
    cases heq
    cases hb
  induction pairs generalizing pairs' with
  | nil => exact absurd rfl hne
  | cons p ps ih =>
    obtain ⟨p', ps', rfl⟩ := List.exists_cons_of_ne_nil hne'
    obtain ⟨hp, hps⟩ := List.forall_mem_cons.mp hpairs
    obtain ⟨hp', hps'⟩ := List.forall_mem_cons.mp hpairs'
    rw [hsplit, hsplit] at h
    obtain ⟨hkey, h⟩ := hp.key.inj hp'.key (stops_cons ends_self _) (stops_cons ends_self _) h
    have h := (List.cons.inj h).2
    cases ps with
    | nil =>
      cases ps' with
      | nil =>
        obtain ⟨hvalue, hrest⟩ := hp.value.inj hp'.value (hblank hl).1 (hblank hl').1 h
        exact ⟨by rw [Prod.ext hkey hvalue], hrest⟩
      | cons q' ps' =>
        obtain ⟨-, heq⟩ := hp.value.inj hp'.value (hblank hl).1 (stops_cons ends_self _) h
        exact absurd heq ((hblank hl).2 _)
    | cons q ps =>
      cases ps' with
      | nil =>
        obtain ⟨-, heq⟩ := hp.value.inj hp'.value (stops_cons ends_self _) (hblank hl').1 h
        exact absurd heq.symm ((hblank hl').2 _)
      | cons q' ps' =>
        obtain ⟨hvalue, h⟩ := hp.value.inj hp'.value (stops_cons ends_self _) (stops_cons ends_self _) h
        obtain ⟨htail, hrest⟩ :=
          ih (List.cons_ne_nil _ _) (List.cons_ne_nil _ _) hps hps' (List.cons.inj h).2
        exact ⟨by rw [Prod.ext hkey hvalue, htail], hrest⟩

theorem lines_inj {heads heads' : List WireHeader} {stray stray' r r' : List Byte}
    (hheads : ∀ h ∈ heads, LooseHeader h) (hheads' : ∀ h ∈ heads', LooseHeader h)
    (hstray : ∀ c ∈ stray, c ≠ LF) (hstray' : ∀ c ∈ stray', c ≠ LF)
    (h : heads.flatMap Wire.headerText ++ LF :: CR :: (stray ++ LF :: r) =
      heads'.flatMap Wire.headerText ++ LF :: CR :: (stray' ++ LF :: r')) :
    heads = heads' ∧ stray = stray' ∧ r = r' := by
  have hself : ∀ {d : Byte} (l : List Byte), Stops (fun c => c ≠ d) (d :: l) :=
    stops_cons fun hne => hne rfl
  have hsplit : ∀ (h : WireHeader) (l : List Byte), Wire.headerText h ++ l =
      LF :: (h.key ++ 58 :: (h.lead ++ (h.value ++ CR :: l))) := by
    intro h l
    simp [Wire.headerText]
  -- a header line does not begin like the blank line
  have hother : ∀ {h : WireHeader} {l l' : List Byte}, LooseHeader h →
      LF :: CR :: l ≠ Wire.headerText h ++ l' := by
    intro h l l' hh heq
    obtain ⟨k, ks, hkey, hk, -⟩ := hh.key
    rw [hsplit, hkey] at heq
    simp only [List.cons_append, List.cons.injEq, true_and] at heq
    exact hk.1 heq.1.symm
  -- nor the bytes behind the blanks of one with a blank
  have hvalue : ∀ {h : WireHeader}, LooseHeader h → ∀ l,
      Stops (fun c => isblank c = true) (h.value ++ CR :: l) := by
    intro h hh l
    cases hv : h.value with
    | nil => exact stops_cons (by decide) l
    | cons v vs =>
      have hblank := hh.value_blank v (by rw [hv]; rfl)
      exact stops_cons (by simp [hblank]) _
  induction heads generalizing heads' with
  | nil =>
    cases heads' with
    | nil =>
      simp only [List.flatMap_nil, List.nil_append, List.cons.injEq, true_and] at h
      obtain ⟨hsame, hrest⟩ := run_inj hstray hstray' (hself r) (hself r') h
      exact ⟨rfl, hsame, (List.cons.inj hrest).2⟩
    | cons x' xs' =>
      rw [List.flatMap_cons, List.append_assoc] at h
      exact absurd h (hother (hheads' x' List.mem_cons_self))
  | cons x xs ih =>
    cases heads' with
    | nil =>
      rw [List.flatMap_cons, List.append_assoc] at h
      exact absurd h.symm (hother (hheads x List.mem_cons_self))
    | cons x' xs' =>
      obtain ⟨hx, hxs⟩ := List.forall_mem_cons.mp hheads
      obtain ⟨hx', hxs'⟩ := List.forall_mem_cons.mp hheads'
      rw [List.flatMap_cons, List.flatMap_cons, List.append_assoc, List.append_assoc, hsplit, hsplit,
        List.cons.injEq] at h
      obtain ⟨hkey, h⟩ := hx.key.inj hx'.key (hself _) (hself _) h.2
      obtain ⟨hlead, h⟩ := run_inj hx.lead hx'.lead (hvalue hx _) (hvalue hx' _) (List.cons.inj h).2
      obtain ⟨hsame, h⟩ := run_inj hx.value hx'.value (hself _) (hself _) h
      obtain ⟨htail, hrest⟩ := ih hxs hxs' (List.cons.inj h).2
      refine ⟨?_, hrest⟩
      cases x
      cases x'
      dsimp only at hkey hlead hsame
      rw [htail, hkey, hlead, hsame]

theorem target_inj {g g' : Head} (hg : g.Loose) (hg' : g'.Loose) {l l' : List Byte}
    (hl : ∃ b r, l = b :: r ∧ isblank b = true) (hl' : ∃ b r, l' = b :: r ∧ isblank b = true)
    (h : g.target ++ l = g'.target ++ l') : g.path = g'.path ∧ g.params = g'.params ∧ l = l' := by
  have hsplit : ∀ (g : Head) (l : List Byte), g.target ++ l = g.path ++ match g.params with
      | [] => l
      | p :: ps => 63 :: (Wire.pairsText (p :: ps) ++ l) := by
    intro g l
    unfold target
    cases g.params <;> simp
  have hblank : ∀ {l : List Byte}, (∃ b r, l = b :: r ∧ isblank b = true) →
      Stops (fun c => isblank c = false ∧ c ≠ 63) l ∧ ∀ r, l ≠ 63 :: r := by
    rintro l ⟨b, r, rfl, hb⟩
    refine ⟨stops_cons (by simp [hb]) r, ?_⟩
    rintro r heq
    cases heq
    cases hb
  have hmark : ∀ l, Stops (fun c => isblank c = false ∧ c ≠ 63) (63 :: l) :=
    stops_cons fun hother => hother.2 rfl
  have hparams := hg.params
  have hparams' := hg'.params
  rw [hsplit, hsplit] at h
  cases hp : g.params with
  | nil =>
    cases hp' : g'.params with
    | nil =>
      rw [hp, hp'] at h
      obtain ⟨hpath, hrest⟩ := hg.path.inj hg'.path (hblank hl).1 (hblank hl').1 h
      exact ⟨hpath, rfl, hrest⟩
    | cons p' ps' =>
      rw [hp, hp'] at h
      obtain ⟨-, heq⟩ := hg.path.inj hg'.path (hblank hl).1 (hmark _) h
      exact absurd heq ((hblank hl).2 _)
  | cons p ps =>
    cases hp' : g'.params with
    | nil =>
      rw [hp, hp'] at h
      obtain ⟨-, heq⟩ := hg.path.inj hg'.path (hmark _) (hblank hl').1 h
      exact absurd heq.symm ((hblank hl').2 _)
    | cons p' ps' =>
      rw [hp, hp'] at h
      rw [hp] at hparams
      rw [hp'] at hparams'
      obtain ⟨hpath, h⟩ := hg.path.inj hg'.path (hmark _) (hmark _) h
      obtain ⟨hsame, hrest⟩ := pairs_inj (List.cons_ne_nil _ _) (List.cons_ne_nil _ _) hparams hparams'
        hl hl' (List.cons.inj h).2
      exact ⟨hpath, hsame, hrest⟩

/-- **The grammar is unambiguous.** -/
theorem Loose.unique {g g' : Head} (hg : g.Loose) (hg' : g'.Loose) {r r' : List Byte}
    (h : g.text ++ r = g'.text ++ r') : g = g' ∧ r = r' := by
  have hsplit : ∀ (g : Head) (r : List Byte), g.text ++ r = g.lead ++ (g.method ++ (g.gap ++
      (g.target ++ (g.gap' ++ (g.version ++ CR :: (g.heads.flatMap Wire.headerText ++
        LF :: CR :: (g.stray ++ LF :: r))))))) := by
    intro g r
    simp [text, core]
  have htarget : ∀ {g : Head}, g.Loose → ∀ l, Stops (fun c => isblank c = true) (g.target ++ l) := by
    intro g hg l
    have hslash : ∀ l, Stops (fun c => isblank c = true) (g.path ++ l) :=
      hg.path.stops (by rintro c rfl; decide)
    unfold target
    cases g.params with
    | nil => exact hslash l
    | cons p ps =>
      dsimp only
      rw [List.append_assoc]
      exact hslash _
  have hgap' : ∀ {g : Head}, g.Loose → ∀ l, ∃ b r, g.gap' ++ l = b :: r ∧ isblank b = true := by
    intro g hg l
    obtain ⟨b, bs, hb⟩ := List.exists_cons_of_ne_nil hg.gap'.1
    exact ⟨b, bs ++ l, by rw [hb]; rfl, hg.gap'.2 b (by rw [hb]; exact List.mem_cons_self)⟩
  have hupper : ∀ c, isblank c = true → ¬ isupper c = true := fun c hc => by
    simp [Scanner.not_isupper_of_isblank hc]
  have hword : ∀ c, isblank c = false → ¬ isblank c = true := fun c hc => by simp [hc]
  rw [hsplit, hsplit] at h
  obtain ⟨hlead, h⟩ := run_inj hg.lead hg'.lead
    (hg.method.stops (fun _ => Scanner.not_isLead_of_isupper) _)
    (hg'.method.stops (fun _ => Scanner.not_isLead_of_isupper) _) h
  obtain ⟨hmethod, h⟩ := hg.method.inj hg'.method (hg.gap.stops hupper _) (hg'.gap.stops hupper _) h
  obtain ⟨hgap, h⟩ := run_inj hg.gap.2 hg'.gap.2 (htarget hg _) (htarget hg' _) h
  obtain ⟨hpath, hparams, h⟩ := target_inj hg hg' (hgap' hg _) (hgap' hg' _) h
  obtain ⟨hgaps, h⟩ := run_inj hg.gap'.2 hg'.gap'.2 (hg.version.stops hword _)
    (hg'.version.stops hword _) h
  obtain ⟨hversion, h⟩ := hg.version.inj hg'.version (stops_cons (fun hne => hne rfl) _)
    (stops_cons (fun hne => hne rfl) _) h
  obtain ⟨hheads, hstray, hrest⟩ := lines_inj hg.heads hg'.heads hg.stray hg'.stray (List.cons.inj h).2
  refine ⟨?_, hrest⟩
  cases g
  cases g'
  dsimp only at hlead hmethod hgap hpath hparams hgaps hversion hheads hstray
  rw [hlead, hmethod, hgap, hpath, hparams, hgaps, hversion, hheads, hstray]

end Head

end VServer

import VServer.Http.Server

/-!
# Requests and reads

`onMessage` parses what one read delivered with a fresh `HttpRequest` and keeps nothing for the next
read. So the callback sees the requests of a stream when the reads follow the requests: one read for
each, which may leave the `\n\r\n` behind a request without body, or the end of it, to the next one
(`Aligned`). A request cut elsewhere is two callbacks (`cutRequest_called_twice`), and of two
requests in one read the second is lost.
-/

namespace VServer

open Http

namespace Buffer

variable {b : Buffer}

/-- Nothing to read, and storage of a size `readOnece` keeps it below. -/
structure Idle (b : Buffer) : Prop where
  inv : b.Inv
  front : b.pRead = kCheapPrepend ∧ b.pWrite = kCheapPrepend
  size : b.buffer.length ≤ kCheapPrepend + 2 * kBufferSize

theorem Idle.readable (h : b.Idle) : b.readable = [] := by
  rw [Buffer.readable, h.front.1, h.front.2]
  exact Storage.window_self _ _

theorem init_idle : (init kInitialSize).Idle := by
  refine ⟨init_inv _, ⟨rfl, rfl⟩, ?_⟩
  simp only [init, List.length_replicate, kCheapPrepend, kInitialSize, kBufferSize]
  decide

theorem readOnece_idle (h : b.Idle) {data : List Byte} (hdata : data.length ≤ b.offered) :
    ∃ b', b.readOnece data = .ok b' ∧ b'.Inv ∧ b'.readable = data ∧ b'.retrieveAll.Idle := by
  obtain ⟨b', hread, hinv, hreadable⟩ := readOnece_spec h.inv data
  refine ⟨b', hread, hinv, by rw [hreadable, h.readable, List.nil_append], ?_⟩
  refine ⟨retrieveAll_inv hinv, ⟨rfl, rfl⟩, ?_⟩
  show b'.buffer.length ≤ _
  have hsize := h.size
  have hlength := (readOnece_grown h.inv hread).le
  rw [h.front.2] at hlength
  by_cases hsmall : b.writableBytes < kBufferSize
  · rw [offered, if_pos hsmall] at hdata
    simp only [writableBytes, h.front.2, kCheapPrepend, kBufferSize] at *
    omega
  · rw [offered, if_neg hsmall] at hdata
    simp only [writableBytes, h.front.2, kCheapPrepend, kBufferSize] at *
    omega

theorem offered_idle (h : b.Idle) : b.offered < 2 ^ 31 := by
  have hsize := h.size
  have hstack : (if b.writableBytes < kBufferSize then kBufferSize else 0) ≤ kBufferSize := by
    split_ifs
    · exact Nat.le_refl _
    · exact Nat.zero_le _
  rw [offered, writableBytes] at *
  simp only [kCheapPrepend, kBufferSize] at hsize hstack ⊢
  omega

theorem kBufferSize_le_offered (b : Buffer) : kBufferSize ≤ b.offered := by
  rw [offered]
  split_ifs with h
  · exact Nat.le_add_left _ _
  · exact Nat.le_of_not_lt h

end Buffer

namespace HttpServer

theorem toInt_of_lt {n : Nat} (h : n < 2 ^ 31) : toInt n = n := by
  rw [toInt, Nat.mod_eq_of_lt (lt_trans h (by decide)), if_pos h]

theorem receive_of_parse (server : HttpServer) (platform : Platform) {buf : Buffer} (hbuf : buf.Idle) {piece : List Byte}
    (hpiece : piece.length ≤ buf.offered) {req : HttpRequest}
    (hparse : HttpRequest.fresh.parse (piece ++ [0]) piece.length = .ok req) :
    ∃ buf', buf'.Idle ∧ server.receive platform buf piece =
      .ok (buf', ⟨server.httpCallback.map fun _ => req,
        (server.respond platform req).dump platform.order, wantsClose platform req⟩) := by
  obtain ⟨filled, hread, hinv, hreadable, hidle⟩ := Buffer.readOnece_idle hbuf hpiece
  have hsmall : piece.length < 2 ^ 31 := lt_of_le_of_lt hpiece (Buffer.offered_idle hbuf)
  refine ⟨filled.retrieveAll, hidle, ?_⟩
  rw [receive, hread, ok_bind, onMessage, Buffer.retrieveAllAsString_spec hinv, ok_bind]
  dsimp only
  rw [hreadable, toInt_of_lt hsmall, hparse]
  rfl

theorem serve_length {server : HttpServer} {platform : Platform} {buf : Buffer}
    {pieces : List (List Byte)} {exchanges : List Exchange}
    (h : server.serve platform buf pieces = .ok exchanges) : exchanges.length = pieces.length := by
  induction pieces generalizing buf exchanges with
  | nil =>
    cases h
    rfl
  | cons piece pieces ih =>
    rw [serve] at h
    cases hreceive : server.receive platform buf piece with
    | error e =>
      rw [hreceive] at h
      cases h
    | ok r =>
      rw [hreceive, ok_bind] at h
      dsimp only at h
      cases hserve : server.serve platform r.1 pieces with
      | error e =>
        rw [hserve] at h
        cases h
      | ok rest =>
        rw [hserve] at h
        cases h
        rw [List.length_cons, List.length_cons, ih hserve]

theorem delivers_of_short {server : HttpServer} {platform : Platform} {pieces : List (List Byte)}
    (h : ∀ piece ∈ pieces, piece ≠ [] ∧ piece.length ≤ Buffer.kBufferSize) (buf : Buffer) :
    server.Delivers platform buf pieces := by
  induction pieces generalizing buf with
  | nil => trivial
  | cons piece pieces ih =>
    have hpiece := h piece (by simp)
    exact ⟨hpiece.1, le_trans hpiece.2 (Buffer.kBufferSize_le_offered buf),
      fun buf' _ _ => ih (fun p hp => h p (by simp [hp])) buf'⟩

end HttpServer

/-- The callback was called with the data of `w`. -/
def Exchange.Serves (e : Exchange) (w : Wire) : Prop := ∃ req, e.called = some req ∧ w.Agrees req

/-- Every request was given to the callback once, in order, with its data. -/
def Served (server : HttpServer) (platform : Platform) (ws : List Wire) (pieces : List (List Byte)) :
    Prop :=
  ∃ exchanges, server.serve platform (.init Buffer.kInitialSize) pieces = .ok exchanges ∧
    List.Forall₂ Exchange.Serves exchanges ws

/-- Each read delivers one request. Of the `\n\r\n` behind a request without body it may leave the
end (`carry`) to the next read, which takes it for blanks in front of the next request. -/
inductive Aligned : List Byte → List Wire → List (List Byte) → Prop
  | nil : Aligned [] [] []
  | cons {carry : List Byte} (carry' : List Byte) {w : Wire} {ws : List Wire} {piece : List Byte}
      {pieces : List (List Byte)} (cut : piece ++ carry' = carry ++ w.text)
      (left : carry' = [] ∨ w.body = [] ∧ carry' <:+ Wire.blankLine)
      (rest : Aligned carry' ws pieces) : Aligned carry (w :: ws) (piece :: pieces)

theorem isLead_of_blankLine {carry : List Byte} (h : carry <:+ Wire.blankLine) :
    ∀ c ∈ carry, Scanner.IsLead c := by
  intro c hc
  have hmem := h.subset hc
  simp only [Wire.blankLine, List.mem_cons, List.not_mem_nil, or_false] at hmem
  rcases hmem with rfl | rfl | rfl
  · exact Or.inr (Or.inl rfl)
  · exact Or.inl rfl
  · exact Or.inr (Or.inl rfl)

theorem parse_piece {w : Wire} (hw : w.Ok) {carry carry' piece : List Byte}
    (hcarry : carry <:+ Wire.blankLine) (hcut : piece ++ carry' = carry ++ w.text)
    (hleft : carry' = [] ∨ w.body = [] ∧ carry' <:+ Wire.blankLine) :
    ∃ req, HttpRequest.fresh.parse (piece ++ [0]) piece.length = .ok req ∧ w.Agrees req := by
  have hlead := isLead_of_blankLine hcarry
  by_cases hnil : carry' = []
  · rw [hnil, List.append_nil] at hcut
    rw [hcut]
    exact Wire.parse_text hw hlead [0]
  · obtain ⟨hbody, tail, htail⟩ := hleft.resolve_left hnil
    have hpiece : piece = carry ++ (w.core ++ tail) := by
      rw [Wire.text, hbody, List.append_nil, ← htail, ← List.append_assoc, ← List.append_assoc] at hcut
      rw [List.append_cancel_right hcut, List.append_assoc]
    have hprefix : tail <+: [LF, CR] := by
      have hne : tail ≠ Wire.blankLine := by
        rintro rfl
        exact hnil (List.append_right_eq_self.mp htail)
      have hshort : tail <+: [LF, CR] ++ [LF] := ⟨carry', htail⟩
      exact (List.prefix_concat_iff.mp hshort).resolve_left hne
    rw [hpiece]
    exact Wire.parse_cut hw hbody hlead hprefix [0]

theorem served_of_aligned_from {server : HttpServer} {platform : Platform} {callback : HttpCallback}
    (hcallback : server.httpCallback = some callback) {carry : List Byte} {ws : List Wire}
    {pieces : List (List Byte)} (h : Aligned carry ws pieces) (hcarry : carry <:+ Wire.blankLine)
    (hws : ∀ w ∈ ws, w.Ok) {buf : Buffer} (hbuf : buf.Idle)
    (hpieces : server.Delivers platform buf pieces) :
    ∃ exchanges, server.serve platform buf pieces = .ok exchanges ∧
      List.Forall₂ Exchange.Serves exchanges ws := by
  induction h generalizing buf with
  | nil => exact ⟨[], rfl, .nil⟩
  | @cons carry carry' w ws piece pieces cut left rest ih =>
    obtain ⟨-, hpiece, hrest⟩ := hpieces
    obtain ⟨req, hparse, hagrees⟩ := parse_piece (hws w (by simp)) hcarry cut left
    obtain ⟨buf', hidle, hreceive⟩ :=
      HttpServer.receive_of_parse server platform hbuf hpiece hparse
    have hcarry' : carry' <:+ Wire.blankLine := by
      rcases left with rfl | ⟨-, hsuffix⟩
      · exact List.nil_suffix
      · exact hsuffix
    obtain ⟨exchanges, hserve, hserved⟩ :=
      ih hcarry' (fun w' hw' => hws w' (by simp [hw'])) hidle (hrest _ _ hreceive)
    have hcons : server.serve platform buf (piece :: pieces) =
        .ok (⟨server.httpCallback.map fun _ => req, (server.respond platform req).dump platform.order,
          HttpServer.wantsClose platform req⟩ :: exchanges) := by
      rw [HttpServer.serve, hreceive, ok_bind]
      dsimp only
      rw [hserve]
      rfl
    refine ⟨_, hcons, .cons ⟨req, ?_, hagrees⟩ hserved⟩
    rw [hcallback]
    rfl

/-- **Reads that follow the requests.** Whatever the callback does, it is called once for each
request, in order, with the data of that request. -/
theorem served_of_aligned (server : HttpServer) (platform : Platform) (callback : HttpCallback)
    (hcallback : server.httpCallback = some callback) (ws : List Wire) (hws : ∀ w ∈ ws, w.Ok)
    (pieces : List (List Byte))
    (hpieces : server.Delivers platform (.init Buffer.kInitialSize) pieces)
    (haligned : Aligned [] ws pieces) : Served server platform ws pieces :=
  served_of_aligned_from hcallback haligned List.nil_suffix hws Buffer.init_idle hpieces

namespace Wire

/-- `GET / HTTP/1.1` without headers. -/
def plain : Wire := ⟨.get, [32], [47], [], [32], .http11, [], []⟩

theorem plain_ok : plain.Ok where
  method := by decide
  gap := ⟨by decide, by decide +kernel⟩
  path := ⟨[], rfl, by simp⟩
  params := by simp [plain]
  gap' := ⟨by decide, by decide +kernel⟩
  version := by decide
  heads := by simp [plain]
  framed := rfl

end Wire

def quiet : HttpServer := ⟨some fun _ res => res⟩

def platform : Platform := ⟨id, .http11⟩

/-- Two requests; the end of the first blank line comes with the second request. -/
theorem served_of_aligned_carry :
    Served quiet platform [.plain, .plain]
      [bytes "GET / HTTP/1.1\r\n", bytes "\r\nGET / HTTP/1.1\r\n\r\n"] := by
  refine served_of_aligned quiet platform _ rfl [.plain, .plain] ?_ _ ?_ ?_
  · intro w hw
    have hw : w = .plain := by simpa using hw
    rw [hw]
    exact Wire.plain_ok
  · exact HttpServer.delivers_of_short (by decide +kernel) _
  · refine .cons (bytes "\r\n") (by decide +kernel) (Or.inr ⟨rfl, ?_⟩)
      (.cons [] (by decide +kernel) (Or.inl rfl) .nil)
    exact List.suffix_cons LF (bytes "\r\n")

/-- A request that arrives in two reads is two calls of the callback. -/
theorem cutRequest_called_twice :
    ¬ ∀ (server : HttpServer) (platform : Platform) (callback : HttpCallback),
      server.httpCallback = some callback → ∀ ws : List Wire, (∀ w ∈ ws, w.Ok) →
      ∀ pieces : List (List Byte), server.Delivers platform (.init Buffer.kInitialSize) pieces →
        pieces.flatten = ws.flatMap Wire.text → Served server platform ws pieces := by
  intro h
  obtain ⟨exchanges, hserve, hserved⟩ := h quiet platform _ rfl [.plain]
    (by simpa using Wire.plain_ok) [bytes "GET", bytes " / HTTP/1.1\r\n\r\n"]
    (HttpServer.delivers_of_short (by decide +kernel) _) (by decide +kernel)
  have hlength := HttpServer.serve_length hserve
  rw [hserved.length_eq] at hlength
  exact absurd hlength (by decide)

end VServer

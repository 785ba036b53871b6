import VServer.Http.Decoding
import VServer.Http.Server

/-!
# Whether the peer is told that the connection closes

`onMessage` decides from the request whether it calls `shutdown()`, and gives the same decision to the
response. `dump` decides by the response, which the callback may have changed in between: with
`setCloseConnection`, or with a `Connection: close` among the headers that it adds. The two agree when
the callback leaves a response that announces what the request asked for, and only then.
-/

namespace VServer

open Http

namespace HttpResponse

/-- The fields of a response as the peer reads them: of the lines between the first one and the first
empty one those that have a colon and a blank behind it. -/
def headFields (text : List Byte) : List (List Byte × List Byte) :=
  match TextLines.cutBlank CR LF text with
  | some (head, _) => (TextLines.split CR LF head).tail.filterMap field
  | none => []

def closeField : List Byte × List Byte := (bytes "Connection", bytes "close")

def DeclaresClose (text : List Byte) : Prop := closeField ∈ headFields text

instance : DecidablePred DeclaresClose := fun text =>
  inferInstanceAs (Decidable (closeField ∈ headFields text))

def CarriesLength (text : List Byte) (n : Nat) : Prop :=
  (bytes "Content-Length", numberText n) ∈ headFields text

/-- The fields that the headers of the map make, when their text is read in the order of the map. A
header may hold ends of lines and with them further headers, or an empty line. -/
def addedFields (headers : List (List Byte × List Byte)) : List (List Byte × List Byte) :=
  match TextLines.readHead CR LF (headers.flatMap line ++ [CR, LF]) with
  | some (lines, _) => lines.filterMap field
  | none => []

theorem suffix_flatMap_line (headers : List (List Byte × List Byte)) :
    headers.flatMap line = [] ∨ [CR, LF] <:+ headers.flatMap line := by
  induction headers using List.reverseRecOn with
  | nil => exact .inl rfl
  | append_singleton headers p =>
    right
    rw [List.flatMap_append, List.flatMap_singleton]
    exact (List.suffix_append _ _).trans (List.suffix_append _ _)

variable (res : HttpResponse)

theorem headFields_dump (order : List (List Byte × List Byte) → List (List Byte × List Byte)) :
    headFields (res.dump order) = res.generated ++ addedFields (order res.headers) := by
  have hadded := TextLines.readHead_isSome (suffix_flatMap_line (order res.headers))
  obtain ⟨⟨lines, rest⟩, hlines⟩ := Option.isSome_iff_exists.mp hadded
  have hhead := res.readHead_dump order
  have hbody : TextLines.readHead CR LF
      ((order res.headers).flatMap line ++ CR :: LF :: res.body) = some (lines, rest ++ res.body) := by
    have hmore := TextLines.readHead_append hlines res.body
    rwa [List.append_assoc] at hmore
  rw [hbody] at hhead
  obtain ⟨head, hcut, hsplit⟩ := TextLines.cutBlank_of_readHead hhead
  unfold headFields addedFields
  rw [hcut, hlines]
  dsimp only
  rw [hsplit, List.tail_cons, List.filterMap_append, filterMap_field res.plain_generated]

theorem declaresClose_iff (order : List (List Byte × List Byte) → List (List Byte × List Byte)) :
    DeclaresClose (res.dump order) ↔
      res.closeConnection = true ∨ closeField ∈ addedFields (order res.headers) := by
  have hgenerated : closeField ∈ res.generated ↔ res.closeConnection = true := by
    have hlength : closeField.1 ≠ bytes "Content-Length" := by decide
    have halive : closeField.2 ≠ bytes "Keep-Alive" := by decide
    unfold generated
    split
    · rename_i hclose
      exact iff_of_true List.mem_cons_self hclose
    · rename_i hclose
      refine iff_of_false (fun hmem => ?_) hclose
      rcases List.mem_cons.mp hmem with heq | hmem
      · exact hlength (congrArg Prod.fst heq)
      · exact halive (congrArg Prod.snd (List.mem_singleton.mp hmem))
  rw [DeclaresClose, headFields_dump, List.mem_append, hgenerated]

theorem carriesLength_dump (order : List (List Byte × List Byte) → List (List Byte × List Byte))
    (h : res.closeConnection = false) : CarriesLength (res.dump order) res.body.length := by
  rw [CarriesLength, headFields_dump, generated, h]
  exact List.mem_append_left _ List.mem_cons_self

end HttpResponse

namespace HttpServer

open HttpResponse

variable (server : HttpServer) (platform : Platform)

/-- **Declared and done.** The answer to a request says that the connection closes just when
`shutdown()` is called, and otherwise how long its body is, exactly when the response, as the callback
left it, is to close or has a `Connection: close` added just when the request asks for it. -/
theorem close_declared_iff {buf buf' : Buffer} {msg : List Byte} {req : HttpRequest}
    (hretrieve : buf.retrieveAllAsString = .ok (msg, buf'))
    (hparse : HttpRequest.fresh.parse (msg ++ [0]) (toInt msg.length) = .ok req) :
    ∃ exchange, server.onMessage platform buf = .ok (buf', exchange) ∧
      ((exchange.close = true ↔ DeclaresClose exchange.sent) ∧
          (exchange.close = false →
            CarriesLength exchange.sent (server.respond platform req).body.length) ↔
        (wantsClose platform req = true ↔
          (server.respond platform req).closeConnection = true ∨
            closeField ∈ addedFields (platform.order (server.respond platform req).headers))) := by
  refine ⟨⟨server.httpCallback.map fun _ => req, (server.respond platform req).dump platform.order,
    wantsClose platform req⟩, ?_, ?_⟩
  · rw [onMessage, hretrieve, ok_bind]
    dsimp only
    rw [hparse, ok_bind]
    rfl
  · dsimp only
    rw [declaresClose_iff]
    refine ⟨And.left, fun hagree => ⟨hagree, fun hopen => ?_⟩⟩
    refine carriesLength_dump _ platform.order ?_
    by_contra hclose
    rw [Bool.not_eq_false] at hclose
    rw [hagree.mpr (.inl hclose)] at hopen
    cases hopen

def keptAlive : List Byte := bytes "GET / HTTP/1.1\r\n\r\n"

def keptAliveBuffer : Buffer :=
  ⟨List.replicate Buffer.kCheapPrepend 0 ++ keptAlive, Buffer.kCheapPrepend,
    Buffer.kCheapPrepend + keptAlive.length⟩

theorem keptAliveBuffer_inv : keptAliveBuffer.Inv := Buffer.inv_of_message keptAlive

theorem keptAliveBuffer_retrieve :
    keptAliveBuffer.retrieveAllAsString = .ok (keptAlive, keptAliveBuffer.retrieveAll) := by
  have hreadable : keptAliveBuffer.readable = keptAlive := by decide +kernel
  rw [Buffer.retrieveAllAsString_spec keptAliveBuffer_inv, hreadable]

/-- A callback that adds a header of its own, and no other. -/
theorem close_declared_iff_added :
    ∃ req exchange,
      (HttpServer.mk (some fun _ res => res.addHeader (bytes "A") (bytes "1"))).onMessage
          ⟨id, .http11⟩ keptAliveBuffer = .ok (keptAliveBuffer.retrieveAll, exchange) ∧
        wantsClose ⟨id, .http11⟩ req = false ∧
        (exchange.close = true ↔ DeclaresClose exchange.sent) ∧
        (exchange.close = false → CarriesLength exchange.sent 0) := by
  obtain ⟨req, hparse, hstays⟩ : ∃ req,
      HttpRequest.fresh.parse (keptAlive ++ [0]) (toInt keptAlive.length) = .ok req ∧
        wantsClose ⟨id, .http11⟩ req = false :=
    eq_ok_of_toOption (by decide +kernel)
  obtain ⟨exchange, hexchange, hiff⟩ :=
    close_declared_iff ⟨some fun _ res => res.addHeader (bytes "A") (bytes "1")⟩ ⟨id, .http11⟩
      keptAliveBuffer_retrieve hparse
  have hres : respond ⟨some fun _ res => res.addHeader (bytes "A") (bytes "1")⟩ ⟨id, .http11⟩ req =
      (HttpResponse.init false).addHeader (bytes "A") (bytes "1") := by
    rw [← hstays]
    rfl
  rw [hres, hstays] at hiff
  exact ⟨req, exchange, hexchange, hstays, hiff.mpr (iff_of_false nofun (by decide +kernel))⟩

/-- **The peer is told that the connection closes, and it stays.** The callback asks for it, with the
setter that is there for this. -/
theorem close_not_done :
    ∃ buf' exchange,
      (HttpServer.mk (some fun _ res => res.setCloseConnection true)).onMessage
          ⟨id, .http11⟩ keptAliveBuffer = .ok (buf', exchange) ∧
        exchange.close = false ∧ DeclaresClose exchange.sent := by
  obtain ⟨⟨buf', exchange⟩, hok, hclose⟩ : ∃ r,
      (HttpServer.mk (some fun _ res => res.setCloseConnection true)).onMessage
          ⟨id, .http11⟩ keptAliveBuffer = .ok r ∧
        (r.2.close, decide (DeclaresClose r.2.sent)) = (false, true) :=
    eq_ok_of_toOption (by decide +kernel)
  obtain ⟨hopen, hdeclared⟩ := Prod.mk.inj hclose
  exact ⟨buf', exchange, hok, hopen, of_decide_eq_true hdeclared⟩

end HttpServer

end VServer

import VServer.Http.Agreement
import VServer.Http.Framing
import VServer.Lib.Messages
import VServer.Net.OutputStream

/-!
# What the client reads

The other end of a connection reads one response after another: of a response that announces a
`Content-Length` it takes that many bytes for the body, of any other the body goes to the end of the
stream (`readToEnd`). It gets the answers to its requests, in their order, up to the first request that
asks to close (`session_answered`), and the first of them from whatever part of the stream has reached
it (`wire_answered`).
-/

namespace VServer

open Http

namespace HttpResponse

/-- A response as it is read: the status line, the fields and the body. -/
abbrev Parts := List Byte × List (List Byte × List Byte) × List Byte

/-- The response at the front of a stream, when it announces where its body ends. -/
def readFramed (text : List Byte) : Option (Parts × List Byte) := do
  let (status, fields, rest) ← decode text
  match values (bytes "Content-Length") fields with
  | [length] =>
    let n := decimal length
    if n ≤ rest.length then some ((status, fields, rest.take n), rest.drop n) else none
  | _ => none

theorem decode_append {text body : List Byte} {status : List Byte}
    {fields : List (List Byte × List Byte)} (h : decode text = some (status, fields, body))
    (more : List Byte) : decode (text ++ more) = some (status, fields, body ++ more) := by
  unfold decode at h ⊢
  obtain ⟨⟨head, rest⟩, hcut, hhead⟩ := Option.bind_eq_some_iff.mp h
  dsimp only at hhead
  simp only [TextLines.cutBlank_append hcut, Option.bind_eq_bind, Option.bind_some]
  split at hhead
  · cases hhead
  · rename_i status' lines hsplit
    obtain ⟨fields', hfields, hparts⟩ := Option.bind_eq_some_iff.mp hhead
    cases hparts
    simp only [hfields, Option.bind_some]
    rfl

theorem length_lt_of_decode {text body : List Byte} {status : List Byte}
    {fields : List (List Byte × List Byte)} (h : decode text = some (status, fields, body)) :
    body.length < text.length := by
  unfold decode at h
  obtain ⟨⟨head, rest⟩, hcut, hhead⟩ := Option.bind_eq_some_iff.mp h
  dsimp only at hhead
  split at hhead
  · cases hhead
  · obtain ⟨fields', hfields, hparts⟩ := Option.bind_eq_some_iff.mp hhead
    cases hparts
    exact TextLines.length_lt_of_cutBlank hcut

theorem readFramed_inv {text rest : List Byte} {parts : Parts}
    (h : readFramed text = some (parts, rest)) :
    ∃ length body, decode text = some (parts.1, parts.2.1, body) ∧
      values (bytes "Content-Length") parts.2.1 = [length] ∧ decimal length ≤ body.length ∧
      parts.2.2 = body.take (decimal length) ∧ rest = body.drop (decimal length) := by
  unfold readFramed at h
  obtain ⟨⟨status, fields, body⟩, hdecode, hbody⟩ := Option.bind_eq_some_iff.mp h
  dsimp only at hbody
  split at hbody
  · rename_i length hvalues
    split_ifs at hbody with hle
    cases hbody
    exact ⟨length, body, hdecode, hvalues, hle, rfl, rfl⟩
  · cases hbody

theorem readFramed_eq {text status length body : List Byte} {fields : List (List Byte × List Byte)}
    (hdecode : decode text = some (status, fields, body))
    (hvalues : values (bytes "Content-Length") fields = [length]) (hle : decimal length ≤ body.length) :
    readFramed text =
      some ((status, fields, body.take (decimal length)), body.drop (decimal length)) := by
  unfold readFramed
  rw [hdecode]
  simp only [Option.bind_eq_bind, Option.bind_some, hvalues]
  exact if_pos hle

def reader : Messages.Reader Parts Byte where
  read := readFramed
  read_append := by
    rintro text ⟨status, fields, taken⟩ rest h more
    obtain ⟨length, body, hdecode, hvalues, hle, rfl, rfl⟩ := readFramed_inv h
    have hmore : decimal length ≤ (body ++ more).length := by
      rw [List.length_append]
      omega
    rw [readFramed_eq (decode_append hdecode more) hvalues hmore, List.take_append_of_le_length hle,
      List.drop_append_of_le_length hle]
  read_shorter := by
    rintro text ⟨status, fields, taken⟩ rest h
    obtain ⟨length, body, hdecode, -, -, -, rfl⟩ := readFramed_inv h
    have hshorter := length_lt_of_decode hdecode
    rw [List.length_drop]
    omega

variable (order : List (List Byte × List Byte) → List (List Byte × List Byte))

def parts (res : HttpResponse) : Parts :=
  (res.statusLine, res.generated ++ order res.headers, res.body)

/-- Its headers are plain, and `dump` alone says how long the body is. -/
structure Delimited (res : HttpResponse) : Prop where
  plain : ∀ p ∈ order res.headers, PlainHeader p
  length : bytes "Content-Length" ∉ (order res.headers).map Prod.fst

variable {order} {res : HttpResponse}

theorem readFramed_dump (h : Delimited order res) (hclose : res.closeConnection = false) :
    readFramed (res.dump order) = some (res.parts order, []) := by
  have hvalues : values (bytes "Content-Length") (res.generated ++ order res.headers) =
      [numberText res.body.length] :=
    (values_eq_singleton_iff (res.values_contentLength hclose)).mpr h.length
  have hlength := decimal_numberText res.body.length
  have hle : decimal (numberText res.body.length) ≤ res.body.length := Nat.le_of_eq hlength
  rw [readFramed_eq (res.decode_dump h.plain) hvalues hle, hlength, List.take_length,
    List.drop_length]
  rfl

theorem readFramed_close (h : Delimited order res) (hclose : res.closeConnection = true)
    (more : List Byte) : readFramed (res.dump order ++ more) = none := by
  have hgenerated : values (bytes "Content-Length") res.generated = [] := by
    rw [generated, if_pos hclose]
    decide +kernel
  have hvalues : values (bytes "Content-Length") (res.generated ++ order res.headers) = [] := by
    rw [values_append, hgenerated, List.nil_append, values_eq_nil_iff]
    exact h.length
  unfold readFramed
  rw [decode_append (res.decode_dump h.plain)]
  simp only [Option.bind_eq_bind, Option.bind_some, hvalues]

/-- The responses of a stream are read in their order; from the first that closes on, none is. -/
theorem messages_responses {responses : List HttpResponse}
    (h : ∀ res ∈ responses, Delimited order res) :
    (reader.messages (responses.flatMap (dump · order))).1 <+: responses.map (parts order) := by
  induction responses with
  | nil => exact List.prefix_rfl
  | cons res responses ih =>
    obtain ⟨hres, hrest⟩ := List.forall_mem_cons.mp h
    rw [List.flatMap_cons]
    cases hclose : res.closeConnection with
    | true =>
      rw [Messages.Reader.messages_none (readFramed_close hres hclose _)]
      exact List.nil_prefix
    | false =>
      rw [Messages.Reader.messages_append (readFramed_dump hres hclose), List.map_cons]
      exact List.cons_prefix_cons.mpr ⟨rfl, ih hrest⟩

end HttpResponse

namespace HttpServer

open HttpResponse

variable (server : HttpServer) (platform : Platform)

/-- What `send` lets through of the responses. -/
def outgoing : List Exchange → List Byte
  | [] => []
  | e :: exchanges => e.sent ++ if e.close then [] else outgoing exchanges

structure Answers (e : Exchange) (req : HttpRequest) : Prop where
  called : e.called = some req
  sent : e.sent = (server.respond platform req).dump platform.order
  close : e.close = wantsClose platform req

variable {server platform} {callback : HttpCallback}

variable {ι : Type} [DecidableEq ι] [Fintype ι] {baseLoop : ι} {ioLoops : List ι} {delay clock : Nat}
  {count : UInt64} {labels : List (Label ι)} {σ : System ι}
  {order : List (List Byte × List Byte) → List (List Byte × List Byte)}

/-- **In every run** of the server, whatever its threads and the kernel do: where one thread sends the
responses of a connection, the bytes that have reached the kernel are read as the first of these
responses, in their order. -/
theorem wire_answered
    (hrun : Machine.run System.step (System.start baseLoop ioLoops delay clock count) labels = .ok σ)
    {c : Nat} {sender : ι} {responses : List HttpResponse}
    (hresponses : ∀ res ∈ responses, Delimited order res)
    (hsent : σ.world.accepted c = responses.map fun res => (sender, res.dump order)) :
    (reader.messages (σ.world.wire c)).1 <+: responses.map (parts order) := by
  have hinv : StreamInv c σ :=
    Machine.run_inv (fun _ _ _ hinv _ hstep => step_streamInv hinv hstep)
      (start_streamInv baseLoop ioLoops delay clock count)
      (Machine.along_of_forall (fun _ _ => trivial) labels) hrun
  have hown : ∀ p ∈ σ.world.sent c, p.1 = sender := by
    intro p hp
    have hprefix := hinv.ordered.prefix p.1
    have hmem := hprefix.subset (Relay.mem_of hp)
    obtain ⟨q, hq, hif⟩ := List.mem_filterMap.mp hmem
    split_ifs at hif with hsame
    change q ∈ σ.world.accepted c at hq
    rw [hsent] at hq
    obtain ⟨res, -, rfl⟩ := List.mem_map.mp hq
    exact hsame.symm
  have haccepted : Relay.of sender (σ.world.accepted c) = responses.map (dump · order) := by
    rw [hsent, Relay.of_eq_map]
    · rw [List.map_map]
      rfl
    · intro p hp
      obtain ⟨res, -, rfl⟩ := List.mem_map.mp hp
      rfl
  have hprefix : (σ.world.sent c).map Prod.snd <+: responses.map (dump · order) := by
    rw [← Relay.of_eq_map hown, ← haccepted]
    exact hinv.ordered.prefix sender
  have hwire : σ.world.wire c <+: responses.flatMap (dump · order) := by
    obtain ⟨more, hmore⟩ := hprefix
    refine (List.prefix_append _ (σ.world.conns c).outputBuffer.readable).trans ?_
    rw [hinv.stream, List.flatMap_def, ← hmore, List.flatten_append]
    exact List.prefix_append _ _
  obtain ⟨more, hmore⟩ := hwire
  refine (Messages.Reader.messages_prefix _ more).trans ?_
  rw [hmore]
  exact messages_responses hresponses

def shortResponse (body : List Byte) : HttpResponse := ((HttpResponse.init false).setStatus .ok).setBody body

/-- Two responses are sent; `::write` takes the first whole, and five bytes of the second. -/
def answerRun : List (Label (Fin 1)) :=
  acceptRun ++ [Label.call 0 (.send 0 ((shortResponse (bytes "a")).dump id))] ++ Label.runs 0 1 ++
    [Label.run 0 ⟨none, some 1000, none⟩] ++
    [Label.call 0 (.send 0 ((shortResponse (bytes "b")).dump id))] ++ Label.runs 0 1 ++
    [Label.run 0 ⟨none, some 5, none⟩]

theorem wire_answered_first :
    ∃ σ, Machine.run System.step (System.start (0 : Fin 1) [] 0 0 0) answerRun = .ok σ ∧
      (reader.messages (σ.world.wire 0)).1 <+:
        [(shortResponse (bytes "a")).parts id, (shortResponse (bytes "b")).parts id] ∧
      (reader.messages (σ.world.wire 0)).1.length = 1 := by
  obtain ⟨σ, hrun, hseen⟩ := eq_ok_of_toOption
    (b := ([(0, (shortResponse (bytes "a")).dump id), (0, (shortResponse (bytes "b")).dump id)], 1))
    (f := fun σ : System (Fin 1) =>
      (σ.world.accepted 0, (reader.messages (σ.world.wire 0)).1.length))
    (x := Machine.run System.step (System.start 0 [] 0 0 0) answerRun) (by decide +kernel)
  obtain ⟨haccepted, hlength⟩ := Prod.mk.inj hseen
  have hresponses : ∀ res ∈ [shortResponse (bytes "a"), shortResponse (bytes "b")], Delimited id res := by
    simp only [List.forall_mem_cons]
    exact ⟨⟨nofun, nofun⟩, ⟨nofun, nofun⟩, nofun⟩
  exact ⟨σ, hrun, wire_answered hrun hresponses haccepted, hlength⟩

end HttpServer

end VServer

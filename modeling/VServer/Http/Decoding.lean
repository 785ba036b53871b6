import VServer.Http.RoundTrip
import VServer.Lib.TextLines

/-!
# Responses are decodable

A reader that cuts a response at its first empty line and then into lines gets back what `dump` wrote:
the status line, the generated headers, the added ones in whatever order the map is walked, and the
body, which may hold empty lines of its own. `dump` does not look at the names of the added headers:
each of the generated fields is the only one of its name exactly when none of that name was added.
-/

namespace VServer

open Http

/-- A header whose name ends at its colon and whose line ends where `dump` ends it. -/
def PlainHeader (p : List Byte × List Byte) : Prop :=
  (∀ c ∈ p.1, c ≠ CR ∧ c ≠ LF ∧ c ≠ 58) ∧ ∀ c ∈ p.2, c ≠ CR ∧ c ≠ LF

instance : DecidablePred PlainHeader := fun p =>
  inferInstanceAs (Decidable ((∀ c ∈ p.1, c ≠ CR ∧ c ≠ LF ∧ c ≠ 58) ∧ ∀ c ∈ p.2, c ≠ CR ∧ c ≠ LF))

namespace HttpResponse

/-- A call of a setter. -/
inductive Setter where
  | setVersion (version : Version)
  | setStatus (code : StatusCode)
  | setBody (body : List Byte)
  | addHeader (key value : List Byte)
  | setCloseConnection (on : Bool)
  deriving DecidableEq, Repr

def call (res : HttpResponse) : Setter → HttpResponse
  | .setVersion version => res.setVersion version
  | .setStatus code => res.setStatus code
  | .setBody body => res.setBody body
  | .addHeader key value => res.addHeader key value
  | .setCloseConnection on => res.setCloseConnection on

/-- The headers that the calls add, in their order. -/
def added (calls : List Setter) : List (List Byte × List Byte) :=
  calls.filterMap fun
    | .addHeader key value => some (key, value)
    | _ => none

/-- A response that was made and filled in. -/
def made (close : Bool) (calls : List Setter) : HttpResponse := calls.foldl call (init close)

theorem headers_foldl_call (calls : List Setter) (res : HttpResponse) :
    (calls.foldl call res).headers = Assoc.insertAll res.headers (added calls) := by
  induction calls generalizing res with
  | nil => rfl
  | cons setter calls ih =>
    rw [List.foldl_cons, ih]
    cases setter <;> rfl

theorem headers_made (close : Bool) (calls : List Setter) :
    (made close calls).headers = Assoc.insertAll [] (added calls) := headers_foldl_call calls _

/-! ## The reader -/

def statusLine (res : HttpResponse) : List Byte :=
  res.getVersionMessage ++ [32] ++ numberText res.statusCode.toNat ++ [32] ++ res.getStatusMessage

/-- A field: the name up to the first colon, and what is behind the colon and a blank. -/
def field (line : List Byte) : Option (List Byte × List Byte) :=
  match line.dropWhile (· ≠ 58) with
  | 58 :: 32 :: value => some (line.takeWhile (· ≠ 58), value)
  | _ => none

/-- The status line, the fields and the body. -/
def decode (text : List Byte) : Option (List Byte × List (List Byte × List Byte) × List Byte) := do
  let (head, body) ← TextLines.cutBlank CR LF text
  match TextLines.split CR LF head with
  | [] => none
  | status :: lines => do
    let fields ← lines.mapM field
    return (status, fields, body)

def fieldText (p : List Byte × List Byte) : List Byte := p.1 ++ [58, 32] ++ p.2

theorem field_fieldText {p : List Byte × List Byte} (hp : PlainHeader p) : field (fieldText p) = some p := by
  have hname : ∀ c ∈ p.1, (decide (c ≠ 58)) = true := fun c hc => decide_eq_true (hp.1 c hc).2.2
  have hstop : List.takeWhile (fun c : Byte => decide (c ≠ 58)) ([58, 32] ++ p.2) = [] := rfl
  have hrest : List.dropWhile (fun c : Byte => decide (c ≠ 58)) ([58, 32] ++ p.2) = [58, 32] ++ p.2 := rfl
  unfold field fieldText
  rw [List.append_assoc, List.dropWhile_append_of_pos hname, hrest,
    List.takeWhile_append_of_pos hname, hstop, List.append_nil]
  rfl

theorem mapM_field {fields : List (List Byte × List Byte)} (h : ∀ p ∈ fields, PlainHeader p) :
    (fields.map fieldText).mapM field = some fields := by
  induction fields with
  | nil => rfl
  | cons p fields ih =>
    obtain ⟨hp, hrest⟩ := List.forall_mem_cons.mp h
    rw [List.map_cons, List.mapM_cons, field_fieldText hp, ih hrest]
    rfl

theorem filterMap_field {fields : List (List Byte × List Byte)} (h : ∀ p ∈ fields, PlainHeader p) :
    (fields.map fieldText).filterMap field = fields := by
  induction fields with
  | nil => rfl
  | cons p fields ih =>
    obtain ⟨hp, hrest⟩ := List.forall_mem_cons.mp h
    rw [List.map_cons, List.filterMap_cons_some (field_fieldText hp), ih hrest]

theorem cr_notMem_fieldText {p : List Byte × List Byte} (hp : PlainHeader p) : CR ∉ fieldText p := by
  intro hcr
  rcases List.mem_append.mp hcr with hcr | hcr
  · rcases List.mem_append.mp hcr with hcr | hcr
    · exact (hp.1 CR hcr).1 rfl
    · revert hcr
      decide
  · exact (hp.2 CR hcr).1 rfl

theorem readHead_fields {fields : List (List Byte × List Byte)} (h : ∀ p ∈ fields, PlainHeader p)
    (text : List Byte) :
    TextLines.readHead CR LF (fields.flatMap line ++ text) =
      (TextLines.readHead CR LF text).map fun r => (fields.map fieldText ++ r.1, r.2) := by
  induction fields with
  | nil => simp
  | cons p fields ih =>
    obtain ⟨hp, hrest⟩ := List.forall_mem_cons.mp h
    have hne : CR ≠ LF := by decide
    have hfirst : (p :: fields).flatMap line ++ text =
        fieldText p ++ CR :: LF :: (fields.flatMap line ++ text) := by
      have hcolon : bytes ": " = [58, 32] := rfl
      simp [line, fieldText, hcolon]
    have hnonempty : fieldText p ≠ [] := by simp [fieldText]
    rw [hfirst, TextLines.readHead_cons hne (cr_notMem_fieldText hp) hnonempty, ih hrest,
      Option.map_map]
    rfl

variable (res : HttpResponse)

theorem plain_numberText (n : Nat) : ∀ c ∈ numberText n, c ≠ CR ∧ c ≠ LF := by
  intro c hc
  have hdigit := isdigit_of_mem_numberText hc
  constructor
  all_goals
    rintro rfl
    revert hdigit
    decide

theorem plain_generated : ∀ p ∈ res.generated, PlainHeader p := by
  unfold generated
  split
  · decide +kernel
  · intro p hp
    rcases List.mem_cons.mp hp with rfl | hp
    · have hname : ∀ c ∈ bytes "Content-Length", c ≠ CR ∧ c ≠ LF ∧ c ≠ 58 := by decide +kernel
      exact ⟨hname, plain_numberText _⟩
    · rw [List.mem_singleton.mp hp]
      decide +kernel

theorem cr_notMem_statusLine : CR ∉ res.statusLine := by
  have hversion : CR ∉ res.getVersionMessage := by
    unfold getVersionMessage
    split <;> decide
  have hcode : CR ∉ numberText res.statusCode.toNat := fun hcr => (plain_numberText _ CR hcr).1 rfl
  have hstatus : CR ∉ res.getStatusMessage := by
    unfold getStatusMessage
    split <;> decide
  have hblank : CR ∉ ([32] : List Byte) := by decide
  simp only [statusLine, List.mem_append, hversion, hcode, hstatus, hblank, or_self, not_false_eq_true]

theorem statusLine_ne_nil : res.statusLine ≠ [] := by simp [statusLine]

theorem readHead_dump (order : List (List Byte × List Byte) → List (List Byte × List Byte)) :
    TextLines.readHead CR LF (res.dump order) =
      (TextLines.readHead CR LF ((order res.headers).flatMap line ++ CR :: LF :: res.body)).map
        fun r => (res.statusLine :: (res.generated.map fieldText ++ r.1), r.2) := by
  have hne : CR ≠ LF := by decide
  have htext : res.dump order = res.statusLine ++ CR :: LF :: (res.generated.flatMap line ++
      ((order res.headers).flatMap line ++ CR :: LF :: res.body)) := by
    simp [dump, statusLine]
  rw [htext, TextLines.readHead_cons hne res.cr_notMem_statusLine res.statusLine_ne_nil,
    readHead_fields res.plain_generated, Option.map_map]
  rfl

/-- **What `dump` wrote is read back.** -/
theorem decode_dump {order : List (List Byte × List Byte) → List (List Byte × List Byte)}
    (h : ∀ p ∈ order res.headers, PlainHeader p) :
    decode (res.dump order) = some (res.statusLine, res.generated ++ order res.headers, res.body) := by
  have hhead := res.readHead_dump order
  rw [readHead_fields h, TextLines.readHead_blank] at hhead
  obtain ⟨head, hcut, hsplit⟩ := TextLines.cutBlank_of_readHead hhead
  have hfields : ∀ p ∈ res.generated ++ order res.headers, PlainHeader p := by
    intro p hp
    exact (List.mem_append.mp hp).elim (res.plain_generated p) (h p)
  have hmap : (res.generated.map fieldText ++ ((order res.headers).map fieldText ++ [])).mapM field =
      some (res.generated ++ order res.headers) := by
    rw [List.append_nil, ← List.map_append, mapM_field hfields]
  rw [decode, hcut]
  simp only [Option.bind_eq_bind, Option.bind_some, hsplit, hmap]
  rfl

/-! ## The fields of the response -/

/-- The values of a field, in their order. -/
def values (name : List Byte) (fields : List (List Byte × List Byte)) : List (List Byte) :=
  (fields.filter fun p => p.1 = name).map Prod.snd

theorem values_append (name : List Byte) (fields more : List (List Byte × List Byte)) :
    values name (fields ++ more) = values name fields ++ values name more := by
  simp [values]

theorem values_eq_nil_iff {name : List Byte} {fields : List (List Byte × List Byte)} :
    values name fields = [] ↔ name ∉ fields.map Prod.fst := by
  rw [values, List.map_eq_nil_iff, List.filter_eq_nil_iff]
  constructor
  · intro h hmem
    obtain ⟨p, hp, rfl⟩ := List.mem_map.mp hmem
    exact h p hp (decide_eq_true rfl)
  · intro h p hp hname
    exact h (of_decide_eq_true hname ▸ List.mem_map_of_mem hp)

theorem values_connection :
    values (bytes "Connection") res.generated =
      [if res.closeConnection then bytes "close" else bytes "Keep-Alive"] := by
  have hother : ¬bytes "Content-Length" = bytes "Connection" := by decide
  unfold generated
  split <;> simp [values, hother]

theorem values_contentLength (h : res.closeConnection = false) :
    values (bytes "Content-Length") res.generated = [numberText res.body.length] := by
  have hother : ¬bytes "Connection" = bytes "Content-Length" := by decide
  simp [generated, h, values, hother]

theorem values_eq_singleton_iff {name value : List Byte} {own more : List (List Byte × List Byte)}
    (hown : values name own = [value]) :
    values name (own ++ more) = [value] ↔ name ∉ more.map Prod.fst := by
  rw [values_append, hown, List.singleton_append, List.cons_eq_cons, values_eq_nil_iff]
  exact and_iff_right rfl

/-- **Responses are decodable**, however the map of the headers is walked: the reader gets the status
line, the generated headers, the first value that was added under each name, and the body. The response
has one `Connection` field, and when it is kept alive one `Content-Length` field with the length of the
body, exactly when none of that name was added. -/
theorem response_decodable (close : Bool) (calls : List Setter)
    (hplain : ∀ p ∈ added calls, PlainHeader p)
    {order : List (List Byte × List Byte) → List (List Byte × List Byte)}
    (horder : ∀ headers, (order headers).Perm headers) :
    ∃ more, decode ((made close calls).dump order) =
        some ((made close calls).statusLine, (made close calls).generated ++ more,
          (made close calls).body) ∧
      (more.map Prod.fst).Nodup ∧
      (∀ name value, (name, value) ∈ more ↔ (added calls).lookup name = some value) ∧
      (values (bytes "Connection") ((made close calls).generated ++ more) =
          [if (made close calls).closeConnection then bytes "close" else bytes "Keep-Alive"] ↔
        bytes "Connection" ∉ (added calls).map Prod.fst) ∧
      ((made close calls).closeConnection = false →
        decimal (numberText (made close calls).body.length) = (made close calls).body.length ∧
        (values (bytes "Content-Length") ((made close calls).generated ++ more) =
            [numberText (made close calls).body.length] ↔
          bytes "Content-Length" ∉ (added calls).map Prod.fst)) := by
  generalize hres : made close calls = res
  have hheaders : res.headers = Assoc.insertAll [] (added calls) := by rw [← hres, headers_made]
  have hperm : (order res.headers).Perm (Assoc.insertAll [] (added calls)) := by
    rw [← hheaders]
    exact horder _
  have hmem : ∀ name value, (name, value) ∈ order res.headers ↔ (added calls).lookup name = some value :=
    fun name value => hperm.mem_iff.trans Assoc.mem_insertAll
  have hnames : ∀ name, name ∈ (order res.headers).map Prod.fst ↔ name ∈ (added calls).map Prod.fst := by
    intro name
    rw [(hperm.map Prod.fst).mem_iff, Assoc.mem_keys_insertAll]
  have hdecode := res.decode_dump fun p hp =>
    hplain p (Assoc.mem_of_mem_insertAll (hperm.mem_iff.mp hp))
  refine ⟨order res.headers, hdecode, ?_, hmem, ?_, fun hclose => ⟨decimal_numberText _, ?_⟩⟩
  · exact (hperm.map Prod.fst).nodup_iff.mpr (Assoc.nodup_insertAll (m := []) List.nodup_nil _)
  · rw [values_eq_singleton_iff res.values_connection, hnames]
  · rw [values_eq_singleton_iff (res.values_contentLength hclose), hnames]

/-- A body with an empty line in it, and a name that is added twice. -/
def twoEntries : List Setter :=
  [.setStatus .ok, .addHeader (bytes "A") (bytes "1"), .addHeader (bytes "B") (bytes "x: y"),
    .addHeader (bytes "A") (bytes "2"), .setBody (bytes "a\r\n\r\nb")]

theorem response_decodable_two :
    ∃ more, decode ((made false twoEntries).dump List.reverse) =
        some (bytes "HTTP/1.1 200 Ok", (made false twoEntries).generated ++ more,
          bytes "a\r\n\r\nb") ∧
      (bytes "A", bytes "1") ∈ more ∧
      values (bytes "Connection") ((made false twoEntries).generated ++ more) = [bytes "Keep-Alive"] ∧
      values (bytes "Content-Length") ((made false twoEntries).generated ++ more) = [bytes "6"] := by
  obtain ⟨more, hdecode, -, hmem, hconnection, hlength⟩ :=
    response_decodable false twoEntries (by decide +kernel) List.reverse_perm
  exact ⟨more, hdecode, (hmem _ _).mpr (by decide), hconnection.mpr (by decide +kernel),
    (hlength rfl).2.mpr (by decide +kernel)⟩

/-- **Two `Connection` fields.** Nothing keeps the application from adding a field that `dump`
generates. -/
theorem connection_added :
    PlainHeader (bytes "Connection", bytes "close") ∧
      ∃ status fields body,
        decode ((made false [.addHeader (bytes "Connection") (bytes "close")]).dump id) =
            some (status, fields, body) ∧
          values (bytes "Connection") fields = [bytes "Keep-Alive", bytes "close"] :=
  ⟨by decide +kernel, _, _, _, rfl, by decide⟩

end HttpResponse

end VServer

import VServer.Http.Wire
import VServer.Http.Response

/-!
# A request is read as it was written

`round_trip`: whatever request a client writes, `parse` reads its method, path, version and body, and
maps in which the first parameter and the first header of a name count. The body is announced by its
length in decimal (`stoi_numberText`), or it goes to the end of the message.
-/

namespace VServer

open Http

namespace Http

theorem toNat_toUInt8 {c : Char} (hc : c.isDigit = true) :
    c.toUInt8.toNat = c.toNat ∧ 48 ≤ c.toNat ∧ c.toNat ≤ 57 := by
  obtain ⟨hlow, hhigh⟩ := Char.isDigit_iff_toNat.mp hc
  have hrange : 48 ≤ c.toNat ∧ c.toNat ≤ 57 := ⟨hlow, hhigh⟩
  refine ⟨?_, hrange⟩
  show c.val.toUInt8.toNat = c.val.toNat
  rw [UInt32.toNat_toUInt8]
  exact Nat.mod_eq_of_lt (lt_of_le_of_lt hrange.2 (by decide))

theorem isDigit_of_mem {n : Nat} {c : Char} (hc : c ∈ Nat.toDigits 10 n) : c.isDigit = true :=
  Nat.isDigit_of_mem_toDigits (by decide) (by decide) hc

theorem isdigit_of_mem_numberText {n : Nat} {c : Byte} (hc : c ∈ numberText n) : isdigit c = true := by
  obtain ⟨d, hd, rfl⟩ := List.mem_map.mp hc
  obtain ⟨heq, hlow, hhigh⟩ := toNat_toUInt8 (isDigit_of_mem hd)
  simp only [isdigit, UInt8.le_iff_toNat_le, decide_eq_true_eq, heq]
  exact ⟨hlow, hhigh⟩

theorem decimal_numberText (n : Nat) : decimal (numberText n) = n := by
  have hfold : ∀ (l : List Char) (m : Nat), (∀ c ∈ l, c.isDigit = true) →
      (l.map Char.toUInt8).foldl (fun n c => 10 * n + (c.toNat - 48)) m = Nat.ofDigitChars 10 l m := by
    intro l
    induction l with
    | nil => exact fun m _ => by simp
    | cons c l ih =>
      intro m hl
      obtain ⟨hc, hl⟩ := List.forall_mem_cons.mp hl
      rw [List.map_cons, List.foldl_cons, (toNat_toUInt8 hc).1, ih _ hl, Nat.ofDigitChars_cons]
      rfl
  rw [decimal, numberText, hfold _ _ fun c => isDigit_of_mem, Nat.ofDigitChars_ten_toDigits]

theorem length_numberText_le {n e : Nat} (he : 0 < e) (h : n < 10 ^ e) : (numberText n).length ≤ e := by
  rw [numberText, List.length_map]
  exact Nat.toDigits_length 10 n e he h

theorem numberText_ne_nil (n : Nat) : numberText n ≠ [] := by
  simp [numberText, Nat.toDigits_ne_nil]

theorem stoi_numberText {n : Nat} (hn : n < 2 ^ 31) : stoi (numberText n) = .ok n := by
  have hdigits : ∀ c ∈ numberText n, isdigit c = true := fun c => isdigit_of_mem_numberText
  have hdecimal := decimal_numberText n
  cases htext : numberText n with
  | nil =>
    have hnil : (Nat.toDigits 10 n).map Char.toUInt8 = [] := htext
    exact absurd (List.map_eq_nil_iff.mp hnil) Nat.toDigits_ne_nil
  | cons c cs =>
    rw [htext] at hdigits hdecimal
    have hc := hdigits c List.mem_cons_self
    have hspace : isspace c = false := by
      simp only [isdigit, isspace, UInt8.le_iff_toNat_le, ← UInt8.toNat_inj, decide_eq_true_eq,
        decide_eq_false_iff_not] at hc ⊢
      simp at hc ⊢
      omega
    have hsign : c ≠ 45 ∧ c ≠ 43 := by
      constructor <;> rintro rfl <;> simp [isdigit] at hc
    have hall : (c :: cs).takeWhile isdigit = c :: cs := List.takeWhile_eq_self_iff.mpr hdigits
    have hrange : -2 ^ 31 ≤ (n : Int) ∧ (n : Int) < 2 ^ 31 := by omega
    unfold stoi
    rw [List.dropWhile_cons_of_neg (by simp [hspace])]
    dsimp only
    split
    · rename_i heq
      exact absurd (List.cons.inj heq).1 hsign.1
    · rename_i heq
      exact absurd (List.cons.inj heq).1 hsign.2
    · rw [hall, hdecimal, if_neg (List.cons_ne_nil _ _), if_neg Bool.false_ne_true, if_pos hrange]

end Http

namespace Wire

/-- One header announces the length of the body in decimal, and anything may follow the body; or no
header has that name, and the body goes to the end of the message. -/
def Delimits (w : Wire) (trailing : List Byte) : Prop :=
  (∃ h, w.heads.filter (fun h => h.key = bytes "Content-Length") = [h] ∧
      h.value = numberText w.body.length) ∨
    (∀ h ∈ w.heads, h.key ≠ bytes "Content-Length") ∧ trailing = []

theorem lookup_headers (heads : List WireHeader) (key : List Byte) :
    (heads.map fun h => (h.key, h.value)).lookup key =
      (heads.filter fun h => h.key = key).head?.map (·.value) := by
  induction heads with
  | nil => rfl
  | cons h heads ih =>
    by_cases hkey : h.key = key
    · simp [hkey]
    · have hother : (key == h.key) = false := by simpa using Ne.symm hkey
      rw [List.map_cons, List.lookup, hother, ih, List.filter_cons_of_neg (by simpa using hkey)]

theorem Delimits.announces {w : Wire} {trailing : List Byte} (hw : w.Delimits trailing)
    (hlength : w.body.length < 2 ^ 31) : w.Announces trailing := by
  have hlookup : w.headerMap.lookup (bytes "Content-Length") =
      (w.heads.filter fun h => h.key = bytes "Content-Length").head?.map (·.value) := by
    rw [headerMap, Assoc.lookup_insertAll, lookup_headers]
  unfold Announces
  rw [hlookup]
  rcases hw with ⟨h, hfilter, hvalue⟩ | ⟨hnone, htrailing⟩
  · rw [hfilter, List.head?_cons, Option.map_some, hvalue]
    exact stoi_numberText hlength
  · rw [List.filter_eq_nil_iff.mpr fun h hh => by simpa using hnone h hh]
    exact htrailing

/-- **A request is read as it was written.** -/
theorem round_trip (w : Wire) (lead trailing beyond : List Byte) (hw : w.WellFormed)
    (hlead : ∀ c ∈ lead, Scanner.IsLead c) (hbody : w.Delimits trailing)
    (hlength : (lead ++ w.text ++ trailing).length < 2 ^ 31) :
    ∃ req, HttpRequest.fresh.parse (lead ++ w.text ++ trailing ++ beyond)
        (lead ++ w.text ++ trailing).length = .ok req ∧
      req.method = some w.method ∧ req.path = w.path ∧ req.version = some w.version ∧
      req.body = w.body ∧ (∀ key, req.params.lookup key = w.params.lookup key) ∧
      ∀ key, req.heads.lookup key = (w.heads.map fun h => (h.key, h.value)).lookup key := by
  have hshort : w.body.length < 2 ^ 31 := by
    simp only [text, List.length_append] at hlength
    omega
  obtain ⟨s, hs, hcore⟩ := hw.reads_core hlead
  obtain ⟨t, state, htext, ht⟩ := Scanner.read_body_text (hbody.announces hshort) hs
  refine ⟨w.request state, ?_, rfl, rfl, rfl, rfl, fun key => Assoc.lookup_insertAll _ key,
    fun key => Assoc.lookup_insertAll _ key⟩
  have hsplit : lead ++ w.text ++ trailing = (lead ++ w.core) ++ (blankLine ++ (w.body ++ trailing)) := by
    simp [text]
  rw [parse_eq_read, hsplit, hcore.read, htext, ← ht]
  rfl

/-- A request with parameters of one name, an empty header, a body and bytes behind it. -/
def postWire : Wire where
  method := .post
  gap := bytes "  "
  path := bytes "/add"
  params := [(bytes "a", bytes "1"), (bytes "a", bytes "2")]
  gap' := bytes " "
  version := .http11
  heads := [⟨bytes "Host", [], []⟩, ⟨bytes "Content-Length", bytes " ", bytes "2"⟩]
  body := bytes "ok"

theorem postWire_wellFormed : postWire.WellFormed where
  method := by decide
  gap := ⟨by decide, by decide +kernel⟩
  path_slash := by decide
  path := by decide +kernel
  params := List.forall_mem_cons.mpr ⟨⟨by decide, by decide +kernel, by decide, by decide +kernel⟩,
    List.forall_mem_cons.mpr ⟨⟨by decide, by decide +kernel, by decide, by decide +kernel⟩, nofun⟩⟩
  gap' := ⟨by decide, by decide +kernel⟩
  version := by decide
  heads := by
    refine List.forall_mem_cons.mpr ⟨⟨by decide, by decide +kernel, ?_, nofun, nofun, nofun⟩,
      List.forall_mem_cons.mpr ⟨⟨by decide, by decide +kernel, ?_, ?_, by decide +kernel, ?_⟩, nofun⟩⟩
    · rintro c ⟨⟩
      rfl
    · rintro c ⟨⟩
      rfl
    · decide +kernel
    · rintro c ⟨⟩
      rfl

theorem round_trip_post : ∃ req, HttpRequest.fresh.parse ([CR, LF] ++ postWire.text ++ bytes "GET" ++ [0])
      ([CR, LF] ++ postWire.text ++ bytes "GET").length = .ok req ∧
    req.method = some .post ∧ req.path = bytes "/add" ∧ req.version = some .http11 ∧
    req.body = bytes "ok" ∧ (∀ key, req.params.lookup key = postWire.params.lookup key) ∧
    ∀ key, req.heads.lookup key = (postWire.heads.map fun h => (h.key, h.value)).lookup key :=
  round_trip postWire [CR, LF] (bytes "GET") [0] postWire_wellFormed (by decide +kernel)
    (.inl ⟨_, rfl, rfl⟩) (by decide)

end Wire

end VServer

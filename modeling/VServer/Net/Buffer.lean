import VServer.Basic
import VServer.Lib.Window

/-!
# The byte buffer

`Buffer` of `Buffer.h` and `Buffer.cc`: one block of storage with a read and a write position. The
readable bytes lie between the two, free space lies behind the write position, and what was
retrieved leaves free space in front of the read position that `makeSpace` takes back. Sizes are
`size_t` in the source; here they are natural numbers, so nothing wraps.

`Buffer.Inv` is the representation invariant. Each operation has one lemma (`…_spec`) that says it
returns, keeps the invariant and what it does to the readable bytes; everything else goes through
those lemmas.
-/

namespace VServer

open Storage

structure Buffer where
  /-- `m_buffer` -/
  buffer : List Byte
  pRead : Nat
  pWrite : Nat
  deriving DecidableEq, Repr

namespace Buffer

def kCheapPrepend : Nat := 8
def kInitialSize : Nat := 1024
def kBufferSize : Nat := 65536

/-- `Buffer(initialSize)` -/
def init (initialSize : Nat) : Buffer :=
  ⟨List.replicate (kCheapPrepend + initialSize) 0, kCheapPrepend, kCheapPrepend⟩

variable (b : Buffer)

def readableBytes : Nat := b.pWrite - b.pRead
def writableBytes : Nat := b.buffer.length - b.pWrite
def prependableBytes : Nat := b.pRead

/-- The bytes from `peek()` to `beginWrite()`. -/
def readable : List Byte := window b.buffer b.pRead b.pWrite

/-- `std::copy` into the storage; past its end nothing is defined. -/
def copyTo (pos : Nat) (src : List Byte) : Except Fault Buffer :=
  match overwrite b.buffer pos src with
  | some buffer => .ok { b with buffer := buffer }
  | none => .error .undefined

def retrieveAll : Buffer := { b with pRead := kCheapPrepend, pWrite := kCheapPrepend }

def retrieve (len : Nat) : Except Fault Buffer :=
  if len ≤ b.readableBytes then
    if len < b.readableBytes then .ok { b with pRead := b.pRead + len } else .ok b.retrieveAll
  else .error (.assertion .retrieve)

def retrieveAsString (len : Nat) : Except Fault (List Byte × Buffer) :=
  if len ≤ b.readableBytes then do
    let result := window b.buffer b.pRead (b.pRead + len)
    let b' ← b.retrieve len
    return (result, b')
  else .error (.assertion .retrieve)

def retrieveAllAsString : Except Fault (List Byte × Buffer) := b.retrieveAsString b.readableBytes

def makeSpace (len : Nat) : Except Fault Buffer :=
  if b.writableBytes + b.prependableBytes < len + kCheapPrepend then
    .ok { b with buffer := resize b.buffer (b.pWrite + len) 0 }
  else if kCheapPrepend < b.pRead then do
    -- enough room once the readable bytes are moved to the front
    let moved ← b.copyTo kCheapPrepend b.readable
    let b' := { moved with pRead := kCheapPrepend, pWrite := kCheapPrepend + b.readableBytes }
    if b.readableBytes = b'.readableBytes then .ok b' else .error (.assertion .makeSpaceReadable)
  else .error (.assertion .makeSpaceSlide)

def ensureWritableBytes (len : Nat) : Except Fault Buffer := do
  let b' ← if b.writableBytes < len then b.makeSpace len else .ok b
  if len ≤ b'.writableBytes then .ok b' else .error (.assertion .ensureWritableBytes)

def append (data : List Byte) : Except Fault Buffer := do
  let b' ← b.ensureWritableBytes data.length
  let b'' ← b'.copyTo b'.pWrite data
  return { b'' with pWrite := b''.pWrite + data.length }

/-- The bytes the two `iovec`s of `readOnece` offer: the free space behind the write position, and
the block on the stack when that space is smaller than the block. -/
def offered : Nat :=
  b.writableBytes + if b.writableBytes < kBufferSize then kBufferSize else 0

/-- `readOnece` when `readv` returned the bytes `data`: the first ones are already in the storage
behind the write position, the rest is on the stack. -/
def readOnece (data : List Byte) : Except Fault Buffer := do
  let filled ← b.copyTo b.pWrite (data.take b.writableBytes)
  if data.length ≤ b.writableBytes then
    return { filled with pWrite := filled.pWrite + data.length }
  else
    let full := { filled with pWrite := filled.buffer.length }
    full.append (data.drop b.writableBytes)

/-! ## The representation invariant -/

/-- `kCheapPrepend <= m_pRead <= m_pWrite <= m_buffer.size()` -/
structure Inv : Prop where
  prepend_le : kCheapPrepend ≤ b.pRead
  read_le : b.pRead ≤ b.pWrite
  write_le : b.pWrite ≤ b.buffer.length

variable {b}

theorem Inv.length_readable (h : b.Inv) : b.readable.length = b.readableBytes :=
  length_window h.write_le

theorem inv_of_message (msg : List Byte) :
    Inv ⟨List.replicate kCheapPrepend 0 ++ msg, kCheapPrepend, kCheapPrepend + msg.length⟩ where
  prepend_le := Nat.le_refl _
  read_le := Nat.le_add_right _ _
  write_le := by simp

theorem init_inv (initialSize : Nat) : (init initialSize).Inv :=
  ⟨le_refl _, le_refl _, by simp [init]⟩

@[simp] theorem init_readable (initialSize : Nat) : (init initialSize).readable = [] := by
  simp [readable, init]

theorem retrieveAll_inv (h : b.Inv) : b.retrieveAll.Inv :=
  ⟨le_refl _, le_refl _, le_trans h.prepend_le (le_trans h.read_le h.write_le)⟩

@[simp] theorem retrieveAll_readable : b.retrieveAll.readable = [] := by
  simp [readable, retrieveAll]

theorem copyTo_spec (b : Buffer) (pos : Nat) (src : List Byte) (hfit : pos + src.length ≤ b.buffer.length) :
    ∃ buffer, b.copyTo pos src = .ok { b with buffer := buffer } ∧
      overwrite b.buffer pos src = some buffer := by
  refine ⟨_, ?_, overwrite_eq_some hfit⟩
  rw [copyTo, overwrite_eq_some hfit]

theorem retrieve_spec (h : b.Inv) {len : Nat} (hlen : len ≤ b.readable.length) :
    ∃ b', b.retrieve len = .ok b' ∧ b'.Inv ∧ b'.readable = b.readable.drop len := by
  rw [h.length_readable] at hlen
  rw [retrieve, if_pos hlen]
  split_ifs with hlt
  · refine ⟨_, rfl, ⟨?_, ?_, h.write_le⟩, (drop_window _ _ _ _).symm⟩
    · exact le_trans h.prepend_le (Nat.le_add_right _ _)
    · show b.pRead + len ≤ b.pWrite
      rw [readableBytes] at hlt
      omega
  · refine ⟨_, rfl, retrieveAll_inv h, ?_⟩
    rw [retrieveAll_readable, List.drop_of_length_le (by rw [h.length_readable]; omega)]

theorem retrieveAsString_spec (h : b.Inv) {len : Nat} (hlen : len ≤ b.readable.length) :
    ∃ b', b.retrieveAsString len = .ok (b.readable.take len, b') ∧ b'.Inv ∧
      b'.readable = b.readable.drop len := by
  obtain ⟨b', hret, hinv, hread⟩ := retrieve_spec h hlen
  rw [h.length_readable] at hlen
  have hfront : window b.buffer b.pRead (b.pRead + len) = b.readable.take len := by
    rw [readableBytes] at hlen
    have := h.read_le
    exact (take_window _ _ _ _ (by omega)).symm
  refine ⟨b', ?_, hinv, hread⟩
  rw [retrieveAsString, if_pos hlen, hret, hfront]
  rfl

theorem slide_spec (h : b.Inv) :
    ∃ buffer, b.copyTo kCheapPrepend b.readable = .ok { b with buffer := buffer } ∧
      buffer.length = b.buffer.length ∧
      window buffer kCheapPrepend (kCheapPrepend + b.readableBytes) = b.readable := by
  have hlen := h.length_readable
  have hprepend := h.prepend_le
  have hread := h.read_le
  have hwrite := h.write_le
  obtain ⟨buffer, hcopy, hover⟩ := copyTo_spec b kCheapPrepend b.readable
    (by rw [hlen, readableBytes]; omega)
  refine ⟨buffer, hcopy, length_overwrite hover, ?_⟩
  rw [← hlen]
  exact window_overwrite hover

theorem makeSpace_spec (h : b.Inv) {len : Nat} (hshort : b.writableBytes < len) :
    ∃ b', b.makeSpace len = .ok b' ∧ b'.Inv ∧ b'.readable = b.readable ∧ len ≤ b'.writableBytes := by
  have hprepend := h.prepend_le
  have hread := h.read_le
  have hwrite := h.write_le
  rw [makeSpace]
  split_ifs with hgrow hslide
  · refine ⟨_, rfl, ⟨hprepend, hread, ?_⟩, ?_, ?_⟩
    · rw [length_resize]
      exact Nat.le_add_right _ _
    · exact window_resize 0 hwrite (Nat.le_add_right _ _)
    · show len ≤ (resize b.buffer (b.pWrite + len) 0).length - b.pWrite
      rw [length_resize]
      omega
  · obtain ⟨buffer, hcopy, hlen, hkept⟩ := slide_spec h
    rw [writableBytes, prependableBytes] at hgrow
    refine ⟨⟨buffer, kCheapPrepend, kCheapPrepend + b.readableBytes⟩, ?_, ⟨le_refl _, ?_, ?_⟩,
      hkept, ?_⟩
    · rw [hcopy]
      exact if_pos (Nat.add_sub_cancel_left _ _).symm
    · exact Nat.le_add_right _ _
    · show kCheapPrepend + b.readableBytes ≤ buffer.length
      rw [readableBytes]
      omega
    · show len ≤ buffer.length - (kCheapPrepend + b.readableBytes)
      rw [readableBytes]
      omega
  · -- the free space is the whole slack, so with no prefix to take back it would have been enough
    rw [writableBytes, prependableBytes] at hgrow
    rw [writableBytes] at hshort
    omega

theorem ensureWritableBytes_spec (h : b.Inv) (len : Nat) :
    ∃ b', b.ensureWritableBytes len = .ok b' ∧ b'.Inv ∧ b'.readable = b.readable ∧
      len ≤ b'.writableBytes := by
  rw [ensureWritableBytes]
  split_ifs with hshort
  · obtain ⟨b', hmake, hinv, hread, hroom⟩ := makeSpace_spec h hshort
    refine ⟨b', ?_, hinv, hread, hroom⟩
    rw [hmake, ok_bind]
    exact if_pos hroom
  · have hroom : len ≤ b.writableBytes := Nat.le_of_not_lt hshort
    refine ⟨b, ?_, h, rfl, hroom⟩
    rw [ok_bind]
    exact if_pos hroom

theorem fill_spec (h : b.Inv) {data : List Byte} (hroom : data.length ≤ b.writableBytes) :
    ∃ buffer, b.copyTo b.pWrite data = .ok { b with buffer := buffer } ∧
      buffer.length = b.buffer.length ∧
      (Buffer.mk buffer b.pRead (b.pWrite + data.length)).Inv ∧
      (Buffer.mk buffer b.pRead (b.pWrite + data.length)).readable = b.readable ++ data := by
  have hwrite := h.write_le
  rw [writableBytes] at hroom
  obtain ⟨buffer, hcopy, hover⟩ := copyTo_spec b b.pWrite data (by omega)
  have hlen := length_overwrite hover
  refine ⟨buffer, hcopy, hlen, ⟨h.prepend_le, ?_, ?_⟩, ?_⟩
  · exact le_trans h.read_le (Nat.le_add_right _ _)
  · show b.pWrite + data.length ≤ buffer.length
    omega
  · show window buffer b.pRead (b.pWrite + data.length) = b.readable ++ data
    rw [← window_append_window h.read_le (Nat.le_add_right _ _), window_overwrite hover,
      window_overwrite_left hover (le_refl _), readable]

theorem append_spec (h : b.Inv) (data : List Byte) :
    ∃ b', b.append data = .ok b' ∧ b'.Inv ∧ b'.readable = b.readable ++ data := by
  obtain ⟨b', hensure, hinv, hread, hroom⟩ := ensureWritableBytes_spec h data.length
  obtain ⟨buffer, hcopy, _, hinv', hread'⟩ := fill_spec hinv hroom
  refine ⟨_, ?_, hinv', by rw [hread', hread]⟩
  rw [append, hensure, ok_bind, hcopy, ok_bind]
  rfl

theorem readOnece_spec (h : b.Inv) (data : List Byte) :
    ∃ b', b.readOnece data = .ok b' ∧ b'.Inv ∧ b'.readable = b.readable ++ data := by
  have htake : (data.take b.writableBytes).length ≤ b.writableBytes := by
    rw [List.length_take]
    exact Nat.min_le_left _ _
  obtain ⟨buffer, hcopy, hlen, hinv, hread⟩ := fill_spec h htake
  rw [readOnece, hcopy, ok_bind]
  split_ifs with hfit
  · rw [List.take_of_length_le hfit] at hinv hread
    exact ⟨_, rfl, hinv, hread⟩
  · -- the free space is full, so the write position is the end of the storage
    have hfull : b.pWrite + (data.take b.writableBytes).length = buffer.length := by
      have := h.write_le
      rw [List.length_take, hlen, writableBytes] at *
      omega
    rw [hfull] at hinv hread
    obtain ⟨b', happend, hinv', hread'⟩ := append_spec hinv (data.drop b.writableBytes)
    refine ⟨b', happend, hinv', ?_⟩
    rw [hread', hread, List.append_assoc, List.take_append_drop]

theorem retrieveAllAsString_spec (h : b.Inv) :
    b.retrieveAllAsString = .ok (b.readable, b.retrieveAll) := by
  have hread := h.read_le
  have hend : b.pRead + (b.pWrite - b.pRead) = b.pWrite := by omega
  rw [retrieveAllAsString, retrieveAsString, if_pos (le_refl _), retrieve, if_pos (le_refl _),
    if_neg (lt_irrefl _), ok_bind, readableBytes, hend]
  rfl

/-! ## The size of the storage -/

theorem copyTo_length {pos : Nat} {src : List Byte} {b' : Buffer} (h : b.copyTo pos src = .ok b') :
    b'.buffer.length = b.buffer.length ∧ b'.pWrite = b.pWrite ∧ b'.pRead = b.pRead := by
  unfold copyTo at h
  cases hover : overwrite b.buffer pos src with
  | none =>
    rw [hover] at h
    cases h
  | some buffer =>
    rw [hover] at h
    cases h
    exact ⟨length_overwrite hover, rfl, rfl⟩

/-- The storage is as long as before, or ends behind the `len` bytes that found no room in it, not even
with the prefix taken back. -/
def Grown (b : Buffer) (len : Nat) (b' : Buffer) : Prop :=
  b'.buffer.length = b.buffer.length ∨
    b.writableBytes + b.prependableBytes < len + kCheapPrepend ∧ b'.buffer.length = b.pWrite + len

theorem makeSpace_grown {len : Nat} {b' : Buffer} (h : b.makeSpace len = .ok b') : b.Grown len b' := by
  unfold makeSpace at h
  split_ifs at h with hgrow hslide
  · cases h
    exact .inr ⟨hgrow, length_resize _ _ _⟩
  · cases hcopy : b.copyTo kCheapPrepend b.readable with
    | error e =>
      rw [hcopy] at h
      cases h
    | ok moved =>
      rw [hcopy, ok_bind] at h
      dsimp only at h
      split_ifs at h
      cases h
      exact .inl (copyTo_length hcopy).1

theorem ensureWritableBytes_grown {len : Nat} {b' : Buffer} (h : b.ensureWritableBytes len = .ok b') :
    b.Grown len b' := by
  have hassert : ∀ b' b'' : Buffer, (if len ≤ b'.writableBytes then Except.ok b'
      else Except.error (Fault.assertion .ensureWritableBytes)) = Except.ok b'' → b' = b'' := by
    intro b' b'' h
    split_ifs at h
    exact Except.ok.inj h
  unfold ensureWritableBytes at h
  split_ifs at h with hshort
  · cases hspace : b.makeSpace len with
    | error e =>
      rw [hspace] at h
      cases h
    | ok grown =>
      rw [hspace, ok_bind] at h
      rw [← hassert grown b' h]
      exact makeSpace_grown hspace
  · rw [ok_bind] at h
    rw [← hassert b b' h]
    exact .inl rfl

theorem append_grown {data : List Byte} {b' : Buffer} (h : b.append data = .ok b') :
    b.Grown data.length b' := by
  rw [append] at h
  cases hensure : b.ensureWritableBytes data.length with
  | error e =>
    rw [hensure] at h
    cases h
  | ok grown =>
    cases hcopy : grown.copyTo grown.pWrite data with
    | error e =>
      rw [hensure, ok_bind, hcopy] at h
      cases h
    | ok filled =>
      rw [hensure, ok_bind, hcopy] at h
      cases h
      have hlength := (copyTo_length hcopy).1
      rcases ensureWritableBytes_grown hensure with hkept | ⟨hgrow, hgrown⟩
      · exact .inl (hlength.trans hkept)
      · exact .inr ⟨hgrow, hlength.trans hgrown⟩

theorem readOnece_grown (hb : b.Inv) {data : List Byte} {b' : Buffer} (h : b.readOnece data = .ok b') :
    b.Grown data.length b' := by
  rw [readOnece] at h
  cases hcopy : b.copyTo b.pWrite (data.take b.writableBytes) with
  | error e =>
    rw [hcopy] at h
    cases h
  | ok filled =>
    rw [hcopy, ok_bind] at h
    obtain ⟨hfilled, -, hread⟩ := copyTo_length hcopy
    split_ifs at h with hfit
    · cases h
      exact .inl hfilled
    · -- the free space is full before the rest is appended, so all that is left is the prefix
      have hwrite := hb.write_le
      have happend := append_grown h
      unfold Grown writableBytes prependableBytes at happend ⊢
      rw [List.length_drop] at happend
      dsimp only at happend
      rw [writableBytes] at hfit
      omega

theorem Grown.le {len : Nat} {b' : Buffer} (h : b.Grown len b') :
    b'.buffer.length ≤ max b.buffer.length (b.pWrite + len) := by
  rcases h with hkept | ⟨-, hgrown⟩
  · exact Nat.le_trans (Nat.le_of_eq hkept) (Nat.le_max_left _ _)
  · exact Nat.le_trans (Nat.le_of_eq hgrown) (Nat.le_max_right _ _)

/-- Where the storage grows, the prefix is shorter than what arrives; so the storage is twice as long as what
is readable then, at most. -/
theorem Grown.le_readable {len : Nat} {b' : Buffer} (h : b.Grown len b') (hb : b.Inv)
    (hread : b'.readableBytes = b.readableBytes + len) :
    b'.buffer.length ≤ max b.buffer.length (2 * b'.readableBytes + kCheapPrepend) := by
  have hle := hb.read_le
  have hbefore : b.readableBytes = b.pWrite - b.pRead := rfl
  unfold Grown prependableBytes at h
  omega

end Buffer

/-! ## Buffers that carry their invariant -/

/-- A buffer with its invariant: `append` and `readOnece` always return one, and a `retrieve` within
the readable bytes does. -/
structure SafeBuffer where
  raw : Buffer
  inv : raw.Inv

namespace SafeBuffer

def init (initialSize : Nat) : SafeBuffer := ⟨.init initialSize, Buffer.init_inv initialSize⟩

/-- The result of an operation that returns and keeps the invariant. -/
def ofResult (r : Except Fault Buffer) (h : ∃ b', r = .ok b' ∧ b'.Inv) : SafeBuffer :=
  match r, h with
  | .ok b', h => ⟨b', by obtain ⟨b, hb, hinv⟩ := h; cases hb; exact hinv⟩
  | .error _, h => absurd h (by rintro ⟨_, h, _⟩; cases h)

variable (b : SafeBuffer)

def readable : List Byte := b.raw.readable

def readableBytes : Nat := b.raw.readableBytes

def append (data : List Byte) : SafeBuffer :=
  ofResult (b.raw.append data) <| by
    obtain ⟨b', h, hinv, -⟩ := Buffer.append_spec b.inv data
    exact ⟨b', h, hinv⟩

def readOnece (data : List Byte) : SafeBuffer :=
  ofResult (b.raw.readOnece data) <| by
    obtain ⟨b', h, hinv, -⟩ := Buffer.readOnece_spec b.inv data
    exact ⟨b', h, hinv⟩

/-- `retrieve(n)` for an `n` clipped to the readable bytes. -/
def retrieve (n : Nat) : SafeBuffer :=
  ofResult (b.raw.retrieve (min n b.raw.readable.length)) <| by
    obtain ⟨b', h, hinv, -⟩ := Buffer.retrieve_spec b.inv (Nat.min_le_right n _)
    exact ⟨b', h, hinv⟩

variable {b}

theorem ofResult_eq {r : Except Fault Buffer} {h : ∃ b', r = .ok b' ∧ b'.Inv} {b' : Buffer}
    (hr : r = .ok b') : (ofResult r h).raw = b' := by
  subst hr
  rfl

theorem readableBytes_eq : b.readableBytes = b.readable.length := b.inv.length_readable.symm

theorem readableBytes_eq_zero : b.readableBytes = 0 ↔ b.readable = [] := by
  rw [readableBytes_eq, List.length_eq_zero_iff]

@[simp] theorem init_readable (initialSize : Nat) : (init initialSize).readable = [] :=
  Buffer.init_readable initialSize

@[simp] theorem append_readable (data : List Byte) :
    (b.append data).readable = b.readable ++ data := by
  obtain ⟨b', h, -, hread⟩ := Buffer.append_spec b.inv data
  rw [readable, append, ofResult_eq h, hread, readable]

@[simp] theorem readOnece_readable (data : List Byte) :
    (b.readOnece data).readable = b.readable ++ data := by
  obtain ⟨b', h, -, hread⟩ := Buffer.readOnece_spec b.inv data
  rw [readable, readOnece, ofResult_eq h, hread, readable]

@[simp] theorem retrieve_readable (n : Nat) : (b.retrieve n).readable = b.readable.drop n := by
  obtain ⟨b', h, -, hread⟩ := Buffer.retrieve_spec b.inv (Nat.min_le_right n _)
  rw [readable, retrieve, ofResult_eq h, hread, readable]
  by_cases hn : n ≤ b.raw.readable.length
  · rw [Nat.min_eq_left hn]
  · rw [Nat.min_eq_right (Nat.le_of_not_le hn), List.drop_length,
      List.drop_of_length_le (Nat.le_of_not_le hn)]

theorem retrieve_eq {n : Nat} (hn : n ≤ b.readable.length) :
    b.raw.retrieve n = .ok (b.retrieve n).raw := by
  obtain ⟨b', h, -, -⟩ := Buffer.retrieve_spec b.inv hn
  have hclip : min n b.raw.readable.length = n := Nat.min_eq_left hn
  rw [h, retrieve, ofResult_eq (by rw [hclip, h])]

theorem append_eq (data : List Byte) : b.raw.append data = .ok (b.append data).raw := by
  obtain ⟨b', h, -, -⟩ := Buffer.append_spec b.inv data
  rw [h, append, ofResult_eq h]

theorem readOnece_eq (data : List Byte) : b.raw.readOnece data = .ok (b.readOnece data).raw := by
  obtain ⟨b', h, -, -⟩ := Buffer.readOnece_spec b.inv data
  rw [h, readOnece, ofResult_eq h]

end SafeBuffer

end VServer

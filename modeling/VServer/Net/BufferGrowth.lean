import VServer.Lib.Machine
import VServer.Net.BufferFifo

/-!
# How large a buffer gets

The branch of `makeSpace` that grows the storage leaves the bytes in front of the read position where
they are, and it is taken only while these are fewer than what arrives (`Grown.le_readable`). So the
storage is about twice as long as the largest backlog, at most, however many bytes went through the
buffer (`storage_bounded`).
-/

namespace VServer

namespace Buffer

def step (b : Buffer) (op : Op) : Except Fault Buffer := (b.call op).map Prod.fst

def Fills (_ : Buffer) (op : Op) : Prop := ∀ len, op ≠ .ensureWritableBytes len

variable {b b' : Buffer} {op : Op}

/-- The storage after a call that returned. -/
structure Bounded (b b' : Buffer) : Prop where
  inv : b'.Inv
  length_le : b'.buffer.length ≤ max b.buffer.length (2 * b'.readableBytes + kCheapPrepend)

theorem Bounded.of_eq (hinv : b'.Inv) (h : b'.buffer = b.buffer) : b.Bounded b' :=
  ⟨hinv, (Nat.le_of_eq (congrArg List.length h)).trans (Nat.le_max_left _ _)⟩

theorem retrieve_bounded (h : b.Inv) {len : Nat} (hretrieve : b.retrieve len = .ok b') :
    b.Bounded b' := by
  have hlen : len ≤ b.readableBytes := by
    by_contra hlen
    rw [retrieve, if_neg hlen] at hretrieve
    cases hretrieve
  obtain ⟨b'', hok, hinv, -⟩ := retrieve_spec h (hlen.trans_eq h.length_readable.symm)
  obtain rfl : b'' = b' := Except.ok.inj (hok.symm.trans hretrieve)
  refine .of_eq hinv ?_
  rw [retrieve, if_pos hlen] at hok
  split_ifs at hok
  · cases hok
    rfl
  · cases hok
    rfl

theorem retrieveAsString_ok {len : Nat} {result : List Byte}
    (h : b.retrieveAsString len = .ok (result, b')) : b.retrieve len = .ok b' := by
  unfold retrieveAsString at h
  split_ifs at h
  obtain ⟨b'', hretrieve, hreturn⟩ := bind_eq_ok h
  cases hreturn
  exact hretrieve

theorem Bounded.of_grown (h : b.Inv) (hinv : b'.Inv) {data : List Byte}
    (hgrown : b.Grown data.length b') (hread : b'.readable = b.readable ++ data) : b.Bounded b' := by
  refine ⟨hinv, hgrown.le_readable h ?_⟩
  rw [← h.length_readable, ← hinv.length_readable, hread, List.length_append]

theorem step_bounded (h : b.Inv) (hfills : b.Fills op) (hstep : b.step op = .ok b') : b.Bounded b' := by
  obtain ⟨⟨_, result⟩, hcall, rfl⟩ := map_eq_ok hstep
  cases op with
  | append data =>
    obtain ⟨b', happend, hreturn⟩ := map_eq_ok hcall
    cases hreturn
    obtain ⟨_, hok, hinv, hread⟩ := append_spec h data
    cases happend.symm.trans hok
    exact .of_grown h hinv (append_grown happend) hread
  | ensureWritableBytes len => exact absurd rfl (hfills len)
  | readOnece data =>
    obtain ⟨b', hreceive, hreturn⟩ := map_eq_ok hcall
    cases hreturn
    obtain ⟨_, hok, hinv, hread⟩ := readOnece_spec h data
    cases hreceive.symm.trans hok
    exact .of_grown h hinv (readOnece_grown h hreceive) hread
  | retrieve len =>
    obtain ⟨b', hretrieve, hreturn⟩ := map_eq_ok hcall
    cases hreturn
    exact retrieve_bounded h hretrieve
  | retrieveAsString len =>
    obtain ⟨⟨_, b'⟩, hretrieve, hreturn⟩ := map_eq_ok hcall
    cases hreturn
    exact retrieve_bounded h (retrieveAsString_ok hretrieve)
  | retrieveAll =>
    cases hcall
    exact .of_eq (retrieveAll_inv h) rfl

/-- **The storage is bounded by the backlog.** After any calls it is no longer than it was made, or
than twice the largest number of bytes that were readable on the way, and the prefix. -/
theorem storage_bounded (initialSize : Nat) (ops : List Op) (b : Buffer)
    (hfills : ∀ len, .ensureWritableBytes len ∉ ops)
    (hrun : Machine.run step (init initialSize) ops = .ok b) :
    b.buffer.length ≤ max (kCheapPrepend + initialSize)
      (2 * Machine.peak step readableBytes (init initialSize) ops + kCheapPrepend) := by
  have hbound : Monotone fun H : Nat => 2 * H + kCheapPrepend := by
    intro H H' hle
    dsimp only
    omega
  have halong : Machine.Along step Fills (init initialSize) ops :=
    Machine.along_of_mem fun _ op hop len heq => hfills len (heq ▸ hop)
  have hlength : (init initialSize).buffer.length = kCheapPrepend + initialSize := List.length_replicate
  rw [← hlength]
  exact (Machine.run_le_peak (z := fun b : Buffer => b.buffer.length) hbound
    (fun _ _ _ hb hop hstep => (step_bounded hb hop hstep).inv)
    (fun _ _ _ hb hop hstep => (step_bounded hb hop hstep).length_le)
    (init_inv initialSize) halong hrun).1

/-- A buffer made with no room but the prefix: it grows for what comes, and what is retrieved leaves
its place to what comes next. -/
theorem storage_bounded_slide : ∃ b, Machine.run step (init 0)
      [.append [1, 2, 3], .retrieve 2, .readOnece [4, 5], .retrieveAll, .append [6]] = .ok b ∧
    b.buffer.length ≤ 14 := by
  obtain ⟨b, hb, -⟩ := eq_ok_of_toOption (b := 1) (f := readableBytes) (x := Machine.run step (init 0)
    [.append [1, 2, 3], .retrieve 2, .readOnece [4, 5], .retrieveAll, .append [6]]) (by decide +kernel)
  have hbound := storage_bounded 0
    [.append [1, 2, 3], .retrieve 2, .readOnece [4, 5], .retrieveAll, .append [6]] b (by simp) hb
  have hpeak : Machine.peak step readableBytes (init 0)
      [.append [1, 2, 3], .retrieve 2, .readOnece [4, 5], .retrieveAll, .append [6]] = 3 := by
    decide +kernel
  rw [hpeak] at hbound
  exact ⟨b, hb, hbound⟩

end Buffer

end VServer

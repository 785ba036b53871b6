import VServer.Lib.Fifo
import VServer.Net.Buffer

/-!
# The byte buffer is a queue

Every sequence of buffer calls is a sequence of operations of the abstract queue of `Lib.Fifo`
(`Buffer.Op.toFifo`). As long as no `retrieve` asks for more than there is, which is what its
`assert` demands of the caller, the calls return, the representation invariant holds and the
readable bytes are the contents of the queue (`fifo_of_calls`).
-/

namespace VServer

namespace Buffer

/-- A call on the buffer; `readOnece` carries the bytes `readv` returned. -/
inductive Op where
  | append (data : List Byte)
  | ensureWritableBytes (len : Nat)
  | readOnece (data : List Byte)
  | retrieve (len : Nat)
  | retrieveAsString (len : Nat)
  | retrieveAll
  deriving DecidableEq, Repr

/-- The call, with the string it returns (empty where it returns none). -/
def call (b : Buffer) : Op → Except Fault (Buffer × List Byte)
  | .append data => (b.append data).map (·, [])
  | .ensureWritableBytes len => (b.ensureWritableBytes len).map (·, [])
  | .readOnece data => (b.readOnece data).map (·, [])
  | .retrieve len => (b.retrieve len).map (·, [])
  | .retrieveAsString len => (b.retrieveAsString len).map Prod.swap
  | .retrieveAll => .ok (b.retrieveAll, [])

def calls (b : Buffer) : List Op → Except Fault (Buffer × List (List Byte))
  | [] => .ok (b, [])
  | op :: ops => do
    let (b', result) ← b.call op
    let (b'', results) ← calls b' ops
    return (b'', result :: results)

namespace Op

/-- What the call means for the queue of readable bytes. -/
def toFifo : Op → Fifo.Op Byte
  | append data => .put data
  | ensureWritableBytes _ => .put []
  | readOnece data => .put data
  | retrieve len => .take len
  | retrieveAsString len => .take len
  | retrieveAll => .clear

/-- Of the bytes that leave the queue, the ones the call returns. -/
def returned : Op → List Byte → List Byte
  | retrieveAsString _, left => left
  | _, _ => []

end Op

theorem call_refines {b : Buffer} (h : b.Inv) {op : Op} {q left : List Byte}
    (hstep : Fifo.step b.readable op.toFifo = some (q, left)) :
    ∃ b', b.call op = .ok (b', op.returned left) ∧ b'.Inv ∧ b'.readable = q := by
  cases op with
  | append data =>
    obtain ⟨rfl, rfl⟩ := Prod.mk.inj (Option.some.inj hstep)
    obtain ⟨b', hcall, hinv, hread⟩ := append_spec h data
    exact ⟨b', by rw [call, hcall]; rfl, hinv, hread⟩
  | ensureWritableBytes len =>
    obtain ⟨rfl, rfl⟩ := Prod.mk.inj (Option.some.inj hstep)
    obtain ⟨b', hcall, hinv, hread, -⟩ := ensureWritableBytes_spec h len
    exact ⟨b', by rw [call, hcall]; rfl, hinv, by rw [hread, List.append_nil]⟩
  | readOnece data =>
    obtain ⟨rfl, rfl⟩ := Prod.mk.inj (Option.some.inj hstep)
    obtain ⟨b', hcall, hinv, hread⟩ := readOnece_spec h data
    exact ⟨b', by rw [call, hcall]; rfl, hinv, hread⟩
  | retrieve len =>
    rw [Op.toFifo, Fifo.step] at hstep
    split_ifs at hstep with hlen
    obtain ⟨rfl, rfl⟩ := Prod.mk.inj (Option.some.inj hstep)
    obtain ⟨b', hcall, hinv, hread⟩ := retrieve_spec h hlen
    exact ⟨b', by rw [call, hcall]; rfl, hinv, hread⟩
  | retrieveAsString len =>
    rw [Op.toFifo, Fifo.step] at hstep
    split_ifs at hstep with hlen
    obtain ⟨rfl, rfl⟩ := Prod.mk.inj (Option.some.inj hstep)
    obtain ⟨b', hcall, hinv, hread⟩ := retrieveAsString_spec h hlen
    exact ⟨b', by rw [call, hcall]; rfl, hinv, hread⟩
  | retrieveAll =>
    obtain ⟨rfl, rfl⟩ := Prod.mk.inj (Option.some.inj hstep)
    exact ⟨b.retrieveAll, rfl, retrieveAll_inv h, retrieveAll_readable⟩

theorem calls_refine {b : Buffer} (h : b.Inv) {ops : List Op} {q : List Byte}
    {outs : List (List Byte)} (hrun : Fifo.run b.readable (ops.map Op.toFifo) = some (q, outs)) :
    ∃ b', b.calls ops = .ok (b', List.zipWith Op.returned ops outs) ∧ b'.Inv ∧ b'.readable = q := by
  induction ops generalizing b outs with
  | nil =>
    obtain ⟨rfl, rfl⟩ := Prod.mk.inj (Option.some.inj hrun)
    exact ⟨b, rfl, h, rfl⟩
  | cons op ops ih =>
    obtain ⟨q₁, left, outs', hstep, hrest, rfl⟩ := Fifo.run_cons hrun
    obtain ⟨b₁, hcall, hinv, rfl⟩ := call_refines h hstep
    obtain ⟨b', hcalls, hinv', hread⟩ := ih hinv hrest
    refine ⟨b', ?_, hinv', hread⟩
    rw [calls, hcall, ok_bind]
    dsimp only
    rw [hcalls]
    rfl

/-- **The buffer is a FIFO queue.** Whatever the initial size and the calls, as long as no
`retrieve` asks for more bytes than are readable: no `assert` fails and no copy leaves the storage
(the calls return), the positions stay in order, the readable bytes are the contents of the queue,
and the bytes that left it, in order, followed by the readable ones are the bytes that arrived. -/
theorem fifo_of_calls (initialSize : Nat) (ops : List Op) (q : List Byte) (outs : List (List Byte))
    (hlegal : Fifo.run [] (ops.map Op.toFifo) = some (q, outs)) :
    ∃ b, (init initialSize).calls ops = .ok (b, List.zipWith Op.returned ops outs) ∧ b.Inv ∧
      b.readable = q ∧ (ops.map Op.toFifo).flatMap Fifo.Op.arrived = outs.flatten ++ b.readable := by
  rw [← init_readable initialSize] at hlegal
  obtain ⟨b, hcalls, hinv, hread⟩ := calls_refine (init_inv initialSize) hlegal
  refine ⟨b, hcalls, hinv, hread, ?_⟩
  have hconserve := Fifo.run_conserves hlegal
  rwa [init_readable, List.nil_append, ← hread] at hconserve

/-- Eight bytes of storage: the append grows it, the second one slides the rest to the front. -/
theorem fifo_of_calls_slide :
    ∃ b, (init 0).calls [.append [1, 2, 3], .retrieveAsString 2, .append [4, 5], .readOnece [6]] =
        .ok (b, [[], [1, 2], [], []]) ∧ b.Inv ∧ b.readable = [3, 4, 5, 6] ∧
      [1, 2, 3, 4, 5, 6] = [1, 2] ++ b.readable :=
  fifo_of_calls 0 [.append [1, 2, 3], .retrieveAsString 2, .append [4, 5], .readOnece [6]]
    [3, 4, 5, 6] [[], [1, 2], [], []] rfl

end Buffer

end VServer

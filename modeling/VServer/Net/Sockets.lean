import VServer.Net.Faults

/-!
# Failing system calls

`socket::Readv` and `socket::Accept` throw when the system call fails. Nothing between them and
`EventLoop::loop()` catches, so the branch of `TcpConnection::handleRead` that calls `handleError` is
never taken and one reset connection ends the loop. A failing `::write` is taken care of.
-/

namespace VServer

variable {ι : Type} [DecidableEq ι]

/-- What is to become of connection `c` does not change any other connection. -/
structure OthersUnaffected (c : Nat) (w w' : World ι) : Prop where
  conns : ∀ c', c' ≠ c → w'.conns c' = w.conns c'
  connections : ∀ c', c' ≠ c → w'.server.connections c' = w.server.connections c'
  alive : w'.alive = w.alive
  seen : ∀ c', c' ≠ c → w'.seen c' = w.seen c'

variable [Fintype ι]

/-- The step raises no exception; if it is a failed read, what is left is `handleError`, with the
input buffer unchanged; and what it does to one connection leaves the others alone. -/
structure Tolerates (σ : System ι) (label : Label ι) : Prop where
  noException : σ.step label ≠ .error (.fault .exception)
  failedRead : ∀ who k c rest σ', label = .run who k → σ.todo who = .conn c .handleRead :: rest →
    k.readv = none → σ.step label = .ok σ' → σ'.todo who = .conn c .handleError :: rest ∧
      (σ'.world.conns c).inputBuffer = (σ.world.conns c).inputBuffer
  others : ∀ c t k σ', σ.performs label = some (c, t, k) → σ.step label = .ok σ' →
    OthersUnaffected c σ.world σ'.world

section

variable {σ σ' : System ι} {label : Label ι} {who : ι} {k : Kernel} {c : Nat} {t : ConnTask ι}
  {rest : List (Task ι)}

/-- The step performs `quit()` of loop `i`. -/
def Quits (i : ι) (σ : System ι) (label : Label ι) : Prop :=
  ∃ who k rest, label = .run who k ∧ σ.todo who = .quit i :: rest

/-- The loops survive the run from `σ`: every step tolerates what the kernel answers, so that no
exception leaves `loop()`, and where a loop has returned, `quit()` was called for it. -/
structure Survives (σ : System ι) (labels : List (Label ι)) : Prop where
  tolerates : Machine.Along System.step Tolerates σ labels
  noException : Machine.run System.step σ labels ≠ .error (.fault .exception)
  quit : ∀ as bs σ', labels = as ++ bs → Machine.run System.step σ as = .ok σ' →
    ∀ i, (σ'.loops i).phase = .ended → ∃ as₁ a as₂ σ₁, as = as₁ ++ a :: as₂ ∧
      Machine.run System.step σ as₁ = .ok σ₁ ∧ Quits i σ₁ a

end

end VServer

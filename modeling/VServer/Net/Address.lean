import VServer.Log.Record

/-!
# Addresses and their texts

`SocketAddress` (`Address.h`, `Address.cc`): an IPv4 address and a port, both kept in network order.
`toString` writes them into two buffers on the stack, which are long enough, and what it writes is
read back (`address_round_trip`). `htons` and `ntohs` swap the two bytes, as on any machine with a
little end.
-/

namespace VServer

open Http Messages LogRecord

/-- `in_addr`, byte by byte. -/
structure InAddr where
  first : Byte
  second : Byte
  third : Byte
  fourth : Byte
  deriving DecidableEq, Repr

namespace InAddr

/-- `INADDR_ANY` -/
def any : InAddr := ⟨0, 0, 0, 0⟩

def dot : Byte := 46

/-- `inet_ntop` -/
def ntop (a : InAddr) : List Byte :=
  numberText a.first.toNat ++ dot :: (numberText a.second.toNat ++
    dot :: (numberText a.third.toNat ++ dot :: numberText a.fourth.toNat))

/-- One number of an address: no more than 255, in up to three digits, and with no digit behind a zero
in front. -/
def octet (digits : List Byte) : Option Byte :=
  if digits ≠ [] ∧ digits.length ≤ 3 ∧ digits.all isdigit ∧ decimal digits ≤ 255 ∧
      (digits.head? = some 48 → digits.length = 1) then
    some (UInt8.ofNat (decimal digits))
  else none

/-- `inet_pton`; `none` is a result other than 1. -/
def pton (text : List Byte) : Option InAddr := do
  let (first, text) ← cutAt dot text
  let (second, text) ← cutAt dot text
  let (third, fourth) ← cutAt dot text
  return ⟨← octet first, ← octet second, ← octet third, ← octet fourth⟩

end InAddr

/-- `htons` and `ntohs` -/
def htons (port : UInt16) : UInt16 := UInt16.ofNat (port.toNat % 256 * 256 + port.toNat / 256)

structure SocketAddress where
  sinAddr : InAddr
  sinPort : UInt16
  deriving DecidableEq, Repr

namespace SocketAddress

/-- `SocketAddress()` -/
def init : SocketAddress := ⟨.any, 0⟩

variable (a : SocketAddress)

/-- `addr == "0.0.0.0"` compares two pointers, which may be equal only if the text is this one. -/
def setInAddrFromString (samePointer : Bool) (addr : List Byte) : Except Fault SocketAddress :=
  if samePointer then .ok { a with sinAddr := .any }
  else match InAddr.pton addr with
    | some sinAddr => .ok { a with sinAddr := sinAddr }
    | none => .error .exception

def setPortHost (port : UInt16) : SocketAddress := { a with sinPort := htons port }

/-- Both texts have to fit into their buffers, with the zero behind them. -/
def toString : Except Fault (List Byte) :=
  let addr_str := a.sinAddr.ntop
  let port_str := numberText (htons a.sinPort).toNat
  if addr_str.length + 1 ≤ 16 ∧ port_str.length + 1 ≤ 6 then .ok (addr_str ++ colon :: port_str)
  else .error .undefined

end SocketAddress

/-! ## Reading a text back -/

theorem toNat_htons (port : UInt16) :
    (htons port).toNat = port.toNat % 256 * 256 + port.toNat / 256 := by
  have hlt := port.toNat_lt
  rw [htons, UInt16.toNat_ofNat']
  exact Nat.mod_eq_of_lt (by omega)

theorem htons_htons (port : UInt16) : htons (htons port) = port := by
  have hlt := port.toNat_lt
  apply UInt16.toNat_inj.mp
  rw [toNat_htons, toNat_htons]
  omega

namespace InAddr

theorem length_numberText_byte (b : Byte) : (numberText b.toNat).length ≤ 3 :=
  length_numberText_le (by decide) (lt_trans b.toNat_lt (by decide))

theorem head?_numberText {n : Nat} (hn : 0 < n) : (numberText n).head? ≠ some 48 := by
  induction n using Nat.strong_induction_on with
  | _ n ih =>
    by_cases hlt : n < 10
    · rw [numberText, Nat.toDigits_of_lt_base hlt]
      interval_cases n
      all_goals decide
    · have hhead : (numberText n).head? = (numberText (n / 10)).head? := by
        rw [numberText, Nat.toDigits_of_base_le (by decide) (by omega), List.map_append]
        exact List.head?_append_of_ne_nil _ (numberText_ne_nil _)
      rw [hhead]
      exact ih (n / 10) (by omega) (by omega)

/-- `inet_ntop` writes no zero in front of a number, which `inet_pton` would not take. -/
theorem length_of_head?_numberText {n : Nat} (h : (numberText n).head? = some 48) :
    (numberText n).length = 1 := by
  rcases Nat.eq_zero_or_pos n with rfl | hn
  · rfl
  · exact absurd h (head?_numberText hn)

theorem octet_numberText (b : Byte) : octet (numberText b.toNat) = some b := by
  have hlt := b.toNat_lt
  have hdigits : (numberText b.toNat).all isdigit = true :=
    List.all_eq_true.mpr fun c hc => isdigit_of_mem_numberText hc
  have haccepted : numberText b.toNat ≠ [] ∧ (numberText b.toNat).length ≤ 3 ∧
      (numberText b.toNat).all isdigit = true ∧ b.toNat ≤ 255 ∧
      ((numberText b.toNat).head? = some 48 → (numberText b.toNat).length = 1) :=
    ⟨numberText_ne_nil _, length_numberText_byte b, hdigits, by omega, length_of_head?_numberText⟩
  rw [octet, decimal_numberText, if_pos haccepted, UInt8.ofNat_toNat]

theorem dot_notMem (n : Nat) : dot ∉ numberText n := notMem_numberText (by decide) n

/-- **`inet_pton` reads what `inet_ntop` writes.** -/
theorem pton_ntop (a : InAddr) : pton a.ntop = some a := by
  simp only [pton, ntop, cutAt_field (dot_notMem _), Option.bind_eq_bind, Option.bind_some,
    octet_numberText]
  rfl

example : pton (bytes "01.2.3.4") = none := by decide

theorem length_ntop_le (a : InAddr) : a.ntop.length ≤ 15 := by
  have h₁ := length_numberText_byte a.first
  have h₂ := length_numberText_byte a.second
  have h₃ := length_numberText_byte a.third
  have h₄ := length_numberText_byte a.fourth
  simp only [ntop, List.length_append, List.length_cons]
  omega

theorem colon_notMem_ntop (a : InAddr) : colon ∉ a.ntop := by
  have hnumber : ∀ n, colon ∉ numberText n := notMem_numberText (by decide)
  simp only [ntop, List.mem_append, List.mem_cons, hnumber, or_false, false_or]
  decide

end InAddr

namespace SocketAddress

theorem setInAddrFromString_ntop (b : SocketAddress) (addr : InAddr) {samePointer : Bool}
    (hsame : samePointer = true → addr.ntop = bytes "0.0.0.0") :
    b.setInAddrFromString samePointer addr.ntop = .ok { b with sinAddr := addr } := by
  cases samePointer with
  | false => simp [setInAddrFromString, InAddr.pton_ntop]
  | true =>
    -- the text is the one of `INADDR_ANY`, which no other address has
    have hany : InAddr.pton (bytes "0.0.0.0") = some .any := by decide
    have haddr : addr = .any := by simpa [← hsame rfl, InAddr.pton_ntop] using hany
    simp [setInAddrFromString, haddr]

theorem toString_eq (a : SocketAddress) :
    a.toString = .ok (a.sinAddr.ntop ++ colon :: numberText (htons a.sinPort).toNat) := by
  have hport : (numberText (htons a.sinPort).toNat).length ≤ 5 :=
    length_numberText_le (by decide) (lt_trans (htons a.sinPort).toNat_lt (by decide))
  have haddr := a.sinAddr.length_ntop_le
  rw [toString, if_pos (by omega)]

/-- **Addresses are read back from their text.** The buffers of `toString` are long enough for every
address and port. Its text falls into a host and a port at the colon, and whoever sets these gets the
address it was made of, whatever the comparison of the pointers gives. -/
theorem address_round_trip (a : SocketAddress) : ∃ host port,
    a.toString = .ok (host ++ colon :: port) ∧
      cutAt colon (host ++ colon :: port) = some (host, port) ∧
      ∀ (b : SocketAddress) (samePointer : Bool), (samePointer = true → host = bytes "0.0.0.0") →
        (b.setInAddrFromString samePointer host).map
          (·.setPortHost (UInt16.ofNat (decimal port))) = .ok a := by
  refine ⟨_, _, a.toString_eq, cutAt_field a.sinAddr.colon_notMem_ntop _, fun b samePointer hsame => ?_⟩
  rw [b.setInAddrFromString_ntop a.sinAddr hsame, decimal_numberText]
  simp [Except.map, setPortHost, htons_htons]

end SocketAddress

end VServer

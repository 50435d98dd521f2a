import PtsTools.Lib.Scanf

/-!
# Internet addresses as text

`inet_ntoa` writes the four bytes of an address in decimal, with dots in between.
`gethostbyname` does not look such a text up, but takes it for the address itself.
`dotted_inetNtoa` is the round trip.
-/

namespace PtsTools.Lib.Inet

open PtsTools.Lib.Scanf

/-- An `in_addr`. -/
structure Ip where
  a : UInt8
  b : UInt8
  c : UInt8
  d : UInt8
  deriving DecidableEq, Repr

/-- A `sockaddr_in`. -/
structure Addr where
  ip : Ip
  port : UInt16
  deriving DecidableEq, Repr

/-- `inet_ntoa`. -/
def inetNtoa (ip : Ip) : Text :=
  [46].intercalate
    [decimal ip.a.toNat, decimal ip.b.toNat, decimal ip.c.toNat, decimal ip.d.toNat]

/-- The address that a text in the form of `inet_ntoa` stands for. -/
def dotted (text : Text) : Option Ip :=
  match text.splitOn 46 with
  | [a, b, c, d] =>
    let ip : Ip := ⟨UInt8.ofNat (digitsValue a), UInt8.ofNat (digitsValue b),
      UInt8.ofNat (digitsValue c), UInt8.ofNat (digitsValue d)⟩
    if inetNtoa ip = text then some ip else none
  | _ => none

theorem dot_not_mem_decimal (n : Nat) : 46 ∉ decimal n := by
  intro h
  exact absurd (isdigit_of_mem_decimal h) (by decide)

theorem splitOn_inetNtoa (ip : Ip) : (inetNtoa ip).splitOn 46 =
    [decimal ip.a.toNat, decimal ip.b.toNat, decimal ip.c.toNat, decimal ip.d.toNat] := by
  apply List.splitOn_intercalate
  · intro part hpart
    simp only [List.mem_cons, List.not_mem_nil, or_false] at hpart
    rcases hpart with rfl | rfl | rfl | rfl
    · exact dot_not_mem_decimal _
    · exact dot_not_mem_decimal _
    · exact dot_not_mem_decimal _
    · exact dot_not_mem_decimal _
  · exact List.cons_ne_nil _ _

theorem dotted_inetNtoa (ip : Ip) : dotted (inetNtoa ip) = some ip := by
  have hbyte : ∀ b : UInt8, UInt8.ofNat (digitsValue (decimal b.toNat)) = b := by
    intro b
    rw [digitsValue_decimal, UInt8.ofNat_toNat]
  unfold dotted
  rw [splitOn_inetNtoa]
  simp only [hbyte, if_true]

end PtsTools.Lib.Inet

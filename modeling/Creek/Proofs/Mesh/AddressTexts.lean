import Creek.Mesh.Discovery

/-! What is read back of an address and of a peer once they have become texts. -/

namespace Creek.Mesh

open Library (ascii decimal)
open Telemetry (Address letter parseAddress)
open Tight (Bytes)

/-- The text of a host that would lose its brackets. -/
def Bracketed (host : Bytes) : Prop :=
  2 ≤ host.length ∧ host.head? = some (letter '[') ∧ host.getLast? = some (letter ']')

instance (host : Bytes) : Decidable (Bracketed host) := inferInstanceAs (Decidable (_ ∧ _))

/-- What an address needs to survive its text. -/
def Addressable (address : Address) : Prop :=
  address.host ≠ [] ∧ address.port ≠ 0 ∧ ¬Bracketed address.host

instance (address : Address) : Decidable (Addressable address) :=
  inferInstanceAs (Decidable (_ ∧ _))

theorem colon_notMem_decimal (number : Nat) : letter ':' ∉ decimal number := by
  intro member
  obtain ⟨-, high⟩ := Library.decimal_digits number _ member
  exact absurd high (by decide)

/-- The host and the port are taken apart at the last colon. -/
theorem parseAddress_split {host port : Bytes} (free : letter ':' ∉ port)
    : parseAddress (host ++ letter ':' :: port)
      = if host.isEmpty || port.isEmpty then none
        else
          match Library.stoul port with
          | some (number, []) =>
              if number = 0 ∨ 65535 < number then none
              else
                some {
                  host := if Bracketed host then host.tail.dropLast else host
                  port := number.toUInt16
                }
          | _ => none := by
  have backwards : (host ++ letter ':' :: port).reverse
      = port.reverse ++ letter ':' :: host.reverse := by
    simp
  have freeBackwards : letter ':' ∉ port.reverse := by
    rwa [List.mem_reverse]
  simp only [parseAddress, backwards, Library.takeWhile_mark freeBackwards,
    Library.dropWhile_mark freeBackwards, List.reverse_reverse, Bracketed, Bool.and_eq_true,
    decide_eq_true_eq, and_assoc]
  rfl

/-- What is read back of the text of an address: it needs a host and a port, and it loses brackets. -/
theorem parseAddress_formatAddress (address : Address)
    : parseAddress (formatAddress address)
      = if address.host = [] ∨ address.port = 0 then none
        else
          some {
            address with
            host :=
              if Bracketed address.host then address.host.tail.dropLast else address.host
          } := by
  have small : address.port.toNat < 65536 := address.port.toNat_lt
  have converted : Library.stoul (decimal address.port.toNat) = some (address.port.toNat, []) :=
    Library.stoul_decimal (by omega)
  have zero : address.port.toNat = 0 ↔ address.port = 0 := by
    rw [← UInt16.toNat_inj]
    rfl
  rw [formatAddress, parseAddress_split (colon_notMem_decimal _), converted]
  by_cases hostless : address.host = []
  · simp [hostless]
  · by_cases portless : address.port = 0
    · simp [portless]
    · have notEmpty : (address.host.isEmpty || (decimal address.port.toNat).isEmpty) = false := by
        simp [hostless, Library.decimal_ne_nil]
      have inRange : ¬(address.port.toNat = 0 ∨ 65535 < address.port.toNat) := by
        exact not_or.mpr ⟨fun same => portless (zero.mp same), by omega⟩
      simp [notEmpty, inRange, hostless, portless]

theorem bracketed_shortens {host : Bytes} (bracketed : Bracketed host)
    : host.tail.dropLast ≠ host := by
  intro same
  have lengths := congrArg List.length same
  have long := bracketed.1
  rw [List.length_dropLast, List.length_tail] at lengths
  omega

/-- An address is read back from its text exactly if it is addressable. -/
theorem parseAddress_formatAddress_iff (address : Address)
    : parseAddress (formatAddress address) = some address ↔ Addressable address := by
  rw [parseAddress_formatAddress]
  by_cases lacking : address.host = [] ∨ address.port = 0
  · rw [if_pos lacking]
    constructor
    · intro absent
      cases absent
    · intro ⟨host, port, _⟩
      exact absurd lacking (not_or.mpr ⟨host, port⟩)
  · rw [if_neg lacking]
    obtain ⟨host, port⟩ := not_or.mp lacking
    by_cases bracketed : Bracketed address.host
    · rw [if_pos bracketed]
      constructor
      · intro same
        exact absurd (congrArg Address.host (Option.some.inj same)) (bracketed_shortens bracketed)
      · intro addressable
        exact absurd bracketed addressable.2.2
    · rw [if_neg bracketed]
      exact ⟨fun _ => ⟨host, port, bracketed⟩, fun _ => rfl⟩

/-- A peer is read back from an id, an at sign and the text of its address exactly if the id has no at
sign and the address is addressable; the address alone is read back exactly if it is addressable.
-/
theorem parseRemote_formatted_iff (peer : RemotePeer)
    : (parseRemote (peer.id ++ letter '@' :: formatAddress peer.address) = some peer
      ↔ letter '@' ∉ peer.id ∧ Addressable peer.address)
      ∧ (parseAddress (formatAddress peer.address) = some peer.address
        ↔ Addressable peer.address) := by
  refine ⟨⟨?_, ?_⟩, parseAddress_formatAddress_iff peer.address⟩
  · intro parsed
    have free : letter '@' ∉ peer.id := by
      unfold parseRemote at parsed
      split at parsed
      · cases parsed
      · obtain ⟨address, -, same⟩ := Option.map_eq_some_iff.mp parsed
        rw [← congrArg RemotePeer.id same]
        exact Library.mark_notMem_takeWhile _
    refine ⟨free, (parseAddress_formatAddress_iff peer.address).mp ?_⟩
    rw [parseRemote, Library.dropWhile_mark free, Library.takeWhile_mark free] at parsed
    obtain ⟨address, read, same⟩ := Option.map_eq_some_iff.mp parsed
    rw [read, ← congrArg RemotePeer.address same]
  · intro ⟨free, addressable⟩
    have read := (parseAddress_formatAddress_iff peer.address).mpr addressable
    simp only [parseRemote, Library.dropWhile_mark free, Library.takeWhile_mark free, read,
      Option.map_some]

end Creek.Mesh

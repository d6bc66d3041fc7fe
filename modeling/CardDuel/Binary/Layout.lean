/-
CardDuel.Binary.Layout — values as bytes.

The layout has no separators and no names. A number takes a fixed number
of bytes, least significant first, a negative one in two's complement. A
text or a list is its length in eight bytes and then its content. A
record is its fields in order, and a choice is the number of the
alternative in four bytes and then the fields of that alternative.

  §1 Numbers    — `littleEndian` and the numbers of fixed width.
  §2 Sequences  — lists and texts.
-/
import CardDuel.Identifier
import CardDuel.Points

namespace CardDuel

/-- Types with a layout in bytes. -/
class Binary (α : Type) where
  /-- The bytes of a value. -/
  bytes : α → List UInt8

export Binary (bytes)

namespace Binary

/-! ## §1 Numbers -/

/-- The `width` lowest bytes of a number, least significant first. -/
def littleEndian : Nat → Nat → List UInt8
  | 0, _ => []
  | width + 1, n => UInt8.ofNat n :: littleEndian width (n / 256)

theorem length_littleEndian (width n : Nat) : (littleEndian width n).length = width := by
  induction width generalizing n with
  | zero => rfl
  | succ width ih => simp [littleEndian, ih]

instance : Binary UInt16 := ⟨fun n => littleEndian 2 n.toNat⟩

instance : Binary UInt32 := ⟨fun n => littleEndian 4 n.toNat⟩

instance : Binary UInt64 := ⟨fun n => littleEndian 8 n.toNat⟩

instance : Binary Points := ⟨fun p => littleEndian 8 (p.val % UInt64.size).toNat⟩

instance : Binary PlayerId := ⟨fun id => bytes id.number⟩

instance : Binary CardId := ⟨fun id => bytes id.number⟩

instance : Binary CardTypeId := ⟨fun id => bytes id.number⟩

instance : Binary ZoneId := ⟨fun id => bytes id.number⟩

instance : Binary InstanceId := ⟨fun id => littleEndian 4 id.number⟩

/-- The number of an alternative. -/
def alternative (n : Nat) : List UInt8 := littleEndian 4 n

/-! ## §2 Sequences -/

/-- The length of a sequence. -/
def count (n : Nat) : List UInt8 := littleEndian 8 n

instance {α : Type} [Binary α] : Binary (List α) := ⟨fun l => count l.length ++ l.flatMap bytes⟩

instance : Binary String := ⟨fun s => count s.utf8ByteSize ++ s.toUTF8.toList⟩

end Binary

end CardDuel

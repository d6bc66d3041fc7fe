/-
CardDuel.Proofs.Legible — the layout can be read back.

The layout has no separators, so what shows that no two values share
their bytes is that each value can be split off from whatever follows it:
if two values, each with something after it, have the same bytes, then
the values are the same and so is what follows. Numbers have a fixed
width, sequences say how long they are, and records and choices are built
from these. What it takes is that numbers fit the width they are given,
and that no sequence is longer than its length in eight bytes can say;
the latter holds of every value that has fewer than 2^64 bytes.

  §1 Numbers    — injective where they fit.
  §2 Legibility — splitting, and how it passes to other types.
  §3 Sequences  — pairs, lists and texts.
  §4 Records    — the records of a duel, and the snapshot.
-/
import CardDuel.Duel.Snapshot
import Mathlib.Algebra.Group.Nat.Defs

namespace CardDuel

open Binary

/-! ## §1 Numbers -/

theorem littleEndian_inj {width n m : Nat} (hn : n < 256 ^ width) (hm : m < 256 ^ width)
    (h : littleEndian width n = littleEndian width m) : n = m := by
  induction width generalizing n m with
  | zero =>
    rw [Nat.pow_zero] at hn hm
    omega
  | succ width ih =>
    rw [littleEndian, littleEndian, List.cons.injEq] at h
    obtain ⟨hlowest, hrest⟩ := h
    have hlowest : n % 256 = m % 256 := by simpa using congrArg UInt8.toNat hlowest
    rw [Nat.pow_succ, Nat.mul_comm] at hn hm
    have hquotient := ih (Nat.div_lt_of_lt_mul hn) (Nat.div_lt_of_lt_mul hm) hrest
    omega

theorem littleEndian_split {width n m : Nat} {rest rest' : List UInt8} (hn : n < 256 ^ width)
    (hm : m < 256 ^ width) (h : littleEndian width n ++ rest = littleEndian width m ++ rest') :
    n = m ∧ rest = rest' := by
  obtain ⟨hbytes, hrest⟩ := List.append_inj h (by rw [length_littleEndian, length_littleEndian])
  exact ⟨littleEndian_inj hn hm hbytes, hrest⟩

theorem littleEndian_ne_nil {width : Nat} (h : 0 < width) (n : Nat) :
    littleEndian width n ≠ [] := by
  rw [← List.length_pos_iff, length_littleEndian]
  exact h

/-! ## §2 Legibility -/

/-- A layout whose values can be split off from what follows them. -/
class Legible (α : Type) [Binary α] where
  /-- The numbers in the value fit the width they are given. -/
  Fits : α → Prop
  ne_nil : ∀ a : α, bytes a ≠ []
  split : ∀ {a b : α} {rest rest' : List UInt8}, Fits a → Fits b →
    (bytes a).length < 2 ^ 64 → (bytes b).length < 2 ^ 64 →
      bytes a ++ rest = bytes b ++ rest' → a = b ∧ rest = rest'

namespace Legible

variable {α β : Type} [Binary α] [Binary β]

/-- Values of which a number of a fixed width is all there is to lay out. -/
@[reducible] def ofNumber (width : Nat) (number : α → Nat) (Fits : α → Prop)
    (hwidth : 0 < width) (hbytes : ∀ a, bytes a = littleEndian width (number a))
    (hfits : ∀ a, Fits a → number a < 256 ^ width) (hinj : Function.Injective number) :
    Legible α where
  Fits := Fits
  ne_nil a := by
    rw [hbytes]
    exact littleEndian_ne_nil hwidth _
  split ha hb _ _ h := by
    rw [hbytes, hbytes] at h
    obtain ⟨hnumber, hrest⟩ := littleEndian_split (hfits _ ha) (hfits _ hb) h
    exact ⟨hinj hnumber, hrest⟩

/-- Values that are laid out as others are. -/
@[reducible] def via [Legible β] (f : α → β) (hinj : Function.Injective f)
    (hbytes : ∀ a, bytes a = bytes (f a)) : Legible α where
  Fits a := Fits (f a)
  ne_nil a := by
    rw [hbytes]
    exact ne_nil (f a)
  split ha hb hlength hlength' h := by
    rw [hbytes] at hlength hlength'
    rw [hbytes, hbytes] at h
    obtain ⟨hf, hrest⟩ := split ha hb hlength hlength' h
    exact ⟨hinj hf, hrest⟩

instance : Legible UInt16 :=
  ofNumber 2 UInt16.toNat (fun _ => True) (by decide) (fun _ => rfl) (fun n _ => n.toNat_lt)
    fun _ _ => UInt16.toNat_inj.mp

instance : Legible UInt32 :=
  ofNumber 4 UInt32.toNat (fun _ => True) (by decide) (fun _ => rfl) (fun n _ => n.toNat_lt)
    fun _ _ => UInt32.toNat_inj.mp

instance : Legible UInt64 :=
  ofNumber 8 UInt64.toNat (fun _ => True) (by decide) (fun _ => rfl) (fun n _ => n.toNat_lt)
    fun _ _ => UInt64.toNat_inj.mp

instance : Legible Points :=
  ofNumber 8 (fun p => (p.val % UInt64.size).toNat) (fun _ => True) (by decide) (fun _ => rfl)
    (fun p _ => by simp only [UInt64.size]; omega)
    fun p q h => by
      have := p.least_le
      have := p.le_greatest
      have := q.least_le
      have := q.le_greatest
      simp only [UInt64.size] at h
      exact Points.ext (by omega)

instance : Legible InstanceId :=
  ofNumber 4 InstanceId.number (fun id => id.number < 2 ^ 32) (by decide) (fun _ => rfl)
    (fun _ h => h) fun a b h => by cases a; cases b; cases h; rfl

instance : Legible PlayerId := via PlayerId.number (fun a b h => by cases a; cases b; cases h; rfl)
  fun _ => rfl

instance : Legible CardId := via CardId.number (fun a b h => by cases a; cases b; cases h; rfl)
  fun _ => rfl

instance : Legible CardTypeId :=
  via CardTypeId.number (fun a b h => by cases a; cases b; cases h; rfl) fun _ => rfl

instance : Legible ZoneId := via ZoneId.number (fun a b h => by cases a; cases b; cases h; rfl)
  fun _ => rfl

/-! ## §3 Sequences -/

section Pairs

/-- Fields in order. -/
instance : Binary (α × β) := ⟨fun p => bytes p.1 ++ bytes p.2⟩

theorem bytes_pair (a : α) (b : β) : bytes (a, b) = bytes a ++ bytes b := rfl

instance [Legible α] [Legible β] : Legible (α × β) where
  Fits p := Fits p.1 ∧ Fits p.2
  ne_nil p h := ne_nil p.1 (List.append_eq_nil_iff.mp h).1
  split := by
    intro ⟨a, b⟩ ⟨a', b'⟩ rest rest' ⟨ha, hb⟩ ⟨ha', hb'⟩ hlength hlength' h
    rw [bytes_pair, List.length_append] at hlength hlength'
    rw [bytes_pair, bytes_pair, List.append_assoc, List.append_assoc] at h
    obtain ⟨hfst, hrest⟩ := split (a := a) (b := a') ha ha' (by omega) (by omega) h
    obtain ⟨hsnd, hrest⟩ := split (a := b) (b := b') hb hb' (by omega) (by omega) hrest
    exact ⟨Prod.ext hfst hsnd, hrest⟩

end Pairs

section Lists

variable [Legible α]

/-- A list has no more members than bytes. -/
theorem length_le (l : List α) : l.length ≤ (l.flatMap bytes).length := by
  induction l with
  | nil => exact Nat.le_refl _
  | cons a rest ih =>
    have hpos := List.length_pos_iff.mpr (ne_nil a)
    rw [List.flatMap_cons, List.length_append, List.length_cons]
    omega

/-- Lists of one length can be split off without being told the length. -/
theorem split_flatMap : ∀ {l l' : List α} {rest rest' : List UInt8}, l.length = l'.length →
    (∀ a ∈ l, Fits a) → (∀ a ∈ l', Fits a) → (l.flatMap bytes).length < 2 ^ 64 →
      (l'.flatMap bytes).length < 2 ^ 64 →
        l.flatMap bytes ++ rest = l'.flatMap bytes ++ rest' → l = l' ∧ rest = rest'
  | [], [], _, _, _, _, _, _, _, h => ⟨rfl, h⟩
  | a :: l, a' :: l', rest, rest', hlen, hfits, hfits', hlength, hlength', h => by
    rw [List.flatMap_cons, List.length_append] at hlength hlength'
    rw [List.flatMap_cons, List.flatMap_cons, List.append_assoc, List.append_assoc] at h
    obtain ⟨rfl, htail⟩ := split (hfits a List.mem_cons_self) (hfits' a' List.mem_cons_self)
      (by omega) (by omega) h
    obtain ⟨rfl, hrest⟩ := split_flatMap (Nat.succ.inj hlen)
      (fun b hb => hfits b (List.mem_cons_of_mem _ hb))
      (fun b hb => hfits' b (List.mem_cons_of_mem _ hb)) (by omega) (by omega) htail
    exact ⟨rfl, hrest⟩

omit [Legible α] in
theorem bytes_list (l : List α) : bytes l = littleEndian 8 l.length ++ l.flatMap bytes := rfl

instance : Legible (List α) where
  Fits l := ∀ a ∈ l, Fits a
  ne_nil l h := littleEndian_ne_nil (by decide) _ (List.append_eq_nil_iff.mp h).1
  split := by
    intro l l' rest rest' hfits hfits' hlength hlength' h
    rw [bytes_list, List.length_append] at hlength hlength'
    rw [bytes_list, bytes_list, List.append_assoc, List.append_assoc] at h
    have hl := length_le l
    have hl' := length_le l'
    obtain ⟨hlen, h⟩ := littleEndian_split (by omega) (by omega) h
    exact split_flatMap hlen hfits hfits' (by omega) (by omega) h

end Lists

theorem bytes_string (s : String) :
    bytes s = littleEndian 8 s.utf8ByteSize ++ s.toUTF8.toList := rfl

theorem toList_loop_eq (b : ByteArray) (i : Nat) (r : List UInt8) :
    ByteArray.toList.loop b i r = r.reverse ++ b.data.toList.drop i := by
  fun_induction ByteArray.toList.loop b i r with
  | case1 i r hlt ih =>
    have hlen : i < b.data.toList.length := by simpa using hlt
    have hget : b.get! i = b.data.toList[i] := getElem!_pos b.data i hlen
    rw [ih, List.reverse_cons, List.append_assoc, List.singleton_append, hget,
      ← List.drop_eq_getElem_cons]
  | case2 i r hge =>
    have hdrop : b.data.toList.drop i = [] := List.drop_eq_nil_of_le (by simpa using hge)
    rw [hdrop, List.append_nil]

theorem toList_eq (b : ByteArray) : b.toList = b.data.toList := by
  rw [ByteArray.toList, toList_loop_eq]
  simp

theorem length_toUTF8 (s : String) : s.toUTF8.toList.length = s.utf8ByteSize := by
  rw [toList_eq]
  rfl

instance : Legible String where
  Fits _ := True
  ne_nil s h := littleEndian_ne_nil (by decide) _ (List.append_eq_nil_iff.mp h).1
  split := by
    intro s s' rest rest' _ _ hlength hlength' h
    rw [bytes_string, List.length_append, length_toUTF8] at hlength hlength'
    rw [bytes_string, bytes_string, List.append_assoc, List.append_assoc] at h
    obtain ⟨hsize, h⟩ := littleEndian_split (by omega) (by omega) h
    obtain ⟨hbytes, hrest⟩ := List.append_inj h (by rw [length_toUTF8, length_toUTF8, hsize])
    rw [toList_eq, toList_eq, Array.toList_inj] at hbytes
    exact ⟨String.toByteArray_inj.mp (ByteArray.ext hbytes), hrest⟩

/-! ## §4 Records -/

instance : Legible Modifier :=
  via (fun m => (m.value, m.turns)) (fun a b h => by cases a; cases b; cases h; rfl) fun _ => rfl

instance : Legible Stat :=
  via (fun s => (s.name, s.base, s.low, s.high, s.modifiers))
    (fun a b h => by cases a; cases b; cases h; rfl)
    fun _ => by simp only [bytes_pair, ← List.append_assoc]; rfl

instance : Legible StatBlock := via StatBlock.stats (fun a b h => by cases a; cases b; cases h; rfl)
  fun _ => rfl

instance : Legible ZoneKind :=
  via (fun k => match k with | .dynamic => (0 : UInt32) | .static => 1)
    (fun a b h => by cases a <;> cases b <;> simp at h ⊢) fun k => by cases k <;> rfl

instance : Legible Visibility :=
  via (fun v => match v with | .visible => (0 : UInt32) | .hidden => 1)
    (fun a b h => by cases a <;> cases b <;> simp at h ⊢) fun v => by cases v <;> rfl

instance : Legible ZoneSpec :=
  via (fun s => (s.id, s.name, s.kind, s.visibility))
    (fun a b h => by cases a; cases b; cases h; rfl)
    fun _ => by simp only [bytes_pair, ← List.append_assoc]; rfl

instance : Legible Zone :=
  via (fun z => (z.spec, z.cards)) (fun a b h => by cases a; cases b; cases h; rfl) fun _ => rfl

instance : Legible Seat :=
  via (fun s => (s.id, s.zones, s.stats)) (fun a b h => by cases a; cases b; cases h; rfl)
    fun _ => by simp only [bytes_pair, ← List.append_assoc]; rfl

instance : Legible Card :=
  via (fun c => (c.id, c.spec, c.cardType, c.owner, c.stats))
    (fun a b h => by cases a; cases b; cases h; rfl)
    fun _ => by simp only [bytes_pair, ← List.append_assoc]; rfl

theorem bytes_generator (g : Random.Generator) :
    bytes g = bytes g.seed ++ (littleEndian 16 g.position ++ littleEndian 8 g.calls) :=
  List.append_assoc ..

instance : Legible Random.Generator where
  Fits g := g.position < 2 ^ 128 ∧ g.calls < 2 ^ 64
  ne_nil g h := by
    rw [bytes_generator] at h
    exact ne_nil g.seed (List.append_eq_nil_iff.mp h).1
  split := by
    intro g g' rest rest' ⟨hposition, hcalls⟩ ⟨hposition', hcalls'⟩ hlength hlength' h
    rw [bytes_generator, List.length_append] at hlength hlength'
    rw [bytes_generator, bytes_generator, List.append_assoc, List.append_assoc, List.append_assoc,
      List.append_assoc] at h
    obtain ⟨hseed, h⟩ := split (a := g.seed) (b := g'.seed) trivial trivial (by omega) (by omega) h
    obtain ⟨hpos, h⟩ := littleEndian_split (by omega) (by omega) h
    obtain ⟨hcount, hrest⟩ := littleEndian_split (by omega) (by omega) h
    cases g
    cases g'
    cases hseed
    cases hpos
    cases hcount
    exact ⟨rfl, hrest⟩

instance : Legible Snapshot :=
  via (fun s => (s.current, s.nextInstance, s.generator, s.seats, s.cards))
    (fun a b h => by cases a; cases b; cases h; rfl)
    fun _ => by simp only [bytes_pair, ← List.append_assoc]; rfl

end Legible

end CardDuel

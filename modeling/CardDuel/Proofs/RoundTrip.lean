/-
CardDuel.Proofs.RoundTrip — what is written as a document reads back as
itself.

A form is faithful if it reads every value back from the document that it
writes for it. Leaves are faithful because they fit the range that is
read; lists and pairs, because their parts are; a record, because each of
its fields is found under its own name; a choice, because no two
alternatives share a name. An optional value is written bare, and `null`
stands for none, so the values of its type must never be written `null`
themselves (`Solid`).

  §1 Faithful forms — the classes.
  §2 Leaves         — numbers, texts and identifiers.
  §3 Composites     — lists, pairs, options, and the fields of a record.
  §4 Abilities      — conditions, triggers, effects and targets.
  §5 Catalogs       — the parts of a catalog, and the catalog.
-/
import CardDuel.Catalog.Validation
import CardDuel.Json.Catalog
import CardDuel.Proofs.Registry

namespace CardDuel.JsonForm

/-! ## §1 Faithful forms -/

/-- Every value reads back from its document. -/
class Faithful (α : Type) [JsonForm α] : Prop where
  decode?_encode : ∀ a : α, decode? (encode a) = some a

/-- No value is written `null`. -/
class Solid (α : Type) [JsonForm α] : Prop where
  encode_ne_null : ∀ a : α, encode a ≠ .null

export Faithful (decode?_encode)

attribute [simp] decode?_encode

/-! ## §2 Leaves -/

instance : Faithful String := ⟨fun _ => rfl⟩

instance : Solid String := ⟨fun _ h => by cases h⟩

instance : Faithful Points := ⟨Points.ofInt?_val⟩

theorem natBelow?_of_lt {bound n : Nat} (h : n < bound) : natBelow? bound (.int n) = some n := by
  simp [natBelow?, h]

instance : Faithful UInt16 where
  decode?_encode n := by
    show (natBelow? UInt16.size (.int n.toNat)).map UInt16.ofNat = some n
    rw [natBelow?_of_lt n.toNat_lt]
    simp

instance : Faithful UInt32 where
  decode?_encode n := by
    show (natBelow? UInt32.size (.int n.toNat)).map UInt32.ofNat = some n
    rw [natBelow?_of_lt n.toNat_lt]
    simp

/-- A value that is written as its only part is. -/
theorem Faithful.via {α β : Type} [JsonForm α] [JsonForm β] [Faithful β] {part : α → β}
    (make : β → α) (hencode : ∀ a : α, encode a = encode (part a))
    (hdecode : ∀ v, (decode? v : Option α) = (decode? v).map make)
    (hmake : ∀ a, make (part a) = a) : Faithful α where
  decode?_encode a := by rw [hdecode, hencode, decode?_encode, Option.map_some, hmake]

instance : Faithful CardId := .via CardId.mk (fun _ => rfl) (fun _ => rfl) fun _ => rfl

instance : Faithful CardTypeId := .via CardTypeId.mk (fun _ => rfl) (fun _ => rfl) fun _ => rfl

instance : Faithful ZoneId := .via ZoneId.mk (fun _ => rfl) (fun _ => rfl) fun _ => rfl

instance : Solid ZoneId := ⟨fun _ h => by cases h⟩

/-! ## §3 Composites -/

section
variable {α β : Type} [JsonForm α] [JsonForm β]

theorem decodeAll?_map_encode [Faithful α] (l : List α) :
    decodeAll? (l.map encode) = some l := by
  induction l with
  | nil => rfl
  | cons a rest ih => simp [decodeAll?, ih]

instance [Faithful α] : Faithful (List α) := ⟨decodeAll?_map_encode⟩

instance [Faithful α] [Faithful β] : Faithful (α × β) where
  decode?_encode p := by
    show (do return (← decode? (encode p.1), ← decode? (encode p.2)) : Option (α × β)) = some p
    simp

instance [Faithful α] [Solid α] : Faithful (Option α) where
  decode?_encode
    | none => rfl
    | some a => by
      show (match encode a with | .null => some none | v => (decode? v).map some) = some (some a)
      split
      · rename_i hnull
        exact absurd hnull (Solid.encode_ne_null a)
      · simp

/-! The fields of an object are read as they stand. A field is found
under its name, past the fields of other names. -/

variable {name name' : String} {fields : JsonValue.Fields} {v : JsonValue}

omit [JsonForm α] in
-- Not by `rfl`: the kernel would open the whole record along with it.
@[simp] theorem fields?_bind (read : JsonValue.Fields → Option α) :
    ((JsonValue.object fields).fields? >>= read) = read fields := by
  rw [JsonValue.fields?, Option.bind_eq_bind, Option.bind_some]

@[simp] theorem required?_here [Faithful α] (a : α) :
    required? ((name, encode a) :: fields) name = some a := by
  simp [required?]

@[simp] theorem required?_past (h : name ≠ name') :
    (required? ((name', v) :: fields) name : Option α) = required? fields name := by
  simp [required?, List.lookup_cons, beq_false_of_ne h]

@[simp] theorem defaulted?_here [Faithful α] (a default : α) :
    defaulted? ((name, encode a) :: fields) name default = some a := by
  simp [defaulted?]

@[simp] theorem defaulted?_past (h : name ≠ name') (default : α) :
    defaulted? ((name', v) :: fields) name default = defaulted? fields name default := by
  simp [defaulted?, List.lookup_cons, beq_false_of_ne h]

end

/-! ## §4 Abilities -/

instance : Faithful Comparison := ⟨fun c => by cases c <;> rfl⟩

instance : Faithful Condition where
  decode?_encode c := by
    unfold instCondition
    simp

instance : Faithful Subject := ⟨fun s => by cases s <;> rfl⟩

instance : Faithful Trigger where
  decode?_encode t := by
    unfold instTrigger
    cases t <;> simp [JsonValue.variant?, JsonValue.variant]

instance : Faithful Amount where
  decode?_encode a := by
    unfold instAmount
    cases a <;> simp [JsonValue.variant?, JsonValue.variant]

instance : Faithful Adjustment := ⟨fun a => by cases a <;> rfl⟩

instance : Faithful PlayerEffect where
  decode?_encode e := by
    unfold instPlayerEffect
    simp

instance : Faithful CardEffect where
  decode?_encode e := by
    unfold instCardEffect
    simp

instance : Faithful MoveEffect where
  decode?_encode e := by
    unfold instMoveEffect
    simp

instance : Faithful Effect where
  decode?_encode e := by
    unfold instEffect
    cases e <;> simp [JsonValue.variant?, JsonValue.variant]

instance : Faithful PlayerTarget := ⟨fun t => by cases t <;> rfl⟩

instance : Faithful CardTarget where
  decode?_encode t := by
    cases t with
    | source => rfl
    | chosen side | random side | all side => cases side <;> rfl

instance : Faithful Target where
  decode?_encode t := by
    unfold instTarget
    cases t <;> simp [JsonValue.variant?, JsonValue.variant]

instance : Faithful TriggeredAbility where
  decode?_encode a := by
    unfold instTriggeredAbility
    simp [optional?]

instance : Faithful ActivatedAbility where
  decode?_encode a := by
    unfold instActivatedAbility
    simp

instance : Faithful Ability where
  decode?_encode a := by
    unfold instAbility
    cases a <;> simp [JsonValue.variant?, JsonValue.variant]

/-! ## §5 Catalogs -/

instance : Faithful StatSpec where
  decode?_encode s := by
    unfold instStatSpec
    simp

instance : Faithful ZoneKind := ⟨fun k => by cases k <;> rfl⟩

instance : Faithful Visibility := ⟨fun v => by cases v <;> rfl⟩

instance : Faithful ZoneSpec where
  decode?_encode z := by
    unfold instZoneSpec
    simp

instance : Faithful CardType where
  decode?_encode t := by
    unfold instCardType
    simp [optional?]

instance : Faithful CardSpec where
  decode?_encode c := by
    unfold instCardSpec
    simp

instance : Faithful Registry := .via Registry.ofList (fun _ => rfl) (fun _ => rfl)
  Registry.ofList_cards

instance : Faithful Rules where
  decode?_encode r := by
    unfold instRules
    simp

instance : Faithful Catalog where
  decode?_encode c := by
    unfold instCatalog
    simp

/-- **A catalog reads back from its document.** The index of its registry
is not written; made again from the list, it is the one from before. So
what is read is the catalog itself, its registry gives the same answers,
repeated ids or not, it passes or fails the checks alike, and it is
written as the same document again. -/
theorem catalog_round_trip (c : Catalog) :
    ∃ c' : Catalog, decode? (encode c) = some c' ∧ c' = c ∧
      c'.cards.cards = c.cards.cards ∧
      (∀ id, c'.cards.get? id = c.cards.get? id ∧ c'.cards.contains id = c.cards.contains id) ∧
      c'.cards.firstDuplicate? = c.cards.firstDuplicate? ∧
      c'.validate = c.validate ∧ encode c' = encode c :=
  ⟨c, decode?_encode c, rfl, rfl, fun _ => ⟨rfl, rfl⟩, rfl, rfl, rfl⟩

end CardDuel.JsonForm

import Xfsd.Foundation.Store
import Mathlib.Tactic.Simps.Basic

/-!
# Foundation - Records of fixed-width fields

An on-disk record is a row of fields, each with its place and the bytes that its
value is written as.  When the fields tile the record, a decoder that finds in each
field the value whose bytes stand there loses nothing: what it has read can be
written back, and what has been written can be read again.

Main results:

- Theorem {lit}`spells_encodeFields_iff`: a row of fields is spelled exactly when each
  field is spelled at its own place.
- Theorem {lit}`writeFields_eq`: writing the fields one by one is one store.
- Theorem {lit}`lossless_of_decodes`: a decoder that is right field by field loses
  nothing.
- Theorem {lit}`decode_congr`: such a decoder depends only on the bytes of the record.
-/

namespace Foundation

variable {α : Type*}

/-! ## Fields -/

/-- A field of a record: its offset, its width, and the bytes of its value. -/
structure RecordField (α : Type*) where
  offset : Nat
  len : Nat
  bytes : α → List Byte
  length_bytes : ∀ x, (bytes x).length = len

namespace RecordField

/-- A big-endian number of 16 bits. -/
@[simps]
def be16 (offset : Nat) (get : α → BitVec 16) : RecordField α where
  offset := offset
  len := 2
  bytes := fun x => beBytes16 (get x)
  length_bytes := fun _ => rfl

/-- A big-endian number of 32 bits. -/
@[simps]
def be32 (offset : Nat) (get : α → BitVec 32) : RecordField α where
  offset := offset
  len := 4
  bytes := fun x => beBytes32 (get x)
  length_bytes := fun _ => rfl

/-- A big-endian number of 64 bits. -/
@[simps]
def be64 (offset : Nat) (get : α → BitVec 64) : RecordField α where
  offset := offset
  len := 8
  bytes := fun x => beBytes64 (get x)
  length_bytes := fun _ => rfl

/-- A single byte. -/
@[simps]
def u8 (offset : Nat) (get : α → Byte) : RecordField α where
  offset := offset
  len := 1
  bytes := fun x => [get x]
  length_bytes := fun _ => rfl

/-- An array of bytes, verbatim. -/
@[simps]
def array (offset len : Nat) (get : α → Fin len → Byte) : RecordField α where
  offset := offset
  len := len
  bytes := fun x => List.ofFn (get x)
  length_bytes := fun _ => List.length_ofFn

/-- The bytes of the field stand at its place in a record. -/
def Holds (f : RecordField α) (m : Memory Byte) (base : Int) (x : α) : Prop :=
  Spells m (base + f.offset) (f.bytes x)

end RecordField

section Holds

variable {m : Memory Byte} {base : Int} {x : α} {offset : Nat}

/-- A byte stands where the field is. -/
@[simp]
theorem holds_u8 {get : α → Byte} :
    (RecordField.u8 offset get).Holds m base x ↔ m (base + offset) = get x := by
  simp [RecordField.Holds, spells_cons_iff]

/-- A load at the place of the field finds its value. -/
@[simp]
theorem holds_be16 {get : α → BitVec 16} :
    (RecordField.be16 offset get).Holds m base x ↔ loadBE16 m (base + offset) = get x :=
  spells_beBytes16_iff

@[simp]
theorem holds_be32 {get : α → BitVec 32} :
    (RecordField.be32 offset get).Holds m base x ↔ loadBE32 m (base + offset) = get x :=
  spells_beBytes32_iff

@[simp]
theorem holds_be64 {get : α → BitVec 64} :
    (RecordField.be64 offset get).Holds m base x ↔ loadBE64 m (base + offset) = get x :=
  spells_beBytes64_iff

/-- The bytes of an array stand one after the other. -/
@[simp]
theorem holds_array {len : Nat} {get : α → Fin len → Byte} :
    (RecordField.array offset len get).Holds m base x ↔
      (fun i : Fin len => m (base + offset + i.val)) = get x := by
  constructor
  · intro h
    ext1 i
    simpa using h i.val (by simp)
  · intro h i hi
    have hlen : i < len := by simpa using hi
    simpa using congrFun h ⟨i, hlen⟩

end Holds

/-! ## Rows of fields -/

/-- The fields follow one another from one offset to another. -/
def Tiles : Nat → List (RecordField α) → Nat → Prop
  | lo, [], hi => lo = hi
  | lo, f :: fields, hi => f.offset = lo ∧ Tiles (lo + f.len) fields hi

/-- The bytes of all fields, in order. -/
def encodeFields (fields : List (RecordField α)) (x : α) : List Byte :=
  fields.flatMap fun f => f.bytes x

/-- Write every field at its place. -/
def writeFields : List (RecordField α) → α → Memory Byte → Int → Memory Byte
  | [], _, m, _ => m
  | f :: fields, x, m, base => writeFields fields x (m.write (base + f.offset) (f.bytes x)) base

/-- Fields that tile a range have its length. -/
theorem length_encodeFields {lo hi : Nat} {fields : List (RecordField α)} (h : Tiles lo fields hi)
    (x : α) : lo + (encodeFields fields x).length = hi := by
  induction fields generalizing lo with
  | nil => exact h
  | cons f fields ih =>
      rw [encodeFields, List.flatMap_cons, List.length_append, f.length_bytes, ← ih h.2,
        add_assoc]
      rfl

/-- A row of fields is spelled exactly when each field is spelled at its own place. -/
theorem spells_encodeFields_iff {lo hi : Nat} {fields : List (RecordField α)}
    (h : Tiles lo fields hi) {m : Memory Byte} {base : Int} {x : α} :
    Spells m (base + lo) (encodeFields fields x) ↔ ∀ f ∈ fields, f.Holds m base x := by
  induction fields generalizing lo with
  | nil => simp [encodeFields]
  | cons f fields ih =>
      have hrest := ih h.2
      rw [encodeFields, List.flatMap_cons, spells_append_iff, f.length_bytes, List.forall_mem_cons,
        RecordField.Holds, h.1, ← hrest, Nat.cast_add, add_assoc]
      rfl

/-- A record is spelled at an address exactly when each of its fields is spelled in its place. -/
theorem spells_record_iff {len : Nat} {fields : List (RecordField α)} (h : Tiles 0 fields len)
    {m : Memory Byte} {base : Int} {x : α} :
    Spells m base (encodeFields fields x) ↔ ∀ f ∈ fields, f.Holds m base x := by
  rw [← spells_encodeFields_iff h, Nat.cast_zero, add_zero]

/-- Writing the fields one by one is one store. -/
theorem writeFields_eq {lo hi : Nat} {fields : List (RecordField α)} (h : Tiles lo fields hi)
    (x : α) (m : Memory Byte) (base : Int) :
    writeFields fields x m base = m.write (base + lo) (encodeFields fields x) := by
  induction fields generalizing lo m with
  | nil => simp [writeFields, encodeFields]
  | cons f fields ih =>
      rw [writeFields, ih h.2, encodeFields, encodeFields, List.flatMap_cons, Memory.write_append,
        f.length_bytes, h.1, Nat.cast_add, add_assoc]

/-! ## Decoders that lose nothing -/

/-- A decoder of the records at an address, and the fields of the record.  The fields make up the
record; the decoder finds in each field the value whose bytes stand there; writing back what it has
found restores the bytes of the record; and it finds again what was written. -/
structure Lossless (fields : List (RecordField α)) (len : Nat) (base : Int)
    (decode : Memory Byte → α) : Prop where
  tiles : Tiles 0 fields len
  holds : ∀ m, ∀ f ∈ fields, f.Holds m base (decode m)
  restores : ∀ m m', AgreeOn (writeFields fields (decode m) m' base) m base (base + len)
  identity : ∀ x m, decode (writeFields fields x m base) = x

/-- A decoder that is right field by field loses nothing. -/
theorem lossless_of_decodes {fields : List (RecordField α)} {len : Nat} {base : Int}
    {decode : Memory Byte → α} (htiles : Tiles 0 fields len)
    (hdecode : ∀ m x, (∀ f ∈ fields, f.Holds m base x) ↔ decode m = x) :
    Lossless fields len base decode := by
  have hspells : ∀ m x, Spells m base (encodeFields fields x) ↔ decode m = x := by
    intro m x
    rw [spells_record_iff htiles, hdecode]
  have hwrite : ∀ m x, writeFields fields x m base = m.write base (encodeFields fields x) := by
    intro m x
    rw [writeFields_eq htiles, Nat.cast_zero, add_zero]
  refine ⟨htiles, fun m => (hdecode m _).mpr rfl, fun m m' => ?_, fun x m => ?_⟩
  · have hlen := length_encodeFields htiles (decode m)
    rw [zero_add] at hlen
    rw [hwrite, ← hlen]
    exact AgreeOn.of_spells (spells_write m' base _) ((hspells m _).mpr rfl)
  · rw [hwrite]
    exact (hspells _ x).mp (spells_write m base _)

/-- A decoder that is right field by field depends only on the bytes of the record. -/
theorem decode_congr {fields : List (RecordField α)} {len : Nat} {decode : Memory Byte → Int → α}
    (htiles : Tiles 0 fields len)
    (hdecode : ∀ m base x, (∀ f ∈ fields, f.Holds m base x) ↔ decode m base = x)
    {m m' : Memory Byte} {base base' : Int}
    (h : ∀ i : Nat, i < len → m (base + i) = m' (base' + i)) : decode m base = decode m' base' := by
  have hlen := length_encodeFields htiles (decode m base)
  have hthere : Spells m base (encodeFields fields (decode m base)) := by
    rw [spells_record_iff htiles, hdecode]
  have hcopied : Spells m' base' (encodeFields fields (decode m base)) :=
    hthere.congr fun i hi => (h i (by omega)).symm
  rw [spells_record_iff htiles, hdecode] at hcopied
  exact hcopied.symm

end Foundation

import ForeignCall.Proofs.Call.Results
import ForeignCall.Proofs.Struct.Steady
import ForeignCall.Struct.Instance

/-!
# Structs by value

A struct crosses by value on three routes: as an argument, into a field that holds a struct inline,
and as the result of a closure. An argument and a field ask for the size and the alignment of their
type; a result asks for its size alone. What has been accepted crosses with the same bytes on each
of them; those of an argument are read where it stands, when the code is entered.

Main statement: `Instance.by_value_routes`.
-/

namespace ForeignCall

namespace Instance

/-- The bytes of a struct in memory. -/
def stored (s : Instance) (m : Memory) : List UInt8 := m.heap.load (wrap s.view.address) s.size

/-- The memory of a struct, as it is passed. -/
def place (s : Instance) : Passed := .region (wrap s.view.address) s.size

/-- A struct that can be read and has the size and the alignment of a layout. -/
structure Passes (s : Instance) (layout : Layout) (m : Memory) : Prop where
  size : s.size = layout.size
  alignment : s.layout.alignment = layout.alignment
  readable : m.Admits s.view 0 s.size .read

/-- A struct that can be read and has the size of a layout, in another alignment. -/
structure Misaligned (s : Instance) (layout : Layout) (m : Memory) : Prop where
  size : s.size = layout.size
  alignment : s.layout.alignment ≠ layout.alignment
  readable : m.Admits s.view 0 s.size .read

variable {s : Instance} {layout : Layout} {w w' : World} {bytes : List UInt8}

theorem passes_or_misaligned {m : Memory} : s.Passes layout m ∨ s.Misaligned layout m ↔
    s.size = layout.size ∧ m.Admits s.view 0 s.size .read := by
  constructor
  · rintro (h | h)
    · exact ⟨h.size, h.readable⟩
    · exact ⟨h.size, h.readable⟩
  · rintro ⟨hsize, hread⟩
    by_cases h : s.layout.alignment = layout.alignment
    · exact Or.inl ⟨hsize, h, hread⟩
    · exact Or.inr ⟨hsize, h, hread⟩

theorem bytes_eq_ok : s.bytes w = (.ok bytes, w') ↔
    w.memory.Admits s.view 0 s.size .read ∧ bytes = s.stored w.memory ∧ w' = w := by
  unfold Instance.bytes
  rw [Act.read_eq_ok]
  constructor
  · rintro ⟨h, rfl⟩
    obtain ⟨ha, rfl⟩ := Memory.readBytes_eq_ok h
    exact ⟨ha, rfl, rfl⟩
  · rintro ⟨ha, rfl, rfl⟩
    exact ⟨ha.readBytes, rfl⟩

/-! ## The three routes -/

theorem structArgument_eq_ok_iff {passed : Passed} :
    structArgument layout (.struct s) w = (.ok passed, w') ↔
      s.Passes layout w.memory ∧ passed = s.place ∧ w' = w := by
  constructor
  · intro h
    obtain ⟨rfl, t, address, ht, hsize, halign, hc, rfl⟩ := World.structArgument_eq_ok h
    obtain rfl := Value.struct.inj ht
    obtain ⟨hread, rfl⟩ := Memory.check_eq_ok hc
    exact ⟨⟨hsize, halign, hread⟩, rfl, rfl⟩
  · rintro ⟨hp, rfl, rfl⟩
    unfold structArgument
    dsimp only
    rw [if_pos ⟨hp.size, hp.alignment⟩]
    exact Act.read_eq_ok.mpr ⟨Checked.map_eq_ok.mpr ⟨_, hp.readable.check, rfl⟩, rfl⟩

theorem putStruct_eq_ok_iff {v : View} {offset : Nat}
    (hv : w.memory.Admits v offset layout.size .write) :
    putStruct v offset layout (.struct s) w = (.ok (), w') ↔
      s.Passes layout w.memory ∧ w' = { w with memory := { w.memory with
        heap := w.memory.heap.store (wrap (v.address + offset)) (s.stored w.memory) } } := by
  unfold putStruct
  dsimp only
  by_cases h : s.size = layout.size ∧ s.layout.alignment = layout.alignment
  · rw [if_pos h, Act.write_eq_ok, ← h.1]
    constructor
    · rintro ⟨m, hcopy, rfl⟩
      obtain ⟨hs, -, rfl⟩ := Memory.copy_eq_ok.mp hcopy
      exact ⟨⟨h.1, h.2, hs⟩, rfl⟩
    · rintro ⟨hp, rfl⟩
      exact ⟨_, Memory.copy_eq_ok.mpr ⟨hp.readable, h.1 ▸ hv, rfl⟩, rfl⟩
  · rw [if_neg h]
    exact iff_of_false Act.refuse_ne_ok fun ⟨hp, _⟩ => h ⟨hp.size, hp.alignment⟩

theorem structResult_eq_ok {enums : Option Enums} {storage : List UInt8}
    (hs : storage.length = layout.size) :
    (Ty.struct layout).toResult enums (.struct s) storage w = (.ok bytes, w') ↔
      (s.Passes layout w.memory ∨ s.Misaligned layout w.memory) ∧
        bytes = s.stored w.memory ∧ w' = w := by
  have hmap : (Ty.struct layout).toResult enums (.struct s) storage =
      Bytes.overwrite storage <$> (Ty.struct layout).resultBytes enums (.struct s) :=
    Ty.toResult_of_ne_nil (by simp) (by simp) storage
  rw [hmap, Act.map_eq_ok, passes_or_misaligned, Ty.resultBytes]
  by_cases h : s.size = layout.size
  · have hlen : (s.stored w.memory).length = storage.length := by
      rw [stored, Heap.length_load, hs, h]
    rw [if_pos h]
    simp only [bytes_eq_ok]
    constructor
    · rintro ⟨b, ⟨ha, rfl, rfl⟩, rfl⟩
      exact ⟨⟨h, ha⟩, Bytes.overwrite_of_length hlen, rfl⟩
    · rintro ⟨⟨-, ha⟩, rfl, rfl⟩
      exact ⟨_, ⟨ha, rfl, rfl⟩, Bytes.overwrite_of_length hlen⟩
  · rw [if_neg h]
    constructor
    · rintro ⟨b, hr, -⟩
      exact absurd hr Act.refuse_ne_ok
    · rintro ⟨⟨hsize, -⟩, -⟩
      exact absurd hsize h

/--
A struct by value. It is accepted as an argument, and into an inline field that can be written,
under one condition: it can be read and has the size and the alignment of the type. As the result of
a closure it is accepted then too, and besides when only its alignment is another. On each route all
its bytes are what crosses, and nothing else: an argument is passed as the memory it stands in, with
the bytes that this has when the code is entered.
-/
theorem by_value_routes (layout : Layout) (s : Instance) (w : World) (enums : Option Enums) :
    (∀ passed w', (Ty.struct layout).toArgument enums (.struct s) w = (.ok passed, w') ↔
      s.Passes layout w.memory ∧ passed = s.place ∧ w' = w) ∧
    (∀ m : Memory, s.place.load m.heap = s.stored m) ∧
    (∀ v retention offset, w.memory.Admits v offset layout.size .write → ∀ w',
      (Ty.struct layout).putField v retention offset (.struct s) w = (.ok (), w') ↔
        s.Passes layout w.memory ∧ w' = { w with memory := { w.memory with
          heap := w.memory.heap.store (wrap (v.address + offset)) (s.stored w.memory) } }) ∧
    (∀ storage, storage.length = layout.size → ∀ bytes w',
      (Ty.struct layout).toResult enums (.struct s) storage w = (.ok bytes, w') ↔
        (s.Passes layout w.memory ∨ s.Misaligned layout w.memory) ∧
          bytes = s.stored w.memory ∧ w' = w) := by
  refine ⟨fun passed w' => ?_, fun _ => rfl, fun v retention offset hv w' => ?_,
    fun storage hs bytes w' => structResult_eq_ok hs⟩
  · rw [Ty.toArgument]
    exact structArgument_eq_ok_iff
  · rw [Ty.putField]
    exact putStruct_eq_ok_iff hv

/-! ## Two halves of a word -/

/-- A word. -/
def wordLayout : Layout := ⟨[⟨"a", 0, .builtin (.int .int64)⟩], 8, 8, false, true⟩

/-- Two halves of a word: as many bytes, in another alignment. -/
def halvesLayout : Layout := ⟨[⟨"a", 0, .int32⟩, ⟨"b", 4, .int32⟩], 8, 4, false, true⟩

/-- Two halves at a bare address. -/
def halves : Instance := ⟨halvesLayout, .sized 4096 8, 0⟩

theorem readable_halves : World.start.memory.Admits halves.view 0 halves.size .read :=
  ⟨by decide, rfl, rfl, by decide, by decide⟩

/-- A place for a field of eight bytes. -/
theorem writable_eight : World.start.memory.Admits (.sized 5000 8) 0 8 .write :=
  ⟨by decide, rfl, rfl, by decide, by decide⟩

/-- Where two halves are asked for they are taken on all three routes. -/
theorem by_value_routes_halves :
    World.start.memory.Admits (.sized 5000 8) 0 halvesLayout.size .write ∧
    (Bytes.zeros 8).length = halvesLayout.size ∧
    (Ty.struct halvesLayout).toArgument none (.struct halves) World.start =
      (.ok halves.place, World.start) ∧
    halves.place.load World.start.memory.heap = halves.stored World.start.memory ∧
    (∃ w, (Ty.struct halvesLayout).putField (.sized 5000 8) 0 0 (.struct halves) World.start =
      (.ok (), w)) ∧
    (Ty.struct halvesLayout).toResult none (.struct halves) (Bytes.zeros 8) World.start =
      (.ok (halves.stored World.start.memory), World.start) := by
  have hp : halves.Passes halvesLayout World.start.memory := ⟨rfl, rfl, readable_halves⟩
  obtain ⟨hargument, hload, hput, hresult⟩ := by_value_routes halvesLayout halves World.start none
  exact ⟨writable_eight, rfl, (hargument _ _).mpr ⟨hp, rfl, rfl⟩, hload _,
    ⟨_, (hput _ 0 0 writable_eight _).mpr ⟨hp, rfl⟩⟩,
    (hresult _ rfl _ _).mpr ⟨Or.inl hp, rfl, rfl⟩⟩

/-- Where a word is asked for, two halves are refused as an argument and in a field, and taken as a
result. -/
theorem by_value_result_halves :
    World.start.memory.Admits (.sized 5000 8) 0 wordLayout.size .write ∧
    (∀ passed w, (Ty.struct wordLayout).toArgument none (.struct halves) World.start ≠
      (.ok passed, w)) ∧
    (∀ w, (Ty.struct wordLayout).putField (.sized 5000 8) 0 0 (.struct halves) World.start ≠
      (.ok (), w)) ∧
    (Ty.struct wordLayout).toResult none (.struct halves) (Bytes.zeros 8) World.start =
      (.ok (halves.stored World.start.memory), World.start) := by
  have hnot : ¬halves.Passes wordLayout World.start.memory := fun h =>
    absurd h.alignment (by decide)
  have hmis : halves.Misaligned wordLayout World.start.memory :=
    ⟨rfl, by decide, readable_halves⟩
  refine ⟨writable_eight, fun passed w h => ?_, fun w h => ?_, ?_⟩
  · rw [Ty.toArgument] at h
    exact hnot (structArgument_eq_ok_iff.mp h).1
  · rw [Ty.putField] at h
    exact hnot ((putStruct_eq_ok_iff writable_eight).mp h).1
  · exact (structResult_eq_ok rfl).mpr ⟨Or.inr hmis, rfl, rfl⟩

end Instance

end ForeignCall

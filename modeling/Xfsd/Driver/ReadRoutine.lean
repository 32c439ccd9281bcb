import Xfsd.Foundation.Pieces
import Xfsd.Foundation.Store
import Xfsd.Reader.Independence

/-!
# XFSD - Reads through the driver

{lit}`ReadRoutine` of {lit}`Driver.cpp` serves a read request with a call of
{lit}`read_file_from_disk` into a local buffer, and copies the front of that buffer to
the system buffer of the request.  The offset of the request and the code of the
call are taken down and never looked at.

Main results:

- Theorem {lit}`serve_of_fitting`: what the routine returns for a file that fits.
- Theorem {lit}`tilesFile_iff`: consecutive requests bring the file piece by piece
  exactly when every piece is also the front of the file.
- Theorem {lit}`readsCorrectly_diskReader`: when the reader of this development is
  correct for a file.
-/

namespace Xfsd

open Foundation

/-! ## The routine -/

/-- {lit}`read_file_from_disk` as a function of the path, the capacity, the state of the
reader and the buffer, with the code, the buffer and the state that it leaves. -/
abbrev DiskReader (σ : Type) :=
  List Byte → BitVec 64 → σ → Memory Byte → Int × Memory Byte × σ

/-- What {lit}`ReadRoutine` takes from a request, and what it finds in its local buffer
and around it. -/
structure ReadIrp where
  length : BitVec 32
  byteOffset : BitVec 64
  systemBuffer : Memory Byte
  stack : Memory Byte

/-- A completed request, with the code that {lit}`read_file_from_disk` returned and how many
bytes of the local buffer were copied. -/
structure Completion where
  status : BitVec 32
  information : Nat
  systemBuffer : Memory Byte
  b : Int
  copied : Nat

/-- {lit}`STATUS_SUCCESS`. -/
def statusSuccess : BitVec 32 := 0#32

/-- {lit}`NT_SUCCESS`: the status is not an error. -/
def NtSuccess (status : BitVec 32) : Prop :=
  0 ≤ status.toInt

instance (status : BitVec 32) : Decidable (NtSuccess status) :=
  inferInstanceAs (Decidable (_ ≤ _))

/-- {lit}`sizeof(buff2)`. -/
def sizeofBuff2 : BitVec 64 := 10240#64

section Routine

variable {σ : Type} (readFileFromDisk : DiskReader σ) (addr : List Byte)

/-- {lit}`ReadRoutine`, with the path that {lit}`addr` points to. -/
def readRoutine (pIrp : ReadIrp) (s : σ) : Completion × σ :=
  let ulReadLength := pIrp.length
  let _ulReadOffset := pIrp.byteOffset.setWidth 32
  let (b, buff2, s) := readFileFromDisk addr sizeofBuff2 s pIrp.stack
  ({ status := statusSuccess
     information := ulReadLength.toNat
     systemBuffer := pIrp.systemBuffer.blit 0 ulReadLength.toNat fun i => buff2 i
     b := b
     copied := ulReadLength.toNat }, s)

/-- The routine on one request after another. -/
def serve : List ReadIrp → σ → List Completion
  | [], _ => []
  | pIrp :: irps, s =>
      let (done, s') := readRoutine readFileFromDisk addr pIrp s
      done :: serve irps s'

end Routine

/-! ## What requests ask for and what they get -/

/-- The requests ask for consecutive ranges, the first one from an offset on. -/
def Consecutive : Nat → List ReadIrp → Prop
  | _, [] => True
  | off, pIrp :: irps => pIrp.byteOffset.toNat = off ∧ Consecutive (off + pIrp.length.toNat) irps

/-- The bytes that a completed request returns. -/
def Completion.returned (done : Completion) : List Byte :=
  (List.range done.information).map fun i : Nat => done.systemBuffer i

/-- The file, if the capacity is large enough for it. -/
def fitting (capacity : BitVec 64) (file : Option (List Byte)) : Option (List Byte) :=
  file.filter fun content => content.length ≤ capacity.toNat

/-- In its good states, which it does not leave, the reader brings a file that fits to the
start of the buffer and returns 0, and returns a negative code if there is no such file. -/
structure ReadsCorrectly {σ : Type} (read : DiskReader σ) (addr : List Byte)
    (capacity : BitVec 64) (good : σ → Prop) (file : Option (List Byte)) : Prop where
  keeps : ∀ s m, good s → good (read addr capacity s m).2.2
  delivers : ∀ s m content, good s → fitting capacity file = some content →
    (read addr capacity s m).1 = 0 ∧ (read addr capacity s m).2.1 = m.write 0 content
  refuses : ∀ s m, good s → fitting capacity file = none → (read addr capacity s m).1 < 0

/-- The completed requests bring a file piece by piece: what they return is a beginning of the
file, and all of it once their ranges cover the file; nothing comes from outside what the reader
has brought; and where the reader has returned a negative code, the request has failed with
nothing returned. -/
structure TilesFile (file : Option (List Byte)) (irps : List ReadIrp)
    (completions : List Completion) : Prop where
  initial : ∀ content, fitting sizeofBuff2 file = some content →
    completions.flatMap Completion.returned <+: content
  whole : ∀ content, fitting sizeofBuff2 file = some content →
    content.length ≤ (irps.map fun pIrp => pIrp.length.toNat).sum →
      completions.flatMap Completion.returned = content
  produced : ∀ content, fitting sizeofBuff2 file = some content →
    ∀ done ∈ completions, done.copied ≤ content.length
  refused : ∀ done ∈ completions, done.b < 0 →
    ¬NtSuccess done.status ∧ done.information = 0

/-- The range of the request lies inside the file, and holds what the file begins with. -/
def ReadIrp.InFront (pIrp : ReadIrp) (content : List Byte) : Prop :=
  pIrp.byteOffset.toNat + pIrp.length.toNat ≤ content.length ∧
    (content.drop pIrp.byteOffset.toNat).take pIrp.length.toNat =
      content.take pIrp.length.toNat

instance (pIrp : ReadIrp) (content : List Byte) : Decidable (pIrp.InFront content) :=
  inferInstanceAs (Decidable (_ ∧ _))

/-! ## What the routine returns -/

/-- A completed request for a file that fits: the front of the local buffer, whatever the
offset. -/
def ReadIrp.completion (content : List Byte) (pIrp : ReadIrp) : Completion where
  status := statusSuccess
  information := pIrp.length.toNat
  systemBuffer := pIrp.systemBuffer.blit 0 pIrp.length.toNat fun i => pIrp.stack.write 0 content i
  b := 0
  copied := pIrp.length.toNat

/-- As long as the request asks for no more than the file has, it gets the front of the file. -/
theorem ReadIrp.returned_completion {content : List Byte} {pIrp : ReadIrp}
    (h : pIrp.length.toNat ≤ content.length) :
    (pIrp.completion content).returned = content.take pIrp.length.toNat := by
  apply List.ext_getElem
  · simp [Completion.returned, ReadIrp.completion, h]
  · intro i hi hi'
    have hlen : i < pIrp.length.toNat := by
      simpa [Completion.returned, ReadIrp.completion] using hi
    have hcontent := spells_write pIrp.stack 0 content i (by omega)
    rw [zero_add] at hcontent
    simp only [Completion.returned, ReadIrp.completion, List.getElem_map, List.getElem_range,
      List.getElem_take]
    rw [Memory.blit_inside (by omega) (by omega)]
    simpa using hcontent

section Serve

variable {σ : Type} {read : DiskReader σ} {addr : List Byte} {good : σ → Prop}
  {file : Option (List Byte)}

/-- What the routine returns for a file that fits. -/
theorem serve_of_fitting (h : ReadsCorrectly read addr sizeofBuff2 good file)
    {content : List Byte} (hfits : fitting sizeofBuff2 file = some content)
    (irps : List ReadIrp) {s : σ} (hs : good s) :
    serve read addr irps s = irps.map (ReadIrp.completion content) := by
  induction irps generalizing s with
  | nil => rfl
  | cons pIrp irps ih =>
      rcases h.delivers s pIrp.stack content hs hfits with ⟨hcode, hbuf⟩
      have hrest := ih (h.keeps s pIrp.stack hs)
      rw [serve, List.map_cons, ← hrest]
      simp only [readRoutine, hcode, hbuf]
      rfl

/-- Without such a file every completion reports success all the same. -/
theorem serve_of_not_fitting (h : ReadsCorrectly read addr sizeofBuff2 good file)
    (hnone : fitting sizeofBuff2 file = none) (irps : List ReadIrp) {s : σ} (hs : good s) :
    (serve read addr irps s).length = irps.length ∧
      ∀ done ∈ serve read addr irps s, done.b < 0 ∧ done.status = statusSuccess := by
  induction irps generalizing s with
  | nil => simp [serve]
  | cons pIrp irps ih =>
      rcases ih (h.keeps s pIrp.stack hs) with ⟨hlength, hrest⟩
      have hcode := h.refuses s pIrp.stack hs hnone
      simp only [serve, readRoutine, List.length_cons, List.forall_mem_cons]
      exact ⟨by rw [hlength], ⟨hcode, trivial⟩, hrest⟩

/-! ## Consecutive requests -/

/-- Pieces from the front of the file are its pieces in turn exactly when each of them lies
inside the file and holds what the file begins with. -/
theorem inTurn_completions_iff {content : List Byte} {irps : List ReadIrp} {off : Nat}
    (hoff : off ≤ content.length) (hirps : Consecutive off irps)
    (hproduced : ∀ pIrp ∈ irps, pIrp.length.toNat ≤ content.length) :
    InTurn content off (irps.map fun pIrp => (pIrp.completion content).returned) ↔
      ∀ pIrp ∈ irps, pIrp.InFront content := by
  induction irps generalizing off with
  | nil => simp [InTurn]
  | cons pIrp irps ih =>
      rcases hirps with ⟨hfirst, hrest⟩
      rcases List.forall_mem_cons.mp hproduced with ⟨hlen, hlens⟩
      rw [List.map_cons, InTurn, ReadIrp.returned_completion hlen, List.length_take_of_le hlen,
        take_isPrefix_drop_iff hlen hoff, List.forall_mem_cons, ReadIrp.InFront, hfirst]
      exact and_congr_right fun h => ih h.1 hrest hlens

/-- The pieces returned for requests inside the file have the lengths that were asked for. -/
theorem length_completions {content : List Byte} {irps : List ReadIrp}
    (hproduced : ∀ pIrp ∈ irps, pIrp.length.toNat ≤ content.length) :
    (irps.flatMap fun pIrp => (pIrp.completion content).returned).length =
      (irps.map fun pIrp => pIrp.length.toNat).sum := by
  induction irps with
  | nil => rfl
  | cons pIrp irps ih =>
      rcases List.forall_mem_cons.mp hproduced with ⟨hlen, hlens⟩
      rw [List.flatMap_cons, List.length_append, ih hlens, ReadIrp.returned_completion hlen,
        List.length_take_of_le hlen, List.map_cons, List.sum_cons]

/-- Consecutive requests bring the file piece by piece exactly when there is no request for a
file that cannot be delivered, and otherwise every range lies inside the file and holds what the
file begins with. -/
theorem tilesFile_iff (h : ReadsCorrectly read addr sizeofBuff2 good file) {s : σ} (hs : good s)
    {irps : List ReadIrp} (hirps : Consecutive 0 irps) :
    TilesFile file irps (serve read addr irps s) ↔
      match fitting sizeofBuff2 file with
      | none => irps = []
      | some content => ∀ pIrp ∈ irps, pIrp.InFront content := by
  cases hfits : fitting sizeofBuff2 file with
  | none =>
      rcases serve_of_not_fitting h hfits irps hs with ⟨hlength, hdone⟩
      simp only
      constructor
      · intro htiles
        by_contra hne
        have hpos := List.length_pos_iff.mpr hne
        rw [← hlength] at hpos
        rcases List.exists_mem_of_length_pos hpos with ⟨done, hmem⟩
        rcases hdone done hmem with ⟨hcode, hstatus⟩
        have herror := (htiles.refused done hmem hcode).1
        rw [hstatus] at herror
        exact herror (by decide)
      · rintro rfl
        exact ⟨by simp [hfits], by simp [hfits], by simp [hfits], by simp [serve]⟩
  | some content =>
      have hserve := serve_of_fitting h hfits irps hs
      have hreturned : (serve read addr irps s).flatMap Completion.returned =
          irps.flatMap fun pIrp => (pIrp.completion content).returned := by
        rw [hserve, List.flatMap_map]
      have hinitial : (∀ pIrp ∈ irps, pIrp.length.toNat ≤ content.length) →
          ((serve read addr irps s).flatMap Completion.returned <+: content ↔
            ∀ pIrp ∈ irps, pIrp.InFront content) := by
        intro hproduced
        rw [hreturned, ← inTurn_completions_iff (Nat.zero_le _) hirps hproduced,
          ← flatten_isPrefix_drop_iff, List.drop_zero, List.flatMap_def]
      simp only
      constructor
      · intro htiles
        refine (hinitial fun pIrp hmem => ?_).mp (htiles.initial content hfits)
        have hproduced := htiles.produced content hfits
        rw [hserve] at hproduced
        exact hproduced _ (List.mem_map_of_mem hmem)
      · intro hfront
        have hproduced : ∀ pIrp ∈ irps, pIrp.length.toNat ≤ content.length := by
          intro pIrp hmem
          have hrange := (hfront pIrp hmem).1
          omega
        refine ⟨fun content' hcontent => ?_, fun content' hcontent hcover => ?_,
          fun content' hcontent done hmem => ?_, fun done hmem hcode => ?_⟩
        · rw [hfits] at hcontent
          cases hcontent
          exact (hinitial hproduced).mpr hfront
        · rw [hfits] at hcontent
          cases hcontent
          -- a beginning as long as the file is the file
          refine ((hinitial hproduced).mpr hfront).eq_of_length_le ?_
          rw [hreturned, length_completions hproduced]
          exact hcover
        · rw [hfits] at hcontent
          cases hcontent
          rw [hserve] at hmem
          rcases List.mem_map.mp hmem with ⟨pIrp, hpIrp, rfl⟩
          exact hproduced pIrp hpIrp
        · rw [hserve] at hmem
          rcases List.mem_map.mp hmem with ⟨pIrp, -, rfl⟩
          exact absurd hcode (by simp [ReadIrp.completion])

end Serve

/-! ## The reader behind the driver -/

/-- {lit}`read_file_from_disk` on an image.  The call of {lit}`init_read_file_from_disk` before it
sets what the globals hold already. -/
def diskReader (g : Globals) : DiskReader World := fun fileName size w m =>
  let r := readWith g fileName size w m
  (r.1, r.2.mem, r.2)

variable {g : Globals}

/-- A single planned read stores the bytes that the image holds at its source. -/
theorem delivered_single {reads : List ExtentRead} {content : List Byte} {src : Nat}
    (hreads : reads.map (fun r => (r.dst g, r.got g, r.src)) = [(0, content.length, src)])
    (hsrc : ∀ i < content.length, g.file.getD (src + i) = content.getD i 0) (m : Memory Byte) :
    delivered g reads m = m.write 0 content := by
  have hpatches : reads.map (·.patch g) =
      [{ dst := 0, len := content.length, val := fun i => g.file.getD (src + i) }] := by
    have hmap := congrArg (List.map fun t : Int × Nat × Nat =>
      ({ dst := t.1, len := t.2.1, val := fun i => g.file.getD (t.2.2 + i) } : Patch Byte)) hreads
    rw [List.map_map] at hmap
    exact hmap
  rw [delivered, hpatches]
  funext a
  change m.blit 0 content.length (fun i => g.file.getD (src + i)) a =
    m.blit 0 content.length (fun i => content.getD i 0) a
  by_cases ha : 0 ≤ a ∧ a < 0 + content.length
  · rw [Memory.blit_inside ha.1 ha.2, Memory.blit_inside ha.1 ha.2, hsrc _ (by omega)]
  · rw [Memory.blit_outside (by omega), Memory.blit_outside (by omega)]

/-- What is known of a state of which nothing is known. -/
def nothingKnown : Known where
  blockBuf := fun _ => none
  pos := none

theorem nothingKnown_of (w : World) : nothingKnown.Of w := by
  refine ⟨fun a x hx => ?_, fun p hp => ?_⟩
  · cases hx
  · cases hp

/-- The reader is correct for a file that it looks up and reads inside what the image supplies,
when one call of it brings the file. -/
theorem readsCorrectly_diskReader {fileName : List Byte} {capacity : BitVec 64} {w : World}
    {f : Located} {content : List Byte}
    (hdetermined : Determined g capacity nothingKnown fileName g.rootino)
    (hserved : Served g fileName capacity w f) (hfits : content.length ≤ capacity.toNat)
    (hdelivered : ∀ m, delivered g (f.reads g) m = m.write 0 content) :
    ReadsCorrectly (diskReader g) fileName capacity (fun _ => True) (some content) := by
  have hfile : fitting capacity (some content) = some content := by
    simp [fitting, hfits]
  refine ⟨fun _ _ _ => trivial, fun s m content' _ hcontent => ?_, fun s m _ hnone => ?_⟩
  · rw [hfile] at hcontent
    cases hcontent
    rcases readWith_determined hdetermined (nothingKnown_of s) (nothingKnown_of w) m with
      ⟨hcode, hmem⟩
    rcases readWith_mem hserved m with ⟨hserved', hbuf⟩
    refine ⟨hcode.trans (readFileFromDisk_served hserved').1, ?_⟩
    exact (hmem.trans hbuf).trans (hdelivered m)
  · rw [hfile] at hnone
    cases hnone

/-! ## Two requests -/

/-- A file of four bytes, two letters twice each. -/
def doubledLetters : List Byte :=
  [0x61#8, 0x61#8, 0x62#8, 0x62#8]

/-- An image with this file. -/
def doubledGlobals : Globals :=
  (init .linux64 (singleFileImage (fileCore 4 1) [extentRecord 0 6 1] [(3072, doubledLetters)]
    4096)).1

/-- The reader is correct for this file. -/
theorem readsCorrectly_doubledLetters :
    ReadsCorrectly (diskReader doubledGlobals) [slash, 0x61#8] sizeofBuff2 (fun _ => True)
      (some doubledLetters) := by
  have hroot : doubledGlobals.rootino = 8 := by decide +kernel
  have hlookup : knownLookup doubledGlobals nothingKnown (BitVec.setWidth 32 8#64) [0x61#8] 8 =
      some (.ok ([], 9)) := by
    decide +kernel
  have hwalk : (walk doubledGlobals [slash, 0x61#8] doubledGlobals.rootino
      (startWorld 0 zeroed)).1 = .ok 9 := by
    decide +kernel
  have hread : ((locatedAt doubledGlobals [slash, 0x61#8] (startWorld 0 zeroed) 9).reads
      doubledGlobals).map (fun r => (r.dst doubledGlobals, r.got doubledGlobals, r.src)) =
        [(0, doubledLetters.length, 3072)] := by
    decide +kernel
  refine readsCorrectly_diskReader ?_ (served_locatedAt hwalk (by decide +kernel))
    (by decide) (delivered_single hread (by decide +kernel))
  rw [hroot]
  exact .turn hlookup (.of_content (by decide +kernel) (by decide +kernel))

/-- A request with a system buffer of zeros. -/
def readIrp (off : BitVec 64) (len : BitVec 32) : ReadIrp where
  length := len
  byteOffset := off
  systemBuffer := zeroed
  stack := zeroed

/-- Two requests for the two equal letters that the file begins with. -/
theorem tilesFile_doubledLetters :
    TilesFile (some doubledLetters) [readIrp 0 1, readIrp 1 1]
      (serve (diskReader doubledGlobals) [slash, 0x61#8] [readIrp 0 1, readIrp 1 1]
        (startWorld 0 zeroed)) := by
  have hfront : ∀ pIrp ∈ [readIrp 0 1, readIrp 1 1], pIrp.InFront doubledLetters := by decide
  have hirps : Consecutive 0 [readIrp 0 1, readIrp 1 1] := by simp [Consecutive, readIrp]
  exact (tilesFile_iff readsCorrectly_doubledLetters trivial hirps).mpr hfront

/-- Two requests for two bytes each bring the front of the file twice. -/
theorem not_tilesFile_doubledLetters :
    let irps := [readIrp 0 2, readIrp 2 2]
    let completions := serve (diskReader doubledGlobals) [slash, 0x61#8] irps (startWorld 0 zeroed)
    ReadsCorrectly (diskReader doubledGlobals) [slash, 0x61#8] sizeofBuff2 (fun _ => True)
        (some doubledLetters) ∧
      Consecutive 0 irps ∧
      completions.flatMap Completion.returned = [0x61#8, 0x61#8, 0x61#8, 0x61#8] ∧
      ¬TilesFile (some doubledLetters) irps completions := by
  intro irps completions
  have hreturned : completions.flatMap Completion.returned =
      [0x61#8, 0x61#8, 0x61#8, 0x61#8] := by
    decide +kernel
  refine ⟨readsCorrectly_doubledLetters, by simp [irps, Consecutive, readIrp], hreturned,
    fun h => ?_⟩
  have hinitial := h.initial doubledLetters (by decide)
  rw [hreturned] at hinitial
  simp [doubledLetters] at hinitial

end Xfsd

import Srv32.Iss.Memory
import Srv32.Data.Patch
import Srv32.Bits

/-! `elf32_read` of `elfloader.c`. A segment is read and written with its size in memory, so the
file has to hold all of that, and what follows the file's part is not cleared. -/

namespace Srv32.Iss

@[simp] abbrev ptLoad : Word := 1#32

/-- A half word, low byte first. -/
def halfOfBytes (b : ℕ → Byte) : BitVec 16 := b 1 ++ b 0

/-- `Elf32_Ehdr`: what the loader and the layout of the table use. -/
structure Ehdr where
  ePhoff : Word
  ePhentsize : BitVec 16
  ePhnum : BitVec 16
  deriving DecidableEq, Repr

structure Phdr where
  pType : Word
  pOffset : Word
  pVaddr : Word
  pPaddr : Word
  pFilesz : Word
  pMemsz : Word
  pFlags : Word
  pAlign : Word
  deriving DecidableEq, Repr

def sizeofEhdr : ℕ := 52
def sizeofPhdr : ℕ := 32

def Ehdr.ofBytes (b : ℕ → Byte) : Ehdr where
  ePhoff := wordOfBytes fun i => b (28 + i)
  ePhentsize := halfOfBytes fun i => b (42 + i)
  ePhnum := halfOfBytes fun i => b (44 + i)

def Phdr.ofBytes (b : ℕ → Byte) : Phdr where
  pType := wordOfBytes b
  pOffset := wordOfBytes fun i => b (4 + i)
  pVaddr := wordOfBytes fun i => b (8 + i)
  pPaddr := wordOfBytes fun i => b (12 + i)
  pFilesz := wordOfBytes fun i => b (16 + i)
  pMemsz := wordOfBytes fun i => b (20 + i)
  pFlags := wordOfBytes fun i => b (24 + i)
  pAlign := wordOfBytes fun i => b (28 + i)

/-- The bytes of a file from `pos` on. -/
def fileAt (file : List Byte) (pos i : ℕ) : Byte := file.getD (pos + i) 0#8

/-- `fseek` to `pos` and `fread` of one item: it returns 0 for an item of no size, and for one the
file does not hold whole. -/
def fread (file : List Byte) (pos size : ℕ) : Option (ℕ → Byte) :=
  if size = 0 ∨ file.length < pos + size then none else some (fileAt file pos)

/-- The loop over the program headers; `malloc` tells whether an allocation succeeds. -/
def loadSegments (malloc : ℕ → Bool) (file : List Byte) : List Phdr → Rv → Ret × Rv
  | [], rv => (.code 1#32, rv)
  | ph :: phs, rv =>
    if ph.pType ≠ ptLoad then loadSegments malloc file phs rv
    else if !malloc ph.pMemsz.toNat then (.code 0#32, rv)
    else
      -- the size is converted to an `int`, and back to a `size_t`
      match fread file ph.pOffset.toNat (ph.pMemsz.signExtend 64).toNat with
      | none => (.code 0#32, rv)
      | some ptr =>
        match rv.writeMem ph.pVaddr ph.pMemsz ptr with
        | none => (.exit (-1#32), rv)
        | some rv => loadSegments malloc file phs rv

def elf32Read (malloc : ℕ → Bool) (file : List Byte) (rv : Rv) : Ret × Rv :=
  match fread file 0 sizeofEhdr with
  | none => (.code 0#32, rv)
  | some b =>
    let ehdr := Ehdr.ofBytes b
    let size := sizeofPhdr * ehdr.ePhnum.toNat
    if !malloc size then (.code 0#32, rv)
    else
      match fread file ehdr.ePhoff.toNat size with
      | none => (.code 0#32, rv)
      | some t => loadSegments malloc file
          ((List.range ehdr.ePhnum.toNat).map fun i => .ofBytes fun j => t (sizeofPhdr * i + j)) rv

/-! What loading a file is. -/

def ehdrOf (file : List Byte) : Ehdr := .ofBytes (fileAt file 0)

/-- The program header table, with the entry size the header gives. -/
def phdrsOf (file : List Byte) : List Phdr :=
  (List.range (ehdrOf file).ePhnum.toNat).map fun i =>
    .ofBytes (fileAt file ((ehdrOf file).ePhoff.toNat + (ehdrOf file).ePhentsize.toNat * i))

/-- The segments to load. -/
def segmentsOf (file : List Byte) : List Phdr := (phdrsOf file).filter fun ph => ph.pType = ptLoad

/-- What a segment leaves at its addresses: `n` bytes of the file. -/
def Phdr.patch (file : List Byte) (rv : Rv) (n : ℕ) (ph : Phdr) : Patch Byte :=
  ⟨rv.offset ph.pVaddr, n, fileAt file ph.pOffset.toNat⟩

/-- All of the segment in memory. -/
def Phdr.extent (file : List Byte) (rv : Rv) (ph : Phdr) : Patch Byte :=
  ph.patch file rv ph.pMemsz.toNat

/-- A well-formed file for the memory of `rv`. -/
structure WellFormed (file : List Byte) (rv : Rv) : Prop where
  header : sizeofEhdr ≤ file.length
  entsize : (ehdrOf file).ePhnum ≠ 0#16 → (ehdrOf file).ePhentsize.toNat = sizeofPhdr
  table : (ehdrOf file).ePhnum ≠ 0#16 →
    (ehdrOf file).ePhoff.toNat + sizeofPhdr * (ehdrOf file).ePhnum.toNat ≤ file.length
  sizes : ∀ ph ∈ segmentsOf file, ph.pFilesz.toNat ≤ ph.pMemsz.toNat
  inFile : ∀ ph ∈ segmentsOf file, ph.pOffset.toNat + ph.pFilesz.toNat ≤ file.length
  inMemory : ∀ ph ∈ segmentsOf file,
    (ph.pVaddr - rv.memBase).toNat + ph.pMemsz.toNat ≤ rv.memSize.toNat
  disjoint : ((segmentsOf file).map (Phdr.extent file rv)).Pairwise Patch.Disjoint

/-- The file is loaded: the loader returns 1, each segment holds its part of the file and zeros
after it, and nothing else has changed. -/
structure Loaded (file : List Byte) (rv : Rv) (r : Ret × Rv) : Prop where
  okay : r.1 = .code 1#32
  frame : r.2 = { rv with mem := r.2.mem }
  part : ∀ ph ∈ segmentsOf file, ∀ k < ph.pFilesz.toNat,
    r.2.mem (rv.offset ph.pVaddr + k) = fileAt file ph.pOffset.toNat k
  zero : ∀ ph ∈ segmentsOf file, ∀ k < ph.pMemsz.toNat, ph.pFilesz.toNat ≤ k →
    r.2.mem (rv.offset ph.pVaddr + k) = 0#8
  rest : ∀ j, (∀ ph ∈ segmentsOf file, ¬ (ph.extent file rv).Covers j) → r.2.mem j = rv.mem j

/-- A segment is read and written: it has some memory, all of it in the file, and passes the bound
check. -/
def Phdr.Passes (file : List Byte) (rv : Rv) (ph : Phdr) : Prop :=
  ph.pMemsz ≠ 0#32 ∧ ph.pOffset.toNat + ph.pMemsz.toNat ≤ file.length ∧
    rv.memOk ph.pVaddr ph.pMemsz = true

/-- There is a table, every segment passes, and the file has zeros where memory is to have them. -/
structure Loadable (file : List Byte) (rv : Rv) : Prop where
  some : (ehdrOf file).ePhnum ≠ 0#16
  passes : ∀ ph ∈ segmentsOf file, ph.Passes file rv
  zero : ∀ ph ∈ segmentsOf file, ∀ k < ph.pMemsz.toNat, ph.pFilesz.toNat ≤ k →
    fileAt file ph.pOffset.toNat k = 0#8

variable {malloc : ℕ → Bool} {file : List Byte} {rv : Rv} {ph : Phdr} {phs : List Phdr}

/-! The loop. -/

theorem fread_eq_some_iff {pos size : ℕ} {b : ℕ → Byte} :
    fread file pos size = some b ↔
      size ≠ 0 ∧ pos + size ≤ file.length ∧ b = fileAt file pos := by
  rw [fread]
  split_ifs with h
  · constructor
    · intro hn
      cases hn
    · intro hn
      exfalso
      omega
  · rw [Option.some.injEq]
    constructor
    · intro hb
      exact ⟨by omega, by omega, hb.symm⟩
    · exact fun hb => hb.2.2.symm

/-- The size as a `size_t`, when it is no negative `int`. -/
theorem toNat_size {n : Word} (hn : n.toNat < 2 ^ 31) : (n.signExtend 64).toNat = n.toNat := by
  have hmsb : n.msb = false := by
    rw [BitVec.msb_eq_false_iff_two_mul_lt]
    omega
  rw [BitVec.signExtend_eq_setWidth_of_msb_false hmsb, BitVec.toNat_setWidth]
  omega

theorem writeMem_patch {m : ℤ → Byte} (hn : ph.pMemsz.toNat < 2 ^ 31)
    (hok : rv.memOk ph.pVaddr ph.pMemsz = true) :
    ({ rv with mem := m } : Rv).writeMem ph.pVaddr ph.pMemsz (fileAt file ph.pOffset.toNat) =
      some { rv with mem := (ph.extent file rv).apply m } := by
  have hint : ph.pMemsz.toInt = ph.pMemsz.toNat := by
    rw [BitVec.toInt_eq_toNat_cond, if_pos (by omega)]
  have hcopy : ({ rv with mem := m } : Rv).copyIn (rv.offset ph.pVaddr) ph.pMemsz.toInt
      (fileAt file ph.pOffset.toNat) = (ph.extent file rv).apply m := by
    funext j
    rw [Rv.copyIn, hint]
    rfl
  rw [← hcopy]
  exact if_pos hok

/-- When every segment passes, the loop writes them all. -/
theorem loadSegments_passes (hmalloc : ∀ n, 0 < n → malloc n = true) {m : ℤ → Byte}
    (hlt : ∀ ph ∈ phs, ph.pType = ptLoad → ph.pMemsz.toNat < 2 ^ 31)
    (hp : ∀ ph ∈ phs, ph.pType = ptLoad → ph.Passes file rv) :
    loadSegments malloc file phs { rv with mem := m } = (.code 1#32, { rv with
      mem := Patch.applyAll
        ((phs.filter fun ph => ph.pType = ptLoad).map (Phdr.extent file rv)) m }) := by
  induction phs generalizing m with
  | nil => rfl
  | cons ph phs ih =>
    have hlt' := fun q hq => hlt q (List.mem_cons_of_mem ph hq)
    have hp' := fun q hq => hp q (List.mem_cons_of_mem ph hq)
    rw [loadSegments]
    by_cases ht : ph.pType = ptLoad
    · obtain ⟨hne, hfile, hok⟩ := hp ph List.mem_cons_self ht
      have hn := hlt ph List.mem_cons_self ht
      have hpos : ph.pMemsz.toNat ≠ 0 := fun h => hne (BitVec.eq_of_toNat_eq h)
      have hread : fread file ph.pOffset.toNat (ph.pMemsz.signExtend 64).toNat =
          some (fileAt file ph.pOffset.toNat) := by
        rw [toNat_size hn]
        exact fread_eq_some_iff.mpr ⟨hpos, hfile, rfl⟩
      rw [if_neg (not_not.mpr ht), hmalloc _ (by omega), if_neg (by simp), hread]
      simp only
      rw [writeMem_patch hn hok]
      simp only
      rw [ih hlt' hp', List.filter_cons_of_pos (by simpa using ht), List.map_cons,
        Patch.applyAll_cons]
    · rw [if_pos ht, ih hlt' hp', List.filter_cons_of_neg (by simpa using ht)]

/-- One that does not pass ends the loop without success. -/
theorem loadSegments_stops {m : ℤ → Byte} (hph : ph ∈ phs) (ht : ph.pType = ptLoad)
    (hlt : ∀ ph ∈ phs, ph.pType = ptLoad → ph.pMemsz.toNat < 2 ^ 31)
    (hp : ¬ ph.Passes file rv) :
    (loadSegments malloc file phs { rv with mem := m }).1 ≠ .code 1#32 := by
  induction phs generalizing m with
  | nil => cases hph
  | cons q phs ih =>
    have hlt' := fun r hr => hlt r (List.mem_cons_of_mem q hr)
    have hrest : ∀ m', ph ∈ phs →
        (loadSegments malloc file phs { rv with mem := m' }).1 ≠ .code 1#32 :=
      fun m' hmem => ih hmem hlt'
    rw [loadSegments]
    by_cases htq : q.pType = ptLoad
    · have hn := hlt q List.mem_cons_self htq
      rw [if_neg (not_not.mpr htq)]
      split_ifs
      · simp
      cases hread : fread file q.pOffset.toNat (q.pMemsz.signExtend 64).toNat with
      | none => simp
      | some b =>
        rw [toNat_size hn, fread_eq_some_iff] at hread
        obtain ⟨hne, hfile, rfl⟩ := hread
        cases hok : rv.memOk q.pVaddr q.pMemsz with
        | false =>
          have hw : ({ rv with mem := m } : Rv).writeMem q.pVaddr q.pMemsz
              (fileAt file q.pOffset.toNat) = none := by
            have hoff : ¬ ({ rv with mem := m } : Rv).memOk q.pVaddr q.pMemsz = true := by
              change ¬ rv.memOk q.pVaddr q.pMemsz = true
              simp [hok]
            exact if_neg hoff
          simp only [hw]
          simp
        | true =>
          simp only [writeMem_patch hn hok]
          apply hrest
          rcases List.mem_cons.mp hph with rfl | hmem
          · exact absurd ⟨fun h => hne (by rw [h]; rfl), hfile, hok⟩ hp
          · exact hmem
    · rw [if_pos htq]
      apply hrest
      rcases List.mem_cons.mp hph with rfl | hmem
      · exact absurd ht htq
      · exact hmem

/-! The loader. -/

theorem mem_segmentsOf : ph ∈ segmentsOf file ↔ ph ∈ phdrsOf file ∧ ph.pType = ptLoad := by
  rw [segmentsOf, List.mem_filter, decide_eq_true_eq]

/-- The loader comes to the loop with the table of the file, unless that is empty. -/
theorem elf32Read_eq (hmalloc : ∀ n, 0 < n → malloc n = true) (hf : WellFormed file rv)
    (hn : (ehdrOf file).ePhnum ≠ 0#16) :
    elf32Read malloc file rv = loadSegments malloc file (phdrsOf file) rv := by
  have hpos : (ehdrOf file).ePhnum.toNat ≠ 0 := fun h => hn (BitVec.eq_of_toNat_eq h)
  have hhead : fread file 0 sizeofEhdr = some (fileAt file 0) :=
    fread_eq_some_iff.mpr ⟨by decide, by rw [Nat.zero_add]; exact hf.header, rfl⟩
  have hsize : 0 < sizeofPhdr * (ehdrOf file).ePhnum.toNat :=
    Nat.mul_pos (by decide) (by omega)
  have htable : fread file (ehdrOf file).ePhoff.toNat
      (sizeofPhdr * (ehdrOf file).ePhnum.toNat) = some (fileAt file (ehdrOf file).ePhoff.toNat) :=
    fread_eq_some_iff.mpr ⟨by omega, hf.table hn, rfl⟩
  have hentry : ∀ i, (Phdr.ofBytes fun j =>
      fileAt file (ehdrOf file).ePhoff.toNat (sizeofPhdr * i + j)) = .ofBytes
        (fileAt file ((ehdrOf file).ePhoff.toNat + (ehdrOf file).ePhentsize.toNat * i)) := by
    intro i
    congr 1
    funext j
    rw [fileAt, fileAt, hf.entsize hn, Nat.add_assoc]
  rw [elf32Read, hhead]
  simp only
  rw [← ehdrOf, hmalloc _ hsize, if_neg (by simp), htable]
  simp only [hentry]
  rfl

theorem elf32Read_empty (hf : WellFormed file rv) (hn : (ehdrOf file).ePhnum = 0#16) :
    (elf32Read malloc file rv).1 ≠ .code 1#32 := by
  have hhead : fread file 0 sizeofEhdr = some (fileAt file 0) :=
    fread_eq_some_iff.mpr ⟨by decide, by rw [Nat.zero_add]; exact hf.header, rfl⟩
  rw [elf32Read, hhead]
  simp only
  rw [← ehdrOf, hn]
  split_ifs
  · simp
  · simp [fread]

theorem loaded_iff (hf : WellFormed file rv) :
    Loaded file rv (.code 1#32, { rv with
      mem := Patch.applyAll ((segmentsOf file).map (Phdr.extent file rv)) rv.mem }) ↔
      ∀ ph ∈ segmentsOf file, ∀ k < ph.pMemsz.toNat, ph.pFilesz.toNat ≤ k →
        fileAt file ph.pOffset.toNat k = 0#8 := by
  have hmem : ∀ ph ∈ segmentsOf file, ∀ k < ph.pMemsz.toNat,
      Patch.applyAll ((segmentsOf file).map (Phdr.extent file rv)) rv.mem
        (rv.offset ph.pVaddr + k) = fileAt file ph.pOffset.toNat k := by
    intro ph hph k hk
    exact Patch.applyAll_add hf.disjoint (List.mem_map_of_mem hph) hk
  constructor
  · intro h ph hph k hk hz
    rw [← hmem ph hph k hk]
    exact h.zero ph hph k hk hz
  · intro h
    refine ⟨rfl, rfl, ?_, ?_, ?_⟩
    · intro ph hph k hk
      exact hmem ph hph k (Nat.lt_of_lt_of_le hk (hf.sizes ph hph))
    · intro ph hph k hk hz
      exact (hmem ph hph k hk).trans (h ph hph k hk hz)
    · intro j hj
      apply Patch.applyAll_of_not_covers
      intro p hp
      obtain ⟨ph, hph, rfl⟩ := List.mem_map.mp hp
      exact hj ph hph

/-- For every well-formed file, and memory that was allocated: the file is loaded exactly when its
table is not empty, no segment is empty, the file goes on for the whole of each segment's memory
with zeros after its own part, and the bound check accepts each segment. -/
theorem elf_loaded_iff (hmalloc : ∀ n, 0 < n → malloc n = true) (hsize : rv.memSize.toNat < 2 ^ 31)
    (hf : WellFormed file rv) :
    Loaded file rv (elf32Read malloc file rv) ↔ Loadable file rv := by
  by_cases hn : (ehdrOf file).ePhnum = 0#16
  · exact iff_of_false (fun h => elf32Read_empty hf hn h.okay) fun h => h.some hn
  have hlt : ∀ ph ∈ phdrsOf file, ph.pType = ptLoad → ph.pMemsz.toNat < 2 ^ 31 := by
    intro ph hph ht
    have := hf.inMemory ph (mem_segmentsOf.mpr ⟨hph, ht⟩)
    omega
  rw [elf32Read_eq hmalloc hf hn]
  by_cases hp : ∀ ph ∈ segmentsOf file, ph.Passes file rv
  · have hloop : loadSegments malloc file (phdrsOf file) rv = (.code 1#32, { rv with
        mem := Patch.applyAll ((segmentsOf file).map (Phdr.extent file rv)) rv.mem }) :=
      loadSegments_passes hmalloc (m := rv.mem) hlt
        fun ph hph ht => hp ph (mem_segmentsOf.mpr ⟨hph, ht⟩)
    rw [hloop, loaded_iff hf]
    constructor
    · exact fun hz => ⟨hn, hp, hz⟩
    · exact fun h => h.zero
  · refine iff_of_false (fun h => ?_) fun h => hp h.passes
    apply hp
    intro ph hph
    by_contra hno
    obtain ⟨hmem, ht⟩ := mem_segmentsOf.mp hph
    exact loadSegments_stops (m := rv.mem) hmem ht hlt hno h.okay

def bytesOf (ws : List Word) : List Byte := ws.flatMap fun w => (List.range 4).map (byteOfWord w)

/-- A file that ends with its one segment: a byte of file, and `memsz` bytes of memory at 0. -/
def oneSegment (memsz : Word) : List Byte :=
  [0x7f#8, 0x45#8, 0x4c#8, 0x46#8, 1#8, 1#8, 1#8] ++ List.replicate 21 0#8 ++ bytesOf [52#32] ++
    List.replicate 10 0#8 ++ [32#8, 0#8, 1#8, 0#8] ++ List.replicate 6 0#8 ++
    bytesOf [1#32, 84#32, 0#32, 0#32, 1#32, memsz, 7#32, 4#32] ++ [0x13#8]

def smallRam : Rv := .boot .rv32im 1 fun _ => 0x55#8

theorem wellFormed_oneSegment {memsz : Word} (hm : 1 ≤ memsz.toNat ∧ memsz.toNat ≤ 2048)
    (hlen : (oneSegment memsz).length = 85) (he : ehdrOf (oneSegment memsz) = ⟨52#32, 32#16, 1#16⟩)
    (hs : segmentsOf (oneSegment memsz) =
      [⟨1#32, 84#32, 0#32, 0#32, 1#32, memsz, 7#32, 4#32⟩]) :
    WellFormed (oneSegment memsz) smallRam := by
  refine ⟨?_, ?_, ?_, ?_, ?_, ?_, ?_⟩
  · rw [hlen]
    decide
  · rw [he]
    exact fun _ => rfl
  · rw [he, hlen]
    exact fun _ => by decide
  · rw [hs]
    simpa using hm.1
  · rw [hs, hlen]
    simp
  · rw [hs]
    simpa [smallRam, Rv.boot] using hm.2
  · rw [hs]
    simp

/-- One byte of uninitialised data: the file ends before it, and is refused. -/
theorem elf_bss_refused :
    WellFormed (oneSegment 2#32) smallRam ∧
      (elf32Read (fun _ => true) (oneSegment 2#32) smallRam).1 = .code 0#32 ∧
      ¬ Loaded (oneSegment 2#32) smallRam
        (elf32Read (fun _ => true) (oneSegment 2#32) smallRam) := by
  have hread : (elf32Read (fun _ => true) (oneSegment 2#32) smallRam).1 = .code 0#32 := by
    decide +kernel
  refine ⟨?_, hread, fun h => ?_⟩
  · exact wellFormed_oneSegment (by decide) (by decide) (by decide +kernel) (by decide +kernel)
  · exact absurd (hread.symm.trans h.okay) (by decide)

/-- Without it the file is loaded. -/
theorem elf_loaded_byte :
    Loaded (oneSegment 1#32) smallRam (elf32Read (fun _ => true) (oneSegment 1#32) smallRam) := by
  have hs : segmentsOf (oneSegment 1#32) =
      [⟨1#32, 84#32, 0#32, 0#32, 1#32, 1#32, 7#32, 4#32⟩] := by decide +kernel
  refine (elf_loaded_iff (fun _ _ => rfl) (by decide)
    (wellFormed_oneSegment (by decide) (by decide) (by decide +kernel) hs)).mpr ⟨?_, ?_, ?_⟩
  · decide +kernel
  · rw [hs]
    intro ph hph
    rw [List.mem_singleton.mp hph]
    exact ⟨by decide, by decide, by decide⟩
  · rw [hs]
    intro ph hph k hk hz
    rw [List.mem_singleton.mp hph] at hk hz
    simp at hk hz
    omega

end Srv32.Iss

import Srv32.Iss.Elf
import Srv32.Rtl.Memory

/-! From an ELF file to the memories of the testbench: `sim/elfloader.c` splits it over the two
memories, `elfread` of `sim_main.cpp` writes `imem.bin` and `dmem.bin`, and `mem2ports` reads them
when it starts. -/

namespace Srv32.Iss

/-- `elfloader` of both programs, around their `elf32_read`: it looks at the magic number and the
class. `mem` is what the caller has before. -/
def elfloader {α : Type*} (file : List Byte) (mem : α) (read : Ret × α) : Ret × α :=
  match fread file 0 16 with
  | none => (.code 0#32, mem)
  | some header =>
    if header 0 = 0x7f#8 ∨ header 1 = 0x45#8 then
      if header 4 = 1#8 then read else (.code 0#32, mem)
    else (.code 0#32, mem)

end Srv32.Iss

namespace Srv32.Rtl

open Iss (Ret Phdr Ehdr ptLoad fread fileAt sizeofEhdr sizeofPhdr elfloader wordOfBytes byteOfWord)

/-- The parameters `imem_base` … `dmem_size` of the loader. -/
structure Layout where
  imemBase : Word
  dmemBase : Word
  imemSize : Word
  dmemSize : Word

/-- Where the loader reads a segment to, as an index of `mem`: `&imem[idx]` is `&mem[idx]`, and
`&dmem[idx]` is `&mem[imem_size + idx]`. -/
def Layout.place (l : Layout) (ph : Phdr) : Option ℤ :=
  if l.imemBase.sle ph.pVaddr ∧ (ph.pVaddr + ph.pMemsz).sle (l.imemBase + l.imemSize) then
    some (ph.pVaddr - l.imemBase).toInt
  else if l.dmemBase.sle ph.pVaddr ∧ (ph.pVaddr + ph.pMemsz).sle (l.dmemBase + l.dmemSize) then
    some (l.imemSize.toInt + (ph.pVaddr - l.dmemBase).toInt)
  else none

/-- The loop over the program headers. -/
def loadSegments (l : Layout) (file : List Byte) : List Phdr → (ℤ → Byte) → Ret × (ℤ → Byte)
  | [], mem => (.code 1#32, mem)
  | ph :: phs, mem =>
    if ph.pType ≠ ptLoad then loadSegments l file phs mem
    else
      match l.place ph with
      | none => (.exit (-1#32), mem)
      | some start =>
        let size := (ph.pMemsz.signExtend 64).toNat
        match fread file ph.pOffset.toNat size with
        | none => (.code 0#32, mem)
        | some src => loadSegments l file phs ((⟨start, size, src⟩ : Patch Byte).apply mem)

def elf32Read (l : Layout) (malloc : ℕ → Bool) (file : List Byte) (mem : ℤ → Byte) :
    Ret × (ℤ → Byte) :=
  match fread file 0 sizeofEhdr with
  | none => (.code 0#32, mem)
  | some b =>
    let ehdr := Ehdr.ofBytes b
    let size := sizeofPhdr * ehdr.ePhnum.toNat
    if !malloc size then (.code 0#32, mem)
    else
      match fread file ehdr.ePhoff.toNat size with
      | none => (.code 0#32, mem)
      | some t => loadSegments l file
          ((List.range ehdr.ePhnum.toNat).map fun i => .ofBytes fun j => t (sizeofPhdr * i + j)) mem

/-- `elfread`: the contents of `imem.bin` and `dmem.bin`, if it does not exit; `fresh` is what
`malloc` leaves in `mem`. -/
def elfread (memsize : ℕ) (malloc : ℕ → Bool) (file : List Byte) (fresh : ℤ → Byte) :
    Option (List Byte × List Byte) :=
  let size := BitVec.ofNat 32 (ramSize memsize)
  match elfloader file fresh (elf32Read ⟨0#32, size, size, size⟩ malloc file fresh) with
  | (.code r, mem) =>
    if r = 0#32 then none
    else some ((List.range (ramSize memsize)).map fun i : ℕ => mem i,
      (List.range (ramSize memsize)).map fun i : ℕ => mem (ramSize memsize + i : ℕ))
  | _ => none

/-- `$fread(data, file)`: it fills `data` from the top, as far as the file goes, and returns the
number of bytes. -/
def freadWord (rest : List Byte) (data : Word) : Word × ℕ :=
  match rest with
  | [] => (data, 0)
  | [b0] => (b0 ++ data.extractLsb' 0 24, 1)
  | [b0, b1] => (b0 ++ b1 ++ data.extractLsb' 0 16, 2)
  | [b0, b1, b2] => (b0 ++ b1 ++ b2 ++ data.extractLsb' 0 8, 3)
  | b0 :: b1 :: b2 :: b3 :: _ => (b0 ++ b1 ++ b2 ++ b3, 4)

/-- The bytes of `data` in the order `ram[i]` has them. -/
def swapBytes (data : Word) : Word :=
  data.extractLsb' 0 8 ++ data.extractLsb' 8 8 ++ data.extractLsb' 16 8 ++ data.extractLsb' 24 8

/-- The first `n` turns of the loop in the `initial` block of `mem2ports`: `data` and `ram`. -/
def meminit (noMeminit : Bool) (file : List Byte) (data : Word) (ram : ℕ → Word) :
    ℕ → Word × (ℕ → Word)
  | 0 => (data, ram)
  | n + 1 =>
    let (data, ram) := meminit noMeminit file data ram n
    let (data, r) := freadWord (file.drop (4 * n)) data
    if r ≠ 0 then (data, Function.update ram n (swapBytes data))
    else if !noMeminit then (data, Function.update ram n 0#32)
    else (data, ram)

/-- `ram` of a `mem2ports` that has read `file`. -/
def memoryOf (memsize : ℕ) (noMeminit : Bool) (file : List Byte) (data : Word) (ram : ℕ → Word) :
    ℕ → Word := (meminit noMeminit file data ram (ramSize memsize / 4)).2

/-! The memories hold the bytes of their files. -/

variable {file : List Byte} {data : Word} {ram : ℕ → Word} {noMeminit : Bool} {n i : ℕ}

theorem freadWord_eq (h : 4 * n + 4 ≤ file.length) : freadWord (file.drop (4 * n)) data =
    (file.getD (4 * n) 0#8 ++ file.getD (4 * n + 1) 0#8 ++ file.getD (4 * n + 2) 0#8 ++
      file.getD (4 * n + 3) 0#8, 4) := by
  have hd : file.drop (4 * n) = file.getD (4 * n) 0#8 :: file.getD (4 * n + 1) 0#8 ::
      file.getD (4 * n + 2) 0#8 :: file.getD (4 * n + 3) 0#8 :: file.drop (4 * n + 4) := by
    have hstep : ∀ j, j < file.length → file.drop j = file.getD j 0#8 :: file.drop (j + 1) := by
      intro j hj
      rw [List.drop_eq_getElem_cons hj, List.getD_eq_getElem?_getD, List.getElem?_eq_getElem hj]
      rfl
    rw [hstep (4 * n) (by omega), hstep (4 * n + 1) (by omega), hstep (4 * n + 2) (by omega),
      hstep (4 * n + 3) (by omega)]
  rw [hd, freadWord]

theorem byteOfWord_wordOfBytes (b : ℕ → Byte) {j : ℕ} (hj : j < 4) :
    byteOfWord (wordOfBytes b) j = b j := by
  apply BitVec.eq_of_getLsbD_eq
  intro i hi
  simp only [byteOfWord, wordOfBytes, BitVec.getLsbD_extractLsb', BitVec.getLsbD_append, hi,
    decide_true, Bool.true_and]
  rcases (by omega : j = 0 ∨ j = 1 ∨ j = 2 ∨ j = 3) with rfl | rfl | rfl | rfl
  · rw [if_pos (by omega), Nat.mul_zero, Nat.zero_add]
  · rw [if_neg (by omega), if_pos (by omega), show 8 * 1 + i - 8 = i by omega]
  · rw [if_neg (by omega), if_neg (by omega), if_pos (by omega),
      show 8 * 2 + i - 8 - 8 = i by omega]
  · rw [if_neg (by omega), if_neg (by omega), if_neg (by omega),
      show 8 * 3 + i - 8 - 8 - 8 = i by omega]

/-- What has come in at the top is at the bottom of the RAM word. -/
theorem swapBytes_eq (b : ℕ → Byte) : swapBytes (b 0 ++ b 1 ++ b 2 ++ b 3) = wordOfBytes b := by
  have hr : (b 0 ++ b 1 ++ b 2 ++ b 3 : Word) = wordOfBytes fun i => b (3 - i) := rfl
  have hx : ∀ j < 4, (b 0 ++ b 1 ++ b 2 ++ b 3 : Word).extractLsb' (8 * j) 8 = b (3 - j) := by
    intro j hj
    rw [hr]
    exact byteOfWord_wordOfBytes (fun i => b (3 - i)) hj
  rw [swapBytes, wordOfBytes]
  exact congrArg₂ _ (congrArg₂ _ (congrArg₂ _ (hx 0 (by omega)) (hx 1 (by omega)))
    (hx 2 (by omega))) (hx 3 (by omega))

/-- A file that fills the memory leaves its bytes there. -/
theorem meminit_eq (hn : 4 * n ≤ file.length) (hi : i < n) :
    (meminit noMeminit file data ram n).2 i = wordOfBytes fun j => file.getD (4 * i + j) 0#8 := by
  induction n with
  | zero => omega
  | succ n ih =>
    rw [meminit]
    simp only [freadWord_eq (show 4 * n + 4 ≤ file.length by omega)]
    rw [if_pos (by decide)]
    dsimp only
    by_cases hin : i = n
    · subst hin
      rw [Function.update_self]
      exact swapBytes_eq fun j => file.getD (4 * i + j) 0#8
    · rw [Function.update_of_ne hin]
      exact ih (by omega) (by omega)

theorem memoryOf_byte {memsize a : ℕ} (hf : file.length = ramSize memsize)
    (ha : a < ramSize memsize) :
    byteOfWord (memoryOf memsize noMeminit file data ram (a / 4)) (a % 4) = file.getD a 0#8 := by
  have h4 : ramSize memsize % 4 = 0 := by
    unfold ramSize
    omega
  rw [memoryOf, meminit_eq (by omega) (by omega), byteOfWord_wordOfBytes _ (by omega)]
  congr 1
  omega

end Srv32.Rtl

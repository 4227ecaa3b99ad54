import Srv32.Refine.Console
import Srv32.Rtl.Image

/-! The two programs load the same file: the memories of the testbench and the memory of the
simulator start out with the same bytes. -/

namespace Srv32.Iss

/-- The program headers as both loaders read them, if the file has them. -/
def tableOf (file : List Byte) : Option (List Phdr) :=
  let ehdr := ehdrOf file
  if sizeofEhdr ≤ file.length ∧ ehdr.ePhnum.toNat ≠ 0 ∧
      ehdr.ePhoff.toNat + sizeofPhdr * ehdr.ePhnum.toNat ≤ file.length then
    some ((List.range ehdr.ePhnum.toNat).map fun i =>
      .ofBytes fun j => fileAt file ehdr.ePhoff.toNat (sizeofPhdr * i + j))
  else none

def loadsOf (file : List Byte) : List Phdr :=
  ((tableOf file).getD []).filter fun ph => ph.pType = ptLoad

variable {malloc : ℕ → Bool} {file : List Byte} {rv : Rv}

/-- What both loaders do before their loop. -/
theorem readTable {α : Type*} (hmalloc : ∀ n, 0 < n → malloc n = true) (loop : List Phdr → Ret × α)
    (mem : α) :
    (match fread file 0 sizeofEhdr with
      | none => (.code 0#32, mem)
      | some b =>
        let ehdr := Ehdr.ofBytes b
        let size := sizeofPhdr * ehdr.ePhnum.toNat
        if !malloc size then (.code 0#32, mem)
        else
          match fread file ehdr.ePhoff.toNat size with
          | none => (.code 0#32, mem)
          | some t => loop ((List.range ehdr.ePhnum.toNat).map fun i =>
              .ofBytes fun j => t (sizeofPhdr * i + j))) =
      ((tableOf file).map loop).getD (.code 0#32, mem) := by
  by_cases hh : sizeofEhdr ≤ file.length
  · have hhead : fread file 0 sizeofEhdr = some (fileAt file 0) :=
      fread_eq_some_iff.mpr ⟨by decide, by rw [Nat.zero_add]; exact hh, rfl⟩
    rw [hhead]
    simp only
    rw [← ehdrOf]
    by_cases hn : (ehdrOf file).ePhnum.toNat = 0
    · have htab : tableOf file = none := if_neg fun h => h.2.1 hn
      rw [htab, hn]
      split_ifs
      · rfl
      · simp [fread]
    · have hpos : 0 < sizeofPhdr * (ehdrOf file).ePhnum.toNat := Nat.mul_pos (by decide) (by omega)
      rw [hmalloc _ hpos, if_neg (by simp)]
      by_cases ht : (ehdrOf file).ePhoff.toNat + sizeofPhdr * (ehdrOf file).ePhnum.toNat ≤
          file.length
      · rw [fread_eq_some_iff.mpr ⟨by omega, ht, rfl⟩, tableOf, if_pos ⟨hh, hn, ht⟩]
        rfl
      · have hnone : fread file (ehdrOf file).ePhoff.toNat
            (sizeofPhdr * (ehdrOf file).ePhnum.toNat) = none := by
          rw [fread, if_pos (Or.inr (by omega))]
        rw [hnone, tableOf, if_neg fun h => ht h.2.2]
        rfl
  · have hnone : fread file 0 sizeofEhdr = none := by
      rw [fread, if_pos (Or.inr (by omega))]
    rw [hnone, tableOf, if_neg fun h => hh h.1]
    rfl

theorem elf32Read_table (hmalloc : ∀ n, 0 < n → malloc n = true) : elf32Read malloc file rv =
    ((tableOf file).map fun phs => loadSegments malloc file phs rv).getD (.code 0#32, rv) :=
  readTable hmalloc (fun phs => loadSegments malloc file phs rv) rv

end Srv32.Iss

namespace Srv32.Rtl

open Iss (Ret Phdr Rv ptLoad fread fileAt tableOf loadsOf)

/-- The segment does not cross from one memory into the other. -/
def splits (memsize : ℕ) (ph : Phdr) : Prop :=
  ph.pVaddr.toNat + ph.pMemsz.toNat ≤ ramSize memsize ∨ ramSize memsize ≤ ph.pVaddr.toNat

/-- Its end does not wrap in an `int`. -/
structure NoWrap (ph : Phdr) : Prop where
  size : ph.pMemsz.toNat < 2 ^ 31
  stop : ph.pVaddr.toNat < 2 ^ 31 → ph.pVaddr.toNat + ph.pMemsz.toNat < 2 ^ 31

/-- The layout `elfread` asks for. -/
def layout (memsize : ℕ) : Layout :=
  let size := BitVec.ofNat 32 (ramSize memsize)
  ⟨0#32, size, size, size⟩

variable {memsize : ℕ} {malloc : ℕ → Bool} {file : List Byte} {ph : Phdr} {phs : List Phdr}
  {rv : Rv} {l : Layout} {mem : ℤ → Byte} {start : ℤ}

theorem elf32Read_table (hmalloc : ∀ n, 0 < n → malloc n = true) : elf32Read l malloc file mem =
    ((tableOf file).map fun phs => loadSegments l file phs mem).getD (.code 0#32, mem) :=
  Iss.readTable hmalloc (fun phs => loadSegments l file phs mem) mem

theorem place_iff (hb : rv.Based (2 * ramSize memsize)) (hw : NoWrap ph) :
    (layout memsize).place ph = some start ↔
      rv.memOk ph.pVaddr ph.pMemsz = true ∧ splits memsize ph ∧ start = rv.offset ph.pVaddr := by
  have hsmall := hb.small
  have hs := hw.size
  have hsz : (BitVec.ofNat 32 (ramSize memsize)).toInt = ramSize memsize := by
    rw [BitVec.toInt_eq_toNat_of_lt (by simp only [BitVec.toNat_ofNat]; omega)]
    simp only [BitVec.toNat_ofNat]
    omega
  have hsz2 : (BitVec.ofNat 32 (ramSize memsize) + BitVec.ofNat 32 (ramSize memsize)).toInt =
      2 * ramSize memsize := by
    rw [← BitVec.ofNat_add, BitVec.toInt_eq_toNat_of_lt (by simp only [BitVec.toNat_ofNat]; omega)]
    simp only [BitVec.toNat_ofNat]
    omega
  have hbig : (BitVec.ofNat 32 (2 * ramSize memsize)).toInt = 2 * ramSize memsize := by
    rw [BitVec.toInt_eq_toNat_of_lt (by simp only [BitVec.toNat_ofNat]; omega)]
    simp only [BitVec.toNat_ofNat]
    omega
  simp only [Layout.place, layout, Iss.Rv.memOk, Iss.Rv.offset, hb.memBase, hb.memSize, splits,
    BitVec.sle, BitVec.slt, BitVec.toInt_zero, BitVec.sub_zero, BitVec.zero_add, hsz, hsz2, hbig,
    decide_eq_true_eq, Bool.not_eq_true', Bool.or_eq_false_iff, decide_eq_false_iff_not]
  by_cases hv : ph.pVaddr.toNat < 2 ^ 31
  · have hstop := hw.stop hv
    have hvi : ph.pVaddr.toInt = ph.pVaddr.toNat := BitVec.toInt_eq_toNat_of_lt (by omega)
    have hend : (ph.pVaddr + ph.pMemsz).toInt = ph.pVaddr.toNat + ph.pMemsz.toNat := by
      have hadd : (ph.pVaddr + ph.pMemsz).toNat = ph.pVaddr.toNat + ph.pMemsz.toNat := by
        rw [BitVec.toNat_add]
        omega
      rw [BitVec.toInt_eq_toNat_of_lt (by omega), hadd]
      push_cast
      rfl
    rw [hend, hvi]
    by_cases himem : ph.pVaddr.toNat + ph.pMemsz.toNat ≤ ramSize memsize
    · rw [if_pos ⟨by omega, by omega⟩, Option.some.injEq]
      constructor
      · rintro rfl
        exact ⟨⟨by omega, by omega⟩, Or.inl himem, rfl⟩
      · exact fun h => h.2.2.symm
    · rw [if_neg (by omega)]
      by_cases hdmem : ramSize memsize ≤ ph.pVaddr.toNat ∧
          ph.pVaddr.toNat + ph.pMemsz.toNat ≤ 2 * ramSize memsize
      · have hidx : (ph.pVaddr - BitVec.ofNat 32 (ramSize memsize)).toInt =
            ph.pVaddr.toNat - ramSize memsize := by
          have hsub : (ph.pVaddr - BitVec.ofNat 32 (ramSize memsize)).toNat =
              ph.pVaddr.toNat - ramSize memsize := by
            rw [BitVec.toNat_sub]
            simp only [BitVec.toNat_ofNat]
            omega
          rw [BitVec.toInt_eq_toNat_of_lt (by omega), hsub]
          omega
        rw [if_pos ⟨by omega, by omega⟩, Option.some.injEq, hidx]
        constructor
        · rintro rfl
          exact ⟨⟨by omega, by omega⟩, Or.inr hdmem.1, by omega⟩
        · intro h
          omega
      · rw [if_neg (by omega)]
        refine iff_of_false (by simp) fun h => ?_
        omega
  · have hvi : ph.pVaddr.toInt < 0 := by
      rw [BitVec.toInt_eq_toNat_cond, if_neg (by omega)]
      have := ph.pVaddr.isLt
      omega
    rw [if_neg (by omega), if_neg (by omega)]
    refine iff_of_false (by simp) fun h => ?_
    omega

/-- The loop, when every segment goes somewhere and is in the file. -/
theorem loadSegments_passes (hb : rv.Based (2 * ramSize memsize))
    (hw : ∀ ph ∈ phs, ph.pType = ptLoad → NoWrap ph)
    (hp : ∀ ph ∈ phs, ph.pType = ptLoad → ph.Passes file rv ∧ splits memsize ph) :
    loadSegments (layout memsize) file phs mem = (.code 1#32,
      Patch.applyAll ((phs.filter fun ph => ph.pType = ptLoad).map (Phdr.extent file rv)) mem) := by
  induction phs generalizing mem with
  | nil => rfl
  | cons ph phs ih =>
    have hw' := fun q hq => hw q (List.mem_cons_of_mem ph hq)
    have hp' := fun q hq => hp q (List.mem_cons_of_mem ph hq)
    rw [loadSegments]
    by_cases ht : ph.pType = ptLoad
    · obtain ⟨⟨hne, hfile, hok⟩, hsplit⟩ := hp ph List.mem_cons_self ht
      have hwp := hw ph List.mem_cons_self ht
      have hpos : ph.pMemsz.toNat ≠ 0 := fun h => hne (BitVec.eq_of_toNat_eq h)
      have hread : fread file ph.pOffset.toNat (ph.pMemsz.signExtend 64).toNat =
          some (fileAt file ph.pOffset.toNat) := by
        rw [Iss.toNat_size hwp.size]
        exact Iss.fread_eq_some_iff.mpr ⟨hpos, hfile, rfl⟩
      rw [if_neg (not_not.mpr ht), (place_iff hb hwp).mpr ⟨hok, hsplit, rfl⟩]
      simp only [hread]
      rw [ih hw' hp', List.filter_cons_of_pos (by simpa using ht), List.map_cons,
        Patch.applyAll_cons, Iss.toNat_size hwp.size]
      rfl
    · rw [if_pos ht, ih hw' hp', List.filter_cons_of_neg (by simpa using ht)]

theorem loadSegments_stops (hb : rv.Based (2 * ramSize memsize)) (hph : ph ∈ phs)
    (ht : ph.pType = ptLoad) (hw : ∀ ph ∈ phs, ph.pType = ptLoad → NoWrap ph)
    (hp : ¬ (ph.Passes file rv ∧ splits memsize ph)) :
    (loadSegments (layout memsize) file phs mem).1 ≠ .code 1#32 := by
  induction phs generalizing mem with
  | nil => cases hph
  | cons q phs ih =>
    have hw' := fun r hr => hw r (List.mem_cons_of_mem q hr)
    rw [loadSegments]
    by_cases htq : q.pType = ptLoad
    · have hwq := hw q List.mem_cons_self htq
      rw [if_neg (not_not.mpr htq)]
      cases hpl : (layout memsize).place q with
      | none => simp
      | some start =>
        obtain ⟨hok, hsplit, -⟩ := (place_iff hb hwq).mp hpl
        cases hread : fread file q.pOffset.toNat (q.pMemsz.signExtend 64).toNat with
        | none => simp [hread]
        | some b =>
          simp only [hread]
          rw [Iss.toNat_size hwq.size, Iss.fread_eq_some_iff] at hread
          refine ih ?_ hw'
          rcases List.mem_cons.mp hph with rfl | hmem
          · exact absurd ⟨⟨fun h => hread.1 (by rw [h]; rfl), hread.2.1, hok⟩, hsplit⟩ hp
          · exact hmem
    · rw [if_pos htq]
      refine ih ?_ hw'
      rcases List.mem_cons.mp hph with rfl | hmem
      · exact absurd ht htq
      · exact hmem

end Srv32.Rtl

namespace Srv32.Refine

open Iss (Ret Rv Host Phdr ptLoad fread tableOf loadsOf byteOfWord written atSwitch)
open Rtl (Bench ramSize memoryOf splits NoWrap layout elfread startup)

variable {memsize : ℕ} {malloc : ℕ → Bool} {file : List Byte} {rv : Rv} {fresh : ℤ → Byte}
  {imem dmem : List Byte}

/-- Both loaders accept the file up to its header. -/
def isElf32 (file : List Byte) : Prop :=
  16 ≤ file.length ∧ (file.getD 0 0#8 = 0x7f#8 ∨ file.getD 1 0#8 = 0x45#8) ∧
    file.getD 4 0#8 = 1#8

instance (file : List Byte) : Decidable (isElf32 file) := inferInstanceAs (Decidable (_ ∧ _))

theorem elfloader_eq {α : Type*} (mem : α) (read : Ret × α) :
    Iss.elfloader file mem read = if isElf32 file then read else (.code 0#32, mem) := by
  by_cases hlen : 16 ≤ file.length
  · have hread : fread file 0 16 = some (Iss.fileAt file 0) :=
      Iss.fread_eq_some_iff.mpr ⟨by decide, by omega, rfl⟩
    have hat : ∀ i, Iss.fileAt file 0 i = file.getD i 0#8 := by
      intro i
      rw [Iss.fileAt, Nat.zero_add]
    rw [Iss.elfloader, hread]
    simp only [hat, isElf32, hlen, true_and]
    split_ifs <;> first | rfl | (exfalso; tauto)
  · have hnone : fread file 0 16 = none := by
      rw [fread, if_pos (Or.inr (by omega))]
    rw [Iss.elfloader, hnone, if_neg fun h => hlen h.1]

theorem mem_loadsOf {phs : List Phdr} (ht : tableOf file = some phs) {ph : Phdr} :
    ph ∈ loadsOf file ↔ ph ∈ phs ∧ ph.pType = ptLoad := by
  rw [loadsOf, ht, Option.getD_some, List.mem_filter, decide_eq_true_eq]

/-- A loader whose loop succeeds exactly if `good`. -/
theorem elfloader_table {α : Type*} {loop : List Phdr → Ret × α} {good : Prop} {after : α} (mem : α)
    (hgood : ∀ phs, tableOf file = some phs → good → loop phs = (.code 1#32, after))
    (hbad : ∀ phs, tableOf file = some phs → ¬ good → (loop phs).1 ≠ .code 1#32) :
    let r := Iss.elfloader file mem (((tableOf file).map loop).getD (.code 0#32, mem))
    (r.1 = .code 1#32 ↔ (isElf32 file ∧ (tableOf file).isSome) ∧ good) ∧
      (r.1 = .code 1#32 → r.2 = after) := by
  intro r
  have hr : r = if isElf32 file then ((tableOf file).map loop).getD (.code 0#32, mem)
      else (.code 0#32, mem) := elfloader_eq mem _
  by_cases he : isElf32 file
  · rw [if_pos he] at hr
    cases ht : tableOf file with
    | none =>
      rw [ht] at hr
      rw [hr]
      exact ⟨iff_of_false (by simp) (by simp), fun h => by simp at h⟩
    | some phs =>
      rw [ht, Option.map_some, Option.getD_some] at hr
      rw [hr]
      by_cases hg : good
      · rw [hgood phs ht hg]
        exact ⟨iff_of_true rfl ⟨⟨he, rfl⟩, hg⟩, fun _ => rfl⟩
      · have hno := hbad phs ht hg
        exact ⟨iff_of_false hno fun h => hg h.2, fun h => absurd h hno⟩
  · rw [if_neg he] at hr
    rw [hr]
    exact ⟨iff_of_false (by simp) fun h => he h.1.1, fun h => by simp at h⟩

/-- What the loaders leave in memory, over what it had. -/
def loadedOver (file : List Byte) (rv : Rv) (mem : ℤ → Byte) : ℤ → Byte :=
  Patch.applyAll ((loadsOf file).map (Phdr.extent file rv)) mem

section

variable (hmalloc : ∀ n, 0 < n → malloc n = true) (hw : ∀ ph ∈ loadsOf file, NoWrap ph)
include hmalloc hw

theorem iss_loads (rv : Rv) :
    let r := Iss.elfloader file rv (Iss.elf32Read malloc file rv)
    (r.1 = .code 1#32 ↔ (isElf32 file ∧ (tableOf file).isSome) ∧
      ∀ ph ∈ loadsOf file, ph.Passes file rv) ∧
      (r.1 = .code 1#32 → r.2 = { rv with mem := loadedOver file rv rv.mem }) := by
  rw [Iss.elf32Read_table hmalloc]
  refine elfloader_table rv (fun phs ht hp => ?_) (fun phs ht hp => ?_)
  · have hloop := Iss.loadSegments_passes hmalloc (m := rv.mem)
      (fun ph hph hty => (hw ph ((mem_loadsOf ht).mpr ⟨hph, hty⟩)).size)
      fun ph hph hty => hp ph ((mem_loadsOf ht).mpr ⟨hph, hty⟩)
    rw [loadedOver, loadsOf, ht, Option.getD_some]
    exact hloop
  · push Not at hp
    obtain ⟨ph, hph, hbad⟩ := hp
    obtain ⟨hmem, hty⟩ := (mem_loadsOf ht).mp hph
    exact Iss.loadSegments_stops (m := rv.mem) hmem hty
      (fun ph hph hty => (hw ph ((mem_loadsOf ht).mpr ⟨hph, hty⟩)).size) hbad

theorem rtl_loads (fresh : ℤ → Byte) (hb : rv.Based (2 * ramSize memsize)) :
    let r := Iss.elfloader file fresh (Rtl.elf32Read (layout memsize) malloc file fresh)
    (r.1 = .code 1#32 ↔ (isElf32 file ∧ (tableOf file).isSome) ∧
      ∀ ph ∈ loadsOf file, ph.Passes file rv ∧ splits memsize ph) ∧
      (r.1 = .code 1#32 → r.2 = loadedOver file rv fresh) := by
  rw [Rtl.elf32Read_table hmalloc]
  refine elfloader_table fresh (fun phs ht hp => ?_) (fun phs ht hp => ?_)
  · rw [loadedOver, loadsOf, ht, Option.getD_some]
    exact Rtl.loadSegments_passes hb (fun ph hph hty => hw ph ((mem_loadsOf ht).mpr ⟨hph, hty⟩))
      fun ph hph hty => hp ph ((mem_loadsOf ht).mpr ⟨hph, hty⟩)
  · simp only [not_forall] at hp
    obtain ⟨ph, hph, hbad⟩ := hp
    obtain ⟨hmem, hty⟩ := (mem_loadsOf ht).mp hph
    exact Rtl.loadSegments_stops hb hmem hty
      (fun ph hph hty => hw ph ((mem_loadsOf ht).mpr ⟨hph, hty⟩)) hbad

end

theorem rtl_code {r : Word} (hr : r ≠ 0#32)
    (h : (Iss.elfloader file fresh (Rtl.elf32Read (layout memsize) malloc file fresh)).1 =
      .code r) (hmalloc : ∀ n, 0 < n → malloc n = true) : r = 1#32 := by
  have hloop : ∀ phs (mem : ℤ → Byte),
      (Rtl.loadSegments (layout memsize) file phs mem).1 = .code r → r = 1#32 := by
    intro phs
    induction phs with
    | nil =>
      intro mem h
      exact (Ret.code.inj h).symm
    | cons ph phs ih =>
      intro mem h
      rw [Rtl.loadSegments] at h
      split_ifs at h
      · exact ih mem h
      · split at h
        · cases h
        · dsimp only at h
          split at h
          · exact absurd (Ret.code.inj h).symm hr
          · exact ih _ h
  rw [Rtl.elf32Read_table hmalloc, elfloader_eq] at h
  split_ifs at h
  · cases ht : tableOf file with
    | none =>
      rw [ht] at h
      exact absurd (Ret.code.inj h).symm hr
    | some phs =>
      rw [ht] at h
      exact hloop phs fresh h
  · exact absurd (Ret.code.inj h).symm hr

theorem elfread_eq_some (hmalloc : ∀ n, 0 < n → malloc n = true) {r : Ret × (ℤ → Byte)}
    (hr : Iss.elfloader file fresh (Rtl.elf32Read (layout memsize) malloc file fresh) = r) :
    elfread memsize malloc file fresh = some (imem, dmem) ↔
      r.1 = .code 1#32 ∧ (List.range (ramSize memsize)).map (fun i : ℕ => r.2 i) = imem ∧
        (List.range (ramSize memsize)).map (fun i : ℕ => r.2 (ramSize memsize + i : ℕ)) = dmem := by
  simp only [layout] at hr
  simp only [elfread, hr]
  obtain ⟨ret, mem⟩ := r
  cases ret with
  | code v =>
    by_cases hv : v = 0#32
    · simp [hv]
    · have h1 : v = 1#32 := rtl_code hv (congrArg Prod.fst hr) hmalloc
      subst h1
      simp
  | exit status => simp
  | segv => simp

/-- The two programs load a file alike. The testbench has it if the simulator has it and no segment
crosses from the instruction memory into the data memory; the simulator is then at reset, and the
memories are the same exactly if `malloc` gave zeros wherever no segment goes. -/
theorem images_agree (memsize : ℕ) (hm : memsize < 2 ^ 20) (malloc : ℕ → Bool)
    (hmalloc : ∀ n, 0 < n → malloc n = true) (file : List Byte)
    (hw : ∀ ph ∈ loadsOf file, NoWrap ph) (fresh : ℤ → Byte) :
    let rv := Rv.boot .rv32im memsize fun _ => 0#8
    let iss := Iss.elfloader file rv (Iss.elf32Read malloc file rv)
    ((elfread memsize malloc file fresh).isSome ↔
      iss.1 = .code 1#32 ∧ ∀ ph ∈ loadsOf file, splits memsize ph) ∧
    ∀ imem dmem, elfread memsize malloc file fresh = some (imem, dmem) → AtReset memsize iss.2 ∧
      ∀ (noMeminit : Bool) (d d' : Word) (ram ram' : ℕ → Word),
        (SameMem memsize (memoryOf memsize noMeminit imem d ram)
            (memoryOf memsize noMeminit dmem d' ram') iss.2.mem ↔
          ∀ a < 2 * ramSize memsize,
            (∀ ph ∈ loadsOf file, ¬ (ph.extent file rv).Covers a) → fresh a = 0#8) := by
  intro rv iss
  have hb : rv.Based (2 * ramSize memsize) := (atReset_boot hm _).mapped.based
  obtain ⟨hiss, hmem⟩ := iss_loads hmalloc hw rv
  obtain ⟨hrtl, himg⟩ := rtl_loads hmalloc hw fresh hb
  have hsome : (elfread memsize malloc file fresh).isSome ↔
      iss.1 = .code 1#32 ∧ ∀ ph ∈ loadsOf file, splits memsize ph := by
    rw [hiss, and_assoc, ← forall₂_and, ← hrtl, Option.isSome_iff_exists]
    constructor
    · rintro ⟨⟨imem, dmem⟩, h⟩
      exact ((elfread_eq_some hmalloc rfl).mp h).1
    · exact fun h => ⟨_, (elfread_eq_some hmalloc rfl).mpr ⟨h, rfl, rfl⟩⟩
  refine ⟨hsome, fun imem dmem h => ?_⟩
  obtain ⟨hcode, rfl, rfl⟩ := (elfread_eq_some hmalloc rfl).mp h
  have hloaded := hsome.mp (by rw [h]; rfl)
  rw [himg hcode, hmem hloaded.1]
  refine ⟨⟨rfl, rfl, rfl, rfl, rfl, hm⟩, fun noMeminit d d' ram ram' => ?_⟩
  have hbyte : ∀ (f : ℕ → Byte) (ram : ℕ → Word) (d : Word), ∀ a < ramSize memsize,
      byteOfWord (memoryOf memsize noMeminit ((List.range (ramSize memsize)).map f) d ram (a / 4))
        (a % 4) = f a := by
    intro f ram d a ha
    rw [Rtl.memoryOf_byte (by rw [List.length_map, List.length_range]) ha]
    simp [List.getD_eq_getElem?_getD, ha]
  have hsame : ∀ a : ℤ, loadedOver file rv rv.mem a = loadedOver file rv fresh a ↔
      ((∀ ph ∈ loadsOf file, ¬ (ph.extent file rv).Covers a) → fresh a = 0#8) := by
    intro a
    by_cases hc : ∃ p ∈ (loadsOf file).map (Phdr.extent file rv), p.Covers a
    · refine iff_of_true (Patch.applyAll_congr (Or.inl hc)) fun hno => ?_
      obtain ⟨p, hp, hpc⟩ := hc
      obtain ⟨ph, hph, rfl⟩ := List.mem_map.mp hp
      exact absurd hpc (hno ph hph)
    · have hno : ∀ p ∈ (loadsOf file).map (Phdr.extent file rv), ¬ p.Covers a :=
        fun p hp hpc => hc ⟨p, hp, hpc⟩
      rw [loadedOver, loadedOver, Patch.applyAll_of_not_covers hno,
        Patch.applyAll_of_not_covers hno]
      constructor
      · exact fun h _ => h.symm
      · exact fun h => (h fun ph hph => hno _ (List.mem_map_of_mem hph)).symm
  constructor
  · intro hs a ha
    apply (hsame a).mp
    by_cases hlo : a < ramSize memsize
    · exact (hs.prog a hlo).trans (hbyte _ ram d a hlo)
    · obtain ⟨i, rfl⟩ := Nat.exists_eq_add_of_le (Nat.le_of_not_lt hlo)
      exact (hs.data i (by omega)).trans (hbyte _ ram' d' i (by omega))
  · intro hz
    refine ⟨fun a ha => ?_, fun a ha => ?_⟩
    · rw [hbyte _ ram d a ha]
      exact (hsame a).mpr (hz a (by omega))
    · rw [hbyte _ ram' d' a ha]
      exact (hsame _).mpr (hz _ (by omega))

/-- A file with one byte at 0, into memory that was clear. -/
theorem images_agree_byte :
    let file := Iss.oneSegment 1#32
    let rv := Rv.boot .rv32im 1 fun _ => 0#8
    ∃ imem dmem, elfread 1 (fun _ => true) file (fun _ => 0#8) = some (imem, dmem) ∧
      SameMem 1 (memoryOf 1 false imem 0#32 fun _ => 0x55#32)
        (memoryOf 1 false dmem 0#32 fun _ => 0x55#32)
        (Iss.elfloader file rv (Iss.elf32Read (fun _ => true) file rv)).2.mem := by
  intro file rv
  have hl : loadsOf file = [⟨1#32, 84#32, 0#32, 0#32, 1#32, 1#32, 7#32, 4#32⟩] := by
    decide +kernel
  have hw : ∀ ph ∈ loadsOf file, NoWrap ph := by
    rw [hl]
    simp only [List.forall_mem_singleton]
    exact ⟨by decide, fun _ => by decide⟩
  have hsplit : ∀ ph ∈ loadsOf file, splits 1 ph := by
    rw [hl]
    simp only [List.forall_mem_singleton]
    exact Or.inl (by decide)
  obtain ⟨hsome, hmem⟩ := images_agree 1 (by decide) (fun _ => true) (fun _ _ => rfl) file hw
    fun _ => 0#8
  obtain ⟨⟨imem, dmem⟩, h⟩ :=
    Option.isSome_iff_exists.mp (hsome.mpr ⟨by decide +kernel, hsplit⟩)
  refine ⟨imem, dmem, h, ((hmem imem dmem h).2 false 0#32 0#32 _ _).mpr fun _ _ _ => rfl⟩

end Srv32.Refine

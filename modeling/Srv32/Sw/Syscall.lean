import Srv32.Iss.Request
import Srv32.Refine.Program

/-! `syscall.c`: the library's calls of the host through TOHOST and FROMHOST, and what they have in
common with ECALL. -/

namespace Srv32.Sw

open Riscv (Machine Apart)
open Iss (Host Ret rvOkay)
open Iss.Rv (Code)

variable {host : Host} {rv : Iss.Rv} {a v w : Word} {ws : List Word}

/-- Accesses of `volatile` words. -/
def storeWords (host : Host) : Word → List Word → Iss.Rv → Ret × Iss.Rv
  | _, [], rv => (.code rvOkay, rv)
  | a, w :: ws, rv =>
    match rv.memrwStore host opSw a w with
    | (.code 0#32, rv) => storeWords host (a + 4#32) ws rv
    | r => r

/-- `__internal_syscall` with `HAVE_TOHOST`: the value, or how the program ends. -/
def internalSyscall (host : Host) (htifMem n : Word) (args : List Word) (rv : Iss.Rv) :
    Except Ret Word × Iss.Rv :=
  match storeWords host htifMem (n :: args) rv with
  | (.code 0#32, rv) =>
    match rv.memrwStore host opSw mmioTohost htifMem with
    | (.code 0#32, rv) =>
      match rv.memrwLoad host opLw mmioFromhost with
      | (0#32, v) => (.ok v, rv)
      | (k, _) => (.error (.code k), rv)
    | (r, rv) => (.error r, rv)
  | (r, rv) => (.error r, rv)

section

variable (host) (htifMem : Word)

def open_ (pathname flags mode : Word) : Iss.Rv → Except Ret Word × Iss.Rv :=
  internalSyscall host htifMem sysOpen [pathname, flags, mode, 0#32, 0#32, 0#32, 0#32]

def write (file ptr len : Word) : Iss.Rv → Except Ret Word × Iss.Rv :=
  internalSyscall host htifMem sysWrite [file, ptr, len, 0#32, 0#32, 0#32, 0#32]

def close (file : Word) : Iss.Rv → Except Ret Word × Iss.Rv :=
  internalSyscall host htifMem sysClose [file, 0#32, 0#32, 0#32, 0#32, 0#32, 0#32]

def lseek (file ptr dir : Word) : Iss.Rv → Except Ret Word × Iss.Rv :=
  internalSyscall host htifMem sysLseek [file, ptr, dir, 0#32, 0#32, 0#32, 0#32]

def read (file ptr len : Word) : Iss.Rv → Except Ret Word × Iss.Rv :=
  internalSyscall host htifMem sysRead [file, ptr, len, 0#32, 0#32, 0#32, 0#32]

/-- `_exit`, up to the loop behind the call. -/
def exit_ (code : Word) : Iss.Rv → Except Ret Word × Iss.Rv :=
  internalSyscall host htifMem sysExit [code, 0#32, 0#32, 0#32, 0#32, 0#32, 0#32]

end

/-! The request in memory. -/

theorem memrwStore_word (hl : rv.Laid) (ha : a.toNat % 4 = 0) (hi : rv.Inside a 4) :
    rv.memrwStore host opSw a w =
      (.code 0#32, { rv with mem := rv.copyIn (rv.offset a) (4 : ℕ) (Iss.byteOfWord w) }) := by
  have hok : rv.memOk a 4#32 = true := (Iss.Rv.memOk_eq hl (by decide)).mpr (Or.inl hi)
  have hlen : Iss.Rv.storeLen opSw a = .ok 4#32 := by
    have h3 : ¬ (a &&& 3#32 ≠ 0#32) := not_not.mpr ((Bits.and_three_eq_zero a).mpr ha)
    simp only [Iss.Rv.storeLen, if_neg h3]
    rfl
  simp only [Iss.Rv.memrwStore, hlen, Iss.Rv.writeMem, if_pos hok]
  rfl

/-- The words are stored one after the other, and nothing else happens. -/
structure Placed (rv : Iss.Rv) (a : Word) (ws : List Word) (d : Iss.Rv) : Prop where
  only : d = { rv with mem := d.mem }
  holds : d.machine.Holds a ws
  rest : ∀ w : Word, 4 * ws.length ≤ (w - a).toNat → d.machine.mem w = rv.machine.mem w

theorem Placed.cons {rv1 d : Iss.Rv} (h1 : rv1 = { rv with mem := rv1.mem })
    (hput : ∀ w', rv1.machine.mem w' = (rv.machine.put a 4 w).mem w')
    (h : Placed rv1 (a + 4#32) ws d) (hlen : (w :: ws).length < 2 ^ 29) :
    Placed rv a (w :: ws) d := by
  rw [List.length_cons] at hlen
  refine ⟨?_, fun i v hv => ?_, fun w' hw => ?_⟩
  · rw [h.only, h1]
  · cases i with
    | zero =>
      obtain rfl : w = v := Option.some.inj hv
      have hbyte : ∀ j < 4, d.machine.mem (a + BitVec.ofNat 32 j) =
          (rv.machine.put a 4 w).mem (a + BitVec.ofNat 32 j) := by
        intro j hj
        rw [h.rest _ ?_, hput]
        have : a + BitVec.ofNat 32 j - (a + 4#32) = BitVec.ofNat 32 j - 4#32 := by bv_omega
        rw [this, BitVec.toNat_sub]
        simp only [BitVec.toNat_ofNat]
        omega
      have h0 := hbyte 0 (by omega)
      rw [BitVec.add_zero] at h0
      rw [Nat.mul_zero, BitVec.add_zero, Machine.word, hbyte 3 (by omega), hbyte 2 (by omega),
        hbyte 1 (by omega), h0]
      exact Machine.word_put rv.machine a w
    | succ i =>
      have ha : a + BitVec.ofNat 32 (4 * (i + 1)) = a + 4#32 + BitVec.ofNat 32 (4 * i) := by
        rw [Nat.mul_succ, Nat.add_comm, BitVec.ofNat_add, BitVec.add_assoc]
      rw [ha]
      exact h.holds i v hv
  · have hd : (w' - (a + 4#32)).toNat = (w' - a).toNat - 4 := by
      rw [List.length_cons] at hw
      have : w' - (a + 4#32) = w' - a - 4#32 := by bv_omega
      rw [this, BitVec.toNat_sub]
      have := (w' - a).isLt
      simp only [BitVec.toNat_ofNat]
      omega
    rw [List.length_cons] at hw
    rw [h.rest w' (by omega), hput]
    exact Machine.put_mem_of_le (by omega)

theorem placed_storeWords (host : Host) (hl : rv.Laid) (ha : a.toNat % 4 = 0)
    (hi : rv.Inside a (4 * ws.length)) (hlen : ws.length < 2 ^ 29) :
    ∃ d, storeWords host a ws rv = (.code rvOkay, d) ∧
      Placed rv a ws d := by
  induction ws generalizing a rv with
  | nil => exact ⟨rv, rfl, rfl, fun i v hv => by simp at hv, fun _ _ => rfl⟩
  | cons w ws ih =>
    rw [List.length_cons] at hi
    have hhead : rv.Inside a 4 := by
      have := hi.part hl (j := 0) (k := 4) (by omega)
      rwa [BitVec.add_zero] at this
    have htail : rv.Inside (a + 4#32) (4 * ws.length) := hi.part hl (j := 4) (by omega)
    have hput : ∀ w' : Word, rv.copyIn (rv.offset a) (4 : ℕ) (Iss.byteOfWord w) (rv.offset w') =
        (rv.machine.put a 4 w).mem w' := Iss.Rv.copyIn_machine hl hhead w
    set rv1 : Iss.Rv := { rv with mem := rv.copyIn (rv.offset a) (4 : ℕ) (Iss.byteOfWord w) }
    have ha4 : (a + 4#32).toNat % 4 = 0 := by
      rw [BitVec.toNat_add]
      simp only [BitVec.toNat_ofNat]
      omega
    have hl1 : rv1.Laid := ⟨hl.pos, hl.top⟩
    obtain ⟨d, hd, hp⟩ := ih hl1 ha4 htail
      (by rw [List.length_cons] at hlen; omega)
    have honly : rv1 = { rv with mem := rv1.mem } := rfl
    refine ⟨d, ?_, hp.cons honly hput hlen⟩
    rw [storeWords, memrwStore_word hl ha hhead]
    exact hd

/-! The request as the host finds it. -/

/-- `htif_mem`: eight words in memory, which does not cover the registers of the host. -/
structure Block (rv : Iss.Rv) (htifMem : Word) : Prop where
  laid : rv.Laid
  aligned : htifMem.toNat % 4 = 0
  inside : rv.Inside htifMem 32
  tohost : rv.memOk mmioTohost 4#32 = false
  fromhost : rv.memOk mmioFromhost 4#32 = false

/-- What FROMHOST delivers after a request that the host has answered with `res`. -/
def answer (func res old : Word) : Word :=
  if func = sysDump ∨ func = sysDumpBin then 0#32
  else if func = sysOpen ∨ func = sysClose ∨ func = sysLseek ∨ func = sysWrite ∨ func = sysRead then
    res
  else old

theorem answer_call {func res old : Word} (h : func = sysOpen ∨ func = sysClose ∨
    func = sysLseek ∨ func = sysRead ∨ func = sysWrite) : answer func res old = res := by
  have hno : ¬ (func = sysDump ∨ func = sysDumpBin) := by
    rcases h with rfl | rfl | rfl | rfl | rfl <;> decide
  rw [answer, if_neg hno]
  apply if_pos
  rcases h with h | h | h | h | h <;> simp [h]

theorem intAt_request {d : Iss.Rv} (hl : d.Laid) (hi : d.Inside a (4 * ws.length))
    (h : d.machine.Holds a ws) {i : ℕ} (hw : ws[i]? = some w) :
    d.intAt (a.toInt - d.memBase.toInt + (4 * i : ℕ)) = w := by
  obtain ⟨hlt, -⟩ := List.getElem?_eq_some_iff.mp hw
  have hword : d.Inside (a + BitVec.ofNat 32 (4 * i)) 4 := hi.part hl (by omega)
  have := h i w hw
  rw [Iss.Rv.machine_word hl hword, hi.offset_add hl (by omega), hi.offset_eq hl] at this
  exact this

/-- `srv32_tohost` and `srv32_syscall` end alike: `p` of the one, `q` of the other. -/
def Alike (func old : Word) (p : Option Ret × Iss.Rv) (q : Except Ret Word × Iss.Rv) : Prop :=
  (match q.1 with
    | .error r => p.1 = some r
    | .ok res => p.1 = none ∧ p.2.htifResult = answer func res old) ∧ p.2.mem = q.2.mem

theorem Alike.ite {func old : Word} {c : Prop} [Decidable c] {p p' : Option Ret × Iss.Rv}
    {q q' : Except Ret Word × Iss.Rv} (h : c → Alike func old p q)
    (h' : ¬ c → Alike func old p' q') :
    Alike func old (if c then p else p') (if c then q else q') := by
  by_cases hc : c
  · rw [if_pos hc, if_pos hc]
    exact h hc
  · rw [if_neg hc, if_neg hc]
    exact h' hc

theorem alike_dump {func a1 : Word} (hf : func = sysDump ∨ func = sysDumpBin) (o : Option Ret) :
    Alike func rv.htifResult (o, { rv with htifResult := 0#32 })
      (match o with
        | some r => (.error r, rv)
        | none => (.ok a1, rv)) := by
  cases o with
  | none => exact ⟨⟨rfl, (if_pos hf).symm⟩, rfl⟩
  | some r => exact ⟨rfl, rfl⟩

/-- `srv32_tohost` does with the block what `srv32_syscall` does with the words in it. -/
theorem tohost_syscall (host : Host) {d : Iss.Rv} {n a0 a1 a2 : Word} (hl : d.Laid)
    (hi : d.Inside a (4 * ws.length)) (h : d.machine.Holds a ws) (hn : ws[0]? = some n)
    (h0 : ws[1]? = some a0) (h1 : ws[2]? = some a1) (h2 : ws[3]? = some a2) :
    Alike n d.htifResult (d.tohost host a) (d.syscall host n a0 a1 a2) := by
  have hreach : d.Reach a := by
    have := hi.part hl (j := 0) (k := 0) (by omega)
    rw [BitVec.add_zero] at this
    exact Iss.Rv.reach_iff_inside.mpr this
  have hfunc := intAt_request hl hi h hn
  have harg0 := intAt_request hl hi h h0
  have harg1 := intAt_request hl hi h h1
  have harg2 := intAt_request hl hi h h2
  rw [Nat.mul_zero, Nat.cast_zero, Int.add_zero] at hfunc
  change d.intAt (a.toInt - d.memBase.toInt + 4) = a0 at harg0
  change d.intAt (a.toInt - d.memBase.toInt + 8) = a1 at harg1
  change d.intAt (a.toInt - d.memBase.toInt + 12) = a2 at harg2
  rw [Iss.Rv.tohost, Iss.Rv.getMemptr_reach hl hreach]
  simp only [hfunc, harg0, harg1, harg2]
  refine Alike.ite (fun hf => ⟨⟨rfl, (answer_call (.inl hf)).symm⟩, rfl⟩) fun hopen => ?_
  refine Alike.ite (fun hf => ⟨⟨rfl, (answer_call (.inr (.inl hf))).symm⟩, rfl⟩) fun hclose => ?_
  refine Alike.ite (fun hf => ⟨⟨rfl, (answer_call (.inr (.inr (.inl hf)))).symm⟩, rfl⟩)
    fun hseek => ?_
  refine Alike.ite (fun _ => ⟨rfl, rfl⟩) fun _ => ?_
  refine Alike.ite (fun hf => ⟨⟨rfl, (answer_call (.inr (.inr (.inr (.inl hf))))).symm⟩, rfl⟩)
    fun hread => ?_
  refine Alike.ite (fun hf => ⟨⟨rfl, (answer_call (.inr (.inr (.inr (.inr hf))))).symm⟩, rfl⟩)
    fun hwrite => ?_
  refine Alike.ite (fun hf => alike_dump (.inl hf) _) fun hdump => ?_
  refine Alike.ite (fun hf => alike_dump (.inr hf) _) fun hbin => ?_
  refine ⟨⟨rfl, ?_⟩, rfl⟩
  rw [answer, if_neg (by simp only [hdump, hbin, or_self, not_false_eq_true]),
    if_neg (by simp only [hopen, hclose, hseek, hwrite, hread, or_self, not_false_eq_true])]

theorem memrwStore_tohost (h : rv.memOk mmioTohost 4#32 = false) (v : Word) :
    rv.memrwStore host opSw mmioTohost v = match rv.tohost host v with
      | (some r, rv) => (r, rv)
      | (none, rv) => (.code rvOkay, rv) := by
  have hlen : Iss.Rv.storeLen opSw mmioTohost = .ok 4#32 := rfl
  have hw : rv.writeMem mmioTohost 4#32 (Iss.byteOfWord v) = none := by
    rw [Iss.Rv.writeMem, h, if_neg Bool.false_ne_true]
  simp only [Iss.Rv.memrwStore, hlen, hw]
  rfl

theorem memrwLoad_fromhost (h : rv.memOk mmioFromhost 4#32 = false) :
    rv.memrwLoad host opLw mmioFromhost = (0#32, rv.htifResult) := by
  have hlen : Iss.Rv.loadLen opLw mmioFromhost = .ok 4#32 := rfl
  have hr : rv.readMem mmioFromhost 4#32 = none := by
    rw [Iss.Rv.readMem, h, if_neg Bool.false_ne_true]
  simp only [Iss.Rv.memrwLoad, hlen, hr]
  rfl

/-- A library call is the store of its request, and the host's work on it. -/
theorem internalSyscall_tohost (host : Host) {htifMem n : Word} {args : List Word}
    (hargs : args.length = 7) (hb : Block rv htifMem) :
    ∃ d, Placed rv htifMem (n :: args) d ∧ d.Laid ∧ d.Inside htifMem (4 * (n :: args).length) ∧
      internalSyscall host htifMem n args rv = match d.tohost host htifMem with
        | (some r, e) => (.error r, e)
        | (none, e) => (.ok e.htifResult, e) := by
  have hlen : (n :: args).length = 8 := by rw [List.length_cons, hargs]
  have hin : rv.Inside htifMem (4 * (n :: args).length) := by
    rw [hlen]
    exact hb.inside
  obtain ⟨d, hd, hp⟩ := placed_storeWords host hb.laid hb.aligned hin
    (by rw [hlen]; omega)
  have hbase : d.memBase = rv.memBase := by rw [hp.only]
  have hsize : d.memSize = rv.memSize := by rw [hp.only]
  have hl : d.Laid := by
    obtain ⟨h1, h2⟩ := hb.laid
    rw [← hbase, ← hsize] at *
    exact ⟨h1, h2⟩
  have hout : ∀ (e : Iss.Rv) (x len : Word), Iss.Rv.Stored d e →
      e.memOk x len = rv.memOk x len := by
    rintro e x len ⟨_, _, _, _, _, _, _, rfl⟩
    simp only [Iss.Rv.memOk, hbase, hsize]
  refine ⟨d, hp, hl, (Code.inside_of hbase hsize).mpr hin, ?_⟩
  rw [internalSyscall, hd]
  simp only
  rw [memrwStore_tohost ((hout d _ _ (.refl d)).trans hb.tohost)]
  have hstored : Iss.Rv.Stored d (d.tohost host htifMem).2 := Iss.Rv.stored_tohost htifMem
  have hne : ∀ r, (d.tohost host htifMem).1 = some r → ∀ k, r ≠ .code k := fun _ h k =>
    Iss.Rv.tohost_some h k
  generalize d.tohost host htifMem = p at hstored hne ⊢
  rcases p with ⟨_ | r, e⟩
  · simp only [memrwLoad_fromhost ((hout e _ _ hstored).trans hb.fromhost)]
  · cases r with
    | code k => exact absurd rfl (hne _ rfl k)
    | exit status => rfl
    | segv => rfl

/-- The value a library call delivers and the memory it leaves, by the host call of an ECALL. -/
theorem internalSyscall_syscall (host : Host) {htifMem n a0 a1 a2 : Word} {args : List Word}
    (hargs : args.length = 4) (hb : Block rv htifMem) :
    ∃ d, Placed rv htifMem (n :: a0 :: a1 :: a2 :: args) d ∧
      (internalSyscall host htifMem n (a0 :: a1 :: a2 :: args) rv).1 =
        (d.syscall host n a0 a1 a2).1.map (fun res => answer n res rv.htifResult) ∧
      (internalSyscall host htifMem n (a0 :: a1 :: a2 :: args) rv).2.mem =
        (d.syscall host n a0 a1 a2).2.mem := by
  obtain ⟨d, hp, hl, hin, heq⟩ := internalSyscall_tohost host (n := n)
    (show (a0 :: a1 :: a2 :: args).length = 7 by simp [hargs]) hb
  obtain ⟨hto, hmem⟩ := tohost_syscall host hl hin hp.holds rfl rfl rfl rfl
  have hold : d.htifResult = rv.htifResult := by rw [hp.only]
  refine ⟨d, hp, ?_⟩
  rw [heq]
  generalize d.tohost host htifMem = p at hto hmem ⊢
  rcases p with ⟨_ | r, e⟩
  · cases hsys : (d.syscall host n a0 a1 a2).1 with
    | error r => simp [hsys] at hto
    | ok res =>
      simp only [hsys, true_and] at hto
      rw [hold] at hto
      exact ⟨congrArg Except.ok hto, hmem⟩
  · cases hsys : (d.syscall host n a0 a1 a2).1 with
    | ok res => simp [hsys] at hto
    | error q =>
      simp only [hsys, Option.some.injEq] at hto
      exact ⟨congrArg Except.error hto, hmem⟩

/-! The library's functions. -/

/-- Each function asks the host for what its caller asks for, and delivers the host's answer;
`_exit` ends the process, with the status of the simulator and not that of its caller. -/
structure Library (host : Host) (rv : Iss.Rv) (htifMem : Word) : Prop where
  open_ : ∀ pathname flags mode, (open_ host htifMem pathname flags mode rv).1 =
    .ok (host.sys (.open_ (rv.getMemptr pathname)))
  write : ∀ file ptr len, (write host htifMem file ptr len rv).1 =
    .ok (host.sys (.write file (rv.getMemptr ptr) len))
  close : ∀ file, (close host htifMem file rv).1 = .ok (host.sys (.close file))
  lseek : ∀ file ptr dir, (lseek host htifMem file ptr dir rv).1 =
    .ok (host.sys (.lseek file ptr dir))
  read : ∀ file ptr len, (read host htifMem file ptr len rv).1 =
    .ok (host.sys (.read file (rv.getMemptr ptr) len))
  exit_ : ∀ code, (exit_ host htifMem code rv).1 = .error rv.progExit

theorem library (host : Host) {htifMem : Word} (hb : Block rv htifMem) :
    Library host rv htifMem := by
  -- the request does not move memory, so that the pointers are those of the caller
  have hptr : ∀ {ws d}, Placed rv htifMem ws d → ∀ p, d.getMemptr p = rv.getMemptr p := by
    intro ws d hp p
    rw [hp.only]
    rfl
  have hcall : ∀ n a0 a1 a2 : Word, ∃ d,
      Placed rv htifMem [n, a0, a1, a2, 0#32, 0#32, 0#32, 0#32] d ∧
      (internalSyscall host htifMem n [a0, a1, a2, 0#32, 0#32, 0#32, 0#32] rv).1 =
        (d.syscall host n a0 a1 a2).1.map (fun res => answer n res rv.htifResult) ∧
      (internalSyscall host htifMem n [a0, a1, a2, 0#32, 0#32, 0#32, 0#32] rv).2.mem =
        (d.syscall host n a0 a1 a2).2.mem := fun _ _ _ _ =>
    internalSyscall_syscall host rfl hb
  refine ⟨fun _ _ _ => ?_, fun _ _ _ => ?_, fun _ => ?_, fun _ _ _ => ?_, fun _ _ _ => ?_,
    fun _ => ?_⟩
  · obtain ⟨d, hp, hv, -⟩ := hcall sysOpen _ _ _
    rw [← hptr hp]
    exact hv
  · obtain ⟨d, hp, hv, -⟩ := hcall sysWrite _ _ _
    rw [← hptr hp]
    exact hv
  · obtain ⟨d, -, hv, -⟩ := hcall sysClose _ _ _
    exact hv
  · obtain ⟨d, -, hv, -⟩ := hcall sysLseek _ _ _
    exact hv
  · obtain ⟨d, hp, hv, -⟩ := hcall sysRead _ _ _
    rw [← hptr hp]
    exact hv
  · obtain ⟨d, hp, hv, -⟩ := hcall sysExit _ _ _
    have hexit : d.progExit = rv.progExit := by
      rw [hp.only]
      rfl
    rw [← hexit]
    exact hv

/-- A host that takes every byte it is given to write. -/
def takesAll : Host := { Host.none with sys := fun
  | .write _ _ count => count
  | _ => -1#32 }

end Srv32.Sw

import Srv32.Iss.Dest
import Srv32.Iss.Settle

/-! The debugger's view of the registers (`gdbstub.c`, `debug.c`). A step clears `x0` before it
fetches, so the instructions see zero there; what an instruction or the debugger writes to `x0`
stays until the next step, and the debugger sees it. -/

namespace Srv32.Gdb
open Iss Iss.Rv

variable {cfg : Config} {rv d : Rv} {inst : Word} {host : Host} {c : Bool}

/-- `srv_read_reg`: `EFAULT`, or the `size_t` it stores. -/
def srvReadReg (cfg : Config) (rv : Rv) (regno : ℕ) : Option (BitVec 64) :=
  if cfg.regnum < regno then none
  else if regno = cfg.regnum then some (rv.pc.signExtend 64)
  else some ((rv.readRegs cfg (BitVec.ofNat 5 regno)).signExtend 64)

/-- `srv_write_reg`: `EFAULT`, or the state it leaves. -/
def srvWriteReg (cfg : Config) (rv : Rv) (regno : ℕ) (value : BitVec 64) : Option Rv :=
  if cfg.regnum < regno then none
  else if regno = cfg.regnum then some { rv with pc := value.setWidth 32 }
  else some (rv.writeRegs cfg (BitVec.ofNat 5 regno) (value.setWidth 32))

/-- The registers `dump_regs` prints, in order. -/
def dumpRegs (cfg : Config) (rv : Rv) : List Word :=
  (List.range cfg.regnum).map fun i => rv.readRegs cfg (BitVec.ofNat 5 i)

/-- What the debugger does to the state between two of its reads. -/
inductive Event
  | step (host : Host)
  | writeReg (regno : ℕ) (value : BitVec 64)

def Event.apply (cfg : Config) (rv : Rv) : Event → Rv
  | .step host => (srv32Step cfg host rv).2
  | .writeReg regno value => (srvWriteReg cfg rv regno value).getD rv

/-- The state after the first `n` events. -/
def session (cfg : Config) (events : ℕ → Event) (rv : Rv) : ℕ → Rv
  | 0 => rv
  | n + 1 => (events n).apply cfg (session cfg events rv n)

/-- Register 0 reads as 0 for the debugger, and for every instruction the next step can execute. -/
structure ZeroLaw (cfg : Config) (rv : Rv) : Prop where
  read : srvReadReg cfg rv 0 = some 0#64
  dump : (dumpRegs cfg rv).head? = some 0#32
  source : ∀ host d inst c, rv.dispatch cfg host = .ok (d, inst, c) →
    (rs1 inst = 0#5 → d.readRegs cfg (rs1 inst) = 0#32) ∧
      (rs2 inst = 0#5 → d.readRegs cfg (rs2 inst) = 0#32)

/-- The event gives register 0 no other value than 0: a step whose instruction has `x0` for its
`rd` has 0 for it. -/
def Event.Keeps (cfg : Config) (rv : Rv) : Event → Prop
  | .step host => ∀ d inst c, rv.dispatch cfg host = .ok (d, inst, c) → rd inst = 0#5 →
      ∀ v, d.rdValue cfg inst host c = some v → v = 0#32
  | .writeReg regno value => regno = 0 → value.setWidth 32 = 0#32

theorem zero_lt_regnum (cfg : Config) : (0#5).toNat < cfg.regnum := by
  rw [Config.regnum]
  split_ifs <;> decide

theorem readRegs_zero (cfg : Config) (rv : Rv) : rv.readRegs cfg 0#5 = rv.regs 0#5 :=
  if_neg (Nat.not_le.mpr (zero_lt_regnum cfg))

/-- The step clears register 0 before anything reads it. -/
theorem settle_zero (cfg : Config) (rv : Rv) : (rv.settle cfg).regs 0#5 = 0#32 := by
  rw [settle, (checkPc_frame _).1, (enterInts_frame _).1, writeRegs_reg (zero_lt_regnum cfg),
    if_pos rfl]

theorem dispatch_zero (hd : rv.dispatch cfg host = .ok (d, inst, c)) : d.regs 0#5 = 0#32 := by
  rcases dispatch_cases cfg host rv with ⟨d', i', c', hd', hr⟩ | ⟨d', val, hd', -⟩
  · rw [hd] at hd'
    cases hd'
    obtain ⟨_, _, _, _, _, rfl⟩ := hr.state
    exact settle_zero cfg rv
  · rw [hd] at hd'
    cases hd'

/-- The law asks for the register itself; the instructions have theirs already. -/
theorem zeroLaw_iff (cfg : Config) (rv : Rv) : ZeroLaw cfg rv ↔ rv.regs 0#5 = 0#32 := by
  have hpos : 0 < cfg.regnum := zero_lt_regnum cfg
  have hread : srvReadReg cfg rv 0 = some ((rv.regs 0#5).signExtend 64) := by
    rw [srvReadReg, if_neg (Nat.not_lt_zero _), if_neg (Nat.ne_of_lt hpos), ← readRegs_zero cfg]
  have hext : (rv.regs 0#5).signExtend 64 = 0#64 ↔ rv.regs 0#5 = 0#32 := by
    constructor
    · intro h
      have hlow := congrArg (BitVec.setWidth 32) h
      rwa [Bits.setWidth_signExtend _ (by decide)] at hlow
    · intro h
      rw [h]
      decide
  constructor
  · intro h
    exact hext.mp (Option.some.inj (hread.symm.trans h.read))
  · intro h
    constructor
    · rw [hread, hext.mpr h]
    · rw [dumpRegs, List.head?_map]
      have hhead : (List.range cfg.regnum).head? = some 0 := by
        rw [List.head?_range, if_neg hpos.ne']
      rw [hhead, Option.map_some]
      exact congrArg some ((readRegs_zero cfg rv).trans h)
    · intro host d inst c hd
      have hz : d.readRegs cfg 0#5 = 0#32 := (readRegs_zero cfg d).trans (dispatch_zero hd)
      exact ⟨fun h1 => by rw [h1, hz], fun h2 => by rw [h2, hz]⟩

/-! One event. -/

theorem reachesEcall_zero (inst : Word) : reachesEcall inst → 0#5 ≠ regA0 := fun _ => by decide

theorem step_zero_iff (cfg : Config) (host : Host) (rv : Rv) :
    (srv32Step cfg host rv).2.regs 0#5 = 0#32 ↔ Event.Keeps cfg rv (.step host) := by
  rw [srv32Step_eq]
  rcases dispatch_cases cfg host rv with ⟨d, inst, c, hd, -⟩ | ⟨d, val, hd, hr⟩
  · have hz := dispatch_zero hd
    have hreg := execNext_reg (d := d) host c (zero_lt_regnum cfg) (reachesEcall_zero inst)
    rw [hd]
    simp only
    rw [hreg, hz]
    constructor
    · intro h d' inst' c' hd' hrd v hv
      rw [hd] at hd'
      cases hd'
      rwa [if_pos hrd, hv] at h
    · intro h
      by_cases hrd : rd inst = 0#5
      · rw [if_pos hrd]
        cases hv : d.rdValue cfg inst host c with
        | none => rfl
        | some v => exact h d inst c hd hrd v hv
      · exact if_neg hrd
  · rw [hd]
    refine iff_of_true ?_ ?_
    · obtain ⟨_, _, _, _, _, rfl⟩ := hr.state
      exact settle_zero cfg rv
    · intro d' inst' c' hd'
      rw [hd] at hd'
      cases hd'

theorem writeReg_zero_iff (regno : ℕ) (value : BitVec 64) (hz : rv.regs 0#5 = 0#32) :
    (Event.apply cfg rv (.writeReg regno value)).regs 0#5 = 0#32 ↔
      Event.Keeps cfg rv (.writeReg regno value) := by
  have hpos : 0 < cfg.regnum := zero_lt_regnum cfg
  have hle : cfg.regnum ≤ 32 := by
    rw [Config.regnum]
    split_ifs <;> decide
  rw [Event.apply, Event.Keeps, srvWriteReg]
  by_cases h1 : cfg.regnum < regno
  · rw [if_pos h1]
    exact iff_of_true hz fun h => by omega
  by_cases h2 : regno = cfg.regnum
  · rw [if_neg h1, if_pos h2]
    exact iff_of_true hz fun h => by omega
  · rw [if_neg h1, if_neg h2, Option.getD_some, writeRegs_reg (zero_lt_regnum cfg), hz]
    have hreg : BitVec.ofNat 5 regno = 0#5 ↔ regno = 0 := by
      rw [← BitVec.toNat_inj, BitVec.toNat_ofNat, BitVec.toNat_ofNat]
      omega
    by_cases h0 : regno = 0
    · rw [if_pos (hreg.mpr h0)]
      exact ⟨fun h _ => h, fun h => h h0⟩
    · rw [if_neg (mt hreg.mp h0)]
      exact iff_of_true rfl fun h => absurd h h0

theorem event_zero_iff (e : Event) (hz : rv.regs 0#5 = 0#32) :
    (e.apply cfg rv).regs 0#5 = 0#32 ↔ e.Keeps cfg rv := by
  cases e with
  | step host => exact step_zero_iff cfg host rv
  | writeReg regno value => exact writeReg_zero_iff regno value hz

/-- In every session from reset, of steps and register writes in any order: register 0 reads as 0
in every state so far exactly when every event so far keeps it. -/
theorem x0_zero_iff (cfg : Config) (o : Options) (mem : Int → Byte) (events : ℕ → Event) (n : ℕ) :
    (∀ m ≤ n, ZeroLaw cfg (session cfg events (reset cfg o mem) m)) ↔
      ∀ m < n, (events m).Keeps cfg (session cfg events (reset cfg o mem) m) := by
  simp only [zeroLaw_iff]
  induction n with
  | zero =>
    refine iff_of_true (fun m hm => ?_) fun m hm => absurd hm (Nat.not_lt_zero m)
    rw [Nat.le_zero.mp hm]
    rfl
  | succ n ih =>
    constructor
    · intro h m hm
      exact (event_zero_iff (events m) (h m (by omega))).mp (h (m + 1) (by omega))
    · intro h m hm
      have hprev := ih.mpr fun k hk => h k (by omega)
      rcases Nat.lt_or_eq_of_le hm with hlt | rfl
      · exact hprev m (by omega)
      · exact (event_zero_iff (events n) (hprev n le_rfl)).mpr (h n (Nat.lt_succ_self n))

/-- After `jal x0, 8` the debugger reads the link in register 0, and what it writes there itself
stays too. -/
theorem x0_zero_jal :
    let rv := reset .rv32im ⟨2#32, false, false, false, 0#32, 0x1000#32⟩ (image [0x0080006f#32])
    srvReadReg .rv32im (session .rv32im (fun _ => .step .none) rv 1) 0 = some 4#64 ∧
      ¬ ZeroLaw .rv32im (session .rv32im (fun _ => .step .none) rv 1) ∧
      ¬ ZeroLaw .rv32im (session .rv32im (fun _ => .writeReg 0 5#64) rv 1) := by
  intro rv
  rw [zeroLaw_iff, zeroLaw_iff]
  exact ⟨by decide +kernel, by decide +kernel, by decide +kernel⟩

end Srv32.Gdb

import Srv32.Data.Answers
import Srv32.Gdb.Breakpoints
import Srv32.Gdb.Cont
import Srv32.Gdb.Regs

/-! Sessions of the debugger (`gdbstub.c`). The stub keeps its breakpoints in a tree; to gdb it
answers as a debugger with a set of them. -/

namespace Srv32.Gdb
open Iss Iss.Rv BinaryTree SearchTree

/-! What gdb asks for (`gdbstub_ops`). -/

/-- The machine that is debugged, with `is_interrupted` and the number of its steps so far. -/
structure Debuggee where
  rv : Rv
  interrupted : Bool
  steps : ℕ

/-- The calls that leave the breakpoints alone, `srv_cont` apart. -/
inductive Access
  | readReg (regno : ℕ)
  | writeReg (regno : ℕ) (value : BitVec 64)
  | readMem (addr len : BitVec 64)
  | writeMem (addr len : BitVec 64) (val : ℕ → Byte)
  | stepi
  | onInterrupt

/-- A call; `srv_cont` with the round before whose tests the interrupt arrives, if it does, and
`srv_set_bp` with the address `malloc` returns. -/
inductive Command
  | access (a : Access)
  | cont (signal : Option ℕ)
  | setBp (addr : BitVec 64) (software : Bool) (p : Addr)
  | delBp (addr : BitVec 64) (software : Bool)

/-- What a call delivers: a register or `EFAULT`, whether one was written, the bytes `val` gets if
it gets any, or nothing but the end of the call. -/
inductive Reply
  | reg (value : Option (BitVec 64))
  | written (ok : Bool)
  | bytes (val : Option (List Byte))
  | done

/-- `srv_read_mem`, which returns 0 also when nothing is copied. -/
def srvReadMem (rv : Rv) (addr len : BitVec 64) : Option (List Byte) :=
  (rv.readMem (addr.setWidth 32) (len.setWidth 32)).map fun b =>
    (List.range (len.setWidth 32).toInt.toNat).map b

def srvWriteMem (rv : Rv) (addr len : BitVec 64) (val : ℕ → Byte) : Rv :=
  (rv.writeMem (addr.setWidth 32) (len.setWidth 32) val).getD rv

/-- `none` when the process ends in the step. -/
def Access.serve (cfg : Config) (host : ℕ → Host) (d : Debuggee) :
    Access → Option (Reply × Debuggee)
  | .readReg regno => some (.reg (srvReadReg cfg d.rv regno), d)
  | .writeReg regno value =>
    match srvWriteReg cfg d.rv regno value with
    | some rv => some (.written true, { d with rv := rv })
    | none => some (.written false, d)
  | .readMem addr len => some (.bytes (srvReadMem d.rv addr len), d)
  | .writeMem addr len val => some (.done, { d with rv := srvWriteMem d.rv addr len val })
  | .stepi =>
    match srv32Step cfg (host d.steps) d.rv with
    | (.code _, rv) => some (.done, { d with rv := rv, steps := d.steps + 1 })
    | _ => none
  | .onInterrupt => some (.done, { d with interrupted := true })

/-- What the steps from here on get from the host. -/
def Debuggee.host (d : Debuggee) (host : ℕ → Host) (n : ℕ) : Host := host (d.steps + n)

/-- `is_interrupted` is found set in round `n`. -/
def Debuggee.seen (d : Debuggee) (signal : Option ℕ) (n : ℕ) : Bool :=
  d.interrupted || signal.any (fun i => decide (i ≤ n))

/-- `n` steps on, and `is_interrupted` cleared. -/
def Debuggee.resumed (cfg : Config) (host : ℕ → Host) (d : Debuggee) (n : ℕ) : Debuggee :=
  ⟨Iss.run cfg (d.host host) d.rv n, false, d.steps + n⟩

/-! The stub, and what gdb takes it for. -/

/-- The stub: the machine, and the tree of breakpoints. -/
structure Stub where
  target : Debuggee
  map : Map

/-- One call, with bounds for the lookups and for `srv_cont`; `none` when it does not return. -/
def Stub.serve (k fuel : ℕ) (cfg : Config) (host : ℕ → Host) (s : Stub) :
    Command → Option (Reply × Stub)
  | .access a => (a.serve cfg host s.target).map fun r => (r.1, { s with target := r.2 })
  | .cont signal =>
    match contLoop k cfg s.map (s.target.host host) (s.target.seen signal) fuel 0 s.target.rv with
    | some (.returns n rv) => some (.done, { s with target := ⟨rv, false, s.target.steps + n⟩ })
    | _ => none
  | .setBp addr software p =>
    match srvSetBp k s.map addr software p with
    | .ok (m, _) => some (.done, { s with map := m })
    | .error _ => none
  | .delBp addr software =>
    match srvDelBp k s.map addr software with
    | .ok (m, _) => some (.done, { s with map := m })
    | .error _ => none

def Stub.Serves (k : ℕ) (cfg : Config) (host : ℕ → Host) (s : Stub) (c : Command) (r : Reply)
    (s' : Stub) : Prop :=
  ∃ fuel, s.serve k fuel cfg host c = some (r, s')

/-- A debugger: the machine, and the set of the addresses it stops at. -/
structure Debugger where
  target : Debuggee
  armed : Set Word

/-- `continue` comes to its first reason to stop after `n` steps. -/
structure Debuggee.Stops (cfg : Config) (host : ℕ → Host) (d : Debuggee) (armed : Set Word)
    (seen : ℕ → Bool) (n : ℕ) : Prop where
  alive : Alive cfg (d.host host) d.rv n
  reason : seen n = true ∨ (Iss.run cfg (d.host host) d.rv n).pc ∈ armed
  first : ∀ j < n, ¬ (seen j = true ∨ (Iss.run cfg (d.host host) d.rv j).pc ∈ armed)

def Debugger.Serves (cfg : Config) (host : ℕ → Host) (d : Debugger) :
    Command → Reply → Debugger → Prop
  | .access a, r, d' => ∃ t, a.serve cfg host d.target = some (r, t) ∧ d' = { d with target := t }
  | .cont signal, r, d' => ∃ n, d.target.Stops cfg host d.armed (d.target.seen signal) n ∧
      r = .done ∧ d' = { d with target := d.target.resumed cfg host n }
  | .setBp addr software _, r, d' => r = .done ∧
      d' = { d with armed := if software then insert (addr.setWidth 32) d.armed else d.armed }
  | .delBp addr software, r, d' => r = .done ∧
      d' = { d with armed := if software then d.armed \ {addr.setWidth 32} else d.armed }

def calls (cs : List Command) : List Call :=
  cs.filterMap fun
    | .setBp addr true p => some (.set addr p)
    | .delBp addr true => some (.del addr)
    | _ => none

def attached (rv : Rv) : Debuggee := ⟨rv, false, 0⟩

variable {k : ℕ} {cfg : Config} {m : Map} {host : ℕ → Host} {seen : ℕ → Bool} {rv : Rv}
  {armed : Set Word} {d : Debuggee} {s s' : Stub} {cs : List Command} {c : Command} {r : Reply}

/-- The loop returns at the first reason to stop, and only there. -/
theorem cont_returns_iff (cfg : Config) (host : ℕ → Host) (d : Debuggee) (seen : ℕ → Bool)
    (hf : Finds k m (· ∈ armed)) (n : ℕ) (u : Rv) :
    (∃ fuel, contLoop k cfg m (d.host host) seen fuel 0 d.rv = some (.returns n u)) ↔
      d.Stops cfg host armed seen n ∧ u = Iss.run cfg (d.host host) d.rv n := by
  constructor
  · rintro ⟨fuel, h⟩
    obtain ⟨-, hu, halive, hreason, hno⟩ := contLoop_returned (i := 0) hf h
    exact ⟨⟨fun j hj => halive j (Nat.zero_le j) hj, hreason,
      fun j hj => hno j (Nat.zero_le j) hj⟩, hu⟩
  · rintro ⟨h, rfl⟩
    have hcomes := contLoop_comes hf h.alive h.reason h.first n le_rfl
    rw [Nat.sub_self] at hcomes
    exact ⟨n + 1, hcomes⟩

/-! The tree of the stub holds the set of the debugger. -/

theorem calls_append (cs : List Command) (c : Command) :
    calls (cs ++ [c]) = calls cs ++ calls [c] := List.filterMap_append

/-- The stub after the calls `cs`, and the debugger it is to be taken for. -/
structure Holding (k : ℕ) (cs : List Command) (s : Stub) (d : Debugger) : Prop where
  target : s.target = d.target
  armed : ∀ a, a ∈ d.armed ↔ Armed (calls cs) a
  ran : run k (calls cs) = .ok s.map
  good : ∃ t, Good s.map t (calls cs)

theorem holding_attached (d : Debuggee) : Holding k [] ⟨d, Map.empty⟩ ⟨d, ∅⟩ where
  target := rfl
  armed a := iff_of_false (Set.notMem_empty a) armed_nil
  ran := rfl
  good := ⟨nil, good_empty⟩

namespace Holding

variable {e e' : Debugger}

theorem finds (h : Holding k cs s e) (hk : (calls cs).length < k) :
    Finds k s.map (· ∈ e.armed) := by
  obtain ⟨t, hg⟩ := h.good
  have hf := finds_tree hg.holds hg.ordered (hg.height hk)
  intro a
  obtain ⟨p, hp, hiff⟩ := hf a
  exact ⟨p, hp, hiff.trans ((hg.keys a).trans (h.armed a).symm)⟩

theorem idle (h : Holding k cs s e) (hc : calls [c] = []) : Holding k (cs ++ [c]) s e := by
  have hcalls : calls (cs ++ [c]) = calls cs := by rw [calls_append, hc, List.append_nil]
  constructor
  · exact h.target
  · rw [hcalls]
    exact h.armed
  · rw [hcalls]
    exact h.ran
  · rw [hcalls]
    exact h.good

theorem other (h : Holding k cs s e) (hc : calls [c] = []) (t : Debuggee) :
    Holding k (cs ++ [c]) { s with target := t } { e with target := t } :=
  ⟨rfl, (h.idle hc).armed, (h.idle hc).ran, (h.idle hc).good⟩

theorem call (h : Holding k cs s e) {x : Call} (hc : calls [c] = [x]) {m : Map} {armed : Set Word}
    (hx : x.exec k s.map = .ok m) (hgood : ∃ t, Good m t (calls cs ++ [x]))
    (harm : ∀ a, a ∈ armed ↔ Armed (calls cs ++ [x]) a) :
    Holding k (cs ++ [c]) { s with map := m } { e with armed := armed } := by
  have hcalls : calls (cs ++ [c]) = calls cs ++ [x] := by rw [calls_append, hc]
  constructor
  · exact h.target
  · rw [hcalls]
    exact harm
  · rw [hcalls, run_append, h.ran]
    exact hx
  · rw [hcalls]
    exact hgood

end Holding

/-- What a set has to respect, given the calls before it. -/
def Allowed (cs : List Command) : Prop :=
  Fresh (calls cs) ∧ Careful (calls cs)

theorem Allowed.init {all : List Command} (h : Allowed all) (hp : cs <+: all) : Allowed cs := by
  obtain ⟨rest, rfl⟩ := hp
  have hcalls : calls (cs ++ rest) = calls cs ++ calls rest := List.filterMap_append
  rw [Allowed, hcalls] at h
  constructor
  · intro before addr p after he
    exact h.1 before addr p (after ++ calls rest) (by rw [he, List.append_assoc]; rfl)
  · intro before addr p after he
    exact h.2 before addr p (after ++ calls rest) (by rw [he, List.append_assoc]; rfl)

/-- A breakpoint set or deleted leaves the tree with the set the debugger has. -/
theorem tree_serves {e : Debugger} (h : Holding k cs s e) (hk : (calls cs).length < k)
    (ha : Allowed (cs ++ [c])) {x : Call} (hc : calls [c] = [x]) :
    ∃ m, x.exec k s.map = .ok m ∧ Holding k (cs ++ [c]) { s with map := m }
      { e with armed := match x with
        | .set addr _ => insert (addr.setWidth 32) e.armed
        | .del addr => e.armed \ {addr.setWidth 32} } := by
  obtain ⟨t, hg⟩ := h.good
  rw [Allowed, calls_append, hc] at ha
  cases x with
  | set addr p =>
    obtain ⟨hno, hr⟩ := ha.2 (calls cs) addr p [] rfl
    have hp := ha.1 (calls cs) addr p [] rfl k s.map h.ran
    obtain ⟨m, t', hx, hg'⟩ := hg.set hk hp hno (hr k s.map h.ran)
    refine ⟨m, hx, h.call hc hx ⟨t', hg'⟩ fun a => ?_⟩
    rw [armed_set, ← h.armed]
    exact Set.mem_insert_iff
  | del addr =>
    obtain ⟨m, t', hx, hg'⟩ := hg.del hk addr
    refine ⟨m, hx, h.call hc hx ⟨t', hg'⟩ fun a => ?_⟩
    rw [armed_del, ← h.armed]
    exact and_comm

/-! A session. -/

theorem serve_tree {f : Except Stop (Map × Bool)} {m : Map} (h : f.map Prod.fst = .ok m) (s : Stub) :
    (match f with
      | .ok (m, _) => some (Reply.done, { s with map := m })
      | .error _ => none) = some (.done, { s with map := m }) := by
  cases f with
  | error e => cases h
  | ok p =>
    obtain rfl : p.1 = m := Except.ok.inj h
    rfl

theorem serves_both {e e1 : Debugger} {s1 : Stub}
    (hs : ∀ fuel, s.serve k fuel cfg host c = some (.done, s1))
    (he : ∀ r e', e.Serves cfg host c r e' ↔ r = .done ∧ e' = e1)
    (hh : Holding k (cs ++ [c]) s1 e1) :
    (∀ s', s.Serves k cfg host c r s' →
      ∃ e', e.Serves cfg host c r e' ∧ Holding k (cs ++ [c]) s' e') ∧
    ∀ e', e.Serves cfg host c r e' →
      ∃ s', s.Serves k cfg host c r s' ∧ Holding k (cs ++ [c]) s' e' := by
  constructor
  · rintro s' ⟨fuel, h⟩
    rw [hs] at h
    cases h
    exact ⟨e1, (he _ _).mpr ⟨rfl, rfl⟩, hh⟩
  · intro e' h
    obtain ⟨rfl, rfl⟩ := (he _ _).mp h
    exact ⟨s1, ⟨0, hs 0⟩, hh⟩

theorem serves_iff {e : Debugger} (h : Holding k cs s e) (hk : (calls cs).length < k)
    (ha : Allowed (cs ++ [c])) :
    (∀ s', s.Serves k cfg host c r s' →
      ∃ e', e.Serves cfg host c r e' ∧ Holding k (cs ++ [c]) s' e') ∧
    ∀ e', e.Serves cfg host c r e' →
      ∃ s', s.Serves k cfg host c r s' ∧ Holding k (cs ++ [c]) s' e' := by
  cases c with
  | access a =>
    constructor
    · rintro s' ⟨fuel, hs⟩
      obtain ⟨p, hp, he⟩ := Option.map_eq_some_iff.mp hs
      cases he
      rw [h.target] at hp
      exact ⟨_, ⟨p.2, hp, rfl⟩, h.other rfl p.2⟩
    · rintro e' ⟨t, ht, rfl⟩
      refine ⟨{ s with target := t }, ⟨0, ?_⟩, h.other rfl t⟩
      rw [Stub.serve, h.target, ht]
      rfl
  | cont signal =>
    have hiff := cont_returns_iff cfg host e.target (e.target.seen signal) (h.finds hk)
    constructor
    · rintro s' ⟨fuel, hs⟩
      rw [Stub.serve, h.target] at hs
      split at hs
      · next n rv heq =>
        obtain ⟨hstops, hrv⟩ := (hiff n rv).mp ⟨fuel, heq⟩
        cases hs
        rw [hrv]
        exact ⟨_, ⟨n, hstops, rfl, rfl⟩, h.other rfl (e.target.resumed cfg host n)⟩
      · cases hs
    · rintro e' ⟨n, hstops, rfl, rfl⟩
      obtain ⟨fuel, hloop⟩ := (hiff n _).mpr ⟨hstops, rfl⟩
      refine ⟨_, ⟨fuel, ?_⟩, h.other rfl (e.target.resumed cfg host n)⟩
      rw [Stub.serve, h.target, hloop]
      rfl
  | setBp addr software p =>
    cases software with
    | false => exact serves_both (fun _ => rfl) (fun _ _ => Iff.rfl) (h.idle rfl)
    | true =>
      obtain ⟨m, hx, hh⟩ := tree_serves h hk ha rfl
      exact serves_both (fun _ => serve_tree hx s) (fun _ _ => Iff.rfl) hh
  | delBp addr software =>
    cases software with
    | false => exact serves_both (fun _ => rfl) (fun _ _ => Iff.rfl) (h.idle rfl)
    | true =>
      obtain ⟨m, hx, hh⟩ := tree_serves h hk ha rfl
      exact serves_both (fun _ => serve_tree hx s) (fun _ _ => Iff.rfl) hh

theorem length_calls_le {all : List Command} (hp : cs <+: all) :
    (calls cs).length ≤ (calls all).length := (hp.filterMap _).length_le

section Session
variable {l : List (Command × Reply)} (hf : Fresh (calls (l.map Prod.fst)))
  (hc : Careful (calls (l.map Prod.fst))) (hk : (calls (l.map Prod.fst)).length < k)
include hf hc hk

theorem stub_followed (h : Answers (Stub.Serves k cfg host) ⟨d, Map.empty⟩ l s) :
    ∃ e, Answers (Debugger.Serves cfg host) ⟨d, ∅⟩ l e ∧ Holding k (l.map Prod.fst) s e := by
  refine h.simulates (R := Holding k) (holding_attached d) fun before a u b u' v hp hu hs => ?_
  have hlen : (calls before).length < k :=
    (length_calls_le ((List.prefix_append _ _).trans hp)).trans_lt hk
  exact (serves_iff hu hlen (Allowed.init ⟨hf, hc⟩ hp)).1 u' hs

theorem debugger_followed {e : Debugger}
    (h : Answers (Debugger.Serves cfg host) ⟨d, ∅⟩ l e) :
    ∃ s, Answers (Stub.Serves k cfg host) ⟨d, Map.empty⟩ l s ∧ Holding k (l.map Prod.fst) s e := by
  refine h.simulates (R := fun cs e s => Holding k cs s e) (holding_attached d)
    fun before a u b u' v hp hu hs => ?_
  have hlen : (calls before).length < k :=
    (length_calls_le ((List.prefix_append _ _).trans hp)).trans_lt hk
  exact (serves_iff hu hlen (Allowed.init ⟨hf, hc⟩ hp)).2 u' hs

/-- In every session, of calls in any order, the stub answers as a debugger with a set of
breakpoints, as long as no address is set twice and none is added under a root with a parent. -/
theorem session_refines (cfg : Config) (host : ℕ → Host) (rv : Rv) (d : Debuggee) :
    (∃ m, Answers (Stub.Serves k cfg host) ⟨attached rv, Map.empty⟩ l ⟨d, m⟩) ↔
      ∃ armed, Answers (Debugger.Serves cfg host) ⟨attached rv, ∅⟩ l ⟨d, armed⟩ := by
  constructor
  · rintro ⟨m, h⟩
    obtain ⟨e, he, hh⟩ := stub_followed hf hc hk h
    obtain rfl : d = e.target := hh.target
    exact ⟨e.armed, he⟩
  · rintro ⟨armed, h⟩
    obtain ⟨s, hs, hh⟩ := debugger_followed hf hc hk h
    obtain rfl : s.target = d := hh.target
    exact ⟨s.map, hs⟩

end Session

theorem fresh_single (addr : BitVec 64) (p : Addr) : Fresh [.set addr p] := by
  refine EachSet.snoc [] eachSet_nil fun a q hq k m h => ?_
  cases Except.ok.inj h
  rfl

theorem careful_single (addr : BitVec 64) (p : Addr) : Careful [.set addr p] := by
  refine EachSet.snoc [] eachSet_nil fun a q hq => ⟨armed_nil, fun k m h => ?_⟩
  cases Except.ok.inj h
  intro n hn
  cases hn

/-- A breakpoint at the second of two `nop`: the stub stops before it and shows its address. -/
theorem session_refines_nop :
    let rv := reset .rv32im options4k (image [0x00000013#32, 0x00000013#32])
    ∃ m, Answers (Stub.Serves 2 .rv32im fun _ => .none) ⟨attached rv, Map.empty⟩
      [(.setBp 4 true 1, .done), (.cont none, .done),
        (.access (.readReg 32), .reg (some 4#64))]
      ⟨(attached rv).resumed .rv32im (fun _ => .none) 1, m⟩ := by
  intro rv
  refine (session_refines (l := [(.setBp 4 true 1, .done), (.cont none, .done),
    (.access (.readReg 32), .reg (some 4#64))]) (fresh_single 4 1) (careful_single 4 1)
    (Nat.lt_succ_self 1) .rv32im (fun _ => .none) rv _).mpr ⟨insert 4#32 ∅, ?_⟩
  have hpc : (Iss.run .rv32im (fun _ => .none) rv 1).pc = 4#32 := by decide +kernel
  have hcode : (result .rv32im (fun _ => .none) rv 0).1 = .code rvOkay := by decide +kernel
  have hreg : srvReadReg .rv32im (Iss.run .rv32im (fun _ => .none) rv 1) 32 = some 4#64 := by
    decide +kernel
  have hstops : (attached rv).Stops .rv32im (fun _ => .none) (insert 4#32 ∅)
      ((attached rv).seen none) 1 := by
    constructor
    · intro j hj
      obtain rfl : j = 0 := by omega
      exact ⟨_, hcode⟩
    · exact .inr (.inl hpc)
    · intro j hj hreason
      obtain rfl : j = 0 := by omega
      rcases hreason with hseen | hat | hat
      · cases hseen
      · exact absurd (show (0#32 : Word) = 4#32 from hat) (by decide)
      · exact hat
  exact ⟨_, ⟨rfl, rfl⟩, _, ⟨1, hstops, rfl, rfl⟩, _,
    ⟨_, congrArg (fun v => some (Reply.reg v, _)) hreg, rfl⟩, rfl⟩

/-! A session that only watches. -/

/-- The call writes no register and no memory. -/
def Command.Watches : Command → Prop
  | .access (.writeReg _ _) => False
  | .access (.writeMem _ _ _) => False
  | _ => True

/-- The machine is where the program comes to without a debugger. -/
structure OnRun (cfg : Config) (host : ℕ → Host) (rv : Rv) (d : Debuggee) : Prop where
  state : d.rv = Iss.run cfg host rv d.steps
  alive : Alive cfg host rv d.steps

theorem run_from (cfg : Config) (host : ℕ → Host) (rv : Rv) (m n : ℕ) :
    Iss.run cfg host rv (m + n) =
      Iss.run cfg (fun i => host (m + i)) (Iss.run cfg host rv m) n := by
  induction n with
  | zero => rfl
  | succ n ih =>
    rw [← Nat.add_assoc, Iss.run, Iss.run, ih]

theorem OnRun.run (h : OnRun cfg host rv d) (n : ℕ) :
    Iss.run cfg (d.host host) d.rv n = Iss.run cfg host rv (d.steps + n) := by
  rw [run_from, ← h.state]
  rfl

theorem OnRun.result (h : OnRun cfg host rv d) (n : ℕ) :
    Iss.result cfg (d.host host) d.rv n = Iss.result cfg host rv (d.steps + n) := by
  rw [Iss.result, Iss.result, h.run]
  rfl

theorem OnRun.alive_iff (h : OnRun cfg host rv d) (n : ℕ) :
    Alive cfg (d.host host) d.rv n ↔ Alive cfg host rv (d.steps + n) := by
  constructor
  · intro ha j hj
    by_cases hlt : j < d.steps
    · exact h.alive j hlt
    · obtain ⟨i, rfl⟩ := Nat.exists_eq_add_of_le (Nat.not_lt.mp hlt)
      rw [← h.result]
      exact ha i (by omega)
  · intro ha j hj
    rw [h.result]
    exact ha _ (by omega)

theorem onRun_attached : OnRun cfg host rv (attached rv) :=
  ⟨rfl, fun j hj => absurd hj (Nat.not_lt_zero j)⟩

theorem OnRun.step (h : OnRun cfg host rv d) {v : Word} {u : Rv}
    (hs : srv32Step cfg (host d.steps) d.rv = (.code v, u)) :
    OnRun cfg host rv { d with rv := u, steps := d.steps + 1 } := by
  rw [h.state] at hs
  constructor
  · exact (congrArg Prod.snd hs).symm
  · intro j hj
    rcases Nat.lt_succ_iff_lt_or_eq.mp hj with hj | rfl
    · exact h.alive j hj
    · exact ⟨v, congrArg Prod.fst hs⟩

theorem OnRun.access (h : OnRun cfg host rv d) {a : Access} (hw : (Command.access a).Watches)
    {t : Debuggee} (hs : a.serve cfg host d = some (r, t)) : OnRun cfg host rv t := by
  cases a with
  | readReg regno =>
    cases hs
    exact h
  | writeReg regno value => exact hw.elim
  | readMem addr len =>
    cases hs
    exact h
  | writeMem addr len val => exact hw.elim
  | stepi =>
    rw [Access.serve] at hs
    split at hs
    · next hstep =>
      cases hs
      exact h.step hstep
    · cases hs
  | onInterrupt =>
    cases hs
    exact ⟨h.state, h.alive⟩

theorem OnRun.serves {e e' : Debugger} (h : OnRun cfg host rv e.target) (hw : c.Watches)
    (hs : e.Serves cfg host c r e') : OnRun cfg host rv e'.target := by
  cases c with
  | access a =>
    obtain ⟨t, ht, rfl⟩ := hs
    exact h.access hw ht
  | cont signal =>
    obtain ⟨n, hstops, -, rfl⟩ := hs
    exact ⟨h.run n, (h.alive_iff n).mp hstops.alive⟩
  | setBp addr software p =>
    obtain ⟨-, rfl⟩ := hs
    exact h
  | delBp addr software =>
    obtain ⟨-, rfl⟩ := hs
    exact h

/-- The run without a debugger has a reason for `continue` to stop before step `j`. -/
def Reason (cfg : Config) (host : ℕ → Host) (rv : Rv) (cs : List Command) (d : Debuggee)
    (signal : Option ℕ) (j : ℕ) : Prop :=
  d.seen signal (j - d.steps) = true ∨ Armed (calls cs) (Iss.run cfg host rv j).pc

/-- A session that only watches shows the run of the program without a debugger, and `continue`
moves on to the first step of that run with a breakpoint or an interrupt. -/
theorem session_replays {l : List (Command × Reply)} (hf : Fresh (calls (l.map Prod.fst)))
    (hc : Careful (calls (l.map Prod.fst))) (hk : (calls (l.map Prod.fst)).length < k)
    (h : Answers (Stub.Serves k cfg host) ⟨attached rv, Map.empty⟩ l s)
    (hw : ∀ c ∈ l.map Prod.fst, c.Watches) (signal : Option ℕ) (s' : Stub) :
    s.target.rv = Iss.run cfg host rv s.target.steps ∧
      (s.Serves k cfg host (.cont signal) .done s' ↔
        ∃ n, s.target.steps ≤ n ∧ Alive cfg host rv n ∧
          Reason cfg host rv (l.map Prod.fst) s.target signal n ∧
          (∀ j, s.target.steps ≤ j → j < n →
            ¬ Reason cfg host rv (l.map Prod.fst) s.target signal j) ∧
          s' = { s with target := ⟨Iss.run cfg host rv n, false, n⟩ }) := by
  obtain ⟨e, he, hh⟩ := stub_followed hf hc hk h
  have hrun : OnRun cfg host rv s.target := by
    rw [hh.target]
    refine he.invariant (P := fun _ e => OnRun cfg host rv e.target) onRun_attached
      fun before a u b u' hp hu hs => hu.serves (hw a ?_) hs
    exact hp.subset (List.mem_append_right _ (List.mem_singleton_self a))
  refine ⟨hrun.state, ?_⟩
  have hreason : ∀ i, s.target.seen signal i = true ∨
      (Iss.run cfg (s.target.host host) s.target.rv i).pc ∈ e.armed ↔
        Reason cfg host rv (l.map Prod.fst) s.target signal (s.target.steps + i) := by
    intro i
    rw [Reason, Nat.add_sub_cancel_left, hrun.run, hh.armed]
  have hiff := cont_returns_iff cfg host s.target (s.target.seen signal) (hh.finds hk)
  constructor
  · rintro ⟨fuel, hs⟩
    rw [Stub.serve] at hs
    split at hs
    · next i u heq =>
      obtain ⟨hstops, rfl⟩ := (hiff i u).mp ⟨fuel, heq⟩
      cases hs
      refine ⟨s.target.steps + i, Nat.le_add_right _ _, (hrun.alive_iff i).mp hstops.alive,
        (hreason i).mp hstops.reason, fun j h1 h2 => ?_, ?_⟩
      · obtain ⟨i', rfl⟩ := Nat.exists_eq_add_of_le h1
        rw [← hreason]
        exact hstops.first i' (by omega)
      · rw [hrun.run]
    · cases hs
  · rintro ⟨n, hle, halive, hstop, hfirst, rfl⟩
    obtain ⟨i, rfl⟩ := Nat.exists_eq_add_of_le hle
    have hstops : s.target.Stops cfg host e.armed (s.target.seen signal) i := by
      refine ⟨(hrun.alive_iff i).mpr halive, (hreason i).mpr hstop, fun j hj => ?_⟩
      rw [hreason]
      exact hfirst _ (Nat.le_add_right _ _) (by omega)
    obtain ⟨fuel, hloop⟩ := (hiff i _).mpr ⟨hstops, rfl⟩
    refine ⟨fuel, ?_⟩
    rw [Stub.serve, hloop, hrun.run]

/-- A breakpoint at the second of two `nop`, and `continue` before it. -/
theorem session_replays_nop :
    let rv := reset .rv32im options4k (image [0x00000013#32, 0x00000013#32])
    ∃ s, Answers (Stub.Serves 2 .rv32im fun _ => .none) ⟨attached rv, Map.empty⟩
        [(.setBp 4 true 1, .done)] s ∧ ∀ s',
      s.target.rv = Iss.run .rv32im (fun _ => .none) rv s.target.steps ∧
        (s.Serves 2 .rv32im (fun _ => .none) (.cont none) .done s' ↔
          ∃ n, s.target.steps ≤ n ∧ Alive .rv32im (fun _ => .none) rv n ∧
            Reason .rv32im (fun _ => .none) rv [.setBp 4 true 1] s.target none n ∧
            (∀ j, s.target.steps ≤ j → j < n →
              ¬ Reason .rv32im (fun _ => .none) rv [.setBp 4 true 1] s.target none j) ∧
            s' = { s with target := ⟨Iss.run .rv32im (fun _ => .none) rv n, false, n⟩ }) := by
  intro rv
  have h : Answers (Stub.Serves 2 .rv32im fun _ => .none) ⟨attached rv, Map.empty⟩
      [(.setBp 4 true 1, .done)] ⟨attached rv, _⟩ := ⟨_, ⟨0, rfl⟩, rfl⟩
  refine ⟨_, h, fun s' => session_replays (l := [(.setBp 4 true 1, .done)])
    (fresh_single 4 1) (careful_single 4 1) (Nat.lt_succ_self 1) h (fun c hc => ?_) none s'⟩
  obtain rfl : c = .setBp 4 true 1 := List.mem_singleton.mp hc
  trivial

end Srv32.Gdb

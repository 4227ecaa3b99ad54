import Srv32.Data.Stepper
import Srv32.Debug.Console
import Srv32.Iss.Loop

/-! Interactive stepping: the debugger's statics over a session, against a stepper that asks, counts
or seeks. A count comes with the default of the address sought, and stops at address 0 too. -/

namespace Srv32.Debug
open Iss Iss.Rv Stepper

/-! Sessions. -/

structure Session where
  console : Console
  rv : Rv
  input : List (List Byte)

/-- The call of `srv32_step` in a turn. -/
def Session.step (cfg : Config) (h : Host) (s : Session) : Option Session :=
  let r := srv32Step cfg h s.rv
  if r.1.goes then some { s with rv := r.2 } else none

/-- A turn of the loop in `main`; `none` when the loop is left or the process ends in it. -/
def Session.turn (cfg : Config) (h : Host) (s : Session) : Option Session :=
  if s.rv.debugEn then
    match debug s.rv s.console s.input with
    | (.ret v, console, input) =>
      if v = rvExit then none else Session.step cfg h ⟨console, s.rv, input⟩
    | _ => none
  else s.step cfg h

/-- The session before turn `n`. -/
def session (cfg : Config) (host : ℕ → Host) (s : Session) : ℕ → Option Session
  | 0 => some s
  | n + 1 => (session cfg host s n).bind (Session.turn cfg (host n))

/-- The call of `debug` in the next turn comes to the prompt. -/
def Session.Prompts (s : Session) : Prop := (s.console.arrive s.rv.pc).running = false

/-- It does, and the command it returns with is `cmd`. -/
def Session.Accepts (s : Session) (cmd : Command) : Prop :=
  s.rv.debugEn = true ∧ s.Prompts ∧ ∃ c input,
    debug s.rv s.console s.input = (.ret rvOkay, c, input) ∧ parse c.cmdLast = cmd

variable {cfg : Config} {host : ℕ → Host} {rv : Rv} {c c' : Console} {e : Ended}
  {input input' : List (List Byte)} {pc : Word}

/-! What one command leaves of the statics that the other reads. -/

/-- An address is sought only while the debugger runs without a count. -/
def Console.Settled (c : Console) : Prop :=
  c.untilPc = 0#32 ∨ c.running = true ∧ c.countEn = false

def Console.mode (c : Console) : Mode Word :=
  if c.running then
    if c.countEn then .counting c.count.toInt.toNat else .seeking c.untilPc
  else .ask

theorem settled_initial : Console.initial.Settled := Or.inl rfl

theorem mode_of_not_running (hr : c.running = false) : c.mode = .ask := by
  rw [Console.mode, hr]
  rfl

theorem mode_of_counting (hr : c.running = true) (he : c.countEn = true) :
    c.mode = .counting c.count.toInt.toNat := by
  rw [Console.mode, if_pos hr, if_pos he]

theorem mode_of_seeking (hr : c.running = true) (he : c.countEn = false) :
    c.mode = .seeking c.untilPc := by
  rw [Console.mode, if_pos hr, he]
  rfl

theorem mode_eq_ask : c.mode = .ask ↔ c.running = false := by
  constructor
  · intro h
    by_contra hr
    rw [Console.mode, if_pos (by simpa using hr)] at h
    split_ifs at h
  · exact mode_of_not_running

theorem toInt_sub_one {n : Word} (hn : 1 < n.toInt) : (n - 1#32).toInt = n.toInt - 1 := by
  have hlt := n.isLt
  rw [BitVec.toInt_eq_toNat_cond] at *
  rw [BitVec.toInt_eq_toNat_cond, BitVec.toNat_sub]
  simp
  omega

/-- Off address 0 a counting debugger moves on as the stepper does. -/
theorem arrive_counting (hr : c.running = true) (he : c.countEn = true) (hc : c.untilPc = 0#32)
    (hpc : pc ≠ 0#32) :
    (c.arrive pc).untilPc = 0#32 ∧ (c.arrive pc).mode = c.mode.next pc := by
  have h0 : c.untilPc ≠ pc := by
    rw [hc]
    exact hpc.symm
  rw [mode_of_counting hr he, Mode.next, Console.arrive, if_pos hr, if_neg h0]
  simp only [he, if_true]
  by_cases hn : c.count.toInt ≤ 1
  · rw [if_pos hn, if_pos (by omega)]
    exact ⟨hc, rfl⟩
  · rw [if_neg hn, if_neg (by omega)]
    have hm : ({ c with count := c.count - 1#32, countEn := true } : Console).mode =
        .counting (c.count - 1#32).toInt.toNat := mode_of_counting hr rfl
    refine ⟨hc, hm.trans ?_⟩
    rw [toInt_sub_one (by omega)]
    congr 1
    omega

/-- At address 0 it stops whatever its count. -/
theorem arrive_zero (hr : c.running = true) (he : c.countEn = true) (hc : c.untilPc = 0#32) :
    (c.arrive 0#32).untilPc = 0#32 ∧ (c.arrive 0#32).running = false := by
  rw [Console.arrive, if_pos hr, if_pos hc]
  simp only [he, if_true]
  split_ifs
  · exact ⟨rfl, rfl⟩
  · exact ⟨rfl, rfl⟩

theorem arrive_seeking (hr : c.running = true) (he : c.countEn = false) :
    (c.arrive pc).Settled ∧ (c.arrive pc).mode = c.mode.next pc := by
  rw [mode_of_seeking hr he, Mode.next, Console.arrive, if_pos hr]
  split_ifs with h
  · simp only [he]
    exact ⟨Or.inl rfl, rfl⟩
  · simp only [he]
    exact ⟨Or.inr ⟨hr, he⟩, mode_of_seeking hr he⟩

theorem arrive_asking (hr : c.running = false) : c.arrive pc = c := by
  rw [Console.arrive, hr]
  rfl

theorem Console.Settled.cases (hc : c.Settled) : c.running = false ∨
    c.running = true ∧ c.countEn = true ∧ c.untilPc = 0#32 ∨
    c.running = true ∧ c.countEn = false := by
  rcases Bool.eq_false_or_eq_true c.running with hr | hr
  · rcases Bool.eq_false_or_eq_true c.countEn with he | he
    · have hu : c.untilPc = 0#32 := hc.resolve_right fun h => by simp [he] at h
      exact Or.inr (Or.inl ⟨hr, he, hu⟩)
    · exact Or.inr (Or.inr ⟨hr, he⟩)
  · exact Or.inl hr

/-- The debugger follows the stepper, unless it counts and comes to address 0. -/
theorem arrive_mode (hc : c.Settled) (hpc : ∀ n, c.mode = .counting n → pc ≠ 0#32) :
    (c.arrive pc).mode = c.mode.next pc := by
  rcases hc.cases with hr | ⟨hr, he, hu⟩ | ⟨hr, he⟩
  · rw [arrive_asking hr, mode_of_not_running hr]
    rfl
  · exact (arrive_counting hr he hu (hpc _ (mode_of_counting hr he))).2
  · exact (arrive_seeking hr he).2

theorem arrive_zero_asks (hc : c.Settled) (hs : ∀ a, c.mode ≠ .seeking a) :
    (c.arrive 0#32).running = false := by
  rcases hc.cases with hr | ⟨hr, he, hu⟩ | ⟨hr, he⟩
  · rw [arrive_asking hr, hr]
  · exact (arrive_zero hr he hu).2
  · exact absurd (mode_of_seeking hr he) (hs _)

theorem Console.Settled.arrive (hc : c.Settled) (pc : Word) : (c.arrive pc).Settled := by
  rcases hc.cases with hr | ⟨hr, he, hu⟩ | ⟨hr, he⟩
  · rwa [arrive_asking hr]
  · rcases eq_or_ne pc 0#32 with rfl | hpc
    · exact Or.inl (arrive_zero hr he hu).1
    · exact Or.inl (arrive_counting hr he hu hpc).1
  · exact (arrive_seeking hr he).1

/-! What the prompt leaves. -/

/-- The statics with which the prompt ends, and those with which a command goes on. -/
theorem prompt_ret (hr : c.running = false) (hu : c.untilPc = 0#32)
    (h : prompt rv c input = (e, c', input')) :
    c'.Settled ∧ (e = .ret rvOkay →
      (∀ n, parse c'.cmdLast = .step n → c'.mode = .steps n.toInt.toNat) ∧
      ∀ a, parse c'.cmdLast = .untilPc a → c'.mode = .seeking a) := by
  induction input generalizing c with
  | nil =>
    rw [prompt] at h
    cases h
    exact ⟨Or.inl hu, fun he => by cases he⟩
  | cons line input ih =>
    rw [prompt] at h
    generalize (if strip (line.takeWhile (· ≠ 0#8)) = [] then c.cmdLast
      else strip (line.takeWhile (· ≠ 0#8))) = cmd at h
    simp only at h
    split at h
    · cases h
      exact ⟨Or.inl hu, fun he => by cases he⟩
    · next pc hp =>
      cases h
      refine ⟨Or.inr ⟨rfl, rfl⟩, fun _ => ⟨fun n hn => ?_, fun a ha => ?_⟩⟩
      · rw [hp] at hn
        cases hn
      · rw [hp] at ha
        cases ha
        rfl
    · split_ifs at h
      · exact ih (c := { c with cmdLast := cmd }) hr hu h
      · cases h
        exact ⟨Or.inl hu, fun he => by cases he⟩
      · exact ih (c := { c with cmdLast := cmd }) hr hu h
    · next count hp =>
      by_cases hcount : 1 < count.toInt
      · rw [if_pos hcount] at h
        cases h
        refine ⟨Or.inl hu, fun _ => ⟨fun n hn => ?_, fun a ha => ?_⟩⟩
        · obtain rfl : count = n := Command.step.inj (hp.symm.trans hn)
          rw [Mode.steps, if_neg (by omega)]
          rfl
        · rw [hp] at ha
          cases ha
      · rw [if_neg hcount] at h
        cases h
        refine ⟨Or.inl hu, fun _ => ⟨fun n hn => ?_, fun a ha => ?_⟩⟩
        · obtain rfl : count = n := Command.step.inj (hp.symm.trans hn)
          rw [Mode.steps, if_pos (by omega)]
          exact mode_of_not_running hr
        · rw [hp] at ha
          cases ha
    · exact ih (c := { c with cmdLast := cmd }) hr hu h

theorem Console.Settled.untilPc_of_not_running (hc : c.Settled) (hr : c.running = false) :
    c.untilPc = 0#32 := by
  apply hc.resolve_right
  intro h
  rw [hr] at h
  cases h.1

theorem debug_settled (hc : c.Settled) (h : debug rv c input = (e, c', input')) : c'.Settled := by
  have ha := hc.arrive rv.pc
  rw [debug] at h
  split_ifs at h with hr
  · cases h
    exact ha
  · have hr' : (c.arrive rv.pc).running = false := by simpa using hr
    exact (prompt_ret hr' (ha.untilPc_of_not_running hr') h).1

/-! Turns. -/

theorem step_of_goes {h : Host} {s : Session} (hg : (srv32Step cfg h s.rv).1.goes = true) :
    s.step cfg h = some { s with rv := (srv32Step cfg h s.rv).2 } := if_pos hg

theorem step_console {h : Host} {s t : Session} (ht : s.step cfg h = some t) :
    t.console = s.console := by
  rw [Session.step] at ht
  split_ifs at ht
  cases ht
  rfl

theorem turn_of_ret {h : Host} {s : Session} (hd : s.rv.debugEn = true)
    (hb : debug s.rv s.console s.input = (.ret rvOkay, c, input)) :
    s.turn cfg h = Session.step cfg h ⟨c, s.rv, input⟩ := by
  rw [Session.turn, if_pos hd, hb]
  rfl

theorem turn_settled {h : Host} {s t : Session} (hs : s.console.Settled)
    (ht : s.turn cfg h = some t) : t.console.Settled := by
  rw [Session.turn] at ht
  split_ifs at ht
  · split at ht
    · next v console input hb =>
      split_ifs at ht
      rw [step_console ht]
      exact debug_settled hs hb
    · cases ht
  · rw [step_console ht]
    exact hs

/-- The statics are settled at every turn of every session. -/
theorem session_settled {s t : Session} {m : ℕ} (hs : s.console.Settled)
    (ht : session cfg host s m = some t) : t.console.Settled := by
  induction m generalizing t with
  | zero =>
    cases ht
    exact hs
  | succ m ih =>
    obtain ⟨u, hu, ht⟩ := Option.bind_eq_some_iff.mp ht
    exact turn_settled (ih hu) ht

/-! From a command on. -/

/-- The machine `j` steps after turn `m`. -/
def rvAfter (cfg : Config) (host : ℕ → Host) (m : ℕ) (rv : Rv) (j : ℕ) : Rv :=
  run cfg (fun i => host (m + i)) rv j

def pcAfter (cfg : Config) (host : ℕ → Host) (m : ℕ) (rv : Rv) (j : ℕ) : Word :=
  (rvAfter cfg host m rv j).pc

/-- The program goes on for `n` steps from turn `m` on. -/
def Goes (cfg : Config) (host : ℕ → Host) (m : ℕ) (rv : Rv) (n : ℕ) : Prop :=
  Reaches cfg (fun i => host (m + i)) rv n

variable {s0 s t : Session} {m n j : ℕ} {cmd : Command}

theorem debugEn_after : (rvAfter cfg host m rv j).debugEn = rv.debugEn :=
  run_invariant (P := fun r => r.debugEn = rv.debugEn)
    (fun h r hr => (step_debugEn cfg h r).trans hr) rfl _ j

/-- The command accepted has left the debugger in mode `md`; `j` steps later it is in the mode of
the stepper, which has not asked since, nor counted at address 0. -/
structure Follows (cfg : Config) (host : ℕ → Host) (m : ℕ) (rv : Rv) (md : Mode Word) (j : ℕ)
    (t : Session) : Prop where
  rv_eq : t.rv = rvAfter cfg host m rv (j + 1)
  settled : t.console.Settled
  mode : t.console.mode = md.after (pcAfter cfg host m rv) j

theorem follows_zero (hs : session cfg host s0 m = some s) (h0 : s.console.Settled)
    (hd : s.rv.debugEn = true) (hb : debug s.rv s.console s.input = (.ret rvOkay, c, input))
    (hg : Goes cfg host m s.rv 1) :
    ∃ t, session cfg host s0 (m + 1) = some t ∧ Follows cfg host m s.rv c.mode 0 t := by
  have hstep := step_of_goes (s := ⟨c, s.rv, input⟩) (hg 0 (by omega))
  refine ⟨⟨c, rvAfter cfg host m s.rv 1, input⟩, ?_, rfl, debug_settled h0 hb, rfl⟩
  rw [session, hs, Option.bind_some, turn_of_ret hd hb]
  exact hstep

theorem follows_succ {md : Mode Word} (ht : session cfg host s0 (m + (j + 1)) = some t)
    (hf : Follows cfg host m rv md j t) (hd : rv.debugEn = true)
    (hpc : ∀ n, md.after (pcAfter cfg host m rv) j = .counting n →
      pcAfter cfg host m rv (j + 1) ≠ 0#32)
    (hask : md.after (pcAfter cfg host m rv) (j + 1) ≠ .ask)
    (hg : (result cfg (fun i => host (m + i)) rv (j + 1)).1.goes = true) :
    ∃ u, session cfg host s0 (m + (j + 2)) = some u ∧ Follows cfg host m rv md (j + 1) u := by
  have hp : t.rv.pc = pcAfter cfg host m rv (j + 1) := congrArg Rv.pc hf.rv_eq
  have hmode : (t.console.arrive t.rv.pc).mode = md.after (pcAfter cfg host m rv) (j + 1) := by
    rw [arrive_mode hf.settled (by rw [hf.mode, hp]; exact hpc), hf.mode, hp]
    rfl
  have hrun : (t.console.arrive t.rv.pc).running = true := by
    by_contra hr
    rw [← hmode, Ne, mode_eq_ask] at hask
    exact hask (by simpa using hr)
  have hb : debug t.rv t.console t.input =
      (.ret rvOkay, t.console.arrive t.rv.pc, t.input) := by
    rw [debug]
    exact if_pos hrun
  have hd' : t.rv.debugEn = true := by
    rw [hf.rv_eq, debugEn_after, hd]
  have hg' : (srv32Step cfg (host (m + (j + 1))) t.rv).1.goes = true := by
    rw [hf.rv_eq]
    exact hg
  have hnext : (srv32Step cfg (host (m + (j + 1))) t.rv).2 = rvAfter cfg host m rv (j + 2) := by
    rw [hf.rv_eq]
    rfl
  have hstep := step_of_goes (s := ⟨t.console.arrive t.rv.pc, t.rv, t.input⟩) hg'
  refine ⟨⟨t.console.arrive t.rv.pc, rvAfter cfg host m rv (j + 2), t.input⟩, ?_, rfl,
    hf.settled.arrive t.rv.pc, hmode⟩
  rw [← hnext, show m + (j + 2) = m + (j + 1) + 1 from rfl, session, ht, Option.bind_some,
    turn_of_ret hd' hb]
  exact hstep

theorem follows_run (hs : session cfg host s0 m = some s)
    (h0 : s.console.Settled) (hd : s.rv.debugEn = true)
    (hb : debug s.rv s.console s.input = (.ret rvOkay, c, input))
    (hpc : ∀ i < j, ∀ n, c.mode.after (pcAfter cfg host m s.rv) i = .counting n →
      pcAfter cfg host m s.rv (i + 1) ≠ 0#32)
    (hask : ∀ i < j, c.mode.after (pcAfter cfg host m s.rv) (i + 1) ≠ .ask)
    (hg : Goes cfg host m s.rv (j + 1)) :
    ∃ t, session cfg host s0 (m + (j + 1)) = some t ∧ Follows cfg host m s.rv c.mode j t := by
  induction j with
  | zero => exact follows_zero hs h0 hd hb hg
  | succ j ih =>
    obtain ⟨t, ht, hf⟩ := ih (fun i hi => hpc i (by omega)) (fun i hi => hask i (by omega))
      (hg.mono (by omega))
    exact follows_succ ht hf hd (hpc j (by omega)) (hask j (by omega)) (hg (j + 1) (by omega))

/-- In the turns `1` to `N` after turn `m` the debugger is there, with the machine as many steps on,
and comes to the prompt where `stop` says, and only there. -/
def ReturnsAt (cfg : Config) (host : ℕ → Host) (s0 : Session) (m : ℕ) (rv : Rv) (N : ℕ)
    (stop : ℕ → Prop) : Prop :=
  ∀ j, 1 ≤ j → j ≤ N → ∃ t, session cfg host s0 (m + j) = some t ∧
    t.rv = rvAfter cfg host m rv j ∧ (t.Prompts ↔ stop j)

theorem Follows.prompts_iff {md : Mode Word} (hf : Follows cfg host m rv md j t)
    (hpc : ∀ n, md.after (pcAfter cfg host m rv) j = .counting n →
      pcAfter cfg host m rv (j + 1) ≠ 0#32) :
    t.Prompts ↔ md.after (pcAfter cfg host m rv) (j + 1) = .ask := by
  have hp : t.rv.pc = pcAfter cfg host m rv (j + 1) := congrArg Rv.pc hf.rv_eq
  rw [Session.Prompts, ← mode_eq_ask, arrive_mode hf.settled (by rw [hf.mode, hp]; exact hpc),
    hf.mode, hp]
  rfl

/-- A count ends early at address 0. -/
theorem steps_turn (hs : session cfg host s0 m = some s) (h0 : s.console.Settled)
    (hd : s.rv.debugEn = true) (hb : debug s.rv s.console s.input = (.ret rvOkay, c, input))
    (hc : c.mode = .steps n) (hj : 1 ≤ j) (hn : j ≤ n) (hg : Goes cfg host m s.rv j)
    (hpc : ∀ i, 1 ≤ i → i < j → pcAfter cfg host m s.rv i ≠ 0#32) :
    ∃ t, session cfg host s0 (m + j) = some t ∧ t.rv = rvAfter cfg host m s.rv j ∧
      (t.Prompts ↔ j = n ∨ pcAfter cfg host m s.rv j = 0#32) := by
  obtain ⟨j, rfl⟩ := Nat.exists_eq_add_of_le' hj
  obtain ⟨t, ht, hf⟩ := follows_run hs h0 hd hb (fun i hi _ _ => hpc (i + 1) (by omega) (by omega))
    (fun i hi => by rw [hc, Ne, after_steps (by omega) (by omega)]; omega) hg
  refine ⟨t, ht, hf.rv_eq, ?_⟩
  by_cases hz : pcAfter cfg host m s.rv (j + 1) = 0#32
  · refine iff_of_true ?_ (Or.inr hz)
    have hp : t.rv.pc = 0#32 := (congrArg Rv.pc hf.rv_eq).trans hz
    rw [Session.Prompts, hp]
    apply arrive_zero_asks hf.settled
    intro a
    rw [hf.mode, hc]
    exact after_steps_ne_seeking (by omega)
  · rw [hf.prompts_iff fun _ _ => hz, hc, after_steps (by omega) hn]
    simp [hz]

theorem ReturnsAt.pc_ne_zero (hs : session cfg host s0 m = some s) (h0 : s.console.Settled)
    (hd : s.rv.debugEn = true) (hb : debug s.rv s.console s.input = (.ret rvOkay, c, input))
    (hc : c.mode = .steps n) (hg : Goes cfg host m s.rv n)
    (hr : ReturnsAt cfg host s0 m s.rv n (fun j => j = n)) (hj : 1 ≤ j) (hn : j < n) :
    pcAfter cfg host m s.rv j ≠ 0#32 := by
  induction j using Nat.strong_induction_on with
  | _ j ih =>
    intro hz
    obtain ⟨t, ht, -, hiff⟩ := steps_turn hs h0 hd hb hc hj hn.le (hg.mono hn.le)
      fun i h1 h2 => ih i h2 h1 (by omega)
    obtain ⟨u, hu, -, hiff'⟩ := hr j hj hn.le
    obtain rfl : t = u := Option.some.inj (ht.symm.trans hu)
    exact absurd (hiff'.mp (hiff.mpr (Or.inr hz))) (by omega)

/-- For every configuration and program, every session of the debugger from its start, every turn
in which a command is accepted, and whatever commands came before. `step n` is followed by exactly
`n` steps and the prompt exactly when no step but the last leaves the pc at address 0; `until a` is
followed by the prompt when the pc first is `a`. Both can be typed with any positive `int`. -/
theorem stepping_iff (cfg : Config) (host : ℕ → Host) (s0 : Session) (m : ℕ)
    (hinit : s0.console = Console.initial) (hs : session cfg host s0 m = some s)
    (hcmd : s.Accepts cmd) :
    (∀ n : Word, cmd = .step n → 1 ≤ n.toInt → Goes cfg host m s.rv n.toInt.toNat →
      (ReturnsAt cfg host s0 m s.rv n.toInt.toNat (fun j => j = n.toInt.toNat) ↔
        ∀ j, 1 ≤ j → j < n.toInt.toNat → pcAfter cfg host m s.rv j ≠ 0#32)) ∧
    (∀ a N, cmd = .untilPc a → Goes cfg host m s.rv N →
      (∀ j, 1 ≤ j → j < N → pcAfter cfg host m s.rv j ≠ a) →
      ReturnsAt cfg host s0 m s.rv N (fun j => pcAfter cfg host m s.rv j = a)) ∧
    ∀ n : ℕ, 0 < n → n < 2 ^ 31 →
      parse (text ['s', 't', 'e', 'p'] ++ ([32#8] ++ Scan.decimal n)) =
        .step (BitVec.ofNat 32 n) ∧
      parse (text ['u', 'n', 't', 'i', 'l'] ++ ([32#8] ++ Scan.decimal n)) =
        .untilPc (BitVec.ofNat 32 n) := by
  have h0 : s.console.Settled := session_settled (hinit ▸ settled_initial) hs
  obtain ⟨hd, hp, c, input, hb, rfl⟩ := hcmd
  have hprompt : prompt s.rv (s.console.arrive s.rv.pc) s.input = (.ret rvOkay, c, input) := by
    rw [← hb, debug, if_neg (by rw [hp]; decide)]
  have harr := h0.arrive s.rv.pc
  obtain ⟨hstep, huntil⟩ :=
    (prompt_ret hp (harr.untilPc_of_not_running hp) hprompt).2 rfl
  refine ⟨fun n hn h1 hg => ?_, fun a N ha hg hfirst j hj hjN => ?_,
    fun n h0 hn => ⟨parse_step h0 hn, parse_until h0 hn⟩⟩
  · have hc := hstep n hn
    constructor
    · intro hr j hj hjn
      exact hr.pc_ne_zero hs h0 hd hb hc hg hj hjn
    · intro hz j hj hjn
      obtain ⟨t, ht, hrv, hiff⟩ := steps_turn hs h0 hd hb hc hj hjn (hg.mono hjn)
        fun i h2 h3 => hz i h2 (by omega)
      refine ⟨t, ht, hrv, hiff.trans ⟨fun h => ?_, Or.inl⟩⟩
      rcases h with h | h
      · exact h
      · by_contra hne
        exact hz j hj (by omega) h
  · have hc := huntil a ha
    obtain ⟨j, rfl⟩ := Nat.exists_eq_add_of_le' hj
    have hseek : ∀ i ≤ j, c.mode.after (pcAfter cfg host m s.rv) i = .seeking a := fun i hi => by
      rw [hc]
      exact after_seeking fun l h1 h2 => hfirst l h1 (by omega)
    obtain ⟨t, ht, hf⟩ := follows_run (j := j) hs h0 hd hb
      (fun i hi n hn => by rw [hseek i hi.le] at hn; cases hn)
      (fun i hi => by rw [hseek (i + 1) hi]; intro h; cases h) (hg.mono hjN)
    refine ⟨t, ht, hf.rv_eq, ?_⟩
    rw [hf.prompts_iff (by rw [hseek j le_rfl]; intro n hn; cases hn), Mode.after, hseek j le_rfl,
      Mode.next]
    split_ifs with h
    · exact iff_of_true rfl h.symm
    · apply iff_of_false
      · intro hask
        cases hask
      · exact fun he => h he.symm

/-- A session at the start of the program `words`, in which `step` and a digit are typed. -/
def typed (words : List Word) (digit : Char) : Session where
  console := Console.initial
  rv := reset .rv32im { options4k with debugEn := true } (image words)
  input := [text ['s', 't', 'e', 'p', ' ', digit, '\n']]

/-- Two `nop`, and `step 2`. -/
theorem returns_nop :
    let s := typed [0x00000013#32, 0x00000013#32] '2'
    ReturnsAt .rv32im (fun _ => .none) s 0 s.rv 2 (fun j => j = 2) := by
  intro s
  have hcmd : s.Accepts (.step 2#32) := ⟨rfl, rfl, _, _, rfl, rfl⟩
  have hgoes : Reaches .rv32im (fun _ => .none) s.rv 2 := by decide +kernel
  have hpc : (run .rv32im (fun _ => .none) s.rv 1).pc ≠ 0#32 := by decide +kernel
  have hsteps := (stepping_iff .rv32im (fun _ => .none) s 0 rfl rfl hcmd).1 2#32 rfl (by decide)
    hgoes
  apply hsteps.mpr
  intro j h1 h2
  obtain rfl : j = 1 := by
    have : j < 2 := h2
    omega
  exact hpc

/-- `nop; jal x0, -4`, and `step 3`: the prompt comes back after two steps, at address 0. -/
theorem returns_early :
    let s := typed [0x00000013#32, 0xffdff06f#32] '3'
    s.Accepts (.step 3#32) ∧ Goes .rv32im (fun _ => .none) 0 s.rv 3 ∧
      ¬ ReturnsAt .rv32im (fun _ => .none) s 0 s.rv 3 (fun j => j = 3) := by
  intro s
  have hgoes : Goes .rv32im (fun _ => .none) 0 s.rv 3 := by
    rw [Goes]
    decide +kernel
  have hzero : pcAfter .rv32im (fun _ => .none) 0 s.rv 2 = 0#32 := by decide +kernel
  obtain ⟨c, hb, hmode, hcmd⟩ : ∃ c, debug s.rv s.console s.input = (.ret rvOkay, c, []) ∧
      c.mode = .steps 3 ∧ parse c.cmdLast = .step 3#32 := ⟨_, rfl, rfl, rfl⟩
  refine ⟨⟨rfl, rfl, c, [], hb, hcmd⟩, hgoes, fun h => ?_⟩
  exact h.pc_ne_zero (s := s) (m := 0) (n := 3) (j := 2) rfl settled_initial rfl hb hmode hgoes
    (by omega) (by omega) hzero

end Srv32.Debug

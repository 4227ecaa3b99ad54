import Srv32.Iss.Step
import Srv32.Rtl.Memory
import Srv32.Rtl.Precise
import Srv32.Rtl.Trap
import Srv32.Refine.Exec
import Srv32.Refine.Legality
import Srv32.Refine.CsrInst
import Srv32.Refine.Event
import Srv32.Refine.TrapState
import Srv32.Iss.Data
import Srv32.Rtl.Retire
import Srv32.Refine.DataMem
import Srv32.Refine.Advance
import Srv32.Refine.DataPath
import Srv32.Refine.Simulation
import Srv32.Refine.Runs
import Srv32.Refine.Cycles
import Srv32.Riscv.Instr
import Srv32.Refine.Manual
import Srv32.Iss.Exception
import Srv32.Iss.Interrupt
import Srv32.Iss.Timer
import Srv32.Iss.Timing
import Srv32.Riscv.Compressed
import Srv32.Refine.Compressed
import Srv32.Refine.CompressedStep
import Srv32.Data.SearchTree
import Srv32.Gdb.Map
import Srv32.Gdb.Cells
import Srv32.Gdb.Rotate
import Srv32.Gdb.Fix
import Srv32.Gdb.Balance
import Srv32.Gdb.Insert
import Srv32.Gdb.Delete
import Srv32.Gdb.Breakpoints
import Srv32.Rtl.Clint
import Srv32.Rtl.Top
import Srv32.Iss.Moves
import Srv32.Iss.Clint
import Srv32.Refine.Clint
import Srv32.Rtl.Stall
import Srv32.Iss.Width
import Srv32.Refine.Shift
import Srv32.Riscv.BitManip
import Srv32.Refine.BitManip
import Srv32.Iss.Fetch
import Srv32.Iss.Jump
import Srv32.Iss.Handler
import Srv32.Refine.Readback
import Srv32.Iss.Mtime
import Srv32.Data.BitCount
import Srv32.Data.Carryless
import Srv32.Iss.BitLoops
import Srv32.Iss.Penalty
import Srv32.Iss.Dest
import Srv32.Gdb.Regs
import Srv32.Data.Patch
import Srv32.Iss.Elf
import Srv32.Gdb.Cont
import Srv32.Data.RedBlack
import Srv32.Gdb.RedBlack
import Srv32.Data.Walk
import Srv32.Iss.Request
import Srv32.Gdb.Removal
import Srv32.Sw.Sbrk
import Srv32.Data.CString
import Srv32.Debug.Trim
import Srv32.Data.Scan
import Srv32.Debug.Console
import Srv32.Data.Stepper
import Srv32.Debug.Stepping
import Srv32.Data.Printf
import Srv32.Trace
import Srv32.Iss.Trace
import Srv32.Rtl.Trace
import Srv32.Refine.Trace
import Srv32.Rtl.Soc
import Srv32.Rtl.Hart
import Srv32.Rtl.Return
import Srv32.Refine.Hart
import Srv32.Iss.Output
import Srv32.Rtl.Bench
import Srv32.Refine.Lockstep
import Srv32.Refine.HostCall
import Srv32.Refine.Console
import Srv32.Rtl.Image
import Srv32.Refine.Image
import Srv32.Data.Leads
import Srv32.Riscv.Block
import Srv32.Refine.Program
import Srv32.Iss.Cause
import Srv32.Sw.Assembly
import Srv32.Sw.TrapHandler
import Srv32.Sw.UserHandler
import Srv32.Sw.Startup
import Srv32.Sw.Syscall
import Srv32.Data.Answers
import Srv32.Gdb.Session

import OpenKernel.Console.Pty
import OpenKernel.Kernel.Step

/-!
# The console of a process

Every process state names where the console calls of its process go: a
virtual terminal, or the slave side of a pseudo-terminal.  The calls here are
those of `arch.rs` on pseudo-terminals and `bind_tty` of `user.rs`; the caller
is the current thread of the kernel.
-/

namespace OpenKernel

open Lib

def ttyCount : Nat := 3

inductive ConsoleTarget
  | tty (tty : Nat)
  | pty (id : Nat)
  deriving DecidableEq, Repr

/-- The kernel with its pseudo-terminals and the `console` of every
`ProcessUserState`. -/
structure Terminals where
  kernel : Kernel
  ptys : Ptys
  consoles : Nat → ConsoleTarget

namespace Terminals

/-- `owner_process`. -/
def ownerProcess (t : Terminals) : Option ProcessId := t.kernel.currentProcess

/-- `console_target`. -/
def consoleTarget (t : Terminals) : ConsoleTarget :=
  t.consoles t.kernel.currentStateSlot

/-- The assignment of `bind_tty` and `bind_pty`. -/
def bind (t : Terminals) (target : ConsoleTarget) : Terminals :=
  { t with consoles := put t.consoles t.kernel.currentStateSlot target }

/-- `bind_tty`. -/
def bindTty (t : Terminals) (tty : Nat) : Terminals :=
  t.bind (.tty (min tty (ttyCount - 1)))

/-- `bind_pty`. -/
def bindPty (t : Terminals) (id : Nat) : Terminals := t.bind (.pty id)

/-- `open` of a pseudo-terminal, as syscall 42. -/
def openPty (t : Terminals) : Option Nat × Terminals :=
  let (id, ptys) := t.ptys.openPty t.ownerProcess
  (id, { t with ptys })

/-- `syscall_pty_read_master`. -/
def readMaster (t : Terminals) (id buffer length : Nat) :
    Option (List UInt8) × Terminals :=
  if Kernel.userBytes buffer length 256 then
    let (bytes, ptys) := t.ptys.readMaster t.ownerProcess id length
    (bytes, { t with ptys })
  else (none, t)

/-- `syscall_pty_write_master`, with the bytes of the buffer. -/
def writeMaster (t : Terminals) (id buffer : Nat) (input : List UInt8) :
    Option Nat × Terminals :=
  if Kernel.userBytes buffer input.length 256 then
    let (count, ptys) := t.ptys.writeMaster t.ownerProcess id input
    (count, { t with ptys })
  else (none, t)

/-- `syscall_pty_attach_slave`. -/
def attachSlave (t : Terminals) (id : Nat) : Bool × Terminals :=
  if t.ptys.isOpen id then (true, t.bindPty id) else (false, t)

/-- `close` of a pseudo-terminal, as syscall 46. -/
def closePty (t : Terminals) (id : Nat) : Bool × Terminals :=
  let (closed, ptys) := t.ptys.close t.ownerProcess id
  (closed, { t with ptys })

end Terminals

end OpenKernel

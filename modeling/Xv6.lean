import Xv6.Param
import Xv6.Lib.Transition
import Xv6.Lib.Overwrite
import Xv6.Lib.Count
import Xv6.Log.Basic
import Xv6.Log.System
import Xv6.Log.Invariant
import Xv6.Log.Commit
import Xv6.Log.Crash
import Xv6.Log.Admission
import Xv6.Lib.WrapCounter
import Xv6.Pipe.Basic
import Xv6.Pipe.Fifo
import Xv6.Lib.Scan
import Xv6.Proc.Basic
import Xv6.Proc.Lemmas
import Xv6.Proc.System
import Xv6.Lib.Ledger
import Xv6.Proc.Invariant
import Xv6.Proc.Preservation
import Xv6.Proc.Lifecycle
import Xv6.Bio.Basic
import Xv6.Bio.System
import Xv6.Bio.Invariant
import Xv6.Bio.Preservation
import Xv6.Bio.Cache
import Xv6.Vm.Basic
import Xv6.Vm.Own
import Xv6.Vm.Uvm
import Xv6.Vm.Grow
import Xv6.Fs.Basic
import Xv6.Fs.Icache
import Xv6.Fs.System
import Xv6.Fs.Coherence
import Xv6.Proc.Kill
import Xv6.Lib.Fallible
import Xv6.Fs.Content
import Xv6.Fs.Dir
import Xv6.Fs.Vol
import Xv6.Fs.Directory
import Xv6.Fs.Path
import Xv6.Fs.Sysfile
import Xv6.Fs.Namespace
import Xv6.Lib.Splice
import Xv6.Fs.Shared
import Xv6.Proc.Sleep
import Xv6.Vm.Kvm
import Xv6.Vm.Exec
import Xv6.User.Grep
import Xv6.Lib.CInt
import Xv6.Syscall.Args
import Xv6.User.Umalloc
import Xv6.Fs.Mkfs
import Xv6.Console.Input
import Xv6.Console.Discipline
import Xv6.Vm.Phys
import Xv6.Vm.Exact
import Xv6.Lib.Copy
import Xv6.Kernel.String
import Xv6.Console.Printint
import Xv6.Proc.Cli
import Xv6.Boot.Bootmain
import Xv6.Kernel.Mp
import Xv6.User.Sh.Grammar
import Xv6.User.Sh.Parse
import Xv6.Vm.Map
import Xv6.Lib.Linked
import Xv6.Ide.Basic
import Xv6.Ide.Queue
import Xv6.User.Sh.Sound
import Xv6.User.Sh.Complete
import Xv6.Vm.Whole
import Xv6.Vm.Copy
import Xv6.Proc.Fork
import Xv6.Lib.Mutex
import Xv6.Proc.Spinlock
import Xv6.Vm.Load
import Xv6.Vm.Stack
import Xv6.Proc.Exec

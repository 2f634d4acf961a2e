import Mathlib.Init
import Mathlib.Algebra.Group.Nat.Defs
import Mathlib.Algebra.Group.Int.Defs

/-!
# Kernel parameters

The compile-time constants of `param.h`, `fs.h`, `mmu.h` and `memlayout.h`
that the models read.  Each keeps the value the header gives it, so that a
statement about, say, `logSize` is a statement about `LOGSIZE` as compiled.
-/

namespace Xv6

/-- `NPROC`: maximum number of processes. -/
def nProc : Nat := 64

/-- `NCPU`: maximum number of CPUs. -/
def nCpu : Nat := 8

/-- `NOFILE`: open files per process. -/
def nOFile : Nat := 16

/-- `NFILE`: open files per system. -/
def nFile : Nat := 100

/-- `NINODE`: maximum number of active i-nodes. -/
def nInode : Nat := 50

theorem one_lt_nInode : 1 < nInode := by decide

/-- `MAXOPBLOCKS`: max number of blocks any file-system operation writes. -/
def maxOpBlocks : Nat := 10

/-- `LOGSIZE`: max data blocks in the on-disk log. -/
def logSize : Nat := maxOpBlocks * 3

/-- `NBUF`: size of the disk block cache. -/
def nBuf : Nat := maxOpBlocks * 3

/-- `FSSIZE`: size of the file system in blocks. -/
def fsSize : Nat := 1000

/-- `BSIZE`: block size in bytes. -/
def bSize : Nat := 512

/-- `NDIRECT`: direct block addresses in an inode. -/
def nDirect : Nat := 12

/-- `NINDIRECT`: block addresses in an indirect block, `BSIZE / sizeof(uint)`. -/
def nIndirect : Nat := bSize / 4

/-- `MAXFILE`: the largest file, in blocks. -/
def maxFile : Nat := nDirect + nIndirect

/-- `ROOTINO`: the root i-number. -/
def rootIno : Nat := 1

/-- `PIPESIZE` of `pipe.c`. -/
def pipeSize : Nat := 512

/-- `PGSIZE`: bytes mapped by a page. -/
def pgSize : Nat := 4096

/-- `KERNBASE`: first kernel virtual address. -/
def kernBase : Nat := 0x80000000

/-- `NPTENTRIES`: PTEs per page table. -/
def nPtEntries : Nat := 1024

/-- `PHYSTOP`: top physical memory. -/
def phyStop : Nat := 0xE000000

/-- `EXTMEM`: start of extended memory. -/
def extMem : Nat := 0x100000

/-- `KERNLINK`: the address the kernel is linked at. -/
def kernLink : Nat := kernBase + extMem

/-- `DEVSPACE`: where the other devices are mapped. -/
def devSpace : Nat := 0xFE000000

/-- `NPDENTRIES`: directory entries per page directory. -/
def nPdEntries : Nat := 1024

/-- `MAXARG`: max exec arguments. -/
def maxArg : Nat := 32

@[simp] theorem logSize_eq : logSize = 30 := rfl

@[simp] theorem maxOpBlocks_eq : maxOpBlocks = 10 := rfl

@[simp] theorem pipeSize_eq : pipeSize = 512 := rfl

end Xv6

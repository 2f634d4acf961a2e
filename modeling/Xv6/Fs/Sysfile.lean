import Xv6.Fs.Vol
import Xv6.Lib.Transition

/-!
# The file system's system calls

sysfile.c and the descriptor half of file.c over `Vol`: the table of open
files, each process's descriptors and working directory, and the calls that
change them or the namespace.  A call's arguments are its values after
argstr and argint, whose failures return -1 before anything else is done.

Pipes are not modelled: no call of this layer makes one, so an `FD_PIPE`
file never occurs and fileclose's pipeclose branch does nothing.  A `short`
field never wraps: 32767 links to one inode would take more directory
blocks than `FSSIZE` holds.
-/

namespace Xv6
namespace Fs

/-- filewrite's largest write, `((MAXOPBLOCKS-1-1-2) / 2) * 512` bytes, so
that one log operation holds the blocks it changes. -/
def maxWrite : Nat := ((maxOpBlocks - 1 - 1 - 2) / 2) * 512

/-- `O_RDONLY`. -/
def oRdonly : BitVec 32 := 0x000

/-- `O_WRONLY`. -/
def oWronly : BitVec 32 := 0x001

/-- `O_RDWR`. -/
def oRdwr : BitVec 32 := 0x002

/-- `O_CREATE`. -/
def oCreate : BitVec 32 := 0x200

/-- A file's type: `FD_NONE`, `FD_PIPE`, `FD_INODE`. -/
inductive FdType where
  | none
  | pipe
  | inode
deriving DecidableEq, Repr

/-- struct file, without its pipe. -/
structure File where
  type : FdType
  ref : Nat
  readable : Bool
  writable : Bool
  ip : Fin nInode
  off : Nat
deriving DecidableEq

/-- An entry of the zeroed ftable; its `ip`, the null pointer, is never
read. -/
def File.zero : File := ⟨.none, 0, false, false, Vol.slot₀, 0⟩

/-- What the file layer keeps of a process: its descriptors, each naming an
entry of the file table, and its working directory. -/
structure Proc where
  ofile : Fin nOFile → Option (Fin nFile)
  cwd : Fin nInode

/-- The inodes, the icache and the file table. -/
structure Sys where
  vol : Vol
  file : Fin nFile → File

namespace Vol

/-- A dinode's link count becomes `nlink`, written back by iupdate. -/
def setNlink (v : Vol) (i : Fin nInode) (nlink : Int) : Vol :=
  v.setNode (v.slot i).inum { v.inode i with nlink := nlink }

/-- isdirempty's loop over `count` entries from `off` on. -/
def emptyFrom (v : Vol) (dp : Fin nInode) : Nat → Nat → Except Halt Bool
  | _, 0 => .ok true
  | off, count + 1 =>
      let (r, bytes) := v.readi dp off direntSize
      if r ≠ direntSize then .error (.panic "isdirempty: readi")
      else if (Dirent.ofBytes bytes).inum ≠ 0 then .ok false
      else emptyFrom v dp (off + direntSize) count

/-- isdirempty: no entry in use after "." and "..". -/
def isdirempty (v : Vol) (dp : Fin nInode) : Except Halt Bool :=
  v.emptyFrom dp (2 * direntSize) (direntCount ((v.inode dp).data.length - 2 * direntSize))

/-- sys_link: a new name `new` for the inode `old` names, which must not be
a directory; the link count is raised first and lowered again when the new
name cannot be entered. -/
def sysLink (v : Vol) (cwd : Fin nInode) (old new : List UInt8) : Except Halt (Vol × Int) := do
  let (v, ip?) ← v.namei cwd old
  match ip? with
  | none => return (v, -1)
  | some ip =>
      let v ← v.ilock ip
      if (v.inode ip).type = tDir then
        let v ← v.iunlockput ip
        return (v, -1)
      let v := v.setNlink ip ((v.inode ip).nlink + 1)
      let v ← v.iunlock ip
      -- the code at the label bad
      let bad (v : Vol) : Except Halt (Vol × Int) := do
        let v ← v.ilock ip
        let v := v.setNlink ip ((v.inode ip).nlink - 1)
        let v ← v.iunlockput ip
        return (v, -1)
      let (v, dp?, name) ← v.nameiparent cwd new
      match dp? with
      | none => bad v
      | some dp =>
          let v ← v.ilock dp
          let (v, r) ← v.dirlink dp name (v.slot ip).inum
          if r < 0 then
            let v ← v.iunlockput dp
            bad v
          else
            let v ← v.iunlockput dp
            let v ← v.iput ip
            return (v, 0)

/-- sys_unlink: clear the entry `path` names, unless it is "." or "..", or
a directory with entries; lower the link counts. -/
def sysUnlink (v : Vol) (cwd : Fin nInode) (path : List UInt8) : Except Halt (Vol × Int) := do
  let (v, dp?, name) ← v.nameiparent cwd path
  match dp? with
  | none => return (v, -1)
  | some dp =>
      let v ← v.ilock dp
      -- the code at the label bad
      let bad (v : Vol) : Except Halt (Vol × Int) := do
        let v ← v.iunlockput dp
        return (v, -1)
      if namecmp name dot = 0 ∨ namecmp name dotDot = 0 then bad v
      else
        match ← v.dirlookup dp name with
        | (v, none) => bad v
        | (v, some (ip, off)) =>
            let v ← v.ilock ip
            if (v.inode ip).nlink < 1 then throw (.panic "unlink: nlink < 1")
            let empty ← if (v.inode ip).type = tDir then v.isdirempty ip else pure true
            if !empty then
              let v ← v.iunlockput ip
              bad v
            else
              let (v, r) ← v.writei dp (List.replicate direntSize 0) off
              if r ≠ direntSize then throw (.panic "unlink: writei")
              let v := if (v.inode ip).type = tDir then v.setNlink dp ((v.inode dp).nlink - 1) else v
              let v ← v.iunlockput dp
              let v := v.setNlink ip ((v.inode ip).nlink - 1)
              let v ← v.iunlockput ip
              return (v, 0)

/-- create: the inode `path` names, locked, when it and `type` are both
files; none when the parent is missing or the name is taken otherwise; else
a new inode of `type`, with "." and ".." when it is a directory, entered in
its parent. -/
def create (v : Vol) (cwd : Fin nInode) (path : List UInt8) (type major minor : Int) :
    Except Halt (Vol × Option (Fin nInode)) := do
  let (v, dp?, name) ← v.nameiparent cwd path
  match dp? with
  | none => return (v, none)
  | some dp =>
      let v ← v.ilock dp
      match ← v.dirlookup dp name with
      | (v, some (ip, _)) =>
          let v ← v.iunlockput dp
          let v ← v.ilock ip
          if type = tFile ∧ (v.inode ip).type = tFile then return (v, some ip)
          let v ← v.iunlockput ip
          return (v, none)
      | (v, none) =>
          -- ialloc panics itself when it finds no inode, so create's own
          -- panic "create: ialloc" is never reached
          let (v, ip) ← v.ialloc type
          let v ← v.ilock ip
          let v := v.setNode (v.slot ip).inum { v.inode ip with major := major, minor := minor, nlink := 1 }
          let v ← if type = tDir then do
              let v := v.setNlink dp ((v.inode dp).nlink + 1)
              let (v, r) ← v.dirlink ip dot (v.slot ip).inum
              if r < 0 then throw (.panic "create dots")
              let (v, r) ← v.dirlink ip dotDot (v.slot dp).inum
              if r < 0 then throw (.panic "create dots")
              pure v
            else pure v
          let (v, r) ← v.dirlink dp name (v.slot ip).inum
          if r < 0 then throw (.panic "create: dirlink")
          let v ← v.iunlockput dp
          return (v, some ip)

/-- sys_mkdir. -/
def sysMkdir (v : Vol) (cwd : Fin nInode) (path : List UInt8) : Except Halt (Vol × Int) := do
  match ← v.create cwd path tDir 0 0 with
  | (v, none) => return (v, -1)
  | (v, some ip) =>
      let v ← v.iunlockput ip
      return (v, 0)

/-- sys_mknod. -/
def sysMknod (v : Vol) (cwd : Fin nInode) (path : List UInt8) (major minor : Int) :
    Except Halt (Vol × Int) := do
  match ← v.create cwd path tDev major minor with
  | (v, none) => return (v, -1)
  | (v, some ip) =>
      let v ← v.iunlockput ip
      return (v, 0)

/-- sys_chdir: the working directory becomes the directory `path` names, and
the reference to the old one is dropped. -/
def sysChdir (v : Vol) (cwd : Fin nInode) (path : List UInt8) : Except Halt (Vol × Fin nInode × Int) := do
  let (v, ip?) ← v.namei cwd path
  match ip? with
  | none => return (v, cwd, -1)
  | some ip =>
      let v ← v.ilock ip
      if (v.inode ip).type ≠ tDir then
        let v ← v.iunlockput ip
        return (v, cwd, -1)
      let v ← v.iunlock ip
      let v ← v.iput cwd
      return (v, ip, 0)

end Vol

namespace Proc

/-- Descriptor `fd` becomes `f`. -/
def setOfile (q : Proc) (fd : Fin nOFile) (f : Option (Fin nFile)) : Proc :=
  { q with ofile := Function.update q.ofile fd f }

/-- fdalloc: the lowest free descriptor, now naming `f`. -/
def fdalloc (q : Proc) (f : Fin nFile) : Option (Proc × Fin nOFile) :=
  match Scan.first (fun fd => (q.ofile fd).isNone) with
  | some fd => some (q.setOfile fd (some f), fd)
  | none => none

/-- argfd: a descriptor in range that names a file. -/
def argfd (q : Proc) (fd : Int) : Option (Fin nOFile × Fin nFile) :=
  if inRange : 0 ≤ fd ∧ fd < nOFile then
    let d : Fin nOFile := ⟨fd.toNat, by omega⟩
    (q.ofile d).map fun f => (d, f)
  else none

end Proc

namespace Sys

/-- Entry `f` of the file table becomes `x`. -/
def setFile (s : Sys) (f : Fin nFile) (x : File) : Sys :=
  { s with file := Function.update s.file f x }

/-- filealloc: the first entry of the table without references, now with
one. -/
def filealloc (s : Sys) : Option (Sys × Fin nFile) :=
  match Scan.first (fun f => decide ((s.file f).ref = 0)) with
  | some f => some (s.setFile f { s.file f with ref := 1 }, f)
  | none => none

/-- filedup. -/
def filedup (s : Sys) (f : Fin nFile) : Except Halt Sys :=
  let x := s.file f
  if x.ref < 1 then .error (.panic "filedup")
  else .ok (s.setFile f { x with ref := x.ref + 1 })

/-- fileclose: drop a reference; the last one frees the entry and puts its
inode. -/
def fileclose (s : Sys) (f : Fin nFile) : Except Halt Sys :=
  let x := s.file f
  if x.ref < 1 then .error (.panic "fileclose")
  else if x.ref - 1 > 0 then .ok (s.setFile f { x with ref := x.ref - 1 })
  else
    let s := s.setFile f { x with ref := 0, type := .none }
    match x.type with
    | .inode => do
        let v ← s.vol.iput x.ip
        return { s with vol := v }
    | _ => .ok s

/-- sys_open: the inode `path` names, or with `O_CREATE` the file create
makes, opened in a new entry of the file table under the lowest free
descriptor. -/
def sysOpen (s : Sys) (q : Proc) (path : List UInt8) (omode : BitVec 32) :
    Except Halt (Sys × Proc × Int) := do
  let (v, ip?) ←
    if omode &&& oCreate ≠ 0 then s.vol.create q.cwd path tFile 0 0
    else do
      let (v, ip?) ← s.vol.namei q.cwd path
      match ip? with
      | none => pure (v, none)
      | some ip =>
          let v ← v.ilock ip
          if (v.inode ip).type = tDir ∧ omode ≠ oRdonly then
            let v ← v.iunlockput ip
            pure (v, none)
          else pure (v, some ip)
  let s := { s with vol := v }
  match ip? with
  | none => return (s, q, -1)
  | some ip =>
      match s.filealloc with
      | none =>
          let v ← s.vol.iunlockput ip
          return ({ s with vol := v }, q, -1)
      | some (s, f) =>
          match q.fdalloc f with
          | none =>
              let s ← s.fileclose f
              let v ← s.vol.iunlockput ip
              return ({ s with vol := v }, q, -1)
          | some (q, fd) =>
              let v ← s.vol.iunlock ip
              let s := { s with vol := v }
              let s := s.setFile f
                { s.file f with
                  type := .inode
                  ip := ip
                  off := 0
                  readable := omode &&& oWronly = 0
                  writable := omode &&& oWronly ≠ 0 ∨ omode &&& oRdwr ≠ 0 }
              return (s, q, (fd : Nat))

/-- sys_close. -/
def sysClose (s : Sys) (q : Proc) (fd : Int) : Except Halt (Sys × Proc × Int) :=
  match q.argfd fd with
  | none => .ok (s, q, -1)
  | some (d, f) => do
      let s ← s.fileclose f
      return (s, q.setOfile d none, 0)

/-- sys_dup. -/
def sysDup (s : Sys) (q : Proc) (fd : Int) : Except Halt (Sys × Proc × Int) :=
  match q.argfd fd with
  | none => .ok (s, q, -1)
  | some (_, f) =>
      match q.fdalloc f with
      | none => .ok (s, q, -1)
      | some (q, d) => do
          let s ← s.filedup f
          return (s, q, (d : Nat))

/-- fileread's part under the inode's lock: readi of `n` bytes at the
file's offset, which advances by what was read. -/
def readAt (s : Sys) (f : Fin nFile) (n : Nat) : Except Halt (Sys × Int × List UInt8) := do
  let x := s.file f
  let v ← s.vol.ilock x.ip
  let (r, bytes) := v.readi x.ip x.off n
  let s := { s with vol := v }
  let s := if 0 < r then s.setFile f { x with off := x.off + r.toNat } else s
  let v ← s.vol.iunlock x.ip
  return ({ s with vol := v }, r, bytes)

/-- fileread.  piperead acts on the file's pipe, which no file of this layer
has. -/
def fileread (s : Sys) (f : Fin nFile) (n : Nat) : Except Halt (Sys × Int × List UInt8) :=
  let x := s.file f
  if x.readable = false then .ok (s, -1, [])
  else
    match x.type with
    | .pipe => .ok (s, -1, [])
    | .inode => s.readAt f n
    | .none => .error (.panic "fileread")

/-- One turn of filewrite's loop, in its own log operation: writei of `src`
at the file's offset under the inode's lock; the offset advances by what was
written. -/
def writeAt (s : Sys) (f : Fin nFile) (src : List UInt8) : Except Halt (Sys × Int) := do
  let x := s.file f
  let v ← s.vol.ilock x.ip
  let (v, r) ← v.writei x.ip src x.off
  let s := { s with vol := v }
  let s := if 0 < r then s.setFile f { x with off := x.off + r.toNat } else s
  let v ← s.vol.iunlock x.ip
  return ({ s with vol := v }, r)

/-- filewrite's loop from byte `i` of `src` on, for at most `fuel` turns, each
of at most `maxWrite` bytes: the system after it and the bytes written.  A
write of `src.length` bytes ends it in `src.length` turns. -/
def filewriteLoop (s : Sys) (f : Fin nFile) (src : List UInt8) : Nat → Nat → Except Halt (Sys × Nat)
  | 0, i => .ok (s, i)
  | fuel + 1, i =>
      if i < src.length then do
        let n1 := min (src.length - i) maxWrite
        let (s, r) ← s.writeAt f ((src.drop i).take n1)
        if r < 0 then return (s, i)
        if r ≠ n1 then throw (.panic "short filewrite")
        filewriteLoop s f src fuel (i + n1)
      else .ok (s, i)

/-- filewrite of the bytes `src`.  pipewrite, as piperead in fileread. -/
def filewrite (s : Sys) (f : Fin nFile) (src : List UInt8) : Except Halt (Sys × Int) :=
  let x := s.file f
  if x.writable = false then .ok (s, -1)
  else
    match x.type with
    | .pipe => .ok (s, -1)
    | .inode => do
        let (s, i) ← s.filewriteLoop f src src.length 0
        return (s, if i = src.length then src.length else -1)
    | .none => .error (.panic "filewrite")

/-- fork's copy of the descriptors and the working directory: another
reference to each open file and to the directory. -/
def fork (s : Sys) (q : Proc) : Except Halt Sys := do
  let s ← (List.finRange nOFile).foldlM (fun s fd =>
    match q.ofile fd with
    | some f => s.filedup f
    | none => pure s) s
  return { s with vol := s.vol.idup q.cwd }

/-- exit's closing of every open file and its put of the working directory. -/
def exit (s : Sys) (q : Proc) : Except Halt Sys := do
  let s ← (List.finRange nOFile).foldlM (fun s fd =>
    match q.ofile fd with
    | some f => s.fileclose f
    | none => pure s) s
  let v ← s.vol.iput q.cwd
  return { s with vol := v }

end Sys

/-! ## The descriptor tables -/

namespace Proc

@[simp] theorem setOfile_ofile (q : Proc) (fd : Fin nOFile) (f : Option (Fin nFile)) :
    (q.setOfile fd f).ofile = Function.update q.ofile fd f := rfl

@[simp] theorem setOfile_cwd (q : Proc) (fd : Fin nOFile) (f : Option (Fin nFile)) :
    (q.setOfile fd f).cwd = q.cwd := rfl

/-- fdalloc finds no descriptor exactly when all of them are in use. -/
theorem fdalloc_eq_none {q : Proc} {f : Fin nFile} : q.fdalloc f = none ↔ ∀ fd, q.ofile fd ≠ none := by
  unfold fdalloc
  cases found : Scan.first (fun fd => (q.ofile fd).isNone) with
  | none =>
      have used := Scan.first_none.mp found
      simpa [← Option.ne_none_iff_isSome] using used
  | some fd =>
      have free : q.ofile fd = none := Option.isNone_iff_eq_none.mp (Scan.first_some found)
      simp only [reduceCtorEq, false_iff, not_forall, not_not]
      exact ⟨fd, free⟩

end Proc

namespace Sys

@[simp] theorem setFile_file (s : Sys) (f : Fin nFile) (x : File) :
    (s.setFile f x).file = Function.update s.file f x := rfl

@[simp] theorem setFile_vol (s : Sys) (f : Fin nFile) (x : File) : (s.setFile f x).vol = s.vol := rfl

/-- filealloc took an entry without references and gave it one. -/
theorem filealloc_eq_some {s s' : Sys} {f : Fin nFile} (got : s.filealloc = some (s', f)) :
    (s.file f).ref = 0 ∧ s' = s.setFile f { s.file f with ref := 1 } := by
  unfold filealloc at got
  cases found : Scan.first (fun f => decide ((s.file f).ref = 0)) with
  | none =>
      rw [found] at got
      cases got
  | some g =>
      rw [found] at got
      cases got
      exact ⟨by simpa using Scan.first_some found, rfl⟩

/-- Closing the last reference to an entry that holds no inode only frees
the entry. -/
theorem fileclose_of_last {s : Sys} {f : Fin nFile} (last : (s.file f).ref = 1)
    (noInode : (s.file f).type ≠ .inode) :
    s.fileclose f = .ok (s.setFile f { s.file f with ref := 0, type := .none }) := by
  unfold fileclose
  rw [if_neg (by omega), if_neg (by omega)]
  cases kind : (s.file f).type with
  | inode => exact absurd kind noInode
  | none => rfl
  | pipe => rfl

end Sys

/-! ## Processes making calls -/

/-- The file system with the processes that use it: the file layer's part of
each live process, none for an id no live process has. -/
structure World (ι : Type) where
  sys : Sys
  proc : ι → Option Proc

/-- The calls of this layer.  fork copies the caller into the free id
`child`; the failures of allocproc and copyuvm, which return before the
file layer is touched, are the process layer's. -/
inductive Call (ι : Type) where
  | sysLink (old new : List UInt8)
  | sysUnlink (path : List UInt8)
  | sysOpen (path : List UInt8) (omode : BitVec 32)
  | sysMkdir (path : List UInt8)
  | sysMknod (path : List UInt8) (major minor : Int)
  | sysChdir (path : List UInt8)
  | sysClose (fd : Int)
  | sysDup (fd : Int)
  | fork (child : ι)
  | exit

namespace World

variable {ι : Type} [DecidableEq ι]

/-- The inodes and the icache become `v`. -/
def setVol (w : World ι) (v : Vol) : World ι := { w with sys := { w.sys with vol := v } }

/-- Process `p` becomes `q`. -/
def setProc (w : World ι) (p : ι) (q : Option Proc) : World ι :=
  { w with proc := Function.update w.proc p q }

/-- The call `c` of the live process `p`, whose file layer is `q`: the world
after it and what it returns.  fork's and exit's return values belong to the
process layer and are 0 here. -/
def call (w : World ι) (p : ι) (q : Proc) : Call ι → Except Halt (World ι × Int)
  | .sysLink old new => do
      let (v, r) ← w.sys.vol.sysLink q.cwd old new
      return (w.setVol v, r)
  | .sysUnlink path => do
      let (v, r) ← w.sys.vol.sysUnlink q.cwd path
      return (w.setVol v, r)
  | .sysOpen path omode => do
      let (s, q, r) ← w.sys.sysOpen q path omode
      return ({ w with sys := s }.setProc p (some q), r)
  | .sysMkdir path => do
      let (v, r) ← w.sys.vol.sysMkdir q.cwd path
      return (w.setVol v, r)
  | .sysMknod path major minor => do
      let (v, r) ← w.sys.vol.sysMknod q.cwd path major minor
      return (w.setVol v, r)
  | .sysChdir path => do
      let (v, cwd, r) ← w.sys.vol.sysChdir q.cwd path
      return ((w.setVol v).setProc p (some { q with cwd := cwd }), r)
  | .sysClose fd => do
      let (s, q, r) ← w.sys.sysClose q fd
      return ({ w with sys := s }.setProc p (some q), r)
  | .sysDup fd => do
      let (s, q, r) ← w.sys.sysDup q fd
      return ({ w with sys := s }.setProc p (some q), r)
  | .fork child =>
      if (w.proc child).isSome then .ok (w, -1)
      else do
        let s ← w.sys.fork q
        return ({ w with sys := s }.setProc child (some q), 0)
  | .exit => do
      let s ← w.sys.exit q
      return ({ w with sys := s }.setProc p none, 0)

/-- One step: a live process makes a call that returns. -/
def step (w : World ι) : ι × Call ι → Option (World ι)
  | (p, c) =>
      match w.proc p with
      | some q => ((w.call p q c).toOption).map Prod.fst
      | none => none

/-- The system as userinit leaves it: the image mkfs writes for `files`, the
root held by the process `init` as its working directory, nothing open. -/
def boot (files : List (List UInt8 × List UInt8)) (init : ι) : World ι where
  sys := ⟨(Vol.mkfs files).setSlot Vol.slot₀ ⟨rootIno, 1, false, false⟩, fun _ => File.zero⟩
  proc p := if p = init then some ⟨fun _ => none, Vol.slot₀⟩ else none

/-- The states the calls reach from a booted image. -/
def Reachable (w : World ι) : Prop :=
  Machine.Reachable (fun w => ∃ files init, w = boot files init) step w

/-- The calls `cs` made one after another, each by a live process, none of
them halting: the world after them and what each returned. -/
def runCalls (w : World ι) : List (ι × Call ι) → Option (World ι × List Int)
  | [] => some (w, [])
  | (p, c) :: rest => do
      let q ← w.proc p
      let (w, r) ← (w.call p q c).toOption
      let (w, rs) ← runCalls w rest
      return (w, r :: rs)

/-- A run of calls that returned is a run of steps. -/
theorem run_of_runCalls {w w' : World ι} {cs : List (ι × Call ι)} {rs : List Int}
    (ran : w.runCalls cs = some (w', rs)) : Machine.run step w cs = some w' := by
  induction cs generalizing w rs with
  | nil =>
      cases ran
      rfl
  | cons pc rest inductionHypothesis =>
      obtain ⟨p, c⟩ := pc
      simp only [runCalls, Option.bind_eq_bind, Option.bind_eq_some_iff] at ran
      obtain ⟨q, live, ⟨w₁, r⟩, returned, ⟨w₂, rs'⟩, rest_ran, same⟩ := ran
      cases same
      rw [Machine.run_cons]
      have stepped : step w (p, c) = some w₁ := by
        simp only [step, live, returned, Option.map_some]
      rw [stepped, Option.bind_some]
      exact inductionHypothesis rest_ran

end World

end Fs
end Xv6

import Xv6.Fs.Namespace
import Xv6.Lib.Splice
import Mathlib

/-!
# Processes sharing one open file

After fork or dup several processes hold one struct file, and with it one
offset.  Each turn of filewrite's loop, and each fileread, takes the
inode's sleep-lock, reads or writes at the offset and advances it by what
it moved before it lets the lock go, so the turns of the processes follow
one another.  A turn writes at the offset the previous turn left: the
writes land back to back, each writer's bytes in its order, and the reads
return consecutive pieces of the file.

What the file's bytes become is the old bytes up to the first offset, the
chunks in the order they ran, and then the old bytes after them: the size
is the larger of the old size and the end of the last chunk.
-/

namespace Xv6
namespace Fs

open Splice

/-- writeBytes on a write that starts inside the file and fits. -/
theorem writeBytes_eq_splice {data src : List UInt8} {off : Nat} (inside : off ≤ data.length)
    (fits : off + src.length ≤ maxFile * bSize) :
    writeBytes data src off = ((src.length : Int), splice data src off) := by
  have small : off + src.length < 2 ^ 32 := by
    have : maxFile * bSize < 2 ^ 32 := by decide
    omega
  unfold writeBytes
  rw [if_neg (by omega), if_neg (by omega)]
  rfl

/-- readBytes of `n` bytes from inside the file: up to `n` of the bytes from
`off` on. -/
theorem readBytes_of_inside {data : List UInt8} {off n : Nat} (inside : off ≤ data.length)
    (small : data.length + n < 2 ^ 32) :
    readBytes data off n =
      (((min n (data.length - off) : Nat) : Int), (data.drop off).take (min n (data.length - off))) := by
  unfold readBytes
  rw [if_neg (by omega)]
  dsimp only
  split
  · rw [Nat.min_eq_right (by omega)]
  · rw [Nat.min_eq_left (by omega)]

namespace Vol

variable {v : Vol} {i : Fin nInode}

/-- writei on an inode that is not a device, from inside it, of bytes that
fit in the file and in the free blocks: the blocks the file gains are taken
off the free ones. -/
theorem writei_of_fits (src : List UInt8) (off : Nat) (notDev : (v.inode i).type ≠ tDev)
    (inside : off ≤ (v.inode i).data.length) (fits : off + src.length ≤ maxFile * bSize)
    (room : blocksFor (max (v.inode i).data.length (off + src.length)) ≤ v.free + blocksFor (v.inode i).data.length) :
    v.writei i src off =
      .ok ({ v.setNode (v.slot i).inum { v.inode i with data := splice (v.inode i).data src off } with
          free := v.free + blocksFor (v.inode i).data.length - blocksFor (splice (v.inode i).data src off).length },
        (src.length : Int)) := by
  have spliced := writeBytes_eq_splice inside fits
  rw [writei_of_room notDev (by rw [spliced, Splice.length_splice inside]; exact room), spliced]

/-- writei from inside a file whose end it moves past more blocks than are
free panics in balloc. -/
theorem writei_of_short (src : List UInt8) (off : Nat) (notDev : (v.inode i).type ≠ tDev)
    (inside : off ≤ (v.inode i).data.length) (fits : off + src.length ≤ maxFile * bSize)
    (short : v.free + blocksFor (v.inode i).data.length < blocksFor (max (v.inode i).data.length (off + src.length))) :
    v.writei i src off = .error (.panic "balloc: out of blocks") := by
  have spliced := writeBytes_eq_splice inside fits
  exact writei_out_of_blocks notDev (by rw [spliced, Splice.length_splice inside]; exact short)

/-- readi on an inode that is not a device, from inside it. -/
theorem readi_of_inside (off n : Nat) (notDev : (v.inode i).type ≠ tDev)
    (inside : off ≤ (v.inode i).data.length) (small : (v.inode i).data.length + n < 2 ^ 32) :
    v.readi i off n =
      (((min n ((v.inode i).data.length - off) : Nat) : Int),
        ((v.inode i).data.drop off).take (min n ((v.inode i).data.length - off))) := by
  unfold readi
  dsimp only
  rw [if_neg notDev, readBytes_of_inside inside small]

/-- The inode an entry holds, when only the entry's flags change. -/
@[simp] theorem inode_setSlot_flags (v : Vol) (i : Fin nInode) (locked valid : Bool) :
    (v.setSlot i { v.slot i with locked := locked, valid := valid }).inode i = v.inode i := by
  simp [inode]

/-- Letting go of the lock a turn took on a free entry in use, after the
turn changed the entry's inode to `node` and the free blocks to `n`: the
change, with the entry as it was and now valid. -/
theorem iunlock_after_ilock (used : 0 < (v.slot i).ref) (free : (v.slot i).locked = false)
    (node : Node) (n : Nat) :
    { (v.setSlot i { v.slot i with locked := true, valid := true }).setNode (v.slot i).inum node with
        free := n }.iunlock i =
      .ok { (v.setNode (v.slot i).inum node).setSlot i { v.slot i with valid := true } with free := n } := by
  rw [iunlock_of_locked (by simp) (by simpa using used)]
  congr 1
  cases v
  rename_i node' slot _
  simp only [setSlot, setNode, Vol.mk.injEq, true_and, and_true]
  rw [Function.update_idem]
  congr 1
  cases e : slot i
  simp_all

/-- Writing back an inode's own dinode changes nothing. -/
@[simp] theorem setNode_self (v : Vol) (inum : Nat) : v.setNode inum (v.node inum) = v := by
  cases v
  simp [setNode]

/-- Letting go of the lock a turn took on a free entry in use, after a turn
that changed nothing: the entry as it was, now valid. -/
theorem iunlock_after_ilock_only (used : 0 < (v.slot i).ref) (free : (v.slot i).locked = false) :
    (v.setSlot i { v.slot i with locked := true, valid := true }).iunlock i =
      .ok (v.setSlot i { v.slot i with valid := true }) := by
  have unlocked := iunlock_after_ilock used free (v.inode i) v.free
  have kept : (v.setSlot i { v.slot i with locked := true, valid := true }).setNode (v.slot i).inum
      (v.inode i) = v.setSlot i { v.slot i with locked := true, valid := true } :=
    setNode_self (v.setSlot i _) _
  rwa [kept, inode, setNode_self] at unlocked

end Vol

namespace Sys

/-- The file `f` is open on an inode a turn can read or write: its icache
entry is in use and free, the inode has a type and is not a device, and the
offset is inside the file. -/
structure OnInode (s : Sys) (f : Fin nFile) : Prop where
  used : 0 < (s.vol.slot (s.file f).ip).ref
  unlocked : (s.vol.slot (s.file f).ip).locked = false
  typed : (s.vol.inode (s.file f).ip).type ≠ 0
  notDev : (s.vol.inode (s.file f).ip).type ≠ tDev
  inside : (s.file f).off ≤ (s.vol.inode (s.file f).ip).data.length

/-- `s` after a turn on `f` that leaves its inode as `node` and advances the
offset by `k`: the icache entry, locked and unlocked again, is now valid. -/
def moved (s : Sys) (f : Fin nFile) (node : Node) (k : Nat) : Sys :=
  let x := s.file f
  let e := s.vol.slot x.ip
  ⟨{ (s.vol.setNode e.inum node).setSlot x.ip { e with valid := true } with
      free := s.vol.free + blocksFor (s.vol.inode x.ip).data.length - blocksFor node.data.length },
    Function.update s.file f { x with off := x.off + k }⟩

variable {s : Sys} {f : Fin nFile}

@[simp] theorem moved_file_self (s : Sys) (f : Fin nFile) (node : Node) (k : Nat) :
    (s.moved f node k).file f = { s.file f with off := (s.file f).off + k } := by
  simp [moved]

@[simp] theorem moved_inode (s : Sys) (f : Fin nFile) (node : Node) (k : Nat) :
    (s.moved f node k).vol.inode (s.file f).ip = node := by
  simp [moved, Vol.inode]

@[simp] theorem moved_free (s : Sys) (f : Fin nFile) (node : Node) (k : Nat) :
    (s.moved f node k).vol.free =
      s.vol.free + blocksFor (s.vol.inode (s.file f).ip).data.length - blocksFor node.data.length := rfl

theorem OnInode.moved (on : s.OnInode f) {node : Node} {k : Nat}
    (sameType : node.type = (s.vol.inode (s.file f).ip).type)
    (inside : (s.file f).off + k ≤ node.data.length) :
    (s.moved f node k).OnInode f where
  used := by simpa [Sys.moved] using on.used
  unlocked := by simpa [Sys.moved] using on.unlocked
  typed := by simpa [sameType] using on.typed
  notDev := by simpa [sameType] using on.notDev
  inside := by simpa using inside

/-- fileread's and filewrite's `if(r > 0) f->off += r`, for an `r` that is
not negative: the offset advances by `r`. -/
theorem advance_eq (s : Sys) (f : Fin nFile) {x : File} (same : s.file f = x) (k : Nat) :
    (if 0 < (k : Int) then s.setFile f { x with off := x.off + (k : Int).toNat } else s) =
      s.setFile f { x with off := x.off + k } := by
  by_cases zero : k = 0
  · subst zero same
    simp [setFile]
  · rw [if_pos (by omega), Int.toNat_natCast]

/-- The free blocks a turn on `f` needs: those of the file's bytes once the
write has moved its end to `k`, past those it holds. -/
def Room (s : Sys) (f : Fin nFile) (k : Nat) : Prop :=
  blocksFor (max (s.vol.inode (s.file f).ip).data.length k) ≤
    s.vol.free + blocksFor (s.vol.inode (s.file f).ip).data.length

instance (s : Sys) (f : Fin nFile) (k : Nat) : Decidable (s.Room f k) := Nat.decLe _ _

/-- Room for a write that ends at `k` is room for one that ends earlier. -/
theorem Room.mono {k k' : Nat} (room : s.Room f k') (le : k ≤ k') : s.Room f k :=
  le_trans (Vol.blocksFor_mono (max_le_max_left _ le)) room

/-- A filewrite turn from inside the file, with room for its bytes: all of
them written at the offset, which advances past them. -/
theorem writeAt_eq (on : s.OnInode f) {src : List UInt8}
    (fits : (s.file f).off + src.length ≤ maxFile * bSize) (room : s.Room f ((s.file f).off + src.length)) :
    s.writeAt f src = .ok (s.moved f { s.vol.inode (s.file f).ip with
      data := splice (s.vol.inode (s.file f).ip).data src (s.file f).off } src.length, src.length) := by
  unfold writeAt
  dsimp only
  rw [Vol.ilock_of_typed on.used on.unlocked on.typed]
  have written := Vol.writei_of_fits (v := s.vol.setSlot (s.file f).ip
      { s.vol.slot (s.file f).ip with locked := true, valid := true }) (i := (s.file f).ip) src (s.file f).off
    (by simpa using on.notDev) (by simpa using on.inside) (by simpa using fits) (by simpa [Room] using room)
  simp only [Vol.inode_setSlot_flags, Vol.setSlot_slot_self, Vol.setSlot_free] at written
  simp only [Fallible.ok_bind, written, advance_eq _ f rfl, setFile_vol]
  rw [Vol.iunlock_after_ilock on.used on.unlocked]
  rfl

/-- A filewrite turn that moves the file's end past more blocks than are
free panics in balloc. -/
theorem writeAt_of_short (on : s.OnInode f) {src : List UInt8}
    (fits : (s.file f).off + src.length ≤ maxFile * bSize) (short : ¬ s.Room f ((s.file f).off + src.length)) :
    s.writeAt f src = .error (.panic "balloc: out of blocks") := by
  unfold writeAt
  dsimp only
  rw [Vol.ilock_of_typed on.used on.unlocked on.typed]
  have failed := Vol.writei_of_short (v := s.vol.setSlot (s.file f).ip
      { s.vol.slot (s.file f).ip with locked := true, valid := true }) (i := (s.file f).ip) src (s.file f).off
    (by simpa using on.notDev) (by simpa using on.inside) (by simpa using fits)
    (by simpa [Room] using short)
  simp only [Fallible.ok_bind, failed]
  rfl

/-- A fileread turn from inside the file: up to `n` of the bytes from the
offset on, which advances past them. -/
theorem readAt_eq (on : s.OnInode f) {n : Nat}
    (small : (s.vol.inode (s.file f).ip).data.length + n < 2 ^ 32) :
    s.readAt f n = .ok (s.moved f (s.vol.inode (s.file f).ip)
        (min n ((s.vol.inode (s.file f).ip).data.length - (s.file f).off)),
      ((min n ((s.vol.inode (s.file f).ip).data.length - (s.file f).off) : Nat) : Int),
      ((s.vol.inode (s.file f).ip).data.drop (s.file f).off).take
        (min n ((s.vol.inode (s.file f).ip).data.length - (s.file f).off))) := by
  unfold readAt
  dsimp only
  rw [Vol.ilock_of_typed on.used on.unlocked on.typed]
  have read := Vol.readi_of_inside (v := s.vol.setSlot (s.file f).ip
      { s.vol.slot (s.file f).ip with locked := true, valid := true }) (i := (s.file f).ip)
    (s.file f).off n (by simpa using on.notDev) (by simpa using on.inside) (by simpa using small)
  simp only [Vol.inode_setSlot_flags] at read
  simp only [Fallible.ok_bind, read, advance_eq _ f rfl, setFile_vol]
  rw [Vol.iunlock_after_ilock_only on.used on.unlocked]
  simp [moved, Vol.inode]
  rfl

end Sys

/-! ## Writers sharing a file -/

/-- Processes inside filewrite on one shared file: the system, and the bytes
each one's loop has yet to write. -/
structure Writers (ι : Type) where
  sys : Sys
  pending : ι → List UInt8

namespace Writers

variable {ι : Type} [DecidableEq ι]

/-- Writer `p`'s next turn of filewrite's loop on `f`: its next chunk of at
most `maxWrite` bytes, and the chunk written.  A writer with nothing left has
left its loop; a failed write ends it. -/
def turn (w : Writers ι) (f : Fin nFile) (p : ι) : Except Halt (Writers ι × List UInt8) :=
  if w.pending p = [] then .ok (w, [])
  else do
    let chunk := (w.pending p).take maxWrite
    let (s, r) ← w.sys.writeAt f chunk
    if r < 0 then return (⟨s, Function.update w.pending p []⟩, [])
    if r ≠ chunk.length then throw (.panic "short filewrite")
    return (⟨s, Function.update w.pending p ((w.pending p).drop maxWrite)⟩, chunk)

/-- The turns the schedule gives, in order: the writers after them, and each
turn's writer with the chunk it wrote. -/
def run (w : Writers ι) (f : Fin nFile) : List ι → Except Halt (Writers ι × List (ι × List UInt8))
  | [] => .ok (w, [])
  | p :: rest => do
      let (w, chunk) ← w.turn f p
      let (w, chunks) ← run w f rest
      return (w, (p, chunk) :: chunks)

/-- The chunks of `written` that writer `p` wrote, in order. -/
def chunksOf (written : List (ι × List UInt8)) (p : ι) : List UInt8 :=
  (written.filter fun c => decide (c.1 = p)).flatMap Prod.snd

theorem chunksOf_append_self (written : List (ι × List UInt8)) (p : ι) (chunk : List UInt8) :
    chunksOf (written ++ [(p, chunk)]) p = chunksOf written p ++ chunk := by
  simp [chunksOf]

theorem chunksOf_append_other (written : List (ι × List UInt8)) {p q : ι} (other : q ≠ p) (chunk : List UInt8) :
    chunksOf (written ++ [(p, chunk)]) q = chunksOf written q := by
  simp [chunksOf, Ne.symm other]

variable [Fintype ι]

/-- The bytes all writers have yet to write. -/
def total (pending : ι → List UInt8) : Nat := ∑ p, (pending p).length

theorem total_update (pending : ι → List UInt8) (p : ι) (rest : List UInt8) :
    total (Function.update pending p rest) + (pending p).length = total pending + rest.length := by
  have lengths : (fun q => (Function.update pending p rest q).length) =
      Function.update (fun q => (pending q).length) p rest.length := by
    funext q
    exact Function.apply_update (fun _ l => List.length l) pending p rest q
  unfold total
  rw [lengths, Finset.sum_update_of_mem (Finset.mem_univ p),
    Finset.sum_eq_add_sum_sdiff_singleton_of_mem (Finset.mem_univ p)]
  omega

omit [DecidableEq ι] in
theorem length_le_total (pending : ι → List UInt8) (p : ι) : (pending p).length ≤ total pending :=
  Finset.single_le_sum (f := fun q => (pending q).length) (fun _ _ => Nat.zero_le _) (Finset.mem_univ p)

/-- What the writers `w` are, from `w₀`, after the chunks `written` ran: the
file still open on its inode with its offset past the chunks, the chunks
written back to back from the first offset, each writer's chunks followed by
what it has yet to write making up its bytes, room left in the file and on
the disk for the rest, and the blocks the file gained taken off the free
ones. -/
structure Written (w₀ w : Writers ι) (f : Fin nFile) (written : List (ι × List UInt8)) : Prop where
  onInode : w.sys.OnInode f
  ip : (w.sys.file f).ip = (w₀.sys.file f).ip
  off : (w.sys.file f).off = (w₀.sys.file f).off + (written.flatMap Prod.snd).length
  data : (w.sys.vol.inode (w₀.sys.file f).ip).data =
    Splice.splice (w₀.sys.vol.inode (w₀.sys.file f).ip).data (written.flatMap Prod.snd) (w₀.sys.file f).off
  own : ∀ p, chunksOf written p ++ w.pending p = w₀.pending p
  room : (w.sys.file f).off + total w.pending ≤ maxFile * bSize
  blocks : w.sys.Room f ((w.sys.file f).off + total w.pending)
  free : w.sys.vol.free + blocksFor (w.sys.vol.inode (w₀.sys.file f).ip).data.length =
    w₀.sys.vol.free + blocksFor (w₀.sys.vol.inode (w₀.sys.file f).ip).data.length

variable {w₀ w : Writers ι} {f : Fin nFile} {written : List (ι × List UInt8)}

theorem Written.start (on : w₀.sys.OnInode f) (room : (w₀.sys.file f).off + total w₀.pending ≤ maxFile * bSize)
    (blocks : w₀.sys.Room f ((w₀.sys.file f).off + total w₀.pending)) :
    Written w₀ w₀ f [] where
  onInode := on
  ip := rfl
  off := rfl
  data := by simp
  own _ := by simp [chunksOf]
  room := room
  blocks := blocks
  free := rfl

/-- Writing a writer's next chunk at the offset keeps `Written`, with the
chunk added. -/
theorem Written.write (written_ : Written w₀ w f written) (on₀ : w₀.sys.OnInode f) {p : ι}
    {chunk rest : List UInt8} (split : chunk ++ rest = w.pending p) :
    Written w₀ ⟨w.sys.moved f { w.sys.vol.inode (w.sys.file f).ip with
        data := Splice.splice (w.sys.vol.inode (w.sys.file f).ip).data chunk (w.sys.file f).off } chunk.length,
      Function.update w.pending p rest⟩ f (written ++ [(p, chunk)]) := by
  obtain ⟨onInode, ip, off, data, own, room, blocks, free⟩ := written_
  have lengths : chunk.length + rest.length = (w.pending p).length := by
    rw [← split, List.length_append]
  have sum := total_update w.pending p rest
  have inTotal := length_le_total w.pending p
  -- the file's end moves to the end of the chunk, no further than the end
  -- of all the writes, for which the disk has room
  have grown : (Splice.splice (w.sys.vol.inode (w.sys.file f).ip).data chunk (w.sys.file f).off).length =
      max (w.sys.vol.inode (w.sys.file f).ip).data.length ((w.sys.file f).off + chunk.length) :=
    Splice.length_splice onInode.inside
  have within : blocksFor (max (w.sys.vol.inode (w.sys.file f).ip).data.length ((w.sys.file f).off + chunk.length)) ≤
      blocksFor (max (w.sys.vol.inode (w.sys.file f).ip).data.length ((w.sys.file f).off + total w.pending)) :=
    Vol.blocksFor_mono (by omega)
  unfold Sys.Room at blocks
  refine ⟨?onInode, ?ip, ?off, ?data, ?own, ?room, ?blocks, ?free⟩
  case onInode =>
    exact onInode.moved rfl (by simp only [Splice.length_splice onInode.inside]; omega)
  case ip => simpa using ip
  case off =>
    simp only [Sys.moved_file_self, List.flatMap_append, List.length_append, off]
    simp
    omega
  case data =>
    rw [← ip, Sys.moved_inode, ip, data, off, Splice.splice_splice on₀.inside, List.flatMap_append]
    simp
  case own =>
    intro q
    dsimp only
    by_cases same : q = p
    · subst same
      rw [chunksOf_append_self, Function.update_self, List.append_assoc, split]
      exact own q
    · rw [chunksOf_append_other _ same, Function.update_of_ne same]
      exact own q
  case room =>
    simp only [Sys.moved_file_self]
    omega
  case blocks =>
    have spread : max (max (w.sys.vol.inode (w.sys.file f).ip).data.length ((w.sys.file f).off + chunk.length))
        ((w.sys.file f).off + chunk.length + total (Function.update w.pending p rest)) =
        max (w.sys.vol.inode (w.sys.file f).ip).data.length ((w.sys.file f).off + total w.pending) := by
      omega
    simp only [Sys.Room, Sys.moved_file_self, Sys.moved_inode, Sys.moved_free, grown, spread]
    omega
  case free =>
    rw [← ip, Sys.moved_free, Sys.moved_inode, ip, ← free, ← ip]
    dsimp only
    rw [grown]
    omega

/-- A turn keeps `Written`, with its chunk added: the step of every run. -/
theorem Written.turn (written_ : Written w₀ w f written) (on₀ : w₀.sys.OnInode f) (p : ι) :
    ∃ w' chunk, w.turn f p = .ok (w', chunk) ∧ Written w₀ w' f (written ++ [(p, chunk)]) := by
  by_cases done : w.pending p = []
  · -- the writer has left its loop: nothing changes
    refine ⟨w, [], by simp [Writers.turn, done], ?_⟩
    obtain ⟨onInode, ip, off, data, own, room, blocks, free⟩ := written_
    refine ⟨onInode, ip, by simpa using off, by simpa using data, fun q => ?_, room, blocks, free⟩
    by_cases same : q = p
    · subst same
      rw [chunksOf_append_self, List.append_nil]
      exact own q
    · rw [chunksOf_append_other _ same]
      exact own q
  · have chunkLe : ((w.pending p).take maxWrite).length ≤ total w.pending := by
      have inTotal := length_le_total w.pending p
      have shorter : ((w.pending p).take maxWrite).length ≤ (w.pending p).length := by
        rw [List.length_take]
        omega
      omega
    have chunkFits : (w.sys.file f).off + ((w.pending p).take maxWrite).length ≤ maxFile * bSize := by
      have room := written_.room
      omega
    have chunkRoom := written_.blocks.mono (Nat.add_le_add_left chunkLe _)
    refine ⟨_, _, ?_, written_.write on₀ (List.take_append_drop maxWrite (w.pending p))⟩
    -- the chunk fits, so writei takes all of it
    have wrote := Sys.writeAt_eq written_.onInode chunkFits chunkRoom
    simp only [Writers.turn, if_neg done, wrote, Fallible.ok_bind]
    rw [if_neg (by omega), if_neg (by simp)]
    rfl

omit [Fintype ι] in
/-- A turn whose chunk moves the file's end past more blocks than are free
panics in balloc. -/
theorem turn_of_short (on : w.sys.OnInode f) {p : ι}
    (fits : (w.sys.file f).off + ((w.pending p).take maxWrite).length ≤ maxFile * bSize)
    (short : ¬ w.sys.Room f ((w.sys.file f).off + ((w.pending p).take maxWrite).length)) :
    w.turn f p = .error (.panic "balloc: out of blocks") := by
  -- a writer with nothing left asks for no block
  have pending : w.pending p ≠ [] := by
    intro empty
    apply short
    simp only [empty, List.take_nil, List.length_nil, Nat.add_zero, Sys.Room, max_eq_left on.inside]
    omega
  simp only [turn, if_neg pending, Sys.writeAt_of_short on fits short]
  rfl

/-- Every schedule runs to its end, and `Written` holds of the chunks its
turns wrote. -/
theorem Written.run (written_ : Written w₀ w f written) (on₀ : w₀.sys.OnInode f) (schedule : List ι) :
    ∃ w' chunks, w.run f schedule = .ok (w', chunks) ∧ Written w₀ w' f (written ++ chunks) := by
  -- induction on the schedule, the invariant carried turn by turn
  induction schedule generalizing w written with
  | nil => exact ⟨w, [], rfl, by simpa using written_⟩
  | cons p rest inductionHypothesis =>
      obtain ⟨w₁, chunk, turned, written₁⟩ := written_.turn on₀ p
      obtain ⟨w₂, chunks, ran, written₂⟩ := inductionHypothesis written₁
      refine ⟨w₂, (p, chunk) :: chunks, ?_, by simpa using written₂⟩
      simp [Writers.run, turned, ran]

end Writers

/-! ## Readers sharing a file -/

namespace Sys

/-- fileread calls through `f` in the order they ran, each asking for its
count of bytes: the system after them and what each returned. -/
def readRun (s : Sys) (f : Fin nFile) : List Nat → Except Halt (Sys × List (Int × List UInt8))
  | [] => .ok (s, [])
  | n :: rest => do
      let (s, r, bytes) ← s.fileread f n
      let (s, pieces) ← readRun s f rest
      return (s, (r, bytes) :: pieces)

/-- What the readers have, from `s₀`, after the calls asking for `asked`
returned `pieces`: the file open for reading on its unchanged inode, the
offset past the pieces, the pieces the file's bytes from the first offset on,
as many as were asked for and the file held, and each call's return value
its piece's length. -/
structure Read (s₀ s : Sys) (f : Fin nFile) (asked : List Nat) (pieces : List (Int × List UInt8)) : Prop where
  onInode : s.OnInode f
  readable : (s.file f).readable = true
  isInode : (s.file f).type = .inode
  ip : (s.file f).ip = (s₀.file f).ip
  data : (s.vol.inode (s₀.file f).ip).data = (s₀.vol.inode (s₀.file f).ip).data
  off : (s.file f).off = (s₀.file f).off + (pieces.flatMap Prod.snd).length
  bytes : pieces.flatMap Prod.snd =
    ((s₀.vol.inode (s₀.file f).ip).data.drop (s₀.file f).off).take (pieces.flatMap Prod.snd).length
  count : (pieces.flatMap Prod.snd).length =
    min asked.sum ((s₀.vol.inode (s₀.file f).ip).data.length - (s₀.file f).off)
  returned : ∀ piece ∈ pieces, piece.1 = piece.2.length

variable {s₀ s : Sys} {f : Fin nFile}

theorem Read.start (on : s₀.OnInode f) (readable : (s₀.file f).readable = true)
    (isInode : (s₀.file f).type = .inode) : Read s₀ s₀ f [] [] where
  onInode := on
  readable := readable
  isInode := isInode
  ip := rfl
  data := rfl
  off := rfl
  bytes := rfl
  count := by simp
  returned := by simp

/-- A fileread call keeps `Read`, with its piece added: the step of every
run of readers. -/
theorem Read.fileread {asked : List Nat} {pieces : List (Int × List UInt8)}
    (read : Read s₀ s f asked pieces) {n : Nat}
    (small : (s₀.vol.inode (s₀.file f).ip).data.length + n < 2 ^ 32) :
    ∃ s' r bytes, s.fileread f n = .ok (s', r, bytes) ∧
      Read s₀ s' f (asked ++ [n]) (pieces ++ [(r, bytes)]) := by
  obtain ⟨onInode, readable, isInode, ip, data, off, bytes, count, returned⟩ := read
  have small' : (s.vol.inode (s.file f).ip).data.length + n < 2 ^ 32 := by
    rwa [ip, data]
  have called : s.fileread f n = s.readAt f n := by
    unfold Sys.fileread
    rw [if_neg (by simp [readable]), isInode]
  rw [called, readAt_eq onInode small']
  refine ⟨_, _, _, rfl, ?_⟩
  -- the file's bytes are still the first ones, so is its length
  have length : (s.vol.inode (s.file f).ip).data.length = (s₀.vol.inode (s₀.file f).ip).data.length := by
    rw [ip, data]
  have inside := onInode.inside
  have piece : (((s.vol.inode (s.file f).ip).data.drop (s.file f).off).take
      (min n ((s.vol.inode (s.file f).ip).data.length - (s.file f).off))).length =
      min n ((s.vol.inode (s.file f).ip).data.length - (s.file f).off) := by
    simp only [List.length_take, List.length_drop]
    omega
  refine ⟨?onInode, ?readable, ?isInode, ?ip, ?data, ?off, ?bytes, ?count, ?returned⟩
  case onInode => exact onInode.moved rfl (by omega)
  case readable => simpa using readable
  case isInode => simpa using isInode
  case ip => simpa using ip
  case data => rw [← ip, moved_inode, ip, data]
  case off =>
    simp only [moved_file_self, List.flatMap_append, List.flatMap_singleton, List.length_append, piece]
    omega
  case bytes =>
    rw [List.flatMap_append, List.flatMap_singleton, List.length_append, piece, List.take_add, ← bytes,
      List.drop_drop, ← off, ip, data]
  case count =>
    rw [List.flatMap_append, List.flatMap_singleton, List.length_append, piece, List.sum_append,
      List.sum_singleton, length, off]
    omega
  case returned =>
    intro entry member
    rcases List.mem_append.mp member with old | new
    · exact returned entry old
    · rw [List.mem_singleton.mp new]
      exact congrArg Nat.cast piece.symm

/-- Every order of fileread calls runs to its end, and `Read` holds of the
pieces they returned. -/
theorem Read.run {asked : List Nat} {pieces : List (Int × List UInt8)}
    (read : Read s₀ s f asked pieces) (ns : List Nat)
    (small : ∀ n ∈ ns, (s₀.vol.inode (s₀.file f).ip).data.length + n < 2 ^ 32) :
    ∃ s' more, s.readRun f ns = .ok (s', more) ∧ Read s₀ s' f (asked ++ ns) (pieces ++ more) := by
  -- induction on the calls, the invariant carried call by call
  induction ns generalizing s asked pieces with
  | nil => exact ⟨s, [], rfl, by simpa using read⟩
  | cons n rest inductionHypothesis =>
      obtain ⟨s₁, r, bytes, called, read₁⟩ := read.fileread (small n (List.mem_cons_self ..))
      obtain ⟨s₂, more, ran, read₂⟩ :=
        inductionHypothesis read₁ (fun m member => small m (List.mem_cons_of_mem _ member))
      refine ⟨s₂, (r, bytes) :: more, ?_, by simpa using read₂⟩
      simp [readRun, called, ran]

end Sys

/-- Any interleaving of filewrite turns through one shared file, with free
blocks on the disk for the file to reach the end of all the writes, writes
each chunk at the offset the turn before left and advances the offset past
it: the file's bytes become the old ones up to the first offset, the chunks
in the order they ran, then the old bytes after them, so the size is the
larger of the old size and the end of the last chunk, the blocks the file
gained are taken off the free ones, and each writer's chunks, in its order,
are the bytes it has written.  A turn whose chunk needs more blocks than are
free panics in balloc.  Any order of fileread calls through one shared file
returns consecutive pieces of the file from the first offset, as many bytes
as were asked for and the file held. -/
theorem shared_offset_writes_and_reads {ι : Type} [DecidableEq ι] [Fintype ι] :
    (∀ (w : Writers ι) (f : Fin nFile), w.sys.OnInode f →
      (w.sys.file f).off + Writers.total w.pending ≤ maxFile * bSize →
      w.sys.Room f ((w.sys.file f).off + Writers.total w.pending) → ∀ schedule : List ι,
      ∃ w' chunks, w.run f schedule = .ok (w', chunks) ∧
        (w'.sys.file f).ip = (w.sys.file f).ip ∧
        (w'.sys.file f).off = (w.sys.file f).off + (chunks.flatMap Prod.snd).length ∧
        (w'.sys.vol.inode (w.sys.file f).ip).data =
          (w.sys.vol.inode (w.sys.file f).ip).data.take (w.sys.file f).off ++ chunks.flatMap Prod.snd ++
            (w.sys.vol.inode (w.sys.file f).ip).data.drop
              ((w.sys.file f).off + (chunks.flatMap Prod.snd).length) ∧
        (w'.sys.vol.inode (w.sys.file f).ip).data.length =
          max (w.sys.vol.inode (w.sys.file f).ip).data.length
            ((w.sys.file f).off + (chunks.flatMap Prod.snd).length) ∧
        w'.sys.vol.free + blocksFor (w'.sys.vol.inode (w.sys.file f).ip).data.length =
          w.sys.vol.free + blocksFor (w.sys.vol.inode (w.sys.file f).ip).data.length ∧
        ∀ p, Writers.chunksOf chunks p ++ w'.pending p = w.pending p) ∧
    (∀ (w : Writers ι) (f : Fin nFile) (p : ι) (rest : List ι), w.sys.OnInode f →
      (w.sys.file f).off + ((w.pending p).take maxWrite).length ≤ maxFile * bSize →
      ¬ w.sys.Room f ((w.sys.file f).off + ((w.pending p).take maxWrite).length) →
      w.run f (p :: rest) = .error (.panic "balloc: out of blocks")) ∧
    (∀ (s : Sys) (f : Fin nFile), s.OnInode f → (s.file f).readable = true → (s.file f).type = .inode →
      ∀ ns : List Nat, (∀ n ∈ ns, (s.vol.inode (s.file f).ip).data.length + n < 2 ^ 32) →
      ∃ s' pieces, s.readRun f ns = .ok (s', pieces) ∧
        (s'.vol.inode (s.file f).ip).data = (s.vol.inode (s.file f).ip).data ∧
        (s'.file f).off = (s.file f).off + (pieces.flatMap Prod.snd).length ∧
        pieces.flatMap Prod.snd =
          ((s.vol.inode (s.file f).ip).data.drop (s.file f).off).take (pieces.flatMap Prod.snd).length ∧
        (pieces.flatMap Prod.snd).length =
          min ns.sum ((s.vol.inode (s.file f).ip).data.length - (s.file f).off) ∧
        ∀ piece ∈ pieces, piece.1 = piece.2.length) := by
  refine ⟨?writers, ?short, ?readers⟩
  case writers =>
    intro w f on room blocks schedule
    obtain ⟨w', chunks, ran, written⟩ := (Writers.Written.start on room blocks).run on schedule
    rw [List.nil_append] at written
    refine ⟨w', chunks, ran, written.ip, written.off, written.data, ?_, written.free, written.own⟩
    rw [written.data, Splice.length_splice on.inside]
  case short =>
    intro w f p rest on fits short
    simp [Writers.run, Writers.turn_of_short on fits short]
  case readers =>
    intro s f on readable isInode ns small
    obtain ⟨s', pieces, ran, read⟩ := (Sys.Read.start on readable isInode).run ns small
    rw [List.nil_append, List.nil_append] at read
    exact ⟨s', pieces, ran, read.data, read.off, read.bytes, read.count, read.returned⟩

namespace World

/-- Descriptor 0. -/
def fd₀ : Fin nOFile := ⟨0, by decide⟩

/-- init opens /README for reading and writing. -/
def openReadmeRun : List (Unit × Call Unit) := [((), .sysOpen readmePath oRdwr)]

/-- A file longer than the writes keeps its size: on the image holding
README, "hi", init opens it with `O_RDWR` at offset 0, and a filewrite turn
of "x" through it leaves README "xi", of 2 bytes, not the offset plus the
1 byte written. -/
theorem write_inside_file_keeps_size :
    ∃ w f, (boot [(Vol.readme, [104, 105])] ()).runCalls openReadmeRun = some (w, [0]) ∧ Reachable w ∧
      (∃ q, w.proc () = some q ∧ q.ofile fd₀ = some f) ∧ (w.sys.file f).off = 0 ∧
      ∃ w' chunks, (⟨w.sys, fun _ => [120]⟩ : Writers Unit).run f [()] = .ok (w', chunks) ∧
        (chunks.flatMap Prod.snd).length = 1 ∧ (w'.sys.vol.inode (w.sys.file f).ip).data = [120, 105] ∧
        (w'.sys.vol.inode (w.sys.file f).ip).data.length ≠ (w.sys.file f).off + (chunks.flatMap Prod.snd).length := by
  have summary : ((boot [(Vol.readme, [104, 105])] ()).runCalls openReadmeRun).map (fun ((w : World Unit), rs) =>
      decide (rs = [0]) && (w.proc ()).any fun (q : Proc) => (q.ofile fd₀).any fun f =>
        decide ((w.sys.file f).off = 0) &&
        ((({ sys := w.sys, pending := fun _ => [120] } : Writers Unit).run f [()]).toOption.any fun (w', chunks) =>
          decide ((chunks.flatMap Prod.snd).length = 1 ∧ (w'.sys.vol.inode (w.sys.file f).ip).data = [120, 105]))) =
      some true := by
    decide +kernel
  obtain ⟨⟨w, rs⟩, ran, seen⟩ := Option.map_eq_some_iff.mp summary
  simp only [Bool.and_eq_true, decide_eq_true_iff, Option.any_eq_true] at seen
  obtain ⟨rfl, q, alive, f, opened, atStart, ⟨w', chunks⟩, ran', oneByte, bytes⟩ := seen
  refine ⟨w, f, ran, (reachable_boot _ ()).run (run_of_runCalls ran), ⟨q, alive, opened⟩, atStart,
    w', chunks, Fallible.eq_ok_of_toOption ran', oneByte, bytes, ?_⟩
  rw [bytes, atStart, oneByte]
  decide

/-- README with no free block left. -/
def fullDisk (s : Sys) : Sys := { s with vol := { s.vol with free := 0 } }

/-- The shared-offset theorem at README opened for reading and writing: one
writer's "x", reads of 1 and 5 bytes, and, with no free block left, a writer
of 600 bytes, which needs a second block. -/
theorem shared_offset_readme :
    ∃ (w : World Unit) (f : Fin nFile), (boot [(Vol.readme, [104, 105])] ()).runCalls openReadmeRun = some (w, [0]) ∧
      w.sys.OnInode f ∧ (w.sys.file f).off + Writers.total (fun _ : Unit => [(120 : UInt8)]) ≤ maxFile * bSize ∧
      w.sys.Room f ((w.sys.file f).off + Writers.total (fun _ : Unit => [(120 : UInt8)])) ∧
      (w.sys.file f).readable = true ∧ (w.sys.file f).type = .inode ∧
      (∃ w' chunks, (⟨w.sys, fun _ => [120]⟩ : Writers Unit).run f [()] = .ok (w', chunks) ∧
        (w'.sys.file f).off = (w.sys.file f).off + (chunks.flatMap Prod.snd).length) ∧
      (⟨fullDisk w.sys, fun _ => List.replicate 600 0⟩ : Writers Unit).run f [()] =
        .error (.panic "balloc: out of blocks") ∧
      ∃ s' pieces, w.sys.readRun f [1, 5] = .ok (s', pieces) ∧
        (pieces.flatMap Prod.snd).length =
          min [1, 5].sum ((w.sys.vol.inode (w.sys.file f).ip).data.length - (w.sys.file f).off) := by
  have summary : ((boot [(Vol.readme, [104, 105])] ()).runCalls openReadmeRun).map (fun ((w : World Unit), rs) =>
      decide (rs = [0]) && (w.proc ()).any fun (q : Proc) => (q.ofile fd₀).any fun f =>
        decide (0 < (w.sys.vol.slot (w.sys.file f).ip).ref ∧ (w.sys.vol.slot (w.sys.file f).ip).locked = false ∧
          (w.sys.vol.inode (w.sys.file f).ip).type ≠ 0 ∧ (w.sys.vol.inode (w.sys.file f).ip).type ≠ tDev ∧
          (w.sys.file f).off ≤ (w.sys.vol.inode (w.sys.file f).ip).data.length ∧
          (w.sys.file f).off + Writers.total (fun _ : Unit => [(120 : UInt8)]) ≤ maxFile * bSize ∧
          w.sys.Room f ((w.sys.file f).off + Writers.total (fun _ : Unit => [(120 : UInt8)])) ∧
          (w.sys.file f).readable = true ∧ (w.sys.file f).type = .inode ∧
          (w.sys.vol.inode (w.sys.file f).ip).data.length + 5 < 2 ^ 32 ∧
          (w.sys.file f).off + ((List.replicate 600 (0 : UInt8)).take maxWrite).length ≤ maxFile * bSize ∧
          ¬ (fullDisk w.sys).Room f ((w.sys.file f).off + ((List.replicate 600 (0 : UInt8)).take maxWrite).length))) =
      some true := by
    decide +kernel
  obtain ⟨⟨w, rs⟩, ran, seen⟩ := Option.map_eq_some_iff.mp summary
  simp only [Bool.and_eq_true, decide_eq_true_iff, Option.any_eq_true] at seen
  obtain ⟨rfl, q, alive, f, opened, used, unlocked, typed, notDev, inside, room, blocks, readable, isInode, small,
    fits, short⟩ := seen
  have on : w.sys.OnInode f := ⟨used, unlocked, typed, notDev, inside⟩
  obtain ⟨w', chunks, wrote, -, off, -⟩ :=
    (shared_offset_writes_and_reads (ι := Unit)).1 ⟨w.sys, fun _ => [120]⟩ f on room blocks [()]
  -- emptying the free blocks leaves the file open on its inode as it was
  have onFull : (fullDisk w.sys).OnInode f := ⟨used, unlocked, typed, notDev, inside⟩
  have panicked := (shared_offset_writes_and_reads (ι := Unit)).2.1 ⟨fullDisk w.sys, fun _ => List.replicate 600 0⟩
    f () [] onFull fits short
  obtain ⟨s', pieces, read, -, -, -, count, -⟩ :=
    (shared_offset_writes_and_reads (ι := Unit)).2.2 w.sys f on readable isInode [1, 5]
      (by intro n member; simp only [List.mem_cons, List.not_mem_nil, or_false] at member; omega)
  exact ⟨w, f, ran, on, room, blocks, readable, isInode, ⟨w', chunks, wrote, off⟩, panicked, s', pieces, read, count⟩

end World

end Fs
end Xv6

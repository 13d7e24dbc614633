import FileMover.Model.Errno
import Mathlib.Logic.Function.Basic

/-!
# The filesystem as the program sees it

The program reaches the disk through directory descriptors and plain entry
names, so a filesystem is a map from *slots* (a directory and a name in it) to
inodes. Two slots that hold the same inode are hard links of one another. The
paths that the program opens as roots resolve to directories; nothing it does
changes that resolution, because the entries it moves are files.

Only the namespace is modelled: `EEXIST`, `ENOENT` and the directory errors
follow from it. Everything else that can go wrong (`EXDEV`, `EACCES`, `EIO`,
`ENOSPC`, ...) reaches a call as an injected fault.
-/

namespace FileMover

abbrev Dir := Nat

@[ext] structure Inode where
  dev : Nat
  ino : Nat
deriving DecidableEq, Repr

/-- The `S_IFMT` part of `st_mode`. -/
inductive FileType
  | reg
  | dir
  | lnk
  | fifo
  | sock
  | blk
  | chr
  | other
deriving DecidableEq, Repr

structure Slot where
  dir : Dir
  name : Bytes
deriving DecidableEq, Repr

structure Filesystem where
  /-- What opening this path with `O_DIRECTORY | O_NOFOLLOW` yields. -/
  root : Bytes → Option Dir
  entry : Slot → Option Inode
  type : Inode → FileType
  /-- A directory inode without entries, which a directory rename may replace. -/
  emptyDir : Inode → Bool

namespace Filesystem

def put (fs : Filesystem) (slot : Slot) (inode : Inode) : Filesystem :=
  { fs with entry := Function.update fs.entry slot (some inode) }

def drop (fs : Filesystem) (slot : Slot) : Filesystem :=
  { fs with entry := Function.update fs.entry slot none }

/-- `renameat2(RENAME_NOREPLACE)`. -/
def renameNoReplace (fs : Filesystem) (source target : Slot) :
    Except Errno Filesystem :=
  match fs.entry source with
  | none => .error ENOENT
  | some inode =>
      match fs.entry target with
      | some _ => .error EEXIST
      | none => .ok ((fs.drop source).put target inode)

/-- `linkat` with flags 0. -/
def link (fs : Filesystem) (source target : Slot) : Except Errno Filesystem :=
  match fs.entry source with
  | none => .error ENOENT
  | some inode =>
      if fs.type inode = .dir then .error EPERM
      else match fs.entry target with
        | some _ => .error EEXIST
        | none => .ok (fs.put target inode)

/-- `unlinkat` with flags 0. -/
def unlink (fs : Filesystem) (slot : Slot) : Except Errno Filesystem :=
  match fs.entry slot with
  | none => .error ENOENT
  | some inode =>
      if fs.type inode = .dir then .error EISDIR else .ok (fs.drop slot)

/-- `renameat`: replaces the target. Renaming one hard link onto another of
the same inode does nothing and succeeds. -/
def rename (fs : Filesystem) (source target : Slot) :
    Except Errno Filesystem :=
  match fs.entry source with
  | none => .error ENOENT
  | some inode =>
      match fs.entry target with
      | none => .ok ((fs.drop source).put target inode)
      | some old =>
          if old = inode then .ok fs
          else if fs.type inode = .dir ∧ fs.type old ≠ .dir then .error ENOTDIR
          else if fs.type inode ≠ .dir ∧ fs.type old = .dir then .error EISDIR
          else if fs.type old = .dir ∧ fs.emptyDir old = false then
            .error ENOTEMPTY
          else .ok ((fs.drop source).put target inode)

variable {fs fs' : Filesystem} {slot other source target : Slot}
  {inode : Inode}

@[simp] theorem entry_put_self :
    (fs.put slot inode).entry slot = some inode := by
  simp [put]

theorem entry_put_ne (h : other ≠ slot) :
    (fs.put slot inode).entry other = fs.entry other := by
  simp [put, h]

@[simp] theorem entry_drop_self : (fs.drop slot).entry slot = none := by
  simp [drop]

theorem entry_drop_ne (h : other ≠ slot) :
    (fs.drop slot).entry other = fs.entry other := by
  simp [drop, h]

@[simp] theorem root_put : (fs.put slot inode).root = fs.root := rfl
@[simp] theorem root_drop : (fs.drop slot).root = fs.root := rfl
@[simp] theorem type_put : (fs.put slot inode).type = fs.type := rfl
@[simp] theorem type_drop : (fs.drop slot).type = fs.type := rfl

theorem drop_put_comm (h : slot ≠ other) :
    (fs.put other inode).drop slot = (fs.drop slot).put other inode := by
  simp only [put, drop]
  rw [Function.update_comm h.symm]

/-! ## What a successful call does

Each call is described once; later proofs use these and do not unfold the
calls. -/

theorem renameNoReplace_ok (h : fs.renameNoReplace source target = .ok fs') :
    ∃ inode, fs.entry source = some inode ∧ fs.entry target = none ∧
      fs' = (fs.drop source).put target inode := by
  unfold renameNoReplace at h
  split at h
  · cases h
  · rename_i inode hs
    split at h
    · cases h
    · rename_i ht
      cases h
      exact ⟨inode, hs, ht, rfl⟩

theorem link_ok (h : fs.link source target = .ok fs') :
    ∃ inode, fs.entry source = some inode ∧ fs.entry target = none ∧
      fs' = fs.put target inode := by
  unfold link at h
  split at h
  · cases h
  · rename_i inode hs
    split at h
    · cases h
    · split at h
      · cases h
      · rename_i ht
        cases h
        exact ⟨inode, hs, ht, rfl⟩

theorem unlink_ok (h : fs.unlink slot = .ok fs') :
    ∃ inode, fs.entry slot = some inode ∧ fs' = fs.drop slot := by
  unfold unlink at h
  split at h
  · cases h
  · rename_i inode hs
    split at h
    · cases h
    · cases h
      exact ⟨inode, hs, rfl⟩

/-- A rename either moved the entry, or found the target to be another link of
the same inode and left everything in place. -/
theorem rename_ok (h : fs.rename source target = .ok fs') :
    ∃ inode, fs.entry source = some inode ∧
      ((fs.entry target = some inode ∧ fs' = fs) ∨
        (fs.entry target ≠ some inode ∧
          fs' = (fs.drop source).put target inode)) := by
  unfold rename at h
  split at h
  · cases h
  · rename_i inode hs
    refine ⟨inode, hs, ?_⟩
    split at h
    · rename_i ht
      cases h
      exact Or.inr ⟨by simp [ht], rfl⟩
    · rename_i old ht
      split at h
      · rename_i heq
        cases h
        exact Or.inl ⟨by rw [ht, heq], rfl⟩
      · rename_i hne
        have hdiff : fs.entry target ≠ some inode := by
          rw [ht]
          exact fun heq => hne (Option.some.inj heq)
        split at h
        · cases h
        · split at h
          · cases h
          · split at h
            · cases h
            · cases h
              exact Or.inr ⟨hdiff, rfl⟩

end Filesystem

end FileMover

import FileMover.Model.Calls

/-!
# The fd-relative filesystem layer

`fsops.cpp`. Every function takes a directory descriptor and a plain entry
name; a name that is not plain is refused before any call is made. A function
that sets its `error` parameter and returns `false` is one that returns
`Except.error` here, with the same text.
-/

namespace FileMover

open Framework

def errnoMessage (what : Bytes) (err : Errno) : Bytes :=
  lit "fsops: " ++ what ++ lit ": " ++ strerror err

/-- `'name'`, as the messages quote it. -/
def quoted (name : Bytes) : Bytes := lit "'" ++ name ++ lit "'"

inductive EntryKind
  | missing
  | regular
  | directory
  | symlink
  | fifo
  | socket
  | blockDevice
  | charDevice
  | unknown
deriving DecidableEq, Repr

def EntryKind.toToken : EntryKind → Bytes
  | .missing => lit "MISSING"
  | .regular => lit "REGULAR"
  | .directory => lit "DIRECTORY"
  | .symlink => lit "SYMLINK"
  | .fifo => lit "FIFO"
  | .socket => lit "SOCKET"
  | .blockDevice => lit "BLOCK_DEVICE"
  | .charDevice => lit "CHAR_DEVICE"
  | .unknown => lit "UNKNOWN"

def kindFromMode : FileType → EntryKind
  | .reg => .regular
  | .dir => .directory
  | .lnk => .symlink
  | .fifo => .fifo
  | .sock => .socket
  | .blk => .blockDevice
  | .chr => .charDevice
  | .other => .unknown

/-- `FileIdentity`; a missing entry keeps the zeros of the constructor. -/
structure FileIdentity where
  dev : Nat
  ino : Nat
  kind : EntryKind
deriving DecidableEq, Repr

namespace FileIdentity

def missing : FileIdentity := ⟨0, 0, .missing⟩

def ofStat (st : Stat) : FileIdentity :=
  ⟨st.inode.dev, st.inode.ino, kindFromMode st.type⟩

def sameObjectAs (a b : FileIdentity) : Bool :=
  a.dev = b.dev && a.ino = b.ino && a.kind = b.kind

end FileIdentity

/-! ## Names and paths -/

def isPlainName (name : Bytes) : Bool :=
  if name = [] ∨ name = lit "." ∨ name = lit ".." then false
  else !name.contains slash && !name.contains 0

def badName (name : Bytes) : Bytes :=
  lit "fsops: " ++ quoted name ++
    lit (" is not a plain entry name; this layer takes names relative " ++
      "to a directory descriptor, never paths (L2-SEC-001)")

/-- `reject_bad_name`. -/
def rejectBadName (name : Bytes) : Except Bytes Unit :=
  if isPlainName name then .ok () else .error (badName name)

/-- The component scan of `validate_external_path`: `component` is what has
been read since the last slash. -/
def hasDotDot (component : Bytes) : Bytes → Bool
  | [] => component = lit ".."
  | b :: rest =>
      if b = slash then component = lit ".." || hasDotDot [] rest
      else hasDotDot (component ++ [b]) rest

def isControl (b : UInt8) : Bool := b < 0x20 || b = 0x7F

/-- `std::hex`. -/
def hex (n : Nat) : Bytes :=
  (Nat.toDigits 16 n).map fun c => UInt8.ofNat c.toNat

def validateExternalPath (path : Bytes) : Except Bytes Unit :=
  if path = [] then .error (lit "path is empty")
  else if path.head? ≠ some slash then
    .error (lit "path " ++ quoted path ++ lit " is not absolute")
  else
    match path.findIdx? isControl with
    | some i =>
        .error (lit "path contains a control character (0x" ++
          hex (path.getD i 0).toNat ++ lit ") at offset " ++ decimal i)
    | none =>
        if hasDotDot [] path then
          .error (lit "path " ++ quoted path ++ lit " contains a '..' component")
        else .ok ()

/-! ## Classification and opening -/

def openRoot (site : Site) (path : Bytes) : Prog (Except Bytes Dir) := do
  match ← ask site (.openRoot path) with
  | .ok dir => return .ok dir
  | .error e =>
      return .error
        (errnoMessage (lit "cannot open root directory " ++ quoted path) e)

/-- Absence is an answer, not a failure. -/
def classify (site : Site) (dir : Dir) (name : Bytes) :
    Prog (Except Bytes FileIdentity) :=
  match rejectBadName name with
  | .error message => return .error message
  | .ok () => do
      match ← ask site (.fstatat ⟨dir, name⟩) with
      | .ok st => return .ok (FileIdentity.ofStat st)
      | .error e =>
          if e = ENOENT then return .ok FileIdentity.missing
          else return .error (errnoMessage (lit "cannot stat " ++ quoted name) e)

/-- `open_regular`. The descriptor it yields is closed unread by its only
caller, so only the verdict is returned. -/
def openRegular (dir : Dir) (name : Bytes) (expected : FileIdentity) :
    Prog (Except Bytes Unit) :=
  match rejectBadName name with
  | .error message => return .error message
  | .ok () => do
      if expected.kind ≠ .regular then
        return .error (lit "fsops: refusing to open " ++ quoted name ++
          lit ": it is a " ++ expected.kind.toToken ++ lit ", not a regular file")
      match ← ask .sourceOpen (.openat ⟨dir, name⟩) with
      | .error e =>
          if e = ELOOP then
            return .error (lit "fsops: refusing to open " ++ quoted name ++
              lit ": it is a symbolic link (L2-SEC-003)")
          return .error (errnoMessage (lit "cannot open " ++ quoted name) e)
      | .ok fd =>
          match ← ask .sourceFstat (.fstat fd) with
          | .error e =>
              return .error
                (errnoMessage (lit "cannot fstat opened " ++ quoted name) e)
          | .ok st =>
              let actual := FileIdentity.ofStat st
              if actual.sameObjectAs expected then return .ok ()
              return .error (lit "fsops: " ++ quoted name ++
                lit " changed between classification and open" ++
                lit " (expected dev=" ++ decimal expected.dev ++
                lit " ino=" ++ decimal expected.ino ++ lit " " ++
                expected.kind.toToken ++ lit ", found dev=" ++
                decimal actual.dev ++ lit " ino=" ++ decimal actual.ino ++
                lit " " ++ actual.kind.toToken ++ lit "); aborting (L2-SEC-002)")

theorem kindFromMode_ne_missing (t : FileType) : kindFromMode t ≠ .missing := by
  cases t <;> decide

theorem sameObjectAs_self (i : FileIdentity) : i.sameObjectAs i = true := by
  simp [FileIdentity.sameObjectAs]

theorem sameObjectAs_iff {w : World} {a b : Inode} :
    (FileIdentity.ofStat (w.stat a)).sameObjectAs (FileIdentity.ofStat (w.stat b)) = true ↔
      a = b := by
  constructor
  · intro h
    rcases a with ⟨dev, ino⟩
    rcases b with ⟨dev', ino'⟩
    simp only [FileIdentity.sameObjectAs, Bool.and_eq_true] at h
    obtain ⟨⟨hdev, hino⟩, _⟩ := h
    cases of_decide_eq_true hdev
    cases of_decide_eq_true hino
    rfl
  · rintro rfl
    exact sameObjectAs_self _

theorem rejectBadName_plain {name : Bytes} (plain : isPlainName name = true) :
    rejectBadName name = .ok () := by
  simp [rejectBadName, plain]

theorem rejectBadName_bad {name : Bytes} (bad : isPlainName name = false) :
    rejectBadName name = .error (badName name) := by
  simp [rejectBadName, bad]

theorem classify_bad {site : Site} {dir : Dir} {name : Bytes}
    (bad : isPlainName name = false) :
    classify site dir name = .pure (.error (badName name)) := by
  simp [classify, rejectBadName, bad]

/-- How `classify` reads a reply. -/
def identify (name : Bytes) : Except Fault Stat → Except Bytes FileIdentity
  | .ok st => .ok (FileIdentity.ofStat st)
  | .error e =>
      if e = ENOENT then .ok FileIdentity.missing
      else .error (errnoMessage (lit "cannot stat " ++ quoted name) e)

theorem classify_plain {site : Site} {dir : Dir} {name : Bytes}
    (plain : isPlainName name = true) :
    classify site dir name =
      .call ⟨site, .fstatat ⟨dir, name⟩⟩ (fun reply => .pure (identify name reply)) := by
  simp only [classify, rejectBadName, plain, if_true]
  change Program.call _ _ = Program.call _ _
  congr 1
  funext reply
  cases reply with
  | ok st => rfl
  | error e =>
      by_cases he : e = ENOENT
      · simp [identify, he]
      · simp [identify, he]

/-! ## Moving -/

inductive MoveStrategy
  | renameNoReplace
  | linkThenUnlink
deriving DecidableEq, Repr

def arrow (source target : Bytes) : Bytes :=
  quoted source ++ lit " -> " ++ quoted target

/-- `move_within`. The pair of the second strategy is not atomic together. -/
def moveWithin (fromDir : Dir) (fromName : Bytes) (toDir : Dir)
    (toName : Bytes) (strategy : MoveStrategy) : Prog (Except Bytes Unit) :=
  match rejectBadName fromName, rejectBadName toName with
  | .error message, _ => return .error message
  | .ok (), .error message => return .error message
  | .ok (), .ok () =>
      match strategy with
      | .renameNoReplace => do
          match ← ask .commitRename
              (.renameat2 ⟨fromDir, fromName⟩ ⟨toDir, toName⟩) with
          | .ok () => return .ok ()
          | .error e =>
              return .error (errnoMessage
                (lit "renameat2(RENAME_NOREPLACE) " ++ arrow fromName toName) e)
      | .linkThenUnlink => do
          match ← ask .commitLink
              (.linkat ⟨fromDir, fromName⟩ ⟨toDir, toName⟩) with
          | .error e =>
              return .error
                (errnoMessage (lit "linkat " ++ arrow fromName toName) e)
          | .ok () =>
              match ← ask .commitUnlink (.unlinkat ⟨fromDir, fromName⟩) with
              | .ok () => return .ok ()
              | .error e =>
                  return .error (errnoMessage
                    (lit "linkat succeeded but unlinkat of " ++ quoted fromName ++
                      lit " failed; both names now reference one inode") e)

inductive MoveState
  | notStarted
  | interrupted
  | collision
  | completed
  | bothMissing
deriving DecidableEq, Repr

def classifyMoveState (fromDir : Dir) (fromName : Bytes) (toDir : Dir)
    (toName : Bytes) : Prog (Except Bytes MoveState) := do
  match ← classify .fromProbe fromDir fromName with
  | .error message => return .error message
  | .ok source =>
      match ← classify .toProbe toDir toName with
      | .error message => return .error message
      | .ok target =>
          if source.kind ≠ .missing ∧ target.kind ≠ .missing then
            return .ok
              (if source.sameObjectAs target then .interrupted else .collision)
          else if source.kind ≠ .missing then return .ok .notStarted
          else if target.kind ≠ .missing then return .ok .completed
          else return .ok .bothMissing

/-- `publish`: the name is given with `renameat`, which replaces. -/
def publish (dir : Dir) (tempName finalName : Bytes) :
    Prog (Except Bytes Unit) :=
  match rejectBadName tempName, rejectBadName finalName with
  | .error message, _ => return .error message
  | .ok (), .error message => return .error message
  | .ok (), .ok () => do
      match ← ask .publishOpen (.openat ⟨dir, tempName⟩) with
      | .error e =>
          return .error (errnoMessage
            (lit "cannot open " ++ quoted tempName ++ lit " to fsync") e)
      | .ok fd =>
          match ← ask .publishFsync (.fsync fd) with
          | .error e =>
              return .error (errnoMessage (lit "fsync of " ++ quoted tempName) e)
          | .ok () =>
              match ← ask .publishRename
                  (.renameat ⟨dir, tempName⟩ ⟨dir, finalName⟩) with
              | .error e =>
                  return .error (errnoMessage (lit "publishing " ++
                    quoted tempName ++ lit " as " ++ quoted finalName) e)
              | .ok () =>
                  match ← ask .publishDirFsync (.fsyncDir dir) with
                  | .ok () => return .ok ()
                  | .error e =>
                      return .error
                        (errnoMessage (lit "fsync of destination directory") e)

/-! ## Footprints

The calls that each function makes, whatever the replies. -/

section Footprints
variable {allowed : Call → Prop} {site : Site} {dir : Dir} {name : Bytes}

theorem uses_classify (probe : allowed ⟨site, .fstatat ⟨dir, name⟩⟩) :
    (classify site dir name).Uses allowed := by
  cases hplain : isPlainName name with
  | false =>
      rw [classify_bad hplain]
      trivial
  | true =>
      rw [classify_plain hplain]
      exact ⟨probe, fun _ => trivial⟩

theorem uses_openRoot {path : Bytes} (opens : allowed ⟨site, .openRoot path⟩) :
    (openRoot site path).Uses allowed := by
  refine ⟨opens, fun reply => ?_⟩
  cases reply with
  | error e => trivial
  | ok dir => trivial

theorem uses_openRegular {expected : FileIdentity}
    (reads : ∀ site op, op.readOnly = true → op.onStore = false → allowed ⟨site, op⟩) :
    (openRegular dir name expected).Uses allowed := by
  unfold openRegular
  cases hplain : isPlainName name with
  | false =>
      rw [rejectBadName_bad hplain]
      trivial
  | true =>
    rw [rejectBadName_plain hplain]
    change Program.Uses allowed (if expected.kind ≠ .regular then _ else _)
    split
    · trivial
    · refine ⟨reads _ _ rfl rfl, fun opened => ?_⟩
      cases opened with
      | error e =>
          change Program.Uses allowed (if e = ELOOP then _ else _)
          split <;> trivial
      | ok fd =>
          refine ⟨reads _ _ rfl rfl, fun stated => ?_⟩
          cases stated with
          | error e => trivial
          | ok st =>
              change Program.Uses allowed
                (if (FileIdentity.ofStat st).sameObjectAs expected then _ else _)
              split <;> trivial

theorem uses_moveWithin {fromDir toDir : Dir} {fromName toName : Bytes}
    {strategy : MoveStrategy}
    (renames : allowed
      ⟨.commitRename, .renameat2 ⟨fromDir, fromName⟩ ⟨toDir, toName⟩⟩)
    (links : allowed ⟨.commitLink, .linkat ⟨fromDir, fromName⟩ ⟨toDir, toName⟩⟩)
    (unlinks : allowed ⟨.commitUnlink, .unlinkat ⟨fromDir, fromName⟩⟩) :
    (moveWithin fromDir fromName toDir toName strategy).Uses allowed := by
  unfold moveWithin
  cases hfrom : isPlainName fromName with
  | false =>
      rw [rejectBadName_bad hfrom]
      trivial
  | true =>
    cases hto : isPlainName toName with
    | false =>
        rw [rejectBadName_plain hfrom, rejectBadName_bad hto]
        trivial
    | true =>
      rw [rejectBadName_plain hfrom, rejectBadName_plain hto]
      cases strategy with
      | renameNoReplace =>
          refine ⟨renames, fun reply => ?_⟩
          cases reply with
          | error e => trivial
          | ok _ => trivial
      | linkThenUnlink =>
          refine ⟨links, fun linked => ?_⟩
          cases linked with
          | error e => trivial
          | ok _ =>
              refine ⟨unlinks, fun reply => ?_⟩
              cases reply with
              | error e => trivial
              | ok _ => trivial

theorem uses_classifyMoveState {fromDir toDir : Dir} {fromName toName : Bytes}
    (reads : ∀ site op, op.readOnly = true → op.onStore = false → allowed ⟨site, op⟩) :
    (classifyMoveState fromDir fromName toDir toName).Uses allowed := by
  refine (uses_classify (reads _ _ rfl rfl)).bind fun source => ?_
  cases source with
  | error message => trivial
  | ok source =>
      refine (uses_classify (reads _ _ rfl rfl)).bind fun target => ?_
      cases target with
      | error message => trivial
      | ok target =>
          simp only
          split
          · trivial
          split
          · trivial
          split <;> trivial

theorem uses_publish {tempName finalName : Bytes}
    (reads : ∀ site op, op.readOnly = true → site.early = false → allowed ⟨site, op⟩)
    (renames : allowed
      ⟨.publishRename, .renameat ⟨dir, tempName⟩ ⟨dir, finalName⟩⟩) :
    (publish dir tempName finalName).Uses allowed := by
  unfold publish
  cases htemp : isPlainName tempName with
  | false =>
      rw [rejectBadName_bad htemp]
      trivial
  | true =>
    cases hfinal : isPlainName finalName with
    | false =>
        rw [rejectBadName_plain htemp, rejectBadName_bad hfinal]
        trivial
    | true =>
        rw [rejectBadName_plain htemp, rejectBadName_plain hfinal]
        refine ⟨reads _ _ rfl rfl, fun opened => ?_⟩
        cases opened with
        | error e => trivial
        | ok fd =>
          refine ⟨reads _ _ rfl rfl, fun synced => ?_⟩
          cases synced with
          | error e => trivial
          | ok _ =>
            refine ⟨renames, fun renamed => ?_⟩
            cases renamed with
            | error e => trivial
            | ok _ =>
              refine ⟨reads _ _ rfl rfl, fun synced => ?_⟩
              cases synced with
              | error e => trivial
              | ok _ => trivial

end Footprints

end FileMover

import DufsRam.Lib.Machine
import DufsRam.Listing.Lookup

/-!
# The recursive directory walk

Model of `collect_dir_items` (`listing/walk.rs`, lines 316-678) with `visit_dir_blocking_chunk`
(`rooted_fs.rs`, lines 674-761), while others change the file system. Each system call is one step, and
a change may happen between any two of them. Cancellation, timeouts, memory budgets, names that are not
UTF-8 and errors of the callbacks are one event, which may come at any time.

A directory is read in the order of its entries, and a cursor is the number of entries read. The state
keeps the earlier states of the file system and the one at the end of the traversal loop; the code
reads neither.
-/

namespace DufsRam.Listing

open RootedFs

/-! ## File systems -/

/-- `mtime` and `ctime` in seconds and nanoseconds. -/
structure Times where
  mtime : ℤ × ℤ
  ctime : ℤ × ℤ
deriving DecidableEq

structure FileSystem where
  tree : Tree
  times : FileIdentity → Times

/-- `DirectorySnapshot` (`listing.rs`, lines 1356-1377). -/
structure DirectorySnapshot where
  identity : FileIdentity
  times : Times
deriving DecidableEq

namespace FileSystem

variable (fs : FileSystem)

/-- What `readdir` returns. -/
def entries (d : FileIdentity) : List (String × FileIdentity) :=
  match fs.tree.nodes.get d with
  | some (.directory _ entries) => entries.rows
  | _ => []

/-- `DirectorySnapshot::from_metadata`. -/
def snapshot (i : FileIdentity) : DirectorySnapshot := ⟨i, fs.times i⟩

/-- The directory at a path, reached through directories only. -/
def directoryAt (path : Path) : Option FileIdentity := fs.tree.descend fs.tree.root path

/-- Is the entry `i` of a directory shown? A link that leads out of the root is hidden, and one that
    leads nowhere is shown itself (`rooted_fs.rs`, lines 717-746). -/
def shows (directory : Path) (name : String) (i : FileIdentity) : Bool :=
  match fs.tree.openFromRoot (directory ++ [name]) with
  | .ok _ => true
  | .error .notFound | .error .filesystemLoop => fs.tree.isSymlink i
  | .error _ => false

end FileSystem

/-- The arguments of a walk. `hidden` are the internal names and platform paths, and `includes` is the
    filter, which looks at the path of an entry. -/
structure Config where
  path : Path
  hidden : Path → Bool
  includes : Path → Bool
  maxEntries : ℕ
  maxDepth : ℕ

/-- What a walk returns if nothing changes: the entries below a directory that are shown. -/
inductive Lists (c : Config) (fs : FileSystem) : FileIdentity → Path → Path → Prop
  | entry {d i : FileIdentity} {path : Path} {name : String} (hentry : (name, i) ∈ fs.entries d)
      (hshown : fs.shows path name i = true) (hvisible : c.hidden (path ++ [name]) = false)
      (hincluded : c.includes (path ++ [name]) = true) : Lists c fs d path (path ++ [name])
  | deeper {d i : FileIdentity} {path q : Path} {name : String} (hentry : (name, i) ∈ fs.entries d)
      (hshown : fs.shows path name i = true) (hvisible : c.hidden (path ++ [name]) = false)
      (hdirectory : fs.tree.isDirectory i = true) (h : Lists c fs i (path ++ [name]) q) :
      Lists c fs d path q

/-! ## The walk -/

/-- `VisitedDirectory` (lines 74-78). -/
structure VisitedDirectory where
  path : Path
  snapshot : DirectorySnapshot
deriving DecidableEq

/-- `DirectoryWalkFrame` (lines 67-72). -/
structure DirectoryWalkFrame extends VisitedDirectory where
  cursor : ℕ
  depth : ℕ

/-- An entry that was read: the open directory, the name and the number of entries before it. -/
structure ReadEntry where
  directory : FileIdentity
  name : String
  index : ℕ

/-- The next call. An open file keeps the kind it had when it was opened. -/
inductive Phase where
  | start
  | root (i : FileIdentity) (isDirectory : Bool)
  | top
  | before (i : FileIdentity) (isDirectory : Bool)
  | opening
  | reading (d : FileIdentity) (cursor : ℕ)
  | statting (e : ReadEntry)
  | resolving (e : ReadEntry) (isSymlink : Bool)
  | resolvingNofollow (e : ReadEntry)
  | measuring (e : ReadEntry) (i : FileIdentity) (isDirectory : Bool)
  | after (rest : List VisitedDirectory)
  | afterOpened (v : VisitedDirectory) (rest : List VisitedDirectory) (i : FileIdentity)
      (isDirectory : Bool)
  | done
  | failed

/-- The file system and the state of the walk. -/
structure Walk where
  fs : FileSystem
  past : List FileSystem
  stack : List DirectoryWalkFrame
  visited : List VisitedDirectory
  entriesVisited : ℕ
  items : List Path
  phase : Phase
  finished : Option FileSystem

namespace Walk

variable (c : Config) (w : Walk)

def goto (phase : Phase) : Walk := { w with phase := phase }

/-- `openat2` with `O_PATH`, and what comes after it. -/
def openThen (path : Path) (next : FileIdentity → Bool → Phase) : Walk :=
  match w.fs.tree.openFromRoot path with
  | .ok i => w.goto (next i (w.fs.tree.isDirectory i))
  | .error _ => w.goto .failed

/-- The metadata are those of a directory with the recorded snapshot (lines 295-313). -/
def checkThen (v : VisitedDirectory) (i : FileIdentity) (isDirectory : Bool) (next : Phase) : Walk :=
  w.goto (if isDirectory = true ∧ w.fs.snapshot i = v.snapshot then next else .failed)

def push (frame : DirectoryWalkFrame) : Walk :=
  { w with
    stack := frame :: w.stack
    phase := .top }

/-- `push_directory` (lines 138-212). The stack holds the active directories. -/
def pushDirectory (path : Path) (i : FileIdentity) (depth : ℕ) : Walk :=
  if c.maxDepth < depth ∨ (w.stack.any fun f => decide (f.snapshot.identity = i)) = true then
    w.goto .failed
  else w.push ⟨⟨path, w.fs.snapshot i⟩, 0, depth⟩

/-- `directory.read()` (`rooted_fs.rs`, lines 693-710), and `finish_current` (lines 214-263) at the
    end of the directory. -/
def read (frame : DirectoryWalkFrame) (rest : List DirectoryWalkFrame) (d : FileIdentity)
    (cursor : ℕ) : Walk :=
  match (w.fs.entries d)[cursor]? with
  | none =>
    { w with
      stack := rest
      visited := w.visited ++ [frame.toVisitedDirectory]
      phase := .top }
  | some (name, _) =>
    if c.maxEntries < w.entriesVisited + 1 then w.goto .failed
    else
      { w with
        entriesVisited := w.entriesVisited + 1
        phase := .statting ⟨d, name, cursor⟩ }

/-- `statat` of the entry (`rooted_fs.rs`, lines 711-714). -/
def stat (e : ReadEntry) : Walk :=
  match w.fs.tree.lookup e.directory e.name with
  | some i => w.goto (.resolving e (w.fs.tree.isSymlink i))
  | none => w.goto .failed

/-- `openat2` of the entry (`rooted_fs.rs`, lines 717-746). -/
def resolve (frame : DirectoryWalkFrame) (e : ReadEntry) (isSymlink : Bool) : Walk :=
  match w.fs.tree.openFromRoot (frame.path ++ [e.name]) with
  | .ok i => w.goto (.measuring e i (w.fs.tree.isDirectory i))
  | .error .crossesDevices => w.goto (.reading e.directory (e.index + 1))
  | .error .notFound | .error .filesystemLoop =>
    w.goto (if isSymlink then .resolvingNofollow e else .failed)
  | .error _ => w.goto .failed

/-- The link itself (`rooted_fs.rs`, lines 737-744). -/
def resolveNofollow (frame : DirectoryWalkFrame) (e : ReadEntry) : Walk :=
  match w.fs.tree.openNofollow frame.path e.name with
  | .ok i => w.goto (.measuring e i (w.fs.tree.isDirectory i))
  | .error _ => w.goto .failed

/-- The entry becomes an item if the filter includes it (lines 500-594). -/
def collect (path : Path) : Walk :=
  { w with items := if c.includes path then w.items ++ [path] else w.items }

/-- The visitor (lines 456-600), and the descent into a directory (lines 619-641). -/
def visit (frame : DirectoryWalkFrame) (rest : List DirectoryWalkFrame) (e : ReadEntry)
    (i : FileIdentity) (isDirectory : Bool) : Walk :=
  let path := frame.path ++ [e.name]
  if c.hidden path then w.goto (.reading e.directory (e.index + 1))
  else
    let w := w.collect c path
    if isDirectory then
      let w := { w with stack := { frame with cursor := e.index + 1 } :: rest }
      w.pushDirectory c path i (frame.depth + 1)
    else w.goto (.reading e.directory (e.index + 1))

/-- The next call of the walk. -/
def next : Option Walk :=
  match w.phase, w.stack with
  | .start, _ => some (w.openThen c.path .root)
  | .root i isDirectory, _ =>
    some (if isDirectory then w.pushDirectory c c.path i 0 else w.goto .failed)
  | .top, [] =>
    some { w with
      finished := some w.fs
      phase := .after w.visited }
  | .top, frame :: _ => some (w.openThen frame.path .before)
  | .before i isDirectory, frame :: _ =>
    some (w.checkThen frame.toVisitedDirectory i isDirectory .opening)
  | .opening, frame :: _ =>
    match w.fs.tree.openDirectoryFromRoot frame.path with
    | .ok d => some (w.goto (.reading d frame.cursor))
    | .error _ => some (w.goto .failed)
  | .reading d cursor, frame :: rest => some (w.read c frame rest d cursor)
  | .statting e, _ => some (w.stat e)
  | .resolving e isSymlink, frame :: _ => some (w.resolve frame e isSymlink)
  | .resolvingNofollow e, frame :: _ => some (w.resolveNofollow frame e)
  | .measuring e i isDirectory, frame :: rest => some (w.visit c frame rest e i isDirectory)
  | .after [], _ => some (w.goto .done)
  | .after (v :: rest), _ => some (w.openThen v.path (.afterOpened v rest))
  | .afterOpened v rest i isDirectory, _ => some (w.checkThen v i isDirectory (.after rest))
  | _, _ => none

end Walk

/-- A change by others, an error that may come at any time, or the next call. -/
inductive Event where
  | change (fs : FileSystem)
  | abort
  | next

def Walk.step (c : Config) (w : Walk) : Event → Option Walk
  | .change fs =>
    some { w with
      fs := fs
      past := w.fs :: w.past }
  | .abort => some (w.goto .failed)
  | .next => w.next c

def walkMachine (c : Config) (fs : FileSystem) : Machine Walk Event where
  init := ⟨fs, [], [], [], 0, [], .start, none⟩
  step := Walk.step c

/-! ## Changes -/

/-- What every change keeps. The root is an open directory, and a file that stays linked keeps its
    kind. No symbolic link leads to a directory. A file keeps its entries and times, or gets times it
    never had. -/
structure Change (past : List FileSystem) (fs fs' : FileSystem) : Prop where
  root : fs'.tree.root = fs.tree.root
  noSymlinkedDirectories : fs'.tree.NoSymlinkedDirectories
  kinds : ∀ d name i, fs.tree.lookup d name = some i → fs'.tree.lookup d name = some i →
    fs'.tree.kindOf i = fs.tree.kindOf i
  times : ∀ d, (fs'.entries d = fs.entries d ∧ fs'.times d = fs.times d) ∨
    ∀ old ∈ fs :: past, fs'.times d ≠ old.times d

/-- A symbolic link that stays where it is stays shown or hidden. -/
def LinksKept (fs fs' : FileSystem) : Prop :=
  ∀ path name d i, fs.directoryAt path = some d → fs'.directoryAt path = some d →
    fs.tree.lookup d name = some i → fs'.tree.lookup d name = some i → fs.tree.isSymlink i = true →
    fs'.shows path name i = fs.shows path name i

/-- Every change keeps what `Change` says. -/
def Allowed (w : Walk) (e : Event) : Prop := ∀ fs, e = .change fs → Change w.past w.fs fs

/-- The path of the walk leads to the same directory. -/
def KeepsWalkRoot (c : Config) (w : Walk) (e : Event) : Prop :=
  ∀ fs, e = .change fs → fs.directoryAt c.path = w.fs.directoryAt c.path

def KeepsLinks (w : Walk) (e : Event) : Prop := ∀ fs, e = .change fs → LinksKept w.fs fs

end DufsRam.Listing

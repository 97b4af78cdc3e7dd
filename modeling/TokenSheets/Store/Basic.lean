import TokenSheets.Entries
import TokenSheets.Store.Path

/-!
# Stores: files and directories

A store holds files with their bytes, and directories. There are no links. The working directory is
the root of the whole file system, so that an absolute path means what the same path without its
first slash means. A path is walked name by name; every name but the last must be a directory, and
two points lead one directory up, at the root nowhere.

* `Store.get?`: what is at a location; the observable content of a store;
* `Store.readFile`, `Store.loadText`, `Store.directory`, `Store.isThere`: reading;
* `Store.removeFile`, `Store.removeDirectory`, `Store.writeFile`: one change each, or a fault and no
  change;
* `Store.makeDirectories`: a directory and what is missing above it. What was made before a fault
  stays.
-/

namespace TokenSheets

-- contents are compared byte by byte, also where another instance is in scope
attribute [local instance (2000)] ByteArray.instDecidableEq

/-- The names that lead from the root to a file or directory. -/
abbrev Location := List String

/-- What is at a location. -/
inductive Entry where
  | file (content : ByteArray)
  | directory
deriving DecidableEq, Inhabited

/-- Why something cannot be done with a path. -/
inductive PathFault where
  | notFound
  | notDirectory
  | isDirectory
  | notEmpty
  /-- A file stands where a directory is to be made. -/
  | alreadyThere
  /-- A name or the whole path is too long. -/
  | tooLong
  /-- The path holds a null character. -/
  | nullCharacter
  /-- A directory cannot be removed under a name that is a point. -/
  | invalidArgument
deriving DecidableEq, Repr

/-- The message of a fault, with its number where the system has one. -/
def PathFault.message : PathFault → String
  | .notFound => "No such file or directory (os error 2)"
  | .notDirectory => "Not a directory (os error 20)"
  | .isDirectory => "Is a directory (os error 21)"
  | .notEmpty => "Directory not empty (os error 39)"
  | .alreadyThere => "File exists (os error 17)"
  | .tooLong => "File name too long (os error 36)"
  | .nullCharacter => "file name contained an unexpected NUL byte"
  | .invalidArgument => "Invalid argument (os error 22)"

/-- Why no text can be read from a file. -/
inductive ReadFault where
  | path (fault : PathFault)
  /-- The bytes are no text. -/
  | noText
deriving DecidableEq, Repr

/-- The message of a fault. -/
def ReadFault.message : ReadFault → String
  | .path fault => fault.message
  | .noText => "stream did not contain valid UTF-8"

/-- Files and directories below the root, which is a directory itself. -/
structure Store where
  entries : Entries Location Entry := []
deriving Inhabited

namespace Store

/-- The empty store. -/
def empty : Store := {}

/-- **What is at a location.** -/
def get? (store : Store) (location : Location) : Option Entry :=
  if location = [] then some .directory else store.entries.get? location

/-- The store with something at a location. -/
def put (store : Store) (location : Location) (entry : Entry) : Store :=
  ⟨store.entries.insert location entry⟩

/-- The store with nothing at a location. -/
def remove (store : Store) (location : Location) : Store := ⟨store.entries.erase location⟩

/-- Everything in the directory at a location is at a location with one name more. -/
def isIn (directory location : Location) : Bool :=
  location ≠ [] && location.dropLast = directory

/-- Nothing is in the directory at a location. -/
def isEmptyAt (store : Store) (directory : Location) : Bool :=
  store.entries.keys.all fun location => !isIn directory location

@[simp] theorem get?_root (store : Store) : store.get? [] = some .directory := rfl

theorem get?_put (store : Store) (location other : Location) (entry : Entry)
    (h : other ≠ []) :
    (store.put location entry).get? other =
      if location = other then some entry else store.get? other := by
  simp [get?, put, h, Entries.get?_insert]

theorem get?_remove (store : Store) (location other : Location) (h : other ≠ []) :
    (store.remove location).get? other =
      if location = other then none else store.get? other := by
  simp [get?, remove, h, Entries.get?_erase]

theorem isEmptyAt_iff {store : Store} {directory : Location} :
    store.isEmptyAt directory = true ↔ ∀ name, store.get? (directory ++ [name]) = none := by
  simp only [isEmptyAt, isIn, List.all_eq_true, Bool.not_eq_true', Bool.and_eq_false_iff,
    decide_eq_false_iff_not, get?, List.append_ne_nil_of_right_ne_nil, ne_eq, reduceCtorEq,
    not_false_eq_true, if_neg, Entries.get?_eq_none_iff]
  constructor
  · intro h name hmem
    rcases h _ hmem with h | h <;> simp at h
  · intro h location hmem
    rcases List.eq_nil_or_concat location with rfl | ⟨front, name, rfl⟩
    · simp
    · right
      rintro rfl
      have := h name
      simp_all

/-! ### Following a path -/

/-- The greatest length of a name, in bytes. -/
def maxNameLength : Nat := 255

/-- The greatest length of a path, in bytes. -/
def maxPathLength : Nat := 4095

/-- One name further from a directory. -/
def enter (store : Store) (location : Location) (name : String) : Except PathFault Location :=
  if name = ".." then .ok location.dropLast
  else if name.utf8ByteSize > maxNameLength then .error .tooLong
  else
    match store.get? (location ++ [name]) with
    | some .directory => .ok (location ++ [name])
    | some (.file _) => .error .notDirectory
    | none => .error .notFound

/-- The directory that names lead to. -/
def walk (store : Store) (location : Location) : List String → Except PathFault Location
  | [] => .ok location
  | name :: rest => (store.enter location name).bind fun location => store.walk location rest

/-- What a path means. -/
inductive Target where
  /-- A directory that is there, named by points or not at all. -/
  | here (location : Location)
  /-- A name in a directory that is there; what is at it is still open. -/
  | child (directory : Location) (name : String)
deriving DecidableEq, Repr

/-- The path can be looked up at all. -/
def check (path : Path) : Except PathFault Unit :=
  if '\x00' ∈ path.text.toList then .error .nullCharacter
  else if path.text.utf8ByteSize > maxPathLength then .error .tooLong
  else if path.text = "" then .error .notFound
  else .ok ()

/-- **What a path means**: all names but the last are followed. -/
def locate (store : Store) (path : Path) : Except PathFault Target := do
  check path
  let names := path.segments
  match names.getLast? with
  | none => return .here []
  | some name =>
    if name = ".." then return .here (← store.walk [] names)
    else
      let directory ← store.walk [] names.dropLast
      if name.utf8ByteSize > maxNameLength then throw .tooLong
      return .child directory name

/-! ### Reading -/

/-- The bytes of a file. -/
def readFile (store : Store) (path : Path) : Except PathFault ByteArray := do
  match ← store.locate path with
  | .here _ => throw .isDirectory
  | .child directory name =>
    match store.get? (directory ++ [name]) with
    | none => throw .notFound
    | some .directory => throw .isDirectory
    | some (.file content) => if path.meansDirectory then throw .notDirectory else return content

/-- The text of a file. -/
def loadText (store : Store) (path : Path) : Except ReadFault String :=
  match store.readFile path with
  | .error fault => .error (.path fault)
  | .ok content =>
    match String.fromUTF8? content with
    | none => .error .noText
    | some text => .ok text

/-- The text of a file, if there is one to be read. -/
def readText (store : Store) (path : Path) : Option String := (store.loadText path).toOption

theorem readText_eq (store : Store) (path : Path) :
    store.readText path =
      match store.readFile path with
      | .ok content => String.fromUTF8? content
      | .error _ => none := by
  unfold readText loadText
  rcases store.readFile path with fault | content
  · rfl
  · rcases h : String.fromUTF8? content with _ | text <;> simp [h, Except.toOption]

/-- The directory that a path means. -/
def directory (store : Store) (path : Path) : Except PathFault Location := do
  match ← store.locate path with
  | .here location => return location
  | .child directory name => store.enter directory name

/-- Something is at the path. -/
def isThere (store : Store) (path : Path) : Bool :=
  (store.readFile path).isOk || (store.directory path).isOk

/-! ### Changing -/

/-- Removes a file. -/
def removeFile (store : Store) (path : Path) : Except PathFault Store := do
  match ← store.locate path with
  | .here _ => throw .isDirectory
  | .child directory name =>
    match store.get? (directory ++ [name]) with
    | none => throw .notFound
    | some .directory => throw .isDirectory
    | some (.file _) =>
      if path.meansDirectory then throw .notDirectory
      else return store.remove (directory ++ [name])

/-- Removes a directory that is empty. -/
def removeDirectory (store : Store) (path : Path) : Except PathFault Store := do
  match ← store.locate path with
  | .here _ => throw (if path.segments = [] then .invalidArgument else .notEmpty)
  | .child directory name =>
    let location ← store.enter directory name
    if path.endsInPoint then throw .invalidArgument
    else if store.isEmptyAt location then return store.remove location
    else throw .notEmpty

/-- Why no file is written under a path that means a directory, over what is found there. -/
def unwritable (path : Path) (found : Option Entry) : PathFault :=
  if path.endsInPoint then if found.isSome then .notDirectory else .notFound else .isDirectory

/-- Writes a file, in place of what it held. -/
def writeFile (store : Store) (path : Path) (content : ByteArray) : Except PathFault Store := do
  match ← store.locate path with
  | .here _ => throw .isDirectory
  | .child directory name =>
    match store.get? (directory ++ [name]) with
    | some .directory => throw .isDirectory
    | found =>
      if path.meansDirectory then throw (unwritable path found)
      else return store.put (directory ++ [name]) (.file content)

/-- The fault of a file where a directory is to be made: it has the name of the last one, or names
are left behind it. -/
def fileInTheWay (rest : List String) : PathFault :=
  if rest = [] then .alreadyThere else .notDirectory

/-- Makes the directories that names lead to, from a directory on. -/
def makeAll (store : Store) (location : Location) : List String → Store × Option PathFault
  | [] => (store, none)
  | name :: rest =>
    match store.enter location name with
    | .ok location => store.makeAll location rest
    | .error .notFound =>
      (store.put (location ++ [name]) .directory).makeAll (location ++ [name]) rest
    | .error .notDirectory => (store, some (fileInTheWay rest))
    | .error fault => (store, some fault)

/-- **Makes a directory** and what is missing above it. A directory that is named with a point
behind it must be there. -/
def makeDirectories (store : Store) (path : Path) : Store × Option PathFault :=
  if path.text = "" then (store, none)
  else
    match check path with
    | .error fault => (store, some fault)
    | .ok () =>
      if path.endsInPoint then
        let (store, fault) := store.makeAll [] path.segments.dropLast
        match fault with
        | some fault => (store, some fault)
        | none =>
          match store.walk [] path.segments with
          | .ok _ => (store, none)
          | .error fault => (store, some fault)
      else store.makeAll [] path.segments

end Store

end TokenSheets

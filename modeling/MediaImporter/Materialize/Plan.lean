import MediaImporter.Catalog.Transaction
import MediaImporter.Store.Staging
import MediaImporter.Lib.PathOrder

/-!
# Planning a browse tree

`build-tree` makes one symbolic link for each live catalog entry, below a browse tree of
its own. It first plans: it reads the catalog, the CAS and the tree, and decides which
links to create or replace, which of its own links are stale, and which directories to
create and to prune. Planning changes nothing.

Paths in the tree are relative to its root; the root itself is the empty path.

## Main definitions

* `DesiredLink`, `Plan`, `plan` — the plan and how it is made.
* `collectOwnedSymlinks` — the links that lead into the CAS.
* `directoriesToCreate`, `directoriesToPrune` — the directories around the links.
-/

namespace MediaImporter

open Utf8 UnixPath PathOrder

/-- The directory of a browse tree, with paths relative to it. -/
abbrev BrowseTree := Disk Name Bytes UInt8

/-- The two roots are canonical absolute paths. -/
structure BuildTreeConfig where
  storeRoot : List Name
  browseTreeRoot : List Name
  hashDigits : ℕ
  dryRun : Bool

def BuildTreeConfig.blobsDir (config : BuildTreeConfig) : List Name :=
  config.storeRoot ++ [blobsName]

structure BuildTreeReport where
  dryRun : Bool
  desiredLinks : ℕ
  linksCreated : ℕ
  linksUnchanged : ℕ
  linksReplaced : ℕ
  staleLinksRemoved : ℕ
  directoriesCreated : ℕ
  directoriesPruned : ℕ
  deriving DecidableEq

structure DesiredLink where
  outputPath : List Name
  targetText : Bytes
  blobHash : BlobHash
  deriving DecidableEq

structure Plan where
  desired : List DesiredLink
  staleOwned : List (List Name)
  directoriesToCreate : List (List Name)
  directoriesToPrune : List (List Name)
  report : BuildTreeReport

/-! ## Reading the tree -/

/-- The root of a browse tree is a directory, or nothing is there yet. -/
def validateBrowseTreeRoot (tree : BrowseTree) : Except String Unit :=
  match tree.tree.lookup [] with
  | some (.symlink _) => .error "browse tree path must be a real directory, not a symlink"
  | some .directory | none => .ok ()
  | some _ => .error "browse tree path exists but is not a directory"

/-- `lstat` of a path below the tree. A name with a zero byte cannot be passed on. -/
def statOutput (tree : BrowseTree) (p : List Name) : Except IoError (Metadata Bytes) :=
  if ∃ name ∈ p, 0 ∈ name then .error .fault else tree.symlinkMetadata p

/-- Path texts are compared by their components. -/
def samePath (a b : Bytes) : Prop := components a = components b

instance (a b : Bytes) : Decidable (samePath a b) := inferInstanceAs (Decidable (_ = _))

/-! ## Desired links -/

def validateCasTarget (store : Store) (hash : BlobHash) (expectedSize : ℕ) :
    Except String Unit :=
  match store.symlinkMetadata (blobPath hash) with
  | .error _ => .error "stat CAS blob"
  | .ok ⟨.file _, len⟩ => Except.ensure (len = expectedSize) "CAS blob size mismatch"
  | .ok _ => .error "CAS blob is not a regular file"

/-- The link for one live entry. -/
def desiredLink (config : BuildTreeConfig) (store : Store) (entry : LiveMaterializationEntry) :
    Except String DesiredLink := do
  let outputPath := outputRelativePath entry.relativePath entry.blobHash config.hashDigits
  validateCasTarget store entry.blobHash entry.blobSizeBytes
  let targetText ← relativeSymlinkTarget (config.browseTreeRoot ++ outputPath.dropLast)
    (config.storeRoot ++ blobPath entry.blobHash)
  return { outputPath, targetText, blobHash := entry.blobHash }

/-- Add the link of an entry to those of the entries before it. -/
def addDesired (config : BuildTreeConfig) (store : Store) (desired : List DesiredLink)
    (entry : LiveMaterializationEntry) : Except String (List DesiredLink) := do
  let link ← desiredLink config store entry
  Except.ensure (∀ existing ∈ desired, existing.outputPath ≠ link.outputPath)
    "hash-suffix collision; rerun with more hash digits, for example --hash-digits 12"
  return desired ++ [link]

/-- The desired links, in the order of their output paths. -/
def desiredByOutput (config : BuildTreeConfig) (store : Store)
    (entries : List LiveMaterializationEntry) : Except String (List DesiredLink) := do
  let desired ← entries.foldlM (addDesired config store) []
  return desired.insertionSort fun a b => a.outputPath ≤ b.outputPath

inductive LinkAction
  | create
  | keep
  | replace
  deriving DecidableEq, Repr

/-- What has to happen at an output path. -/
def linkAction (config : BuildTreeConfig) (tree : BrowseTree) (link : DesiredLink) :
    Except String LinkAction :=
  match statOutput tree link.outputPath with
  | .ok ⟨.symlink target, _⟩ => do
      let inside ← pointsInsideBlobs (config.browseTreeRoot ++ link.outputPath.dropLast) target
        config.blobsDir
      Except.ensure (inside = true) "desired output path is a user-managed symlink blocker"
      return if samePath target link.targetText then .keep else .replace
  | .ok _ => .error "desired output path is blocked by a non-symlink entry"
  | .error .notFound => .ok .create
  | .error _ => .error "stat desired output"

/-! ## Stale links and directories -/

/-- A link that leads into the CAS. -/
def isOwnedSymlink (config : BuildTreeConfig) (tree : BrowseTree) (p : List Name) :
    Except String Bool :=
  match tree.tree.lookup p with
  | some (.symlink target) =>
      pointsInsideBlobs (config.browseTreeRoot ++ p.dropLast) target config.blobsDir
  | _ => .ok false

/-- Walk the tree without following links. -/
def collectOwnedSymlinks (config : BuildTreeConfig) (tree : BrowseTree) :
    Except String (List (List Name)) :=
  if tree.tree.lookup [] = none then .ok []
  else Except.filterOk (isOwnedSymlink config tree) (tree.tree.paths.filter (· ≠ []))

/-- The directory above a desired link has to be created. -/
def isMissingDirectory (tree : BrowseTree) (dir : List Name) : Except String Bool :=
  match statOutput tree dir with
  | .ok ⟨.symlink _, _⟩ => .error "desired parent directory is a symlink blocker"
  | .ok ⟨.directory, _⟩ => .ok false
  | .ok _ => .error "desired parent path is not a directory"
  | .error .notFound => .ok true
  | .error _ => .error "stat desired parent directory"

def directoriesToCreate (tree : BrowseTree) (desired : List DesiredLink) :
    Except String (List (List Name)) := do
  let root := if tree.tree.lookup [] = none then [[]] else []
  let missing ← Except.filterOk (isMissingDirectory tree)
    (desired.flatMap fun link => ancestors link.outputPath)
  return sortPaths (root ++ missing)

/-- Every entry of the directory is a stale link or a directory that will be pruned. A
desired path among the entries and any other entry end the test alike. -/
def wouldBeEmptyAfterCleanup (stale desiredPaths prunable : List (List Name)) :
    List (List Name) → Bool
  | [] => true
  | path :: entries =>
      if path ∈ stale ∨ path ∈ prunable then
        wouldBeEmptyAfterCleanup stale desiredPaths prunable entries
      else if path ∈ desiredPaths then false
      else false

/-- Add a directory to those that will be pruned, if nothing would stay in it. -/
def addPrunable (tree : BrowseTree) (stale desiredPaths prunable : List (List Name))
    (dir : List Name) : List (List Name) :=
  if wouldBeEmptyAfterCleanup stale desiredPaths prunable (tree.tree.children dir) then
    prunable ++ [dir]
  else prunable

/-- The directories above stale links, innermost first, that would be empty. -/
def directoriesToPrune (tree : BrowseTree) (stale desiredPaths : List (List Name)) :
    List (List Name) :=
  (sortPaths (stale.flatMap ancestors)).reverse.foldl (addPrunable tree stale desiredPaths) []

/-! ## The plan -/

/-- The version check of a reader of the catalog. -/
def openForMaterialization (c : Catalog) : Except String Catalog :=
  if c.schema.userVersion = 0 then .error "catalog database is uninitialized"
  else if currentSchemaVersion < c.schema.userVersion then
    .error "catalog schema version is newer than the supported version"
  else if c.schema.userVersion ≠ currentSchemaVersion then
    .error "catalog schema version is unsupported"
  else .ok c

def plan (config : BuildTreeConfig) (c : Catalog) (store : Store) (tree : BrowseTree) :
    Except String Plan := do
  let catalog ← openForMaterialization c
  let entries ← liveMaterializationEntries catalog
  let desired ← desiredByOutput config store entries
  let desiredPaths := desired.map (·.outputPath)
  let owned ← collectOwnedSymlinks config tree
  let actions ← desired.mapM (linkAction config tree)
  let staleOwned := owned.filter (· ∉ desiredPaths)
  let toCreate ← directoriesToCreate tree desired
  let toPrune := directoriesToPrune tree staleOwned desiredPaths
  return {
    desired
    staleOwned
    directoriesToCreate := toCreate
    directoriesToPrune := toPrune
    report := {
      dryRun := config.dryRun
      desiredLinks := desired.length
      linksCreated := actions.count .create
      linksUnchanged := actions.count .keep
      linksReplaced := actions.count .replace
      staleLinksRemoved := staleOwned.length
      directoriesCreated := toCreate.length
      directoriesPruned := toPrune.length } }

end MediaImporter

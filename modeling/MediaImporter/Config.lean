import MediaImporter.Materialize.Plan

/-!
# Accepting the paths of a command

A command is given the paths of the store, the catalog and of a source or a browse tree.
`fromOptions` looks them up in the file system and refuses layouts in which they
overlap. Directories are accepted as the names that lead to them from the root of the
file system; they may not exist yet.

The catalog is at risk where it lies in a directory that a command empties, walks or
cleans up. `catalogApart_iff` says which accepted layouts keep it out of all of them.

## Main definitions

* `PathEnvironment`, `PathEnvironment.resolve` — path texts in a file system with links.
* `ImportConfig.fromOptions`, `GcConfig.fromOptions`, `BuildTreeSettings.fromOptions` —
  the validated configurations.
* `CommandConfig.CatalogApart`, `CommandOptions.KeepsCatalogApart` — where the catalog is.
* `catalogApart_iff` — the accepted layouts that protect the catalog.
-/

namespace MediaImporter

open Utf8 UnixPath

/-! ## Walking along a path text -/

/-- What stands between two separators of a path text. -/
inductive PathStep
  /-- The directory itself. -/
  | stay
  | parent
  | down (name : Name)
  deriving DecidableEq, Repr

inductive PathError
  | notFound
  | notADirectory
  | tooManyLinks
  deriving DecidableEq, Repr

def pathStep? (n : Name) : Option PathStep :=
  if n = [] then none
  else if n = dot then some .stay
  else if n = dotDot then some .parent
  else some (.down n)

/-- The steps of a path text. A trailing separator asks for a directory. -/
def pathSteps (path : Bytes) : List PathStep :=
  let names : List Name := path.splitOn slash
  names.filterMap pathStep? ++ if names.getLast? = some [] then [.stay] else []

/-- The step of a path that is read component by component. -/
def Component.step? : Component → Option PathStep
  | .rootDir => none
  | .curDir => some .stay
  | .parentDir => some .parent
  | .normal name => some (.down name)

/-- The entries below `/`, the directory that relative paths start from, and how many links
a walk follows before it is given up. -/
structure PathEnvironment where
  tree : FileTree Name ℕ Bytes
  currentDir : List Name
  maxLinks : ℕ

namespace PathEnvironment

/-- Walk from a directory. The text of a link is handed to `jump`, with the directory it
starts from and the steps that come after it. -/
def walkFrom (env : PathEnvironment) (follow : Bool)
    (jump : List Name → List PathStep → Except PathError (List Name)) (dir : List Name) :
    List PathStep → Except PathError (List Name)
  | [] => .ok dir
  | step :: rest =>
      if env.tree.lookup dir = some .directory then
        match step with
        | .stay => walkFrom env follow jump dir rest
        | .parent => walkFrom env follow jump dir.dropLast rest
        | .down name => match env.tree.lookup (dir ++ [name]) with
          | some (.symlink target) =>
              if rest = [] ∧ follow = false then .ok (dir ++ [name])
              else if target = [] then .error .notFound
              else jump (if isAbsolute target then [] else dir) (pathSteps target ++ rest)
          | some _ => walkFrom env follow jump (dir ++ [name]) rest
          -- the last name is a place for a new entry
          | none => if rest = [] then .ok (dir ++ [name]) else .error .notFound
      else .error .notADirectory

def walk (env : PathEnvironment) (follow : Bool) :
    ℕ → List Name → List PathStep → Except PathError (List Name)
  | 0 => env.walkFrom follow fun _ _ => .error .tooManyLinks
  | links + 1 => env.walkFrom follow (walk env follow links)

/-- The place a path text leads to, where there need not be an entry. -/
def resolve (env : PathEnvironment) (follow : Bool) (path : Bytes) :
    Except PathError (List Name) :=
  if path = [] then .error .notFound
  else env.walk follow env.maxLinks (if isAbsolute path then [] else env.currentDir)
    (pathSteps path)

def resolveComponents (env : PathEnvironment) (follow : Bool) (path : List Component) :
    Except PathError (List Name) :=
  env.walk follow env.maxLinks (if path.head? = some .rootDir then [] else env.currentDir)
    (path.filterMap Component.step?)

/-- There is an entry at the place. -/
def existing (env : PathEnvironment) (place : Except PathError (List Name)) :
    Except PathError (List Name) := do
  let p ← place
  if (env.tree.lookup p).isSome then return p else throw .notFound

def canonicalize (env : PathEnvironment) (path : Bytes) : Except PathError (List Name) :=
  env.existing (env.resolve true path)

/-- `lstat` of the place. -/
def metadataAt (env : PathEnvironment) (place : Except PathError (List Name)) :
    Except PathError (FileNode ℕ Bytes) := do
  let p ← place
  match env.tree.lookup p with
  | some node => return node
  | none => throw .notFound

def symlinkMetadata (env : PathEnvironment) (path : Bytes) :
    Except PathError (FileNode ℕ Bytes) :=
  env.metadataAt (env.resolve false path)

/-- Where the entry at a place leads: a link to its target, anything else to itself. -/
def linkedFile (env : PathEnvironment) (p : List Name) : Option (List Name) :=
  match env.tree.lookup p with
  | some (.symlink _) => (env.walk true env.maxLinks [] (p.map .down)).toOption
  | _ => some p

/-- There is an entry at the place, and if it is a link, at its target. -/
def pathExists (env : PathEnvironment) (p : List Name) : Bool :=
  match env.linkedFile p with
  | some q => (env.tree.lookup q).isSome
  | none => false

end PathEnvironment

/-! ## Validation -/

/-- The directory that contains a path; a bare relative name lives in `.`. -/
def parentDir (path : Bytes) : Option (List Component) :=
  match (components path).reverse with
  | [] | .rootDir :: _ => none
  | [_] => some [.curDir]
  | _ :: parent => some parent.reverse

def fileName (path : Bytes) : Option Name :=
  match (components path).getLast? with
  | some (.normal name) => some name
  | _ => none

section Validate

variable (env : PathEnvironment)

def validateRealDirectory (metadata : Except PathError (FileNode ℕ Bytes)) (label : String) :
    Except String Unit :=
  match metadata with
  | .error _ => .error ("stat " ++ label)
  | .ok (.symlink _) => .error (label ++ " must be a real directory, not a symlink")
  | .ok .directory => .ok ()
  | .ok _ => .error (label ++ " must be an existing directory")

/-- The file name of a path in the canonical form of its parent directory. -/
def inCanonicalParent (path : Bytes) (noParent badParent noName : String) :
    Except String (List Name) :=
  match parentDir path with
  | none => .error noParent
  | some parent => match env.existing (env.resolveComponents true parent) with
    | .error _ => .error badParent
    | .ok canonicalParent => match fileName path with
      | none => .error noName
      | some name => .ok (canonicalParent ++ [name])

def StoreRoot.validate (path : Bytes) : Except String (List Name) :=
  match env.canonicalize path with
  | .ok canonical => do
      Except.ensure (env.tree.lookup canonical = some .directory)
        "store path exists but is not a directory"
      return canonical
  | .error _ => inCanonicalParent env path "store path must have an existing parent"
      "canonicalize store parent" "store path must name a directory"

def StoreRoot.validateExisting (path : Bytes) : Except String (List Name) := do
  validateRealDirectory (env.symlinkMetadata path) "store path"
  match env.canonicalize path with
  | .error _ => throw "canonicalize store"
  | .ok root =>
      validateRealDirectory (env.metadataAt (.ok (root ++ [blobsName]))) "store blobs directory"
      return root

def BrowseTreeRoot.validate (path : Bytes) : Except String (List Name) :=
  match env.symlinkMetadata path with
  | .ok (.symlink _) => .error "browse tree path must be a real directory, not a symlink"
  | .ok .directory => match env.canonicalize path with
    | .ok canonical => .ok canonical
    | .error _ => .error "canonicalize browse tree"
  | .ok _ => .error "browse tree path exists but is not a directory"
  | .error .notFound => match parentDir path with
    | none => .error "browse tree path must have an existing parent"
    | some parent => do
        validateRealDirectory (env.metadataAt (env.resolveComponents false parent))
          "browse tree parent"
        inCanonicalParent env path "browse tree path must have an existing parent"
          "canonicalize browse tree parent" "browse tree path must name a directory"
  | .error _ => .error "stat browse tree path"

def SourceRoot.validate (path : Bytes) : Except String (List Name) :=
  match env.canonicalize path with
  | .error _ => .error "canonicalize source"
  | .ok canonical => do
      Except.ensure (env.tree.lookup canonical = some .directory)
        "source must be an existing directory"
      return canonical

def validateDbPath (path : Bytes) : Except String (List Name) :=
  inCanonicalParent env path "database path must have an existing parent"
    "canonicalize database parent" "database path must name a file"

def pathsOverlap (left right : List Name) : Prop := right <+: left ∨ left <+: right

instance (left right : List Name) : Decidable (pathsOverlap left right) :=
  inferInstanceAs (Decidable (_ ∨ _))

def validateNoOverlaps (sourceRoot storeRoot dbPath : List Name) (dbWasExplicit : Bool) :
    Except String Unit := do
  Except.ensure (¬ pathsOverlap sourceRoot storeRoot) "source and store paths must not overlap"
  Except.ensure (¬ sourceRoot <+: dbPath) "database path must not be inside source directory"
  Except.ensure
    (¬ (dbWasExplicit = true ∧ env.pathExists storeRoot = false ∧ storeRoot <+: dbPath))
    "explicit database path must not be inside a not-yet-existing store path"

def validateBuildTreeNoOverlaps (storeRoot browseTreeRoot dbPath : List Name)
    (dbWasExplicit : Bool) : Except String Unit := do
  Except.ensure (¬ pathsOverlap storeRoot browseTreeRoot)
    "store and browse tree paths must not overlap"
  Except.ensure (¬ (dbWasExplicit = true ∧ browseTreeRoot <+: dbPath))
    "database path must not be inside browse tree"

end Validate

/-! ## Configurations -/

/-- A catalog path: a name in a canonical directory, or the text as it was given. -/
inductive CatalogPath
  | canonical (path : List Name)
  | given (text : Bytes)

/-- The file that is opened as the catalog. -/
def CatalogPath.file (env : PathEnvironment) : CatalogPath → Option (List Name)
  | .canonical path => env.linkedFile path
  | .given text => (env.resolve true text).toOption

/-- The name of the catalog in the store. -/
def catalogName : Name :=
  utf8 ['c', 'a', 't', 'a', 'l', 'o', 'g', '.', 's', 'q', 'l', 'i', 't', 'e']

def defaultDbPath (storeRoot : List Name) : List Name := storeRoot ++ [catalogName]

structure ImportOptions where
  store : Bytes
  source : Bytes
  db : Option Bytes
  dryRun : Bool
  metadataSkip : Bool
  chunkSize : ℕ+
  workersPerMount : ℕ+

structure ImportConfig where
  storeRoot : List Name
  dbPath : List Name
  sourceRoot : List Name
  dryRun : Bool
  metadataSkip : Bool
  chunkSize : ℕ+
  workersPerMount : ℕ+

structure GcOptions where
  store : Bytes
  db : Option Bytes
  dryRun : Bool
  chunkSize : ℕ

structure GcConfig where
  storeRoot : List Name
  dbPath : CatalogPath
  dryRun : Bool
  chunkSize : ℕ+

structure BuildTreeOptions where
  store : Bytes
  browseTree : Bytes
  db : Option Bytes
  dryRun : Bool
  hashDigits : ℕ+

/-- The configuration of `build-tree`, with the catalog it reads. -/
structure BuildTreeSettings extends BuildTreeConfig where
  dbPath : List Name

section FromOptions

variable (env : PathEnvironment)

/-- The path of the catalog: validated where it is given, otherwise the one in the store. -/
def chooseDbPath (db : Option Bytes) (storeRoot : List Name) : Except String (List Name) :=
  match db with
  | some path => validateDbPath env path
  | none => .ok (defaultDbPath storeRoot)

def ImportConfig.fromOptions (options : ImportOptions) : Except String ImportConfig := do
  let sourceRoot ← SourceRoot.validate env options.source
  let storeRoot ← StoreRoot.validate env options.store
  let dbPath ← chooseDbPath env options.db storeRoot
  validateNoOverlaps env sourceRoot storeRoot dbPath options.db.isSome
  return {
    storeRoot, dbPath, sourceRoot
    dryRun := options.dryRun
    metadataSkip := options.metadataSkip
    chunkSize := options.chunkSize
    workersPerMount := options.workersPerMount }

def validateExistingCatalog (metadata : Except PathError (FileNode ℕ Bytes)) :
    Except String Unit :=
  match metadata with
  | .error _ => .error "stat catalog database"
  | .ok (.file _) => .ok ()
  | .ok _ => .error "catalog database must be an existing regular file, not a symlink"

def GcConfig.fromOptions (options : GcOptions) : Except String GcConfig := do
  if h : 0 < options.chunkSize then
    let storeRoot ← StoreRoot.validateExisting env options.store
    match options.db with
    | some text =>
        validateExistingCatalog (env.symlinkMetadata text)
        return ⟨storeRoot, .given text, options.dryRun, ⟨options.chunkSize, h⟩⟩
    | none =>
        let path := defaultDbPath storeRoot
        validateExistingCatalog (env.metadataAt (.ok path))
        return ⟨storeRoot, .canonical path, options.dryRun, ⟨options.chunkSize, h⟩⟩
  else throw "--chunk-size must be non-zero"

def BuildTreeSettings.fromOptions (options : BuildTreeOptions) :
    Except String BuildTreeSettings := do
  Except.ensure ((options.hashDigits : ℕ) ≤ 64) "--hash-digits must be in the range 1..=64"
  let storeRoot ← StoreRoot.validateExisting env options.store
  let browseTreeRoot ← BrowseTreeRoot.validate env options.browseTree
  let dbPath ← chooseDbPath env options.db storeRoot
  validateBuildTreeNoOverlaps storeRoot browseTreeRoot dbPath options.db.isSome
  return {
    storeRoot, browseTreeRoot, dbPath
    hashDigits := options.hashDigits
    dryRun := options.dryRun }

end FromOptions

/-! ## Where the catalog is -/

/-- The commands that change a store, with the options they are given. -/
inductive CommandOptions
  | importFiles (options : ImportOptions)
  | gc (options : GcOptions)
  | buildTree (options : BuildTreeOptions)

inductive CommandConfig
  | importFiles (config : ImportConfig)
  | gc (config : GcConfig)
  | buildTree (config : BuildTreeSettings)

def CommandConfig.fromOptions (env : PathEnvironment) :
    CommandOptions → Except String CommandConfig
  | .importFiles options => .importFiles <$> ImportConfig.fromOptions env options
  | .gc options => .gc <$> GcConfig.fromOptions env options
  | .buildTree options => .buildTree <$> BuildTreeSettings.fromOptions env options

def CommandConfig.storeRoot : CommandConfig → List Name
  | .importFiles config => config.storeRoot
  | .gc config => config.storeRoot
  | .buildTree config => config.storeRoot

def CommandConfig.catalogPath : CommandConfig → CatalogPath
  | .importFiles config => .canonical config.dbPath
  | .gc config => config.dbPath
  | .buildTree config => .canonical config.dbPath

/-- The source or the browse tree of a command. -/
def CommandConfig.otherRoot : CommandConfig → Option (List Name)
  | .importFiles config => some config.sourceRoot
  | .gc _ => none
  | .buildTree config => some config.browseTreeRoot

/-- The directories of the store that hold the staging area and the CAS. -/
def storeAreas (storeRoot : List Name) : List (List Name) :=
  [storeRoot ++ [stagingName], storeRoot ++ [blobsName]]

/-- `-wal` -/
def walSuffix : Bytes := utf8 ['-', 'w', 'a', 'l']

/-- `-shm` -/
def shmSuffix : Bytes := utf8 ['-', 's', 'h', 'm']

/-- The file next to a catalog, with a suffix at its name. -/
def sidecarPath (file : List Name) (suffix : Bytes) : List Name :=
  file.dropLast ++ (file.getLast?.map (· ++ suffix)).toList

/-- The catalog and what SQLite keeps beside it. -/
def catalogFiles (file : List Name) : List (List Name) :=
  [file, sidecarPath file walSuffix, sidecarPath file shmSuffix]

/-- The catalog and its sidecars lie outside of the staging area, the CAS and the source or
browse tree. -/
def CommandConfig.CatalogApart (env : PathEnvironment) (config : CommandConfig) : Prop :=
  ∀ file, config.catalogPath.file env = some file → ∀ path ∈ catalogFiles file,
    ∀ root ∈ storeAreas config.storeRoot ++ config.otherRoot.toList, ¬ root <+: path

/-! ## Layouts that keep the catalog apart -/

/-- The file name of a path in its canonical parent directory. -/
def PathEnvironment.inParent (env : PathEnvironment) (path : Bytes) : Option (List Name) := do
  let parent ← parentDir path
  let directory ← (env.existing (env.resolveComponents true parent)).toOption
  let name ← fileName path
  return directory ++ [name]

/-- The place a directory has, or will have once it is made. -/
def PathEnvironment.place (env : PathEnvironment) (path : Bytes) : Option (List Name) :=
  match env.canonicalize path with
  | .ok p => some p
  | .error _ => env.inParent path

namespace CommandOptions

def store : CommandOptions → Bytes
  | .importFiles options => options.store
  | .gc options => options.store
  | .buildTree options => options.store

def db : CommandOptions → Option Bytes
  | .importFiles options => options.db
  | .gc options => options.db
  | .buildTree options => options.db

/-- The path of the source or of the browse tree. -/
def otherPath : CommandOptions → Option Bytes
  | .importFiles options => some options.source
  | .gc _ => none
  | .buildTree options => some options.browseTree

variable (env : PathEnvironment)

/-- The entry that names the catalog. -/
def catalogEntry (options : CommandOptions) : Option (List Name) :=
  match options.db with
  | some path => env.inParent path
  | none => (env.place options.store).map defaultDbPath

/-- The catalog is reached through a link at the end of its path. Only `gc` refuses that. -/
def catalogIsLink : CommandOptions → Bool
  | .gc _ => false
  | options => (options.catalogEntry env).any fun entry => match env.tree.lookup entry with
      | some (.symlink _) => true
      | _ => false

/-- The file that is opened as the catalog. -/
def catalogFile : CommandOptions → Option (List Name)
  | .gc ⟨_, some text, _, _⟩ => (env.resolve true text).toOption
  | options => (options.catalogEntry env).bind env.linkedFile

/-- A catalog that is given, or reached through a link, is not in the staging area or the
CAS; one that is reached through a link is not in the source or browse tree; and that tree
is not one of the catalog's sidecars. -/
def KeepsCatalogApart (options : CommandOptions) : Prop :=
  ∀ file ∈ options.catalogFile env,
    (options.db.isSome ∨ options.catalogIsLink env →
      ∀ store ∈ env.place options.store, ∀ area ∈ storeAreas store, ¬ area <+: file) ∧
    ∀ root ∈ options.otherPath.bind env.place,
      (options.catalogIsLink env → ¬ root <+: file) ∧
        root ≠ sidecarPath file walSuffix ∧ root ≠ sidecarPath file shmSuffix

instance (options : CommandOptions) : Decidable (options.KeepsCatalogApart env) := by
  unfold KeepsCatalogApart
  infer_instance

end CommandOptions

/-! ## Which layouts keep the catalog apart -/

section Place

variable {env : PathEnvironment} {path : Bytes} {p : List Name}

theorem inCanonicalParent_eq_ok_iff {noParent badParent noName : String} :
    inCanonicalParent env path noParent badParent noName = .ok p ↔
      env.inParent path = some p := by
  unfold inCanonicalParent PathEnvironment.inParent
  cases parentDir path with
  | none => simp
  | some parent =>
      cases henter : env.existing (env.resolveComponents true parent) with
      | error e => simp [henter, Except.toOption]
      | ok directory =>
          cases fileName path with
          | none => simp [henter, Except.toOption]
          | some name => simp [henter, Except.toOption]

/-- Following the last link of a path matters only where there is one. -/
theorem walk_follow (links : ℕ) (dir : List Name) (path : List PathStep) :
    (∃ p target, env.walk false links dir path = .ok p ∧
      env.tree.lookup p = some (.symlink target)) ∨
    env.walk true links dir path = env.walk false links dir path := by
  -- a jump is where the walks with one link less start
  have key : ∀ jump jump' : List Name → List PathStep → Except PathError (List Name),
      (∀ dir path, (∃ p target, jump dir path = .ok p ∧
        env.tree.lookup p = some (.symlink target)) ∨ jump' dir path = jump dir path) →
      ∀ (path : List PathStep) (dir : List Name),
        (∃ p target, env.walkFrom false jump dir path = .ok p ∧
          env.tree.lookup p = some (.symlink target)) ∨
        env.walkFrom true jump' dir path = env.walkFrom false jump dir path := by
    intro jump jump' hjump path
    induction path with
    | nil => intro dir; exact .inr rfl
    | cons step rest ih =>
        intro dir
        simp only [PathEnvironment.walkFrom]
        by_cases hdir : env.tree.lookup dir = some .directory
        · simp only [if_pos hdir]
          cases step with
          | stay => exact ih dir
          | parent => exact ih dir.dropLast
          | down name =>
              dsimp only
              cases hentry : env.tree.lookup (dir ++ [name]) with
              | none => exact .inr rfl
              | some node =>
                  cases node with
                  | symlink target =>
                      by_cases hlast : rest = []
                      · refine .inl ⟨dir ++ [name], target, ?_, hentry⟩
                        simp [hlast]
                      · by_cases htarget : target = []
                        · simp [hlast, htarget]
                        · simpa [hlast, htarget] using
                            hjump (if isAbsolute target then [] else dir)
                              (pathSteps target ++ rest)
                  | directory | file _ | other => exact ih (dir ++ [name])
        · simp [hdir]
  induction links generalizing dir path with
  | zero => exact key _ _ (fun _ _ => .inr rfl) path dir
  | succ links ih => exact key _ _ ih path dir

/-- What is not there is not there when links are followed. -/
theorem canonicalize_of_notFound (h : env.symlinkMetadata path = .error .notFound) :
    ∃ e, env.canonicalize path = .error e := by
  unfold PathEnvironment.symlinkMetadata PathEnvironment.metadataAt at h
  unfold PathEnvironment.canonicalize PathEnvironment.existing
  have hfollow : (∃ p target, env.resolve false path = .ok p ∧
      env.tree.lookup p = some (.symlink target)) ∨
      env.resolve true path = env.resolve false path := by
    unfold PathEnvironment.resolve
    by_cases hempty : path = []
    · simp [hempty]
    · simp only [if_neg hempty]
      exact walk_follow _ _ _
  rcases hfollow with ⟨p, target, hp, hlink⟩ | hsame
  · simp [hp, hlink] at h
  · rw [hsame]
    cases hp : env.resolve false path with
    | error e => exact ⟨e, rfl⟩
    | ok p =>
        cases hlook : env.tree.lookup p with
        | none => exact ⟨.notFound, by simp [hlook]; rfl⟩
        | some node => simp [hp, hlook] at h

theorem place_of_validate (h : StoreRoot.validate env path = .ok p) : env.place path = some p := by
  unfold StoreRoot.validate at h
  unfold PathEnvironment.place
  cases hcanonical : env.canonicalize path with
  | ok canonical =>
      simp only [hcanonical, Except.bind_eq_ok, Except.pure_eq_ok, Except.ok.injEq] at h
      obtain ⟨-, -, rfl⟩ := h
      rfl
  | error e =>
      rw [hcanonical] at h
      exact inCanonicalParent_eq_ok_iff.mp h

theorem place_of_validateExisting (h : StoreRoot.validateExisting env path = .ok p) :
    env.place path = some p := by
  unfold StoreRoot.validateExisting at h
  unfold PathEnvironment.place
  rw [Except.bind_eq_ok] at h
  obtain ⟨-, -, h⟩ := h
  cases hcanonical : env.canonicalize path with
  | ok canonical =>
      simp only [hcanonical, Except.bind_eq_ok, Except.pure_eq_ok, Except.ok.injEq] at h
      obtain ⟨-, -, rfl⟩ := h
      rfl
  | error e => simp [hcanonical] at h

theorem place_of_sourceValidate (h : SourceRoot.validate env path = .ok p) :
    env.place path = some p := by
  unfold SourceRoot.validate at h
  unfold PathEnvironment.place
  cases hcanonical : env.canonicalize path with
  | ok canonical =>
      simp only [hcanonical, Except.bind_eq_ok, Except.pure_eq_ok, Except.ok.injEq] at h
      obtain ⟨-, -, rfl⟩ := h
      rfl
  | error e => simp [hcanonical] at h

theorem place_of_browseValidate (h : BrowseTreeRoot.validate env path = .ok p) :
    env.place path = some p := by
  unfold BrowseTreeRoot.validate at h
  unfold PathEnvironment.place
  split at h
  · simp at h
  · cases hcanonical : env.canonicalize path with
    | ok canonical => simpa [hcanonical] using h
    | error e => simp [hcanonical] at h
  · simp at h
  · rename_i hmissing
    obtain ⟨e, he⟩ := canonicalize_of_notFound hmissing
    rw [he]
    cases hparent : parentDir path with
    | none => simp [hparent] at h
    | some parent =>
        rw [hparent] at h
        simp only [Except.bind_eq_ok] at h
        obtain ⟨-, -, h⟩ := h
        exact inCanonicalParent_eq_ok_iff.mp h
  · simp at h

end Place

section Sidecar

variable {file root : List Name} {suffix : Bytes}

theorem prefix_sidecarPath_iff : root <+: sidecarPath file suffix ↔
    root = sidecarPath file suffix ∨ root <+: file.dropLast := by
  unfold sidecarPath
  cases hlast : file.getLast? with
  | none =>
      obtain rfl : file = [] := by simpa using hlast
      simp
  | some name => exact List.prefix_concat_iff

theorem prefix_file_iff : root <+: file ↔ root = file ∨ root <+: file.dropLast := by
  cases hlast : file.getLast? with
  | none =>
      obtain rfl : file = [] := by simpa using hlast
      simp
  | some name =>
      obtain ⟨directory, rfl⟩ := List.getLast?_eq_some_iff.mp hlast
      rw [List.dropLast_concat]
      exact List.prefix_concat_iff

/-- A directory holds a sidecar when it holds the catalog, or is the sidecar's path itself. -/
theorem apart_catalogFiles_iff : (∀ path ∈ catalogFiles file, ¬ root <+: path) ↔
    ¬ root <+: file ∧ root ≠ sidecarPath file walSuffix ∧ root ≠ sidecarPath file shmSuffix := by
  have hfile : root <+: file ↔ root = file ∨ root <+: file.dropLast := prefix_file_iff
  simp only [catalogFiles, List.forall_mem_cons, List.not_mem_nil, false_imp_iff, implies_true,
    and_true, prefix_sidecarPath_iff, hfile, not_or]
  tauto

/-- The staging area and the CAS do not have the name of a sidecar. -/
theorem ne_sidecarPath {storeRoot area : List Name} (harea : area ∈ storeAreas storeRoot)
    (hsuffix : suffix = walSuffix ∨ suffix = shmSuffix) : area ≠ sidecarPath file suffix := by
  intro heq
  unfold sidecarPath at heq
  cases hlast : file.getLast? with
  | none =>
      obtain rfl : file = [] := by simpa using hlast
      simp [storeAreas, heq] at harea
  | some name =>
      rw [hlast] at heq
      have hends : ∀ areaName : Name, storeRoot ++ [areaName] = area → suffix <:+ areaName := by
        intro areaName hname
        have hlasts := congrArg List.getLast? (hname.trans heq)
        simp only [Option.map_some, Option.toList_some, List.getLast?_concat,
          Option.some.injEq] at hlasts
        exact ⟨name, hlasts.symm⟩
      have hnames : ∀ areaName ∈ [stagingName, blobsName], ¬ walSuffix <:+ areaName ∧
        ¬ shmSuffix <:+ areaName := by decide
      simp only [storeAreas, List.mem_cons, List.not_mem_nil, or_false] at harea
      rcases harea with harea | harea
      · have hsuf := hends stagingName harea.symm
        have hno := hnames stagingName (by simp)
        rcases hsuffix with rfl | rfl
        · exact hno.1 hsuf
        · exact hno.2 hsuf
      · have hsuf := hends blobsName harea.symm
        have hno := hnames blobsName (by simp)
        rcases hsuffix with rfl | rfl
        · exact hno.1 hsuf
        · exact hno.2 hsuf

theorem apart_storeAreas_iff {storeRoot : List Name} :
    (∀ path ∈ catalogFiles file, ∀ area ∈ storeAreas storeRoot, ¬ area <+: path) ↔
      ∀ area ∈ storeAreas storeRoot, ¬ area <+: file := by
  constructor
  · intro h area harea
    exact h file (by simp [catalogFiles]) area harea
  · intro h path hpath area harea
    have hapart : ∀ path ∈ catalogFiles file, ¬ area <+: path := apart_catalogFiles_iff.mpr
      ⟨h area harea, ne_sidecarPath harea (.inl rfl), ne_sidecarPath harea (.inr rfl)⟩
    exact hapart path hpath

end Sidecar

/-- The catalog of a store lies beside its areas. -/
theorem apart_defaultDbPath {storeRoot area : List Name} (harea : area ∈ storeAreas storeRoot) :
    ¬ area <+: defaultDbPath storeRoot := by
  have hnames : stagingName ≠ catalogName ∧ blobsName ≠ catalogName := by decide
  simp only [storeAreas, List.mem_cons, List.not_mem_nil, or_false] at harea
  unfold defaultDbPath
  rcases harea with rfl | rfl
  · simpa [List.prefix_append_right_inj] using hnames.1
  · simpa [List.prefix_append_right_inj] using hnames.2

/-- What an accepted configuration has to do with the options it was made from. -/
structure CommandConfig.Accepted (env : PathEnvironment) (options : CommandOptions)
    (config : CommandConfig) : Prop where
  place_store : env.place options.store = some config.storeRoot
  file_eq : options.catalogFile env = config.catalogPath.file env
  otherRoot_eq : options.otherPath.bind env.place = config.otherRoot
  default_file : options.db = none → ¬ options.catalogIsLink env = true →
    ∀ file, options.catalogFile env = some file → file = defaultDbPath config.storeRoot
  root_apart : ¬ options.catalogIsLink env = true → ∀ root, config.otherRoot = some root →
    ∀ file, options.catalogFile env = some file → ¬ root <+: file

section Accepted

variable {env : PathEnvironment}

theorem linkedFile_of_not_link {entry file : List Name}
    (hlink : ∀ target, env.tree.lookup entry ≠ some (.symlink target))
    (h : env.linkedFile entry = some file) : file = entry := by
  unfold PathEnvironment.linkedFile at h
  split at h
  · rename_i target htarget
    exact absurd htarget (hlink target)
  · exact (Option.some.inj h).symm

/-- Unless the entry that names the catalog is a link, it is the catalog. -/
theorem file_eq_of_not_link {options : CommandOptions} {entry file : List Name}
    (hentry : options.catalogEntry env = some entry)
    (hlink : ¬ (options.catalogEntry env).any (fun entry => match env.tree.lookup entry with
      | some (.symlink _) => true
      | _ => false) = true)
    (h : env.linkedFile entry = some file) : file = entry := by
  refine linkedFile_of_not_link (fun target htarget => hlink ?_) h
  simp [hentry, htarget]

/-- The chosen path of the catalog is the entry that names it. -/
theorem catalogEntry_of_chooseDbPath {options : CommandOptions} {storeRoot dbPath : List Name}
    (hstore : env.place options.store = some storeRoot)
    (h : chooseDbPath env options.db storeRoot = .ok dbPath) :
    options.catalogEntry env = some dbPath := by
  unfold chooseDbPath at h
  unfold CommandOptions.catalogEntry
  cases hdb : options.db with
  | none =>
      rw [hdb] at h
      simp [hstore, Except.ok.inj h]
  | some path =>
      rw [hdb] at h
      exact inCanonicalParent_eq_ok_iff.mp h

theorem accepted_importFiles {options : ImportOptions} {config : ImportConfig}
    (h : ImportConfig.fromOptions env options = .ok config) :
    CommandConfig.Accepted env (.importFiles options) (.importFiles config) := by
  simp only [ImportConfig.fromOptions, Except.bind_eq_ok, Except.pure_eq_ok,
    Except.ok.injEq] at h
  obtain ⟨sourceRoot, hsource, storeRoot, hstore, dbPath, hdb, u, hoverlaps, rfl⟩ := h
  simp only [validateNoOverlaps, Except.bind_eq_ok, Except.ensure_eq_ok_iff,
    exists_const] at hoverlaps
  obtain ⟨-, hsourceDb, -⟩ := hoverlaps
  have hplace : env.place options.store = some storeRoot := place_of_validate hstore
  have hentry : (CommandOptions.importFiles options).catalogEntry env = some dbPath :=
    catalogEntry_of_chooseDbPath hplace hdb
  have hfile : (CommandOptions.importFiles options).catalogFile env = env.linkedFile dbPath := by
    simp [CommandOptions.catalogFile, hentry]
  have hnotLink : ¬ (CommandOptions.importFiles options).catalogIsLink env = true → ∀ file,
      (CommandOptions.importFiles options).catalogFile env = some file → file = dbPath := by
    intro hlink file hf
    exact file_eq_of_not_link hentry hlink (hfile ▸ hf)
  refine ⟨hplace, hfile, ?_, ?_, ?_⟩
  · exact place_of_sourceValidate hsource
  · intro hnone hlink file hf
    have hnone : options.db = none := hnone
    rw [hnone] at hdb
    rw [hnotLink hlink file hf]
    exact (Except.ok.inj hdb).symm
  · intro hlink root hroot file hf
    obtain rfl : sourceRoot = root := Option.some.inj hroot
    rwa [hnotLink hlink file hf]

theorem accepted_gc {options : GcOptions} {config : GcConfig}
    (h : GcConfig.fromOptions env options = .ok config) :
    CommandConfig.Accepted env (.gc options) (.gc config) := by
  unfold GcConfig.fromOptions at h
  by_cases hchunk : 0 < options.chunkSize
  · rw [dif_pos hchunk, Except.bind_eq_ok] at h
    obtain ⟨storeRoot, hstore, h⟩ := h
    have hplace : env.place options.store = some storeRoot := place_of_validateExisting hstore
    rcases options with ⟨store, db, dryRun, chunkSize⟩
    cases db with
    | some text =>
        simp only [Except.bind_eq_ok, Except.pure_eq_ok, Except.ok.injEq] at h
        obtain ⟨-, -, rfl⟩ := h
        exact ⟨hplace, rfl, rfl, fun hnone => by simp [CommandOptions.db] at hnone,
          fun _ root hroot => by simp [CommandConfig.otherRoot] at hroot⟩
    | none =>
        simp only [Except.bind_eq_ok, Except.pure_eq_ok, Except.ok.injEq] at h
        obtain ⟨u, hregular, rfl⟩ := h
        have hfile : (CommandOptions.gc ⟨store, none, dryRun, chunkSize⟩).catalogFile env =
            env.linkedFile (defaultDbPath storeRoot) := by
          have hstore : env.place store = some storeRoot := hplace
          simp [CommandOptions.catalogFile, CommandOptions.catalogEntry, CommandOptions.db,
            CommandOptions.store, hstore]
        refine ⟨hplace, hfile, rfl, fun _ _ file hf => ?_,
          fun _ root hroot => by simp [CommandConfig.otherRoot] at hroot⟩
        rw [hfile] at hf
        refine linkedFile_of_not_link (fun target htarget => ?_) hf
        have htarget : env.tree.lookup (defaultDbPath storeRoot) = some (.symlink target) := htarget
        simp [validateExistingCatalog, PathEnvironment.metadataAt, htarget] at hregular
  · rw [dif_neg hchunk] at h
    simp at h

theorem accepted_buildTree {options : BuildTreeOptions} {config : BuildTreeSettings}
    (h : BuildTreeSettings.fromOptions env options = .ok config) :
    CommandConfig.Accepted env (.buildTree options) (.buildTree config) := by
  simp only [BuildTreeSettings.fromOptions, Except.bind_eq_ok, Except.pure_eq_ok,
    Except.ok.injEq] at h
  obtain ⟨-, -, storeRoot, hstore, browseTreeRoot, hbrowse, dbPath, hdb, u, hoverlaps, rfl⟩ := h
  simp only [validateBuildTreeNoOverlaps, Except.bind_eq_ok, Except.ensure_eq_ok_iff,
    exists_const, pathsOverlap, not_or] at hoverlaps
  obtain ⟨⟨hbrowseStore, hstoreBrowse⟩, hbrowseDb⟩ := hoverlaps
  have hplace : env.place options.store = some storeRoot := place_of_validateExisting hstore
  have hentry : (CommandOptions.buildTree options).catalogEntry env = some dbPath :=
    catalogEntry_of_chooseDbPath hplace hdb
  have hfile : (CommandOptions.buildTree options).catalogFile env = env.linkedFile dbPath := by
    simp [CommandOptions.catalogFile, hentry]
  have hnotLink : ¬ (CommandOptions.buildTree options).catalogIsLink env = true → ∀ file,
      (CommandOptions.buildTree options).catalogFile env = some file → file = dbPath := by
    intro hlink file hf
    exact file_eq_of_not_link hentry hlink (hfile ▸ hf)
  refine ⟨hplace, hfile, ?_, ?_, ?_⟩
  · exact place_of_browseValidate hbrowse
  · intro hnone hlink file hf
    have hnone : options.db = none := hnone
    rw [hnone] at hdb
    rw [hnotLink hlink file hf]
    exact (Except.ok.inj hdb).symm
  · intro hlink root hroot file hf
    obtain rfl : browseTreeRoot = root := Option.some.inj hroot
    rw [hnotLink hlink file hf]
    cases hgiven : options.db with
    | some text => simpa [hgiven] using hbrowseDb
    | none =>
        -- the catalog of the store: the tree would hold it or the store
        rw [hgiven] at hdb
        obtain rfl : defaultDbPath storeRoot = dbPath := Except.ok.inj hdb
        intro hin
        rcases List.prefix_concat_iff.mp hin with heq | hin
        · exact hstoreBrowse (heq ▸ List.prefix_append storeRoot [catalogName])
        · exact hbrowseStore hin

theorem accepted_fromOptions {options : CommandOptions} {config : CommandConfig}
    (h : CommandConfig.fromOptions env options = .ok config) :
    config.Accepted env options := by
  cases options with
  | importFiles options =>
      simp only [CommandConfig.fromOptions, map_eq_pure_bind, Except.bind_eq_ok,
        Except.pure_eq_ok, Except.ok.injEq] at h
      obtain ⟨accepted, hok, rfl⟩ := h
      exact accepted_importFiles hok
  | gc options =>
      simp only [CommandConfig.fromOptions, map_eq_pure_bind, Except.bind_eq_ok,
        Except.pure_eq_ok, Except.ok.injEq] at h
      obtain ⟨accepted, hok, rfl⟩ := h
      exact accepted_gc hok
  | buildTree options =>
      simp only [CommandConfig.fromOptions, map_eq_pure_bind, Except.bind_eq_ok,
        Except.pure_eq_ok, Except.ok.injEq] at h
      obtain ⟨accepted, hok, rfl⟩ := h
      exact accepted_buildTree hok

end Accepted

/-- An accepted layout keeps the catalog apart exactly when the options do. -/
theorem catalogApart_iff (env : PathEnvironment) (options : CommandOptions)
    (config : CommandConfig) (h : CommandConfig.fromOptions env options = .ok config) :
    config.CatalogApart env ↔ options.KeepsCatalogApart env := by
  have haccepted := accepted_fromOptions h
  have hsplit : config.CatalogApart env ↔ ∀ file, options.catalogFile env = some file →
      (∀ area ∈ storeAreas config.storeRoot, ¬ area <+: file) ∧
        ∀ root, config.otherRoot = some root → ¬ root <+: file ∧
          root ≠ sidecarPath file walSuffix ∧ root ≠ sidecarPath file shmSuffix := by
    unfold CommandConfig.CatalogApart
    rw [← haccepted.file_eq]
    refine forall₂_congr fun file hfile => ?_
    rw [← apart_storeAreas_iff]
    simp only [List.mem_append, Option.mem_toList, or_imp, forall_and, ← apart_catalogFiles_iff]
    refine and_congr_right fun _ => ?_
    constructor
    · intro hroots root hroot path hpath
      exact hroots path hpath root hroot
    · intro hroots path hpath root hroot
      exact hroots root hroot path hpath
  rw [hsplit]
  refine forall₂_congr fun file hfile => ?_
  rw [haccepted.otherRoot_eq]
  constructor
  · rintro ⟨hareas, hroots⟩
    refine ⟨fun _ store hstore => ?_, fun root hroot => ?_⟩
    · rw [haccepted.place_store] at hstore
      rwa [← Option.some.inj hstore]
    · obtain ⟨hin, hsidecars⟩ := hroots root hroot
      exact ⟨fun _ => hin, hsidecars⟩
  · rintro ⟨hareas, hroots⟩
    refine ⟨?_, fun root hroot => ?_⟩
    · by_cases hreached : options.db.isSome ∨ options.catalogIsLink env = true
      · exact hareas hreached config.storeRoot haccepted.place_store
      · rw [not_or, Option.not_isSome_iff_eq_none] at hreached
        rw [haccepted.default_file hreached.1 hreached.2 file hfile]
        exact fun area harea => apart_defaultDbPath harea
    · obtain ⟨hin, hsidecars⟩ := hroots root hroot
      refine ⟨?_, hsidecars⟩
      by_cases hlink : options.catalogIsLink env = true
      · exact hin hlink
      · exact haccepted.root_apart hlink root hroot file hfile

/-- A file system with a store `/s`, its areas, and a directory `/p` beside it. -/
def examplePaths : PathEnvironment where
  tree := FileTree.ofEntries
    [([], .directory), ([utf8 ['p']], .directory), ([utf8 ['s']], .directory),
      ([utf8 ['s'], blobsName], .directory), ([utf8 ['s'], stagingName], .directory)]
    (by decide) (by decide)
  currentDir := []
  maxLinks := 40

/-- Import `/p` into `/s` with the catalog at the given names. -/
def exampleImport (db : List Name) : ImportOptions where
  store := utf8 ['/', 's']
  source := utf8 ['/', 'p']
  db := some (slash :: render db)
  dryRun := false
  metadataSkip := true
  chunkSize := 1
  workersPerMount := 1

/-- The configuration of that import. -/
def exampleImportConfig (db : List Name) : ImportConfig where
  storeRoot := [utf8 ['s']]
  dbPath := db
  sourceRoot := [utf8 ['p']]
  dryRun := false
  metadataSkip := true
  chunkSize := 1
  workersPerMount := 1

/-- A catalog directly in the store is apart. -/
theorem catalogApart_iff_inStore :
    CommandConfig.fromOptions examplePaths (.importFiles (exampleImport [utf8 ['s'], utf8 ['c']])) =
      .ok (.importFiles (exampleImportConfig [utf8 ['s'], utf8 ['c']])) ∧
    CommandConfig.CatalogApart examplePaths
      (.importFiles (exampleImportConfig [utf8 ['s'], utf8 ['c']])) :=
  ⟨rfl, (catalogApart_iff examplePaths (.importFiles (exampleImport [utf8 ['s'], utf8 ['c']]))
    _ rfl).mpr (by decide +kernel)⟩

/-- A catalog in the staging area is accepted as well. -/
theorem not_catalogApart_inStaging : ¬ ∀ env options config,
    CommandConfig.fromOptions env options = .ok config → config.CatalogApart env := by
  intro h
  have hconfig : CommandConfig.fromOptions examplePaths
      (.importFiles (exampleImport [utf8 ['s'], stagingName, utf8 ['c']])) =
        .ok (.importFiles (exampleImportConfig [utf8 ['s'], stagingName, utf8 ['c']])) := rfl
  have hin : [utf8 ['s'], stagingName] <+: [utf8 ['s'], stagingName, utf8 ['c']] := by decide
  exact h _ _ _ hconfig [utf8 ['s'], stagingName, utf8 ['c']] rfl _ (by simp [catalogFiles])
    [utf8 ['s'], stagingName] (by decide) hin

end MediaImporter

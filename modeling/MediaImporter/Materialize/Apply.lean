import MediaImporter.Materialize.Plan

/-!
# Applying a plan

Applying a plan creates directories, then links, then removes stale links, and last
prunes directories. It stops at the first failure and undoes nothing, so a plan should
only be made when nothing in the inputs can make it fail.

## Main definitions

* `TreeCall`, `TreeWorld`, `treeHandler` — the calls of the command and their answers.
* `apply`, `buildTree` — the command.
-/

namespace MediaImporter

open Utf8 UnixPath

/-- The name under which a link is made before it replaces another. -/
def temporaryName (name uuid : Text) : Name :=
  utf8 ('.' :: name ++ ".media-importer.tmp-".toList ++ uuid)

/-- A source of names that no entry of the tree has. -/
structure UuidSource where
  new : BrowseTree → Text
  fresh : ∀ (tree : BrowseTree) (dir : List Name) (name : Text),
    tree.tree.lookup (dir ++ [temporaryName name (new tree)]) = none

/-- The length of the longest name in a tree. -/
def longestName (tree : BrowseTree) : ℕ :=
  (tree.tree.paths.flatten.map List.length).max?.getD 0

/-- A name longer than all others is new. -/
def UuidSource.longest : UuidSource where
  new tree := List.replicate (longestName tree) 'f'
  fresh tree dir name := by
    by_contra h
    have hmem : dir ++ [temporaryName name (List.replicate (longestName tree) 'f')] ∈
        tree.tree.paths := FileTree.mem_paths.mpr (Option.isSome_iff_ne_none.mpr h)
    have hle : (temporaryName name (List.replicate (longestName tree) 'f')).length ≤
        longestName tree :=
      List.le_max?_getD_of_mem (List.mem_map_of_mem (List.mem_flatten_of_mem hmem (by simp)))
    have hlen := length_le_length_utf8 ('.' :: name ++ ".media-importer.tmp-".toList ++
      List.replicate (longestName tree) 'f')
    rw [List.length_append, List.length_append, List.length_cons, List.length_replicate] at hlen
    unfold temporaryName at hle
    omega

inductive TreeCall
  /-- A call to the browse tree. -/
  | tree (call : DirectoryCall)
  /-- A call to the store. -/
  | store (call : DirectoryCall)
  /-- Everything the plan reads. -/
  | view
  | newUuid
  | telemetryFailed

/-- The answer to a call. -/
abbrev TreeAnswer : TreeCall → Type
  | .tree call | .store call => FsAnswer call
  | .view => Store × BrowseTree
  | .newUuid => Text
  | .telemetryFailed => Bool

abbrev TreeProgram (α : Type) := ExceptT String (Program TreeCall TreeAnswer) α

structure TreeWorld where
  browse : BrowseTree
  store : Store
  calls : ℕ

/-- What the calls meet: faults, names, and a renderer that can fail. -/
structure TreeEnvironment where
  faults : FaultPlan Name Bytes UInt8
  uuids : UuidSource
  telemetryFails : ℕ → Bool

/-- No call fails without a reason in the tree or the store. -/
def TreeEnvironment.faultless (uuids : UuidSource) : TreeEnvironment :=
  ⟨.none, uuids, fun _ => false⟩

def treeHandler (env : TreeEnvironment) : Program.Handler TreeCall TreeAnswer TreeWorld
  | .tree call, w =>
      let r := w.browse.answer env.faults w.calls call
      (r.1, { w with browse := r.2, calls := w.calls + 1 })
  | .store call, w =>
      let r := w.store.answer env.faults w.calls call
      (r.1, { w with store := r.2, calls := w.calls + 1 })
  | .view, w => ((w.store, w.browse), { w with calls := w.calls + 1 })
  | .newUuid, w => (env.uuids.new w.browse, { w with calls := w.calls + 1 })
  | .telemetryFailed, w => (env.telemetryFails w.calls, { w with calls := w.calls + 1 })

/-- A call of the command. -/
def treeCall (call : TreeCall) : TreeProgram (TreeAnswer call) := Program.requestT call

/-- A function of the store, as part of the command. -/
def onStore {α : Type} (p : FsProgram α) : TreeProgram α :=
  Program.embedT TreeCall.store (fun _ r => r) p

def checkTelemetry : TreeProgram Unit := do
  let failed ← treeCall .telemetryFailed
  if failed then throw "telemetry renderer failed" else return ()

/-! ## The steps of a plan -/

def createDirectory (dir : List Name) : TreeProgram Unit := do
  checkTelemetry
  let created ← treeCall (.tree (.createDir dir))
  expectOk created "create directory"

/-- The file name of a link, or a stand-in for one that is not text. -/
def linkFileName (link : DesiredLink) : Text :=
  ((link.outputPath.getLast?.bind ofUtf8).getD "link".toList)

/-- Make the link under another name, then move it over the one that is there. -/
def replaceLink (link : DesiredLink) : TreeProgram Unit := do
  let uuid ← treeCall .newUuid
  let tempPath := link.outputPath.dropLast ++ [temporaryName (linkFileName link) uuid]
  let created ← treeCall (.tree (.symlink link.targetText tempPath))
  expectOk created "create temporary symlink"
  let renamed ← treeCall (.tree (.rename tempPath link.outputPath))
  match renamed with
  | .ok () => return ()
  | .error _ =>
      let _ ← treeCall (.tree (.removeFile tempPath))
      throw "replace symlink"

def applyDesiredLink (link : DesiredLink) : TreeProgram Unit := do
  let metadata ← treeCall (.tree (.symlinkMetadata link.outputPath))
  match metadata with
  | .ok ⟨.symlink existing, _⟩ =>
      if samePath existing link.targetText then return () else replaceLink link
  | .ok _ => throw "desired output path is blocked by a non-symlink entry"
  | .error .notFound =>
      let created ← treeCall (.tree (.symlink link.targetText link.outputPath))
      expectOk created "create symlink"
  | .error _ => throw "stat desired output"

def applyLink (link : DesiredLink) : TreeProgram Unit := do
  checkTelemetry
  applyDesiredLink link

def removeStale (path : List Name) : TreeProgram Unit := do
  checkTelemetry
  let removed ← treeCall (.tree (.removeFile path))
  expectOk removed "remove stale symlink"

/-- A directory that is gone or not empty is left alone. -/
def pruneDirectory (dir : List Name) : TreeProgram Unit := do
  checkTelemetry
  let removed ← treeCall (.tree (.removeDir dir))
  match removed with
  | .ok () | .error .notFound | .error .directoryNotEmpty => return ()
  | .error _ => throw "prune directory"

def apply (plan : Plan) : TreeProgram Unit := do
  forM plan.directoriesToCreate createDirectory
  forM plan.desired applyLink
  forM plan.staleOwned removeStale
  forM plan.directoriesToPrune pruneDirectory

/-- A run that changes the tree first removes what an interrupted import left in staging. -/
def purgeUnlessDryRun (config : BuildTreeConfig) : TreeProgram Unit :=
  if config.dryRun then pure () else onStore purgeExistingStaging

/-- Make the plan and, unless the run is dry, apply it. -/
def planAndApply (config : BuildTreeConfig) (c : Catalog) : TreeProgram BuildTreeReport := do
  let (store, browse) ← treeCall .view
  checkTelemetry
  match plan config c store browse with
  | .error e => throw e
  | .ok plan =>
      checkTelemetry
      if config.dryRun then return plan.report
      else
        checkTelemetry
        apply plan
        return plan.report

/-- The command, once its configuration is validated and it holds the lock. -/
def buildTree (config : BuildTreeConfig) (c : Catalog) : TreeProgram BuildTreeReport := do
  purgeUnlessDryRun config
  planAndApply config c

end MediaImporter

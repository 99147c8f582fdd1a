import MediaImporter.Catalog.Writes

/-!
# The history of a source file

A source file has one row, which the first observation inserts and every later one changes.
Whatever the mixture of observations of files that are imported and of files that are known, and
of collections in between, the row tells when the file was observed first and last, what it was
then, and how often it was observed.

The count of a row is a column value, and a column holds integers below `2 ^ 63` only. The sum
of a count beyond is a real number, which is not the count.

## Main definitions

* `SourceHistory` — committed observations, with collections in between.
* `Catalog.Tells` — the row of a file tells its observations.
* `sourceRows_tell` — it does in every history.
-/

namespace MediaImporter

open Utf8

/-! ## Histories -/

/-- Those of the observations that are of the file. -/
def observationsOf (seen : List SourceObservation) (root : Text) (path : SourceRelativePath) :
    List SourceObservation :=
  seen.filter fun observation => observation.sourceRoot = root ∧ observation.relativePath = path

theorem observationsOf_concat_self (seen : List SourceObservation)
    (observation : SourceObservation) :
    observationsOf (seen ++ [observation]) observation.sourceRoot observation.relativePath =
      observationsOf seen observation.sourceRoot observation.relativePath ++ [observation] := by
  simp [observationsOf]

theorem observationsOf_concat_of_ne {seen : List SourceObservation}
    {observation : SourceObservation} {root : Text} {path : SourceRelativePath}
    (hne : ¬ (observation.sourceRoot = root ∧ observation.relativePath = path)) :
    observationsOf (seen ++ [observation]) root path = observationsOf seen root path := by
  simp [observationsOf, hne]

/-- What a row tells of a number of observations of its file. -/
structure SourceFileRow.Tells (row : SourceFileRow) (first latest : SourceObservation)
    (n : ℕ) : Prop where
  firstSeen : row.firstSeenAtMs = .integer first.observedAtMs
  lastSeen : row.lastSeenAtMs = .integer latest.observedAtMs
  modified : row.modifiedAtMs = .ofOption latest.modifiedAtMs
  size : row.sizeBytes = .integer latest.sizeBytes
  blob : row.blobHash = latest.blobHash.value
  /-- The count is right as long as it is in the range of a column. -/
  count : n < 2 ^ 63 → row.seenCount = .integer n

/-- The catalog has no row of a file that was not observed, and one row that tells the
observations of a file that was. -/
structure Catalog.Tells (c : Catalog) (root : Text) (path : SourceRelativePath)
    (seen : List SourceObservation) : Prop where
  absent : seen = [] → c.rowsOf root path = []
  present : ∀ first latest, seen.head? = some first → seen.getLast? = some latest →
    ∃ row, c.rowsOf root path = [row] ∧ row.Tells first latest seen.length

theorem Catalog.Tells.exists_row {c : Catalog} {root : Text} {path : SourceRelativePath}
    {seen : List SourceObservation} (h : c.Tells root path seen) (hne : seen ≠ []) :
    ∃ first latest row, seen.head? = some first ∧ c.rowsOf root path = [row] ∧
      row.Tells first latest seen.length := by
  have hfirst := List.head?_eq_some_head hne
  have hlast := List.getLast?_eq_some_getLast hne
  obtain ⟨row, hrow, htells⟩ := h.present _ _ hfirst hlast
  exact ⟨_, _, row, hfirst, hrow, htells⟩

theorem Catalog.Tells.length_le {c : Catalog} {root : Text} {path : SourceRelativePath}
    {seen : List SourceObservation} (h : c.Tells root path seen) :
    (c.rowsOf root path).length ≤ 1 := by
  by_cases hne : seen = []
  · simp [h.absent hne]
  · obtain ⟨_, _, row, -, hrow, -⟩ := h.exists_row hne
    simp [hrow]

theorem Catalog.Tells.congr {c d : Catalog} {root : Text} {path : SourceRelativePath}
    {seen : List SourceObservation} (h : c.Tells root path seen)
    (hrows : d.rowsOf root path = c.rowsOf root path) : d.Tells root path seen :=
  ⟨fun hnil => hrows.trans (h.absent hnil), fun first latest hfirst hlatest => by
    rw [hrows]
    exact h.present first latest hfirst hlatest⟩

section Histories

variable [SqlArithmetic]

/-- Committed observations of any files, in order, with statements of collections committed
in between. -/
inductive SourceHistory : List SourceObservation → Catalog → Prop
  | fresh : SourceHistory [] .fresh
  | observe {seen c d request outcome} : SourceHistory seen c →
      PendingImportRequest.record request c = .ok (outcome, d) →
      SourceHistory (seen ++ [request.observation]) d
  | collect {seen c} (statements : List GcStatement) : SourceHistory seen c →
      SourceHistory seen (stageAll statements c)

/-- The row of the file goes on telling its observations. -/
theorem Catalog.Tells.observe {c d : Catalog} {observation : SourceObservation}
    {seen : List SourceObservation}
    (h : c.Tells observation.sourceRoot observation.relativePath seen)
    (hafter : OwnRowAfter observation c d) :
    d.Tells observation.sourceRoot observation.relativePath (seen ++ [observation]) := by
  refine ⟨fun hnil => by simp at hnil, fun first latest hfirst hlatest => ?_⟩
  rw [List.getLast?_concat, Option.some.injEq] at hlatest
  subst hlatest
  rcases hafter with ⟨hnone, id, hrow⟩ | ⟨row, hrow, hnext⟩
  · have hseen : seen = [] := by
      by_contra hne
      obtain ⟨_, _, row, -, hone, -⟩ := h.exists_row hne
      exact absurd (hone.symm.trans hnone) (List.cons_ne_nil row [])
    subst hseen
    rw [List.nil_append, List.head?_cons, Option.some.injEq] at hfirst
    subst hfirst
    exact ⟨observation.firstRow id, hrow, rfl, rfl, rfl, rfl, rfl, fun _ => rfl⟩
  · have hne : seen ≠ [] := by
      intro hseen
      exact absurd (hrow.symm.trans (h.absent hseen)) (List.cons_ne_nil row [])
    obtain ⟨first', _, row', hfirst', hrow', htells⟩ := h.exists_row hne
    obtain rfl : row = row' := List.singleton_inj.1 (hrow.symm.trans hrow')
    rw [List.head?_append_of_ne_nil _ hne, hfirst', Option.some.injEq] at hfirst
    subst hfirst
    refine ⟨observation.nextRow row, hnext, htells.firstSeen, rfl, rfl, rfl, rfl, fun hlt => ?_⟩
    rw [List.length_append, List.length_singleton] at hlt ⊢
    have hcount := htells.count (by omega)
    have hsum := SqlArithmetic.addOne_integer (seen.length : ℤ) (by omega)
    calc (observation.nextRow row).seenCount
        = SqlArithmetic.addOne row.seenCount := rfl
      _ = .integer ((seen.length : ℤ) + 1) := by rw [hcount, hsum]
      _ = .integer ((seen.length + 1 : ℕ) : ℤ) := by rw [Nat.cast_add, Nat.cast_one]

/-- In every history the row of each file tells its observations. -/
theorem SourceHistory.tells {seen : List SourceObservation} {c : Catalog}
    (h : SourceHistory seen c) (root : Text) (path : SourceRelativePath) :
    c.Tells root path (observationsOf seen root path) := by
  induction h with
  | fresh =>
      refine ⟨fun _ => rfl, fun first latest hfirst _ => ?_⟩
      simp [observationsOf] at hfirst
  | @observe seen c d request outcome _ hrecord ih =>
      by_cases hat : request.observation.sourceRoot = root ∧
          request.observation.relativePath = path
      · obtain ⟨rfl, rfl⟩ := hat
        rw [observationsOf_concat_self]
        exact ih.observe (ownRow_of_record hrecord ih.length_le)
      · rw [observationsOf_concat_of_ne hat]
        exact ih.congr (Catalog.rowsOf_of_otherRows (otherRows_of_record hrecord) hat)
  | collect statements _ ih =>
      exact ih.congr (Catalog.rowsOf_congr (sourceFiles_stageAll statements _) root path)

/-- Imports and collections keep a catalog well. -/
theorem SourceHistory.wellKept {seen : List SourceObservation} {c : Catalog}
    (h : SourceHistory seen c) : c.WellKept := by
  induction h with
  | fresh => exact wellKept_fresh
  | observe hseen hrecord ih => exact ih.record hrecord (hseen.tells _ _).length_le
  | collect statements _ ih =>
      exact stageAll_induction statements ih fun _ statement hd => hd.stage statement

/-- What the writer commits continues the history of what it started with. -/
theorem Ledger.sourceHistory {start L : Ledger} {seen : List SourceObservation}
    (h : SourceHistory seen start.committed)
    (hsteps : Relation.ReflTransGen Ledger.Step start L) :
    ∃ more, SourceHistory (seen ++ more) L.committed := by
  have hbatch : ∀ (items : List PendingImport) (more : List SourceObservation) (c d : Catalog)
      (outcomes : List ImportWriteOutcome), SourceHistory (seen ++ more) c →
      Batch.all recordItem items c = .ok (outcomes, d) →
      ∃ more', SourceHistory (seen ++ more') d := by
    intro items
    induction items with
    | nil =>
        intro more c d outcomes hc hall
        cases hall
        exact ⟨more, hc⟩
    | cons item items ih =>
        intro more c d outcomes hc hall
        obtain ⟨outcome, e, rest, hrecord, hrest, -⟩ := Batch.all_cons_eq_ok_iff.1 hall
        have he := hc.observe hrecord
        rw [List.append_assoc] at he
        exact ih _ e d rest he hrest
  induction hsteps with
  | refl => exact ⟨[], by rwa [List.append_nil]⟩
  | tail _ hstep ih =>
      obtain ⟨more, hmore⟩ := ih
      cases hstep with
      | flush hall => exact hbatch _ more _ _ _ hmore hall
      | commit => exact ⟨more, hmore.collect _⟩
      | accept | reject | timeout | begin | stage | rollback | lose => exact ⟨more, hmore⟩

/-- **Source rows tell their history**: after every committed sequence of observations and
collections there is one row for each file that was observed, and it tells when it was observed
first and last, what it was then, and how often, up to the range of a column. No observation
changes the row of another file, and no collection changes any. -/
theorem sourceRows_tell {seen : List SourceObservation} {c : Catalog}
    (h : SourceHistory seen c) :
    (∀ root path, c.Tells root path (observationsOf seen root path)) ∧
    (∀ request outcome d, PendingImportRequest.record request c = .ok (outcome, d) →
      d.otherRows request.observation = c.otherRows request.observation) ∧
    ∀ statements, (stageAll statements c).sourceFiles = c.sourceFiles := by
  refine ⟨h.tells, fun request outcome d hrecord => otherRows_of_record hrecord, ?_⟩
  intro statements
  exact sourceFiles_stageAll statements c

end Histories

/-- A file that is imported, and imported again after a collection. -/
theorem sourceRows_tell_photo : ∃ _ : SqlArithmetic, ∃ c,
    SourceHistory [photoObservation 1, photoObservation 2] c ∧ c.sourceFiles ≠ [] ∧
      c.Tells ['/'] (photoObservation 1).relativePath [photoObservation 1, photoObservation 2] := by
  refine ⟨integerSums, ?_⟩
  let _ := integerSums
  let collected := stageAll [.mark ⟨photoHash, 0, none, false⟩ 5]
    (catalogAfter (observationAt 1) .fresh)
  obtain ⟨_, hfirst⟩ := record_catalogAfter (observationAt 1) .fresh (by decide +kernel)
  obtain ⟨_, hsecond⟩ := record_catalogAfter (observationAt 2) collected (by decide +kernel)
  have hhistory : SourceHistory [photoObservation 1, photoObservation 2]
      (catalogAfter (observationAt 2) collected) :=
    .observe (.collect _ (.observe .fresh hfirst)) hsecond
  exact ⟨_, hhistory, by decide +kernel, (sourceRows_tell hhistory).1 ['/'] _⟩

/-! ## A count beyond the range of a column -/

/-- The real number `2 ^ 63`, as the bits of a double. -/
def twoTo63 : UInt64 := 0x43E0000000000000

/-- The sums of SQLite, as far as counts go. An integer sum that is out of range is a real number
instead, and a real number of that magnitude is the same when one is added. -/
@[reducible] def sqliteSums : SqlArithmetic where
  addOne
    | .integer v => if v + 1 < 2 ^ 63 then .integer (v + 1) else .real twoTo63
    | .real bits => if bits = twoTo63 then .real twoTo63 else .null
    | _ => .null
  addOne_integer _ h := if_pos h

/-- What the count of a row is after a number of observations. -/
def sqliteCount (n : ℕ) : Value := if n < 2 ^ 63 then .integer n else .real twoTo63

theorem addOne_sqliteCount (n : ℕ) : sqliteSums.addOne (sqliteCount n) = sqliteCount (n + 1) := by
  unfold sqliteCount
  by_cases h : n < 2 ^ 63
  · rw [if_pos h]
    by_cases h' : n + 1 < 2 ^ 63
    · rw [if_pos h']
      exact if_pos (by omega)
    · rw [if_neg h']
      exact if_neg (by omega)
  · rw [if_neg h, if_neg (by omega)]
    rfl

/-- The file can be imported any number of times. -/
theorem exists_photoHistory (n : ℕ) : ∃ c row,
    @SourceHistory sqliteSums (List.replicate (n + 1) (photoObservation 1)) c ∧
      (∀ r ∈ c.blobs, r.Is photoHash 0) ∧ c.ownRows (photoObservation 1) = [row] ∧
      row.seenCount = sqliteCount (n + 1) := by
  let _ := sqliteSums
  -- one more import of the file, from any catalog that has its blob only
  have hnext : ∀ seen c, SourceHistory seen c → (∀ r ∈ c.blobs, r.Is photoHash 0) →
      ∃ d, SourceHistory (seen ++ [photoObservation 1]) d ∧
        (∀ r ∈ d.blobs, r.Is photoHash 0) ∧ OwnRowAfter (photoObservation 1) c d := by
    intro seen c hc hblobs
    have haccepted : ∃ outcome d, (observationAt 1).record c = .ok (outcome, d) :=
      imported_accepted hc.wellKept.hashes (List.cons_ne_nil _ _) rfl rfl (by decide)
        fun r hr _ => (hblobs r hr).2
    obtain ⟨_, d, hrecord⟩ := haccepted
    refine ⟨d, hc.observe hrecord, fun r hr => ?_,
      ownRow_of_record hrecord (hc.tells _ _).length_le⟩
    rcases (blobs_of_record hrecord).1.known r hr with ⟨r', hr', hhash, hsize⟩ | his
    · exact ⟨hhash.trans (hblobs r' hr').1, hsize.trans (hblobs r' hr').2⟩
    · exact his
  induction n with
  | zero =>
      obtain ⟨d, hd, hblobs, hafter⟩ := hnext [] .fresh .fresh (by simp [Catalog.fresh])
      rcases hafter with ⟨-, id, hrow⟩ | ⟨row, hrow, -⟩
      · exact ⟨d, _, hd, hblobs, hrow, rfl⟩
      · exact absurd hrow (List.cons_ne_nil row []).symm
  | succ n ih =>
      obtain ⟨c, row, hc, hblobs, hrow, hcount⟩ := ih
      obtain ⟨d, hd, hblobs', hafter⟩ := hnext _ c hc hblobs
      rcases hafter with ⟨hnone, -⟩ | ⟨row', hrow', hnextRow⟩
      · exact absurd (hrow.symm.trans hnone) (List.cons_ne_nil row [])
      · obtain rfl : row = row' := List.singleton_inj.1 (hrow.symm.trans hrow')
        refine ⟨d, _, ?_, hblobs', hnextRow, ?_⟩
        · rw [List.replicate_succ']
          exact hd
        · rw [← addOne_sqliteCount, ← hcount]
          rfl

/-- After `2 ^ 63 + 1` observations the count of the row is another number. -/
theorem not_sourceRows_tell_count : ¬ ∀ (_ : SqlArithmetic) (seen : List SourceObservation)
    (c : Catalog), SourceHistory seen c → ∀ root path, ∀ row ∈ c.rowsOf root path,
      row.seenCount = .integer (observationsOf seen root path).length := by
  intro hall
  obtain ⟨c, row, hc, -, hrow, hcount⟩ := exists_photoHistory (2 ^ 63)
  have hclaim := hall sqliteSums _ c hc (photoObservation 1).sourceRoot
    (photoObservation 1).relativePath row (by rw [← Catalog.ownRows_eq, hrow]; simp)
  rw [hcount, sqliteCount, if_neg (by omega)] at hclaim
  cases hclaim

end MediaImporter

import MediaImporter.Gc.Outcome

/-!
# What a dry run predicts

A dry run and a real run have the same preflight, which decides whether anything is done at
all. The dry run then reads its report off the plan, and the real one counts what it stages
and unlinks. Both lists of actions are the planned marks, the planned removals of marks and
the candidates, in this order, and the bytes that are counted are those of the candidates
whose files are there.

## Main definitions

* `meets_collectDryRun` — what a dry run returns.
* `Predicts` — two outcomes that agree.
* `collectDryRun_predicts` — a dry run predicts every real run.
* `meets_collectReal_calm` — a real run in which nothing fails.
-/

namespace MediaImporter

open Utf8 UnixPath
open Program (Meets ObeysT)

/-! ## Dry runs -/

/-- Calls that only look. -/
def LookCall : GcCall → Prop
  | .view | .telemetryFailed | .openCopy => True
  | _ => False

section DryRun

variable {ε : Type}

/-- A part that only looks. -/
abbrev LookProgram {α : Type} (p : GcProgram ε α) : Prop :=
  ObeysT AnyAnswer LookCall (fun _ => True) p

theorem looks_ofExcept {α : Type} (r : Except ε α) : LookProgram (ofExcept r) := by
  cases r with
  | ok a => exact Program.obeysT_pure trivial
  | error e => exact Program.obeysT_throw e

theorem looks_checkGcTelemetry : LookProgram checkGcTelemetry := by
  refine (Program.obeysT_requestT (i := GcCall.telemetryFailed) trivial).bind fun failed _ => ?_
  cases failed with
  | true => exact Program.obeysT_throw _
  | false => exact Program.obeysT_pure trivial

theorem looks_runPreflight (digest : Bytes → BlobHash) (dryRun : Bool)
    (snapshot : CatalogAuditSnapshot) : LookProgram (runPreflight digest dryRun snapshot) := by
  refine (looks_ofExcept _).bind fun planned _ => ?_
  refine looks_checkGcTelemetry.bind fun _ _ => ?_
  refine (Program.obeysT_requestT (i := GcCall.view) trivial).bind fun reader _ => ?_
  refine ObeysT.bind (M := fun _ => True) ?_ fun _ _ => Program.obeysT_pure trivial
  refine Program.obeysT_foldlM _ fun a b _ => ?_
  exact looks_checkGcTelemetry.bind fun _ _ => looks_ofExcept _

theorem looks_collectDryRun (digest : Bytes → BlobHash) :
    LookProgram (collectDryRun digest) := by
  refine (Program.obeysT_requestT (i := GcCall.openCopy) trivial).bind fun opened _ => ?_
  refine (looks_ofExcept _).bind fun catalog _ => ?_
  refine (looks_ofExcept _).bind fun _ _ => ?_
  refine (looks_runPreflight digest true _).bind fun preflight _ => ?_
  dsimp only
  split
  · refine ObeysT.bind (M := fun _ => True) ?_ fun _ _ => Program.obeysT_pure trivial
    exact Program.obeysT_forM fun _ _ => looks_checkGcTelemetry
  · exact Program.obeysT_pure trivial

variable [SqlArithmetic] {env : GcEnvironment} {w w' : GcWorld}

theorem sameState_gcHandler {call : GcCall} (hcall : LookCall call) (hw : w.SameState w') :
    w.SameState (gcHandler env call w').2 := by
  cases call with
  | view | telemetryFailed | openCopy => exact hw
  | store _ | writer _ | openCatalog | now => exact hcall.elim

/-- A dry run changes nothing, wherever it is stopped. -/
theorem collectDryRun_looks (digest : Bytes → BlobHash) (env : GcEnvironment) (w : GcWorld)
    (n : ℕ) : w.SameState
      (Program.after (gcHandler env) n (ExceptT.run (collectDryRun digest)) w) :=
  Program.after_of_throughout (gcHandler env) n
    (Program.Obeys.throughout (gcHandler env) (fun _ _ _ => trivial)
      (fun _ _ hcall hw => sameState_gcHandler hcall hw) (looks_collectDryRun digest) (.refl w))

/-- What a dry run returns for a preflight. -/
def Preflight.dryOutcome (p : Preflight) : GcOutcome :=
  if p.report.findings = [] then .complete { p.report with actions := plannedActions p }
  else .blocked p.report

/-- The preflight of a world. -/
def GcWorld.preflightOf (digest : Bytes → BlobHash) (env : GcEnvironment) (w : GcWorld)
    (dryRun : Bool) : Except String Preflight :=
  MediaImporter.preflightOf digest ⟨w.store, env.readFails⟩ dryRun
    (inspectCatalogConnection w.catalog)

theorem meets_collectDryRun (digest : Bytes → BlobHash) (env : GcEnvironment) (w : GcWorld) :
    Meets (gcHandler env) (fun _ => True) (collectDryRun digest) w
      (fun outcome _ => ∃ p, w.preflightOf digest env true = .ok p ∧ outcome = p.dryOutcome)
      (fun e _ => env.Faultless → requireCurrentSchema w.catalog = .ok () →
        w.preflightOf digest env true = .error e) := by
  refine Program.meets_requestT_bind trivial ?_
  have hopen : (gcHandler env .openCopy w).1 = orElseFails env.openFails (.ok w.catalog) := rfl
  rw [hopen]
  cases hfails : env.openFails with
  | some e =>
      refine Program.meets_throw trivial fun henv _ => ?_
      simp [henv.opens] at hfails
  | none =>
      change Meets (gcHandler env) _ (ofExcept (requireCurrentSchema w.catalog) >>= _) w.next _ _
      cases hschema : requireCurrentSchema w.catalog with
      | error e => exact Program.meets_throw trivial fun _ h => nomatch h
      | ok u =>
          refine (meets_runPreflight (P := fun _ => True) (w := w.next) true _
            fun _ _ _ => trivial).bind ?_
            fun e w' h henv _ => h.2 henv
          rintro p w' - ⟨-, hp⟩
          dsimp only
          by_cases hnil : p.report.findings = []
          · rw [if_pos hnil]
            refine Meets.bind (R := fun _ _ => True) (F := fun _ _ => ¬ env.Faultless) ?_ ?_ ?_
            · refine Program.meets_forM (fun _ _ => True) trivial (fun _ _ => trivial) ?_
              intro done x rest w'' _ _
              exact (meets_checkGcTelemetry fun _ _ => trivial).mono (fun _ _ _ => trivial)
                fun _ _ h => h.2
            · exact fun _ w'' _ _ => Program.meets_pure trivial
                ⟨p, hp, by rw [Preflight.dryOutcome, if_pos hnil]⟩
            · exact fun _ _ h henv _ => absurd henv h
          · rw [if_neg hnil]
            exact Program.meets_pure trivial ⟨p, hp, by rw [Preflight.dryOutcome, if_neg hnil]⟩

end DryRun

/-! ## Predictions -/

/-- What a dry run says is going to happen has happened. -/
structure Foretold (planned completed : GcReport) : Prop where
  findings : completed.findings = planned.findings
  actions : completed.actions = planned.actions
  marks : completed.completedMarks = planned.plannedMarks
  resurrections : completed.completedResurrections = planned.plannedResurrections
  sweeps : completed.completedSweeps = planned.plannedSweeps
  reclaimed : completed.bytesReclaimed = planned.bytesReclaimable
  unlinked : completed.bytesUnlinked = planned.bytesReclaimable

/-- The outcomes of a dry run and of a real run agree. -/
inductive Predicts : GcOutcome → GcOutcome → Prop
  | blocked {planned report : GcReport} (findings : report.findings = planned.findings) :
      Predicts (.blocked planned) (.blocked report)
  | complete {planned completed : GcReport} (h : Foretold planned completed) :
      Predicts (.complete planned) (.complete completed)
  /-- The real run met a failure. -/
  | incomplete {planned report : GcReport} {e : String}
      (findings : report.findings = planned.findings) :
      Predicts (.complete planned) (.incomplete report e)

section Predicts

variable {digest : Bytes → BlobHash} {readFails : ReadCall → Bool} {c : Catalog} {d : Store}

/-- The planned counts are those of the plan. -/
theorem planned_of_preflightOf {r : StoreReader} {dryRun : Bool} {snapshot : CatalogAuditSnapshot}
    {p : Preflight} (h : preflightOf digest r dryRun snapshot = .ok p) :
    p.report.plannedMarks = p.plan.marks.length ∧
      p.report.plannedResurrections = p.plan.resurrections.length ∧
      p.report.plannedSweeps = p.plan.sweeps.length := by
  unfold preflightOf at h
  simp only [Except.bind_eq_ok, Except.pure_eq_ok, Except.ok.injEq] at h
  obtain ⟨⟨plan, reachable⟩, -, s, -, rfl⟩ := h
  exact ⟨rfl, rfl, rfl⟩

/-- What a plan that is applied completely reports was planned. -/
theorem GcSession.Valid.foretold {x : GcSession} (hx : x.Valid digest readFails) :
    Foretold { x.preflight.report with actions := plannedActions x.preflight } x.completed := by
  obtain ⟨dryRun, hpreflight⟩ := hx.preflight
  obtain ⟨hmarks, hresurrections, hsweeps⟩ := planned_of_preflightOf hpreflight
  have hlength : x.preflight.sweepCandidates.length = x.preflight.plan.sweeps.length := by
    rw [← hx.map_blob, List.length_map]
  have hbytes := hx.clean.reclaimable.1
  exact
    { findings := rfl
      actions := rfl
      marks := hmarks.symm
      resurrections := hresurrections.symm
      sweeps := hlength.trans hsweeps.symm
      reclaimed := hbytes.symm
      unlinked := hbytes.symm }

/-- A dry run and a real run of one state agree. -/
theorem Concludes.predicted {p : Preflight} {outcome : GcOutcome}
    (h : Concludes digest readFails c d outcome)
    (hp : preflightOf digest ⟨d, readFails⟩ true (inspectCatalogConnection c) = .ok p) :
    Predicts p.dryOutcome outcome := by
  have hsame : ∀ q, preflightOf digest ⟨d, readFails⟩ false (inspectCatalogConnection c) = .ok q →
      p = q.reportedFor true := by
    intro q hq
    rw [preflightOf_eq_map digest _ true false, hq] at hp
    exact (Except.ok.inj hp).symm
  cases h with
  | blocked q hq findings heq =>
      obtain rfl := hsame q hq
      subst heq
      rw [Preflight.dryOutcome, if_neg (show (q.reportedFor true).report.findings ≠ [] from
        findings)]
      exact .blocked rfl
  | applied q now hq findings returns =>
      obtain rfl := hsame q hq
      have hx : GcSession.Valid digest readFails ⟨c, d, q, now⟩ := ⟨⟨false, hq⟩, findings⟩
      rw [Preflight.dryOutcome, if_pos (show (q.reportedFor true).report.findings = [] from
        findings)]
      rcases returns with rfl | ⟨report, e, rfl, hfindings⟩
      · have h := hx.foretold
        exact .complete ⟨h.findings, h.actions, h.marks, h.resurrections, h.sweeps, h.reclaimed,
          h.unlinked⟩
      · exact .incomplete hfindings

end Predicts

/-! ## Real runs without failures -/

section Calm

variable [SqlArithmetic] {env : GcEnvironment} {w : GcWorld}

omit [SqlArithmetic] in
theorem joinResults_ok (context : String) (result : Except String GcOutcome) :
    joinResults context result (.ok ()) = result := by
  cases result <;> rfl

/-- The writer that has no session is joined. -/
theorem meets_finishWith (henv : env.writer.Faultless) {thread : WriterThread}
    (hthread : ∃ wr, thread = .ok wr ∧ wr.Over) (context : String)
    (result : Except String GcOutcome) :
    Meets (gcHandler env) (fun _ => True) (finishWith context thread result) w
      (fun outcome w' => result = .ok outcome ∧ w'.store = w.store ∧ w'.catalog = w.catalog ∧
        w'.writer.connection.transaction = w.writer.connection.transaction)
      (fun e _ => result = .error e) := by
  obtain ⟨wr, rfl, hover⟩ := hthread
  refine (meets_finishWriter henv hover).bind ?_ fun _ _ he => he
  rintro _ w' - ⟨rfl, hw'⟩
  rw [joinResults_ok]
  cases result with
  | ok outcome => exact Program.meets_pure trivial ⟨rfl, hw'⟩
  | error e => exact Program.meets_throw trivial rfl

/-- What a collection ends with in which nothing fails: it is blocked, and nothing is different,
or the whole plan is applied. -/
inductive CalmEnd (digest : Bytes → BlobHash) (env : GcEnvironment) (w : GcWorld)
    (outcome : GcOutcome) (w' : GcWorld) : Prop
  | blocked (p : Preflight) (hp : w.preflightOf digest env false = .ok p)
      (findings : p.report.findings ≠ []) (heq : outcome = .blocked p.report)
      (store : w'.store = w.store) (catalog : w'.catalog = w.catalog)
  | applied (x : GcSession) (hp : w.preflightOf digest env false = .ok x.preflight)
      (findings : x.preflight.report.findings = []) (catalog : x.catalog = w.catalog)
      (store : x.store = w.store) (report : GcReport) (heq : outcome = .complete report)
      (accounts : Accounts x x.planned report x.preflight.sweepCandidates w')

/-- The collection after its session has begun, where nothing fails. -/
theorem meets_collectInSession_calm (digest : Bytes → BlobHash) (henv : env.Faultless) (hfits : w.catalog.Fits)
    (ht : w.writer.connection.transaction = some w.catalog) :
    Meets (gcHandler env) (fun _ => True)
      (collectInSession digest (.ok Writer.inSession) (inspectCatalogConnection w.catalog)) w
      (fun outcome w' => CalmEnd digest env w outcome w' ∧
        w'.writer.connection.transaction = none)
      (fun e _ => w.preflightOf digest env false = .error e) := by
  refine (meets_attempt (E := fun e _ => w.preflightOf digest env false = .error e)
    (Q := fun r w' => w.SameState w' ∧ r = w.preflightOf digest env false)
    (meets_runPreflight false _ fun _ _ _ => trivial) ?_ ?_).bind ?_ fun _ _ he => he
  · exact fun p w' h => ⟨h.1, h.2.symm⟩
  · exact fun e w' h => ⟨h.1, (h.2 henv).symm⟩
  rintro checked w' - ⟨hw', hchecked⟩
  have hcatalog : w'.catalog = w.catalog := congrArg (·.connection.committed) hw'.2
  have ht' : w'.writer.connection.transaction = some w'.catalog := by
    rw [hcatalog, ← ht]
    exact congrArg (·.connection.transaction) hw'.2
  cases checked with
  | error e =>
      refine (meets_rollbackSession henv.writer ht').bind ?_ fun _ _ he => he
      rintro ⟨_, thread⟩ w'' - ⟨rfl, hthread, -⟩
      refine (meets_finishWith henv.writer hthread _ _).mono ?_ ?_
      · exact fun _ _ h => nomatch h.1
      · rintro _ _ ⟨⟩
        exact hchecked.symm
  | ok preflight =>
      dsimp only
      by_cases hnil : preflight.report.findings = []
      · rw [if_pos hnil]
        have hx : (w'.session env preflight).Valid digest env.readFails := by
          refine ⟨⟨false, ?_⟩, hnil⟩
          unfold GcWorld.session
          rw [hcatalog, hw'.1]
          exact hchecked.symm
        obtain ⟨r, w'', hexec, happlied⟩ :=
          exec_applyPlan_accounts String henv.mild ht' hx
        refine (Program.meets_of_exec (Q := AppliedPlan env w' preflight) hexec
          happlied).bind ?_ fun _ _ he => he
        rintro r w'' - happlied
        obtain ⟨report, hreport⟩ := happlied.calm henv (hcatalog ▸ hfits)
        refine (meets_finishWith henv.writer happlied.thread _ r.1).mono ?_ ?_
        · rintro outcome v ⟨houtcome, hstore, hcatalog', htransaction⟩
          obtain rfl := Except.ok.inj (hreport.symm.trans houtcome)
          refine ⟨.applied (w'.session env preflight) hchecked.symm hnil hcatalog hw'.1 report rfl
            ?_, htransaction.trans happlied.transaction⟩
          have haccounts := (happlied.complete report hreport).accounts
          exact
            { haccounts with
              store := hstore ▸ haccounts.store
              catalog := hcatalog'.trans haccounts.catalog
              owed := fun candidate hmem hnot => absurd hmem hnot }
        · intro e _ herror
          rw [hreport] at herror
          cases herror
      · rw [if_neg hnil]
        refine (meets_rollbackSession henv.writer ht').bind ?_ fun _ _ he => he
        rintro ⟨_, thread⟩ w'' - ⟨rfl, hthread, hended⟩
        refine (meets_finishWith henv.writer hthread _ _).mono ?_ ?_
        · rintro outcome v ⟨⟨⟩, hstore, hcatalog', htransaction⟩
          exact ⟨.blocked preflight hchecked.symm hnil rfl
            (hstore.trans (hended.store.trans hw'.1))
            (hcatalog'.trans (hended.catalog.trans hcatalog)),
            htransaction.trans hended.transaction⟩
        · exact fun _ _ h => nomatch h

/-- A collection of a current catalog, where nothing fails. It errs with the preflight only. -/
theorem meets_collectReal_calm (digest : Bytes → BlobHash) (henv : env.Faultless) (hfits : w.catalog.Fits)
    (hopen : openExistingGcCatalog w.catalog = .ok ())
    (ht : w.writer.connection.transaction = none) :
    Meets (gcHandler env) (fun _ => True) (collectReal digest) w
      (fun outcome w' => CalmEnd digest env w outcome w' ∧
        w'.writer.connection.transaction = none)
      (fun e _ => w.preflightOf digest env false = .error e) := by
  have hversion : w.catalog.schema.userVersion = currentSchemaVersion := by
    unfold openExistingGcCatalog at hopen
    simp only [Except.bind_eq_ok, Except.ensure_eq_ok_iff] at hopen
    exact hopen.choose_spec.1
  refine Program.meets_requestT_bind trivial ?_
  have hanswer : (gcHandler env .openCatalog w).1 = .ok () := by
    change orElseFails env.openFails (openExistingGcCatalog w.catalog) = .ok ()
    rw [henv.opens, hopen]
    rfl
  rw [hanswer]
  refine (meets_beginSession (w := w.next) (P := fun _ => True) ht
    fun _ _ _ => trivial).bind ?_ fun _ _ he => he
  rintro ⟨begun, thread⟩ w' - h
  cases begun with
  | error e => exact absurd ⟨henv, hversion⟩ (h.failed e rfl)
  | ok snapshot =>
      obtain ⟨hthread, hsnapshot, htransaction⟩ := h.begun snapshot rfl
      have hstore : w'.store = w.store := h.store
      have hcatalog : w'.catalog = w.catalog := h.catalog
      obtain rfl : thread = .ok Writer.inSession := hthread
      subst hsnapshot
      have hpreflight : w'.preflightOf digest env false = w.preflightOf digest env false := by
        unfold GcWorld.preflightOf
        rw [hstore, hcatalog]
      have hrun := meets_collectInSession_calm (w := w') digest henv
        (hcatalog ▸ hfits) (htransaction.trans (congrArg some hcatalog.symm))
      rw [hcatalog, hpreflight] at hrun
      refine Meets.mono hrun ?_ fun _ _ h => h
      rintro outcome v ⟨hend, hv⟩
      refine ⟨?_, hv⟩
      cases hend with
      | blocked p hp findings heq store catalog =>
          exact .blocked p (hpreflight ▸ hp) findings heq (store.trans hstore)
            (catalog.trans hcatalog)
      | applied x hp findings catalog store report heq accounts =>
          exact .applied x (hpreflight ▸ hp) findings (catalog.trans hcatalog)
            (store.trans hstore) report heq accounts

end Calm

/-! ## A dry run predicts the real run -/

/-- Two results of the same kind, of which none met a failure: both fail with the same error of
the preflight, both are blocked, or both are complete. -/
inductive AlikeCalm : Except String GcOutcome → Except String GcOutcome → Prop
  | error (e : String) : AlikeCalm (.error e) (.error e)
  | blocked (planned report : GcReport) : AlikeCalm (.ok (.blocked planned)) (.ok (.blocked report))
  | complete (planned completed : GcReport) :
      AlikeCalm (.ok (.complete planned)) (.ok (.complete completed))

theorem alikeCalm_of_calmEnd [SqlArithmetic] {digest : Bytes → BlobHash} {env : GcEnvironment}
    {w w' : GcWorld} {p : Preflight} {outcome : GcOutcome}
    (hend : CalmEnd digest env w outcome w') (hp : w.preflightOf digest env true = .ok p) :
    AlikeCalm (.ok p.dryOutcome) (.ok outcome) := by
  have hsame : ∀ q, w.preflightOf digest env false = .ok q → p = q.reportedFor true := by
    intro q hq
    unfold GcWorld.preflightOf at hp hq
    rw [preflightOf_eq_map digest _ true false, hq] at hp
    exact (Except.ok.inj hp).symm
  cases hend with
  | blocked q hq findings heq _ _ =>
      obtain rfl := hsame q hq
      subst heq
      rw [Preflight.dryOutcome, if_neg (show (q.reportedFor true).report.findings ≠ [] from
        findings)]
      exact .blocked _ _
  | applied x hq findings _ _ report heq _ =>
      obtain rfl := hsame _ hq
      subst heq
      rw [Preflight.dryOutcome, if_pos (show (x.preflight.reportedFor true).report.findings = []
        from findings)]
      exact .complete _ _

/-- A dry run changes nothing, wherever it is stopped. Whatever the real run of the same state
meets, the two agree on the findings and on whether they block, and a complete real run has done
what the dry run listed. Where nothing fails, both end in the same way. -/
theorem collectDryRun_predicts [SqlArithmetic] (digest : Bytes → BlobHash)
    (dryEnv env : GcEnvironment) (hreads : dryEnv.readFails = env.readFails) (w : GcWorld)
    (ht : w.writer.connection.transaction = none) :
    (∀ n, w.SameState
      (Program.after (gcHandler dryEnv) n (ExceptT.run (collectDryRun digest)) w)) ∧
    (∀ planned w₁ outcome w₂,
      Program.exec (gcHandler dryEnv) (collectDryRun digest) w = (.ok planned, w₁) →
      Program.exec (gcHandler env) (collectReal digest) w = (.ok outcome, w₂) →
      Predicts planned outcome) ∧
    (openExistingGcCatalog w.catalog = .ok () → w.catalog.Fits → dryEnv.Faultless →
      env.Faultless →
      AlikeCalm (Program.exec (gcHandler dryEnv) (collectDryRun digest) w).1
        (Program.exec (gcHandler env) (collectReal digest) w).1) := by
  have hdry := meets_collectDryRun digest dryEnv w
  have hpreflight : ∀ dryRun, w.preflightOf digest dryEnv dryRun =
      w.preflightOf digest env dryRun := by
    intro dryRun
    unfold GcWorld.preflightOf
    rw [hreads]
  refine ⟨collectDryRun_looks digest dryEnv w, ?_, ?_⟩
  · intro planned w₁ outcome w₂ hplanned houtcome
    obtain ⟨p, hp, rfl⟩ := hdry.ok hplanned
    have hreal := (meets_collectReal env digest ht).ok houtcome
    exact hreal.2.predicted ((hpreflight true).symm.trans hp)
  · intro hopen hfits hdryEnv henv
    have hreal := meets_collectReal_calm digest henv hfits hopen ht
    have hschema : requireCurrentSchema w.catalog = .ok () := by
      unfold openExistingGcCatalog at hopen
      simp only [Except.bind_eq_ok] at hopen
      exact hopen.choose_spec.1
    rcases hdryRun : Program.exec (gcHandler dryEnv) (collectDryRun digest) w with
      ⟨e | planned, w₁⟩
    · -- the preflight fails
      have herror := (hpreflight true).symm.trans (hdry.error hdryRun hdryEnv hschema)
      have herror' : w.preflightOf digest env false = .error e := by
        unfold GcWorld.preflightOf at herror ⊢
        rw [preflightOf_eq_map digest _ false true, herror]
        rfl
      rcases hrun : Program.exec (gcHandler env) (collectReal digest) w with ⟨e' | outcome, w₂⟩
      · obtain rfl := Except.error.inj ((hreal.error hrun).symm.trans herror')
        exact .error e'
      · cases (hreal.ok hrun).1 with
        | blocked p hp | applied x hp => rw [herror'] at hp; cases hp
    · obtain ⟨p, hp, rfl⟩ := hdry.ok hdryRun
      have hp := (hpreflight true).symm.trans hp
      rcases hrun : Program.exec (gcHandler env) (collectReal digest) w with ⟨e' | outcome, w₂⟩
      · have herror := hreal.error hrun
        unfold GcWorld.preflightOf at herror hp
        rw [preflightOf_eq_map digest _ true false, herror] at hp
        cases hp
      · exact alikeCalm_of_calmEnd (hreal.ok hrun).1 hp

/-- A marked blob whose file is gone. -/
def halfSweptCatalogWorld : GcWorld := ⟨bareCas, ⟨⟨markedCatalog, none, 0⟩, [], 0, []⟩, 0⟩

theorem markedCatalog_fits : markedCatalog.Fits where
  sizes := by
    intro row hrow v hv
    obtain rfl := List.mem_singleton.mp hrow
    cases hv
    decide
  rows := by decide

theorem collectDryRun_predicts_halfSwept : ∃ _ : SqlArithmetic,
    AlikeCalm
      (Program.exec (gcHandler calmEnvironment) (collectDryRun fun _ => emptyHash)
        halfSweptCatalogWorld).1
      (Program.exec (gcHandler calmEnvironment) (collectReal fun _ => emptyHash)
        halfSweptCatalogWorld).1 := by
  let _ := integerSums
  exact ⟨integerSums, (collectDryRun_predicts (fun _ => emptyHash) calmEnvironment
    calmEnvironment rfl halfSweptCatalogWorld rfl).2.2 (by decide +kernel) markedCatalog_fits
    calmEnvironment_faultless calmEnvironment_faultless⟩

end MediaImporter

import MediaImporter.Ingest.Workers

/-!
# The readers of each device, as they are reported

A worker counts itself among the readers of a device under a lock, and tells the observer the
new count when it has left the lock. The observer of the command line keeps the last count of
each device under a lock of its own, and sends the sum of them when it has left that one. So
a count can be told, and a sum can be sent, after one that was taken later.

Here the worker's pass through one lock is one move, and what it holds in between is kept in
the order in which it was taken.

## Main definitions

* `ReaderGauge`, `ReaderGauge.step` — the counts, what is told of them, and the moves.
* `ReaderGauge.InOrder` — a move that tells nothing before what was taken earlier.
-/

namespace MediaImporter

/-- Where a worker is between two reads, or in one. -/
inductive ReaderPhase
  | waiting
  /-- Counted, and not yet past the report of it. -/
  | starting (mountId : MountId)
  | reading (mountId : MountId)
  /-- No longer counted, and not yet past the report of it. -/
  | stopping (mountId : MountId)
  /-- The accounting has failed, and the worker has left its loop. -/
  | broken (context : String)
  deriving DecidableEq

/-- The device that the worker is counted for. -/
def ReaderPhase.counted : ReaderPhase → Option MountId
  | starting mountId | reading mountId => some mountId
  | _ => none

/-- The worker reads nothing, and has reported so. -/
def ReaderPhase.Stopped : ReaderPhase → Prop
  | waiting | broken _ => True
  | _ => False

instance : DecidablePred ReaderPhase.Stopped := fun phase =>
  match phase with
  | .waiting | .broken _ => isTrue trivial
  | .starting _ | .reading _ | .stopping _ => isFalse id

/-- A count that a worker holds to tell it. -/
structure ReaderCount where
  worker : ℕ
  mountId : MountId
  active : ℕ
  deriving DecidableEq

/-- The fields of an `active_content_workers` event. -/
structure ActiveTotals where
  active : ℕ
  mounts : ℕ
  deriving DecidableEq

structure ReaderGauge where
  workers : List ReaderPhase
  readers : Counters MountId
  /-- What is counted and not told yet, in the order in which it was counted. -/
  untold : List ReaderCount
  observed : List (MountId × ℕ)
  activeMounts : Counters MountId
  /-- What is summed up and not sent yet, with the worker, in the order of the sums. -/
  unsent : List (ℕ × ActiveTotals)
  emitted : List ActiveTotals

/-- The sum over the devices that have readers, and how many they are. -/
def ActiveTotals.of (activeMounts : Counters MountId) : ActiveTotals :=
  ⟨(activeMounts.entries.map fun entry => entry.2).sum, activeMounts.entries.length⟩

/-- `increment_readers`. -/
def incrementReaders (readers : Counters MountId) (mountId : MountId) :
    Except String (Counters MountId) :=
  match readers.raise mountId with
  | some readers => .ok readers
  | none => .error "active source reader counter overflow"

inductive ReaderMove
  | start (worker : ℕ) (mountId : MountId)
  | stop (worker : ℕ) (mountId : MountId)
  /-- The observer is told the held count at a position. -/
  | tell (position : ℕ)
  /-- The held sum at a position is sent. -/
  | send (position : ℕ)
  deriving DecidableEq

namespace ReaderGauge

def start (workers : ℕ) : ReaderGauge :=
  ⟨List.replicate workers .waiting, ∅, [], [], ∅, [], []⟩

/-- The worker goes on, past the report. -/
def resume : ReaderPhase → ReaderPhase
  | .starting mountId => .reading mountId
  | .stopping _ => .waiting
  | phase => phase

def setWorker (s : ReaderGauge) (worker : ℕ) (phase : ReaderPhase) : ReaderGauge :=
  { s with workers := s.workers.set worker phase }

def step (s : ReaderGauge) : ReaderMove → Option ReaderGauge
  | .start worker mountId =>
      if s.workers[worker]? = some .waiting then
        match incrementReaders s.readers mountId with
        | .ok readers => some { s.setWorker worker (.starting mountId) with
            readers
            untold := s.untold ++ [⟨worker, mountId, readers.count mountId⟩] }
        | .error error => some (s.setWorker worker (.broken error))
      else none
  | .stop worker mountId =>
      if s.workers[worker]? = some (.reading mountId) then
        match decrementReaders s.readers mountId with
        | .ok active => some { s.setWorker worker (.stopping mountId) with
            readers := s.readers.settle mountId active
            untold := s.untold ++ [⟨worker, mountId, active⟩] }
        | .error error => some (s.setWorker worker (.broken error))
      else none
  | .tell position =>
      match s.untold[position]? with
      | some ⟨worker, mountId, active⟩ =>
          let activeMounts := s.activeMounts.settle mountId active
          some { s with
            untold := s.untold.eraseIdx position
            observed := s.observed ++ [(mountId, active)]
            activeMounts
            unsent := s.unsent ++ [(worker, .of activeMounts)] }
      | none => none
  | .send position =>
      match s.unsent[position]? with
      | some (worker, totals) =>
          match s.workers[worker]? with
          | some phase => some { s.setWorker worker (resume phase) with
              unsent := s.unsent.eraseIdx position
              emitted := s.emitted ++ [totals] }
          | none => none
      | none => none

/-- No worker reads, and all have reported so. -/
def Stopped (s : ReaderGauge) : Prop := ∀ phase ∈ s.workers, phase.Stopped

instance (s : ReaderGauge) : Decidable s.Stopped := inferInstanceAs (Decidable (∀ _ ∈ _, _))

/-- The counts of a device that the observer was told. -/
def told (s : ReaderGauge) (mountId : MountId) : List ℕ :=
  (s.observed.filter fun count => count.1 = mountId).map Prod.snd

/-- The move tells the oldest held count of its device, or sends the oldest held sum. -/
def InOrder (s : ReaderGauge) : ReaderMove → Prop
  | .tell position => ∀ count ∈ s.untold[position]?,
      ∀ earlier ∈ s.untold.take position, earlier.mountId ≠ count.mountId
  | .send position => position = 0
  | _ => True

instance (s : ReaderGauge) (move : ReaderMove) : Decidable (s.InOrder move) :=
  match move with
  | .tell position => inferInstanceAs (Decidable (∀ _ ∈ s.untold[position]?, _))
  | .send position => inferInstanceAs (Decidable (position = 0))
  | .start _ _ | .stop _ _ => isTrue trivial

/-- One for a worker that is counted for the device. -/
def tally (mountId : MountId) (phase : ReaderPhase) : ℕ :=
  if phase.counted = some mountId then 1 else 0

/-- One for a worker that has a report to make. -/
def owed : ReaderPhase → ℕ
  | .starting _ | .stopping _ => 1
  | _ => 0

def held (s : ReaderGauge) (worker : ℕ) : ℕ :=
  (s.untold.map fun count => if count.worker = worker then 1 else 0).sum +
    (s.unsent.map fun sum => if sum.1 = worker then 1 else 0).sum

/-- The counts are those of the workers, and a worker holds what it owes. -/
structure Accounted (s : ReaderGauge) : Prop where
  counts : ∀ mountId, s.readers.count mountId = (s.workers.map (tally mountId)).sum
  holds : ∀ worker, s.held worker = ((s.workers[worker]?).map owed).getD 0

variable {s t : ReaderGauge} {move : ReaderMove}

theorem Accounted.start (workers : ℕ) : (start workers).Accounted := by
  constructor
  · intro mountId
    simp [ReaderGauge.start, tally, ReaderPhase.counted]
  · intro worker
    simp only [held, ReaderGauge.start, List.map_nil, List.sum_nil, List.getElem?_replicate]
    split_ifs <;> rfl

section Moved

variable {worker : ℕ} {before phase : ReaderPhase} {readers : Counters MountId}

/-- A worker that changes its phase changes the counts and what it owes by as much. -/
theorem Accounted.moved (h : s.Accounted) (hworker : s.workers[worker]? = some before)
    (hworkers : t.workers = s.workers.set worker phase)
    (hcounts : ∀ mountId, t.readers.count mountId + tally mountId before =
      s.readers.count mountId + tally mountId phase)
    (hheld : ∀ other, t.held other + (if other = worker then owed before else 0) =
      s.held other + if other = worker then owed phase else 0) : t.Accounted := by
  constructor
  · intro mountId
    have hset := sum_map_set (b := phase) (tally mountId) hworker
    have hbefore := h.counts mountId
    have hafter := hcounts mountId
    rw [hworkers]
    omega
  · intro other
    have hbefore := h.holds other
    have hafter := hheld other
    have hlt := (List.getElem?_eq_some_iff.1 hworker).1
    rw [hworkers]
    split_ifs at hafter with hother
    · subst hother
      rw [hworker] at hbefore
      rw [List.getElem?_set_self hlt]
      simp only [Option.map_some, Option.getD_some] at hbefore ⊢
      omega
    · rw [List.getElem?_set_ne (Ne.symm hother)]
      omega

end Moved

theorem Accounted.step (h : s.Accounted) (hstep : s.step move = some t) : t.Accounted := by
  cases move with
  | start worker mountId =>
      simp only [ReaderGauge.step] at hstep
      split_ifs at hstep with hwaiting
      split at hstep
      · next readers hraised =>
        cases hstep
        simp only [incrementReaders] at hraised
        split at hraised <;> cases hraised
        next hraise =>
        refine h.moved hwaiting rfl ?_ ?_
        · intro mountId'
          have hcount := Counters.raise_eq_some hraise mountId'
          simp only [tally, ReaderPhase.counted, Option.some.injEq, reduceCtorEq, if_false,
            eq_comm (a := mountId)]
          omega
        · intro other
          simp only [held, setWorker, owed, List.map_append, List.sum_append, List.map_cons,
            List.map_nil, List.sum_cons, List.sum_nil, ite_self, eq_comm (a := worker)]
          omega
      · cases hstep
        exact h.moved hwaiting rfl (fun _ => rfl) fun _ => rfl
  | stop worker mountId =>
      simp only [ReaderGauge.step] at hstep
      split_ifs at hstep with hreading
      have hpos : 0 < s.readers.count mountId := by
        have hle := le_sum_map (tally mountId) hreading
        have hone : tally mountId (.reading mountId) = 1 := if_pos rfl
        have hcount := h.counts mountId
        omega
      obtain ⟨active, hlowered⟩ := Counters.exists_lowered
        "source reader finished without start accounting" "active source reader counter underflow"
        hpos
      have hactive := Counters.lowered_ok hlowered
      rw [decrementReaders, hlowered] at hstep
      cases hstep
      refine h.moved hreading rfl ?_ ?_
      · intro mountId'
        have hcount := Counters.count_settle (m := s.readers) (k := mountId) (n := active) mountId'
        simp only [tally, ReaderPhase.counted, Option.some.injEq, reduceCtorEq, if_false,
          eq_comm (a := mountId)]
        by_cases hm : mountId' = mountId
        · subst hm
          rw [if_pos rfl] at hcount ⊢
          change (s.readers.settle mountId' active).count mountId' + 1 = _
          omega
        · rw [if_neg hm] at hcount ⊢
          change (s.readers.settle mountId active).count mountId' + 0 = _
          omega
      · intro other
        simp only [held, setWorker, owed, List.map_append, List.sum_append, List.map_cons,
          List.map_nil, List.sum_cons, List.sum_nil, ite_self, eq_comm (a := worker)]
        omega
  | tell position =>
      simp only [ReaderGauge.step] at hstep
      split at hstep
      · next worker mountId active huntold =>
        cases hstep
        refine ⟨h.counts, fun other => ?_⟩
        rw [← h.holds other]
        have herase := sum_map_eraseIdx
          (fun count : ReaderCount => if count.worker = other then 1 else 0) huntold
        simp only at herase
        simp only [held, List.map_append, List.sum_append, List.map_cons, List.map_nil,
          List.sum_cons, List.sum_nil]
        omega
      · cases hstep
  | send position =>
      simp only [ReaderGauge.step] at hstep
      split at hstep
      · next worker totals hunsent =>
        split at hstep
        · next phase hphase =>
          cases hstep
          have hone (other : ℕ) := sum_map_eraseIdx
            (fun sum : ℕ × ActiveTotals => if sum.1 = other then 1 else 0) hunsent
          -- the worker holds the sum, so it is past its count and owes the report
          have howed := h.holds worker
          have hmine := hone worker
          rw [hphase] at howed
          simp only [held, Option.map_some, Option.getD_some, if_pos] at howed hmine
          refine h.moved hphase rfl ?_ ?_
          · intro mountId
            cases phase <;> rfl
          · intro other
            have hothers := hone other
            simp only at hothers
            simp only [held, setWorker, eq_comm (a := other)]
            cases phase <;> simp only [owed, resume, ite_self] at howed ⊢ <;> omega
        · cases hstep
      · cases hstep

/-! ## Reports in order -/

/-- The counts of a device that are still held. -/
def waiting (s : ReaderGauge) (mountId : MountId) : List ℕ :=
  (s.untold.filter fun count => count.mountId = mountId).map ReaderCount.active

/-- What was told and what is held ends with what is true now. -/
structure Current (s : ReaderGauge) : Prop where
  latest : ∀ mountId, (s.told mountId ++ s.waiting mountId).getLast?.getD 0 =
    s.readers.count mountId
  mounts : ∀ mountId, s.activeMounts.count mountId = (s.told mountId).getLast?.getD 0
  positive : ∀ mountId, s.activeMounts.lookup mountId ≠ some 0
  totals : (s.emitted ++ s.unsent.map Prod.snd).getLast?.getD ⟨0, 0⟩ = .of s.activeMounts

theorem Current.start (workers : ℕ) : (start workers).Current := by
  refine ⟨fun _ => ?_, fun _ => ?_, fun _ h => ?_, rfl⟩
  · rw [ReaderGauge.start, Counters.count_empty]
    rfl
  · rw [ReaderGauge.start, Counters.count_empty]
    rfl
  · rw [ReaderGauge.start, AList.lookup_empty] at h
    cases h

section Counted

variable {worker active : ℕ} {mountId : MountId}

/-- A count that is taken becomes the last of its device. -/
theorem Current.counted (h : s.Current)
    (hcount : ∀ mountId', t.readers.count mountId' =
      if mountId' = mountId then active else s.readers.count mountId')
    (huntold : t.untold = s.untold ++ [⟨worker, mountId, active⟩])
    (hobserved : t.observed = s.observed) (hmounts : t.activeMounts = s.activeMounts)
    (hunsent : t.unsent = s.unsent) (hemitted : t.emitted = s.emitted) : t.Current := by
  have htold (mountId' : MountId) : t.told mountId' = s.told mountId' := by
    rw [told, hobserved, told]
  refine ⟨fun mountId' => ?_, fun mountId' => ?_, ?_, ?_⟩
  · have hlatest := h.latest mountId'
    rw [hcount, htold, waiting, huntold, List.filter_append, List.map_append]
    by_cases hm : mountId' = mountId
    · subst hm
      simp
    · rw [if_neg hm, List.filter_cons_of_neg (by simpa using Ne.symm hm), List.filter_nil,
        List.map_nil, List.append_nil]
      exact hlatest
  · rw [htold, hmounts, h.mounts]
  · rw [hmounts]
    exact h.positive
  · rw [hemitted, hunsent, hmounts, h.totals]

end Counted

/-- A list without one of its elements, of which it had none before that place. -/
theorem filter_eraseIdx {α : Type} {p : α → Bool} {l : List α} {i : ℕ} {a : α}
    (h : l[i]? = some a) (hp : p a) (hfirst : ∀ b ∈ l.take i, p b = false) :
    l.filter p = a :: (l.eraseIdx i).filter p := by
  obtain ⟨hlt, hget⟩ := List.getElem?_eq_some_iff.1 h
  have hsplit : l = l.take i ++ a :: l.drop (i + 1) := by
    rw [← hget, List.getElem_cons_drop, List.take_append_drop]
  have hnone : (l.take i).filter p = [] := by
    rw [List.filter_eq_nil_iff]
    intro b hb
    rw [hfirst b hb]
    exact Bool.false_ne_true
  conv_lhs => rw [hsplit]
  rw [List.eraseIdx_eq_take_drop_succ, List.filter_append, List.filter_append, hnone,
    List.filter_cons_of_pos hp]
  rfl

theorem filter_eraseIdx_of_neg {α : Type} {p : α → Bool} {l : List α} {i : ℕ} {a : α}
    (h : l[i]? = some a) (hp : p a = false) : (l.eraseIdx i).filter p = l.filter p := by
  obtain ⟨hlt, hget⟩ := List.getElem?_eq_some_iff.1 h
  have hsplit : l = l.take i ++ a :: l.drop (i + 1) := by
    rw [← hget, List.getElem_cons_drop, List.take_append_drop]
  conv_rhs => rw [hsplit]
  rw [List.eraseIdx_eq_take_drop_succ, List.filter_append, List.filter_append,
    List.filter_cons_of_neg (by simp [hp])]

theorem positive_settle {counters : Counters MountId} (h : ∀ m, counters.lookup m ≠ some 0)
    (mountId : MountId) (active : ℕ) (m : MountId) :
    (counters.settle mountId active).lookup m ≠ some 0 := by
  unfold Counters.settle
  by_cases hm : m = mountId
  · subst hm
    split_ifs with hzero
    · rw [AList.lookup_erase]
      exact Option.some_ne_none 0 |>.symm
    · rw [AList.lookup_insert, ne_eq, Option.some.injEq]
      exact hzero
  · split_ifs
    · rw [AList.lookup_erase_ne hm]
      exact h m
    · rw [AList.lookup_insert_ne hm]
      exact h m

theorem Current.step (h : s.Current) (hinOrder : s.InOrder move)
    (hstep : s.step move = some t) : t.Current := by
  cases move with
  | start worker mountId =>
      simp only [ReaderGauge.step] at hstep
      split_ifs at hstep with hwaiting
      split at hstep
      · next readers hraised =>
        cases hstep
        simp only [incrementReaders] at hraised
        split at hraised <;> cases hraised
        next hraise =>
        refine h.counted (fun mountId' => ?_) rfl rfl rfl rfl rfl
        have hcount := Counters.raise_eq_some hraise
        split_ifs with hm
        · rw [hm]
        · rw [hcount mountId', if_neg hm, Nat.add_zero]
      · cases hstep
        exact ⟨h.latest, h.mounts, h.positive, h.totals⟩
  | stop worker mountId =>
      simp only [ReaderGauge.step] at hstep
      split_ifs at hstep with hreading
      split at hstep
      · cases hstep
        exact h.counted (fun mountId' => Counters.count_settle mountId') rfl rfl rfl rfl rfl
      · cases hstep
        exact ⟨h.latest, h.mounts, h.positive, h.totals⟩
  | tell position =>
      simp only [ReaderGauge.step] at hstep
      split at hstep
      · next worker mountId active huntold =>
        cases hstep
        have hfirst := hinOrder _ huntold
        refine ⟨fun mountId' => ?_, fun mountId' => ?_, fun mountId' => ?_, ?_⟩
        · rw [← h.latest mountId']
          simp only [told, waiting, List.filter_append, List.map_append]
          by_cases hm : mountId = mountId'
          · subst hm
            rw [filter_eraseIdx huntold (by simp) (by simpa using hfirst)]
            simp
          · rw [filter_eraseIdx_of_neg huntold (by simpa using hm)]
            simp [hm]
        · have hsettle := Counters.count_settle (m := s.activeMounts) (k := mountId) (n := active)
            mountId'
          have hmounts := h.mounts mountId'
          simp only [told, List.filter_append, List.map_append] at hmounts ⊢
          by_cases hm : mountId' = mountId
          · subst hm
            rw [hsettle, if_pos rfl]
            simp
          · rw [hsettle, if_neg hm, hmounts]
            simp [Ne.symm hm]
        · exact positive_settle h.positive mountId active mountId'
        · simp
      · cases hstep
  | send position =>
      simp only [InOrder] at hinOrder
      subst hinOrder
      simp only [ReaderGauge.step] at hstep
      split at hstep
      · next worker totals hunsent =>
        split at hstep
        · cases hstep
          refine ⟨h.latest, h.mounts, h.positive, ?_⟩
          obtain ⟨rest, hrest⟩ := List.head?_eq_some_iff.1 (List.head?_eq_getElem? ▸ hunsent)
          have htotals := h.totals
          rw [hrest, List.map_cons, List.append_cons] at htotals
          change ((s.emitted ++ [totals]) ++ (s.unsent.eraseIdx 0).map Prod.snd).getLast?.getD _ = _
          rw [hrest]
          exact htotals
        · cases hstep
      · cases hstep

/-! ## The gauge comes to rest -/

theorem accounted_run {workers : ℕ} {moves : List ReaderMove}
    (h : Transition.run ReaderGauge.step (ReaderGauge.start workers) moves = some t) :
    t.Accounted :=
  Transition.run_invariant (Accounted.start workers) (fun _ _ _ hu hstep => hu.step hstep) h

theorem current_run {workers : ℕ} {moves : List ReaderMove}
    (h : Transition.run ReaderGauge.step (ReaderGauge.start workers) moves = some t)
    (hinOrder : Transition.Meeting InOrder ReaderGauge.step (ReaderGauge.start workers) moves) :
    t.Current :=
  Transition.run_invariant_meeting (Current.start workers)
    (fun _ _ _ hu hC hstep => hu.step hC hstep) h hinOrder

/-- Where nobody reads, no count is held and no device has readers. -/
theorem Accounted.of_stopped (h : t.Accounted) (hstopped : t.Stopped) :
    t.untold = [] ∧ t.unsent = [] ∧ ∀ mountId, t.readers.count mountId = 0 := by
  have hnone (worker : ℕ) : t.held worker = 0 := by
    rw [h.holds worker]
    cases hworker : t.workers[worker]? with
    | none => rfl
    | some phase =>
        have hphase := hstopped phase (List.mem_of_getElem? hworker)
        cases phase <;> first | rfl | exact absurd hphase id
  refine ⟨?_, ?_, fun mountId => ?_⟩
  · by_contra hne
    obtain ⟨count, rest, hcons⟩ := List.exists_cons_of_ne_nil hne
    have hheld := hnone count.worker
    rw [held, hcons, List.map_cons, List.sum_cons, if_pos rfl] at hheld
    omega
  · by_contra hne
    obtain ⟨sum, rest, hcons⟩ := List.exists_cons_of_ne_nil hne
    have hheld := hnone sum.1
    rw [held, hcons, List.map_cons, List.sum_cons, if_pos rfl] at hheld
    omega
  · rw [h.counts mountId]
    apply List.sum_eq_zero
    intro n hn
    obtain ⟨phase, hphase, rfl⟩ := List.mem_map.1 hn
    have hstop := hstopped phase hphase
    cases phase <;> first | rfl | exact absurd hstop id

/-- **The gauge of the readers comes to rest at zero** when all reports are made in order: in
every run in which no count overtakes an earlier one of its device, and no sum an earlier
one, the last count that the observer was told of a device is zero once nobody reads, and
the last sum sent is zero. -/
theorem gauge_rests_at_zero (workers : ℕ) (moves : List ReaderMove) (t : ReaderGauge)
    (h : Transition.run ReaderGauge.step (ReaderGauge.start workers) moves = some t)
    (hinOrder : Transition.Meeting InOrder ReaderGauge.step (ReaderGauge.start workers) moves)
    (hstopped : t.Stopped) :
    (∀ mountId, ∀ active ∈ (t.told mountId).getLast?, active = 0) ∧
    ∀ totals ∈ t.emitted.getLast?, totals = ⟨0, 0⟩ := by
  obtain ⟨huntold, hunsent, hzero⟩ := (accounted_run h).of_stopped hstopped
  have hcurrent := current_run h hinOrder
  have hrest (mountId : MountId) : (t.told mountId).getLast?.getD 0 = 0 := by
    have hlatest := hcurrent.latest mountId
    rwa [hzero, waiting, huntold, List.filter_nil, List.map_nil, List.append_nil] at hlatest
  constructor
  · intro mountId active hactive
    have hlast := hrest mountId
    rwa [Option.mem_def.1 hactive] at hlast
  · intro totals htotals
    have hlast := hcurrent.totals
    rw [hunsent, List.map_nil, List.append_nil, Option.mem_def.1 htotals] at hlast
    have hempty : t.activeMounts.entries = [] := by
      by_contra hne
      obtain ⟨⟨mountId, active⟩, rest, hcons⟩ := List.exists_cons_of_ne_nil hne
      have hlookup : t.activeMounts.lookup mountId = some active :=
        AList.mem_lookup_iff.2 (hcons ▸ List.mem_cons_self)
      have hcount := hcurrent.mounts mountId
      rw [hrest mountId, Counters.count, hlookup, Option.getD_some] at hcount
      exact hcurrent.positive mountId (hcount ▸ hlookup)
    rw [Option.getD_some] at hlast
    rw [hlast, ActiveTotals.of, hempty]
    rfl

/-! ## Two readers of one device -/

/-- Two workers have started to read files of one device, and have reported so. -/
def twoReaders : List ReaderMove :=
  [.start 0 ⟨1⟩, .tell 0, .send 0, .start 1 ⟨1⟩, .tell 0, .send 0]

/-- Reports in order, of one reader after the other. -/
theorem gauge_rests_after_two : ∃ t : ReaderGauge, t.Stopped ∧
    Transition.run ReaderGauge.step (ReaderGauge.start 8)
      (twoReaders ++ [.stop 0 ⟨1⟩, .stop 1 ⟨1⟩, .tell 0, .tell 0, .send 0, .send 0]) = some t ∧
    (∀ mountId, ∀ active ∈ (t.told mountId).getLast?, active = 0) ∧
    ∀ totals ∈ t.emitted.getLast?, totals = ⟨0, 0⟩ := by
  obtain ⟨t, ht⟩ : ∃ t, Transition.run ReaderGauge.step (ReaderGauge.start 8)
      (twoReaders ++ [.stop 0 ⟨1⟩, .stop 1 ⟨1⟩, .tell 0, .tell 0, .send 0, .send 0]) = some t :=
    Option.isSome_iff_exists.1 (by decide +kernel)
  have hstopped : t.Stopped := by
    have hall : ∀ u ∈ Transition.run ReaderGauge.step (ReaderGauge.start 8)
        (twoReaders ++ [.stop 0 ⟨1⟩, .stop 1 ⟨1⟩, .tell 0, .tell 0, .send 0, .send 0]),
        u.Stopped := by decide +kernel
    exact hall t ht
  exact ⟨t, hstopped, ht, gauge_rests_at_zero 8 _ t ht (by decide +kernel) hstopped⟩

/-- The first reader to stop is counted first and told last: one reader stays on the gauge. -/
theorem gauge_left_at_one : ∃ t : ReaderGauge, t.Stopped ∧
    Transition.run ReaderGauge.step (ReaderGauge.start 8)
      (twoReaders ++ [.stop 0 ⟨1⟩, .stop 1 ⟨1⟩, .tell 1, .tell 0, .send 0, .send 0]) = some t ∧
    (t.told ⟨1⟩).getLast? = some 1 ∧ t.emitted.getLast? = some ⟨1, 1⟩ := by
  have hall : ∃ t ∈ Transition.run ReaderGauge.step (ReaderGauge.start 8)
      (twoReaders ++ [.stop 0 ⟨1⟩, .stop 1 ⟨1⟩, .tell 1, .tell 0, .send 0, .send 0]),
      t.Stopped ∧ (t.told ⟨1⟩).getLast? = some 1 ∧ t.emitted.getLast? = some ⟨1, 1⟩ := by
    decide +kernel
  obtain ⟨t, ht, hstopped, htold, hemitted⟩ := hall
  exact ⟨t, hstopped, ht, htold, hemitted⟩

end ReaderGauge

end MediaImporter

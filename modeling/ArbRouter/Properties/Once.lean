import ArbRouter.Properties.Tasks
import ArbRouter.Properties.Warm

/-!
# What one scan of every chain reports

* `OnceTick`, `OnceScan` — the only tick of a worker, and the only scan of a scanner
* `PassInv` — what the program has done with one chain, with `PassInv.step` for one event
* `once_reports` — what it reports when it is done with every chain
-/

namespace ArbRouter

open Infra

section

variable {W P F : Type} [Pool P]

/-! ## One tick -/

/-- The only tick of the worker that was published, and the snapshot it left. -/
def OnceTick (workers : W → SyncWorker) (evs : List (SyncEvent W P)) (w : W)
    (snapshot : PoolSnapshot P) : Prop :=
  ∃ block now results pre mid post,
    evs = pre ++ .pinned w block now :: (mid ++ .published w :: post) ∧
    TickBody workers w block mid results ∧ .published w ∉ pre ∧ .published w ∉ post ∧
    snapshot = PoolSnapshot.fromEntries block now
      ((poolsOf results).map fun pool => ⟨pool, ⟨block, now⟩⟩)

section

variable {workers : W → SyncWorker} {evs : List (SyncEvent W P)} {w : W} {ev : SyncEvent W P}
  {snapshot : PoolSnapshot P}

/-- What others do adds no tick of the worker. -/
theorem OnceTick.snoc (h : OnceTick workers evs w snapshot) (hev : ev ≠ .published w) :
    OnceTick workers (evs ++ [ev]) w snapshot := by
  obtain ⟨block, now, results, pre, mid, post, rfl, hbody, hpre, hpost, rfl⟩ := h
  refine ⟨block, now, results, pre, mid, post ++ [ev], by simp, hbody, hpre, fun hmem => ?_, rfl⟩
  rcases List.mem_append.mp hmem with hmem | hmem
  · exact hpost hmem
  · exact hev (List.mem_singleton.mp hmem).symm

variable [DecidableEq W] {s s' : SyncState W P} {chains : List ChainId}

/-- A worker that publishes for the first time leaves the snapshot of the tick that ends here. -/
theorem SyncInv.onceTick (h : SyncInv workers chains evs s)
    (hs : SyncStep workers s (.published w) s')
    (hchain : (workers w).chain ∈ chains) (hnone : .published w ∉ evs) :
    OnceTick workers (evs ++ [.published w]) w (s'.store.snapshot (workers w).chain) := by
  cases hs with
  | @published _ block now refreshes hp hfin =>
    obtain ⟨results, rfl⟩ := exists_results hfin
    obtain ⟨hlen, pre, mid, rfl, hmid⟩ := h.syncing w block now _ hp
    refine ⟨block, now, results, pre, mid, [], by simp, hmid.body hlen, ?_, List.not_mem_nil, ?_⟩
    · exact fun hmem => hnone (List.mem_append_left _ hmem)
    · rw [← entriesOf_finished]
      exact ArcSwapPoolStore.snapshot_store_self ((h.registered _).mpr hchain) _

end

/-! ## What the program has done with one chain -/

/-- The steps of the tasks. -/
def taskEvents (evs : List (OnceEvent W P F)) : List (ServiceEvent W P F) :=
  evs.filterMap fun
    | .task ev => some ev
    | .warmed _ => none

variable [DecidableEq W]

/-- What the scanner of a task has done. -/
def scansOf (w : W) (evs : List (ServiceEvent W P F)) : List (ServiceEvent W P F) :=
  evs.filter (·.scansOn w)

variable [RustDecimal] {d : Deployment W P} {codec : Codec F} {needs : Needs}
  {evs : List (OnceEvent W P F)} {s s' : OnceState W P}

/-- The program as far as it runs the tasks of the service. -/
def OnceStep.tasks (d : Deployment W P) (codec : Codec F) (needs : Needs) :
    Projection (OnceStep d codec needs) (ServiceStep d codec) where
  state := OnceState.service
  event := fun
    | .task ev => some ev
    | .warmed _ => none
  moves := by
    intro s e t e' h he
    cases h <;> cases he
    assumption
  rests := by
    intro s e t h he
    cases h with
    | warmed => rfl
    | task => cases he

/-- A step of a worker, while the program syncs its chain. -/
theorem OnceStep.sync {ev : SyncEvent W P} {sync' : SyncState W P}
    (hs : SyncStep d.worker s.service.sync ev sync') (hrunning : s.Running)
    (hpass : s.pass ev.worker = .syncing) :
    OnceStep d codec needs s (.task (.sync ev))
      ⟨{ s.service with sync := sync' }, s.warm, passAfter s.pass (.sync ev : ServiceEvent W P F),
        s.panicked⟩ :=
  .task ⟨hrunning, hpass⟩ (.sync hs)

/-- What the memory holds for the chain of a task. -/
def OnceState.held (d : Deployment W P) (s : OnceState W P) (w : W) : Option (List Opportunity) :=
  s.service.sinks.1.latest.lookup (d.task w).chain

/-- The snapshot of the chain of a task. -/
def OnceState.snapshot (d : Deployment W P) (s : OnceState W P) (w : W) : PoolSnapshot P :=
  s.service.sync.store.snapshot (d.task w).chain

/-- The block of the chain could not be read. -/
structure Unread (evs : List (SyncEvent W P)) (w : W) : Prop where
  failed : ∃ err, .latestBlockFailed w err ∈ evs
  unpublished : .published w ∉ evs

/-- The task scanned once, this snapshot, and handed these opportunities over. -/
structure OnceScan (d : Deployment W P) (evs : List (ServiceEvent W P F)) (w : W)
    (snapshot : PoolSnapshot P) (now : OffsetDateTime) (opps : List Opportunity) : Prop where
  only : scansOf w evs = [.loaded w now, .notified w opps]
  handed : Handed d evs w snapshot now opps

/-- Where the program is with one chain, after the events `evs` of the tasks. -/
structure PassInv (d : Deployment W P) (evs : List (ServiceEvent W P F)) (s : OnceState W P)
    (w : W) : Prop where
  syncing : s.pass w = .syncing → .published w ∉ syncEvents evs ∧ scansOf w evs = [] ∧
    s.service.scan w = .idle ∧ s.held d w = none
  scanning : s.pass w = .scanning → OnceTick d.worker (syncEvents evs) w (s.snapshot d w) ∧
    s.held d w = none ∧ (s.service.scan w = .idle → scansOf w evs = []) ∧
    ∀ snapshot now before writes, s.service.scan w = .scanning snapshot now before writes →
      snapshot = s.snapshot d w ∧ scansOf w evs = [.loaded w now]
  done : s.pass w = .done → (Unread (syncEvents evs) w ∧ scansOf w evs = [] ∧ s.held d w = none) ∨
    ∃ snapshot now opps, OnceTick d.worker (syncEvents evs) w snapshot ∧
      OnceScan d evs w snapshot now opps ∧ s.held d w = some opps

theorem PassInv.init (d : Deployment W P) (w : W) :
    PassInv d ([] : List (ServiceEvent W P F)) (OnceState.init d) w where
  syncing := fun _ => ⟨List.not_mem_nil, rfl, rfl, rfl⟩
  scanning := fun h => by cases h
  done := fun h => by cases h

/-! ## Steps on other chains -/

section

variable {evs : List (ServiceEvent W P F)} {ev : ServiceEvent W P F} {w : W}

omit [Pool P] [RustDecimal] in
theorem scansOf_of_false (h : ev.scansOn w = false) : scansOf w (evs ++ [ev]) = scansOf w evs := by
  unfold scansOf
  rw [List.filter_append, List.filter_cons_of_neg (by simp [h]), List.filter_nil, List.append_nil]

omit [Pool P] [RustDecimal] in
theorem scansOf_of_true (h : ev.scansOn w = true) :
    scansOf w (evs ++ [ev]) = scansOf w evs ++ [ev] := by
  unfold scansOf
  rw [List.filter_append, List.filter_cons_of_pos h, List.filter_nil]

omit [Pool P] [RustDecimal] in
/-- A step on another chain is none of this scanner. -/
theorem scansOn_of_ne (hev : ev.pass ≠ some w) : ev.scansOn w = false := by
  have hne : ∀ {v : W}, some v ≠ some w → decide (v = w) = false :=
    fun h => decide_eq_false fun heq => h (congrArg some heq)
  cases ev with
  | loaded v now => exact hne hev
  | notified v opps => exact hne hev
  | scanPanicked v => exact hne hev
  | _ => rfl

omit [DecidableEq W] [Pool P] [RustDecimal] in
/-- A step on another chain is no event of this worker. -/
theorem syncEvents_of_ne (hev : ev.pass ≠ some w) : syncEvents (evs ++ [ev]) = syncEvents evs ∨
    ∃ e, syncEvents (evs ++ [ev]) = syncEvents evs ++ [e] ∧ e.worker ≠ w := by
  unfold syncEvents
  rw [List.filterMap_append]
  cases ev with
  | sync e => exact Or.inr ⟨e, rfl, fun heq => hev (congrArg some heq)⟩
  | _ => exact Or.inl (List.append_nil _)

omit [Pool P] [RustDecimal] in
/-- A step of a scanner is no event of the workers. -/
theorem syncEvents_of_scansOn (h : ev.scansOn w = true) :
    syncEvents (evs ++ [ev]) = syncEvents evs := by
  unfold syncEvents
  rw [List.filterMap_append]
  cases ev with
  | sync e => cases h
  | _ => exact List.append_nil _

/-- What others do is no scan of the task. -/
theorem OnceScan.snoc {snapshot : PoolSnapshot P} {now : OffsetDateTime} {opps : List Opportunity}
    (h : OnceScan d evs w snapshot now opps) (hev : ev.scansOn w = false) :
    OnceScan d (evs ++ [ev]) w snapshot now opps :=
  ⟨(scansOf_of_false hev).trans h.only, h.handed.append [ev]⟩

end

/-- Nothing of one chain has changed but what its scan has seen the feeds write. -/
structure SamePass (d : Deployment W P) (s s' : OnceState W P) (w : W) : Prop where
  pass : s'.pass w = s.pass w
  held : s'.held d w = s.held d w
  snapshot : s'.snapshot d w = s.snapshot d w
  scan : s'.service.scan w = s.service.scan w ∨
    ∃ write, s'.service.scan w = (s.service.scan w).observe write

omit [DecidableEq W] [RustDecimal] in
/-- The scan is where it was. -/
theorem SamePass.idle {w : W} (hs : SamePass d s s' w) (h : s'.service.scan w = .idle) :
    s.service.scan w = .idle := by
  rcases hs.scan with heq | ⟨write, heq⟩
  · exact heq.symm.trans h
  · cases hold : s.service.scan w with
    | idle => rfl
    | scanning snapshot now before writes => rw [heq, hold] at h; cases h
    | stopped => rw [heq, hold] at h; cases h

omit [DecidableEq W] [RustDecimal] in
theorem SamePass.scanning {w : W} (hs : SamePass d s s' w) {snapshot : PoolSnapshot P}
    {now : OffsetDateTime} {before : PriceStore} {writes : List PriceWrite}
    (h : s'.service.scan w = .scanning snapshot now before writes) :
    ∃ writes', s.service.scan w = .scanning snapshot now before writes' := by
  rcases hs.scan with heq | ⟨write, heq⟩
  · exact ⟨writes, heq.symm.trans h⟩
  · cases hold : s.service.scan w with
    | idle => rw [heq, hold] at h; cases h
    | scanning snapshot' now' before' writes' =>
      rw [heq, hold] at h
      obtain ⟨rfl, rfl, rfl, -⟩ := ScanPhase.scanning.inj h
      exact ⟨writes', rfl⟩
    | stopped => rw [heq, hold] at h; cases h

/-- What holds of a chain goes on to hold after a step on another one. -/
theorem PassInv.same {evs : List (ServiceEvent W P F)} {ev : ServiceEvent W P F} {w : W}
    (h : PassInv d evs s w) (hs : SamePass d s s' w) (hev : ev.pass ≠ some w) :
    PassInv d (evs ++ [ev]) s' w := by
  have hscans : scansOf w (evs ++ [ev]) = scansOf w evs := scansOf_of_false (scansOn_of_ne hev)
  have hsync : syncEvents (evs ++ [ev]) = syncEvents evs ∨
      ∃ e, syncEvents (evs ++ [ev]) = syncEvents evs ++ [e] ∧ e.worker ≠ w := syncEvents_of_ne hev
  have hpub : .published w ∉ syncEvents evs → .published w ∉ syncEvents (evs ++ [ev]) := by
    intro hnot hmem
    rcases hsync with heq | ⟨e, heq, hne⟩
    · exact hnot (heq ▸ hmem)
    · rw [heq] at hmem
      rcases List.mem_append.mp hmem with hmem | hmem
      · exact hnot hmem
      · rw [← List.mem_singleton.mp hmem] at hne
        exact hne rfl
  have htick : ∀ snapshot, OnceTick d.worker (syncEvents evs) w snapshot →
      OnceTick d.worker (syncEvents (evs ++ [ev])) w snapshot := by
    intro snapshot ht
    rcases hsync with heq | ⟨e, heq, hne⟩
    · rwa [heq]
    · rw [heq]
      exact ht.snoc fun heq => hne (by rw [heq]; rfl)
  have hsub : syncEvents evs ⊆ syncEvents (evs ++ [ev]) := by
    unfold syncEvents
    rw [List.filterMap_append]
    exact List.subset_append_left _ _
  constructor
  · intro hp
    rw [hs.pass] at hp
    obtain ⟨hnone, hno, hidle, hheld⟩ := h.syncing hp
    refine ⟨hpub hnone, hscans.trans hno, ?_, hs.held.trans hheld⟩
    rcases hs.scan with heq | ⟨write, heq⟩
    · rw [heq, hidle]
    · rw [heq, hidle]
      rfl
  · intro hp
    rw [hs.pass] at hp
    obtain ⟨ht, hheld, hno, hscan⟩ := h.scanning hp
    rw [hs.snapshot, hscans]
    refine ⟨htick _ ht, hs.held.trans hheld, fun hidle => hno (hs.idle hidle), ?_⟩
    intro snapshot now before writes hphase
    obtain ⟨writes', hold⟩ := hs.scanning hphase
    exact hscan _ _ _ _ hold
  · intro hp
    rw [hs.pass] at hp
    rcases h.done hp with ⟨⟨⟨err, herr⟩, hnone⟩, hno, hheld⟩ |
      ⟨snapshot, now, opps, ht, hscan, hheld⟩
    · exact Or.inl ⟨⟨⟨err, hsub herr⟩, hpub hnone⟩, hscans.trans hno, hs.held.trans hheld⟩
    · exact Or.inr ⟨snapshot, now, opps, htick _ ht, hscan.snoc (scansOn_of_ne hev),
        hs.held.trans hheld⟩

omit [Pool P] [RustDecimal] in
theorem passAfter_of_ne {pass : W → Pass} {ev : ServiceEvent W P F} {w : W}
    (h : ev.pass ≠ some w) : passAfter pass ev w = pass w := by
  have hne : ∀ {v : W}, some v ≠ some w → w ≠ v := fun h heq => h (congrArg some heq.symm)
  cases ev with
  | sync ev =>
    cases ev with
    | latestBlockFailed v err => exact Function.update_of_ne (hne h) ..
    | published v => exact Function.update_of_ne (hne h) ..
    | _ => rfl
  | notified v opps => exact Function.update_of_ne (hne h) ..
  | _ => rfl

/-- A step on another chain leaves the scanner of this one alone; a feed is seen to write. -/
theorem scan_of_ne {w : W} {ev : ServiceEvent W P F} {t t' : ServiceState W P}
    (hs : ServiceStep d codec t ev t') (hev : ev.pass ≠ some w) :
    t'.scan w = t.scan w ∨ ∃ write, t'.scan w = (t.scan w).observe write := by
  rcases hs.scan_cases w with ⟨heq, -⟩ | ⟨now, rfl, -⟩ | ⟨write, -, heq⟩ | ⟨opps, rfl, -⟩ | ⟨rfl, -⟩
  · exact Or.inl heq
  · exact absurd rfl hev
  · exact Or.inr ⟨write, heq⟩
  · exact absurd rfl hev
  · exact absurd rfl hev

/-- A step on another chain leaves this one alone. -/
theorem samePass_of_ne (hinj : Function.Injective fun w => (d.task w).chain) {w : W}
    {ev : ServiceEvent W P F} {service' : ServiceState W P}
    (hs : ServiceStep d codec s.service ev service') (hev : ev.pass ≠ some w) :
    SamePass d s
      ⟨service', s.warm.after ev, passAfter s.pass ev, panickedAfter s.panicked ev⟩ w where
  pass := passAfter_of_ne hev
  held := by
    refine hs.lookup_of_ne fun v opps hv hchain => hev ?_
    rw [hv, ← hinj hchain]
    rfl
  snapshot := by
    refine hs.snapshot_of_ne fun v hv hchain => hev ?_
    rw [hv, ← hinj hchain]
    rfl
  scan := scan_of_ne hs hev

/-! ## Steps on the chain -/

/-- A step of the worker, while the program syncs the chain. -/
theorem PassInv.sync {evs : List (ServiceEvent W P F)} {sync' : SyncState W P} {ev : SyncEvent W P}
    (h : PassInv d evs s ev.worker)
    (hinv : SyncInv d.worker d.chains (syncEvents evs) s.service.sync)
    (hpass : s.pass ev.worker = .syncing) (hs : SyncStep d.worker s.service.sync ev sync') :
    PassInv d (evs ++ [.sync ev])
      ⟨{ s.service with sync := sync' }, s.warm, passAfter s.pass (.sync ev : ServiceEvent W P F),
        s.panicked⟩ ev.worker := by
  have hevs : syncEvents (evs ++ [.sync ev]) = syncEvents evs ++ [ev] := List.filterMap_append ..
  have hscans : scansOf ev.worker (evs ++ [.sync ev]) = scansOf ev.worker evs :=
    scansOf_of_false rfl
  obtain ⟨hnone, hno, hidle, hheld⟩ := h.syncing hpass
  -- a call that returns leaves the program where it is
  have hcall : ev ≠ .published ev.worker →
      passAfter s.pass (.sync ev : ServiceEvent W P F) ev.worker = .syncing →
      PassInv d (evs ++ [.sync ev])
        ⟨{ s.service with sync := sync' }, s.warm, passAfter s.pass (.sync ev : ServiceEvent W P F),
          s.panicked⟩ ev.worker := by
    intro hne hafter
    refine ⟨fun _ => ⟨fun hmem => ?_, hscans.trans hno, hidle, hheld⟩, fun hp => ?_, fun hp => ?_⟩
    · rw [hevs] at hmem
      rcases List.mem_append.mp hmem with hmem | hmem
      · exact hnone hmem
      · exact hne (List.mem_singleton.mp hmem).symm
    · cases hafter.symm.trans hp
    · cases hafter.symm.trans hp
  cases ev with
  | latestBlockFailed w err =>
    have hdone : Function.update s.pass w Pass.done w = .done := Function.update_self ..
    refine ⟨fun hp => ?_, fun hp => ?_, fun _ => Or.inl ⟨?_, hscans.trans hno, hheld⟩⟩
    · cases hdone.symm.trans hp
    · cases hdone.symm.trans hp
    · rw [hevs]
      refine ⟨⟨err, List.mem_concat_self⟩, fun hmem => ?_⟩
      rcases List.mem_append.mp hmem with hmem | hmem
      · exact hnone hmem
      · cases List.mem_singleton.mp hmem
  | pinned w block now => exact hcall (fun heq => by cases heq) hpass
  | discovered w i chain tokens result => exact hcall (fun heq => by cases heq) hpass
  | refreshed w i keys block result => exact hcall (fun heq => by cases heq) hpass
  | published w =>
    have hscanning : Function.update s.pass w Pass.scanning w = .scanning := Function.update_self ..
    refine ⟨fun hp => ?_, fun _ => ⟨?_, hheld, fun _ => hscans.trans hno, ?_⟩, fun hp => ?_⟩
    · cases hscanning.symm.trans hp
    · have htick := hinv.onceTick hs (d.chain_worker w ▸ d.chain_mem w) hnone
      rw [d.chain_worker] at htick
      rw [hevs]
      exact htick
    · intro snapshot now before writes hphase
      cases (show s.service.scan w = _ from hidle).symm.trans hphase
    · cases hscanning.symm.trans hp

/-- A step of the scanner, while the program scans the chain. -/
theorem PassInv.scan {evs : List (ServiceEvent W P F)} {w : W} {ev : ServiceEvent W P F}
    {service' : ServiceState W P} (h : PassInv d evs s w) (hinv : ServiceInv d evs s.service)
    (hpass : s.pass w = .scanning) (hev : ev.scansOn w = true)
    (hs : ServiceStep d codec s.service ev service') :
    PassInv d (evs ++ [ev])
      ⟨service', s.warm.after ev, passAfter s.pass ev, panickedAfter s.panicked ev⟩ w := by
  obtain ⟨htick, hheld, hno, hscan⟩ := h.scanning hpass
  have hscans : scansOf w (evs ++ [ev]) = scansOf w evs ++ [ev] := scansOf_of_true hev
  have hevs : syncEvents (evs ++ [ev]) = syncEvents evs := syncEvents_of_scansOn hev
  have hsnap : service'.sync.store.snapshot (d.task w).chain = s.snapshot d w := by
    refine hs.snapshot_of_ne fun v hv => ?_
    rw [hv] at hev
    cases hev
  have htick' : OnceTick d.worker (syncEvents (evs ++ [ev])) w
      (service'.sync.store.snapshot (d.task w).chain) := by
    rw [hevs, hsnap]
    exact htick
  cases ev with
  | loaded v now =>
    obtain rfl : v = w := of_decide_eq_true hev
    have hphase : service'.scan v
        = .scanning (s.snapshot d v) now s.service.prices [] ∧ s.service.scan v = .idle := by
      cases hs with
      | loaded _ hidle => exact ⟨s.service.setScan_scan_self v _, hidle⟩
    refine ⟨fun hp => ?_, fun _ => ⟨htick', ?_, fun hidle => ?_, ?_⟩, fun hp => ?_⟩
    · cases hpass.symm.trans hp
    · exact (hs.lookup_of_ne fun u opps hu => by cases hu).trans hheld
    · cases hphase.1.symm.trans hidle
    · -- it loads the snapshot of this moment
      intro snapshot now' before writes hscanning
      obtain ⟨rfl, rfl, -⟩ := ScanPhase.scanning.inj (hphase.1.symm.trans hscanning)
      refine ⟨hsnap.symm, ?_⟩
      rw [hscans, hno hphase.2]
      rfl
    · cases hpass.symm.trans hp
  | notified v opps =>
    obtain rfl : v = w := of_decide_eq_true hev
    have hdone : Function.update s.pass v Pass.done v = .done := Function.update_self ..
    refine ⟨fun hp => ?_, fun hp => ?_, fun _ => Or.inr ?_⟩
    · cases hdone.symm.trans hp
    · cases hdone.symm.trans hp
    · obtain ⟨snapshot, now, before, writes, hp, hhanded⟩ := hinv.handed hs
      obtain ⟨-, -, -, -, -, -, -, -, -, -, -, hsinks, -, -⟩ := hs.notified_cases
      obtain ⟨rfl, honly⟩ := hscan _ _ _ _ hp
      refine ⟨_, now, opps, hevs ▸ htick, ⟨?_, hhanded⟩, ?_⟩
      · rw [hscans, honly]
        rfl
      · show service'.sinks.1.latest.lookup (d.task v).chain = some opps
        rw [hsinks, notify_sinks]
        exact AList.lookup_insert _
  | scanPanicked v =>
    obtain rfl : v = w := of_decide_eq_true hev
    have hphase : service'.scan v = .stopped := by
      cases hs with
      | scanPanicked hold hobs hrun => exact s.service.setScan_scan_self v _
    refine ⟨fun hp => ?_, fun _ => ⟨htick', ?_, fun hidle => ?_, ?_⟩, fun hp => ?_⟩
    · cases hpass.symm.trans hp
    · exact (hs.lookup_of_ne fun u opps hu => by cases hu).trans hheld
    · cases hphase.symm.trans hidle
    · intro snapshot now before writes hscanning
      cases hphase.symm.trans hscanning
    · cases hpass.symm.trans hp
  | _ => cases hev

/-! ## Every run -/

omit [DecidableEq W] [RustDecimal] [Pool P] in
theorem taskEvents_task (evs : List (OnceEvent W P F)) (ev : ServiceEvent W P F) :
    taskEvents (evs ++ [.task ev]) = taskEvents evs ++ [ev] := List.filterMap_append ..

omit [DecidableEq W] [RustDecimal] [Pool P] in
theorem taskEvents_warmed (evs : List (OnceEvent W P F)) (live : Bool) :
    taskEvents (evs ++ [.warmed live]) = taskEvents evs :=
  (List.filterMap_append ..).trans (List.append_nil _)

/-- **One step keeps the invariant of each chain.** -/
theorem PassInv.step (hinj : Function.Injective fun w => (d.task w).chain)
    (hrun : d.RunsOnce codec needs evs s) {ev : OnceEvent W P F}
    (hs : OnceStep d codec needs s ev s')
    {w : W} (h : PassInv d (taskEvents evs) s w) : PassInv d (taskEvents (evs ++ [ev])) s' w := by
  cases hs with
  | warmed hneeded hwant hwait hobs hloop =>
    rw [taskEvents_warmed]
    exact ⟨h.syncing, h.scanning, h.done⟩
  | @task ev service' hadmits hstep =>
    rw [taskEvents_task]
    by_cases hev : ev.pass = some w
    · have hruns := (OnceStep.tasks d codec needs).run hrun
      have hscan : ev.scansOn w = true → s.pass w = .scanning → PassInv d (taskEvents evs ++ [ev])
          ⟨service', s.warm.after ev, passAfter s.pass ev, panickedAfter s.panicked ev⟩ w :=
        fun hon hpass => h.scan (ServiceInv.run hruns) hpass hon hstep
      cases ev with
      | sync ev =>
        obtain rfl := Option.some.inj hev
        cases hstep with
        | sync hsync => exact h.sync (syncInv_of_runs hruns) hadmits.2 hsync
      | loaded v now =>
        obtain rfl := Option.some.inj hev
        exact hscan (decide_eq_true rfl) hadmits.2
      | notified v opps =>
        obtain rfl := Option.some.inj hev
        exact hscan (decide_eq_true rfl) hadmits.2
      | scanPanicked v =>
        obtain rfl := Option.some.inj hev
        exact hscan (decide_eq_true rfl) hadmits.2
      | _ => cases hev
    · exact h.same (samePass_of_ne hinj hstep hev) hev

theorem PassInv.run (hinj : Function.Injective fun w => (d.task w).chain)
    (h : d.RunsOnce codec needs evs s) (w : W) : PassInv d (taskEvents evs) s w := by
  induction h with
  | start => exact PassInv.init d w
  | snoc hrun hs ih => exact PassInv.step hinj hrun hs ih

end

section

attribute [local instance] RustDecimal.reference Alloy.reference AmmRpc.oneTx Crates.offline

/-- The prices are live, then the chain is synced, and its scan begins. -/
def tokenOnce : List (OnceEvent (Fin tokenRouter.tasks.length) AmmCorePool Decimal) :=
  tokenWarm ++ [.task (.sync (.pinned tokenTask 7 0)),
    .task (.sync (.discovered tokenTask 0 ⟨"ethereum"⟩ [tokenA, tokenB] (.ok []))),
    .task (.sync (.refreshed tokenTask 0 [] (.number 7)
      (.ok (tokenPools.map (AmmCorePool.new "ethereum"))))),
    .task (.sync (.published tokenTask)),
    .task (.loaded tokenTask 0)]

theorem runsOnce_tokenOnce : ∃ s ranked,
    tokenRouter.deployment.RunsOnce decimalCodec tokenSettings.needs
      (tokenOnce ++ [.task (.notified tokenTask ranked)]) s ∧
    (∀ w, s.pass w = .done) ∧ s.report (IterOrder.stored _) ≠ [] := by
  obtain ⟨s, hrun, hrunning, hpass, snapshot, now, before, hp, hfinds⟩ :
      ∃ s, tokenRouter.deployment.RunsOnce decimalCodec tokenSettings.needs tokenOnce s ∧
      s.Running ∧
      s.pass tokenTask = .scanning ∧ ∃ snapshot now before,
        s.service.scan tokenTask = .scanning snapshot now before [] ∧
        findsSome (tokenRouter.deployment.task tokenTask) snapshot now before s.service.sinks
          = true := by
    have hready : ∀ {service pass}, (⟨service, .ready true, pass, false⟩ :
        OnceState (Fin tokenRouter.tasks.length) AmmCorePool).Running := ⟨⟨true, rfl⟩, rfl⟩
    refine ⟨_, ((((runsOnce_tokenWarm.snoc (.sync (.pinned 7 0 rfl) hready rfl)).snoc
      (.sync (.discovered (i := 0) _ rfl rfl) hready rfl)).snoc
      (.sync (.refreshed (i := 0) _ rfl rfl) hready rfl)).snoc
      (.sync (.published rfl ?_) hready rfl)).snoc
      (.task (show _ ∧ _ from ⟨hready, rfl⟩) (.loaded 0 rfl)), hready, rfl, _, _, _, rfl, ?_⟩
    · intro r hr
      obtain rfl := List.mem_singleton.mp hr
      exact ⟨_, rfl⟩
    · decide +kernel
  obtain ⟨ranked, result, world', log', hranked, hscan, hfound⟩ := exists_of_findsSome hfinds
  refine ⟨_, ranked, hrun.snoc (.task (show _ ∧ _ from ⟨hrunning, hpass⟩)
    (.notified hp (observes_quiet before []) hranked hscan)), fun w => ?_, ?_⟩
  · rw [show w = tokenTask from Subsingleton.elim (α := Fin 1) w tokenTask]
    show Function.update s.pass tokenTask Pass.done tokenTask = .done
    exact Function.update_self ..
  · obtain ⟨opp, hopp⟩ := List.exists_mem_of_ne_nil _ hfound
    exact List.ne_nil_of_mem (MemoryNotifier.mem_all.mpr ⟨_, hopp⟩)

end

end ArbRouter

import ArbRouter.Properties.Once

/-!
# One scan of every chain ends

Each step that the program takes itself uses up some of the work that is left, and as long as a
chain is not done there is such a step for it.

* `OnceState.work` — the work that is left, with `work_lt_of_pass` for a step on a chain
* `once_ends` — the program ends
-/

namespace ArbRouter

open Infra

section

variable {W P F : Type} [Pool P]

/-! ## The work that is left -/

/-- The calls that one exchange has yet to answer. -/
def Refresh.work : Refresh P → Nat
  | .discovering => 2
  | .refreshing _ => 1
  | .finished _ => 0

/-- The calls that a worker of `n` exchanges has yet to make before it publishes. -/
def Phase.work (n : Nat) : Phase P → Nat
  | .idle => 2 * n + 1
  | .syncing _ _ refreshes => (refreshes.map Refresh.work).sum

def ScanPhase.work : ScanPhase P → Nat
  | .idle => 2
  | .scanning .. => 1
  | .stopped => 0

def Warm.work : Warm → Nat
  | .waiting _ => 1
  | .ready _ => 0

/--
The steps that are left on one chain: those of the tick, its publication, and the two of the scan.
-/
def OnceState.workOn (d : Deployment W P) (s : OnceState W P) (w : W) : Nat :=
  match s.pass w with
  | .syncing => (s.service.sync.phase w).work (d.worker w).supporting.length + 3
  | .scanning => (s.service.scan w).work
  | .done => 0

/-- The steps that are left. -/
def OnceState.work [Fintype W] (d : Deployment W P) (s : OnceState W P) : Nat :=
  s.warm.work + ∑ w, s.workOn d w

omit [Pool P] in
/-- A call that returns leaves less to be answered. -/
theorem sum_work_set_lt {refreshes : List (Refresh P)} {i : Nat} {old new : Refresh P}
    (hi : refreshes[i]? = some old) (hlt : new.work < old.work) :
    ((refreshes.set i new).map Refresh.work).sum < (refreshes.map Refresh.work).sum := by
  induction refreshes generalizing i with
  | nil => simp at hi
  | cons r rest ih =>
    cases i with
    | zero =>
      obtain rfl := Option.some.inj hi
      simpa using hlt
    | succ i =>
      have := ih (show rest[i]? = some old from hi)
      simpa using this

variable [DecidableEq W] [RustDecimal] {d : Deployment W P} {codec : Codec F} {needs : Needs}
  {evs : List (OnceEvent W P F)} {s s' : OnceState W P}

omit [RustDecimal] in
/-- A call of a tick that returns leaves fewer of them. -/
theorem SyncStep.work_lt {workers : W → SyncWorker} {s s' : SyncState W P} {ev : SyncEvent W P}
    (hs : SyncStep workers s ev s') (hfail : ∀ err, ev ≠ .latestBlockFailed ev.worker err)
    (hpub : ev ≠ .published ev.worker) :
    (s'.phase ev.worker).work (workers ev.worker).supporting.length
      < (s.phase ev.worker).work (workers ev.worker).supporting.length := by
  cases hs with
  | @latestBlockFailed w err hidle => exact absurd rfl (hfail err)
  | @pinned w block now hidle =>
    show ((s.setPhase w _).phase w).work _ < (s.phase w).work (workers w).supporting.length
    rw [SyncState.setPhase_phase_self, hidle]
    simp [Phase.work, Refresh.work]
    omega
  | @discovered w block now refreshes i result hp hi =>
    show ((s.setPhase w _).phase w).work _ < (s.phase w).work (workers w).supporting.length
    rw [SyncState.setPhase_phase_self, hp]
    refine sum_work_set_lt hi ?_
    cases result with
    | ok keys => exact Nat.lt_succ_self 1
    | error err => exact Nat.succ_pos 1
  | @refreshed w block now refreshes i keys result hp hi =>
    show ((s.setPhase w _).phase w).work _ < (s.phase w).work (workers w).supporting.length
    rw [SyncState.setPhase_phase_self, hp]
    exact sum_work_set_lt hi (Nat.succ_pos 0)
  | published hp hfin => exact absurd rfl hpub

section

omit [DecidableEq W] [RustDecimal]

theorem workOn_syncing {w : W} (h : s.pass w = .syncing) : s.workOn d w
    = (s.service.sync.phase w).work (d.worker w).supporting.length + 3 := by
  unfold OnceState.workOn
  rw [h]

theorem workOn_scanning {w : W} (h : s.pass w = .scanning) :
    s.workOn d w = (s.service.scan w).work := by
  unfold OnceState.workOn
  rw [h]

theorem workOn_done {w : W} (h : s.pass w = .done) : s.workOn d w = 0 := by
  unfold OnceState.workOn
  rw [h]

theorem ScanPhase.work_le (phase : ScanPhase P) : phase.work ≤ 2 := by
  cases phase <;> simp [work]

end

omit [RustDecimal] in
/-- A step of the worker of a chain. -/
theorem workOn_lt_of_sync {sync' : SyncState W P} {ev : SyncEvent W P}
    (hpass : s.pass ev.worker = .syncing) (hs : SyncStep d.worker s.service.sync ev sync') :
    (⟨{ s.service with sync := sync' }, s.warm, passAfter s.pass (.sync ev : ServiceEvent W P F),
      s.panicked⟩ : OnceState W P).workOn d ev.worker < s.workOn d ev.worker := by
  -- a call of the tick that returns leaves the chain syncing, with a call less to make
  have hcall : passAfter s.pass (.sync ev : ServiceEvent W P F) ev.worker = .syncing →
      (∀ err, ev ≠ .latestBlockFailed ev.worker err) → ev ≠ .published ev.worker →
      (⟨{ s.service with sync := sync' }, s.warm, passAfter s.pass (.sync ev : ServiceEvent W P F),
        s.panicked⟩ : OnceState W P).workOn d ev.worker < s.workOn d ev.worker := by
    intro hafter hfail hpub
    rw [workOn_syncing hpass, workOn_syncing hafter]
    exact Nat.add_lt_add_right (hs.work_lt hfail hpub) 3
  cases ev with
  | latestBlockFailed w err =>
    rw [workOn_syncing hpass, workOn_done (Function.update_self ..)]
    exact Nat.succ_pos _
  | published w =>
    rw [workOn_syncing hpass, workOn_scanning (Function.update_self ..)]
    exact (ScanPhase.work_le _).trans_lt (Nat.lt_add_left _ (Nat.lt_succ_self 2))
  | pinned w block now => exact hcall hpass (fun err h => by cases h) fun h => by cases h
  | discovered w i chain tokens result =>
    exact hcall hpass (fun err h => by cases h) fun h => by cases h
  | refreshed w i keys block result =>
    exact hcall hpass (fun err h => by cases h) fun h => by cases h

/-- A step on a chain leaves less to be done there. -/
theorem workOn_lt {ev : ServiceEvent W P F} {service' : ServiceState W P} {w : W}
    (hadmits : s.Admits ev) (hev : ev.pass = some w)
    (hs : ServiceStep d codec s.service ev service') :
    (⟨service', s.warm.after ev, passAfter s.pass ev, panickedAfter s.panicked ev⟩ :
      OnceState W P).workOn d w < s.workOn d w := by
  cases hs with
  | sync hsync =>
    obtain rfl := Option.some.inj hev
    exact workOn_lt_of_sync hadmits.2 hsync
  | loaded now hidle =>
    obtain rfl := Option.some.inj hev
    rw [workOn_scanning hadmits.2, hidle]
    refine (workOn_scanning ?_).trans_lt ?_
    · exact hadmits.2
    · show ((s.service.setScan _ _).scan _).work < _
      rw [ServiceState.setScan_scan_self]
      exact Nat.lt_succ_self 1
  | notified hp hobs hranked hrun =>
    obtain rfl := Option.some.inj hev
    rw [workOn_scanning hadmits.2, workOn_done (Function.update_self ..), hp]
    exact Nat.one_pos
  | scanPanicked hp hobs hrun =>
    obtain rfl := Option.some.inj hev
    rw [workOn_scanning hadmits.2, hp]
    refine (workOn_scanning ?_).trans_lt ?_
    · exact hadmits.2
    · show ((s.service.setScan _ _).scan _).work < _
      rw [ServiceState.setScan_scan_self]
      exact Nat.one_pos
  | _ => cases hev

omit [DecidableEq W] [RustDecimal] in
theorem work_observe (phase : ScanPhase P) (write : PriceWrite) :
    (phase.observe write).work = phase.work := by
  cases phase <;> rfl

/-- A step on another chain, or of a feed, leaves as much to be done. -/
theorem workOn_of_ne {ev : ServiceEvent W P F} {service' : ServiceState W P} {w : W}
    (hev : ev.pass ≠ some w) (hs : ServiceStep d codec s.service ev service') :
    (⟨service', s.warm.after ev, passAfter s.pass ev, panickedAfter s.panicked ev⟩ :
      OnceState W P).workOn d w = s.workOn d w := by
  have hphase : service'.sync.phase w = s.service.sync.phase w := by
    cases hs with
    | sync hsync => exact hsync.phase_of_ne fun heq => hev (congrArg some heq)
    | _ => rfl
  have hscan : (service'.scan w).work = (s.service.scan w).work := by
    rcases scan_of_ne hs hev with heq | ⟨write, heq⟩
    · rw [heq]
    · rw [heq, work_observe]
  unfold OnceState.workOn
  dsimp only
  rw [passAfter_of_ne hev, hphase, hscan]

omit [DecidableEq W] [RustDecimal] [Pool P] in
theorem work_after (warm : Warm) (ev : ServiceEvent W P F) : (warm.after ev).work = warm.work := by
  cases ev with
  | wrote write => cases warm <;> rfl
  | _ => rfl

variable [Fintype W]

/-- **A step of the program** uses up some of the work. -/
theorem OnceStep.work_lt {ev : OnceEvent W P F} (hs : OnceStep d codec needs s ev s')
    (hown : ev.own = true) : s'.work d < s.work d := by
  cases hs with
  | warmed hneeded hwant hwait hobs hloop =>
    unfold OnceState.work
    rw [hwait]
    exact Nat.add_lt_add_right Nat.one_pos _
  | @task ev service' hadmits hstep =>
    obtain ⟨w, hw⟩ := Option.isSome_iff_exists.mp hown
    unfold OnceState.work
    refine Nat.add_lt_add_of_le_of_lt (work_after s.warm ev).le ?_
    refine Finset.sum_lt_sum (fun v _ => ?_) ⟨w, Finset.mem_univ w, workOn_lt hadmits hw hstep⟩
    by_cases hv : ev.pass = some v
    · exact (workOn_lt hadmits hv hstep).le
    · exact (workOn_of_ne hv hstep).le

/-- A step of a feed adds nothing to it. -/
theorem OnceStep.work_le {ev : OnceEvent W P F} (hs : OnceStep d codec needs s ev s')
    (hown : ev.own = false) : s'.work d ≤ s.work d := by
  cases hs with
  | warmed => cases hown
  | @task ev service' hadmits hstep =>
    have hnone : ev.pass = none := by
      rwa [← Option.isNone_iff_eq_none, ← Option.isSome_eq_false_iff]
    unfold OnceState.work
    refine Nat.add_le_add (work_after s.warm ev).le (Finset.sum_le_sum fun v _ => ?_)
    exact (workOn_of_ne (by rw [hnone]; exact fun h => by cases h) hstep).le

omit [DecidableEq W] [RustDecimal] in
/-- The work of the whole program. -/
theorem work_init (d : Deployment W P) : (OnceState.init d).work d
    = 1 + ∑ w, (2 * (d.worker w).supporting.length + 4) := rfl

end

/-! ## No chain is stuck -/

section

variable {W P F : Type} [Pool P] [DecidableEq W] [RustDecimal] {d : Deployment W P}
  {codec : Codec F} {needs : Needs} {evs : List (OnceEvent W P F)} {s s' : OnceState W P}

/-- A scanner that has stopped has taken the program with it. -/
theorem panicked_of_stopped (h : d.RunsOnce codec needs evs s) :
    ∀ w, s.service.scan w = .stopped → s.panicked = true := by
  induction h with
  | start => exact fun w hstop => by cases hstop
  | snoc _ hs ih =>
    intro w hstop
    cases hs with
    | warmed => exact ih w hstop
    | @task ev service' hadmits hstep =>
      show panickedAfter _ ev = true
      rcases hstep.scan_cases w with ⟨heq, -⟩ | ⟨now, rfl, -, heq⟩ | ⟨write, rfl, heq⟩ |
        ⟨opps, rfl, heq⟩ | ⟨rfl, -⟩
      · have hold := ih w (heq.symm.trans hstop)
        cases ev <;> first | exact hold | rfl
      · cases heq.symm.trans hstop
      · refine ih w ?_
        have hstop' := heq.symm.trans hstop
        unfold ScanPhase.observe at hstop'
        split at hstop'
        · cases hstop'
        · cases hstop'
        · assumption
      · cases heq.symm.trans hstop
      · rfl

/-- A chain that is being synced has a step: its next call can return, or it can publish. -/
theorem exists_step_of_syncing (hrunning : s.Running) {w : W} (hpass : s.pass w = .syncing) :
    ∃ ev s', ev.pass = some w ∧ OnceStep d codec needs s (.task ev) s' := by
  cases hphase : s.service.sync.phase w with
  | idle => exact ⟨_, _, rfl, .sync (.pinned 0 0 hphase) hrunning hpass⟩
  | syncing block now refreshes =>
    by_cases hfin : ∀ r ∈ refreshes, ∃ result, r = .finished result
    · exact ⟨_, _, rfl, .sync (.published hphase hfin) hrunning hpass⟩
    · simp only [not_forall, not_exists] at hfin
      obtain ⟨r, hr, hopen⟩ := hfin
      obtain ⟨i, hi⟩ := List.getElem?_of_mem hr
      obtain ⟨ev, sync', rfl, hs, -⟩ :=
        SyncStep.exists_finish hphase hi hopen (.internal "cancelled")
      exact ⟨_, _, rfl, .sync hs hrunning hpass⟩

/-- A chain that is being scanned has a step, unless its scan has panicked. -/
theorem exists_step_of_scanning (hrunning : s.Running) {w : W} (hpass : s.pass w = .scanning)
    (hstop : s.service.scan w ≠ .stopped) :
    ∃ ev s', ev.pass = some w ∧ OnceStep d codec needs s (.task ev) s' := by
  cases hphase : s.service.scan w with
  | idle =>
    have hadmits : s.Admits (.loaded w 0 : ServiceEvent W P F) := ⟨hrunning, hpass⟩
    exact ⟨_, _, rfl, .task hadmits (.loaded 0 hphase)⟩
  | scanning snapshot now before writes =>
    obtain ⟨service', ⟨opps, hs⟩ | hs⟩ : ∃ t,
      (∃ opps, ServiceStep d codec s.service (.notified w opps) t) ∨
      ServiceStep d codec s.service (.scanPanicked w) t := ServiceStep.exists_scanEnd hphase
    · have hadmits : s.Admits (.notified w opps : ServiceEvent W P F) := ⟨hrunning, hpass⟩
      exact ⟨_, _, rfl, .task hadmits hs⟩
    · have hadmits : s.Admits (.scanPanicked w : ServiceEvent W P F) := ⟨hrunning, hpass⟩
      exact ⟨_, _, rfl, .task hadmits hs⟩
  | stopped => exact absurd hphase hstop

/-- The loop that waits can end: it does so at once where no time passes but what it sleeps. -/
theorem exists_step_of_waiting {writes : List PriceWrite} (hwait : s.warm = .waiting writes) :
    ∃ live s', OnceStep d codec needs s (.warmed live) s' := by
  rcases hloop : warmPrices needs ⟨0, fun k => 300_000_000 * k, le_rfl, fun k => le_rfl⟩ 0
    (World.quiet d.feeds.store) with ⟨live, world'⟩
  exact ⟨live, _, .warmed (.refl _) (.refl _) hwait (observes_quiet _ writes) hloop⟩

/--
**One scan of every chain ends.** Whatever the chains and the feeds answer, the program takes no
more steps than there are calls to make, whatever the order in which they return; and until it is
done with every chain, or a scan has panicked, it can go on: the loop that waits for prices can end,
and then each chain that is not done has a step, whatever is happening on the others.
-/
theorem once_ends [Fintype W] (d : Deployment W P) (codec : Codec F) (needs : Needs)
    (evs : List (OnceEvent W P F)) (s : OnceState W P) (hrun : d.RunsOnce codec needs evs s) :
    evs.countP OnceEvent.own ≤ 1 + ∑ w, (2 * (d.worker w).supporting.length + 4) ∧
    (s.panicked = false →
      (∃ live s', OnceStep d codec needs s (.warmed live) s') ∨
      ∀ w, s.pass w ≠ .done →
        ∃ ev s', ev.pass = some w ∧ OnceStep d codec needs s (.task ev) s') := by
  constructor
  · have hbound : evs.countP OnceEvent.own + s.work d ≤ (OnceState.init d).work d :=
      hrun.countP_add_le (fun s ev t => OnceStep.work_lt) (fun s ev t => OnceStep.work_le)
    rw [work_init] at hbound
    omega
  · intro halive
    cases hwarm : s.warm with
    | waiting writes => exact Or.inl (exists_step_of_waiting hwarm)
    | ready live =>
      have hrunning : s.Running := ⟨⟨live, hwarm⟩, halive⟩
      refine Or.inr fun w hpass => ?_
      cases hp : s.pass w with
      | syncing => exact exists_step_of_syncing hrunning hp
      | scanning =>
        refine exists_step_of_scanning hrunning hp fun hstop => ?_
        rw [panicked_of_stopped hrun w hstop] at halive
        cases halive
      | done => exact absurd hp hpass

end

section

attribute [local instance] RustDecimal.reference Alloy.reference AmmRpc.oneTx Crates.offline

/-- One chain with one exchange takes at most seven steps. -/
theorem ends_tokenOnce : ∃ (s : OnceState (Fin tokenRouter.tasks.length) AmmCorePool)
    (ranked : List Opportunity),
    tokenRouter.deployment.RunsOnce decimalCodec tokenSettings.needs
      (tokenOnce ++ [.task (.notified tokenTask ranked)]) s ∧
    List.countP OnceEvent.own (tokenOnce ++ [.task (.notified tokenTask ranked)]) ≤ 7 := by
  obtain ⟨s, ranked, hrun, -, -⟩ := runsOnce_tokenOnce
  exact ⟨s, ranked, hrun,
    (once_ends tokenRouter.deployment decimalCodec tokenSettings.needs _ s hrun).1⟩

end

end ArbRouter

import ArbRouter.Core.Scanner

/-!
# Opportunity sinks

`adapters/notifier/mod.rs`: the log, the in-memory sink the API reads, and the composite that fans
out to several sinks and swallows their failures.

Each sink has a state of its own; where several act together the state is a pair, and `onFst` and
`onSnd` say which part a sink owns.
-/

namespace ArbRouter

open Infra RustDecimal

variable {ν ω : Type}

/-! ## The sinks -/

/-- The fields of one `tracing` event. -/
structure LogEvent where
  chain : String
  path : String
  input : String
  output : String
  roiBps : UInt32
deriving DecidableEq

/-- `LogNotifier`: one event per opportunity. -/
def LogNotifier [RustDecimal] : Notifier (List LogEvent) where
  notify chain opps log := (.ok (), log ++ opps.map fun opp =>
    ⟨chain.asStr, opp.path.canonicalKey, toStr opp.input.val, toStr opp.output.val, opp.roiBps⟩)

/-- `MemoryNotifier`: the latest opportunities per chain. -/
structure MemoryNotifier where
  latest : HashMap ChainId (List Opportunity)

namespace MemoryNotifier

def new : MemoryNotifier := ⟨∅⟩

/-- The latest opportunities of a chain. -/
def get (memory : MemoryNotifier) (chain : ChainId) : List Opportunity :=
  (memory.latest.lookup chain).getD []

/-- The latest opportunities across every chain. -/
def all (order : IterOrder (List Opportunity)) (memory : MemoryNotifier) : List Opportunity :=
  (order.run memory.latest.values).flatten

/-- What a chain's set contains it has been handed over with. -/
theorem mem_get {memory : MemoryNotifier} {chain : ChainId} {opp : Opportunity} :
    opp ∈ memory.get chain ↔ ∃ opps, memory.latest.lookup chain = some opps ∧ opp ∈ opps := by
  unfold get
  cases memory.latest.lookup chain <;> simp

theorem mem_all {order : IterOrder (List Opportunity)} {memory : MemoryNotifier}
    {opp : Opportunity} : opp ∈ memory.all order ↔ ∃ chain, opp ∈ memory.get chain := by
  unfold all
  rw [List.mem_flatten]
  constructor
  · rintro ⟨opps, hopps, hopp⟩
    obtain ⟨chain, hlook⟩ := HashMap.mem_values.mp (order.mem_run.mp hopps)
    exact ⟨chain, mem_get.mpr ⟨opps, hlook, hopp⟩⟩
  · rintro ⟨chain, hopp⟩
    obtain ⟨opps, hlook, hopp⟩ := mem_get.mp hopp
    exact ⟨opps, order.mem_run.mpr (HashMap.mem_values.mpr ⟨chain, hlook⟩), hopp⟩

/-- `notify` replaces the set of the chain. -/
def notifier : Notifier MemoryNotifier where
  notify chain opps memory := (.ok (), ⟨memory.latest.insert chain opps⟩)

end MemoryNotifier

/-- `CompositeNotifier`: every child is notified; a failure is not propagated. -/
def CompositeNotifier (children : List (Notifier ν)) : Notifier ν where
  notify chain opps s := (.ok (), children.foldl (fun s child => (child.notify chain opps s).2) s)

/-! ## Sinks side by side -/

/-- The sink owns the first part of the state. -/
def Notifier.onFst (n : Notifier ν) : Notifier (ν × ω) where
  notify chain opps s := ((n.notify chain opps s.1).1, ((n.notify chain opps s.1).2, s.2))

/-- The sink owns the second part of the state. -/
def Notifier.onSnd (n : Notifier ω) : Notifier (ν × ω) where
  notify chain opps s := ((n.notify chain opps s.2).1, (s.1, (n.notify chain opps s.2).2))

/-- Children that own the second part leave the first one alone, also when they fail. -/
theorem foldl_onSnd_fst (children : List (Notifier ω)) (chain : ChainId) (opps : List Opportunity)
    (s : ν × ω) :
    ((children.map Notifier.onSnd).foldl (fun s child => (child.notify chain opps s).2) s).1
      = s.1 := by
  induction children generalizing s with
  | nil => rfl
  | cons child rest ih =>
    rw [List.map_cons, List.foldl_cons, ih]
    rfl

/-- A composite of the memory and any other sinks replaces the set of the chain. -/
theorem composite_notify_fst (before after : List (Notifier ω)) (chain : ChainId)
    (opps : List Opportunity) (s : MemoryNotifier × ω) :
    ((CompositeNotifier (before.map Notifier.onSnd ++
        MemoryNotifier.notifier.onFst :: after.map Notifier.onSnd)).notify chain opps s).2.1
      = ⟨s.1.latest.insert chain opps⟩ := by
  show (List.foldl
    (fun s (child : Notifier (MemoryNotifier × ω)) => (child.notify chain opps s).2) s
    (before.map Notifier.onSnd ++ MemoryNotifier.notifier.onFst :: after.map Notifier.onSnd)).1 = _
  rw [List.foldl_append, List.foldl_cons, foldl_onSnd_fst]
  have hbefore := foldl_onSnd_fst before chain opps s
  exact congrArg (fun m : MemoryNotifier => MemoryNotifier.mk (m.latest.insert chain opps)) hbefore

/-! ## A history of notifications -/

/-- A call of `notify` on the memory, directly or through a composite with other children. -/
structure NotifyCall (ω : Type) where
  others : Option (List (Notifier ω) × List (Notifier ω))
  chain : ChainId
  opps : List Opportunity

/-- The sink that is called. -/
def NotifyCall.notifier (call : NotifyCall ω) : Notifier (MemoryNotifier × ω) :=
  match call.others with
  | none => MemoryNotifier.notifier.onFst
  | some (before, after) => CompositeNotifier (before.map Notifier.onSnd ++
      MemoryNotifier.notifier.onFst :: after.map Notifier.onSnd)

/-- The states of the memory and of the other sinks after the calls, in order. -/
def runCalls (calls : List (NotifyCall ω)) (s : MemoryNotifier × ω) : MemoryNotifier × ω :=
  calls.foldl (fun s call => (call.notifier.notify call.chain call.opps s).2) s

/-- One call replaces the set of its chain. -/
theorem NotifyCall.notify_fst (call : NotifyCall ω) (s : MemoryNotifier × ω) :
    (call.notifier.notify call.chain call.opps s).2.1
      = ⟨s.1.latest.insert call.chain call.opps⟩ := by
  unfold notifier
  cases call.others with
  | none => rfl
  | some children => exact composite_notify_fst children.1 children.2 call.chain call.opps s

/-- All calls together. -/
theorem runCalls_fst (calls : List (NotifyCall ω)) (s : MemoryNotifier × ω) :
    (runCalls calls s).1.latest
      = calls.foldl (fun m call => m.insert call.chain call.opps) s.1.latest := by
  induction calls generalizing s with
  | nil => rfl
  | cons call rest ih =>
    show (runCalls rest (call.notifier.notify call.chain call.opps s).2).1.latest = _
    rw [ih, call.notify_fst, List.foldl_cons]

theorem lookup_runCalls (calls : List (NotifyCall ω)) (w : ω) (chain : ChainId) :
    (runCalls calls (MemoryNotifier.new, w)).1.latest.lookup chain
      = (calls.reverse.find? fun call => call.chain = chain).map NotifyCall.opps := by
  have hnew : (MemoryNotifier.new, w).1.latest.lookup chain = none := AList.lookup_empty chain
  rw [runCalls_fst, HashMap.lookup_foldl_insert NotifyCall.chain NotifyCall.opps, hnew,
    Option.or_none]

/-- The opportunities of the last call for the chain. -/
def latestOf (calls : List (NotifyCall ω)) (chain : ChainId) : List Opportunity :=
  ((calls.reverse.find? fun call => call.chain = chain).map NotifyCall.opps).getD []

/-- **The memory holds the last call of each chain.** -/
theorem get_runCalls (calls : List (NotifyCall ω)) (w : ω) (chain : ChainId) :
    (runCalls calls (MemoryNotifier.new, w)).1.get chain = latestOf calls chain := by
  unfold MemoryNotifier.get latestOf
  rw [lookup_runCalls]

/-- The chains of the calls are the keys of the memory. -/
theorem mem_keys_runCalls (calls : List (NotifyCall ω)) (w : ω) (chain : ChainId) :
    chain ∈ (runCalls calls (MemoryNotifier.new, w)).1.latest.keys
      ↔ ∃ call ∈ calls, call.chain = chain := by
  rw [← AList.mem_keys, ← AList.lookup_isSome, lookup_runCalls, Option.isSome_map,
    List.find?_isSome]
  simp

end ArbRouter

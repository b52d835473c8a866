import Parley.LazyRegistry
import Mathlib.Data.List.TakeWhile

/-!
# What a lazy registry remembers

A program changes its files as it likes and makes lazy registries that read them. The first demand
fixes what a lazy registry has: the registry of its data file as the file stands at that moment, or
the empty one if the file gives none. Nothing that happens later is seen through it any more.
-/

namespace Parley

/-- A program that keeps files, each under its own path, and lazy registries in the order in which
they were made. -/
structure Host where
  files : String → DataFile
  registries : List LazyRegistry

namespace Host

inductive Event
  | write (path : String) (bytes : List UInt8)
  | remove (path : String)
  | makeDirectory (path : String)
  | prepare (config : Config)
  | demand (which : Nat)
  | ask (which : Nat)
deriving DecidableEq

/-- What a lazy registry answers: to a demand its registry, else whether it is loaded. -/
inductive Reply
  | registry (registry : Registry)
  | loaded (loaded : Bool)

def setFile (host : Host) (path : String) (file : DataFile) : Host :=
  { host with files := fun other => if other = path then file else host.files other }

/-- What a lazy registry reads when it is demanded now. -/
def dataFile (host : Host) (registry : LazyRegistry) : DataFile :=
  host.files registry.config.dataPath

def step (host : Host) : Event → Option Reply × Host
  | .write path bytes => (none, host.setFile path (.file bytes))
  | .remove path => (none, host.setFile path .absent)
  | .makeDirectory path => (none, host.setFile path .directory)
  | .prepare config => (none, { host with registries := host.registries ++ [.new config] })
  | .demand which =>
    match host.registries[which]? with
    | some registry =>
      let (found, registry) := registry.get (host.dataFile registry)
      (some (.registry found), { host with registries := host.registries.set which registry })
    | none => (none, host)
  | .ask which => ((host.registries[which]?).map fun registry => .loaded registry.isLoaded, host)

def after (host : Host) (events : List Event) : Host :=
  events.foldl (fun host event => (host.step event).2) host

/-- What the event leaves at the path, if it changes what is there. -/
def Event.leaves? (path : String) : Event → Option DataFile
  | write changed bytes => if path = changed then some (.file bytes) else none
  | remove changed => if path = changed then some .absent else none
  | makeDirectory changed => if path = changed then some .directory else none
  | prepare _ | demand _ | ask _ => none

/-- The file at the path once these events have happened: what the last change left there. -/
def lastFile (host : Host) (path : String) (events : List Event) : DataFile :=
  (events.reverse.findSome? (Event.leaves? path)).getD (host.files path)

@[simp]
theorem after_cons (host : Host) (event : Event) (events : List Event) :
    host.after (event :: events) = (host.step event).2.after events := rfl

theorem after_append (host : Host) (front back : List Event) :
    host.after (front ++ back) = (host.after front).after back :=
  List.foldl_append ..

theorem files_step (host : Host) (event : Event) (path : String) :
    (host.step event).2.files path = (event.leaves? path).getD (host.files path) := by
  cases event with
  | write changed | remove changed | makeDirectory changed =>
    by_cases h : path = changed <;> simp [step, setFile, Event.leaves?, h]
  | prepare | ask => rfl
  | demand which =>
    rw [step]
    split <;> rfl

theorem files_after (host : Host) (events : List Event) (path : String) :
    (host.after events).files path = host.lastFile path events := by
  induction events generalizing host with
  | nil => rfl
  | cons event rest ih =>
    rw [after_cons, ih, lastFile, lastFile, files_step, List.reverse_cons, List.findSome?_append]
    cases rest.reverse.findSome? (Event.leaves? path) <;> simp

section Registries

variable {host : Host} {which : Nat} {registry : LazyRegistry}

theorem getElem?_step_demand (h : host.registries[which]? = some registry) :
    (host.step (.demand which)).2.registries[which]? =
      some (registry.get (host.dataFile registry)).2 := by
  obtain ⟨hlt, -⟩ := List.getElem?_eq_some_iff.mp h
  simp only [step, h, List.getElem?_set_self hlt]

theorem getElem?_step_of_ne {event : Event} (hevent : event ≠ .demand which)
    (h : host.registries[which]? = some registry) :
    (host.step event).2.registries[which]? = some registry := by
  obtain ⟨hlt, -⟩ := List.getElem?_eq_some_iff.mp h
  cases event with
  | write | remove | makeDirectory | ask => exact h
  | prepare config =>
    rw [step, List.getElem?_append_left hlt]
    exact h
  | demand other =>
    have hother : other ≠ which := fun heq => hevent (congrArg Event.demand heq)
    rw [step]
    split
    · rw [List.getElem?_set_ne hother]
      exact h
    · exact h

theorem getElem?_after_of_notMem {events : List Event} (hevents : .demand which ∉ events)
    (h : host.registries[which]? = some registry) :
    (host.after events).registries[which]? = some registry := by
  induction events generalizing host with
  | nil => exact h
  | cons event rest ih =>
    obtain ⟨hevent, hrest⟩ := List.ne_and_not_mem_of_not_mem_cons hevents
    exact ih hrest (getElem?_step_of_ne hevent.symm h)

/-- A lazy registry that has loaded is the same for ever. -/
theorem getElem?_after_of_loaded {loaded : Registry} (hloaded : registry.loaded = some loaded)
    (h : host.registries[which]? = some registry) (events : List Event) :
    (host.after events).registries[which]? = some registry := by
  induction events generalizing host with
  | nil => exact h
  | cons event rest ih =>
    refine ih ?_
    by_cases hevent : event = .demand which
    · rw [hevent, getElem?_step_demand h, LazyRegistry.get, hloaded]
    · exact getElem?_step_of_ne hevent h

/-- A lazy registry that has not loaded is loaded by the first demand, from its data file as the
file stands then. -/
theorem getElem?_after_of_mem {events : List Event} (hevents : .demand which ∈ events)
    (hfresh : registry.loaded = none) (h : host.registries[which]? = some registry) :
    (host.after events).registries[which]? =
      some { registry with
        loaded := some (Registry.load (host.lastFile registry.config.dataPath
          (events.takeWhile (· ≠ .demand which)))) } := by
  obtain ⟨front, back, rfl, hfront⟩ := List.eq_append_cons_of_mem hevents
  have hbefore : (front ++ .demand which :: back).takeWhile (· ≠ .demand which) = front := by
    rw [List.takeWhile_append_of_pos fun event hmem => ?_]
    · simp
    · exact decide_eq_true (ne_of_mem_of_not_mem hmem hfront)
  have hunread := getElem?_after_of_notMem hfront h
  have hread := getElem?_step_demand hunread
  rw [hbefore, after_append, after_cons]
  refine getElem?_after_of_loaded rfl ?_ back
  rw [hread, LazyRegistry.get, hfresh, dataFile, files_after]

theorem reply_demand (h : host.registries[which]? = some registry) :
    (host.step (.demand which)).1 =
      some (.registry (registry.get (host.dataFile registry)).1) := by
  simp only [step, h]

/-- A lazy registry that was fresh before these events is loaded if one of them demanded it, and
whether one did or not, a demand finds what its data file gave before the first demand. -/
theorem exists_registry_after {config : Config} (h : host.registries[which]? = some (.new config))
    (events : List Event) :
    let found := Registry.load
      (host.lastFile config.dataPath (events.takeWhile (· ≠ .demand which)))
    ∃ registry, (host.after events).registries[which]? = some registry ∧
      registry.isLoaded = decide (.demand which ∈ events) ∧
      registry.get ((host.after events).dataFile registry) = (found, ⟨config, some found⟩) := by
  by_cases hdemanded : .demand which ∈ events
  · refine ⟨_, getElem?_after_of_mem hdemanded rfl h, ?_, rfl⟩
    simp [LazyRegistry.isLoaded, hdemanded]
  · have hbefore : events.takeWhile (· ≠ .demand which) = events := by
      rw [List.takeWhile_eq_self_iff]
      exact fun event hmem => decide_eq_true (ne_of_mem_of_not_mem hmem hdemanded)
    refine ⟨_, getElem?_after_of_notMem hdemanded h, ?_, ?_⟩
    · simp [LazyRegistry.isLoaded, LazyRegistry.new, hdemanded]
    · simp only [hbefore, LazyRegistry.get, LazyRegistry.new, dataFile, files_after]

end Registries

/-- A lazy registry is loaded if and only if it has been demanded. Every demand returns what its
data file gave when it was first demanded, the empty registry if the file gave none, and so all
demands return the same. -/
theorem first_demand_is_remembered (host : Host) (config : Config) (events : List Event) :
    let which := host.registries.length
    let now := host.after (.prepare config :: events)
    let file := host.lastFile config.dataPath (events.takeWhile (· ≠ .demand which))
    (now.step (.ask which)).1 = some (.loaded (decide (.demand which ∈ events))) ∧
      (now.step (.demand which)).1 =
        some (.registry
          (match Registry.tryLoad file with
          | .ok registry => registry
          | .error _ => .empty)) ∧
      ∀ later, ((now.after (.demand which :: later)).step (.demand which)).1 =
        (now.step (.demand which)).1 := by
  intro which now file
  have hfresh : (host.step (.prepare config)).2.registries[which]? = some (.new config) := by
    rw [step, List.getElem?_concat_length]
  obtain ⟨registry, hregistry, hloaded, hget⟩ : ∃ registry, now.registries[which]? = some registry ∧
      registry.isLoaded = decide (.demand which ∈ events) ∧
      registry.get (now.dataFile registry) =
        (Registry.load file, ⟨config, some (Registry.load file)⟩) :=
    exists_registry_after hfresh events
  have hfirst : (now.step (.demand which)).1 = some (.registry (Registry.load file)) := by
    rw [reply_demand hregistry, hget]
  refine ⟨?_, hfirst, fun later => ?_⟩
  · simp only [step, hregistry, hloaded, Option.map_some]
  · have hread := getElem?_step_demand hregistry
    rw [hget] at hread
    have hkept := getElem?_after_of_loaded rfl hread later
    rw [hfirst, after_cons, reply_demand hkept]
    rfl

end Host

end Parley

import Parley.Config

/-!
# Registries loaded on demand

Such a registry reads the data file once, at the first demand, and keeps what it found, also if it
found nothing.
-/

namespace Parley

structure LazyRegistry where
  config : Config
  loaded : Option Registry

namespace LazyRegistry

def new (config : Config) : LazyRegistry :=
  ⟨config, none⟩

def isLoaded (registry : LazyRegistry) : Bool :=
  registry.loaded.isSome

/-- The registry, loaded from the data file as it stands now if this is the first demand. -/
def get (registry : LazyRegistry) (file : DataFile) : Registry × LazyRegistry :=
  match registry.loaded with
  | some loaded => (loaded, registry)
  | none =>
    let loaded := Registry.load file
    (loaded, { registry with loaded := some loaded })

end LazyRegistry

end Parley

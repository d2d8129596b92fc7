import Injector.Config

/-!
# Proxies and placement

Which identifiers get a proxy that activates their sources, and which never go to files of their
own. An identifier that is excluded from proxies is excluded from placement too.
-/

namespace Injector.Config

/-- Whether an entry point gets a proxy, given whether its declaration asks for one. -/
def wraps (c : Config) (id : Identifier) (declared : Bool) : Bool :=
  (c.autoload.enabled || declared) && id ∉ c.autoload.excluded

def staysInline (c : Config) (id : Identifier) : Bool :=
  id ∈ c.autoload.excluded || id ∈ c.files.excluded

end Injector.Config

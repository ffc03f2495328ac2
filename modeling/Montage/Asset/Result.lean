import Montage.Value

/-!
What fetching the source of a clip gave.
-/

namespace Montage

/-- The bytes of a clip's source, or the problem that kept them away. -/
structure AssetResult where
  data : Option ByteArray := none
  problem : Option String := none

def AssetResult.ok (r : AssetResult) : Bool := r.data.isSome && r.problem.isNone

/-- Results by the id of the clip; of several entries for one id the last counts. -/
abbrev Assets := List (String × AssetResult)

def Assets.get? (assets : Assets) (clip : String) : Option AssetResult :=
  (assets.reverse.find? (·.1 = clip)).map (·.2)

end Montage

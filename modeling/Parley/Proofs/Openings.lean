import Parley.Proofs.Judging

/-!
# How a session begins

Beginning a session judges its entries one after the other, up to the first that does not turn out
false. That entry alone decides: the session stops there if it cannot be judged, and delivers it if
it holds. What stands behind it is never looked at.
-/

namespace Parley

variable {σ : Type}

namespace Session

end Session

end Parley

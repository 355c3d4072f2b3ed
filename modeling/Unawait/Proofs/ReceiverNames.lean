import Mathlib
import Unawait.Grammar.Program
import Unawait.Proofs.Captures
import Unawait.Proofs.ReadingSteps
import Unawait.Proofs.RunCalls

/-!
# Where the receiver is named

The reader makes a node for the word `this` where it reads an expression that starts with
it, and whatever follows the word directly keeps that node. The name of an element gives no
node: an element has the nodes of its attributes, its type arguments and its content, and no
others. So `this` as the object of an element's name is not seen by the rules, and a
function in which it stands nowhere else does not pass its receiver on.
-/

namespace Unawait

open Lowering Parse

/-! ### The node for the word -/

namespace Node

variable {span : Span} {node : Node}

end Node

/-! ### Expressions that start with the word -/

section Operands

variable {span : Span} {rules : Rules} {expr : Expr}

end Operands

section Receivers

variable {lexed : Lexed} {rules : Rules}

end Receivers

/-! ### Elements -/

section Elements

variable {rules : Rules} {property : Node → Prop}

end Elements

/-! ### Runs -/

end Unawait

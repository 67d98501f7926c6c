import Notebook.Syntax.Pattern
import Notebook.Proofs.Syntax.Type

/-!
The productions of patterns over grammars that follow each other follow each other.
-/

set_option synthInstance.maxSize 10000
set_option synthInstance.maxHeartbeats 200000

namespace Notebook.Syntax.Parser

variable {E : Ends} {g g' : Grammar} [hg : g.Follows g']

section

variable [Calm E]

instance : Follows E Eq Always (rangeLimits b) (rangeLimits b) := by
  unfold rangeLimits; infer_instance

instance : Follows E Eq Always (patterns g) (patterns g') := by
  unfold patterns; infer_instance

theorem isRangeBoundEnd_eq (ts : List Tree) : isRangeBoundEnd ts =
    (silentAhead ts || Ahead.mark "|" ts || Ahead.mark "=" ts ||
      (Ahead.mark ":" ts && !Ahead.mark "::" ts) || Ahead.mark "," ts || Ahead.word "if" ts) := by
  simp only [isRangeBoundEnd, silentAhead, Bool.or_assoc, Bool.or_left_comm, Bool.or_comm]

instance {n : Nat} : Agree E n isRangeBoundEnd := by
  rw [funext isRangeBoundEnd_eq]; infer_instance

instance : Follows E Eq Found (rangeBound g) (rangeBound g') := by
  unfold rangeBound; infer_instance

instance {b : Bool} : Follows E Eq Always (rangePattern g b) (rangePattern g' b) := by
  unfold rangePattern; infer_instance

instance : Follows E Eq Always (literalPattern g) (literalPattern g') := by
  unfold literalPattern; infer_instance

instance : Follows E Eq Always (fieldPattern g) (fieldPattern g') := by
  unfold fieldPattern; infer_instance

end

instance [Firm E] : Follows E Eq Never (structPattern g) (structPattern g') := by
  unfold structPattern; infer_instance

section

variable [Calm E]

instance : Follows E Eq Always (pathPattern g) (pathPattern g') := by
  unfold pathPattern; infer_instance

instance : Follows E Eq Always (identPattern g) (identPattern g') := by
  unfold identPattern; infer_instance

end

instance [Firm E] : Follows E Eq Never (slicePattern g) (slicePattern g') := by
  unfold slicePattern; infer_instance

instance [Calm E] : Follows E Eq Always (pattern g) (pattern g') := by
  unfold pattern; infer_instance

end Notebook.Syntax.Parser

import Mathlib

/-!
# The mutation progress of a request

Model of `MutationProgress` (`router/request.rs`, lines 122-181): one atomic byte that a
request, its upload task and its detached commit share. Each function is one atomic access.
-/

namespace DufsRam.Router

/-- The values of the byte (lines 130-133). -/
inductive MutationProgress where
  | preflight
  | reserved
  | detachedCommit
  | cancelledBeforeUploadMutation
deriving DecidableEq

namespace MutationProgress

/-- `mark_reserved` (lines 135-142). -/
def markReserved : MutationProgress → MutationProgress
  | .preflight => .reserved
  | progress => progress

/-- `mark_detached_commit` (lines 144-146). -/
def markDetachedCommit (_ : MutationProgress) : MutationProgress := .detachedCommit

/-- `begin_upload_mutation` (lines 151-163): the answer, and the byte after it. -/
def beginUploadMutation : MutationProgress → Bool × MutationProgress
  | .preflight | .detachedCommit => (true, .detachedCommit)
  | progress => (false, progress)

/-- `cancel_upload_before_mutation` (lines 167-176). -/
def cancelUploadBeforeMutation : MutationProgress → Bool × MutationProgress
  | .preflight => (true, .cancelledBeforeUploadMutation)
  | progress => (false, progress)

/-- `outcome_can_be_unknown` (lines 178-180). -/
def outcomeCanBeUnknown (progress : MutationProgress) : Bool := decide (progress = .detachedCommit)

end MutationProgress

end DufsRam.Router

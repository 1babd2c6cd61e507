import Rollout.Text.Split

/-!
The status of a stack, as its provider reports it. A status the library does not know is kept
by its text.
-/

namespace Rollout

/-- The status of a stack. -/
inductive StackStatus where
  | absent
  | createInProgress
  | createComplete
  | createFailed
  | updateInProgress
  | updateCompleteCleanupInProgress
  | updateComplete
  | updateFailed
  | updateRollbackInProgress
  | updateRollbackComplete
  | updateRollbackFailed
  | rollbackInProgress
  | rollbackComplete
  | rollbackFailed
  | deleteInProgress
  | deleteComplete
  | deleteFailed
  | other (text : String)
deriving DecidableEq, Repr

namespace StackStatus

/-- The statuses known by name, with their texts. -/
def known : List (String × StackStatus) :=
  [("ABSENT", absent),
   ("CREATE_IN_PROGRESS", createInProgress),
   ("CREATE_COMPLETE", createComplete),
   ("CREATE_FAILED", createFailed),
   ("UPDATE_IN_PROGRESS", updateInProgress),
   ("UPDATE_COMPLETE_CLEANUP_IN_PROGRESS", updateCompleteCleanupInProgress),
   ("UPDATE_COMPLETE", updateComplete),
   ("UPDATE_FAILED", updateFailed),
   ("UPDATE_ROLLBACK_IN_PROGRESS", updateRollbackInProgress),
   ("UPDATE_ROLLBACK_COMPLETE", updateRollbackComplete),
   ("UPDATE_ROLLBACK_FAILED", updateRollbackFailed),
   ("ROLLBACK_IN_PROGRESS", rollbackInProgress),
   ("ROLLBACK_COMPLETE", rollbackComplete),
   ("ROLLBACK_FAILED", rollbackFailed),
   ("DELETE_IN_PROGRESS", deleteInProgress),
   ("DELETE_COMPLETE", deleteComplete),
   ("DELETE_FAILED", deleteFailed)]

/-- The first status listed for a text. -/
def find? (text : String) : List (String × StackStatus) → Option StackStatus
  | [] => none
  | (t, s) :: rest => if t = text then some s else find? text rest

/-- The status a text stands for. -/
def ofText (text : String) : StackStatus :=
  (find? text known).getD (other text)

/-- The text of a status. -/
def text : StackStatus → String
  | absent => "ABSENT"
  | createInProgress => "CREATE_IN_PROGRESS"
  | createComplete => "CREATE_COMPLETE"
  | createFailed => "CREATE_FAILED"
  | updateInProgress => "UPDATE_IN_PROGRESS"
  | updateCompleteCleanupInProgress => "UPDATE_COMPLETE_CLEANUP_IN_PROGRESS"
  | updateComplete => "UPDATE_COMPLETE"
  | updateFailed => "UPDATE_FAILED"
  | updateRollbackInProgress => "UPDATE_ROLLBACK_IN_PROGRESS"
  | updateRollbackComplete => "UPDATE_ROLLBACK_COMPLETE"
  | updateRollbackFailed => "UPDATE_ROLLBACK_FAILED"
  | rollbackInProgress => "ROLLBACK_IN_PROGRESS"
  | rollbackComplete => "ROLLBACK_COMPLETE"
  | rollbackFailed => "ROLLBACK_FAILED"
  | deleteInProgress => "DELETE_IN_PROGRESS"
  | deleteComplete => "DELETE_COMPLETE"
  | deleteFailed => "DELETE_FAILED"
  | other text => text

/-- Whether a status is known by name. -/
def isKnown : StackStatus → Bool
  | other _ => false
  | _ => true

/-- Whether nothing more will happen without a new request. -/
def isTerminal (s : StackStatus) : Bool :=
  !Text.endsWith "_IN_PROGRESS" s.text

/-- Whether the last request did not take effect. A change that was rolled back counts. -/
def isFailure : StackStatus → Bool
  | createFailed | updateFailed | updateRollbackComplete | updateRollbackFailed
  | rollbackComplete | rollbackFailed | deleteFailed => true
  | other text => Text.endsWith "_FAILED" text
  | _ => false

/-- Whether the stack no longer exists. -/
def isGone : StackStatus → Bool
  | absent | deleteComplete => true
  | _ => false

end StackStatus

end Rollout

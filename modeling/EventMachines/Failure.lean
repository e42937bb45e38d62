import EventMachines.StoreError

/-!
How handling one input fails. A failure names the input it belongs to and, where there is one, the
error or rejection behind it.
-/

namespace EventMachines

/-- What stands behind a failure to publish. -/
inductive Cause where
  | text (message : String)
  | store (error : StoreError)
  deriving DecidableEq

namespace Cause

def message : Cause → String
  | text message => message
  | store error => error.message

def causes : Cause → List String
  | text message => [message]
  | store error => error.causes

def storeError? : Cause → Option StoreError
  | text _ => none
  | store error => some error

end Cause

/-- Failures of inputs of type `I` whose rejections are of type `R`. -/
inductive Failure (I R : Type) where
  | fetchFailed (input : I) (error : StoreError)
  | rejected (input : I) (reason : R)
  | storeFailed (input : I) (error : StoreError)
  | terminal (input : I)
  | publishingFailed (input : Option I) (cause : Cause)
  | depthExceeded (input : I) (depth : Nat)
  deriving DecidableEq

namespace Failure

variable {I R : Type}

/-- The message, given the texts of the rejections. -/
def message (text : R → String) : Failure I R → String
  | fetchFailed _ error => "failed to fetch prior state: " ++ error.message
  | rejected _ reason => "failed to compute new state: " ++ text reason
  | storeFailed _ error => "failed to store result: " ++ error.message
  | terminal _ => "state is terminal, no further commands are accepted"
  | publishingFailed _ cause => "failed to publish: " ++ cause.message
  | depthExceeded _ depth => "orchestration depth limit exceeded at depth " ++ toString depth

/-- The messages of the chain of causes, outermost first. -/
def causes (text : R → String) : Failure I R → List String
  | fetchFailed _ error | storeFailed _ error => error.causes
  | rejected _ reason => [text reason]
  | publishingFailed _ cause => cause.causes
  | terminal _ | depthExceeded _ _ => []

/-- The input at fault; an input that could not even be read is none. -/
def input? : Failure I R → Option I
  | fetchFailed i _ | rejected i _ | storeFailed i _ | terminal i | depthExceeded i _ => some i
  | publishingFailed i _ => i

/-- The store's error, where it is the direct cause. -/
def storeError? : Failure I R → Option StoreError
  | fetchFailed _ error | storeFailed _ error => some error
  | publishingFailed _ cause => cause.storeError?
  | _ => none

def depth? : Failure I R → Option Nat
  | depthExceeded _ depth => some depth
  | _ => none

/-- The data changed between reading and writing, so the input may be tried again. -/
def isVersionConflict : Failure I R → Bool
  | storeFailed _ (.versionMismatch _ _) => true
  | _ => false

/-- The delivery does not carry the next number, so it is a duplicate or came too early. -/
def isDuplicate : Failure I R → Bool
  | storeFailed _ (.sequenceMismatch _ _) => true
  | _ => false

end Failure

end EventMachines

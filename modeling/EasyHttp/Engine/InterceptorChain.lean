import EasyHttp.Library.Runs

/-!
# Interceptor chains

`HttpRequestExecutor::execute` and `HttpEngine::execute` hold one iterator over their list of
interceptors. Every chain object, at any depth, refers to that iterator, and `proceed`
advances it. The iterator is modelled by its position in the list.
-/

namespace EasyHttp

/-- What a chain runs behind its last interceptor. -/
inductive TerminalExecution where
  /-- `HttpRequestExecutor::executeAfterIntercept` -/
  | executeAfterIntercept
  /-- `HttpEngine::sendRequestAndReceiveResponseWithRetryByConnection` -/
  | sendRequestAndReceiveResponseWithRetryByConnection
deriving DecidableEq

/-- What a call of `proceed` leads to. -/
inductive Callee where
  /-- `intercept` of the interceptor at a position -/
  | intercept (position : ℕ)
  | terminal (execution : TerminalExecution)
  /-- The iterator is advanced past the end of the list: undefined behaviour. -/
  | undefined
deriving DecidableEq

/-- `proceed` of both chains: the new position of the iterator, and what is called. -/
def InterceptorChain.proceed (execution : TerminalExecution) (size currentIterator : ℕ) :
    ℕ × Callee :=
  if currentIterator < size then
    let currentIterator := currentIterator + 1
    if currentIterator ≠ size then (currentIterator, .intercept currentIterator)
    else (currentIterator, .terminal execution)
  else (currentIterator, .undefined)

/-- `proceed` of the chain of a call. -/
def CallInterceptorChain.proceed : ℕ → ℕ → ℕ × Callee :=
  InterceptorChain.proceed .executeAfterIntercept

/-- `proceed` of the chain of the network. -/
def NetworkInterceptorChain.proceed : ℕ → ℕ → ℕ × Callee :=
  InterceptorChain.proceed .sendRequestAndReceiveResponseWithRetryByConnection

namespace InterceptorChain

/-- The two classes of chains. -/
inductive Kind where
  | call
  | network
deriving DecidableEq

/-- `proceed` of a chain. -/
def Kind.proceed : Kind → ℕ → ℕ → ℕ × Callee
  | .call => CallInterceptorChain.proceed
  | .network => NetworkInterceptorChain.proceed

/-- What stands at the end of a chain. -/
def Kind.execution : Kind → TerminalExecution
  | .call => .executeAfterIntercept
  | .network => .sendRequestAndReceiveResponseWithRetryByConnection

/-! ## The calls of `intercept` under way -/

/-- A call of `intercept` that has not returned: the interceptor's position in the list, the
request of the chain object it was given, and how often it has called `proceed` on it. -/
structure Frame (ρ : Type) where
  interceptor : ℕ
  request : ρ
  proceeds : ℕ
deriving DecidableEq

/-- The calls under way, the innermost first, and the iterator they share. -/
structure State (ρ : Type) where
  currentIterator : ℕ
  frames : List (Frame ρ)
deriving DecidableEq

/-- What the innermost interceptor does next. -/
inductive Action (ρ : Type) where
  /-- It calls `proceed` on its chain. -/
  | proceed (request : ρ)
  /-- It returns a response or throws. -/
  | leave
deriving DecidableEq

variable {ρ : Type} (kind : Kind) (size : ℕ)

/-- `execute`: the first interceptor is called, if there is one. -/
def start (request : ρ) : State ρ :=
  if size = 0 then ⟨0, []⟩ else ⟨0, [⟨0, request, 0⟩]⟩

/-- The frames after `proceed`: that of the caller, and under way on top of it the callee. -/
def State.proceed (s : State ρ) (caller : Frame ρ) (callers : List (Frame ρ)) (request : ρ) :
    Option (State ρ) :=
  let caller := { caller with proceeds := caller.proceeds + 1 }
  match kind.proceed size s.currentIterator with
  | (position, .intercept interceptor) =>
    some ⟨position, ⟨interceptor, request, 0⟩ :: caller :: callers⟩
  -- the terminal execution knows nothing of the chain and returns
  | (position, .terminal _) => some ⟨position, caller :: callers⟩
  | (_, .undefined) => none

/-- An interceptor calls `proceed`, or returns. -/
def step (s : State ρ) : Action ρ → Option (State ρ)
  | .proceed request => match s.frames with
    | caller :: callers => s.proceed kind size caller callers request
    | [] => none
  | .leave => match s.frames with
    | _ :: callers => some { s with frames := callers }
    | [] => none

end InterceptorChain

end EasyHttp

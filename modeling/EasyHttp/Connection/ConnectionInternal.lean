import EasyHttp.Message.CacheControl

/-!
# `ConnectionInternal`

A connection knows what it leads to and whether it is in use. Its methods lock the
connection's own mutex; each is one function here. The socket itself is not modelled.
-/

namespace EasyHttp

namespace HttpConstants.Schemes

def Http := "http"
def Https := "https"

end HttpConstants.Schemes

/-- The proxy of a context. -/
structure Proxy where
  host : String
  port : UInt16
deriving DecidableEq

/-- What a connection reads of an `EasyHttpContext`. -/
structure EasyHttpContext where
  proxy : Option Proxy
  rootCaDirectory : String
  rootCaFile : String
  timeoutSec : UInt32

/-- A connection is used by an engine, or waits in the pool. -/
inductive ConnectionStatus where
  | inuse
  | idle
deriving DecidableEq, Inhabited

/-- The address of a `ConnectionStatusListener`. -/
abbrev ListenerPtr := ℕ

/-- A connection of the pool, without its session. -/
structure ConnectionInternal where
  connectionStatus : ConnectionStatus
  cancelled : Bool
  scheme : String
  hostName : String
  hostPort : UInt16
  proxy : Option Proxy
  rootCaDirectory : String
  rootCaFile : String
  timeoutSec : UInt32
  /-- `none` for NULL -/
  connectionStatusListener : Option ListenerPtr
deriving Inhabited

namespace ConnectionInternal

/-- The constructor. -/
def create (poco : Poco) (url : String) (context : EasyHttpContext) :
    Except HttpException ConnectionInternal :=
  match poco.uri url with
  | .error message =>
    .error (.execution ("url is not valid. [" ++ url ++ "] message=[" ++ message ++ "]"))
  | .ok uri => .ok {
      connectionStatus := .inuse
      cancelled := false
      scheme := uri.scheme
      hostName := uri.host
      hostPort := uri.port
      proxy := context.proxy
      rootCaDirectory := context.rootCaDirectory
      rootCaFile := context.rootCaFile
      timeoutSec := context.timeoutSec
      connectionStatusListener := none }

/-- The checks of `setInuseIfReusable`. -/
def isReusable (poco : Poco) (c : ConnectionInternal) (url : String) (context : EasyHttpContext) :
    Bool :=
  c.connectionStatus = .idle
    && (match poco.uri url with
      | .error _ => false
      | .ok uri => icompare uri.scheme c.scheme && uri.host = c.hostName && uri.port = c.hostPort)
    && context.proxy = c.proxy
    && (if icompare c.scheme HttpConstants.Schemes.Https then
        context.rootCaDirectory = c.rootCaDirectory && context.rootCaFile = c.rootCaFile
      else true)
    && context.timeoutSec = c.timeoutSec

/-- The connection is taken into use if it leads to the place asked for. -/
def setInuseIfReusable (poco : Poco) (c : ConnectionInternal) (url : String)
    (context : EasyHttpContext) : Bool × ConnectionInternal :=
  if c.isReusable poco url context then (true, { c with connectionStatus := .inuse })
  else (false, c)

/-- `cancel` also shuts the socket down. -/
def cancel (c : ConnectionInternal) : ConnectionInternal := { c with cancelled := true }

/-- Who is told when the connection is released. -/
def setConnectionStatusListener (c : ConnectionInternal) (listener : Option ListenerPtr) :
    ConnectionInternal :=
  { c with connectionStatusListener := listener }

/-- `listenerInvalidated` is what the listener answers from `onIdle`, if there is one. -/
def onConnectionReleased (c : ConnectionInternal) (listenerInvalidated : Bool) :
    Bool × ConnectionInternal :=
  let c := if c.connectionStatusListener.isSome && listenerInvalidated then
    c.setConnectionStatusListener none else c
  if c.connectionStatus = .idle then (false, c)
  else (true, { c with connectionStatus := .idle })

/-! ## What the methods do -/

section
variable {poco : Poco} {c : ConnectionInternal} {url : String} {context : EasyHttpContext}

/-- A new connection is in use, and nobody has cancelled it. -/
theorem create_status {created : ConnectionInternal}
    (h : create poco url context = .ok created) :
    created.connectionStatus = .inuse ∧ created.cancelled = false := by
  unfold create at h
  split at h
  · cases h
  · cases h
    exact ⟨rfl, rfl⟩

/-- Only a connection that waits is reusable. -/
theorem idle_of_isReusable (h : c.isReusable poco url context = true) :
    c.connectionStatus = .idle := by
  simp only [isReusable, Bool.and_eq_true, decide_eq_true_eq] at h
  exact h.1.1.1.1

/-- `setInuseIfReusable` answers whether the connection is reusable. -/
theorem setInuseIfReusable_fst :
    (c.setInuseIfReusable poco url context).1 = c.isReusable poco url context := by
  unfold setInuseIfReusable
  split
  · rename_i h
    exact h.symm
  · rename_i h
    exact (Bool.eq_false_iff.mpr h).symm

/-- `setInuseIfReusable` changes the status only. -/
theorem setInuseIfReusable_snd (h : c.isReusable poco url context = true) :
    (c.setInuseIfReusable poco url context).2 = { c with connectionStatus := .inuse } := by
  unfold setInuseIfReusable
  rw [if_pos h]

end

/-- The listener after `onConnectionReleased`. -/
def listenerAfter (c : ConnectionInternal) (listenerInvalidated : Bool) : Option ListenerPtr :=
  if listenerInvalidated then none else c.connectionStatusListener

/-- A release is answered with whether the connection was in use. -/
theorem onConnectionReleased_eq (c : ConnectionInternal) (listenerInvalidated : Bool) :
    c.onConnectionReleased listenerInvalidated =
      (decide (c.connectionStatus = .inuse), { c with
        connectionStatus := .idle
        connectionStatusListener := c.listenerAfter listenerInvalidated }) := by
  obtain ⟨status, _, _, _, _, _, _, _, _, listener⟩ := c
  cases status <;> cases listener <;> cases listenerInvalidated <;> rfl

end ConnectionInternal

end EasyHttp

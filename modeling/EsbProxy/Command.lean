import EsbProxy.Bytes

/-!
# Commands and frames

The message `Command` of `command.proto`, with one optional value for each field, so that a
field that was never set, or that a failed parse left unset, differs from one that was set to
its default. The accessor of a field returns the default of an unset field, as the generated
code does. Fields that no handler reads or writes (`start_time`, `timeout_ms`) are left out.

A frame is what a publisher sends: the topic, a tab, and the serialized command.

## Main definitions

* `Cmd`, `RegistryEntry`, `Command`: the message types of `command.proto`.
* `Frame`, `publish`, `publishOn`: the frames of `Publisher::Publish`.
-/

namespace EsbProxy

/-- `Command.Cmd` of `command.proto`. -/
inductive Cmd
  | error
  | response
  | errorResponse
  | nodeHello
  | proxyHello
  | ping
  | pong
  | invoke
  | registerInvoke
  | registerInvokeOk
  | registryExchangeRequest
  | registryExchangeResponse
  | publish
  | subscribe
  deriving DecidableEq, Repr

/-- The number of a command on the wire. -/
def Cmd.number : Cmd → ℕ
  | error => 1
  | response => 2
  | errorResponse => 3
  | nodeHello => 4
  | proxyHello => 5
  | ping => 6
  | pong => 7
  | invoke => 8
  | registerInvoke => 9
  | registerInvokeOk => 10
  | registryExchangeRequest => 11
  | registryExchangeResponse => 12
  | publish => 13
  | subscribe => 14

/-- `Command.RegistryEntryType` of `command.proto`. -/
inductive RegistryEntryType
  | invokeMethod
  deriving DecidableEq, Repr

/-- `Command.RegistryEntry` of `command.proto`: all four fields are required. -/
structure RegistryEntry where
  type? : Option RegistryEntryType := none
  identifier? : Option Bytes := none
  methodGuid? : Option Bytes := none
  proxyGuid? : Option Bytes := none
  deriving DecidableEq

namespace RegistryEntry

def type (e : RegistryEntry) : RegistryEntryType := e.type?.getD .invokeMethod

def identifier (e : RegistryEntry) : Bytes := e.identifier?.getD []

def methodGuid (e : RegistryEntry) : Bytes := e.methodGuid?.getD []

def proxyGuid (e : RegistryEntry) : Bytes := e.proxyGuid?.getD []

end RegistryEntry

/-- `Command` of `command.proto`. The fields `cmd`, `source_proxy_guid` and `payload` are
required. -/
structure Command where
  cmd? : Option Cmd := none
  sourceProxyGuid? : Option Bytes := none
  payload? : Option Bytes := none
  targetProxyGuid? : Option Bytes := none
  identifier? : Option Bytes := none
  guidFrom? : Option Bytes := none
  guidTo? : Option Bytes := none
  recursion? : Option ℤ := none
  regEntry : List RegistryEntry := []
  deriving DecidableEq

namespace Command

/-- The command number; `ERROR`, the first one, when unset. -/
def cmd (c : Command) : Cmd := c.cmd?.getD .error

def sourceProxyGuid (c : Command) : Bytes := c.sourceProxyGuid?.getD []

def payload (c : Command) : Bytes := c.payload?.getD []

def identifier (c : Command) : Bytes := c.identifier?.getD []

def guidFrom (c : Command) : Bytes := c.guidFrom?.getD []

def guidTo (c : Command) : Bytes := c.guidTo?.getD []

def recursion (c : Command) : ℤ := c.recursion?.getD 0

/-- A reply: `RESPONSE` or `ERROR_RESPONSE`. -/
def IsReply (c : Command) : Prop := c.cmd = .response ∨ c.cmd = .errorResponse

instance (c : Command) : Decidable c.IsReply := inferInstanceAs (Decidable (_ ∨ _))

end Command

/-- What a publisher sends: the topic, which the transport matches against the filters of the
subscribers, and the command. On the wire a tab stands between them. -/
structure Frame where
  topic : Bytes
  command : Command
  deriving DecidableEq

/-- The bytes of a topic: `size` bytes copied from a string and its terminating NUL. What
`memcpy` would read behind the NUL of a shorter string is left out. -/
def topicOf (target : Bytes) (size : ℕ) : Bytes := (target ++ [0]).take size

/-- `Publisher::Publish(targetGuid, guidSize, cmd)`. -/
def publishOn (target : Bytes) (size : ℕ) (cmd : Command) : Frame := ⟨topicOf target size, cmd⟩

/-- `Publisher::Publish(targetGuid, cmd)`: publish on the channel of a guid. -/
def publish (targetGuid : Bytes) (cmd : Command) : Frame := publishOn targetGuid GUID_SIZE cmd

@[simp] theorem publish_topic (targetGuid : Bytes) (cmd : Command) :
    (publish targetGuid cmd).topic = topicOf targetGuid GUID_SIZE := rfl

@[simp] theorem publish_command (targetGuid : Bytes) (cmd : Command) :
    (publish targetGuid cmd).command = cmd := rfl

/-- A string that has as many bytes as are copied is the topic. -/
theorem topicOf_eq_self {target : Bytes} {size : ℕ} (h : target.length = size) :
    topicOf target size = target := by
  rw [topicOf, ← h, List.take_left]

/-- The topic is the first bytes of a string that is long enough. -/
theorem topicOf_of_le {target : Bytes} {size : ℕ} (h : size ≤ target.length) :
    topicOf target size = target.take size :=
  List.take_append_of_le_length h

/-- The topic made of a string without NUL is a given string without NUL exactly when that one
has as many bytes as are copied and begins the first one. -/
theorem topicOf_eq_iff {target guid : Bytes} {size : ℕ} (hguid : 0 ∉ guid) :
    topicOf target size = guid ↔ guid.length = size ∧ guid <+: target := by
  constructor
  · intro heq
    have hlen : size ≤ target.length := by
      by_contra hlt
      refine hguid (heq ▸ ?_)
      rw [topicOf, List.take_of_length_le (by rw [List.length_append]; simp; omega)]
      simp
    rw [topicOf_of_le hlen] at heq
    refine ⟨?_, heq ▸ List.take_prefix _ _⟩
    rw [← heq, List.length_take, Nat.min_eq_left hlen]
  · rintro ⟨rfl, hbegins⟩
    rw [topicOf_of_le hbegins.length_le]
    exact (List.prefix_iff_eq_take.mp hbegins).symm

end EsbProxy

import SystemInformer.Driver.CommsNotify

/-!
# Messages to the clients (`KphpCommsSendMessage`)

One message goes to every connected client in turn, and one buffer takes their replies.
A turn is what the outside does while the loop is at a client: how the send ends, the
bytes it puts into the reply buffer, the state of the client's process afterwards, and
the allocations of the asynchronous path. A reply may be any string of bytes that fits,
shorter than a message or not.

`π` are the process objects. The timeout of a send, which is all that `FromAsyncQueue`
decides, is not modelled: a send may time out at any turn.
-/

namespace SystemInformer.Driver

open Bytes KphLib

/-! ## Clients -/

structure InformerSettings where
  flags : UInt64
  flags2 : UInt64
  flags3 : UInt64

def kphCheckInformerSettings (target settings : InformerSettings) : Bool :=
  target.flags &&& settings.flags ≠ 0 || target.flags2 &&& settings.flags2 ≠ 0 ||
    target.flags3 &&& settings.flags3 ≠ 0

def maxKphMsgClientAllowed : Nat := 0x40000000

/-- `map` is `KphpInformerMap`: the setting of each kernel message, if it has one. -/
def kphInformerForMessageId (map : List (Option InformerSettings)) (messageId : Nat) :
    Option InformerSettings :=
  if messageId > maxKphMsgClientAllowed ∧ messageId < maxKphMsg then
    (map[messageId - (maxKphMsgClientAllowed + 1)]?).join
  else
    none

structure CommsClient (π : Type) where
  process : π
  informerSettings : InformerSettings

/-- The client takes part: there is no informer for the message, or it is enabled. -/
def CommsClient.enabled {π : Type} (client : CommsClient π)
    (informer : Option InformerSettings) : Bool :=
  informer.all (kphCheckInformerSettings client.informerSettings)

structure ClientTurn where
  filterReference : NtStatus
  sendMessage : NtStatus
  written : List UInt8
  written_le : written.length ≤ sizeofMessage
  processState : ProcessState
  allocateCopy : Bool
  acquireRundown : Bool
  allocateItem : Bool
  timeStamp : UInt64

/-- What is done with the message at the turn of a client, which is named by its place:
it is sent, a copy is queued for the client's process, or the copy is dropped. -/
inductive Offer (π : Type) where
  | sent (client : Nat)
  | queued (client : Nat) (process : π) (copy : List UInt8)
  | dropped (client : Nat)
  deriving DecidableEq

/-! ## A turn -/

def kphpFltSendMessage (turn : ClientTurn) : NtStatus :=
  if ntSuccess turn.filterReference = false then turn.filterReference
  else if turn.sendMessage = statusTimeout then statusIoTimeout
  else turn.sendMessage

def ClientTurn.write (turn : ClientTurn) (reply : Mem) : Mem :=
  if ntSuccess turn.filterReference = false then reply
  else (Store.mk 0 turn.written).apply reply

/-- The stores of `KphMsgInit(reply, KphMsgUnhandled)`. -/
def unhandledReply (timeStamp : UInt64) (reply : Mem) : Mem :=
  applyLog reply (kphMsgInit 0xffffffff timeStamp)

/-- The status of a send that asks for the reply, once the buffer is written: the send
went through, the client is trusted and the reply validates. -/
def replyStatus (turn : ClientTurn) (written : Mem) : NtStatus :=
  if ntSuccess (kphpFltSendMessage turn) = false then
    kphpFltSendMessage turn
  else if hasState turn.processState kphProcessStateMaximum = false then
    statusReplyMessageMismatch
  else
    kphMsgValidate written

/-- What such a send leaves in the buffer. -/
def takeReply (turn : ClientTurn) (reply : Mem) : Mem :=
  if ntSuccess (replyStatus turn (turn.write reply)) = false then
    unhandledReply turn.timeStamp (turn.write reply)
  else
    turn.write reply

/-- The asynchronous path, with `KphpCommsSendMessageAsync`. -/
def sendCopy {π : Type} (message : Mem) (i : Nat) (client : CommsClient π) (turn : ClientTurn) :
    Offer π :=
  if turn.allocateCopy = false then .dropped i
  else if turn.acquireRundown = false then .dropped i
  else if turn.allocateItem = false then .dropped i
  else .queued i client.process (load message 0 (headerSize message))

/-! ## The loop -/

section

variable {π : Type} [DecidableEq π]

/-- The loop over the clients from place `i` on, called by the process `current`. -/
def kphpCommsSendLoop (informer : Option InformerSettings) (current : π) (target : Option π)
    (message : Mem) : Nat → List (CommsClient π × ClientTurn) → Option Mem →
      List (Offer π) × Option Mem
  | _, [], reply => ([], reply)
  | i, (client, turn) :: rest, reply =>
      let next := kphpCommsSendLoop informer current target message (i + 1) rest
      if target.all (· = client.process) = false then
        next reply
      else if client.enabled informer = false then
        next reply
      else match reply with
        | none =>
            let r := next none
            (.sent i :: r.1, r.2)
        | some m =>
            if headerMessageId m = kphMsgUnhandled then
              if current = client.process then
                let r := next (some m)
                (sendCopy message i client turn :: r.1, r.2)
              else
                let r := next (some (takeReply turn m))
                (.sent i :: r.1, r.2)
            else
              let r := next (some m)
              (.sent i :: r.1, r.2)

/-- The status, what was done with the message, and the reply buffer if there is one. -/
def kphpCommsSendMessage (map : List (Option InformerSettings)) (current : π)
    (target : Option π) (message : Mem) (clients : List (CommsClient π × ClientTurn))
    (reply : Option Mem) (timeStamp : UInt64) : NtStatus × List (Offer π) × Option Mem :=
  let reply := reply.map (unhandledReply timeStamp)
  if clients = [] then
    (statusConnectionDisconnected, [], reply)
  else
    (statusSuccess, kphpCommsSendLoop (kphInformerForMessageId map (headerMessageId message))
      current target message 0 clients reply)

end

end SystemInformer.Driver

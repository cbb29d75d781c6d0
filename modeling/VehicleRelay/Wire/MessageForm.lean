import VehicleRelay.Wire.FieldKind

/-!
# Forms of messages

The form of a message lists its fields by number.  A message is written as its
fields in order.  It is read by merging raw fields one after the other into a
message with initial contents; fields of other numbers are ignored.
-/

namespace VehicleRelay.Wire

structure MessageField (Message : Type) where
  number : Nat
  {Contents : Type}
  kind : FieldKind Contents
  get : Message → Contents
  set : Contents → Message → Message

structure MessageForm (Message : Type) where
  initial : Message
  fields : List (MessageField Message)

namespace MessageForm

variable {Message : Type} (form : MessageForm Message)

def write (message : Message) : List UInt8 :=
  form.fields.flatMap fun field => field.kind.write field.number (field.get message)

def size (message : Message) : Nat :=
  total (fun field : MessageField Message => field.kind.size field.number (field.get message))
    form.fields

def mergeField? (limit : Nat) (message : Message) (raw : RawField) : Option Message :=
  match form.fields.find? fun field => field.number == raw.number with
  | none => some message
  | some field => do
      let contents ← field.kind.merge? limit raw.value (field.get message)
      some (field.set contents message)

def mergeFields? (limit : Nat) (message : Message) (raws : List RawField) : Option Message :=
  raws.foldlM (form.mergeField? limit) message

def merge? (limit : Nat) (message : Message) (bytes : List UInt8) : Option Message := do
  let raws ← RawField.readAll limit bytes
  form.mergeFields? limit message raws

/-- Messages and groups nest at most one hundred deep. -/
def nestingLimit : Nat := 100

def read? (bytes : List UInt8) : Option Message :=
  form.merge? nestingLimit form.initial bytes

def writeNested (number : Nat) (message : Message) : List UInt8 :=
  writeKey number .delimited ++ (WireValue.delimited (form.write message)).write

def nestedSize (number : Nat) (message : Message) : Nat :=
  keySize number .delimited + Varint.size (form.size message) + form.size message

/-- Merges a nested message into what was there before. -/
def mergeNested? (limit : Nat) (wire : WireValue) (message : Message) : Option Message :=
  match limit, wire with
  | limit + 1, .delimited bytes => form.merge? limit message bytes
  | _, _ => none

/-- A field with a message or none.  Later occurrences are merged into the first
one. -/
def optional : FieldKind (Option Message) where
  initial := none
  write number
    | none => []
    | some message => form.writeNested number message
  size number
    | none => 0
    | some message => form.nestedSize number message
  merge? limit wire message :=
    (form.mergeNested? limit wire (message.getD form.initial)).map some

/-- A field with a list of messages. -/
def repeated : FieldKind (List Message) where
  initial := []
  write number messages := messages.flatMap (form.writeNested number)
  size number messages := total (form.nestedSize number) messages
  merge? limit wire messages :=
    (form.mergeNested? limit wire form.initial).map fun message => messages ++ [message]

end MessageForm

/-- A type of messages with one form. -/
class WireMessage (Message : Type) where
  form : MessageForm Message

namespace WireMessage

variable {Message : Type} [WireMessage Message]

def encode (message : Message) : List UInt8 :=
  form.write message

def encodedSize (message : Message) : Nat :=
  form.size message

def decode? (bytes : List UInt8) : Option Message :=
  form.read? bytes

end WireMessage

end VehicleRelay.Wire
